import RegexNfa.Listing
import RegexNfa.CommandLine.Report
import RegexNfa.Proofs.Run.Configurations
import RegexNfa.Proofs.Text.Decoration

/-!
# Colour decorates what is printed

Under the two palettes the same is printed, but for the codes (`Automaton.colour_is_decoration`).  Names of states,
numbers and headings are visible all through, and a quoted character or input is too, so none of them brings a code
along.  The one character that is written raw is that of an edge in a listing: it may be an escape character, but the
blank before the arrow keeps it from beginning a code.

A narrator carries its lines from one observation to the next.  `Narrator.Twins` relates the two that differ by their
palette; an observation keeps them related, so a run does, and inputs one after the other do.
-/

namespace RegexNfa

/-! ## Narrated lines -/

namespace Narrator

variable {label : String}

lemma tints_padTo (hlabel : '\x1b' ∉ label.toList) (width : Nat) : Tints (padTo width label) (padTo width label) := by
  refine (Tints.same hlabel).append (.same ?_)
  rw [String.toList_ofList]
  intro hmem
  exact absurd (List.eq_of_mem_replicate hmem) (by decide)

lemma escape_not_mem_charLabel (c : Char) (consumed : Nat) : '\x1b' ∉ (charLabel c consumed).toList := by
  have hquoted : AllVisible (Quoted.char c).toList := by
    rw [Quoted.char, String.toList_ofList]
    exact Quoted.allVisible_encode (by decide) [c]
  have hlabel : AllVisible (Quoted.char c ++ (" @" ++ toString consumed)).toList := by
    rw [String.toList_append, String.toList_append]
    exact hquoted.append (.cons (by decide) (.cons (by decide) (Quoted.allVisible_toString consumed)))
  exact hlabel.not_mem (by decide)

lemma tints_showSet (s : StateSet) : Tints (showSet .on s) (showSet .off s) := by
  unfold showSet
  split
  · exact .painted Palette.red (by decide) rfl (.same (by decide))
  · refine ((Tints.same (by decide)).append (.intercalate (by decide) (Tints.each ?_))).append (.same (by decide))
    intro id _
    exact .painted Palette.blue (by decide) rfl (.visible (Graph.allVisible_stateName id))

lemma tints_mainLine (hlabel : '\x1b' ∉ label.toList) (s : StateSet) :
    Tints (mainLine .on label s) (mainLine .off label s) :=
  ((tints_padTo hlabel 10).append (.same (by decide))).append (tints_showSet s)

/-- The label is padded before it is painted, so the codes do not count towards the width of the column. -/
lemma tints_subLine (hlabel : '\x1b' ∉ label.toList) (v : Verbosity) (source target : StateSet) :
    List.Forall₂ Tints (subLine v .on label source target) (subLine v .off label source target) := by
  have hhead : Tints ("  " ++ Palette.on.paint Palette.on.dim (padTo 8 label) ++ " ")
      ("  " ++ Palette.off.paint Palette.off.dim (padTo 8 label) ++ " ") :=
    ((Tints.same (by decide)).append
      (.painted Palette.dim (by decide) rfl (tints_padTo hlabel 8))).append (.same (by decide))
  cases v with
  | settled => exact .nil
  | steps => exact .cons (hhead.append (tints_showSet target)) .nil
  | origins =>
    have hsource := hhead.append (tints_showSet source)
    exact .cons ((hsource.append (.same (by decide))).append (tints_showSet target)) .nil

lemma tints_verdictLine (accepted : Bool) : Tints (verdictLine .on accepted) (verdictLine .off accepted) := by
  cases accepted with
  | true => exact .painted Palette.green (by decide) rfl (.same (by decide))
  | false => exact .painted Palette.red (by decide) rfl (.same (by decide))

/-- What an observation adds under either palette. -/
lemma tints_linesFor (v : Verbosity) (waiting : Option Waiting) (o : Observation) :
    List.Forall₂ Tints (linesFor v .on waiting o) (linesFor v .off waiting o) := by
  cases o with
  | closed consumed seed closure =>
    refine List.rel_append ?_ (tints_subLine (by decide) v seed closure)
    cases waiting with
    | none => exact .cons (tints_mainLine (by decide) closure) .nil
    | some w =>
      exact .cons (tints_mainLine (escape_not_mem_charLabel w.c consumed) closure)
        (tints_subLine (by decide) v w.before w.after)
  | moved consumed c before after =>
    simp only [linesFor]
    split
    · have hmain := tints_mainLine (escape_not_mem_charLabel c consumed) after
      exact .cons hmain (tints_subLine (by decide) v before after)
    · exact .nil
  | verdict accepted active => exact .cons (tints_verdictLine accepted) .nil

/-- Two narrators that differ by their palette alone. -/
structure Twins (colored plain : Narrator) : Prop where
  colored_palette : colored.palette = .on
  plain_palette : plain.palette = .off
  verbosity : colored.verbosity = plain.verbosity
  waiting : colored.waiting = plain.waiting
  lines : List.Forall₂ Tints colored.lines plain.lines

namespace Twins

variable {colored plain : Narrator}

/-- Narrators that have told nothing yet. -/
lemma fresh (v : Verbosity) : Twins { verbosity := v, palette := .on } { verbosity := v, palette := .off } :=
  ⟨rfl, rfl, rfl, rfl, .nil⟩

lemma note (h : Twins colored plain) (o : Observation) : Twins (colored.note o) (plain.note o) where
  colored_palette := h.colored_palette
  plain_palette := h.plain_palette
  verbosity := h.verbosity
  waiting := congrArg (waitingAfter · o) h.waiting
  lines := by
    show List.Forall₂ Tints (colored.lines ++ linesFor colored.verbosity colored.palette colored.waiting o)
      (plain.lines ++ linesFor plain.verbosity plain.palette plain.waiting o)
    rw [h.colored_palette, h.plain_palette, h.verbosity, h.waiting]
    exact List.rel_append h.lines (tints_linesFor plain.verbosity plain.waiting o)

lemma foldl_note (h : Twins colored plain) (os : List Observation) :
    Twins (os.foldl Narrator.note colored) (os.foldl Narrator.note plain) :=
  List.foldl_rel h fun o _ _ _ hsofar => hsofar.note o

lemma render (h : Twins colored plain) : Tints colored.render plain.render := by
  refine .join ?_
  rw [List.forall₂_map_left_iff, List.forall₂_map_right_iff]
  exact h.lines.imp fun _ _ => Tints.ended

end Twins

end Narrator

/-! ## Listed states -/

namespace Listing

lemma tints_name (id : Nat) : Tints (name .on id) (name .off id) :=
  .painted Palette.blue (by decide) rfl (.visible (Graph.allVisible_stateName id))

/-- The symbol of a group with what stands before and after it.  A character is written as it is; should it be the
escape character, the blank after it has to be seen to tell that no code begins. -/
lemma tints_symbol (s : Symbol) : Tints (" " ++ symbol .on s ++ " → ") (" " ++ symbol .off s ++ " → ") := by
  cases s with
  | epsilon =>
    exact ((Tints.same (by decide)).append
      (.painted Palette.dim (by decide) rfl (.same (by decide)))).append (.same (by decide))
  | char c =>
    have hwritten : (" " ++ String.singleton c ++ " → ").toList = [' ', c, ' ', '→', ' '] := by
      simp [String.toList_append]
    show Tinted (" " ++ String.singleton c ++ " → ").toList (" " ++ String.singleton c ++ " → ").toList
    rw [hwritten]
    by_cases hc : c = '\x1b'
    · subst hc
      exact .char (by decide) (.escape (.refl (by decide)))
    · exact .char (by decide) (.char hc (.refl (by decide)))

lemma tints_group (g : Symbol × List Nat) : Tints (group .on g) (group .off g) := by
  obtain ⟨s, targets⟩ := g
  refine (tints_symbol s).append (.intercalate (by decide) (Tints.each ?_))
  intro id _
  exact tints_name id

lemma tints_marks (start : Nat) (s : State) : Tints (marks .on start s) (marks .off start s) := by
  have hblank : Tints " " " " := .same (by decide)
  have hempty : Tints "" "" := .same (by decide)
  unfold marks
  refine Tints.append ?_ ?_
  · split
    · exact hblank.append (.painted Palette.dim (by decide) rfl (.same (by decide)))
    · exact hempty
  · split
    · exact hblank.append (.painted Palette.green (by decide) rfl (.same (by decide)))
    · exact hempty

lemma tints_edges (s : State) : Tints (edges .on s) (edges .off s) := by
  unfold edges
  split
  · exact (Tints.same (by decide)).append (.painted Palette.dim (by decide) rfl (.same (by decide)))
  · refine .intercalate (by decide) (Tints.each ?_)
    intro g _
    exact tints_group g

lemma tints_line (start : Nat) (s : State) : Tints (line .on start s) (line .off start s) :=
  (((tints_name s.id).append (tints_marks start s)).append (.same (by decide))).append (tints_edges s)

end Listing

namespace Automaton

variable {a : Automaton}

lemma tints_listing (a : Automaton) : Tints (a.listing .on) (a.listing .off) := by
  refine .join (Tints.each ?_)
  intro s _
  exact (Listing.tints_line a.start s).ended

/-! ## Runs -/

/-- A run has one verdict, whichever palette it is narrated in, and leaves twins as it found them. -/
lemma Closed.run_twins (ha : a.Closed) {colored plain : Narrator} (h : colored.Twins plain) (input : String) :
    ∃ accepted colored' plain', a.run Narrator.note colored input = .ok (accepted, colored') ∧
      a.run Narrator.note plain input = .ok (accepted, plain') ∧ colored'.Twins plain' := by
  obtain ⟨settled, entered, hconf⟩ := exists_configurations ha
  refine ⟨_, _, _, run_eq_ok ha hconf Narrator.note colored input, run_eq_ok ha hconf Narrator.note plain input, ?_⟩
  exact (h.foldl_note _).note _

lemma Closed.narrate_twins (ha : a.Closed) {colored plain : Narrator} (h : colored.Twins plain)
    (inputs : List String) :
    ∃ verdicts colored' plain', a.narrate colored inputs = .ok (verdicts, colored') ∧
      a.narrate plain inputs = .ok (verdicts, plain') ∧ colored'.Twins plain' := by
  induction inputs generalizing colored plain with
  | nil => exact ⟨[], colored, plain, rfl, rfl, h⟩
  | cons input inputs ih =>
    obtain ⟨accepted, colored₁, plain₁, hcolored, hplain, h₁⟩ := ha.run_twins h input
    obtain ⟨verdicts, colored₂, plain₂, hcoloreds, hplains, h₂⟩ := ih h₁
    refine ⟨accepted :: verdicts, colored₂, plain₂, ?_, ?_, h₂⟩
    · rw [narrate, Fault.bind_eq_ok]
      exact ⟨_, hcolored, Fault.bind_eq_ok.2 ⟨_, hcoloreds, rfl⟩⟩
    · rw [narrate, Fault.bind_eq_ok]
      exact ⟨_, hplain, Fault.bind_eq_ok.2 ⟨_, hplains, rfl⟩⟩

/-- Whatever the edges are labelled with and whatever is read, deleting the codes from the coloured lines of a
narration, from the coloured listing and from a coloured verdict leaves the plain ones, in which no code is left. -/
theorem colour_is_decoration (ha : a.Closed) (v : Verbosity) (inputs : List String) :
    (∃ verdicts colored plain,
      a.narrate { verbosity := v, palette := .on } inputs = .ok (verdicts, colored) ∧
      a.narrate { verbosity := v, palette := .off } inputs = .ok (verdicts, plain) ∧
      List.Forall₂ Decorates colored.lines plain.lines ∧ Decorates colored.render plain.render) ∧
    Decorates (a.listing .on) (a.listing .off) ∧
    ∀ input accepted, Decorates (CommandLine.verdictLine .on input accepted)
      (CommandLine.verdictLine .off input accepted) := by
  refine ⟨?_, (tints_listing a).decorates, ?_⟩
  · obtain ⟨verdicts, colored, plain, hcolored, hplain, h⟩ := ha.narrate_twins (.fresh v) inputs
    exact ⟨verdicts, colored, plain, hcolored, hplain, h.lines.imp fun _ _ => Tints.decorates, h.render.decorates⟩
  · intro input accepted
    have hquoted : Tints ("  " ++ Quoted.text input) ("  " ++ Quoted.text input) :=
      (Tints.same (by decide)).append (.visible (Quoted.allVisible_text input))
    have hline := (Narrator.tints_verdictLine accepted).append hquoted
    rw [← String.append_assoc, ← String.append_assoc] at hline
    exact hline.decorates

/-- Two states with one edge, on which stands the character that codes begin with. -/
def escaping : Automaton where
  states := [{ id := 0, edges := [(.char '\x1b', 1)] }, { id := 1, accepting := true }]
  start := 0
  accept := 1
  ids_eq := rfl
  start_lt := by decide
  accept_lt := by decide
  accepting_iff := by decide

/-- The edge's own character stays in the listing, and so does all of an input that looks like a code. -/
theorem colour_is_decoration_escaping :
    escaping.Closed ∧
      escaping.listing .on = "\x1b[34mS0\x1b[0m \x1b[2m(start)\x1b[0m: \x1b → \x1b[34mS1\x1b[0m\n" ++
        "\x1b[34mS1\x1b[0m \x1b[32m(accept)\x1b[0m: \x1b[2m∅\x1b[0m\n" ∧
      Palette.on.erase (escaping.listing .on) = "S0 (start): \x1b → S1\nS1 (accept): ∅\n" ∧
      Palette.on.erase (CommandLine.verdictLine .on "\x1b[31m" false) = "reject  \"\\u\x7b1b\x7d[31m\"" ∧
      ∃ verdicts colored plain,
        escaping.narrate { verbosity := .origins, palette := .on } ["\x1b[31m"] = .ok (verdicts, colored) ∧
        escaping.narrate { verbosity := .origins, palette := .off } ["\x1b[31m"] = .ok (verdicts, plain) ∧
        Palette.on.erase colored.render = plain.render := by
  have hclosed : escaping.Closed := by decide
  obtain ⟨hnarrated, hlisting, hverdict⟩ := colour_is_decoration hclosed .origins ["\x1b[31m"]
  obtain ⟨verdicts, colored, plain, hcolored, hplain, _, hrender⟩ := hnarrated
  refine ⟨hclosed, by decide, ?_, ?_, verdicts, colored, plain, hcolored, hplain, hrender.erased⟩
  · rw [hlisting.erased]
    decide
  · rw [(hverdict "\x1b[31m" false).erased]
    decide

end Automaton

end RegexNfa
