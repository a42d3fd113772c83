import Mathlib.Data.List.TakeDrop
import RegexNfa.CommandLine.Item
import RegexNfa.Proofs.CommandLine.Positionals

/-!
# Reading enters the items of a line

Words are read one by one, and an option whose value comes as a word of its own is entered with a delay, when the next
item or the end of the line comes.  `Reading.entered` is what has been given once that is done, and in these terms a
word enters the items it stands for, in order (`Reading.Reads`), perhaps but for the last one, whose value is to come
(`Reading.Awaits`).

So the items of a line that is read can be found (`exists_line`), and whichever items a line stands for, they are what
is given (`Line.given_eq`).
-/

namespace RegexNfa

namespace CommandLine

variable {command : CommandName} {g g' : Given} {s : Switch} {value : Option String}

/-! ## Items one by one -/

/-- Enters one item, at once. -/
def Item.enter (command : CommandName) (g : Given) : Item → Except Refusal Given
  | positional w =>
    if command.hasRoom g.positionals.length then .ok { g with positionals := g.positionals ++ [w] }
    else .error .unknownArgument
  | option s value => g.enter s value

/-- Enters the items in order. -/
def Given.enterAll (command : CommandName) (g : Given) (items : List Item) : Except Refusal Given :=
  items.foldlM (Item.enter command) g

lemma Given.enterAll_append (items rest : List Item) :
    g.enterAll command (items ++ rest) = g.enterAll command items >>= fun g => g.enterAll command rest :=
  List.foldlM_append

lemma Given.enterAll_singleton (item : Item) : g.enterAll command [item] = item.enter command g := by
  rw [enterAll, List.foldlM_cons]
  exact bind_pure _

namespace Reading

variable {r r₁ r₂ : Reading} {w v : String} {items rest : List Item}

/-- What has been given once the pending option is entered. -/
def entered (r : Reading) : Except Refusal Given :=
  Reading.given <$> r.settle

lemma entered_of_settle (h : r.settle = .ok r₁) : r.entered = .ok r₁.given := by
  rw [entered, h]
  rfl

lemma entered_of_none (h : r.pending = none) : r.entered = .ok r.given :=
  entered_of_settle (settle_of_none h)

lemma entered_of_some {given : Given} {only : Bool} :
    entered { given, pending := some (s, value), onlyPositionals := only } = given.enter s value := by
  simp only [entered, settle]
  cases given.enter s value with
  | error refusal => rfl
  | ok g => rfl

/-- No option waits for its value. -/
def Free (r : Reading) : Prop :=
  ∀ s, r.pending ≠ some (s, none)

lemma free_of_none (h : r.pending = none) : r.Free := by
  intro s hs
  rw [h] at hs
  exact absurd hs (by simp)

/-- Between the two readings these items were entered, all with their values. -/
structure Reads (command : CommandName) (r : Reading) (items : List Item) (r₁ : Reading) : Prop where
  free : r₁.Free
  mode : r₁.onlyPositionals = r.onlyPositionals
  entered : r₁.entered = r.entered >>= fun g => g.enterAll command items

/-- Between the two readings these items were entered, and after them came an option that waits for its value. -/
structure Awaits (command : CommandName) (r : Reading) (items : List Item) (s : Switch) (r₁ : Reading) : Prop where
  pending : r₁.pending = some (s, none)
  mode : r₁.onlyPositionals = r.onlyPositionals
  given : (r.entered >>= fun g => g.enterAll command items) = .ok r₁.given

lemma Reads.refl (h : r.Free) : Reads command r [] r where
  free := h
  mode := rfl
  entered := (bind_pure _).symm

lemma Reads.entered_append (h : Reads command r items r₁)
    (h' : r₂.entered = r₁.entered >>= fun g => g.enterAll command rest) :
    r₂.entered = r.entered >>= fun g => g.enterAll command (items ++ rest) := by
  rw [h', h.entered, bind_assoc]
  simp only [Given.enterAll_append]

lemma Reads.append (h : Reads command r items r₁) (h' : Reads command r₁ rest r₂) :
    Reads command r (items ++ rest) r₂ where
  free := h'.free
  mode := h'.mode.trans h.mode
  entered := h.entered_append h'.entered

lemma Reads.awaits (h : Reads command r items r₁) (h' : Awaits command r₁ rest s r₂) :
    Awaits command r (items ++ rest) s r₂ where
  pending := h'.pending
  mode := h'.mode.trans h.mode
  given := by
    rw [← h'.given, h.entered, bind_assoc]
    simp only [Given.enterAll_append]

/-- The word after an option that waits is its value. -/
lemma Awaits.reads (h : Awaits command r items s r₁) (v : String) :
    Reads command r (items ++ [.option s (some v)]) { r₁ with pending := some (s, some v) } where
  free := by
    intro t ht
    exact absurd ht (by simp)
  mode := h.mode
  entered := by
    rw [entered_of_some]
    simp only [Given.enterAll_append, Given.enterAll_singleton]
    rw [← bind_assoc, h.given]
    rfl

/-! ## One option, one positional -/

lemma reads_complete (h : r.complete s value = .ok r₁) : Reads command r [.option s value] r₁ := by
  obtain ⟨settled, hsettled, h⟩ := Refusal.bind_eq_ok.1 h
  obtain ⟨given, hgiven, h⟩ := Refusal.bind_eq_ok.1 h
  obtain rfl := Except.ok.inj h
  obtain ⟨hpending, hmode, _⟩ := settle_eq_ok hsettled
  have hdone : entered { settled with given } = .ok given := entered_of_none hpending
  refine ⟨free_of_none hpending, hmode, ?_⟩
  rw [hdone, entered_of_settle hsettled]
  simp only [Given.enterAll_singleton]
  exact hgiven.symm

lemma awaits_await (h : r.await s = .ok r₁) : Awaits command r [] s r₁ := by
  obtain ⟨settled, hsettled, h⟩ := Refusal.bind_eq_ok.1 h
  obtain rfl := Except.ok.inj h
  refine ⟨rfl, (settle_eq_ok hsettled).2.1, ?_⟩
  rw [entered_of_settle hsettled]
  rfl

lemma reads_positional (h : r.positional command w = .ok r₁) : Reads command r [.positional w] r₁ := by
  unfold positional at h
  split_ifs at h with hroom
  obtain ⟨settled, hsettled, h⟩ := Refusal.bind_eq_ok.1 h
  obtain rfl := Except.ok.inj h
  obtain ⟨hpending, hmode, hpositionals⟩ := settle_eq_ok hsettled
  have hdone : (settled.adding [w]).entered = .ok (settled.adding [w]).given := entered_of_none hpending
  refine ⟨free_of_none hpending, hmode, ?_⟩
  rw [← hpositionals] at hroom
  rw [entered_of_settle hsettled]
  simp only [Given.enterAll_singleton]
  exact hdone.trans (if_pos hroom).symm

/-! ## One word -/

/-- What is left after a word that stands for the items: nothing that waits, or the option that does. -/
def After (command : CommandName) (r : Reading) (items : List Item) (r₁ : Reading) : Option Switch → Prop
  | none => Reads command r items r₁
  | some s => Awaits command r items s r₁

lemma Reads.after {last : Option Switch} (h : Reads command r items r₁) (h' : After command r₁ rest r₂ last) :
    After command r (items ++ rest) r₂ last := by
  cases last with
  | none => exact h.append h'
  | some s => exact h.awaits h'

end Reading

/-! ### Names of options -/

lemma find?_eq_some_of_unique {α : Type} {p : α → Bool} {xs : List α} {a : α} (hmem : a ∈ xs) (ha : p a = true)
    (hunique : ∀ b, p b = true → b = a) : xs.find? p = some a := by
  cases hfind : xs.find? p with
  | none => exact absurd ha (List.find?_eq_none.1 hfind a hmem)
  | some b => rw [hunique b (List.find?_some hfind)]

lemma Switch.eq_of_long {s t : Switch} (h : s.long? = t.long?) : s = t := by
  cases s <;> cases t <;> first | rfl | exact absurd h (by decide)

lemma Switch.eq_of_short {s t : Switch} {c : Char} (hs : s.short? = some c) (ht : t.short? = some c) : s = t := by
  rw [← ht] at hs
  cases s <;> cases t <;> first | rfl | exact absurd hs (by decide) | exact absurd ht (by simp [short?])

lemma CommandName.find_long {name : String} (known : s ∈ command.switches) (named : s.long? = some name) :
    command.switches.find? (·.long? = some name) = some s := by
  refine find?_eq_some_of_unique known (decide_eq_true named) ?_
  intro t ht
  exact Switch.eq_of_long ((of_decide_eq_true ht).trans named.symm)

lemma CommandName.find_short {c : Char} (known : s ∈ command.switches) (letter : s.short? = some c) :
    command.switches.find? (·.short? = some c) = some s := by
  refine find?_eq_some_of_unique known (decide_eq_true letter) ?_
  intro t ht
  exact Switch.eq_of_short (of_decide_eq_true ht) letter

/-- No name is empty or holds the sign that stands before an attached value. -/
lemma Switch.name_of_long {name : String} (h : s.long? = some name) : name.toList ≠ [] ∧ '=' ∉ name.toList := by
  cases s <;> simp [long?] at h <;> subst h <;> decide

lemma Switch.dash_of_short {c : Char} (h : s.short? = some c) : c ≠ '-' := by
  cases s <;> simp [short?] at h <;> subst h <;> decide

lemma Letters.takesValue {letters : List Char} {items : List Item} {last : Option Switch}
    (h : Letters command letters items last) : ∀ s ∈ last, s.takesValue = true := by
  induction h with
  | nil | attached | equals => simp
  | flag _ _ _ _ ih => exact ih
  | last _ _ valued => simpa using valued

/-- Only an option that has a value waits for one. -/
lemma Word.takesValue {w : String} {items : List Item} (h : Word command w items (some s)) : s.takesValue = true := by
  cases h with
  | last _ _ valued => exact valued
  | letters _ h => exact h.takesValue s rfl

/-- No letter is the dash, so a group of letters is told from a name. -/
lemma Letters.head_ne_dash {c : Char} {letters : List Char} {items : List Item} {last : Option Switch}
    (h : Letters command (c :: letters) items last) : c ≠ '-' := by
  cases h with
  | flag _ letter | attached _ letter | equals _ letter | last _ letter => exact Switch.dash_of_short letter

namespace Reading

variable {r r₁ r₂ : Reading} {w v : String} {items rest : List Item}

/-! ### Letters -/

lemma after_of_letters {letters : List Char} {last : Option Switch} (h : Letters command letters items last)
    (hfree : r.Free) (hread : r.short command letters = .ok r₁) : After command r items r₁ last := by
  induction h generalizing r with
  | nil =>
    obtain rfl := Except.ok.inj hread
    exact .refl hfree
  | @flag c s letters items last known letter bare _ ih =>
    rw [short, CommandName.find_short known letter] at hread
    simp only [bare, Bool.false_eq_true, if_false] at hread
    obtain ⟨next, hnext, hread⟩ := Refusal.bind_eq_ok.1 hread
    have hoption : Reads command r [.option s none] next := reads_complete hnext
    exact hoption.after (ih hoption.free hread)
  | @attached c s value known letter valued present unmarked =>
    rw [short, CommandName.find_short known letter] at hread
    simp only [valued, if_true] at hread
    split at hread
    · exact absurd rfl present
    · exact absurd rfl unmarked
    · exact reads_complete hread
  | equals known letter valued =>
    rw [short, CommandName.find_short known letter] at hread
    simp only [valued, if_true] at hread
    exact reads_complete hread
  | last known letter valued =>
    rw [short, CommandName.find_short known letter] at hread
    simp only [valued, if_true] at hread
    exact awaits_await hread

lemma exists_letters {letters : List Char} (hread : r.short command letters = .ok r₁) :
    ∃ items last, Letters command letters items last := by
  induction letters generalizing r with
  | nil => exact ⟨[], none, .nil⟩
  | cons c rest ih =>
    unfold short at hread
    split at hread
    · exact absurd hread (by simp)
    · next s hfind =>
      have known : s ∈ command.switches := List.mem_of_find?_eq_some hfind
      have letter : s.short? = some c := by
        have hfound := List.find?_some hfind
        exact of_decide_eq_true hfound
      split_ifs at hread with hvalued
      · cases rest with
        | nil => exact ⟨_, _, .last known letter hvalued⟩
        | cons d value =>
          by_cases hd : d = '='
          · subst hd
            exact ⟨_, _, .equals known letter hvalued⟩
          · refine ⟨_, _, .attached known letter hvalued (List.cons_ne_nil d value) ?_⟩
            intro hmarked
            exact hd (Option.some.inj hmarked)
      · obtain ⟨next, _, hread⟩ := Refusal.bind_eq_ok.1 hread
        obtain ⟨items, last, hletters⟩ := ih hread
        exact ⟨_, last, .flag known letter (Bool.eq_false_iff.2 hvalued) hletters⟩

/-! ### Whole words -/

lemma toList_name (name : String) : ("--" ++ name).toList = '-' :: '-' :: name.toList :=
  String.toList_append ..

lemma toList_equals (name value : String) :
    ("--" ++ name ++ "=" ++ value).toList = '-' :: '-' :: (name.toList ++ '=' :: value.toList) := by
  rw [String.toList_append, String.toList_append, String.toList_append, List.append_assoc]
  rfl

/-- How a word starts decides how it is read. -/
lemma word_shapes (w : String) :
    w = "--" ∨ (∃ body, body ≠ [] ∧ w.toList = '-' :: '-' :: body) ∨
      (∃ c letters, c ≠ '-' ∧ w.toList = '-' :: c :: letters) ∨ Plain w := by
  by_cases hdash : w.toList.head? = some '-'
  · obtain ⟨cs, hcs⟩ := List.head?_eq_some_iff.1 hdash
    cases cs with
    | nil => exact .inr (.inr (.inr fun _ => String.toList_inj.1 hcs))
    | cons c letters =>
      by_cases hc : c = '-'
      · subst hc
        cases letters with
        | nil => exact .inl (String.toList_inj.1 hcs)
        | cons d body => exact .inr (.inl ⟨_, List.cons_ne_nil d body, hcs⟩)
      · exact .inr (.inr (.inl ⟨c, letters, hc, hcs⟩))
  · exact .inr (.inr (.inr fun h => absurd h hdash))

lemma word_of_plain (hopen : r.onlyPositionals = false) (h : Plain w) : r.word command w = r.plain command w := by
  have hdash : ∀ cs, w.toList = '-' :: cs → cs = [] := by
    intro cs hcs
    have hhead : w.toList.head? = some '-' := by rw [hcs]; rfl
    rw [h hhead] at hcs
    exact (List.cons.inj hcs).2.symm
  rw [word, hopen, if_neg Bool.false_ne_true]
  split
  · next hcs => exact absurd (hdash _ hcs) (by simp)
  · next hcs => exact absurd (hdash _ hcs) (by simp)
  · next hcs => exact absurd (hdash _ hcs) (by simp)
  · rfl

lemma word_of_dashes {body : List Char} (hopen : r.onlyPositionals = false) (hw : w.toList = '-' :: '-' :: body)
    (hbody : body ≠ []) : r.word command w = r.long command body := by
  rw [word, hopen, if_neg Bool.false_ne_true, hw]
  cases body with
  | nil => exact absurd rfl hbody
  | cons c body => rfl

lemma word_of_dash {c : Char} {letters : List Char} (hopen : r.onlyPositionals = false)
    (hw : w.toList = '-' :: c :: letters) (hc : c ≠ '-') : r.word command w = r.short command (c :: letters) := by
  rw [word, hopen, if_neg Bool.false_ne_true, hw]
  split
  · next hcs => exact absurd (List.cons.inj (List.cons.inj hcs).2).1 hc
  · next hcs => exact absurd (List.cons.inj (List.cons.inj hcs).2).1 hc
  · next hcs => rw [(List.cons.inj hcs).2]
  · next hother => exact absurd rfl (hother c letters)

/-- A name is cut off where the value is attached, or at the end. -/
lemma span_name {name rest : List Char} (hname : '=' ∉ name) (hrest : ∀ c ∈ rest.head?, c = '=') :
    (name ++ rest).span (· ≠ '=') = (name, rest) := by
  have hall : ∀ c ∈ name, decide (c ≠ '=') = true := by
    intro c hc
    exact decide_eq_true fun heq => hname (heq ▸ hc)
  rw [List.span_eq_takeWhile_dropWhile, List.takeWhile_append_of_pos hall, List.dropWhile_append_of_pos hall]
  cases rest with
  | nil => rw [List.takeWhile_nil, List.dropWhile_nil, List.append_nil]
  | cons c rest =>
    obtain rfl : c = '=' := hrest c rfl
    simp

lemma exists_name (body : List Char) :
    ∃ name rest, body = name ++ rest ∧ '=' ∉ name ∧ ∀ c ∈ rest.head?, c = '=' := by
  induction body with
  | nil => exact ⟨[], [], rfl, List.not_mem_nil, by simp⟩
  | cons c body ih =>
    by_cases hc : c = '='
    · exact ⟨[], c :: body, rfl, List.not_mem_nil, by simp [hc]⟩
    · obtain ⟨name, rest, rfl, hname, hrest⟩ := ih
      exact ⟨c :: name, rest, rfl, by simp [hname, Ne.symm hc], hrest⟩

lemma long_of_name {name : String} (known : s ∈ command.switches) (named : s.long? = some name) :
    r.long command name.toList = if s.takesValue then r.await s else r.complete s none := by
  have hspan : (name.toList ++ []).span (· ≠ '=') = (name.toList, []) :=
    span_name (Switch.name_of_long named).2 (by simp)
  rw [List.append_nil] at hspan
  rw [long, hspan]
  simp only [String.ofList_toList, CommandName.find_long known named, List.isEmpty_nil, if_true]
  cases s.takesValue with
  | true => rfl
  | false => rfl

lemma long_of_equals {name : String} (value : List Char) (known : s ∈ command.switches) (named : s.long? = some name)
    (valued : s.takesValue = true) :
    r.long command (name.toList ++ '=' :: value) = r.complete s (some (String.ofList value)) := by
  have hspan : (name.toList ++ '=' :: value).span (· ≠ '=') = (name.toList, '=' :: value) :=
    span_name (Switch.name_of_long named).2 (by simp)
  rw [long, hspan]
  simp only [String.ofList_toList, CommandName.find_long known named, valued]
  rfl

/-- A word does what it stands for. -/
lemma after_of_word {last : Option Switch} (h : Word command w items last) (hopen : r.onlyPositionals = false)
    (hfree : r.Free) (hread : r.word command w = .ok r₁) : After command r items r₁ last := by
  cases h with
  | positional plain =>
    rw [word_of_plain hopen plain, Reading.plain] at hread
    split at hread
    · next s hpending => exact absurd hpending (hfree s)
    · exact reads_positional hread
  | @flag s name known named bare =>
    rw [word_of_dashes hopen (toList_name name) (Switch.name_of_long named).1, long_of_name known named, bare] at hread
    exact reads_complete hread
  | @equals s name value known named valued =>
    rw [word_of_dashes hopen (toList_equals name value) (by simp), long_of_equals value.toList known named valued,
      String.ofList_toList] at hread
    exact reads_complete hread
  | @last s name known named valued =>
    rw [word_of_dashes hopen (toList_name name) (Switch.name_of_long named).1, long_of_name known named,
      valued] at hread
    exact awaits_await hread
  | @letters letters _ _ present h =>
    have hw : (String.ofList ('-' :: letters)).toList = '-' :: letters := String.toList_ofList
    cases letters with
    | nil => exact absurd rfl present
    | cons c letters =>
      rw [word_of_dash hopen hw h.head_ne_dash] at hread
      exact after_of_letters h hfree hread

/-- What is read as a name is the name of an option. -/
lemma exists_word_of_long {body : List Char} (hw : w.toList = '-' :: '-' :: body)
    (hread : r.long command body = .ok r₁) : ∃ items last, Word command w items last := by
  obtain ⟨name, rest, rfl, hname, hrest⟩ := exists_name body
  rw [long, span_name hname hrest] at hread
  simp only at hread
  split at hread
  · exact absurd hread (by simp)
  · next s hfind =>
    have known : s ∈ command.switches := List.mem_of_find?_eq_some hfind
    have named : s.long? = some (String.ofList name) := by
      have hfound := List.find?_some hfind
      exact of_decide_eq_true hfound
    cases rest with
    | nil =>
      have hword : w = "--" ++ String.ofList name := by
        rw [← String.toList_inj, hw, toList_name, String.toList_ofList, List.append_nil]
      rw [hword]
      cases hvalued : s.takesValue with
      | true => exact ⟨_, _, .last known named hvalued⟩
      | false => exact ⟨_, _, .flag known named hvalued⟩
    | cons c value =>
      obtain rfl : c = '=' := hrest c rfl
      have hword : w = "--" ++ String.ofList name ++ "=" ++ String.ofList value := by
        rw [← String.toList_inj, hw, toList_equals, String.toList_ofList, String.toList_ofList]
      rw [hword]
      cases hvalued : s.takesValue with
      | true => exact ⟨_, _, .equals known named hvalued⟩
      | false =>
        rw [hvalued] at hread
        exact absurd hread (by simp)

/-- Whatever is read stands for something. -/
lemma exists_word (hopen : r.onlyPositionals = false) (hread : r.word command w = .ok r₁) :
    w = "--" ∨ ∃ items last, Word command w items last := by
  rcases word_shapes w with hw | ⟨body, hbody, hw⟩ | ⟨c, letters, hc, hw⟩ | hplain
  · exact .inl hw
  · rw [word_of_dashes hopen hw hbody] at hread
    exact .inr (exists_word_of_long hw hread)
  · rw [word_of_dash hopen hw hc] at hread
    obtain ⟨items, last, hletters⟩ := exists_letters hread
    have hword : w = String.ofList ('-' :: c :: letters) := by
      rw [← hw, String.ofList_toList]
    rw [hword]
    exact .inr ⟨items, last, .letters (List.cons_ne_nil c letters) hletters⟩
  · exact .inr ⟨_, _, .positional hplain⟩

end Reading

end CommandLine

end RegexNfa
