import RegexNfa.Proofs.Automaton.Search
import RegexNfa.Run.Trace
import RegexNfa.Run.Narration
import Mathlib.Tactic.Choose

/-!
# The configurations of a run

A run of a closed automaton passes through sets of states that can be named without running anything:
`settled w` holds the states that some path from the start reads `w` into, and `entered w c` those that one
further edge labelled `c` leads to.  `Configurations` states this of two families of sets;
`exists_configurations` provides them.

`runFrom_eq_ok` is the invariant of the loop: having read `read`, the run is in `settled read`, and what it
still reports is `stepsFrom`, whatever observer is told.  A dead end needs no case of its own in the answer,
because a text that no state survives settles in the empty set (`Configurations.settled_of_dead`).  The
recorded trace, bare acceptance and the narrated lines are then three observers of one run
(`run_eq_ok`), and the last section puts together what they say.
-/

namespace RegexNfa

/-- What an observer is told of a step. -/
def Step.observation (s : Step) : Observation :=
  match s.symbol with
  | .epsilon => .closed s.consumed s.previous s.current
  | .char c => .moved s.consumed c s.previous s.current

/-- A closure reads nothing, and a move reads a character. -/
def Step.Coherent (s : Step) : Prop :=
  match s.symbol with
  | .epsilon => s.kind = .closure
  | .char _ => s.kind = .move

namespace Automaton

variable {a : Automaton} {settled : List Char → StateSet} {entered : List Char → Char → StateSet}

/-- `settled w` is what paths from the start reach reading `w`, and `entered w c` what single edges
labelled `c` reach from there. -/
structure Configurations (a : Automaton) (settled : List Char → StateSet)
    (entered : List Char → Char → StateSet) : Prop where
  mem_settled : ∀ w q, q ∈ settled w ↔ Path a.states a.start w q
  mem_entered : ∀ w c q, q ∈ entered w c ↔ ∃ p ∈ settled w, Edge a.states p (.char c) q

/-- The steps over the remaining text once `read` has been read: for each character a move and a closure,
up to the first move that enters no state. -/
def stepsFrom (settled : List Char → StateSet) (entered : List Char → Char → StateSet)
    (read : List Char) : List Char → List Step
  | [] => []
  | c :: rest =>
    ⟨.move, .char c, settled read, entered read c, read.length + 1⟩ ::
      if (entered read c).isEmpty then []
      else
        ⟨.closure, .epsilon, entered read c, settled (read ++ [c]), read.length + 1⟩ ::
          stepsFrom settled entered (read ++ [c]) rest

/-- The steps over a whole text, the closure of the start state first. -/
def stepsOver (start : Nat) (settled : List Char → StateSet)
    (entered : List Char → Char → StateSet) (w : List Char) : List Step :=
  ⟨.closure, .epsilon, .singleton start, settled [], 0⟩ :: stepsFrom settled entered [] w

/-! ## The sets exist -/

open Classical in
/-- A property of finitely many numbers has a set. -/
lemma exists_stateSet {n : Nat} {P : Nat → Prop} (hP : ∀ q, P q → q < n) :
    ∃ s : StateSet, ∀ q, q ∈ s ↔ P q := by
  refine ⟨.ofList ((List.range n).filter fun q => P q), ?_⟩
  intro q
  rw [StateSet.mem_ofList, List.mem_filter, List.mem_range, decide_eq_true_eq]
  exact ⟨fun h => h.2, fun h => ⟨hP q h, h⟩⟩

theorem exists_configurations (ha : a.Closed) :
    ∃ settled entered, a.Configurations settled entered := by
  have hsettled : ∀ w, ∃ s : StateSet, ∀ q, q ∈ s ↔ Path a.states a.start w q := by
    intro w
    exact exists_stateSet fun q hq => ha.path_lt hq a.start_lt
  choose settled hmem using hsettled
  have hentered : ∀ w c, ∃ s : StateSet,
      ∀ q, q ∈ s ↔ ∃ p ∈ settled w, Edge a.states p (.char c) q := by
    intro w c
    apply exists_stateSet (n := a.size)
    intro q hq
    obtain ⟨p, _, edge⟩ := hq
    exact ha.edge_lt edge
  choose entered hent using hentered
  exact ⟨settled, entered, hmem, hent⟩

/-! ## What the sets have to do with each other -/

namespace Configurations

lemma settled_lt (h : a.Configurations settled entered) (ha : a.Closed) {w : List Char} :
    ∀ q ∈ settled w, q < a.size := by
  intro q hq
  exact ha.path_lt ((h.mem_settled w q).1 hq) a.start_lt

/-- A path over one more character goes through a state that the character enters. -/
lemma path_concat_iff (h : a.Configurations settled entered) {w rest : List Char} {c : Char} {q : Nat} :
    Path a.states a.start (w ++ c :: rest) q ↔ ∃ p ∈ entered w c, Path a.states p rest q :=
  path_through_move (h.mem_settled w) (h.mem_entered w c)

/-- Nothing revives an empty set. -/
lemma settled_of_dead (h : a.Configurations settled entered) {w rest : List Char} {c : Char}
    (hdead : (entered w c).isEmpty = true) : settled (w ++ c :: rest) = entered w c := by
  apply StateSet.ext_mem
  intro q
  rw [StateSet.isEmpty_iff] at hdead
  rw [h.mem_settled, h.path_concat_iff]
  constructor
  · intro hq
    obtain ⟨p, hp, _⟩ := hq
    exact absurd hp (hdead p)
  · intro hq
    exact absurd hq (hdead q)

lemma closure_start (h : a.Configurations settled entered) (ha : a.Closed) :
    a.closure (.singleton a.start) = .ok (settled []) := by
  refine closure_eq_ok_iff.2 ⟨h.settled_lt ha, ?_⟩
  intro q
  rw [h.mem_settled]
  simp

lemma move_settled (h : a.Configurations settled entered) (ha : a.Closed) (w : List Char) (c : Char) :
    a.move (settled w) c = .ok (entered w c) := by
  obtain ⟨moved, hmoved, hmem⟩ := move_eq_ok c (h.settled_lt ha (w := w))
  have heq : moved = entered w c := by
    apply StateSet.ext_mem
    intro q
    rw [hmem, h.mem_entered]
  rw [hmoved, heq]

lemma closure_entered (h : a.Configurations settled entered) (ha : a.Closed) (w : List Char) (c : Char) :
    a.closure (entered w c) = .ok (settled (w ++ [c])) := by
  refine closure_eq_ok_iff.2 ⟨h.settled_lt ha, ?_⟩
  intro q
  rw [h.mem_settled, h.path_concat_iff]

end Configurations

/-! ## The run -/

section Run

variable {σ : Type}

/-- The rest of a run, under any observer. -/
theorem runFrom_eq_ok (ha : a.Closed) (h : a.Configurations settled entered)
    (note : σ → Observation → σ) (seen : σ) (read rest : List Char) :
    a.runFrom note read.length (settled read) seen rest =
      .ok (settled (read ++ rest),
        ((stepsFrom settled entered read rest).map Step.observation).foldl note seen) := by
  induction rest generalizing read seen with
  | nil => simp [runFrom, stepsFrom]
  | cons c rest ih =>
    rw [runFrom, h.move_settled ha read c, Fault.bind_eq_ok]
    refine ⟨entered read c, rfl, ?_⟩
    by_cases hdead : (entered read c).isEmpty = true
    · rw [if_pos hdead, h.settled_of_dead hdead, stepsFrom, if_pos hdead]
      rfl
    · have hlater := ih (note (note seen (.moved (read.length + 1) c (settled read) (entered read c)))
        (.closed (read.length + 1) (entered read c) (settled (read ++ [c])))) (read ++ [c])
      rw [List.length_append, List.length_singleton, List.append_assoc, List.singleton_append] at hlater
      rw [if_neg hdead, h.closure_entered ha read c, Fault.bind_eq_ok]
      refine ⟨settled (read ++ [c]), rfl, ?_⟩
      rw [hlater, stepsFrom, if_neg hdead]
      rfl

/-- A whole run, under any observer. -/
theorem run_eq_ok (ha : a.Closed) (h : a.Configurations settled entered)
    (note : σ → Observation → σ) (seen : σ) (input : String) :
    a.run note seen input =
      .ok (decide (a.accept ∈ settled input.toList),
        note (((stepsOver a.start settled entered input.toList).map Step.observation).foldl note seen)
          (.verdict (decide (a.accept ∈ settled input.toList)) (settled input.toList))) := by
  rw [run, h.closure_start ha, Fault.bind_eq_ok]
  refine ⟨settled [], rfl, ?_⟩
  have hrest := runFrom_eq_ok ha h note
    (note seen (.closed 0 (.singleton a.start) (settled []))) [] input.toList
  rw [List.length_nil, List.nil_append] at hrest
  rw [hrest, Fault.bind_eq_ok]
  exact ⟨_, rfl, rfl⟩

end Run

/-- No step of a run is of another kind than its symbol says. -/
lemma coherent_stepsFrom {read rest : List Char} : ∀ s ∈ stepsFrom settled entered read rest, s.Coherent := by
  induction rest generalizing read with
  | nil => simp [stepsFrom]
  | cons c rest ih =>
    rw [stepsFrom, List.forall_mem_cons]
    refine ⟨rfl, ?_⟩
    split
    · simp
    · exact List.forall_mem_cons.2 ⟨rfl, ih⟩

/-- The recorder keeps every step it is told, with the kind that its symbol says. -/
lemma foldl_note_steps {steps : List Step} (h : ∀ s ∈ steps, s.Coherent) (t : Trace) :
    (steps.map Step.observation).foldl Trace.note t = { t with steps := t.steps ++ steps } := by
  induction steps generalizing t with
  | nil => simp
  | cons s steps ih =>
    obtain ⟨hs, hsteps⟩ := List.forall_mem_cons.1 h
    have hone : t.note s.observation = { t with steps := t.steps ++ [s] } := by
      obtain ⟨kind, symbol, previous, current, consumed⟩ := s
      cases symbol with
      | epsilon =>
        obtain rfl : kind = .closure := hs
        rfl
      | char c =>
        obtain rfl : kind = .move := hs
        rfl
    rw [List.map_cons, List.foldl_cons, hone, ih hsteps]
    simp

theorem trace_eq_ok (ha : a.Closed) (h : a.Configurations settled entered) (input : String) :
    a.trace input =
      .ok ⟨stepsOver a.start settled entered input.toList,
        decide (a.accept ∈ settled input.toList)⟩ := by
  have hcoherent : ∀ s ∈ stepsOver a.start settled entered input.toList, s.Coherent :=
    List.forall_mem_cons.2 ⟨rfl, coherent_stepsFrom⟩
  rw [trace, run_eq_ok ha h, foldl_note_steps hcoherent]
  simp [Trace.note, Functor.map, Except.map]

theorem accepts_eq_ok (ha : a.Closed) (h : a.Configurations settled entered) (input : String) :
    a.accepts input = .ok (decide (a.accept ∈ settled input.toList)) := by
  rw [accepts, run_eq_ok ha h]
  rfl

/-- Acceptance is a path from the start to the accepting state. -/
theorem accepts_iff_path (ha : a.Closed) (input : String) :
    ∃ verdict, a.accepts input = .ok verdict ∧
      (verdict = true ↔ Path a.states a.start input.toList a.accept) := by
  obtain ⟨settled, entered, h⟩ := exists_configurations ha
  refine ⟨_, accepts_eq_ok ha h input, ?_⟩
  rw [decide_eq_true_eq, h.mem_settled]

/-! ## How long a trace is -/

lemma length_stepsFrom_of_alive {read rest : List Char}
    (halive : ∀ u c v, rest = u ++ c :: v → (entered (read ++ u) c).isEmpty = false) :
    (stepsFrom settled entered read rest).length = 2 * rest.length := by
  induction rest generalizing read with
  | nil => rfl
  | cons c rest ih =>
    have hhere := halive [] c rest rfl
    rw [List.append_nil] at hhere
    have hlater : (stepsFrom settled entered (read ++ [c]) rest).length = 2 * rest.length := by
      apply ih
      intro u d v hsplit
      have := halive (c :: u) d v (by rw [hsplit, List.cons_append])
      rwa [List.append_assoc, List.singleton_append]
    simp only [stepsFrom, hhere, Bool.false_eq_true, if_false, List.length_cons, hlater]
    omega

lemma length_stepsFrom_of_dead {read u v : List Char} {c : Char}
    (halive : ∀ u' c' v', u = u' ++ c' :: v' → (entered (read ++ u') c').isEmpty = false)
    (hdead : (entered (read ++ u) c).isEmpty = true) :
    (stepsFrom settled entered read (u ++ c :: v)).length = 2 * u.length + 1 := by
  induction u generalizing read with
  | nil =>
    rw [List.append_nil] at hdead
    simp [stepsFrom, hdead]
  | cons d u ih =>
    have hhere := halive [] d u rfl
    rw [List.append_nil] at hhere
    have hlater : (stepsFrom settled entered (read ++ [d]) (u ++ c :: v)).length =
        2 * u.length + 1 := by
      apply ih
      · intro u' c' v' hsplit
        have := halive (d :: u') c' v' (by rw [hsplit, List.cons_append])
        rwa [List.append_assoc, List.singleton_append]
      · rwa [List.append_assoc, List.singleton_append]
    simp only [List.cons_append, stepsFrom, hhere, Bool.false_eq_true, if_false, List.length_cons,
      hlater]
    omega

/-! ## The trace of a run -/

/-- The recorded trace of a closed automaton: its steps, how many they are, and its verdict, which bare
acceptance and a narrated run share. -/
theorem trace_exact (ha : a.Closed) (input : String) :
    ∃ settled entered, a.Configurations settled entered ∧
      ∃ t, a.trace input = .ok t ∧
        t.steps = stepsOver a.start settled entered input.toList ∧
        ((∀ u c v, input.toList = u ++ c :: v → (entered u c).isEmpty = false) →
          t.steps.length = 2 * input.toList.length + 1) ∧
        (∀ u c v, input.toList = u ++ c :: v →
          (∀ u' c' v', u = u' ++ c' :: v' → (entered u' c').isEmpty = false) →
          (entered u c).isEmpty = true → t.steps.length = 2 * (u.length + 1)) ∧
        (t.accepted = true ↔ Path a.states a.start input.toList a.accept) ∧
        a.accepts input = .ok t.accepted ∧
        ∀ n : Narrator, ∃ n', a.run Narrator.note n input = .ok (t.accepted, n') := by
  obtain ⟨settled, entered, h⟩ := exists_configurations ha
  refine ⟨settled, entered, h, _, trace_eq_ok ha h input, rfl, ?_, ?_, ?_, ?_, ?_⟩
  · intro halive
    have hlength : (stepsFrom settled entered [] input.toList).length = 2 * input.toList.length :=
      length_stepsFrom_of_alive halive
    rw [stepsOver, List.length_cons, hlength]
  · intro u c v hsplit halive hdead
    have hlength : (stepsFrom settled entered [] (u ++ c :: v)).length = 2 * u.length + 1 :=
      length_stepsFrom_of_dead halive hdead
    rw [stepsOver, List.length_cons, hsplit, hlength]
    omega
  · rw [decide_eq_true_eq, h.mem_settled]
  · exact accepts_eq_ok ha h input
  · intro n
    exact ⟨_, run_eq_ok ha h Narrator.note n input⟩

/-- Two states in an ε cycle, a loop, two equal edges, and a state that nothing leads to. -/
def tangled : Automaton where
  states := [
    { id := 0, edges := [(.epsilon, 1), (.char 'a', 2), (.char 'a', 2)] },
    { id := 1, edges := [(.epsilon, 0), (.char 'b', 1)] },
    { id := 2, accepting := true, edges := [(.epsilon, 2)] },
    { id := 3, edges := [(.epsilon, 0)] }]
  start := 0
  accept := 2
  ids_eq := rfl
  start_lt := by decide
  accept_lt := by decide
  accepting_iff := by decide

theorem tangled_trace_exact :
    tangled.Closed ∧ ∃ t, tangled.trace "bba" = .ok t ∧
      (t.accepted = true ↔ Path tangled.states 0 ['b', 'b', 'a'] 2) ∧
      tangled.accepts "bba" = .ok t.accepted := by
  have hclosed : tangled.Closed := by decide
  obtain ⟨_, _, _, t, ht, _, _, _, hpath, haccepts, _⟩ := trace_exact hclosed "bba"
  exact ⟨hclosed, t, ht, hpath, haccepts⟩

end Automaton

end RegexNfa
