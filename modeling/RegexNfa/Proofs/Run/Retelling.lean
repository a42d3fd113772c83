import RegexNfa.Proofs.Run.Configurations

/-!
# A narration can be told from the record

A narrator holds back the line of a character until the closure that follows the move is known, and keeps the move in
mind until then.  A recorded trace needs no such memory: `Trace.retold` lays its steps out as lines, each move next to
its closure.  The two tell the same (`narrate_eq_retold`), run after run: a narrator for whom no move waits adds the
lines of one trace, and no move waits afterwards (`Narrator.Adds`), also when the run broke off at a move.
-/

namespace RegexNfa

/-! ## Lines from steps -/

namespace Step

/-- How the line of a step's character begins, or that of the start. -/
def label (s : Step) : String :=
  match s.symbol with
  | .epsilon => "start"
  | .char c => Narrator.charLabel c s.consumed

/-- The step itself, below that line, if it is asked for. -/
def below (v : Verbosity) (p : Palette) (s : Step) : List String :=
  match s.symbol with
  | .epsilon => Narrator.subLine v p "ε" s.previous s.current
  | .char _ => Narrator.subLine v p "move" s.previous s.current

end Step

namespace Trace

/-- The lines of the characters read, from their moves and closures.  A move without closure has entered no state. -/
def retoldFrom (v : Verbosity) (p : Palette) : List Step → List String
  | [] => []
  | [move] => Narrator.mainLine p move.label .empty :: move.below v p
  | move :: closure :: rest =>
    Narrator.mainLine p move.label closure.current ::
      (move.below v p ++ (closure.below v p ++ retoldFrom v p rest))

/-- The lines of a recorded run: the start, the characters read, the verdict. -/
def retold (v : Verbosity) (p : Palette) (t : Trace) : List String :=
  match t.steps with
  | [] => [Narrator.verdictLine p t.accepted]
  | start :: rest =>
    Narrator.mainLine p start.label start.current ::
      (start.below v p ++ (retoldFrom v p rest ++ [Narrator.verdictLine p t.accepted]))

end Trace

/-! ## What a narrator adds -/

namespace Narrator

variable {v : Verbosity} {p : Palette} {os os' : List Observation} {ls ls' : List String}

/-- Told `os` while no move waits, a narrator adds the lines `ls`, and no move waits afterwards. -/
def Adds (v : Verbosity) (p : Palette) (os : List Observation) (ls : List String) : Prop :=
  ∀ earlier, os.foldl note ⟨v, p, earlier, none⟩ = ⟨v, p, earlier ++ ls, none⟩

lemma Adds.nil (v : Verbosity) (p : Palette) : Adds v p [] [] := by
  intro earlier
  rw [List.foldl_nil, List.append_nil]

lemma Adds.append (first : Adds v p os ls) (second : Adds v p os' ls') : Adds v p (os ++ os') (ls ++ ls') := by
  intro earlier
  rw [List.foldl_append, first, second, List.append_assoc]

lemma adds_closed (consumed : Nat) (seed closure : StateSet) :
    Adds v p [.closed consumed seed closure] (mainLine p "start" closure :: subLine v p "ε" seed closure) :=
  fun _ => rfl

lemma adds_verdict (accepted : Bool) (active : StateSet) :
    Adds v p [.verdict accepted active] [verdictLine p accepted] :=
  fun _ => rfl

/-- A move that enters states is told together with its closure. -/
lemma adds_moved_closed (consumed : Nat) (c : Char) (before closure : StateSet) {after : StateSet}
    (halive : ¬ after.isEmpty = true) :
    Adds v p [.moved consumed c before after, .closed consumed after closure]
      (mainLine p (charLabel c consumed) closure ::
        (subLine v p "move" before after ++ subLine v p "ε" after closure)) := by
  intro earlier
  simp [note, linesFor, waitingAfter, halive]

/-- A move that enters no state is told at once. -/
lemma adds_moved {c : Char} {before after : StateSet} (consumed : Nat) (hdead : after.isEmpty = true) :
    Adds v p [.moved consumed c before after]
      (mainLine p (charLabel c consumed) .empty :: subLine v p "move" before after) := by
  have hempty : after = .empty := by
    apply StateSet.ext_mem
    intro q
    exact iff_of_false (StateSet.isEmpty_iff.1 hdead q) (StateSet.not_mem_empty q)
  subst hempty
  intro earlier
  simp [note, linesFor, waitingAfter, hdead]

end Narrator

/-! ## Runs -/

namespace Automaton

variable {a : Automaton} {v : Verbosity} {p : Palette}

/-- One character more is one line more, with what stands below it. -/
lemma adds_stepsFrom (settled : List Char → StateSet) (entered : List Char → Char → StateSet)
    (read rest : List Char) :
    Narrator.Adds v p ((stepsFrom settled entered read rest).map Step.observation)
      (Trace.retoldFrom v p (stepsFrom settled entered read rest)) := by
  induction rest generalizing read with
  | nil => exact .nil v p
  | cons c rest ih =>
    rw [stepsFrom]
    by_cases hdead : (entered read c).isEmpty = true
    · rw [if_pos hdead]
      exact Narrator.adds_moved (read.length + 1) hdead
    · rw [if_neg hdead]
      have hone : Narrator.Adds v p _ _ :=
        Narrator.adds_moved_closed (read.length + 1) c (settled read) (settled (read ++ [c])) hdead
      have hboth := hone.append (ih (read ++ [c]))
      simp only [List.cons_append, List.nil_append, List.append_assoc] at hboth
      exact hboth

/-- A whole run of a narrator for whom no move waits. -/
lemma Closed.run_note (ha : a.Closed) (v : Verbosity) (p : Palette) (earlier : List String) (input : String) :
    ∃ t, a.trace input = .ok t ∧
      a.run Narrator.note ⟨v, p, earlier, none⟩ input = .ok (t.accepted, ⟨v, p, earlier ++ t.retold v p, none⟩) := by
  obtain ⟨settled, entered, h⟩ := exists_configurations ha
  refine ⟨_, trace_eq_ok ha h input, ?_⟩
  have hstart := Narrator.adds_closed (v := v) (p := p) 0 (.singleton a.start) (settled [])
  have hread := adds_stepsFrom (v := v) (p := p) settled entered [] input.toList
  have hverdict := Narrator.adds_verdict (v := v) (p := p) (decide (a.accept ∈ settled input.toList))
    (settled input.toList)
  have hall := (hstart.append (hread.append hverdict)) earlier
  rw [List.foldl_append, List.foldl_append] at hall
  rw [run_eq_ok ha h]
  exact congrArg (fun n => Except.ok (_, n)) hall

/-- Several runs, one after the other. -/
lemma Closed.narrate_note (ha : a.Closed) (v : Verbosity) (p : Palette) (earlier inputs : List String) :
    ∃ traces, inputs.mapM a.trace = .ok traces ∧
      a.narrate ⟨v, p, earlier, none⟩ inputs =
        .ok (traces.map Trace.accepted, ⟨v, p, earlier ++ traces.flatMap (Trace.retold v p), none⟩) := by
  induction inputs generalizing earlier with
  | nil => exact ⟨[], rfl, by rw [narrate, List.flatMap_nil, List.append_nil, List.map_nil]⟩
  | cons input inputs ih =>
    obtain ⟨t, ht, hrun⟩ := ha.run_note v p earlier input
    obtain ⟨traces, htraces, hlater⟩ := ih (earlier ++ t.retold v p)
    refine ⟨t :: traces, ?_, ?_⟩
    · rw [List.mapM_cons, ht, htraces]
      rfl
    · rw [List.append_assoc] at hlater
      rw [narrate, Fault.bind_eq_ok]
      exact ⟨_, hrun, Fault.bind_eq_ok.2 ⟨_, hlater, rfl⟩⟩

/-- What one narrator makes of several inputs, run one after the other, is what their recorded traces tell one by
one; no move waits at the end. -/
theorem narrate_eq_retold (ha : a.Closed) (v : Verbosity) (p : Palette) (inputs : List String) :
    ∃ traces, inputs.mapM a.trace = .ok traces ∧
      a.narrate { verbosity := v, palette := p } inputs =
        .ok (traces.map Trace.accepted,
          { verbosity := v, palette := p, lines := traces.flatMap (Trace.retold v p), waiting := none }) :=
  ha.narrate_note v p [] inputs

/-- The first run breaks off at its move, and the second one is told as if there had been no other. -/
theorem tangled_narrate_eq_retold :
    tangled.Closed ∧ ∃ n, tangled.narrate { verbosity := .steps, palette := .off } ["c", "a"] =
        .ok ([false, true], n) ∧
      n.waiting = none ∧
      n.lines = ["start      {S0, S1}", "  ε        {S0, S1}", "'c' @1     ∅", "  move     ∅", "reject",
        "start      {S0, S1}", "  ε        {S0, S1}", "'a' @1     {S2}", "  move     {S2}", "  ε        {S2}",
        "accept"] := by
  have hclosed : tangled.Closed := by decide
  obtain ⟨traces, htraces, hnarrate⟩ := narrate_eq_retold hclosed .steps .off ["c", "a"]
  -- an exploration does not compute, so the two that the runs need are gone through round by round
  have hstart : tangled.explore Symbol.isEpsilon .stack [0] [0] = .ok [0, 1] := by
    rw [explore_cons]
    show tangled.explore Symbol.isEpsilon .stack [1] [0, 1] = .ok [0, 1]
    rw [explore_cons]
    exact explore_nil _ _ _ _
  have hentered : tangled.explore Symbol.isEpsilon .stack [2] [2] = .ok [2] := by
    rw [explore_cons]
    exact explore_nil _ _ _ _
  have hdies : tangled.trace "c" = .ok
      ⟨[⟨.closure, .epsilon, { ids := [0] }, { ids := [0, 1] }, 0⟩, ⟨.move, .char 'c', { ids := [0, 1] }, .empty, 1⟩],
        false⟩ := by
    show Prod.snd <$> ((StateSet.ofList <$> tangled.explore Symbol.isEpsilon .stack [0] [0]) >>= _) = _
    rw [hstart]
    rfl
  have hlives : tangled.trace "a" = .ok
      ⟨[⟨.closure, .epsilon, { ids := [0] }, { ids := [0, 1] }, 0⟩,
        ⟨.move, .char 'a', { ids := [0, 1] }, { ids := [2] }, 1⟩, ⟨.closure, .epsilon, { ids := [2] }, { ids := [2] }, 1⟩],
        true⟩ := by
    show Prod.snd <$> ((StateSet.ofList <$> tangled.explore Symbol.isEpsilon .stack [0] [0]) >>= _) = _
    rw [hstart]
    show Prod.snd <$> (((StateSet.ofList <$> tangled.explore Symbol.isEpsilon .stack [2] [2]) >>= _) >>= _) = _
    rw [hentered]
    rfl
  rw [List.mapM_cons, List.mapM_cons, List.mapM_nil, hdies, hlives] at htraces
  obtain rfl := Except.ok.inj htraces
  exact ⟨hclosed, _, hnarrate, rfl, by decide⟩

end Automaton

end RegexNfa
