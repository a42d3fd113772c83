import RegexNfa.Arena.Relocation
import RegexNfa.Proofs.Arena.Log
import RegexNfa.Proofs.Arena.Refusal

/-!
# Assembling behind other states

Assembling pops what it has pushed itself, so it comes to the same in every arena, up to the number of states that are
there before it (`assembleFrom_followedBy`).  Step by step: an operation on fragments of `b` does to `a.followedBy b`
what it does to `b` (`Operation.run_shift`), and which operation a token asks for is settled by the height of the stack
alone (`assembleFrom_cons_rename`).
-/

namespace RegexNfa

namespace Arena

variable {a b c : Arena} {f : Fragment} {source : List Char} {whole : Span} {stack : List Fragment} {ts : List Token}

/-! ## Changes behind other states -/

lemma addPair_followedBy (a b : Arena) (edges : List (Symbol × Nat)) :
    (a.followedBy b).addPair (edges.map fun (symbol, target) => (symbol, a.size + target)) =
      a.followedBy (b.addPair edges) := by
  simp [addPair, push, followedBy, log, State.shift, size]

/-- A rule is logged behind other states as it is logged without them, provided that it is. -/
lemma record_followedBy (hlog : b.log?.isSome) (rule : Rule) :
    (a.followedBy b).record (rule.shift a.size) = a.followedBy (b.record rule) := by
  obtain ⟨rules, hrules⟩ := Option.isSome_iff_exists.1 hlog
  simp [record, followedBy, log, hrules, Function.comp_def]

lemma takenOver_shift (n : Nat) (targets : List Nat) (s : State) :
    (s.takenOver targets).shift n = (s.shift n).takenOver (targets.map (n + ·)) := by
  simp [State.takenOver, State.shift, Function.comp_def]

lemma map_modify_comm {α β : Type} {g : α → β} {change : α → α} {change' : β → β}
    (hcomm : ∀ x, g (change x) = change' (g x)) (xs : List α) (i : Nat) :
    (xs.modify i change).map g = (xs.map g).modify i change' := by
  apply List.ext_getElem?
  intro j
  rw [List.getElem?_map, List.getElem?_modify, List.getElem?_modify, List.getElem?_map]
  by_cases hij : i = j
  · simp [hij, hcomm, Function.comp_def]
  · simp [hij]

/-- Taking over an exit of `b` leaves all that is before `b` alone. -/
lemma absorb_followedBy {exit : Nat} {targets : List Nat} (h : b.absorb exit targets = .ok c) :
    (a.followedBy b).absorb (a.size + exit) (targets.map (a.size + ·)) = .ok (a.followedBy c) := by
  obtain ⟨hexit, rfl⟩ := modify_eq_ok.1 h
  have hstates : (a.states ++ b.states.map (State.shift a.size)).modify (a.size + exit)
      (State.takenOver (targets.map (a.size + ·))) =
        a.states ++ (b.states.modify exit (State.takenOver targets)).map (State.shift a.size) := by
    rw [map_modify_comm (takenOver_shift a.size targets)]
    exact List.modifyTailIdx_add _ exit a.states _
  refine modify_eq_ok.2 ⟨?_, ?_⟩
  · rw [size_followedBy]
    exact Nat.add_lt_add_left hexit a.size
  · rw [followedBy, followedBy, hstates]
    rfl

/-! ## Operations behind other states -/

namespace Operation

/-- On operands in the arena an operation gives a fragment in the arena. -/
lemma exists_run {operation : Operation} (h : a.Holds operation.operands) :
    ∃ f b, operation.run a = .ok (f, b) ∧ f.exit < b.size ∧ a.size ≤ b.size := by
  cases operation with
  | char c =>
    have hsize : (a.char c).2.size = a.size + 2 := size_char a c
    have hexit : a.size + 1 < (a.char c).2.size := by omega
    exact ⟨_, _, rfl, hexit, hsize ▸ Nat.le_add_right _ _⟩
  | concat left right =>
    obtain ⟨f, b, hmade⟩ : ∃ f b, a.concat left right = .ok (f, b) := exists_concat (h left (by simp [operands]))
    have hsize := size_concat hmade
    obtain ⟨rfl, _⟩ := concat_eq_ok.1 hmade
    have hexit : right.exit < a.size := h right (by simp [operands])
    exact ⟨_, b, hmade, hsize ▸ hexit, by omega⟩
  | union left right =>
    obtain ⟨f, b, hmade⟩ : ∃ f b, a.union left right = .ok (f, b) :=
      exists_union (h left (by simp [operands])) (h right (by simp [operands]))
    have hsize := size_union hmade
    obtain ⟨rfl, _⟩ := union_eq_ok.1 hmade
    have hexit : a.size + 1 < b.size := by omega
    exact ⟨_, b, hmade, hexit, by omega⟩
  | star inner =>
    obtain ⟨f, b, hmade⟩ : ∃ f b, a.star inner = .ok (f, b) := exists_star (h inner (by simp [operands]))
    have hsize := size_star hmade
    obtain ⟨rfl, _⟩ := star_eq_ok.1 hmade
    have hexit : a.size + 1 < b.size := by omega
    exact ⟨_, b, hmade, hexit, by omega⟩

/-- An operation on shifted operands does behind other states what it does without them. -/
lemma run_shift {operation : Operation} (hlog : b.log?.isSome) (h : operation.run b = .ok (f, c)) :
    (operation.rename (Fragment.shift a.size)).run (a.followedBy b) = .ok (f.shift a.size, a.followedBy c) := by
  have hentry : (a.followedBy b).size = a.size + b.size := size_followedBy a b
  cases operation with
  | char d =>
    obtain ⟨rfl, rfl⟩ := Prod.mk.inj (Except.ok.inj h)
    have hlog' : (b.addPair [(.char d, b.size + 1)]).log?.isSome := hlog
    rw [← record_followedBy hlog', ← addPair_followedBy]
    simp only [rename, run, Arena.char, hentry]
    rfl
  | concat left right =>
    obtain ⟨rfl, d, hd, rfl⟩ := concat_eq_ok.1 h
    refine concat_eq_ok.2 ⟨rfl, a.followedBy d, absorb_followedBy hd, ?_⟩
    rw [← record_followedBy (by rw [log?_absorb hd]; exact hlog)]
    rfl
  | union left right =>
    obtain ⟨rfl, d, e, hd, he, rfl⟩ := union_eq_ok.1 h
    have hleft := absorb_followedBy (a := a) hd
    have hright := absorb_followedBy (a := a) he
    rw [← addPair_followedBy] at hleft
    refine union_eq_ok.2 ⟨?_, a.followedBy d, a.followedBy e, ?_, ?_, ?_⟩
    · rw [hentry]
      rfl
    · rw [hentry]
      exact hleft
    · rw [hentry]
      exact hright
    · rw [← record_followedBy (by rw [log?_absorb he, log?_absorb hd]; exact hlog), hentry]
      rfl
  | star inner =>
    obtain ⟨rfl, d, hd, rfl⟩ := star_eq_ok.1 h
    have hinner := absorb_followedBy (a := a) hd
    rw [← addPair_followedBy] at hinner
    refine star_eq_ok.2 ⟨?_, a.followedBy d, ?_, ?_⟩
    · rw [hentry]
      rfl
    · rw [hentry]
      exact hinner
    · rw [← record_followedBy (by rw [log?_absorb hd]; exact hlog), hentry]
      rfl

end Operation

/-! ## Assembling behind other states -/

/-- Whatever is left to assemble on a stack of fragments of `b`, it comes to the same behind other states. -/
theorem assembleFrom_followedBy (a : Arena) (hstack : b.Holds stack) (hlog : b.log?.isSome) (source : List Char)
    (whole : Span) (ts : List Token) :
    assembleFrom source whole (a.followedBy b) (stack.map (Fragment.shift a.size)) ts =
      (assembleFrom source whole b stack ts).map (Except.map (Fragment.shift a.size)) a.followedBy := by
  induction ts generalizing b stack with
  | nil =>
    match stack with
    | [] | [_] => rfl
    | f :: g :: stack =>
      simp only [assembleFrom, List.map_cons, conclude, refuse, List.length_cons, List.length_map]
      rfl
  | cons t ts ih =>
    obtain ⟨failure, hrefuse⟩ | ⟨operation, below, rfl, _, hproceed⟩ := assembleFrom_cons_rename source stack t
    · have hfresh := hrefuse id whole b ts
      rw [List.map_id] at hfresh
      rw [hrefuse, hfresh]
      rfl
    · obtain ⟨hoperands, hbelow⟩ := List.forall_mem_append.1 hstack
      obtain ⟨f, c, hrun, hexit, hsize⟩ := Operation.exists_run hoperands
      have hlog' : c.log?.isSome := by
        rw [Operation.log?_run hrun, Option.isSome_map]
        exact hlog
      have hfresh := hproceed id whole b ts
      rw [List.map_id, List.map_id, operation.rename_id, hrun] at hfresh
      rw [hproceed, Operation.run_shift hlog hrun, hfresh]
      exact ih (Holds.push hbelow hsize hexit) hlog'

/-- Assembling a stream comes to the same behind other states. -/
lemma assemble_followedBy (a : Arena) (s : TokenStream) :
    a.assemble s = ((fresh true).assemble s).map (Except.map (Fragment.shift a.size)) a.followedBy := by
  have hall := assembleFrom_followedBy a (fresh true).holds_nil rfl s.source s.fullSpan s.tokens
  rw [followedBy_fresh] at hall
  exact hall

/-- On any arena a stream whose literals have text meets no fault, and comes to what it comes to on a fresh one, with
or without a log: to the same error, or to the same fragment, moved behind the states that are there.  In either case
these states and the rules logged for them are left as they are, and behind them come the states and the rules of the
fresh arena, moved likewise. -/
theorem assemble_relocates (a : Arena) (s : TokenStream)
    (htext : ∀ t ∈ s.tokens, t.kind = .literal → ∃ c cs, t.text s.source = .ok (c :: cs)) :
    ∃ outcome b, (∀ fault, outcome ≠ .error (.fault fault)) ∧
      (fresh true).assemble s = (outcome, b) ∧ (fresh false).assemble s = (outcome, b.unlogged) ∧
      a.assemble s = (outcome.map (Fragment.shift a.size), a.followedBy b) := by
  refine ⟨((fresh true).assemble s).1, ((fresh true).assemble s).2, ?_, rfl, ?_, a.assemble_followedBy s⟩
  · intro fault hfault
    rcases (fresh true).assemble_follows (readable_of_text htext) with ⟨_, f, b, hok⟩ | ⟨n, b, _, _, hfails⟩ |
      ⟨before, t, after, n, b, _, _, _, hfails⟩
    · rw [hok] at hfault
      cases hfault
    · rw [hfails] at hfault
      cases hfault
    · rw [hfails] at hfault
      cases hfault
  · exact assembleFrom_unlogged s.source s.fullSpan (fresh true) [] s.tokens

/-- A union that lacks an operand is refused once a character and a repetition have been built, here behind the two
states of another character. -/
theorem assemble_relocates_half_built :
    ((fresh true).char 'x').2.assemble
        ⟨['a'], [⟨.literal, .upTo 1⟩, ⟨.star, .emptyAt 1⟩, ⟨.union, .emptyAt 1⟩]⟩ =
      (.error (.invalid ⟨.missingOperand .union, .emptyAt 1⟩),
        { states := [
            { id := 0, edges := [(.char 'x', 1)] },
            { id := 1, accepting := true },
            { id := 2, edges := [(.char 'a', 3)] },
            { id := 3, edges := [(.epsilon, 2), (.epsilon, 5)] },
            { id := 4, edges := [(.epsilon, 2), (.epsilon, 5)] },
            { id := 5, accepting := true }]
          log? := some [.char 'x' 0 1, .char 'a' 2 3, .star 4 5] }) := by
  have hfirst : ∃ c cs, Token.text ['a'] ⟨.literal, .upTo 1⟩ = .ok (c :: cs) := ⟨'a', [], rfl⟩
  obtain ⟨outcome, b, -, hfresh, -, hassemble⟩ := assemble_relocates ((fresh true).char 'x').2
    ⟨['a'], [⟨.literal, .upTo 1⟩, ⟨.star, .emptyAt 1⟩, ⟨.union, .emptyAt 1⟩]⟩ (by simp [hfirst])
  obtain ⟨rfl, rfl⟩ := Prod.mk.inj hfresh
  rw [hassemble]
  rfl

end Arena

end RegexNfa
