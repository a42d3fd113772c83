import RegexNfa.Proofs.Compilation.Outcome
import RegexNfa.Proofs.Run.Rejection

/-!
# A run is given up at the first hopeless character

A text is completable if some text that the expression matches starts with it.  In the automaton of an
expression every state that is reached still leads to the accepting state, so some state is active exactly
while what has been read is completable (`Frozen.isEmpty_settled`).  A run therefore breaks off at the first
character after which there is no hope, neither earlier nor later.
-/

namespace RegexNfa

/-- Some text that starts like this is matched. -/
def Expression.Completable (e : Expression) (t : List Char) : Prop :=
  ∃ rest, e.Matches (t ++ rest)

lemma Expression.Completable.of_prefix {e : Expression} {s t : List Char} (h : e.Completable t)
    (hstarts : s <+: t) : e.Completable s := by
  obtain ⟨more, rfl⟩ := hstarts
  obtain ⟨rest, hmatches⟩ := h
  rw [List.append_assoc] at hmatches
  exact ⟨more ++ rest, hmatches⟩

/-- Every expression matches something. -/
lemma Expression.exists_matches (e : Expression) : ∃ t, e.Matches t := by
  induction e with
  | literal c => exact ⟨[c], .literal c⟩
  | concat l r ihl ihr =>
    obtain ⟨u, hu⟩ := ihl
    obtain ⟨v, hv⟩ := ihr
    exact ⟨u ++ v, .concat hu hv⟩
  | union l r ihl _ => exact ihl.imp fun _ hu => .unionLeft hu
  | star e _ => exact ⟨[], .starNil e⟩

lemma Expression.completable_nil (e : Expression) : e.Completable [] :=
  e.exists_matches

namespace Arena

variable {a : Arena} {f : Fragment} {e : Expression} {m : Automaton} {settled : List Char → StateSet}
  {entered : List Char → Char → StateSet}

/-- Some state is active exactly while the text read is completable. -/
theorem Frozen.isEmpty_settled (hm : Frozen a f m) (h : Grown [⟨f, e⟩] a)
    (hc : m.Configurations settled entered) (w : List Char) :
    (settled w).isEmpty = false ↔ e.Completable w := by
  rw [Bool.eq_false_iff, ne_eq, StateSet.isEmpty_iff, not_forall]
  constructor
  · intro hactive
    obtain ⟨q, hq⟩ := hactive
    have hreached := (hc.mem_settled w q).1 (not_not.1 hq)
    -- the state that is active leads on to the accepting one
    obtain ⟨rest, hrest⟩ := hm.leads_to_accept h ⟨w, hreached⟩
    exact ⟨rest, (hm.path_iff_matches h _).1 (hreached.append hrest)⟩
  · intro hcompletable
    obtain ⟨rest, hmatches⟩ := hcompletable
    obtain ⟨q, hq, _⟩ := path_append.1 ((hm.path_iff_matches h _).2 hmatches)
    exact ⟨q, not_not.2 ((hc.mem_settled w q).2 hq)⟩

end Arena

variable {source : String} {tree : ParseTree}

/-- The trace of an expression's automaton breaks off at character `k` exactly if `k` is the least number of
characters after which the input is not completable.  The completable prefixes of the input are those that
have a closure with an active state, and after every step some state is active exactly if what has been read is
completable. -/
theorem breaks_off_at_first_hopeless (h : Spells source.toList tree) (logging : Bool) :
    ∃ c, compile source logging = .ok c ∧ ∀ input : String, ∃ t, c.automaton.trace input = .ok t ∧
      (∀ k, BreaksOff t.steps k ↔
        ¬ tree.expression.Completable (input.toList.take k) ∧
          ∀ j < k, tree.expression.Completable (input.toList.take j)) ∧
      (∀ j ≤ input.toList.length, tree.expression.Completable (input.toList.take j) ↔
        ∃ s ∈ t.steps, s.symbol = .epsilon ∧ s.consumed = j ∧ s.current.isEmpty = false) ∧
      ∀ s ∈ t.steps, s.current.isEmpty = false ↔
        tree.expression.Completable (input.toList.take s.consumed) := by
  obtain ⟨c, hcompile, f, a, hgrown, hfrozen⟩ := compile_spells h logging
  refine ⟨c, hcompile, fun input => ?_⟩
  obtain ⟨settled, entered, hc⟩ := Automaton.exists_configurations (hfrozen.closed hgrown)
  have hactive := hfrozen.isEmpty_settled hgrown hc
  have hcurrent : ∀ s ∈ Automaton.stepsOver c.automaton.start settled entered input.toList,
      s.current.isEmpty = false ↔ tree.expression.Completable (input.toList.take s.consumed) := by
    intro s hs
    rw [hc.isEmpty_current hs, hactive]
  refine ⟨_, Automaton.trace_eq_ok (hfrozen.closed hgrown) hc input, ?_, ?_, hcurrent⟩
  · intro k
    rw [hc.breaks_off_iff ((hactive []).2 (Expression.completable_nil _)), ← Bool.not_eq_false, hactive]
    simp only [hactive]
  · intro j hj
    constructor
    · intro hcompletable
      have halive : Automaton.Alive settled [] (input.toList.take j) := by
        intro p hp
        rw [List.nil_append, hactive]
        exact hcompletable.of_prefix hp
      obtain ⟨s, hs, hsymbol, _, hconsumed⟩ := hc.exists_closure
        ⟨.closure, .epsilon, .singleton c.automaton.start, settled [], 0⟩ ⟨rfl, rfl, rfl⟩
        (List.take_prefix j input.toList) halive
      rw [List.length_nil, Nat.zero_add, List.length_take_of_le hj] at hconsumed
      refine ⟨s, hs, hsymbol, hconsumed, ?_⟩
      rw [hcurrent s hs, hconsumed]
      exact hcompletable
    · intro hstep
      obtain ⟨s, hs, _, rfl, halive⟩ := hstep
      exact (hcurrent s hs).1 halive

/-- Any number of `a` can be read first, but after a `c` nothing helps. -/
theorem breaks_off_at_first_hopeless_stray :
    ∃ tree, Spells "a*b".toList tree ∧ ∃ c, compile "a*b" = .ok c ∧
      ∃ t, c.automaton.trace "acb" = .ok t ∧ BreaksOff t.steps 2 := by
  have hspells : Spells "a*b".toList _ :=
    .sequence (.concat (.repetition (.star (.atom (.literal rfl)))) (.atom (.literal rfl)))
  obtain ⟨c, hcompile, htrace⟩ := breaks_off_at_first_hopeless hspells false
  obtain ⟨t, ht, hbreaks, _⟩ := htrace "acb"
  refine ⟨_, hspells, c, hcompile, t, ht, (hbreaks 2).2 ⟨?_, ?_⟩⟩
  · intro hcompletable
    obtain ⟨rest, hmatches⟩ := hcompletable
    obtain ⟨u, v, htext, hu, hv⟩ := Expression.matches_concat.1 hmatches
    obtain ⟨pieces, rfl, hpieces⟩ := Expression.matches_star.1 hu
    have hmem : 'c' ∈ pieces.flatten ++ v := htext ▸ by simp
    rw [Expression.matches_literal.1 hv, List.mem_append, List.mem_flatten] at hmem
    rcases hmem with ⟨piece, hpiece, hc⟩ | hc
    · rw [Expression.matches_literal.1 (hpieces piece hpiece)] at hc
      exact absurd hc (by decide)
    · exact absurd hc (by decide)
  · intro j hj
    have hword : Expression.Matches (.concat (.star (.literal 'a')) (.literal 'b')) (['a'] ++ [] ++ ['b']) :=
      .concat (.starAppend (.literal 'a') (.starNil _)) (.literal 'b')
    have hone : Expression.Completable (.concat (.star (.literal 'a')) (.literal 'b')) ['a'] := ⟨['b'], hword⟩
    refine hone.of_prefix ?_
    have hle : j ≤ 1 := by omega
    exact List.take_prefix_take_left hle (l := "acb".toList)

end RegexNfa
