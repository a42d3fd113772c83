import RegexNfa.Proofs.Compilation.Identity
import RegexNfa.Proofs.Expression.Parity

/-!
# The normal form of a compiled automaton

In the automaton of an expression states come in pairs, an even entry and the odd exit after it, and what edges a
state has is told by which of the two it is (`NormalForm`).  An exit gets its edges from the rule that takes its
fragment over.  That happens to each exit but the last, and only once; so no state has more than two edges, and
none has edges on different symbols (`NormalForm.narrow`).
-/

namespace RegexNfa

/-- Thompson's normal form. -/
structure Automaton.NormalForm (m : Automaton) : Prop where
  paired : ∃ k, m.states.map State.id = (List.range k).flatMap fun i => [2 * i, 2 * i + 1]
  even_start : Even m.start
  /-- nothing leads back to the start -/
  start_free : ∀ p symbol, ¬ Edge m.states p symbol m.start
  odd_accept : Odd m.accept
  accepting_iff : ∀ s ∈ m.states, s.accepting = true ↔ s.id = m.accept
  edges_eq_nil_iff : ∀ s ∈ m.states, s.edges = [] ↔ s.id = m.accept
  /-- an even state reads one character into its successor, or forks -/
  even_state : ∀ s ∈ m.states, Even s.id →
    (∃ c, s.edges = [(.char c, s.id + 1)]) ∨ ∃ p q, p ≠ q ∧ s.edges = [(.epsilon, p), (.epsilon, q)]
  /-- an odd state goes on, or back to an even state and on to an odd one -/
  odd_state : ∀ s ∈ m.states, Odd s.id → s.id ≠ m.accept →
    (∃ p, s.edges = [(.epsilon, p)]) ∨
      ∃ p q, Even p ∧ Odd q ∧ s.edges = [(.epsilon, p), (.epsilon, q)]

namespace State.Wired

variable {s : State}

lemma edges_ne_nil (h : s.Wired) : s.edges ≠ [] := by
  cases h <;> exact List.cons_ne_nil _ _

lemma of_even (h : s.Wired) (heven : Even s.id) :
    (∃ c, s.edges = [(.char c, s.id + 1)]) ∨
      ∃ p q, p ≠ q ∧ s.edges = [(.epsilon, p), (.epsilon, q)] := by
  cases h with
  | reads => exact .inl ⟨_, rfl⟩
  | forks _ apart => exact .inr ⟨_, _, apart, rfl⟩
  | goesOn odd => exact absurd heven (Nat.not_even_iff_odd.2 odd)
  | goesBack odd => exact absurd heven (Nat.not_even_iff_odd.2 odd)

lemma of_odd (h : s.Wired) (hodd : Odd s.id) :
    (∃ p, s.edges = [(.epsilon, p)]) ∨
      ∃ p q, Even p ∧ Odd q ∧ s.edges = [(.epsilon, p), (.epsilon, q)] := by
  cases h with
  | reads even => exact absurd hodd (Nat.not_odd_iff_even.2 even)
  | forks even => exact absurd hodd (Nat.not_odd_iff_even.2 even)
  | goesOn => exact .inl ⟨_, rfl⟩
  | goesBack _ back on => exact .inr ⟨_, _, back, on, rfl⟩

end State.Wired

/-- The first numbers, two at a time. -/
lemma range_add_self (k : Nat) :
    List.range (k + k) = (List.range k).flatMap fun i => [2 * i, 2 * i + 1] := by
  induction k with
  | zero => rfl
  | succ k ih =>
    have hlength : k + 1 + (k + 1) = k + k + 1 + 1 := by omega
    rw [hlength, List.range_succ, List.range_succ, List.range_succ, List.flatMap_append, ih]
    simp [two_mul]

namespace Automaton

variable {m : Automaton} {e : Expression}

/-- A state is wired, or it is the accepting one and has no edges. -/
lemma LaidOut.wired_or_exit (hm : m.LaidOut e) :
    ∀ s ∈ m.states, s.Wired ∧ s.id ≠ m.accept ∨ s = .goingOn m.accept [] := by
  intro s hs
  have hflag := m.accepting_iff s hs
  rw [hm.states_eq] at hs
  rcases List.mem_append.1 hs with hs | hs
  · left
    have hwired := e.wired_of_mem_body Even.zero s hs
    -- a wired state does not accept
    have hfalse : s.accepting = false := by
      cases hwired <;> rfl
    rw [hfalse] at hflag
    exact ⟨hwired, of_decide_eq_false hflag.symm⟩
  · right
    rw [hm.accept_eq]
    exact List.mem_singleton.1 hs

lemma LaidOut.normal_form (hm : m.LaidOut e) (hfree : ∀ p symbol, ¬ Edge m.states p symbol m.start) :
    m.NormalForm where
  paired := by
    obtain ⟨k, hk⟩ := e.even_size
    refine ⟨k, ?_⟩
    rw [m.ids_eq, hm.states_eq, e.length_layout, hk, range_add_self]
  even_start := by
    rw [hm.start_eq]
    exact e.even_entry Even.zero
  start_free := hfree
  odd_accept := by
    rw [hm.accept_eq]
    exact e.odd_exit Even.zero
  accepting_iff := by
    intro s hs
    rw [m.accepting_iff s hs, decide_eq_true_eq]
  edges_eq_nil_iff := by
    intro s hs
    rcases hm.wired_or_exit s hs with ⟨hwired, hid⟩ | rfl
    · exact iff_of_false hwired.edges_ne_nil hid
    · exact iff_of_true rfl rfl
  even_state := by
    intro s hs heven
    rcases hm.wired_or_exit s hs with ⟨hwired, _⟩ | rfl
    · exact hwired.of_even heven
    · have hodd := e.odd_exit Even.zero
      rw [← hm.accept_eq] at hodd
      exact absurd heven (Nat.not_even_iff_odd.2 hodd)
  odd_state := by
    intro s hs hodd hid
    rcases hm.wired_or_exit s hs with ⟨hwired, _⟩ | rfl
    · exact hwired.of_odd hodd
    · exact absurd rfl hid

/-- No state mixes symbols or has more than two edges. -/
lemma NormalForm.narrow (h : m.NormalForm) : ∀ s ∈ m.states, s.Uniform ∧ s.edges.length ≤ 2 := by
  intro s hs
  rcases Nat.even_or_odd s.id with heven | hodd
  · rcases h.even_state s hs heven with ⟨c, hedges⟩ | ⟨p, q, _, hedges⟩
    · exact ⟨⟨.char c, [s.id + 1], hedges⟩, by simp [hedges]⟩
    · exact ⟨⟨.epsilon, [p, q], hedges⟩, by simp [hedges]⟩
  · by_cases hid : s.id = m.accept
    · have hedges := (h.edges_eq_nil_iff s hs).2 hid
      exact ⟨⟨.epsilon, [], hedges⟩, by simp [hedges]⟩
    · rcases h.odd_state s hs hodd hid with ⟨p, hedges⟩ | ⟨p, q, _, _, hedges⟩
      · exact ⟨⟨.epsilon, [p], hedges⟩, by simp [hedges]⟩
      · exact ⟨⟨.epsilon, [p, q], hedges⟩, by simp [hedges]⟩

end Automaton

variable {source : String} {tree : ParseTree}

/-- The automaton of an expression is in normal form, so no state mixes symbols or has more than two edges. -/
theorem compiled_normal_form (h : Spells source.toList tree) (logging : Bool) :
    ∃ c, compile source logging = .ok c ∧ c.automaton.NormalForm ∧
      ∀ s ∈ c.automaton.states, s.Uniform ∧ s.edges.length ≤ 2 := by
  obtain ⟨c, hcompile, hlaid, f, a, hgrown, hfrozen⟩ := compile_laid_out h logging
  have hfree : ∀ p symbol, ¬ Edge c.automaton.states p symbol c.automaton.start := by
    rw [hfrozen.states_eq, hfrozen.start_eq]
    exact hgrown.intact.entry_free f (by simp [Arena.fragments])
  have hnormal := hlaid.normal_form hfree
  exact ⟨c, hcompile, hnormal, hnormal.narrow⟩

/-- A union inside of a repetition: its exit goes back and on. -/
theorem compiled_normal_form_nested :
    ∃ tree, Spells "(a|b)*".toList tree ∧ ∃ c, compile "(a|b)*" = .ok c ∧ c.automaton.NormalForm := by
  have hunion : Derives .alternation 1 (['a'] ++ '|' :: ['b']) _ :=
    .union (.sequence (.repetition (.atom (.literal rfl)))) (.repetition (.atom (.literal rfl)))
  have hspells : Spells "(a|b)*".toList _ :=
    .sequence (.repetition (.star (.atom (.group hunion))))
  obtain ⟨c, hcompile, hnormal, _⟩ := compiled_normal_form hspells false
  exact ⟨_, hspells, c, hcompile, hnormal⟩

end RegexNfa
