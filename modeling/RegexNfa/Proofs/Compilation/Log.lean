import RegexNfa.Proofs.Arena.Log
import RegexNfa.Proofs.Compilation.Outcome

/-!
# The log of a compilation

Whether a compilation keeps a log shows in the log only (`compile_unlogged`), and a log that is kept tells all of the
compilation: it holds the rule that each token of the postfix stream asks for, and `replay` builds the same arena from it
(`exists_replay`).  In particular two expressions with one log have one automaton (`automaton_eq_of_log_eq`).
-/

namespace RegexNfa

open Arena

variable {source : String} {c : Compilation}

/-- Without a log a compilation comes to the same, but for the log. -/
theorem compile_unlogged (source : String) :
    compile source false = (compile source true).map fun c => { c with log := [] } := by
  have hassemble : (fresh false).assemble (translated source) =
      ((fresh true).assemble (translated source)).map id unlogged :=
    assembleFrom_unlogged source.toList (translated source).fullSpan (fresh true) [] (translated source).tokens
  unfold translated at hassemble
  unfold compile
  simp only [hassemble]
  match (fresh true).assemble (TokenStream.ofText source.toList).marked.postfixed with
  | (.error failure, _) => rfl
  | (.ok whole, a) =>
    simp only [Prod.map, id, a.finish_unlogged]
    cases a.finish whole with
    | error fault => rfl
    | ok m => rfl

/-- The log holds a rule for each token, and applying them again leads to an arena that has the same log and is frozen
to the same automaton. -/
theorem exists_replay (h : compile source true = .ok c) :
    List.Forall₂ (Token.AsksFor source.toList) c.reordered.tokens c.log ∧
    ∃ f a, replay c.log = some ([f], a) ∧ a.finish f = .ok c.automaton ∧ a.log = c.log := by
  obtain ⟨f, a, hassemble, hfinish, _, hreordered, hkept⟩ := exists_built h
  obtain ⟨rules, hasks, hlog, hreplay⟩ := exists_log hassemble
  have hrules : c.log = rules := by
    rw [hkept, Arena.log, hlog]
    rfl
  rw [hreordered, hrules]
  refine ⟨hasks, f, a, hreplay, hfinish, ?_⟩
  rw [← hkept, hrules]

/-- The log alone settles the automaton. -/
theorem automaton_eq_of_log_eq {source' : String} {c' : Compilation} (h : compile source true = .ok c)
    (h' : compile source' true = .ok c') (hlog : c.log = c'.log) : c.automaton = c'.automaton := by
  obtain ⟨_, f, a, hreplay, hfinish, _⟩ := exists_replay h
  obtain ⟨_, f', a', hreplay', hfinish', _⟩ := exists_replay h'
  rw [hlog, hreplay'] at hreplay
  obtain ⟨hstack, rfl⟩ := Prod.mk.inj (Option.some.inj hreplay)
  obtain rfl := List.head_eq_of_cons_eq hstack
  rw [hfinish'] at hfinish
  exact (Except.ok.inj hfinish).symm

/-- Keeping a log changes neither the outcome of a compilation nor its forms.  For a text that spells an expression the
log holds one rule for each token of the postfix stream, the one that the token asks for, and replaying it leads to
the compiled automaton and to the same log. -/
theorem log_complete_and_invisible (source : String) :
    compile source false = (compile source true).map (fun c => { c with log := [] }) ∧
    ∀ tree, Spells source.toList tree →
      ∃ c, compile source true = .ok c ∧
        List.Forall₂ (Token.AsksFor source.toList) c.reordered.tokens c.log ∧
        ∃ f a, replay c.log = some ([f], a) ∧ a.finish f = .ok c.automaton ∧ a.log = c.log := by
  refine ⟨compile_unlogged source, ?_⟩
  intro tree h
  obtain ⟨c, hcompile, _⟩ := compile_spells h true
  exact ⟨c, hcompile, exists_replay hcompile⟩

/-- The right operand of the union is taken from the stack first, and the repetition names none. -/
theorem log_complete_and_invisible_alternatives :
    ∃ tree, Spells "a|b*".toList tree ∧ ∃ c, compile "a|b*" true = .ok c ∧
      c.log = [.char 'a' 0 1, .char 'b' 2 3, .star 4 5, .union 6 7] ∧
      compile "a|b*" false = .ok { c with log := [] } ∧
      ∃ f a, replay c.log = some ([f], a) ∧ a.finish f = .ok c.automaton ∧ a.log = c.log := by
  have hspells : Spells "a|b*".toList _ :=
    .union (.sequence (.repetition (.atom (.literal rfl)))) (.repetition (.star (.atom (.literal rfl))))
  obtain ⟨hinvisible, hcomplete⟩ := log_complete_and_invisible "a|b*"
  obtain ⟨c, hcompile, _, hreplay⟩ := hcomplete _ hspells
  have hlog : (compile "a|b*" true).map Compilation.log =
      .ok [.char 'a' 0 1, .char 'b' 2 3, .star 4 5, .union 6 7] := by decide
  rw [hcompile] at hinvisible hlog
  exact ⟨_, hspells, c, hcompile, Except.ok.inj hlog, hinvisible, hreplay⟩

end RegexNfa
