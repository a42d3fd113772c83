import RegexNfa.Proofs.Arena.Edges
import RegexNfa.Proofs.Arena.Log
import RegexNfa.Proofs.Token.Operands

/-!
# How far an arena grows

Three of the four rules add two states and concatenation adds none, so the size of an arena is settled by how often
the three are applied (`Operation.size_run`).  Assembling a stream adds at most two states for each token that asks
for one of them, also if the stream is refused half-way (`size_assembleFrom_le`).  Marks ask for concatenations, and
postfix order makes no tokens, so a text adds at most two states for each of its characters
(`size_assemble_translated_le`).
-/

namespace RegexNfa

namespace TokenKind

/-- The rule for such a token adds an entry and an exit. -/
def addsPair : TokenKind → Bool
  | literal | union | star => true
  | _ => false

end TokenKind

namespace Token

/-- Marks have no part in a count that leaves out concatenations. -/
lemma countP_mark {count : Token → Bool} (hconcat : ∀ t, count t = true → t.kind ≠ .concat) (ts : List Token) :
    (mark ts).countP count = ts.countP count := by
  have hmarker : ∀ t, count (marker t) = false := by
    intro t
    cases hcount : count (marker t) with
    | false => rfl
    | true => exact absurd rfl (hconcat _ hcount)
  rw [List.countP_eq_length_filter, List.countP_eq_length_filter, filter_mark hmarker]

/-- Translating a text makes no token that adds states. -/
lemma countP_addsPair_translated_le (ts : List Token) :
    (postfixFrom [] (mark ts)).countP (·.kind.addsPair) ≤ ts.length := by
  have hsent : (postfixFrom [] (mark ts)).countP (·.kind.addsPair) = (mark ts).countP (·.kind.addsPair) := by
    apply countP_postfixFrom
    intro t ht
    cases hkind : t.kind <;> simp_all [TokenKind.addsPair, TokenKind.isParen]
  have hmarked : (mark ts).countP (·.kind.addsPair) = ts.countP (·.kind.addsPair) := by
    apply countP_mark
    intro t ht hkind
    rw [hkind] at ht
    exact absurd ht Bool.false_ne_true
  rw [hsent, hmarked]
  exact List.countP_le_length

end Token

namespace Arena

variable {a b : Arena} {f : Fragment}

/-- An operation adds two states or none. -/
lemma Operation.size_run {operation : Operation} (h : operation.run a = .ok (f, b)) :
    b.size = a.size + if (operation.rule a).kind.addsPair then 2 else 0 := by
  cases operation with
  | char c =>
    obtain ⟨_, rfl⟩ := Prod.mk.inj (Except.ok.inj h)
    exact size_char a c
  | concat left right => exact size_concat h
  | union left right => exact size_union h
  | star inner => exact size_star h

/-- However an assembly ends, it has added at most two states for each token whose rule adds any. -/
theorem size_assembleFrom_le (source : List Char) (whole : Span) (a : Arena) (stack : List Fragment)
    (ts : List Token) :
    (assembleFrom source whole a stack ts).2.size ≤ a.size + 2 * ts.countP (·.kind.addsPair) := by
  induction ts generalizing a stack with
  | nil =>
    match stack with
    | [] | [_] | _ :: _ :: _ => exact Nat.le_refl _
  | cons t ts ih =>
    rw [List.countP_cons]
    obtain ⟨failure, hrefuse⟩ | ⟨operation, below, hasks, hproceed⟩ := assembleFrom_cons source stack t
    · rw [hrefuse]
      exact Nat.le_add_right _ _
    · rw [hproceed]
      cases hrun : operation.run a with
      | error fault => exact Nat.le_add_right _ _
      | ok made =>
        have hlater := ih made.2 (made.1 :: below)
        have hstep : made.2.size = a.size + if t.kind.addsPair then 2 else 0 := by
          rw [(hasks a).1.1]
          exact Operation.size_run hrun
        have hpair : (if t.kind.addsPair = true then 2 else 0) = 2 * if t.kind.addsPair = true then 1 else 0 := by
          split <;> rfl
        show (assembleFrom source whole made.2 (made.1 :: below) ts).2.size ≤ _
        omega

/-- A text takes at most two states for each of its characters, whether it is refused or not. -/
theorem size_assemble_translated_le (source : List Char) (logging : Bool) :
    ((fresh logging).assemble (TokenStream.ofText source).marked.postfixed).2.size ≤ 2 * source.length := by
  have hassemble := size_assembleFrom_le source (TokenStream.ofText source).fullSpan (fresh logging) []
    (Token.postfixFrom [] (Token.mark (Token.scanFrom 0 source)))
  have hcount := Token.countP_addsPair_translated_le (Token.scanFrom 0 source)
  have hempty : (fresh logging).size = 0 := rfl
  rw [Token.length_scanFrom] at hcount
  refine Nat.le_trans hassemble ?_
  omega

end Arena

end RegexNfa
