import RegexNfa.Proofs.Arena.Assembled
import RegexNfa.Proofs.Token.Words

/-!
# Which token is refused

Assembling pops what it has pushed itself, so whatever is in the arena already, and whatever the stream is, a rule never
finds a fragment that is not there (`Holds`).  The stack is then as high as the count of operands, token by token
(`exists_step`), and assembling ends where the count does: at the first token at which it gives out, or at the end of
the stream (`assemble_follows`).

What the count means is said in `Proofs/Token/Words`.  It gives out as soon as no postfix word can begin in that way, so
the token that is refused is the last one of the shortest such beginning.
-/

namespace RegexNfa

namespace Arena

variable {source : List Char} {whole : Span} {a b : Arena} {f : Fragment} {stack : List Fragment} {t : Token}
  {ts : List Token} {n : Nat}

/-! ## Fragments of the stack are in the arena -/

/-- The exits of the fragments are in the arena, whatever else is. -/
def Holds (a : Arena) (stack : List Fragment) : Prop :=
  ∀ f ∈ stack, f.exit < a.size

lemma Holds.push (h : a.Holds stack) (hsize : a.size ≤ b.size) (hf : f.exit < b.size) : b.Holds (f :: stack) :=
  List.forall_mem_cons.2 ⟨hf, fun g hg => Nat.lt_of_lt_of_le (h g hg) hsize⟩

/-- Two fragments are on top of a stack that holds as many. -/
lemma Holds.exists_two (h : a.Holds stack) (hle : 2 ≤ stack.length) :
    ∃ right left rest, stack = right :: left :: rest ∧ right.exit < a.size ∧ left.exit < a.size ∧ a.Holds rest := by
  match stack, hle with
  | right :: left :: rest, _ =>
    obtain ⟨hright, hmore⟩ := List.forall_mem_cons.1 h
    obtain ⟨hleft, hrest⟩ := List.forall_mem_cons.1 hmore
    exact ⟨right, left, rest, rfl, hright, hleft, hrest⟩

/-- A token for which there are operands enough leads to a stack that is as high as the count says. -/
lemma exists_step (h : a.Holds stack) (hread : Readable source [t])
    (hdepth : TokenKind.depth? stack.length t.kind = some n) :
    ∃ (stack' : List Fragment) (b : Arena), b.Holds stack' ∧ stack'.length = n ∧
      ∀ whole rest, assembleFrom source whole a stack (t :: rest) = assembleFrom source whole b stack' rest := by
  obtain ⟨kind, span⟩ := t
  cases kind with
  | literal =>
    obtain ⟨c, hc⟩ := hread _ (List.mem_singleton_self _) rfl
    refine ⟨(a.char c).1 :: stack, (a.char c).2, h.push ?_ ?_, Option.some.inj hdepth, ?_⟩
    · rw [size_char]
      omega
    · rw [size_char]
      exact Nat.lt_succ_self _
    · intro whole rest
      simp only [assembleFrom, hc]
  | star =>
    rw [TokenKind.depth?, Option.ite_none_right_eq_some] at hdepth
    obtain ⟨hle, hn⟩ := hdepth
    obtain ⟨inner, rest, rfl⟩ := List.length_pos_iff_exists_cons.1 hle
    obtain ⟨hinner, hrest⟩ := List.forall_mem_cons.1 h
    obtain ⟨f, b, hmade⟩ := exists_star hinner
    have hsize := size_star hmade
    obtain ⟨rfl, _⟩ := star_eq_ok.1 hmade
    have hexit : a.size + 1 < b.size := by omega
    refine ⟨⟨a.size, a.size + 1⟩ :: rest, b, Holds.push hrest (by omega) hexit, Option.some.inj hn, ?_⟩
    intro whole more
    simp only [assembleFrom, hmade, proceed]
  | concat =>
    rw [TokenKind.depth?, Option.ite_none_right_eq_some] at hdepth
    obtain ⟨hle, hn⟩ := hdepth
    obtain ⟨right, left, rest, rfl, hright, hleft, hrest⟩ := h.exists_two hle
    obtain ⟨f, b, hmade⟩ : ∃ f b, a.concat left right = .ok (f, b) := exists_concat hleft
    have hsize := size_concat hmade
    obtain ⟨rfl, _⟩ := concat_eq_ok.1 hmade
    have hexit : right.exit < b.size := by omega
    refine ⟨⟨left.entry, right.exit⟩ :: rest, b, Holds.push hrest (by omega) hexit, Option.some.inj hn, ?_⟩
    intro whole more
    simp only [assembleFrom, hmade, proceed]
  | union =>
    rw [TokenKind.depth?, Option.ite_none_right_eq_some] at hdepth
    obtain ⟨hle, hn⟩ := hdepth
    obtain ⟨right, left, rest, rfl, hright, hleft, hrest⟩ := h.exists_two hle
    obtain ⟨f, b, hmade⟩ := exists_union hleft hright
    have hsize := size_union hmade
    obtain ⟨rfl, _⟩ := union_eq_ok.1 hmade
    have hexit : a.size + 1 < b.size := by omega
    refine ⟨⟨a.size, a.size + 1⟩ :: rest, b, Holds.push hrest (by omega) hexit, Option.some.inj hn, ?_⟩
    intro whole more
    simp only [assembleFrom, hmade, proceed]
  | parenOpen | parenClose => exact absurd hdepth (by simp [TokenKind.depth?])

lemma exists_steps (h : a.Holds stack) (hread : Readable source ts)
    (hdepth : TokenKind.depthAfter? stack.length (ts.map Token.kind) = some n) :
    ∃ (stack' : List Fragment) (b : Arena), stack'.length = n ∧
      ∀ whole rest, assembleFrom source whole a stack (ts ++ rest) = assembleFrom source whole b stack' rest := by
  induction ts generalizing a stack with
  | nil => exact ⟨stack, a, Option.some.inj hdepth, fun whole rest => rfl⟩
  | cons t ts ih =>
    obtain ⟨m, hm, hn⟩ := Option.bind_eq_some_iff.1 hdepth
    obtain ⟨hhead, htail⟩ := List.forall_mem_cons.1 hread
    obtain ⟨between, c, hbetween, rfl, hfirst⟩ := exists_step h (List.forall_mem_singleton.2 hhead) hm
    obtain ⟨stack', b, hlength, hsecond⟩ := ih hbetween htail hn
    exact ⟨stack', b, hlength, fun whole rest => (hfirst whole (ts ++ rest)).trans (hsecond whole rest)⟩

/-! ## Where assembling ends -/

variable {s : TokenStream}

lemma holds_nil (a : Arena) : a.Holds [] :=
  fun _ hf => absurd hf List.not_mem_nil

/-- A stream that is counted to its end is judged by the count. -/
lemma assemble_of_depth (a : Arena) (hread : Readable s.source s.tokens)
    (hdepth : TokenKind.depthAfter? 0 (s.tokens.map Token.kind) = some n) :
    ∃ (stack : List Fragment) (b : Arena), stack.length = n ∧ a.assemble s = b.conclude s.fullSpan stack := by
  obtain ⟨stack, b, hlength, hassemble⟩ := exists_steps a.holds_nil hread hdepth
  have hall := hassemble s.fullSpan []
  rw [List.append_nil] at hall
  exact ⟨stack, b, hlength, hall⟩

/-- A stream in which the count gives out is refused there. -/
lemma assemble_of_refused (a : Arena) {before after : List Token} (htokens : s.tokens = before ++ t :: after)
    (hread : Readable s.source s.tokens) (hbefore : TokenKind.depthAfter? 0 (before.map Token.kind) = some n)
    (ht : TokenKind.depth? n t.kind = none) :
    ∃ b, a.assemble s = (.error (.invalid ⟨t.kind.blame, t.span⟩), b) := by
  have hread' : Readable s.source before := by
    intro u hu
    rw [htokens] at hread
    exact hread u (List.mem_append_left _ hu)
  obtain ⟨stack, b, rfl, hassemble⟩ := exists_steps a.holds_nil hread' hbefore
  refine ⟨b, ?_⟩
  rw [assemble, htokens, hassemble, assembleFrom_refuse ht]
  rfl

lemma conclude_of_length {stack : List Fragment} (h : stack.length ≠ 1) :
    a.conclude whole stack =
      (.error (.invalid ⟨if stack.length = 0 then .empty else .unconnected stack.length, whole⟩), a) := by
  match stack with
  | [] => rfl
  | [f] => exact absurd rfl h
  | f :: g :: stack => rfl

/-- Assembling ends where the count of operands ends. -/
theorem assemble_follows (a : Arena) (hread : Readable s.source s.tokens) :
    (TokenKind.depthAfter? 0 (s.tokens.map Token.kind) = some 1 ∧ ∃ f b, a.assemble s = (.ok f, b)) ∨
    (∃ n b, TokenKind.depthAfter? 0 (s.tokens.map Token.kind) = some n ∧ n ≠ 1 ∧
      a.assemble s = (.error (.invalid ⟨if n = 0 then .empty else .unconnected n, s.fullSpan⟩), b)) ∨
    ∃ before t after n b, s.tokens = before ++ t :: after ∧
      TokenKind.depthAfter? 0 (before.map Token.kind) = some n ∧ TokenKind.depth? n t.kind = none ∧
      a.assemble s = (.error (.invalid ⟨t.kind.blame, t.span⟩), b) := by
  cases hdepth : TokenKind.depthAfter? 0 (s.tokens.map Token.kind) with
  | some n =>
    obtain ⟨stack, b, rfl, hassemble⟩ := a.assemble_of_depth hread hdepth
    by_cases hone : stack.length = 1
    · obtain ⟨f, rfl⟩ := List.length_eq_one_iff.1 hone
      exact .inl ⟨rfl, f, b, hassemble⟩
    · rw [conclude_of_length hone] at hassemble
      exact .inr (.inl ⟨_, b, rfl, hone, hassemble⟩)
  | none =>
    obtain ⟨before, t, after, n, htokens, hbefore, ht⟩ := depthAfter?_eq_none hdepth
    obtain ⟨b, hassemble⟩ := a.assemble_of_refused htokens hread hbefore ht
    exact .inr (.inr ⟨before, t, after, n, b, htokens, hbefore, ht, hassemble⟩)

/-! ## The first token that cannot be part of a word -/

/-- A literal whose text is not empty can be read. -/
lemma readable_of_text (h : ∀ t ∈ s.tokens, t.kind = .literal → ∃ c cs, t.text s.source = .ok (c :: cs)) :
    Readable s.source s.tokens := by
  intro t ht hkind
  obtain ⟨c, cs, hc⟩ := h t ht hkind
  refine ⟨c, ?_⟩
  rw [Token.literal?, if_pos hkind, hc]
  rfl

/-- The token at which the count gives out ends the shortest beginning that no word has. -/
lemma shortest_of_refused {before after : List Token} (htokens : ts = before ++ t :: after)
    (hbefore : TokenKind.depthAfter? 0 (before.map Token.kind) = some n) (ht : TokenKind.depth? n t.kind = none) :
    ¬ Extendable ((before ++ [t]).map Token.kind) ∧
      ∀ p, p <+: ts → ¬ Extendable (p.map Token.kind) → (before ++ [t]).length ≤ p.length := by
  refine ⟨?_, ?_⟩
  · rw [extendable_iff, List.map_append, List.map_singleton, depthAfter?_concat, hbefore, Option.bind_some, ht]
    simp
  · intro p hp hhopeless
    by_contra hlonger
    rw [List.length_append, List.length_singleton] at hlonger
    have hwithin : p <+: before := by
      refine List.prefix_of_prefix_length_le hp ?_ (by omega)
      rw [htokens]
      exact List.prefix_append before _
    exact hhopeless ((extendable_iff.2 ⟨n, hbefore⟩).begins (hwithin.map Token.kind))

/-- On any arena a stream whose literals have text is assembled exactly if its kinds are a postfix word.  If a beginning
of it cannot be completed to a word, then it is refused at the last token of the shortest such beginning, which is an
operator without operands or a bracket.  If every beginning can be completed, it is a row of words; unless it is a single
one, the whole text is to blame. -/
theorem assemble_blames_first_hopeless (a : Arena) (s : TokenStream)
    (htext : ∀ t ∈ s.tokens, t.kind = .literal → ∃ c cs, t.text s.source = .ok (c :: cs)) :
    ((∃ f b, a.assemble s = (.ok f, b)) ↔ PostfixWord (s.tokens.map Token.kind)) ∧
    ((∃ p, p <+: s.tokens ∧ ¬ Extendable (p.map Token.kind)) →
      ∃ before t after, s.tokens = before ++ t :: after ∧ ¬ Extendable ((before ++ [t]).map Token.kind) ∧
        (∀ p, p <+: s.tokens → ¬ Extendable (p.map Token.kind) → (before ++ [t]).length ≤ p.length) ∧
        t.kind ≠ .literal ∧ ∃ b, a.assemble s = (.error (.invalid ⟨t.kind.blame, t.span⟩), b)) ∧
    ((∀ p, p <+: s.tokens → Extendable (p.map Token.kind)) → ¬ PostfixWord (s.tokens.map Token.kind) →
      s.tokens = [] ∨ ∃ words : List (List TokenKind), 2 ≤ words.length ∧ (∀ w ∈ words, PostfixWord w) ∧
        words.flatten = s.tokens.map Token.kind) ∧
    (s.tokens = [] → ∃ b, a.assemble s = (.error (.invalid ⟨.empty, s.fullSpan⟩), b)) ∧
    ∀ words : List (List TokenKind), 2 ≤ words.length → (∀ w ∈ words, PostfixWord w) →
      words.flatten = s.tokens.map Token.kind →
      ∃ b, a.assemble s = (.error (.invalid ⟨.unconnected words.length, s.fullSpan⟩), b) := by
  have hread := readable_of_text htext
  refine ⟨?_, ?_, ?_, ?_, ?_⟩
  · rw [postfixWord_iff]
    rcases a.assemble_follows hread with ⟨hone, hok⟩ | ⟨n, b, hn, hne, hfails⟩ |
      ⟨before, t, after, n, b, htokens, hbefore, ht, hfails⟩
    · exact iff_of_true hok hone
    · refine iff_of_false (by simp [hfails]) ?_
      rw [hn]
      exact fun hone => hne (Option.some.inj hone)
    · refine iff_of_false (by simp [hfails]) ?_
      intro hone
      refine (shortest_of_refused htokens hbefore ht).1 ((extendable_iff.2 ⟨1, hone⟩).begins ?_)
      have hbeginning : before ++ [t] <+: s.tokens :=
        ⟨after, by rw [htokens, List.append_assoc, List.singleton_append]⟩
      exact hbeginning.map Token.kind
  · rintro ⟨p, hp, hhopeless⟩
    have hnone : TokenKind.depthAfter? 0 (s.tokens.map Token.kind) = none := by
      rw [Option.eq_none_iff_forall_ne_some]
      intro n hn
      exact hhopeless ((extendable_iff.2 ⟨n, hn⟩).begins (hp.map Token.kind))
    obtain ⟨before, t, after, n, htokens, hbefore, ht⟩ := depthAfter?_eq_none hnone
    obtain ⟨hends, hshortest⟩ := shortest_of_refused htokens hbefore ht
    refine ⟨before, t, after, htokens, hends, hshortest, ?_, a.assemble_of_refused htokens hread hbefore ht⟩
    intro hkind
    rw [hkind] at ht
    exact absurd ht (by simp [TokenKind.depth?])
  · intro hall hword
    obtain ⟨n, hn⟩ := extendable_iff.1 (hall s.tokens (List.prefix_refl _))
    obtain ⟨words, rfl, hwords, hflatten⟩ := depthAfter?_eq_some_iff.1 hn
    cases words with
    | nil => exact .inl (List.map_eq_nil_iff.1 hflatten.symm)
    | cons u words =>
      cases words with
      | nil => exact absurd (postfixWord_iff.2 hn) hword
      | cons v rest => exact .inr ⟨u :: v :: rest, Nat.le_add_left 2 _, hwords, hflatten⟩
  · intro hnil
    rw [assemble, hnil]
    exact ⟨a, rfl⟩
  · intro words hle hwords hflatten
    obtain ⟨stack, b, hlength, hassemble⟩ :=
      a.assemble_of_depth hread (depthAfter?_eq_some_iff.2 ⟨words, rfl, hwords, hflatten⟩)
    rw [conclude_of_length (by omega), if_neg (by omega), hlength] at hassemble
    exact ⟨b, hassemble⟩

/-- In an arena that is not empty, two words in a row are left unconnected, and a concatenation between them is
refused. -/
theorem assemble_blames_first_hopeless_early :
    (∃ b, (fresh false).addState.2.assemble
        ⟨['a', 'b'], [⟨.literal, .upTo 1⟩, ⟨.literal, .ofChar 1 'b'⟩, ⟨.star, .emptyAt 2⟩]⟩ =
      (.error (.invalid ⟨.unconnected 2, .upTo 2⟩), b)) ∧
    ∃ b, (fresh false).addState.2.assemble
        ⟨['a', 'b'], [⟨.literal, .upTo 1⟩, ⟨.concat, .emptyAt 1⟩, ⟨.literal, .ofChar 1 'b'⟩]⟩ =
      (.error (.invalid ⟨.missingOperand .concat, .emptyAt 1⟩), b) := by
  have hfirst : ∃ c cs, Token.text ['a', 'b'] ⟨.literal, .upTo 1⟩ = .ok (c :: cs) := ⟨'a', [], rfl⟩
  have hsecond : ∃ c cs, Token.text ['a', 'b'] ⟨.literal, .ofChar 1 'b'⟩ = .ok (c :: cs) := ⟨'b', [], rfl⟩
  refine ⟨?_, ?_⟩
  · obtain ⟨-, -, -, -, hrow⟩ := assemble_blames_first_hopeless (fresh false).addState.2
      ⟨['a', 'b'], [⟨.literal, .upTo 1⟩, ⟨.literal, .ofChar 1 'b'⟩, ⟨.star, .emptyAt 2⟩]⟩
      (by simp [hfirst, hsecond])
    have hwords : ∀ w ∈ [[TokenKind.literal], [.literal] ++ [.star]], PostfixWord w :=
      List.forall_mem_cons.2 ⟨.literal, List.forall_mem_singleton.2 (.star .literal)⟩
    exact hrow [[.literal], [.literal] ++ [.star]] (Nat.le_refl 2) hwords rfl
  · obtain ⟨-, hrefused, -⟩ := assemble_blames_first_hopeless (fresh false).addState.2
      ⟨['a', 'b'], [⟨.literal, .upTo 1⟩, ⟨.concat, .emptyAt 1⟩, ⟨.literal, .ofChar 1 'b'⟩]⟩
      (by simp [hfirst, hsecond])
    have hhopeless : ¬ Extendable [.literal, .concat, .literal] := by
      rw [extendable_iff]
      simp [TokenKind.depthAfter?, TokenKind.depth?]
    obtain ⟨before, t, after, htokens, -, -, hkind, hfails⟩ := hrefused ⟨_, List.prefix_refl _, hhopeless⟩
    have ht : t ∈ before ++ t :: after := List.mem_append_right before List.mem_cons_self
    rw [← htokens] at ht
    have hconcat : t = ⟨.concat, .emptyAt 1⟩ := by
      rcases List.mem_cons.1 ht with rfl | ht
      · exact absurd rfl hkind
      rcases List.mem_cons.1 ht with rfl | ht
      · rfl
      · obtain rfl := List.mem_singleton.1 ht
        exact absurd rfl hkind
    rw [hconcat] at hfails
    exact hfails

end Arena

end RegexNfa
