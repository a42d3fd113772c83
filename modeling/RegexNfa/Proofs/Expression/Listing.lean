import Mathlib.Data.List.Basic
import RegexNfa.Proofs.Token.Shunting

/-!
# The listing of a parse tree

A listing can be read in one way only: its last token says what the root is, and the operands are found in front of
it, the right one first (`ParseTree.eq_of_listing_eq`).  Literals of one length look alike in it, so they are compared
in the text.  Postfix order gives the listing of every tree that a text spells, so there is no second one
(`Spells.unique`): the grammar is unambiguous.

In the listing of a text no two tokens are equal.  In the marked text they stand from left to right, a mark before the
token that it belongs to (`pairwise_middle_mark`), and putting them into postfix order only moves them.
-/

namespace RegexNfa

open Token

/-! ## Reading a listing -/

namespace ParseTree

variable {source : List Char} {t u : ParseTree}

lemma isParen_of_mem_listing (t : ParseTree) : ∀ x ∈ t.listing, x.kind.isParen = false := by
  induction t with
  | literal c place => exact List.forall_mem_singleton.2 rfl
  | concat l r place ihl ihr =>
    exact List.forall_mem_append.2 ⟨List.forall_mem_append.2 ⟨ihl, ihr⟩, List.forall_mem_singleton.2 rfl⟩
  | union l r place ihl ihr =>
    exact List.forall_mem_append.2 ⟨List.forall_mem_append.2 ⟨ihl, ihr⟩, List.forall_mem_singleton.2 rfl⟩
  | star e place ih => exact List.forall_mem_append.2 ⟨ih, List.forall_mem_singleton.2 rfl⟩

/-- The token of the root. -/
def root : ParseTree → Token
  | literal c place => ⟨.literal, .ofChar place c⟩
  | concat _ _ place => ⟨.concat, .emptyAt place⟩
  | union _ _ place => ⟨.union, .ofChar place '|'⟩
  | star _ place => ⟨.star, .ofChar place '*'⟩

/-- The tokens of the operands. -/
def operands : ParseTree → List Token
  | literal _ _ => []
  | concat l r _ => l.listing ++ r.listing
  | union l r _ => l.listing ++ r.listing
  | star e _ => e.listing

lemma listing_eq (t : ParseTree) : t.listing = t.operands ++ [t.root] := by
  cases t with
  | literal | concat | union | star => rfl

lemma of_append_listing {before before' : List Token} (h : before ++ t.listing = before' ++ u.listing) :
    before ++ t.operands = before' ++ u.operands ∧ t.root = u.root := by
  rw [listing_eq, listing_eq, ← List.append_assoc, ← List.append_assoc] at h
  obtain ⟨hoperands, hroots⟩ := List.append_inj' h rfl
  exact ⟨hoperands, List.singleton_inj.1 hroots⟩

/-- Two listings that end one list of tokens are those of one tree, whatever stands in front of them. -/
theorem eq_of_listing_eq {before before' : List Token} (ht : t.ReadFrom source) (hu : u.ReadFrom source)
    (h : before ++ t.listing = before' ++ u.listing) : before = before' ∧ t = u := by
  induction t generalizing u before before' with
  | literal c place =>
    obtain ⟨hoperands, hroot⟩ := of_append_listing h
    cases u with
    | literal d place' =>
      have hplace : place = place' := congrArg (·.span.start) hroot
      have hread : Token.literal? source (literal d place').root = .ok (some c) := by
        rw [← hroot]
        exact ht
      have hchar : some c = some d := Except.ok.inj (hread.symm.trans hu)
      rw [operands, operands, List.append_nil, List.append_nil] at hoperands
      rw [hplace, Option.some.inj hchar]
      exact ⟨hoperands, rfl⟩
    | concat | union | star => exact nomatch congrArg Token.kind hroot
  | concat l r place ihl ihr =>
    obtain ⟨hoperands, hroot⟩ := of_append_listing h
    cases u with
    | concat l' r' place' =>
      have hplace : place = place' := congrArg (·.span.start) hroot
      rw [operands, operands, ← List.append_assoc, ← List.append_assoc] at hoperands
      obtain ⟨hleft, rfl⟩ := ihr ht.2 hu.2 hoperands
      obtain ⟨hbefore, rfl⟩ := ihl ht.1 hu.1 hleft
      rw [hplace]
      exact ⟨hbefore, rfl⟩
    | literal | union | star => exact nomatch congrArg Token.kind hroot
  | union l r place ihl ihr =>
    obtain ⟨hoperands, hroot⟩ := of_append_listing h
    cases u with
    | union l' r' place' =>
      have hplace : place = place' := congrArg (·.span.start) hroot
      rw [operands, operands, ← List.append_assoc, ← List.append_assoc] at hoperands
      obtain ⟨hleft, rfl⟩ := ihr ht.2 hu.2 hoperands
      obtain ⟨hbefore, rfl⟩ := ihl ht.1 hu.1 hleft
      rw [hplace]
      exact ⟨hbefore, rfl⟩
    | literal | concat | star => exact nomatch congrArg Token.kind hroot
  | star e place ih =>
    obtain ⟨hoperands, hroot⟩ := of_append_listing h
    cases u with
    | star e' place' =>
      have hplace : place = place' := congrArg (·.span.start) hroot
      have hinner : e'.ReadFrom source := hu
      obtain ⟨hbefore, rfl⟩ := ih ht hinner hoperands
      rw [hplace]
      exact ⟨hbefore, rfl⟩
    | literal | concat | union => exact nomatch congrArg Token.kind hroot

end ParseTree

/-- A text spells one tree at most. -/
theorem Spells.unique {source : List Char} {t u : ParseTree} (ht : Spells source t) (hu : Spells source u) :
    t = u := by
  have hlisting : [] ++ t.listing = [] ++ u.listing := by
    rw [← postfixed_ofText ht, ← postfixed_ofText hu]
  exact (ParseTree.eq_of_listing_eq ht.readFrom hu.readFrom hlisting).2

/-! ## No token twice -/

namespace Token

/-- Twice the middle of the span. -/
def middle (t : Token) : Nat :=
  t.span.start + t.span.stop

/-- One character: its token, and where it ends perhaps a mark. -/
lemma exists_mark_scanFrom_cons (offset : Nat) (c : Char) (s : List Char) :
    ∃ marks, (marks = [] ∨ marks = [⟨.concat, .emptyAt (offset + c.utf8Size)⟩]) ∧
      mark (scanFrom offset (c :: s)) =
        ⟨.ofChar c, .ofChar offset c⟩ :: (marks ++ mark (scanFrom (offset + c.utf8Size) s)) := by
  cases s with
  | nil => exact ⟨[], .inl rfl, rfl⟩
  | cons d s =>
    refine ⟨between ⟨.ofChar c, .ofChar offset c⟩ ⟨.ofChar d, .ofChar (offset + c.utf8Size) d⟩, ?_, rfl⟩
    unfold between
    split
    · exact .inr rfl
    · exact .inl rfl

/-- Without its marks a marked text is as it was read. -/
lemma filter_mark_scanFrom (offset : Nat) (s : List Char) :
    (mark (scanFrom offset s)).filter (·.kind ≠ .concat) = scanFrom offset s := by
  rw [filter_mark (fun _ => rfl)]
  exact List.filter_eq_self.2 fun t ht => decide_eq_true (kind_ne_concat_of_mem_scanFrom t ht)

/-- In a marked text the spans move to the right, and none lies before the text. -/
lemma pairwise_middle_mark (offset : Nat) (s : List Char) :
    (∀ t ∈ mark (scanFrom offset s), 2 * offset < t.middle) ∧
      (mark (scanFrom offset s)).Pairwise fun t u => t.middle < u.middle := by
  induction s generalizing offset with
  | nil => exact ⟨fun t ht => absurd ht List.not_mem_nil, .nil⟩
  | cons c s ih =>
    obtain ⟨marks, hmarks, hmark⟩ := exists_mark_scanFrom_cons offset c s
    obtain ⟨hafter, hascending⟩ := ih (offset + c.utf8Size)
    have hpos := c.utf8Size_pos
    have hchar : (⟨.ofChar c, .ofChar offset c⟩ : Token).middle = offset + (offset + c.utf8Size) := rfl
    have hmarked : marks.Pairwise (fun t u => t.middle < u.middle) ∧
        ∀ t ∈ marks, t.middle = 2 * (offset + c.utf8Size) := by
      rcases hmarks with rfl | rfl
      · exact ⟨.nil, fun t ht => absurd ht List.not_mem_nil⟩
      · exact ⟨List.pairwise_singleton _ _, List.forall_mem_singleton.2 (Nat.two_mul _).symm⟩
    obtain ⟨hapart, hseam⟩ := hmarked
    -- everything after the first token lies behind its end
    have hlater : ∀ t ∈ marks ++ mark (scanFrom (offset + c.utf8Size) s),
        2 * (offset + c.utf8Size) ≤ t.middle := by
      intro t ht
      rcases List.mem_append.1 ht with ht | ht
      · exact Nat.le_of_eq (hseam t ht).symm
      · exact Nat.le_of_lt (hafter t ht)
    rw [hmark]
    refine ⟨?_, List.pairwise_cons.2 ⟨?_, List.pairwise_append.2 ⟨hapart, hascending, ?_⟩⟩⟩
    · refine List.forall_mem_cons.2 ⟨by omega, ?_⟩
      intro t ht
      have hle := hlater t ht
      omega
    · intro t ht
      have hle := hlater t ht
      omega
    · intro t ht u hu
      rw [hseam t ht]
      exact hafter u hu

/-- No token comes twice in a marked text. -/
lemma nodup_mark (source : List Char) : (mark (scanFrom 0 source)).Nodup := by
  refine (pairwise_middle_mark 0 source).2.imp ?_
  rintro t u hlt rfl
  exact Nat.lt_irrefl _ hlt

end Token

variable {source : List Char} {tree : ParseTree}

/-- Postfix order of a text that spells an expression is the listing of its tree, of which there is one only.  Every
character of the text other than a bracket comes once in it, as the token that stands there, and with the marks no token
comes twice. -/
theorem postfix_order_lists_tree (h : Spells source tree) :
    (∀ other, Spells source other → other = tree) ∧
      (TokenStream.ofText source).marked.postfixed.tokens = tree.listing ∧
      tree.listing.Nodup ∧
      tree.listing.Perm ((TokenStream.ofText source).marked.tokens.filter (!·.kind.isParen)) ∧
      (tree.listing.filter (·.kind ≠ .concat)).Perm
        ((TokenStream.ofText source).tokens.filter (!·.kind.isParen)) ∧
      ∀ t ∈ tree.listing, t.kind.isParen = false := by
  have hlisting := postfixed_ofText h
  have hperm : tree.listing.Perm ((TokenStream.ofText source).marked.tokens.filter (!·.kind.isParen)) := by
    have hkept := postfixFrom_perm [] (TokenStream.ofText source).marked.tokens
    have hall : tree.listing.filter (!·.kind.isParen) = tree.listing := by
      refine List.filter_eq_self.2 fun t ht => ?_
      rw [tree.isParen_of_mem_listing t ht]
      rfl
    have hpostfixed : postfixFrom [] (TokenStream.ofText source).marked.tokens = tree.listing := hlisting
    rw [hpostfixed, hall, List.nil_append] at hkept
    exact hkept
  refine ⟨fun other hother => hother.unique h, hlisting, ?_, hperm, ?_, tree.isParen_of_mem_listing⟩
  · exact hperm.nodup_iff.2 ((nodup_mark source).filter _)
  · have hread := hperm.filter (·.kind ≠ .concat)
    have hmarked : (TokenStream.ofText source).marked.tokens.filter (·.kind ≠ .concat) =
        (TokenStream.ofText source).tokens := filter_mark_scanFrom 0 source
    rw [List.filter_comm, hmarked] at hread
    exact hread

/-- A union inside of a repetition that stands beside a literal, all of it an alternative; the second literal takes two
bytes. -/
theorem postfix_order_lists_tree_nested :
    ∃ tree, Spells "(a|é)*b|c".toList tree ∧
      (TokenStream.ofText "(a|é)*b|c".toList).marked.postfixed.tokens =
        [⟨.literal, .ofChar 1 'a'⟩, ⟨.literal, .ofChar 3 'é'⟩, ⟨.union, .ofChar 2 '|'⟩, ⟨.star, .ofChar 6 '*'⟩,
          ⟨.literal, .ofChar 7 'b'⟩, ⟨.concat, .emptyAt 7⟩, ⟨.literal, .ofChar 9 'c'⟩, ⟨.union, .ofChar 8 '|'⟩] := by
  have hinner : Derives .alternation 1 "a|é".toList (.union (.literal 'a' 1) (.literal 'é' 3) 2) :=
    .union (.sequence (.repetition (.atom (.literal rfl)))) (.repetition (.atom (.literal rfl)))
  have hleft : Derives .alternation 0 "(a|é)*b".toList _ :=
    .sequence (.concat (.repetition (.star (.atom (.group hinner)))) (.atom (.literal rfl)))
  have hspells : Spells "(a|é)*b|c".toList _ :=
    .union hleft (.repetition (.atom (.literal rfl)))
  obtain ⟨_, hlisting, _⟩ := postfix_order_lists_tree hspells
  exact ⟨_, hspells, hlisting⟩

end RegexNfa
