import RegexNfa.Arena.Assembly
import RegexNfa.Expression.Layout
import RegexNfa.Proofs.Token.Reading

/-!
# Assembling lays an expression out

The states that the listing of a parse tree adds to an arena are those of the tree's expression, numbered from
the size of the arena on, whatever stands on the stack and whatever tokens come next (`LaysOut.ofTree`).

An operator takes over exits: `exists_absorb_layout` says that this changes where the exit of a block goes on to
and nothing else.
-/

namespace RegexNfa

namespace Arena

variable {a b : Arena} {pre post : List State} {onward : List Nat} {l r e : Expression} {c : Char}

/-! ## Taking over the exit of a block -/

lemma takenOver_goingOn (id : Nat) (h : onward ≠ []) :
    (State.goingOn id []).takenOver onward = State.goingOn id onward := by
  simp [State.takenOver, State.goingOn, h]

lemma modify_append_cons {α : Type} (xs ys : List α) (x : α) (change : α → α) :
    (xs ++ x :: ys).modify xs.length change = xs ++ change x :: ys := by
  induction xs with
  | nil => rfl
  | cons y xs ih => rw [List.cons_append, List.length_cons, List.modify_succ_cons, ih, List.cons_append]

lemma exists_absorb_layout (h : a.states = pre ++ (e.layout pre.length [] ++ post)) (honward : onward ≠ []) :
    ∃ b, a.absorb (e.exit pre.length) onward = .ok b ∧
      b.states = pre ++ (e.layout pre.length onward ++ post) := by
  have hsplit : ∀ targets, pre ++ (e.layout pre.length targets ++ post) =
      (pre ++ e.body pre.length) ++ State.goingOn (e.exit pre.length) targets :: post := by
    intro targets
    simp [Expression.layout]
  have hlength : (pre ++ e.body pre.length).length = e.exit pre.length := by
    rw [List.length_append, e.length_body_eq]
  rw [hsplit] at h
  have hexit : e.exit pre.length < a.size := by
    rw [size, h, List.length_append, List.length_cons, hlength]
    omega
  refine ⟨_, modify_eq_ok.2 ⟨hexit, rfl⟩, ?_⟩
  show a.states.modify (e.exit pre.length) (State.takenOver onward) = _
  rw [h, hsplit, ← takenOver_goingOn _ honward, ← modify_append_cons, hlength]

/-! ## The rules on blocks at the end of an arena -/

lemma char_layout (a : Arena) (c : Char) :
    (a.char c).1 = (Expression.literal c).fragment a.size ∧
      (a.char c).2.states = a.states ++ (Expression.literal c).layout a.size [] := by
  refine ⟨rfl, ?_⟩
  show (a.addPair _).states = _
  rw [states_addPair]
  rfl

lemma exists_concat_layout
    (h : a.states = pre ++ (l.layout pre.length [] ++ r.layout (pre.length + l.size) [])) :
    ∃ b, a.concat (l.fragment pre.length) (r.fragment (pre.length + l.size)) =
        .ok ((Expression.concat l r).fragment pre.length, b) ∧
      b.states = pre ++ (Expression.concat l r).layout pre.length [] := by
  obtain ⟨b, hb, hstates⟩ := exists_absorb_layout h (List.cons_ne_nil (r.entry (pre.length + l.size)) [])
  refine ⟨_, concat_eq_ok.2 ⟨rfl, b, hb, rfl⟩, ?_⟩
  rw [states_record, hstates]
  simp [Expression.layout, Expression.body, Expression.exit]

lemma exists_union_layout
    (h : a.states = pre ++ (l.layout pre.length [] ++ r.layout (pre.length + l.size) [])) :
    ∃ b, a.union (l.fragment pre.length) (r.fragment (pre.length + l.size)) =
        .ok ((Expression.union l r).fragment pre.length, b) ∧
      b.states = pre ++ (Expression.union l r).layout pre.length [] := by
  have hsize : a.size = pre.length + l.size + r.size := by
    rw [size, h, List.length_append, List.length_append, Expression.length_layout, Expression.length_layout,
      Nat.add_assoc]
  have hpair :=
    a.states_addPair [(.epsilon, l.entry pre.length), (.epsilon, r.entry (pre.length + l.size))]
  rw [h, List.append_assoc, List.append_assoc] at hpair
  obtain ⟨d, hd, hleft⟩ := exists_absorb_layout hpair (List.cons_ne_nil (a.size + 1) [])
  have hpre : (pre ++ l.layout pre.length [a.size + 1]).length = pre.length + l.size := by
    rw [List.length_append, Expression.length_layout]
  rw [← List.append_assoc, ← hpre] at hleft
  obtain ⟨b, hb, hright⟩ := exists_absorb_layout hleft (List.cons_ne_nil (a.size + 1) [])
  rw [hpre] at hb hright
  have hends : (Expression.union l r).fragment pre.length = ⟨a.size, a.size + 1⟩ := by
    rw [hsize]
    rfl
  refine ⟨_, union_eq_ok.2 ⟨hends, d, b, hd, hb, rfl⟩, ?_⟩
  rw [states_record, hright, hsize]
  simp [Expression.layout, Expression.body, Expression.exit, State.goingOn]

lemma exists_star_layout (h : a.states = pre ++ e.layout pre.length []) :
    ∃ b, a.star (e.fragment pre.length) = .ok ((Expression.star e).fragment pre.length, b) ∧
      b.states = pre ++ (Expression.star e).layout pre.length [] := by
  have hsize : a.size = pre.length + e.size := by
    rw [size, h, List.length_append, Expression.length_layout]
  have hpair := a.states_addPair [(.epsilon, e.entry pre.length), (.epsilon, a.size + 1)]
  rw [h, List.append_assoc] at hpair
  obtain ⟨b, hb, hstates⟩ :=
    exists_absorb_layout hpair (List.cons_ne_nil (e.entry pre.length) [a.size + 1])
  have hends : (Expression.star e).fragment pre.length = ⟨a.size, a.size + 1⟩ := by
    rw [hsize]
    rfl
  refine ⟨_, star_eq_ok.2 ⟨hends, b, hb, rfl⟩, ?_⟩
  rw [states_record, hstates, hsize]
  simp [Expression.layout, Expression.body, Expression.exit, State.goingOn]

/-! ## Assembling -/

variable {source : List Char} {whole : Span} {ts us : List Token} {t : Token}

/-- Assembling `ts` adds the states of `e` at the end of any arena, and its fragment on top of any stack. -/
def LaysOut (source : List Char) (whole : Span) (ts : List Token) (e : Expression) : Prop :=
  ∀ a : Arena, ∃ b : Arena, b.states = a.states ++ e.layout a.size [] ∧
    ∀ stack rest, assembleFrom source whole a stack (ts ++ rest) =
      assembleFrom source whole b (e.fragment a.size :: stack) rest

namespace LaysOut

lemma literal (ht : t.kind = .literal) (hread : t.literal? source = .ok (some c)) :
    LaysOut source whole [t] (.literal c) := by
  intro a
  obtain ⟨hends, hstates⟩ := char_layout a c
  refine ⟨_, hstates, ?_⟩
  intro stack rest
  obtain ⟨kind, span⟩ := t
  subst ht
  simp only [List.singleton_append, assembleFrom, hread, hends]

/-- Two operands side by side, then their operator. -/
lemma binary {rule : Arena → Fragment → Fragment → Except Fault (Fragment × Arena)}
    {join : Expression → Expression → Expression}
    (hassemble : ∀ a left right stack rest,
      assembleFrom source whole a (right :: left :: stack) (t :: rest) =
        a.proceed (rule a left right) fun f b => assembleFrom source whole b (f :: stack) rest)
    (hrule : ∀ (a : Arena) (pre : List State),
      a.states = pre ++ (l.layout pre.length [] ++ r.layout (pre.length + l.size) []) →
        ∃ b, rule a (l.fragment pre.length) (r.fragment (pre.length + l.size)) =
            .ok ((join l r).fragment pre.length, b) ∧
          b.states = pre ++ (join l r).layout pre.length [])
    (left : LaysOut source whole ts l) (right : LaysOut source whole us r) :
    LaysOut source whole (ts ++ us ++ [t]) (join l r) := by
  intro a
  obtain ⟨d, hd, hleft⟩ := left a
  have hsize : d.size = a.size + l.size := by
    rw [size, hd, List.length_append, Expression.length_layout]
    rfl
  obtain ⟨d', hd', hright⟩ := right d
  rw [hd, hsize, List.append_assoc] at hd'
  obtain ⟨b, hmade, hb⟩ := hrule d' a.states hd'
  refine ⟨b, hb, ?_⟩
  intro stack rest
  rw [List.append_assoc, List.append_assoc, hleft, hright, hsize, List.singleton_append, hassemble]
  show d'.proceed (rule d' (l.fragment a.states.length) (r.fragment (a.states.length + l.size))) _ = _
  rw [hmade]
  rfl

lemma concat (ht : t.kind = .concat) (left : LaysOut source whole ts l)
    (right : LaysOut source whole us r) : LaysOut source whole (ts ++ us ++ [t]) (.concat l r) := by
  obtain ⟨kind, span⟩ := t
  subst ht
  exact binary (fun _ _ _ _ _ => rfl) (fun _ _ => exists_concat_layout) left right

lemma union (ht : t.kind = .union) (left : LaysOut source whole ts l)
    (right : LaysOut source whole us r) : LaysOut source whole (ts ++ us ++ [t]) (.union l r) := by
  obtain ⟨kind, span⟩ := t
  subst ht
  exact binary (fun _ _ _ _ _ => rfl) (fun _ _ => exists_union_layout) left right

lemma star (ht : t.kind = .star) (inner : LaysOut source whole ts e) :
    LaysOut source whole (ts ++ [t]) (.star e) := by
  intro a
  obtain ⟨d, hd, hinner⟩ := inner a
  obtain ⟨b, hmade, hb⟩ := exists_star_layout hd
  refine ⟨b, hb, ?_⟩
  intro stack rest
  obtain ⟨kind, span⟩ := t
  subst ht
  rw [List.append_assoc, hinner]
  show d.proceed (d.star (e.fragment a.states.length)) _ = _
  rw [hmade]
  rfl

/-- The listing of a tree lays its expression out. -/
theorem ofTree (whole : Span) {tree : ParseTree} (hread : tree.ReadFrom source) :
    LaysOut source whole tree.listing tree.expression := by
  induction tree with
  | literal c place => exact literal rfl hread
  | concat l r place ihl ihr => exact concat rfl (ihl hread.1) (ihr hread.2)
  | union l r place ihl ihr => exact union rfl (ihl hread.1) (ihr hread.2)
  | star e place ih => exact star rfl (ih hread)

end LaysOut

end Arena

end RegexNfa
