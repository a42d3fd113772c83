import RegexNfa.Fault

/-!
# Spans

Positions in a text count the bytes of its UTF-8 form.  A position is aligned when it falls between
two characters; a span is read as text only if both its ends are.  `slice_eq_some` says which
characters that are: those between the two ends.
-/

namespace RegexNfa

/-- The number of bytes of a text. -/
def byteLength : List Char → Nat
  | [] => 0
  | c :: cs => c.utf8Size + byteLength cs

@[simp] theorem byteLength_nil : byteLength [] = 0 := rfl

@[simp] theorem byteLength_cons (c : Char) (cs : List Char) :
    byteLength (c :: cs) = c.utf8Size + byteLength cs := rfl

@[simp] theorem byteLength_append (cs ds : List Char) :
    byteLength (cs ++ ds) = byteLength cs + byteLength ds := by
  induction cs with
  | nil => simp
  | cons c cs ih =>
    rw [List.cons_append, byteLength_cons, byteLength_cons, ih, Nat.add_assoc]

/-- The text from byte `n` on, if a character starts or the text ends there. -/
def afterBytes : List Char → Nat → Option (List Char)
  | cs, 0 => some cs
  | [], _ + 1 => none
  | c :: cs, n + 1 =>
    if c.utf8Size ≤ n + 1 then afterBytes cs (n + 1 - c.utf8Size) else none

/-- The text before byte `n`, if a character starts or the text ends there. -/
def beforeBytes : List Char → Nat → Option (List Char)
  | _, 0 => some []
  | [], _ + 1 => none
  | c :: cs, n + 1 =>
    if c.utf8Size ≤ n + 1 then (c :: ·) <$> beforeBytes cs (n + 1 - c.utf8Size) else none

/-- Position `n` falls between two characters of the text, or at one of its ends. -/
def Aligned (cs : List Char) (n : Nat) : Prop :=
  ∃ before after, cs = before ++ after ∧ byteLength before = n

theorem byteLength_eq_zero {cs : List Char} : byteLength cs = 0 ↔ cs = [] := by
  cases cs with
  | nil => simp
  | cons c cs =>
    have := c.utf8Size_pos
    simp only [byteLength_cons, reduceCtorEq, iff_false]
    omega

theorem afterBytes_eq_some {cs after : List Char} {n : Nat} :
    afterBytes cs n = some after ↔ ∃ before, cs = before ++ after ∧ byteLength before = n := by
  induction cs generalizing n with
  | nil =>
    cases n with
    | zero =>
      simp only [afterBytes, Option.some.injEq, List.nil_eq_append_iff]
      constructor
      · rintro rfl
        exact ⟨[], ⟨rfl, rfl⟩, rfl⟩
      · rintro ⟨_, ⟨_, rfl⟩, _⟩
        rfl
    | succ n =>
      simp only [afterBytes, reduceCtorEq, false_iff]
      rintro ⟨before, h, hn⟩
      obtain ⟨rfl, rfl⟩ := List.append_eq_nil_iff.1 h.symm
      simp at hn
  | cons c cs ih =>
    cases n with
    | zero =>
      simp only [afterBytes, Option.some.injEq, byteLength_eq_zero]
      constructor
      · rintro rfl
        exact ⟨[], rfl, rfl⟩
      · rintro ⟨_, h, rfl⟩
        exact h
    | succ n =>
      rw [afterBytes]
      constructor
      · intro h
        split at h
        · obtain ⟨before, hb, hn⟩ := ih.1 h
          refine ⟨c :: before, by simp [hb], ?_⟩
          simp only [byteLength_cons]
          omega
        · exact absurd h (by simp)
      · rintro ⟨before, hb, hn⟩
        cases before with
        | nil => simp at hn
        | cons d before =>
          simp only [List.cons_append, List.cons.injEq] at hb
          obtain ⟨rfl, rfl⟩ := hb
          simp only [byteLength_cons] at hn
          rw [if_pos (by omega)]
          exact ih.2 ⟨before, rfl, by omega⟩

theorem beforeBytes_eq_some {cs before : List Char} {n : Nat} :
    beforeBytes cs n = some before ↔ ∃ after, cs = before ++ after ∧ byteLength before = n := by
  induction cs generalizing n before with
  | nil =>
    cases n with
    | zero =>
      simp only [beforeBytes, Option.some.injEq]
      constructor
      · rintro rfl
        exact ⟨[], rfl, rfl⟩
      · rintro ⟨after, h, _⟩
        exact (List.append_eq_nil_iff.1 h.symm).1.symm
    | succ n =>
      simp only [beforeBytes, reduceCtorEq, false_iff]
      rintro ⟨after, h, hn⟩
      obtain ⟨rfl, rfl⟩ := List.append_eq_nil_iff.1 h.symm
      simp at hn
  | cons c cs ih =>
    cases n with
    | zero =>
      simp only [beforeBytes, Option.some.injEq]
      constructor
      · rintro rfl
        exact ⟨c :: cs, rfl, rfl⟩
      · rintro ⟨_, _, hn⟩
        exact (byteLength_eq_zero.1 hn).symm
    | succ n =>
      rw [beforeBytes]
      constructor
      · intro h
        split at h
        · obtain ⟨rest, hr, rfl⟩ := Option.map_eq_some_iff.1 h
          obtain ⟨after, ha, hn⟩ := ih.1 hr
          refine ⟨after, by simp [ha], ?_⟩
          simp only [byteLength_cons]
          omega
        · exact absurd h (by simp)
      · rintro ⟨after, hb, hn⟩
        cases before with
        | nil => simp at hn
        | cons d before =>
          simp only [List.cons_append, List.cons.injEq] at hb
          obtain ⟨rfl, rfl⟩ := hb
          simp only [byteLength_cons] at hn
          rw [if_pos (by omega), ih.2 ⟨after, rfl, by omega⟩]
          rfl

/-- A stretch of a text, in bytes. -/
structure Span where
  start : Nat
  stop : Nat
  start_le_stop : start ≤ stop
deriving DecidableEq

namespace Span

/-- A span must not end before it starts. -/
def ofEnds (start stop : Nat) : Except Fault Span :=
  if h : start ≤ stop then .ok ⟨start, stop, h⟩ else .error .backwardSpan

/-- The span of length 0 at a position. -/
def emptyAt (position : Nat) : Span := ⟨position, position, Nat.le_refl _⟩

/-- From the start of the text. -/
def upTo (stop : Nat) : Span := ⟨0, stop, Nat.zero_le _⟩

/-- The bytes of a character that starts at a position. -/
def ofChar (position : Nat) (c : Char) : Span :=
  ⟨position, position + c.utf8Size, Nat.le_add_right _ _⟩

/-- The characters whose bytes are exactly those of the span. -/
def slice (span : Span) (cs : List Char) : Option (List Char) := do
  let after ← afterBytes cs span.start
  beforeBytes after (span.stop - span.start)

theorem slice_eq_some {span : Span} {cs text : List Char} :
    span.slice cs = some text ↔ ∃ before after,
      cs = before ++ text ++ after ∧ byteLength before = span.start ∧
        byteLength (before ++ text) = span.stop := by
  have hle := span.start_le_stop
  simp only [slice, Option.bind_eq_bind, Option.bind_eq_some_iff, afterBytes_eq_some,
    beforeBytes_eq_some, byteLength_append]
  constructor
  · rintro ⟨_, ⟨before, rfl, hb⟩, after, rfl, ht⟩
    exact ⟨before, after, by simp, hb, by omega⟩
  · rintro ⟨before, after, rfl, hb, ht⟩
    exact ⟨text ++ after, ⟨before, by simp, hb⟩, after, rfl, by omega⟩

/-- The span inside the text: ends beyond it are brought back to its end, and a span of length 0 is
widened to the character that starts there, if one does. -/
def visibleIn (span : Span) (cs : List Char) : Span :=
  let start := min span.start (byteLength cs)
  let stop := min span.stop (byteLength cs)
  if start = stop then
    match afterBytes cs start with
    | some (c :: _) => ofChar start c
    | _ => emptyAt start
  else ⟨start, stop, by have := span.start_le_stop; omega⟩

end Span

end RegexNfa
