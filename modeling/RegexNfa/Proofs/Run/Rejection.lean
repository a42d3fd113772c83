import RegexNfa.Proofs.Run.Configurations

/-!
# Where a run breaks off

A run breaks off with a move into the empty set.  `Configurations.last_step` says how a list of steps ends: with
a closure, every prefix having left some state active, or with a move into the empty set at the first prefix
that has not.  So the place of such a last move is the least one at which no state is active
(`Configurations.breaks_off_iff`), and every step of a run is empty exactly if the prefix read so far settles in
the empty set (`Configurations.isEmpty_current`).
-/

namespace RegexNfa

/-- A run ends by entering no state when it has read `k` characters. -/
def BreaksOff (steps : List Step) (k : Nat) : Prop :=
  ∃ s, steps.getLast? = some s ∧ s.symbol ≠ .epsilon ∧ s.current.isEmpty = true ∧ s.consumed = k

namespace Automaton

variable {a : Automaton} {settled : List Char → StateSet} {entered : List Char → Char → StateSet}
  {read rest : List Char} {c : Char}

/-- After `read`, some state stays active over every prefix of `rest`. -/
def Alive (settled : List Char → StateSet) (read rest : List Char) : Prop :=
  ∀ p, p <+: rest → (settled (read ++ p)).isEmpty = false

lemma alive_nil (hread : (settled read).isEmpty = false) : Alive settled read [] := by
  intro p hp
  rw [List.prefix_nil.1 hp, List.append_nil]
  exact hread

lemma alive_cons (hread : (settled read).isEmpty = false) (hrest : Alive settled (read ++ [c]) rest) :
    Alive settled read (c :: rest) := by
  intro p hp
  rcases List.prefix_cons_iff.1 hp with rfl | ⟨q, rfl, hq⟩
  · rw [List.append_nil]
    exact hread
  · have hlater := hrest q hq
    rwa [List.append_assoc, List.singleton_append] at hlater

/-- The closure that follows a move on `c`. -/
def closureAfter (settled : List Char → StateSet) (entered : List Char → Char → StateSet) (read : List Char)
    (c : Char) : Step :=
  ⟨.closure, .epsilon, entered read c, settled (read ++ [c]), read.length + 1⟩

/-- A move into some state is closed, and the run goes on. -/
lemma stepsFrom_cons_of_entered (h : (entered read c).isEmpty = false) :
    stepsFrom settled entered read (c :: rest) =
      ⟨.move, .char c, settled read, entered read c, read.length + 1⟩ :: closureAfter settled entered read c ::
        stepsFrom settled entered (read ++ [c]) rest := by
  rw [stepsFrom, h, if_neg Bool.false_ne_true]
  rfl

namespace Configurations

/-- A character enters no state exactly if nothing is active once it has been read. -/
lemma isEmpty_entered (h : a.Configurations settled entered) (w : List Char) (c : Char) :
    (entered w c).isEmpty = (settled (w ++ [c])).isEmpty := by
  rw [Bool.eq_iff_iff, StateSet.isEmpty_iff, StateSet.isEmpty_iff]
  constructor
  · intro hdead q hq
    rw [h.mem_settled, h.path_concat_iff] at hq
    obtain ⟨p, hp, _⟩ := hq
    exact hdead p hp
  · intro hdead q hq
    refine hdead q ?_
    rw [h.mem_settled, h.path_concat_iff]
    exact ⟨q, hq, .here q⟩

/-- How a run ends that goes on after the step `first`. -/
lemma last_step (h : a.Configurations settled entered) (first : Step) (hfirst : first.symbol = .epsilon)
    (read rest : List Char) (hread : (settled read).isEmpty = false) :
    (∃ s, (first :: stepsFrom settled entered read rest).getLast? = some s ∧ s.symbol = .epsilon ∧
      Alive settled read rest) ∨
    ∃ u c v, rest = u ++ c :: v ∧ (settled (read ++ (u ++ [c]))).isEmpty = true ∧ Alive settled read u ∧
      BreaksOff (first :: stepsFrom settled entered read rest) (read.length + u.length + 1) := by
  induction rest generalizing first read with
  | nil => exact .inl ⟨first, rfl, hfirst, alive_nil hread⟩
  | cons c rest ih =>
    have hmoved := h.isEmpty_entered read c
    by_cases hdead : (entered read c).isEmpty = true
    · have hlast : (first :: stepsFrom settled entered read (c :: rest)).getLast? =
          some ⟨.move, .char c, settled read, entered read c, read.length + 1⟩ := by
        rw [stepsFrom, if_pos hdead, List.getLast?_cons_cons, List.getLast?_singleton]
      exact .inr ⟨[], c, rest, rfl, hmoved ▸ hdead, alive_nil hread, _, hlast, by simp, hdead, rfl⟩
    · have hentered : (entered read c).isEmpty = false := Bool.eq_false_iff.2 hdead
      have hnext : (settled (read ++ [c])).isEmpty = false := by rw [← hmoved, hentered]
      -- the last step is that of the run from the next closure on
      have hlast : (first :: stepsFrom settled entered read (c :: rest)).getLast? =
          (closureAfter settled entered read c :: stepsFrom settled entered (read ++ [c]) rest).getLast? := by
        rw [stepsFrom_cons_of_entered hentered, List.getLast?_cons_cons, List.getLast?_cons_cons]
      unfold BreaksOff
      rw [hlast]
      rcases ih (closureAfter settled entered read c) rfl (read ++ [c]) hnext with
        ⟨s, hs, hsymbol, hall⟩ | ⟨u, d, v, rfl, hend, hall, hs⟩
      · exact .inl ⟨s, hs, hsymbol, alive_cons hread hall⟩
      · rw [List.append_assoc, List.singleton_append] at hend
        rw [List.length_append, List.length_singleton] at hs
        refine .inr ⟨c :: u, d, v, rfl, hend, alive_cons hread hall, ?_⟩
        rw [List.length_cons, ← Nat.add_assoc, Nat.add_right_comm read.length]
        exact hs

/-- A run over `w` breaks off at the least place where no state is active. -/
theorem breaks_off_iff (h : a.Configurations settled entered) (hstart : (settled []).isEmpty = false)
    (w : List Char) (k : Nat) :
    BreaksOff (stepsOver a.start settled entered w) k ↔
      (settled (w.take k)).isEmpty = true ∧ ∀ j < k, (settled (w.take j)).isEmpty = false := by
  rcases h.last_step ⟨.closure, .epsilon, .singleton a.start, settled [], 0⟩ rfl [] w hstart with
    ⟨last, hlast, hsymbol, hall⟩ | ⟨u, c, v, rfl, hdead, hall, hbreaks⟩
  · constructor
    · intro hbreaks
      obtain ⟨s, hs, hchar, _⟩ := hbreaks
      rw [stepsOver, hlast] at hs
      rw [Option.some.inj hs] at hsymbol
      exact absurd hsymbol hchar
    · intro hleast
      have halive : (settled (w.take k)).isEmpty = false := hall _ (List.take_prefix k w)
      rw [halive] at hleast
      exact absurd hleast.1 Bool.false_ne_true
  · have hshort : ∀ j ≤ u.length, (settled ((u ++ c :: v).take j)).isEmpty = false := by
      intro j hj
      rw [List.take_append_of_le_length hj]
      exact hall _ (List.take_prefix j u)
    have htake : (u ++ c :: v).take (u.length + 1) = u ++ [c] := by
      rw [List.take_length_add_append]
      rfl
    have hbreaks : BreaksOff (stepsOver a.start settled entered (u ++ c :: v)) (u.length + 1) := by
      rw [List.length_nil, Nat.zero_add] at hbreaks
      exact hbreaks
    have hdead : (settled ((u ++ c :: v).take (u.length + 1))).isEmpty = true := by
      rw [htake]
      exact hdead
    constructor
    · intro hk
      obtain ⟨s, hs, _, _, hconsumed⟩ := hk
      obtain ⟨s', hs', _, _, hconsumed'⟩ := hbreaks
      rw [hs, Option.some.injEq] at hs'
      rw [← hconsumed, hs', hconsumed']
      exact ⟨hdead, fun j hj => hshort j (by omega)⟩
    · intro hleast
      have hk : k = u.length + 1 := by
        rcases Nat.lt_trichotomy k (u.length + 1) with hlt | heq | hgt
        · have halive := hshort k (by omega)
          rw [hleast.1] at halive
          exact absurd halive.symm Bool.false_ne_true
        · exact heq
        · have halive := hleast.2 _ hgt
          rw [hdead] at halive
          exact absurd halive.symm Bool.false_ne_true
      rw [hk]
      exact hbreaks

/-- A step leaves some state active exactly if the prefix that it has read does. -/
lemma isEmpty_current_from (h : a.Configurations settled entered) {read rest : List Char} {s : Step}
    (hs : s ∈ stepsFrom settled entered read rest) :
    ∃ p, p <+: rest ∧ s.consumed = read.length + p.length ∧
      s.current.isEmpty = (settled (read ++ p)).isEmpty := by
  induction rest generalizing read with
  | nil => exact absurd hs List.not_mem_nil
  | cons c rest ih =>
    have hone : [c] <+: c :: rest := ⟨rest, rfl⟩
    rw [stepsFrom, List.mem_cons] at hs
    rcases hs with rfl | hs
    · exact ⟨[c], hone, rfl, h.isEmpty_entered read c⟩
    · split at hs
      · exact absurd hs List.not_mem_nil
      · rcases List.mem_cons.1 hs with rfl | hs
        · exact ⟨[c], hone, rfl, rfl⟩
        · obtain ⟨p, hp, hconsumed, hcurrent⟩ := ih hs
          rw [List.length_append, List.length_singleton] at hconsumed
          rw [List.append_assoc, List.singleton_append] at hcurrent
          refine ⟨c :: p, (List.prefix_cons_inj c).2 hp, ?_, hcurrent⟩
          rw [hconsumed, List.length_cons]
          omega

lemma isEmpty_current (h : a.Configurations settled entered) {w : List Char} {s : Step}
    (hs : s ∈ stepsOver a.start settled entered w) :
    s.current.isEmpty = (settled (w.take s.consumed)).isEmpty := by
  rcases List.mem_cons.1 hs with rfl | hs
  · rfl
  · obtain ⟨p, hp, hconsumed, hcurrent⟩ := h.isEmpty_current_from hs
    rw [List.length_nil, Nat.zero_add] at hconsumed
    rw [hconsumed, ← List.prefix_iff_eq_take.1 hp]
    exact hcurrent

/-- While states stay active, each prefix read has a closure of its own. -/
lemma exists_closure (h : a.Configurations settled entered) {p : List Char} (first : Step)
    (hfirst : first.symbol = .epsilon ∧ first.current = settled read ∧ first.consumed = read.length)
    (hp : p <+: rest) (halive : Alive settled read p) :
    ∃ s ∈ first :: stepsFrom settled entered read rest,
      s.symbol = .epsilon ∧ s.current = settled (read ++ p) ∧ s.consumed = read.length + p.length := by
  induction p generalizing first read rest with
  | nil =>
    rw [List.append_nil]
    exact ⟨first, List.mem_cons_self, hfirst⟩
  | cons c p ih =>
    obtain ⟨v, rfl⟩ := hp
    have hnext : (entered read c).isEmpty = false := by
      rw [h.isEmpty_entered]
      exact halive [c] ⟨p, rfl⟩
    have hlater : Alive settled (read ++ [c]) p := by
      intro q hq
      rw [List.append_assoc, List.singleton_append]
      exact halive (c :: q) ((List.prefix_cons_inj c).2 hq)
    obtain ⟨s, hs, hsymbol, hcurrent, hconsumed⟩ :=
      ih (closureAfter settled entered read c) ⟨rfl, rfl, by rw [List.length_append]; rfl⟩
        (List.prefix_append p v) hlater
    refine ⟨s, ?_, hsymbol, ?_, ?_⟩
    · rw [List.cons_append, stepsFrom_cons_of_entered hnext]
      exact List.mem_cons_of_mem _ (List.mem_cons_of_mem _ hs)
    · rw [hcurrent, List.append_assoc, List.singleton_append]
    · rw [hconsumed, List.length_append, List.length_singleton, List.length_cons]
      omega

end Configurations

end Automaton

end RegexNfa
