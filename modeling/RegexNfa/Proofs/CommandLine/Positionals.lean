import Mathlib.Tactic.Common
import RegexNfa.CommandLine.Arguments

/-!
# What stands after the separator

After `--` every word is a positional, whatever it looks like, and the options before it are as they would be without
what follows.  The one thing to see to is that nothing but the word `--` itself starts this: neither an option nor
its value does (`Reading.word_onlyPositionals`), although a value may still be pending when the separator comes and is
entered only with the first positional.
-/

namespace RegexNfa

namespace CommandLine

/-- Two steps succeed together when each does. -/
lemma Refusal.bind_eq_ok {α β : Type} {x : Except Refusal α} {f : α → Except Refusal β} {b : β} :
    (x >>= f) = .ok b ↔ ∃ a, x = .ok a ∧ f a = .ok b := by
  cases x with
  | error refusal => simp [bind, Except.bind]
  | ok a => simp [bind, Except.bind]

variable {command : CommandName} {g g' : Given} {s : Switch} {value : Option String}

/-- What an option does that is entered: it sets its own part of what is given. -/
lemma Given.enter_cases (h : g.enter s value = .ok g') :
    (∃ path, s = .file ∧ value = some path ∧ g.file = none ∧ g' = { g with file := some path }) ∨
      (∃ choice, s = .color ∧ g' = { g with color := some choice }) ∨
      (s = .verbose ∧ g' = { g with verbose := min 255 (g.verbose + 1) }) ∨
      (s ≠ .file ∧ g' = { g with flags := g.flags ++ [s] }) := by
  unfold enter at h
  cases s with
  | help => exact absurd h (by simp)
  | verbose => exact .inr (.inr (.inl ⟨rfl, (Except.ok.inj h).symm⟩))
  | file =>
    simp only at h
    split at h
    · exact absurd h (by simp)
    · next path =>
      split_ifs at h with hfile
      exact .inl ⟨path, rfl, rfl, Option.not_isSome_iff_eq_none.1 hfile, (Except.ok.inj h).symm⟩
  | color =>
    simp only at h
    split at h
    · exact absurd h (by simp)
    · split_ifs at h
      split at h
      · exact absurd h (by simp)
      · next choice _ => exact .inr (.inl ⟨choice, rfl, (Except.ok.inj h).symm⟩)
  | events | compact | json =>
    simp only at h
    split_ifs at h
    exact .inr (.inr (.inr ⟨by decide, (Except.ok.inj h).symm⟩))

/-- No option touches the positionals. -/
lemma Given.enter_positionals (h : g.enter s value = .ok g') : g'.positionals = g.positionals := by
  obtain ⟨path, _, _, _, rfl⟩ | ⟨choice, _, rfl⟩ | ⟨_, rfl⟩ | ⟨_, rfl⟩ := Given.enter_cases h
  · rfl
  · rfl
  · rfl
  · rfl

namespace Reading

variable {r r' : Reading} {w : String}

/-! ## Before the separator -/

/-- Entering the pending option leaves nothing pending and changes nothing else of the reading. -/
lemma settle_eq_ok (h : r.settle = .ok r') :
    r'.pending = none ∧ r'.onlyPositionals = r.onlyPositionals ∧ r'.given.positionals = r.given.positionals := by
  unfold settle at h
  split at h
  · next hnone =>
    obtain rfl := Except.ok.inj h
    exact ⟨hnone, rfl, rfl⟩
  · obtain ⟨given, hgiven, h⟩ := Refusal.bind_eq_ok.1 h
    obtain rfl := Except.ok.inj h
    exact ⟨rfl, rfl, Given.enter_positionals hgiven⟩

lemma complete_onlyPositionals (h : r.complete s value = .ok r') : r'.onlyPositionals = r.onlyPositionals := by
  obtain ⟨settled, hsettled, h⟩ := Refusal.bind_eq_ok.1 h
  obtain ⟨_, _, h⟩ := Refusal.bind_eq_ok.1 h
  obtain rfl := Except.ok.inj h
  exact (settle_eq_ok hsettled).2.1

lemma await_onlyPositionals (h : r.await s = .ok r') : r'.onlyPositionals = r.onlyPositionals := by
  obtain ⟨settled, hsettled, h⟩ := Refusal.bind_eq_ok.1 h
  obtain rfl := Except.ok.inj h
  exact (settle_eq_ok hsettled).2.1

lemma positional_onlyPositionals (h : r.positional command w = .ok r') : r'.onlyPositionals = r.onlyPositionals := by
  unfold positional at h
  split_ifs at h
  obtain ⟨settled, hsettled, h⟩ := Refusal.bind_eq_ok.1 h
  obtain rfl := Except.ok.inj h
  exact (settle_eq_ok hsettled).2.1

lemma long_onlyPositionals {body : List Char} (h : r.long command body = .ok r') :
    r'.onlyPositionals = r.onlyPositionals := by
  unfold long at h
  simp only at h
  split at h
  · exact absurd h (by simp)
  · split at h
    · exact complete_onlyPositionals h
    · exact await_onlyPositionals h
    · exact absurd h (by simp)
    · exact complete_onlyPositionals h

lemma short_onlyPositionals {letters : List Char} (h : r.short command letters = .ok r') :
    r'.onlyPositionals = r.onlyPositionals := by
  induction letters generalizing r with
  | nil =>
    obtain rfl := Except.ok.inj h
    rfl
  | cons c rest ih =>
    unfold short at h
    split at h
    · exact absurd h (by simp)
    · split_ifs at h
      · split at h
        · exact await_onlyPositionals h
        · exact complete_onlyPositionals h
        · exact complete_onlyPositionals h
      · obtain ⟨entered, hentered, h⟩ := Refusal.bind_eq_ok.1 h
        exact (ih h).trans (complete_onlyPositionals hentered)

lemma plain_onlyPositionals (h : r.plain command w = .ok r') : r'.onlyPositionals = r.onlyPositionals := by
  unfold plain at h
  split at h
  · obtain rfl := Except.ok.inj h
    rfl
  · exact positional_onlyPositionals h

/-- Only the separator makes positionals of all the words after it. -/
lemma word_onlyPositionals (hw : w ≠ "--") (h : r.word command w = .ok r') :
    r'.onlyPositionals = r.onlyPositionals := by
  unfold word at h
  split_ifs at h
  · exact positional_onlyPositionals h
  · split at h
    · next hseparator => exact absurd (String.toList_inj.1 hseparator) hw
    · exact long_onlyPositionals h
    · exact short_onlyPositionals h
    · exact plain_onlyPositionals h

lemma words_onlyPositionals {words : List String} (hwords : "--" ∉ words)
    (h : words.foldlM (word command) r = .ok r') : r'.onlyPositionals = r.onlyPositionals := by
  induction words generalizing r with
  | nil =>
    obtain rfl := Except.ok.inj h
    rfl
  | cons w words ih =>
    rw [List.mem_cons, not_or] at hwords
    rw [List.foldlM_cons] at h
    obtain ⟨next, hnext, h⟩ := Refusal.bind_eq_ok.1 h
    exact (ih hwords.2 h).trans (word_onlyPositionals (Ne.symm hwords.1) hnext)

/-! ## After the separator -/

/-- The reading with more positionals. -/
def adding (r : Reading) (ps : List String) : Reading :=
  { r with given := { r.given with positionals := r.given.positionals ++ ps } }

lemma adding_nil (r : Reading) : r.adding [] = r := by
  rw [adding, List.append_nil]

lemma adding_adding (r : Reading) (ps qs : List String) : (r.adding ps).adding qs = r.adding (ps ++ qs) := by
  simp only [adding, List.append_assoc]

lemma settle_of_none (h : r.pending = none) : r.settle = .ok r := by
  unfold settle
  rw [h]

lemma settle_after (h : r.settle = .ok r') :
    settle { r with onlyPositionals := true } = .ok { r' with onlyPositionals := true } := by
  obtain ⟨g, pending, only⟩ := r
  cases pending with
  | none =>
    obtain rfl := Except.ok.inj h
    rfl
  | some option =>
    obtain ⟨given, hgiven, h⟩ := Refusal.bind_eq_ok.1 h
    obtain rfl := Except.ok.inj h
    exact Refusal.bind_eq_ok.2 ⟨given, hgiven, rfl⟩

/-- After the separator the words become positionals one by one; the option that is pending is entered with the first
of them, or at the end of the line. -/
lemma positionals_eq_ok (hafter : r.onlyPositionals = true) (hsettled : r.settle = .ok r') (ps : List String)
    (hroom : ∀ n < r.given.positionals.length + ps.length, command.hasRoom n = true) :
    (ps.foldlM (word command) r >>= settle) = .ok (r'.adding ps) := by
  induction ps generalizing r r' with
  | nil =>
    rw [adding_nil]
    exact hsettled
  | cons p ps ih =>
    obtain ⟨hpending, hsame, hpositionals⟩ := settle_eq_ok hsettled
    rw [List.length_cons] at hroom
    have hfirst : r.word command p = .ok (r'.adding [p]) := by
      rw [word, if_pos hafter, positional, if_pos (hroom _ (by omega)), hsettled]
      rfl
    have hlength : (r'.adding [p]).given.positionals.length = r.given.positionals.length + 1 := by
      rw [← hpositionals]
      exact List.length_append
    have hafter' : (r'.adding [p]).onlyPositionals = true := hsame.trans hafter
    have hsettled' : (r'.adding [p]).settle = .ok (r'.adding [p]) := settle_of_none hpending
    have hlater := ih hafter' hsettled' (fun n hn => hroom n (by omega))
    rw [adding_adding, List.singleton_append] at hlater
    rw [List.foldlM_cons, bind_assoc, hfirst]
    exact hlater

end Reading

/-- Options are read the same when the separator and positionals follow them, and the positionals are taken as they
are. -/
theorem Given.ofWords_append {options : List String} (h : Given.ofWords command options = .ok g)
    (hoptions : "--" ∉ options) {ps : List String}
    (hroom : ∀ n < g.positionals.length + ps.length, command.hasRoom n = true) :
    Given.ofWords command (options ++ "--" :: ps) = .ok { g with positionals := g.positionals ++ ps } := by
  obtain ⟨r, hread, h⟩ := Refusal.bind_eq_ok.1 h
  obtain ⟨r', hsettled, h⟩ := Refusal.bind_eq_ok.1 h
  obtain rfl := Except.ok.inj h
  have hopen : r.onlyPositionals = false := Reading.words_onlyPositionals hoptions hread
  have hseparator : r.word command "--" = .ok { r with onlyPositionals := true } := by
    rw [Reading.word, hopen]
    rfl
  obtain ⟨_, _, hpositionals⟩ := Reading.settle_eq_ok hsettled
  have hafter : (ps.foldlM (Reading.word command) { r with onlyPositionals := true } >>= Reading.settle) =
      .ok (Reading.adding { r' with onlyPositionals := true } ps) := by
    apply Reading.positionals_eq_ok rfl (Reading.settle_after hsettled)
    rw [← hpositionals]
    exact hroom
  obtain ⟨last, hlast, hend⟩ := Refusal.bind_eq_ok.1 hafter
  have hall : (options ++ "--" :: ps).foldlM (Reading.word command) {} = .ok last := by
    rw [List.foldlM_append, hread]
    exact Refusal.bind_eq_ok.2 ⟨r, rfl, Refusal.bind_eq_ok.2 ⟨_, hseparator, hlast⟩⟩
  exact Refusal.bind_eq_ok.2 ⟨last, hall, Refusal.bind_eq_ok.2 ⟨_, hend, rfl⟩⟩

end CommandLine

end RegexNfa
