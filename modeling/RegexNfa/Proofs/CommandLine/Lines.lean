import RegexNfa.Proofs.CommandLine.Items

/-!
# Reading enters the items of a line

By what its words do (`Reading.after_of_word`) a line enters its items, whichever it is read as
(`Reading.entered_of_line`).  That there are items is the other half: every word that is read stands for something, and
after an option that waits the line goes on with its value (`Reading.exists_line`).
-/

namespace RegexNfa

namespace CommandLine

variable {command : CommandName} {g : Given} {s : Switch} {words : List String} {items : List Item}

namespace Reading

variable {r r₁ : Reading}

/-! ## Words in a row -/

/-- After the separator every word is a positional. -/
lemma reads_positionals (hafter : r.onlyPositionals = true) (hfree : r.Free)
    (hread : words.foldlM (word command) r = .ok r₁) : Reads command r (words.map .positional) r₁ := by
  induction words generalizing r with
  | nil =>
    obtain rfl := Except.ok.inj hread
    exact .refl hfree
  | cons w words ih =>
    rw [List.foldlM_cons] at hread
    obtain ⟨next, hnext, hread⟩ := Refusal.bind_eq_ok.1 hread
    rw [word, if_pos hafter] at hnext
    have hfirst : Reads command r [.positional w] next := reads_positional hnext
    exact hfirst.append (ih (hfirst.mode.trans hafter) hfirst.free hread)

lemma word_separator (hopen : r.onlyPositionals = false) :
    r.word command "--" = .ok { r with onlyPositionals := true } := by
  rw [word, hopen]
  rfl

lemma entered_separator (r : Reading) : entered { r with onlyPositionals := true } = r.entered := by
  obtain ⟨given, pending, only⟩ := r
  cases pending with
  | none => rfl
  | some option =>
    obtain ⟨s, value⟩ := option
    rw [entered_of_some, entered_of_some]

/-- The run lemma: reading the words of a line enters its items. -/
theorem entered_of_line (h : Line command words items) (hopen : r.onlyPositionals = false)
    (hfree : r.Free) (hread : words.foldlM (word command) r = .ok r₁) :
    r₁.entered = r.entered >>= fun g => g.enterAll command items := by
  induction h generalizing r with
  | nil =>
    obtain rfl := Except.ok.inj hread
    exact (Reads.refl hfree).entered
  | separator words =>
    rw [List.foldlM_cons, word_separator hopen] at hread
    have hafter : words.foldlM (word command) { r with onlyPositionals := true } = .ok r₁ := hread
    have hstart : Free { r with onlyPositionals := true } := hfree
    rw [← entered_separator r]
    exact (reads_positionals rfl hstart hafter).entered
  | word first _ ih =>
    rw [List.foldlM_cons] at hread
    obtain ⟨next, hnext, hread⟩ := Refusal.bind_eq_ok.1 hread
    have hword : Reads command r _ next := after_of_word first hopen hfree hnext
    exact hword.entered_append (ih (hword.mode.trans hopen) hword.free hread)
  | @valued w value words s items rest first plain _ ih =>
    rw [List.foldlM_cons] at hread
    obtain ⟨next, hnext, hread⟩ := Refusal.bind_eq_ok.1 hread
    rw [List.foldlM_cons] at hread
    obtain ⟨filled, hfilled, hread⟩ := Refusal.bind_eq_ok.1 hread
    have hword : Awaits command r items s next := after_of_word first hopen hfree hnext
    rw [word_of_plain (hword.mode.trans hopen) plain, Reading.plain, hword.pending] at hfilled
    obtain rfl := Except.ok.inj hfilled
    have hvalue := hword.reads value
    rw [List.append_cons]
    exact hvalue.entered_append (ih (hvalue.mode.trans hopen) hvalue.free hread)

/-! ## An option without its value -/

/-- An option that still waits for its value cannot be entered. -/
lemma settle_ne_ok (hpending : r.pending = some (s, none)) (hvalued : s.takesValue = true) (r' : Reading) :
    r.settle ≠ .ok r' := by
  unfold settle
  rw [hpending]
  intro h
  obtain ⟨given, hgiven, _⟩ := Refusal.bind_eq_ok.1 h
  cases s with
  | file | color => exact absurd hgiven (by simp [Given.enter])
  | events | compact | json | verbose | help => exact absurd hvalued (by decide)

lemma exists_settled_of_long {body : List Char} (hread : r.long command body = .ok r₁) :
    ∃ settled, r.settle = .ok settled := by
  unfold long at hread
  simp only at hread
  split at hread
  · exact absurd hread (by simp)
  · split at hread
    · exact (Refusal.bind_eq_ok.1 hread).imp fun _ h => h.1
    · exact (Refusal.bind_eq_ok.1 hread).imp fun _ h => h.1
    · exact absurd hread (by simp)
    · exact (Refusal.bind_eq_ok.1 hread).imp fun _ h => h.1

lemma exists_settled_of_short {c : Char} {letters : List Char} (hread : r.short command (c :: letters) = .ok r₁) :
    ∃ settled, r.settle = .ok settled := by
  unfold short at hread
  split at hread
  · exact absurd hread (by simp)
  · split_ifs at hread
    · split at hread
      · exact (Refusal.bind_eq_ok.1 hread).imp fun _ h => h.1
      · exact (Refusal.bind_eq_ok.1 hread).imp fun _ h => h.1
      · exact (Refusal.bind_eq_ok.1 hread).imp fun _ h => h.1
    · obtain ⟨next, hnext, _⟩ := Refusal.bind_eq_ok.1 hread
      exact (Refusal.bind_eq_ok.1 hnext).imp fun _ h => h.1

lemma foldlM_ne_ok_after (hafter : r.onlyPositionals = true)
    (hstuck : ∀ r', r.settle ≠ .ok r') : (words.foldlM (word command) r >>= settle) ≠ .ok r₁ := by
  cases words with
  | nil => exact hstuck r₁
  | cons w words =>
    intro h
    rw [List.foldlM_cons, bind_assoc] at h
    obtain ⟨next, hnext, _⟩ := Refusal.bind_eq_ok.1 h
    rw [word, if_pos hafter, positional] at hnext
    split_ifs at hnext
    obtain ⟨settled, hsettled, _⟩ := Refusal.bind_eq_ok.1 hnext
    exact hstuck settled hsettled

/-- The value of an option that waits is the next word, which is there and is no option. -/
lemma plain_of_waiting (hopen : r.onlyPositionals = false)
    (hpending : r.pending = some (s, none)) (hvalued : s.takesValue = true)
    (hread : (words.foldlM (word command) r >>= settle) = .ok r₁) :
    ∃ value rest, words = value :: rest ∧ Plain value ∧
      (rest.foldlM (word command) { r with pending := some (s, some value) } >>= settle) = .ok r₁ := by
  have hstuck := settle_ne_ok hpending hvalued
  cases words with
  | nil => exact absurd hread (hstuck r₁)
  | cons w words =>
    rw [List.foldlM_cons, bind_assoc] at hread
    obtain ⟨next, hnext, hread⟩ := Refusal.bind_eq_ok.1 hread
    rcases word_shapes w with rfl | ⟨body, hbody, hw⟩ | ⟨c, letters, hc, hw⟩ | hplain
    · rw [word_separator hopen] at hnext
      obtain rfl := Except.ok.inj hnext
      exact absurd hread (foldlM_ne_ok_after rfl (settle_ne_ok hpending hvalued))
    · rw [word_of_dashes hopen hw hbody] at hnext
      obtain ⟨settled, hsettled⟩ := exists_settled_of_long hnext
      exact absurd hsettled (hstuck settled)
    · rw [word_of_dash hopen hw hc] at hnext
      obtain ⟨settled, hsettled⟩ := exists_settled_of_short hnext
      exact absurd hsettled (hstuck settled)
    · rw [word_of_plain hopen hplain, Reading.plain, hpending] at hnext
      obtain rfl := Except.ok.inj hnext
      exact ⟨w, words, rfl, hplain, hread⟩

/-- Words that are read are a line. -/
theorem exists_line (hopen : r.onlyPositionals = false) (hfree : r.Free)
    (hread : (words.foldlM (word command) r >>= settle) = .ok r₁) : ∃ items, Line command words items := by
  -- the induction is on the number of words, as an item may take two of them
  induction hlength : words.length using Nat.strongRecOn generalizing r words with
  | ind n ih =>
    cases words with
    | nil => exact ⟨[], .nil⟩
    | cons w words =>
      rw [List.length_cons] at hlength
      rw [List.foldlM_cons, bind_assoc] at hread
      obtain ⟨next, hnext, hread⟩ := Refusal.bind_eq_ok.1 hread
      rcases exists_word hopen hnext with rfl | ⟨items, last, hword⟩
      · exact ⟨_, .separator words⟩
      · have hafter := after_of_word hword hopen hfree hnext
        cases last with
        | none =>
          have hreads : Reads command r items next := hafter
          obtain ⟨rest, hrest⟩ := ih _ (by omega) (hreads.mode.trans hopen) hreads.free hread rfl
          exact ⟨_, .word hword hrest⟩
        | some s =>
          have hawaits : Awaits command r items s next := hafter
          obtain ⟨value, later, rfl, hplain, hread⟩ :=
            plain_of_waiting (hawaits.mode.trans hopen) hawaits.pending hword.takesValue hread
          have hreads := hawaits.reads value
          rw [List.length_cons] at hlength
          obtain ⟨rest, hrest⟩ := ih later.length (by omega) (hreads.mode.trans hopen) hreads.free hread rfl
          exact ⟨_, .valued hword hplain hrest⟩

end Reading

/-- What is given is what the items of the line are when they are entered in order. -/
theorem enterAll_of_line (h : Line command words items) (hread : Given.ofWords command words = .ok g) :
    Given.enterAll command {} items = .ok g := by
  obtain ⟨r, hwords, hread⟩ := Refusal.bind_eq_ok.1 hread
  obtain ⟨settled, hsettled, hread⟩ := Refusal.bind_eq_ok.1 hread
  obtain rfl := Except.ok.inj hread
  have hentered := Reading.entered_of_line h rfl (Reading.free_of_none rfl) hwords
  rw [Reading.entered_of_settle hsettled] at hentered
  exact hentered.symm

theorem exists_line_of_ofWords (hread : Given.ofWords command words = .ok g) : ∃ items, Line command words items := by
  obtain ⟨r, hwords, hread⟩ := Refusal.bind_eq_ok.1 hread
  obtain ⟨settled, hsettled, _⟩ := Refusal.bind_eq_ok.1 hread
  exact Reading.exists_line rfl (Reading.free_of_none rfl) (Refusal.bind_eq_ok.2 ⟨r, hwords, hsettled⟩)

end CommandLine

end RegexNfa
