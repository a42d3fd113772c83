import Mathlib.Data.List.Basic
import RegexNfa.CommandLine.Program

/-!
# Inputs read back as they were written

Standard input is cut into lines as bytes, and each line is decoded by itself.  That a cut falls between characters, and
that lines which are texts make one text, is what reading relies on: `inputsOfBytes_text` brings reading the bytes of a
text down to cutting the text itself, and `inputsOfBytes_cases` says that nothing but bytes that are no text fails.

Lines are `Written` with either line ending.  Reading takes the carriage returns at the end of a line for a part of its
ending, so inputs that do not end in one come back as they were.
-/

namespace RegexNfa

namespace CommandLine

/-! ## Texts and their bytes -/

/-- The bytes of characters, one after the other. -/
def encoded (cs : List Char) : List UInt8 :=
  cs.flatMap String.utf8EncodeChar

lemma encoded_cons (c : Char) (cs : List Char) : encoded (c :: cs) = String.utf8EncodeChar c ++ encoded cs :=
  List.flatMap_cons ..

lemma encoded_append (cs ds : List Char) : encoded (cs ++ ds) = encoded cs ++ encoded ds :=
  List.flatMap_append ..

lemma encoded_concat_newline (cs : List Char) : encoded (cs ++ ['\n']) = encoded cs ++ [0x0a] :=
  encoded_append cs ['\n']

lemma encoded_eq_nil {cs : List Char} : encoded cs = [] ↔ cs = [] := by
  cases cs with
  | nil => exact iff_of_true rfl rfl
  | cons c cs =>
    have hpos := c.utf8Size_pos
    rw [← String.length_utf8EncodeChar, List.length_pos_iff] at hpos
    refine iff_of_false ?_ (List.cons_ne_nil c cs)
    rw [encoded_cons]
    exact List.append_ne_nil_of_left_ne_nil hpos _

lemma bytes_eq_encoded (text : String) : text.toByteArray.data.toList = encoded text.toList := by
  rw [← String.utf8Encode_toList, List.utf8Encode, List.toList_data_toByteArray, encoded]

/-- A newline byte is that of a newline, never a part of another character. -/
lemma newline_not_mem_utf8EncodeChar {c : Char} (h : c ≠ '\n') : (0x0a : UInt8) ∉ String.utf8EncodeChar c := by
  have hval : c.val.toNat ≠ 10 := fun hten => h (Char.toNat_inj.1 hten)
  intro hmem
  rw [String.utf8EncodeChar.eq_def] at hmem
  simp only at hmem
  -- one case for each number of bytes
  split_ifs at hmem
  all_goals
    simp only [List.mem_cons, List.not_mem_nil, or_false, ← UInt8.toNat_inj, UInt8.toNat_ofNat',
      UInt8.reduceToNat] at hmem
    omega

/-! ## Decoding -/

lemma decode_encoded (cs : List Char) : decode (.ok (encoded cs).toByteArray) = .ok (String.ofList cs) := by
  have htext : String.fromUTF8? (encoded cs).toByteArray = some (String.ofList cs) :=
    dif_pos (String.ofList cs).isValidUTF8
  rw [decode, htext]

/-- Decoding a line succeeds or finds that it is no text. -/
lemma inputOfLine_cases (line : List UInt8) :
    (line.toByteArray.IsValidUTF8 ∧ ∃ input, inputOfLine line = .ok input) ∨ inputOfLine line = .error .notUtf8 := by
  by_cases hvalid : line.toByteArray.IsValidUTF8
  · have htext : String.fromUTF8? line.toByteArray = some (.fromUTF8 _ hvalid) := dif_pos hvalid
    left
    refine ⟨hvalid, String.ofList (dropReturns (dropLineEnding (String.fromUTF8 _ hvalid).toList)), ?_⟩
    rw [inputOfLine, decode, htext]
    rfl
  · have hnone : String.fromUTF8? line.toByteArray = none := dif_neg hvalid
    right
    rw [inputOfLine, decode, hnone]
    rfl

/-- Lines that are all texts are a text together; of the others the first ends the reading. -/
lemma mapM_inputOfLine_cases (lines : List (List UInt8)) :
    lines.flatten.toByteArray.IsValidUTF8 ∨ lines.mapM inputOfLine = .error .notUtf8 := by
  induction lines with
  | nil => exact .inl ⟨[], rfl⟩
  | cons line lines ih =>
    rw [List.mapM_cons]
    rcases inputOfLine_cases line with ⟨hvalid, input, hinput⟩ | hline
    · rcases ih with hlater | hlater
      · left
        rw [List.flatten_cons, List.toByteArray_append]
        exact hvalid.append hlater
      · right
        rw [hinput, hlater]
        rfl
    · right
      rw [hline]
      rfl

/-! ## Cutting bytes into lines -/

/-- Cutting loses nothing. -/
lemma flatten_rawLinesFrom (current bytes : List UInt8) :
    (rawLinesFrom current bytes).flatten = current.reverse ++ bytes := by
  induction bytes generalizing current with
  | nil => cases current <;> simp [rawLinesFrom]
  | cons b bytes ih =>
    rw [rawLinesFrom]
    split_ifs
    · simp [ih]
    · simp [ih]

/-- A newline ends the line being read. -/
lemma rawLinesFrom_newline (current rest : List UInt8) :
    rawLinesFrom current (0x0a :: rest) = (current.reverse ++ [0x0a]) :: rawLinesFrom [] rest := by
  rw [rawLinesFrom, if_pos rfl, List.reverse_cons]

/-- What holds no newline joins the line being read. -/
lemma rawLinesFrom_append {bytes : List UInt8} (h : 0x0a ∉ bytes) (current rest : List UInt8) :
    rawLinesFrom current (bytes ++ rest) = rawLinesFrom (bytes.reverse ++ current) rest := by
  induction bytes generalizing current with
  | nil => rfl
  | cons b bytes ih =>
    obtain ⟨hb, hbytes⟩ := not_or.1 (mt List.mem_cons.2 h)
    rw [List.cons_append, rawLinesFrom, if_neg (Ne.symm hb), ih hbytes]
    simp

/-! ## Line endings -/

lemma dropReturns_concat_return (line : List Char) : dropReturns (line ++ ['\r']) = dropReturns line := by
  simp [dropReturns]

/-- A line that does not end in a carriage return has none to lose. -/
lemma dropReturns_of_last {line : List Char} (h : line.getLast? ≠ some '\r') : dropReturns line = line := by
  rw [← List.head?_reverse] at h
  have hkeep : line.reverse.dropWhile (· = '\r') = line.reverse := by
    cases hrev : line.reverse with
    | nil => rfl
    | cons c rest =>
      rw [hrev] at h
      have hc : c ≠ '\r' := fun hc => h (congrArg some hc)
      simp [hc]
  rw [dropReturns, hkeep, List.reverse_reverse]

lemma dropLineEnding_of_not_mem {line : List Char} (h : '\n' ∉ line) : dropLineEnding line = line := by
  have hrev : '\n' ∉ line.reverse := mt List.mem_reverse.1 h
  unfold dropLineEnding
  split
  · next heq => exact absurd (heq ▸ List.mem_cons_self) hrev
  · next heq => exact absurd (heq ▸ List.mem_cons_self) hrev
  · rfl

/-- The carriage return of a line ending is one of those at the end of the line. -/
lemma dropReturns_dropLineEnding (line : List Char) :
    dropReturns (dropLineEnding (line ++ ['\n'])) = dropReturns line := by
  have hrev : (line ++ ['\n']).reverse = '\n' :: line.reverse := by simp
  rw [dropLineEnding, hrev]
  split
  · next rest heq =>
    obtain ⟨_, hline⟩ := List.cons.inj heq
    rw [← List.reverse_reverse line, hline, List.reverse_cons, dropReturns_concat_return]
  · next rest _ heq =>
    obtain ⟨_, hline⟩ := List.cons.inj heq
    rw [← List.reverse_reverse line, hline]
  · next _ hnone => exact absurd rfl (hnone line.reverse)

/-! ## Reading a text -/

/-- The bytes of one more line of characters give one more input. -/
lemma mapM_inputOfLine_cons (line : List Char) {lines : List (List UInt8)} {inputs : List String}
    (h : lines.mapM inputOfLine = .ok inputs) :
    (encoded line :: lines).mapM inputOfLine =
      .ok (String.ofList (dropReturns (dropLineEnding line)) :: inputs) := by
  have hline : inputOfLine (encoded line) = .ok (String.ofList (dropReturns (dropLineEnding line))) := by
    rw [inputOfLine, decode_encoded]
    show Except.ok (String.ofList (dropReturns (dropLineEnding (String.ofList line).toList))) = _
    rw [String.toList_ofList]
  rw [List.mapM_cons, hline, h]
  rfl

/-- Cutting the bytes of a text cuts the text, `current` being what has been gone through of its first line. -/
lemma mapM_inputOfLine_encoded {current : List Char} (h : '\n' ∉ current) (cs : List Char) :
    (rawLinesFrom (encoded current.reverse).reverse (encoded cs)).mapM inputOfLine =
      .ok ((linesFrom current cs).map fun line => String.ofList (dropReturns line)) := by
  induction cs generalizing current with
  | nil =>
    by_cases hnil : current = []
    · subst hnil
      rfl
    · have hempty : (encoded current.reverse).reverse.isEmpty = false := by
        simp [encoded_eq_nil, hnil]
      have hrest : '\n' ∉ current.reverse := mt List.mem_reverse.1 h
      have hline : linesFrom current [] = [current.reverse] := by
        simp [linesFrom, hnil]
      have hnone : encoded [] = [] := rfl
      rw [hnone, rawLinesFrom, hempty, List.reverse_reverse, hline]
      have hlines : ([] : List (List UInt8)).mapM inputOfLine = .ok [] := rfl
      have hlast := mapM_inputOfLine_cons current.reverse hlines
      rw [dropLineEnding_of_not_mem hrest] at hlast
      exact hlast
  | cons c cs ih =>
    by_cases hc : c = '\n'
    · have hlater := mapM_inputOfLine_cons (current.reverse ++ ['\n']) (ih List.not_mem_nil)
      rw [encoded_concat_newline, dropReturns_dropLineEnding] at hlater
      have hnewline : encoded ('\n' :: cs) = 0x0a :: encoded cs := rfl
      rw [hc, hnewline, rawLinesFrom_newline, List.reverse_reverse, linesFrom, if_pos rfl]
      exact hlater
    · have hcurrent : '\n' ∉ c :: current := by
        rw [List.mem_cons, not_or]
        exact ⟨Ne.symm hc, h⟩
      have hread : (String.utf8EncodeChar c).reverse ++ (encoded current.reverse).reverse =
          (encoded (c :: current).reverse).reverse := by
        simp [encoded]
      rw [encoded_cons, rawLinesFrom_append (newline_not_mem_utf8EncodeChar hc), hread, ih hcurrent, linesFrom,
        if_neg hc]

/-- The bytes of a text hold the inputs that the text holds. -/
theorem inputsOfBytes_text (text : String) : inputsOfBytes (.ok text.toUTF8) = .ok (inputLines text) := by
  have hread := mapM_inputOfLine_encoded List.not_mem_nil text.toList
  have hcut : rawLinesFrom [] text.toUTF8.data.toList =
      rawLinesFrom (encoded [].reverse).reverse (encoded text.toList) := by
    rw [String.toUTF8_eq_toByteArray, bytes_eq_encoded]
    rfl
  rw [inputsOfBytes, hcut, hread]
  rfl

/-- Bytes are refused as a whole, or they are a text. -/
theorem inputsOfBytes_cases (bytes : ByteArray) :
    (bytes.IsValidUTF8 ∧ ∃ inputs, inputsOfBytes (.ok bytes) = .ok inputs) ∨
      (¬ bytes.IsValidUTF8 ∧ inputsOfBytes (.ok bytes) = .error (.read .notUtf8)) := by
  by_cases hvalid : bytes.IsValidUTF8
  · exact .inl ⟨hvalid, _, inputsOfBytes_text (.fromUTF8 bytes hvalid)⟩
  · right
    refine ⟨hvalid, ?_⟩
    have hall : (rawLinesFrom [] bytes.data.toList).flatten.toByteArray = bytes := by
      rw [flatten_rawLinesFrom, List.reverse_nil, List.nil_append]
      apply ByteArray.ext
      rw [List.data_toByteArray, Array.toArray_toList]
    rcases mapM_inputOfLine_cases (rawLinesFrom [] bytes.data.toList) with htext | hrefused
    · rw [hall] at htext
      exact absurd htext hvalid
    · rw [inputsOfBytes, hrefused]
      rfl

/-! ## Written lines -/

/-- What ends a line. -/
inductive LineEnding where
  | newline
  | returnNewline
deriving DecidableEq, Repr

def LineEnding.text : LineEnding → String
  | newline => "\n"
  | returnNewline => "\r\n"

/-- A text that has the lines, each with a line ending of its own.  The last one may do without if it is not empty. -/
inductive Written : List String → String → Prop where
  | none : Written [] ""
  | unended {line : String} (filled : line ≠ "") : Written [line] line
  | ended (line : String) (ending : LineEnding) {lines : List String} {text : String} (rest : Written lines text) :
      Written (line :: lines) (line ++ ending.text ++ text)

variable {lines : List String} {text : String}

/-- A line with its ending, before whatever text. -/
lemma inputLines_ended {line : String} (hnewline : '\n' ∉ line.toList) (hreturn : line.toList.getLast? ≠ some '\r')
    (ending : LineEnding) (text : String) : inputLines (line ++ ending.text ++ text) = line :: inputLines text := by
  have hdrop := dropReturns_of_last hreturn
  cases ending with
  | newline =>
    have hsplit : (line ++ "\n" ++ text).toList = line.toList ++ '\n' :: text.toList := by simp
    rw [LineEnding.text, inputLines, hsplit, linesFrom_append_newline [] _ _ hnewline, List.map_cons, List.reverse_nil,
      List.nil_append, hdrop, String.ofList_toList]
    rfl
  | returnNewline =>
    have hsplit : (line ++ "\r\n" ++ text).toList = (line.toList ++ ['\r']) ++ '\n' :: text.toList := by simp
    have hmem : '\n' ∉ line.toList ++ ['\r'] := by simp [hnewline]
    rw [LineEnding.text, inputLines, hsplit, linesFrom_append_newline [] _ _ hmem, List.map_cons, List.reverse_nil,
      List.nil_append, dropReturns_concat_return, hdrop, String.ofList_toList]
    rfl

/-- A text without a newline is one line, or none if it is empty. -/
lemma linesFrom_of_not_mem {line : List Char} (h : '\n' ∉ line) (current : List Char) :
    linesFrom current line = if (current.reverse ++ line).isEmpty then [] else [current.reverse ++ line] := by
  induction line generalizing current with
  | nil => simp [linesFrom]
  | cons c line ih =>
    obtain ⟨hc, hline⟩ := not_or.1 (mt List.mem_cons.2 h)
    rw [linesFrom, if_neg (Ne.symm hc), ih hline]
    simp

lemma inputLines_unended {line : String} (hnewline : '\n' ∉ line.toList) (hreturn : line.toList.getLast? ≠ some '\r')
    (hfilled : line ≠ "") : inputLines line = [line] := by
  have hne : line.toList.isEmpty = false := by simpa using hfilled
  rw [inputLines, linesFrom_of_not_mem hnewline, List.reverse_nil, List.nil_append, hne]
  simp [dropReturns_of_last hreturn]

/-- Whatever its line endings, a text holds the lines that were written. -/
lemma Written.inputLines_eq (h : Written lines text)
    (hlines : ∀ line ∈ lines, '\n' ∉ line.toList ∧ line.toList.getLast? ≠ some '\r') : inputLines text = lines := by
  induction h with
  | none => rfl
  | unended filled =>
    obtain ⟨hnewline, hreturn⟩ := hlines _ List.mem_cons_self
    exact inputLines_unended hnewline hreturn filled
  | ended line ending rest ih =>
    obtain ⟨⟨hnewline, hreturn⟩, hlater⟩ := List.forall_mem_cons.1 hlines
    rw [inputLines_ended hnewline hreturn, ih hlater]

lemma runIn_resolve_lines (w : World) : (resolve .lines).runIn w = inputsOfBytes (.ok w.stdin) :=
  rfl

/-- Inputs written to standard input line by line are read back as they were, whichever line endings they are given,
unless one of them has a newline in it or ends in a carriage return.  Reading fails for no other reason than that the
bytes are no text, and then gives no input at all. -/
theorem reading_undoes_writing :
    (∀ lines text, Written lines text →
      (∀ line ∈ lines, '\n' ∉ line.toList ∧ line.toList.getLast? ≠ some '\r') →
      ∀ around, (resolve .lines).runIn ⟨around, text.toUTF8⟩ = .ok lines) ∧
    ∀ w : World,
      ((resolve .lines).runIn w = .error (.read .notUtf8) ↔ ¬ w.stdin.IsValidUTF8) ∧
      ((∃ inputs, (resolve .lines).runIn w = .ok inputs) ↔ w.stdin.IsValidUTF8) := by
  refine ⟨?_, ?_⟩
  · intro lines text hwritten hlines around
    rw [runIn_resolve_lines, inputsOfBytes_text, hwritten.inputLines_eq hlines]
  · intro w
    rw [runIn_resolve_lines]
    rcases inputsOfBytes_cases w.stdin with ⟨hvalid, inputs, hread⟩ | ⟨hinvalid, hread⟩
    · rw [hread]
      simp [hvalid]
    · rw [hread]
      simp [hinvalid]

/-- Both line endings, a line with nothing on it, characters of several bytes, a carriage return inside a line, and no
line ending at the end; then a text that breaks off inside its last character. -/
theorem reading_undoes_writing_mixed :
    Written ["é", "", "a\rb", "日"] "é\r\n\na\rb\r\n日" ∧
    (resolve .lines).runIn ⟨{}, "é\r\n\na\rb\r\n日".toUTF8⟩ = .ok ["é", "", "a\rb", "日"] ∧
    (resolve .lines).runIn ⟨{}, ⟨#[0x61, 0x0a, 0xe6, 0x97]⟩⟩ = .error (.read .notUtf8) := by
  obtain ⟨hundoes, hfails⟩ := reading_undoes_writing
  have hwritten : Written ["é", "", "a\rb", "日"] "é\r\n\na\rb\r\n日" :=
    .ended "é" .returnNewline (.ended "" .newline (.ended "a\rb" .returnNewline (.unended (by decide))))
  refine ⟨hwritten, hundoes _ _ hwritten (by decide) {}, ?_⟩
  refine (hfails ⟨{}, ⟨#[0x61, 0x0a, 0xe6, 0x97]⟩⟩).1.2 ?_
  decide

end CommandLine

end RegexNfa
