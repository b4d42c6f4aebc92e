import Mathlib.Data.List.Forall2
import DM2022.Proofs.Assembly.ObjectText
import DM2022.Proofs.SourceEdits
import DM2022.Proofs.Text.Numerals

/-!
# What object texts say

An object text is read line by line. A line says nothing, or it writes a word as a decimal
number, and a text of such lines is read as the words that they write. All other texts are
refused, for the first line that neither is blank nor writes a word.
-/
namespace DM2022.Assembly.Object

variable {source source' line : List Char} {rows : List (List Char)} {word : Word}
  {words : List Word} {n : Nat}

/-- The code is a decimal number that counts as the word. -/
def Writes (code : List Char) (word : Word) : Prop :=
  ∃ v, Text.Decimal code v ∧ Word.OfNumber v word

/-- The line has no code, or its code writes a word. -/
def Valid (line : List Char) : Prop := lineCode line = [] ∨ ∃ word, Writes (lineCode line) word

/-- The codes of the rows that have one. -/
def writtenCodes (rows : List (List Char)) : List (List Char) :=
  (rows.map lineCode).filter (· ≠ [])

/-! ## Lines -/

theorem Writes.ne_nil {code : List Char} (h : Writes code word) : code ≠ [] := by
  obtain ⟨v, hdecimal, -⟩ := h
  cases hdecimal with
  | unsigned h => exact h.ne_nil
  | plus => exact List.cons_ne_nil _ _
  | minus => exact List.cons_ne_nil _ _

/-- A number with too many digits for 64 bits is no word either. -/
theorem writes_iff {code : List Char} : Writes code word ↔
    ∃ v, Text.integer? code = some v ∧ eitherWord? v = some word := by
  simp only [Text.integer?_eq_some_iff, eitherWord?_eq_some_iff]
  constructor
  · rintro ⟨v, hdecimal, hword⟩
    have hl := hword.ge
    have hu := hword.le
    exact ⟨v, ⟨hdecimal, by omega, by omega⟩, hword⟩
  · rintro ⟨v, ⟨hdecimal, -, -⟩, hword⟩
    exact ⟨v, hdecimal, hword⟩

theorem readLine_of_blank (h : lineCode line = []) : readLine line = .ok none := by
  have hcode : Text.trim (Text.dropComment line) = [] := h
  simp only [readLine, hcode, if_true]

theorem readLine_of_writes (h : Writes (lineCode line) word) : readLine line = .ok (some word) := by
  have hne : Text.trim (Text.dropComment line) ≠ [] := h.ne_nil
  obtain ⟨v, hinteger, hword⟩ := writes_iff.1 h
  have hinteger' : Text.integer? (Text.trim (Text.dropComment line)) = some v := hinteger
  simp only [readLine, if_neg hne, hinteger', hword]

theorem readLine_of_not_valid (h : ¬Valid line) : ∃ problem, readLine line = .error problem := by
  rw [Valid, not_or] at h
  obtain ⟨hne, hwrites⟩ := h
  have hne' : Text.trim (Text.dropComment line) ≠ [] := hne
  rw [readLine]
  simp only [if_neg hne']
  split
  · exact ⟨_, rfl⟩
  · next v hinteger =>
    split
    · exact ⟨_, rfl⟩
    · next word hword => exact absurd ⟨word, writes_iff.2 ⟨v, hinteger, hword⟩⟩ hwrites

/-! ## Rows -/

theorem writtenCodes_cons_of_blank (h : lineCode line = []) (rows : List (List Char)) :
    writtenCodes (line :: rows) = writtenCodes rows := by
  simp [writtenCodes, h]

theorem writtenCodes_cons_of_ne (h : lineCode line ≠ []) (rows : List (List Char)) :
    writtenCodes (line :: rows) = lineCode line :: writtenCodes rows := by
  simp [writtenCodes, h]

theorem readLines_cons_of_blank (h : lineCode line = []) (n : Nat) (rows : List (List Char)) :
    readLines n (line :: rows) = readLines (n + 1) rows := by
  simp only [readLines, readLine_of_blank h]
  cases readLines (n + 1) rows <;> rfl

theorem readLines_cons_of_writes (h : Writes (lineCode line) word) (n : Nat)
    (rows : List (List Char)) :
    readLines n (line :: rows) = (readLines (n + 1) rows).map (word :: ·) := by
  simp only [readLines, readLine_of_writes h]
  rfl

theorem readLines_cons_of_not_valid (h : ¬Valid line) (n : Nat) (rows : List (List Char)) :
    ∃ problem, readLines n (line :: rows) = .error ⟨n, problem⟩ := by
  obtain ⟨problem, hline⟩ := readLine_of_not_valid h
  exact ⟨problem, by simp only [readLines, hline]⟩

theorem Writes.eq {code : List Char} {word' : Word} (h : Writes code word)
    (h' : Writes code word') : word = word' := by
  obtain ⟨v, hv, hword⟩ := writes_iff.1 h
  obtain ⟨v', hv', hword'⟩ := writes_iff.1 h'
  cases hv.symm.trans hv'
  exact Option.some.inj (hword.symm.trans hword')

/-- Rows are read as the words that their codes write. The induction is on the rows, which are
blank, write a word or are refused. -/
theorem readLines_ok_iff :
    readLines n rows = .ok words ↔ List.Forall₂ Writes (writtenCodes rows) words := by
  induction rows generalizing n words with
  | nil =>
    rw [readLines, writtenCodes, List.map_nil, List.filter_nil, List.forall₂_nil_left_iff,
      Except.ok.injEq, eq_comm]
  | cons line rows ih =>
    by_cases hvalid : Valid line
    · rcases hvalid with hblank | ⟨word, hwrites⟩
      · rw [readLines_cons_of_blank hblank, writtenCodes_cons_of_blank hblank, ih]
      · rw [readLines_cons_of_writes hwrites, writtenCodes_cons_of_ne hwrites.ne_nil, map_ok_iff,
          List.forall₂_cons_left_iff]
        constructor
        · rintro ⟨rest, hrest, rfl⟩
          exact ⟨word, rest, hwrites, ih.1 hrest, rfl⟩
        · rintro ⟨word', rest, hwrites', hrest, rfl⟩
          exact ⟨rest, ih.2 hrest, by rw [hwrites.eq hwrites']⟩
    · obtain ⟨problem, herror⟩ := readLines_cons_of_not_valid hvalid n rows
      rw [Valid, not_or] at hvalid
      rw [herror, writtenCodes_cons_of_ne hvalid.1, List.forall₂_cons_left_iff]
      refine iff_of_false (by simp) ?_
      rintro ⟨word, -, hwrites, -⟩
      exact hvalid.2 ⟨word, hwrites⟩

theorem readLines_of_valid (h : ∀ row ∈ rows, Valid row) (n : Nat) :
    ∃ words, readLines n rows = .ok words := by
  induction rows generalizing n with
  | nil => exact ⟨[], rfl⟩
  | cons line rows ih =>
    obtain ⟨hline, hrows⟩ := List.forall_mem_cons.1 h
    obtain ⟨words, hread⟩ := ih hrows (n + 1)
    rcases hline with hblank | ⟨word, hwrites⟩
    · exact ⟨words, by rw [readLines_cons_of_blank hblank, hread]⟩
    · exact ⟨word :: words, by rw [readLines_cons_of_writes hwrites, hread]; rfl⟩

theorem readLines_append_of_not_valid {above below : List (List Char)}
    (habove : ∀ row ∈ above, Valid row) (hline : ¬Valid line) (n : Nat) :
    ∃ problem, readLines n (above ++ line :: below) = .error ⟨n + above.length, problem⟩ := by
  induction above generalizing n with
  | nil => exact readLines_cons_of_not_valid hline n below
  | cons row above ih =>
    obtain ⟨hrow, habove⟩ := List.forall_mem_cons.1 habove
    obtain ⟨problem, hread⟩ := ih habove (n + 1)
    refine ⟨problem, ?_⟩
    rw [List.cons_append, List.length_cons, Nat.add_comm above.length, ← Nat.add_assoc]
    rcases hrow with hblank | ⟨word, hwrites⟩
    · rw [readLines_cons_of_blank hblank, hread]
    · rw [readLines_cons_of_writes hwrites, hread]
      rfl

/-- Rows are refused for the first one that is not valid. -/
theorem readLines_error_iff {m : Nat} : (∃ problem, readLines n rows = .error ⟨m, problem⟩) ↔
    ∃ above line below, rows = above ++ line :: below ∧ m = n + above.length ∧ ¬Valid line ∧
      ∀ row ∈ above, Valid row := by
  constructor
  · rintro ⟨problem, herror⟩
    have hrows : ¬∀ row ∈ rows, Valid row := by
      intro hrows
      obtain ⟨words, hread⟩ := readLines_of_valid hrows n
      cases hread.symm.trans herror
    obtain ⟨above, line, below, rfl, hline, habove⟩ := exists_first_of_not_forall hrows
    obtain ⟨problem', herror'⟩ := readLines_append_of_not_valid habove hline n
    cases herror.symm.trans herror'
    exact ⟨above, line, below, rfl, rfl, hline, habove⟩
  · rintro ⟨above, line, below, rfl, rfl, hline, habove⟩
    exact readLines_append_of_not_valid habove hline n

/-! ## Texts -/

theorem exists_read_iff :
    (∃ words, read source = .ok words) ↔ ∀ line ∈ Text.lines source, Valid line := by
  constructor
  · rintro ⟨words, hread⟩
    by_contra hlines
    obtain ⟨above, line, below, hsource, hline, habove⟩ := exists_first_of_not_forall hlines
    have herror : ∃ problem, readLines 1 (above ++ line :: below) =
        .error ⟨1 + above.length, problem⟩ := readLines_append_of_not_valid habove hline 1
    rw [← hsource] at herror
    obtain ⟨problem, herror⟩ := herror
    cases hread.symm.trans herror
  · exact fun hlines => readLines_of_valid hlines 1

/-- Numbers of lines apart, the codes of a text are those that its rows have. -/
theorem map_fst_codesFrom (n : Nat) (rows : List (List Char)) :
    (codesFrom n rows).map Prod.fst = writtenCodes rows := by
  induction rows generalizing n with
  | nil => rfl
  | cons line rows ih =>
    rw [codesFrom]
    split
    · next hblank => rw [writtenCodes_cons_of_blank hblank, ih]
    · next hne => rw [writtenCodes_cons_of_ne hne, List.map_cons, ih]

theorem writtenCodes_of_edited {f : Nat → Nat} (h : Edited source source' f) :
    writtenCodes (Text.lines source') = writtenCodes (Text.lines source) := by
  have hcodes : (codes source').map Prod.fst = (codes source).map Prod.fst := by
    rw [h.codes_eq, List.map_map]
    rfl
  rwa [codes, codes, map_fst_codesFrom, map_fst_codesFrom] at hcodes

theorem lines_of_visible {text : List Char} (h : Text.Visible text) (hne : text ≠ []) :
    Text.lines text = [text] := by
  have hfeed : '\n' ∉ text := Text.notMem_of_visible h (by decide)
  rw [Text.lines_eq_linesOf, Text.pieces_of_notMem hfeed, Text.linesOf, if_neg hne]

theorem lineCode_of_visible {text : List Char} (h : Text.Visible text) : lineCode text = text := by
  rw [lineCode, Text.dropComment_of_unmarked, Text.trim_of_visible h]
  exact fun c hc => Text.isCommentMark_of_isVisible (h c hc)

/-- A word is written by each number that counts as it. -/
theorem read_integerText {v : Int} (h : Word.OfNumber v word) :
    read (Text.integerText v).toList = .ok [word] := by
  have hvisible := Text.visible_integerText v
  have hne := Text.integerText_ne_nil v
  have hl := h.ge
  have hu := h.le
  have hinteger := Text.integer?_integerText (v := v) (by omega) (by omega)
  have hwrites : Writes (lineCode (Text.integerText v).toList) word := by
    rw [lineCode_of_visible hvisible]
    exact ⟨v, (Text.integer?_eq_some_iff.1 hinteger).1, h⟩
  rw [read, lines_of_visible hvisible hne, readLines_cons_of_writes hwrites]
  rfl

theorem read_naturalText (word : Word) : read (Text.naturalText word.toNat).toList = .ok [word] := by
  have hlt : word.toNat < 4294967296 := word.isLt
  have hword : Word.OfNumber (word.toNat : Int) word := ⟨by omega, by omega, by omega⟩
  have htext : Text.naturalText word.toNat = Text.integerText (word.toNat : Int) := rfl
  rw [htext, read_integerText hword]

theorem read_signed (word : Word) : read (Text.integerText word.toInt).toList = .ok [word] :=
  read_integerText (eitherWord?_eq_some_iff.1 (eitherWord?_toInt word))

/-- Object texts are read as the words that they write. The text of an image is read as the image.
Every text is read if each of its lines is blank or writes a word, and then as these words in the
order of the lines; otherwise it is refused for the first line that is neither. A word may be
written with or without a sign, and blank lines, comments, blanks around a line and the form of the
line ends do not matter. -/
theorem reads_words_of_lines :
    (∀ words : List Word, read (text words).toList = .ok words) ∧
    (∀ source, (∃ words, read source = .ok words) ↔ ∀ line ∈ Text.lines source, Valid line) ∧
    (∀ source words, read source = .ok words ↔
      List.Forall₂ Writes (writtenCodes (Text.lines source)) words) ∧
    (∀ source n, (∃ problem, read source = .error ⟨n, problem⟩) ↔
      ∃ above line below, Text.lines source = above ++ line :: below ∧ n = above.length + 1 ∧
        ¬Valid line ∧ ∀ row ∈ above, Valid row) ∧
    (∀ word : Word, read (Text.integerText word.toInt).toList = .ok [word] ∧
      read (Text.naturalText word.toNat).toList = .ok [word]) ∧
    (∀ source source' f, Edited source source' f →
      ∀ words, read source' = .ok words ↔ read source = .ok words) := by
  refine ⟨read_text, fun source => exists_read_iff, fun source words => readLines_ok_iff, ?_,
    fun word => ⟨read_signed word, read_naturalText word⟩, ?_⟩
  · intro source n
    rw [read, readLines_error_iff]
    simp only [Nat.add_comm 1]
  · intro source source' f hedited words
    rw [read, read, readLines_ok_iff, readLines_ok_iff, writtenCodes_of_edited hedited]

/-- The same word without and with a sign, before and after a carriage return, a comment and a
heading have been added; a lone sign on the second line is refused. -/
theorem reads_words_of_lines_spellings : ∃ f : Nat → Nat,
    Edited "4294967295\n-1".toList "# ones\n4294967295\r\n-1;".toList f ∧
    read "4294967295\n-1".toList = .ok [0xffffffff, 0xffffffff] ∧
    read "# ones\n4294967295\r\n-1;".toList = .ok [0xffffffff, 0xffffffff] ∧
    ∃ problem, read "7 # seven\n+".toList = .error ⟨2, problem⟩ := by
  have hend : Edit (Text.pieces '\n' "4294967295\n-1".toList)
      (Text.pieces '\n' "4294967295\r\n-1".toList) id :=
    .lineEnd [] "4294967295".toList "-1".toList []
  have hcomment : Edit (Text.pieces '\n' "4294967295\r\n-1".toList)
      (Text.pieces '\n' "4294967295\r\n-1;".toList) id :=
    .append ["4294967295\r".toList] "-1".toList []
      (.comment (List.forall_mem_nil _) (rfl : Text.isCommentMark ';' = true) []) (.inl rfl)
  have hheading : Edit (Text.pieces '\n' "4294967295\r\n-1;".toList)
      (Text.pieces '\n' "# ones\n4294967295\r\n-1;".toList)
      fun n => if n ≤ 0 then n else n + 1 :=
    .insert [] ["4294967295\r".toList, "-1;".toList]
      (.comment (List.forall_mem_nil _) (rfl : Text.isCommentMark '#' = true) " ones".toList)
  have hedited := ((Edited.refl.step hend).step hcomment).step hheading
  have hread : read "4294967295\n-1".toList = .ok [0xffffffff, 0xffffffff] := rfl
  obtain ⟨-, -, -, herror, -, hsame⟩ := reads_words_of_lines
  refine ⟨_, hedited, hread, (hsame _ _ _ hedited _).2 hread, (herror _ _).2 ?_⟩
  have hseven : Valid "7 # seven".toList :=
    .inr ⟨7, 7, .unsigned (Text.natural?_eq_some_iff.1 rfl), by decide, by decide, rfl⟩
  have hsign : ¬Valid "+".toList := by
    rintro (hblank | ⟨word, hwrites⟩)
    · exact absurd hblank (by decide)
    · obtain ⟨v, hinteger, -⟩ := writes_iff.1 hwrites
      cases hinteger
  exact ⟨["7 # seven".toList], "+".toList, [], rfl, rfl, hsign, List.forall_mem_singleton.2 hseven⟩

end DM2022.Assembly.Object
