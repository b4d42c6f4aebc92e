import DM2022.Assembly.Disassembly
import DM2022.Proofs.Assembly.Program
import DM2022.Proofs.ListingPrograms

/-!
# Disassembled images

A disassembly without its addresses is a source: every line says the word that it shows, as
an instruction or as data, and assembling them gives the image again.
-/
namespace DM2022

theorem Instruction.nameable_decode {word : Word} (h : (decode word).op ∈ Opcode.assigned) :
    (decode word).Nameable := by
  have hvalue : ∀ p : Part, (decode word).value p ≤ p.greatest := by
    intro p
    rw [value_decode, ← Part.greatest_field]
    exact (p.field.fits_extract word).2
  exact ⟨h, Int.ofNat_lt.1 (Int.lt_add_one_of_le (hvalue .predicate)),
    Int.ofNat_lt.1 (Int.lt_add_one_of_le (hvalue .target)),
    Int.ofNat_lt.1 (Int.lt_add_one_of_le (hvalue .src1)),
    Int.ofNat_lt.1 (Int.lt_add_one_of_le (hvalue .src2))⟩

namespace Assembly

variable {words : List Word} {origin : Nat}

/-- The line without what stands up to its first colon, if it has one. -/
def afterColon (line : List Char) : List Char :=
  match Text.cut? ':' line with
  | none => line
  | some (_, rest) => rest

/-- The text without what stands up to the first colon of each line. -/
def withoutAddresses (text : List Char) : List Char :=
  ((Text.lines text).map afterColon).flatMap (· ++ ['\n'])

/-! ## Words -/

/-- What the disassembly says of a word. -/
def bodyOf (word : Word) : Body :=
  match (Instruction.decode word).op with
  | .illegal _ => .data [word]
  | _ => .instruction (Instruction.decode word) none

theorem bodyOf_cases (word : Word) : bodyOf word = .data [word] ∨
    (Instruction.decode word).op ∈ Opcode.assigned ∧
      bodyOf word = .instruction (Instruction.decode word) none := by
  rw [bodyOf]
  split
  · exact .inl rfl
  · next hop => exact .inr ⟨Opcode.mem_assigned_of_ne_illegal hop, rfl⟩

theorem text_bodyOf (word : Word) : wordText word = (bodyOf word).text := by
  cases hop : (Instruction.decode word).op <;> simp [wordText, bodyOf, hop, Body.text]

theorem readable_bodyOf (word : Word) : (bodyOf word).Readable := by
  rcases bodyOf_cases word with h | ⟨hop, h⟩
  · rw [h]
    exact List.cons_ne_nil _ _
  · rw [h]
    exact ⟨Instruction.nameable_decode hop, by simp⟩

theorem bodyOf_ne_empty (word : Word) : bodyOf word ≠ .empty := by
  rcases bodyOf_cases word with h | ⟨-, h⟩ <;> simp [h]

theorem plain_bodyOf (word : Word) : (bodyOf word).plain = bodyOf word := by
  rcases bodyOf_cases word with h | ⟨-, h⟩ <;> simp [h, Body.plain]

/-- The body of a word has this word in the image, without an error. -/
theorem words_bodyOf (word : Word) (line : Nat) :
    (Statement.mk line none (bodyOf word)).words = [word] ∧
      (Statement.mk line none (bodyOf word)).encodingError? = none := by
  rcases bodyOf_cases word with h | ⟨hop, h⟩
  · simp [h, Statement.words, Statement.encodingError?]
  · have hencode := Instruction.encode_decode hop
    simp [h, Statement.words, Statement.encodingError?, encodeOperation, hencode, failure?,
      Except.toOption]

/-! ## Lines -/

/-- The rows before those of the words. -/
def headingRows : List (List Char) :=
  ["; Duck Machine disassembly".toList, "; -------------------------".toList, []]

theorem length_headingRows : headingRows.length = 3 := by
  simp [headingRows]

/-- What stands before the colon in the row of a word. -/
def addressColumn (address : Nat) : List Char := (Text.zeroPadded 4 (Nat.toDigits 10 address)).toList

/-- What stands after the colon in the row of a word. -/
def wordColumns (word : Word) : List Char :=
  ' ' :: (Text.blankPadded 28 (wordText word)).toList ++
    ' ' :: ';' :: ' ' :: (Text.hexadecimalText word.toNat).toList

/-- The rows of a disassembly. -/
def disassemblyRows (words : List Word) (origin : Nat) : List (List Char) :=
  headingRows ++ (words.zipIdx origin).map fun p => addressColumn p.2 ++ ':' :: wordColumns p.1

theorem toList_disassemble (words : List Word) (origin : Nat) :
    (disassemble words origin).toList = (disassemblyRows words origin).flatMap (· ++ ['\n']) := by
  have hheading : disassemblyHeading.toList = headingRows.flatMap (· ++ ['\n']) := by decide
  rw [disassemble, String.toList_append, disassemblyRows, List.flatMap_append, hheading]
  simp [String.toList_join, List.flatMap_map, disassemblyLine, addressColumn, wordColumns]

theorem colon_notMem_addressColumn (address : Nat) : ':' ∉ addressColumn address :=
  Text.notMem_of_visible (Text.visible_zeroPadded 4 address) rfl

theorem inline_wordColumns (word : Word) : Text.Inline (wordColumns word) := by
  have htext : Text.Inline (wordText word).toList := by
    rw [text_bodyOf, ← plain_bodyOf]
    exact plain_text_inline (readable_bodyOf word)
  rw [wordColumns, Text.toList_blankPadded]
  simp only [List.cons_append, Text.inline_cons, Text.inline_append]
  exact ⟨by decide, ⟨htext, Text.inline_replicate _ (by decide)⟩, by decide, by decide, by decide,
    Text.inline_hexadecimalText _⟩

theorem inline_headingRows : ∀ row ∈ headingRows, Text.Inline row := by
  simp [headingRows, Text.Inline]

theorem lines_disassemble (words : List Word) (origin : Nat) :
    Text.lines (disassemble words origin).toList = disassemblyRows words origin := by
  rw [toList_disassemble]
  apply Text.lines_flatMap
  refine List.forall_mem_append.2 ⟨inline_headingRows, fun row hrow => ?_⟩
  obtain ⟨p, -, rfl⟩ := List.mem_map.1 hrow
  have haddress := Text.inline_of_visible (Text.visible_zeroPadded 4 p.2)
  exact Text.inline_append.2
    ⟨haddress, Text.inline_cons.2 ⟨by decide, inline_wordColumns p.1⟩⟩

theorem afterColon_row (address : Nat) (word : Word) :
    afterColon (addressColumn address ++ ':' :: wordColumns word) = wordColumns word := by
  rw [afterColon, Text.cut?_append _ (colon_notMem_addressColumn address)]

theorem lines_withoutAddresses (words : List Word) (origin : Nat) :
    Text.lines (withoutAddresses (disassemble words origin).toList) =
      headingRows ++ words.map wordColumns := by
  have hheading : headingRows.map afterColon = headingRows := by decide
  have hrows : (disassemblyRows words origin).map afterColon =
      headingRows ++ words.map wordColumns := by
    rw [disassemblyRows, List.map_append, hheading, List.map_map]
    simp only [Function.comp_def, afterColon_row]
    rw [← List.zipIdx_map_fst origin words, List.map_map, List.zipIdx_map_fst]
    rfl
  rw [withoutAddresses, lines_disassemble, hrows]
  apply Text.lines_flatMap
  refine List.forall_mem_append.2 ⟨inline_headingRows, fun row hrow => ?_⟩
  obtain ⟨word, -, rfl⟩ := List.mem_map.1 hrow
  exact inline_wordColumns word

/-- Only the text of the word is code in its row. -/
theorem lineCode_wordColumns (word : Word) :
    lineCode (wordColumns word) = (wordText word).toList := by
  obtain ⟨⟨_, operands, hsplit⟩, -⟩ := readBody_plain (readable_bodyOf word) (bodyOf_ne_empty word)
  rw [plain_bodyOf, ← text_bodyOf] at hsplit
  obtain ⟨n, hpadded⟩ : ∃ n, (Text.blankPadded 28 (wordText word)).toList =
      (wordText word).toList ++ List.replicate n ' ' := ⟨_, Text.toList_blankPadded 28 _⟩
  -- A blank, the text, its padding and one more blank, and then a comment.
  have hrow : wordColumns word = [' '] ++ (wordText word).toList ++ List.replicate (n + 1) ' ' ++
      ';' :: ' ' :: (Text.hexadecimalText word.toNat).toList := by
    simp [wordColumns, hpadded, List.replicate_succ']
  have hspace : ∀ c ∈ List.replicate (n + 1) ' ', c = ' ' := fun c hc => (List.mem_replicate.1 hc).2
  have hmarks : ∀ c ∈ [' '] ++ (wordText word).toList ++ List.replicate (n + 1) ' ',
      Text.isCommentMark c = false := by
    refine List.forall_mem_append.2 ⟨List.forall_mem_append.2 ⟨?_, hsplit.unmarked.1⟩, ?_⟩
    · exact List.forall_mem_singleton.2 rfl
    · intro c hc
      rw [hspace c hc]
      rfl
  have hblank : ∀ c ∈ List.replicate (n + 1) ' ', Text.isBlank c = true := by
    intro c hc
    rw [hspace c hc]
    rfl
  have hfirst : ∀ c ∈ [' '], Text.isBlank c = true := List.forall_mem_singleton.2 rfl
  rw [hrow, lineCode, Text.dropComment_append hmarks rfl, Text.trim_append_blanks hblank,
    Text.trim_blanks_append hfirst, hsplit.trim_eq]

theorem readLine_wordColumns (word : Word) :
    readLine (wordColumns word) = .ok (none, bodyOf word) := by
  have hcode : lineCode (wordColumns word) = (bodyOf word).plain.text.toList := by
    rw [lineCode_wordColumns, text_bodyOf, plain_bodyOf]
  rw [readLine_of_lineCode (readable_bodyOf word) (bodyOf_ne_empty word) hcode, plain_bodyOf]

/-! ## Statements -/

/-- The statements before those of the words. -/
def headingStatements : List Statement := [⟨1, none, .empty⟩, ⟨2, none, .empty⟩, ⟨3, none, .empty⟩]

/-- The statements that a disassembly says. -/
def disassembled (words : List Word) : List Statement :=
  headingStatements ++ (words.zipIdx 4).map fun p => ⟨p.2, none, bodyOf p.1⟩

theorem read_headingRows :
    (headingRows.zipIdx 1).map (fun p => Statement.read p.1 p.2) = headingStatements.map .ok := by
  simp only [headingRows, headingStatements, List.zipIdx_cons, List.zipIdx_nil, List.map_cons,
    List.map_nil]
  rfl

theorem read_wordColumns (word : Word) (line : Nat) :
    Statement.read (wordColumns word) line = .ok ⟨line, none, bodyOf word⟩ :=
  statement_read_ok_iff.2 ⟨rfl, readLine_wordColumns word⟩

theorem read_disassembly (words : List Word) (origin : Nat) :
    Source.read (withoutAddresses (disassemble words origin).toList) =
      ⟨disassembled words, []⟩ := by
  have hwords : ((words.map wordColumns).zipIdx 4).map (fun p => Statement.read p.1 p.2) =
      ((words.zipIdx 4).map fun p => ⟨p.2, none, bodyOf p.1⟩).map .ok := by
    rw [List.zipIdx_map, List.map_map, List.map_map]
    refine List.map_congr_left fun p _ => ?_
    simp only [Function.comp_apply, Prod.map_fst, Prod.map_snd, id_eq, read_wordColumns]
  rw [source_read_iff, Source.numberedLines, lines_withoutAddresses, List.zipIdx_append,
    length_headingRows, List.map_append, read_headingRows, hwords, disassembled, List.map_append]

theorem mem_disassembled {s : Statement} (h : s ∈ disassembled words) :
    s ∈ headingStatements ∨ ∃ word line, s = ⟨line, none, bodyOf word⟩ := by
  rcases List.mem_append.1 h with h | h
  · exact .inl h
  · obtain ⟨p, -, rfl⟩ := List.mem_map.1 h
    exact .inr ⟨p.1, p.2, rfl⟩

/-- The statements have no labels, no label operands and no encoding errors. -/
theorem of_mem_disassembled {s : Statement} (h : s ∈ disassembled words) :
    s.label = none ∧ s.body.plain = s.body ∧ s.encodingError? = none := by
  have hheading : ∀ s ∈ headingStatements,
      s.label = none ∧ s.body.plain = s.body ∧ s.encodingError? = none := by decide
  rcases mem_disassembled h with h | ⟨word, line, rfl⟩
  · exact hheading s h
  · exact ⟨rfl, plain_bodyOf word, (words_bodyOf word line).2⟩

/-- The image has the words again: the lines of the heading take no place in it. -/
theorem imageOf_disassembled (words : List Word) : imageOf (disassembled words) = words := by
  have hheading : headingStatements.flatMap Statement.words = [] := rfl
  calc imageOf (disassembled words)
      = (words.zipIdx 4).flatMap fun p => (Statement.mk p.2 none (bodyOf p.1)).words := by
        rw [imageOf, disassembled, List.flatMap_append, hheading, List.nil_append,
          List.flatMap_map]
    _ = (words.zipIdx 4).flatMap fun p => [p.1] :=
        List.flatMap_congr fun p _ => (words_bodyOf p.1 p.2).1
    _ = (words.zipIdx 4).map Prod.fst := (List.map_eq_flatMap ..).symm
    _ = words := List.zipIdx_map_fst 4 words

theorem fits_disassembled (h : words.length ≤ addressLimit) : Fits 0 (disassembled words) := by
  refine .inr ?_
  have hlength : imageLength (disassembled words) = words.length := by
    rw [← length_imageOf, imageOf_disassembled]
  rw [Nat.zero_add]
  exact Nat.le_trans (imageSize_le_length _) (hlength ▸ h)

theorem resolve_disassembled (h : words.length ≤ addressLimit) :
    resolve (disassembled words) 0 = ⟨disassembled words, .empty, []⟩ := by
  have hlabel : ∀ s ∈ disassembled words, s.label = none := fun s hs => (of_mem_disassembled hs).1
  have hlabels : labels (disassembled words) = [] := List.filterMap_eq_nil_iff.2 hlabel
  have hnodup : (labels (disassembled words)).Nodup := by
    rw [hlabels]
    exact List.nodup_nil
  rw [resolve_of_plain (fits_disassembled h) hnodup fun s hs => (of_mem_disassembled hs).2.1,
    symbolsFrom_of_unlabelled hlabel]

theorem encodingErrors_disassembled (h : words.length ≤ addressLimit) :
    encodingErrors (disassembled words) = [] := by
  rw [encodingErrors_of_fits (fits_disassembled h)]
  exact List.filterMap_eq_nil_iff.2 fun s hs => (of_mem_disassembled hs).2.2

/-! ## Images -/

theorem length_disassemblyRows (words : List Word) (origin : Nat) :
    (disassemblyRows words origin).length = 3 + words.length := by
  rw [disassemblyRows, List.length_append, length_headingRows, List.length_map,
    List.length_zipIdx]

theorem getElem?_disassemblyRows (words : List Word) (origin : Nat) {k : Nat} {word : Word}
    (hk : words[k]? = some word) : (disassemblyRows words origin)[3 + k]? =
      some (addressColumn (origin + k) ++ ':' :: wordColumns word) := by
  rw [disassemblyRows, ← length_headingRows, List.getElem?_append_right (Nat.le_add_right _ _),
    Nat.add_sub_cancel_left, List.getElem?_map, List.getElem?_zipIdx, hk]
  rfl

/-- A disassembly has one line for each word, with the address before the first colon and the
word as an instruction or as data after it. Without the addresses it assembles to the words. -/
theorem assemble_disassembly (words : List Word) (origin : Nat)
    (h : words.length ≤ 0x7fffffff) :
    (Text.lines (disassemble words origin).toList).length = 3 + words.length ∧
      (∀ k word, words[k]? = some word → ∃ line before after,
        (Text.lines (disassemble words origin).toList)[3 + k]? = some line ∧
          Text.cut? ':' line = some (before, after) ∧
          Text.natural? before = some (origin + k) ∧
          readLine after = .ok (none, bodyOf word)) ∧
      ∃ p, assemble (withoutAddresses (disassemble words origin).toList) 0 = .ok p ∧
        p.words = words ∧ p.symbols = .empty := by
  rw [lines_disassemble]
  refine ⟨length_disassemblyRows words origin, fun k word hk => ?_, ?_⟩
  · exact ⟨_, _, _, getElem?_disassemblyRows words origin hk,
      Text.cut?_append _ (colon_notMem_addressColumn _), Text.natural?_zeroPadded 4 (origin + k),
      readLine_wordColumns word⟩
  · refine ⟨⟨disassembled words, .empty, 0⟩, assemble_ok_iff.2 ⟨?_, ?_, rfl⟩,
      imageOf_disassembled words, rfl⟩
    · rw [resolveSource_ok_iff, read_disassembly, resolve_disassembled h]
      exact ⟨rfl, rfl, rfl, rfl⟩
    · exact encodingErrors_disassembled h

/-- An addition, a word that is not an instruction, and a conditional jump back, from the last
address of a word on. -/
theorem assemble_disassembly_beyond_words :
    [0x0fc40005, 0xffffffff, 0x0cbc3ffe].length ≤ 0x7fffffff ∧
      (Text.lines (disassemble [0x0fc40005, 0xffffffff, 0x0cbc3ffe] 0xffffffff).toList).length =
        6 ∧
      (∃ line before after,
        (Text.lines (disassemble [0x0fc40005, 0xffffffff, 0x0cbc3ffe] 0xffffffff).toList)[4]? =
          some line ∧
          Text.cut? ':' line = some (before, after) ∧
          Text.natural? before = some 0x100000000 ∧
          readLine after = .ok (none, .data [0xffffffff])) ∧
      ∃ p, assemble (withoutAddresses
          (disassemble [0x0fc40005, 0xffffffff, 0x0cbc3ffe] 0xffffffff).toList) 0 = .ok p ∧
        p.words = [0x0fc40005, 0xffffffff, 0x0cbc3ffe] ∧ p.symbols = .empty := by
  have hlength : [0x0fc40005, 0xffffffff, 0x0cbc3ffe].length ≤ 0x7fffffff := by decide
  obtain ⟨hlines, hwords, hassemble⟩ :=
    assemble_disassembly [0x0fc40005, 0xffffffff, 0x0cbc3ffe] 0xffffffff hlength
  exact ⟨hlength, hlines, hwords 1 0xffffffff rfl, hassemble⟩

end Assembly
end DM2022
