import DM2022.Proofs.Assembly.Reading
import DM2022.Proofs.Text.Visible

/-!
# Written code is read back

The text of an instruction or a directive is a word, blanks and operands. Reading takes it
apart where writing has put it together, and gives the body again.
-/
namespace DM2022

theorem exists_setWidth_of_lt {b : Byte} (h : b.toNat < 16) :
    ∃ n : BitVec 4, b = n.setWidth 8 := by
  refine ⟨b.setWidth 4, BitVec.eq_of_toNat_eq ?_⟩
  rw [BitVec.toNat_setWidth, BitVec.toNat_setWidth]
  omega

/-! ## Names -/

theorem Opcode.text_of_mem {op : Opcode} (h : op ∈ assigned) : Text.Visible op.text.toList ∧
    op.text.toList ≠ [] ∧ '/' ∉ op.text.toList ∧ ofMnemonic? op.text.toList = some op ∧
    Text.upper op.text.toList ≠ "DATA".toList ∧ Text.upper op.text.toList ≠ "RESERVE".toList := by
  revert op
  decide

theorem Flags.ofText?_text_of_lt {flags : Flags} (h : flags.bits.toNat < 16) :
    ofText? flags.text.toList = some flags := by
  obtain ⟨bits⟩ := flags
  obtain ⟨n, rfl⟩ := exists_setWidth_of_lt h
  exact ofText?_text n

theorem Flags.visible_text (flags : Flags) : Text.Visible flags.text.toList := by
  rw [text]
  split
  · decide
  · split
    · decide
    · rw [String.toList_ofList]
      intro c hc
      obtain ⟨p, hp, rfl⟩ := List.mem_map.1 hc
      have hall : ∀ q ∈ letters, Text.isVisible q.2 = true := by decide
      exact hall p (List.mem_filter.1 hp).1

theorem Register.registerText_of_lt {reg : Byte} (h : reg.toNat < 16) :
    Text.Visible (Instruction.registerText reg).toList ∧
      ofName? (Instruction.registerText reg).toList = some reg ∧
      ',' ∉ (Instruction.registerText reg).toList ∧
      '[' ∉ (Instruction.registerText reg).toList := by
  obtain ⟨n, rfl⟩ := exists_setWidth_of_lt h
  revert n
  decide

namespace Assembly

/-- The code is a word, blanks and operands. -/
structure Split (code word operands : List Char) : Prop where
  spaced : ∃ n, code = word ++ ' ' :: List.replicate n ' ' ++ operands
  visible_word : Text.Visible word
  visible_operands : Text.Visible operands
  word_ne_nil : word ≠ []
  operands_ne_nil : operands ≠ []

namespace Split

variable {code word operands : List Char}

theorem splitWord_eq (h : Split code word operands) : splitWord code = (word, operands) := by
  obtain ⟨n, rfl⟩ := h.spaced
  have hword : ∀ c ∈ word, (!Text.isBlank c) = true := by
    intro c hc
    rw [Text.isBlank_of_visible h.visible_word c hc]
    rfl
  have hspaces : ∀ c ∈ ' ' :: List.replicate n ' ', Text.isBlank c = true := by
    intro c hc
    rw [← List.replicate_succ, List.mem_replicate] at hc
    rw [hc.2]
    rfl
  have htrim : Text.trim (' ' :: (List.replicate n ' ' ++ operands)) = operands := by
    rw [← List.cons_append, Text.trim_blanks_append hspaces,
      Text.trim_of_visible h.visible_operands]
  have hspace : (!Text.isBlank ' ') = false := rfl
  rw [splitWord, List.append_assoc, List.takeWhile_append_of_pos hword,
    List.dropWhile_append_of_pos hword, List.cons_append, List.takeWhile_cons,
    List.dropWhile_cons, hspace]
  simp [htrim]

theorem ne_nil (h : Split code word operands) : code ≠ [] := by
  obtain ⟨n, rfl⟩ := h.spaced
  simp

/-- A character of the code is visible or a space. -/
theorem visible_or_space (h : Split code word operands) {c : Char} (hc : c ∈ code) :
    Text.isVisible c = true ∨ c = ' ' := by
  obtain ⟨n, rfl⟩ := h.spaced
  rcases List.mem_append.1 hc with hc | hc
  · rcases List.mem_append.1 hc with hc | hc
    · exact .inl (h.visible_word c hc)
    · rw [← List.replicate_succ, List.mem_replicate] at hc
      exact .inr hc.2
  · exact .inl (h.visible_operands c hc)

theorem trim_append (h : Split code word operands) {first : List Char}
    (hfirst : ∀ c ∈ first, Text.isBlank c = false) (hne : first ≠ []) (middle : List Char) :
    Text.trim (first ++ middle ++ code) = first ++ middle ++ code := by
  obtain ⟨n, rfl⟩ := h.spaced
  have hlast := Text.isBlank_of_visible h.visible_operands
  have htrim := Text.trim_between hfirst hlast hne h.operands_ne_nil
    (middle ++ (word ++ ' ' :: List.replicate n ' '))
  simpa using htrim

theorem trim_eq (h : Split code word operands) : Text.trim code = code := by
  obtain ⟨n, rfl⟩ := h.spaced
  exact Text.trim_between (Text.isBlank_of_visible h.visible_word)
    (Text.isBlank_of_visible h.visible_operands) h.word_ne_nil h.operands_ne_nil _

end Split

/-! ## Instructions -/

/-- The operation of an instruction with its predicate. -/
def operation (i : Instruction) : List Char :=
  i.op.text.toList ++ if i.cond = .always then [] else '/' :: i.cond.text.toList

/-- The operands of an instruction, with commas between them. -/
def operandsText (i : Instruction) : List Char :=
  (Instruction.registerText i.target).toList ++ ',' ::
    ((Instruction.registerText i.src1).toList ++ ',' ::
      ((Instruction.registerText i.src2).toList ++ '[' ::
        ((Text.integerText i.offset.toInt).toList ++ [']'])))

variable {i : Instruction}

theorem split_instruction (h : i.Nameable) :
    Split i.text.toList (operation i) (operandsText i) := by
  obtain ⟨hop, hne, -⟩ := Opcode.text_of_mem h.op
  have htarget := (Register.registerText_of_lt h.target).1
  have hsrc1 := (Register.registerText_of_lt h.src1).1
  have hsrc2 := (Register.registerText_of_lt h.src2).1
  constructor
  case spaced =>
    refine ⟨2, ?_⟩
    rw [operation]
    split <;> simp_all [Instruction.text, operandsText]
  case visible_word =>
    refine Text.visible_append.2 ⟨hop, ?_⟩
    split
    · simp [Text.Visible]
    · exact Text.visible_cons.2 ⟨rfl, i.cond.visible_text⟩
  case visible_operands =>
    simp only [operandsText, Text.visible_append, Text.visible_cons]
    exact ⟨htarget, rfl, hsrc1, rfl, hsrc2, rfl, Text.visible_integerText _, by decide⟩
  case word_ne_nil => simp [operation, hne]
  case operands_ne_nil => simp [operandsText]

theorem splitPredicate_operation (h : i.op ∈ Opcode.assigned) : splitPredicate (operation i) =
    (i.op.text.toList, if i.cond = .always then none else some i.cond.text.toList) := by
  obtain ⟨-, -, hslash, -⟩ := Opcode.text_of_mem h
  rw [splitPredicate, operation]
  by_cases hcond : i.cond = .always
  · rw [if_pos hcond, if_pos hcond, List.append_nil, Text.cut?_eq_none_iff.2 hslash]
  · rw [if_neg hcond, if_neg hcond, Text.cut?_append _ hslash]

theorem readPredicate_text (h : i.cond.bits.toNat < 16) : readPredicate
    (if i.cond = .always then none else some i.cond.text.toList) = .ok i.cond := by
  by_cases hcond : i.cond = .always
  · rw [if_pos hcond, hcond]
    rfl
  · rw [if_neg hcond, readPredicate, lookupPredicate, Flags.ofText?_text_of_lt h]
    rfl

theorem readRegister_text {reg : Byte} (h : reg.toNat < 16) :
    readRegister (Instruction.registerText reg).toList = .ok reg := by
  rw [readRegister, lookupRegister, (Register.registerText_of_lt h).2.1]
  rfl

theorem signedWord?_toInt (word : Word) : signedWord? word.toInt = some word :=
  signedWord?_eq_some_iff.2 rfl

theorem literal?_toInt (word : Word) :
    Text.literal? (Text.integerText word.toInt).toList = some word.toInt := by
  have hl := word.le_toInt
  have hu := word.toInt_lt
  exact Text.literal?_integerText (by omega)

theorem readDisplaced_text {reg : Byte} (h : reg.toNat < 16) (offset : Word) :
    readDisplaced ((Instruction.registerText reg).toList ++ '[' ::
      ((Text.integerText offset.toInt).toList ++ [']'])) = .ok (reg, offset) := by
  have hbracket := (Register.registerText_of_lt h).2.2.2
  have hstrip : stripBracket? ((Text.integerText offset.toInt).toList ++ [']']) =
      some (Text.integerText offset.toInt).toList := by
    simp [stripBracket?]
  rw [readDisplaced, Text.cut?_append _ hbracket]
  simp only [hstrip]
  rw [readRegister_text h]
  simp only [bind, Except.bind, literal?_toInt, signedWord?_toInt]

theorem splitOperands_text (h : i.Nameable) : splitOperands (operandsText i) =
    [(Instruction.registerText i.target).toList, (Instruction.registerText i.src1).toList,
      (Instruction.registerText i.src2).toList ++ '[' ::
        ((Text.integerText i.offset.toInt).toList ++ [']'])] := by
  have hsplit := split_instruction h
  obtain ⟨-, -, htarget, -⟩ := Register.registerText_of_lt h.target
  obtain ⟨-, -, hsrc1, -⟩ := Register.registerText_of_lt h.src1
  obtain ⟨-, -, hsrc2, -⟩ := Register.registerText_of_lt h.src2
  have hoffset := Text.comma_notMem_integerText i.offset.toInt
  have hlast : ',' ∉ (Instruction.registerText i.src2).toList ++ '[' ::
      ((Text.integerText i.offset.toInt).toList ++ [']']) := by
    simp [hsrc2, hoffset]
  rw [splitOperands, Text.squeeze_of_visible hsplit.visible_operands,
    if_neg hsplit.operands_ne_nil, operandsText, Text.pieces_append _ htarget,
    Text.pieces_append _ hsrc1, Text.pieces_of_notMem hlast]

theorem readBody_instruction (h : i.Nameable) :
    readBody i.text.toList = .ok (.instruction i none) := by
  obtain ⟨-, -, -, hmnemonic, hdata, hreserve⟩ := Opcode.text_of_mem h.op
  have hoperands : readOperands i.op i.cond (operandsText i) (splitOperands (operandsText i)) =
      .ok (.instruction i none) := by
    rw [splitOperands_text h]
    exact readOperands_ok_iff.2 (.full (readRegister_text h.target) (readRegister_text h.src1)
      (readDisplaced_text h.src2 i.offset))
  rw [readBody, (split_instruction h).splitWord_eq]
  simp only [splitPredicate_operation h.op]
  rw [if_neg hdata, if_neg hreserve, hmnemonic]
  simp only [readPredicate_text h.cond]
  exact hoperands

/-! ## Directives -/

theorem eitherWord?_toInt (word : Word) : eitherWord? word.toInt = some word := by
  have hl := word.le_toInt
  have hu := word.toInt_lt
  rw [eitherWord?, if_pos (by omega), BitVec.ofInt_toInt]

theorem readValue_text (word : Word) :
    readValue (Text.integerText word.toInt).toList = .ok word := by
  simp only [readValue, literal?_toInt, eitherWord?_toInt]

/-- The values of a directive, with commas between them. -/
def valuesText (values : List Word) : List Char :=
  [','].intercalate (values.map fun v => (Text.integerText v.toInt).toList)

variable {values : List Word}

theorem visible_valuesText (values : List Word) : Text.Visible (valuesText values) := by
  refine Text.visible_intercalate rfl fun piece hpiece => ?_
  obtain ⟨v, -, rfl⟩ := List.mem_map.1 hpiece
  exact Text.visible_integerText v.toInt

theorem valuesText_ne_nil (h : values ≠ []) : valuesText values ≠ [] := by
  cases values with
  | nil => exact absurd rfl h
  | cons v rest =>
    have hv := Text.integerText_ne_nil v.toInt
    cases rest with
    | nil => simpa [valuesText] using hv
    | cons next rest => simp [valuesText]

theorem split_data (h : values ≠ []) :
    Split (Body.data values).text.toList "DATA".toList (valuesText values) where
  spaced := ⟨0, by simp [Body.text, valuesText, String.toList_intercalate, Function.comp_def]⟩
  visible_word := by decide
  visible_operands := visible_valuesText values
  word_ne_nil := by simp
  operands_ne_nil := valuesText_ne_nil h

theorem readData_text (h : values ≠ []) : readData (valuesText values) = .ok (.data values) := by
  refine readData_ok_iff.2 ⟨valuesText_ne_nil h, values, ?_, rfl⟩
  have hpieces : Text.pieces ',' (valuesText values) =
      values.map fun v => (Text.integerText v.toInt).toList := by
    refine Text.pieces_intercalate (by simpa using h) fun piece hpiece => ?_
    obtain ⟨v, -, rfl⟩ := List.mem_map.1 hpiece
    exact Text.comma_notMem_integerText v.toInt
  rw [hpieces, List.map_map, List.map_map]
  refine List.map_congr_left fun v _ => ?_
  simp only [Function.comp_apply]
  rw [Text.trim_of_visible (Text.visible_integerText v.toInt), readValue_text]

theorem readBody_data (h : values ≠ []) :
    readBody (Body.data values).text.toList = .ok (.data values) := by
  have hpredicate : splitPredicate "DATA".toList = ("DATA".toList, none) := by decide
  have hupper : Text.upper "DATA".toList = "DATA".toList := by decide
  rw [readBody, (split_data h).splitWord_eq]
  simp only [hpredicate]
  rw [if_pos hupper]
  exact readData_text h

variable {count : Nat}

theorem split_reserve (count : Nat) :
    Split (Body.reserve count).text.toList "RESERVE".toList (Text.naturalText count).toList where
  spaced := ⟨0, by simp [Body.text]⟩
  visible_word := by decide
  visible_operands := by
    rw [Text.toList_naturalText]
    exact Text.visible_toDigits count
  word_ne_nil := by simp
  operands_ne_nil := by
    rw [Text.toList_naturalText]
    exact Nat.toDigits_ne_nil

theorem readReserve_text (h : count ≤ addressLimit) :
    readReserve (Text.naturalText count).toList = .ok (.reserve count) := by
  have hrange : addressLimit = 2147483647 := rfl
  have hliteral : Text.literal? (Text.naturalText count).toList = some (count : Int) :=
    Text.literal?_integerText (v := (count : Int)) (by omega)
  simp only [readReserve, hliteral]
  rw [if_pos (by omega), Int.toNat_natCast]

theorem readBody_reserve (h : count ≤ addressLimit) :
    readBody (Body.reserve count).text.toList = .ok (.reserve count) := by
  have hpredicate : splitPredicate "RESERVE".toList = ("RESERVE".toList, none) := by decide
  have hdata : Text.upper "RESERVE".toList ≠ "DATA".toList := by decide
  have hupper : Text.upper "RESERVE".toList = "RESERVE".toList := by decide
  rw [readBody, (split_reserve count).splitWord_eq]
  simp only [hpredicate]
  rw [if_neg hdata, if_pos hupper]
  exact readReserve_text h

end Assembly
end DM2022
