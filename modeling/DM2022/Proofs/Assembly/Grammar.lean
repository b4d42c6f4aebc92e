import Mathlib.Data.List.TakeWhile
import DM2022.Proofs.Assembly.Reading
import DM2022.Proofs.Instruction.Names
import DM2022.Proofs.Text.Rows

/-!
# The grammar of a line

The parts of a line: its label, the first word of its code and the operands after it. Each part has
a grammar that does not mention how it is read, and reading accepts just what the grammar allows.
-/
namespace DM2022

theorem Register.Named.bracket_notMem {name : List Char} {reg : Byte} (h : Named name reg) :
    '[' ∉ name := by
  intro hmem
  have hlower : '[' ∈ Text.lower name := List.mem_map_of_mem (f := Char.toLower) hmem
  cases h with
  | zero h =>
    rw [h] at hlower
    exact absurd hlower (by decide)
  | pc h =>
    rw [h] at hlower
    exact absurd hlower (by decide)
  | numbered h hdigits =>
    rw [h] at hlower
    rcases List.mem_cons.1 hlower with hr | hdigit
    · exact absurd hr (by decide)
    · exact absurd (hdigits.lt _ hdigit) (by decide)

theorem Opcode.Named.slash_notMem {name : List Char} {op : Opcode} (h : Named name op) :
    '/' ∉ name := by
  intro hmem
  have hupper : '/' ∈ Text.upper name := List.mem_map_of_mem (f := Char.toUpper) hmem
  have hall : ∀ op ∈ assigned, '/' ∉ op.mnemonic.toList := by decide
  exact hall op h.mem (h.upper ▸ hupper)

/-- No mnemonic is a directive. -/
theorem Opcode.Named.ne_directive {name : List Char} {op : Opcode} (h : Named name op) :
    Text.upper name ≠ "DATA".toList ∧ Text.upper name ≠ "RESERVE".toList := by
  have hall : ∀ op ∈ assigned,
      op.mnemonic.toList ≠ "DATA".toList ∧ op.mnemonic.toList ≠ "RESERVE".toList := by decide
  exact h.upper ▸ hall op h.mem

namespace Assembly

variable {text code rest word operands operand name : List Char} {parts : List (List Char)}
variable {label : Option String} {op : Opcode} {cond : Flags} {reg : Byte} {offset : Word}

/-! ## Labels -/

/-- A label has an ASCII letter or an underscore, then any number of ASCII letters, digits and
underscores, and is no register. -/
structure LabelName (name : List Char) : Prop where
  identifier : ∃ c rest, name = c :: rest ∧ (c.isAlpha ∨ c = '_') ∧
    ∀ d ∈ rest, d.isAlphanum ∨ d = '_'
  ne_register : ∀ reg, ¬Register.Named name reg

theorem isIdentifier_iff : isIdentifier name ↔ ∃ c rest, name = c :: rest ∧
    (c.isAlpha ∨ c = '_') ∧ ∀ d ∈ rest, d.isAlphanum ∨ d = '_' := by
  cases name with
  | nil => simp [isIdentifier]
  | cons c rest => simp [isIdentifier]

theorem isLabel_iff : isLabel name ↔ LabelName name := by
  have hregister : Register.ofName? name = none ↔ ∀ reg, ¬Register.Named name reg := by
    simp only [Option.eq_none_iff_forall_ne_some, ne_eq, Register.ofName?_eq_some_iff]
  rw [isLabel, Bool.and_eq_true, isIdentifier_iff, Option.isNone_iff_eq_none, hregister]
  exact ⟨fun h => ⟨h.1, h.2⟩, fun h => ⟨h.1, h.2⟩⟩

/-- The label that stands before the first colon of the code, and what stands after the colon. Code
without a colon has no label. -/
inductive Headed (code : List Char) : Option String → List Char → Prop
  | unlabelled (h : ':' ∉ code) : Headed code none code
  | labelled {before after : List Char} {name : String} (hcode : code = before ++ ':' :: after)
      (hbefore : ':' ∉ before) (hname : Text.trim before = name.toList)
      (hlabel : LabelName name.toList) : Headed code (some name) (Text.trim after)

/-- Neither a mark nor a colon stands in the line, so it has no label. -/
theorem headed_spaced (hword : Text.Visible word)
    (hunmarked : ∀ c ∈ text, Text.isCommentMark c = false) (hcolon : ':' ∉ text) :
    Headed (lineCode (word ++ ' ' :: text)) none (Text.trim (word ++ ' ' :: text)) := by
  have hline : ∀ c ∈ word ++ ' ' :: text, Text.isCommentMark c = false :=
    List.forall_mem_append.2 ⟨fun c hc => Text.isCommentMark_of_isVisible (hword c hc),
      List.forall_mem_cons.2 ⟨rfl, hunmarked⟩⟩
  have hcolon' : ':' ∉ word ++ ' ' :: text := by
    simp [hcolon, Text.notMem_of_visible hword (rfl : Text.isVisible ':' = false)]
  rw [lineCode, Text.dropComment_of_unmarked hline]
  exact .unlabelled fun hmem => hcolon' (Text.mem_of_mem_trim hmem)

theorem splitLabel_ok_iff : splitLabel code = .ok (label, rest) ↔ Headed code label rest := by
  rw [splitLabel]
  constructor
  · intro h
    split at h
    · next hcut =>
      cases h
      exact .unlabelled (Text.cut?_eq_none_iff.1 hcut)
    · next before after hcut =>
      obtain ⟨hcode, hbefore⟩ := Text.cut?_eq_some_iff.1 hcut
      simp only at h
      split at h
      · next hlabel =>
        cases h
        refine .labelled hcode hbefore String.toList_ofList.symm ?_
        rw [String.toList_ofList]
        exact isLabel_iff.1 hlabel
      · cases h
  · intro h
    cases h with
    | unlabelled h => rw [Text.cut?_eq_none_iff.2 h]
    | labelled hcode hbefore hname hlabel =>
      rw [Text.cut?_eq_some_iff.2 ⟨hcode, hbefore⟩]
      simp only [hname]
      rw [if_pos (isLabel_iff.2 hlabel), String.ofList_toList]

/-- A line with this label gives the body that its code gives. -/
theorem readLine_headed_iff {body : Body} {found : Option String}
    (h : Headed (lineCode text) label code) : readLine text = .ok (found, body) ↔
      found = label ∧ if code = [] then body = .empty else readBody code = .ok body := by
  have hsplit := splitLabel_ok_iff.2 h
  rw [readLine_ok_iff]
  constructor
  · intro h
    obtain ⟨_, hfound, hbody⟩ := h
    cases hsplit.symm.trans hfound
    exact ⟨rfl, hbody⟩
  · intro h
    obtain ⟨rfl, hbody⟩ := h
    exact ⟨code, hsplit, hbody⟩

theorem readLine_headed_error_iff {problem : Problem} (h : Headed (lineCode text) label code)
    (hne : code ≠ []) : readLine text = .error problem ↔ readBody code = .error problem := by
  rw [readLine, splitLabel_ok_iff.2 h]
  simp only [Except.mapError, bind, Except.bind]
  rw [if_neg hne]
  cases readBody code <;> simp [pure, Except.pure]

theorem Statement.read_headed_ok_iff {number : Nat} {s : Statement}
    (h : Headed (lineCode text) label code) (hne : code ≠ []) :
    Statement.read text number = .ok s ↔
      ∃ body, readBody code = .ok body ∧ s = ⟨number, label, body⟩ := by
  obtain ⟨line, found, body⟩ := s
  rw [statement_read_ok_iff, readLine_headed_iff h, if_neg hne]
  constructor
  · rintro ⟨rfl, rfl, hbody⟩
    exact ⟨body, hbody, rfl⟩
  · rintro ⟨_, hbody, heq⟩
    cases heq
    exact ⟨rfl, rfl, hbody⟩

theorem Statement.read_headed_error_iff {number : Nat} {e : AssemblyError}
    (h : Headed (lineCode text) label code) (hne : code ≠ []) :
    Statement.read text number = .error e ↔
      e.line = number ∧ readBody code = .error e.problem := by
  rw [statement_read_error_iff, readLine_headed_error_iff h hne]

/-! ## Words and operands -/

/-- A word without blanks and what stands behind the blank after it, or nothing. -/
inductive FirstWord : List Char → List Char → List Char → Prop
  | alone {word : List Char} (h : ∀ c ∈ word, Text.isBlank c = false) : FirstWord word word []
  | followed {word rest : List Char} {blank : Char} (h : ∀ c ∈ word, Text.isBlank c = false)
      (hblank : Text.isBlank blank) : FirstWord (word ++ blank :: rest) word (Text.trim rest)

theorem splitWord_eq_iff : splitWord code = (word, operands) ↔ FirstWord code word operands := by
  constructor
  · intro h
    obtain ⟨hword, hoperands⟩ := Prod.mk.inj h
    have hvisible : ∀ c ∈ word, Text.isBlank c = false := by
      intro c hc
      have hall := List.all_eq_true.1 (List.all_takeWhile (l := code) (p := (!Text.isBlank ·)))
      simpa using hall c (hword ▸ hc)
    have hcode := List.takeWhile_append_dropWhile (p := (!Text.isBlank ·)) (l := code)
    rw [hword] at hcode
    cases hrest : code.dropWhile (!Text.isBlank ·) with
    | nil =>
      rw [hrest, List.append_nil] at hcode
      rw [hrest] at hoperands
      cases hcode
      cases hoperands
      exact .alone hvisible
    | cons blank rest =>
      have hblank : Text.isBlank blank = true := by
        have hhead := List.head_dropWhile_not (!Text.isBlank ·) (l := code) (by simp [hrest])
        simpa [hrest] using hhead
      rw [hrest] at hcode hoperands
      cases hcode
      rw [← hoperands, Text.trim_blank_cons hblank]
      exact .followed hvisible hblank
  · intro h
    cases h with
    | alone h =>
      have hword : ∀ c ∈ code, (!Text.isBlank c) = true := fun c hc => by simp [h c hc]
      rw [splitWord, List.takeWhile_eq_self_iff.2 hword, List.dropWhile_eq_nil_iff.2 hword]
      rfl
    | followed h hblank =>
      have hword : ∀ c ∈ word, (!Text.isBlank c) = true := fun c hc => by simp [h c hc]
      rw [splitWord, List.takeWhile_append_of_pos hword, List.dropWhile_append_of_pos hword,
        List.takeWhile_cons_of_neg (by simp [hblank]), List.dropWhile_cons_of_neg (by simp [hblank]),
        List.append_nil, Text.trim_blank_cons hblank]

/-- The word before a blank is the first one of what is left after trimming. -/
theorem firstWord_trim {blank : Char} (hword : Text.Visible word) (hne : word ≠ [])
    (hblank : Text.isBlank blank = true) (text : List Char) :
    FirstWord (Text.trim (word ++ blank :: text)) word (Text.trim text) := by
  have hvisible := Text.isBlank_of_visible hword
  obtain ⟨before, after, htext, hbefore, hafter⟩ := Text.exists_trim_eq text
  have htrim : Text.trim (word ++ blank :: text) =
      Text.trim (word ++ blank :: before ++ Text.trim text) := by
    have hsplit : word ++ blank :: text =
        word ++ blank :: before ++ Text.trim text ++ after := by
      conv_lhs => rw [htext]
      simp
    rw [hsplit, Text.trim_append_blanks hafter]
  rw [htrim]
  -- Trimming goes on into the blank after the word if nothing visible follows it.
  by_cases hnil : Text.trim text = []
  · rw [hnil, List.append_nil, Text.trim_append_blanks (List.forall_mem_cons.2 ⟨hblank, hbefore⟩),
      Text.trim_of_visible hword]
    exact .alone hvisible
  · obtain ⟨start, c, hlast, hc⟩ := Text.exists_trim_eq_concat hnil
    have hbetween := Text.trim_between hvisible (List.forall_mem_singleton.2 hc) hne
      (List.cons_ne_nil _ _) (blank :: before ++ start)
    have hcode : Text.trim (word ++ blank :: before ++ Text.trim text) =
        word ++ blank :: (before ++ Text.trim text) := by
      rw [hlast]
      simpa using hbetween
    have hoperands : Text.trim (before ++ Text.trim text) = Text.trim text := by
      rw [Text.trim_blanks_append hbefore, Text.trim_trim]
    have hfirst : FirstWord (word ++ blank :: (before ++ Text.trim text)) word
        (Text.trim (before ++ Text.trim text)) := .followed hvisible hblank
    rw [hcode]
    rwa [hoperands] at hfirst

theorem FirstWord.ne_nil (h : FirstWord code word operands) (hne : word ≠ []) : code ≠ [] := by
  cases h with
  | alone => exact hne
  | followed => simp

/-- The operands that stand between the commas, with no blank in them. A text of blanks has none. -/
inductive Operands (text : List Char) : List (List Char) → Prop
  | none (h : Text.squeeze text = []) : Operands text []
  | some {parts : List (List Char)} (hne : Text.squeeze text ≠ [])
      (h : Text.Separated ',' (Text.squeeze text) parts) : Operands text parts

theorem splitOperands_eq_iff : splitOperands text = parts ↔ Operands text parts := by
  rw [splitOperands]
  constructor
  · intro h
    split at h
    · next hnil =>
      cases h
      exact .none hnil
    · next hne => exact .some hne (Text.pieces_eq_iff.1 h)
  · intro h
    cases h with
    | none h => rw [if_pos h]
    | some hne h => rw [if_neg hne, Text.pieces_eq_iff.2 h]

/-! ## The parts of an instruction -/

/-- A mnemonic, with a predicate behind a slash. No predicate stands for `ALWAYS`. -/
inductive Operation : List Char → Opcode → Flags → Prop
  | plain {name : List Char} {op : Opcode} (hop : Opcode.Named name op) : Operation name op .always
  | predicated {name predicate : List Char} {op : Opcode} {cond : Flags}
      (hop : Opcode.Named name op) (hcond : Flags.Named predicate cond) :
      Operation (name ++ '/' :: predicate) op cond

theorem readPredicate_some_ok_iff {predicate : List Char} :
    readPredicate (some predicate) = .ok cond ↔ Flags.Named predicate cond := by
  rw [← Flags.ofText?_eq_some_iff, readPredicate, lookupPredicate]
  cases Flags.ofText? predicate <;> simp [Except.mapError]

theorem operation_iff : Operation word op cond ↔
    Opcode.Named (splitPredicate word).1 op ∧ readPredicate (splitPredicate word).2 = .ok cond := by
  rw [splitPredicate]
  constructor
  · intro h
    cases h with
    | plain hop =>
      rw [Text.cut?_eq_none_iff.2 hop.slash_notMem]
      exact ⟨hop, rfl⟩
    | predicated hop hcond =>
      rw [Text.cut?_append _ hop.slash_notMem]
      exact ⟨hop, readPredicate_some_ok_iff.2 hcond⟩
  · cases hcut : Text.cut? '/' word with
    | none =>
      intro h
      obtain ⟨hop, hcond⟩ := h
      cases hcond
      exact .plain hop
    | some found =>
      obtain ⟨name, predicate⟩ := found
      obtain ⟨rfl, -⟩ := Text.cut?_eq_some_iff.1 hcut
      intro h
      obtain ⟨hop, hcond⟩ := h
      exact .predicated hop (readPredicate_some_ok_iff.1 hcond)

/-- Code that is read is a directive or starts with an operation. -/
theorem readBody_cases {body : Body} (hword : FirstWord code word operands)
    (h : readBody code = .ok body) : readData operands = .ok body ∨
      readReserve operands = .ok body ∨ ∃ op cond, Operation word op cond ∧
        readOperands op cond operands (splitOperands operands) = .ok body := by
  rw [readBody, splitWord_eq_iff.2 hword] at h
  simp only at h
  split at h
  · split at h
    · cases h
    · exact .inl h
  · split at h
    · split at h
      · cases h
      · exact .inr (.inl h)
    · split at h
      · cases h
      · next op hop =>
        obtain ⟨cond, hcond, h⟩ := bind_ok_iff.1 h
        have hoperation : Operation word op cond :=
          operation_iff.2 ⟨Opcode.ofMnemonic?_eq_some_iff.1 hop, hcond⟩
        exact .inr (.inr ⟨op, cond, hoperation, h⟩)

/-- An operation is the start of an instruction, and not of a directive. -/
theorem readBody_of_operation (hword : FirstWord code word operands)
    (hoperation : Operation word op cond) :
    readBody code = readOperands op cond operands (splitOperands operands) := by
  obtain ⟨hop, hcond⟩ := operation_iff.1 hoperation
  obtain ⟨hdata, hreserve⟩ := hop.ne_directive
  rw [readBody, splitWord_eq_iff.2 hword]
  simp only
  rw [if_neg hdata, if_neg hreserve, Opcode.ofMnemonic?_eq_some_iff.2 hop]
  simp only [hcond]
  rfl

theorem readRegister_ok_iff : readRegister operand = .ok reg ↔ Register.Named operand reg := by
  rw [← lookupRegister_ok_iff, readRegister]
  cases lookupRegister operand <;> simp [Except.mapError]

/-- A register, and the displacement that the literal between the brackets after it writes. -/
inductive Displaced : List Char → Byte → Word → Prop
  | plain {name : List Char} {reg : Byte} (hreg : Register.Named name reg) : Displaced name reg 0
  | bracketed {name number : List Char} {reg : Byte} {offset : Word}
      (hreg : Register.Named name reg) (hnumber : Text.Literal number offset.toInt) :
      Displaced (name ++ '[' :: (number ++ [']'])) reg offset

theorem stripBracket?_eq_some_iff {number : List Char} :
    stripBracket? text = some number ↔ text = number ++ [']'] := by
  rw [stripBracket?, Option.ite_none_right_eq_some, List.getLast?_eq_some_iff]
  constructor
  · rintro ⟨⟨start, rfl⟩, h⟩
    rw [List.dropLast_concat] at h
    cases h
    rfl
  · rintro rfl
    exact ⟨⟨number, rfl⟩, by rw [List.dropLast_concat]⟩

/-- A displacement is the number of its literal. -/
theorem literal_toInt_iff {number : List Char} : Text.Literal number offset.toInt ↔
    ∃ v, Text.literal? number = some v ∧ signedWord? v = some offset := by
  have hl := offset.le_toInt
  have hu := offset.toInt_lt
  simp only [Text.literal?_eq_some_iff, signedWord?_eq_some_iff]
  constructor
  · intro h
    exact ⟨_, ⟨h, by omega⟩, rfl⟩
  · rintro ⟨_, ⟨h, -⟩, rfl⟩
    exact h

theorem readDisplaced_ok_iff :
    readDisplaced operand = .ok (reg, offset) ↔ Displaced operand reg offset := by
  rw [readDisplaced]
  constructor
  · intro h
    split at h
    · obtain ⟨r, hr, h⟩ := bind_ok_iff.1 h
      cases h
      exact .plain (readRegister_ok_iff.1 hr)
    · next name tail hcut =>
      obtain ⟨rfl, -⟩ := Text.cut?_eq_some_iff.1 hcut
      split at h
      · cases h
      · next number hstrip =>
        cases stripBracket?_eq_some_iff.1 hstrip
        obtain ⟨r, hr, h⟩ := bind_ok_iff.1 h
        split at h
        · cases h
        · next v hv =>
          split at h
          · cases h
          · next hword =>
            cases h
            exact .bracketed (readRegister_ok_iff.1 hr) (literal_toInt_iff.2 ⟨v, hv, hword⟩)
  · intro h
    cases h with
    | plain hreg =>
      rw [Text.cut?_eq_none_iff.2 hreg.bracket_notMem, readRegister_ok_iff.2 hreg]
      rfl
    | bracketed hreg hnumber =>
      obtain ⟨v, hv, hword⟩ := literal_toInt_iff.1 hnumber
      rw [Text.cut?_append _ hreg.bracket_notMem]
      simp only [stripBracket?_eq_some_iff.2 rfl]
      rw [readRegister_ok_iff.2 hreg]
      simp only [bind, Except.bind, hv, hword]

/-! ## Instructions -/

/-- The instruction with these operands, and its label operand: none for a halt; a label, for a
jump; a register and a label, but not for a jump; or three registers, the last with a
displacement. -/
inductive InstructionForm (op : Opcode) (cond : Flags) :
    List (List Char) → Instruction → Option LabelRef → Prop
  | halt (hop : op = .halt) : InstructionForm op cond [] ⟨.halt, cond, 0, 0, 0, 0⟩ none
  | jump {name : String} {mode : Addressing} (hop : op = .jump) (hname : LabelName name.toList) :
      InstructionForm op cond [mode.operand name] (jumpTo cond mode) (some ⟨name, mode, none⟩)
  | label {target : List Char} {reg : Byte} {name : String} {mode : Addressing} (hop : op ≠ .jump)
      (htarget : Register.Named target reg) (hname : LabelName name.toList) :
      InstructionForm op cond [target, mode.operand name]
        ⟨op, cond, reg, Register.zero, mode.base, 0⟩ (some ⟨name, mode, none⟩)
  | full {target src1 src2 : List Char} {reg reg1 reg2 : Byte} {offset : Word}
      (htarget : Register.Named target reg) (hsrc1 : Register.Named src1 reg1)
      (hsrc2 : Displaced src2 reg2 offset) :
      InstructionForm op cond [target, src1, src2] ⟨op, cond, reg, reg1, reg2, offset⟩ none

variable {instr : Instruction} {ref : Option LabelRef}

theorem operandForm_iff : OperandForm op cond parts (.instruction instr ref) ↔
    InstructionForm op cond parts instr ref := by
  constructor
  · intro h
    cases h with
    | halt hop => exact .halt hop
    | @jump _ ref hop hlabel =>
      obtain ⟨name, mode, target⟩ := ref
      obtain ⟨hname, rfl, rfl⟩ := readLabelRef_ok_iff.1 hlabel
      exact .jump hop (isLabel_iff.1 hname)
    | @label _ _ _ ref hop htarget hlabel =>
      obtain ⟨name, mode, target⟩ := ref
      obtain ⟨hname, rfl, rfl⟩ := readLabelRef_ok_iff.1 hlabel
      exact .label hop (readRegister_ok_iff.1 htarget) (isLabel_iff.1 hname)
    | full htarget hsrc1 hsrc2 =>
      exact .full (readRegister_ok_iff.1 htarget) (readRegister_ok_iff.1 hsrc1)
        (readDisplaced_ok_iff.1 hsrc2)
  · intro h
    cases h with
    | halt hop => exact .halt hop
    | @jump _ mode hop hname =>
      exact .jump hop (readLabelRef_operand (isLabel_iff.2 hname) mode)
    | @label _ _ _ mode hop htarget hname =>
      exact .label hop (readRegister_ok_iff.2 htarget)
        (readLabelRef_operand (isLabel_iff.2 hname) mode)
    | full htarget hsrc1 hsrc2 =>
      exact .full (readRegister_ok_iff.2 htarget) (readRegister_ok_iff.2 hsrc1)
        (readDisplaced_ok_iff.2 hsrc2)

end Assembly
end DM2022
