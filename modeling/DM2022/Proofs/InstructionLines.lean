import DM2022.Proofs.Directives

/-!
# Instruction lines

A line says an instruction if its code is a mnemonic, perhaps with a predicate, and operands of one
of four forms. It says nothing else then, and no other line says an instruction.
-/
namespace DM2022.Assembly

/-- The code of an instruction with its label operand. -/
inductive InstructionCode (code : List Char) (instr : Instruction) (ref : Option LabelRef) : Prop
  | intro {word operands : List Char} {parts : List (List Char)} {op : Opcode} {cond : Flags}
      (hword : FirstWord code word operands) (hoperation : Operation word op cond)
      (hoperands : Operands operands parts) (hform : InstructionForm op cond parts instr ref)

variable {code line : List Char} {instr : Instruction} {ref : Option LabelRef}
variable {label : Option String}

theorem readBody_instruction_iff :
    readBody code = .ok (.instruction instr ref) ↔ InstructionCode code instr ref := by
  constructor
  · intro h
    have hword : FirstWord code (splitWord code).1 (splitWord code).2 := splitWord_eq_iff.1 rfl
    rcases readBody_cases hword h with hdata | hreserve | ⟨op, cond, hoperation, hoperands⟩
    · obtain ⟨-, _, -, hbody⟩ := readData_ok_iff.1 hdata
      cases hbody
    · obtain ⟨_, -, -, hbody⟩ := readReserve_ok_iff.1 hreserve
      cases hbody
    · exact .intro hword hoperation (splitOperands_eq_iff.1 rfl)
        (operandForm_iff.1 (readOperands_ok_iff.1 hoperands))
  · intro h
    obtain ⟨hword, hoperation, hoperands, hform⟩ := h
    rw [readBody_of_operation hword hoperation, splitOperands_eq_iff.2 hoperands]
    exact readOperands_ok_iff.2 (operandForm_iff.2 hform)

theorem InstructionCode.ne_nil (h : InstructionCode code instr ref) : code ≠ [] := by
  rintro rfl
  have hnil : readBody [] = .error (.unknownMnemonic "") := rfl
  exact absurd (hnil.symm.trans (readBody_instruction_iff.2 h)) (by simp)

/-- No code is that of two instructions. -/
theorem InstructionCode.unique {instr' : Instruction} {ref' : Option LabelRef}
    (h : InstructionCode code instr ref) (h' : InstructionCode code instr' ref') :
    instr = instr' ∧ ref = ref' := by
  have hread := readBody_instruction_iff.2 h
  cases hread.symm.trans (readBody_instruction_iff.2 h')
  exact ⟨rfl, rfl⟩

/-- A line without a label, or with a good one, says an instruction if and only if its code has the
form of one, and then it says what the form says. -/
theorem Statement.read_instruction_iff (h : Headed (lineCode line) label code) (number : Nat)
    (s : Statement) :
    (Statement.read line number = .ok s ∧ ∃ instr ref, s.body = .instruction instr ref) ↔
      ∃ instr ref, s = ⟨number, label, .instruction instr ref⟩ ∧
        InstructionCode code instr ref := by
  obtain ⟨line', label', body⟩ := s
  simp only [statement_read_ok_iff, readLine_headed_iff h]
  constructor
  · rintro ⟨⟨rfl, rfl, hbody⟩, instr, ref, rfl⟩
    split at hbody
    · cases hbody
    · exact ⟨instr, ref, rfl, readBody_instruction_iff.1 hbody⟩
  · rintro ⟨instr, ref, heq, hcode⟩
    cases heq
    rw [if_neg hcode.ne_nil]
    exact ⟨⟨rfl, rfl, readBody_instruction_iff.2 hcode⟩, instr, ref, rfl⟩

/-- Any case of the names and any blanks between the operands. -/
theorem Statement.read_instruction_iff_spaced :
    Headed (lineCode "x: add/zP PC, r007, zero [ - 0x10 ] ; down".toList) (some "x")
        "add/zP PC, r007, zero [ - 0x10 ]".toList ∧
      ∃ instr ref, (⟨3, some "x", .instruction ⟨.add, ⟨0x6⟩, 15, 7, 0, -16⟩ none⟩ : Statement) =
        ⟨3, some "x", .instruction instr ref⟩ ∧
          InstructionCode "add/zP PC, r007, zero [ - 0x10 ]".toList instr ref := by
  have hhead : Headed (lineCode "x: add/zP PC, r007, zero [ - 0x10 ] ; down".toList) (some "x")
      "add/zP PC, r007, zero [ - 0x10 ]".toList := splitLabel_ok_iff.1 (by decide)
  refine ⟨hhead, (Statement.read_instruction_iff hhead 3 _).1 ⟨?_, _, _, rfl⟩⟩
  rfl

end DM2022.Assembly
