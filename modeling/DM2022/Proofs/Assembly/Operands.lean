import DM2022.Assembly.Line

/-!
# Forms of operands

The operands of an instruction have one of four forms: none, for a halt; a label, for a
jump; a register and a label; or three registers, the last with a displacement. Reading
accepts just these.
-/
namespace DM2022.Assembly

variable {op : Opcode} {cond : Flags} {operands : List (List Char)} {body : Body}

theorem bind_ok_iff {ε α β : Type} {r : Except ε α} {f : α → Except ε β} {b : β} :
    (r >>= f) = .ok b ↔ ∃ a, r = .ok a ∧ f a = .ok b := by
  cases r with
  | error e => simp [bind, Except.bind]
  | ok a => simp [bind, Except.bind]

theorem bind_error_iff {ε α β : Type} {r : Except ε α} {f : α → Except ε β} {e : ε} :
    (r >>= f) = .error e ↔ r = .error e ∨ ∃ a, r = .ok a ∧ f a = .error e := by
  cases r with
  | error e => simp [bind, Except.bind]
  | ok a => simp [bind, Except.bind]

theorem map_ok_iff {ε α β : Type} {f : α → β} {r : Except ε α} {b : β} :
    r.map f = .ok b ↔ ∃ a, r = .ok a ∧ f a = b := by
  cases r <;> simp [Except.map]

theorem map_error_iff {ε α β : Type} {f : α → β} {r : Except ε α} {e : ε} :
    r.map f = .error e ↔ r = .error e := by
  cases r <;> simp [Except.map]

/-- A list is read if each of its members is. -/
theorem mapM_ok_iff {ε α β : Type} {f : α → Except ε β} {l : List α} {l' : List β} :
    l.mapM f = .ok l' ↔ l.map f = l'.map .ok := by
  induction l generalizing l' with
  | nil => cases l' <;> simp [pure, Except.pure]
  | cons a l ih =>
    rw [List.mapM_cons, bind_ok_iff, List.map_cons]
    constructor
    · intro h
      obtain ⟨b, hb, h⟩ := h
      obtain ⟨rest, hrest, h⟩ := bind_ok_iff.1 h
      cases h
      rw [List.map_cons, hb, ih.1 hrest]
    · intro h
      cases l' with
      | nil => cases h
      | cons b rest =>
        rw [List.map_cons, List.cons.injEq] at h
        exact ⟨b, h.1, bind_ok_iff.2 ⟨rest, ih.2 h.2, rfl⟩⟩

/-- A list is refused for the first of its members that is. -/
theorem mapM_error_iff {ε α β : Type} {f : α → Except ε β} {l : List α} {e : ε} :
    l.mapM f = .error e ↔ ∃ before a after, l = before ++ a :: after ∧ f a = .error e ∧
      ∀ b ∈ before, ∃ v, f b = .ok v := by
  constructor
  · intro h
    induction l with
    | nil => cases h
    | cons a l ih =>
      rw [List.mapM_cons] at h
      rcases bind_error_iff.1 h with ha | ⟨v, ha, h⟩
      · exact ⟨[], a, l, rfl, ha, List.forall_mem_nil _⟩
      · rcases bind_error_iff.1 h with hl | ⟨_, _, h⟩
        · obtain ⟨before, b, after, rfl, hb, hbefore⟩ := ih hl
          exact ⟨a :: before, b, after, rfl, hb, List.forall_mem_cons.2 ⟨⟨v, ha⟩, hbefore⟩⟩
        · cases h
  · rintro ⟨before, a, after, rfl, ha, hbefore⟩
    induction before with
    | nil =>
      rw [List.nil_append, List.mapM_cons]
      exact bind_error_iff.2 (.inl ha)
    | cons b before ih =>
      obtain ⟨⟨v, hb⟩, hbefore⟩ := List.forall_mem_cons.1 hbefore
      rw [List.cons_append, List.mapM_cons]
      exact bind_error_iff.2 (.inr ⟨v, hb, bind_error_iff.2 (.inl (ih hbefore))⟩)

/-- If a property fails somewhere in a list, there is a first place where it fails. -/
theorem exists_first_of_not_forall {α : Type} {p : α → Prop} {l : List α}
    (h : ¬∀ a ∈ l, p a) :
    ∃ before a after, l = before ++ a :: after ∧ ¬p a ∧ ∀ b ∈ before, p b := by
  induction l with
  | nil => exact absurd (List.forall_mem_nil _) h
  | cons a l ih =>
    by_cases ha : p a
    · obtain ⟨before, b, after, rfl, hb, hbefore⟩ :=
        ih fun hl => h (List.forall_mem_cons.2 ⟨ha, hl⟩)
      exact ⟨a :: before, b, after, rfl, hb, List.forall_mem_cons.2 ⟨ha, hbefore⟩⟩
    · exact ⟨[], a, l, rfl, ha, List.forall_mem_nil _⟩

/-- The second source of an instruction with a label operand. -/
def Addressing.base : Addressing → Byte
  | .relative => Register.pc
  | .absolute => Register.zero

/-- The instruction that stands for a jump to a label. -/
def jumpTo (cond : Flags) : Addressing → Instruction
  | .relative => ⟨.add, cond, Register.pc, Register.zero, Register.pc, 0⟩
  | .absolute => ⟨.jump, cond, Register.zero, Register.zero, Register.zero, 0⟩

/-- The operands have a form that gives the body. -/
inductive OperandForm (op : Opcode) (cond : Flags) : List (List Char) → Body → Prop
  | halt (hop : op = .halt) :
      OperandForm op cond [] (.instruction ⟨.halt, cond, 0, 0, 0, 0⟩ none)
  | jump {label : List Char} {ref : LabelRef} (hop : op = .jump)
      (hlabel : readLabelRef label = .ok ref) :
      OperandForm op cond [label] (.instruction (jumpTo cond ref.mode) (some ref))
  | label {target label : List Char} {reg : Byte} {ref : LabelRef} (hop : op ≠ .jump)
      (htarget : readRegister target = .ok reg) (hlabel : readLabelRef label = .ok ref) :
      OperandForm op cond [target, label]
        (.instruction ⟨op, cond, reg, Register.zero, ref.mode.base, 0⟩ (some ref))
  | full {target src1 src2 : List Char} {reg reg1 reg2 : Byte} {offset : Word}
      (htarget : readRegister target = .ok reg) (hsrc1 : readRegister src1 = .ok reg1)
      (hsrc2 : readDisplaced src2 = .ok (reg2, offset)) :
      OperandForm op cond [target, src1, src2]
        (.instruction ⟨op, cond, reg, reg1, reg2, offset⟩ none)

theorem readOperands_jump (text label : List Char) :
    readOperands .jump cond text [label] = do
      let ref ← readLabelRef label
      return .instruction (jumpTo cond ref.mode) (some ref) := by
  rw [readOperands]
  refine congrArg _ (funext fun ref => ?_)
  cases ref.mode <;> rfl

theorem readOperands_label (h : op ≠ .jump) (text target label : List Char) :
    readOperands op cond text [target, label] = do
      let reg ← readRegister target
      let ref ← readLabelRef label
      return .instruction ⟨op, cond, reg, Register.zero, ref.mode.base, 0⟩ (some ref) := by
  cases op with
  | jump => exact absurd rfl h
  | _ => rfl

theorem readOperands_full (text target src1 src2 : List Char) :
    readOperands op cond text [target, src1, src2] = do
      let reg ← readRegister target
      let reg1 ← readRegister src1
      let (reg2, offset) ← readDisplaced src2
      return .instruction ⟨op, cond, reg, reg1, reg2, offset⟩ none := by
  cases op <;> rfl

/-- Reading operands accepts the four forms. -/
theorem readOperands_ok_iff {text : List Char} :
    readOperands op cond text operands = .ok body ↔ OperandForm op cond operands body := by
  constructor
  · intro h
    match operands with
    | [] =>
      cases op with
      | halt =>
        cases h
        exact .halt rfl
      | _ => cases h
    | [label] =>
      by_cases hop : op = .jump
      · subst hop
        rw [readOperands_jump] at h
        obtain ⟨ref, hlabel, hbody⟩ := bind_ok_iff.1 h
        cases hbody
        exact .jump rfl hlabel
      · cases op <;> first | exact absurd rfl hop | cases h
    | [target, label] =>
      by_cases hop : op = .jump
      · subst hop
        cases h
      · rw [readOperands_label hop] at h
        obtain ⟨reg, htarget, h⟩ := bind_ok_iff.1 h
        obtain ⟨ref, hlabel, hbody⟩ := bind_ok_iff.1 h
        cases hbody
        exact .label hop htarget hlabel
    | [target, src1, src2] =>
      rw [readOperands_full] at h
      obtain ⟨reg, htarget, h⟩ := bind_ok_iff.1 h
      obtain ⟨reg1, hsrc1, h⟩ := bind_ok_iff.1 h
      obtain ⟨⟨reg2, offset⟩, hsrc2, hbody⟩ := bind_ok_iff.1 h
      cases hbody
      exact .full htarget hsrc1 hsrc2
    | _ :: _ :: _ :: _ :: _ => cases op <;> cases h
  · intro h
    cases h with
    | halt hop =>
      subst hop
      rfl
    | jump hop hlabel =>
      subst hop
      rw [readOperands_jump, hlabel]
      rfl
    | label hop htarget hlabel =>
      rw [readOperands_label hop, htarget, hlabel]
      rfl
    | full htarget hsrc1 hsrc2 =>
      rw [readOperands_full, htarget, hsrc1, hsrc2]
      rfl

end DM2022.Assembly
