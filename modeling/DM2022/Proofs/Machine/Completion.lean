import DM2022.Proofs.Machine.Step

/-!
# Completed steps

What a completed step changes: the counter and the last instruction always, and for an
enabled instruction what its opcode names. Everything else stays.
-/
namespace DM2022

/-- The text that a trap with this code prints for its argument. -/
def Trap.printing (code argument : Word) : String :=
  if code = 1 then Text.integerText argument.toInt ++ "\n"
  else if code = 2 then String.singleton (Char.ofNat (argument.toNat % 256))
  else ""

theorem Trap.code_eq_of_ofCode? {code : Word} {trap : Trap} (h : ofCode? code = some trap) :
    trap.code = code := by
  have ht := List.find?_some h
  exact eq_of_beq ht

namespace Opcode

variable {op : Opcode} {alu : AluOp}

theorem isArithmetic_of_aluOp? (h : op.aluOp? = some alu) : op.isArithmetic = true := by
  cases op <;> cases h <;> rfl

theorem delivers_of_aluOp? (h : op.aluOp? = some alu) (hc : op ≠ .cmp) : op.delivers = true := by
  simp [delivers, isArithmetic_of_aluOp? h, hc]

theorem ne_of_aluOp? (h : op.aluOp? = some alu) :
    op ≠ .halt ∧ op ≠ .trap ∧ op ≠ .store ∧ op ≠ .jump ∧ op ≠ .load := by
  cases op <;> cases h <;> simp

end Opcode

namespace Machine

variable {m m' : Machine} {i : Instruction} {r : Word × Machine}

/-! ## Target registers -/

section WriteTarget

variable (m : Machine) (target : Byte) (value next : Word)

theorem next_writeTarget :
    (m.writeTarget target value next).1 = if target = Register.pc then value else next := by
  rw [writeTarget]
  split <;> rfl

theorem regs_writeTarget : (m.writeTarget target value next).2.regs =
    if target = Register.pc then m.regs else m.regs.set target value := by
  rw [writeTarget]
  split <;> rfl

/-- Only a register is written. -/
theorem writeTarget_keeps : (m.writeTarget target value next).2 =
    { m with regs := (m.writeTarget target value next).2.regs } := by
  rw [writeTarget]
  split <;> rfl

theorem flags_writeTarget :
    (m.writeTarget target value next).2.regs.flags = m.regs.flags := by
  rw [regs_writeTarget]
  split
  · rfl
  · exact Registers.flags_set ..

theorem cells_writeTarget {k : Nat} (ht : target.toNat < 16) (hd : target.toNat = k → k = 0) :
    (m.writeTarget target value next).2.regs.cells[k]? = m.regs.cells[k]? := by
  rw [regs_writeTarget]
  split
  · rfl
  · exact Registers.cells_set _ _ ht hd

variable {target}

/-- The target has its value when the machine goes on. -/
theorem get_writeTarget (hz : target ≠ Register.zero) (ht : target.toNat < 16) :
    ((m.writeTarget target value next).2.goTo (m.writeTarget target value next).1).regs.get
      target = value := by
  by_cases hp : target = Register.pc
  · subst hp
    exact Registers.pc_jump _ _
  · have hne : target.toNat ≠ 15 := fun h => hp (BitVec.eq_of_toNat_eq h)
    rw [goTo, Registers.get_jump_of_ne _ _ (by omega), regs_writeTarget, if_neg hp,
      Registers.get_set hz hz, if_pos rfl]

end WriteTarget

/-- Only the state and the output depend on the service. -/
theorem provide_keeps (m : Machine) (service : Trap) (argument : Word) :
    m.provide service argument =
      { m with
        state := (m.provide service argument).state
        output := (m.provide service argument).output } := by
  cases service <;> rfl

/-! ## Instructions -/

namespace Executes

theorem config_eq (h : Executes m i r) : r.2.config = m.config := by
  cases h with
  | load => rw [writeTarget_keeps]
  | compute => rw [writeTarget_keeps]; rfl
  | trap => rw [provide_keeps]
  | _ => rfl

theorem cycles_eq (h : Executes m i r) : r.2.cycles = m.cycles := by
  cases h with
  | load => rw [writeTarget_keeps]
  | compute => rw [writeTarget_keeps]; rfl
  | trap => rw [provide_keeps]
  | _ => rfl

theorem flags_eq (h : Executes m i r) (ha : ¬i.op.isArithmetic) :
    r.2.regs.flags = m.regs.flags := by
  cases h with
  | load => exact flags_writeTarget ..
  | compare op => exact absurd (by rw [op]; rfl) ha
  | compute op => exact absurd (Opcode.isArithmetic_of_aluOp? op) ha
  | trap => rw [provide_keeps]
  | _ => rfl

theorem mem_eq (h : Executes m i r) (hs : i.op ≠ .store) : r.2.mem = m.mem := by
  cases h with
  | load => rw [writeTarget_keeps]
  | store op => exact absurd op hs
  | compute => rw [writeTarget_keeps]; rfl
  | trap => rw [provide_keeps]
  | _ => rfl

/-- At most one register below the program counter receives a value, the target of an opcode
that gives one. -/
theorem cells_eq (h : Executes m i r) (ht : i.target.toNat < 16) {k : Nat}
    (hd : i.op.delivers → i.target.toNat = k → k = 0) :
    r.2.regs.cells[k]? = m.regs.cells[k]? := by
  cases h with
  | load op => exact cells_writeTarget _ _ _ _ ht (hd (by simp [Opcode.delivers, op]))
  | compute op ne =>
    exact cells_writeTarget _ _ _ _ ht (hd (Opcode.delivers_of_aluOp? op ne))
  | trap => rw [provide_keeps]
  | _ => rfl

/-- Without a jump or a value for the program counter the next instruction follows. -/
theorem next_eq (h : Executes m i r) (hj : i.op ≠ .jump)
    (hd : i.op.delivers → i.target ≠ Register.pc) : r.1 = m.regs.pc + 1 := by
  cases h with
  | load op =>
    rw [next_writeTarget, if_neg (hd (by simp [Opcode.delivers, op]))]
    rfl
  | compute op ne =>
    rw [next_writeTarget, if_neg (hd (Opcode.delivers_of_aluOp? op ne))]
    rfl
  | jump op => exact absurd op hj
  | _ => rfl

theorem state_eq (h : Executes m i r) : r.2.state =
    if i.op = .halt ∨ (i.op = .trap ∧ i.offset = 0) then .halted else m.state := by
  cases h with
  | halt op => rw [if_pos (.inl op)]
  | load op => rw [writeTarget_keeps, if_neg (by simp [op])]
  | store op => rw [if_neg (by simp [op])]
  | compare op => rw [if_neg (by simp [op])]; rfl
  | compute op =>
    obtain ⟨hhalt, htrap, -⟩ := Opcode.ne_of_aluOp? op
    rw [writeTarget_keeps, if_neg (by simp [hhalt, htrap])]
    rfl
  | jump op => rw [if_neg (by simp [op])]
  | @trap service op code =>
    rw [← Trap.code_eq_of_ofCode? code, op]
    cases service <;> rfl

theorem output_eq (h : Executes m i r) : r.2.output = m.output ++
    if i.op = .trap then Trap.printing i.offset (m.reading i.src1) else "" := by
  have hkept : m.output = m.output ++ "" := String.append_empty.symm
  cases h with
  | load op => rw [writeTarget_keeps, if_neg (by simp [op])]; exact hkept
  | compute op =>
    rw [writeTarget_keeps, if_neg (Opcode.ne_of_aluOp? op).2.1]
    exact hkept
  | @trap service op code =>
    rw [← Trap.code_eq_of_ofCode? code, if_pos op]
    cases service with
    | halt => exact hkept
    | _ => rfl
  | _ op => rw [if_neg (by simp [op])]; exact hkept

theorem load_inv (h : Executes m i r) (hop : i.op = .load) : m.mem.Contains (m.address i) ∧
    r = m.writeTarget i.target (m.mem.cell (m.address i).toNat) m.regs.next := by
  cases h with
  | load _ contains => exact ⟨contains, rfl⟩
  | compute op => exact absurd hop (Opcode.ne_of_aluOp? op).2.2.2.2
  | _ op => rw [hop] at op; cases op

theorem store_inv (h : Executes m i r) (hop : i.op = .store) : m.mem.Contains (m.address i) ∧
    r.2.mem = m.mem.set (m.address i).toNat (m.reading i.target) := by
  cases h with
  | store _ contains => exact ⟨contains, rfl⟩
  | compute op => exact absurd hop (Opcode.ne_of_aluOp? op).2.2.1
  | _ op => rw [hop] at op; cases op

theorem jump_inv (h : Executes m i r) (hop : i.op = .jump) :
    r.1 = m.reading i.src1 + i.offset := by
  cases h with
  | jump => rfl
  | compute op => exact absurd hop (Opcode.ne_of_aluOp? op).2.2.2.1
  | _ op => rw [hop] at op; cases op

theorem arithmetic_inv {alu : AluOp} (h : Executes m i r) (hop : i.op.aluOp? = some alu) :
    ∃ value flags, alu.exec (m.reading i.src1) (m.reading i.src2 + i.offset) = .ok (value, flags) ∧
      r.2.regs.flags = flags ∧ (i.op ≠ .cmp →
        r = (m.setFlags flags).writeTarget i.target value m.regs.next) := by
  cases h with
  | @compare value flags op exec =>
    rw [op] at hop
    cases hop
    exact ⟨value, flags, exec, rfl, fun hc => absurd op hc⟩
  | @compute _ value flags op ne exec =>
    rw [hop] at op
    cases op
    exact ⟨value, flags, exec, flags_writeTarget .., fun _ => rfl⟩
  | _ op => rw [op] at hop; cases hop

end Executes

/-- What an enabled instruction changes when its step completes. -/
structure Performs (m : Machine) (i : Instruction) (m' : Machine) : Prop where
  /-- Only arithmetic sets the flags. -/
  flags_kept : ¬i.op.isArithmetic → m'.regs.flags = m.regs.flags
  /-- Only a store changes the memory, and only the cell at its address. -/
  mem_kept : i.op ≠ .store → m'.mem = m.mem
  stored : i.op = .store → m.mem.Contains (m.address i) ∧ m'.mem.size = m.mem.size ∧
    ∀ j, m'.mem.cell j = if j = (m.address i).toNat then m.reading i.target else m.mem.cell j
  /-- A register other than the program counter keeps its word, unless it is the target of
  an opcode that gives a value; `r0` always does. -/
  cells_kept : ∀ k < 15, (i.op.delivers → i.target.toNat = k → k = 0) →
    m'.regs.cells[k]? = m.regs.cells[k]?
  loaded : i.op = .load → m.mem.Contains (m.address i) ∧ (i.target ≠ Register.zero →
    m'.regs.get i.target = m.mem.cell (m.address i).toNat)
  computed : ∀ alu, i.op.aluOp? = some alu → ∃ value,
    alu.exec (m.reading i.src1) (m.reading i.src2 + i.offset) = .ok (value, m'.regs.flags) ∧
      (i.op ≠ .cmp → i.target ≠ Register.zero → m'.regs.get i.target = value)
  pc_jumped : i.op = .jump → m'.regs.pc = m.reading i.src1 + i.offset
  pc_next : i.op ≠ .jump → (i.op.delivers → i.target ≠ Register.pc) →
    m'.regs.pc = m.regs.pc + 1
  state_eq : m'.state =
    if i.op = .halt ∨ (i.op = .trap ∧ i.offset = 0) then .halted else .running
  output_eq : m'.output = m.output ++
    if i.op = .trap then Trap.printing i.offset (m.reading i.src1) else ""

theorem performs_of_executes (hr : m.state = .running) (ht : i.target.toNat < 16)
    (h : Executes m i r) : Performs m i ((r.2.goTo r.1).complete i) where
  flags_kept := h.flags_eq
  mem_kept := h.mem_eq
  stored hs := by
    obtain ⟨hc, hmem⟩ := h.store_inv hs
    refine ⟨hc, (congrArg Memory.size hmem).trans (Memory.size_set ..), fun j => ?_⟩
    refine (congrArg (Memory.cell · j) hmem).trans ((Memory.cell_set ..).trans ?_)
    by_cases hj : j = (m.address i).toNat
    · rw [if_pos hj, if_pos ⟨hj.symm, hc.2⟩]
    · rw [if_neg hj, if_neg fun hj' => hj hj'.1.symm]
  cells_kept k hk hd := (Registers.cells_jump _ _ hk).trans (h.cells_eq ht hd)
  loaded hop := by
    obtain ⟨hc, rfl⟩ := h.load_inv hop
    exact ⟨hc, fun hz => get_writeTarget _ _ _ hz ht⟩
  computed alu hop := by
    obtain ⟨value, flags, hexec, rfl, hwritten⟩ := h.arithmetic_inv hop
    refine ⟨value, hexec, fun hc hz => ?_⟩
    rw [hwritten hc]
    exact get_writeTarget _ _ _ hz ht
  pc_jumped hop := (Registers.pc_jump _ _).trans (h.jump_inv hop)
  pc_next hj hd := (Registers.pc_jump _ _).trans (h.next_eq hj hd)
  state_eq := hr ▸ h.state_eq
  output_eq := h.output_eq

theorem step_of_disabled (hr : m.state = .running) (hc : m.mem.Contains m.regs.pc)
    (hi : i = Instruction.decode (m.mem.cell m.regs.pc.toNat))
    (hd : m.regs.flags.inter i.cond = .never) :
    m.step = (.ok i, { m with
      regs := m.regs.jump (m.regs.pc + 1)
      cycles := m.cycles + 1
      lastInstr := some i }) := by
  have hcycle : m.cycle = m.pass i := by
    rw [cycle_of_contains hc hi, if_neg fun hm => Flags.meets_iff.1 hm hd]
  exact step_of_cycle_ok hr hcycle

/-- What a completed step changes, for an instruction that is disabled or enabled. -/
theorem step_ok_cases (hr : m.state = .running) (h : m.step = (.ok i, m')) :
    m.mem.Contains m.regs.pc ∧ i = Instruction.decode (m.mem.cell m.regs.pc.toNat) ∧
    m'.config = m.config ∧ m'.cycles = m.cycles + 1 ∧ m'.lastInstr = some i ∧
    (m.regs.flags.meets i.cond = false ∧ m' = (m.goTo m.regs.next).complete i ∨
      m.regs.flags.meets i.cond = true ∧ Performs m i m') := by
  obtain ⟨n, hcycle, rfl⟩ := (step_ok_iff hr).1 h
  obtain ⟨hpc, hi, hn⟩ := cycle_ok_iff.1 hcycle
  cases hm : m.regs.flags.meets i.cond with
  | false =>
    rw [hm, if_neg Bool.false_ne_true] at hn
    subst hn
    exact ⟨hpc, hi, rfl, rfl, rfl, .inl ⟨rfl, rfl⟩⟩
  | true =>
    rw [hm, if_pos rfl] at hn
    obtain ⟨next, n', hexecute, rfl⟩ := hn
    have hexecutes := executes_of_execute hexecute
    have ht : i.target.toNat < 16 := hi ▸ Instruction.toNat_target_decode_lt _
    exact ⟨hpc, hi, hexecutes.config_eq, congrArg (· + 1) hexecutes.cycles_eq, rfl,
      .inr ⟨rfl, performs_of_executes hr ht hexecutes⟩⟩

/-- A completed step counts a cycle and remembers its instruction. A disabled instruction
only goes on to the next one, whatever its opcode; an enabled one performs its opcode. -/
theorem step_changes (hr : m.state = .running) (hc : m.cycles.toNat < 0xffffffffffffffff) :
    (∀ i, m.mem.Contains m.regs.pc → i = Instruction.decode (m.mem.cell m.regs.pc.toNat) →
      m.regs.flags.inter i.cond = .never → m.step.1 = .ok i) ∧
    ∀ i m', m.step = (.ok i, m') →
      m.mem.Contains m.regs.pc ∧ i = Instruction.decode (m.mem.cell m.regs.pc.toNat) ∧
      m'.cycles.toNat = m.cycles.toNat + 1 ∧ m'.lastInstr = some i ∧ m'.config = m.config ∧
      (m.regs.flags.inter i.cond = .never → m' = { m with
        regs := m.regs.jump (m.regs.pc + 1)
        cycles := m.cycles + 1
        lastInstr := some i }) ∧
      (m.regs.flags.inter i.cond ≠ .never → Performs m i m') := by
  constructor
  · intro i hpc hi hd
    rw [step_of_disabled hr hpc hi hd]
  · intro i m' h
    obtain ⟨hpc, hi, hconfig, hcycles, hlast, hcases⟩ := step_ok_cases hr h
    have hcount : m'.cycles.toNat = m.cycles.toNat + 1 := by
      rw [hcycles]
      exact (BitVec.toNat_add ..).trans (Nat.mod_eq_of_lt (Nat.succ_lt_succ hc))
    refine ⟨hpc, hi, hcount, hlast, hconfig, ?_, ?_⟩
    · intro hd
      rw [step_of_disabled hr hpc hi hd] at h
      exact ((Prod.mk.inj h).2).symm
    · intro hd
      rcases hcases with ⟨hm, -⟩ | ⟨-, hperforms⟩
      · rw [Flags.meets_iff.2 hd] at hm
        cases hm
      · exact hperforms

/-- A machine of the default configuration whose memory holds just these words. -/
def holding (words : List Word) : Machine :=
  { ofConfig Config.default with mem := .ofList words }

/-- `ADD r1,r0,r0[5]` sets `r1` to 5. -/
theorem step_changes_addition : (holding [0x0fc40005]).state = .running ∧
    (holding [0x0fc40005]).cycles.toNat < 0xffffffffffffffff ∧
    ∃ m', (holding [0x0fc40005]).step = (.ok ⟨.add, .always, 1, 0, 0, 5⟩, m') ∧
      Performs (holding [0x0fc40005]) ⟨.add, .always, 1, 0, 0, 5⟩ m' ∧ m'.regs.get 1 = 5 := by
  refine ⟨rfl, by decide, _, rfl, ?_, rfl⟩
  have h := step_changes (m := holding [0x0fc40005]) rfl (by decide)
  obtain ⟨-, -, -, -, -, -, hperforms⟩ := h.2 _ _ rfl
  exact hperforms (by decide)

end Machine
end DM2022
