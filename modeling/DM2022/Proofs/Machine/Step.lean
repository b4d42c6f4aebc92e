import DM2022.Machine.Execution

/-!
# Steps

An instruction may fail at several places, and it changes the machine at others. On every path
each failure comes before the first change, so a step of a running machine either completes or
only stores its fault. What a completed step changes is told by the instruction alone.
-/
namespace DM2022

/-- The opcode gives a value to the target register. -/
def Opcode.delivers (op : Opcode) : Bool := op = .load || op.isArithmetic && op ≠ .cmp

theorem Flags.meets_iff {a b : Flags} : a.meets b ↔ a.inter b ≠ .never := by
  simp [meets, inter, never]

theorem Instruction.toNat_target_decode_lt (word : Word) : (decode word).target.toNat < 16 :=
  Nat.lt_of_le_of_lt (Nat.le_of_eq (toNat_wrap_and _)) (Nat.mod_lt _ (by omega))

namespace Registers

@[simp] theorem cells_jump (r : Registers) (address : Word) {k : Nat} (h : k < 15) :
    (r.jump address).cells[k]? = r.cells[k]? :=
  Vector.getElem?_set_ne (by omega) (by omega)

theorem cells_set (r : Registers) {reg : Byte} (value : Word) {k : Nat} (hr : reg.toNat < 16)
    (hk : reg.toNat = k → k = 0) : (r.set reg value).cells[k]? = r.cells[k]? := by
  rw [set]
  split
  · rfl
  · next hz =>
    have hne : reg.toNat ≠ 0 := fun h0 => hz (BitVec.eq_of_toNat_eq h0)
    exact Vector.getElem?_set_ne (Nat.mod_lt _ (by omega)) (by omega)

theorem get_jump_of_ne (r : Registers) (address : Word) {reg : Byte}
    (h : reg.toNat % 16 ≠ 15) : (r.jump address).get reg = r.get reg := by
  simp only [get]
  split
  · rfl
  · exact Vector.getElem_set_ne (by omega) (Nat.mod_lt _ (by omega)) (Ne.symm h)

end Registers

namespace AluOp

/-- Nothing is lost when a word is added to zero. -/
theorem exec_add_zero (value : Word) :
    add.exec 0 value = .ok (value, .ofResult value false) := by
  have hsum : Word.sum 0 value = value := BitVec.zero_add value
  have hzero : (0 : Word).msb = false := rfl
  have hresult : add.result 0 value = .ok (value, false) := by
    rw [result, sum, hsum, hzero]
    cases value.msb <;> rfl
  rw [exec, hresult]
  rfl

end AluOp

namespace Machine

variable {m m' : Machine} {i : Instruction} {kind : FaultKind}

/-- The value of a register for an instruction: `r0` is zero, and `r15` is the address of
the next instruction. -/
def reading (m : Machine) (reg : Byte) : Word :=
  if reg = Register.zero then 0
  else if reg = Register.pc then m.regs.pc + 1
  else m.regs.get reg

theorem reading_zero (m : Machine) : m.reading Register.zero = 0 := if_pos rfl

/-- The address that a load or a store uses. -/
def address (m : Machine) (i : Instruction) : Word :=
  m.reading i.src1 + m.reading i.src2 + i.offset

theorem operand_eq_reading (m : Machine) (reg : Byte) : m.operand reg = m.reading reg := by
  by_cases hz : reg = Register.zero
  · subst hz
    rfl
  · by_cases hp : reg = Register.pc
    · subst hp
      rfl
    · rw [operand, if_neg hp, reading, if_neg hz, if_neg hp]

theorem address_eq (m : Machine) (i : Instruction) :
    Word.sum (m.operand i.src1) (Word.sum (m.operand i.src2) i.offset) = m.address i := by
  rw [Word.sum_eq, Word.sum_eq, operand_eq_reading, operand_eq_reading, address,
    BitVec.add_assoc]

/-! ## Failures -/

theorem trap_error {code argument next : Word}
    (h : m.trap code argument next = (.error kind, m')) : m' = m := by
  rw [trap] at h
  split at h
  · cases h
    rfl
  · cases h

/-- On every path the last failure comes before the first change: the memory is asked before a
register or a cell is written, and the arithmetic before the flags are set. -/
theorem execute_error (h : m.execute i = (.error kind, m')) : m' = m := by
  rw [execute] at h
  dsimp only at h
  split at h
  case h_1 => cases h
  case h_2 =>
    split at h
    · cases h
      rfl
    · cases h
  case h_3 =>
    split at h
    · cases h
      rfl
    · cases h
  case h_4 => cases h
  case h_5 => exact trap_error h
  case h_6 =>
    split at h
    · cases h
      rfl
    · split at h
      · cases h
        rfl
      · split at h
        · cases h
        · cases h

theorem perform_error (h : m.perform i = (.error kind, m')) : m' = m := by
  rw [perform] at h
  split at h
  · cases h
  · next he =>
    cases h
    exact execute_error he

theorem cycle_error (h : m.cycle = (.error kind, m')) : m' = m := by
  rw [cycle] at h
  split at h
  · cases h
    rfl
  · dsimp only at h
    split at h
    · exact perform_error h
    · cases h

theorem step_of_not_running (h : m.state ≠ .running) :
    m.step = (.error (.notRunning m.state), m) := by
  rw [step]
  split
  · next hr => exact absurd hr h
  · rfl

theorem step_of_cycle_ok (hr : m.state = .running) (h : m.cycle = (.ok i, m')) :
    m.step = (.ok i, m'.complete i) := by
  rw [step, hr]
  simp only [h]

theorem step_of_cycle_error (hr : m.state = .running) (h : m.cycle = (.error kind, m')) :
    m.step = m.stop m.regs.pc kind := by
  rw [step, hr]
  simp only [h]
  rw [cycle_error h]

/-- A completed step is a completed cycle. -/
theorem step_ok_iff (hr : m.state = .running) :
    m.step = (.ok i, m') ↔ ∃ n, m.cycle = (.ok i, n) ∧ m' = n.complete i := by
  rcases hc : m.cycle with ⟨result, n⟩
  cases result with
  | error kind =>
    rw [step_of_cycle_error hr hc, stop]
    simp
  | ok j =>
    rw [step_of_cycle_ok hr hc]
    simp only [Prod.mk.injEq, Except.ok.injEq]
    constructor
    · rintro ⟨rfl, rfl⟩
      exact ⟨n, ⟨rfl, rfl⟩, rfl⟩
    · rintro ⟨n, ⟨rfl, rfl⟩, rfl⟩
      exact ⟨rfl, rfl⟩

/-- A failed step of a running machine only stores its fault. -/
theorem step_error_running {error : RunError} (hr : m.state = .running)
    (h : m.step = (.error error, m')) : ∃ kind, error = .fault ⟨m.regs.pc, kind⟩ ∧
      m' = { m with state := .faulted ⟨m.regs.pc, kind⟩ } := by
  rcases hc : m.cycle with ⟨result, n⟩
  cases result with
  | ok j =>
    rw [step_of_cycle_ok hr hc] at h
    cases h
  | error kind =>
    rw [step_of_cycle_error hr hc] at h
    cases h
    exact ⟨kind, rfl, rfl⟩

/-! ## Cycles -/

theorem cycle_of_contains (h : m.mem.Contains m.regs.pc)
    (hi : i = Instruction.decode (m.mem.cell m.regs.pc.toNat)) : m.cycle =
      if m.regs.flags.meets i.cond then m.perform i else m.pass i := by
  have hread : m.mem.read m.regs.pc = .ok (m.mem.cell m.regs.pc.toNat) :=
    Memory.read_eq_ok_iff.2 ⟨h, rfl⟩
  subst hi
  rw [cycle, hread]

theorem cycle_of_not_contains (h : ¬m.mem.Contains m.regs.pc) :
    m.cycle = (.error (.addressOutOfRange m.regs.pc (.ofNat 64 m.mem.size)), m) := by
  have hread : m.mem.read m.regs.pc = .error (.addressOutOfRange m.regs.pc m.mem.size) :=
    if_neg h
  rw [cycle, hread]
  rfl

theorem perform_ok_iff {j : Instruction} : m.perform i = (.ok j, m') ↔
    i = j ∧ ∃ next n, m.execute i = (.ok next, n) ∧ m' = n.goTo next := by
  rcases he : m.execute i with ⟨result, n⟩
  rw [perform, he]
  cases result with
  | error kind => simp
  | ok next =>
    constructor
    · intro h
      cases h
      exact ⟨rfl, next, n, rfl, rfl⟩
    · rintro ⟨rfl, next, n, ⟨⟩, rfl⟩
      rfl

/-- A cycle completes if the program counter is that of a cell, with an instruction that
is disabled or completes. -/
theorem cycle_ok_iff : m.cycle = (.ok i, m') ↔
    m.mem.Contains m.regs.pc ∧ i = Instruction.decode (m.mem.cell m.regs.pc.toNat) ∧
      if m.regs.flags.meets i.cond then
        ∃ next n, m.execute i = (.ok next, n) ∧ m' = n.goTo next
      else m' = m.goTo m.regs.next := by
  by_cases hc : m.mem.Contains m.regs.pc
  · obtain ⟨j, hj⟩ : ∃ j, j = Instruction.decode (m.mem.cell m.regs.pc.toNat) := ⟨_, rfl⟩
    rw [cycle_of_contains hc hj, ← hj]
    constructor
    · intro h
      split at h
      · next hm =>
        obtain ⟨rfl, hperformed⟩ := perform_ok_iff.1 h
        exact ⟨hc, rfl, by rw [if_pos hm]; exact hperformed⟩
      · next hm =>
        cases h
        exact ⟨hc, rfl, by rw [if_neg hm]⟩
    · rintro ⟨-, rfl, h⟩
      split at h
      · next hm => rw [if_pos hm, perform_ok_iff.2 ⟨rfl, h⟩]
      · next hm => rw [if_neg hm, h, pass]
  · rw [cycle_of_not_contains hc]
    simp [hc]

/-- The step of an enabled instruction executes it, or stops with its fault. -/
theorem step_of_enabled {word : Word} (hr : m.state = .running)
    (hread : m.mem.read m.regs.pc = .ok word)
    (hm : m.regs.flags.inter (Instruction.decode word).cond ≠ .never) :
    m.step = match m.execute (Instruction.decode word) with
      | (.ok next, n) =>
          (.ok (Instruction.decode word), (n.goTo next).complete (Instruction.decode word))
      | (.error kind, _) => m.stop m.regs.pc kind := by
  obtain ⟨hc, rfl⟩ := Memory.read_eq_ok_iff.1 hread
  have hcycle := cycle_of_contains hc rfl
  rw [if_pos (Flags.meets_iff.2 hm), perform] at hcycle
  rcases he : m.execute (Instruction.decode (m.mem.cell m.regs.pc.toNat)) with ⟨result, n⟩
  rw [he] at hcycle
  cases result with
  | ok next => exact step_of_cycle_ok hr hcycle
  | error kind => exact step_of_cycle_error hr hcycle

/-! ## Instructions -/

theorem execute_halt (h : i.op = .halt) :
    m.execute i = (.ok m.regs.next, { m with state := .halted }) := by
  rw [execute, h]

theorem execute_load (h : i.op = .load) : m.execute i =
    if m.mem.Contains (m.address i) then
      ((m.writeTarget i.target (m.mem.cell (m.address i).toNat) m.regs.next).map .ok id)
    else (.error (.addressOutOfRange (m.address i) (.ofNat 64 m.mem.size)), m) := by
  rw [execute, h]
  simp only [address_eq, Memory.read]
  by_cases hc : m.mem.Contains (m.address i)
  · rw [if_pos hc, if_pos hc]
    rfl
  · rw [if_neg hc, if_neg hc]
    rfl

theorem execute_store (h : i.op = .store) : m.execute i =
    if m.mem.Contains (m.address i) then
      (.ok m.regs.next,
        { m with mem := m.mem.set (m.address i).toNat (m.reading i.target) })
    else (.error (.addressOutOfRange (m.address i) (.ofNat 64 m.mem.size)), m) := by
  rw [execute, h]
  simp only [address_eq, Memory.write]
  rw [operand_eq_reading]
  by_cases hc : m.mem.Contains (m.address i)
  · rw [if_pos hc, if_pos hc]
  · rw [if_neg hc, if_neg hc]
    rfl

theorem execute_jump (h : i.op = .jump) :
    m.execute i = (.ok (m.reading i.src1 + i.offset), m) := by
  rw [execute, h]
  simp only [Word.sum_eq, operand_eq_reading]

theorem execute_trap (h : i.op = .trap) :
    m.execute i = m.trap i.offset (m.reading i.src1) m.regs.next := by
  rw [execute, h]
  simp only [operand_eq_reading]

theorem execute_illegal {code : Byte} (h : i.op = .illegal code) :
    m.execute i = (.error (.illegalOpcode code), m) := by
  rw [execute, h]
  rfl

/-- All arithmetic opcodes compute with the first source and the displaced second one, and set
the flags. All but the comparison give the result to the target. -/
theorem execute_arithmetic {alu : AluOp} (h : i.op.aluOp? = some alu) : m.execute i =
    match alu.exec (m.reading i.src1) (m.reading i.src2 + i.offset) with
    | .error kind => (.error kind, m)
    | .ok (value, flags) =>
        if i.op = .cmp then (.ok m.regs.next, m.setFlags flags)
        else ((m.setFlags flags).writeTarget i.target value m.regs.next).map .ok id := by
  rw [← operand_eq_reading, ← operand_eq_reading, ← Word.sum_eq, execute]
  dsimp only
  split
  case h_6 =>
    rw [h]
    rfl
  all_goals
    next hop =>
      rw [hop] at h
      cases h

/-- How an enabled instruction completes, one case for each kind of opcode: the address to go on
at, and the machine that is left. -/
inductive Executes (m : Machine) (i : Instruction) : Word × Machine → Prop
  | halt (op : i.op = .halt) : Executes m i (m.regs.next, { m with state := .halted })
  | load (op : i.op = .load) (contains : m.mem.Contains (m.address i)) :
      Executes m i (m.writeTarget i.target (m.mem.cell (m.address i).toNat) m.regs.next)
  | store (op : i.op = .store) (contains : m.mem.Contains (m.address i)) :
      Executes m i (m.regs.next,
        { m with mem := m.mem.set (m.address i).toNat (m.reading i.target) })
  | compare {value : Word} {flags : Flags} (op : i.op = .cmp)
      (exec : AluOp.sub.exec (m.reading i.src1) (m.reading i.src2 + i.offset) =
        .ok (value, flags)) :
      Executes m i (m.regs.next, m.setFlags flags)
  | compute {alu : AluOp} {value : Word} {flags : Flags} (op : i.op.aluOp? = some alu)
      (ne : i.op ≠ .cmp)
      (exec : alu.exec (m.reading i.src1) (m.reading i.src2 + i.offset) = .ok (value, flags)) :
      Executes m i ((m.setFlags flags).writeTarget i.target value m.regs.next)
  | jump (op : i.op = .jump) : Executes m i (m.reading i.src1 + i.offset, m)
  | trap {service : Trap} (op : i.op = .trap) (code : Trap.ofCode? i.offset = some service) :
      Executes m i (m.regs.next, m.provide service (m.reading i.src1))

theorem executes_of_execute {next : Word} (h : m.execute i = (.ok next, m')) :
    Executes m i (next, m') := by
  have hmap : ∀ {r : Word × Machine}, r.map Except.ok id =
      ((.ok next, m') : Except FaultKind Word × Machine) → r = (next, m') := by
    rintro ⟨next, n⟩ hr
    cases hr
    rfl
  cases ha : i.op.aluOp? with
  | some alu =>
    rw [execute_arithmetic ha] at h
    rcases hx : alu.exec (m.reading i.src1) (m.reading i.src2 + i.offset) with
      kind | ⟨value, flags⟩
    · rw [hx] at h
      cases h
    · rw [hx] at h
      dsimp only at h
      split at h
      · next hc =>
        cases h
        rw [hc] at ha
        cases ha
        exact .compare hc hx
      · next hc => exact hmap h ▸ .compute ha hc hx
  | none =>
    cases hop : i.op with
    | halt =>
      rw [execute_halt hop] at h
      cases h
      exact .halt hop
    | load =>
      rw [execute_load hop] at h
      split at h
      · next hc => exact hmap h ▸ .load hop hc
      · cases h
    | store =>
      rw [execute_store hop] at h
      split at h
      · next hc =>
        cases h
        exact .store hop hc
      · cases h
    | jump =>
      rw [execute_jump hop] at h
      cases h
      exact .jump hop
    | trap =>
      rw [execute_trap hop, Machine.trap] at h
      split at h
      · cases h
      · next service ht =>
        cases h
        exact .trap hop ht
    | illegal code =>
      rw [execute_illegal hop] at h
      cases h
    | _ =>
      rw [hop] at ha
      cases ha

end Machine
end DM2022
