import DM2022.Instruction.Encoding
import DM2022.Instruction.Trap
import DM2022.Machine.Alu
import DM2022.Machine.Basic

/-!
# Execution

A cycle fetches and decodes the word at the program counter and executes it, if its
predicate meets the condition code. All of it changes the machine in place: a fault comes with
the machine as it is by then, and nothing takes back what was changed before the fault.
-/
namespace DM2022

inductive RunError where
  | notRunning (state : State)
  | fault (fault : Fault)
  deriving DecidableEq

namespace Machine

/-- A register as an instruction reads it: the program counter is already past the
instruction. -/
def operand (m : Machine) (reg : Byte) : Word :=
  if reg = Register.pc then m.regs.next else m.regs.get reg

/-- Gives a value to a register before the instruction at `next`. For the program counter
that is a jump. -/
def writeTarget (m : Machine) (target : Byte) (value next : Word) : Word × Machine :=
  if target = Register.pc then (value, m)
  else (next, { m with regs := m.regs.set target value })

def setFlags (m : Machine) (flags : Flags) : Machine := { m with regs := { m.regs with flags } }

def goTo (m : Machine) (address : Word) : Machine := { m with regs := m.regs.jump address }

def print (m : Machine) (text : String) : Machine := { m with output := m.output ++ text }

def provide (m : Machine) (service : Trap) (argument : Word) : Machine :=
  match service with
  | .halt => { m with state := .halted }
  | .printInteger => m.print (Text.integerText argument.toInt ++ "\n")
  | .printCharacter => m.print (String.singleton (Char.ofNat (argument.toNat % 256)))

def trap (m : Machine) (code argument next : Word) : Except FaultKind Word × Machine :=
  match Trap.ofCode? code with
  | none => (.error (.badTrap code), m)
  | some service => (.ok next, m.provide service argument)

/-- Executes an enabled instruction, and gives the address to go on at. -/
def execute (m : Machine) (i : Instruction) : Except FaultKind Word × Machine :=
  let next := m.regs.next
  let left := m.operand i.src1
  let right := Word.sum (m.operand i.src2) i.offset
  match i.op with
  | .halt => (.ok next, { m with state := .halted })
  | .load => match m.mem.read (Word.sum left right) with
    | .error e => (.error e.fault, m)
    | .ok value =>
        let (next, m) := m.writeTarget i.target value next
        (.ok next, m)
  | .store => match m.mem.write (Word.sum left right) (m.operand i.target) with
    | .error e => (.error e.fault, m)
    | .ok mem => (.ok next, { m with mem })
  | .jump => (.ok (Word.sum left i.offset), m)
  | .trap => m.trap i.offset left next
  | op => match op.aluOp? with
    | none => (.error (.illegalOpcode op.code), m)
    | some alu => match alu.exec left right with
      | .error kind => (.error kind, m)
      | .ok (value, flags) =>
          let m := m.setFlags flags
          if op = .cmp then (.ok next, m)
          else
            let (next, m) := m.writeTarget i.target value next
            (.ok next, m)

def perform (m : Machine) (i : Instruction) : Except FaultKind Instruction × Machine :=
  match m.execute i with
  | (.ok next, m) => (.ok i, m.goTo next)
  | (.error kind, m) => (.error kind, m)

def pass (m : Machine) (i : Instruction) : Except FaultKind Instruction × Machine :=
  (.ok i, m.goTo m.regs.next)

def cycle (m : Machine) : Except FaultKind Instruction × Machine :=
  match m.mem.read m.regs.pc with
  | .error e => (.error e.fault, m)
  | .ok word =>
      let i := Instruction.decode word
      if m.regs.flags.meets i.cond then m.perform i else m.pass i

def stop {α : Type} (m : Machine) (pc : Word) (kind : FaultKind) : Except RunError α × Machine :=
  (.error (.fault ⟨pc, kind⟩), { m with state := .faulted ⟨pc, kind⟩ })

def complete (m : Machine) (i : Instruction) : Machine :=
  { m with cycles := Count.succ m.cycles, lastInstr := some i }

def step (m : Machine) : Except RunError Instruction × Machine :=
  match m.state with
  | .running =>
      let pc := m.regs.pc
      match m.cycle with
      | (.ok i, m) => (.ok i, m.complete i)
      | (.error kind, m) => m.stop pc kind
  | state => (.error (.notRunning state), m)

/-! ## Counters -/

theorem cycles_writeTarget (m : Machine) (target : Byte) (value next : Word) :
    (m.writeTarget target value next).2.cycles = m.cycles := by
  unfold writeTarget
  split <;> rfl

theorem cycles_trap (m : Machine) (code argument next : Word) :
    (m.trap code argument next).2.cycles = m.cycles := by
  unfold trap
  split
  · rfl
  · next service _ => cases service <;> rfl

theorem cycles_execute (m : Machine) (i : Instruction) : (m.execute i).2.cycles = m.cycles := by
  unfold execute
  dsimp only
  split
  · rfl
  · split
    · rfl
    · exact cycles_writeTarget ..
  · split <;> rfl
  · rfl
  · exact cycles_trap ..
  · split
    · rfl
    · split
      · rfl
      · split
        · rfl
        · exact cycles_writeTarget ..

theorem cycles_cycle (m : Machine) : m.cycle.2.cycles = m.cycles := by
  unfold cycle
  split
  · rfl
  · next word _ =>
    dsimp only
    split
    · rw [perform, ← cycles_execute m (Instruction.decode word)]
      split
      · next h =>
        rw [h]
        rfl
      · next h => rw [h]
    · rfl

/-- A completed step counts one cycle. -/
theorem cycles_step {m next : Machine} {i : Instruction} (h : m.step = (.ok i, next)) :
    next.cycles = m.cycles + 1 := by
  rw [step] at h
  split at h
  · rw [← m.cycles_cycle]
    dsimp only at h
    split at h
    · next hc =>
      cases h
      rw [hc]
      rfl
    · cases h
  · cases h

/-! ## Runs -/

/-- The loop of a run with a budget. The run began at the count `start`, and a machine that still
runs when `limit` cycles are counted has used up its budget. -/
def runWithin (start limit : Count) (m : Machine) : Except RunError Count × Machine :=
  if m.state = .running then
    if limit ≤ m.cycles - start then m.stop m.regs.pc (.cycleBudgetExceeded limit)
    else match _h : m.step with
      | (.ok _, next) => runWithin start limit next
      | (.error e, next) => (.error e, next)
  else (.ok (m.cycles - start), m)
termination_by (limit - (m.cycles - start)).toNat
decreasing_by
  have hcount := cycles_step _h
  bv_omega

/-- The loop of a run without a budget. It need not come to an end: of a run that does not,
no result is known. -/
def runOn (start : Count) (m : Machine) : Except RunError Count × Machine := Id.run do
  let mut m := m
  while m.state = .running do
    match m.step with
    | (.ok _, next) => m := next
    | (.error e, next) => return (.error e, next)
  return (.ok (m.cycles - start), m)

/-- Runs for at most `limit` cycles, and counts them. -/
def runLimited (m : Machine) (limit : Count) : Except RunError Count × Machine :=
  runWithin m.cycles limit m

/-- Runs within the budget of the configuration, if it sets one. -/
def run (m : Machine) : Except RunError Count × Machine :=
  match m.config.maxCycles with
  | some limit => m.runLimited limit
  | none => runOn m.cycles m

end Machine
end DM2022
