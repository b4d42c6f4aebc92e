import DM2022.Instruction.Basic
import DM2022.Machine.Config
import DM2022.Machine.Memory
import DM2022.Machine.Registers

/-!
# Machines

Registers, memory and the state of a run, with the text that traps have printed.
-/
namespace DM2022

inductive State where
  | running | halted
  | faulted (fault : Fault)
  deriving DecidableEq

structure Machine where
  regs : Registers
  mem : Memory
  state : State
  cycles : Count
  config : Config
  output : String
  lastInstr : Option Instruction
  deriving DecidableEq

namespace Machine

/-- A machine with cleared registers and memory, about to start at the entry. -/
def ofConfig (c : Config) : Machine where
  regs := Registers.initial.jump c.entry
  mem := .zeros c.memoryWords.toNat
  state := .running
  cycles := 0
  config := c
  output := ""
  lastInstr := none

/-- Clears the registers, the memory and all that is left of a run, and goes back to the
entry. -/
def reset (m : Machine) : Machine :=
  { m with
    regs := Registers.initial.jump m.config.entry
    mem := m.mem.clear
    state := .running
    cycles := 0
    output := ""
    lastInstr := none }

/-- Copies an image to the load base. -/
def load (m : Machine) (image : List Word) : Except MemoryError Machine :=
  (m.mem.load m.config.loadBase image).map fun mem => { m with mem }

/-- The printed text, and the machine without it. -/
def takeOutput (m : Machine) : String × Machine := (m.output, { m with output := "" })

def isRunning (m : Machine) : Bool := m.state = .running

def isHalted (m : Machine) : Bool := m.state = .halted

/-- The fault that stopped the machine. -/
def fault? (m : Machine) : Option Fault :=
  match m.state with
  | .faulted fault => some fault
  | _ => none

theorem load_ok_iff {m m' : Machine} {image : List Word} : m.load image = .ok m' ↔
    ∃ mem, m.mem.load m.config.loadBase image = .ok mem ∧ m' = { m with mem } := by
  rw [load]
  cases m.mem.load m.config.loadBase image <;> simp [Except.map, eq_comm]

end Machine
end DM2022
