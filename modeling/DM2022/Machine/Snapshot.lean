import DM2022.Json.Library
import DM2022.Machine.Basic

/-!
# Snapshots

How a machine and its parts are declared for a library that writes and reads them. The fields of a
configuration have defaults, and the last instruction of a machine may be left out.
-/
namespace DM2022

open Json

def Flags.schema : Schema .type Flags := .newtype (.unsigned 8) Flags.bits Flags.mk

namespace Config

def fields : Schema .fields (Count × Word × Word × Option Count × Unit) :=
  .field "memory_words" (.unsigned 64) (some default.memoryWords) <|
    .field "load_base" (.unsigned 32) (some default.loadBase) <|
    .field "entry" (.unsigned 32) (some default.entry) <|
    .field "max_cycles" (.optional (.unsigned 64)) (some default.maxCycles) .noFields

def schema : Schema .type Config :=
  .record fields true (fun c => (c.memoryWords, c.loadBase, c.entry, c.maxCycles, ()))
    (fun (memoryWords, loadBase, entry, maxCycles, ()) => ⟨memoryWords, loadBase, entry, maxCycles⟩)

/-- Reads a configuration and checks it. -/
def fromJson (l : Library) (text : List Char) : Except ConfigError Config :=
  match l.read schema text with
  | .error reason => .error (@ConfigError.malformed reason)
  | .ok c => c.validate.map fun _ => c

def read (text : List Char) : Except ConfigError Config := fromJson .standard text

def toJson (c : Config) : Value := schema.write c

def ofJson? (v : Value) : Option Config := schema.read? v

end Config

namespace Opcode

def variant : Opcode → String
  | .halt => "Halt"
  | .load => "Load"
  | .store => "Store"
  | .add => "Add"
  | .sub => "Sub"
  | .mul => "Mul"
  | .div => "Div"
  | .and => "And"
  | .or => "Or"
  | .xor => "Xor"
  | .shl => "Shl"
  | .shr => "Shr"
  | .cmp => "Cmp"
  | .jump => "Jump"
  | .trap => "Trap"
  | .illegal _ => "Illegal"

def illegal? : Opcode → Option Byte
  | .illegal code => some code
  | _ => none

def schema : Schema .type Opcode :=
  .choice (assigned.foldr (fun op => .constant op.variant op)
    (.alternative "Illegal" (.bare (.unsigned 8)) .illegal illegal? .noAlternatives))

def toJson (op : Opcode) : Value := schema.write op

end Opcode

namespace Instruction

def schema : Schema .type Instruction :=
  .record
    (.field "op" Opcode.schema none <|
      .field "cond" Flags.schema none <|
      .field "target" (.unsigned 8) none <|
      .field "src1" (.unsigned 8) none <|
      .field "src2" (.unsigned 8) none <|
      .field "offset" (.signed 32) none .noFields)
    false
    (fun i => (i.op, i.cond, i.target, i.src1, i.src2, i.offset, ()))
    (fun (op, cond, target, src1, src2, offset, ()) => ⟨op, cond, target, src1, src2, offset⟩)

def ofJson? (v : Value) : Option Instruction := schema.read? v

end Instruction

namespace FaultKind

def schema : Schema .type FaultKind :=
  .choice <|
    .alternative "AddressOutOfRange"
      (.named (.field "addr" (.signed 32) none <| .field "size" (.unsigned 64) none .noFields))
      (fun (address, size, ()) => .addressOutOfRange address size)
      (fun | .addressOutOfRange address size => some (address, size, ()) | _ => none) <|
    .constant "DivideByZero" .divideByZero <|
    .alternative "IllegalOpcode" (.bare (.unsigned 8)) .illegalOpcode
      (fun | .illegalOpcode code => some code | _ => none) <|
    .alternative "BadTrap" (.bare (.signed 32)) .badTrap
      (fun | .badTrap code => some code | _ => none) <|
    .alternative "BadShift" (.bare (.signed 32)) .badShift
      (fun | .badShift count => some count | _ => none) <|
    .alternative "CycleBudgetExceeded" (.named (.field "limit" (.unsigned 64) none .noFields))
      (fun (limit, ()) => .cycleBudgetExceeded limit)
      (fun | .cycleBudgetExceeded limit => some (limit, ()) | _ => none) <|
    .noAlternatives

def toJson (kind : FaultKind) : Value := schema.write kind

end FaultKind

def Fault.schema : Schema .type Fault :=
  .record (.field "pc" (.signed 32) none <| .field "kind" FaultKind.schema none .noFields) false
    (fun fault => (fault.pc, fault.kind, ())) (fun (pc, kind, ()) => ⟨pc, kind⟩)

namespace State

def schema : Schema .type State :=
  .choice <|
    .constant "Running" .running <|
    .constant "Halted" .halted <|
    .alternative "Faulted" (.bare Fault.schema) .faulted
      (fun | .faulted fault => some fault | _ => none) <|
    .noAlternatives

def toJson (state : State) : Value := schema.write state

end State

def Registers.schema : Schema .type Registers :=
  .record
    (.field "regs" (.vector 16 (.signed 32)) none <| .field "flags" Flags.schema none .noFields)
    false (fun r => (r.cells, r.flags, ())) (fun (cells, flags, ()) => ⟨cells, flags⟩)

def Memory.schema : Schema .type Memory :=
  .record (.field "cells" (.list (.unsigned 32)) none .noFields) false
    (fun m => (m.toList, ())) (fun (words, ()) => .ofList words)

namespace Machine

def schema : Schema .type Machine :=
  .record
    (.field "regs" Registers.schema none <|
      .field "mem" Memory.schema none <|
      .field "state" State.schema none <|
      .field "cycles" (.unsigned 64) none <|
      .field "config" Config.schema none <|
      .field "output" .text none <|
      .field "last_instr" (.optional Instruction.schema) (some none) .noFields)
    false
    (fun m => (m.regs, m.mem, m.state, m.cycles, m.config, m.output, m.lastInstr, ()))
    (fun (regs, mem, state, cycles, config, output, lastInstr, ()) =>
      ⟨regs, mem, state, cycles, config, output, lastInstr⟩)

/-- The snapshot of a machine as text without blanks. -/
def snapshot (m : Machine) : String := Library.standard.write schema m

/-- The machine of a snapshot. -/
def ofSnapshot? (text : List Char) : Option Machine :=
  (Library.standard.read schema text).toOption

end Machine
end DM2022
