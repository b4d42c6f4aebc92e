import DM2022.Instruction.Flags
import DM2022.Instruction.Opcode
import DM2022.Instruction.Register

/-!
# Names of the instruction set

Looking up a mnemonic, a register or a predicate, with the error for a name that the
instruction set does not have.
-/
namespace DM2022

inductive NameError where
  | unknownOpcode (name : String)
  | unknownRegister (name : String)
  | unknownPredicate (name : String)
  deriving DecidableEq

def NameError.message : NameError → String
  | .unknownOpcode name => "unknown opcode: " ++ name
  | .unknownRegister name => "unknown register: " ++ name
  | .unknownPredicate name => "unknown predicate: " ++ name

def lookupOpcode (name : List Char) : Except NameError Opcode :=
  match Opcode.ofMnemonic? name with
  | some op => .ok op
  | none => .error (.unknownOpcode (String.ofList name))

def lookupRegister (name : List Char) : Except NameError Byte :=
  match Register.ofName? name with
  | some reg => .ok reg
  | none => .error (.unknownRegister (String.ofList name))

def lookupPredicate (name : List Char) : Except NameError Flags :=
  match Flags.ofText? name with
  | some flags => .ok flags
  | none => .error (.unknownPredicate (String.ofList name))

end DM2022
