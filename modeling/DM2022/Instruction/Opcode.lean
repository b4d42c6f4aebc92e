import DM2022.Word
import DM2022.Text.Line
import DM2022.Text.Numeral

/-!
# Opcodes

Every opcode field names an opcode: the fifteen assigned ones, and an illegal one for
each pattern that is left.
-/
namespace DM2022

inductive Opcode where
  | halt | load | store
  | add | sub | mul | div | and | or | xor | shl | shr | cmp
  | jump | trap
  | illegal (code : Byte)
  deriving DecidableEq

namespace Opcode

/-- The assigned opcodes in the order of their codes. -/
def assigned : List Opcode :=
  [.halt, .load, .store, .add, .sub, .mul, .div, .and, .or, .xor, .shl, .shr, .cmp,
    .jump, .trap]

/-- Code 4 is not assigned. -/
def code : Opcode → Byte
  | .halt => 0
  | .load => 1
  | .store => 2
  | .add => 3
  | .sub => 5
  | .mul => 6
  | .div => 7
  | .and => 8
  | .or => 9
  | .xor => 10
  | .shl => 11
  | .shr => 12
  | .cmp => 13
  | .jump => 14
  | .trap => 15
  | .illegal code => code

def ofCode (code : Byte) : Opcode :=
  (assigned.find? fun op => op.code == code).getD (.illegal code)

def mnemonic : Opcode → String
  | .halt => "HALT"
  | .load => "LOAD"
  | .store => "STORE"
  | .add => "ADD"
  | .sub => "SUB"
  | .mul => "MUL"
  | .div => "DIV"
  | .and => "AND"
  | .or => "OR"
  | .xor => "XOR"
  | .shl => "SHL"
  | .shr => "SHR"
  | .cmp => "CMP"
  | .jump => "JUMP"
  | .trap => "TRAP"
  | .illegal _ => "ILLEGAL"

/-- The mnemonic, with the code of an illegal opcode. -/
def text : Opcode → String
  | .illegal code => "ILLEGAL(" ++ Text.naturalText code.toNat ++ ")"
  | op => op.mnemonic

/-- The assigned opcode with this mnemonic, in any case of its letters. -/
def ofMnemonic? (name : List Char) : Option Opcode :=
  assigned.find? fun op => op.mnemonic.toList == Text.upper name

/-- The opcode computes with its operands and sets the flags. -/
def isArithmetic : Opcode → Bool
  | .add | .sub | .mul | .div | .and | .or | .xor | .shl | .shr | .cmp => true
  | _ => false

theorem ofCode_code {op : Opcode} (h : op ∈ assigned) : ofCode op.code = op := by
  revert op
  decide

theorem code_ofCode (code : Byte) : (ofCode code).code = code := by
  rw [ofCode]
  cases h : assigned.find? fun op => op.code == code with
  | none => rfl
  | some op =>
      have hop := List.find?_some h
      exact eq_of_beq hop

end Opcode
end DM2022
