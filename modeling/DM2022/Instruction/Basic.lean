import DM2022.Instruction.Flags
import DM2022.Instruction.Opcode

/-!
# Instructions

An instruction as a record of its fields, whose values may be too large for a word.
-/
namespace DM2022

structure Instruction where
  op : Opcode
  cond : Flags
  target : Byte
  src1 : Byte
  src2 : Byte
  offset : Word
  deriving DecidableEq

namespace Instruction

def registerText (reg : Byte) : String := "r" ++ Text.naturalText reg.toNat

/-- The operation, with its predicate unless that is `ALWAYS`, and the full operands. -/
def text (i : Instruction) : String :=
  i.op.text ++ (if i.cond = .always then "" else "/" ++ i.cond.text) ++ "   " ++
    registerText i.target ++ "," ++ registerText i.src1 ++ "," ++ registerText i.src2 ++
    "[" ++ Text.integerText i.offset.toInt ++ "]"

end Instruction
end DM2022
