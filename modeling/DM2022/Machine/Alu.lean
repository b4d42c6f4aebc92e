import DM2022.Instruction.Flags
import DM2022.Instruction.Opcode
import DM2022.Machine.Fault

/-!
# Arithmetic

Operations on two signed words. A result wraps to a word, and the flags tell its sign
and whether the exact result was lost. Division rounds down; shifts take any count that
is not negative.
-/
namespace DM2022

inductive AluOp where
  | add | sub | mul | div | and | or | xor | shl | shr
  deriving DecidableEq

/-- The operation of an opcode; a comparison subtracts. -/
def Opcode.aluOp? : Opcode → Option AluOp
  | .add => some .add
  | .sub | .cmp => some .sub
  | .mul => some .mul
  | .div => some .div
  | .and => some .and
  | .or => some .or
  | .xor => some .xor
  | .shl => some .shl
  | .shr => some .shr
  | _ => none

namespace AluOp

/-- The sum, and whether it is not the exact one: then it has the other sign than both
operands. -/
def sum (left right : Word) : Word × Bool :=
  let value := Word.sum left right
  (value, left.msb == right.msb && value.msb != left.msb)

/-- The difference, and whether it is not the exact one: then the operands differ in sign,
and it has the sign of the second. -/
def difference (left right : Word) : Word × Bool :=
  let value := Word.difference left right
  (value, left.msb != right.msb && value.msb != left.msb)

/-- The quotient rounded down, and whether it was lost. -/
def floorDiv (left right : Word) : Except FaultKind (Word × Bool) :=
  if right = 0 then .error .divideByZero
  else
    let quotient := left.sdiv right
    if left.srem right ≠ 0 ∧ left.msb ≠ right.msb then .ok (quotient - 1, false)
    else .ok (quotient, left.sdivOverflow right)

/-- The shifted word, and whether bits or the sign were lost. -/
def shiftLeft (left count : Word) : Except FaultKind (Word × Bool) :=
  if count.msb then .error (.badShift count)
  else if 32 ≤ count.toNat then .ok (0, left != 0)
  else
    let value := left <<< count.toNat
    .ok (value, value.sshiftRight count.toNat != left)

def shiftRight (left count : Word) : Except FaultKind (Word × Bool) :=
  if count.msb then .error (.badShift count)
  else .ok (left.sshiftRight (min count.toNat 31), false)

/-- The result as a word, and whether it is not the exact one. -/
def result (op : AluOp) (left right : Word) : Except FaultKind (Word × Bool) :=
  match op with
  | .add => .ok (sum left right)
  | .sub => .ok (difference left right)
  | .mul => .ok (left * right, left.smulOverflow right)
  | .div => floorDiv left right
  | .and => .ok (left &&& right, false)
  | .or => .ok (left ||| right, false)
  | .xor => .ok (left ^^^ right, false)
  | .shl => shiftLeft left right
  | .shr => shiftRight left right

/-- The result with its flags. -/
def exec (op : AluOp) (left right : Word) : Except FaultKind (Word × Flags) :=
  (op.result left right).map fun (value, lost) => (value, .ofResult value lost)

theorem sum_eq (left right : Word) : sum left right = (left + right, left.saddOverflow right) := by
  rw [sum, Word.sum_eq, BitVec.saddOverflow_eq]
  rfl

theorem difference_eq (left right : Word) :
    difference left right = (left - right, left.ssubOverflow right) := by
  rw [difference, Word.difference_eq, BitVec.ssubOverflow_eq]
  cases left.msb <;> cases right.msb <;> cases (left - right).msb <;> rfl

end AluOp
end DM2022
