import DM2022.Instruction.Flags
import DM2022.Instruction.Register

/-!
# Registers

Sixteen words and the condition code. Register numbers count modulo 16, but only the
number 0 itself reads as zero and takes no value.
-/
namespace DM2022

structure Registers where
  cells : Vector Word 16
  flags : Flags
  deriving DecidableEq

namespace Registers

/-- All registers are zero, and every predicate but `NEVER` is met. -/
def initial : Registers := ⟨Vector.replicate 16 0, .always⟩

def get (r : Registers) (reg : Byte) : Word :=
  if reg = Register.zero then 0 else r.cells[reg.toNat % 16]

def set (r : Registers) (reg : Byte) (value : Word) : Registers :=
  if reg = Register.zero then r
  else { r with cells := r.cells.set (reg.toNat % 16) value }

/-- The program counter. -/
def pc (r : Registers) : Word := r.cells[15]

def jump (r : Registers) (address : Word) : Registers :=
  { r with cells := r.cells.set 15 address }

/-- The address of the next instruction. -/
def next (r : Registers) : Word := Word.sum r.pc 1

def advance (r : Registers) : Registers := r.jump r.next

/-- The words as they read, `r0` first. -/
def snapshot (r : Registers) : Vector Word 16 := r.cells.set 0 0

/-- Numbers that count alike name one register. -/
theorem get_set {r : Registers} {a b : Byte} (ha : a ≠ Register.zero) (hb : b ≠ Register.zero)
    (value : Word) :
    (r.set a value).get b = if a.toNat % 16 = b.toNat % 16 then value else r.get b := by
  rw [get, if_neg hb, get, if_neg hb, set, if_neg ha]
  exact Vector.getElem_set (Nat.mod_lt _ (by decide)) (Nat.mod_lt _ (by decide))

@[simp] theorem get_zero (r : Registers) : r.get Register.zero = 0 := if_pos rfl

@[simp] theorem pc_jump (r : Registers) (address : Word) : (r.jump address).pc = address :=
  Vector.getElem_set_self ..

@[simp] theorem flags_jump (r : Registers) (address : Word) :
    (r.jump address).flags = r.flags := rfl

@[simp] theorem flags_set (r : Registers) (reg : Byte) (value : Word) :
    (r.set reg value).flags = r.flags := by
  unfold set
  split <;> rfl

end Registers
end DM2022
