/-!
# Machine words

The machine computes with 32-bit words. Memory shows a word as an unsigned number,
registers show it in two's complement; arithmetic wraps in either reading. What every
cycle needs is computed on integers of the processor.
-/
namespace DM2022

/-- A 32-bit machine word. -/
abbrev Word := BitVec 32

/-- An opcode, a predicate or a register number as an instruction record holds it. -/
abbrev Byte := BitVec 8

/-- A 64-bit number of words or of cycles. -/
abbrev Count := BitVec 64

namespace Word

def sum (a b : Word) : Word := (UInt32.ofBitVec a + UInt32.ofBitVec b).toBitVec

def difference (a b : Word) : Word := (UInt32.ofBitVec a - UInt32.ofBitVec b).toBitVec

/-- The word of a number modulo `2 ^ 32`. -/
def wrap (n : Nat) : Word := (UInt32.ofNat n).toBitVec

@[simp] theorem sum_eq (a b : Word) : sum a b = a + b := rfl

@[simp] theorem difference_eq (a b : Word) : difference a b = a - b := rfl

@[simp] theorem wrap_eq (n : Nat) : wrap n = BitVec.ofNat 32 n := rfl

end Word

/-- The byte of a number modulo `2 ^ 8`. -/
def Byte.wrap (n : Nat) : Byte := (UInt8.ofNat n).toBitVec

@[simp] theorem Byte.wrap_eq (n : Nat) : Byte.wrap n = BitVec.ofNat 8 n := rfl

def Count.succ (n : Count) : Count := (UInt64.ofBitVec n + 1).toBitVec

@[simp] theorem Count.succ_eq (n : Count) : Count.succ n = n + 1 := rfl

/-- The sum of two numbers, unless it has more bits than they have. -/
def sum? {bits : Nat} (a b : BitVec bits) : Option (BitVec bits) :=
  if BitVec.uaddOverflow a b then none else some (a + b)

/-- The word that reads as `value` in two's complement. -/
def signedWord? (value : Int) : Option Word :=
  if -0x80000000 ≤ value ∧ value ≤ 0x7fffffff then some (.ofInt 32 value) else none

/-- The word that reads as `value` in two's complement or as an unsigned number. -/
def eitherWord? (value : Int) : Option Word :=
  if -0x80000000 ≤ value ∧ value ≤ 0xffffffff then some (.ofInt 32 value) else none

theorem signedWord?_eq_some_iff {v : Int} {word : Word} :
    signedWord? v = some word ↔ v = word.toInt := by
  rw [signedWord?, Option.ite_none_right_eq_some, Option.some.injEq]
  constructor
  · rintro ⟨hrange, rfl⟩
    rw [BitVec.toInt_ofInt, Int.bmod_eq_of_le] <;> omega
  · rintro rfl
    have hl := word.le_toInt
    have hu := word.toInt_lt
    exact ⟨by omega, BitVec.ofInt_toInt⟩

theorem signedWord?_eq_none_iff {v : Int} :
    signedWord? v = none ↔ ¬(-0x80000000 ≤ v ∧ v ≤ 0x7fffffff) := by
  rw [signedWord?, ite_eq_right_iff]
  simp

theorem eitherWord?_eq_none_iff {v : Int} :
    eitherWord? v = none ↔ ¬(-0x80000000 ≤ v ∧ v ≤ 0xffffffff) := by
  rw [eitherWord?, ite_eq_right_iff]
  simp

/-- Addresses are the non-negative signed words, so an image ends at this address at most. -/
def addressLimit : Nat := 0x7fffffff

/-- Addresses are words. -/
theorem toNat_address {n : Nat} (h : n ≤ addressLimit) : (BitVec.ofNat 32 n).toNat = n := by
  have hrange : addressLimit = 2147483647 := rfl
  rw [BitVec.toNat_ofNat]
  omega

end DM2022
