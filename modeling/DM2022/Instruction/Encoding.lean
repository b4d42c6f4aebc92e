import DM2022.Instruction.Basic
import DM2022.Word.Field

/-!
# Instruction words

From high to low bits a word holds the opcode, the predicate, the target, the two
sources and the signed offset. Decoding reads every word; encoding refuses a record
with a field that does not fit.
-/
namespace DM2022

/-- The parts of an instruction word. -/
inductive Part where
  | opcode | predicate | target | src1 | src2 | offset
  deriving DecidableEq

namespace Part

/-- The parts from high to low bits. -/
def all : List Part := [.opcode, .predicate, .target, .src1, .src2, .offset]

def name : Part → String
  | .opcode => "opcode"
  | .predicate => "predicate"
  | .target => "target"
  | .src1 => "src1"
  | .src2 => "src2"
  | .offset => "offset"

def field : Part → Field
  | .opcode => { shift := 26, width := 6, signed := false }
  | .predicate => { shift := 22, width := 4, signed := false }
  | .target => { shift := 18, width := 4, signed := false }
  | .src1 => { shift := 14, width := 4, signed := false }
  | .src2 => { shift := 10, width := 4, signed := false }
  | .offset => { shift := 0, width := 10, signed := true }

end Part

inductive EncodeError where
  | field (part : Part) (cause : FieldError)
  | illegalOpcode (code : Byte)
  | unresolvedLabel (label : String)
  deriving DecidableEq

def EncodeError.message : EncodeError → String
  | .field part cause => part.name ++ " field: " ++ cause.message
  | .illegalOpcode code =>
      "opcode " ++ Text.naturalText code.toNat ++ " is not an assigned operation"
  | .unresolvedLabel label => "operand refers to unresolved label `" ++ label ++ "`"

namespace Instruction

/-- The number that the record has for a part of the word. -/
def value (i : Instruction) : Part → Int
  | .opcode => i.op.code.toNat
  | .predicate => i.cond.bits.toNat
  | .target => i.target.toNat
  | .src1 => i.src1.toNat
  | .src2 => i.src2.toNat
  | .offset => i.offset.toInt

/-- Writes one part of the record into `word`. -/
def insertPart (i : Instruction) (word : Word) (part : Part) : Except EncodeError Word :=
  (part.field.insert word (i.value part)).mapError (.field part)

def encode (i : Instruction) : Except EncodeError Word :=
  match i.op with
  | .illegal code => .error (.illegalOpcode code)
  | _ => Part.all.foldlM i.insertPart 0

def decode (word : Word) : Instruction :=
  let n := word.toNat
  let offset := n &&& 0x3ff
  { op := .ofCode (Byte.wrap (n >>> 26))
    cond := ⟨Byte.wrap (n >>> 22 &&& 0xf)⟩
    target := Byte.wrap (n >>> 18 &&& 0xf)
    src1 := Byte.wrap (n >>> 14 &&& 0xf)
    src2 := Byte.wrap (n >>> 10 &&& 0xf)
    offset := Word.wrap (if offset < 0x200 then offset else offset + 0xfffffc00) }

theorem toNat_wrap_and (n : Nat) : (Byte.wrap (n &&& 0xf)).toNat = n % 16 := by
  rw [Byte.wrap_eq, BitVec.toNat_ofNat, show (0xf : Nat) = 2 ^ 4 - 1 from rfl,
    Nat.and_two_pow_sub_one_eq_mod]
  omega

end Instruction
end DM2022
