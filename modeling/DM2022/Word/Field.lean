import DM2022.Text.Numeral
import DM2022.Word

/-!
# Bit fields of a word

A field is a run of bits within a word, read as an unsigned or a two's complement
number. Writing a field refuses a number outside its range, so nothing is cut off.
-/
namespace DM2022

/-- The run of `width` bits that starts at bit `shift`. -/
structure Field where
  shift : Nat
  width : Nat
  signed : Bool
  width_pos : 0 < width := by decide
  fits_word : shift + width ≤ 32 := by decide
  deriving DecidableEq

inductive FieldError where
  | outOfRange (value least greatest : Int)
  | invalidLayout (width shift : Nat)
  deriving DecidableEq

/-- Why two bit positions do not bound a field. -/
inductive SpanError where
  | empty | pastWord
  deriving DecidableEq

/-- A width that is not between 1 and 32. -/
inductive WidthError where
  | outOfRange
  deriving DecidableEq

def FieldError.message : FieldError → String
  | .outOfRange value least greatest =>
      "value " ++ Text.integerText value ++ " does not fit field range " ++
        Text.integerText least ++ "..=" ++ Text.integerText greatest
  | .invalidLayout width shift =>
      "invalid field layout: width " ++ Text.naturalText width ++ ", shift " ++
        Text.naturalText shift

def SpanError.message : SpanError → String
  | .empty => "bit field must not be empty"
  | .pastWord => "bit field must fit in a 32-bit word"

def WidthError.message : WidthError → String
  | .outOfRange => "sign_extend width out of range"

namespace Field

/-- The field from bit `first` to bit `last`, both included. -/
def span? (first last : Nat) (signed : Bool) : Except SpanError Field :=
  if h : first ≤ last then
    if h' : last < 32 then
      .ok ⟨first, last - first + 1, signed, by omega, by omega⟩
    else .error .pastWord
  else .error .empty

/-- Whether a field can have this width and this shift. Their sum is the last thing looked at: by
then both are small. There is no answer if it is no word. -/
def isLayout? (width shift : Word) : Option Bool :=
  if width = 0 ∨ 32 < width ∨ 32 ≤ shift then some false
  else (sum? width shift).map fun stop => decide (stop ≤ 32)

theorem isLayout?_eq (width shift : Word) : isLayout? width shift =
    some (decide (0 < width.toNat ∧ shift.toNat + width.toNat ≤ 32)) := by
  rw [isLayout?]
  split
  · next h =>
    have hnot : ¬(0 < width.toNat ∧ shift.toNat + width.toNat ≤ 32) := by bv_omega
    rw [decide_eq_false hnot]
  · next h =>
    have hsum : ¬BitVec.uaddOverflow width shift = true := by
      rw [BitVec.uaddOverflow, decide_eq_true_iff]
      bv_omega
    have hle : width + shift ≤ 32 ↔ 0 < width.toNat ∧ shift.toNat + width.toNat ≤ 32 := by
      bv_omega
    rw [sum?, if_neg hsum, Option.map_some, decide_eq_decide.2 hle]

theorem layout_of_isLayout? {width shift : Word} (h : isLayout? width shift = some true) :
    0 < width.toNat ∧ shift.toNat + width.toNat ≤ 32 := by
  rw [isLayout?_eq, Option.some.injEq, decide_eq_true_iff] at h
  exact h

/-- The field of a width and a shift. -/
def ofWidth? (width shift : Word) (signed : Bool) : Except FieldError Field :=
  if h : isLayout? width shift = some true then
    .ok ⟨shift.toNat, width.toNat, signed, (layout_of_isLayout? h).1, (layout_of_isLayout? h).2⟩
  else .error (.invalidLayout width.toNat shift.toNat)

/-- Ones in the low `width` bits. A word cannot be shifted by 32 bits. -/
def lowMask (width : Nat) : Word := if 32 ≤ width then 0xffffffff else 1#32 <<< width - 1

/-- The low `width` bits in two's complement, computed in 64 bits: they are `2 ^ width` too much if
the top one of them is set. -/
def signExtend (bits : Word) (width : Nat) : Int :=
  let low := (bits &&& lowMask width).setWidth 64
  let top := 1#64 <<< (width - 1)
  (if low &&& top ≠ 0 then low - 1#64 <<< width else low).toInt

def mask (f : Field) : Word := lowMask f.width

/-- Ones in the bits of the field. -/
def wordMask (f : Field) : Word := f.mask <<< f.shift

def least (f : Field) : Int := (if f.signed then -(1#64 <<< (f.width - 1)) else 0).toInt

def greatest (f : Field) : Int :=
  (if f.signed then 1#64 <<< (f.width - 1) - 1 else 1#64 <<< f.width - 1).toInt

/-- The field can hold `value`. -/
def Fits (f : Field) (value : Int) : Prop := f.least ≤ value ∧ value ≤ f.greatest

instance (f : Field) (value : Int) : Decidable (f.Fits value) :=
  inferInstanceAs (Decidable (_ ∧ _))

/-- The two fields share a bit. -/
def overlaps (f g : Field) : Bool := f.wordMask &&& g.wordMask != 0

/-- The bits of the field in `word`, shifted down. -/
def bits (f : Field) (word : Word) : Word := word >>> f.shift &&& f.mask

/-- The number that the field holds in `word`. -/
def extract (f : Field) (word : Word) : Int :=
  if f.signed then signExtend (f.bits word) f.width else (f.bits word).toNat

/-- The word with the number `value` in the field, if the field can hold it. The number has 64
bits. -/
def insert (f : Field) (word : Word) (value : Int) : Except FieldError Word :=
  if f.Fits value then
    let bits := (BitVec.ofInt 64 value &&& f.mask.setWidth 64).setWidth 32
    .ok (word &&& ~~~f.wordMask ||| bits <<< f.shift)
  else .error (.outOfRange value f.least f.greatest)

/-- How a listing of the layout names the field. -/
def description (f : Field) : String :=
  "BitField(" ++ Text.naturalText f.shift ++ "..=" ++
    Text.naturalText (f.shift + f.width - 1) ++ ", " ++
    (if f.signed then "signed" else "unsigned") ++ ")"

end Field

/-- Reads the low `width` bits in two's complement. -/
def signExtend? (bits : Word) (width : Nat) : Except WidthError Int :=
  if 1 ≤ width ∧ width ≤ 32 then .ok (Field.signExtend bits width) else .error .outOfRange

end DM2022
