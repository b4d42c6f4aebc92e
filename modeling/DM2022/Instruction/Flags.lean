import DM2022.Word
import DM2022.Text.Line

/-!
# Condition flags

The condition code of the machine and the predicate of an instruction are both sets
of flags; the instruction is enabled when the two sets meet. A set read from a word
has the four named flags only, a set from elsewhere may have any eight bits.
-/
namespace DM2022

structure Flags where
  bits : Byte
  deriving DecidableEq

namespace Flags

/-- The last result was negative. -/
def minus : Flags := ⟨1⟩

/-- The last result was zero. -/
def zero : Flags := ⟨2⟩

/-- The last result was positive. -/
def plus : Flags := ⟨4⟩

/-- The last result did not fit a signed word. -/
def overflow : Flags := ⟨8⟩

def never : Flags := ⟨0⟩

def always : Flags := ⟨15⟩

def union (a b : Flags) : Flags := ⟨a.bits ||| b.bits⟩

def inter (a b : Flags) : Flags := ⟨a.bits &&& b.bits⟩

def meets (a b : Flags) : Bool := a.bits &&& b.bits != 0

/-- The first set has every flag of the second. -/
def contains (a b : Flags) : Bool := a.bits &&& b.bits == b.bits

def ofBits (bits : Byte) : Flags := ⟨bits &&& 15⟩

def letters : List (Flags × Char) := [(minus, 'M'), (zero, 'Z'), (plus, 'P'), (overflow, 'V')]

/-- The sign of a result, and whether the exact result was lost. -/
def ofResult (value : Word) (lost : Bool) : Flags :=
  let sign := if value.msb then minus else if value = 0 then zero else plus
  if lost then sign.union overflow else sign

/-- `ALWAYS`, `NEVER`, or the letters of the named flags. -/
def text (flags : Flags) : String :=
  if flags = always then "ALWAYS"
  else if flags = never then "NEVER"
  else String.ofList ((letters.filter fun (flag, _) => flags.contains flag).map Prod.snd)

def ofLetter? (c : Char) : Option Flags :=
  (letters.find? fun (_, letter) => letter == c).map Prod.fst

/-- The flags that a word over the letters names. -/
def ofLetters? : List Char → Option Flags
  | [] => some never
  | c :: rest => (ofLetter? c).bind fun flag => (ofLetters? rest).map flag.union

/-- Reads `ALWAYS`, `NEVER` or one or more flag letters, in any case. -/
def ofText? (text : List Char) : Option Flags :=
  let name := Text.upper text
  if name = "ALWAYS".toList then some always
  else if name = "NEVER".toList then some never
  else if name = [] then none
  else ofLetters? name

/-- Every set of the named flags is written as it is read. -/
theorem ofText?_text (bits : BitVec 4) :
    ofText? (text ⟨bits.setWidth 8⟩).toList = some ⟨bits.setWidth 8⟩ := by
  revert bits
  decide

end Flags
end DM2022
