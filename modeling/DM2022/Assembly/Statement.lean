import DM2022.Instruction.Basic

/-!
# Statements

What a source line says: an optional label, and an instruction, data words, reserved
words or nothing. An operand that names a label waits for the address of the label.
-/
namespace DM2022.Assembly

/-- How an operand uses the address of its label: `label` counts from the next
instruction, `@label` is the address itself. -/
inductive Addressing where
  | relative | absolute
  deriving DecidableEq

/-- A label operand, with the address of the label once that is known. -/
structure LabelRef where
  name : String
  mode : Addressing
  target : Option Nat
  deriving DecidableEq

inductive Body where
  | empty
  | instruction (instr : Instruction) (ref : Option LabelRef)
  | data (values : List Word)
  | reserve (count : Nat)
  deriving DecidableEq

structure Statement where
  line : Nat
  label : Option String
  body : Body
  deriving DecidableEq

/-- The number of words in the image. -/
def Body.length : Body → Nat
  | .empty => 0
  | .instruction _ _ => 1
  | .data values => values.length
  | .reserve count => count

/-- The number of words that the layout counts. It is a word, so that `2 ^ 32` data words do not
count. -/
def Body.size : Body → Nat
  | .data values => (Word.wrap values.length).toNat
  | body => body.length

def Body.text : Body → String
  | .empty => ""
  | .instruction instr none => instr.text
  | .instruction instr (some ref) => instr.text ++ " #" ++ ref.name
  | .data values => "DATA " ++ ",".intercalate (values.map fun v => Text.integerText v.toInt)
  | .reserve count => "RESERVE " ++ Text.naturalText count

namespace Statement

def length (s : Statement) : Nat := s.body.length

def size (s : Statement) : Nat := s.body.size

/-- The label with a colon, and the body after two blanks. -/
def text (s : Statement) : String :=
  match s.label with
  | none => s.body.text
  | some label => label ++ ":" ++ (if s.body = .empty then "" else "  ") ++ s.body.text

/-- The statement neither labels nor occupies a place. -/
def isBlank (s : Statement) : Bool := s.label.isNone && s.body = .empty

end Statement

/-- One line for each statement that is not blank, the unlabelled ones four blanks to
the right. -/
def listing (statements : List Statement) : String :=
  String.join ((statements.filter (!·.isBlank)).map fun s =>
    (if s.label.isSome then "" else "    ") ++ s.text ++ "\n")

end DM2022.Assembly
