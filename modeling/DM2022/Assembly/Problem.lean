import DM2022.Instruction.Encoding
import DM2022.Instruction.Name

/-!
# Problems of a source

Why a line cannot be read, a label not resolved or a statement not encoded, each with
the line that shows it.
-/
namespace DM2022.Assembly

/-- Why a line is no statement. -/
inductive Malformation where
  | invalidLabel (name : String)
  | predicateOnDirective (directive : String)
  | noData
  | badValue (item : String)
  | badCount (operands : String)
  | unknownName (cause : NameError)
  | notLabel (operand : String)
  | unclosedDisplacement (operand : String)
  | badDisplacement (displacement : String)
  | jumpOperands (operands : String)
  | badOperands (op : Opcode) (operands : String)
  deriving DecidableEq

inductive Problem where
  | malformed (cause : Malformation)
  | unknownMnemonic (mnemonic : String)
  | duplicateLabel (label : String) (firstLine : Nat)
  | undefinedLabel (label : String)
  | encoding (cause : EncodeError)
  | valueOutOfRange (value : Int)
  | imageTooLarge (stop : Nat)
  deriving DecidableEq

structure AssemblyError where
  line : Nat
  problem : Problem
  deriving DecidableEq

/-- A text between grave accents. -/
def inAccents (text : String) : String := "`" ++ text ++ "`"

def Malformation.message : Malformation → String
  | .invalidLabel name => "invalid label " ++ inAccents name
  | .predicateOnDirective directive => directive ++ " takes no predicate"
  | .noData => "DATA needs at least one value"
  | .badValue item => "bad value " ++ inAccents item
  | .badCount operands => "RESERVE needs a word count, got " ++ inAccents operands
  | .unknownName cause => cause.message
  | .notLabel operand => "expected a label, got " ++ inAccents operand
  | .unclosedDisplacement operand => "unclosed displacement in " ++ inAccents operand
  | .badDisplacement displacement => "bad displacement " ++ inAccents displacement
  | .jumpOperands operands =>
      "JUMP takes a single label operand, got " ++ inAccents operands
  | .badOperands op operands =>
      "malformed operands for " ++ op.text ++ ": " ++ inAccents operands

namespace AssemblyError

def message (e : AssemblyError) : String :=
  let line := Text.naturalText e.line
  match e.problem with
  | .malformed cause => "syntax error on line " ++ line ++ ": " ++ cause.message
  | .unknownMnemonic mnemonic => "unknown mnemonic on line " ++ line ++ ": " ++ mnemonic
  | .duplicateLabel label firstLine =>
      "duplicate label on line " ++ line ++ ": " ++ label ++ " (first defined on line " ++
        Text.naturalText firstLine ++ ")"
  | .undefinedLabel label => "undefined label on line " ++ line ++ ": " ++ label
  | .encoding cause => "cannot encode line " ++ line ++ ": " ++ cause.message
  | .valueOutOfRange value =>
      "value out of range on line " ++ line ++ ": " ++ Text.integerText value
  | .imageTooLarge stop =>
      "program runs past the address space on line " ++ line ++ " (would end at " ++
        Text.naturalText stop ++ ")"

/-- The messages of all errors, one a line. -/
def report (errors : List AssemblyError) : String :=
  "\n".intercalate (errors.map message)

end AssemblyError

/-- The error of a result, if it is one. -/
def failure? {α ε : Type} : Except ε α → Option ε
  | .ok _ => none
  | .error e => some e

end DM2022.Assembly
