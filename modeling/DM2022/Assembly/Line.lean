import DM2022.Assembly.Problem
import DM2022.Assembly.Statement
import DM2022.Text.Blank

/-!
# Reading a line

A line holds an optional `label:`, then an instruction or a directive, then an optional
comment. An instruction is written in full, as `OP rT,rS1,rS2[disp]`, or with a label
for its last operands; `JUMP label` stands for an addition to the program counter.
-/
namespace DM2022.Assembly

/-- An ASCII letter or an underscore, then ASCII letters, digits and underscores. -/
def isIdentifier : List Char → Bool
  | [] => false
  | c :: rest => (c.isAlpha || c == '_') && rest.all fun c => c.isAlphanum || c == '_'

/-- A label is an identifier that names no register. -/
def isLabel (name : List Char) : Bool :=
  isIdentifier name && (Register.ofName? name).isNone

/-- The label before the first colon, if there is a colon, and the code after it. -/
def splitLabel (code : List Char) : Except Malformation (Option String × List Char) :=
  match Text.cut? ':' code with
  | none => .ok (none, code)
  | some (before, after) =>
      let name := Text.trim before
      if isLabel name then .ok (some (String.ofList name), Text.trim after)
      else .error (.invalidLabel (String.ofList name))

def readRegister (operand : List Char) : Except Problem Byte :=
  (lookupRegister operand).mapError fun e => .malformed (.unknownName e)

def readLabelRef (operand : List Char) : Except Problem LabelRef :=
  let (name, mode) := match operand with
    | '@' :: name => (name, Addressing.absolute)
    | name => (name, Addressing.relative)
  if isLabel name then .ok ⟨String.ofList name, mode, none⟩
  else .error (.malformed (.notLabel (String.ofList operand)))

def stripBracket? (text : List Char) : Option (List Char) :=
  if text.getLast? = some ']' then some text.dropLast else none

/-- Reads `rS2[disp]`, or `rS2` for no displacement. -/
def readDisplaced (operand : List Char) : Except Problem (Byte × Word) :=
  match Text.cut? '[' operand with
  | none => do return (← readRegister operand, 0)
  | some (name, rest) =>
      match stripBracket? rest with
      | none => .error (.malformed (.unclosedDisplacement (String.ofList operand)))
      | some displacement => do
          let reg ← readRegister name
          match Text.literal? displacement with
          | none => .error (.malformed (.badDisplacement (String.ofList displacement)))
          | some value => match signedWord? value with
            | none => .error (.valueOutOfRange value)
            | some word => .ok (reg, word)

def readOperands (op : Opcode) (cond : Flags) (text : List Char)
    (operands : List (List Char)) : Except Problem Body :=
  match op, operands with
  | .halt, [] => .ok (.instruction ⟨.halt, cond, 0, 0, 0, 0⟩ none)
  | .jump, [label] => do
      let ref ← readLabelRef label
      match ref.mode with
      | .relative =>
          return .instruction ⟨.add, cond, Register.pc, Register.zero, Register.pc, 0⟩ (some ref)
      | .absolute =>
          return .instruction ⟨.jump, cond, Register.zero, Register.zero, Register.zero, 0⟩
            (some ref)
  | .jump, [_, _] => .error (.malformed (.jumpOperands (String.ofList text)))
  | _, [target, label] => do
      let target ← readRegister target
      let ref ← readLabelRef label
      let base := match ref.mode with
        | .relative => Register.pc
        | .absolute => Register.zero
      return .instruction ⟨op, cond, target, Register.zero, base, 0⟩ (some ref)
  | _, [target, src1, src2] => do
      let target ← readRegister target
      let src1 ← readRegister src1
      let (src2, offset) ← readDisplaced src2
      return .instruction ⟨op, cond, target, src1, src2, offset⟩ none
  | _, _ => .error (.malformed (.badOperands op (String.ofList text)))

def readValue (item : List Char) : Except Problem Word :=
  match Text.literal? item with
  | none => .error (.malformed (.badValue (String.ofList item)))
  | some value => match eitherWord? value with
    | none => .error (.valueOutOfRange value)
    | some word => .ok word

def readData (operands : List Char) : Except Problem Body :=
  if operands = [] then .error (.malformed .noData)
  else do return .data (← ((Text.pieces ',' operands).map Text.trim).mapM readValue)

def readReserve (operands : List Char) : Except Problem Body :=
  match Text.literal? operands with
  | none => .error (.malformed (.badCount (String.ofList operands)))
  | some value =>
      if 0 ≤ value ∧ value ≤ addressLimit then .ok (.reserve value.toNat)
      else .error (.valueOutOfRange value)

/-- The predicate after the slash; no slash stands for `ALWAYS`. -/
def readPredicate : Option (List Char) → Except Problem Flags
  | none => .ok .always
  | some text => (lookupPredicate text).mapError fun e => .malformed (.unknownName e)

def splitWord (code : List Char) : List Char × List Char :=
  (code.takeWhile (!Text.isBlank ·), Text.trim (code.dropWhile (!Text.isBlank ·)))

def splitPredicate (word : List Char) : List Char × Option (List Char) :=
  match Text.cut? '/' word with
  | none => (word, none)
  | some (name, predicate) => (name, some predicate)

def splitOperands (text : List Char) : List (List Char) :=
  let compact := Text.squeeze text
  if compact = [] then [] else Text.pieces ',' compact

def readBody (code : List Char) : Except Problem Body :=
  let (word, operands) := splitWord code
  let (name, predicate) := splitPredicate word
  if Text.upper name = "DATA".toList then
    if predicate.isSome then
      .error (.malformed (.predicateOnDirective (String.ofList name)))
    else readData operands
  else if Text.upper name = "RESERVE".toList then
    if predicate.isSome then
      .error (.malformed (.predicateOnDirective (String.ofList name)))
    else readReserve operands
  else match Opcode.ofMnemonic? name with
    | none => .error (.unknownMnemonic (String.ofList name))
    | some op => do
        let cond ← readPredicate predicate
        readOperands op cond operands (splitOperands operands)

/-- The code of a line: no comment, no blanks at the ends. -/
def lineCode (text : List Char) : List Char := Text.trim (Text.dropComment text)

def readLine (text : List Char) : Except Problem (Option String × Body) := do
  let (label, code) ← (splitLabel (lineCode text)).mapError .malformed
  if code = [] then return (label, .empty)
  else return (label, ← readBody code)

def Statement.read (text : List Char) (line : Nat) : Except AssemblyError Statement :=
  match readLine text with
  | .ok (label, body) => .ok ⟨line, label, body⟩
  | .error problem => .error ⟨line, problem⟩

end DM2022.Assembly
