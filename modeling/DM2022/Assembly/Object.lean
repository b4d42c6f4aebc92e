import DM2022.Text.Blank
import DM2022.Text.Line
import DM2022.Text.Numeral
import DM2022.Word

/-!
# Object text

An image as text: a word a line, in decimal and signed. The reader also takes unsigned
numbers, comments and blank lines.
-/
namespace DM2022.Assembly

inductive ObjectProblem where
  | notDecimal (code : String)
  | tooLarge (value : Int)
  deriving DecidableEq

/-- The first line of an object text that is no word. -/
structure ObjectError where
  line : Nat
  problem : ObjectProblem
  deriving DecidableEq

def ObjectProblem.message : ObjectProblem → String
  | .notDecimal code => "expected a decimal word, found `" ++ code ++ "`"
  | .tooLarge value => Text.integerText value ++ " does not fit in 32 bits"

def ObjectError.message (e : ObjectError) : String :=
  "parse error on line " ++ Text.naturalText e.line ++ ": " ++ e.problem.message

namespace Object

/-- The word of a line, if the line is not blank. -/
def readLine (text : List Char) : Except ObjectProblem (Option Word) :=
  let code := Text.trim (Text.dropComment text)
  if code = [] then .ok none
  else match Text.integer? code with
    | none => .error (.notDecimal (String.ofList code))
    | some value => match eitherWord? value with
      | none => .error (.tooLarge value)
      | some word => .ok (some word)

/-- The words of lines that are numbered from `line` on. -/
def readLines (line : Nat) : List (List Char) → Except ObjectError (List Word)
  | [] => .ok []
  | text :: rest => match readLine text with
    | .error problem => .error ⟨line, problem⟩
    | .ok word => (readLines (line + 1) rest).map (word.toList ++ ·)

def read (text : List Char) : Except ObjectError (List Word) := readLines 1 (Text.lines text)

def text (words : List Word) : String :=
  "# Duck Machine object file\n# " ++ Text.naturalText words.length ++ " words\n" ++
    String.join (words.map fun word => Text.integerText word.toInt ++ "\n")

end Object
end DM2022.Assembly
