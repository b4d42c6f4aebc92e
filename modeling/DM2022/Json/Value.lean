import DM2022.Text.Numeral

/-!
# JSON values and tokens

A value keeps what a reader can ask for. Numbers that are not written as integers are
one value, and so are strings with an escape that denotes no character: neither can be
read as anything, and each has a written form of its own. Tokens are the words of the
text between the blanks.
-/
namespace DM2022.Json

inductive Value where
  | null
  | bool (b : Bool)
  | integer (n : Int)
  | real
  | string (text : Option String)
  | array (items : List Value)
  | object (members : List (Option String × Value))

inductive Token where
  | openArray | closeArray | openObject | closeObject | comma | colon
  | null
  | bool (b : Bool)
  | integer (n : Int)
  | real
  | string (text : Option String)
  deriving DecidableEq

/-- A string that denotes a text. -/
def text (s : String) : Value := .string (some s)

/-- An object whose keys denote texts. -/
def record (fields : List (String × Value)) : Value :=
  .object (fields.map fun (key, value) => (some key, value))

/-- A character within quotes: quotes, backslashes and control characters are escaped. -/
def escape (c : Char) : List Char :=
  match c with
  | '"' => ['\\', '"']
  | '\\' => ['\\', '\\']
  | '\x08' => ['\\', 'b']
  | '\x0c' => ['\\', 'f']
  | '\n' => ['\\', 'n']
  | '\r' => ['\\', 'r']
  | '\t' => ['\\', 't']
  | c => if c.toNat < 0x20 then '\\' :: 'u' :: (Nat.toDigits 16 c.toNat).leftpad 4 '0' else [c]

def quoted (s : String) : String :=
  String.ofList ('"' :: (s.toList.flatMap escape ++ ['"']))

/-- A lone surrogate stands for the strings that denote no text. -/
def stringText : Option String → String
  | some s => quoted s
  | none => "\"\\ud800\""

def Token.text : Token → String
  | .openArray => "["
  | .closeArray => "]"
  | .openObject => "\x7b"
  | .closeObject => "\x7d"
  | .comma => ","
  | .colon => ":"
  | .null => "null"
  | .bool b => if b then "true" else "false"
  | .integer n => Text.integerText n
  | .real => "0.5"
  | .string s => stringText s

end DM2022.Json
