import DM2022.Json.Value

/-!
# Writing JSON

The compact form has no blanks; the indented form puts each item and member on a line
of its own, two more blanks to the right than its container.
-/
namespace DM2022.Json.Value

mutual

/-- The tokens of a value. -/
def tokens : Value → List Token
  | .null => [.null]
  | .bool b => [.bool b]
  | .integer n => [.integer n]
  | .real => [.real]
  | .string s => [.string s]
  | .array [] => [.openArray, .closeArray]
  | .array (item :: rest) => .openArray :: (item.tokens ++ itemTokens rest)
  | .object [] => [.openObject, .closeObject]
  | .object ((key, value) :: rest) =>
      .openObject :: .string key :: .colon :: (value.tokens ++ memberTokens rest)

/-- The tokens after the first item of an array. -/
def itemTokens : List Value → List Token
  | [] => [.closeArray]
  | item :: rest => .comma :: (item.tokens ++ itemTokens rest)

/-- The tokens after the first member of an object. -/
def memberTokens : List (Option String × Value) → List Token
  | [] => [.closeObject]
  | (key, value) :: rest =>
      .comma :: .string key :: .colon :: (value.tokens ++ memberTokens rest)

end

def compact (v : Value) : String := String.join (v.tokens.map Token.text)

/-- The start of a line `depth` containers deep. -/
def newLine (depth : Nat) : String := String.ofList ('\n' :: List.replicate (2 * depth) ' ')

mutual

/-- The indented form of a value that stands `depth` containers deep. -/
def indentedAt (depth : Nat) : Value → String
  | .null => Token.text .null
  | .bool b => Token.text (.bool b)
  | .integer n => Token.text (.integer n)
  | .real => Token.text .real
  | .string s => stringText s
  | .array [] => "[]"
  | .array (item :: rest) =>
      "[" ++ newLine (depth + 1) ++ item.indentedAt (depth + 1) ++ indentedItems depth rest ++
        newLine depth ++ "]"
  | .object [] => "\x7b\x7d"
  | .object ((key, value) :: rest) =>
      "\x7b" ++ newLine (depth + 1) ++ stringText key ++ ": " ++ value.indentedAt (depth + 1) ++
        indentedMembers depth rest ++ newLine depth ++ "\x7d"

def indentedItems (depth : Nat) : List Value → String
  | [] => ""
  | item :: rest =>
      "," ++ newLine (depth + 1) ++ item.indentedAt (depth + 1) ++ indentedItems depth rest

def indentedMembers (depth : Nat) : List (Option String × Value) → String
  | [] => ""
  | (key, value) :: rest =>
      "," ++ newLine (depth + 1) ++ stringText key ++ ": " ++ value.indentedAt (depth + 1) ++
        indentedMembers depth rest

end

def indented (v : Value) : String := v.indentedAt 0

end DM2022.Json.Value
