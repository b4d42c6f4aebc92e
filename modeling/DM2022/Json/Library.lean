import DM2022.Json.Reader
import DM2022.Json.Schema
import DM2022.Json.Writer

/-!
# Libraries

A library reads and writes the values of declared types. The standard one goes by way of JSON
values.
-/
namespace DM2022.Json

structure Library where
  read : {α : Type} → Schema .type α → List Char → Except String α
  write : {α : Type} → Schema .type α → α → String
  writeIndented : {α : Type} → Schema .type α → α → String

/-- Some value starts with the character. -/
def startsValue (c : Char) : Bool := c.isDigit || "[\x7b\"ntf-".toList.contains c

/-- What is said of a text that cannot be read, as far as its first character tells. -/
def complaint (text : List Char) : String :=
  let blanks := text.takeWhile isSpace
  let column := (blanks.reverse.takeWhile (· != '\n')).length
  let place (column : Nat) := " at line " ++ Text.naturalText (blanks.count '\n' + 1) ++
    " column " ++ Text.naturalText column
  match text.dropWhile isSpace with
  | [] => "EOF while parsing a value" ++ place column
  | c :: _ =>
      (if startsValue c then "unexpected value" else "expected value") ++ place (column + 1)

def Library.standard : Library where
  read s text := match (read? text).bind s.read? with
    | none => .error (complaint text)
    | some a => .ok a
  write s a := Value.compact (s.write a)
  writeIndented s a := Value.indented (s.write a)

end DM2022.Json
