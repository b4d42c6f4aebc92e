import DM2022.Assembly.Line

/-!
# Reading a source

Each line gives a statement or an error, and a line in error still defines its label.
-/
namespace DM2022.Assembly

/-- The statements and the errors of a source, in the order of the lines. -/
structure Source where
  statements : List Statement
  errors : List AssemblyError

namespace Source

/-- The lines with their numbers, from 1 on. -/
def numberedLines (text : List Char) : List (List Char × Nat) := (Text.lines text).zipIdx 1

/-- The statement of a line; a line in error that starts with a label keeps the label. -/
def statementOf? (text : List Char) (line : Nat) : Option Statement :=
  match Statement.read text line with
  | .ok statement => some statement
  | .error _ => match splitLabel (lineCode text) with
    | .ok (some label, _) => some ⟨line, some label, .empty⟩
    | _ => none

def errorOf? (text : List Char) (line : Nat) : Option AssemblyError :=
  failure? (Statement.read text line)

def read (text : List Char) : Source :=
  let lines := numberedLines text
  ⟨lines.filterMap fun (text, line) => statementOf? text line,
    lines.filterMap fun (text, line) => errorOf? text line⟩

end Source
end DM2022.Assembly
