import DM2022.Assembly.Source
import DM2022.Assembly.Symbols

/-!
# Resolution

Label operands become offsets: a relative one counts from the address after its
instruction, an absolute one is the address of the label. Statements whose label is
not defined stay as they are, and all errors are reported.
-/
namespace DM2022.Assembly

def Addressing.offset (mode : Addressing) (target address : Nat) : Int :=
  match mode with
  | .relative => target - (address + 1)
  | .absolute => target

namespace Statement

def resolve (table : SymbolTable) (s : Statement) (address : Nat) :
    Except AssemblyError Statement :=
  match s.body with
  | .instruction instr (some ref) =>
      match table.address? ref.name with
      | none => .error ⟨s.line, .undefinedLabel ref.name⟩
      | some target =>
          let offset := ref.mode.offset target address
          match signedWord? offset with
          | none => .error ⟨s.line, .valueOutOfRange offset⟩
          | some word => .ok { s with
              body := .instruction { instr with offset := word }
                (some { ref with target := some target }) }
  | _ => .ok s

end Statement

/-- Resolves each label operand by `table`, with the statements from `origin` on. A
statement in error stays as it is; if the layout fails, all of them do. -/
def fixOperands (statements : List Statement) (table : SymbolTable) (origin : Nat) :
    List Statement × List AssemblyError :=
  match addresses origin statements with
  | .error e => (statements, [e])
  | .ok layout =>
      let resolved := (statements.zip layout).map fun (s, address) =>
        (s, s.resolve table address)
      (resolved.map fun (s, r) => r.toOption.getD s, resolved.filterMap fun (_, r) => failure? r)

structure Resolution where
  statements : List Statement
  symbols : SymbolTable
  errors : List AssemblyError

def Problem.isLayout : Problem → Bool
  | .imageTooLarge _ => true
  | _ => false

/-- Collects the labels of the statements, then resolves the operands, unless the
statements do not fit the address range. -/
def resolve (statements : List Statement) (origin : Nat) : Resolution :=
  let (table, errors) := SymbolTable.ofStatements statements origin
  if errors.any (·.problem.isLayout) then ⟨statements, table, errors⟩
  else
    let (fixed, more) := fixOperands statements table origin
    ⟨fixed, table, errors ++ more⟩

/-- Reads and resolves a source. Errors of lines and of labels are reported together,
by line. -/
def resolveSource (text : List Char) (origin : Nat) :
    Except (List AssemblyError) (List Statement × SymbolTable) :=
  let source := Source.read text
  let resolution := resolve source.statements origin
  if resolution.errors = [] then
    if source.errors = [] then .ok (resolution.statements, resolution.symbols)
    else .error source.errors
  else .error ((source.errors ++ resolution.errors).mergeSort fun a b => decide (a.line ≤ b.line))

end DM2022.Assembly
