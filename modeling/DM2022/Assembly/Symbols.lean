import DM2022.Assembly.Problem
import DM2022.Assembly.Statement
import Std.Data.ExtTreeMap.Lemmas

/-!
# Layout and symbols

Statements occupy memory one after the other. A label names the address of its own
statement, so on a line of its own that of the next statement that occupies memory.
-/
namespace DM2022.Assembly

/-- The address of each statement, from `origin` on; the first statement that ends past
the address range is an error. -/
def addresses (origin : Nat) : List Statement → Except AssemblyError (List Nat)
  | [] => .ok []
  | s :: rest =>
      let stop := origin + s.size
      if addressLimit < stop then .error ⟨s.line, .imageTooLarge stop⟩
      else (addresses stop rest).map (origin :: ·)

theorem length_addresses {origin : Nat} {statements : List Statement} {layout : List Nat}
    (h : addresses origin statements = .ok layout) : layout.length = statements.length := by
  induction statements generalizing origin layout with
  | nil => cases h; rfl
  | cons s rest ih =>
    rw [addresses] at h
    split at h
    · cases h
    · cases hr : addresses (origin + s.size) rest with
      | error e => rw [hr] at h; cases h
      | ok layout => rw [hr] at h; cases h; simp [ih hr]

/-- The address of a label and the line that defines it. -/
structure Symbol where
  address : Nat
  line : Nat
  deriving DecidableEq

/-- The symbols by the names of their labels. -/
structure SymbolTable where
  symbols : Std.ExtTreeMap String Symbol
  deriving DecidableEq

namespace SymbolTable

def empty : SymbolTable := ⟨∅⟩

def find? (table : SymbolTable) (name : String) : Option Symbol := table.symbols[name]?

def address? (table : SymbolTable) (name : String) : Option Nat :=
  (table.find? name).map (·.address)

def insert (table : SymbolTable) (name : String) (symbol : Symbol) : SymbolTable :=
  ⟨table.symbols.insert name symbol⟩

def size (table : SymbolTable) : Nat := table.symbols.size

/-- The symbols in the order of their names. -/
def toList (table : SymbolTable) : List (String × Symbol) := table.symbols.toList

@[simp] theorem find?_empty (name : String) : empty.find? name = none :=
  Std.ExtTreeMap.getElem?_empty

theorem find?_insert (table : SymbolTable) (label : String) (symbol : Symbol) (name : String) :
    (table.insert label symbol).find? name =
      if label = name then some symbol else table.find? name := by
  simp only [insert, find?, Std.ExtTreeMap.getElem?_insert, Std.LawfulEqCmp.compare_eq_iff_eq]

/-- Adds the labels of statements with their addresses. The first definition of a label
counts, each later one is an error. -/
def define (table : SymbolTable) :
    List (Statement × Nat) → SymbolTable × List AssemblyError
  | [] => (table, [])
  | (s, address) :: rest =>
      match s.label with
      | none => table.define rest
      | some label => match table.find? label with
        | none => (table.insert label ⟨address, s.line⟩).define rest
        | some first =>
            let (table, errors) := table.define rest
            (table, ⟨s.line, .duplicateLabel label first.line⟩ :: errors)

/-- The labels of statements that start at `origin`; none if the layout fails. -/
def ofStatements (statements : List Statement) (origin : Nat) :
    SymbolTable × List AssemblyError :=
  match addresses origin statements with
  | .error e => (empty, [e])
  | .ok layout => empty.define (statements.zip layout)

end SymbolTable
end DM2022.Assembly
