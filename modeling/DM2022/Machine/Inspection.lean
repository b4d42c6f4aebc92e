import DM2022.Machine.Execution

/-!
# Inspection

One-line descriptions of states and machines, as error messages and monitors show them.
-/
namespace DM2022

/-- A name with its fields between braces. -/
def recordText (name : String) (fields : List (String × String)) : String :=
  name ++ " \x7b " ++ ", ".intercalate (fields.map fun (field, value) => field ++ ": " ++ value) ++
    " \x7d"

def FaultKind.description : FaultKind → String
  | .addressOutOfRange address size =>
      recordText "AddressOutOfRange"
        [("addr", Text.integerText address.toInt), ("size", Text.naturalText size.toNat)]
  | .divideByZero => "DivideByZero"
  | .illegalOpcode code => "IllegalOpcode(" ++ Text.naturalText code.toNat ++ ")"
  | .badTrap code => "BadTrap(" ++ Text.integerText code.toInt ++ ")"
  | .badShift count => "BadShift(" ++ Text.integerText count.toInt ++ ")"
  | .cycleBudgetExceeded limit =>
      recordText "CycleBudgetExceeded" [("limit", Text.naturalText limit.toNat)]

def State.description : State → String
  | .running => "Running"
  | .halted => "Halted"
  | .faulted fault =>
      "Faulted(" ++ recordText "Fault"
        [("pc", Text.integerText fault.pc.toInt), ("kind", fault.kind.description)] ++ ")"

def RunError.message : RunError → String
  | .notRunning state => "CPU not running: " ++ state.description
  | .fault f => f.message

/-- The number of cells that are not zero, and of all cells. -/
def Memory.description (m : Memory) : String :=
  recordText "Memory"
    [("non_zero_cells", Text.naturalText (m.words.size)),
      ("total_cells", Text.naturalText m.size)]

def Flags.description (flags : Flags) : String := "CondFlag(" ++ flags.text ++ ")"

def Registers.description (r : Registers) : String :=
  recordText "Registers"
    [("regs", "[" ++
        ", ".intercalate (r.cells.toList.map fun word => Text.integerText word.toInt) ++ "]"),
      ("flags", r.flags.description)]

def Machine.description (m : Machine) : String :=
  recordText "Cpu"
    [("state", m.state.description), ("cycles", Text.naturalText m.cycles.toNat),
      ("regs", m.regs.description)]

end DM2022
