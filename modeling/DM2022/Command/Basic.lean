import DM2022.Command.Arguments

/-!
# Commands

The commands and their options, read from the arguments.
-/
namespace DM2022

inductive Command where
  | run (program : String) (config : Option String) (maxCycles : Option Nat) (dump : Bool)
  | assemble (source : String) (output : Option String) (origin : Nat)
  | resolve (source : String) (origin : Nat)
  | disassemble (object : String) (origin : Nat)
  deriving DecidableEq

namespace Command

def isPath (value : List Char) : Bool := value != []

/-- A number of cycles: decimal digits after an optional plus sign. -/
def cycleCount? (value : List Char) : Option Nat :=
  let digits := match value with
    | '+' :: digits => digits
    | digits => digits
  (Text.natural? digits).bind fun n => if n ≤ 0xffffffffffffffff then some n else none

/-- An address: a decimal integer that is an unsigned word. -/
def origin? (value : List Char) : Option Nat :=
  (Text.integer? value).bind fun n => if 0 ≤ n ∧ n ≤ 0xffffffff then some n.toNat else none

def commonOptions : List OptionSpec :=
  [⟨"verbose", some 'v', .counter⟩, ⟨"help", some 'h', .stop .help⟩]

def topOptions : List OptionSpec := ⟨"version", some 'V', .stop .version⟩ :: commonOptions

def originOption : OptionSpec := ⟨"origin", none, .value fun value => (origin? value).isSome⟩

def runOptions : List OptionSpec :=
  [⟨"config", some 'c', .value isPath⟩,
    ⟨"max-cycles", some 'm', .value fun value => (cycleCount? value).isSome⟩,
    ⟨"trace", some 't', .switch⟩,
    ⟨"dump-state", none, .switch⟩] ++ commonOptions

def assembleOptions : List OptionSpec :=
  ⟨"output", some 'o', .value isPath⟩ :: originOption :: commonOptions

def originOptions : List OptionSpec := originOption :: commonOptions

/-- Reads the arguments of a command that works on one file. -/
def readFileArguments (specs : List OptionSpec) (args : List (List Char)) :
    Except Refusal (String × Arguments) := do
  let args ← readArguments specs 1 ⟨[], []⟩ none args
  match args.operands with
  | [path] => return (String.ofList path, args)
  | _ => .error .usage

def originOf (args : Arguments) : Nat := ((args.value? "origin").bind origin?).getD 0

def pathOf? (args : Arguments) (name : String) : Option String :=
  (args.value? name).map String.ofList

def names : List String := ["run", "asm", "resolve", "disasm", "help"]

/-- Help on the commands or on one of them. -/
def readHelp : List (List Char) → Refusal
  | [] => .help
  | [name] => if (names.map String.toList).contains name then .help else .usage
  | _ => .usage

def ofArguments (args : List String) : Except Refusal Command := do
  let (name, rest) ← readCommandName topOptions (args.map String.toList)
  match String.ofList name with
  | "run" =>
      let (path, args) ← readFileArguments runOptions rest
      return .run path (pathOf? args "config") ((args.value? "max-cycles").bind cycleCount?)
        (args.isSet "dump-state")
  | "asm" =>
      let (path, args) ← readFileArguments assembleOptions rest
      return .assemble path (pathOf? args "output") (originOf args)
  | "resolve" =>
      let (path, args) ← readFileArguments originOptions rest
      return .resolve path (originOf args)
  | "disasm" =>
      let (path, args) ← readFileArguments originOptions rest
      return .disassemble path (originOf args)
  | "help" => .error (readHelp rest)
  | _ => .error .usage

end Command
end DM2022
