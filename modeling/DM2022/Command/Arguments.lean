import DM2022.Text.Line
import DM2022.Text.Numeral

/-!
# Arguments

Options have a long name and mostly a short one; short ones can share a dash. A value
follows its option as the next argument, after an equals sign, or directly after a
short name. After `--` nothing is an option.
-/
namespace DM2022.Command

inductive Refusal where
  | usage | help | version
  deriving DecidableEq

/-- What an option does: it stops the reading, counts how often it stands, is set once,
or takes a value that `accepts` admits. -/
inductive OptionKind where
  | stop (refusal : Refusal)
  | counter
  | switch
  | value (accepts : List Char → Bool)

structure OptionSpec where
  long : String
  short : Option Char
  kind : OptionKind

structure Arguments where
  options : List (String × List Char)
  operands : List (List Char)

namespace Arguments

def isSet (args : Arguments) (name : String) : Bool := args.options.any (·.1 == name)

def value? (args : Arguments) (name : String) : Option (List Char) :=
  (args.options.find? (·.1 == name)).map Prod.snd

/-- Adds an option; only a counter may stand more than once. -/
def addOption (args : Arguments) (spec : OptionSpec) (value : List Char) :
    Except Refusal Arguments :=
  match spec.kind with
  | .stop refusal => .error refusal
  | .counter => .ok { args with options := (spec.long, value) :: args.options }
  | .switch =>
      if args.isSet spec.long then .error .usage
      else .ok { args with options := (spec.long, value) :: args.options }
  | .value accepts =>
      if args.isSet spec.long || !accepts value then .error .usage
      else .ok { args with options := (spec.long, value) :: args.options }

def addOperand (args : Arguments) (limit : Nat) (operand : List Char) :
    Except Refusal Arguments :=
  if args.operands.length < limit && operand != [] then
    .ok { args with operands := args.operands ++ [operand] }
  else .error .usage

end Arguments

def OptionSpec.takesValue (spec : OptionSpec) : Bool :=
  match spec.kind with
  | .value _ => true
  | _ => false

/-- Arguments, and the option that waits for its value in the next one. -/
abbrev Reading := Arguments × Option OptionSpec

/-- Reads a long option, given without its dashes. -/
def readLong (specs : List OptionSpec) (args : Arguments) (option : List Char) :
    Except Refusal Reading :=
  let (name, value) := match Text.cut? '=' option with
    | none => (option, none)
    | some (name, value) => (name, some value)
  match specs.find? fun spec => spec.long.toList == name with
  | none => .error .usage
  | some spec => match spec.takesValue, value with
    | true, none => .ok (args, some spec)
    | true, some value => do return (← args.addOption spec value, none)
    | false, none => do return (← args.addOption spec [], none)
    | false, some _ => .error .usage

/-- Reads the short options after a dash. -/
def readShort (specs : List OptionSpec) (args : Arguments) :
    List Char → Except Refusal Reading
  | [] => .ok (args, none)
  | c :: rest => match specs.find? fun spec => spec.short == some c with
    | none => .error .usage
    | some spec =>
        if spec.takesValue then
          match rest with
          | [] => .ok (args, some spec)
          | '=' :: value => do return (← args.addOption spec value, none)
          | value => do return (← args.addOption spec value, none)
        else do readShort specs (← args.addOption spec []) rest

def readOption? (specs : List OptionSpec) (args : Arguments) :
    List Char → Option (Except Refusal Reading)
  | '-' :: '-' :: option => some (readLong specs args option)
  | ['-'] => none
  | '-' :: options => some (readShort specs args options)
  | _ => none

def readArguments (specs : List OptionSpec) (limit : Nat) (args : Arguments)
    (pending : Option OptionSpec) : List (List Char) → Except Refusal Arguments
  | [] => if pending.isSome then .error .usage else .ok args
  | ['-', '-'] :: rest =>
      if pending.isSome then .error .usage
      else rest.foldlM (fun args operand => args.addOperand limit operand) args
  | arg :: rest => match pending, readOption? specs args arg with
    | some _, some _ => .error .usage
    | some spec, none => do readArguments specs limit (← args.addOption spec arg) none rest
    | none, some reading => do
        let (args, pending) ← reading
        readArguments specs limit args pending rest
    | none, none => do readArguments specs limit (← args.addOperand limit arg) none rest

/-- Reads options up to the first other argument, and returns it with the rest. -/
def readCommandName (specs : List OptionSpec) :
    List (List Char) → Except Refusal (List Char × List (List Char))
  | [] => .error .usage
  | ['-', '-'] :: _ => .error .usage
  | arg :: rest => match readOption? specs ⟨[], []⟩ arg with
    | some (.error refusal) => .error refusal
    | some (.ok _) => readCommandName specs rest
    | none => .ok (arg, rest)

end DM2022.Command
