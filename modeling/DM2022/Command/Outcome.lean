import DM2022.Assembly.Disassembly
import DM2022.Assembly.Image
import DM2022.Assembly.Object
import DM2022.Command.Basic
import DM2022.Command.Files
import DM2022.Command.Path
import DM2022.Machine.Inspection
import DM2022.Machine.Loading
import DM2022.Machine.Snapshot

/-!
# Outcomes

What a command prints, logs and writes, and the code with which it ends: 0 if all went well,
1 for a failure, 2 for arguments that are no command. Only warnings are logged, unless the arguments
or the environment ask for more.
-/
namespace DM2022.Command

open Assembly

/-- What is logged of a machine that faults. -/
structure Warning where
  fault : Fault
  cycles : Count
  deriving DecidableEq

/-- The text of `stderr` is that of the command itself, without the warnings. -/
structure Outcome where
  code : Nat
  stdout : String
  stderr : String
  logged : List Warning
  written : List (String × String)
  deriving DecidableEq

/-- What a command puts out on `stderr`, where a warning is written as `line` says. A run ends before
its failure is reported. -/
def Outcome.errorText (line : Warning → String) (o : Outcome) : String :=
  String.join (o.logged.map line) ++ o.stderr

def succeed (printed : String) : Outcome := ⟨0, printed, "", [], []⟩

def fail (printed message : String) : Outcome := ⟨1, printed, "❌ " ++ message ++ "\n", [], []⟩

def readFailure (path : String) (e : FileError) : String :=
  "failed to read " ++ path ++ ": " ++ e.message

def assemblyFailure (errors : List AssemblyError) : String :=
  "assembly failed:\n" ++ AssemblyError.report errors

/-- Why an object file gives no words. -/
inductive LoadError where
  | file (cause : FileError)
  | object (cause : ObjectError)
  deriving DecidableEq

def LoadError.message : LoadError → String
  | .file cause => "failed to load object file: I/O error: " ++ cause.message
  | .object cause => "failed to load object file: " ++ cause.message

def readObject (files : Files) (path : String) : Except LoadError (List Word) := do
  let text ← (files.read path).mapError LoadError.file
  (Object.read text.toList).mapError LoadError.object

/-- Writes `text` to the path `target`, and says so. -/
def save (printed target text : String) (sink : Sink) : Outcome :=
  let saved := "✓ Saved to " ++ target ++ "\n"
  match sink with
  | .file => ⟨0, printed ++ saved, "", [], [(target, text)]⟩
  | .output => ⟨0, printed ++ text ++ saved, "", [], []⟩
  | .errorOutput => ⟨0, printed ++ saved, text, [], []⟩

/-- Assembles a source and writes the object file. -/
def assembleFile (files : Files) (source : String) (output : Option String) (origin : Nat) :
    Outcome :=
  let target := output.getD (Path.withExtension source "obj")
  let heading := "📝 Assembling: " ++ source ++ " → " ++ target ++ "\n"
  match files.read source with
  | .error e => fail heading (readFailure source e)
  | .ok text => match Assembly.assemble text.toList origin with
    | .error errors => fail heading (assemblyFailure errors)
    | .ok program =>
        let printed := heading ++ "✓ Assembled " ++ Text.naturalText program.size ++ " words\n"
        match files.sink target with
        | .error e => fail printed ("failed to save object file: I/O error: " ++ e.message)
        | .ok sink => save printed target (Object.text program.words) sink

/-- Prints the listing of a resolved source. -/
def resolveFile (files : Files) (source : String) (origin : Nat) : Outcome :=
  match files.read source with
  | .error e => fail "" (readFailure source e)
  | .ok text => match resolveSource text.toList origin with
    | .error errors => fail "" ("resolution failed:\n" ++ AssemblyError.report errors)
    | .ok (statements, _) => succeed (listing statements)

/-- Prints the disassembly of an object file. -/
def disassembleFile (files : Files) (object : String) (origin : Nat) : Outcome :=
  match readObject files object with
  | .error e => fail "" e.message
  | .ok words => succeed (Assembly.disassemble words origin)

/-- The program of a file and what is printed about it: a file with the extension `asm` is
assembled for `base`, any other file is an object file. -/
def readProgram (files : Files) (path : String) (base : Nat) :
    Except String (Program × String) :=
  if Path.extension? path = some "asm" then
    match files.read path with
    | .error e => .error (readFailure path e)
    | .ok text => match Assembly.assemble text.toList base with
      | .error errors => .error (assemblyFailure errors)
      | .ok program =>
          .ok (program, "📝 Assembled " ++ Text.naturalText program.size ++ " words\n")
  else match readObject files path with
    | .error e => .error e.message
    | .ok words =>
      .ok (.ofWords words base, "📂 Loaded " ++ Text.naturalText words.length ++ " words\n")

/-- The configuration of a run: that of the file, with the cycle budget of the command
line, where 0 stands for no budget. -/
def runConfig (l : Json.Library) (files : Files) (config : Option String)
    (maxCycles : Option Nat) : Except String Config := do
  let c ← match config with
    | none => .ok Config.default
    | some path => match files.read path with
      | .error e => .error ("cannot read config: " ++ path ++ ": " ++ e.message)
      | .ok text => (Config.fromJson l text.toList).mapError ConfigError.message
  return match maxCycles with
    | none => c
    | some limit => { c with maxCycles := if 0 < limit then some (.ofNat 64 limit) else none }

def stateText : State → String
  | .faulted fault => "faulted (" ++ fault.message ++ ")"
  | state => state.description

/-- The registers from `r1` on that are not zero. -/
def registerTable (r : Registers) : String :=
  String.join (((r.snapshot.toList.zipIdx 0).drop 1).map fun (word, reg) =>
    if word = 0 then ""
    else "r" ++ Text.blankPadded 2 (Text.naturalText reg) ++ " = " ++
      Text.integerText word.toInt ++ "\n")

def resultText (m : Machine) : String :=
  "\n━━━ Result ━━━\nCycles: " ++ Text.naturalText m.cycles.toNat ++ "\nState: " ++
    stateText m.state ++ "\nFlags: " ++ m.regs.flags.text ++ "\n" ++ registerTable m.regs

def warnings (result : Except RunError Count) (final : Machine) : List Warning :=
  match result with
  | .error (.fault fault) => [⟨fault, final.cycles⟩]
  | _ => []

/-- Runs a program on a new machine and prints its output and its final state. -/
def runProgram (l : Json.Library) (config : Config) (program : Program) (dump : Bool)
    (printed : String) : Outcome :=
  if program.size = 0 then fail printed "no words to execute"
  else match (Machine.ofConfig config).loadProgram program with
    | .error e => fail printed ("failed to load program: " ++ e.message)
    | .ok loaded =>
        let (result, stopped) := loaded.run
        let (output, final) := stopped.takeOutput
        let printed := printed ++ output ++ resultText final ++
          (if dump then l.writeIndented Machine.schema final ++ "\n" else "")
        let outcome := match result with
          | .ok _ => succeed printed
          | .error e => fail printed e.message
        { outcome with logged := warnings result final }

def runFile (l : Json.Library) (files : Files) (program : String) (config : Option String)
    (maxCycles : Option Nat) (dump : Bool) : Outcome :=
  match runConfig l files config maxCycles with
  | .error message => fail "" message
  | .ok c => match readProgram files program c.loadBase.toNat with
    | .error message => fail "" message
    | .ok (program, printed) => runProgram l c program dump printed

/-- Carries out a command. -/
def perform (l : Json.Library) (files : Files) : Command → Outcome
  | .run program config maxCycles dump => runFile l files program config maxCycles dump
  | .assemble source output origin => assembleFile files source output origin
  | .resolve source origin => resolveFile files source origin
  | .disassemble object origin => disassembleFile files object origin

def commandTable : String :=
  "\n".intercalate [
    "Commands:",
    "  run      Run a program until it halts or faults",
    "  asm      Assemble source to an object file",
    "  resolve  Print source with every label resolved",
    "  disasm   Disassemble an object file",
    "  help     Print this message or the help of the given subcommand(s)"]

def optionTable : String :=
  "\n".intercalate [
    "Options:",
    "  -v, --verbose...  Increase log verbosity (-v debug, -vv trace)",
    "  -h, --help        Print help",
    "  -V, --version     Print version"]

def usageText : String :=
  "Emulator and assembler for the Duck Machine\n\nUsage: duck [OPTIONS] <COMMAND>\n\n" ++
    commandTable ++ "\n\n" ++ optionTable ++ "\n"

def Refusal.outcome : Refusal → Outcome
  | .usage => ⟨2, "", usageText, [], []⟩
  | .help => ⟨0, usageText, "", [], []⟩
  | .version => ⟨0, "duck 0.1.0\n", "", [], []⟩

/-- The outcome of the program with these arguments. -/
def Outcome.ofArguments (args : List String) (files : Files) : Outcome :=
  match Command.ofArguments args with
  | .error refusal => refusal.outcome
  | .ok command => perform .standard files command

end DM2022.Command
