import DM2022.Command.Outcome
import DM2022.Command.System

/-!
# The program

Reads the files that the arguments name, writes what the command writes, prints, and logs.
-/
namespace DM2022.Program

open Command

/-- The files that a command reads. -/
def inputs : Command → List String
  | .run program config _ _ => program :: config.toList
  | .assemble source _ _ => [source]
  | .resolve source _ => [source]
  | .disassemble object _ => [object]

def fileError : IO.Error → FileError
  | .noFileOrDirectory .. => .notFound
  | .inappropriateType _ 20 _ => .notDirectory
  | .inappropriateType .. => .isDirectory
  | e => .other (toString e)

def readText (path : String) : IO (Except FileError String) := do
  try
    let bytes ← IO.FS.readBinFile path
    match String.fromUTF8? bytes with
    | some text => return .ok text
    | none => return .error .notText
  catch e => return .error (fileError e)

def writeTexts (texts : List (String × String)) : IO (Option FileError) := do
  try
    for (path, text) in texts do
      IO.FS.writeFile path text
    return none
  catch e => return some (fileError e)

/-- The files as far as they were read; nothing can be written if `refused` tells why. -/
def filesOf (texts : List (String × Except FileError String)) (refused : Option FileError) :
    Files where
  read path := (texts.lookup path).getD (.error .notFound)
  sink path := match refused, Device.at? (Path.parts path) with
    | some e, _ => .error e
    | none, some device => if Path.isAbsolute path then device.sink else .ok .file
    | none, none => .ok .file

/-- A warning without the time of day. -/
def warningLine (w : Warning) : String :=
  " WARN cpu faulted fault=" ++ w.fault.message ++ " cycles=" ++
    Text.naturalText w.cycles.toNat ++ "\n"

end DM2022.Program

open DM2022 in
def main (args : List String) : IO UInt32 := do
  let paths := match Command.ofArguments args with
    | .ok command => Program.inputs command
    | .error _ => []
  let texts ← paths.mapM fun path => do return (path, ← Program.readText path)
  let planned := Command.Outcome.ofArguments args (Program.filesOf texts none)
  let outcome := match ← Program.writeTexts planned.written with
    | none => planned
    | some e => Command.Outcome.ofArguments args (Program.filesOf texts (some e))
  IO.print outcome.stdout
  IO.eprint (outcome.errorText Program.warningLine)
  return outcome.code.toUInt32
