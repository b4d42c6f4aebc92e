import DM2022.Command.Files

/-!
# System

The directories and the devices that every system has outside of the working directory.
-/
namespace DM2022.Command

/-- A device drops what is written to it, has no space for it, or passes it on to a stream
of the program; the terminal is not there. -/
inductive Device where
  | void | full | output | errorOutput | terminal
  deriving DecidableEq

namespace Device

/-- The text of a device: where it comes to an end, there is none. -/
def read : Device → Except FileError String
  | .terminal => .error .noDevice
  | _ => .ok ""

def sink : Device → Except FileError Sink
  | .void => .ok .file
  | .full => .error .noSpace
  | .output => .ok .output
  | .errorOutput => .ok .errorOutput
  | .terminal => .error .noDevice

def named : List (String × Device) :=
  [("null", .void), ("zero", .void), ("random", .void), ("urandom", .void), ("stdin", .void),
    ("full", .full), ("stdout", .output), ("stderr", .errorOutput), ("tty", .terminal)]

def numbered : List (String × Device) := [("0", .void), ("1", .output), ("2", .errorOutput)]

def at? : List String → Option Device
  | ["dev", name] => named.lookup name
  | ["dev", "fd", number] => numbered.lookup number
  | _ => none

end Device

namespace System

def rootNames : List String :=
  ["bin", "boot", "dev", "etc", "home", "lib", "lib64", "media", "mnt", "opt", "proc", "root",
    "run", "sbin", "srv", "sys", "tmp", "usr", "var"]

/-- What the directories of the root hold for directories, as far as programs count on it. -/
def innerNames : String → List String
  | "dev" => ["fd", "pts", "shm"]
  | "proc" => ["self"]
  | "usr" => ["bin", "include", "lib", "local", "sbin", "share", "src"]
  | "var" => ["cache", "lib", "local", "log", "mail", "opt", "spool", "tmp"]
  | _ => []

def isDirectory : List String → Bool
  | [] => true
  | [name] => rootNames.contains name
  | [outer, name] => (innerNames outer).contains name
  | _ => false

def workplace : List String := ["tmp"]

end System
end DM2022.Command
