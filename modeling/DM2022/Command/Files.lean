/-!
# Files

What commands see of the files, why a file cannot be read or written, and what becomes of the
files when a text is written.
-/
namespace DM2022.Command

inductive FileError where
  | notFound | notDirectory | isDirectory | nameTooLong | noDevice | noSpace | notText
  | other (description : String)
  deriving DecidableEq

def FileError.message : FileError → String
  | .notFound => "No such file or directory (os error 2)"
  | .noDevice => "No such device or address (os error 6)"
  | .notDirectory => "Not a directory (os error 20)"
  | .isDirectory => "Is a directory (os error 21)"
  | .noSpace => "No space left on device (os error 28)"
  | .nameTooLong => "File name too long (os error 36)"
  | .notText => "stream did not contain valid UTF-8"
  | .other description => description

/-- Where a written text goes: to the file at its path, or to a stream of the program. -/
inductive Sink where
  | file | output | errorOutput
  deriving DecidableEq

/-- The text at a path, and where a text goes that is written to a path. -/
structure Files where
  read : String → Except FileError String
  sink : String → Except FileError Sink

/-- States of files, as commands see them, and the state after a text was written to a path. -/
structure FileSystem where
  State : Type
  files : State → Files
  write : State → String → String → State

end DM2022.Command
