import DM2022.Text.Line

/-!
# Paths

The file name of a path is its last part, less slashes and dots after it. The
extension of a file name follows its last dot, unless that is its first character.
-/
namespace DM2022.Command.Path

/-- Drops the slashes and the parts `.` that a reversed path starts with. -/
def dropTail : List Char → List Char
  | '/' :: rest => dropTail rest
  | '.' :: '/' :: rest => dropTail rest
  | path => path

/-- The file name and what stands before it. -/
def splitName (path : List Char) : List Char × List Char :=
  let tail := dropTail path.reverse
  ((tail.takeWhile (· != '/')).reverse, (tail.dropWhile (· != '/')).reverse)

def splitExtension (name : List Char) : List Char × Option (List Char) :=
  let extension := name.reverse.takeWhile (· != '.')
  match name.reverse.drop extension.length with
  | [] => (name, none)
  | [_] => (name, none)
  | _ :: stem => (stem.reverse, some extension.reverse)

def isDots (name : List Char) : Bool :=
  name == [] || name == ['.'] || name == ['.', '.']

def extension? (path : String) : Option String :=
  let (name, _) := splitName path.toList
  if isDots name then none else (splitExtension name).2.map String.ofList

def dropExtension (path : String) : List Char :=
  match extension? path with
  | none => path.toList
  | some extension => path.toList.take (path.length - extension.length)

/-- Puts `extension` in the place of the extension of the file name, or after it. What is
left without the old extension has to name a file. -/
def withExtension (path extension : String) : String :=
  let rest := dropExtension path
  let (name, before) := splitName rest
  if isDots name then String.ofList rest
  else String.ofList (before ++ (splitExtension name).1) ++ "." ++ extension

def parts (path : String) : List String :=
  ((Text.pieces '/' path.toList).filter (· != [])).map String.ofList

def isAbsolute (path : String) : Bool := path.toList.head? == some '/'

def endsWithSlash (path : String) : Bool := path.toList.getLast? == some '/'

/-- A path takes at most 4095 bytes. -/
def isTooLong (path : String) : Bool := 4095 < path.utf8ByteSize

/-- A part of a path takes at most 255 bytes. -/
def isPartTooLong (part : String) : Bool := 255 < part.utf8ByteSize

end DM2022.Command.Path
