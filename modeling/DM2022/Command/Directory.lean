import DM2022.Command.Path
import DM2022.Command.System

/-!
# The working directory

A directory of texts in a system that is bare apart from it, as a file system in which commands
can be tried. No path from outside leads back to the directory.
-/
namespace DM2022.Command

/-- A file of a directory: the parts of its path, and its text if it holds one. -/
structure File where
  path : List String
  text : Option String
  deriving DecidableEq

structure Directory where
  files : List File
  deriving DecidableEq

/-- The end of a path: below the working directory, or elsewhere from the root on. -/
inductive Place where
  | inside (path : List String)
  | outside (path : List String)
  deriving DecidableEq

inductive Entry where
  | directory
  | file (text : Option String)
  | device (device : Device)
  deriving DecidableEq

namespace Place

def child (name : String) : Place → Place
  | .inside path => .inside (path ++ [name])
  | .outside path => .outside (path ++ [name])

/-- The directory that a directory lies in; the root lies in itself. -/
def parent : Place → Place
  | .inside [] => .outside System.workplace
  | .inside path => .inside path.dropLast
  | .outside path => .outside path.dropLast

end Place

namespace Directory

def find? (d : Directory) (path : List String) : Option File :=
  d.files.find? (·.path == path)

/-- A file lies below the path, or the path is that of the directory itself. -/
def isDirectory (d : Directory) (path : List String) : Bool :=
  path.isEmpty || d.files.any fun file => path.isPrefixOf file.path && path != file.path

def entry? (d : Directory) : Place → Option Entry
  | .inside path =>
      if d.isDirectory path then some .directory else (d.find? path).map fun f => .file f.text
  | .outside path =>
      if System.isDirectory path then some .directory else (Device.at? path).map .device

def requireDirectory (d : Directory) (place : Place) : Except FileError Unit :=
  match d.entry? place with
  | some .directory => .ok ()
  | some _ => .error .notDirectory
  | none => .error .notFound

def enter (d : Directory) (place : Place) (part : String) : Except FileError Place := do
  d.requireDirectory place
  if part = "." then return place
  else if part = ".." then return place.parent
  else if Path.isPartTooLong part then .error .nameTooLong
  else return place.child part

def walk (d : Directory) (path : String) (parts : List String) : Except FileError Place :=
  if Path.isTooLong path then .error .nameTooLong
  else parts.foldlM d.enter (if Path.isAbsolute path then .outside [] else .inside [])

def read (d : Directory) (path : String) : Except FileError String := do
  let place ← d.walk path (Path.parts path)
  match d.entry? place with
  | none => .error .notFound
  | some .directory => .error .isDirectory
  | some (.file text) =>
      if Path.endsWithSlash path then .error .notDirectory
      else match text with
        | none => .error .notText
        | some text => .ok text
  | some (.device device) =>
      if Path.endsWithSlash path then .error .notDirectory else device.read

def target (d : Directory) (path : String) : Except FileError Place := do
  let parts := Path.parts path
  let place ← d.walk path parts.dropLast
  d.requireDirectory place
  if Path.endsWithSlash path then .error .isDirectory
  else
    let place ← d.walk path parts
    if d.entry? place = some .directory then .error .isDirectory else .ok place

def sink (d : Directory) (path : String) : Except FileError Sink := do
  match d.entry? (← d.target path) with
  | some (.device device) => device.sink
  | _ => .ok .file

/-- Puts a text at a path that can be written; outside of the directory that has no effect
on it. -/
def write (d : Directory) (path text : String) : Directory :=
  match d.target path with
  | .ok (.inside place) => ⟨⟨place, some text⟩ :: d.files.filter (·.path != place)⟩
  | _ => d

def view (d : Directory) : Files := ⟨d.read, d.sink⟩

def system : FileSystem := ⟨Directory, view, write⟩

/-- The files that are new or different in `after`. -/
def changes (before after : Directory) : List File :=
  after.files.filter fun file => before.find? file.path != some file

end Directory
end DM2022.Command
