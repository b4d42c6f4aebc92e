import DM2022.Command.Outcome
import DM2022.Proofs.Assembly.ObjectText
import DM2022.Proofs.Command.Directory
import DM2022.Proofs.Machine.Snapshot

/-!
# Saved programs

A source that is run is assembled for the load base of the configuration. Assembling it to
an object file for that address and running the object file comes to the same: the image is
read back from the file, and a run depends on the image alone. Nothing is asked of the files but
that the object file can be written and read back, and is not that of the configuration.
-/
namespace DM2022.Command

open Assembly

namespace FileSystem

variable (fs : FileSystem) (s : fs.State)

/-- The files after a command, which has put its texts at their paths. -/
def after (o : Outcome) : fs.State := o.written.foldl (fun s (path, text) => fs.write s path text) s

/-- A text that is written to the path goes to a file, and is read from there. -/
structure Holds (path : String) : Prop where
  sink : (fs.files s).sink path = .ok .file
  read_write : ∀ text, (fs.files (fs.write s path text)).read path = .ok text

/-- What is read from `other` is still read after a text was written to the path. -/
def Keeps (path other : String) : Prop :=
  ∀ text found, (fs.files s).read other = .ok found →
    (fs.files (fs.write s path text)).read other = .ok found

end FileSystem

def Outcome.headed (o : Outcome) (line : String) : Outcome := { o with stdout := line ++ o.stdout }

theorem fail_append (line printed message : String) :
    fail (line ++ printed) message = (fail printed message).headed line :=
  rfl

/-! ## Runs -/

/-- A run prints what was printed before it, and all else does not depend on that. -/
theorem runProgram_headed (l : Json.Library) (c : Config) (p : Program) (dump : Bool)
    (line : String) : runProgram l c p dump line = (runProgram l c p dump "").headed line := by
  unfold runProgram
  split
  · rw [← fail_append, String.append_empty]
  split
  · rw [← fail_append, String.append_empty]
  next loaded _ =>
  generalize loaded.run = stopped
  obtain ⟨result, stopped⟩ := stopped
  cases result <;>
    simp only [succeed, fail, Outcome.headed, String.append_assoc, String.empty_append]

theorem runProgram_congr {p q : Program} (h : p.words = q.words) (l : Json.Library) (c : Config)
    (dump : Bool) (printed : String) :
    runProgram l c p dump printed = runProgram l c q dump printed := by
  have hsize : p.size = q.size := by rw [← p.length_words, h, q.length_words]
  have hload : (Machine.ofConfig c).loadProgram p = (Machine.ofConfig c).loadProgram q := by
    rw [Machine.loadProgram_eq, Machine.loadProgram_eq, h]
  rw [runProgram, runProgram, hsize, hload]

/-! ## Files -/

variable {l : Json.Library} {files : Files} {source object text : String}
  {config : Option String} {maxCycles : Option Nat} {c : Config}

def assembledLine (words : List Word) : String :=
  "📝 Assembled " ++ Text.naturalText words.length ++ " words\n"

def loadedLine (words : List Word) : String :=
  "📂 Loaded " ++ Text.naturalText words.length ++ " words\n"

theorem readObject_of_text {words : List Word} (h : files.read object = .ok (Object.text words)) :
    readObject files object = .ok words := by
  rw [readObject, h]
  refine bind_ok_iff.2 ⟨_, rfl, ?_⟩
  rw [Object.read_text]
  rfl

theorem runConfig_of_reads {files' : Files} (h : runConfig l files config maxCycles = .ok c)
    (hfiles : ∀ path ∈ config, ∀ text, files.read path = .ok text →
      files'.read path = .ok text) : runConfig l files' config maxCycles = .ok c := by
  cases config with
  | none => exact h
  | some path =>
    cases hread : files.read path with
    | error e =>
      simp only [runConfig, hread] at h
      cases h
    | ok text =>
      simp only [runConfig, hread] at h
      simp only [runConfig, hfiles path rfl text hread]
      exact h

theorem runFile_of_assembled {p : Program} (hsource : Path.extension? source = some "asm")
    (hread : files.read source = .ok text) (hconfig : runConfig l files config maxCycles = .ok c)
    (hp : Assembly.assemble text.toList c.loadBase.toNat = .ok p) (dump : Bool) :
    runFile l files source config maxCycles dump =
      (runProgram l c p dump "").headed (assembledLine p.words) := by
  rw [runFile, hconfig]
  simp only [readProgram, hsource, hread, hp, if_true]
  rw [runProgram_headed, ← p.length_words]
  rfl

theorem runFile_of_object {words : List Word} (hobject : Path.extension? object ≠ some "asm")
    (hread : readObject files object = .ok words)
    (hconfig : runConfig l files config maxCycles = .ok c) (dump : Bool) :
    runFile l files object config maxCycles dump =
      (runProgram l c (.ofWords words c.loadBase.toNat) dump "").headed (loadedLine words) := by
  rw [runFile, hconfig]
  simp only [readProgram, hobject, hread, if_false]
  rw [runProgram_headed]
  rfl

theorem runFile_of_errors {errors : List AssemblyError}
    (hsource : Path.extension? source = some "asm") (hread : files.read source = .ok text)
    (hconfig : runConfig l files config maxCycles = .ok c)
    (he : Assembly.assemble text.toList c.loadBase.toNat = .error errors) (dump : Bool) :
    runFile l files source config maxCycles dump = fail "" (assemblyFailure errors) := by
  rw [runFile, hconfig]
  simp only [readProgram, hsource, hread, he, if_true]

theorem assembleFile_of_assembled {p : Program} {origin : Nat}
    (hread : files.read source = .ok text) (hsink : files.sink object = .ok .file)
    (hp : Assembly.assemble text.toList origin = .ok p) :
    ∃ printed, assembleFile files source (some object) origin =
      ⟨0, printed, "", [], [(object, Object.text p.words)]⟩ := by
  simp only [assembleFile, hread, hp, Option.getD_some, hsink, save]
  exact ⟨_, rfl⟩

theorem assembleFile_of_errors {errors : List AssemblyError} {origin : Nat}
    (hread : files.read source = .ok text)
    (he : Assembly.assemble text.toList origin = .error errors) :
    ∃ printed, assembleFile files source (some object) origin =
      fail printed (assemblyFailure errors) := by
  simp only [assembleFile, hread, he]
  exact ⟨_, rfl⟩

/-! ## The two ways of running a source -/

variable (fs : FileSystem) {s : fs.State}

namespace Directory

variable {d : Directory} {place : List String}

theorem holds_of_target (h : d.target object = .ok (.inside place)) : system.Holds d object :=
  ⟨sink_eq h, fun _ => read_write_self h⟩

theorem keeps_of_target {other : String} (h : d.target object = .ok (.inside place))
    (hother : ¬d.LeadsTo other place) : system.Keeps d object other := fun _ _ hread =>
  read_write_of_ne h (fun hwalk => hother (leadsTo_of_read hread hwalk)) hread

/-- A path with another extension leads elsewhere. -/
theorem keeps_of_extension {other : String} (h : d.target object = .ok (.inside place))
    (hne : Path.extension? other ≠ Path.extension? object) : system.Keeps d object other :=
  keeps_of_target h fun hother => hne (hother.extension?_eq (leadsTo_of_target h))

end Directory

/-- A configuration that loads programs at 2 and starts them there. -/
def highConfig : Config := ⟨4, 2, 2, some 100000⟩

/-- The directory with a source that jumps to its own label, one without the label and the
configuration. -/
def jumpDirectory : Directory :=
  ⟨[⟨["jump.asm"], some "loop: JUMP/ZP @loop\nHALT"⟩, ⟨["lost.asm"], some "JUMP loop"⟩,
    ⟨["high.json"], some (Json.Library.standard.write Config.schema highConfig)⟩]⟩

theorem runConfig_jumpDirectory :
    runConfig .standard jumpDirectory.view (some "high.json") (some 5) =
      .ok { highConfig with maxCycles := some 5 } := by
  have hread : jumpDirectory.view.read "high.json" =
      .ok (Json.Library.standard.write Config.schema highConfig) := rfl
  have hconfig := ((Json.Library.standard_documented Config.schema).read_write
    Config.lawful_schema highConfig).1
  simp only [runConfig, hread, Config.fromJson, hconfig]
  rfl

/-- The directory with a source that halts, an empty configuration and a directory `out`. -/
def haltDirectory : Directory :=
  ⟨[⟨["halt.asm"], some "HALT"⟩, ⟨["c.json"], some "\x7b\x7d"⟩, ⟨["out", "old.obj"], some ""⟩]⟩

end DM2022.Command
