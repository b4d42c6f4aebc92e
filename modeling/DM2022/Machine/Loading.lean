import DM2022.Assembly.Image
import DM2022.Machine.Basic

/-!
# Loading programs

A program is loaded like its words, which are not needed if there is no room for them.
-/
namespace DM2022.Machine

/-- Copies the words of a program to the load base. -/
def loadProgram (m : Machine) (p : Assembly.Program) : Except MemoryError Machine :=
  match m.mem.loadError? m.config.loadBase p.size with
  | some e => .error e
  | none => m.load p.words

theorem loadProgram_eq (m : Machine) (p : Assembly.Program) : m.loadProgram p = m.load p.words := by
  rw [loadProgram, load, Memory.load, p.length_words]
  cases m.mem.loadError? m.config.loadBase p.size <;> rfl

end DM2022.Machine
