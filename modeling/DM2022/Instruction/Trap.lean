import DM2022.Word

/-!
# Traps

The services of the machine that a `TRAP` instruction selects by its offset.
-/
namespace DM2022

inductive Trap where
  | halt | printInteger | printCharacter
  deriving DecidableEq

namespace Trap

def code : Trap → Word
  | .halt => 0
  | .printInteger => 1
  | .printCharacter => 2

def ofCode? (code : Word) : Option Trap :=
  [halt, printInteger, printCharacter].find? fun trap => trap.code == code

end Trap
end DM2022
