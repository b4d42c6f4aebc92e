import DM2022.Text.Numeral
import DM2022.Word

/-!
# Configurations

The size of the memory, where images are loaded and where the machine starts, and how
many cycles a run may take.
-/
namespace DM2022

structure Config where
  memoryWords : Count
  loadBase : Word
  entry : Word
  maxCycles : Option Count
  deriving DecidableEq

inductive ConfigError where
  | malformed {reason : String}
  | noMemory
  | memoryTooLarge (memoryWords : Count)
  | loadBaseBeyond (loadBase : Word) (memoryWords : Count)
  | entryBeyond (entry : Word) (memoryWords : Count)
  deriving DecidableEq

def ConfigError.message : ConfigError → String
  | @malformed reason => "malformed config: " ++ reason
  | .noMemory => "invalid config: memory_words must be at least 1"
  | .memoryTooLarge words =>
      "invalid config: memory_words " ++ Text.naturalText words.toNat ++
        " exceeds the addressable range"
  | .loadBaseBeyond base words =>
      "invalid config: load_base " ++ Text.naturalText base.toNat ++
        " is beyond memory of " ++ Text.naturalText words.toNat ++ " words"
  | .entryBeyond entry words =>
      "invalid config: entry " ++ Text.naturalText entry.toNat ++
        " is beyond memory of " ++ Text.naturalText words.toNat ++ " words"

namespace Config

def default : Config := ⟨1024, 0, 0, some 100000⟩

/-- Accepts a configuration whose memory is addressable and holds the load base, or
ends there, and the entry. -/
def validate (c : Config) : Except ConfigError Unit :=
  if c.memoryWords.toNat = 0 then .error .noMemory
  else if addressLimit < c.memoryWords.toNat then .error (.memoryTooLarge c.memoryWords)
  else if c.memoryWords.toNat < c.loadBase.toNat then
    .error (.loadBaseBeyond c.loadBase c.memoryWords)
  else if c.memoryWords.toNat ≤ c.entry.toNat then
    .error (.entryBeyond c.entry c.memoryWords)
  else .ok ()

end Config
end DM2022
