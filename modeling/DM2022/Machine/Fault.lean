import DM2022.Text.Numeral
import DM2022.Word

/-!
# Faults

Why a machine stops before the end of an instruction, and at which address.
-/
namespace DM2022

inductive FaultKind where
  | addressOutOfRange (address : Word) (size : Count)
  | divideByZero
  | illegalOpcode (code : Byte)
  | badTrap (code : Word)
  | badShift (count : Word)
  | cycleBudgetExceeded (limit : Count)
  deriving DecidableEq

structure Fault where
  pc : Word
  kind : FaultKind
  deriving DecidableEq

def FaultKind.message : FaultKind → String
  | .addressOutOfRange address size =>
      "memory address " ++ Text.integerText address.toInt ++ " out of range (memory has " ++
        Text.naturalText size.toNat ++ " words)"
  | .divideByZero => "division by zero"
  | .illegalOpcode code => "illegal opcode " ++ Text.naturalText code.toNat
  | .badTrap code => "unknown trap code " ++ Text.integerText code.toInt
  | .badShift count => "negative shift count " ++ Text.integerText count.toInt
  | .cycleBudgetExceeded limit =>
      "cycle budget of " ++ Text.naturalText limit.toNat ++ " exceeded"

def Fault.message (f : Fault) : String :=
  "fault at pc " ++ Text.integerText f.pc.toInt ++ ": " ++ f.kind.message

end DM2022
