import DM2022.Word
import DM2022.Text.Line
import DM2022.Text.Numeral

/-!
# Register names

There are sixteen registers: `r0` reads as zero, `r15` is the program counter.
-/
namespace DM2022.Register

/-- The register that reads as zero. -/
def zero : Byte := 0

/-- The program counter. -/
def pc : Byte := 15

/-- Reads `zero`, `pc`, or `r` and a decimal number up to 15, in any case. -/
def ofName? (name : List Char) : Option Byte :=
  let small := Text.lower name
  if small = "zero".toList then some zero
  else if small = "pc".toList then some pc
  else match small with
    | 'r' :: digits => (Text.natural? digits).bind fun n =>
        if n < 16 then some (.ofNat 8 n) else none
    | _ => none

end DM2022.Register
