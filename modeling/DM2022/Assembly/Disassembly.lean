import DM2022.Instruction.Encoding

/-!
# Disassembly

Each word of an image as an instruction in full form, or as data if its opcode is not
assigned, between its address and its hexadecimal digits.
-/
namespace DM2022.Assembly

def wordText (word : Word) : String :=
  let instr := Instruction.decode word
  match instr.op with
  | .illegal _ => "DATA " ++ Text.integerText word.toInt
  | _ => instr.text

def disassemblyHeading : String :=
  "; Duck Machine disassembly\n; -------------------------\n\n"

/-- The line of the word at `address`. -/
def disassemblyLine (word : Word) (address : Nat) : String :=
  Text.zeroPadded 4 (Nat.toDigits 10 address) ++ ": " ++ Text.blankPadded 28 (wordText word) ++
    " ; " ++ Text.hexadecimalText word.toNat ++ "\n"

/-- The disassembly of an image at `origin`; addresses are not wrapped. -/
def disassemble (words : List Word) (origin : Nat) : String :=
  disassemblyHeading ++
    String.join ((words.zipIdx origin).map fun (word, address) => disassemblyLine word address)

end DM2022.Assembly
