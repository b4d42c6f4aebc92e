/-!
# Numerals

Decimal and hexadecimal numerals, with or without a sign, and the padded columns of
a listing.
-/
namespace DM2022.Text

def naturalText (n : Nat) : String := String.ofList (Nat.toDigits 10 n)

/-- A minus sign before a negative number, no sign otherwise. -/
def integerText : Int → String
  | .ofNat n => naturalText n
  | .negSucc n => "-" ++ naturalText (n + 1)

/-- At least `width` places: zeros on the left. -/
def zeroPadded (width : Nat) (digits : List Char) : String :=
  String.ofList (digits.leftpad width '0')

/-- At least `width` places: blanks on the right. -/
def blankPadded (width : Nat) (text : String) : String :=
  String.ofList (text.toList.rightpad width ' ')

/-- Eight hexadecimal digits after `0x`. -/
def hexadecimalText (n : Nat) : String := "0x" ++ zeroPadded 8 (Nat.toDigits 16 n)

/-- The number that one or more decimal digits write. -/
def natural? (digits : List Char) : Option Nat :=
  if digits ≠ [] ∧ digits.all Char.isDigit then some (Nat.ofDigitChars 10 digits 0) else none

/-- What a hexadecimal digit of either case stands for. -/
def hexDigit? (c : Char) : Option Nat :=
  if c.isDigit then some (c.toNat - '0'.toNat)
  else if 'a' ≤ c ∧ c ≤ 'f' then some (c.toNat - 'a'.toNat + 10)
  else if 'A' ≤ c ∧ c ≤ 'F' then some (c.toNat - 'A'.toNat + 10)
  else none

/-- The number that hexadecimal digits write after digits that write `high`. -/
def hexadecimalAfter? (high : Nat) : List Char → Option Nat
  | [] => some high
  | c :: rest => (hexDigit? c).bind fun d => hexadecimalAfter? (16 * high + d) rest

/-- The number that one or more hexadecimal digits write. -/
def hexadecimal? (digits : List Char) : Option Nat :=
  if digits = [] then none else hexadecimalAfter? 0 digits

/-- Splits off one sign, if there is one; the first part tells a minus sign. -/
def splitSign : List Char → Bool × List Char
  | '-' :: rest => (true, rest)
  | '+' :: rest => (false, rest)
  | text => (false, text)

def applySign (negative : Bool) (magnitude : Nat) : Int :=
  if negative then -magnitude else magnitude

/-- The magnitude of a literal: decimal digits, or hexadecimal digits after `0x`. -/
def magnitude? : List Char → Option Nat
  | '0' :: 'x' :: digits => hexadecimal? digits
  | '0' :: 'X' :: digits => hexadecimal? digits
  | digits => natural? digits

/-- A literal has an optional sign and a magnitude of at most 63 bits. -/
def literal? (text : List Char) : Option Int :=
  let (negative, digits) := splitSign text
  (magnitude? digits).bind fun n =>
    if n ≤ 0x7fffffffffffffff then some (applySign negative n) else none

/-- A decimal numeral with an optional sign, in the range of 64-bit two's complement. -/
def integer? (text : List Char) : Option Int :=
  let (negative, digits) := splitSign text
  (natural? digits).bind fun n =>
    let value := applySign negative n
    if -0x8000000000000000 ≤ value ∧ value ≤ 0x7fffffffffffffff then some value else none

@[simp] theorem toList_naturalText (n : Nat) : (naturalText n).toList = Nat.toDigits 10 n :=
  String.toList_ofList

theorem isDigit_of_mem_toDigits {n : Nat} {c : Char} (h : c ∈ Nat.toDigits 10 n) :
    c.isDigit = true :=
  Nat.isDigit_of_mem_toDigits (by decide) (by decide) h

theorem natural?_toDigits (n : Nat) : natural? (Nat.toDigits 10 n) = some n := by
  rw [natural?, if_pos, Nat.ofDigitChars_ten_toDigits]
  exact ⟨Nat.toDigits_ne_nil, List.all_eq_true.2 fun _ h => isDigit_of_mem_toDigits h⟩

theorem notMem_toDigits {n : Nat} {c : Char} (h : c.isDigit = false) :
    c ∉ Nat.toDigits 10 n :=
  fun hc => by simp [isDigit_of_mem_toDigits hc] at h

theorem splitSign_toDigits (n : Nat) :
    splitSign (Nat.toDigits 10 n) = (false, Nat.toDigits 10 n) := by
  unfold splitSign
  split
  · next h => exact absurd (h ▸ List.mem_cons_self) (notMem_toDigits (by decide))
  · next h => exact absurd (h ▸ List.mem_cons_self) (notMem_toDigits (by decide))
  · rfl

theorem magnitude?_toDigits (n : Nat) : magnitude? (Nat.toDigits 10 n) = some n := by
  unfold magnitude?
  split
  · next h =>
    exact absurd (h ▸ List.mem_cons_of_mem _ List.mem_cons_self) (notMem_toDigits (by decide))
  · next h =>
    exact absurd (h ▸ List.mem_cons_of_mem _ List.mem_cons_self) (notMem_toDigits (by decide))
  · exact natural?_toDigits n

/-- The sign and the digits of a written integer. -/
theorem splitSign_integerText (v : Int) :
    splitSign (integerText v).toList = (decide (v < 0), Nat.toDigits 10 v.natAbs) := by
  cases v with
  | ofNat n => simp [integerText, splitSign_toDigits]
  | negSucc n => simp [integerText, splitSign, Int.natAbs_negSucc, Int.negSucc_lt_zero]

theorem applySign_natAbs (v : Int) : applySign (decide (v < 0)) v.natAbs = v := by
  by_cases h : v < 0
  · rw [applySign, if_pos (decide_eq_true h)]
    omega
  · rw [applySign, if_neg (by rw [decide_eq_true_iff]; exact h)]
    omega

theorem literal?_integerText {v : Int} (h : v.natAbs ≤ 0x7fffffffffffffff) :
    literal? (integerText v).toList = some v := by
  simp only [literal?, splitSign_integerText, magnitude?_toDigits, Option.bind_some,
    applySign_natAbs]
  rw [if_pos h]

theorem integer?_integerText {v : Int} (hl : -0x8000000000000000 ≤ v)
    (hu : v ≤ 0x7fffffffffffffff) :
    integer? (integerText v).toList = some v := by
  simp only [integer?, splitSign_integerText, natural?_toDigits, Option.bind_some,
    applySign_natAbs]
  rw [if_pos ⟨hl, hu⟩]

end DM2022.Text
