import Mathlib.Data.Nat.Digits.Defs
import DM2022.Text.Numeral
import DM2022.Word

/-!
# Numerals

What counts as a numeral, and the number that it writes: one or more digits in base ten or
sixteen, with a mark for base sixteen and perhaps a sign. The readers of numerals accept just
these, as far as the numbers are in their range. A number that is a word is one in two's
complement or without a sign.
-/
namespace DM2022

/-- The number is that of a signed or an unsigned word, and the word is the number modulo
`2 ^ 32`. -/
structure Word.OfNumber (v : Int) (word : Word) : Prop where
  ge : -0x80000000 ≤ v
  le : v ≤ 0xffffffff
  toNat_eq : (word.toNat : Int) = v % 0x100000000

theorem eitherWord?_eq_some_iff {v : Int} {word : Word} :
    eitherWord? v = some word ↔ Word.OfNumber v word := by
  rw [eitherWord?, Option.ite_none_right_eq_some, Option.some.injEq]
  constructor
  · rintro ⟨⟨hl, hu⟩, rfl⟩
    refine ⟨hl, hu, ?_⟩
    rw [BitVec.toNat_ofInt]
    omega
  · rintro ⟨hl, hu, hword⟩
    refine ⟨⟨hl, hu⟩, BitVec.eq_of_toNat_eq ?_⟩
    rw [BitVec.toNat_ofInt]
    omega

/-- Each word is that of its own number. -/
theorem Word.OfNumber.toInt (word : Word) : OfNumber (BitVec.toInt word) word := by
  have hl := word.le_toInt
  have hu := word.toInt_lt
  refine eitherWord?_eq_some_iff.1 ?_
  rw [eitherWord?, if_pos (by omega), BitVec.ofInt_toInt]

namespace Text

/-- What a digit stands for in any base up to sixteen; 16 for all other characters. -/
def digitValue (c : Char) : Nat := "0123456789abcdef".toList.idxOf c.toLower

/-- One or more digits of the base, of which `n` is the positional value. -/
structure Digits (base : Nat) (text : List Char) (n : Nat) : Prop where
  ne_nil : text ≠ []
  lt : ∀ c ∈ text, digitValue c < base
  value : Nat.ofDigits base (text.map digitValue).reverse = n

/-- A magnitude has decimal digits, or hexadecimal digits after `0x` or `0X`. -/
inductive Magnitude : List Char → Nat → Prop
  | decimal {text : List Char} {n : Nat} (h : Digits 10 text n) : Magnitude text n
  | hexadecimal {mark : Char} {text : List Char} {n : Nat} (hmark : mark = 'x' ∨ mark = 'X')
      (h : Digits 16 text n) : Magnitude ('0' :: mark :: text) n

/-- One sign before a magnitude, or none. -/
inductive Signed (magnitude : List Char → Nat → Prop) : List Char → Int → Prop
  | unsigned {text : List Char} {n : Nat} (h : magnitude text n) : Signed magnitude text n
  | plus {text : List Char} {n : Nat} (h : magnitude text n) : Signed magnitude ('+' :: text) n
  | minus {text : List Char} {n : Nat} (h : magnitude text n) :
      Signed magnitude ('-' :: text) (-n)

/-- The literals of the assembly language. -/
abbrev Literal : List Char → Int → Prop := Signed Magnitude

/-- The numbers of an object text. -/
abbrev Decimal : List Char → Int → Prop := Signed (Digits 10)

variable {text : List Char} {base n : Nat} {v : Int}

/-! ## Digits -/

/-- What holds of the first 128 characters holds of every ASCII character. -/
theorem forall_ascii {p : Char → Prop} (h : ∀ k < 128, p (Char.ofNat k)) {c : Char}
    (hc : c.toNat < 128) : p c := by
  have hp := h c.toNat hc
  rwa [Char.ofNat_toNat] at hp

theorem toNat_lt_of_isDigit {c : Char} (h : c.isDigit = true) : c.toNat < 128 := by
  have hc : 48 ≤ c.toNat ∧ c.toNat ≤ 57 := Char.isDigit_iff_toNat.1 h
  omega

/-- No character beyond ASCII is a digit. -/
theorem digitValue_of_le {c : Char} (h : 128 ≤ c.toNat) : digitValue c = 16 := by
  have hlower : c.toLower = c := by
    refine dif_neg fun hc => ?_
    have hupper : c.toNat ≤ 90 := hc.2
    omega
  have hmem : c ∉ "0123456789abcdef".toList := by
    intro hmem
    have hall : "0123456789abcdef".toList.all (·.toNat < 128) = true := by decide
    have hascii := of_decide_eq_true (List.all_eq_true.1 hall c hmem)
    omega
  rw [digitValue, hlower, List.idxOf_eq_length hmem]
  rfl

theorem hexDigit?_of_le {c : Char} (h : 128 ≤ c.toNat) : hexDigit? c = none := by
  have hdigit : ¬c.isDigit = true := fun hc => by
    have := toNat_lt_of_isDigit hc
    omega
  have hsmall : ¬('a' ≤ c ∧ c ≤ 'f') := by
    intro hc
    have hle : c.toNat ≤ 102 := hc.2
    omega
  have hcapital : ¬('A' ≤ c ∧ c ≤ 'F') := by
    intro hc
    have hle : c.toNat ≤ 70 := hc.2
    omega
  rw [hexDigit?, if_neg hdigit, if_neg hsmall, if_neg hcapital]

theorem hexDigit?_eq (c : Char) :
    hexDigit? c = if digitValue c < 16 then some (digitValue c) else none := by
  by_cases h : c.toNat < 128
  · exact forall_ascii (p := fun c =>
      hexDigit? c = if digitValue c < 16 then some (digitValue c) else none) (by decide +kernel) h
  · rw [hexDigit?_of_le (by omega), digitValue_of_le (by omega), if_neg (by omega)]

theorem isDigit_iff_digitValue {c : Char} : c.isDigit = true ↔ digitValue c < 10 := by
  by_cases h : c.toNat < 128
  · exact forall_ascii (p := fun c => c.isDigit = true ↔ digitValue c < 10) (by decide +kernel) h
  · have hdigit : ¬c.isDigit = true := fun hc => h (toNat_lt_of_isDigit hc)
    have hvalue := digitValue_of_le (c := c) (by omega)
    exact iff_of_false hdigit (by omega)

theorem digitValue_of_isDigit {c : Char} (h : c.isDigit = true) :
    c.toNat - '0'.toNat = digitValue c :=
  forall_ascii (p := fun c => c.isDigit = true → c.toNat - '0'.toNat = digitValue c)
    (by decide +kernel) (toNat_lt_of_isDigit h) h

/-! ## Unsigned numerals -/

/-- The digits after the first `high` count for as much as they would without it. -/
theorem ofDigitChars_eq (h : ∀ c ∈ text, c.isDigit = true) (high : Nat) :
    Nat.ofDigitChars 10 text high =
      Nat.ofDigits 10 (text.map digitValue).reverse + 10 ^ text.length * high := by
  induction text generalizing high with
  | nil => simp
  | cons c rest ih =>
    obtain ⟨hc, hrest⟩ := List.forall_mem_cons.1 h
    rw [Nat.ofDigitChars_cons, digitValue_of_isDigit hc, ih hrest, List.map_cons,
      Nat.ofDigits_reverse_cons, List.length_map, List.length_cons]
    ring

theorem hexadecimalAfter?_eq_some_iff {high : Nat} : hexadecimalAfter? high text = some n ↔
    (∀ c ∈ text, digitValue c < 16) ∧
      Nat.ofDigits 16 (text.map digitValue).reverse + 16 ^ text.length * high = n := by
  induction text generalizing high with
  | nil => simp [hexadecimalAfter?]
  | cons c rest ih =>
    rw [hexadecimalAfter?, hexDigit?_eq, List.forall_mem_cons]
    by_cases hc : digitValue c < 16
    · have hvalue : Nat.ofDigits 16 (rest.map digitValue).reverse +
          16 ^ rest.length * (16 * high + digitValue c) =
          Nat.ofDigits 16 ((c :: rest).map digitValue).reverse + 16 ^ (c :: rest).length * high := by
        rw [List.map_cons, Nat.ofDigits_reverse_cons, List.length_map, List.length_cons]
        ring
      rw [if_pos hc, Option.bind_some, ih, hvalue, and_iff_right hc]
    · rw [if_neg hc, Option.bind_none]
      exact iff_of_false (by simp) fun h => hc h.1.1

theorem natural?_eq_some_iff : natural? text = some n ↔ Digits 10 text n := by
  rw [natural?]
  by_cases h : text ≠ [] ∧ text.all Char.isDigit = true
  · have hdigits := List.all_eq_true.1 h.2
    rw [if_pos h, ofDigitChars_eq hdigits, Nat.mul_zero, Nat.add_zero, Option.some.injEq]
    exact ⟨fun hn => ⟨h.1, fun c hc => isDigit_iff_digitValue.1 (hdigits c hc), hn⟩,
      fun hn => hn.value⟩
  · rw [if_neg h]
    refine iff_of_false (by simp) fun hn => h ⟨hn.ne_nil, List.all_eq_true.2 fun c hc => ?_⟩
    exact isDigit_iff_digitValue.2 (hn.lt c hc)

theorem hexadecimal?_eq_some_iff : hexadecimal? text = some n ↔ Digits 16 text n := by
  rw [hexadecimal?]
  split
  · next h => exact iff_of_false (by simp) fun hn => hn.ne_nil h
  · next h =>
    rw [hexadecimalAfter?_eq_some_iff, Nat.mul_zero, Nat.add_zero]
    exact ⟨fun hn => ⟨h, hn.1, hn.2⟩, fun hn => ⟨hn.lt, hn.value⟩⟩

theorem Digits.head_lt {c : Char} (h : Digits base (c :: text) n) : digitValue c < base :=
  h.lt c List.mem_cons_self

/-- The mark of a hexadecimal magnitude is no decimal digit. -/
theorem not_digits_marked {mark : Char} (hmark : mark = 'x' ∨ mark = 'X') :
    ¬Digits 10 ('0' :: mark :: text) n := by
  intro h
  have hlt := h.lt mark (List.mem_cons_of_mem _ List.mem_cons_self)
  rcases hmark with rfl | rfl <;> exact absurd hlt (by decide)

theorem magnitude_marked_iff {mark : Char} (hmark : mark = 'x' ∨ mark = 'X') :
    Magnitude ('0' :: mark :: text) n ↔ Digits 16 text n := by
  constructor
  · intro h
    cases h with
    | decimal h => exact absurd h (not_digits_marked hmark)
    | hexadecimal _ h => exact h
  · exact .hexadecimal hmark

theorem magnitude?_eq_some_iff : magnitude? text = some n ↔ Magnitude text n := by
  unfold magnitude?
  split
  · rw [hexadecimal?_eq_some_iff, magnitude_marked_iff (.inl rfl)]
  · rw [hexadecimal?_eq_some_iff, magnitude_marked_iff (.inr rfl)]
  · next hx hX =>
    rw [natural?_eq_some_iff]
    refine ⟨.decimal, fun h => ?_⟩
    cases h with
    | decimal h => exact h
    | hexadecimal hmark _ =>
      rcases hmark with rfl | rfl
      · exact absurd rfl (hx _)
      · exact absurd rfl (hX _)

/-! ## Signs -/

/-- No sign stands at the start of what is read as a magnitude. -/
def Unsigned (magnitude : List Char → Nat → Prop) : Prop :=
  ∀ c text n, magnitude (c :: text) n → c ≠ '+' ∧ c ≠ '-'

theorem Digits.unsigned (h : base ≤ 16) : Unsigned (Digits base) := by
  intro c text n hn
  have hlt : digitValue c < 16 := lt_of_lt_of_le hn.head_lt h
  constructor
  · rintro rfl
    exact absurd hlt (by decide)
  · rintro rfl
    exact absurd hlt (by decide)

theorem Magnitude.unsigned : Unsigned Magnitude := by
  intro c text n h
  cases h with
  | decimal h => exact Digits.unsigned (by decide) c text n h
  | hexadecimal => exact ⟨by decide, by decide⟩

theorem Literal.ne_nil (h : Literal text v) : text ≠ [] := by
  cases h with
  | unsigned h =>
    cases h with
    | decimal h => exact h.ne_nil
    | hexadecimal => exact List.cons_ne_nil _ _
  | plus => exact List.cons_ne_nil _ _
  | minus => exact List.cons_ne_nil _ _

theorem splitSign_of_unsigned (h : ∀ c rest, text = c :: rest → c ≠ '+' ∧ c ≠ '-') :
    splitSign text = (false, text) := by
  unfold splitSign
  split
  · next rest => exact absurd rfl (h '-' rest rfl).2
  · next rest => exact absurd rfl (h '+' rest rfl).1
  · rfl

section Signed

variable {magnitude : List Char → Nat → Prop}

/-- A signed numeral is a magnitude behind the sign that is split off. -/
theorem signed_iff (hunsigned : Unsigned magnitude) : Signed magnitude text v ↔
    ∃ n, magnitude (splitSign text).2 n ∧ applySign (splitSign text).1 n = v := by
  constructor
  · intro h
    cases h with
    | @unsigned _ n h =>
      have hsplit : splitSign text = (false, text) := by
        refine splitSign_of_unsigned fun c rest htext => ?_
        exact hunsigned c rest n (htext ▸ h)
      exact ⟨n, by rwa [hsplit], by rw [hsplit]; rfl⟩
    | plus h => exact ⟨_, h, rfl⟩
    | minus h => exact ⟨_, h, rfl⟩
  · rintro ⟨n, h, rfl⟩
    unfold splitSign at h ⊢
    revert h
    split
    · exact .minus
    · exact .plus
    · exact .unsigned

/-- The number of a signed numeral is its magnitude up to the sign. -/
theorem Signed.natAbs_eq (hunsigned : Unsigned magnitude) (h : Signed magnitude text v) :
    magnitude (splitSign text).2 v.natAbs ∧ applySign (splitSign text).1 v.natAbs = v := by
  obtain ⟨n, hn, rfl⟩ := (signed_iff hunsigned).1 h
  have habs : (applySign (splitSign text).1 n).natAbs = n := by
    rw [applySign]
    split <;> simp
  rw [habs]
  exact ⟨hn, rfl⟩

end Signed

/-- A literal is read as its number if the magnitude has at most 63 bits. -/
theorem literal?_eq_some_iff :
    literal? text = some v ↔ Literal text v ∧ v.natAbs ≤ 0x7fffffffffffffff := by
  rw [literal?]
  simp only [Option.bind_eq_some_iff, magnitude?_eq_some_iff, Option.ite_none_right_eq_some,
    Option.some.injEq]
  constructor
  · rintro ⟨n, hn, hle, rfl⟩
    have h : Literal text (applySign (splitSign text).1 n) :=
      (signed_iff Magnitude.unsigned).2 ⟨n, hn, rfl⟩
    refine ⟨h, ?_⟩
    rw [applySign]
    split <;> simpa using hle
  · rintro ⟨h, hle⟩
    obtain ⟨hn, hv⟩ := h.natAbs_eq Magnitude.unsigned
    exact ⟨v.natAbs, hn, hle, hv⟩

/-- The magnitude of a literal that is read is a signed number of 64 bits, and so is its negation. -/
theorem exists_magnitude_of_literal? (h : literal? text = some v) :
    ∃ n : Nat, Magnitude (splitSign text).2 n ∧ v = applySign (splitSign text).1 n ∧
      (BitVec.ofInt 64 n).toInt = n ∧ (-BitVec.ofInt 64 n).toInt = -n := by
  obtain ⟨hliteral, hle⟩ := literal?_eq_some_iff.1 h
  obtain ⟨hmagnitude, hv⟩ := hliteral.natAbs_eq Magnitude.unsigned
  have hnat : (BitVec.ofInt 64 v.natAbs).toInt = v.natAbs := by
    rw [BitVec.toInt_ofInt, Int.bmod_eq_of_le] <;> omega
  refine ⟨v.natAbs, hmagnitude, hv.symm, hnat, ?_⟩
  rw [BitVec.toInt_neg, hnat, Int.bmod_eq_of_le] <;> omega

/-- A decimal number is read if it fits the range of 64-bit two's complement. -/
theorem integer?_eq_some_iff : integer? text = some v ↔
    Decimal text v ∧ -0x8000000000000000 ≤ v ∧ v ≤ 0x7fffffffffffffff := by
  rw [integer?]
  simp only [Option.bind_eq_some_iff, natural?_eq_some_iff, Option.ite_none_right_eq_some,
    Option.some.injEq]
  rw [Decimal, signed_iff (Digits.unsigned (by decide))]
  constructor
  · rintro ⟨n, hn, hrange, rfl⟩
    exact ⟨⟨n, hn, rfl⟩, hrange⟩
  · rintro ⟨⟨n, hn, rfl⟩, hrange⟩
    exact ⟨n, hn, hrange, rfl⟩

end Text
end DM2022
