import Mathlib.Data.Int.Bitwise
import Mathlib.Tactic.Linarith
import DM2022.Machine.Alu

/-!
# Exact arithmetic

Every operation has an exact result on the numbers that its operands show. What a cycle
computes is that number modulo `2 ^ 32`, with flags that tell the sign of the word and whether
the exact number was lost. The few operations that are refused are refused for their second
operand, and nothing that is computed on the way leaves the range of a word.
-/
namespace DM2022

namespace Word

/-- The number is shown by a word in two's complement. -/
def Fits (n : Int) : Prop := -0x80000000 ≤ n ∧ n ≤ 0x7fffffff

instance (n : Int) : Decidable (Fits n) := inferInstanceAs (Decidable (_ ∧ _))

variable {n : Int}

theorem fits_toInt (w : Word) : Fits w.toInt := by
  have hl := w.le_toInt
  have hu := w.toInt_lt
  exact ⟨by omega, by omega⟩

theorem toInt_ofInt_of_fits (h : Fits n) : (BitVec.ofInt 32 n).toInt = n := by
  obtain ⟨hl, hu⟩ := h
  rw [BitVec.toInt_ofInt, Int.bmod_eq_of_le] <;> omega

/-! ## Bits -/

/-- Numbers with the same bits are equal. -/
theorem eq_of_testBit_eq {a b : Int} (h : ∀ k, a.testBit k = b.testBit k) : a = b := by
  -- past its highest bit a number has the bits of its sign
  have hne : ∀ m n : Nat, ¬∀ k, (Int.ofNat m).testBit k = (Int.negSucc n).testBit k := by
    intro m n h
    have hm : m.testBit (m + n) = false := Nat.testBit_lt_two_pow
      (Nat.lt_of_le_of_lt (Nat.le_add_right m n) Nat.lt_two_pow_self)
    have hn : n.testBit (m + n) = false := Nat.testBit_lt_two_pow
      (Nat.lt_of_le_of_lt (Nat.le_add_left n m) Nat.lt_two_pow_self)
    have hk := h (m + n)
    simp only [Int.testBit, hm, hn, Bool.not_false, Bool.false_eq_true] at hk
  cases a with
  | ofNat m =>
    cases b with
    | ofNat n => exact congrArg Int.ofNat (Nat.eq_of_testBit_eq h)
    | negSucc n => exact absurd h (hne m n)
  | negSucc m =>
    cases b with
    | ofNat n => exact absurd (fun k => (h k).symm) (hne n m)
    | negSucc n => exact congrArg Int.negSucc (Nat.eq_of_testBit_eq fun k => Bool.not_inj (h k))

/-- The bits of a word go on with its sign. -/
theorem testBit_toInt (w : Word) (k : Nat) :
    w.toInt.testBit k = if k < 32 then w.getLsbD k else w.msb := by
  have hlt := w.isLt
  cases hs : w.msb with
  | false =>
    have hint : w.toInt = Int.ofNat w.toNat := by
      rw [BitVec.toInt_eq_msb_cond, hs]
      rfl
    rw [hint]
    split
    · rfl
    · exact BitVec.getLsbD_of_ge w k (by omega)
  | true =>
    have hint : w.toInt = Int.negSucc (~~~w).toNat := by
      rw [BitVec.toInt_eq_msb_cond, hs, BitVec.toNat_not, Int.negSucc_eq]
      simp only [if_true]
      omega
    have hbit : (~~~w).toNat.testBit k = (~~~w).getLsbD k := rfl
    rw [hint, Int.testBit, hbit, BitVec.getLsbD_not]
    split
    · next hk => simp [hk]
    · next hk => simp [hk]

theorem toInt_and (a b : Word) : (a &&& b).toInt = a.toInt.land b.toInt := by
  refine eq_of_testBit_eq fun k => ?_
  rw [Int.testBit_land, testBit_toInt, testBit_toInt, testBit_toInt]
  split <;> simp

theorem toInt_or (a b : Word) : (a ||| b).toInt = a.toInt.lor b.toInt := by
  refine eq_of_testBit_eq fun k => ?_
  rw [Int.testBit_lor, testBit_toInt, testBit_toInt, testBit_toInt]
  split <;> simp

theorem toInt_xor (a b : Word) : (a ^^^ b).toInt = a.toInt.xor b.toInt := by
  refine eq_of_testBit_eq fun k => ?_
  rw [Int.testBit_lxor, testBit_toInt, testBit_toInt, testBit_toInt]
  split <;> simp

end Word

namespace AluOp

/-- The exact result of an operation. Division rounds down, also that by a power of two. -/
def exact (op : AluOp) (left right : Int) : Int :=
  match op with
  | .add => left + right
  | .sub => left - right
  | .mul => left * right
  | .div => left.fdiv right
  | .and => left.land right
  | .or => left.lor right
  | .xor => left.xor right
  | .shl => left * 2 ^ right.toNat
  | .shr => left.fdiv (2 ^ right.toNat)

/-- An operation is refused for its second operand: a divisor of zero or a negative count. -/
inductive Refuses : AluOp → Word → FaultKind → Prop
  | division : Refuses .div 0 .divideByZero
  | shiftLeft {count : Word} (negative : count.toInt < 0) : Refuses .shl count (.badShift count)
  | shiftRight {count : Word} (negative : count.toInt < 0) : Refuses .shr count (.badShift count)

/-- The word of a number, and whether the number is not what the word shows. -/
structure Wraps (n : Int) (r : Word × Bool) : Prop where
  value_eq : r.1 = .ofInt 32 n
  lost_iff : r.2 = true ↔ ¬Word.Fits n

variable {left right : Word} {n : Int}

theorem wraps_of_toInt {w : Word} (h : w.toInt = n) : Wraps n (w, false) := by
  subst h
  refine ⟨BitVec.ofInt_toInt.symm, ?_⟩
  simp [Word.fits_toInt]

/-! ## Sums and products -/

theorem wraps_sum (left right : Word) : Wraps (left.toInt + right.toInt) (sum left right) := by
  rw [sum_eq]
  refine ⟨?_, ?_⟩
  · rw [BitVec.ofInt_add, BitVec.ofInt_toInt, BitVec.ofInt_toInt]
  · simp only [BitVec.saddOverflow, Bool.or_eq_true, decide_eq_true_eq, Word.Fits]
    omega

theorem wraps_difference (left right : Word) :
    Wraps (left.toInt - right.toInt) (difference left right) := by
  rw [difference_eq]
  refine ⟨?_, ?_⟩
  · rw [Int.sub_eq_add_neg, BitVec.ofInt_add, BitVec.ofInt_neg, BitVec.ofInt_toInt,
      BitVec.ofInt_toInt, BitVec.sub_eq_add_neg]
  · simp only [BitVec.ssubOverflow, Bool.or_eq_true, decide_eq_true_eq, Word.Fits]
    omega

theorem wraps_product (left right : Word) :
    Wraps (left.toInt * right.toInt) (left * right, left.smulOverflow right) := by
  refine ⟨?_, ?_⟩
  · rw [BitVec.ofInt_mul, BitVec.ofInt_toInt, BitVec.ofInt_toInt]
  · simp only [BitVec.smulOverflow, Bool.or_eq_true, decide_eq_true_eq, Word.Fits]
    omega

/-! ## Quotients -/

theorem fits_ediv {a b : Int} (hb : 0 < b) (hl : -0x80000000 ≤ a) (hu : a ≤ 0x80000000) :
    Word.Fits (a / b) ↔ ¬(a = 0x80000000 ∧ b = 1) := by
  have hlow : -0x80000000 ≤ a / b := by
    rw [Int.le_ediv_iff_mul_le hb]
    linarith
  constructor
  · intro h hab
    obtain ⟨rfl, rfl⟩ := hab
    exact absurd h (by decide)
  · intro h
    refine ⟨hlow, Int.le_of_lt_add_one ?_⟩
    rw [Int.ediv_lt_iff_lt_mul hb]
    omega

/-- A quotient is lost in one case only: the least number is divided by minus one. -/
theorem fits_fdiv {a b : Int} (ha : Word.Fits a) (hb : b ≠ 0) :
    Word.Fits (a.fdiv b) ↔ ¬(a = -0x80000000 ∧ b = -1) := by
  obtain ⟨hl, hu⟩ := ha
  rcases Int.lt_or_gt_of_ne hb with hneg | hpos
  · rw [← Int.neg_fdiv_neg, Int.fdiv_eq_ediv_of_nonneg _ (by omega),
      fits_ediv (by omega) (by omega) (by omega)]
    omega
  · rw [Int.fdiv_eq_ediv_of_nonneg _ (by omega), fits_ediv hpos (by omega) (by omega)]
    omega

/-- Rounding down corrects the quotient that is rounded toward zero, if the division leaves a
remainder and the signs differ. -/
theorem fdiv_eq_tdiv_sub (a : Int) {b : Int} (hb : b ≠ 0) : a.fdiv b =
    if a.tmod b ≠ 0 ∧ decide (a < 0) ≠ decide (b < 0) then a.tdiv b - 1 else a.tdiv b := by
  simp only [Int.fdiv_eq_tdiv, Int.dvd_iff_tmod_eq_zero]
  by_cases hrem : a.tmod b = 0
  · simp [hrem]
  · rcases Int.lt_or_gt_of_ne hb with hneg | hpos
    · have hsign : b.sign = -1 := Int.sign_eq_neg_one_of_neg hneg
      by_cases ha : 0 ≤ a <;> simp [hrem, ha, hneg, hsign]
    · have hsign : b.sign = 1 := Int.sign_eq_one_of_pos hpos
      have hnot : ¬b < 0 := Int.not_lt.2 (Int.le_of_lt hpos)
      by_cases ha : 0 ≤ a <;> simp [hrem, ha, hnot, hsign, Int.le_of_lt hpos]

theorem sdiv_eq (left right : Word) :
    left.sdiv right = .ofInt 32 (left.toInt.tdiv right.toInt) := by
  apply BitVec.eq_of_toInt_eq
  rw [BitVec.toInt_sdiv, BitVec.toInt_ofInt]

theorem sdivOverflow_iff (left right : Word) :
    left.sdivOverflow right = true ↔ left.toInt = -0x80000000 ∧ right.toInt = -1 := by
  have hleast : (BitVec.intMin 32).toInt = -0x80000000 := by decide
  have hminus : (BitVec.allOnes 32).toInt = -1 := by decide
  rw [BitVec.sdivOverflow_eq, ← hleast, ← hminus, BitVec.toInt_inj, BitVec.toInt_inj]
  simp

/-- The test of the division is that of its exact result. -/
theorem rounds_iff (left right : Word) : (left.srem right ≠ 0 ∧ left.msb ≠ right.msb) ↔
    left.toInt.tmod right.toInt ≠ 0 ∧ decide (left.toInt < 0) ≠ decide (right.toInt < 0) := by
  have hrem : left.srem right = 0 ↔ left.toInt.tmod right.toInt = 0 := by
    rw [← BitVec.toInt_srem, ← BitVec.toInt_inj]
    rfl
  rw [Ne, hrem, BitVec.msb_eq_toInt, BitVec.msb_eq_toInt]

theorem toInt_ne_zero (h : right ≠ 0) : right.toInt ≠ 0 :=
  fun hz => h (BitVec.eq_of_toInt_eq hz)

theorem wraps_floorDiv (h : right ≠ 0) :
    ∃ r, floorDiv left right = .ok r ∧ Wraps (left.toInt.fdiv right.toInt) r := by
  have hne := toInt_ne_zero h
  have hfits := fits_fdiv left.fits_toInt hne
  have hexact := fdiv_eq_tdiv_sub left.toInt hne
  rw [floorDiv, if_neg h]
  simp only
  split
  · next hrounds =>
    have hrounds := (rounds_iff left right).1 hrounds
    rw [if_pos hrounds] at hexact
    refine ⟨_, rfl, ?_, ?_⟩
    · have hminus : BitVec.ofInt 32 (-1) = -1 := by decide
      rw [hexact, sdiv_eq, Int.sub_eq_add_neg, BitVec.ofInt_add, hminus, BitVec.sub_eq_add_neg]
    · have hinner : ¬(left.toInt = -0x80000000 ∧ right.toInt = -1) := fun hleast => by
        rw [hleast.1, hleast.2] at hrounds
        exact absurd hrounds (by decide)
      simp [hfits.2 hinner]
  · next hrounds =>
    rw [if_neg (mt (rounds_iff left right).2 hrounds)] at hexact
    refine ⟨_, rfl, ?_, ?_⟩
    · rw [hexact, sdiv_eq]
    · rw [sdivOverflow_iff, hfits, not_not]

/-! ## Shifts -/

theorem shiftLeft_eq (left : Word) (n : Nat) :
    left <<< n = .ofInt 32 (left.toInt * 2 ^ n) := by
  have hpow : BitVec.ofInt 32 (2 ^ n) = BitVec.twoPow 32 n := by
    have hcast : (2 ^ n : Int) = ((2 ^ n : Nat) : Int) := (Nat.cast_pow 2 n).symm
    apply BitVec.eq_of_toNat_eq
    rw [hcast, BitVec.ofInt_natCast, BitVec.toNat_ofNat, BitVec.toNat_twoPow]
  rw [BitVec.shiftLeft_eq_mul_twoPow, BitVec.ofInt_mul, BitVec.ofInt_toInt, hpow]

/-- A number that is shifted past a word is lost, unless it is zero. -/
theorem fits_mul_two_pow_iff {a : Int} {n : Nat} (hn : 32 ≤ n) :
    Word.Fits (a * 2 ^ n) ↔ a = 0 := by
  have hpow : a * 2 ^ n = 0x100000000 * (a * 2 ^ (n - 32)) := by
    obtain ⟨k, rfl⟩ := Nat.exists_eq_add_of_le hn
    rw [Nat.add_sub_cancel_left, pow_add, Int.mul_left_comm]
    rfl
  have hzero : a * 2 ^ (n - 32) = 0 ↔ a = 0 := by simp
  rw [hpow, ← hzero, Word.Fits]
  omega

/-- A shifted word is shifted back to what it was, if it shows the exact number. -/
theorem sshiftRight_shiftLeft_iff (left : Word) {n : Nat} (hn : n < 32) :
    (left <<< n).sshiftRight n = left ↔ Word.Fits (left.toInt * 2 ^ n) := by
  have hpos : (2 ^ n : Int) ≠ 0 := by positivity
  rw [← BitVec.toInt_inj, BitVec.toInt_sshiftRight, Int.shiftRight_eq_div_pow, Nat.cast_pow,
    Nat.cast_ofNat, shiftLeft_eq]
  constructor
  · intro h
    -- both the word and the exact number are multiples of the power
    have hdvd : (2 ^ n : Int) ∣ (BitVec.ofInt 32 (left.toInt * 2 ^ n)).toInt := by
      have hword : (2 ^ n : Int) ∣ 2 ^ 32 := pow_dvd_pow 2 (Nat.le_of_lt hn)
      have hwrap : (2 ^ 32 : Int) ∣ (left.toInt * 2 ^ n).bmod (2 ^ 32) - left.toInt * 2 ^ n :=
        Int.dvd_bmod_sub_self
      rw [BitVec.toInt_ofInt]
      exact (Int.dvd_iff_dvd_of_dvd_sub (hword.trans hwrap)).2 (Int.dvd_mul_left _ _)
    have hexact := Int.ediv_mul_cancel hdvd
    rw [h] at hexact
    rw [hexact]
    exact Word.fits_toInt _
  · intro h
    rw [Word.toInt_ofInt_of_fits h, Int.mul_ediv_cancel _ hpos]

theorem toNat_count (h : 0 ≤ right.toInt) : right.msb = false ∧ right.toInt.toNat = right.toNat := by
  have hmsb : right.msb = false := by
    rw [BitVec.msb_eq_toInt]
    simpa using h
  rw [BitVec.toInt_eq_toNat_of_msb hmsb]
  exact ⟨hmsb, Int.toNat_natCast _⟩

theorem wraps_shiftLeft (h : 0 ≤ right.toInt) :
    ∃ r, shiftLeft left right = .ok r ∧ Wraps (left.toInt * 2 ^ right.toInt.toNat) r := by
  obtain ⟨hmsb, hcount⟩ := toNat_count h
  rw [shiftLeft, hmsb, hcount]
  simp only [Bool.false_eq_true, if_false]
  split
  · next hn =>
    refine ⟨_, rfl, ?_, ?_⟩
    · rw [← shiftLeft_eq, BitVec.shiftLeft_eq_zero hn]
      rfl
    · rw [fits_mul_two_pow_iff hn, ← BitVec.toInt_zero, BitVec.toInt_inj]
      simp
  · next hn =>
    refine ⟨_, rfl, shiftLeft_eq left _, ?_⟩
    rw [← sshiftRight_shiftLeft_iff left (Nat.lt_of_not_le hn)]
    simp

/-- Shifts by 31 places and more leave the sign. -/
theorem sshiftRight_min (left : Word) (n : Nat) :
    (left.sshiftRight (min n 31)).toInt = left.toInt.fdiv (2 ^ n) := by
  rw [Int.fdiv_eq_ediv_of_nonneg _ (by positivity), BitVec.toInt_sshiftRight,
    Int.shiftRight_eq_div_pow, Nat.cast_pow, Nat.cast_ofNat]
  rcases Nat.le_total n 31 with hn | hn
  · rw [Nat.min_eq_left hn]
  · have hfits := left.fits_toInt
    have hpow : (2 ^ 31 : Int) ≤ 2 ^ n := pow_le_pow_right₀ (by decide) hn
    obtain ⟨hl, hu⟩ := hfits
    rw [Nat.min_eq_right hn]
    rcases Int.lt_or_le left.toInt 0 with hneg | hnonneg
    · rw [Int.ediv_eq_neg_one_of_neg_of_le hneg (by omega),
        Int.ediv_eq_neg_one_of_neg_of_le hneg (by omega)]
    · rw [Int.ediv_eq_zero_of_lt hnonneg (by omega), Int.ediv_eq_zero_of_lt hnonneg (by omega)]

theorem wraps_shiftRight (h : 0 ≤ right.toInt) :
    ∃ r, shiftRight left right = .ok r ∧ Wraps (left.toInt.fdiv (2 ^ right.toInt.toNat)) r := by
  obtain ⟨hmsb, hcount⟩ := toNat_count h
  rw [shiftRight, hmsb, hcount]
  exact ⟨_, rfl, wraps_of_toInt (sshiftRight_min left _)⟩

/-! ## Results -/

/-- An operation is refused for its second operand, or gives its exact result, wrapped. -/
theorem result_cases (op : AluOp) (left right : Word) :
    (∃ kind, Refuses op right kind ∧ op.result left right = .error kind) ∨
      (∀ kind, ¬Refuses op right kind) ∧
        ∃ r, op.result left right = .ok r ∧ Wraps (op.exact left.toInt right.toInt) r := by
  cases op with
  | add => exact .inr ⟨nofun, _, rfl, wraps_sum left right⟩
  | sub => exact .inr ⟨nofun, _, rfl, wraps_difference left right⟩
  | mul => exact .inr ⟨nofun, _, rfl, wraps_product left right⟩
  | and => exact .inr ⟨nofun, _, rfl, wraps_of_toInt (Word.toInt_and left right)⟩
  | or => exact .inr ⟨nofun, _, rfl, wraps_of_toInt (Word.toInt_or left right)⟩
  | xor => exact .inr ⟨nofun, _, rfl, wraps_of_toInt (Word.toInt_xor left right)⟩
  | div =>
    by_cases hz : right = 0
    · subst hz
      exact .inl ⟨_, .division, rfl⟩
    · refine .inr ⟨fun kind h => ?_, wraps_floorDiv hz⟩
      cases h
      exact hz rfl
  | shl =>
    rcases Int.lt_or_le right.toInt 0 with hneg | hcount
    · have hmsb : right.msb = true := by simpa [BitVec.msb_eq_toInt] using hneg
      exact .inl ⟨_, .shiftLeft hneg, if_pos hmsb⟩
    · refine .inr ⟨fun kind h => ?_, wraps_shiftLeft hcount⟩
      cases h with
      | shiftLeft hneg => exact absurd hneg (Int.not_lt.2 hcount)
  | shr =>
    rcases Int.lt_or_le right.toInt 0 with hneg | hcount
    · have hmsb : right.msb = true := by simpa [BitVec.msb_eq_toInt] using hneg
      exact .inl ⟨_, .shiftRight hneg, if_pos hmsb⟩
    · refine .inr ⟨fun kind h => ?_, wraps_shiftRight hcount⟩
      cases h with
      | shiftRight hneg => exact absurd hneg (Int.not_lt.2 hcount)

end AluOp

/-- The flags tell the sign of the value and whether the exact number was lost, and hold
nothing else. -/
structure Flags.Tell (flags : Flags) (value : Int) (lost : Prop) : Prop where
  minus_iff : flags.contains minus = true ↔ value < 0
  zero_iff : flags.contains zero = true ↔ value = 0
  plus_iff : flags.contains plus = true ↔ 0 < value
  overflow_iff : flags.contains overflow = true ↔ lost
  named : flags.bits.toNat < 16

/-- A sign with or without the overflow is found again among the flags. -/
theorem Flags.contains_sign : ∀ sign ∈ [minus, zero, plus], ∀ lost : Bool,
    ∀ flags ∈ [if lost then sign.union overflow else sign],
      (flags.contains minus = true ↔ sign = minus) ∧ (flags.contains zero = true ↔ sign = zero) ∧
      (flags.contains plus = true ↔ sign = plus) ∧ flags.contains overflow = lost ∧
      flags.bits.toNat < 16 := by
  decide

theorem Flags.tell_ofResult (value : Word) (lost : Bool) :
    (ofResult value lost).Tell value.toInt (lost = true) := by
  have hmsb : value.msb = true ↔ value.toInt < 0 := by simp [BitVec.msb_eq_toInt]
  have hzero : value = 0 ↔ value.toInt = 0 := BitVec.toInt_inj.symm
  obtain ⟨sign, hmem, hresult, hlt, heq, hgt⟩ : ∃ sign ∈ [minus, zero, plus],
      ofResult value lost = (if lost then sign.union overflow else sign) ∧
      (sign = minus ↔ value.toInt < 0) ∧ (sign = zero ↔ value.toInt = 0) ∧
      (sign = plus ↔ 0 < value.toInt) := by
    rcases Int.lt_trichotomy value.toInt 0 with h | h | h
    · refine ⟨minus, by simp, ?_, iff_of_true rfl h, iff_of_false (by decide) (by omega),
        iff_of_false (by decide) (by omega)⟩
      rw [ofResult, if_pos (hmsb.2 h)]
    · refine ⟨zero, by simp, ?_, iff_of_false (by decide) (by omega), iff_of_true rfl h,
        iff_of_false (by decide) (by omega)⟩
      rw [ofResult, if_neg (mt hmsb.1 (by omega)), if_pos (hzero.2 h)]
    · refine ⟨plus, by simp, ?_, iff_of_false (by decide) (by omega),
        iff_of_false (by decide) (by omega), iff_of_true rfl h⟩
      rw [ofResult, if_neg (mt hmsb.1 (by omega)), if_neg (mt hzero.1 (by omega))]
  obtain ⟨hm, hz, hp, hv, hbits⟩ := contains_sign sign hmem lost _ List.mem_cons_self
  rw [hresult]
  exact ⟨hm.trans hlt, hz.trans heq, hp.trans hgt, by rw [hv], hbits⟩

namespace AluOp

variable {left right : Word}

/-! ## Intermediate values -/

/-- The quotient of a division, if there is one, and whether it overflows. -/
def quotient? (left right : Word) : Option (Word × Bool) :=
  if right = 0 then none else some (left.sdiv right, left.sdivOverflow right)

/-- The remainder of a division that does not overflow. -/
def remainder? (left right : Word) : Option Word :=
  if right = 0 ∨ left.sdivOverflow right then none else some (left.srem right)

/-- The word before `w`, unless `w` is the least one. -/
def predecessor? (w : Word) : Option Word := if w.ssubOverflow 1 then none else some (w - 1)

/-- A word that is shifted by fewer places than it has. -/
def moved? (shift : Word → Nat → Word) (w : Word) (places : Nat) : Option Word :=
  if places < 32 then some (shift w places) else none

/-- `floorDiv` in steps that stop where a value on the way is out of range. -/
def floorDiv? (left right : Word) : Option (Except FaultKind (Word × Bool)) :=
  if right = 0 then some (.error .divideByZero)
  else do
    let (quotient, lost) ← quotient? left right
    if lost then return .ok (quotient, lost)
    else
      let remainder ← remainder? left right
      if remainder ≠ 0 ∧ left.msb ≠ right.msb then return .ok (← predecessor? quotient, false)
      else return .ok (quotient, lost)

/-- `shiftLeft` in such steps. -/
def shiftLeft? (left count : Word) : Option (Except FaultKind (Word × Bool)) :=
  if count.msb then some (.error (.badShift count))
  else if 32 ≤ count.toNat then some (.ok (0, left != 0))
  else do
    let value ← moved? (· <<< ·) left count.toNat
    let back ← moved? BitVec.sshiftRight value count.toNat
    return .ok (value, back != left)

/-- `shiftRight` in such steps. -/
def shiftRight? (left count : Word) : Option (Except FaultKind (Word × Bool)) :=
  if count.msb then some (.error (.badShift count))
  else do return .ok (← moved? BitVec.sshiftRight left (min count.toNat 31), false)

/-- `result` in such steps. The operations that are not named here wrap at once. -/
def result? (op : AluOp) (left right : Word) : Option (Except FaultKind (Word × Bool)) :=
  match op with
  | .div => floorDiv? left right
  | .shl => shiftLeft? left right
  | .shr => shiftRight? left right
  | op => some (op.result left right)

theorem moved?_of_lt (shift : Word → Nat → Word) (w : Word) {n : Nat} (h : n < 32) :
    moved? shift w n = some (shift w n) := if_pos h

/-- The quotient that rounding down corrects is not the least word. -/
theorem predecessor?_of_rounds (h : left.srem right ≠ 0 ∧ left.msb ≠ right.msb)
    (hz : right ≠ 0) (hover : left.sdivOverflow right = false) :
    predecessor? (left.sdiv right) = some (left.sdiv right - 1) := by
  have hne := toInt_ne_zero hz
  have hinner : ¬(left.toInt = -0x80000000 ∧ right.toInt = -1) := by
    rw [← sdivOverflow_iff, hover]
    exact Bool.false_ne_true
  have hfits := (fits_fdiv left.fits_toInt hne).2 hinner
  have hexact := fdiv_eq_tdiv_sub left.toInt hne
  rw [if_pos ((rounds_iff left right).1 h)] at hexact
  have hquotient : (left.sdiv right).toInt = left.toInt.tdiv right.toInt := by
    refine BitVec.toInt_sdiv_of_ne_or_ne left right (or_iff_not_imp_left.2 fun hleast hminus => ?_)
    rw [not_not] at hleast
    exact hinner ⟨by rw [hleast]; decide, by rw [hminus]; decide⟩
  have hkept : ¬(left.sdiv right).ssubOverflow 1 = true := by
    have hlost := (wraps_difference (left.sdiv right) 1).lost_iff
    have hone : (1 : Word).toInt = 1 := by decide
    rw [difference_eq, hone, hquotient, ← hexact] at hlost
    exact fun h => hlost.1 h hfits
  rw [predecessor?, if_neg hkept]

theorem floorDiv?_eq (left right : Word) : floorDiv? left right = some (floorDiv left right) := by
  rw [floorDiv?, floorDiv]
  split
  · rfl
  · next hz =>
    have hquotient : quotient? left right = some (left.sdiv right, left.sdivOverflow right) :=
      if_neg hz
    rw [hquotient, Option.bind_eq_bind, Option.bind_some]
    cases hover : left.sdivOverflow right with
    | true =>
      obtain ⟨hleast, hminus⟩ := (sdivOverflow_iff left right).1 hover
      have hexact : ¬(left.srem right ≠ 0 ∧ left.msb ≠ right.msb) := by
        rw [rounds_iff, hleast, hminus]
        decide
      simp only [if_true, if_neg hexact]
      rfl
    | false =>
      have hremainder : remainder? left right = some (left.srem right) := by
        rw [remainder?, hover, if_neg (by simpa using hz)]
      simp only [Bool.false_eq_true, if_false, hremainder, Option.bind_eq_bind, Option.bind_some]
      split
      · next hrounds =>
        rw [predecessor?_of_rounds hrounds hz hover]
        rfl
      · rfl

theorem shiftLeft?_eq (left count : Word) :
    shiftLeft? left count = some (shiftLeft left count) := by
  rw [shiftLeft?, shiftLeft]
  split
  · rfl
  · split
    · rfl
    · next hn =>
      have hlt : count.toNat < 32 := Nat.lt_of_not_le hn
      rw [moved?_of_lt _ _ hlt, Option.bind_eq_bind, Option.bind_some, moved?_of_lt _ _ hlt]
      rfl

theorem shiftRight?_eq (left count : Word) :
    shiftRight? left count = some (shiftRight left count) := by
  rw [shiftRight?, shiftRight, moved?_of_lt _ _ (by omega)]
  split <;> rfl

/-- Nothing that is computed on the way to a result is out of range. -/
theorem result?_eq (op : AluOp) (left right : Word) :
    op.result? left right = some (op.result left right) := by
  cases op with
  | div => exact floorDiv?_eq left right
  | shl => exact shiftLeft?_eq left right
  | shr => exact shiftRight?_eq left right
  | _ => rfl

/-- Every operation is refused for its second operand or gives the word of its exact result,
with the flags of that word and of whether the exact result was lost. No value on the way is out
of range, whatever the operands are. -/
theorem exec_exact (op : AluOp) (left right : Word) :
    ((∃ kind, Refuses op right kind ∧ op.exec left right = .error kind) ∨
      (∀ kind, ¬Refuses op right kind) ∧
        ∃ value flags, op.exec left right = .ok (value, flags) ∧
          (0x100000000 : Int) ∣ value.toInt - op.exact left.toInt right.toInt ∧
          flags.Tell value.toInt (¬Word.Fits (op.exact left.toInt right.toInt))) ∧
    op.result? left right = some (op.result left right) := by
  refine ⟨?_, result?_eq op left right⟩
  rcases result_cases op left right with ⟨kind, hrefused, hresult⟩ | ⟨hnone, r, hresult, hwraps⟩
  · exact .inl ⟨kind, hrefused, by rw [exec, hresult]; rfl⟩
  · refine .inr ⟨hnone, r.1, .ofResult r.1 r.2, by rw [exec, hresult]; rfl, ?_, ?_⟩
    · rw [hwraps.value_eq, BitVec.toInt_ofInt]
      exact Int.dvd_bmod_sub_self
    · rw [← propext hwraps.lost_iff]
      exact Flags.tell_ofResult r.1 r.2

/-- Numbers of mixed signs, a count past the word and a quotient that no word shows. -/
example : exact .div (-7) 2 = -4 ∧ exact .shr (-1) 40 = -1 ∧
    exact .div (-0x80000000) (-1) = 0x80000000 := by
  decide

end AluOp
end DM2022
