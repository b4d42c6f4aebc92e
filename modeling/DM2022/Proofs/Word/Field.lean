import DM2022.Word.Field
import Mathlib.Algebra.Group.Nat.Defs
import Mathlib.Algebra.Ring.Int.Defs

/-!
# Laws of bit fields

A number that fits a field reads back after it was inserted, and fields that share no bit
do not disturb each other.
-/
namespace DM2022.Field

variable {f g : Field} {word word' : Word} {value : Int}

/-- One field ends before the other begins. -/
def Apart (f g : Field) : Prop := f.shift + f.width ≤ g.shift ∨ g.shift + g.width ≤ f.shift

instance (f g : Field) : Decidable (f.Apart g) := inferInstanceAs (Decidable (_ ∨ _))

/-! ## Masks and shifts -/

theorem two_pow_width_le (f : Field) : 2 ^ f.width ≤ 0x100000000 :=
  Nat.pow_le_pow_right (by decide) (Nat.le_of_add_left_le f.fits_word)

theorem toNat_lowMask {width : Nat} (h : width ≤ 32) :
    (lowMask width).toNat = 2 ^ width - 1 := by
  rw [lowMask]
  split
  · next hwide =>
    obtain rfl := Nat.le_antisymm h hwide
    rfl
  · next hnarrow =>
    have hlt : 2 ^ width < 2 ^ 32 := Nat.pow_lt_pow_right (by decide) (Nat.lt_of_not_le hnarrow)
    have hpos := Nat.two_pow_pos width
    have hone : (1 : Word).toNat = 1 := rfl
    rw [BitVec.toNat_sub, BitVec.toNat_shiftLeft, Nat.shiftLeft_eq, BitVec.toNat_ofNat, hone]
    omega

theorem getLsbD_lowMask {width : Nat} (h : width ≤ 32) (i : Nat) :
    (lowMask width).getLsbD i = decide (i < width) := by
  rw [BitVec.getLsbD, toNat_lowMask h, Nat.testBit_two_pow_sub_one]

theorem getLsbD_mask (f : Field) (i : Nat) : f.mask.getLsbD i = decide (i < f.width) :=
  getLsbD_lowMask (Nat.le_of_add_left_le f.fits_word) i

theorem getLsbD_wordMask (f : Field) (i : Nat) :
    f.wordMask.getLsbD i = decide (f.shift ≤ i ∧ i < f.shift + f.width) := by
  have := f.fits_word
  rw [wordMask, BitVec.getLsbD_shiftLeft, getLsbD_mask, Bool.eq_iff_iff]
  simp
  omega

/-- The bits of the field in `word`, as many as it has. -/
def slice (f : Field) (word : Word) : BitVec f.width := word.extractLsb' f.shift f.width

theorem getLsbD_slice (f : Field) (word : Word) (i : Nat) :
    (f.slice word).getLsbD i = (decide (i < f.width) && word.getLsbD (f.shift + i)) := by
  rw [slice, BitVec.getLsbD_extractLsb']

theorem bits_eq (f : Field) (word : Word) : f.bits word = (f.slice word).setWidth 32 := by
  apply BitVec.eq_of_getLsbD_eq
  intro i hi
  rw [bits, BitVec.getLsbD_and, BitVec.getLsbD_ushiftRight, getLsbD_mask, BitVec.getLsbD_setWidth,
    getLsbD_slice, Bool.and_comm]
  simp [hi]

theorem toNat_bits_eq (f : Field) (word : Word) : (f.bits word).toNat = (f.slice word).toNat := by
  have hlt := (f.slice word).isLt
  have hle := f.two_pow_width_le
  rw [bits_eq, BitVec.toNat_setWidth]
  omega

/-! ## Two's complement -/

/-- A power of two below the sign bit. -/
theorem toInt_one_shiftLeft {n : Nat} (h : n ≤ 32) : (1#64 <<< n).toInt = 2 ^ n := by
  have hle : 2 ^ n ≤ 2 ^ 32 := Nat.pow_le_pow_right (by decide) h
  have hcast : ((2 ^ n : Nat) : Int) = 2 ^ n := Int.natCast_pow 2 n
  have hnat : (1#64 <<< n).toNat = 2 ^ n := by
    rw [BitVec.toNat_shiftLeft, BitVec.toNat_ofNat, Nat.shiftLeft_eq]
    omega
  rw [BitVec.toInt_eq_toNat_of_lt (by omega), hnat, hcast]

section SignExtension

variable {width : Nat} (hpos : 0 < width) (hle : width ≤ 32)

theorem toNat_and_lowMask (hle : width ≤ 32) (bits : Word) :
    (bits &&& lowMask width).toNat = (bits.setWidth width).toNat := by
  rw [BitVec.toNat_and, toNat_lowMask hle, Nat.and_two_pow_sub_one_eq_mod, BitVec.toNat_setWidth]

include hpos hle

/-- The bit that is tested is the sign. -/
theorem and_top_ne_zero_iff (bits : Word) :
    (bits &&& lowMask width).setWidth 64 &&& 1#64 <<< (width - 1) ≠ 0 ↔
      (bits.setWidth width).msb = true := by
  have hlast : width - 1 < width := Nat.sub_lt hpos Nat.one_pos
  have hword : width - 1 < 64 := by omega
  have hbit : ((bits &&& lowMask width).setWidth 64).getLsbD (width - 1) =
      (bits.setWidth width).msb := by
    rw [BitVec.msb_eq_getLsbD_last, BitVec.getLsbD_setWidth, BitVec.getLsbD_setWidth,
      BitVec.getLsbD_and, getLsbD_lowMask hle]
    simp [hlast, hword]
  rw [← BitVec.twoPow_eq, BitVec.and_twoPow, hbit]
  split
  · next h =>
    refine iff_of_true (fun hzero => ?_) h
    have htop := congrArg (·.getLsbD (width - 1)) hzero
    simp [hword] at htop
  · next h => exact iff_of_false (fun hzero => hzero rfl) h

theorem signExtend_eq (bits : Word) : signExtend bits width = (bits.setWidth width).toInt := by
  have hlt := (bits.setWidth width).isLt
  have hpow : 2 ^ width ≤ 2 ^ 32 := Nat.pow_le_pow_right (by decide) hle
  have hcast : ((2 ^ width : Nat) : Int) = 2 ^ width := Int.natCast_pow 2 width
  have hnat : ((bits &&& lowMask width).setWidth 64).toNat = (bits.setWidth width).toNat := by
    rw [BitVec.toNat_setWidth, toNat_and_lowMask hle]
    omega
  have hint : ((bits &&& lowMask width).setWidth 64).toInt = (bits.setWidth width).toNat := by
    rw [BitVec.toInt_eq_toNat_of_lt (by omega), hnat]
  simp only [signExtend, and_top_ne_zero_iff hpos hle]
  rw [BitVec.toInt_eq_msb_cond (bits.setWidth width)]
  split
  · rw [BitVec.toInt_sub, hint, toInt_one_shiftLeft hle, ← hcast]
    exact Int.bmod_eq_of_le (by omega) (by omega)
  · exact hint

end SignExtension

theorem extract_eq (f : Field) (word : Word) : f.extract word =
    if f.signed then (f.slice word).toInt else ((f.slice word).toNat : Int) := by
  have hle : f.width ≤ 32 := Nat.le_of_add_left_le f.fits_word
  rw [extract, toNat_bits_eq, signExtend_eq f.width_pos hle, bits_eq,
    BitVec.setWidth_setWidth_of_le _ hle, BitVec.setWidth_eq]

theorem least_eq (f : Field) : f.least = if f.signed then -2 ^ (f.width - 1) else 0 := by
  have hfits := f.fits_word
  have hle : 2 ^ (f.width - 1) ≤ 2 ^ 32 := Nat.pow_le_pow_right (by decide) (by omega)
  have hcast : ((2 ^ (f.width - 1) : Nat) : Int) = 2 ^ (f.width - 1) := Int.natCast_pow 2 _
  have hpos := Nat.two_pow_pos (f.width - 1)
  rw [least]
  split
  · rw [BitVec.toInt_neg, toInt_one_shiftLeft (by omega), ← hcast]
    exact Int.bmod_eq_of_le (by omega) (by omega)
  · rfl

/-- One less than a power of two. -/
theorem toInt_one_shiftLeft_sub_one {n : Nat} (h : n ≤ 32) :
    (1#64 <<< n - 1).toInt = 2 ^ n - 1 := by
  have hle : 2 ^ n ≤ 2 ^ 32 := Nat.pow_le_pow_right (by decide) h
  have hpos := Nat.two_pow_pos n
  have hcast : ((2 ^ n : Nat) : Int) = 2 ^ n := Int.natCast_pow 2 n
  have hone : (1 : BitVec 64).toInt = 1 := rfl
  rw [BitVec.toInt_sub, toInt_one_shiftLeft h, hone, ← hcast]
  exact Int.bmod_eq_of_le (by omega) (by omega)

theorem greatest_eq (f : Field) :
    f.greatest = if f.signed then 2 ^ (f.width - 1) - 1 else 2 ^ f.width - 1 := by
  have hfits := f.fits_word
  rw [greatest]
  split
  · exact toInt_one_shiftLeft_sub_one (by omega)
  · exact toInt_one_shiftLeft_sub_one (by omega)

/-! ## Insertion -/

/-- The word with other bits in the field. -/
def put (f : Field) (word : Word) (bits : BitVec f.width) : Word :=
  word &&& ~~~f.wordMask ||| bits.setWidth 32 <<< f.shift

theorem getLsbD_put (f : Field) (word : Word) (b : BitVec f.width) (i : Nat) :
    (f.put word b).getLsbD i =
      if f.shift ≤ i ∧ i < f.shift + f.width then b.getLsbD (i - f.shift) else word.getLsbD i := by
  have := f.fits_word
  by_cases hi : i < 32
  · rw [put, BitVec.getLsbD_or, BitVec.getLsbD_and, BitVec.getLsbD_not, getLsbD_wordMask,
      BitVec.getLsbD_shiftLeft, BitVec.getLsbD_setWidth]
    split
    · next h =>
      have hs : ¬i < f.shift := by omega
      have hb : i - f.shift < 32 := by omega
      simp [h, hi, hs, hb]
    · next h =>
      by_cases hs : i < f.shift
      · simp [hs, hi]
      · have : b.getLsbD (i - f.shift) = false := BitVec.getLsbD_of_ge _ _ (by omega)
        simp [h, hi, this]
  · rw [BitVec.getLsbD_of_ge _ _ (by omega), BitVec.getLsbD_of_ge word _ (by omega), if_neg (by omega)]

theorem slice_put (f : Field) (word : Word) (b : BitVec f.width) : f.slice (f.put word b) = b := by
  apply BitVec.eq_of_getLsbD_eq
  intro i hi
  rw [getLsbD_slice, getLsbD_put, if_pos (by omega)]
  simp [hi]

theorem put_slice (f : Field) (word : Word) : f.put word (f.slice word) = word := by
  apply BitVec.eq_of_getLsbD_eq
  intro i _
  rw [getLsbD_put]
  split
  · next h =>
    rw [getLsbD_slice, Nat.add_sub_cancel' h.1]
    simp
    omega
  · rfl

theorem setWidth_ofInt {n : Nat} (h : n ≤ 64) (value : Int) :
    (BitVec.ofInt 64 value).setWidth n = BitVec.ofInt n value := by
  have hdvd : ((2 ^ n : Nat) : Int) ∣ ((2 ^ 64 : Nat) : Int) :=
    Int.natCast_dvd_natCast.2 (Nat.pow_dvd_pow 2 h)
  have hnonneg : 0 ≤ value % ((2 ^ 64 : Nat) : Int) := Int.emod_nonneg value (by decide)
  apply BitVec.eq_of_toNat_eq
  rw [BitVec.toNat_setWidth, BitVec.toNat_ofInt, BitVec.toNat_ofInt,
    ← Int.emod_emod_of_dvd value hdvd, Int.toNat_emod hnonneg (Int.natCast_nonneg _),
    Int.toNat_natCast]

/-- The bits of a number of 64 bits that are put into a field. -/
theorem ofInt_and_mask (f : Field) (value : Int) :
    (BitVec.ofInt 64 value &&& f.mask.setWidth 64).setWidth 32 =
      (BitVec.ofInt f.width value).setWidth 32 := by
  have hfits := f.fits_word
  have hle : f.width ≤ 64 := by omega
  rw [← setWidth_ofInt hle]
  apply BitVec.eq_of_getLsbD_eq
  intro i hi
  have hi' : i < 64 := Nat.lt_trans hi (by decide)
  simp only [BitVec.getLsbD_setWidth, BitVec.getLsbD_and, getLsbD_mask, hi, hi', decide_true,
    Bool.true_and]
  exact Bool.and_comm _ _

theorem insert_eq (f : Field) (word : Word) (value : Int) : f.insert word value =
    if f.Fits value then .ok (f.put word (.ofInt f.width value))
    else .error (.outOfRange value f.least f.greatest) := by
  rw [put, ← ofInt_and_mask, insert]

theorem insert_ok_iff : f.insert word value = .ok word' ↔
    f.Fits value ∧ word' = f.put word (.ofInt f.width value) := by
  rw [insert_eq]
  by_cases h : f.Fits value
  · simp [h, eq_comm]
  · simp [h]

theorem insert_error_iff {e : FieldError} : f.insert word value = .error e ↔
    ¬f.Fits value ∧ e = .outOfRange value f.least f.greatest := by
  rw [insert_eq]
  by_cases h : f.Fits value
  · simp [h]
  · simp [h, eq_comm]

/-- What a field holds is in its range. -/
theorem fits_extract (f : Field) (word : Word) : f.Fits (f.extract word) := by
  rw [Fits, extract_eq, least_eq, greatest_eq]
  by_cases hs : f.signed
  · simp only [if_pos hs]
    have hl := (f.slice word).le_toInt
    have hu := (f.slice word).toInt_lt
    omega
  · simp only [if_neg hs]
    have hu := (f.slice word).isLt
    have hcast : ((2 ^ f.width : Nat) : Int) = 2 ^ f.width := Int.natCast_pow 2 _
    omega

theorem slice_eq_of_extract_eq (h : f.extract word = f.extract word') :
    f.slice word = f.slice word' := by
  rw [extract_eq, extract_eq] at h
  by_cases hs : f.signed
  · rw [if_pos hs, if_pos hs] at h
    exact BitVec.eq_of_toInt_eq h
  · rw [if_neg hs, if_neg hs] at h
    exact BitVec.eq_of_toNat_eq (Int.ofNat_inj.1 h)

/-- The bits of a number that fits stand for that number. -/
theorem toInt_ofInt_of_fits (h : f.Fits value) :
    (if f.signed then (BitVec.ofInt f.width value).toInt
      else ((BitVec.ofInt f.width value).toNat : Int)) = value := by
  obtain ⟨hl, hg⟩ := h
  rw [least_eq] at hl
  rw [greatest_eq] at hg
  by_cases hs : f.signed
  · rw [if_pos hs] at hl hg ⊢
    exact BitVec.toInt_ofInt_eq_self f.width_pos hl (by omega)
  · rw [if_neg hs] at hl hg ⊢
    have hcast : ((2 ^ f.width : Nat) : Int) = 2 ^ f.width := Int.natCast_pow 2 _
    rw [BitVec.toNat_ofInt, Int.emod_eq_of_lt hl (by omega), Int.toNat_of_nonneg hl]

theorem extract_put_of_fits (h : f.Fits value) :
    f.extract (f.put word (.ofInt f.width value)) = value := by
  rw [extract_eq, slice_put]
  exact toInt_ofInt_of_fits h

theorem slice_put_of_apart (h : f.Apart g) (b : BitVec g.width) :
    f.slice (g.put word b) = f.slice word := by
  apply BitVec.eq_of_getLsbD_eq
  intro k hk
  rw [getLsbD_slice, getLsbD_slice, getLsbD_put, if_neg]
  intro h
  obtain ⟨hl, hu⟩ := h
  rcases h with h | h
  · omega
  · omega

theorem bits_put_of_apart (h : f.Apart g) (b : BitVec g.width) :
    f.bits (g.put word b) = f.bits word := by
  rw [bits_eq, slice_put_of_apart h, ← bits_eq]

theorem extract_put_of_apart (h : f.Apart g) (b : BitVec g.width) :
    f.extract (g.put word b) = f.extract word := by
  rw [extract_eq, slice_put_of_apart h, ← extract_eq]

theorem insert_of_fits (h : f.Fits value) (word : Word) :
    f.insert word value = .ok (f.put word (.ofInt f.width value)) :=
  insert_ok_iff.2 ⟨h, rfl⟩

/-- What a field holds stands for its bits. -/
theorem ofInt_extract (f : Field) (word : Word) :
    BitVec.ofInt f.width (f.extract word) = f.slice word := by
  rw [extract_eq]
  by_cases hs : f.signed
  · rw [if_pos hs, BitVec.ofInt_toInt]
  · rw [if_neg hs, BitVec.ofInt_natCast, BitVec.ofNat_toNat, BitVec.setWidth_eq]

theorem put_put (f : Field) (word : Word) (b b' : BitVec f.width) :
    f.put (f.put word b) b' = f.put word b' := by
  apply BitVec.eq_of_getLsbD_eq
  intro i _
  rw [getLsbD_put, getLsbD_put, getLsbD_put]
  split <;> rfl

theorem put_comm_of_apart (h : f.Apart g) (word : Word) (b : BitVec f.width)
    (b' : BitVec g.width) : g.put (f.put word b) b' = f.put (g.put word b') b := by
  apply BitVec.eq_of_getLsbD_eq
  intro i _
  rw [getLsbD_put, getLsbD_put, getLsbD_put, getLsbD_put]
  split
  · next hg =>
    rw [if_neg]
    intro hf
    rcases h with h | h
    · omega
    · omega
  · rfl

/-! ## Overlaps -/

/-- Two fields share a bit unless one ends before the other begins. -/
theorem exists_common_bit (h : ¬f.Apart g) : ∃ i,
    (f.shift ≤ i ∧ i < f.shift + f.width) ∧ g.shift ≤ i ∧ i < g.shift + g.width := by
  have hf := f.width_pos
  have hg := g.width_pos
  rw [Apart, not_or] at h
  exact ⟨max f.shift g.shift, by omega, by omega⟩

theorem overlaps_eq_false_iff : f.overlaps g = false ↔ f.Apart g := by
  rw [overlaps, bne_eq_false_iff_eq]
  constructor
  · intro h
    refine Decidable.byContradiction fun hapart => ?_
    obtain ⟨i, hf, hg⟩ := exists_common_bit hapart
    have hbit := congrArg (·.getLsbD i) h
    simp [getLsbD_wordMask, hf, hg] at hbit
  · intro h
    apply BitVec.eq_of_getLsbD_eq
    intro i _
    rw [BitVec.getLsbD_and, getLsbD_wordMask, getLsbD_wordMask, ← Bool.decide_and]
    rcases h with h | h
    · simp
      omega
    · simp
      omega

theorem overlaps_comm (f g : Field) : g.overlaps f = f.overlaps g := by
  rw [overlaps, overlaps, BitVec.and_comm]

end DM2022.Field
