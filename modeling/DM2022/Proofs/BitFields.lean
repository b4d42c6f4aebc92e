import Mathlib.Data.Int.ModEq
import DM2022.Proofs.Word.Field

/-!
# Bit fields

A field holds the numbers of two's complement or the unsigned numbers of its width. Inserting
refuses every other number; one that it accepts reads back, and neither the rest of the word nor
later insertions tell of it. Two fields are independent if they share no bit, and only then.
-/
namespace DM2022.Field

variable {f g : Field} {word : Word} {value : Int} {width shift : Nat} {signed : Bool}

/-! ## Layouts -/

/-- A field of `width` bits from bit `shift` on lies within a word. -/
def Layout (width shift : Nat) : Prop := 1 ≤ width ∧ shift ≤ 31 ∧ width + shift ≤ 32

instance (width shift : Nat) : Decidable (Layout width shift) :=
  inferInstanceAs (Decidable (_ ∧ _ ∧ _))

theorem layout_iff : Layout width shift ↔ 0 < width ∧ shift + width ≤ 32 := by
  rw [Layout]
  omega

theorem isLayout?_eq_layout (width shift : Word) :
    isLayout? width shift = some (decide (Layout width.toNat shift.toNat)) := by
  rw [isLayout?_eq, decide_eq_decide.2 layout_iff]

/-- The field of a layout is given by its width and by its first and last bit alike. -/
theorem exists_of_layout {width shift : Word} (h : Layout width.toNat shift.toNat)
    (signed : Bool) : ∃ f : Field, f.width = width.toNat ∧ f.shift = shift.toNat ∧
      f.signed = signed ∧ ofWidth? width shift signed = .ok f ∧
      span? shift.toNat (shift.toNat + width.toNat - 1) signed = .ok f := by
  obtain ⟨hpos, hfits⟩ := layout_iff.1 h
  have htest : isLayout? width shift = some true := by
    rw [isLayout?_eq_layout, decide_eq_true h]
  have hlast : shift.toNat + width.toNat - 1 - shift.toNat + 1 = width.toNat := by omega
  refine ⟨⟨shift.toNat, width.toNat, signed, hpos, hfits⟩, rfl, rfl, rfl, dif_pos htest, ?_⟩
  rw [span?, dif_pos (by omega), dif_pos (by omega)]
  simp only [hlast]

theorem ofWidth?_of_not_layout {width shift : Word} (h : ¬Layout width.toNat shift.toNat)
    (signed : Bool) :
    ofWidth? width shift signed = .error (.invalidLayout width.toNat shift.toNat) := by
  have htest : isLayout? width shift ≠ some true := by
    rw [isLayout?_eq_layout, decide_eq_false h]
    decide
  exact dif_neg htest

/-- The layout of a field is a layout. -/
theorem ofWidth?_self (f : Field) :
    ofWidth? (.ofNat 32 f.width) (.ofNat 32 f.shift) f.signed = .ok f := by
  have hpos := f.width_pos
  have hfits := f.fits_word
  have hwidth : (BitVec.ofNat 32 f.width).toNat = f.width := by
    rw [BitVec.toNat_ofNat]
    omega
  have hshift : (BitVec.ofNat 32 f.shift).toNat = f.shift := by
    rw [BitVec.toNat_ofNat]
    omega
  have htest : isLayout? (.ofNat 32 f.width) (.ofNat 32 f.shift) = some true := by
    rw [isLayout?_eq, hwidth, hshift, decide_eq_true ⟨hpos, hfits⟩]
  rw [ofWidth?, dif_pos htest]
  simp only [hwidth, hshift]

/-! ## Readings of the bits -/

theorem toNat_bits (f : Field) (word : Word) :
    (f.bits word).toNat = word.toNat >>> f.shift % 2 ^ f.width := by
  rw [toNat_bits_eq, slice, BitVec.extractLsb'_toNat]

/-- Either reading of the bits is their number, but for a multiple of the count of numbers. -/
theorem extract_modEq (f : Field) (word : Word) :
    f.extract word ≡ (word.toNat >>> f.shift % 2 ^ f.width : Nat) [ZMOD 2 ^ f.width] := by
  have hcount : ((2 ^ f.width : Nat) : Int) = 2 ^ f.width := Nat.cast_pow 2 f.width
  rw [extract_eq, ← toNat_bits, toNat_bits_eq, ← hcount]
  split
  · rw [BitVec.toInt_eq_toNat_bmod]
    exact (Int.modEq_iff_dvd.2 Int.dvd_bmod_sub_self).symm
  · rfl

/-- Numbers that are congruent modulo the count of numbers have the same bits. -/
theorem ofInt_eq_of_modEq {a b : Int} (h : a ≡ b [ZMOD 2 ^ f.width]) :
    BitVec.ofInt f.width a = BitVec.ofInt f.width b := by
  have hcount : ((2 ^ f.width : Nat) : Int) = 2 ^ f.width := Nat.cast_pow 2 f.width
  rw [← hcount] at h
  apply BitVec.eq_of_toNat_eq
  rw [BitVec.toNat_ofInt, BitVec.toNat_ofInt, h]

/-- A field holds the one number of its range that is congruent to its bits. -/
theorem extract_eq_iff : f.extract word = value ↔ f.Fits value ∧
    value ≡ (word.toNat >>> f.shift % 2 ^ f.width : Nat) [ZMOD 2 ^ f.width] := by
  constructor
  · rintro rfl
    exact ⟨fits_extract f word, extract_modEq f word⟩
  · intro h
    obtain ⟨hfits, hmod⟩ := h
    have hslice : BitVec.ofInt f.width value = f.slice word := by
      rw [← ofInt_extract]
      exact ofInt_eq_of_modEq (hmod.trans (extract_modEq f word).symm)
    rw [extract_eq, ← hslice]
    exact toInt_ofInt_of_fits hfits

/-! ## Insertion -/

/-- What is left of `word` when the field is given the number `value`: the field reads as the
number, all other bits are those of before, and a later insertion into the field gives what it
would give without this one. -/
structure Replaces (f : Field) (word : Word) (value : Int) (word' : Word) : Prop where
  extract : f.extract word' = value
  outside : ∀ i, i < f.shift ∨ f.shift + f.width ≤ i → word'.getLsbD i = word.getLsbD i
  insert : ∀ later, f.insert word' later = f.insert word later

theorem insert_put (f : Field) (word : Word) (b : BitVec f.width) (later : Int) :
    f.insert (f.put word b) later = f.insert word later := by
  by_cases h : f.Fits later
  · rw [insert_of_fits h, insert_of_fits h, put_put]
  · rw [insert_error_iff.2 ⟨h, rfl⟩, insert_error_iff.2 ⟨h, rfl⟩]

theorem replaces_put (h : f.Fits value) (word : Word) :
    f.Replaces word value (f.put word (.ofInt f.width value)) where
  extract := extract_put_of_fits h
  outside i hi := by rw [getLsbD_put, if_neg (by omega)]
  insert := insert_put f word _

theorem insert_extract (f : Field) (word : Word) : f.insert word (f.extract word) = .ok word := by
  rw [insert_of_fits (fits_extract f word), ofInt_extract, put_slice]

/-- Every field is given by its width and its shift. Its range is that of two's complement
numbers or of unsigned numbers of its width: inserting a number of the range replaces what the
field held and nothing else, every other number is refused with the range, and inserting what the
field holds changes nothing. What it holds is the one number of the range that is congruent to its
bits. A width and a shift give a field if it lies within a word, the same one as its first and last
bit give. No sum wraps on the way to that answer, whatever words they are. -/
theorem insert_and_extract :
    (∀ (f : Field) (word : Word),
      ofWidth? (.ofNat 32 f.width) (.ofNat 32 f.shift) f.signed = .ok f ∧
      (f.least = if f.signed then -2 ^ (f.width - 1) else 0) ∧
      (f.greatest = if f.signed then 2 ^ (f.width - 1) - 1 else 2 ^ f.width - 1) ∧
      (∀ value, f.least ≤ value ∧ value ≤ f.greatest →
        ∃ word', f.insert word value = .ok word' ∧ f.Replaces word value word') ∧
      (∀ value, ¬(f.least ≤ value ∧ value ≤ f.greatest) →
        f.insert word value = .error (.outOfRange value f.least f.greatest)) ∧
      f.insert word (f.extract word) = .ok word ∧
      (f.bits word).toNat = word.toNat >>> f.shift % 2 ^ f.width ∧
      ∀ value, f.extract word = value ↔ (f.least ≤ value ∧ value ≤ f.greatest) ∧
        value ≡ (word.toNat >>> f.shift % 2 ^ f.width : Nat) [ZMOD 2 ^ f.width]) ∧
    ∀ (width shift : Word) (signed : Bool),
      isLayout? width shift = some (decide (Layout width.toNat shift.toNat)) ∧
      (Layout width.toNat shift.toNat → ∃ f : Field,
        f.width = width.toNat ∧ f.shift = shift.toNat ∧ f.signed = signed ∧
        ofWidth? width shift signed = .ok f ∧
        span? shift.toNat (shift.toNat + width.toNat - 1) signed = .ok f) ∧
      (¬Layout width.toNat shift.toNat →
        ofWidth? width shift signed = .error (.invalidLayout width.toNat shift.toNat)) := by
  refine ⟨fun f word => ⟨ofWidth?_self f, least_eq f, greatest_eq f, fun value h => ?_,
    fun value h => insert_error_iff.2 ⟨h, rfl⟩, insert_extract f word, toNat_bits f word,
    fun value => extract_eq_iff⟩, fun width shift signed =>
    ⟨isLayout?_eq_layout width shift, fun h => ?_, fun h => ?_⟩⟩
  · exact ⟨_, insert_of_fits h word, replaces_put h word⟩
  · exact exists_of_layout h signed
  · exact ofWidth?_of_not_layout h signed

/-! ## Two fields -/

theorem insert_bind_insert {a b : Int} (hf : f.Fits a) (hg : g.Fits b) (word : Word) :
    (f.insert word a >>= (g.insert · b)) =
      .ok (g.put (f.put word (.ofInt f.width a)) (.ofInt g.width b)) := by
  rw [insert_of_fits hf]
  exact insert_of_fits hg _

/-- The bits that one field is given last are there, whatever the other one was given. -/
theorem put_put_ne_of_common {i : Nat} (hf : f.shift ≤ i ∧ i < f.shift + f.width)
    (hg : g.shift ≤ i ∧ i < g.shift + g.width) {b : BitVec f.width} {b' : BitVec g.width}
    (hne : b.getLsbD (i - f.shift) ≠ b'.getLsbD (i - g.shift)) (word : Word) :
    g.put (f.put word b) b' ≠ f.put (g.put word b') b := by
  intro h
  have hbit := congrArg (·.getLsbD i) h
  simp only [getLsbD_put, if_pos hf, if_pos hg] at hbit
  exact hne hbit.symm

/-- Fields that share a bit disturb each other: ones in one of them and zeros in the other give a
word that tells which of them was inserted first. -/
theorem exists_disturbance (h : ¬f.Apart g) : ∃ word a b left right, f.Fits a ∧ g.Fits b ∧
    (f.insert word a >>= (g.insert · b)) = .ok left ∧
    (g.insert word b >>= (f.insert · a)) = .ok right ∧ left ≠ right := by
  obtain ⟨i, hf, hg⟩ := exists_common_bit h
  have hones := fits_extract f (BitVec.allOnes 32)
  have hzeros := fits_extract g 0#32
  have hone : (f.slice (BitVec.allOnes 32)).getLsbD (i - f.shift) = true := by
    have hword := f.fits_word
    rw [getLsbD_slice, Nat.add_sub_cancel' hf.1, BitVec.getLsbD_allOnes, ← Bool.decide_and]
    exact decide_eq_true (by omega)
  have hzero : (g.slice 0#32).getLsbD (i - g.shift) = false := by
    rw [getLsbD_slice, BitVec.getLsbD_zero, Bool.and_false]
  refine ⟨0, _, _, _, _, hones, hzeros, insert_bind_insert hones hzeros 0,
    insert_bind_insert hzeros hones 0, put_put_ne_of_common hf hg ?_ 0⟩
  rw [ofInt_extract, ofInt_extract, hone, hzero]
  exact Bool.noConfusion

/-- Two fields do not overlap if and only if one ends before the other begins. Then the order of
insertions does not matter, both numbers read back, and inserting into one of them changes neither
the number nor the bits of the other. If they overlap, some two insertions give another word in the
other order. -/
theorem overlaps_iff_interfere (f g : Field) :
    (f.overlaps g = false ↔ f.shift + f.width ≤ g.shift ∨ g.shift + g.width ≤ f.shift) ∧
    g.overlaps f = f.overlaps g ∧
    (f.overlaps g = false → ∀ word,
      (∀ a b, f.Fits a → g.Fits b → ∃ word',
        (f.insert word a >>= (g.insert · b)) = .ok word' ∧
        (g.insert word b >>= (f.insert · a)) = .ok word' ∧
        f.extract word' = a ∧ g.extract word' = b) ∧
      ∀ b word', g.insert word b = .ok word' →
        f.extract word' = f.extract word ∧ f.bits word' = f.bits word) ∧
    (f.overlaps g = true → ∃ word a b left right, f.Fits a ∧ g.Fits b ∧
      (f.insert word a >>= (g.insert · b)) = .ok left ∧
      (g.insert word b >>= (f.insert · a)) = .ok right ∧ left ≠ right) := by
  refine ⟨overlaps_eq_false_iff, overlaps_comm f g, fun h word => ⟨fun a b ha hb => ?_,
    fun b word' hword => ?_⟩, fun h => ?_⟩
  · have hapart := overlaps_eq_false_iff.1 h
    refine ⟨_, insert_bind_insert ha hb word, ?_, ?_, extract_put_of_fits hb⟩
    · rw [insert_bind_insert hb ha, put_comm_of_apart hapart]
    · rw [extract_put_of_apart hapart, extract_put_of_fits ha]
  · have hapart := overlaps_eq_false_iff.1 h
    obtain ⟨-, rfl⟩ := insert_ok_iff.1 hword
    exact ⟨extract_put_of_apart hapart _, bits_put_of_apart hapart _⟩
  · refine exists_disturbance fun hapart => ?_
    rw [overlaps_eq_false_iff.2 hapart] at h
    cases h

/-- Fields that stand next to each other, and fields that share bit 9. -/
example : overlaps { shift := 0, width := 10, signed := true }
      { shift := 10, width := 4, signed := false } = false ∧
    overlaps { shift := 0, width := 10, signed := true }
      { shift := 9, width := 4, signed := false } = true := by
  decide

end DM2022.Field
