import DM2022.Instruction.Encoding
import DM2022.Proofs.Word.Field

/-!
# Encoding and decoding

A word that encoding gives holds the number of the record in each of its parts, so
decoding gives the record again. The parts tile the word, so encoding a decoded record
gives the word again. A record without a word is refused for its opcode or for the first
part that its number does not fit.
-/
namespace DM2022

theorem Part.apart_field {p q : Part} (h : p ≠ q) : p.field.Apart q.field := by
  cases p <;> cases q <;> first | exact absurd rfl h | decide

theorem Part.mem_all (p : Part) : p ∈ Part.all := by
  cases p <;> decide

/-- The least number that a part of the word can hold. -/
def Part.least : Part → Int
  | .offset => -512
  | _ => 0

/-- The greatest number that a part of the word can hold. -/
def Part.greatest : Part → Int
  | .opcode => 63
  | .offset => 511
  | _ => 15

/-- The part can hold `value`. -/
def Part.Holds (p : Part) (value : Int) : Prop := p.least ≤ value ∧ value ≤ p.greatest

instance (p : Part) (value : Int) : Decidable (p.Holds value) :=
  inferInstanceAs (Decidable (_ ∧ _))

theorem Part.least_field (p : Part) : p.field.least = p.least := by
  cases p <;> decide

theorem Part.greatest_field (p : Part) : p.field.greatest = p.greatest := by
  cases p <;> decide

theorem Part.fits_field_iff {p : Part} {value : Int} : p.field.Fits value ↔ p.Holds value := by
  rw [Field.Fits, least_field, greatest_field, Holds]

/-- Every bit of a word is in one of its parts. -/
theorem Part.exists_bit : ∀ n < 32,
    ∃ p ∈ all, p.field.shift ≤ n ∧ n < p.field.shift + p.field.width := by
  decide

/-- A word is told by the numbers in its parts. -/
theorem Part.eq_of_extract_eq {word word' : Word}
    (h : ∀ p : Part, p.field.extract word = p.field.extract word') : word = word' := by
  apply BitVec.eq_of_getLsbD_eq
  intro n hn
  obtain ⟨p, -, hl, hu⟩ := Part.exists_bit n hn
  have hbits := congrArg (·.getLsbD (n - p.field.shift)) (Field.slice_eq_of_extract_eq (h p))
  simp only [Field.getLsbD_slice] at hbits
  rw [Nat.add_sub_cancel' hl] at hbits
  simpa [show n - p.field.shift < p.field.width by omega] using hbits

theorem Opcode.mem_assigned_of_ne_illegal {op : Opcode} (h : ∀ code, op ≠ .illegal code) :
    op ∈ assigned := by
  cases op with
  | illegal code => exact absurd rfl (h code)
  | _ => decide

namespace Instruction

variable {i : Instruction} {word word' : Word}

theorem toInt_wrap_offset (n : Nat) (b : BitVec 10) (hb : b.toNat = n % 1024) :
    (Word.wrap (if n &&& 0x3ff < 0x200 then n &&& 0x3ff else (n &&& 0x3ff) + 0xfffffc00)).toInt =
      b.toInt := by
  rw [Word.wrap_eq, show (0x3ff : Nat) = 2 ^ 10 - 1 from rfl, Nat.and_two_pow_sub_one_eq_mod,
    BitVec.toInt_eq_toNat_cond, BitVec.toInt_eq_toNat_cond, hb, BitVec.toNat_ofNat]
  split <;> split <;> split <;> omega

/-- Decoding reads the fields that encoding writes. -/
theorem value_decode (word : Word) (part : Part) :
    (decode word).value part = part.field.extract word := by
  have hw := word.isLt
  rw [Field.extract_eq]
  cases part with
  | opcode =>
    have hc : (Byte.wrap (word.toNat >>> 26)).toNat = word.toNat >>> 26 % 2 ^ 6 := by
      rw [Byte.wrap_eq, BitVec.toNat_ofNat, Nat.shiftRight_eq_div_pow]
      omega
    simp only [value, decode, Opcode.code_ofCode, hc, Part.field, Field.slice,
      BitVec.extractLsb'_toNat]
    rfl
  | offset =>
    have hb : (word.extractLsb' 0 10).toNat = word.toNat % 1024 := BitVec.extractLsb'_toNat ..
    exact toInt_wrap_offset word.toNat _ hb
  | _ =>
    simp only [value, decode, toNat_wrap_and, Part.field, Field.slice, BitVec.extractLsb'_toNat]
    rfl

/-- A record is told by its opcode and its numbers. -/
theorem ext_value {i j : Instruction} (hop : i.op = j.op) (h : ∀ p, i.value p = j.value p) :
    i = j := by
  have hcond : i.cond.bits = j.cond.bits :=
    BitVec.eq_of_toNat_eq (Int.ofNat_inj.1 (h .predicate))
  have htarget : i.target = j.target := BitVec.eq_of_toNat_eq (Int.ofNat_inj.1 (h .target))
  have hsrc1 : i.src1 = j.src1 := BitVec.eq_of_toNat_eq (Int.ofNat_inj.1 (h .src1))
  have hsrc2 : i.src2 = j.src2 := BitVec.eq_of_toNat_eq (Int.ofNat_inj.1 (h .src2))
  have hoffset : i.offset = j.offset := BitVec.eq_of_toInt_eq (h .offset)
  obtain ⟨op, ⟨cond⟩, target, src1, src2, offset⟩ := i
  obtain ⟨op', ⟨cond'⟩, target', src1', src2', offset'⟩ := j
  simp only at hop hcond htarget hsrc1 hsrc2 hoffset
  subst hop hcond htarget hsrc1 hsrc2 hoffset
  rfl

theorem insertPart_ok_iff {p : Part} : i.insertPart word p = .ok word' ↔
    p.field.Fits (i.value p) ∧ word' = p.field.put word (.ofInt p.field.width (i.value p)) := by
  rw [← Field.insert_ok_iff, insertPart]
  cases p.field.insert word (i.value p) with
  | error e =>
    constructor
    · intro h
      cases h
    · intro h
      cases h
  | ok w =>
    constructor
    · intro h
      cases h
      rfl
    · intro h
      cases h
      rfl

theorem insertPart_error_iff {p : Part} {e : EncodeError} : i.insertPart word p = .error e ↔
    ¬p.field.Fits (i.value p) ∧
      e = .field p (.outOfRange (i.value p) p.field.least p.field.greatest) := by
  rw [insertPart]
  cases hinsert : p.field.insert word (i.value p) with
  | ok w =>
    have hfits := (Field.insert_ok_iff.1 hinsert).1
    constructor
    · intro h
      cases h
    · intro h
      exact absurd hfits h.1
  | error cause =>
    obtain ⟨hfits, rfl⟩ := Field.insert_error_iff.1 hinsert
    constructor
    · intro h
      cases h
      exact ⟨hfits, rfl⟩
    · intro h
      obtain ⟨-, rfl⟩ := h
      rfl

/-- Writing parts one after the other stops at the first that its number does not fit. -/
theorem foldlM_insertPart_error_iff {parts : List Part} {e : EncodeError} :
    parts.foldlM i.insertPart word = .error e ↔ ∃ before part after,
      parts = before ++ part :: after ∧ (∀ p ∈ before, p.field.Fits (i.value p)) ∧
        ¬part.field.Fits (i.value part) ∧
        e = .field part (.outOfRange (i.value part) part.field.least part.field.greatest) := by
  induction parts generalizing word with
  | nil => simp [pure, Except.pure]
  | cons q parts ih =>
    rw [List.foldlM_cons]
    cases hw : i.insertPart word q with
    | error e' =>
      obtain ⟨hq, rfl⟩ := insertPart_error_iff.1 hw
      constructor
      · intro h
        cases h
        exact ⟨[], q, parts, rfl, by simp, hq, rfl⟩
      · intro h
        obtain ⟨before, part, after, hparts, hbefore, hpart, rfl⟩ := h
        cases before with
        | nil =>
          cases hparts
          rfl
        | cons r before =>
          cases hparts
          exact absurd (hbefore q List.mem_cons_self) hq
    | ok next =>
      have hq := (insertPart_ok_iff.1 hw).1
      have hnext : (parts.foldlM i.insertPart next = .error e) ↔
          (Except.ok next >>= fun w => parts.foldlM i.insertPart w) = .error e := Iff.rfl
      rw [← hnext, ih]
      constructor
      · intro h
        obtain ⟨before, part, after, rfl, hbefore, hpart, he⟩ := h
        exact ⟨q :: before, part, after, rfl, List.forall_mem_cons.2 ⟨hq, hbefore⟩, hpart, he⟩
      · intro h
        obtain ⟨before, part, after, hparts, hbefore, hpart, he⟩ := h
        cases before with
        | nil =>
          cases hparts
          exact absurd hq hpart
        | cons r before =>
          cases hparts
          exact ⟨before, part, after, rfl, (List.forall_mem_cons.1 hbefore).2, hpart, he⟩

/-- After writing some parts, these hold the numbers of the record and the others are as
they were. -/
theorem extract_foldlM {parts : List Part} (hn : parts.Nodup)
    (h : parts.foldlM i.insertPart word = .ok word') (p : Part) :
    p.field.extract word' = if p ∈ parts then i.value p else p.field.extract word := by
  induction parts generalizing word with
  | nil =>
    cases h
    rw [if_neg List.not_mem_nil]
  | cons q parts ih =>
    obtain ⟨hq, hn⟩ := List.nodup_cons.1 hn
    rw [List.foldlM_cons] at h
    cases hw : i.insertPart word q with
    | error e => rw [hw] at h; cases h
    | ok next =>
      rw [hw] at h
      obtain ⟨hfits, rfl⟩ := insertPart_ok_iff.1 hw
      rw [ih hn h]
      by_cases hp : p ∈ parts
      · rw [if_pos hp, if_pos (List.mem_cons_of_mem q hp)]
      · rw [if_neg hp]
        by_cases hpq : p = q
        · subst hpq
          rw [if_pos List.mem_cons_self, Field.extract_put_of_fits hfits]
        · rw [if_neg fun hm => (List.mem_cons.1 hm).elim hpq hp,
            Field.extract_put_of_apart (Part.apart_field hpq)]

theorem encode_of_assigned (h : i.op ∈ Opcode.assigned) :
    i.encode = Part.all.foldlM i.insertPart 0 := by
  rw [encode]
  split
  · next code hop =>
    rw [hop] at h
    simp [Opcode.assigned] at h
  · rfl

/-- Decoding inverts encoding. -/
theorem decode_of_encode (h : i.encode = .ok word) : decode word = i := by
  have hop : i.op ∈ Opcode.assigned := by
    refine Opcode.mem_assigned_of_ne_illegal fun code hc => ?_
    rw [encode, hc] at h
    cases h
  rw [encode_of_assigned hop] at h
  have hvalue : ∀ p, (decode word).value p = i.value p := by
    intro p
    rw [value_decode, extract_foldlM (by decide) h p, if_pos p.mem_all]
  have hcode : (decode word).op.code = i.op.code :=
    BitVec.eq_of_toNat_eq (Int.ofNat_inj.1 (hvalue .opcode))
  have hdecode : (decode word).op = i.op := by
    have hw : (decode word).op = Opcode.ofCode (decode word).op.code := by
      have hc : (decode word).op.code = Byte.wrap (word.toNat >>> 26) := Opcode.code_ofCode _
      rw [hc]
      rfl
    rw [hw, hcode, Opcode.ofCode_code hop]
  exact ext_value hdecode hvalue

/-- Encoding inverts decoding. -/
theorem encode_decode (h : (decode word).op ∈ Opcode.assigned) :
    (decode word).encode = .ok word := by
  rw [encode_of_assigned h]
  cases hw : Part.all.foldlM (decode word).insertPart 0 with
  | error e =>
    obtain ⟨before, part, after, -, -, hpart, -⟩ := foldlM_insertPart_error_iff.1 hw
    rw [value_decode] at hpart
    exact absurd (part.field.fits_extract word) hpart
  | ok found =>
    have hparts : ∀ p : Part, p.field.extract found = p.field.extract word := by
      intro p
      rw [extract_foldlM (by decide) hw p, if_pos p.mem_all, value_decode]
    rw [Part.eq_of_extract_eq hparts]

theorem holds_opcode (h : i.op ∈ Opcode.assigned) : Part.opcode.Holds (i.value .opcode) := by
  rw [value]
  revert h
  generalize i.op = op
  revert op
  decide

/-- The parts that hold numbers of the record other than its opcode, from high to low bits. -/
def operandParts : List Part := [.predicate, .target, .src1, .src2, .offset]

/-- Why a record has no word: its opcode is illegal, or else a number does not fit its part,
of which the first is named. -/
inductive Refused (i : Instruction) : EncodeError → Prop
  | illegal {code : Byte} (op : i.op = .illegal code) : Refused i (.illegalOpcode code)
  | misfit {before after : List Part} {part : Part} (op : ∀ code, i.op ≠ .illegal code)
      (order : operandParts = before ++ part :: after)
      (fits : ∀ p ∈ before, p.Holds (i.value p)) (misfit : ¬part.Holds (i.value part)) :
      Refused i (.field part (.outOfRange (i.value part) part.least part.greatest))

theorem encode_error_iff {error : EncodeError} : i.encode = .error error ↔ i.Refused error := by
  by_cases hop : ∃ code, i.op = .illegal code
  · obtain ⟨code, hop⟩ := hop
    have hencode : i.encode = .error (.illegalOpcode code) := by rw [encode, hop]
    rw [hencode]
    constructor
    · intro h
      cases h
      exact .illegal hop
    · intro h
      cases h with
      | illegal hop' =>
        cases hop.symm.trans hop'
        rfl
      | misfit hlegal => exact absurd hop (hlegal code)
  · have hlegal : ∀ code, i.op ≠ .illegal code := fun code h => hop ⟨code, h⟩
    have hassigned := Opcode.mem_assigned_of_ne_illegal hlegal
    rw [encode_of_assigned hassigned, foldlM_insertPart_error_iff]
    simp only [Part.fits_field_iff, Part.least_field, Part.greatest_field]
    constructor
    · intro h
      obtain ⟨before, part, after, hparts, hbefore, hpart, rfl⟩ := h
      cases before with
      | nil =>
        cases hparts
        exact absurd (holds_opcode hassigned) hpart
      | cons q before =>
        obtain ⟨-, horder⟩ := List.cons.inj hparts
        exact .misfit hlegal horder (List.forall_mem_cons.1 hbefore).2 hpart
    · intro h
      cases h with
      | illegal hop' => exact absurd hop' (hlegal _)
      | @misfit before after part _ horder hbefore hpart =>
        exact ⟨.opcode :: before, part, after, congrArg (List.cons Part.opcode) horder,
          List.forall_mem_cons.2 ⟨holds_opcode hassigned, hbefore⟩, hpart, rfl⟩

/-- Encoding gives exactly the words that decode to the record, if its opcode is assigned,
and otherwise names what does not fit; so no number of a record is ever cut off. -/
theorem encode_inverse_decode (i : Instruction) :
    (∀ word, i.encode = .ok word ↔ (∀ code, i.op ≠ .illegal code) ∧ decode word = i) ∧
    ∀ error, i.encode = .error error ↔ i.Refused error := by
  refine ⟨fun word => ⟨fun h => ⟨fun code hop => ?_, decode_of_encode h⟩, ?_⟩,
    fun error => encode_error_iff⟩
  · rw [encode, hop] at h
    cases h
  · intro h
    obtain ⟨hlegal, rfl⟩ := h
    exact encode_decode (Opcode.mem_assigned_of_ne_illegal hlegal)

end Instruction
end DM2022
