import DM2022.Machine.Fault
import Std.Data.ExtTreeMap.Lemmas

/-!
# Memory

Cells that hold words, numbered from 0. Most cells of a large memory are zero, so only the
others are stored. Addresses are signed words, of which the negative ones and those past
the last cell are out of range.
-/
namespace DM2022

/-- The number of cells, and the words of the cells that are not zero. -/
structure Memory where
  size : Nat
  words : Std.ExtTreeMap Nat Word
  stored : ∀ i word, words[i]? = some word → i < size ∧ word ≠ 0
  deriving DecidableEq

inductive MemoryError where
  | addressOutOfRange (address : Word) (size : Nat)
  | imageTooLarge (base size available : Nat)
  deriving DecidableEq

def MemoryError.message : MemoryError → String
  | .addressOutOfRange address size =>
      "memory address " ++ Text.integerText address.toInt ++ " out of range (0 to " ++
        Text.naturalText (size - 1) ++ ")"
  | .imageTooLarge base size available =>
      "image of " ++ Text.naturalText size ++ " words at base " ++ Text.naturalText base ++
        " exceeds available space " ++ Text.naturalText available

/-- The fault of an instruction that meets the error. -/
def MemoryError.fault : MemoryError → FaultKind
  | .addressOutOfRange address size => .addressOutOfRange address (.ofNat 64 size)
  | .imageTooLarge base size _ => .addressOutOfRange (.ofNat 32 base) (.ofNat 64 size)

namespace Memory

/-- A memory of `size` cleared cells. -/
def zeros (size : Nat) : Memory := ⟨size, ∅, by simp⟩

/-- The word of a cell; past the last cell there are zeros. -/
def cell (m : Memory) (i : Nat) : Word := m.words.getD i 0

/-- The memory with `word` in cell `i`, if there is such a cell. -/
def set (m : Memory) (i : Nat) (word : Word) : Memory :=
  if h : i < m.size then
    if hw : word = 0 then
      { m with
        words := m.words.erase i
        stored := fun j w hj => by
          rw [Std.ExtTreeMap.getElem?_erase] at hj
          split at hj
          · cases hj
          · exact m.stored j w hj }
    else
      { m with
        words := m.words.insert i word
        stored := fun j w hj => by
          rw [Std.ExtTreeMap.getElem?_insert] at hj
          split at hj
          · next hi =>
            cases hj
            exact ⟨Std.LawfulEqCmp.eq_of_compare hi ▸ h, hw⟩
          · exact m.stored j w hj }
  else m

/-- The words of all cells. -/
def toList (m : Memory) : List Word := (List.range m.size).map m.cell

/-- The address is not negative, and is that of a cell. -/
def Contains (m : Memory) (address : Word) : Prop :=
  address.msb = false ∧ address.toNat < m.size

instance (m : Memory) (address : Word) : Decidable (m.Contains address) :=
  inferInstanceAs (Decidable (_ ∧ _))

def read (m : Memory) (address : Word) : Except MemoryError Word :=
  if m.Contains address then .ok (m.cell address.toNat)
  else .error (.addressOutOfRange address m.size)

def write (m : Memory) (address value : Word) : Except MemoryError Memory :=
  if m.Contains address then .ok (m.set address.toNat value)
  else .error (.addressOutOfRange address m.size)

def clear (m : Memory) : Memory := zeros m.size

/-- Writes words into the cells from `start` on. -/
def copy (m : Memory) (start : Nat) : List Word → Memory
  | [] => m
  | word :: rest => (m.set start word).copy (start + 1) rest

/-- The memory whose cells hold these words. -/
def ofList (words : List Word) : Memory := (zeros words.length).copy 0 words

/-- Why an image of `length` words does not fit the cells from `base` on. -/
def loadError? (m : Memory) (base : Word) (length : Nat) : Option MemoryError :=
  let available := m.size - base.toNat
  if m.size < base.toNat ∨ available < length then
    some (.imageTooLarge base.toNat length available)
  else none

/-- Copies an image to the cells from `base` on, if it fits there. -/
def load (m : Memory) (base : Word) (image : List Word) : Except MemoryError Memory :=
  match m.loadError? base image.length with
  | some e => .error e
  | none => .ok (m.copy base.toNat image)

/-- Up to `count` cells from `start` on, with their addresses. Where they end is a count too:
the largest one, if the sum is past it. -/
def dump (m : Memory) (start count : Nat) : List (Nat × Word) :=
  let stop := min (min (start + count) (BitVec.allOnes 64).toNat) m.size
  (List.range' start (stop - start)).map fun i => (i, m.cell i)

/-- The cells in which a later memory differs, with their later words. -/
def changes (before after : Memory) : List (Nat × Word) :=
  let written := after.words.toList.filter fun (i, word) => before.cell i != word
  let cleared := before.words.keys.filter fun i => after.cell i == 0
  (written ++ cleared.map fun i => (i, 0)).mergeSort fun a b => decide (a.1 ≤ b.1)

@[simp] theorem size_zeros (n : Nat) : (zeros n).size = n := rfl

@[simp] theorem cell_zeros (n i : Nat) : (zeros n).cell i = 0 := Std.ExtTreeMap.getD_empty

@[simp] theorem size_clear (m : Memory) : m.clear.size = m.size := rfl

theorem cell_eq_zero {m : Memory} {i : Nat} (h : m.size ≤ i) : m.cell i = 0 := by
  rw [cell, Std.ExtTreeMap.getD_eq_getD_getElem?]
  cases hi : m.words[i]? with
  | none => rfl
  | some word => exact absurd (m.stored i word hi).1 (Nat.not_lt.2 h)

theorem getElem?_words (m : Memory) (i : Nat) :
    m.words[i]? = if m.cell i = 0 then none else some (m.cell i) := by
  rw [cell, Std.ExtTreeMap.getD_eq_getD_getElem?]
  cases hi : m.words[i]? with
  | none => rfl
  | some word => exact (if_neg (m.stored i word hi).2).symm

/-- A memory is its cells. -/
theorem ext_cell {m m' : Memory} (hs : m.size = m'.size) (h : ∀ i, m.cell i = m'.cell i) :
    m = m' := by
  have hw : m.words = m'.words :=
    Std.ExtTreeMap.ext_getElem? fun i => by rw [getElem?_words, getElem?_words, h]
  cases m
  cases m'
  cases hs
  cases hw
  rfl

@[simp] theorem size_set (m : Memory) (i : Nat) (word : Word) : (m.set i word).size = m.size := by
  unfold set
  split
  · split <;> rfl
  · rfl

theorem cell_set (m : Memory) (i : Nat) (word : Word) (j : Nat) :
    (m.set i word).cell j = if i = j ∧ i < m.size then word else m.cell j := by
  unfold set
  by_cases h : i < m.size
  · rw [dif_pos h]
    by_cases hw : word = 0
    · rw [dif_pos hw]
      simp only [cell, Std.ExtTreeMap.getD_erase, Nat.compare_eq_eq, h, hw, and_true]
    · rw [dif_neg hw]
      simp only [cell, Std.ExtTreeMap.getD_insert, Nat.compare_eq_eq, h, and_true]
  · rw [dif_neg h, if_neg fun hi => h hi.2]

theorem contains_iff {m : Memory} {address : Word} :
    m.Contains address ↔ 0 ≤ address.toInt ∧ address.toInt < m.size := by
  rw [Contains, BitVec.toInt_eq_msb_cond]
  cases h : address.msb with
  | false => simp
  | true =>
    have := address.isLt
    simp
    omega

theorem contains_ofNat_iff {m : Memory} {n : Nat} (h : n ≤ addressLimit) :
    m.Contains (.ofNat 32 n) ↔ n < m.size := by
  have hrange : addressLimit = 2147483647 := rfl
  rw [Contains, BitVec.msb_eq_false_iff_two_mul_lt, toNat_address h]
  omega

theorem read_eq_ok_iff {m : Memory} {address word : Word} :
    m.read address = .ok word ↔ m.Contains address ∧ m.cell address.toNat = word := by
  unfold read
  split <;> simp_all

theorem write_eq_ok_iff {m m' : Memory} {address word : Word} :
    m.write address word = .ok m' ↔
      m.Contains address ∧ m' = m.set address.toNat word := by
  unfold write
  split <;> simp_all [eq_comm]

theorem size_write {m m' : Memory} {address word : Word} (h : m.write address word = .ok m') :
    m'.size = m.size := by
  rw [(write_eq_ok_iff.1 h).2, size_set]

@[simp] theorem size_copy (m : Memory) (start : Nat) (words : List Word) :
    (m.copy start words).size = m.size := by
  induction words generalizing start m with
  | nil => rfl
  | cons word words ih => rw [copy, ih, size_set]

theorem cell_copy (m : Memory) (start : Nat) (words : List Word)
    (h : start + words.length ≤ m.size) (i : Nat) :
    (m.copy start words).cell i =
      if start ≤ i ∧ i < start + words.length then words.getD (i - start) 0 else m.cell i := by
  induction words generalizing start m with
  | nil => rw [copy, if_neg (by rw [List.length_nil]; omega)]
  | cons word words ih =>
    rw [List.length_cons] at h ⊢
    rw [copy, ih _ _ (by rw [size_set]; omega), cell_set]
    rcases Nat.lt_trichotomy i start with hi | rfl | hi
    · rw [if_neg (by omega), if_neg (by omega), if_neg (by omega)]
    · rw [if_neg (by omega), if_pos (by omega), if_pos (by omega), Nat.sub_self]
      rfl
    · rw [if_neg (by omega : ¬(start = i ∧ start < m.size))]
      by_cases hl : i < start + 1 + words.length
      · rw [if_pos (by omega), if_pos (by omega), show i - start = (i - (start + 1)) + 1 by omega,
          List.getD_cons_succ]
      · rw [if_neg (by omega), if_neg (by omega)]

/-- An image is loaded if it fits the cells from its base on. -/
theorem load_ok_iff {m m' : Memory} {base : Word} {image : List Word} :
    m.load base image = .ok m' ↔
      base.toNat + image.length ≤ m.size ∧ m' = m.copy base.toNat image := by
  rw [load, loadError?]
  by_cases h : base.toNat + image.length ≤ m.size
  · have hroom : ¬(m.size < base.toNat ∨ m.size - base.toNat < image.length) := by omega
    simp [hroom, h, eq_comm]
  · have hroom : m.size < base.toNat ∨ m.size - base.toNat < image.length := by omega
    simp [hroom, h]

theorem size_load {m m' : Memory} {base : Word} {image : List Word}
    (h : m.load base image = .ok m') : m'.size = m.size := by
  rw [(load_ok_iff.1 h).2, size_copy]

@[simp] theorem size_ofList (words : List Word) : (ofList words).size = words.length := by
  rw [ofList, size_copy, size_zeros]

theorem cell_ofList (words : List Word) (i : Nat) : (ofList words).cell i = words.getD i 0 := by
  rw [ofList, cell_copy _ _ _ (Nat.le_of_eq (by rw [size_zeros, Nat.zero_add])), cell_zeros]
  split
  · rfl
  · next h =>
    rw [List.getD_eq_getElem?_getD, List.getElem?_eq_none (by omega)]
    rfl

theorem toList_ofList (words : List Word) : (ofList words).toList = words := by
  apply List.ext_getElem
  · simp [toList]
  · intro i _ h
    simp [toList, cell_ofList, h]

theorem ofList_toList (m : Memory) : ofList m.toList = m := by
  apply ext_cell
  · simp [toList]
  · intro i
    rw [cell_ofList]
    by_cases h : i < m.size
    · simp [toList, h]
    · rw [cell_eq_zero (Nat.le_of_not_lt h), List.getD_eq_getElem?_getD,
        List.getElem?_eq_none (by simp [toList]; omega)]
      rfl

end Memory
end DM2022
