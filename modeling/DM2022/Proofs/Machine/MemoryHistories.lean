import DM2022.Proofs.Machine.Reset
import Mathlib.Data.List.Induction

/-!
# Memory histories

A memory keeps the number of cells that it was made with, and a cell holds the word that was
last put there. What names a cell past the memory is refused and leaves every cell as it is,
so only what was accepted counts.
-/
namespace DM2022.Memory

/-- What an operation names lies within `size` cells. -/
def Operation.Fits (size : Nat) : Operation → Prop
  | .write address _ => 0 ≤ address.toInt ∧ address.toInt < size
  | .load base image => base.toNat + image.length ≤ size
  | .clear => True

instance (size : Nat) : DecidablePred (Operation.Fits size)
  | .write _ _ => inferInstanceAs (Decidable (_ ∧ _))
  | .load _ _ => inferInstanceAs (Decidable (_ ≤ _))
  | .clear => .isTrue trivial

/-- The word that an operation puts into the cell `k`, if it names the cell. -/
def Operation.word? (k : Nat) : Operation → Option Word
  | .write address value => if address.toInt = k then some value else none
  | .load base image => if base.toNat ≤ k then image[k - base.toNat]? else none
  | .clear => some 0

/-- Why an operation on `size` cells is refused. -/
inductive Operation.Refused (size : Nat) : Operation → MemoryError → Prop
  | write {address value : Word} :
      Refused size (.write address value) (.addressOutOfRange address size)
  | load {base : Word} {image : List Word} {available : Nat}
      (room : (available : Int) = max 0 ((size : Int) - base.toNat)) :
      Refused size (.load base image) (.imageTooLarge base.toNat image.length available)

/-- The memory after an operation. One that is refused leaves it as it is. -/
def applied (m : Memory) (op : Operation) : Memory := (m.operate op).toOption.getD m

/-- A memory that was made with `n` cells, after these operations. -/
def history (n : Count) (ops : List Operation) : Memory := ops.foldl applied (zeros n.toNat)

/-- The word that was last put into the cell `k` of `size` cells. -/
def lastPut (size k : Nat) (ops : List Operation) : Word :=
  ((ops.reverse.filter (Operation.Fits size ·)).findSome? (Operation.word? k)).getD 0

variable {m m' : Memory} {op : Operation}

/-! ## One operation -/

theorem operate_of_fits (h : op.Fits m.size) : ∃ m', m.operate op = .ok m' := by
  cases op with
  | write address value => exact ⟨_, write_eq_ok_iff.2 ⟨contains_iff.2 h, rfl⟩⟩
  | load base image => exact ⟨_, load_ok_iff.2 ⟨h, rfl⟩⟩
  | clear => exact ⟨_, rfl⟩

theorem operate_of_not_fits (h : ¬op.Fits m.size) :
    ∃ error, m.operate op = .error error ∧ op.Refused m.size error := by
  cases op with
  | write address value => exact ⟨_, if_neg (mt contains_iff.1 h), .write⟩
  | load base image =>
    have hroom : m.size < base.toNat ∨ m.size - base.toNat < image.length := by
      rw [Operation.Fits] at h
      omega
    refine ⟨.imageTooLarge base.toNat image.length (m.size - base.toNat), ?_, .load (by omega)⟩
    rw [operate, load, loadError?]
    simp only [if_pos hroom]
  | clear => exact absurd trivial h

/-- An operation that is accepted changes just the cells that it names. -/
theorem cell_operate (h : m.operate op = .ok m') {k : Nat} (hk : k < m.size) :
    m'.cell k = (op.word? k).getD (m.cell k) := by
  cases op with
  | write address value =>
    obtain ⟨hcontains, rfl⟩ := write_eq_ok_iff.1 h
    have haddress : address.toInt = address.toNat :=
      BitVec.toInt_eq_toNat_of_msb hcontains.1
    rw [cell_set, Operation.word?, haddress]
    by_cases hcell : address.toNat = k
    · rw [if_pos ⟨hcell, hcell ▸ hk⟩, if_pos (congrArg Nat.cast hcell), Option.getD_some]
    · rw [if_neg fun hset => hcell hset.1, if_neg (mt Int.ofNat_inj.1 hcell), Option.getD_none]
  | load base image =>
    obtain ⟨hfits, rfl⟩ := load_ok_iff.1 h
    rw [cell_copy _ _ _ hfits, Operation.word?]
    by_cases hlow : base.toNat ≤ k
    · rw [if_pos hlow]
      by_cases hhigh : k < base.toNat + image.length
      · rw [if_pos ⟨hlow, hhigh⟩, List.getD_eq_getElem?_getD,
          List.getElem?_eq_getElem (by omega), Option.getD_some, Option.getD_some]
      · rw [if_neg fun hin => hhigh hin.2, List.getElem?_eq_none (by omega), Option.getD_none]
    · rw [if_neg fun hin => hlow hin.1, if_neg hlow, Option.getD_none]
  | clear =>
    cases h
    exact cell_zeros ..

theorem applied_of_ok (h : m.operate op = .ok m') : m.applied op = m' := by
  rw [applied, h]
  rfl

theorem applied_of_error {error : MemoryError} (h : m.operate op = .error error) :
    m.applied op = m := by
  rw [applied, h]
  rfl

theorem size_applied (m : Memory) (op : Operation) : (m.applied op).size = m.size := by
  cases h : m.operate op with
  | ok m' => rw [applied_of_ok h, Machine.size_operate h]
  | error error => rw [applied_of_error h]

/-- What is refused puts no word anywhere. -/
theorem cell_applied (m : Memory) (op : Operation) {k : Nat} (hk : k < m.size) :
    (m.applied op).cell k =
      if op.Fits m.size then (op.word? k).getD (m.cell k) else m.cell k := by
  by_cases hfits : op.Fits m.size
  · obtain ⟨m', h⟩ := operate_of_fits hfits
    rw [applied_of_ok h, cell_operate h hk, if_pos hfits]
  · obtain ⟨error, h, -⟩ := operate_of_not_fits hfits
    rw [applied_of_error h, if_neg hfits]

/-! ## All operations -/

variable {n : Count} {ops : List Operation}

theorem history_append (n : Count) (ops : List Operation) (op : Operation) :
    history n (ops ++ [op]) = (history n ops).applied op :=
  List.foldl_append ..

theorem size_history (n : Count) (ops : List Operation) : (history n ops).size = n.toNat := by
  induction ops using List.reverseRecOn with
  | nil => rfl
  | append_singleton ops op ih => rw [history_append, size_applied, ih]

theorem lastPut_append (size k : Nat) (ops : List Operation) (op : Operation) :
    lastPut size k (ops ++ [op]) =
      if op.Fits size then (op.word? k).getD (lastPut size k ops) else lastPut size k ops := by
  rw [lastPut, List.reverse_append, List.reverse_singleton, List.singleton_append,
    List.filter_cons]
  by_cases hfits : op.Fits size
  · rw [if_pos (decide_eq_true hfits), if_pos hfits, List.findSome?_cons]
    cases op.word? k <;> rfl
  · rw [if_neg (by simpa using hfits), if_neg hfits]
    rfl

/-- The induction is on the operations from the last one back. -/
theorem cell_history (ops : List Operation) {k : Nat} (hk : k < n.toNat) :
    (history n ops).cell k = lastPut n.toNat k ops := by
  induction ops using List.reverseRecOn with
  | nil => exact cell_zeros ..
  | append_singleton ops op ih =>
    rw [history_append, cell_applied _ _ (by rwa [size_history]), size_history, ih, lastPut_append]

/-! ## Dumps -/

theorem pairwise_dump (m : Memory) (start count : Nat) :
    ((m.dump start count).map Prod.fst).Pairwise (· < ·) := by
  rw [dump, List.map_map]
  exact (List.map_id' _).symm ▸ List.pairwise_lt_range'

/-- The largest count is no bound for the cells of a memory whose size is a count. -/
theorem mem_dump_iff (hsize : m.size ≤ 0xffffffffffffffff) {start count i : Nat} {word : Word} :
    (i, word) ∈ m.dump start count ↔
      start ≤ i ∧ i < min (start + count) m.size ∧ word = m.cell i := by
  have hlargest : (BitVec.allOnes 64).toNat = 0xffffffffffffffff := by decide
  rw [dump, List.mem_map, hlargest]
  constructor
  · rintro ⟨j, hj, heq⟩
    cases heq
    obtain ⟨d, hd, rfl⟩ := List.mem_range'.1 hj
    refine ⟨by omega, by omega, rfl⟩
  · rintro ⟨hstart, hstop, rfl⟩
    refine ⟨i, List.mem_range'.2 ⟨i - start, by omega, by omega⟩, rfl⟩

/-- After any operations on a memory of `n` cells, refused ones included, it has `n` cells, and
an address is read just if it is that of a cell, as the word that was last put there. The next
operation is accepted just if it fits the cells: it then changes those that it names, and
otherwise none, with a reason that tells how much room there was. A dump lists the cells from
its start on in their order, as many as there are of those it asks for, also where the sum of
start and count is past the largest count. -/
theorem history_holds (n : Count) (ops : List Operation) :
    (history n ops).size = n.toNat ∧
    (∀ address : Word,
      (0 ≤ address.toInt ∧ address.toInt < n.toNat →
        (history n ops).read address = .ok (lastPut n.toNat address.toInt.toNat ops)) ∧
      (¬(0 ≤ address.toInt ∧ address.toInt < n.toNat) →
        (history n ops).read address = .error (.addressOutOfRange address n.toNat))) ∧
    (∀ op : Operation,
      (op.Fits n.toNat → ∃ m, (history n ops).operate op = .ok m ∧ history n (ops ++ [op]) = m ∧
        ∀ k < n.toNat, m.cell k = (op.word? k).getD ((history n ops).cell k)) ∧
      (¬op.Fits n.toNat → ∃ error, (history n ops).operate op = .error error ∧
        op.Refused n.toNat error ∧ history n (ops ++ [op]) = history n ops)) ∧
    ∀ start count : Count,
      (((history n ops).dump start.toNat count.toNat).map Prod.fst).Pairwise (· < ·) ∧
      ∀ i word, (i, word) ∈ (history n ops).dump start.toNat count.toNat ↔
        start.toNat ≤ i ∧ i < min (start.toNat + count.toNat) n.toNat ∧
          word = lastPut n.toNat i ops := by
  have hsize := size_history n ops
  refine ⟨hsize, fun address => ⟨fun hrange => ?_, fun hrange => ?_⟩,
    fun op => ⟨fun hfits => ?_, fun hfits => ?_⟩, fun start count => ⟨pairwise_dump .., ?_⟩⟩
  · have hcontains : (history n ops).Contains address := contains_iff.2 (by rwa [hsize])
    have hcell : address.toNat < n.toNat := hsize ▸ hcontains.2
    rw [BitVec.toInt_eq_toNat_of_msb hcontains.1, Int.toNat_natCast, ← cell_history ops hcell]
    exact read_eq_ok_iff.2 ⟨hcontains, rfl⟩
  · have hcontains : ¬(history n ops).Contains address := by rwa [contains_iff, hsize]
    rw [read, if_neg hcontains, hsize]
  · rw [← hsize] at hfits ⊢
    obtain ⟨m, hm⟩ := operate_of_fits hfits
    refine ⟨m, hm, ?_, fun k hk => cell_operate hm hk⟩
    rw [history_append, applied_of_ok hm]
  · rw [← hsize] at hfits ⊢
    obtain ⟨error, herror, hrefused⟩ := operate_of_not_fits hfits
    refine ⟨error, herror, hrefused, ?_⟩
    rw [history_append, applied_of_error herror]
  · intro i word
    rw [mem_dump_iff (by rw [hsize]; have := n.isLt; omega), hsize]
    constructor
    · rintro ⟨hstart, hstop, rfl⟩
      exact ⟨hstart, hstop, cell_history ops (by omega)⟩
    · rintro ⟨hstart, hstop, rfl⟩
      exact ⟨hstart, hstop, (cell_history ops (by omega)).symm⟩

/-- An image that does not fit leaves no word behind, not even where it would have fitted. -/
example : lastPut 4 3 [.write 3 7, .load 3 [1, 2], .load 4 []] = 7 := by decide

end DM2022.Memory
