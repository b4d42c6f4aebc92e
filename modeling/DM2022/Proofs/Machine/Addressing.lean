import DM2022.Proofs.Machine.Calls

/-!
# Addresses of a validated machine

A configuration that is accepted makes a machine whose cells all have an address. Its program
counter starts at a cell, and wherever it goes, an instruction is fetched only from a cell. As
no memory reaches past the last address, the instruction after it has the next address, and
`r15` reads as that.
-/
namespace DM2022

theorem Config.validate_ok_iff {c : Config} : c.validate = .ok () ↔
    0 < c.memoryWords.toNat ∧ c.memoryWords.toNat ≤ addressLimit ∧
      c.loadBase.toNat ≤ c.memoryWords.toNat ∧ c.entry.toNat < c.memoryWords.toNat := by
  rw [validate]
  split
  · simp only [reduceCtorEq, false_iff]
    omega
  · split
    · simp only [reduceCtorEq, false_iff]
      omega
    · split
      · simp only [reduceCtorEq, false_iff]
        omega
      · split
        · simp only [reduceCtorEq, false_iff]
          omega
        · simp only [true_iff]
          omega

namespace Memory

variable {m : Memory}

theorem exists_address (hsize : m.size ≤ addressLimit) {i : Nat} (hi : i < m.size) :
    ∃ address : Word, address.toInt = i ∧ m.Contains address := by
  have hle : i ≤ addressLimit := Nat.le_of_lt (Nat.lt_of_lt_of_le hi hsize)
  have hcontains : m.Contains (.ofNat 32 i) := (contains_ofNat_iff hle).2 hi
  refine ⟨.ofNat 32 i, ?_, hcontains⟩
  rw [BitVec.toInt_eq_toNat_of_msb hcontains.1, toNat_address hle]

end Memory

namespace Machine

variable {m next last : Machine} {c : Config} {i : Instruction} {n : Nat}

/-- The machine finds this instruction at its program counter. -/
def Fetches (m : Machine) (i : Instruction) : Prop :=
  ∃ word, m.mem.read m.regs.pc = .ok word ∧ Instruction.decode word = i

/-- The program counter is that of one of `size` cells, and the next instruction has the address
after it, which is also what `r15` reads as. -/
structure AtCell (m : Machine) (size : Nat) : Prop where
  pc_nonneg : 0 ≤ m.regs.pc.toInt
  pc_lt : m.regs.pc.toInt < size
  next_eq : m.regs.next.toInt = m.regs.pc.toInt + 1
  operand_eq : m.operand Register.pc = m.regs.next

theorem fetches_of_contains (h : m.mem.Contains m.regs.pc) : ∃ i, m.Fetches i :=
  ⟨_, _, Memory.read_eq_ok_iff.2 ⟨h, rfl⟩, rfl⟩

theorem Fetches.contains (h : m.Fetches i) : m.mem.Contains m.regs.pc := by
  obtain ⟨word, hread, -⟩ := h
  exact (Memory.read_eq_ok_iff.1 hread).1

/-- A completed step has fetched its instruction. -/
theorem fetches_of_step (h : m.step = (.ok i, next)) : m.Fetches i := by
  obtain ⟨hcontains, hi, -⟩ := step_ok_cases (running_of_step_ok h) h
  exact ⟨_, Memory.read_eq_ok_iff.2 ⟨hcontains, rfl⟩, hi.symm⟩

/-- In an addressable memory the address after a cell does not wrap. -/
theorem Fetches.atCell (h : m.Fetches i) (hsize : m.mem.size ≤ addressLimit) :
    m.AtCell m.mem.size := by
  have hlimit : addressLimit = 0x7fffffff := rfl
  obtain ⟨hnonneg, hlt⟩ := Memory.contains_iff.1 h.contains
  have hone : (1 : Word).toInt = 1 := by decide
  refine ⟨hnonneg, hlt, ?_, ?_⟩
  · rw [Registers.next, Word.sum_eq, BitVec.toInt_add, hone, Int.bmod_eq_of_le] <;> omega
  · rw [operand, if_pos rfl]

theorem fetches_ofConfig (h : c.validate = .ok ()) : ∃ i, (ofConfig c).Fetches i := by
  have hrange : addressLimit = 0x7fffffff := rfl
  obtain ⟨-, hlimit, -, hentry⟩ := Config.validate_ok_iff.1 h
  have hpc : (ofConfig c).regs.pc = c.entry := Registers.pc_jump _ _
  have hmsb : c.entry.msb = false := by
    rw [BitVec.msb_eq_false_iff_two_mul_lt]
    omega
  refine fetches_of_contains ?_
  rw [hpc]
  exact ⟨hmsb, hentry⟩

namespace MadeFrom

theorem completes (h : MadeFrom c m) (hsteps : Completes n m last) : MadeFrom c last := by
  induction hsteps with
  | refl => exact h
  | step first _ ih => exact ih (h.step first)

theorem load_ok_iff (h : MadeFrom c m) (image : List Word) :
    (∃ loaded, m.load image = .ok loaded) ↔
      c.loadBase.toNat + image.length ≤ c.memoryWords.toNat := by
  simp only [Machine.load_ok_iff, Memory.load_ok_iff, h.config_eq, h.size_eq]
  constructor
  · intro hloaded
    obtain ⟨_, _, ⟨hfits, -⟩, -⟩ := hloaded
    exact hfits
  · intro hfits
    exact ⟨_, _, ⟨hfits, rfl⟩, rfl⟩

end MadeFrom

/-- A machine of an accepted configuration starts at a cell, before and after an image is
loaded, and fetches its first instruction there. Whatever calls it takes that come to an end,
an image fits it just if it ends within the memory, and every cell has an address that is not
negative. Whenever such
a machine fetches an instruction, also in the middle of a run, it does so at a cell, and the
address of the next instruction does not wrap. -/
theorem atCell_of_validate (h : c.validate = .ok ()) :
    (ofConfig c).AtCell c.memoryWords.toNat ∧ (∃ i, (ofConfig c).Fetches i) ∧
    (∀ image m, (ofConfig c).load image = .ok m → ∃ i, m.Fetches i) ∧
    ∀ calls : List Call, Throughout Returns call (ofConfig c) calls →
      (∀ image, (∃ loaded, (calls.foldl call (ofConfig c)).load image = .ok loaded) ↔
        c.loadBase.toNat + image.length ≤ c.memoryWords.toNat) ∧
      (∀ k < c.memoryWords.toNat, ∃ address : Word, address.toInt = k ∧
        ∃ word, (calls.foldl call (ofConfig c)).mem.read address = .ok word) ∧
      ∀ n last, Completes n (calls.foldl call (ofConfig c)) last →
        (∀ i next, last.step = (.ok i, next) → last.Fetches i) ∧
        ∀ i, last.Fetches i →
          last.AtCell c.memoryWords.toNat ∧ last.regs.next.toInt ≤ c.memoryWords.toNat := by
  have hlimit := (Config.validate_ok_iff.1 h).2.1
  obtain ⟨i, hfirst⟩ := fetches_ofConfig h
  refine ⟨hfirst.atCell hlimit, ⟨i, hfirst⟩, fun image m hload => ?_, fun calls hends => ?_⟩
  · obtain ⟨mem, hmem, rfl⟩ := load_ok_iff.1 hload
    refine fetches_of_contains ⟨hfirst.contains.1, ?_⟩
    rw [Memory.size_load hmem]
    exact hfirst.contains.2
  · have hmade := hends.keeps (fun hreturns hmade => hmade.call hreturns) (MadeFrom.made c)
    refine ⟨hmade.load_ok_iff, fun k hk => ?_, fun n last hsteps => ?_⟩
    · rw [← hmade.size_eq] at hk hlimit
      obtain ⟨address, haddress, hcontains⟩ := Memory.exists_address hlimit hk
      exact ⟨address, haddress, _, Memory.read_eq_ok_iff.2 ⟨hcontains, rfl⟩⟩
    · refine ⟨fun i next hstep => fetches_of_step hstep, fun i hi => ?_⟩
      have hsize := (hmade.completes hsteps).size_eq
      rw [← hsize] at hlimit ⊢
      have hcell := hi.atCell hlimit
      have hlt := hcell.pc_lt
      rw [hcell.next_eq]
      exact ⟨hcell, by omega⟩

/-- A machine with the largest memory, which starts at the last cell. -/
theorem atCell_of_largest : ∃ c : Config, c = ⟨0x7fffffff, 0x7fffffff, 0x7ffffffe, none⟩ ∧
    c.validate = .ok () ∧ (ofConfig c).regs.next.toInt = 0x7fffffff ∧
    (∃ loaded, (ofConfig c).load [] = .ok loaded) ∧
    ¬∃ loaded, (ofConfig c).load [0] = .ok loaded := by
  obtain ⟨c, hc⟩ : ∃ c : Config, c = ⟨0x7fffffff, 0x7fffffff, 0x7ffffffe, none⟩ := ⟨_, rfl⟩
  have hvalid : c.validate = .ok () := by
    rw [hc]
    rfl
  obtain ⟨hcell, -, -, hcalls⟩ := atCell_of_validate hvalid
  obtain ⟨hload, -, -⟩ := hcalls [] trivial
  have hpc : (ofConfig c).regs.pc.toInt = 0x7ffffffe := by
    rw [hc]
    rfl
  refine ⟨c, hc, hvalid, by rw [hcell.next_eq, hpc]; rfl, (hload []).2 ?_, mt (hload [0]).1 ?_⟩
  · rw [hc]
    decide
  · rw [hc]
    decide

end Machine
end DM2022
