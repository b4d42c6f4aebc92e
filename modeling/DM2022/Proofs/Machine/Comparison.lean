import DM2022.Proofs.Machine.Addressing
import DM2022.Proofs.Machine.Arithmetic

/-!
# Comparisons

A comparison sets the flags of a difference and nothing else. A difference that no word shows
has wrapped to the other sign, and never to zero, so that the sign together with the overflow
decides the order of the two numbers. Without an overflow the sign alone does, which is what a
predicate of one flag tests.
-/
namespace DM2022

namespace Flags

/-- The flags decide the order of two numbers. -/
structure Orders (flags : Flags) (left right : Int) : Prop where
  eq_iff : left = right ↔ flags.contains zero = true
  shown_of_eq : left = right → flags.contains overflow = false
  lt_iff : left < right ↔
    flags.contains minus = true ∧ flags.contains overflow = false ∨
      flags.contains plus = true ∧ flags.contains overflow = true
  gt_iff : right < left ↔
    flags.contains plus = true ∧ flags.contains overflow = false ∨
      flags.contains minus = true ∧ flags.contains overflow = true

theorem meets_sign : ∀ sign ∈ [minus, zero, plus], ∀ bits : Byte,
    meets ⟨bits⟩ sign = contains ⟨bits⟩ sign := by
  decide +kernel

namespace Orders

variable {flags : Flags} {left right : Int}

theorem shown (h : flags.Orders left right) (hshown : flags.contains overflow = false) :
    (flags.contains minus = true ↔ left < right) ∧
      (flags.contains zero = true ↔ left = right) ∧
      (flags.contains plus = true ↔ right < left) := by
  obtain ⟨heq, -, hlt, hgt⟩ := h
  rw [hshown] at hlt hgt
  simp only [and_true, Bool.false_eq_true, and_false, or_false] at hlt hgt
  exact ⟨hlt.symm, heq.symm, hgt.symm⟩

end Orders
end Flags

namespace AluOp

variable {left right : Int}

/-- The word that a difference wraps to has the other sign just if the difference is lost, and
is zero for equal numbers only. -/
theorem Wraps.orders {value : Word} {lost : Bool} (h : Wraps (left - right) (value, lost))
    (hl : Word.Fits left) (hr : Word.Fits right) :
    (Flags.ofResult value lost).Orders left right := by
  have htell := Flags.tell_ofResult value lost
  have hlost : lost = true ↔ ¬Word.Fits (left - right) := h.lost_iff
  have hwraps : (0x100000000 : Int) ∣ value.toInt - (left - right) := by
    rw [show value = _ from h.value_eq, BitVec.toInt_ofInt]
    exact Int.dvd_bmod_sub_self
  have hvalue := Word.fits_toInt value
  rw [Word.Fits] at hl hr hlost hvalue
  refine ⟨?_, fun heq => ?_, ?_, ?_⟩
  · rw [htell.zero_iff]
    omega
  · rw [Bool.eq_false_iff, Ne, htell.overflow_iff, hlost]
    omega
  · rw [Bool.eq_false_iff, Ne, htell.minus_iff, htell.plus_iff, htell.overflow_iff, hlost]
    omega
  · rw [Bool.eq_false_iff, Ne, htell.minus_iff, htell.plus_iff, htell.overflow_iff, hlost]
    omega

theorem exec_sub (left right : Word) : ∃ value flags,
    sub.exec left right = .ok (value, flags) ∧ flags.Orders left.toInt right.toInt :=
  ⟨_, _, rfl, (wraps_difference left right).orders left.fits_toInt right.fits_toInt⟩

/-- The least number is less than one, though their difference wraps to a positive one. -/
example : sub.exec 0x80000000 1 = .ok (0x7fffffff, Flags.plus.union .overflow) := rfl

end AluOp

namespace Machine

variable {m later : Machine} {i j : Instruction} {flags : Flags} {left right : Int}

/-- What a cycle does with an instruction that is enabled just if `p` holds. -/
def cycleIf (m : Machine) (i : Instruction) (p : Prop) [Decidable p] :
    Except FaultKind Instruction × Machine :=
  if p then m.perform i else m.pass i

theorem Fetches.cycle_eq (h : m.Fetches i) :
    m.cycle = m.cycleIf i (m.regs.flags.meets i.cond = true) := by
  obtain ⟨word, hread, rfl⟩ := h
  obtain ⟨hcontains, rfl⟩ := Memory.read_eq_ok_iff.1 hread
  exact cycle_of_contains hcontains rfl

theorem Fetches.cycle_of_iff {p : Prop} [Decidable p] (h : m.Fetches i)
    (hp : m.regs.flags.meets i.cond = true ↔ p) : m.cycle = m.cycleIf i p := by
  rw [h.cycle_eq, cycleIf, cycleIf]
  simp only [hp]

/-- A predicate of one sign tests the order that the flags decide without an overflow. -/
theorem Fetches.cycle_of_orders (h : later.Fetches j) (horders : later.regs.flags.Orders left right)
    (hshown : later.regs.flags.contains .overflow = false) :
    (j.cond = .minus → later.cycle = later.cycleIf j (left < right)) ∧
      (j.cond = .zero → later.cycle = later.cycleIf j (left = right)) ∧
      (j.cond = .plus → later.cycle = later.cycleIf j (right < left)) := by
  obtain ⟨hlt, heq, hgt⟩ := horders.shown hshown
  have hmeets : ∀ sign ∈ [Flags.minus, .zero, .plus],
      later.regs.flags.meets sign = later.regs.flags.contains sign :=
    fun sign hsign => Flags.meets_sign sign hsign _
  refine ⟨fun hcond => h.cycle_of_iff ?_, fun hcond => h.cycle_of_iff ?_,
    fun hcond => h.cycle_of_iff ?_⟩
  · rw [hcond, hmeets _ (by decide), hlt]
  · rw [hcond, hmeets _ (by decide), heq]
  · rw [hcond, hmeets _ (by decide), hgt]

theorem step_of_cmp {value : Word} (hr : m.state = .running) (hi : m.Fetches i) (hop : i.op = .cmp)
    (hm : m.regs.flags.inter i.cond ≠ .never)
    (hexec : AluOp.sub.exec (m.reading i.src1) (m.reading i.src2 + i.offset) = .ok (value, flags)) :
    m.step = (.ok i, { m with
      regs := ({ m.regs with flags }).jump (m.regs.pc + 1)
      cycles := m.cycles + 1
      lastInstr := some i }) := by
  have halu : i.op.aluOp? = some .sub := by
    rw [hop]
    rfl
  have hexecute : m.execute i = (.ok m.regs.next, m.setFlags flags) := by
    rw [execute_arithmetic halu, hexec]
    exact if_pos hop
  obtain ⟨word, hread, rfl⟩ := hi
  rw [step_of_enabled hr hread hm, hexecute]
  rfl

/-- An enabled comparison completes. It sets the flags, which decide the order of the two
numbers, and goes on; the other registers, the memory and all else stay. As long as the flags
are kept and show no overflow, the instructions with the predicates `M`, `Z` and `P` are enabled
just if the first number is less than, equal to and greater than the second. -/
theorem step_compares (hr : m.state = .running) (hi : m.Fetches i) (hop : i.op = .cmp)
    (hm : m.regs.flags.inter i.cond ≠ .never) :
    ∃ flags next, m.step = (.ok i, next) ∧
      next = { m with
        regs := ({ m.regs with flags }).jump (m.regs.pc + 1)
        cycles := m.cycles + 1
        lastInstr := some i } ∧
      (∀ reg : Byte, reg.toNat % 16 ≠ 15 → next.regs.get reg = m.regs.get reg) ∧
      flags.Orders (m.reading i.src1).toInt (m.reading i.src2 + i.offset).toInt ∧
      (flags.contains .overflow = false →
        ∀ later : Machine, later.regs.flags = flags → ∀ j, later.Fetches j →
          (j.cond = .minus → later.cycle =
            later.cycleIf j ((m.reading i.src1).toInt < (m.reading i.src2 + i.offset).toInt)) ∧
          (j.cond = .zero → later.cycle =
            later.cycleIf j ((m.reading i.src1).toInt = (m.reading i.src2 + i.offset).toInt)) ∧
          (j.cond = .plus → later.cycle =
            later.cycleIf j ((m.reading i.src2 + i.offset).toInt < (m.reading i.src1).toInt))) := by
  obtain ⟨value, flags, hexec, horders⟩ :=
    AluOp.exec_sub (m.reading i.src1) (m.reading i.src2 + i.offset)
  refine ⟨flags, _, step_of_cmp hr hi hop hm hexec, rfl, fun reg hreg => ?_, horders, ?_⟩
  · exact Registers.get_jump_of_ne _ _ hreg
  · rintro hshown later rfl j hj
    exact hj.cycle_of_orders horders hshown

/-- `CMP r1,r0[1]` with -5 in `r1`, before a `HALT` with the predicate `M`. -/
theorem step_compares_negative : ∃ m next : Machine,
    m = { holding [0x37c04001, 0x00400000] with regs := Registers.initial.set 1 (-5) } ∧
    m.step = (.ok ⟨.cmp, .always, 0, 1, 0, 1⟩, next) ∧ next.regs.flags = .minus ∧
    next.Fetches ⟨.halt, .minus, 0, 0, 0, 0⟩ ∧
    next.cycle = next.cycleIf ⟨.halt, .minus, 0, 0, 0, 0⟩ ((-5 : Word).toInt < 1) := by
  obtain ⟨m, hm⟩ : ∃ m : Machine,
    m = { holding [0x37c04001, 0x00400000] with regs := Registers.initial.set 1 (-5) } := ⟨_, rfl⟩
  have hi : m.Fetches ⟨.cmp, .always, 0, 1, 0, 1⟩ := by
    rw [hm]
    exact ⟨0x37c04001, rfl, rfl⟩
  obtain ⟨flags, next, hstep, hnext, -, -, hlater⟩ :=
    step_compares (by rw [hm]; rfl) hi rfl (by rw [hm]; decide)
  have hflags : flags = .minus := by
    have hfinal : m.step.2.regs.flags = .minus := by rw [hm]; rfl
    rw [hstep, hnext] at hfinal
    exact hfinal
  have hfetches : next.Fetches ⟨.halt, .minus, 0, 0, 0, 0⟩ := by
    rw [hnext, hflags, hm]
    exact ⟨0x00400000, rfl, rfl⟩
  have hnextflags : next.regs.flags = flags := by rw [hnext]; rfl
  refine ⟨m, next, hm, hstep, hnextflags.trans hflags, hfetches, ?_⟩
  obtain ⟨hless, -, -⟩ := hlater (by rw [hflags]; rfl) next hnextflags _ hfetches
  have hleft : m.reading 1 = -5 := by rw [hm]; rfl
  have hright : (m.reading 0 + 1).toInt = 1 := by rw [hm]; rfl
  have hcycle := hless rfl
  simp only [hleft, hright] at hcycle
  exact hcycle

end Machine
end DM2022
