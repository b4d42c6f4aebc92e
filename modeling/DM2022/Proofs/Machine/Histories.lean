import DM2022.Proofs.Machine.Budget
import DM2022.Proofs.Machine.Calls

/-!
# Histories

What holds of a machine after any calls on it. The configuration and the size of the memory
stay, `r0` is never written, and the cycle counter counts the completed steps since the
machine was made or last reset. The flags are those of a result as soon as an arithmetic
instruction has been executed.
-/
namespace DM2022

namespace Flags

/-- All signs of a result. -/
def signs : Flags := (minus.union zero).union plus

/-- The flags of a result: one sign, and perhaps that the result does not fit a word. -/
def IsResult (flags : Flags) : Prop :=
  ∃ sign ∈ [minus, zero, plus], flags = sign ∨ flags = sign.union overflow

theorem isResult_ofResult (value : Word) (lost : Bool) : (ofResult value lost).IsResult := by
  obtain ⟨sign, hsign, heq⟩ : ∃ sign ∈ [minus, zero, plus],
      (if value.msb then minus else if value = 0 then zero else plus) = sign := by
    split
    · exact ⟨minus, by simp, rfl⟩
    · split
      · exact ⟨zero, by simp, rfl⟩
      · exact ⟨plus, by simp, rfl⟩
  refine ⟨sign, hsign, ?_⟩
  rw [ofResult, heq]
  cases lost with
  | true => exact .inr rfl
  | false => exact .inl rfl

theorem not_meets_never (flags : Flags) : flags.meets never = false := by
  simp [meets, never]

theorem IsResult.meets {flags : Flags} (h : flags.IsResult) :
    flags.meets always = true ∧ flags.meets signs = true := by
  obtain ⟨sign, hsign, hflags⟩ := h
  rcases hflags with rfl | rfl
  · revert hsign
    revert flags
    decide
  · revert hsign
    revert sign
    decide

end Flags

theorem AluOp.isResult_of_exec {alu : AluOp} {left right value : Word} {flags : Flags}
    (h : alu.exec left right = .ok (value, flags)) : flags.IsResult := by
  rw [exec] at h
  cases hr : alu.result left right with
  | error kind =>
    rw [hr] at h
    cases h
  | ok r =>
    rw [hr] at h
    cases h
    exact Flags.isResult_ofResult r.1 r.2

theorem Opcode.exists_aluOp {op : Opcode} (h : op.isArithmetic) : ∃ alu, op.aluOp? = some alu := by
  revert h
  cases op <;> simp [isArithmetic, aluOp?]

namespace Machine

variable {m next : Machine} {i : Instruction}

/-- The step executes an arithmetic instruction: one that its machine enables. -/
def Stage.Computes (s : Stage) : Prop :=
  s.instr.op.isArithmetic = true ∧ s.machine.regs.flags.meets s.instr.cond = true

/-- A machine with the steps that it has completed since it was made or last reset. -/
structure History where
  machine : Machine
  stages : List Stage

namespace History

def start (c : Config) : History := ⟨ofConfig c, []⟩

def call (h : History) (c : Call) : History where
  machine := h.machine.call c
  stages := match c with
    | .load _ => h.stages
    | .drive way => h.stages ++ h.machine.stages way
    | .takeOutput => h.stages
    | .reset => []

def callAll (h : History) (calls : List Call) : History := calls.foldl call h

end History

/-- What holds of a machine that has the configuration `c` and has completed these steps. -/
structure Sound (c : Config) (stages : List Stage) (m : Machine) : Prop extends MadeFrom c m where
  zero_eq : m.regs.cells[0] = 0
  cycles_eq : m.cycles = .ofNat 64 stages.length
  /-- The flags are those of the start until an arithmetic instruction is executed. -/
  flags_cases : m.regs.flags = .always ∧ (∀ s ∈ stages, ¬s.Computes) ∨
    m.regs.flags.IsResult ∧ ∃ s ∈ stages, s.Computes

/-! ## Steps -/

theorem ofNat_length_append (stages : List Stage) (s : Stage) :
    BitVec.ofNat 64 (stages ++ [s]).length = BitVec.ofNat 64 stages.length + 1 := by
  rw [List.length_append, BitVec.ofNat_add]
  rfl

namespace Sound

variable {c : Config} {stages : List Stage}

theorem flags_append (h : Sound c stages m) {s : Stage} {flags : Flags}
    (hkept : ¬s.Computes → flags = m.regs.flags) (hset : s.Computes → flags.IsResult) :
    flags = .always ∧ (∀ t ∈ stages ++ [s], ¬t.Computes) ∨
      flags.IsResult ∧ ∃ t ∈ stages ++ [s], t.Computes := by
  by_cases hs : s.Computes
  · exact .inr ⟨hset hs, s, List.mem_append_right _ List.mem_cons_self, hs⟩
  · rw [hkept hs]
    rcases h.flags_cases with ⟨halways, hnone⟩ | ⟨hresult, t, ht, hcomputes⟩
    · refine .inl ⟨halways, fun t ht => ?_⟩
      rcases List.mem_append.1 ht with ht | ht
      · exact hnone t ht
      · rw [List.mem_singleton.1 ht]
        exact hs
    · exact .inr ⟨hresult, t, List.mem_append_left _ ht, hcomputes⟩

/-- One step keeps what holds of a machine. -/
theorem step (h : Sound c stages m) (hs : m.step = (.ok i, next)) :
    Sound c (stages ++ [⟨m, i⟩]) next := by
  have hmade : MadeFrom c next := h.toMadeFrom.step hs
  obtain ⟨-, -, -, hcycles, -, hcases⟩ := step_ok_cases (running_of_step_ok hs) hs
  have hcount : next.cycles = .ofNat 64 (stages ++ [(⟨m, i⟩ : Stage)]).length := by
    rw [hcycles, h.cycles_eq, ofNat_length_append]
  rcases hcases with ⟨hmeets, rfl⟩ | ⟨hmeets, hperforms⟩
  · have hnone : ¬(⟨m, i⟩ : Stage).Computes := fun hcomputes => by
      have henabled := hcomputes.2
      rw [hmeets] at henabled
      cases henabled
    refine ⟨hmade, ?_, hcount, ?_⟩
    · rw [← h.zero_eq]
      exact Vector.getElem_set_ne (by omega) (by omega) (by omega)
    · exact h.flags_append (fun _ => rfl) fun hcomputes => absurd hcomputes hnone
  · have hcells := hperforms.cells_kept 0 (by omega) fun _ _ => rfl
    refine ⟨hmade, by simpa [h.zero_eq] using hcells, hcount,
      h.flags_append (fun hnone => ?_) fun hs => ?_⟩
    · exact hperforms.flags_kept fun harithmetic => hnone ⟨harithmetic, hmeets⟩
    · obtain ⟨alu, halu⟩ := Opcode.exists_aluOp hs.1
      obtain ⟨value, hexec, -⟩ := hperforms.computed alu halu
      exact AluOp.isResult_of_exec hexec

theorem fault (h : Sound c stages m) (f : Fault) :
    Sound c stages { m with state := .faulted f } :=
  ⟨h.toMadeFrom.fault f, h.zero_eq, h.cycles_eq, h.flags_cases⟩

/-! ## Calls -/

theorem made (c : Config) : Sound c [] (ofConfig c) where
  toMadeFrom := .made c
  zero_eq := rfl
  cycles_eq := rfl
  flags_cases := .inl ⟨rfl, fun s hs => by cases hs⟩

theorem load (h : Sound c stages m) (image : List Word) :
    Sound c stages (m.call (.load image)) := by
  obtain ⟨mem, hmem⟩ := m.call_load image
  have hmade : MadeFrom c (m.call (.load image)) := h.toMadeFrom.load image
  rw [hmem] at hmade ⊢
  exact ⟨hmade, h.zero_eq, h.cycles_eq, h.flags_cases⟩

theorem drive (h : Sound c stages m) {way : Drive} (hends : m.Ends way) :
    Sound c (stages ++ m.stages way) (m.drive way).2 :=
  drive_induction (fun h hs => h.step hs) (fun f h => h.fault f) h hends

theorem takeOutput (h : Sound c stages m) : Sound c stages m.takeOutput.2 :=
  ⟨⟨h.config_eq, h.size_eq⟩, h.zero_eq, h.cycles_eq, h.flags_cases⟩

theorem reset (h : Sound c stages m) : Sound c [] m.reset where
  toMadeFrom := ⟨h.config_eq, h.size_eq⟩
  zero_eq := rfl
  cycles_eq := rfl
  flags_cases := .inl ⟨rfl, fun s hs => by cases hs⟩

end Sound

namespace History

variable {c : Config} {h : History}

theorem sound_call (hs : Sound c h.stages h.machine) {call : Call}
    (hreturns : h.machine.Returns call) :
    Sound c (h.call call).stages (h.call call).machine := by
  cases call with
  | load image => exact hs.load image
  | drive way => exact hs.drive hreturns
  | takeOutput => exact hs.takeOutput
  | reset => exact hs.reset

theorem sound_callAll (hs : Sound c h.stages h.machine) {calls : List Call}
    (hends : Throughout Returns Machine.call h.machine calls) :
    Sound c (h.callAll calls).stages (h.callAll calls).machine := by
  induction calls generalizing h with
  | nil => exact hs
  | cons call rest ih =>
    obtain ⟨hfirst, hrest⟩ := hends
    exact ih (sound_call hs hfirst) hrest

theorem machine_callAll (h : History) (calls : List Call) :
    (h.callAll calls).machine = calls.foldl Machine.call h.machine := by
  induction calls generalizing h with
  | nil => rfl
  | cons call rest ih => exact ih (h.call call)

end History

theorem Sound.meets {c : Config} {stages : List Stage} (h : Sound c stages m) :
    m.regs.flags.meets .always = true ∧ m.regs.flags.meets .signs = true := by
  rcases h.flags_cases with ⟨halways, -⟩ | ⟨hresult, -⟩
  · rw [halways]
    decide
  · exact hresult.meets

/-- What holds after any calls that come to an end, refused ones included, as long as the cycle
counter can count the steps. The configuration and the number of cells are those of the start, and `r0` holds
zero. The flags are `ALWAYS` until an arithmetic instruction is executed, and those of a
result from then on, so every predicate that has all signs is met, and `NEVER` is not. The
counter tells how many steps the machine has completed since it was made or last reset: when
it is driven again, it goes through just the steps that the history gains. A machine that
has halted or is faulted stays as it is, however it is driven. -/
theorem callAll_sound (c : Config) {calls : List Call} {h : History}
    (hcalls : h = (History.start c).callAll calls)
    (hends : Throughout Returns call (ofConfig c) calls)
    (hcount : h.stages.length ≤ 0xffffffffffffffff) :
    h.machine = calls.foldl call (ofConfig c) ∧
    h.machine.config = c ∧
    h.machine.mem.size = c.memoryWords.toNat ∧
    h.machine.regs.cells[0] = 0 ∧
    (h.machine.regs.flags = .always ∧ (∀ s ∈ h.stages, ¬s.Computes) ∨
      h.machine.regs.flags.IsResult ∧ ∃ s ∈ h.stages, s.Computes) ∧
    (∀ i : Instruction,
      (i.cond = .always ∨ i.cond = .signs → h.machine.regs.flags.meets i.cond = true) ∧
      (i.cond = .never → h.machine.regs.flags.meets i.cond = false)) ∧
    h.machine.cycles.toNat = h.stages.length ∧
    (∀ way, h.machine.Ends way → ∃ last,
      Completes (h.machine.stages way).length h.machine last ∧
      ((h.machine.drive way).2 = last ∨
        ∃ fault, (h.machine.drive way).2 = { last with state := .faulted fault })) ∧
    (h.machine.state ≠ .running → ∀ way, (h.machine.drive way).2 = h.machine) := by
  have hsound : Sound c h.stages h.machine := by
    rw [hcalls]
    exact History.sound_callAll (Sound.made c) hends
  have hmachine : h.machine = calls.foldl call (ofConfig c) := by
    rw [hcalls]
    exact (History.start c).machine_callAll calls
  have hcycles : h.machine.cycles.toNat = h.stages.length := by
    rw [hsound.cycles_eq, BitVec.toNat_ofNat]
    omega
  refine ⟨hmachine, hsound.config_eq, hsound.size_eq, hsound.zero_eq, hsound.flags_cases,
    fun i => ⟨fun hi => ?_, fun hi => ?_⟩, hcycles, fun way => h.machine.completes_stages, fun hr way => ?_⟩
  · obtain ⟨halways, hsigns⟩ := hsound.meets
    rcases hi with hi | hi
    · rw [hi, halways]
    · rw [hi, hsigns]
  · rw [hi, Flags.not_meets_never]
  · rw [drive_of_not_running hr]

/-- A machine that adds with its first step and halts with its second one. -/
theorem callAll_sound_addition : ∃ h : History,
    h = (History.start .default).callAll
      [.load [0x0fc40005, 0x03c00000], .drive .step, .drive (.runLimited 7), .takeOutput,
        .load [], .drive .step] ∧
    h.stages.length = 2 ∧ h.machine.cycles.toNat = 2 ∧ h.machine.regs.flags = .plus ∧
    h.machine.mem.size = 1024 ∧ ∀ way, (h.machine.drive way).2 = h.machine := by
  obtain ⟨h, hcalls⟩ : ∃ h, h = (History.start .default).callAll
      [.load [0x0fc40005, 0x03c00000], .drive .step, .drive (.runLimited 7), .takeOutput,
        .load [], .drive .step] := ⟨_, rfl⟩
  obtain ⟨first, hfirst⟩ : ∃ first, first = (History.start .default).callAll
      [.load [0x0fc40005, 0x03c00000], .drive .step] := ⟨_, rfl⟩
  have hstop : first.machine.StopsAt 1 := by
    rw [hfirst]
    refine ⟨fun j hj => ?_, by decide⟩
    rw [Nat.lt_one_iff.1 hj]
    rfl
  have hrun : (first.machine.runLimited 7).2 = first.machine.after 1 := by
    rw [runLimited_of_stopsAt (by rw [hfirst]; rfl) hstop (by decide)]
  -- The limited run takes the second step only.
  have hmachine : h.machine =
      [.takeOutput, .load [], .drive .step].foldl call (first.machine.after 1) := by
    rw [hcalls, ← hrun, hfirst]
    rfl
  have hstages : h.stages = first.stages ++ first.machine.stages (.runLimited 7) ++
      ([.takeOutput, .load []].foldl call (first.machine.after 1)).stages .step := by
    rw [hcalls, ← hrun, hfirst]
    rfl
  have hlength : h.stages.length = 2 := by
    rw [hstages, hfirst]
    rfl
  have hflags : h.machine.regs.flags = .plus := by
    rw [hmachine, hfirst]
    rfl
  have hstate : h.machine.state ≠ .running := by
    rw [hmachine, hfirst]
    decide
  obtain ⟨-, -, hsize, -, -, -, hcycles, -, hstays⟩ :=
    callAll_sound .default hcalls ⟨trivial, trivial, trivial, trivial, trivial, trivial, trivial⟩
      (by rw [hlength]; decide)
  exact ⟨h, hcalls, hlength, hcycles.trans hlength, hflags, hsize, hstays hstate⟩

end Machine
end DM2022
