import DM2022.Proofs.Machine.Refusal

/-!
# Calls

The calls that a machine takes from outside. A call that is refused leaves the machine as it
is. When a machine is driven, it completes some steps, one after the other, and at the end it
may be stopped with a fault; what both keep is kept however the machine is driven.
-/
namespace DM2022

/-- The operations on registers. -/
inductive Registers.Operation where
  | set (reg : Byte) (value : Word)
  | jump (address : Word)
  | advance | reset
  | setFlags (flags : Flags)

def Registers.operate (r : Registers) : Operation → Registers
  | .set reg value => r.set reg value
  | .jump address => r.jump address
  | .advance => r.advance
  | .reset => .initial
  | .setFlags flags => { r with flags }

/-- The operations on a memory. -/
inductive Memory.Operation where
  | write (address value : Word)
  | load (base : Word) (image : List Word)
  | clear

def Memory.operate (m : Memory) : Operation → Except MemoryError Memory
  | .write address value => m.write address value
  | .load base image => m.load base image
  | .clear => .ok m.clear

namespace Machine

inductive Call where
  | load (image : List Word)
  | drive (way : Drive)
  | takeOutput | reset

/-- The machine after a call. -/
def call (m : Machine) : Call → Machine
  | .load image => (m.load image).toOption.getD m
  | .drive way => (m.drive way).2
  | .takeOutput => m.takeOutput.2
  | .reset => m.reset

/-- The steps that a machine completes, one after the other, up to `fuel` of them. -/
def completions : Nat → Machine → List Stage
  | 0, _ => []
  | fuel + 1, m => match m.step with
    | (.ok i, next) => ⟨m, i⟩ :: completions fuel next
    | (.error _, _) => []

/-- All steps that a machine completes, after those that are `done`. -/
def completionsOn (done : List Stage) (m : Machine) : List Stage := Id.run do
  let mut done := done
  let mut m := m
  repeat
    match m.step with
    | (.ok i, next) =>
      done := done ++ [⟨m, i⟩]
      m := next
    | (.error _, _) => break
  return done

/-- The steps that a machine completes when it is driven. -/
def stages (m : Machine) : Drive → List Stage
  | .step => completions 1 m
  | .runLimited limit => completions limit.toNat m
  | .run => match m.config.maxCycles with
    | some limit => completions limit.toNat m
    | none => completionsOn [] m

/-- Driving the machine comes to an end. Only a run without a budget need not. -/
def Ends (m : Machine) : Drive → Prop
  | .run => m.config.maxCycles = none → ∃ k, m.StopsAt k
  | _ => True

/-- The call comes to an end. -/
def Returns (m : Machine) : Call → Prop
  | .drive way => m.Ends way
  | _ => True

/-- Each of the things that are done to a machine one after the other has a property when its turn
comes. -/
def Throughout {α : Type} (P : Machine → α → Prop) (act : Machine → α → Machine) :
    Machine → List α → Prop
  | _, [] => True
  | m, a :: rest => P m a ∧ Throughout P act (act m a) rest

variable {m next : Machine} {i : Instruction} {error : RunError} {start limit : Count}

theorem completions_of_error (h : m.step = (.error error, next)) (fuel : Nat) :
    completions fuel m = [] := by
  cases fuel with
  | zero => rfl
  | succ fuel => rw [completions, h]

namespace Run

variable {budget : Option Count} {stages : List Stage} {r : Except RunError Count × Machine}

/-- The steps of a run are those that its budget allows. -/
theorem completions_eq (h : Run start (some limit) stages m r) (hle : m.cycles - start ≤ limit) :
    completions (limit.toNat - (m.cycles - start).toNat) m = stages := by
  generalize hb : some limit = budget at h
  induction h with
  | ended stopped => exact completions_of_error (step_of_not_running stopped) _
  | exhausted running limited used =>
    cases hb.trans limited
    rw [Nat.sub_eq_zero_of_le (BitVec.le_def.1 used), completions]
  | failed running room step => exact completions_of_error step _
  | @step m next i stages r room first rest ih =>
    have hroom := room limit hb.symm
    have hcount := count_step hroom first
    have hfuel : limit.toNat - (m.cycles - start).toNat =
        limit.toNat - (next.cycles - start).toNat + 1 := by
      have hlt := BitVec.lt_def.1 hroom
      omega
    rw [hfuel, completions, first]
    refine congrArg (_ :: ·) (ih (BitVec.le_def.2 ?_))
    have hlt := BitVec.lt_def.1 hroom
    omega

theorem completionsOn_turn (done : List Stage) (m : Machine) : completionsOn done m =
    match m.step with
    | (.ok i, next) => completionsOn (done ++ [⟨m, i⟩]) next
    | (.error _, _) => done := by
  have : Nonempty (List Stage × Machine) := ⟨done, m⟩
  change Id.run (bind (repeatM _ _) _) = _
  rw [repeatM_eq_of_monadTail]
  rcases hs : m.step with ⟨_ | _, next⟩
  · simp [repeatM.body, hs]
  · simp only [repeatM.body, hs]
    rfl

theorem completionsOn_eq (h : Run start none stages m r) (done : List Stage) :
    completionsOn done m = done ++ stages := by
  generalize hb : none = budget at h
  induction h generalizing done with
  | ended stopped => rw [completionsOn_turn, step_of_not_running stopped, List.append_nil]
  | exhausted running limited used => cases hb.trans limited
  | failed running room step => rw [completionsOn_turn, step, List.append_nil]
  | step room first rest ih =>
    rw [completionsOn_turn, first, List.append_cons]
    exact ih _

end Run

theorem run_stages_of_limit (limit : Count) (m : Machine) :
    Run m.cycles (some limit) (completions limit.toNat m) m (m.runLimited limit) := by
  obtain ⟨stages, hrun⟩ := exists_run_runWithin m.cycles limit m
  have hzero : m.cycles - m.cycles = 0 := BitVec.sub_self _
  have hstages := hrun.completions_eq (by rw [hzero]; exact BitVec.le_def.2 (Nat.zero_le _))
  rw [hzero, BitVec.ofNat_eq_ofNat, BitVec.toNat_zero, Nat.sub_zero] at hstages
  rw [hstages, runLimited]
  exact hrun

/-- Driving a machine is a step, or a run that goes through its stages. -/
theorem drive_cases (m : Machine) {way : Drive} (hends : m.Ends way) : way = .step ∨
    ∃ budget r, Run m.cycles budget (m.stages way) m r ∧ m.drive way = (.run r.1, r.2) := by
  cases way with
  | step => exact .inl rfl
  | runLimited limit => exact .inr ⟨some limit, _, run_stages_of_limit limit m, rfl⟩
  | run =>
    right
    rw [drive, stages]
    cases hb : m.config.maxCycles with
    | some limit =>
      rw [run_of_budget hb]
      exact ⟨some limit, _, run_stages_of_limit limit m, rfl⟩
    | none =>
      obtain ⟨k, hstop⟩ := hends hb
      obtain ⟨stages, r, hrun⟩ := exists_run_of_stopsAt m.cycles hstop
      rw [run_of_no_budget hb, hrun.runOn_eq, hrun.completionsOn_eq]
      exact ⟨none, r, hrun, rfl⟩

/-- The steps lead to the machine that is left, but for a fault at the end. -/
theorem completes_stages (m : Machine) {way : Drive} (hends : m.Ends way) :
    ∃ last, Completes (m.stages way).length m last ∧
      ((m.drive way).2 = last ∨
        ∃ fault, (m.drive way).2 = { last with state := .faulted fault }) := by
  rcases m.drive_cases hends with rfl | ⟨budget, r, hrun, hdrive⟩
  · rw [drive, stages, completions]
    rcases hs : m.step with ⟨e | i, next⟩
    · exact ⟨m, .refl m, step_error_cases hs⟩
    · exact ⟨next, .step hs (.refl next), .inl rfl⟩
  · rw [hdrive]
    exact hrun.completes

/-! ## What is kept -/

section Induction

variable {P : List Stage → Machine → Prop} {stages : List Stage}

/-- What holds after every completed step and after a fault, holds after a run. -/
theorem Run.keeps {budget : Option Count} {before : List Stage}
    {r : Except RunError Count × Machine}
    (hstep : ∀ {stages m i next}, P stages m → m.step = (.ok i, next) →
      P (stages ++ [⟨m, i⟩]) next)
    (hfault : ∀ {stages m} fault, P stages m → P stages { m with state := .faulted fault })
    (hrun : Run start budget stages m r) (h : P before m) : P (before ++ stages) r.2 := by
  induction hrun generalizing before with
  | ended =>
    rw [List.append_nil]
    exact h
  | exhausted =>
    rw [List.append_nil]
    exact hfault _ h
  | failed _ _ step =>
    rw [List.append_nil]
    rcases step_error_cases step with rfl | ⟨fault, rfl⟩
    · exact h
    · exact hfault fault h
  | step _ first _ ih =>
    rw [List.append_cons]
    exact ih (hstep h first)

/-- So it does after a machine was driven. -/
theorem drive_induction
    (hstep : ∀ {stages m i next}, P stages m → m.step = (.ok i, next) →
      P (stages ++ [⟨m, i⟩]) next)
    (hfault : ∀ {stages m} fault, P stages m → P stages { m with state := .faulted fault })
    (h : P stages m) {way : Drive} (hends : m.Ends way) :
    P (stages ++ m.stages way) (m.drive way).2 := by
  rcases m.drive_cases hends with rfl | ⟨budget, r, hrun, hdrive⟩
  · rw [drive, Machine.stages, completions]
    rcases hs : m.step with ⟨e | i, next⟩
    · rw [List.append_nil]
      rcases step_error_cases hs with rfl | ⟨fault, rfl⟩
      · exact h
      · exact hfault fault h
    · exact hstep h hs
  · rw [hdrive]
    exact hrun.keeps hstep hfault h

theorem drive_keeps {Q : Machine → Prop}
    (hstep : ∀ {m i next}, Q m → m.step = (.ok i, next) → Q next)
    (hfault : ∀ {m} fault, Q m → Q { m with state := .faulted fault })
    (h : Q m) {way : Drive} (hends : m.Ends way) : Q (m.drive way).2 :=
  @drive_induction m (fun _ => Q) [] hstep hfault h way hends

end Induction

/-! ## Machines of a configuration -/

theorem Performs.size_eq (h : Performs m i next) : next.mem.size = m.mem.size := by
  by_cases hs : i.op = .store
  · exact (h.stored hs).2.1
  · rw [h.mem_kept hs]

/-- What is kept by each thing that is done is kept by all of them. -/
theorem Throughout.keeps {α : Type} {P : Machine → α → Prop} {act : Machine → α → Machine}
    {Q : Machine → Prop} {actions : List α} (h : Throughout P act m actions)
    (hact : ∀ {m a}, P m a → Q m → Q (act m a)) (hm : Q m) : Q (actions.foldl act m) := by
  induction actions generalizing m with
  | nil => exact hm
  | cons a rest ih =>
    obtain ⟨hfirst, hrest⟩ := h
    exact ih hrest (hact hfirst hm)

/-- Only the memory is loaded. -/
theorem call_load (m : Machine) (image : List Word) :
    ∃ mem, m.call (.load image) = { m with mem } := by
  rw [call]
  cases hload : m.load image with
  | error e => exact ⟨m.mem, rfl⟩
  | ok loaded =>
    obtain ⟨mem, -, rfl⟩ := load_ok_iff.1 hload
    exact ⟨mem, rfl⟩

/-- The machine has the configuration `c`, and the number of cells that it asks for. -/
structure MadeFrom (c : Config) (m : Machine) : Prop where
  config_eq : m.config = c
  size_eq : m.mem.size = c.memoryWords.toNat

namespace MadeFrom

variable {c : Config}

theorem made (c : Config) : MadeFrom c (ofConfig c) := ⟨rfl, rfl⟩

theorem step (h : MadeFrom c m) (hs : m.step = (.ok i, next)) : MadeFrom c next := by
  obtain ⟨-, -, hconfig, -, -, ⟨-, rfl⟩ | ⟨-, hperforms⟩⟩ :=
    step_ok_cases (running_of_step_ok hs) hs
  · exact ⟨h.config_eq, h.size_eq⟩
  · exact ⟨hconfig.trans h.config_eq, hperforms.size_eq.trans h.size_eq⟩

theorem fault (h : MadeFrom c m) (f : Fault) : MadeFrom c { m with state := .faulted f } :=
  ⟨h.config_eq, h.size_eq⟩

theorem drive (h : MadeFrom c m) {way : Drive} (hends : m.Ends way) :
    MadeFrom c (m.drive way).2 :=
  drive_keeps (fun h hs => h.step hs) (fun f h => h.fault f) h hends

theorem load (h : MadeFrom c m) (image : List Word) : MadeFrom c (m.call (.load image)) := by
  rw [Machine.call]
  cases hload : m.load image with
  | error e => exact h
  | ok loaded =>
    obtain ⟨mem, hmem, rfl⟩ := load_ok_iff.1 hload
    exact ⟨h.config_eq, (Memory.size_load hmem).trans h.size_eq⟩

theorem call (h : MadeFrom c m) {call : Call} (hreturns : m.Returns call) :
    MadeFrom c (m.call call) := by
  cases call with
  | load image => exact h.load image
  | drive way => exact h.drive hreturns
  | takeOutput => exact ⟨h.config_eq, h.size_eq⟩
  | reset => exact ⟨h.config_eq, h.size_eq⟩

end MadeFrom
end Machine
end DM2022
