import DM2022.Proofs.Machine.Run

/-!
# Machines that refuse cycles

A machine that has halted or is faulted stays as it is, however it is driven. Only a step
says so: a run of such a machine reports that it took no cycle.
-/
namespace DM2022.Machine

/-- The ways to drive a machine. -/
inductive Drive where
  | step | run
  | runLimited (limit : Count)
  deriving DecidableEq

/-- What a machine reports when it is driven: an instruction, or a number of cycles. -/
inductive Report where
  | step (result : Except RunError Instruction)
  | run (result : Except RunError Count)

def Report.IsError : Report → Prop
  | .step result => ∃ error, result = .error error
  | .run result => ∃ error, result = .error error

def drive (m : Machine) : Drive → Report × Machine
  | .step => (.step m.step.1, m.step.2)
  | .run => (.run m.run.1, m.run.2)
  | .runLimited limit => (.run (m.runLimited limit).1, (m.runLimited limit).2)

/-- Drives a machine in several ways, one after the other. -/
def driveAll (m : Machine) : List Drive → List Report × Machine
  | [] => ([], m)
  | d :: rest => ((m.drive d).1 :: ((m.drive d).2.driveAll rest).1, ((m.drive d).2.driveAll rest).2)

/-- What a machine in this state, which is not that of a run, reports. -/
def refusal (state : State) : Drive → Report
  | .step => .step (.error (.notRunning state))
  | _ => .run (.ok 0)

variable {m : Machine} {fault : Fault}

theorem runLimited_of_not_running (h : m.state ≠ .running) (limit : Count) :
    m.runLimited limit = (.ok 0, m) := by
  rw [runLimited, runWithin_of_not_running h, BitVec.sub_self]
  rfl

theorem run_of_not_running (h : m.state ≠ .running) : m.run = (.ok 0, m) := by
  rw [run]
  split
  · exact runLimited_of_not_running h _
  · rw [runOn_turn, if_neg h, BitVec.sub_self]
    rfl

/-- A machine that does not run stays as it is. -/
theorem drive_of_not_running (h : m.state ≠ .running) (d : Drive) :
    m.drive d = (refusal m.state d, m) := by
  cases d with
  | step => rw [drive, step_of_not_running h]; rfl
  | run => rw [drive, run_of_not_running h]; rfl
  | runLimited limit => rw [drive, runLimited_of_not_running h]; rfl

theorem driveAll_of_not_running (h : m.state ≠ .running) (drives : List Drive) :
    m.driveAll drives = (drives.map (refusal m.state), m) := by
  induction drives with
  | nil => rfl
  | cons d rest ih => rw [driveAll, drive_of_not_running h, ih, List.map_cons]

theorem isError_refusal_iff {state : State} {d : Drive} :
    (refusal state d).IsError ↔ d = .step := by
  cases d <;> simp [refusal, Report.IsError]

/-- However a faulted machine is driven, it stays as it is until it is reset. Every step reports
the fault; every run, with or without a budget, reports that it took no cycle. So the reports
are errors just as long as the machine is driven by steps. -/
theorem driveAll_of_faulted (h : m.state = .faulted fault) :
    (∀ drives, m.driveAll drives = (drives.map (refusal (.faulted fault)), m)) ∧
    (∀ drives, (∀ report ∈ (m.driveAll drives).1, report.IsError) ↔ ∀ d ∈ drives, d = .step) ∧
    m.reset.state = .running := by
  have hall : ∀ drives, m.driveAll drives = (drives.map (refusal (.faulted fault)), m) := by
    intro drives
    rw [← h]
    exact driveAll_of_not_running (by simp [h]) drives
  refine ⟨hall, fun drives => ?_, rfl⟩
  rw [hall, List.forall_mem_map]
  simp only [isError_refusal_iff]

/-- A machine that an illegal opcode has stopped. -/
theorem driveAll_of_illegal_opcode :
    (holding [0x13c00000]).step.2.state = .faulted ⟨0, .illegalOpcode 4⟩ ∧
    (holding [0x13c00000]).step.2.driveAll [.run, .step, .runLimited 5] =
      ([.run (.ok 0), .step (.error (.notRunning (.faulted ⟨0, .illegalOpcode 4⟩))),
        .run (.ok 0)], (holding [0x13c00000]).step.2) :=
  ⟨rfl, (driveAll_of_faulted (m := (holding [0x13c00000]).step.2) rfl).1 _⟩

/-- Not every report of a faulted machine is an error: the run after the step that meets an
illegal opcode succeeds with no cycle. -/
theorem run_of_faulted_succeeds :
    (∃ m, (ofConfig .default).load [0x13c00000] = .ok m ∧
      m.step.1 = .error (.fault ⟨0, .illegalOpcode 4⟩) ∧
      m.step.2.state = .faulted ⟨0, .illegalOpcode 4⟩ ∧
      m.step.2.drive .run = (.run (.ok 0), m.step.2)) ∧
    ¬∀ (m : Machine) (fault : Fault) (d : Drive), m.state = .faulted fault →
      (m.drive d).1.IsError := by
  have hload : ∃ m, (ofConfig .default).load [0x13c00000] = .ok m ∧
      m.step.1 = .error (.fault ⟨0, .illegalOpcode 4⟩) ∧
      m.step.2.state = .faulted ⟨0, .illegalOpcode 4⟩ := ⟨_, rfl, rfl, rfl⟩
  obtain ⟨m, hm, hstep, hstate⟩ := hload
  have hdrive : m.step.2.drive .run = (.run (.ok 0), m.step.2) :=
    drive_of_not_running (by simp [hstate]) .run
  refine ⟨⟨m, hm, hstep, hstate, hdrive⟩, fun hall => ?_⟩
  have herror := hall _ _ .run hstate
  rw [hdrive] at herror
  simp [Report.IsError] at herror

end DM2022.Machine
