import DM2022.Proofs.Machine.Calls
import DM2022.Proofs.Machine.Parallel

/-!
# Printed text

What a machine has printed waits until it is taken. No instruction reads it, so it may be taken
at any time: the machine goes on as it would have, and no text is lost. Nor does a step depend on
the cycles so far, the last instruction or the configuration: machines that agree on registers,
memory and state take the same steps and print the same text.
-/
namespace DM2022.Machine

/-- What is asked of a machine: to be driven, or for the text that it has printed. -/
inductive Request where
  | drive (way : Drive)
  | takeOutput

/-- What requests give: the reports, the texts that were taken, and the machine after them. -/
structure Service where
  reports : List Report
  texts : List String
  machine : Machine

def serve (m : Machine) : List Request → Service
  | [] => ⟨[], [], m⟩
  | .drive way :: rest =>
      let service := (m.drive way).2.serve rest
      { service with reports := (m.drive way).1 :: service.reports }
  | .takeOutput :: rest =>
      let service := m.takeOutput.2.serve rest
      { service with texts := m.takeOutput.1 :: service.texts }

/-- The ways in which requests drive a machine. -/
def drives : List Request → List Drive
  | [] => []
  | .drive way :: rest => way :: drives rest
  | .takeOutput :: rest => drives rest

/-- The machines differ at most in the text that they have printed. -/
structure Twins (m m' : Machine) : Prop extends Alike m m' where
  cycles_eq : m.cycles = m'.cycles
  config_eq : m.config = m'.config
  lastInstr_eq : m.lastInstr = m'.lastInstr

variable {m m' next next' : Machine}

/-- What goes on alike from machines that differ in their text only, differs in it only. -/
theorem Parallel.twins (h : Parallel m m' next next') (htwins : Twins m m') : Twins next next' where
  toAlike := h.toAlike
  cycles_eq := by
    obtain ⟨n, hcounted, hcounted'⟩ := h.counted
    rw [hcounted, hcounted', htwins.cycles_eq]
  config_eq := by rw [h.config_kept.1, h.config_kept.2, htwins.config_eq]
  lastInstr_eq := by
    rcases h.lastInstr_cases with hlast | ⟨hlast, hlast'⟩
    · exact hlast
    · rw [hlast, hlast', htwins.lastInstr_eq]

theorem Alike.symm (h : Alike m m') : Alike m' m :=
  ⟨h.regs_eq.symm, h.mem_eq.symm, h.state_eq.symm⟩

theorem ends_of_ne_run {way : Drive} (h : way ≠ .run) : m.Ends way := by
  cases way with
  | run => exact absurd rfl h
  | _ => exact trivial

namespace Alike

/-- Only a run without a limit of its own depends on more than instructions read: on the budget
of the configuration. -/
theorem drive (h : Alike m m') {way : Drive} (hends : m'.Ends way)
    (hconfig : way = .run → m.config = m'.config) : Agree m m' (m.drive way) (m'.drive way) := by
  cases way with
  | step =>
    obtain ⟨hresult, hparallel⟩ := h.step
    exact ⟨congrArg Report.step hresult, hparallel⟩
  | runLimited limit =>
    obtain ⟨hresult, hparallel⟩ := h.runLimited limit
    exact ⟨congrArg Report.run hresult, hparallel⟩
  | run =>
    have hagree : Agree m m' m.run m'.run := by
      rw [Machine.run, Machine.run, hconfig rfl]
      cases hb : m'.config.maxCycles with
      | some limit => exact h.runLimited limit
      | none =>
        obtain ⟨k, hstop⟩ := hends hb
        exact h.runOn (h.symm.stopsAt hstop)
    exact ⟨congrArg Report.run hagree.1, hagree.2⟩

theorem driveAll (h : Alike m m') {ways : List Drive} (hrun : .run ∉ ways) :
    (m.driveAll ways).1 = (m'.driveAll ways).1 ∧
      Parallel m m' (m.driveAll ways).2 (m'.driveAll ways).2 := by
  induction ways generalizing m m' with
  | nil => exact ⟨rfl, .refl h⟩
  | cons way rest ih =>
    rw [List.mem_cons, not_or] at hrun
    obtain ⟨hresult, hparallel⟩ := h.drive (ends_of_ne_run (Ne.symm hrun.1)) fun hway =>
      absurd hway.symm hrun.1
    obtain ⟨hresults, hrest⟩ := ih hparallel.toAlike hrun.2
    rw [Machine.driveAll, Machine.driveAll, hresult, hresults]
    exact ⟨rfl, hparallel.trans hrest⟩

end Alike

/-! ## Requests -/

namespace Twins

theorem refl (m : Machine) : Twins m m := ⟨⟨rfl, rfl, rfl⟩, rfl, rfl, rfl⟩

theorem eq (h : Twins m m') : m = { m' with output := m.output } := by
  obtain ⟨⟨hregs, hmem, hstate⟩, hcycles, hconfig, hlast⟩ := h
  cases m
  simp_all

theorem takeOutput (h : Twins m m') : Twins m.takeOutput.2 m' :=
  ⟨⟨h.regs_eq, h.mem_eq, h.state_eq⟩, h.cycles_eq, h.config_eq, h.lastInstr_eq⟩

/-- Requests of a machine that lacks the text `taken` of its twin, which only is driven. -/
theorem serve (h : Twins m m') {taken : String} (htaken : taken ++ m.output = m'.output)
    {requests : List Request}
    (hends : Throughout Ends (fun m way => (m.drive way).2) m' (drives requests)) :
    (m.serve requests).reports = (m'.driveAll (drives requests)).1 ∧
      taken ++ String.join (m.serve requests).texts ++ (m.serve requests).machine.output =
        (m'.driveAll (drives requests)).2.output ∧
      Twins (m.serve requests).machine (m'.driveAll (drives requests)).2 := by
  induction requests generalizing m m' taken with
  | nil =>
    rw [Machine.serve, drives, driveAll, String.join_nil, String.append_empty]
    exact ⟨rfl, htaken, h⟩
  | cons request rest ih =>
    cases request with
    | drive way =>
      obtain ⟨hfirst, hends⟩ := hends
      obtain ⟨hreport, hparallel⟩ := h.toAlike.drive hfirst fun _ => h.config_eq
      obtain ⟨text, hprinted, hprinted'⟩ := hparallel.printed
      have hrest : taken ++ (m.drive way).2.output = (m'.drive way).2.output := by
        rw [hprinted, hprinted', ← htaken, String.append_assoc]
      obtain ⟨hreports, houtput, htwins⟩ := ih (hparallel.twins h) hrest hends
      rw [Machine.serve, drives, driveAll, ← hreport, ← hreports]
      exact ⟨rfl, houtput, htwins⟩
    | takeOutput =>
      have hrest : taken ++ m.output ++ m.takeOutput.2.output = m'.output := by
        rw [Machine.takeOutput, String.append_empty, htaken]
      obtain ⟨hreports, houtput, htwins⟩ := ih h.takeOutput hrest hends
      rw [Machine.serve, drives, String.join_cons, ← String.append_assoc]
      exact ⟨hreports, houtput, htwins⟩

end Twins

/-- Taking the printed text disturbs nothing, whenever it is taken. A machine that serves
requests, all of which come to an end, gives the reports that it gives when it is only driven, the texts that were taken and
the one that still waits make up the whole text, and all else of the machine is the same.
Likewise two machines that agree on registers, memory and state give the same reports for any
steps and limited runs, agree again after them, and append the same text, whatever else they
differ in. -/
theorem serve_undisturbed (m : Machine) :
    (∀ requests, Throughout Ends (fun m way => (m.drive way).2) m (drives requests) →
      (m.serve requests).reports = (m.driveAll (drives requests)).1 ∧
      String.join (m.serve requests).texts ++ (m.serve requests).machine.output =
        (m.driveAll (drives requests)).2.output ∧
      (m.serve requests).machine = { (m.driveAll (drives requests)).2 with
        output := (m.serve requests).machine.output }) ∧
    ∀ m' : Machine, Alike m m' → ∀ ways, .run ∉ ways →
      (m.driveAll ways).1 = (m'.driveAll ways).1 ∧
      Alike (m.driveAll ways).2 (m'.driveAll ways).2 ∧
      ∃ text, (m.driveAll ways).2.output = m.output ++ text ∧
        (m'.driveAll ways).2.output = m'.output ++ text := by
  refine ⟨fun requests hends => ?_, fun m' halike ways hrun => ?_⟩
  · obtain ⟨hreports, houtput, htwins⟩ := (Twins.refl m).serve String.empty_append hends
    rw [String.empty_append] at houtput
    exact ⟨hreports, houtput, htwins.eq⟩
  · obtain ⟨hreports, hparallel⟩ := halike.driveAll hrun
    exact ⟨hreports, hparallel.toAlike, hparallel.printed⟩

/-- A machine that prints 5 with its second step and halts with its third, and one that agrees
with it on registers, memory and state, but is older and has a text that waits. -/
theorem serve_undisturbed_printing : ∃ m m' : Machine,
    m = holding [0x0fc40005, 0x3fc04001, 0x03c00000] ∧
    m' = { m with cycles := 7, output := "x", config := ⟨8, 0, 3, none⟩, lastInstr := none } ∧
    Alike m m' ∧ .run ∉ [Drive.step, .runLimited 2] ∧
    (m.serve [.drive .step, .drive .step, .takeOutput, .drive .step]).texts = ["5\n"] ∧
    "5\n" = (m.driveAll [.step, .step, .step]).2.output ∧
    ∃ text, (m.driveAll [.step, .runLimited 2]).2.output = m.output ++ text ∧
      (m'.driveAll [.step, .runLimited 2]).2.output = m'.output ++ text := by
  have halike : Alike (holding [0x0fc40005, 0x3fc04001, 0x03c00000])
      { holding [0x0fc40005, 0x3fc04001, 0x03c00000] with
        cycles := 7, output := "x", config := ⟨8, 0, 3, none⟩, lastInstr := none } :=
    ⟨rfl, rfl, rfl⟩
  obtain ⟨hserve, hdrive⟩ := serve_undisturbed (holding [0x0fc40005, 0x3fc04001, 0x03c00000])
  refine ⟨_, _, rfl, rfl, halike, by decide, rfl, ?_, ?_⟩
  · exact (hserve [.drive .step, .drive .step, .takeOutput, .drive .step]
      ⟨trivial, trivial, trivial, trivial⟩).2.1
  · exact (hdrive _ halike [.step, .runLimited 2] (by decide)).2.2

end DM2022.Machine
