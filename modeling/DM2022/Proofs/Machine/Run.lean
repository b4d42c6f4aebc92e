import DM2022.Proofs.Machine.Completion

/-!
# Runs

A run is a chain of completed steps, with or without a budget. It ends when the machine stops, with
a step that does not complete, or when its budget is used up. Both loops go on alike, so what a run
does is told once for both.
-/
namespace DM2022.Machine

variable {m m' last : Machine} {error : RunError} {start limit : Count} {k n : Nat}

/-- Some number of steps, one after the other, complete and lead to the second machine. -/
inductive Completes : Nat → Machine → Machine → Prop
  | refl (m : Machine) : Completes 0 m m
  | step {n : Nat} {m next last : Machine} {i : Instruction} (first : m.step = (.ok i, next))
      (rest : Completes n next last) : Completes (n + 1) m last

/-- The machine after a number of steps, completed or not. -/
def after (m : Machine) : Nat → Machine
  | 0 => m
  | n + 1 => m.step.2.after n

/-- The machine stops running with its step number `k`. -/
structure StopsAt (m : Machine) (k : Nat) : Prop where
  running : ∀ j < k, (m.after j).state = .running
  stopped : (m.after k).state ≠ .running

/-- A completed step: the machine that took it, and the instruction that it fetched. -/
structure Stage where
  machine : Machine
  instr : Instruction

/-- A run that began at the count `start`: the steps that it completes from a machine on, and what
it gives. It takes a step as long as the budget allows one more. -/
inductive Run (start : Count) (budget : Option Count) :
    List Stage → Machine → Except RunError Count × Machine → Prop
  | ended {m : Machine} (stopped : m.state ≠ .running) :
      Run start budget [] m (.ok (m.cycles - start), m)
  | exhausted {m : Machine} {limit : Count} (running : m.state = .running)
      (limited : budget = some limit) (used : limit ≤ m.cycles - start) :
      Run start budget [] m (m.stop m.regs.pc (.cycleBudgetExceeded limit))
  | failed {m next : Machine} {error : RunError} (running : m.state = .running)
      (room : ∀ limit, budget = some limit → m.cycles - start < limit)
      (step : m.step = (.error error, next)) : Run start budget [] m (.error error, next)
  | step {m next : Machine} {i : Instruction} {stages : List Stage}
      {r : Except RunError Count × Machine}
      (room : ∀ limit, budget = some limit → m.cycles - start < limit)
      (first : m.step = (.ok i, next)) (rest : Run start budget stages next r) :
      Run start budget (⟨m, i⟩ :: stages) m r

/-- A run stops after the step that led to `last`: only the state of the machine tells the
fault, which is also the error. -/
structure StopsWith (last : Machine) (fault : Fault) (error : RunError) (m' : Machine) :
    Prop where
  running : last.state = .running
  pc_eq : fault.pc = last.regs.pc
  error_eq : error = .fault fault
  machine_eq : m' = { last with state := .faulted fault }

theorem running_of_step_ok {i : Instruction} (h : m.step = (.ok i, m')) : m.state = .running := by
  apply Decidable.byContradiction
  intro hr
  rw [step_of_not_running hr] at h
  cases h

theorem step_error_cases (h : m.step = (.error error, m')) :
    m' = m ∨ ∃ fault, m' = { m with state := .faulted fault } := by
  by_cases hr : m.state = .running
  · obtain ⟨kind, -, rfl⟩ := step_error_running hr h
    exact .inr ⟨_, rfl⟩
  · rw [step_of_not_running hr] at h
    cases h
    exact .inl rfl

theorem StopsAt.tail (h : m.StopsAt (k + 1)) : m.step.2.StopsAt k :=
  ⟨fun j hj => h.running (j + 1) (Nat.succ_lt_succ hj), h.stopped⟩

/-! ## The loops -/

theorem runWithin_of_not_running (hr : m.state ≠ .running) :
    runWithin start limit m = (.ok (m.cycles - start), m) := by
  rw [runWithin, if_neg hr]

/-- The loop without a budget goes on with the machine that a turn gives. -/
theorem runOn_turn (start : Count) (m : Machine) : runOn start m =
    if m.state = .running then
      match m.step with
      | (.ok _, next) => runOn start next
      | (.error e, next) => (.error e, next)
    else (.ok (m.cycles - start), m) := by
  have : Nonempty (Option (Except RunError Count × Machine) × Machine) := ⟨none, m⟩
  change Id.run (bind (repeatM _ _) _) = _
  rw [repeatM_eq_of_monadTail]
  by_cases hr : m.state = .running
  · rcases hs : m.step with ⟨_ | _, next⟩
    · simp [repeatM.body, hr, hs]
    · simp only [repeatM.body, hr, hs]
      rfl
  · simp [repeatM.body, hr]

theorem exists_run_runWithin (start limit : Count) (m : Machine) :
    ∃ stages, Run start (some limit) stages m (runWithin start limit m) := by
  fun_induction runWithin start limit m with
  | case1 m hr hused => exact ⟨[], .exhausted hr rfl hused⟩
  | case2 m hr hroom i next hs ih =>
    obtain ⟨stages, hrun⟩ := ih
    refine ⟨⟨m, i⟩ :: stages, .step (fun limit h => ?_) hs hrun⟩
    cases h
    exact BitVec.not_le.1 hroom
  | case3 m hr hroom error next hs =>
    refine ⟨[], .failed hr (fun limit h => ?_) hs⟩
    cases h
    exact BitVec.not_le.1 hroom
  | case4 m hr => exact ⟨[], .ended hr⟩

theorem exists_run_of_stopsAt (start : Count) (h : m.StopsAt k) :
    ∃ stages r, Run start none stages m r := by
  induction k generalizing m with
  | zero => exact ⟨[], _, .ended h.stopped⟩
  | succ k ih =>
    have hr : m.state = .running := h.running 0 (Nat.succ_pos k)
    have htail := h.tail
    rcases hs : m.step with ⟨_ | i, next⟩
    · exact ⟨[], _, .failed hr (fun limit h => by cases h) hs⟩
    · rw [hs] at htail
      obtain ⟨stages, r, hrun⟩ := ih htail
      exact ⟨_, r, .step (fun limit h => by cases h) hs hrun⟩

namespace Run

variable {budget : Option Count} {stages : List Stage} {r : Except RunError Count × Machine}

theorem runWithin_eq (h : Run start (some limit) stages m r) : runWithin start limit m = r := by
  generalize hb : some limit = budget at h
  induction h with
  | ended stopped => exact runWithin_of_not_running stopped
  | exhausted running limited used =>
    cases hb.trans limited
    rw [runWithin, if_pos running, if_pos used]
  | failed running room step =>
    rw [runWithin, if_pos running, if_neg (BitVec.not_le.2 (room limit hb.symm))]
    split
    · next hs => cases step.symm.trans hs
    · next hs =>
      cases step.symm.trans hs
      rfl
  | step room first rest ih =>
    rw [runWithin, if_pos (running_of_step_ok first),
      if_neg (BitVec.not_le.2 (room limit hb.symm))]
    split
    · next hs =>
      cases first.symm.trans hs
      exact ih
    · next hs => cases first.symm.trans hs

theorem runOn_eq (h : Run start none stages m r) : runOn start m = r := by
  generalize hb : none = budget at h
  induction h with
  | ended stopped => rw [runOn_turn, if_neg stopped]
  | exhausted running limited used => cases hb.trans limited
  | failed running room step => rw [runOn_turn, if_pos running, step]
  | step room first rest ih =>
    rw [runOn_turn, if_pos (running_of_step_ok first), first]
    exact ih

theorem count_step {next : Machine} {i : Instruction} (hroom : m.cycles - start < limit)
    (h : m.step = (.ok i, next)) :
    (next.cycles - start).toNat = (m.cycles - start).toNat + 1 := by
  have hcycles := cycles_step h
  bv_omega

/-- The steps lead to a machine that has stopped, or to one that gets a fault and no other
change. -/
theorem completes (h : Run start budget stages m r) : ∃ last,
    Completes stages.length m last ∧
      (r.2 = last ∨ ∃ fault, r.2 = { last with state := .faulted fault }) := by
  induction h with
  | ended => exact ⟨_, .refl _, .inl rfl⟩
  | exhausted => exact ⟨_, .refl _, .inr ⟨_, rfl⟩⟩
  | failed _ _ step => exact ⟨_, .refl _, step_error_cases step⟩
  | step _ first _ ih =>
    obtain ⟨last, hsteps, hlast⟩ := ih
    exact ⟨last, .step first hsteps, hlast⟩

/-- A run that ends in an error stops where a step fails, or where as many steps are completed as
the budget allows. -/
theorem error_cases (h : Run start budget stages m (.error error, m')) :
    ∃ last fault, Completes stages.length m last ∧ StopsWith last fault error m' ∧
      (last.step.1 = .error (.fault fault) ∨ ∃ limit, budget = some limit ∧
        fault.kind = .cycleBudgetExceeded limit ∧ (m.cycles - start ≤ limit →
          (m.cycles - start).toNat + stages.length = limit.toNat)) := by
  generalize hresult : (Except.error error, m') = r at h
  induction h with
  | ended => cases hresult
  | @exhausted m limit running limited used =>
    cases hresult
    refine ⟨m, _, .refl m, ⟨running, rfl, rfl, rfl⟩, .inr ⟨limit, limited, rfl, fun hle => ?_⟩⟩
    exact congrArg BitVec.toNat (BitVec.le_antisymm hle used)
  | @failed m next e running room step =>
    cases hresult
    obtain ⟨kind, rfl, rfl⟩ := step_error_running running step
    refine ⟨m, ⟨m.regs.pc, kind⟩, .refl m, ⟨running, rfl, rfl, rfl⟩, .inl ?_⟩
    rw [step]
  | @step m next i stages r room first rest ih =>
    obtain ⟨last, fault, hsteps, hstop, hcause⟩ := ih hresult
    refine ⟨last, fault, .step first hsteps, hstop, ?_⟩
    rcases hcause with hfail | ⟨limit, hlimit, hkind, hcount⟩
    · exact .inl hfail
    · refine .inr ⟨limit, hlimit, hkind, fun _ => ?_⟩
      have hroom := room limit hlimit
      have hstep := count_step hroom first
      have hle : next.cycles - start ≤ limit := by bv_omega
      have htotal := hcount hle
      rw [List.length_cons]
      omega

end Run

theorem run_of_budget (h : m.config.maxCycles = some limit) : m.run = m.runLimited limit := by
  rw [run, h]

theorem run_of_no_budget (h : m.config.maxCycles = none) : m.run = runOn m.cycles m := by
  rw [run, h]

/-- A run is told by its steps, with the budget that it has, unless it never ends. -/
theorem exists_run_run (h : m.config.maxCycles = none → ∃ k, m.StopsAt k) :
    ∃ stages, Run m.cycles m.config.maxCycles stages m m.run := by
  cases hb : m.config.maxCycles with
  | some limit =>
    rw [run_of_budget hb]
    exact exists_run_runWithin m.cycles limit m
  | none =>
    obtain ⟨k, hstop⟩ := h hb
    obtain ⟨stages, r, hrun⟩ := exists_run_of_stopsAt m.cycles hstop
    rw [run_of_no_budget hb, hrun.runOn_eq]
    exact ⟨stages, hrun⟩

/-- A run that begins with the count of the machine has its whole budget. -/
theorem Run.error_of_start {budget : Option Count} {stages : List Stage}
    (h : Run m.cycles budget stages m (.error error, m')) : ∃ n last fault,
      Completes n m last ∧ StopsWith last fault error m' ∧
        (last.step.1 = .error (.fault fault) ∨ ∃ limit, budget = some limit ∧
          n = limit.toNat ∧ fault.kind = .cycleBudgetExceeded limit) := by
  obtain ⟨last, fault, hsteps, hstop, hcause⟩ := h.error_cases
  refine ⟨_, last, fault, hsteps, hstop, ?_⟩
  rcases hcause with hfail | ⟨limit, hlimit, hkind, hcount⟩
  · exact .inl hfail
  · refine .inr ⟨limit, hlimit, ?_, hkind⟩
    rw [BitVec.sub_self] at hcount
    have htotal := hcount (BitVec.le_def.2 (Nat.zero_le _))
    rw [BitVec.toNat_zero, Nat.zero_add] at htotal
    exact htotal

/-- An error changes nothing but the state. A cycle that fails has not changed the machine by then,
so that a step that fails leaves the machine as it was. A run that fails, and that comes to an end
if it has no budget, leaves the machine that its last completed step gave, whether the next step
failed or the budget was used up. -/
theorem errors_change_state_only (m : Machine) :
    (m.state ≠ .running → m.step = (.error (.notRunning m.state), m)) ∧
    (∀ kind m', m.cycle = (.error kind, m') → m' = m) ∧
    (m.state = .running →
      (∀ error m', m.step = (.error error, m') → ∃ kind,
        error = .fault ⟨m.regs.pc, kind⟩ ∧
          m' = { m with state := .faulted ⟨m.regs.pc, kind⟩ }) ∧
      (∀ limit error m', m.runLimited limit = (.error error, m') → ∃ n last fault,
        Completes n m last ∧ StopsWith last fault error m' ∧
          (last.step.1 = .error (.fault fault) ∨
            n = limit.toNat ∧ fault.kind = .cycleBudgetExceeded limit)) ∧
      ((m.config.maxCycles = none → ∃ k, m.StopsAt k) →
        ∀ error m', m.run = (.error error, m') → ∃ n last fault,
          Completes n m last ∧ StopsWith last fault error m' ∧
            (last.step.1 = .error (.fault fault) ∨ ∃ limit, m.config.maxCycles = some limit ∧
              n = limit.toNat ∧ fault.kind = .cycleBudgetExceeded limit))) := by
  refine ⟨step_of_not_running, fun kind m' => cycle_error, fun hr => ⟨?_, ?_, ?_⟩⟩
  · intro error m' h
    exact step_error_running hr h
  · intro limit error m' h
    obtain ⟨stages, hrun⟩ := exists_run_runWithin m.cycles limit m
    rw [runLimited] at h
    rw [h] at hrun
    obtain ⟨n, last, fault, hsteps, hstop, hcause⟩ := hrun.error_of_start
    refine ⟨n, last, fault, hsteps, hstop, ?_⟩
    rcases hcause with hfail | ⟨other, hother, hn, hkind⟩
    · exact .inl hfail
    · cases hother
      exact .inr ⟨hn, hkind⟩
  · intro hends error m' h
    obtain ⟨stages, hrun⟩ := exists_run_run hends
    rw [h] at hrun
    exact hrun.error_of_start

/-- `DIV r2,r1,r0` divides by zero, after an addition that has completed. -/
theorem errors_change_state_only_division : ∃ m m' : Machine,
    m = holding [0x0fc40005, 0x1fc84000] ∧ m.state = .running ∧
    m.runLimited 7 = (.error (.fault ⟨1, .divideByZero⟩), m') ∧
    ∃ n last, Completes n m last ∧ last.state = .running ∧
      m' = { last with state := .faulted ⟨1, .divideByZero⟩ } := by
  obtain ⟨m, hm⟩ : ∃ m, m = holding [0x0fc40005, 0x1fc84000] := ⟨_, rfl⟩
  have hr : m.state = .running := by rw [hm]; rfl
  have hroom : ∀ {m : Machine} {n : Count}, m.cycles - 0 = n → n < 7 →
      ∀ limit, some 7 = some limit → m.cycles - 0 < limit := by
    rintro m n rfl hn limit ⟨⟩
    exact hn
  obtain ⟨m', hrun⟩ : ∃ m', m.runLimited 7 = (.error (.fault ⟨1, .divideByZero⟩), m') := by
    have hsteps : ∃ stages m', Run 0 (some 7) stages m (.error (.fault ⟨1, .divideByZero⟩), m') := by
      rw [hm]
      exact ⟨_, _, .step (hroom rfl (by decide)) rfl (.failed rfl (hroom rfl (by decide)) rfl)⟩
    obtain ⟨stages, m', hsteps⟩ := hsteps
    refine ⟨m', ?_⟩
    rw [← hsteps.runWithin_eq, hm]
    rfl
  obtain ⟨n, last, fault, hcompletes, hstop, -⟩ :=
    ((errors_change_state_only m).2.2 hr).2.1 7 _ m' hrun
  cases hstop.error_eq
  exact ⟨m, m', hm, hr, hrun, n, last, hcompletes, hstop.running, hstop.machine_eq⟩

end DM2022.Machine
