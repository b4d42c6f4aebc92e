import DM2022.Proofs.Machine.Parallel

/-!
# Budgets

A run with a budget does what single steps do. If the machine stops within the budget, the
run ends there and reports how; otherwise it ends where the budget is used up. The count
starts with the run, so cycles before it do not matter.
-/
namespace DM2022.Machine

variable {m : Machine} {start limit : Count} {k n : Nat}

/-- What a run reports that has led to this state. -/
def outcome : State → Except RunError Unit
  | .faulted fault => .error (.fault fault)
  | _ => .ok ()

/-! ## Steps -/

/-- A step of a running machine counts a cycle, or fails with the fault that it stores. -/
theorem step_running_cases (hr : m.state = .running) :
    (∃ i next, m.step = (.ok i, next) ∧ next.cycles = m.cycles + 1 ∧
      (next.state = .running ∨ next.state = .halted)) ∨
    ∃ fault next, m.step = (.error (.fault fault), next) ∧ next.state = .faulted fault := by
  rcases hs : m.step with ⟨error | i, next⟩
  · obtain ⟨kind, rfl, rfl⟩ := step_error_running hr hs
    exact .inr ⟨_, _, rfl, rfl⟩
  · obtain ⟨-, -, -, hcycles, -, hcases⟩ := step_ok_cases hr hs
    refine .inl ⟨i, next, rfl, hcycles, ?_⟩
    rcases hcases with ⟨-, rfl⟩ | ⟨-, hperforms⟩
    · exact .inl hr
    · rw [hperforms.state_eq]
      split
      · exact .inr rfl
      · exact .inl rfl

theorem StopsAt.eq_zero (h : m.StopsAt k) (hr : m.state ≠ .running) : k = 0 := by
  apply Nat.eq_zero_of_not_pos
  intro hk
  exact hr (h.running 0 hk)

theorem running_of_not_stopsAt (h : ∀ k, m.StopsAt k → n < k) (j : Nat) (hj : j ≤ n) :
    (m.after j).state = .running := by
  induction j using Nat.strongRecOn with
  | ind j ih =>
    apply Decidable.byContradiction
    intro hr
    have hstop : m.StopsAt j := ⟨fun i hi => ih i hi (by omega), hr⟩
    have hlt := h j hstop
    omega

/-- Every step before a halt has counted a cycle. -/
theorem cycles_after (hr : m.state = .running) (h : m.StopsAt k)
    (hh : (m.after k).state = .halted) : (m.after k).cycles = m.cycles + .ofNat 64 k := by
  induction k generalizing m with
  | zero => exact absurd hr h.stopped
  | succ k ih =>
    have htail := h.tail
    rw [after] at hh ⊢
    have hcount : m.cycles + .ofNat 64 (k + 1) = m.cycles + 1 + .ofNat 64 k := by
      rw [Nat.add_comm, BitVec.ofNat_add, BitVec.add_assoc]
      rfl
    rw [hcount]
    rcases step_running_cases hr with
      ⟨i, next, hs, hcycles, hrun | hhalt⟩ | ⟨fault, next, hs, hfault⟩
    · rw [hs] at htail hh ⊢
      rw [← hcycles]
      exact ih hrun htail hh
    · rw [hs] at htail hh ⊢
      cases htail.eq_zero (by simp [hhalt])
      rw [← hcycles]
      exact (BitVec.add_zero _).symm
    · rw [hs] at htail hh
      cases htail.eq_zero (by simp [hfault])
      rw [after, hfault] at hh
      cases hh

/-! ## Runs -/

/-- A run whose budget allows the step with which the machine stops ends there. The induction is on
the number of that step. -/
theorem exists_run_after (start : Count) (budget : Option Count) (hr : m.state = .running)
    (h : m.StopsAt k)
    (hk : ∀ limit, budget = some limit → (m.cycles - start).toNat + k ≤ limit.toNat) :
    ∃ stages, Run start budget stages m
      ((outcome (m.after k).state).map fun _ => (m.after k).cycles - start, m.after k) := by
  induction k generalizing m with
  | zero => exact absurd hr h.stopped
  | succ k ih =>
    have htail := h.tail
    have hroom : ∀ limit, budget = some limit → m.cycles - start < limit := by
      intro limit hlimit
      have hle := hk limit hlimit
      exact BitVec.lt_def.2 (by omega)
    rw [after]
    rcases step_running_cases hr with ⟨i, next, hs, -, hrun | hhalt⟩ | ⟨fault, next, hs, hfault⟩
    · rw [hs] at htail ⊢
      obtain ⟨stages, hstages⟩ := ih (m := next) hrun htail fun limit hlimit => by
        have hle := hk limit hlimit
        have hcount := Run.count_step (hroom limit hlimit) hs
        omega
      exact ⟨_, .step hroom hs hstages⟩
    · rw [hs] at htail ⊢
      have hstop : next.state ≠ .running := by simp [hhalt]
      cases htail.eq_zero hstop
      rw [after, hhalt]
      exact ⟨_, .step hroom hs (.ended hstop)⟩
    · rw [hs] at htail ⊢
      cases htail.eq_zero (by simp [hfault])
      rw [after, hfault]
      exact ⟨_, .failed hr hroom hs⟩

theorem exists_run_exhausted (h : ∀ j ≤ n, (m.after j).state = .running)
    (hn : (m.cycles - start).toNat + n = limit.toNat) : ∃ stages, Run start (some limit) stages m
      ((m.after n).stop (m.after n).regs.pc (.cycleBudgetExceeded limit)) := by
  induction n generalizing m with
  | zero => exact ⟨_, .exhausted (h 0 (Nat.le_refl 0)) rfl (BitVec.le_def.2 (by omega))⟩
  | succ n ih =>
    have hr : m.state = .running := h 0 (Nat.zero_le _)
    have htail : ∀ j ≤ n, (m.step.2.after j).state = .running :=
      fun j hj => h (j + 1) (Nat.succ_le_succ hj)
    have hroom : m.cycles - start < limit := BitVec.lt_def.2 (by omega)
    rw [after]
    rcases step_running_cases hr with ⟨i, next, hs, -⟩ | ⟨fault, next, hs, hfault⟩
    · rw [hs] at htail ⊢
      have hcount := Run.count_step hroom hs
      obtain ⟨stages, hstages⟩ := ih (m := next) htail (by omega)
      refine ⟨_, .step (fun other hother => ?_) hs hstages⟩
      cases hother
      exact hroom
    · rw [hs] at htail
      have hrun : next.state = .running := htail 0 (Nat.zero_le _)
      rw [hfault] at hrun
      cases hrun

theorem report_after (hr : m.state = .running) (h : m.StopsAt k) :
    ((outcome (m.after k).state).map fun _ => (m.after k).cycles - m.cycles) =
      (outcome (m.after k).state).map fun _ => .ofNat 64 k := by
  cases hs : (m.after k).state with
  | halted =>
    have hcount : (m.after k).cycles - m.cycles = .ofNat 64 k := by
      rw [cycles_after hr h hs, BitVec.add_comm, BitVec.add_sub_cancel]
    rw [hcount]
  | running => exact absurd hs h.stopped
  | faulted fault => rfl

theorem runLimited_of_stopsAt (hr : m.state = .running) (h : m.StopsAt k)
    (hk : k ≤ limit.toNat) : m.runLimited limit =
      ((outcome (m.after k).state).map fun _ => .ofNat 64 k, m.after k) := by
  obtain ⟨stages, hrun⟩ := exists_run_after m.cycles (some limit) hr h
    fun other hother => by
      cases hother
      rw [BitVec.sub_self, BitVec.toNat_zero, Nat.zero_add]
      exact hk
  rw [runLimited, hrun.runWithin_eq, report_after hr h]

theorem run_of_stopsAt (hb : m.config.maxCycles = none) (hr : m.state = .running)
    (h : m.StopsAt k) : m.run =
      ((outcome (m.after k).state).map fun _ => .ofNat 64 k, m.after k) := by
  obtain ⟨stages, hrun⟩ := exists_run_after m.cycles none hr h
    fun limit hlimit => by cases hlimit
  rw [run_of_no_budget hb, hrun.runOn_eq, report_after hr h]

theorem runLimited_of_not_stopsAt (h : ∀ k, m.StopsAt k → limit.toNat < k) :
    m.runLimited limit = (m.after limit.toNat).stop (m.after limit.toNat).regs.pc
      (.cycleBudgetExceeded limit) := by
  have hroom : (m.cycles - m.cycles).toNat + limit.toNat = limit.toNat := by
    rw [BitVec.sub_self, BitVec.toNat_zero, Nat.zero_add]
  obtain ⟨stages, hrun⟩ := exists_run_exhausted (running_of_not_stopsAt h) hroom
  rw [runLimited, hrun.runWithin_eq]

/-! ## Counters -/

/-- The machine with a counter that has gone ahead. -/
def ahead (d : Count) (m : Machine) : Machine := { m with cycles := m.cycles + d }

theorem alike_ahead (d : Count) (m : Machine) : Alike m (m.ahead d) := ⟨rfl, rfl, rfl⟩

/-- What goes on side by side with a machine whose counter is ahead stays ahead. -/
theorem Parallel.eq_ahead {next next' : Machine} {d : Count} (h : Parallel m (m.ahead d) next next') :
    next' = next.ahead d := by
  obtain ⟨⟨hregs, hmem, hstate⟩, ⟨text, hprinted, hprinted'⟩, ⟨n, hcounted, hcounted'⟩,
    ⟨hconfig, hconfig'⟩, hlast⟩ := h
  have hcycles : next'.cycles = next.cycles + d := by
    rw [hcounted, hcounted', ahead, BitVec.add_assoc, BitVec.add_comm d, BitVec.add_assoc]
  have hinstr : next'.lastInstr = next.lastInstr := by
    rcases hlast with hlast | ⟨hlast, hlast'⟩
    · exact hlast.symm
    · rw [hlast, hlast']
      rfl
  cases next
  cases next'
  simp_all [ahead]

theorem runLimited_ahead (d : Count) (m : Machine) : (m.ahead d).runLimited limit =
    ((m.runLimited limit).1, (m.runLimited limit).2.ahead d) := by
  obtain ⟨hreport, hparallel⟩ := (alike_ahead d m).runLimited limit
  exact Prod.ext hreport.symm hparallel.eq_ahead

/-- A run with a budget is some steps, after which the machine has stopped or is stopped. -/
theorem runLimited_ends (hr : m.state = .running) (limit : Count) :
    ∃ n ≤ limit.toNat, ∃ state ≠ .running, (m.runLimited limit).2 = { m.after n with state } ∧
      ∀ other, (m.runLimited limit).1 ≠ .error (.notRunning other) := by
  by_cases h : ∃ k, m.StopsAt k ∧ k ≤ limit.toNat
  · obtain ⟨k, hstop, hk⟩ := h
    rw [runLimited_of_stopsAt hr hstop hk]
    refine ⟨k, hk, (m.after k).state, hstop.stopped, rfl, fun other => ?_⟩
    cases (m.after k).state <;> simp [outcome, Except.map]
  · have hlate : ∀ k, m.StopsAt k → limit.toNat < k := by
      intro k hstop
      apply Nat.lt_of_not_le
      exact fun hk => h ⟨k, hstop, hk⟩
    rw [runLimited_of_not_stopsAt hlate]
    exact ⟨limit.toNat, Nat.le_refl _, _, by simp, rfl, by simp [stop]⟩

/-- A run within a budget is a number of steps. If the machine stops with a step that the
budget allows, this is the end of the run, with the count of the steps or the fault of the
machine, for every such budget. Otherwise the machine that all steps of the budget give gets
the fault that the budget is used up. In any case the machine does not run after at most as
many steps as the budget allows, and where the counter started does not matter. -/
theorem runLimited_steps (hr : m.state = .running) :
    (∀ k, m.StopsAt k → ∀ limit : Count, k ≤ limit.toNat →
      ((m.after k).state = .halted → m.runLimited limit = (.ok (.ofNat 64 k), m.after k)) ∧
      (∀ fault, (m.after k).state = .faulted fault →
        m.runLimited limit = (.error (.fault fault), m.after k)) ∧
      ∀ other : Count, k ≤ other.toNat → m.runLimited other = m.runLimited limit) ∧
    (∀ limit : Count, (∀ k, m.StopsAt k → limit.toNat < k) → ∃ fault,
      fault = ⟨(m.after limit.toNat).regs.pc, .cycleBudgetExceeded limit⟩ ∧
      m.runLimited limit =
        (.error (.fault fault), { m.after limit.toNat with state := .faulted fault })) ∧
    (∀ limit : Count, ∃ n ≤ limit.toNat, ∃ state ≠ .running,
      (m.runLimited limit).2 = { m.after n with state } ∧
      ∀ other, (m.runLimited limit).1 ≠ .error (.notRunning other)) ∧
    (∀ limit d : Count, ({ m with cycles := m.cycles + d }).runLimited limit =
      ((m.runLimited limit).1,
        { (m.runLimited limit).2 with cycles := (m.runLimited limit).2.cycles + d })) ∧
    (∀ limit, m.config.maxCycles = some limit → m.run = m.runLimited limit) ∧
    (m.config.maxCycles = none → ∀ k, m.StopsAt k →
      ∀ limit : Count, k ≤ limit.toNat → m.run = m.runLimited limit) := by
  refine ⟨fun k hstop limit hk => ?_, fun limit hlate => ?_, runLimited_ends hr,
    fun limit d => runLimited_ahead d m, fun limit => run_of_budget, ?_⟩
  · have hrun := runLimited_of_stopsAt hr hstop hk
    refine ⟨fun hhalt => ?_, fun fault hfault => ?_, fun other hother => ?_⟩
    · rw [hrun, hhalt]
      rfl
    · rw [hrun, hfault]
      rfl
    · rw [hrun, runLimited_of_stopsAt hr hstop hother]
  · exact ⟨_, rfl, runLimited_of_not_stopsAt hlate⟩
  · intro hb k hstop limit hk
    rw [run_of_stopsAt hb hr hstop, runLimited_of_stopsAt hr hstop hk]

/-- A machine that adds, and halts with its second step. -/
theorem runLimited_steps_addition :
    (holding [0x0fc40005, 0x03c00000]).state = .running ∧
    (holding [0x0fc40005, 0x03c00000]).StopsAt 2 ∧
    (holding [0x0fc40005, 0x03c00000]).runLimited 7 =
      (.ok 2, (holding [0x0fc40005, 0x03c00000]).after 2) ∧
    (holding [0x0fc40005, 0x03c00000]).runLimited 1 =
      (.error (.fault ⟨1, .cycleBudgetExceeded 1⟩),
        { (holding [0x0fc40005, 0x03c00000]).after 1 with
          state := .faulted ⟨1, .cycleBudgetExceeded 1⟩ }) := by
  have hr : (holding [0x0fc40005, 0x03c00000]).state = .running := rfl
  have hstop : (holding [0x0fc40005, 0x03c00000]).StopsAt 2 := by
    refine ⟨fun j hj => ?_, by decide⟩
    have hcases : j = 0 ∨ j = 1 := by omega
    rcases hcases with rfl | rfl <;> rfl
  have hlate : ∀ k, (holding [0x0fc40005, 0x03c00000]).StopsAt k → (1 : Count).toNat < k := by
    intro k hk
    apply Nat.lt_of_not_le
    intro hle
    have hcases : k = 0 ∨ k = 1 := by
      have : k ≤ 1 := hle
      omega
    rcases hcases with rfl | rfl
    · exact hk.stopped rfl
    · exact hk.stopped rfl
  obtain ⟨hstopped, hexhausted, -⟩ := runLimited_steps hr
  obtain ⟨fault, rfl, hfault⟩ := hexhausted 1 hlate
  exact ⟨hr, hstop, (hstopped 2 hstop 7 (by decide)).1 rfl, hfault⟩

end DM2022.Machine
