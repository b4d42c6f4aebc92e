import DM2022.Proofs.Machine.Run

/-!
# Machines side by side

An instruction reads the registers, the memory and the state of a machine, and nothing else. So
machines that agree on these go on side by side: they take the same steps, count the same cycles
and print the same text after whatever each of them has counted and printed before.
-/
namespace DM2022.Machine

/-- No instruction tells the machines apart. -/
structure Alike (m m' : Machine) : Prop where
  regs_eq : m.regs = m'.regs
  mem_eq : m.mem = m'.mem
  state_eq : m.state = m'.state

/-- Two machines have become `next` and `next'`, which are alike again: meanwhile they have
printed the same text and counted the same cycles. -/
structure Parallel (m m' next next' : Machine) : Prop extends Alike next next' where
  printed : ∃ text, next.output = m.output ++ text ∧ next'.output = m'.output ++ text
  counted : ∃ n, next.cycles = m.cycles + n ∧ next'.cycles = m'.cycles + n
  config_kept : next.config = m.config ∧ next'.config = m'.config
  lastInstr_cases : next.lastInstr = next'.lastInstr ∨
    next.lastInstr = m.lastInstr ∧ next'.lastInstr = m'.lastInstr

variable {m m' next next' last last' : Machine}

namespace Parallel

theorem refl (h : Alike m m') : Parallel m m' m m' where
  toAlike := h
  printed := ⟨"", String.append_empty.symm, String.append_empty.symm⟩
  counted := ⟨0, (BitVec.add_zero _).symm, (BitVec.add_zero _).symm⟩
  config_kept := ⟨rfl, rfl⟩
  lastInstr_cases := .inr ⟨rfl, rfl⟩

theorem trans (h : Parallel m m' next next') (h' : Parallel next next' last last') :
    Parallel m m' last last' := by
  obtain ⟨text, hprinted, hprinted'⟩ := h.printed
  obtain ⟨more, hmore, hmore'⟩ := h'.printed
  obtain ⟨n, hcounted, hcounted'⟩ := h.counted
  obtain ⟨k, hk, hk'⟩ := h'.counted
  refine ⟨h'.toAlike, ⟨text ++ more, ?_, ?_⟩, ⟨n + k, ?_, ?_⟩, ⟨?_, ?_⟩, ?_⟩
  · rw [hmore, hprinted, String.append_assoc]
  · rw [hmore', hprinted', String.append_assoc]
  · rw [hk, hcounted, BitVec.add_assoc]
  · rw [hk', hcounted', BitVec.add_assoc]
  · rw [h'.config_kept.1, h.config_kept.1]
  · rw [h'.config_kept.2, h.config_kept.2]
  · rcases h'.lastInstr_cases with hlast | ⟨hlast, hlast'⟩
    · exact .inl hlast
    · rw [hlast, hlast']
      exact h.lastInstr_cases

/-- What the processor does to registers, memory or state, it does to both machines. -/
theorem update (h : Alike m m') (regs : Registers) (mem : Memory) (state : State) :
    Parallel m m' { m with regs, mem, state } { m' with regs, mem, state } where
  toAlike := ⟨rfl, rfl, rfl⟩
  printed := (refl h).printed
  counted := (refl h).counted
  config_kept := ⟨rfl, rfl⟩
  lastInstr_cases := .inr ⟨rfl, rfl⟩

theorem print (h : Alike m m') (text : String) :
    Parallel m m' (m.print text) (m'.print text) where
  toAlike := ⟨h.regs_eq, h.mem_eq, h.state_eq⟩
  printed := ⟨text, rfl, rfl⟩
  counted := (refl h).counted
  config_kept := ⟨rfl, rfl⟩
  lastInstr_cases := .inr ⟨rfl, rfl⟩

theorem complete (h : Alike m m') (i : Instruction) :
    Parallel m m' (m.complete i) (m'.complete i) where
  toAlike := ⟨h.regs_eq, h.mem_eq, h.state_eq⟩
  printed := (refl h).printed
  counted := ⟨1, rfl, rfl⟩
  config_kept := ⟨rfl, rfl⟩
  lastInstr_cases := .inl rfl

end Parallel

/-- The machines come to results `r` and `r'` which only differ in what the machines did. -/
def Agree {α : Type} (m m' : Machine) (r r' : α × Machine) : Prop :=
  r.1 = r'.1 ∧ Parallel m m' r.2 r'.2

namespace Alike

/-! ## Steps -/

theorem update (h : Alike m m') {regs regs' : Registers} {mem mem' : Memory} {state state' : State}
    (hregs : regs = regs') (hmem : mem = mem') (hstate : state = state') :
    Parallel m m' { m with regs, mem, state }
      { m' with regs := regs', mem := mem', state := state' } := by
  subst hregs hmem hstate
  exact Parallel.update h regs mem state

theorem writeTarget (h : Alike m m') (target : Byte) (value next : Word) :
    Agree m m' (m.writeTarget target value next) (m'.writeTarget target value next) := by
  rw [Machine.writeTarget, Machine.writeTarget]
  split
  · exact ⟨rfl, .refl h⟩
  · exact ⟨rfl, h.update (by rw [h.regs_eq]) h.mem_eq h.state_eq⟩

theorem setFlags (h : Alike m m') (flags : Flags) :
    Parallel m m' (m.setFlags flags) (m'.setFlags flags) :=
  h.update (by rw [h.regs_eq]) h.mem_eq h.state_eq

theorem goTo (h : Alike m m') (address : Word) :
    Parallel m m' (m.goTo address) (m'.goTo address) :=
  h.update (by rw [h.regs_eq]) h.mem_eq h.state_eq

theorem trap (h : Alike m m') (code argument next : Word) :
    Agree m m' (m.trap code argument next) (m'.trap code argument next) := by
  rw [Machine.trap, Machine.trap]
  split
  · exact ⟨rfl, .refl h⟩
  · next service _ =>
    refine ⟨rfl, ?_⟩
    cases service with
    | halt => exact h.update h.regs_eq h.mem_eq rfl
    | printInteger => exact .print h _
    | printCharacter => exact .print h _

theorem reading (h : Alike m m') (reg : Byte) : m.reading reg = m'.reading reg := by
  rw [Machine.reading, Machine.reading, h.regs_eq]

theorem execute (h : Alike m m') (i : Instruction) : Agree m m' (m.execute i) (m'.execute i) := by
  have hreading := h.reading
  have haddress : m.address i = m'.address i := by
    rw [Machine.address, Machine.address, hreading, hreading]
  have hnext : m.regs.next = m'.regs.next := by rw [h.regs_eq]
  cases ha : i.op.aluOp? with
  | some alu =>
    rw [execute_arithmetic ha, execute_arithmetic ha, hreading, hreading, hnext]
    rcases alu.exec (m'.reading i.src1) (m'.reading i.src2 + i.offset) with
      kind | ⟨value, flags⟩
    · exact ⟨rfl, .refl h⟩
    · have hflags := h.setFlags flags
      have hwritten := hflags.toAlike.writeTarget i.target value m'.regs.next
      dsimp only
      split
      · exact ⟨rfl, hflags⟩
      · exact ⟨congrArg Except.ok hwritten.1, hflags.trans hwritten.2⟩
  | none =>
    cases hop : i.op with
    | halt =>
      rw [execute_halt hop, execute_halt hop, hnext]
      exact ⟨rfl, h.update h.regs_eq h.mem_eq rfl⟩
    | load =>
      have hwritten := h.writeTarget i.target (m'.mem.cell (m'.address i).toNat) m'.regs.next
      rw [execute_load hop, execute_load hop, haddress, hnext, h.mem_eq]
      split
      · exact ⟨congrArg Except.ok hwritten.1, hwritten.2⟩
      · exact ⟨rfl, .refl h⟩
    | store =>
      rw [execute_store hop, execute_store hop, haddress, hnext, hreading, h.mem_eq]
      split
      · exact ⟨rfl, h.update h.regs_eq rfl h.state_eq⟩
      · exact ⟨rfl, .refl h⟩
    | jump =>
      rw [execute_jump hop, execute_jump hop, hreading]
      exact ⟨rfl, .refl h⟩
    | trap =>
      rw [execute_trap hop, execute_trap hop, hreading, hnext]
      exact h.trap _ _ _
    | illegal code =>
      rw [execute_illegal hop, execute_illegal hop]
      exact ⟨rfl, .refl h⟩
    | _ =>
      rw [hop] at ha
      cases ha

theorem perform (h : Alike m m') (i : Instruction) : Agree m m' (m.perform i) (m'.perform i) := by
  obtain ⟨hresult, hparallel⟩ := h.execute i
  rw [Machine.perform, Machine.perform]
  rcases he : m.execute i with ⟨result, n⟩
  rcases he' : m'.execute i with ⟨result', n'⟩
  rw [he, he'] at hresult hparallel
  cases hresult
  cases result with
  | error kind => exact ⟨rfl, hparallel⟩
  | ok next => exact ⟨rfl, hparallel.trans (hparallel.toAlike.goTo next)⟩

theorem cycle (h : Alike m m') : Agree m m' m.cycle m'.cycle := by
  rw [Machine.cycle, Machine.cycle, h.regs_eq, h.mem_eq]
  split
  · exact ⟨rfl, .refl h⟩
  · dsimp only
    split
    · exact h.perform _
    · rw [Machine.pass, Machine.pass, h.regs_eq]
      exact ⟨rfl, h.goTo _⟩

theorem stop (h : Alike m m') {α : Type} (pc : Word) (kind : FaultKind) :
    Agree m m' (m.stop pc kind : Except RunError α × Machine) (m'.stop pc kind) :=
  ⟨rfl, h.update h.regs_eq h.mem_eq rfl⟩

/-- One step of machines that are alike. -/
theorem step (h : Alike m m') : Agree m m' m.step m'.step := by
  rw [Machine.step, Machine.step, h.state_eq, h.regs_eq]
  split
  · obtain ⟨hresult, hparallel⟩ := h.cycle
    rcases hc : m.cycle with ⟨result, n⟩
    rcases hc' : m'.cycle with ⟨result', n'⟩
    rw [hc, hc'] at hresult hparallel
    cases hresult
    cases result with
    | error kind =>
      obtain ⟨hreport, hstopped⟩ := hparallel.toAlike.stop (α := Instruction) m'.regs.pc kind
      exact ⟨hreport, hparallel.trans hstopped⟩
    | ok i => exact ⟨rfl, hparallel.trans (.complete hparallel.toAlike i)⟩
  · exact ⟨rfl, .refl h⟩

theorem after (h : Alike m m') (n : Nat) : Alike (m.after n) (m'.after n) := by
  induction n generalizing m m' with
  | zero => exact h
  | succ n ih => exact ih h.step.2.toAlike

theorem stopsAt (h : Alike m m') {k : Nat} (hstop : m.StopsAt k) : m'.StopsAt k where
  running j hj := (h.after j).state_eq ▸ hstop.running j hj
  stopped := (h.after k).state_eq ▸ hstop.stopped

/-! ## Runs -/

/-- A run counts its own cycles, so that what was counted before does not matter. The induction is
on the steps of the run. -/
theorem run {start start' : Count} {budget : Option Count} {stages : List Stage}
    {r : Except RunError Count × Machine} (h : Alike m m')
    (hstart : m.cycles - start = m'.cycles - start') (hrun : Run start budget stages m r) :
    ∃ stages' r', Run start' budget stages' m' r' ∧ Agree m m' r r' := by
  induction hrun generalizing m' with
  | ended stopped =>
    exact ⟨[], _, .ended (h.state_eq ▸ stopped), congrArg Except.ok hstart, .refl h⟩
  | exhausted running limited used =>
    rw [h.regs_eq]
    exact ⟨[], _, .exhausted (h.state_eq ▸ running) limited (hstart ▸ used), h.stop _ _⟩
  | @failed m next error running room step =>
    obtain ⟨hresult, hparallel⟩ := h.step
    rcases hs : m'.step with ⟨result', next'⟩
    rw [step, hs] at hresult hparallel
    cases hresult
    exact ⟨[], _, .failed (h.state_eq ▸ running) (hstart ▸ room) hs, rfl, hparallel⟩
  | @step m next i stages r room first rest ih =>
    obtain ⟨hresult, hparallel⟩ := h.step
    rcases hs : m'.step with ⟨result', next'⟩
    rw [first, hs] at hresult hparallel
    cases hresult
    have hstart' : next.cycles - start = next'.cycles - start' := by
      have hcycles := cycles_step first
      have hcycles' := cycles_step hs
      bv_omega
    obtain ⟨stages', r', hrun', hagree⟩ := ih hparallel.toAlike hstart'
    exact ⟨_, r', .step (hstart ▸ room) hs hrun', hagree.1, hparallel.trans hagree.2⟩

theorem runLimited (h : Alike m m') (limit : Count) :
    Agree m m' (m.runLimited limit) (m'.runLimited limit) := by
  have hstart : m.cycles - m.cycles = m'.cycles - m'.cycles := by
    rw [BitVec.sub_self, BitVec.sub_self]
  obtain ⟨stages, hrun⟩ := exists_run_runWithin m.cycles limit m
  obtain ⟨stages', r', hrun', hagree⟩ := h.run hstart hrun
  rw [Machine.runLimited, Machine.runLimited, hrun'.runWithin_eq]
  exact hagree

/-- A run without a budget that comes to an end does so for both. -/
theorem runOn (h : Alike m m') {k : Nat} (hstop : m.StopsAt k) :
    Agree m m' (Machine.runOn m.cycles m) (Machine.runOn m'.cycles m') := by
  have hstart : m.cycles - m.cycles = m'.cycles - m'.cycles := by
    rw [BitVec.sub_self, BitVec.sub_self]
  obtain ⟨stages, r, hrun⟩ := exists_run_of_stopsAt m.cycles hstop
  obtain ⟨stages', r', hrun', hagree⟩ := h.run hstart hrun
  rw [hrun.runOn_eq, hrun'.runOn_eq]
  exact hagree

end Alike
end DM2022.Machine
