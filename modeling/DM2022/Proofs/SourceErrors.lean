import DM2022.Proofs.Assembly.Lines
import DM2022.Proofs.Assembly.ResolutionErrors
import DM2022.Proofs.Assembly.Stages

/-!
# The errors of a source

Assembly reports what is wrong with each line and each label once, in the order of the lines
and on one line in the order of the stages that find it. A line in error still defines its
label, so nothing is reported that is wrong only because another line is.
-/
namespace DM2022.Assembly

variable {text : List Char} {origin : Nat} {statements : List Statement}
  {errors : List AssemblyError}

/-- The error is on an earlier line, or on the same line and found at an earlier stage. -/
def AssemblyError.Precedes (d e : AssemblyError) : Prop :=
  d.line < e.line ∨ d.line = e.line ∧ d.problem.stage < e.problem.stage

/-- The statements and the errors of a text, each in the order of their lines. -/
structure Source.Covers (source : Source) (text : List Char) : Prop where
  statement_iff : ∀ s, s ∈ source.statements ↔
    ∃ k line, (Text.lines text)[k]? = some line ∧ Keeps line (k + 1) s
  statements_sorted : source.statements.Pairwise fun s t => s.line < t.line
  error_iff : ∀ e, e ∈ source.errors ↔
    ∃ k line, (Text.lines text)[k]? = some line ∧ Statement.read line (k + 1) = .error e
  errors_sorted : source.errors.Pairwise fun d e => d.line < e.line
  /-- Lines show none of the errors that the later stages find. -/
  errors_read : ∀ e ∈ source.errors, e.problem.stage = 0

/-- The report names each error of the lines and each of some others once, in order. -/
structure Source.Reports (source : Source) (others : AssemblyError → Prop)
    (report : List AssemblyError) : Prop where
  mem_iff : ∀ e, e ∈ report ↔ e ∈ source.errors ∨ others e
  sorted : report.Pairwise AssemblyError.Precedes

theorem stage_of_mem_errors {e : AssemblyError} (h : e ∈ (Source.read text).errors) :
    e.problem.stage = 0 := by
  obtain ⟨k, line, -, hread⟩ := mem_errors_iff.1 h
  exact stage_of_read_error hread

theorem covers_read (text : List Char) : (Source.read text).Covers text where
  statement_iff _ := mem_statements_iff
  statements_sorted := pairwise_statements text
  error_iff _ := mem_errors_iff
  errors_sorted := pairwise_errors text
  errors_read _ := stage_of_mem_errors

/-! ## Sorting -/

/-- What the stages find, one stage after the other. -/
def findings (text : List Char) (origin : Nat) : List AssemblyError :=
  (Source.read text).errors ++ (resolve (Source.read text).statements origin).errors

theorem line_le_trans (c d e : AssemblyError) :
    decide (c.line ≤ d.line) → decide (d.line ≤ e.line) → decide (c.line ≤ e.line) := by
  simp only [decide_eq_true_eq]
  exact Nat.le_trans

theorem line_le_total (d e : AssemblyError) :
    decide (d.line ≤ e.line) || decide (e.line ≤ d.line) := by
  simp only [Bool.or_eq_true, decide_eq_true_eq]
  exact Nat.le_total _ _

/-- Sorting by line leaves the errors of one line in their order. -/
theorem filter_mergeSort (l : List AssemblyError) (line : Nat) :
    (l.mergeSort fun d e => decide (d.line ≤ e.line)).filter (·.line = line) =
      l.filter (·.line = line) := by
  have hkept : (l.filter (·.line = line)).Sublist
      (l.mergeSort fun d e => decide (d.line ≤ e.line)) := by
    refine List.sublist_mergeSort line_le_trans line_le_total ?_ List.filter_sublist
    rw [List.pairwise_filter]
    refine List.pairwise_of_forall fun d e hd he => ?_
    rw [decide_eq_true_eq] at hd he ⊢
    omega
  have hfiltered := hkept.filter (·.line = line)
  simp only [List.filter_filter, Bool.and_self] at hfiltered
  have hlength := ((l.mergeSort_perm fun d e => decide (d.line ≤ e.line)).filter
    (·.line = line)).length_eq
  exact (hfiltered.eq_of_length hlength.symm).symm

/-- Errors that stand in the order of their stages on each line are put in order by sorting. -/
theorem pairwise_mergeSort_precedes {l : List AssemblyError}
    (h : l.Pairwise fun d e => d.line = e.line → d.problem.stage < e.problem.stage) :
    (l.mergeSort fun d e => decide (d.line ≤ e.line)).Pairwise AssemblyError.Precedes := by
  have hlines : (l.mergeSort fun d e => decide (d.line ≤ e.line)).Pairwise
      fun d e => d.line ≤ e.line :=
    (List.pairwise_mergeSort line_le_trans line_le_total l).imp fun hle => of_decide_eq_true hle
  have hstages : ∀ line, (l.mergeSort fun d e => decide (d.line ≤ e.line)).Pairwise
      fun d e => d.line = line → e.line = line → d.problem.stage < e.problem.stage := by
    intro line
    have hline : (l.filter (·.line = line)).Pairwise
        fun d e => d.problem.stage < e.problem.stage := by
      rw [List.pairwise_filter]
      refine h.imp fun hde hd he => hde ?_
      rw [decide_eq_true_eq] at hd he
      rw [hd, he]
    rw [← filter_mergeSort, List.pairwise_filter] at hline
    simpa only [decide_eq_true_eq] using hline
  rw [List.pairwise_iff_getElem] at hlines ⊢
  intro i j hi hj hij
  rcases Nat.lt_or_eq_of_le (hlines i j hi hj hij) with hlt | heq
  · exact .inl hlt
  · have hstage := List.pairwise_iff_getElem.1 (hstages _) i j hi hj hij heq rfl
    exact .inr ⟨heq, hstage⟩

/-- A source that is not in order is refused for all that the stages find, sorted. -/
theorem resolveSource_error_iff : resolveSource text origin = .error errors ↔
    findings text origin ≠ [] ∧
      errors = (findings text origin).mergeSort fun d e => decide (d.line ≤ e.line) := by
  rw [resolveSource, findings]
  split
  · next hr =>
    have hsorted : (Source.read text).errors.mergeSort (fun d e => decide (d.line ≤ e.line)) =
        (Source.read text).errors := by
      refine List.mergeSort_of_pairwise ((pairwise_errors text).imp fun hlt => ?_)
      exact decide_eq_true (Nat.le_of_lt hlt)
    rw [hr, List.append_nil, hsorted]
    split
    · next hs => simp [hs]
    · next hs => simp [hs, eq_comm]
  · next hr =>
    rw [Except.error.injEq, eq_comm, and_iff_right]
    intro hnil
    exact hr (List.append_eq_nil_iff.1 hnil).2

theorem exists_error_iff :
    (∃ errors, resolveSource text origin = .error errors) ↔ ∃ e, e ∈ findings text origin := by
  simp only [resolveSource_error_iff]
  constructor
  · intro h
    obtain ⟨_, hne, -⟩ := h
    exact List.exists_mem_of_ne_nil _ hne
  · intro h
    obtain ⟨e, he⟩ := h
    exact ⟨_, List.ne_nil_of_mem he, rfl⟩

/-! ## Findings -/

theorem pairwise_of_lines {l : List AssemblyError} (h : l.Pairwise fun d e => d.line < e.line) :
    l.Pairwise fun d e => d.line = e.line → d.problem.stage < e.problem.stage :=
  h.imp fun hlt heq => absurd heq (Nat.ne_of_lt hlt)

/-- If the errors of resolution are in order and of later stages, all findings are in order. -/
theorem pairwise_findings {more : List AssemblyError}
    (hmore : more.Pairwise fun d e => d.line = e.line → d.problem.stage < e.problem.stage)
    (hstage : ∀ e ∈ more, 0 < e.problem.stage) :
    ((Source.read text).errors ++ more).Pairwise
      fun d e => d.line = e.line → d.problem.stage < e.problem.stage := by
  refine List.pairwise_append.2 ⟨pairwise_of_lines (pairwise_errors text), hmore, ?_⟩
  intro d hd e he _
  rw [stage_of_mem_errors hd]
  exact hstage e he

theorem resolve_errors_of_fits (h : Fits origin statements) :
    (resolve statements origin).errors = (SymbolTable.empty.define (placed origin statements)).2 ++
      (placed origin statements).filterMap fun p =>
        failure? (p.1.resolve (symbolsFrom origin statements) p.2) := by
  rw [resolve_of_fits h]

/-- In statements that fit, resolution finds the repeated and then the missing labels. -/
theorem mem_resolve_errors_iff (h : Fits origin statements) {e : AssemblyError} :
    e ∈ (resolve statements origin).errors ↔ Repeats statements e ∨ Misses statements e := by
  rw [resolve_errors_of_fits h, List.mem_append, mem_define_placed_iff, mem_failures_iff h]

theorem pairwise_resolve_errors (hfits : Fits origin statements)
    (h : statements.Pairwise fun s t => s.line < t.line) :
    (resolve statements origin).errors.Pairwise
      fun d e => d.line = e.line → d.problem.stage < e.problem.stage := by
  rw [resolve_errors_of_fits hfits]
  refine List.pairwise_append.2 ⟨pairwise_of_lines (pairwise_define h),
    pairwise_of_lines (pairwise_failures hfits h), ?_⟩
  intro d hd e he _
  cases mem_define_placed_iff.1 hd
  cases (mem_failures_iff hfits).1 he
  exact Nat.lt_succ_self 1

/-- A report is the findings in order. -/
theorem reports_of_findings {others : AssemblyError → Prop}
    (hothers : ∀ e, e ∈ (resolve (Source.read text).statements origin).errors ↔ others e)
    (hsorted : (findings text origin).Pairwise
      fun d e => d.line = e.line → d.problem.stage < e.problem.stage)
    (h : resolveSource text origin = .error errors) : (Source.read text).Reports others errors := by
  obtain ⟨-, rfl⟩ := resolveSource_error_iff.1 h
  refine ⟨fun e => ?_, pairwise_mergeSort_precedes hsorted⟩
  rw [List.mem_mergeSort, findings, List.mem_append, hothers]

/-- Every failure of resolution reports all errors of the lines and of the labels, each once and
in order. A source whose statements fit the address range fails just if there is such an error;
the others fail in any case, and are reported with the first statement that does not fit. -/
theorem resolveSource_reports (text : List Char) (origin : Nat) :
    (Source.read text).Covers text ∧
    (Fits origin (Source.read text).statements →
      ((∃ errors, resolveSource text origin = .error errors) ↔
        ∃ e, e ∈ (Source.read text).errors ∨ Repeats (Source.read text).statements e ∨
          Misses (Source.read text).statements e) ∧
      ∀ errors, resolveSource text origin = .error errors → (Source.read text).Reports
        (fun e => Repeats (Source.read text).statements e ∨
          Misses (Source.read text).statements e) errors) ∧
    (¬Fits origin (Source.read text).statements →
      ∃ e errors, Overflows origin (Source.read text).statements e ∧
        resolveSource text origin = .error errors ∧
        (Source.read text).Reports (· = e) errors) ∧
    ∀ errors, resolveSource text origin = .error errors → errors ≠ [] := by
  refine ⟨covers_read text, fun hfits => ⟨?_, fun errors h => ?_⟩, fun hfits => ?_,
    fun errors h => ?_⟩
  · simp only [exists_error_iff, findings, List.mem_append, mem_resolve_errors_iff hfits]
  · refine reports_of_findings (fun e => mem_resolve_errors_iff hfits) (pairwise_findings ?_ ?_) h
    · exact pairwise_resolve_errors hfits (pairwise_statements text)
    · intro e he
      rcases (mem_resolve_errors_iff hfits).1 he with he | he
      · cases he
        exact Nat.zero_lt_succ 0
      · cases he
        exact Nat.zero_lt_succ 1
  · obtain ⟨e, hover⟩ := exists_overflow hfits
    have herrors := resolve_errors_of_overflows hover
    have hfound : e ∈ findings text origin := by
      rw [findings, herrors]
      exact List.mem_append_right _ List.mem_cons_self
    obtain ⟨errors, h⟩ := exists_error_iff.2 ⟨e, hfound⟩
    refine ⟨e, errors, hover, h, reports_of_findings (fun d => ?_) ?_ h⟩
    · rw [herrors, List.mem_singleton]
    · rw [findings, herrors]
      refine pairwise_findings (List.pairwise_singleton _ e) fun d hd => ?_
      rw [List.mem_singleton.1 hd]
      cases hover
      exact Nat.zero_lt_succ 0
  · obtain ⟨hne, rfl⟩ := resolveSource_error_iff.1 h
    obtain ⟨e, he⟩ := List.exists_mem_of_ne_nil _ hne
    exact List.ne_nil_of_mem (List.mem_mergeSort.2 he)

end DM2022.Assembly
