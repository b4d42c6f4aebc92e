import DM2022.Proofs.Assembly.Codes
import DM2022.Proofs.OffsetErrors
import DM2022.Proofs.SourceErrors

/-!
# Edits of a source

Blank lines, comments, the blanks around a line and the form of the line ends say nothing. However
a source is edited in these, its lines keep their code, and only their numbers change. So it is
assembled to the same words with the same addresses of its labels, or refused with the same
errors on the lines with the new numbers.
-/
namespace DM2022.Assembly

open Text (Idle)

variable {f : Nat → Nat} {text text' : List Char} {rows rows' : List (List Char)}
  {origin : Nat} {e : AssemblyError}

/-- The rows after an edit that says nothing, and the new number of each row. Rows are what
stands between line feeds. -/
inductive Edit : List (List Char) → List (List Char) → (Nat → Nat) → Prop
  | insert (above : List (List Char)) {row : List Char} (below : List (List Char))
      (h : Idle row) : Edit (above ++ below) (above ++ row :: below)
        fun n => if n ≤ above.length then n else n + 1
  | delete (above : List (List Char)) {row : List Char} (below : List (List Char))
      (h : Idle row) : Edit (above ++ row :: below) (above ++ below)
        fun n => if n ≤ above.length then n else n - 1
  /-- Blanks or a comment, or both, at the end of a line, before the return that may end it. -/
  | append (above : List (List Char)) (line : List Char) {tail ending : List Char}
      (below : List (List Char)) (h : Idle tail) (hending : ending = [] ∨ ending = ['\r']) :
      Edit (above ++ (line ++ ending) :: below) (above ++ (line ++ tail ++ ending) :: below) id
  | indent (above : List (List Char)) {blanks : List Char} (row : List Char)
      (below : List (List Char)) (h : ∀ c ∈ blanks, Text.isBlank c = true) :
      Edit (above ++ row :: below) (above ++ (blanks ++ row) :: below) id
  /-- A carriage return before the line feed that ends a row. -/
  | lineEnd (above : List (List Char)) (row next : List Char) (below : List (List Char)) :
      Edit (above ++ row :: next :: below) (above ++ (row ++ ['\r']) :: next :: below) id

/-- The text after any edits that say nothing, and the new number of each line. -/
inductive Edited (text : List Char) : List Char → (Nat → Nat) → Prop
  | refl : Edited text text id
  | step {edited next : List Char} {f g : Nat → Nat} (h : Edited text edited f)
      (edit : Edit (Text.pieces '\n' edited) (Text.pieces '\n' next) g) :
      Edited text next (g ∘ f)

/-- The same program, or a refusal for the same errors, on the lines with the new numbers. -/
inductive Agrees (f : Nat → Nat) : Except (List AssemblyError) Program →
    Except (List AssemblyError) Program → Prop
  | assembled {p p' : Program} (words : p'.words = p.words)
      (addresses : ∀ name, p'.symbols.address? name = p.symbols.address? name)
      (symbols : SymbolTable.Renumbered f p.symbols p'.symbols) : Agrees f (.ok p) (.ok p')
  | refused (errors : List AssemblyError) :
      Agrees f (.error errors) (.error (errors.map (AssemblyError.renumber f)))

/-! ## Edits -/

/-- Rows that stand elsewhere say the same under the numbers that they have there. -/
theorem map_codesFrom {n m : Nat} (h : ∀ k < rows.length, f (n + k) = m + k) :
    (codesFrom n rows).map (Prod.map id f) = codesFrom m rows := by
  induction rows generalizing n m with
  | nil => rfl
  | cons row rest ih =>
    have hrest : (codesFrom (n + 1) rest).map (Prod.map id f) = codesFrom (m + 1) rest := by
      refine ih fun k hk => ?_
      have hnext := h (k + 1) (Nat.succ_lt_succ hk)
      rw [show n + 1 + k = n + (k + 1) by omega, hnext]
      omega
    have hrow : f n = m := h 0 (Nat.succ_pos _)
    rw [codesFrom, codesFrom, ← hrest]
    split
    · rfl
    · rw [List.map_cons, Prod.map_apply, hrow, id]

theorem codesFrom_idle {row : List Char} (h : Idle row) (n : Nat) (rest : List (List Char)) :
    codesFrom n (row :: rest) = codesFrom (n + 1) rest := by
  rw [codesFrom, if_pos (lineCode_idle h)]

theorem codesFrom_replace {row row' : List Char} (h : lineCode row' = lineCode row) (n : Nat)
    (above below : List (List Char)) :
    codesFrom n (above ++ row' :: below) =
      (codesFrom n (above ++ row :: below)).map (Prod.map id id) := by
  rw [codesFrom_append, codesFrom_append, codesFrom, codesFrom, h, Prod.map_id, List.map_id]

/-- An edit keeps the code of every row. -/
theorem Edit.codesFrom_eq (h : Edit rows rows' f) :
    codesFrom 1 rows' = (codesFrom 1 rows).map (Prod.map id f) := by
  cases h with
  -- the rows above keep their numbers, and those below move by one
  | insert above below hidle =>
    rw [codesFrom_append, codesFrom_append, codesFrom_idle hidle, List.map_append,
      map_codesFrom (m := 1), map_codesFrom (m := 1 + above.length + 1)]
    · intro k _
      rw [if_neg (by omega)]
      omega
    · intro k hk
      rw [if_pos (by omega)]
  | delete above below hidle =>
    rw [codesFrom_append, codesFrom_append, codesFrom_idle hidle, List.map_append,
      map_codesFrom (m := 1), map_codesFrom (m := 1 + above.length)]
    · intro k _
      rw [if_neg (by omega)]
      omega
    · intro k hk
      rw [if_pos (by omega)]
  | @append above line tail ending below hidle hending =>
    have hend : Idle ending := by
      rcases hending with rfl | rfl
      · exact .blank fun _ hc => by cases hc
      · exact idle_return
    refine codesFrom_replace ?_ 1 above below
    rw [lineCode_append _ hend, lineCode_append _ hidle, lineCode_append _ hend]
  | indent above row below hblank =>
    exact codesFrom_replace (lineCode_blanks_append hblank row) 1 above below
  | lineEnd above row next below =>
    exact codesFrom_replace (lineCode_append row idle_return) 1 above (next :: below)

/-- The induction is on the edits, each with the numbers that the earlier ones gave. -/
theorem Edited.codes_eq (h : Edited text text' f) :
    codes text' = (codes text).map (Prod.map id f) := by
  induction h with
  | refl => rw [Prod.map_id, List.map_id]
  | step h edit ih =>
    rw [Assembly.codes_eq, edit.codesFrom_eq, ← Assembly.codes_eq, ih, List.map_map,
      Prod.map_comp_map]
    rfl

/-! ## Errors in the order of their lines -/

theorem line_of_mem_resolve_errors {statements : List Statement}
    (h : e ∈ (resolve statements origin).errors) : ∃ s ∈ statements, s.line = e.line := by
  by_cases hfits : Fits origin statements
  · rcases (mem_resolve_errors_iff hfits).1 h with h | h
    · obtain ⟨-, hs, -, -, -, -⟩ := h
      exact ⟨_, List.mem_of_getElem? hs, rfl⟩
    · obtain ⟨hs, -, -⟩ := h
      exact ⟨_, hs, rfl⟩
  · obtain ⟨d, hover⟩ := exists_overflow hfits
    rw [resolve_errors_of_overflows hover, List.mem_singleton] at h
    subst h
    obtain ⟨hs, -, -⟩ := hover
    exact ⟨_, List.mem_of_getElem? hs, rfl⟩

/-- Only a line with code is in error. -/
theorem line_of_mem_findings (ho : origin ≤ addressLimit) (h : e ∈ findings text origin) :
    ∃ p ∈ codes text, p.2 = e.line := by
  rcases List.mem_append.1 h with h | h
  · rw [errors_eq_codes, List.mem_filterMap] at h
    obtain ⟨p, hp, he⟩ := h
    exact ⟨p, hp, (line_of_read_error (errorOf?_eq_some_iff.1 he)).symm⟩
  · have hshown :
        e.renumber id ∈ (resolve (shown (Source.read text).statements) origin).errors := by
      rw [(renumbers_shown _).resolve_errors ho]
      exact List.mem_map_of_mem h
    obtain ⟨s, hs, hline⟩ := line_of_mem_resolve_errors hshown
    rw [shown_eq_codes, List.mem_filterMap] at hs
    obtain ⟨p, hp, hs⟩ := hs
    obtain ⟨hstatement, -⟩ := Option.filter_eq_some_iff.1 hs
    exact ⟨p, hp, (statementOf?_eq_some_iff.1 hstatement).line_eq.symm.trans hline⟩

section Codes

variable (hcodes : codes text' = (codes text).map (Prod.map id f))
include hcodes

/-- Lines with code stay in their order. -/
theorem le_iff_of_codes {p q : List Char × Nat} (hp : p ∈ codes text) (hq : q ∈ codes text) :
    p.2 ≤ q.2 ↔ f p.2 ≤ f q.2 := by
  have hlt : (codes text).Pairwise fun p q => p.2 < q.2 := pairwise_codesFrom 1 _
  have hlt' : (codes text').Pairwise fun p q => p.2 < q.2 := pairwise_codesFrom 1 _
  rw [hcodes, List.pairwise_map] at hlt'
  have hboth := hlt.and hlt'
  refine List.Pairwise.forall_of_forall_of_flip (R := fun p q => p.2 ≤ q.2 ↔ f p.2 ≤ f q.2)
    (fun _ _ => by simp) (hboth.imp fun {p q} hpq => ?_) (hboth.imp fun {p q} hpq => ?_) hp hq
  · exact iff_of_true (Nat.le_of_lt hpq.1) (Nat.le_of_lt hpq.2)
  · exact iff_of_false (Nat.not_le_of_lt hpq.1) (Nat.not_le_of_lt hpq.2)

theorem findings_renumber (ho : origin ≤ addressLimit) :
    findings text' origin = (findings text origin).map (AssemblyError.renumber f) := by
  obtain ⟨hstatements, herrors⟩ := read_of_codes hcodes
  rw [findings, findings, herrors, hstatements.resolve_errors ho, List.map_append]

theorem sorted_findings (ho : origin ≤ addressLimit) :
    (findings text' origin).mergeSort (fun d e => decide (d.line ≤ e.line)) =
      ((findings text origin).mergeSort fun d e => decide (d.line ≤ e.line)).map
        (AssemblyError.renumber f) := by
  rw [findings_renumber hcodes ho]
  refine (List.map_mergeSort fun d hd e he => ?_).symm
  obtain ⟨p, hp, hdline⟩ := line_of_mem_findings ho hd
  obtain ⟨q, hq, heline⟩ := line_of_mem_findings ho he
  have hle := le_iff_of_codes hcodes hp hq
  rw [hdline, heline] at hle
  exact decide_eq_decide.2 hle

/-! ## Assembly -/

/-- A source that is refused is refused for the same errors after the edits. -/
theorem resolveSource_error_of_codes (ho : origin ≤ addressLimit) {errors : List AssemblyError}
    (h : resolveSource text origin = .error errors) :
    resolveSource text' origin = .error (errors.map (AssemblyError.renumber f)) := by
  obtain ⟨hne, rfl⟩ := resolveSource_error_iff.1 h
  refine resolveSource_error_iff.2 ⟨?_, (sorted_findings hcodes ho).symm⟩
  rw [findings_renumber hcodes ho]
  exact mt List.map_eq_nil_iff.1 hne

theorem resolveSource_ok_of_codes (ho : origin ≤ addressLimit) {statements : List Statement}
    {table : SymbolTable} (h : resolveSource text origin = .ok (statements, table)) :
    ∃ statements' table', resolveSource text' origin = .ok (statements', table') ∧
      Renumbers f statements statements' ∧ SymbolTable.Renumbered f table table' := by
  obtain ⟨hstatements, herrors⟩ := read_of_codes hcodes
  obtain ⟨hread, hresolve, rfl, rfl⟩ := resolveSource_ok_iff.1 h
  obtain ⟨hresolved, hsymbols⟩ :=
    hstatements.resolve_of_fits ho (resolve_errors_eq_nil_iff.1 hresolve).1
  refine ⟨_, _, resolveSource_ok_iff.2 ⟨?_, ?_, rfl, rfl⟩, hresolved, hsymbols⟩
  · rw [herrors, hread, List.map_nil]
  · rw [hstatements.resolve_errors ho, hresolve, List.map_nil]

theorem agrees_of_codes (ho : origin ≤ addressLimit) :
    Agrees f (assemble text origin) (assemble text' origin) := by
  cases h : resolveSource text origin with
  | error errors =>
    have h' := resolveSource_error_of_codes hcodes ho h
    rw [assemble, assemble, h, h']
    exact .refused errors
  | ok r =>
    obtain ⟨statements', table', h', hstatements, hsymbols⟩ :=
      resolveSource_ok_of_codes hcodes ho h
    have hencoding := hstatements.encodingErrors_eq (fits_resolved h) (fits_resolved h')
    rw [assemble_eq_of_resolved h, assemble_eq_of_resolved h', hencoding]
    cases encodingErrors r.1 with
    | nil => exact .assembled hstatements.imageOf_eq hsymbols.address? hsymbols
    | cons e errors => exact .refused (e :: errors)

end Codes

end DM2022.Assembly
