import DM2022.Proofs.Assembly.Lines
import DM2022.Proofs.Assembly.Renumbering
import DM2022.Proofs.Assembly.Stages
import DM2022.Proofs.Text.Rows

/-!
# The code of a source

A line is read for its code, without its comment and the blanks around it. A line without code
gives a blank statement and no error. So a source is what its lines with code say, each with
its number, and sources that say the same on other lines are assembled in the same way.
-/
namespace DM2022.Assembly

open Text (Idle)

variable {f : Nat → Nat} {text text' line : List Char} {rows : List (List Char)}

/-! ## The code of a line -/

theorem lineCode_append (line : List Char) {tail : List Char} (h : Idle tail) :
    lineCode (line ++ tail) = lineCode line :=
  Text.trim_dropComment_append h line

theorem lineCode_blanks_append {blanks : List Char} (h : ∀ c ∈ blanks, Text.isBlank c = true)
    (line : List Char) : lineCode (blanks ++ line) = lineCode line := by
  rw [lineCode, lineCode, Text.dropComment_append_of_unmarked (Text.unmarked_of_blank h),
    Text.trim_blanks_append h]

theorem lineCode_idle (h : Idle line) : lineCode line = [] :=
  lineCode_append [] h

theorem idle_return : Idle ['\r'] := .blank (by simp [Text.isBlank])

theorem lineCode_dropReturn (row : List Char) : lineCode (Text.dropReturn row) = lineCode row := by
  rcases Text.dropReturn_eq_or row with h | h
  · rw [h]
  · rw [h, lineCode_append _ idle_return, ← h]

/-- Code is its own code. -/
theorem lineCode_lineCode (line : List Char) : lineCode (lineCode line) = lineCode line := by
  have hunmarked : ∀ c ∈ lineCode line, Text.isCommentMark c = false := fun c hc => by
    have hkept := List.mem_takeWhile_imp (Text.mem_of_mem_trim hc)
    simpa using hkept
  rw [lineCode, Text.dropComment_of_unmarked hunmarked, lineCode, Text.trim_trim]

theorem read_lineCode (line : List Char) (number : Nat) :
    Statement.read (lineCode line) number = Statement.read line number := by
  rw [Statement.read, Statement.read, readLine, readLine, lineCode_lineCode]

theorem statementOf?_lineCode (line : List Char) (number : Nat) :
    Source.statementOf? (lineCode line) number = Source.statementOf? line number := by
  rw [Source.statementOf?, Source.statementOf?, read_lineCode, lineCode_lineCode]

theorem errorOf?_lineCode (line : List Char) (number : Nat) :
    Source.errorOf? (lineCode line) number = Source.errorOf? line number := by
  rw [Source.errorOf?, Source.errorOf?, read_lineCode]

/-! ## The code of a text -/

/-- The code of each row that has some, with the number of the row, counted from `n` on. -/
def codesFrom (n : Nat) : List (List Char) → List (List Char × Nat)
  | [] => []
  | row :: rest =>
      if lineCode row = [] then codesFrom (n + 1) rest
      else (lineCode row, n) :: codesFrom (n + 1) rest

/-- What the lines of a text say. -/
def codes (text : List Char) : List (List Char × Nat) := codesFrom 1 (Text.lines text)

theorem codesFrom_append (n : Nat) (rows more : List (List Char)) :
    codesFrom n (rows ++ more) = codesFrom n rows ++ codesFrom (n + rows.length) more := by
  induction rows generalizing n with
  | nil => rfl
  | cons row rest ih =>
    have hlength : n + 1 + rest.length = n + (row :: rest).length := by
      rw [List.length_cons]
      omega
    rw [List.cons_append, codesFrom, codesFrom, ih, hlength]
    split <;> rfl

theorem codesFrom_linesOf (n : Nat) (rows : List (List Char)) :
    codesFrom n (Text.linesOf rows) = codesFrom n rows := by
  induction rows generalizing n with
  | nil => rfl
  | cons row rest ih =>
    cases rest with
    | nil =>
      rw [Text.linesOf]
      split
      · next hrow =>
        rw [hrow]
        rfl
      · rfl
    | cons next rest =>
      rw [Text.linesOf_cons (List.cons_ne_nil _ _), codesFrom, codesFrom, lineCode_dropReturn, ih]

/-- The ends of the lines say nothing. -/
theorem codes_eq (text : List Char) : codes text = codesFrom 1 (Text.pieces '\n' text) := by
  rw [codes, Text.lines_eq_linesOf, codesFrom_linesOf]

theorem bounds_of_mem_codesFrom {n : Nat} {p : List Char × Nat} (h : p ∈ codesFrom n rows) :
    n ≤ p.2 ∧ p.2 < n + rows.length := by
  induction rows generalizing n with
  | nil => cases h
  | cons row rest ih =>
    rw [codesFrom] at h
    rw [List.length_cons]
    split at h
    · have hrest := ih h
      omega
    · rcases List.mem_cons.1 h with rfl | h
      · omega
      · have hrest := ih h
        omega

theorem pairwise_codesFrom (n : Nat) (rows : List (List Char)) :
    (codesFrom n rows).Pairwise fun p q => p.2 < q.2 := by
  induction rows generalizing n with
  | nil => exact .nil
  | cons row rest ih =>
    rw [codesFrom]
    split
    · exact ih (n + 1)
    · exact .cons (fun q hq => (bounds_of_mem_codesFrom hq).1) (ih (n + 1))

/-! ## Sources -/

/-- What is read of a row for its code, and not of a row without code, is read of the codes. -/
theorem filterMap_zipIdx {β : Type} {g : List Char → Nat → Option β}
    (hcode : ∀ row n, g (lineCode row) n = g row n) (hnil : ∀ n, g [] n = none) (n : Nat)
    (rows : List (List Char)) : (rows.zipIdx n).filterMap (fun p => g p.1 p.2) =
      (codesFrom n rows).filterMap fun p => g p.1 p.2 := by
  induction rows generalizing n with
  | nil => rfl
  | cons row rest ih =>
    by_cases hrow : lineCode row = []
    · have hnone : g row n = none := by rw [← hcode, hrow, hnil]
      rw [List.zipIdx_cons, List.filterMap_cons, hnone, codesFrom, if_pos hrow, ih]
    · rw [List.zipIdx_cons, codesFrom, if_neg hrow, List.filterMap_cons, List.filterMap_cons, ih,
        hcode]

/-- The statement of a row, if it is not blank. -/
def shownOf? (row : List Char) (n : Nat) : Option Statement :=
  (Source.statementOf? row n).filter (!·.isBlank)

theorem shown_filterMap (l : List (List Char × Nat)) :
    shown (l.filterMap fun p => Source.statementOf? p.1 p.2) =
      l.filterMap fun p => shownOf? p.1 p.2 :=
  List.filter_filterMap ..

theorem shown_eq_codes (text : List Char) : shown (Source.read text).statements =
    (codes text).filterMap fun p => shownOf? p.1 p.2 := by
  have hcode : ∀ row n, shownOf? (lineCode row) n = shownOf? row n := fun row n => by
    rw [shownOf?, shownOf?, statementOf?_lineCode]
  exact (shown_filterMap _).trans (filterMap_zipIdx hcode (fun _ => rfl) 1 (Text.lines text))

theorem errors_eq_codes (text : List Char) : (Source.read text).errors =
    (codes text).filterMap fun p => Source.errorOf? p.1 p.2 :=
  filterMap_zipIdx errorOf?_lineCode (fun _ => rfl) 1 (Text.lines text)

/-! ## Other numbers -/

/-- The errors of lines name no other line. -/
theorem renumber_of_stage {problem : Problem} (h : problem.stage = 0) :
    problem.renumber f = problem := by
  cases problem with
  | duplicateLabel label firstLine => cases h
  | _ => rfl

theorem read_renumber (f : Nat → Nat) (line : List Char) (n : Nat) :
    Statement.read line (f n) =
      ((Statement.read line n).map (Statement.renumber f)).mapError (AssemblyError.renumber f) := by
  cases hread : readLine line with
  | ok r =>
    rw [Statement.read, Statement.read, hread]
    rfl
  | error problem =>
    have hproblem : problem.renumber f = problem :=
      renumber_of_stage (readingFails_line line problem hread)
    rw [Statement.read, Statement.read, hread]
    simp only [Except.map, Except.mapError, AssemblyError.renumber, hproblem]

theorem errorOf?_renumber (f : Nat → Nat) (line : List Char) (n : Nat) :
    Source.errorOf? line (f n) = (Source.errorOf? line n).map (AssemblyError.renumber f) := by
  rw [Source.errorOf?, Source.errorOf?, read_renumber]
  cases Statement.read line n <;> rfl

theorem statementOf?_renumber (f : Nat → Nat) (line : List Char) (n : Nat) :
    Source.statementOf? line (f n) = (Source.statementOf? line n).map (Statement.renumber f) := by
  rw [Source.statementOf?, Source.statementOf?, read_renumber]
  cases Statement.read line n with
  | ok s => rfl
  | error e =>
    simp only [Except.map, Except.mapError]
    split <;> rfl

theorem shownOf?_renumber (f : Nat → Nat) (line : List Char) (n : Nat) :
    shownOf? line (f n) = (shownOf? line n).map (Statement.renumber f) := by
  rw [shownOf?, shownOf?, statementOf?_renumber, Option.filter_map]
  rfl

/-- Sources that say the same on other lines have the same statements and errors. -/
theorem read_of_codes (h : codes text' = (codes text).map (Prod.map id f)) :
    Renumbers f (Source.read text).statements (Source.read text').statements ∧
      (Source.read text').errors = (Source.read text).errors.map (AssemblyError.renumber f) := by
  rw [Renumbers, shown_eq_codes, shown_eq_codes, errors_eq_codes, errors_eq_codes, h,
    List.filterMap_map, List.filterMap_map, List.map_filterMap, List.map_filterMap]
  exact ⟨List.filterMap_congr fun p _ => shownOf?_renumber f p.1 p.2,
    List.filterMap_congr fun p _ => errorOf?_renumber f p.1 p.2⟩

end DM2022.Assembly
