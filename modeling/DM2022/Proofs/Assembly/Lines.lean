import DM2022.Proofs.Assembly.Reading

/-!
# Lines and their statements

A line gives its statement, or an error and the label that stands before its first colon.
The statements and the errors of a source are those of its lines, in the order of the lines.
-/
namespace DM2022.Assembly

variable {text line : List Char} {number : Nat} {s : Statement} {e : AssemblyError}

/-- What stands before the first colon of the line is this label. -/
def Labelled (line : List Char) (name : String) : Prop :=
  isLabel name.toList ∧ ∃ before after, Text.cut? ':' (lineCode line) = some (before, after) ∧
    Text.trim before = name.toList

/-- The statement that a line gives: the one that it says, or for a line in error an empty one
with the label of the line. -/
inductive Keeps (line : List Char) (number : Nat) (s : Statement) : Prop
  | said (read : Statement.read line number = .ok s)
  | label {name : String} {e : AssemblyError} (read : Statement.read line number = .error e)
      (labelled : Labelled line name) (eq : s = ⟨number, some name, .empty⟩)

theorem splitLabel_ok_some_iff {code : List Char} {name : String} :
    (∃ rest, splitLabel code = .ok (some name, rest)) ↔ isLabel name.toList ∧ ∃ before after,
      Text.cut? ':' code = some (before, after) ∧ Text.trim before = name.toList := by
  rw [splitLabel]
  cases hcut : Text.cut? ':' code with
  | none => simp
  | some parts =>
    obtain ⟨before, after⟩ := parts
    simp only [Option.some.injEq, Prod.mk.injEq]
    constructor
    · intro h
      obtain ⟨rest, h⟩ := h
      split at h
      · next hlabel =>
        cases h
        rw [String.toList_ofList]
        exact ⟨hlabel, before, after, ⟨rfl, rfl⟩, rfl⟩
      · cases h
    · intro h
      obtain ⟨hlabel, _, _, ⟨rfl, rfl⟩, hname⟩ := h
      rw [hname, if_pos hlabel, String.ofList_toList]
      exact ⟨_, rfl⟩

theorem statementOf?_eq_some_iff :
    Source.statementOf? line number = some s ↔ Keeps line number s := by
  rw [Source.statementOf?]
  cases hread : Statement.read line number with
  | ok found =>
    simp only [Option.some.injEq]
    constructor
    · intro h
      subst h
      exact .said hread
    · intro h
      cases h with
      | said read => cases hread.symm.trans read; rfl
      | label read => cases hread.symm.trans read
  | error e =>
    simp only
    constructor
    · intro h
      split at h
      · next name rest hsplit =>
        cases h
        exact .label hread (splitLabel_ok_some_iff.1 ⟨rest, hsplit⟩) rfl
      · cases h
    · intro h
      cases h with
      | said read => cases hread.symm.trans read
      | label _ labelled eq =>
        obtain ⟨rest, hsplit⟩ := splitLabel_ok_some_iff.2 labelled
        rw [hsplit, eq]

theorem errorOf?_eq_some_iff :
    Source.errorOf? line number = some e ↔ Statement.read line number = .error e := by
  rw [Source.errorOf?]
  cases Statement.read line number <;> simp [failure?]

theorem line_of_read_error (h : Statement.read line number = .error e) : e.line = number := by
  rw [Statement.read] at h
  split at h
  · cases h
  · cases h
    rfl

theorem Keeps.line_eq (h : Keeps line number s) : s.line = number := by
  cases h with
  | said read => exact (statement_read_ok_iff.1 read).1
  | label _ _ eq => rw [eq]

theorem mem_numberedLines_iff {p : List Char × Nat} : p ∈ Source.numberedLines text ↔
    ∃ k, (Text.lines text)[k]? = some p.1 ∧ p.2 = k + 1 := by
  rw [Source.numberedLines, List.mem_iff_getElem?]
  simp only [List.getElem?_zipIdx, Option.map_eq_some_iff, Prod.ext_iff]
  constructor
  · intro h
    obtain ⟨k, _, hk, rfl, hp⟩ := h
    exact ⟨k, hk, by omega⟩
  · intro h
    obtain ⟨k, hk, hp⟩ := h
    exact ⟨k, p.1, hk, rfl, by omega⟩

theorem mem_statements_iff : s ∈ (Source.read text).statements ↔
    ∃ k line, (Text.lines text)[k]? = some line ∧ Keeps line (k + 1) s := by
  rw [Source.read, List.mem_filterMap]
  simp only [mem_numberedLines_iff, statementOf?_eq_some_iff]
  constructor
  · intro h
    obtain ⟨⟨line, _⟩, ⟨k, hk, rfl⟩, hkeeps⟩ := h
    exact ⟨k, line, hk, hkeeps⟩
  · intro h
    obtain ⟨k, line, hk, hkeeps⟩ := h
    exact ⟨(line, k + 1), ⟨k, hk, rfl⟩, hkeeps⟩

theorem mem_errors_iff : e ∈ (Source.read text).errors ↔
    ∃ k line, (Text.lines text)[k]? = some line ∧ Statement.read line (k + 1) = .error e := by
  rw [Source.read, List.mem_filterMap]
  simp only [mem_numberedLines_iff, errorOf?_eq_some_iff]
  constructor
  · intro h
    obtain ⟨⟨line, _⟩, ⟨k, hk, rfl⟩, hread⟩ := h
    exact ⟨k, line, hk, hread⟩
  · intro h
    obtain ⟨k, line, hk, hread⟩ := h
    exact ⟨(line, k + 1), ⟨k, hk, rfl⟩, hread⟩

theorem pairwise_numberedLines (text : List Char) :
    (Source.numberedLines text).Pairwise fun p q => p.2 < q.2 := by
  have hnumbers : ((Source.numberedLines text).map Prod.snd).Pairwise (· < ·) := by
    rw [Source.numberedLines, List.zipIdx_map_snd]
    exact List.pairwise_lt_range'
  exact List.pairwise_map.1 hnumbers

/-- The statements stand in the order of their lines, at most one for a line. -/
theorem pairwise_statements (text : List Char) :
    (Source.read text).statements.Pairwise fun s t => s.line < t.line := by
  rw [Source.read, List.pairwise_filterMap]
  refine (pairwise_numberedLines text).imp fun {p q} hpq s hs t ht => ?_
  rw [(statementOf?_eq_some_iff.1 hs).line_eq, (statementOf?_eq_some_iff.1 ht).line_eq]
  exact hpq

/-- The errors stand in the order of their lines, at most one for a line. -/
theorem pairwise_errors (text : List Char) :
    (Source.read text).errors.Pairwise fun d e => d.line < e.line := by
  rw [Source.read, List.pairwise_filterMap]
  refine (pairwise_numberedLines text).imp fun {p q} hpq d hd e he => ?_
  rw [line_of_read_error (errorOf?_eq_some_iff.1 hd),
    line_of_read_error (errorOf?_eq_some_iff.1 he)]
  exact hpq

end DM2022.Assembly
