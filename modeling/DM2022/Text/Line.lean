/-!
# Lines and pieces of a text

A line ends at a line feed, which may follow a carriage return; the last line needs
no end. Pieces are what stands between separators.
-/
namespace DM2022.Text

/-- Puts a character at the start of the first piece. -/
def consHead (c : Char) : List (List Char) → List (List Char)
  | [] => [[c]]
  | piece :: others => (c :: piece) :: others

/-- The lines of a text without their ends. -/
def lines : List Char → List (List Char)
  | [] => []
  | '\n' :: rest => [] :: lines rest
  | '\r' :: '\n' :: rest => [] :: lines rest
  | c :: rest => consHead c (lines rest)

/-- What stands before and after the first `sep`. -/
def cut? (sep : Char) : List Char → Option (List Char × List Char)
  | [] => none
  | c :: rest => if c = sep then some ([], rest)
      else (cut? sep rest).map fun (before, after) => (c :: before, after)

/-- What stands between the separators: one piece more than there are separators. -/
def pieces (sep : Char) : List Char → List (List Char)
  | [] => [[]]
  | c :: rest => if c = sep then [] :: pieces sep rest else consHead c (pieces sep rest)

/-- A comment runs from `#` or `;` to the end of its line. -/
def isCommentMark (c : Char) : Bool := c == '#' || c == ';'

def dropComment (line : List Char) : List Char := line.takeWhile (!isCommentMark ·)

/-- ASCII letters become capitals. -/
def upper (text : List Char) : List Char := text.map Char.toUpper

/-- ASCII capitals become small letters. -/
def lower (text : List Char) : List Char := text.map Char.toLower

theorem lines_cons_of_ne {c : Char} {rest : List Char} (hf : c ≠ '\n') (hr : c ≠ '\r') :
    lines (c :: rest) = consHead c (lines rest) := by
  rw [lines]
  · exact hf
  · exact fun _ h => absurd h hr

/-- A line feed ends the line before it. -/
theorem lines_append {line : List Char} (rest : List Char)
    (h : ∀ c ∈ line, c ≠ '\n' ∧ c ≠ '\r') :
    lines (line ++ '\n' :: rest) = line :: lines rest := by
  induction line with
  | nil => rfl
  | cons c line ih =>
    obtain ⟨⟨hf, hr⟩, h⟩ := List.forall_mem_cons.1 h
    rw [List.cons_append, lines_cons_of_ne hf hr, ih h, consHead]

theorem cut?_eq_none_iff {sep : Char} {text : List Char} :
    cut? sep text = none ↔ sep ∉ text := by
  induction text with
  | nil => simp [cut?]
  | cons c rest ih =>
    by_cases h : c = sep
    · simp [cut?, h]
    · simp [cut?, h, ih, Ne.symm h]

theorem cut?_append {sep : Char} {before : List Char} (after : List Char) (h : sep ∉ before) :
    cut? sep (before ++ sep :: after) = some (before, after) := by
  induction before with
  | nil => simp [cut?]
  | cons c rest ih =>
    rw [List.mem_cons, not_or] at h
    simp [cut?, Ne.symm h.1, ih h.2]

theorem cut?_eq_some_iff {sep : Char} {text before after : List Char} :
    cut? sep text = some (before, after) ↔ text = before ++ sep :: after ∧ sep ∉ before := by
  constructor
  · intro h
    induction text generalizing before with
    | nil => cases h
    | cons c rest ih =>
      rw [cut?] at h
      split at h
      · next hc =>
        cases h
        exact ⟨by rw [hc, List.nil_append], List.not_mem_nil⟩
      · next hc =>
        obtain ⟨⟨start, tail⟩, hcut, h⟩ := Option.map_eq_some_iff.1 h
        cases h
        obtain ⟨rfl, hstart⟩ := ih hcut
        exact ⟨rfl, List.not_mem_cons_of_ne_of_not_mem (Ne.symm hc) hstart⟩
  · intro h
    obtain ⟨rfl, hsep⟩ := h
    exact cut?_append after hsep

theorem pieces_ne_nil (sep : Char) (text : List Char) : pieces sep text ≠ [] := by
  cases text with
  | nil => exact List.cons_ne_nil _ _
  | cons c rest =>
    rw [pieces]
    split
    · exact List.cons_ne_nil _ _
    · cases pieces sep rest <;> exact List.cons_ne_nil _ _

theorem pieces_of_notMem {sep : Char} {text : List Char} (h : sep ∉ text) :
    pieces sep text = [text] := by
  induction text with
  | nil => rfl
  | cons c rest ih =>
    rw [List.mem_cons, not_or] at h
    simp [pieces, Ne.symm h.1, ih h.2, consHead]

theorem pieces_append {sep : Char} {before : List Char} (after : List Char)
    (h : sep ∉ before) : pieces sep (before ++ sep :: after) = before :: pieces sep after := by
  induction before with
  | nil => simp [pieces]
  | cons c rest ih =>
    rw [List.mem_cons, not_or] at h
    simp [pieces, Ne.symm h.1, ih h.2, consHead]

end DM2022.Text
