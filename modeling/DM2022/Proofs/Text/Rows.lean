import Mathlib.Data.List.DropRight
import DM2022.Proofs.Text.Visible

/-!
# Rows

The rows of a text are what stands between its line feeds. A line is a row without the carriage
return at its end, and no line comes from an empty last row. Some text is idle: it says nothing
where it stands alone in a row or at the end of one.
-/
namespace DM2022.Text

variable {text line tail : List Char}

/-! ## Lines and rows -/

/-- The row without one carriage return at its end. -/
def dropReturn : List Char → List Char
  | [] => []
  | ['\r'] => []
  | c :: rest => c :: dropReturn rest

/-- The lines of the rows. -/
def linesOf : List (List Char) → List (List Char)
  | [] => []
  | [last] => if last = [] then [] else [last]
  | row :: rest => dropReturn row :: linesOf rest

theorem linesOf_cons {row : List Char} {rest : List (List Char)} (h : rest ≠ []) :
    linesOf (row :: rest) = dropReturn row :: linesOf rest := by
  cases rest with
  | nil => exact absurd rfl h
  | cons next rest => rfl

theorem dropReturn_cons {c : Char} {row : List Char} (h : c = '\r' → row ≠ []) :
    dropReturn (c :: row) = c :: dropReturn row := by
  rw [dropReturn]
  rintro rfl rfl
  exact h rfl rfl

theorem dropReturn_eq_or (row : List Char) :
    dropReturn row = row ∨ row = dropReturn row ++ ['\r'] := by
  induction row with
  | nil => exact .inl rfl
  | cons c rest ih =>
    by_cases h : c = '\r' ∧ rest = []
    · obtain ⟨rfl, rfl⟩ := h
      exact .inr rfl
    · rw [dropReturn_cons fun hc hrest => h ⟨hc, hrest⟩]
      exact ih.imp (congrArg _) (congrArg _)

theorem exists_consHead (c : Char) (rows : List (List Char)) :
    ∃ row rest, consHead c rows = (c :: row) :: rest := by
  cases rows with
  | nil => exact ⟨_, _, rfl⟩
  | cons row rest => exact ⟨_, _, rfl⟩

/-- A character at the start of the first row stands at the start of the first line, unless it
is a carriage return that has become the end of that line. -/
theorem linesOf_consHead {c : Char} {row : List Char} {rest : List (List Char)}
    (h : c = '\r' → row = [] → rest = []) :
    linesOf (consHead c (row :: rest)) = consHead c (linesOf (row :: rest)) := by
  rw [consHead]
  cases rest with
  | nil => cases row <;> rfl
  | cons next rest =>
    have hrow : c = '\r' → row ≠ [] := fun hc hnil => List.cons_ne_nil _ _ (h hc hnil)
    rw [linesOf_cons (List.cons_ne_nil _ _), linesOf_cons (List.cons_ne_nil _ _),
      dropReturn_cons hrow, consHead]

/-- The induction is on the text, where a line feed may come after a carriage return. -/
theorem lines_eq_linesOf (text : List Char) : lines text = linesOf (pieces '\n' text) := by
  induction text using lines.induct with
  | case1 => rfl
  | case2 rest ih =>
    rw [lines, ih, pieces, if_pos rfl, linesOf_cons (pieces_ne_nil _ _), dropReturn]
  | case3 rest ih =>
    rw [lines, ih, pieces, if_neg (by decide), pieces, if_pos rfl, consHead,
      linesOf_cons (pieces_ne_nil _ _), dropReturn]
  | case4 c rest hf hr ih =>
    obtain ⟨row, more, hrows⟩ := List.exists_cons_of_ne_nil (pieces_ne_nil '\n' rest)
    have hreturn : c = '\r' → row = [] → more = [] := by
      rintro hc rfl
      cases rest with
      | nil =>
        cases hrows
        rfl
      | cons d rest =>
        rw [pieces] at hrows
        split at hrows
        · next hd => exact absurd (congrArg (· :: rest) hd) (hr rest hc)
        · obtain ⟨first, others, hhead⟩ := exists_consHead d (pieces '\n' rest)
          cases hhead.symm.trans hrows
    have hlines : lines (c :: rest) = consHead c (lines rest) := by
      rw [lines]
      · exact hf
      · exact hr
    rw [hlines, ih, pieces, if_neg hf, hrows, linesOf_consHead hreturn]

/-! ## Idle text -/

/-- Blanks, and perhaps a comment after them. -/
inductive Idle : List Char → Prop
  | blank {blanks : List Char} (h : ∀ c ∈ blanks, isBlank c = true) : Idle blanks
  | comment {blanks : List Char} {mark : Char} (h : ∀ c ∈ blanks, isBlank c = true)
      (hmark : isCommentMark mark = true) (rest : List Char) : Idle (blanks ++ mark :: rest)

theorem isCommentMark_of_isBlank {c : Char} (h : isBlank c = true) : isCommentMark c = false := by
  cases hmark : isCommentMark c with
  | false => rfl
  | true =>
    rw [isCommentMark, Bool.or_eq_true, beq_iff_eq, beq_iff_eq] at hmark
    rcases hmark with rfl | rfl
    · cases h
    · cases h

theorem unmarked_of_blank {blanks : List Char} (h : ∀ c ∈ blanks, isBlank c = true) :
    ∀ c ∈ blanks, isCommentMark c = false :=
  fun c hc => isCommentMark_of_isBlank (h c hc)

/-- Idle text is blank before its comment. -/
theorem Idle.dropComment_blank (h : Idle text) : ∀ c ∈ dropComment text, isBlank c = true := by
  cases h with
  | blank h =>
    rw [dropComment_of_unmarked (unmarked_of_blank h)]
    exact h
  | comment h hmark rest =>
    rw [dropComment_append (unmarked_of_blank h) hmark]
    exact h

theorem dropComment_append_of_unmarked (h : ∀ c ∈ line, isCommentMark c = false) :
    dropComment (line ++ tail) = line ++ dropComment tail := by
  rw [dropComment, dropComment, List.takeWhile_append_of_pos]
  intro c hc
  rw [h c hc]
  rfl

/-- What comes after a comment mark belongs to the comment. -/
theorem dropComment_append_of_marked (h : ¬∀ c ∈ line, isCommentMark c = false)
    (tail : List Char) : dropComment (line ++ tail) = dropComment line := by
  induction line with
  | nil => exact absurd (fun _ hc => by cases hc) h
  | cons c line ih =>
    rw [dropComment, dropComment, List.cons_append, List.takeWhile_cons, List.takeWhile_cons]
    cases hmark : isCommentMark c with
    | true => rfl
    | false =>
      have hline : ¬∀ c ∈ line, isCommentMark c = false :=
        fun hline => h (List.forall_mem_cons.2 ⟨hmark, hline⟩)
      exact congrArg (c :: ·) (ih hline)

theorem trim_dropComment_append (h : Idle tail) (line : List Char) :
    trim (dropComment (line ++ tail)) = trim (dropComment line) := by
  by_cases hmarks : ∀ c ∈ line, isCommentMark c = false
  · rw [dropComment_append_of_unmarked hmarks, trim_append_blanks h.dropComment_blank,
      dropComment_of_unmarked hmarks]
  · rw [dropComment_append_of_marked hmarks]

/-! ## Trimmed text -/

theorem mem_of_mem_trim {c : Char} (h : c ∈ trim text) : c ∈ text := by
  rw [trim, trimRight, List.mem_reverse] at h
  have hleft := (List.dropWhile_sublist _).subset h
  exact (List.dropWhile_sublist _).subset (List.mem_reverse.1 hleft)

theorem trim_trim (text : List Char) : trim (trim text) = trim text := by
  have hright : trim text = (trimLeft text).rdropWhile isBlank := rfl
  have hleft : trimLeft (trim text) = trim text := by
    refine List.dropWhile_eq_self_iff.2 fun hlength => ?_
    have hstart : trim text <+: trimLeft text := List.rdropWhile_prefix _ _
    rw [hstart.getElem hlength]
    exact List.dropWhile_get_zero_not isBlank text (hlength.trans_le hstart.length_le)
  calc trim (trim text)
      = (trim text).rdropWhile isBlank := congrArg (List.rdropWhile isBlank) hleft
    _ = trim text := by rw [hright, List.rdropWhile_idempotent]

/-- The last character of a trimmed text is not blank. -/
theorem exists_trim_eq_concat (h : trim text ≠ []) :
    ∃ start c, trim text = start ++ [c] ∧ isBlank c = false := by
  have hlast : ¬isBlank ((trim text).getLast h) = true :=
    List.rdropWhile_last_not isBlank (trimLeft text) h
  exact ⟨_, _, (List.dropLast_append_getLast h).symm, Bool.eq_false_iff.2 hlast⟩

/-- A trimmed text has lost blanks only. -/
theorem exists_trim_eq (text : List Char) : ∃ before after, text = before ++ trim text ++ after ∧
    (∀ c ∈ before, isBlank c = true) ∧ ∀ c ∈ after, isBlank c = true := by
  have hleft : text = text.takeWhile isBlank ++ trimLeft text :=
    List.takeWhile_append_dropWhile.symm
  have hright : trimLeft text = trim text ++ (trimLeft text).rtakeWhile isBlank := by
    have hreverse := List.takeWhile_append_dropWhile (p := isBlank) (l := (trimLeft text).reverse)
    have hback := congrArg List.reverse hreverse
    rw [List.reverse_append, List.reverse_reverse] at hback
    exact hback.symm
  refine ⟨text.takeWhile isBlank, (trimLeft text).rtakeWhile isBlank, ?_, ?_, ?_⟩
  · rw [List.append_assoc, ← hright, ← hleft]
  · exact fun c hc => List.mem_takeWhile_imp hc
  · exact fun c hc => List.mem_rtakeWhile_imp hc

theorem squeeze_of_blank (h : ∀ c ∈ text, isBlank c = true) : squeeze text = [] := by
  rw [squeeze, List.filter_eq_nil_iff]
  intro c hc
  rw [h c hc]
  decide

theorem isBlank_of_mem_squeeze {c : Char} (h : c ∈ squeeze text) : isBlank c = false := by
  simpa using (List.mem_filter.1 h).2

theorem squeeze_append (text text' : List Char) :
    squeeze (text ++ text') = squeeze text ++ squeeze text' :=
  List.filter_append ..

theorem squeeze_trim (text : List Char) : squeeze (trim text) = squeeze text := by
  obtain ⟨before, after, htext, hbefore, hafter⟩ := exists_trim_eq text
  have hsqueeze := congrArg squeeze htext
  rw [squeeze_append, squeeze_append, squeeze_of_blank hbefore, squeeze_of_blank hafter,
    List.nil_append, List.append_nil] at hsqueeze
  exact hsqueeze.symm

end DM2022.Text
