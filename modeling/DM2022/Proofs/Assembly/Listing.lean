import DM2022.Proofs.Assembly.Resolution
import DM2022.Proofs.Assembly.Writing

/-!
# Listings

A listing is a source. Reading it gives the statements again, without the blank ones and
without the names of label operands, which stand in comments.
-/
namespace DM2022.Assembly

/-! ## Rows -/

/-- The body with no mention of a label. -/
def Body.plain : Body → Body
  | .instruction i _ => .instruction i none
  | body => body

/-- What stands in the comment after a body. -/
def Body.comment : Body → List Char
  | .instruction _ (some ref) => ' ' :: '#' :: ref.name.toList
  | _ => []

/-- The line of a statement in a listing. -/
def Statement.row (s : Statement) : List Char :=
  ((if s.label.isSome then "" else "    ") ++ s.text).toList

/-- What stands before the body in a row. -/
def Statement.lead (s : Statement) : List Char :=
  match s.label with
  | none => [' ', ' ', ' ', ' ']
  | some name => name.toList ++ ':' :: if s.body = .empty then [] else [' ', ' ']

variable {body : Body} {s : Statement} {statements : List Statement}

theorem isBlank_iff : s.isBlank = true ↔ s.label = none ∧ s.body = .empty := by
  simp [Statement.isBlank]

theorem toList_text (body : Body) : body.text.toList = body.plain.text.toList ++ body.comment := by
  cases body with
  | instruction i ref => cases ref <;> simp [Body.text, Body.plain, Body.comment]
  | _ => simp [Body.plain, Body.comment]

theorem row_eq (s : Statement) :
    s.row = s.lead ++ s.body.plain.text.toList ++ s.body.comment := by
  have htext := toList_text s.body
  cases hlabel : s.label with
  | none => simp [Statement.row, Statement.text, Statement.lead, hlabel, htext]
  | some name =>
    by_cases hbody : s.body = .empty
    · simp [Statement.row, Statement.text, Statement.lead, hlabel, hbody, Body.text, Body.plain,
        Body.comment]
    · simp [Statement.row, Statement.text, Statement.lead, hlabel, hbody, htext]

theorem readBody_plain (h : body.Readable) (hne : body ≠ .empty) :
    (∃ word operands, Split body.plain.text.toList word operands) ∧
      readBody body.plain.text.toList = .ok body.plain := by
  cases body with
  | empty => exact absurd rfl hne
  | instruction i ref => exact ⟨⟨_, _, split_instruction h.1⟩, readBody_instruction h.1⟩
  | data values => exact ⟨⟨_, _, split_data h⟩, readBody_data h⟩
  | reserve count => exact ⟨⟨_, _, split_reserve count⟩, readBody_reserve h⟩

theorem trim_dropComment {code : List Char} (h : ∀ c ∈ code, Text.isCommentMark c = false)
    (body : Body) : Text.trim (Text.dropComment (code ++ body.comment)) = Text.trim code := by
  have hplain : Text.trim (Text.dropComment (code ++ [])) = Text.trim code := by
    rw [List.append_nil, Text.dropComment_of_unmarked h]
  cases body with
  | instruction i ref =>
    cases ref with
    | none => exact hplain
    | some ref =>
      have hspace : ∀ c ∈ code ++ [' '], Text.isCommentMark c = false :=
        List.forall_mem_append.2 ⟨h, by simp [Text.isCommentMark]⟩
      have hcomment : code ++ (Body.instruction i (some ref)).comment =
          code ++ [' '] ++ '#' :: ref.name.toList := by simp [Body.comment]
      rw [hcomment, Text.dropComment_append hspace rfl,
        Text.trim_append_blanks (List.all_eq_true.1 rfl)]
  | _ => exact hplain

theorem isLabel_visible {name : List Char} (h : isLabel name) :
    Text.Visible name ∧ name ≠ [] := by
  rw [isLabel, Bool.and_eq_true] at h
  cases name with
  | nil => cases h.1
  | cons c rest =>
    have hc := h.1
    simp only [isIdentifier, Bool.and_eq_true, Bool.or_eq_true, List.all_eq_true,
      beq_iff_eq] at hc
    refine ⟨Text.visible_cons.2 ⟨?_, fun d hd => ?_⟩, List.cons_ne_nil _ _⟩
    · rcases hc.1 with hc | rfl
      · exact Text.isVisible_of_isAlpha hc
      · decide
    · rcases hc.2 d hd with hd | rfl
      · rw [Char.isAlphanum, Bool.or_eq_true] at hd
        rcases hd with hd | hd
        · exact Text.isVisible_of_isAlpha hd
        · exact Text.isVisible_of_isDigit hd
      · decide

theorem Split.unmarked {code word operands : List Char} (h : Split code word operands) :
    (∀ c ∈ code, Text.isCommentMark c = false) ∧ ':' ∉ code := by
  refine ⟨fun c hc => ?_, fun hc => ?_⟩
  · rcases h.visible_or_space hc with hc | rfl
    · exact Text.isCommentMark_of_isVisible hc
    · decide
  · rcases h.visible_or_space hc with hc | hc
    · cases hc
    · cases hc

theorem splitLabel_name {name : String} (h : isLabel name.toList) (after : List Char) :
    splitLabel (name.toList ++ ':' :: after) = .ok (some name, Text.trim after) := by
  have hvisible := (isLabel_visible h).1
  rw [splitLabel, Text.cut?_append _ (Text.notMem_of_visible hvisible rfl)]
  simp only [Text.trim_of_visible hvisible]
  rw [if_pos h, String.ofList_toList]

/-- A line that is the text of a body, but for a comment and blanks, is read as the body. -/
theorem readLine_of_lineCode (h : body.Readable) (hne : body ≠ .empty) {line : List Char}
    (hcode : lineCode line = body.plain.text.toList) : readLine line = .ok (none, body.plain) := by
  obtain ⟨⟨word, operands, hsplit⟩, hread⟩ := readBody_plain h hne
  refine readLine_ok_iff.2 ⟨body.plain.text.toList, ?_, ?_⟩
  · rw [hcode, splitLabel, Text.cut?_eq_none_iff.2 hsplit.unmarked.2]
  · rw [if_neg hsplit.ne_nil, hread]

theorem readLine_unlabelled (h : s.Readable) (hlabel : s.label = none) (hbody : s.body ≠ .empty) :
    readLine s.row = .ok (none, s.body.plain) := by
  obtain ⟨⟨word, operands, hsplit⟩, -⟩ := readBody_plain h.body hbody
  have hrow : s.row = [' ', ' ', ' ', ' '] ++ s.body.plain.text.toList ++ s.body.comment := by
    rw [row_eq, Statement.lead, hlabel]
  have hspaces : ∀ c ∈ [' ', ' ', ' ', ' '], Text.isCommentMark c = false := by
    simp [Text.isCommentMark]
  have hcode : lineCode s.row = s.body.plain.text.toList := by
    rw [hrow, lineCode, trim_dropComment (List.forall_mem_append.2 ⟨hspaces, hsplit.unmarked.1⟩),
      Text.trim_blanks_append (List.all_eq_true.1 rfl), hsplit.trim_eq]
  exact readLine_of_lineCode h.body hbody hcode

theorem readLine_labelled {name : String} (h : s.Readable) (hlabel : s.label = some name)
    (hbody : s.body ≠ .empty) : readLine s.row = .ok (some name, s.body.plain) := by
  obtain ⟨⟨word, operands, hsplit⟩, hread⟩ := readBody_plain h.body hbody
  have hmarks := hsplit.unmarked.1
  have hname := h.label name hlabel
  obtain ⟨hvisible, hne⟩ := isLabel_visible hname
  have hrow : s.row =
      name.toList ++ [':', ' ', ' '] ++ s.body.plain.text.toList ++ s.body.comment := by
    simp [row_eq, Statement.lead, hlabel, hbody]
  have hnameMarks : ∀ c ∈ name.toList, Text.isCommentMark c = false :=
    fun c hc => Text.isCommentMark_of_isVisible (hvisible c hc)
  have hcode : lineCode s.row = name.toList ++ [':', ' ', ' '] ++ s.body.plain.text.toList := by
    rw [hrow, lineCode, trim_dropComment (List.forall_mem_append.2
      ⟨List.forall_mem_append.2 ⟨hnameMarks, by simp [Text.isCommentMark]⟩, hmarks⟩),
      hsplit.trim_append (Text.isBlank_of_visible hvisible) hne]
  refine readLine_ok_iff.2 ⟨s.body.plain.text.toList, ?_, ?_⟩
  · have hafter : Text.trim ([' ', ' '] ++ s.body.plain.text.toList) =
        s.body.plain.text.toList := by
      rw [Text.trim_blanks_append (List.all_eq_true.1 rfl), hsplit.trim_eq]
    have hsplitLabel := splitLabel_name hname ([' ', ' '] ++ s.body.plain.text.toList)
    rw [hafter] at hsplitLabel
    rw [hcode, List.append_assoc]
    exact hsplitLabel
  · rw [if_neg hsplit.ne_nil, hread]

theorem readLine_label {name : String} (h : s.Readable) (hlabel : s.label = some name)
    (hbody : s.body = .empty) : readLine s.row = .ok (some name, .empty) := by
  have hname := h.label name hlabel
  obtain ⟨hvisible, hne⟩ := isLabel_visible hname
  have hrow : s.row = name.toList ++ [] ++ [':'] := by
    simp [row_eq, Statement.lead, hlabel, hbody, Body.text, Body.plain, Body.comment]
  have hmarks : ∀ c ∈ name.toList ++ [] ++ [':'], Text.isCommentMark c = false := by
    rw [List.append_nil]
    exact List.forall_mem_append.2
      ⟨fun c hc => Text.isCommentMark_of_isVisible (hvisible c hc), by simp [Text.isCommentMark]⟩
  have hcolon : ∀ c ∈ [':'], Text.isBlank c = false := by simp [Text.isBlank]
  have hcode : lineCode s.row = name.toList ++ [] ++ [':'] := by
    rw [hrow, lineCode, Text.dropComment_of_unmarked hmarks,
      Text.trim_between (Text.isBlank_of_visible hvisible) hcolon hne (by simp)]
  refine readLine_ok_iff.2 ⟨[], ?_, ?_⟩
  · rw [hcode, List.append_nil]
    exact splitLabel_name hname []
  · rw [if_pos rfl]

/-- The row of a statement that is not blank is read back. -/
theorem readLine_row (h : s.Readable) (hblank : s.isBlank = false) :
    readLine s.row = .ok (s.label, s.body.plain) := by
  cases hlabel : s.label with
  | none =>
    have hbody : s.body ≠ .empty := fun hbody =>
      ne_true_of_eq_false hblank (isBlank_iff.2 ⟨hlabel, hbody⟩)
    exact readLine_unlabelled h hlabel hbody
  | some name =>
    by_cases hbody : s.body = .empty
    · rw [hbody]
      exact readLine_label h hlabel hbody
    · exact readLine_labelled h hlabel hbody

/-! ## Lines -/

theorem plain_text_inline (h : body.Readable) : Text.Inline body.plain.text.toList := by
  intro c hc
  by_cases hbody : body = .empty
  · rw [hbody] at hc
    cases hc
  · obtain ⟨⟨word, operands, hsplit⟩, -⟩ := readBody_plain h hbody
    rcases hsplit.visible_or_space hc with hc | rfl
    · exact ⟨Text.ne_of_isVisible hc rfl, Text.ne_of_isVisible hc rfl⟩
    · decide

theorem name_inline {name : String} (h : isLabel name.toList) : Text.Inline name.toList :=
  Text.inline_of_visible (isLabel_visible h).1

/-- A row is one line. -/
theorem row_inline (h : s.Readable) : Text.Inline s.row := by
  have hlead : Text.Inline s.lead := by
    cases hlabel : s.label with
    | none => simp [Statement.lead, hlabel, Text.Inline]
    | some name =>
      rw [Statement.lead, hlabel]
      refine Text.inline_append.2 ⟨name_inline (h.label name hlabel), ?_⟩
      split <;> simp [Text.Inline]
  have hcomment : Text.Inline s.body.comment := by
    have hbody := h.body
    generalize s.body = body at hbody
    cases body with
    | instruction i ref =>
      cases ref with
      | none => simp [Body.comment, Text.Inline]
      | some ref =>
        refine Text.inline_cons.2 ⟨by simp, Text.inline_cons.2 ⟨by simp, ?_⟩⟩
        exact name_inline (hbody.2 ref rfl)
    | _ => simp [Body.comment, Text.Inline]
  rw [row_eq]
  exact Text.inline_append.2 ⟨Text.inline_append.2 ⟨hlead, plain_text_inline h.body⟩, hcomment⟩

/-- The statements that a listing shows. -/
def shown (statements : List Statement) : List Statement := statements.filter (!·.isBlank)

theorem shown_cons (s : Statement) (statements : List Statement) :
    shown (s :: statements) = if s.isBlank then shown statements else s :: shown statements := by
  cases hblank : s.isBlank <;> simp [shown, hblank]

theorem toList_listing (statements : List Statement) : (listing statements).toList =
    ((shown statements).map Statement.row).flatMap (· ++ ['\n']) := by
  simp [listing, shown, String.toList_join, List.flatMap_map, Statement.row]

theorem lines_listing (h : ∀ s ∈ statements, s.Readable) :
    Text.lines (listing statements).toList = (shown statements).map Statement.row := by
  rw [toList_listing]
  apply Text.lines_flatMap
  intro row hrow
  obtain ⟨s, hs, rfl⟩ := List.mem_map.1 hrow
  exact row_inline (h s (List.mem_filter.1 hs).1)

/-- The statement of a row of a listing. -/
def Statement.relist (s : Statement) (line : Nat) : Statement := ⟨line, s.label, s.body.plain⟩

/-- The statements of a listing: those that it shows, with plain bodies and their lines. -/
def relisted (statements : List Statement) : List Statement :=
  ((shown statements).zipIdx 1).map fun p => p.1.relist p.2

/-- Reading a listing gives its statements. -/
theorem read_listing (h : ∀ s ∈ statements, s.Readable) :
    Source.read (listing statements).toList = ⟨relisted statements, []⟩ := by
  rw [source_read_iff, Source.numberedLines, lines_listing h, List.zipIdx_map, List.map_map,
    relisted, List.map_map]
  refine List.map_congr_left fun p hp => ?_
  have hshown : p.1 ∈ shown statements := List.fst_mem_of_mem_zipIdx hp
  obtain ⟨hmem, hblank⟩ := List.mem_filter.1 hshown
  have hread := readLine_row (h p.1 hmem) (by simpa using hblank)
  exact statement_read_ok_iff.2 ⟨rfl, hread⟩

end DM2022.Assembly
