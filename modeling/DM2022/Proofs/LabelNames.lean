import DM2022.Proofs.Assembly.Grammar

/-!
# Names of labels

Labels and registers share one alphabet, but no name is both. The names that a line can define as
its label are just those that an operand can refer to, relative to its instruction or not, and all
keep their case.
-/
namespace DM2022.Assembly

variable {line name : List Char} {number : Nat} {s : Statement} {ref : LabelRef}

/-- No blank stands in the text, no mark of a comment, a label or an address, and no comma. -/
def Unbroken (text : List Char) : Prop := ∀ c ∈ text, Text.isBlank c = false ∧ c ∉ "#;:,@".toList

instance (text : List Char) : Decidable (Unbroken text) :=
  decidable_of_iff (text.all (fun c => !Text.isBlank c && decide (c ∉ "#;:,@".toList)) = true)
    (by simp [Unbroken])

/-- The line `name:`. -/
def definitionLine (name : List Char) : List Char := name ++ [':']

/-- The line `JUMP name`. -/
def jumpLine (name : List Char) : List Char := "JUMP".toList ++ ' ' :: name

/-- The line `LOAD r1,@name`. -/
def loadLine (name : List Char) : List Char := "LOAD".toList ++ ' ' :: ("r1,@".toList ++ name)

/-- The line defines the label and says nothing else. -/
def Defines (line name : List Char) : Prop :=
  ∀ number, Statement.read line number = .ok ⟨number, some (String.ofList name), .empty⟩

/-- The line says the instruction, with an operand that refers to the label. -/
def Refers (line : List Char) (instr : Instruction) (mode : Addressing) (name : List Char) : Prop :=
  ∀ number, Statement.read line number =
    .ok ⟨number, none, .instruction instr (some ⟨String.ofList name, mode, none⟩)⟩

/-! ## Unbroken text -/

theorem Unbroken.not_blank (h : Unbroken name) : ∀ c ∈ name, Text.isBlank c = false :=
  fun c hc => (h c hc).1

theorem Unbroken.notMem (h : Unbroken name) {c : Char} (hc : c ∈ "#;:,@".toList) : c ∉ name :=
  fun hmem => (h c hmem).2 hc

theorem Unbroken.unmarked (h : Unbroken name) : ∀ c ∈ name, Text.isCommentMark c = false :=
  Text.unmarked_of_notMem (h.notMem (by decide)) (h.notMem (by decide))

/-! ## Labels -/

/-- A label has the form of an identifier and is not found among the registers. -/
theorem labelName_iff : LabelName name ↔
    (∃ c rest, name = c :: rest ∧ (c.isAlpha ∨ c = '_') ∧ ∀ d ∈ rest, d.isAlphanum ∨ d = '_') ∧
      ∃ e, lookupRegister name = .error e := by
  have hregister : (∃ e, lookupRegister name = .error e) ↔ ∀ reg, ¬Register.Named name reg := by
    simp only [← lookupRegister_ok_iff]
    cases lookupRegister name <;> simp
  rw [hregister]
  exact ⟨fun h => ⟨h.identifier, h.ne_register⟩, fun h => ⟨h.1, h.2⟩⟩

theorem splitLabel_definitionLine (h : Unbroken name) : splitLabel (definitionLine name) =
    if isLabel name then .ok (some (String.ofList name), [])
    else .error (.invalidLabel (String.ofList name)) := by
  rw [definitionLine, splitLabel, Text.cut?_append [] (h.notMem (by decide))]
  simp only [Text.trim_of_not_blank h.not_blank]
  rfl

/-- A line that ends with its only colon is read if a label stands before the colon. -/
theorem read_definitionLine_ok_iff (h : Unbroken name) :
    Statement.read (definitionLine name) number = .ok s ↔
      LabelName name ∧ s = ⟨number, some (String.ofList name), .empty⟩ := by
  have hunmarked : ∀ c ∈ definitionLine name, Text.isCommentMark c = false :=
    List.forall_mem_append.2 ⟨h.unmarked, List.forall_mem_singleton.2 rfl⟩
  have hvisible : ∀ c ∈ definitionLine name, Text.isBlank c = false :=
    List.forall_mem_append.2 ⟨h.not_blank, List.forall_mem_singleton.2 rfl⟩
  have hcode : lineCode (definitionLine name) = definitionLine name := by
    rw [lineCode, Text.dropComment_of_unmarked hunmarked, Text.trim_of_not_blank hvisible]
  obtain ⟨line, label, body⟩ := s
  rw [statement_read_ok_iff, readLine_ok_iff, hcode, splitLabel_definitionLine h, ← isLabel_iff]
  constructor
  · rintro ⟨rfl, code, hsplit, hbody⟩
    split at hsplit
    · next hlabel =>
      cases hsplit
      cases hbody
      exact ⟨hlabel, rfl⟩
    · cases hsplit
  · rintro ⟨hlabel, heq⟩
    cases heq
    exact ⟨rfl, [], if_pos hlabel, rfl⟩

/-! ## Operands -/

/-- The statements of a line with an operation: one for each form that its operands have. -/
theorem read_operation_ok_iff {word operands : List Char} {op : Opcode} {cond : Flags}
    (hoperation : Operation word op cond) (hword : Text.Visible word) (hne : word ≠ [])
    (hunmarked : ∀ c ∈ operands, Text.isCommentMark c = false) (hcolon : ':' ∉ operands) :
    Statement.read (word ++ ' ' :: operands) number = .ok s ↔
      ∃ body, OperandForm op cond (splitOperands (Text.trim operands)) body ∧
        s = ⟨number, none, body⟩ := by
  have hfirst := firstWord_trim hword hne (rfl : Text.isBlank ' ' = true) operands
  rw [Statement.read_headed_ok_iff (headed_spaced hword hunmarked hcolon) (hfirst.ne_nil hne)]
  simp only [readBody_of_operation hfirst hoperation, readOperands_ok_iff]

theorem readLabelRef_relative_iff (h : '@' ∉ name) :
    readLabelRef name = .ok ref ↔ LabelName name ∧ ref = ⟨String.ofList name, .relative, none⟩ := by
  have hne : ∀ rest, name ≠ '@' :: rest := by
    rintro rest rfl
    exact h List.mem_cons_self
  rw [← isLabel_iff, readLabelRef_of_ne hne]
  split <;> simp [*, eq_comm]

theorem readLabelRef_absolute_iff : readLabelRef ('@' :: name) = .ok ref ↔
    LabelName name ∧ ref = ⟨String.ofList name, .absolute, none⟩ := by
  rw [← isLabel_iff, readLabelRef_at]
  split <;> simp [*, eq_comm]

/-- A jump is read if its operand is a label; without an operand it is none. -/
theorem read_jumpLine_ok_iff (h : Unbroken name) : Statement.read (jumpLine name) number = .ok s ↔
    LabelName name ∧ s = ⟨number, none, .instruction (jumpTo .always .relative)
      (some ⟨String.ofList name, .relative, none⟩)⟩ := by
  have hoperation : Operation "JUMP".toList .jump .always := .plain ⟨by decide, by decide⟩
  have hword : Text.Visible "JUMP".toList := by decide
  have hword' : "JUMP".toList ≠ [] := by decide
  have hcolon : ':' ∉ name := h.notMem (by decide)
  have hcomma : ',' ∉ name := h.notMem (by decide)
  have hat : '@' ∉ name := h.notMem (by decide)
  unfold jumpLine
  rw [read_operation_ok_iff hoperation hword hword' h.unmarked hcolon,
    Text.trim_of_not_blank h.not_blank, splitOperands, Text.squeeze_of_not_blank h.not_blank,
    Text.pieces_of_notMem hcomma]
  constructor
  · rintro ⟨body, hform, rfl⟩
    by_cases hnil : name = []
    · rw [if_pos hnil] at hform
      cases hform with
      | halt hop => cases hop
    · rw [if_neg hnil] at hform
      cases hform with
      | jump _ hread =>
        obtain ⟨hname, rfl⟩ := (readLabelRef_relative_iff hat).1 hread
        exact ⟨hname, rfl⟩
  · rintro ⟨hname, rfl⟩
    have hne : name ≠ [] := by
      obtain ⟨c, rest, rfl, -⟩ := hname.identifier
      exact List.cons_ne_nil c rest
    rw [if_neg hne]
    exact ⟨_, .jump rfl ((readLabelRef_relative_iff hat).2 ⟨hname, rfl⟩), rfl⟩

/-- A load from an address is read if the name of the address is a label. -/
theorem read_loadLine_ok_iff (h : Unbroken name) : Statement.read (loadLine name) number = .ok s ↔
    LabelName name ∧ s = ⟨number, none, .instruction ⟨.load, .always, 1, 0, 0, 0⟩
      (some ⟨String.ofList name, .absolute, none⟩)⟩ := by
  have hoperation : Operation "LOAD".toList .load .always := .plain ⟨by decide, by decide⟩
  have hword : Text.Visible "LOAD".toList := by decide
  have hword' : "LOAD".toList ≠ [] := by decide
  have hvisible : Text.Visible "r1,@".toList := by decide
  have hunmarked : ∀ c ∈ "r1,@".toList ++ name, Text.isCommentMark c = false :=
    List.forall_mem_append.2
      ⟨fun c hc => Text.isCommentMark_of_isVisible (hvisible c hc), h.unmarked⟩
  have hcolon : ':' ∉ "r1,@".toList ++ name := by
    rw [List.mem_append, not_or]
    exact ⟨Text.notMem_of_visible hvisible rfl, h.notMem (by decide)⟩
  have hblank : ∀ c ∈ "r1,@".toList ++ name, Text.isBlank c = false :=
    List.forall_mem_append.2 ⟨Text.isBlank_of_visible hvisible, h.not_blank⟩
  have hpieces : Text.pieces ',' ("r1,@".toList ++ name) = ["r1".toList, '@' :: name] := by
    have hcomma : ',' ∉ '@' :: name :=
      List.not_mem_cons_of_ne_of_not_mem (by decide) (h.notMem (by decide))
    have hfirst : ',' ∉ "r1".toList := by decide
    have hsplit : "r1,@".toList ++ name = "r1".toList ++ ',' :: '@' :: name := rfl
    rw [hsplit, Text.pieces_append _ hfirst, Text.pieces_of_notMem hcomma]
  have hne : "r1,@".toList ++ name ≠ [] := List.append_ne_nil_of_left_ne_nil (by decide) name
  have hr1 : readRegister "r1".toList = .ok 1 := rfl
  unfold loadLine
  rw [read_operation_ok_iff hoperation hword hword' hunmarked hcolon,
    Text.trim_of_not_blank hblank, splitOperands, Text.squeeze_of_not_blank hblank, hpieces,
    if_neg hne]
  constructor
  · rintro ⟨body, hform, rfl⟩
    cases hform with
    | label _ htarget hread =>
      cases hr1.symm.trans htarget
      obtain ⟨hname, rfl⟩ := readLabelRef_absolute_iff.1 hread
      exact ⟨hname, rfl⟩
  · rintro ⟨hname, rfl⟩
    exact ⟨_, .label (by decide) hr1 (readLabelRef_absolute_iff.2 ⟨hname, rfl⟩), rfl⟩

/-! ## Definitions and references -/

theorem defines_iff (h : Unbroken name) : Defines (definitionLine name) name ↔ LabelName name := by
  simp only [Defines, read_definitionLine_ok_iff h, and_true, forall_const]

theorem refers_jumpLine_iff (h : Unbroken name) :
    Refers (jumpLine name) (jumpTo .always .relative) .relative name ↔ LabelName name := by
  simp only [Refers, read_jumpLine_ok_iff h, and_true, forall_const]

theorem refers_loadLine_iff (h : Unbroken name) :
    Refers (loadLine name) ⟨.load, .always, 1, 0, 0, 0⟩ .absolute name ↔ LabelName name := by
  simp only [Refers, read_loadLine_ok_iff h, and_true, forall_const]

theorem exists_error_of_not_ok (h : ∀ s, Statement.read line number ≠ .ok s) :
    ∃ e, Statement.read line number = .error e := by
  cases hread : Statement.read line number with
  | ok s => exact absurd hread (h s)
  | error e => exact ⟨e, rfl⟩

/-- The registers are `zero`, `pc` and `r` with a decimal number up to 15, in any case and with any
zeros before the number. An unbroken name can be defined as a label if and only if an operand can
refer to it, in either mode of addressing, and that is if and only if it is an identifier and no
register. The label is then the name as it is written. Otherwise all three lines are refused. -/
theorem label_lines_agree :
    (∀ name reg, lookupRegister name = .ok reg ↔ Register.Named name reg) ∧
    ∀ name, Unbroken name →
      (Defines (definitionLine name) name ↔
        Refers (jumpLine name) (jumpTo .always .relative) .relative name) ∧
      (Refers (jumpLine name) (jumpTo .always .relative) .relative name ↔
        Refers (loadLine name) ⟨.load, .always, 1, 0, 0, 0⟩ .absolute name) ∧
      (Refers (loadLine name) ⟨.load, .always, 1, 0, 0, 0⟩ .absolute name ↔
        (∃ c rest, name = c :: rest ∧ (c.isAlpha ∨ c = '_') ∧
          ∀ d ∈ rest, d.isAlphanum ∨ d = '_') ∧ ∃ e, lookupRegister name = .error e) ∧
      (¬Defines (definitionLine name) name →
        ∀ line ∈ [definitionLine name, jumpLine name, loadLine name], ∀ number,
          ∃ e, Statement.read line number = .error e) := by
  refine ⟨fun name reg => lookupRegister_ok_iff, fun name h => ?_⟩
  rw [defines_iff h, refers_jumpLine_iff h, refers_loadLine_iff h, ← labelName_iff]
  refine ⟨Iff.rfl, Iff.rfl, Iff.rfl, fun hname line hline number => ?_⟩
  apply exists_error_of_not_ok
  intro s hread
  simp only [List.mem_cons, List.not_mem_nil, or_false] at hline
  rcases hline with rfl | rfl | rfl
  · exact hname ((read_definitionLine_ok_iff h).1 hread).1
  · exact hname ((read_jumpLine_ok_iff h).1 hread).1
  · exact hname ((read_loadLine_ok_iff h).1 hread).1

/-- `R16` is a label and `R007` a register. -/
theorem label_lines_agree_numbered :
    Unbroken "R16".toList ∧ Defines (definitionLine "R16".toList) "R16".toList ∧
    Refers (jumpLine "R16".toList) (jumpTo .always .relative) .relative "R16".toList ∧
    Refers (loadLine "R16".toList) ⟨.load, .always, 1, 0, 0, 0⟩ .absolute "R16".toList ∧
    Unbroken "R007".toList ∧ Register.Named "R007".toList 7 ∧
    ∀ number, ∃ e, Statement.read (jumpLine "R007".toList) number = .error e := by
  obtain ⟨hregister, hlabel⟩ := label_lines_agree
  have hsixteen : Unbroken "R16".toList := by decide
  have hseven : Unbroken "R007".toList := by decide
  obtain ⟨hjump, hload, hname, -⟩ := hlabel "R16".toList hsixteen
  have hrefers := hname.2 ⟨⟨'R', "16".toList, rfl, .inl rfl, by simp⟩, _, rfl⟩
  have hnamed : Register.Named "R007".toList 7 := (hregister _ 7).1 rfl
  obtain ⟨hjump', hload', hname', hrefused⟩ := hlabel "R007".toList hseven
  have hnot : ¬Defines (definitionLine "R007".toList) "R007".toList := by
    intro hdefines
    obtain ⟨-, e, he⟩ := hname'.1 (hload'.1 (hjump'.1 hdefines))
    cases he.symm.trans ((hregister _ 7).2 hnamed)
  exact ⟨hsixteen, hjump.2 (hload.2 hrefers), hload.2 hrefers, hrefers, hseven, hnamed,
    hrefused hnot _ (by simp)⟩

end DM2022.Assembly
