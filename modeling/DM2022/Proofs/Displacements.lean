import DM2022.Proofs.Directives

/-!
# Numbers in instructions and in data

The same text may stand for a number between the brackets of a displacement and after `DATA`. The
operands of an instruction lose all their blanks before they are read, the items of a directive only
those at their ends. So a displacement is what `DATA` reads from its text without any blank.
-/
namespace DM2022.Text

/-- No digit is blank. -/
theorem isBlank_of_digitValue_lt {c : Char} (h : digitValue c < 16) : isBlank c = false := by
  by_cases hc : c.toNat < 128
  · exact forall_ascii (p := fun c => digitValue c < 16 → isBlank c = false) (by decide +kernel) hc h
  · rw [digitValue_of_le (by omega)] at h
    omega

variable {text : List Char}

theorem Magnitude.not_blank {n : Nat} (h : Magnitude text n) : ∀ c ∈ text, isBlank c = false := by
  cases h with
  | decimal h =>
    intro c hc
    have hlt := h.lt c hc
    exact isBlank_of_digitValue_lt (by omega)
  | hexadecimal hmark h =>
    have hdigits := fun c hc => isBlank_of_digitValue_lt (h.lt c hc)
    rcases hmark with rfl | rfl
    · exact List.forall_mem_cons.2 ⟨rfl, List.forall_mem_cons.2 ⟨rfl, hdigits⟩⟩
    · exact List.forall_mem_cons.2 ⟨rfl, List.forall_mem_cons.2 ⟨rfl, hdigits⟩⟩

/-- No blank stands in a literal. -/
theorem Literal.not_blank {v : Int} (h : Literal text v) : ∀ c ∈ text, isBlank c = false := by
  cases h with
  | unsigned h => exact h.not_blank
  | plus h => exact List.forall_mem_cons.2 ⟨rfl, h.not_blank⟩
  | minus h => exact List.forall_mem_cons.2 ⟨rfl, h.not_blank⟩

end DM2022.Text

namespace DM2022.Assembly

variable {text word number : List Char} {offset : Word} {line : Nat} {problem : Problem}
variable {v : Int}

/-- No character of the text separates operands, closes or opens a displacement, starts a comment or
ends a label. -/
def Plain (text : List Char) : Prop := ∀ c ∈ text, c ∉ ",[]#;:".toList

instance (text : List Char) : Decidable (Plain text) :=
  decidable_of_iff (text.all (fun c => decide (c ∉ ",[]#;:".toList)) = true) (by simp [Plain])

def threeRegisters : List Char := "r1,r2,r3".toList

/-- Three registers, the last of them with the text between brackets. -/
def displacedOperands (text : List Char) : List Char := threeRegisters ++ '[' :: (text ++ [']'])

/-- The line `ADD r1,r2,r3[text]`. -/
def displacedLine (text : List Char) : List Char := "ADD".toList ++ ' ' :: displacedOperands text

/-- The line `DATA text`. -/
def dataLine (text : List Char) : List Char := "DATA".toList ++ ' ' :: text

/-- The text is read as this displacement. -/
def Displaces (text : List Char) (v : Int) : Prop :=
  ∀ line, ∃ offset : Word, offset.toInt = v ∧ Statement.read (displacedLine text) line =
    .ok ⟨line, none, .instruction ⟨.add, .always, 1, 2, 3, offset⟩ none⟩

/-- The text is read as this single value, from a literal in the range of signed words. -/
def Gives (text : List Char) (v : Int) : Prop :=
  ∀ line, ∃ value : Word, value.toInt = v ∧ Text.Literal (Text.trim text) v ∧
    Statement.read (dataLine text) line = .ok ⟨line, none, .data [value]⟩

/-- The text is no literal to be a displacement. -/
def BadDisplacement (text : List Char) : Prop :=
  ∀ line, Statement.read (displacedLine text) line =
    .error ⟨line, .malformed (.badDisplacement (String.ofList (Text.squeeze text)))⟩

/-- The text is no literal to be a value. -/
def BadValue (text : List Char) : Prop :=
  ∀ line, Statement.read (dataLine text) line =
    .error ⟨line, .malformed (.badValue (String.ofList (Text.trim text)))⟩

/-! ## Plain text -/

theorem Plain.notMem (h : Plain text) {c : Char} (hc : c ∈ ",[]#;:".toList) : c ∉ text :=
  fun hmem => h c hmem hc

theorem Plain.unmarked (h : Plain text) : ∀ c ∈ text, Text.isCommentMark c = false :=
  Text.unmarked_of_notMem (h.notMem (by decide)) (h.notMem (by decide))

theorem Plain.ne_colon (h : Plain text) : ∀ c ∈ text, c ≠ ':' :=
  fun _ hc heq => h.notMem (by decide) (heq ▸ hc)

theorem Plain.squeeze (h : Plain text) : Plain (Text.squeeze text) :=
  fun c hc => h c (List.mem_filter.1 hc).1

/-! ## Displacements -/

theorem visible_threeRegisters : Text.Visible threeRegisters := by decide

theorem forall_mem_displacedOperands {p : Char → Prop} (h : ∀ c ∈ text, p c)
    (hvisible : ∀ c, Text.isVisible c = true → p c) : ∀ c ∈ displacedOperands text, p c := by
  refine List.forall_mem_append.2 ⟨fun c hc => hvisible c (visible_threeRegisters c hc), ?_⟩
  refine List.forall_mem_cons.2 ⟨hvisible '[' rfl, List.forall_mem_append.2 ⟨h, ?_⟩⟩
  exact List.forall_mem_singleton.2 (hvisible ']' rfl)

theorem headed_displacedLine (h : Plain text) :
    Headed (lineCode (displacedLine text)) none (Text.trim (displacedLine text)) := by
  have hcolon : ∀ c ∈ displacedOperands text, c ≠ ':' :=
    forall_mem_displacedOperands h.ne_colon fun _ hc => Text.ne_of_isVisible hc rfl
  have hunmarked : ∀ c ∈ displacedOperands text, Text.isCommentMark c = false :=
    forall_mem_displacedOperands h.unmarked fun _ hc => Text.isCommentMark_of_isVisible hc
  exact headed_spaced (by decide) hunmarked fun hmem => hcolon ':' hmem rfl

theorem firstWord_displacedLine (text : List Char) :
    FirstWord (Text.trim (displacedLine text)) "ADD".toList (Text.trim (displacedOperands text)) :=
  firstWord_trim (by decide) (by decide) rfl (displacedOperands text)

theorem squeeze_displacedOperands (text : List Char) :
    Text.squeeze (displacedOperands text) = displacedOperands (Text.squeeze text) := by
  have hregisters : Text.squeeze threeRegisters = threeRegisters :=
    Text.squeeze_of_visible visible_threeRegisters
  have hopen : Text.squeeze ('[' :: (text ++ [']'])) = '[' :: Text.squeeze (text ++ [']']) := rfl
  have hclose : Text.squeeze [']'] = [']'] := rfl
  rw [displacedOperands, Text.squeeze_append, hregisters, hopen, Text.squeeze_append, hclose,
    displacedOperands]

theorem separated_displacedOperands (h : ',' ∉ text) :
    Text.Separated ',' (displacedOperands text)
      ["r1".toList, "r2".toList, "r3".toList ++ '[' :: (text ++ [']'])] where
  ne_nil := List.cons_ne_nil _ _
  notMem := by
    have hlast : ',' ∉ "r3".toList ++ '[' :: (text ++ [']']) := by simp [h]
    exact List.forall_mem_cons.2 ⟨by decide, List.forall_mem_cons.2
      ⟨by decide, List.forall_mem_singleton.2 hlast⟩⟩
  join := by
    have hregisters : threeRegisters =
        "r1".toList ++ ',' :: ("r2".toList ++ ',' :: "r3".toList) := by decide
    rw [displacedOperands, hregisters]
    simp only [List.intercalate_cons_cons, List.intercalate_singleton, List.append_assoc,
      List.cons_append, List.nil_append]

theorem operands_displacedOperands (h : Plain text) :
    Operands (Text.trim (displacedOperands text))
      ["r1".toList, "r2".toList, "r3".toList ++ '[' :: (Text.squeeze text ++ [']'])] := by
  have hsqueeze : Text.squeeze (Text.trim (displacedOperands text)) =
      displacedOperands (Text.squeeze text) := by
    rw [Text.squeeze_trim, squeeze_displacedOperands]
  refine .some ?_ ?_
  · rw [hsqueeze]
    simp [displacedOperands]
  · rw [hsqueeze]
    exact separated_displacedOperands (h.squeeze.notMem (by decide))

/-- Reads the number between the brackets. -/
def readOffset (displacement : List Char) : Except Problem Word :=
  readLiteral (.badDisplacement (String.ofList displacement)) signedWord? displacement

theorem readDisplaced_bracketed {name : List Char} {reg : Byte} (hreg : Register.Named name reg) :
    readDisplaced (name ++ '[' :: (number ++ [']'])) = (readOffset number).map (reg, ·) := by
  rw [readDisplaced, Text.cut?_append _ hreg.bracket_notMem]
  simp only [stripBracket?_eq_some_iff.2 rfl]
  rw [readRegister_ok_iff.2 hreg, readOffset, readLiteral]
  simp only [bind, Except.bind]
  cases Text.literal? number with
  | none => rfl
  | some v => cases hword : signedWord? v <;> simp [hword, Except.map]

theorem readOffset_ok_iff : readOffset number = .ok offset ↔ Text.Literal number offset.toInt := by
  rw [literal_toInt_iff, readOffset, readLiteral_ok_iff]

theorem readOffset_error_iff : readOffset number = .error problem ↔
    Refused number (-0x80000000) 0x7fffffff (.badDisplacement (String.ofList number)) problem := by
  rw [readOffset, readLiteral_error_iff fun _ => signedWord?_eq_none_iff]

theorem readBody_displacedLine (h : Plain text) : readBody (Text.trim (displacedLine text)) =
    (readOffset (Text.squeeze text)).map
      fun offset => .instruction ⟨.add, .always, 1, 2, 3, offset⟩ none := by
  have hoperation : Operation "ADD".toList .add .always := .plain ⟨by decide, by decide⟩
  have hr3 : Register.Named "r3".toList 3 := Register.ofName?_eq_some_iff.1 rfl
  rw [readBody_of_operation (firstWord_displacedLine text) hoperation,
    splitOperands_eq_iff.2 (operands_displacedOperands h), readOperands_full,
    readDisplaced_bracketed hr3]
  cases readOffset (Text.squeeze text) <;> rfl

theorem read_displacedLine_ok_iff (h : Plain text) : Statement.read (displacedLine text) line =
    .ok ⟨line, none, .instruction ⟨.add, .always, 1, 2, 3, offset⟩ none⟩ ↔
      Text.Literal (Text.squeeze text) offset.toInt := by
  have hne := (firstWord_displacedLine text).ne_nil (by decide)
  rw [Statement.read_headed_ok_iff (headed_displacedLine h) hne,
    readBody_displacedLine h, ← readOffset_ok_iff]
  simp only [map_ok_iff]
  constructor
  · rintro ⟨_, ⟨offset', hread, rfl⟩, heq⟩
    cases heq
    exact hread
  · intro hread
    exact ⟨_, ⟨offset, hread, rfl⟩, rfl⟩

theorem read_displacedLine_error_iff (h : Plain text) : Statement.read (displacedLine text) line =
    .error ⟨line, problem⟩ ↔ Refused (Text.squeeze text) (-0x80000000) 0x7fffffff
      (.badDisplacement (String.ofList (Text.squeeze text))) problem := by
  have hne := (firstWord_displacedLine text).ne_nil (by decide)
  rw [Statement.read_headed_error_iff (headed_displacedLine h) hne,
    readBody_displacedLine h, map_error_iff, readOffset_error_iff, and_iff_right rfl]

theorem displaces_iff (h : Plain text) : Displaces text v ↔
    ∃ offset : Word, offset.toInt = v ∧ Text.Literal (Text.squeeze text) v := by
  simp only [Displaces, read_displacedLine_ok_iff h]
  constructor
  · intro hread
    obtain ⟨offset, rfl, hliteral⟩ := hread 0
    exact ⟨offset, rfl, hliteral⟩
  · rintro ⟨offset, rfl, hliteral⟩ _
    exact ⟨offset, rfl, hliteral⟩

theorem badDisplacement_iff (h : Plain text) :
    BadDisplacement text ↔ Text.literal? (Text.squeeze text) = none := by
  simp only [BadDisplacement, read_displacedLine_error_iff h, forall_const]
  cases hread : Text.literal? (Text.squeeze text) with
  | none => simp [refused_of_none hread]
  | some v => simp [refused_of_some hread]

/-! ## Data -/

theorem headed_dataLine (h : Plain text) :
    Headed (lineCode (dataLine text)) none (Text.trim (dataLine text)) :=
  headed_spaced (by decide) h.unmarked (h.notMem (by decide))

theorem firstWord_dataLine (text : List Char) :
    FirstWord (Text.trim (dataLine text)) "DATA".toList (Text.trim text) :=
  firstWord_trim (by decide) (by decide) rfl text

theorem items_trim (h : Plain text) : items (Text.trim text) = [Text.trim text] := by
  have hcomma : ',' ∉ Text.trim text :=
    fun hmem => h.notMem (by decide) (Text.mem_of_mem_trim hmem)
  rw [items, Text.pieces_of_notMem hcomma, List.map_singleton, Text.trim_trim]

theorem gives_iff (h : Plain text) : Gives text v ↔
    ∃ value : Word, value.toInt = v ∧ Text.Literal (Text.trim text) v := by
  constructor
  · intro hread
    obtain ⟨value, hvalue, hliteral, -⟩ := hread 0
    exact ⟨value, hvalue, hliteral⟩
  · rintro ⟨value, rfl, hliteral⟩ line
    have hne : Text.trim text ≠ [] := hliteral.ne_nil
    have hvalue : Value (Text.trim text) value := ⟨value.toInt, hliteral, .toInt value⟩
    have hvalues : List.Forall₂ Value (items (Text.trim text)) [value] := by
      rw [items_trim h]
      exact .cons hvalue .nil
    exact ⟨value, rfl, hliteral, (read_data_ok_iff (headed_dataLine h) (firstWord_dataLine text)
      rfl).2 ⟨hne, [value], hvalues, rfl⟩⟩

/-- A single item tells the error. -/
theorem dataProblem_trim_iff (h : Plain text) (hne : Text.trim text ≠ []) :
    DataProblem (Text.trim text) problem ↔ Refused (Text.trim text) (-0x80000000) 0xffffffff
      (.badValue (String.ofList (Text.trim text))) problem := by
  constructor
  · intro hproblem
    cases hproblem with
    | none hnil => exact absurd hnil hne
    | item _ hitems _ hitem =>
      rw [items_trim h, eq_comm, List.append_eq_singleton_iff] at hitems
      rcases hitems with ⟨-, hitems⟩ | ⟨-, hitems⟩
      · cases hitems
        exact hitem
      · cases hitems
  · intro hrefused
    have hitems : items (Text.trim text) = [] ++ Text.trim text :: [] := items_trim h
    exact .item hne hitems (List.forall_mem_nil _) hrefused

theorem badValue_iff (h : Plain text) : BadValue text ↔
    Text.trim text ≠ [] ∧ Text.literal? (Text.trim text) = none := by
  simp only [BadValue, read_data_error_iff (headed_dataLine h) (firstWord_dataLine text) rfl,
    true_and, forall_const]
  by_cases hne : Text.trim text = []
  · refine iff_of_false (fun hproblem => ?_) fun hnone => hnone.1 hne
    cases hproblem with
    | item hne' => exact hne' hne
  · rw [dataProblem_trim_iff h hne, and_iff_right hne]
    cases hread : Text.literal? (Text.trim text) with
    | none => simp [refused_of_none hread]
    | some v => simp [refused_of_some hread]

/-! ## Both -/

theorem trim_squeeze (text : List Char) : Text.trim (Text.squeeze text) = Text.squeeze text :=
  Text.trim_of_not_blank fun _ hc => Text.isBlank_of_mem_squeeze hc

/-- A text that holds a literal has blanks at its ends only. -/
theorem squeeze_eq_trim (h : Text.Literal (Text.trim text) v) :
    Text.squeeze text = Text.trim text := by
  rw [← Text.squeeze_trim, Text.squeeze_of_not_blank h.not_blank]

/-- Between brackets a text is read as the number that `DATA` reads from it when all its blanks are
gone, and it is no displacement if then it is no value. So what `DATA` reads from a text is also its
displacement, and a text with blanks only at its ends is the same number, or none, in both places. -/
theorem displaces_iff_gives (h : Plain text) :
    (∀ v, Displaces text v ↔ Gives (Text.squeeze text) v) ∧
    (BadDisplacement text ↔ Text.squeeze text = [] ∨ BadValue (Text.squeeze text)) ∧
    (∀ v, Gives text v → Displaces text v) ∧
    (Text.squeeze text = Text.trim text →
      (∀ v, Displaces text v ↔ Gives text v) ∧ (BadValue text → BadDisplacement text)) := by
  refine ⟨fun v => ?_, ?_, fun v hgives => ?_, fun htrim => ⟨fun v => ?_, fun hbad => ?_⟩⟩
  · rw [displaces_iff h, gives_iff h.squeeze, trim_squeeze]
  · rw [badDisplacement_iff h, badValue_iff h.squeeze, trim_squeeze]
    constructor
    · intro hnone
      by_cases hne : Text.squeeze text = []
      · exact .inl hne
      · exact .inr ⟨hne, hnone⟩
    · rintro (hnil | ⟨-, hnone⟩)
      · rw [hnil]
        rfl
      · exact hnone
  · obtain ⟨value, hvalue, hliteral⟩ := (gives_iff h).1 hgives
    rw [displaces_iff h, squeeze_eq_trim hliteral]
    exact ⟨value, hvalue, hliteral⟩
  · rw [displaces_iff h, gives_iff h, htrim]
  · rw [badDisplacement_iff h, htrim]
    exact ((badValue_iff h).1 hbad).2

/-- The blank after the sign is dropped between brackets. -/
theorem displaces_iff_gives_sign :
    Plain "- 5".toList ∧ Gives "-5".toList (-5) ∧ Displaces "- 5".toList (-5) := by
  have hplain : Plain "- 5".toList := by decide
  have hgives : Gives "-5".toList (-5) := by
    intro line
    exact ⟨-5, by decide, (Text.literal?_eq_some_iff.1 rfl).1, rfl⟩
  exact ⟨hplain, hgives, ((displaces_iff_gives hplain).1 (-5)).2 hgives⟩

/-- With its blank, `1 2` is no value, but it is the displacement 12. -/
theorem not_displaces_iff_gives : ¬∀ text v, Plain text → -0x80000000 ≤ v → v ≤ 0x7fffffff →
    (Displaces text v ↔ Gives text v) := by
  intro h
  have hplain : Plain "1 2".toList := by decide
  have hdisplaces : Displaces "1 2".toList 12 := fun line => ⟨12, by decide, rfl⟩
  have hgives := (h "1 2".toList 12 hplain (by decide) (by decide)).1 hdisplaces
  obtain ⟨_, -, hliteral, -⟩ := hgives 1
  have hread := Text.literal?_eq_some_iff.2 ⟨hliteral, by decide⟩
  have hnone : Text.literal? (Text.trim "1 2".toList) = none := by decide
  cases hnone.symm.trans hread

end DM2022.Assembly
