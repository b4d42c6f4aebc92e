import DM2022.Assembly.Line

/-!
# Stages of assembly

A source is read, laid out, resolved and encoded, and each of these stages has its own
problems. Reading a line only finds what the line itself shows, whatever its form.
-/
namespace DM2022.Assembly

/-- The stage that finds a problem: reading lines, collecting labels, resolving operands or
encoding. -/
def Problem.stage : Problem → Nat
  | .malformed _ => 0
  | .unknownMnemonic _ => 0
  | .valueOutOfRange _ => 0
  | .duplicateLabel _ _ => 1
  | .imageTooLarge _ => 1
  | .undefinedLabel _ => 2
  | .encoding _ => 3

/-- If the result is an error, it is one of reading. -/
def ReadingFails {α : Type} (r : Except Problem α) : Prop :=
  ∀ problem, r = .error problem → problem.stage = 0

namespace ReadingFails

variable {α β ε : Type}

theorem ok (a : α) : ReadingFails (.ok a) := by
  intro problem h
  cases h

theorem error {problem : Problem} (h : problem.stage = 0) :
    ReadingFails (.error problem : Except Problem α) := by
  intro other hother
  cases hother
  exact h

theorem bind {r : Except Problem α} {f : α → Except Problem β} (hr : ReadingFails r)
    (hf : ∀ a, ReadingFails (f a)) : ReadingFails (r >>= f) := by
  cases r with
  | error problem => exact error (hr problem rfl)
  | ok a => exact hf a

theorem mapError {r : Except ε α} {f : ε → Problem} (hf : ∀ e, (f e).stage = 0) :
    ReadingFails (r.mapError f) := by
  cases r with
  | error e => exact error (hf e)
  | ok a => exact ok a

theorem mapM {f : α → Except Problem β} (hf : ∀ a, ReadingFails (f a)) (l : List α) :
    ReadingFails (l.mapM f) := by
  induction l with
  | nil => exact ok []
  | cons a l ih =>
    rw [List.mapM_cons]
    exact (hf a).bind fun b => ih.bind fun rest => ok (b :: rest)

end ReadingFails

open ReadingFails (ok error)

variable (operand text : List Char)

theorem readingFails_register : ReadingFails (readRegister operand) :=
  .mapError fun _ => rfl

theorem readingFails_labelRef : ReadingFails (readLabelRef operand) := by
  unfold readLabelRef
  split
  split
  · exact ok _
  · exact error rfl

theorem readingFails_displaced : ReadingFails (readDisplaced operand) := by
  unfold readDisplaced
  split
  · exact (readingFails_register _).bind fun reg => ok _
  · split
    · exact error rfl
    · refine (readingFails_register _).bind fun reg => ?_
      split
      · exact error rfl
      · split
        · exact error rfl
        · exact ok _

/-- Each of the forms of operands fails like its parts, and all others are malformed. -/
theorem readingFails_operands (op : Opcode) (cond : Flags) (operands : List (List Char)) :
    ReadingFails (readOperands op cond text operands) := by
  unfold readOperands
  split
  case h_1 => exact ok _
  case h_2 =>
    refine (readingFails_labelRef _).bind fun ref => ?_
    split <;> exact ok _
  case h_3 => exact error rfl
  case h_4 =>
    refine (readingFails_register _).bind fun target => ?_
    exact (readingFails_labelRef _).bind fun ref => ok _
  case h_5 =>
    refine (readingFails_register _).bind fun target => ?_
    refine (readingFails_register _).bind fun src1 => ?_
    exact (readingFails_displaced _).bind fun src2 => ok _
  case h_6 => exact error rfl

theorem readingFails_value : ReadingFails (readValue operand) := by
  unfold readValue
  split
  · exact error rfl
  · split
    · exact error rfl
    · exact ok _

theorem readingFails_data : ReadingFails (readData text) := by
  unfold readData
  split
  · exact error rfl
  · exact (ReadingFails.mapM readingFails_value _).bind fun values => ok _

theorem readingFails_reserve : ReadingFails (readReserve text) := by
  unfold readReserve
  split
  · exact error rfl
  · split
    · exact ok _
    · exact error rfl

theorem readingFails_predicate (predicate : Option (List Char)) :
    ReadingFails (readPredicate predicate) := by
  cases predicate with
  | none => exact ok _
  | some name => exact .mapError fun _ => rfl

theorem readingFails_body : ReadingFails (readBody text) := by
  unfold readBody
  simp only
  split
  · split
    · exact error rfl
    · exact readingFails_data _
  · split
    · split
      · exact error rfl
      · exact readingFails_reserve _
    · split
      · exact error rfl
      · exact (readingFails_predicate _).bind fun cond => readingFails_operands _ _ _ _

theorem readingFails_line : ReadingFails (readLine text) := by
  unfold readLine
  refine (ReadingFails.mapError fun _ => rfl).bind fun parts => ?_
  simp only
  split
  · exact ok _
  · exact (readingFails_body _).bind fun body => ok _

/-- What is wrong with a line shows when it is read. -/
theorem stage_of_read_error {text : List Char} {line : Nat} {e : AssemblyError}
    (h : Statement.read text line = .error e) : e.problem.stage = 0 := by
  rw [Statement.read] at h
  split at h
  · cases h
  · next problem hread =>
    cases h
    exact readingFails_line text problem hread

end DM2022.Assembly
