import Mathlib.Data.List.Basic
import DM2022.Proofs.Assembly.Resolution

/-!
# Resolving again

Resolution overwrites the addresses and the offsets of label operands without reading them, and
leaves all else as it is. So nothing that an earlier resolution wrote, complete or not, is part of
what a later one gives.
-/
namespace DM2022.Assembly

variable {origin address : Nat} {statements : List Statement} {table : SymbolTable}
  {s s' : Statement}

/-- The statement without what resolution writes: the address of a label operand and the offset
that reaches it. -/
def Statement.forget (s : Statement) : Statement :=
  match s.body with
  | .instruction instr (some ref) =>
      { s with body := .instruction { instr with offset := 0 } (some { ref with target := none }) }
  | _ => s

/-! ## One statement -/

theorem forget_of_not_ref (h : ∀ i ref, s.body ≠ .instruction i (some ref)) : s.forget = s := by
  rw [Statement.forget]
  split
  · next i ref hbody => exact absurd hbody (h i ref)
  · rfl

theorem forget_of_ref {i : Instruction} {ref : LabelRef} (h : s.body = .instruction i (some ref)) :
    s.forget = { s with
      body := .instruction { i with offset := 0 } (some { ref with target := none }) } := by
  rw [Statement.forget, h]

theorem forget_keeps (s : Statement) :
    s.forget.line = s.line ∧ s.forget.label = s.label ∧ s.forget.size = s.size := by
  by_cases h : ∃ i ref, s.body = .instruction i (some ref)
  · obtain ⟨i, ref, h⟩ := h
    rw [forget_of_ref h, Statement.size, Statement.size, h]
    exact ⟨rfl, rfl, rfl⟩
  · rw [forget_of_not_ref fun i ref hi => h ⟨i, ref, hi⟩]
    exact ⟨rfl, rfl, rfl⟩

@[simp] theorem line_forget (s : Statement) : s.forget.line = s.line := (forget_keeps s).1

@[simp] theorem label_forget (s : Statement) : s.forget.label = s.label := (forget_keeps s).2.1

@[simp] theorem size_forget (s : Statement) : s.forget.size = s.size := (forget_keeps s).2.2

/-- What resolution writes does not depend on what stood there. -/
theorem resolve_forget (table : SymbolTable) (s : Statement) (address : Nat) :
    s.forget.resolve table address = s.resolve table address := by
  by_cases h : ∃ i ref, s.body = .instruction i (some ref)
  · obtain ⟨i, ref, h⟩ := h
    rw [forget_of_ref h, Statement.resolve, Statement.resolve, h]
  · rw [forget_of_not_ref fun i ref hi => h ⟨i, ref, hi⟩]

/-- Resolution writes only what is forgotten. -/
theorem forget_of_resolve (h : s.resolve table address = .ok s') : s'.forget = s.forget := by
  rcases resolve_cases h with ⟨-, rfl⟩ | ⟨i, ref, target, word, hbody, -, -, rfl⟩
  · rfl
  · rw [forget_of_ref hbody, forget_of_ref rfl]

theorem forget_resolved (table : SymbolTable) (p : Statement × Nat) :
    (resolved table p).forget = p.1.forget := by
  cases h : p.1.resolve table p.2 with
  | error e => rw [resolved, h]; rfl
  | ok s => rw [resolved_of_ok h, forget_of_resolve h]

/-! ## Layout and symbols -/

theorem addresses_forget (origin : Nat) (statements : List Statement) :
    addresses origin (statements.map Statement.forget) = addresses origin statements := by
  induction statements generalizing origin with
  | nil => rfl
  | cons s rest ih => rw [List.map_cons, addresses, addresses, line_forget, size_forget, ih]

theorem SymbolTable.define_forget (table : SymbolTable) (l : List (Statement × Nat)) :
    table.define (l.map (Prod.map Statement.forget id)) = table.define l := by
  induction l generalizing table with
  | nil => rfl
  | cons p rest ih =>
    obtain ⟨s, address⟩ := p
    rw [List.map_cons, Prod.map_apply, id]
    cases hl : s.label with
    | none => rw [define_unlabelled hl, define_unlabelled ((label_forget s).trans hl), ih]
    | some label =>
      rw [define_labelled hl, define_labelled ((label_forget s).trans hl), line_forget]
      simp only [ih]

theorem ofStatements_forget (statements : List Statement) (origin : Nat) :
    SymbolTable.ofStatements (statements.map Statement.forget) origin =
      SymbolTable.ofStatements statements origin := by
  rw [SymbolTable.ofStatements, SymbolTable.ofStatements, addresses_forget]
  cases addresses origin statements with
  | error e => rfl
  | ok layout =>
    simp only
    rw [List.zip_map_left, SymbolTable.define_forget]

/-! ## Operands -/

/-- Fixing operands writes only what is forgotten. -/
theorem map_forget_fixOperands (statements : List Statement) (table : SymbolTable) (origin : Nat) :
    (fixOperands statements table origin).1.map Statement.forget =
      statements.map Statement.forget := by
  cases h : addresses origin statements with
  | error e => rw [fixOperands_error h]
  | ok layout =>
    calc (fixOperands statements table origin).1.map Statement.forget
        = (statements.zip layout).map fun p => p.1.forget := by
          rw [fixOperands_ok h, List.map_map]
          exact List.map_congr_left fun p _ => forget_resolved table p
      _ = ((statements.zip layout).map Prod.fst).map Statement.forget := by
          rw [List.map_map]
          rfl
      _ = statements.map Statement.forget := by
          rw [List.map_fst_zip (Nat.le_of_eq (length_addresses h).symm)]

theorem fixOperands_errors_forget (statements : List Statement) (table : SymbolTable)
    (origin : Nat) : (fixOperands (statements.map Statement.forget) table origin).2 =
      (fixOperands statements table origin).2 := by
  cases h : addresses origin statements with
  | error e =>
    rw [fixOperands_error h, fixOperands_error ((addresses_forget origin statements).trans h)]
  | ok layout =>
    rw [fixOperands_ok h, fixOperands_ok ((addresses_forget origin statements).trans h),
      List.zip_map_left, List.filterMap_map]
    exact List.filterMap_congr fun p _ => congrArg failure? (resolve_forget table p.1 p.2)

/-- Without an error, every operand is overwritten. -/
theorem fixOperands_forget (h : (fixOperands statements table origin).2 = []) :
    fixOperands (statements.map Statement.forget) table origin =
      fixOperands statements table origin := by
  refine Prod.ext ?_ (fixOperands_errors_forget statements table origin)
  cases hlayout : addresses origin statements with
  | error e =>
    rw [fixOperands_error hlayout] at h
    cases h
  | ok layout =>
    rw [fixOperands_ok hlayout, List.filterMap_eq_nil_iff] at h
    rw [fixOperands_ok hlayout, fixOperands_ok ((addresses_forget origin statements).trans hlayout),
      List.zip_map_left, List.map_map]
    refine List.map_congr_left fun p hp => ?_
    obtain ⟨s, hs⟩ := failure?_eq_none_iff.1 (h p hp)
    have hforget : p.1.forget.resolve table p.2 = .ok s := (resolve_forget table p.1 p.2).trans hs
    exact (resolved_of_ok (p := (p.1.forget, p.2)) hforget).trans (resolved_of_ok hs).symm

/-! ## Resolution -/

theorem map_forget_resolve (statements : List Statement) (origin : Nat) :
    (resolve statements origin).statements.map Statement.forget =
      statements.map Statement.forget := by
  rw [resolve]
  simp only
  split
  · rfl
  · exact map_forget_fixOperands _ _ _

theorem resolve_errors_forget (statements : List Statement) (origin : Nat) :
    (resolve (statements.map Statement.forget) origin).errors =
      (resolve statements origin).errors := by
  rw [resolve, resolve, ofStatements_forget]
  simp only [fixOperands_errors_forget]
  split <;> rfl

theorem resolve_forget_of_ok (h : (resolve statements origin).errors = []) :
    resolve (statements.map Statement.forget) origin = resolve statements origin := by
  rw [resolve] at h ⊢
  rw [resolve, ofStatements_forget]
  simp only at h ⊢
  split at h
  · next hlayout =>
    simp only at h
    rw [h] at hlayout
    cases hlayout
  · next hlayout =>
    rw [if_neg hlayout, if_neg hlayout, fixOperands_forget (List.append_eq_nil_iff.1 h).2]

/-- An earlier resolution, from whatever origin and with whatever result, changes nothing of what a
later one gives: the later one fails with the same errors, or succeeds with the same statements
and the same symbols. -/
theorem resolve_again (statements : List Statement) (earlier origin : Nat) :
    (resolve (resolve statements earlier).statements origin).errors =
        (resolve statements origin).errors ∧
      ((resolve statements origin).errors = [] →
        resolve (resolve statements earlier).statements origin = resolve statements origin) := by
  have hforget := map_forget_resolve statements earlier
  have herrors : (resolve (resolve statements earlier).statements origin).errors =
      (resolve statements origin).errors := by
    rw [← resolve_errors_forget, hforget, resolve_errors_forget]
  refine ⟨herrors, fun h => ?_⟩
  rw [← resolve_forget_of_ok (herrors.trans h), hforget, resolve_forget_of_ok h]

/-- The loop that was resolved for address 100 before, so that it has other targets and offsets. -/
theorem resolve_again_elsewhere :
    ∃ statements, statements =
        (Source.read "loop: LOAD r1,@far\nJUMP loop\nfar: DATA 5".toList).statements ∧
      (resolve statements 0).errors = [] ∧
      (resolve statements 100).statements ≠ (resolve statements 0).statements ∧
      resolve (resolve statements 100).statements 0 = resolve statements 0 := by
  have hok : (resolve (Source.read
      "loop: LOAD r1,@far\nJUMP loop\nfar: DATA 5".toList).statements 0).errors = [] := rfl
  exact ⟨_, rfl, hok, by decide, (resolve_again _ 100 0).2 hok⟩

end DM2022.Assembly
