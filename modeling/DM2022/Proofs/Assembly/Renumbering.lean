import DM2022.Proofs.Assembly.ResolutionErrors
import DM2022.Proofs.ListingPrograms

/-!
# Renumbered statements

The numbers of the lines only tell where an error or a symbol is, and blank statements are for
nothing. So statements with other numbers, and with other blank statements between them, are
resolved in the same way: their places, their words and their errors are the same, but for the
numbers of the lines.
-/
namespace DM2022.Assembly

variable {f : Nat → Nat} {origin : Nat} {statements : List Statement}
  {table table' : SymbolTable}

def Problem.renumber (f : Nat → Nat) : Problem → Problem
  | .duplicateLabel label firstLine => .duplicateLabel label (f firstLine)
  | problem => problem

/-- The error on the line with the new number; the first line of a label is renumbered too. -/
def AssemblyError.renumber (f : Nat → Nat) (e : AssemblyError) : AssemblyError :=
  ⟨f e.line, e.problem.renumber f⟩

def Statement.renumber (f : Nat → Nat) (s : Statement) : Statement := { s with line := f s.line }

def Symbol.renumber (f : Nat → Nat) (symbol : Symbol) : Symbol :=
  { symbol with line := f symbol.line }

/-- The second table has the symbols of the first one, on the lines with the new numbers. -/
def SymbolTable.Renumbered (f : Nat → Nat) (table table' : SymbolTable) : Prop :=
  ∀ name, table'.find? name = (table.find? name).map (Symbol.renumber f)

/-! ## Renumbering -/

theorem encodingError?_renumber (s : Statement) :
    (s.renumber f).encodingError? = s.encodingError?.map (AssemblyError.renumber f) := by
  obtain ⟨line, label, body⟩ := s
  cases body with
  | instruction i ref =>
    simp only [Statement.encodingError?, Statement.renumber, Option.map_map]
    rfl
  | _ => rfl

theorem imageOf_renumber (statements : List Statement) :
    imageOf (statements.map (Statement.renumber f)) = imageOf statements :=
  List.flatMap_map ..

theorem encodingErrors_renumber (statements : List Statement) :
    (statements.map (Statement.renumber f)).filterMap Statement.encodingError? =
      (statements.filterMap Statement.encodingError?).map (AssemblyError.renumber f) := by
  rw [List.filterMap_map, List.map_filterMap]
  exact List.filterMap_congr fun s _ => encodingError?_renumber s

theorem addresses_renumber (origin : Nat) (statements : List Statement) :
    addresses origin (statements.map (Statement.renumber f)) =
      (addresses origin statements).mapError (AssemblyError.renumber f) := by
  induction statements generalizing origin with
  | nil => rfl
  | cons s rest ih =>
    have hsize : (s.renumber f).size = s.size := rfl
    rw [List.map_cons, addresses, addresses, hsize, ih]
    split
    · rfl
    · cases addresses (origin + s.size) rest <;> rfl

namespace SymbolTable

theorem Renumbered.empty : Renumbered f .empty .empty := fun _ => rfl

theorem Renumbered.address? (h : Renumbered f table table') (name : String) :
    table'.address? name = table.address? name := by
  rw [SymbolTable.address?, SymbolTable.address?, h name, Option.map_map]
  rfl

theorem Renumbered.insert (h : Renumbered f table table') (label : String) (symbol : Symbol) :
    Renumbered f (table.insert label symbol) (table'.insert label (symbol.renumber f)) := by
  intro name
  rw [find?_insert, find?_insert, h name]
  split <;> rfl

/-- The induction is on the statements, over tables that agree. -/
theorem Renumbered.define (h : Renumbered f table table') (l : List (Statement × Nat)) :
    Renumbered f (table.define l).1
        (table'.define (l.map (Prod.map (Statement.renumber f) id))).1 ∧
      (table'.define (l.map (Prod.map (Statement.renumber f) id))).2 =
        (table.define l).2.map (AssemblyError.renumber f) := by
  induction l generalizing table table' with
  | nil => exact ⟨h, rfl⟩
  | cons p rest ih =>
    obtain ⟨s, address⟩ := p
    rw [List.map_cons, Prod.map_apply, id]
    cases hl : s.label with
    | none =>
      rw [define_unlabelled hl, define_unlabelled (s := s.renumber f) hl]
      exact ih h
    | some label =>
      rw [define_labelled hl, define_labelled (s := s.renumber f) hl, h label]
      cases table.find? label with
      | none => exact ih (h.insert label ⟨address, s.line⟩)
      | some first =>
        obtain ⟨htable, herrors⟩ := ih h
        refine ⟨htable, ?_⟩
        simp only [Option.map_some, herrors, List.map_cons]
        rfl

end SymbolTable

/-- A statement is resolved with the same result, on the line with the new number. -/
theorem Statement.resolve_renumber (h : SymbolTable.Renumbered f table table') (s : Statement)
    (address : Nat) : (s.renumber f).resolve table' address =
      ((s.resolve table address).map (renumber f)).mapError (AssemblyError.renumber f) := by
  obtain ⟨line, label, body⟩ := s
  rw [Statement.resolve, Statement.resolve]
  cases body with
  | instruction i ref =>
    cases ref with
    | none => rfl
    | some ref =>
      simp only [renumber, h.address?]
      cases table.address? ref.name with
      | none => rfl
      | some target =>
        simp only
        cases signedWord? (ref.mode.offset target address) <;> rfl
  | _ => rfl

theorem failure?_renumber (h : SymbolTable.Renumbered f table table') (p : Statement × Nat) :
    failure? ((p.1.renumber f).resolve table' p.2) =
      (failure? (p.1.resolve table p.2)).map (AssemblyError.renumber f) := by
  rw [Statement.resolve_renumber h]
  cases p.1.resolve table p.2 <;> rfl

theorem resolved_renumber (h : SymbolTable.Renumbered f table table') (p : Statement × Nat) :
    resolved table' (p.1.renumber f, p.2) = (resolved table p).renumber f := by
  rw [resolved, resolved, Statement.resolve_renumber h]
  cases p.1.resolve table p.2 <;> rfl

theorem placed_renumber (origin : Nat) (statements : List Statement) :
    placed origin (statements.map (Statement.renumber f)) =
      (placed origin statements).map (Prod.map (Statement.renumber f) id) := by
  induction statements generalizing origin with
  | nil => rfl
  | cons s rest ih => exact congrArg _ (ih (origin + s.size))

theorem outline_renumber (statements : List Statement) :
    outline (statements.map (Statement.renumber f)) = outline statements := by
  rw [outline, outline, List.map_map]
  rfl

/-! ## Blank statements -/

theorem size_of_isBlank {s : Statement} (h : s.isBlank = true) : s.size = 0 := by
  rw [Statement.size, (isBlank_iff.1 h).2]
  rfl

/-- Blank statements do not move the others. -/
theorem placed_shown (origin : Nat) (statements : List Statement) :
    placed origin (shown statements) = (placed origin statements).filter (!·.1.isBlank) := by
  induction statements generalizing origin with
  | nil => rfl
  | cons s rest ih =>
    rw [shown_cons, placed_cons, List.filter_cons]
    cases hblank : s.isBlank with
    | true =>
      rw [if_pos rfl, Bool.not_true, if_neg Bool.false_ne_true, ih, size_of_isBlank hblank]
      rfl
    | false =>
      rw [if_neg Bool.false_ne_true, Bool.not_false, if_pos rfl, ← ih]
      rfl

theorem SymbolTable.define_filter (table : SymbolTable) (l : List (Statement × Nat)) :
    table.define (l.filter (!·.1.isBlank)) = table.define l := by
  induction l generalizing table with
  | nil => rfl
  | cons p rest ih =>
    obtain ⟨s, address⟩ := p
    cases hblank : s.isBlank with
    | true =>
      rw [List.filter_cons_of_neg (by simp [hblank]), ih,
        define_unlabelled (isBlank_iff.1 hblank).1]
    | false =>
      rw [List.filter_cons_of_pos (by simp [hblank]), define_cons, ih, ← define_cons]

theorem resolve_of_isBlank {s : Statement} (h : s.isBlank = true) (address : Nat) :
    s.resolve table address = .ok s :=
  resolve_of_not_ref fun i ref hbody => by
    rw [(isBlank_iff.1 h).2] at hbody
    cases hbody

theorem isBlank_resolved (p : Statement × Nat) : (resolved table p).isBlank = p.1.isBlank := by
  cases hr : p.1.resolve table p.2 with
  | error e => rw [resolved, hr]; rfl
  | ok s =>
    rw [resolved_of_ok hr]
    rcases resolve_cases hr with ⟨-, rfl⟩ | ⟨i, ref, target, word, hbody, -, -, rfl⟩
    · rfl
    · simp [Statement.isBlank, hbody]

theorem shown_map_resolved (origin : Nat) (statements : List Statement) :
    shown ((placed origin statements).map (resolved table)) =
      (placed origin (shown statements)).map (resolved table) := by
  rw [shown, List.filter_map, placed_shown]
  refine congrArg (List.map _) (List.filter_congr fun p _ => ?_)
  rw [Function.comp_apply, isBlank_resolved]

/-- From an origin within the address range, the first statement that ends past it is none of
the blank ones. -/
theorem addresses_shown_error_iff (h : origin ≤ addressLimit) {e : AssemblyError} :
    addresses origin (shown statements) = .error e ↔ addresses origin statements = .error e := by
  induction statements generalizing origin with
  | nil => exact Iff.rfl
  | cons s rest ih =>
    have hmap {next : Nat} {l : List Statement} :
        (addresses next l).map (origin :: ·) = .error e ↔ addresses next l = .error e := by
      cases addresses next l <;> simp [Except.map]
    rw [shown_cons]
    cases hblank : s.isBlank with
    | true =>
      have hstop : origin + s.size = origin := by rw [size_of_isBlank hblank, Nat.add_zero]
      rw [if_pos rfl, addresses, hstop, if_neg (by omega), hmap, ih h]
    | false =>
      rw [if_neg (by simp), addresses, addresses]
      split
      · exact Iff.rfl
      · next hstop => rw [hmap, hmap, ih (by omega)]

/-! ## Resolution -/

/-- But for blank statements, the second statements are the first ones, on the lines with the
new numbers. -/
def Renumbers (f : Nat → Nat) (statements statements' : List Statement) : Prop :=
  shown statements' = (shown statements).map (Statement.renumber f)

theorem renumbers_shown (statements : List Statement) :
    Renumbers id statements (shown statements) := by
  have htwice : shown (shown statements) = shown statements := by
    simp only [shown, List.filter_filter, Bool.and_self]
  rw [Renumbers, htwice]
  exact (List.map_id _).symm

theorem failures_shown (origin : Nat) (statements : List Statement) :
    (placed origin (shown statements)).filterMap (fun p => failure? (p.1.resolve table p.2)) =
      (placed origin statements).filterMap fun p => failure? (p.1.resolve table p.2) := by
  rw [placed_shown, List.filterMap_filter]
  refine List.filterMap_congr fun p _ => ?_
  cases hblank : p.1.isBlank with
  | true => rw [resolve_of_isBlank hblank]; rfl
  | false => rfl

theorem fits_iff_of_le (h : origin ≤ addressLimit) :
    Fits origin statements ↔ origin + imageSize statements ≤ addressLimit := by
  refine ⟨fun hfits => ?_, .inr⟩
  rcases hfits with rfl | hfits
  · exact h
  · exact hfits

namespace Renumbers

variable {statements' : List Statement}

theorem outline_eq (h : Renumbers f statements statements') :
    outline statements' = outline statements := by
  rw [← outline_shown, h, outline_renumber, outline_shown]

theorem fits_iff (h : Renumbers f statements statements') (ho : origin ≤ addressLimit) :
    Fits origin statements' ↔ Fits origin statements := by
  rw [fits_iff_of_le ho, fits_iff_of_le ho, imageSize_eq_of_outline, h.outline_eq,
    ← imageSize_eq_of_outline]

theorem placed_eq (h : Renumbers f statements statements') (origin : Nat) :
    placed origin (shown statements') =
      (placed origin (shown statements)).map (Prod.map (Statement.renumber f) id) := by
  rw [h, placed_renumber]

theorem define (h : Renumbers f statements statements') (origin : Nat) :
    SymbolTable.Renumbered f (symbolsFrom origin statements) (symbolsFrom origin statements') ∧
      (SymbolTable.empty.define (placed origin statements')).2 =
        (SymbolTable.empty.define (placed origin statements)).2.map (AssemblyError.renumber f) := by
  have hdefine := SymbolTable.Renumbered.empty.define (f := f) (placed origin (shown statements))
  rw [← h.placed_eq, placed_shown, placed_shown, SymbolTable.define_filter,
    SymbolTable.define_filter] at hdefine
  exact hdefine

theorem failures (h : Renumbers f statements statements')
    (htable : SymbolTable.Renumbered f table table') (origin : Nat) :
    (placed origin statements').filterMap (fun p => failure? (p.1.resolve table' p.2)) =
      ((placed origin statements).filterMap fun p => failure? (p.1.resolve table p.2)).map
        (AssemblyError.renumber f) := by
  rw [← failures_shown origin statements', ← failures_shown origin statements, h.placed_eq,
    List.filterMap_map, List.map_filterMap]
  exact List.filterMap_congr fun p _ => failure?_renumber htable p

theorem resolved (h : Renumbers f statements statements')
    (htable : SymbolTable.Renumbered f table table') (origin : Nat) :
    Renumbers f ((placed origin statements).map (resolved table))
      ((placed origin statements').map (Assembly.resolved table')) := by
  rw [Renumbers, shown_map_resolved, shown_map_resolved, h.placed_eq, List.map_map, List.map_map]
  exact List.map_congr_left fun p _ => resolved_renumber htable p

/-- What is wrong with the statements is the same, on the lines with the new numbers. -/
theorem resolve_errors (h : Renumbers f statements statements') (ho : origin ≤ addressLimit) :
    (resolve statements' origin).errors =
      (resolve statements origin).errors.map (AssemblyError.renumber f) := by
  by_cases hfits : Fits origin statements
  · obtain ⟨htable, herrors⟩ := h.define origin
    rw [resolve_of_fits hfits, resolve_of_fits ((h.fits_iff ho).2 hfits), herrors,
      h.failures htable, List.map_append]
  · obtain ⟨e, hover⟩ := exists_overflow hfits
    have hover' : Overflows origin statements' (e.renumber f) := by
      rw [← addresses_error_iff, ← addresses_shown_error_iff ho] at hover ⊢
      rw [h, addresses_renumber, hover]
      rfl
    rw [resolve_errors_of_overflows hover, resolve_errors_of_overflows hover', List.map_singleton]

theorem resolve_of_fits (h : Renumbers f statements statements') (ho : origin ≤ addressLimit)
    (hfits : Fits origin statements) :
    Renumbers f (resolve statements origin).statements (resolve statements' origin).statements ∧
      SymbolTable.Renumbered f (resolve statements origin).symbols
        (resolve statements' origin).symbols := by
  obtain ⟨htable, -⟩ := h.define origin
  rw [Assembly.resolve_of_fits hfits, Assembly.resolve_of_fits ((h.fits_iff ho).2 hfits)]
  exact ⟨h.resolved htable origin, htable⟩

/-! ## Encoding -/

theorem imageOf_eq (h : Renumbers f statements statements') :
    imageOf statements' = imageOf statements := by
  rw [← imageOf_shown, h, imageOf_renumber, imageOf_shown]

theorem encodingErrors_eq (h : Renumbers f statements statements') (hfits : Fits origin statements)
    (hfits' : Fits origin statements') : encodingErrors statements' =
      (encodingErrors statements).map (AssemblyError.renumber f) := by
  rw [encodingErrors_shown hfits, encodingErrors_shown hfits', h, encodingErrors_renumber]

end Renumbers
end DM2022.Assembly
