import Mathlib.Algebra.GroupWithZero.Nat
import DM2022.Assembly.Image

/-!
# Layout and symbols of statements

Every statement starts where the statements before it end, so its address is the origin
and their sizes. A label has the address of the first statement that it labels.
-/
namespace DM2022.Assembly

variable {origin : Nat} {statements : List Statement}

/-! ## Addresses -/

/-- The addresses of statements that are laid out from `origin` on, without a limit. -/
def starts (origin : Nat) : List Statement → List Nat
  | [] => []
  | s :: rest => origin :: starts (origin + s.size) rest

/-- The last statement, if there is one, ends within the address range. -/
def Fits (origin : Nat) (statements : List Statement) : Prop :=
  statements = [] ∨ origin + imageSize statements ≤ addressLimit

/-- The statements with their addresses. -/
def placed (origin : Nat) (statements : List Statement) : List (Statement × Nat) :=
  statements.zip (starts origin statements)

theorem Fits.tail {s : Statement} {rest : List Statement} (h : Fits origin (s :: rest)) :
    origin + s.size ≤ addressLimit ∧ Fits (origin + s.size) rest := by
  rcases h with h | h
  · cases h
  · rw [imageSize] at h
    exact ⟨by omega, .inr (by omega)⟩

theorem addresses_ok_iff {layout : List Nat} :
    addresses origin statements = .ok layout ↔
      Fits origin statements ∧ layout = starts origin statements := by
  induction statements generalizing origin layout with
  | nil => simp [addresses, starts, Fits, eq_comm]
  | cons s rest ih =>
    rw [addresses, starts]
    constructor
    · intro h
      split at h
      · cases h
      · next hs =>
        cases hr : addresses (origin + s.size) rest with
        | error e => rw [hr] at h; cases h
        | ok tail =>
          rw [hr] at h
          cases h
          obtain ⟨hfits, rfl⟩ := ih.1 hr
          refine ⟨.inr ?_, rfl⟩
          rw [imageSize]
          rcases hfits with rfl | hfits
          · rw [imageSize]
            omega
          · omega
    · intro h
      obtain ⟨hfits, rfl⟩ := h
      obtain ⟨hs, htail⟩ := hfits.tail
      rw [if_neg (by omega), ih.2 ⟨htail, rfl⟩]
      rfl

theorem addresses_of_fits (h : Fits origin statements) :
    addresses origin statements = .ok (starts origin statements) :=
  addresses_ok_iff.2 ⟨h, rfl⟩

@[simp] theorem length_starts (origin : Nat) (statements : List Statement) :
    (starts origin statements).length = statements.length := by
  induction statements generalizing origin with
  | nil => rfl
  | cons s rest ih => rw [starts, List.length_cons, List.length_cons, ih]

@[simp] theorem length_placed (origin : Nat) (statements : List Statement) :
    (placed origin statements).length = statements.length := by
  rw [placed, List.length_zip, length_starts, Nat.min_self]

theorem map_fst_placed (origin : Nat) (statements : List Statement) :
    (placed origin statements).map Prod.fst = statements :=
  List.map_fst_zip (Nat.le_of_eq (length_starts origin statements).symm)

theorem placed_cons (origin : Nat) (s : Statement) (rest : List Statement) :
    placed origin (s :: rest) = (s, origin) :: placed (origin + s.size) rest := rfl

/-- A statement starts where the statements before it end. -/
theorem getElem?_placed (origin : Nat) {k : Nat} {s : Statement} (h : statements[k]? = some s) :
    (placed origin statements)[k]? = some (s, origin + imageSize (statements.take k)) := by
  induction statements generalizing origin k with
  | nil => cases h
  | cons t rest ih =>
    cases k with
    | zero =>
      cases h
      rfl
    | succ k =>
      have hrest := ih (origin + t.size) h
      rw [placed_cons, List.getElem?_cons_succ, hrest, List.take_succ_cons, imageSize,
        Nat.add_assoc]

theorem getElem?_placed_iff {k : Nat} {p : Statement × Nat} :
    (placed origin statements)[k]? = some p ↔
      statements[k]? = some p.1 ∧ p.2 = origin + imageSize (statements.take k) := by
  obtain ⟨s, address⟩ := p
  constructor
  · intro h
    have hs : statements[k]? = some s := by
      rw [← map_fst_placed origin statements, List.getElem?_map, h, Option.map_some]
    have hp := getElem?_placed origin hs
    cases h.symm.trans hp
    exact ⟨hs, rfl⟩
  · intro h
    obtain ⟨hs, rfl⟩ := h
    exact getElem?_placed origin hs

theorem imageSize_take_add {k : Nat} {s : Statement} (h : statements[k]? = some s) :
    imageSize (statements.take k) + s.size ≤ imageSize statements := by
  induction statements generalizing k with
  | nil => cases h
  | cons t rest ih =>
    cases k with
    | zero =>
      cases h
      rw [List.take_zero, imageSize, imageSize]
      omega
    | succ k =>
      have hrest := ih h
      rw [List.take_succ_cons, imageSize, imageSize]
      omega

/-- The words of a statement stand at its place in the image. -/
theorem getElem?_imageOf {k j : Nat} {s : Statement} (h : statements[k]? = some s)
    (hj : j < s.length) :
    (imageOf statements)[imageLength (statements.take k) + j]? = s.words[j]? := by
  induction statements generalizing k with
  | nil => cases h
  | cons t rest ih =>
    have happend : imageOf (t :: rest) = t.words ++ imageOf rest := List.flatMap_cons
    rw [happend]
    cases k with
    | zero =>
      cases h
      rw [List.take_zero, imageLength, Nat.zero_add,
        List.getElem?_append_left (by rw [Statement.length_words]; exact hj)]
    | succ k =>
      rw [List.take_succ_cons, imageLength, Nat.add_assoc,
        List.getElem?_append_right (by rw [Statement.length_words]; omega),
        Statement.length_words, Nat.add_sub_cancel_left]
      exact ih h

/-- The words of a statement are a slice of the image. -/
theorem slice_imageOf {k : Nat} {s : Statement} (h : statements[k]? = some s) :
    ((imageOf statements).drop (imageLength (statements.take k))).take s.length = s.words := by
  apply List.ext_getElem?
  intro j
  by_cases hj : j < s.length
  · rw [List.getElem?_take_of_lt hj, List.getElem?_drop, getElem?_imageOf h hj]
  · rw [List.getElem?_take_eq_none (by omega),
      List.getElem?_eq_none (by rw [s.length_words]; omega)]

/-! ## Sizes -/

/-- The size is the number of words, unless there are too many data words to count them. -/
theorem Statement.size_eq_length {s : Statement}
    (h : ∀ values, s.body = .data values → values.length < 0x100000000) : s.size = s.length := by
  rw [size, length]
  cases hbody : s.body with
  | data values => exact Nat.mod_eq_of_lt (h values hbody)
  | _ => rfl

theorem Statement.size_le_length (s : Statement) : s.size ≤ s.length := by
  rw [size, length]
  cases s.body with
  | data values => exact Nat.mod_le _ _
  | _ => exact Nat.le_refl _

theorem imageSize_le_length (statements : List Statement) :
    imageSize statements ≤ imageLength statements := by
  induction statements with
  | nil => exact Nat.le_refl 0
  | cons s rest ih => exact Nat.add_le_add s.size_le_length ih

theorem imageSize_eq_length (h : ∀ s ∈ statements, s.size = s.length) :
    imageSize statements = imageLength statements := by
  induction statements with
  | nil => rfl
  | cons s rest ih =>
    obtain ⟨hs, hrest⟩ := List.forall_mem_cons.1 h
    rw [imageSize, imageLength, hs, ih hrest]

theorem length_le_imageLength {s : Statement} (h : s ∈ statements) :
    s.length ≤ imageLength statements := by
  induction statements with
  | nil => cases h
  | cons t rest ih =>
    rw [imageLength]
    rcases List.mem_cons.1 h with rfl | h
    · omega
    · have := ih h
      omega

theorem overlongError?_eq_none {start : Nat} (h : Fits start statements) :
    overlongError? start statements = none := by
  induction statements generalizing start with
  | nil => rfl
  | cons s rest ih =>
    obtain ⟨hs, hrest⟩ := h.tail
    rw [overlongError?, if_neg (by omega), ih hrest]

theorem fits_zero (h : Fits origin statements) : Fits 0 statements := by
  rcases h with h | h
  · exact .inl h
  · exact .inr (by omega)

theorem encodingErrors_of_fits (h : Fits origin statements) :
    encodingErrors statements = statements.filterMap Statement.encodingError? := by
  rw [encodingErrors, overlongError?_eq_none (fits_zero h)]

theorem encodeStatements_ok_iff {words : List Word} : encodeStatements statements = .ok words ↔
    encodingErrors statements = [] ∧ imageOf statements = words := by
  rw [encodeStatements]
  cases encodingErrors statements <;> simp

theorem encodeStatements_error_iff {errors : List AssemblyError} :
    encodeStatements statements = .error errors ↔
      encodingErrors statements ≠ [] ∧ encodingErrors statements = errors := by
  rw [encodeStatements]
  cases encodingErrors statements <;> simp

theorem imageSize_eq_sum (statements : List Statement) :
    imageSize statements = (statements.map Statement.size).sum := by
  induction statements with
  | nil => rfl
  | cons s rest ih => rw [imageSize, ih, List.map_cons, List.sum_cons]

/-- Statements without a place do not move those after them. -/
theorem imageSize_take_eq {k j : Nat} (hkj : k ≤ j)
    (h : ∀ i s, k ≤ i → i < j → statements[i]? = some s → s.size = 0) :
    imageSize (statements.take j) = imageSize (statements.take k) := by
  induction hkj with
  | refl => rfl
  | @step j hkj ih =>
    have hj := ih fun i s hk hi => h i s hk (by omega)
    rw [← hj, List.take_add_one, imageSize_eq_sum, imageSize_eq_sum, List.map_append,
      List.sum_append]
    cases hs : statements[j]? with
    | none => rfl
    | some s => simp [h j s hkj (Nat.lt_succ_self j) hs]

/-! ## Symbols -/

/-- The labels that statements define, in their order. -/
def labels (statements : List Statement) : List String := statements.filterMap (·.label)

/-- The symbols of statements that start at `origin`. -/
def symbolsFrom (origin : Nat) (statements : List Statement) : SymbolTable :=
  (SymbolTable.empty.define (placed origin statements)).1

namespace SymbolTable

theorem define_labelled {table : SymbolTable} {s : Statement} {address : Nat}
    {rest : List (Statement × Nat)} {label : String} (h : s.label = some label) :
    table.define ((s, address) :: rest) = match table.find? label with
      | none => (table.insert label ⟨address, s.line⟩).define rest
      | some first => ((table.define rest).1,
          ⟨s.line, .duplicateLabel label first.line⟩ :: (table.define rest).2) := by
  cases hf : table.find? label with
  | none =>
    rw [define, h]
    simp only [hf]
  | some first =>
    rw [define, h]
    simp only [hf]

theorem define_unlabelled {table : SymbolTable} {s : Statement} {address : Nat}
    {rest : List (Statement × Nat)} (h : s.label = none) :
    table.define ((s, address) :: rest) = table.define rest := by
  rw [define, h]

/-- Statements without labels define nothing. -/
theorem define_of_unlabelled {statements : List (Statement × Nat)}
    (h : ∀ p ∈ statements, p.1.label = none) (table : SymbolTable) :
    table.define statements = (table, []) := by
  induction statements with
  | nil => rfl
  | cons p rest ih =>
    rw [define_unlabelled (h p List.mem_cons_self)]
    exact ih fun q hq => h q (List.mem_cons_of_mem p hq)

/-- The symbols of a table stay, and a new one is the first with its label. -/
theorem find?_define (table : SymbolTable) (statements : List (Statement × Nat))
    (name : String) : (table.define statements).1.find? name =
      (table.find? name).or ((statements.find? (·.1.label = some name)).map
        fun p => ⟨p.2, p.1.line⟩) := by
  induction statements generalizing table with
  | nil => simp [define]
  | cons p rest ih =>
    obtain ⟨s, address⟩ := p
    cases hl : s.label with
    | none =>
      rw [define_unlabelled hl, ih, List.find?_cons_of_neg]
      simp [hl]
    | some label =>
      rw [define_labelled hl]
      cases hf : table.find? label with
      | some first =>
        simp only
        rw [ih]
        by_cases hn : label = name
        · rw [← hn, hf]
          rfl
        · rw [List.find?_cons_of_neg]
          simp [hl, hn]
      | none =>
        simp only
        rw [ih, find?_insert]
        by_cases hn : label = name
        · rw [if_pos hn, ← hn, hf, List.find?_cons_of_pos]
          · rfl
          · simp [hl]
        · rw [if_neg hn, List.find?_cons_of_neg]
          simp [hl, hn]

/-- Every definition counts if and only if the labels are new and differ. -/
theorem define_errors_eq_nil_iff (table : SymbolTable) (statements : List (Statement × Nat)) :
    (table.define statements).2 = [] ↔ (labels (statements.map Prod.fst)).Nodup ∧
      ∀ name ∈ labels (statements.map Prod.fst), table.find? name = none := by
  induction statements generalizing table with
  | nil => simp [define, labels]
  | cons p rest ih =>
    obtain ⟨s, address⟩ := p
    cases hl : s.label with
    | none =>
      have hcons : labels (((s, address) :: rest).map Prod.fst) = labels (rest.map Prod.fst) :=
        List.filterMap_cons_none hl
      rw [define_unlabelled hl, ih, hcons]
    | some label =>
      have hcons : labels (((s, address) :: rest).map Prod.fst) =
          label :: labels (rest.map Prod.fst) := List.filterMap_cons_some hl
      rw [define_labelled hl, hcons, List.nodup_cons]
      cases hf : table.find? label with
      | some first => simp [hf]
      | none =>
        simp only
        rw [ih]
        constructor
        · intro h
          obtain ⟨hn, hnew⟩ := h
          have hlabel : label ∉ labels (rest.map Prod.fst) := by
            intro hm
            have h := hnew label hm
            rw [find?_insert, if_pos rfl] at h
            cases h
          refine ⟨⟨hlabel, hn⟩, fun name hm => ?_⟩
          rcases List.mem_cons.1 hm with rfl | hm
          · exact hf
          · have hne : label ≠ name := fun he => hlabel (he ▸ hm)
            have h := hnew name hm
            rw [find?_insert, if_neg hne] at h
            exact h
        · intro h
          obtain ⟨⟨hlabel, hn⟩, hnew⟩ := h
          refine ⟨hn, fun name hm => ?_⟩
          have hne : label ≠ name := fun he => hlabel (he ▸ hm)
          rw [find?_insert, if_neg hne]
          exact hnew name (List.mem_cons_of_mem _ hm)

theorem isLayout_of_mem_define {table : SymbolTable} {statements : List (Statement × Nat)}
    {e : AssemblyError} (h : e ∈ (table.define statements).2) : e.problem.isLayout = false := by
  induction statements generalizing table with
  | nil => cases h
  | cons p rest ih =>
    obtain ⟨s, address⟩ := p
    cases hl : s.label with
    | none =>
      rw [define_unlabelled hl] at h
      exact ih h
    | some label =>
      rw [define_labelled hl] at h
      cases hf : table.find? label with
      | none =>
        rw [hf] at h
        exact ih h
      | some first =>
        rw [hf] at h
        rcases List.mem_cons.1 h with rfl | h
        · rfl
        · exact ih h

end SymbolTable

theorem ofStatements_of_fits (h : Fits origin statements) :
    SymbolTable.ofStatements statements origin =
      SymbolTable.empty.define (placed origin statements) := by
  rw [SymbolTable.ofStatements, addresses_of_fits h]
  rfl

/-- The labels of statements are all defined if and only if they differ. -/
theorem define_placed_errors_eq_nil_iff :
    (SymbolTable.empty.define (placed origin statements)).2 = [] ↔ (labels statements).Nodup := by
  rw [SymbolTable.define_errors_eq_nil_iff, map_fst_placed]
  exact and_iff_left fun name _ => SymbolTable.find?_empty name

/-- A symbol is that of the first statement with its label. -/
theorem find?_symbolsFrom (origin : Nat) (statements : List Statement) (name : String) :
    (symbolsFrom origin statements).find? name =
      ((placed origin statements).find? (·.1.label = some name)).map
        fun p => ⟨p.2, p.1.line⟩ := by
  rw [symbolsFrom, SymbolTable.find?_define, SymbolTable.find?_empty, Option.none_or]

theorem symbolsFrom_of_unlabelled (h : ∀ s ∈ statements, s.label = none) (origin : Nat) :
    symbolsFrom origin statements = .empty := by
  have hplaced : ∀ p ∈ placed origin statements, p.1.label = none := by
    intro p hp
    exact h p.1 (List.of_mem_zip hp).1
  rw [symbolsFrom, SymbolTable.define_of_unlabelled hplaced]

/-- The address of a symbol is that of the first statement with its label. -/
theorem address?_symbolsFrom (origin : Nat) (statements : List Statement) (name : String) :
    (symbolsFrom origin statements).address? name =
      ((placed origin statements).find? (·.1.label = some name)).map Prod.snd := by
  rw [SymbolTable.address?, find?_symbolsFrom, Option.map_map]
  rfl

/-! ## Outlines -/

/-- What the layout depends on: the labels and the sizes of the statements that have either. -/
def outline (statements : List Statement) : List (Option String × Nat) :=
  (statements.map fun s => (s.label, s.size)).filter (· ≠ (none, 0))

/-- The size of the parts of an outline. -/
def sizeIn : List (Option String × Nat) → Nat
  | [] => 0
  | (_, size) :: rest => size + sizeIn rest

/-- The address of the first part with this label in an outline from `origin` on. -/
def addressIn (name : String) : Nat → List (Option String × Nat) → Option Nat
  | _, [] => none
  | origin, (label, size) :: rest =>
      if label = some name then some origin else addressIn name (origin + size) rest

theorem outline_cons_of_ne {s : Statement} (h : (s.label, s.size) ≠ (none, 0)) :
    outline (s :: statements) = (s.label, s.size) :: outline statements := by
  rw [outline, List.map_cons, List.filter_cons, if_pos (decide_eq_true h)]
  rfl

theorem outline_cons_of_eq {s : Statement} (h : (s.label, s.size) = (none, 0)) :
    outline (s :: statements) = outline statements := by
  rw [outline, List.map_cons, List.filter_cons_of_neg (by simp [h])]
  rfl

theorem imageSize_eq_of_outline (statements : List Statement) :
    imageSize statements = sizeIn (outline statements) := by
  induction statements with
  | nil => rfl
  | cons s rest ih =>
    by_cases h : (s.label, s.size) = (none, 0)
    · have hsize : s.size = 0 := congrArg Prod.snd h
      rw [outline_cons_of_eq h, imageSize, ih, hsize, Nat.zero_add]
    · rw [outline_cons_of_ne h, imageSize, ih, sizeIn]

theorem labels_eq_of_outline (statements : List Statement) :
    labels statements = (outline statements).filterMap Prod.fst := by
  induction statements with
  | nil => rfl
  | cons s rest ih =>
    by_cases h : (s.label, s.size) = (none, 0)
    · have hlabel : s.label = none := congrArg Prod.fst h
      rw [outline_cons_of_eq h, ← ih, labels, List.filterMap_cons_none hlabel]
      rfl
    · rw [outline_cons_of_ne h, List.filterMap_cons, ← ih, labels, List.filterMap_cons]
      rfl

theorem address?_eq_of_outline (origin : Nat) (statements : List Statement) (name : String) :
    (symbolsFrom origin statements).address? name =
      addressIn name origin (outline statements) := by
  rw [address?_symbolsFrom]
  induction statements generalizing origin with
  | nil => rfl
  | cons s rest ih =>
    rw [placed_cons]
    by_cases h : (s.label, s.size) = (none, 0)
    · have hlabel : s.label = none := congrArg Prod.fst h
      have hsize : s.size = 0 := congrArg Prod.snd h
      rw [List.find?_cons_of_neg (by simp [hlabel]), ih, hsize, outline_cons_of_eq h]
      rfl
    · rw [outline_cons_of_ne h, addressIn]
      by_cases hname : s.label = some name
      · rw [List.find?_cons_of_pos (by simpa using hname), if_pos hname]
        rfl
      · rw [List.find?_cons_of_neg (by simpa using hname), if_neg hname, ih]

end DM2022.Assembly
