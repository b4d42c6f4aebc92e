import DM2022.Proofs.Assembly.Layout

/-!
# Resolved statements

Resolution succeeds if the statements fit the address range, their labels differ and every
operand finds its label within reach. It changes nothing but label operands: each gets the
address of its label and the offset that reaches it.
-/
namespace DM2022.Assembly

variable {origin : Nat} {statements : List Statement}

theorem failure?_eq_none_iff {α ε : Type} {r : Except ε α} :
    failure? r = none ↔ ∃ a, r = .ok a := by
  cases r <;> simp [failure?]

/-- The statement after resolution; a statement in error stays as it is. -/
def resolved (table : SymbolTable) (p : Statement × Nat) : Statement :=
  (p.1.resolve table p.2).toOption.getD p.1

theorem resolved_of_ok {table : SymbolTable} {p : Statement × Nat} {s : Statement}
    (h : p.1.resolve table p.2 = .ok s) : resolved table p = s := by
  rw [resolved, h]
  rfl

theorem fixOperands_ok {layout : List Nat} (h : addresses origin statements = .ok layout)
    (table : SymbolTable) : fixOperands statements table origin = ((statements.zip layout).map (resolved table),
      (statements.zip layout).filterMap fun p => failure? (p.1.resolve table p.2)) := by
  rw [fixOperands, h]
  simp only [List.map_map, List.filterMap_map]
  rfl

theorem fixOperands_error {e : AssemblyError} (h : addresses origin statements = .error e)
    (table : SymbolTable) : fixOperands statements table origin = (statements, [e]) := by
  rw [fixOperands, h]

theorem resolve_of_fits (h : Fits origin statements) : resolve statements origin =
    ⟨(placed origin statements).map (resolved (symbolsFrom origin statements)),
      symbolsFrom origin statements,
      (SymbolTable.empty.define (placed origin statements)).2 ++
        (placed origin statements).filterMap fun p =>
          failure? (p.1.resolve (symbolsFrom origin statements) p.2)⟩ := by
  have hlayout : ((SymbolTable.empty.define (placed origin statements)).2.any
      (·.problem.isLayout)) = false := by
    rw [List.any_eq_false]
    intro e he
    rw [SymbolTable.isLayout_of_mem_define he]
    exact Bool.false_ne_true
  rw [resolve, ofStatements_of_fits h]
  simp only [hlayout, fixOperands_ok (addresses_of_fits h), Bool.false_eq_true, if_false]
  rfl

theorem resolve_errors_of_not_fits (h : ¬Fits origin statements) :
    (resolve statements origin).errors ≠ [] := by
  cases ha : addresses origin statements with
  | ok layout => exact absurd (addresses_ok_iff.1 ha).1 h
  | error e =>
    have hsymbols : SymbolTable.ofStatements statements origin = (.empty, [e]) := by
      rw [SymbolTable.ofStatements, ha]
    rw [resolve, hsymbols]
    simp only [fixOperands_error ha]
    split <;> simp

/-- When resolution succeeds. -/
theorem resolve_errors_eq_nil_iff : (resolve statements origin).errors = [] ↔
    Fits origin statements ∧ (labels statements).Nodup ∧
      ∀ p ∈ placed origin statements,
        ∃ s, p.1.resolve (symbolsFrom origin statements) p.2 = .ok s := by
  by_cases h : Fits origin statements
  · rw [resolve_of_fits h, List.append_eq_nil_iff, define_placed_errors_eq_nil_iff,
      List.filterMap_eq_nil_iff]
    simp only [h, true_and, failure?_eq_none_iff]
  · constructor
    · intro he
      exact absurd he (resolve_errors_of_not_fits h)
    · intro h
      obtain ⟨hfits, -⟩ := h
      exact absurd hfits h

/-- A source is resolved if its lines and its statements are in order. -/
theorem resolveSource_ok_iff {text : List Char} {table : SymbolTable} :
    resolveSource text origin = .ok (statements, table) ↔
      (Source.read text).errors = [] ∧
      (resolve (Source.read text).statements origin).errors = [] ∧
      (resolve (Source.read text).statements origin).statements = statements ∧
      (resolve (Source.read text).statements origin).symbols = table := by
  unfold resolveSource
  simp only
  constructor
  · intro h
    split at h
    · next hr =>
      split at h
      · next hs =>
        cases h
        exact ⟨hs, hr, rfl, rfl⟩
      · cases h
    · cases h
  · intro h
    obtain ⟨hs, hr, rfl, rfl⟩ := h
    rw [if_pos hr, if_pos hs]

/-! ## Resolved sources -/

variable {text : List Char} {table : SymbolTable} {s s' : Statement} {address : Nat}

theorem resolve_of_not_ref (h : ∀ i ref, s.body ≠ .instruction i (some ref)) :
    s.resolve table address = .ok s := by
  rw [Statement.resolve]
  split
  · next i ref hbody => exact absurd hbody (h i ref)
  · rfl

/-- A statement without a label operand stays as it is. A label operand is resolved to the
address of its label, if the offset to it is a word. -/
theorem resolve_cases (h : s.resolve table address = .ok s') :
    ((∀ i ref, s.body ≠ .instruction i (some ref)) ∧ s' = s) ∨
    ∃ i ref target word, s.body = .instruction i (some ref) ∧
      table.address? ref.name = some target ∧
      signedWord? (ref.mode.offset target address) = some word ∧
      s' = { s with
        body := .instruction { i with offset := word }
          (some { ref with target := some target }) } := by
  by_cases hbody : ∃ i ref, s.body = .instruction i (some ref)
  · obtain ⟨i, ref, hbody⟩ := hbody
    refine .inr ⟨i, ref, ?_⟩
    rw [Statement.resolve, hbody] at h
    simp only at h
    cases htarget : table.address? ref.name with
    | none =>
      rw [htarget] at h
      cases h
    | some target =>
      rw [htarget] at h
      cases hword : signedWord? (ref.mode.offset target address) with
      | none =>
        simp only [hword] at h
        cases h
      | some word =>
        simp only [hword] at h
        cases h
        exact ⟨target, word, hbody, rfl, hword, rfl⟩
  · have hplain : ∀ i ref, s.body ≠ .instruction i (some ref) :=
      fun i ref hi => hbody ⟨i, ref, hi⟩
    rw [resolve_of_not_ref hplain] at h
    cases h
    exact .inl ⟨hplain, rfl⟩

/-- Resolution keeps the line, the label and the size of a statement. -/
theorem resolve_keeps (h : s.resolve table address = .ok s') :
    s'.line = s.line ∧ s'.label = s.label ∧ s'.size = s.size := by
  rcases resolve_cases h with ⟨-, rfl⟩ | ⟨i, ref, target, word, hbody, -, -, rfl⟩
  · exact ⟨rfl, rfl, rfl⟩
  · refine ⟨rfl, rfl, ?_⟩
    rw [Statement.size, Statement.size, hbody]
    rfl

/-- Every statement of a resolved source comes from the statement at its place. -/
theorem getElem?_resolved (h : resolveSource text origin = .ok (statements, table)) {k : Nat}
    (hs : (Source.read text).statements[k]? = some s) : ∃ s', statements[k]? = some s' ∧
      s.resolve table (origin + imageSize ((Source.read text).statements.take k)) = .ok s' := by
  obtain ⟨-, hr, rfl, rfl⟩ := resolveSource_ok_iff.1 h
  obtain ⟨hfits, -, hall⟩ := resolve_errors_eq_nil_iff.1 hr
  have hplaced := getElem?_placed origin hs
  obtain ⟨s', hs'⟩ := hall _ (List.mem_of_getElem? hplaced)
  rw [resolve_of_fits hfits]
  refine ⟨s', ?_, hs'⟩
  rw [List.getElem?_map, hplaced, Option.map_some, resolved_of_ok hs']

theorem length_resolved (h : resolveSource text origin = .ok (statements, table)) :
    statements.length = (Source.read text).statements.length := by
  obtain ⟨-, hr, rfl, rfl⟩ := resolveSource_ok_iff.1 h
  rw [resolve_of_fits (resolve_errors_eq_nil_iff.1 hr).1, List.length_map,
    length_placed]

/-- What resolution keeps of every statement, it keeps of them all. -/
theorem map_resolved {α : Type} (h : resolveSource text origin = .ok (statements, table))
    {f : Statement → α}
    (hf : ∀ {s s' : Statement} {address : Nat}, s.resolve table address = .ok s' → f s' = f s) :
    statements.map f = (Source.read text).statements.map f := by
  have hlength := length_resolved h
  refine List.ext_getElem? fun k => ?_
  rw [List.getElem?_map, List.getElem?_map]
  cases hs : (Source.read text).statements[k]? with
  | none =>
    rw [List.getElem?_eq_none_iff] at hs
    rw [List.getElem?_eq_none (hlength ▸ hs)]
  | some s =>
    obtain ⟨s', hs', hresolve⟩ := getElem?_resolved h hs
    rw [hs', Option.map_some, Option.map_some, hf hresolve]

/-- Resolution keeps the outline of the statements, and of those before each of them. -/
theorem outline_take_resolved (h : resolveSource text origin = .ok (statements, table)) (k : Nat) :
    outline (statements.take k) = outline ((Source.read text).statements.take k) := by
  have hkept := map_resolved h (f := fun s => (s.label, s.size)) fun hs => by
    obtain ⟨-, hlabel, hsize⟩ := resolve_keeps hs
    rw [hlabel, hsize]
  rw [outline, outline, List.map_take, List.map_take, hkept]

theorem outline_resolved (h : resolveSource text origin = .ok (statements, table)) :
    outline statements = outline (Source.read text).statements := by
  have htake := outline_take_resolved h statements.length
  rw [List.take_length, length_resolved h, List.take_length] at htake
  exact htake

/-- Resolution leaves every statement at its place. -/
theorem imageSize_take_resolved (h : resolveSource text origin = .ok (statements, table))
    (k : Nat) :
    imageSize (statements.take k) = imageSize ((Source.read text).statements.take k) := by
  rw [imageSize_eq_of_outline, outline_take_resolved h, ← imageSize_eq_of_outline]

theorem symbols_resolved (h : resolveSource text origin = .ok (statements, table)) :
    table = symbolsFrom origin (Source.read text).statements := by
  obtain ⟨-, hr, -, rfl⟩ := resolveSource_ok_iff.1 h
  rw [resolve_of_fits (resolve_errors_eq_nil_iff.1 hr).1]

/-- Resolution does not change from where the statements fit. -/
theorem fits_resolved_iff (h : resolveSource text origin = .ok (statements, table)) {other : Nat} :
    Fits other statements ↔ Fits other (Source.read text).statements := by
  have hlength := length_resolved h
  have hsize : imageSize statements = imageSize (Source.read text).statements := by
    rw [imageSize_eq_of_outline, outline_resolved h, ← imageSize_eq_of_outline]
  rw [Fits, Fits, hsize, ← List.length_eq_zero_iff, hlength, List.length_eq_zero_iff]

theorem fits_resolved (h : resolveSource text origin = .ok (statements, table)) :
    Fits origin statements := by
  obtain ⟨-, hr, -, -⟩ := resolveSource_ok_iff.1 h
  exact (fits_resolved_iff h).2 (resolve_errors_eq_nil_iff.1 hr).1

theorem labels_nodup_resolved (h : resolveSource text origin = .ok (statements, table)) :
    (labels statements).Nodup := by
  obtain ⟨-, hr, -, -⟩ := resolveSource_ok_iff.1 h
  rw [labels_eq_of_outline, outline_resolved h, ← labels_eq_of_outline]
  exact (resolve_errors_eq_nil_iff.1 hr).2.1

/-- A symbol has the address and the line of a statement with its label. -/
theorem labelled_of_find? (h : resolveSource text origin = .ok (statements, table))
    {name : String} {symbol : Symbol} (hname : table.find? name = some symbol) :
    ∃ j s, statements[j]? = some s ∧ s.label = some name ∧
      symbol = ⟨origin + imageSize (statements.take j), s.line⟩ := by
  rw [symbols_resolved h, find?_symbolsFrom] at hname
  obtain ⟨p, hp, rfl⟩ := Option.map_eq_some_iff.1 hname
  obtain ⟨j, hj⟩ := List.getElem?_of_mem (List.mem_of_find?_eq_some hp)
  have hlabel : p.1.label = some name := by simpa using List.find?_some hp
  obtain ⟨hs, hplace⟩ := getElem?_placed_iff.1 hj
  obtain ⟨s', hs', hresolve⟩ := getElem?_resolved h hs
  obtain ⟨hline, hlabel', -⟩ := resolve_keeps hresolve
  refine ⟨j, s', hs', hlabel'.trans hlabel, ?_⟩
  rw [imageSize_take_resolved h j, hline, hplace]

/-- A symbol has the address of a statement with its label. -/
theorem labelled_of_address? (h : resolveSource text origin = .ok (statements, table))
    {name : String} {target : Nat} (hname : table.address? name = some target) :
    ∃ j s, statements[j]? = some s ∧ s.label = some name ∧
      target = origin + imageSize (statements.take j) := by
  obtain ⟨symbol, hsymbol, rfl⟩ := Option.map_eq_some_iff.1 hname
  obtain ⟨j, s, hs, hlabel, rfl⟩ := labelled_of_find? h hsymbol
  exact ⟨j, s, hs, hlabel, rfl⟩

/-- Every label of a resolved source is a symbol. -/
theorem find?_isSome_of_label (h : resolveSource text origin = .ok (statements, table)) {k : Nat}
    {name : String} (hs : statements[k]? = some s) (hlabel : s.label = some name) :
    (table.find? name).isSome := by
  have hk : k < (Source.read text).statements.length := by
    rw [← length_resolved h]
    exact (List.getElem?_eq_some_iff.1 hs).1
  have hsource := List.getElem?_eq_getElem hk
  obtain ⟨t, ht, hresolve⟩ := getElem?_resolved h hsource
  cases hs.symm.trans ht
  have hplace := List.mem_of_getElem? (getElem?_placed origin hsource)
  rw [symbols_resolved h, find?_symbolsFrom, Option.isSome_map, List.find?_isSome]
  exact ⟨_, hplace, by simpa [← (resolve_keeps hresolve).2.1] using hlabel⟩

end DM2022.Assembly
