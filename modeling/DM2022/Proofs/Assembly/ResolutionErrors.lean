import DM2022.Proofs.Assembly.Resolution

/-!
# Errors of resolution

Statements that do not fit the address range are refused for the first that ends past it.
Otherwise only labels can be wrong: one is defined by the first statement that it stands
before, so each further statement with it is an error, and so is an operand whose label no
statement has. Every offset between two addresses is a word.
-/
namespace DM2022.Assembly

variable {origin : Nat} {statements : List Statement} {e : AssemblyError}

/-- The error of the first statement that ends past the address range. -/
inductive Overflows (origin : Nat) (statements : List Statement) : AssemblyError → Prop
  | intro {k : Nat} {s : Statement} (hs : statements[k]? = some s)
      (first : ∀ j < k, origin + imageSize (statements.take (j + 1)) ≤ addressLimit)
      (past : addressLimit < origin + imageSize (statements.take (k + 1))) :
      Overflows origin statements
        ⟨s.line, .imageTooLarge (origin + imageSize (statements.take (k + 1)))⟩

/-- The error of a statement with the label of an earlier one, of which the first is named. -/
inductive Repeats (statements : List Statement) : AssemblyError → Prop
  | intro {j k : Nat} {first s : Statement} {label : String}
      (hfirst : statements[j]? = some first) (hs : statements[k]? = some s) (earlier : j < k)
      (hlabel : first.label = some label) (hagain : s.label = some label)
      (least : ∀ (i : Nat) t, statements[i]? = some t → t.label = some label → j ≤ i) :
      Repeats statements ⟨s.line, .duplicateLabel label first.line⟩

/-- The error of an operand whose label no statement has. -/
inductive Misses (statements : List Statement) : AssemblyError → Prop
  | intro {s : Statement} {i : Instruction} {ref : LabelRef} (hs : s ∈ statements)
      (hbody : s.body = .instruction i (some ref))
      (hnone : ∀ t ∈ statements, t.label ≠ some ref.name) :
      Misses statements ⟨s.line, .undefinedLabel ref.name⟩

/-! ## Layout -/

section Layout

variable {s : Statement} {rest : List Statement}

theorem add_imageSize_take_succ (k : Nat) : origin + imageSize ((s :: rest).take (k + 1)) =
    origin + s.size + imageSize (rest.take k) := by
  rw [List.take_succ_cons, imageSize, Nat.add_assoc]

theorem overflows_cons_of_past (h : addressLimit < origin + s.size) :
    Overflows origin (s :: rest) e ↔ e = ⟨s.line, .imageTooLarge (origin + s.size)⟩ := by
  have hend : origin + imageSize ((s :: rest).take 1) = origin + s.size :=
    add_imageSize_take_succ 0
  constructor
  · intro hover
    obtain @⟨k, t, hs, hfirst, -⟩ := hover
    cases k with
    | zero =>
      cases hs
      rw [hend]
    | succ k =>
      have hzero := hfirst 0 (Nat.succ_pos k)
      rw [Nat.zero_add, hend] at hzero
      omega
  · intro he
    rw [he, ← hend]
    refine .intro rfl (fun j hj => absurd hj (Nat.not_lt_zero j)) ?_
    rw [hend]
    exact h

/-- After a statement that fits, the others are laid out from its end. -/
theorem overflows_cons_of_le (h : origin + s.size ≤ addressLimit) :
    Overflows origin (s :: rest) e ↔ Overflows (origin + s.size) rest e := by
  constructor
  · intro hover
    obtain @⟨k, t, hs, hfirst, hlate⟩ := hover
    rw [add_imageSize_take_succ] at hlate ⊢
    cases k with
    | zero =>
      rw [List.take_zero, imageSize] at hlate
      omega
    | succ k =>
      refine .intro hs (fun j hj => ?_) hlate
      rw [← add_imageSize_take_succ]
      exact hfirst (j + 1) (Nat.succ_lt_succ hj)
  · intro hover
    obtain ⟨hs, hfirst, hlate⟩ := hover
    rw [← add_imageSize_take_succ] at hlate ⊢
    refine .intro hs (fun j hj => ?_) hlate
    rw [add_imageSize_take_succ]
    cases j with
    | zero =>
      rw [List.take_zero, imageSize]
      exact h
    | succ j => exact hfirst j (Nat.lt_of_succ_lt_succ hj)

end Layout

/-- Statements are refused for the first that ends past the address range. -/
theorem addresses_error_iff : addresses origin statements = .error e ↔
    Overflows origin statements e := by
  induction statements generalizing origin with
  | nil =>
    constructor
    · intro h
      cases h
    · intro h
      obtain ⟨hs, -, -⟩ := h
      cases hs
  | cons s rest ih =>
    rw [addresses]
    split
    · next hpast => rw [overflows_cons_of_past hpast, Except.error.injEq, eq_comm]
    · next hfits =>
      rw [overflows_cons_of_le (Nat.le_of_not_lt hfits), ← ih]
      cases addresses (origin + s.size) rest <;> simp [Except.map]

theorem exists_overflow (h : ¬Fits origin statements) : ∃ e, Overflows origin statements e := by
  cases ha : addresses origin statements with
  | ok layout => exact absurd (addresses_ok_iff.1 ha).1 h
  | error e => exact ⟨e, addresses_error_iff.1 ha⟩

theorem resolve_errors_of_overflows (h : Overflows origin statements e) :
    (resolve statements origin).errors = [e] := by
  have hlayout : e.problem.isLayout = true := by
    cases h
    rfl
  have hsymbols : SymbolTable.ofStatements statements origin = (.empty, [e]) := by
    rw [SymbolTable.ofStatements, addresses_error_iff.2 h]
  rw [resolve, hsymbols]
  simp only [List.any_cons, hlayout, Bool.true_or, if_true]

/-! ## Definitions -/

namespace SymbolTable

variable {table : SymbolTable}

theorem define_cons (table : SymbolTable) (p : Statement × Nat) (rest : List (Statement × Nat)) :
    table.define (p :: rest) = (((table.define [p]).1.define rest).1,
      (table.define [p]).2 ++ ((table.define [p]).1.define rest).2) := by
  obtain ⟨s, address⟩ := p
  cases hl : s.label with
  | none => rw [define_unlabelled hl, define_unlabelled hl]; rfl
  | some label =>
    rw [define_labelled hl, define_labelled hl]
    cases table.find? label <;> rfl

/-- A statement is an error if the table has its label. -/
theorem mem_define_singleton_iff {p : Statement × Nat} : e ∈ (table.define [p]).2 ↔
    ∃ label first, p.1.label = some label ∧ table.find? label = some first ∧
      e = ⟨p.1.line, .duplicateLabel label first.line⟩ := by
  obtain ⟨s, address⟩ := p
  cases hl : s.label with
  | none =>
    rw [define_unlabelled hl]
    simp [define]
  | some label =>
    rw [define_labelled hl]
    cases hf : table.find? label with
    | none => simp [define, hf]
    | some first => simp [define, hf]

/-- Every error is that of a statement, found with the table that those before it give. -/
theorem mem_define_iff {l : List (Statement × Nat)} : e ∈ (table.define l).2 ↔
    ∃ k p, l[k]? = some p ∧ e ∈ ((table.define (l.take k)).1.define [p]).2 := by
  induction l generalizing table with
  | nil => simp [define]
  | cons q rest ih =>
    rw [define_cons, List.mem_append, ih]
    constructor
    · intro h
      rcases h with h | ⟨k, p, hk, h⟩
      · exact ⟨0, q, rfl, h⟩
      · refine ⟨k + 1, p, hk, ?_⟩
        rw [List.take_succ_cons, define_cons table q]
        exact h
    · intro h
      obtain ⟨k, p, hk, h⟩ := h
      cases k with
      | zero =>
        cases hk
        exact .inl h
      | succ k =>
        rw [List.take_succ_cons, define_cons table q] at h
        exact .inr ⟨k, p, hk, h⟩

/-- The errors stand in the order of the statements. -/
theorem lines_define_sublist (table : SymbolTable) (l : List (Statement × Nat)) :
    ((table.define l).2.map (·.line)).Sublist (l.map (·.1.line)) := by
  induction l generalizing table with
  | nil => exact .slnil
  | cons p rest ih =>
    obtain ⟨s, address⟩ := p
    cases hl : s.label with
    | none =>
      rw [define_unlabelled hl]
      exact (ih table).cons _
    | some label =>
      rw [define_labelled hl]
      cases table.find? label with
      | none => exact (ih _).cons _
      | some first => exact (ih table).cons_cons _

end SymbolTable

/-- The symbol of a label before statement `k` is that of the first statement with it. -/
theorem find?_take_placed {k : Nat} {name : String} {symbol : Symbol} :
    (SymbolTable.empty.define ((placed origin statements).take k)).1.find? name = some symbol ↔
      ∃ j first, j < k ∧ statements[j]? = some first ∧ first.label = some name ∧
        (∀ (i : Nat) t, statements[i]? = some t → t.label = some name → j ≤ i) ∧
        symbol = ⟨origin + imageSize (statements.take j), first.line⟩ := by
  rw [SymbolTable.find?_define, SymbolTable.find?_empty, Option.none_or, Option.map_eq_some_iff]
  constructor
  · intro h
    obtain ⟨p, hp, rfl⟩ := h
    obtain ⟨hlabel, j, hj, rfl, hleast⟩ := List.find?_eq_some_iff_getElem.1 hp
    rw [List.length_take] at hj
    have hplace : (placed origin statements)[j]? = some ((placed origin statements)[j]) :=
      List.getElem?_eq_getElem _
    rw [List.getElem_take] at hlabel ⊢
    obtain ⟨hfirst, haddress⟩ := getElem?_placed_iff.1 hplace
    refine ⟨j, _, by omega, hfirst, by simpa using hlabel, fun i t ht htl => ?_, by rw [haddress]⟩
    apply Nat.le_of_not_lt
    intro hij
    have hi := hleast i hij
    rw [List.getElem_take] at hi
    have hp := getElem?_placed origin ht
    obtain ⟨_, hp⟩ := List.getElem?_eq_some_iff.1 hp
    rw [hp] at hi
    simp [htl] at hi
  · intro h
    obtain ⟨j, first, hjk, hfirst, hlabel, hleast, rfl⟩ := h
    have hp := getElem?_placed origin hfirst
    obtain ⟨hj, hp⟩ := List.getElem?_eq_some_iff.1 hp
    refine ⟨(first, origin + imageSize (statements.take j)), ?_, rfl⟩
    rw [List.find?_eq_some_iff_getElem]
    refine ⟨by simpa using hlabel, j, by rw [List.length_take]; omega,
      by rw [List.getElem_take, hp], fun i hi => ?_⟩
    rw [List.getElem_take]
    have hplace : (placed origin statements)[i]? = some ((placed origin statements)[i]) :=
      List.getElem?_eq_getElem _
    have hs := (getElem?_placed_iff.1 hplace).1
    have hne : (placed origin statements)[i].1.label ≠ some name := by
      intro hl
      have := hleast i _ hs hl
      omega
    simpa using hne

/-- The errors of a table are those of repeated labels. -/
theorem mem_define_placed_iff :
    e ∈ (SymbolTable.empty.define (placed origin statements)).2 ↔ Repeats statements e := by
  rw [SymbolTable.mem_define_iff]
  constructor
  · intro h
    obtain ⟨k, p, hk, h⟩ := h
    obtain ⟨label, symbol, hlabel, hsymbol, rfl⟩ := SymbolTable.mem_define_singleton_iff.1 h
    obtain ⟨j, first, hjk, hfirst, hfl, hleast, rfl⟩ := find?_take_placed.1 hsymbol
    exact .intro hfirst (getElem?_placed_iff.1 hk).1 hjk hfl hlabel hleast
  · intro h
    obtain ⟨hfirst, hs, hjk, hfl, hlabel, hleast⟩ := h
    refine ⟨_, _, getElem?_placed origin hs, SymbolTable.mem_define_singleton_iff.2 ?_⟩
    exact ⟨_, _, hlabel, find?_take_placed.2 ⟨_, _, hjk, hfirst, hfl, hleast, rfl⟩, rfl⟩

/-! ## Operands -/

/-- Statements that fit the address range end within it. -/
theorem Fits.end_le (h : Fits origin statements) {p : Statement × Nat}
    (hp : p ∈ placed origin statements) : p.2 + p.1.size ≤ addressLimit := by
  obtain ⟨k, hk⟩ := List.getElem?_of_mem hp
  obtain ⟨hs, haddress⟩ := getElem?_placed_iff.1 hk
  have htake := imageSize_take_add hs
  rcases h with hnil | hfits
  · rw [hnil] at hs
    cases hs
  · omega

/-- Every offset between two addresses is a word. -/
theorem signedWord?_offset {target address : Nat} (ht : target ≤ addressLimit)
    (ha : address + 1 ≤ addressLimit) (mode : Addressing) :
    ∃ word, signedWord? (mode.offset target address) = some word := by
  have hlimit : addressLimit = 0x7fffffff := rfl
  have hrange : -0x80000000 ≤ mode.offset target address ∧
      mode.offset target address ≤ 0x7fffffff := by
    cases mode with
    | relative =>
      simp only [Addressing.offset]
      omega
    | absolute =>
      simp only [Addressing.offset]
      omega
  exact ⟨_, if_pos hrange⟩

theorem address?_symbolsFrom_eq_none_iff {name : String} :
    (symbolsFrom origin statements).address? name = none ↔
      ∀ t ∈ statements, t.label ≠ some name := by
  rw [address?_symbolsFrom, Option.map_eq_none_iff, List.find?_eq_none]
  constructor
  · intro h t ht
    rw [← map_fst_placed origin statements] at ht
    obtain ⟨p, hp, rfl⟩ := List.mem_map.1 ht
    simpa using h p hp
  · intro h p hp
    simpa using h p.1 (List.of_mem_zip hp).1

theorem address?_symbolsFrom_le (h : Fits origin statements) {name : String} {target : Nat}
    (ht : (symbolsFrom origin statements).address? name = some target) :
    target ≤ addressLimit := by
  rw [address?_symbolsFrom] at ht
  obtain ⟨p, hp, rfl⟩ := Option.map_eq_some_iff.1 ht
  exact Nat.le_trans (Nat.le_add_right _ _) (h.end_le (List.mem_of_find?_eq_some hp))

theorem failure?_eq_some_iff {α ε : Type} {r : Except ε α} {e : ε} :
    failure? r = some e ↔ r = .error e := by
  cases r <;> simp [failure?]

section Operand

variable {table : SymbolTable} {address : Nat} {s : Statement} {i : Instruction} {ref : LabelRef}

theorem resolve_of_missing (hbody : s.body = .instruction i (some ref))
    (hname : table.address? ref.name = none) :
    s.resolve table address = .error ⟨s.line, .undefinedLabel ref.name⟩ := by
  rw [Statement.resolve, hbody]
  simp only [hname]

/-- An operand whose label has an address is resolved: between two addresses that fit, the offset
does. -/
theorem resolve_of_address (hbody : s.body = .instruction i (some ref)) {target : Nat}
    (hname : table.address? ref.name = some target) (htarget : target ≤ addressLimit)
    (haddress : address + 1 ≤ addressLimit) :
    ∃ offset : Word, offset.toInt = ref.mode.offset target address ∧
      s.resolve table address = .ok { s with
        body := .instruction { i with offset } (some { ref with target := some target }) } := by
  obtain ⟨offset, hoffset⟩ := signedWord?_offset htarget haddress ref.mode
  refine ⟨offset, (signedWord?_eq_some_iff.1 hoffset).symm, ?_⟩
  rw [Statement.resolve, hbody]
  simp only [hname, hoffset]

end Operand

/-- Among statements that fit, an operand whose label is defined is resolved. -/
theorem resolve_of_target (h : Fits origin statements) {p : Statement × Nat}
    (hp : p ∈ placed origin statements) {i : Instruction} {ref : LabelRef}
    (hbody : p.1.body = .instruction i (some ref)) {target : Nat}
    (htarget : (symbolsFrom origin statements).address? ref.name = some target) :
    ∃ s, p.1.resolve (symbolsFrom origin statements) p.2 = .ok s := by
  have hsize : p.1.size = 1 := by
    rw [Statement.size, hbody]
    rfl
  have hend : p.2 + 1 ≤ addressLimit := hsize ▸ h.end_le hp
  obtain ⟨_, -, hresolve⟩ :=
    resolve_of_address hbody htarget (address?_symbolsFrom_le h htarget) hend
  exact ⟨_, hresolve⟩

/-- The only error of an operand is that no statement has its label. -/
theorem resolve_error_iff (h : Fits origin statements) {p : Statement × Nat}
    (hp : p ∈ placed origin statements) :
    p.1.resolve (symbolsFrom origin statements) p.2 = .error e ↔
      ∃ i ref, p.1.body = .instruction i (some ref) ∧
        (∀ t ∈ statements, t.label ≠ some ref.name) ∧ e = ⟨p.1.line, .undefinedLabel ref.name⟩ := by
  constructor
  · intro he
    by_cases hbody : ∃ i ref, p.1.body = .instruction i (some ref)
    · obtain ⟨i, ref, hbody⟩ := hbody
      cases htarget : (symbolsFrom origin statements).address? ref.name with
      | none =>
        rw [resolve_of_missing hbody htarget, Except.error.injEq] at he
        exact ⟨i, ref, hbody, address?_symbolsFrom_eq_none_iff.1 htarget, he.symm⟩
      | some target =>
        obtain ⟨s, hs⟩ := resolve_of_target h hp hbody htarget
        cases he.symm.trans hs
    · rw [resolve_of_not_ref fun i ref hi => hbody ⟨i, ref, hi⟩] at he
      cases he
  · intro he
    obtain ⟨i, ref, hbody, hnone, rfl⟩ := he
    exact resolve_of_missing hbody (address?_symbolsFrom_eq_none_iff.2 hnone)

/-- The errors of operands are those of missing labels. -/
theorem mem_failures_iff (h : Fits origin statements) :
    e ∈ (placed origin statements).filterMap (fun p =>
      failure? (p.1.resolve (symbolsFrom origin statements) p.2)) ↔ Misses statements e := by
  rw [List.mem_filterMap]
  constructor
  · intro he
    obtain ⟨p, hp, he⟩ := he
    obtain ⟨i, ref, hbody, hnone, rfl⟩ := (resolve_error_iff h hp).1 (failure?_eq_some_iff.1 he)
    exact .intro (List.of_mem_zip hp).1 hbody hnone
  · intro he
    obtain ⟨hs, hbody, hnone⟩ := he
    obtain ⟨k, hk⟩ := List.getElem?_of_mem hs
    have hp := List.mem_of_getElem? (getElem?_placed origin hk)
    exact ⟨_, hp, failure?_eq_some_iff.2 ((resolve_error_iff h hp).2 ⟨_, _, hbody, hnone, rfl⟩)⟩

/-! ## Their order -/

theorem pairwise_placed (h : statements.Pairwise fun s t => s.line < t.line) :
    (placed origin statements).Pairwise fun p q => p.1.line < q.1.line := by
  have hstatements : ((placed origin statements).map Prod.fst).Pairwise
      fun s t => s.line < t.line := by
    rw [map_fst_placed]
    exact h
  rw [List.pairwise_map] at hstatements
  exact hstatements

/-- Statements on different lines have their label errors on different lines. -/
theorem pairwise_define (h : statements.Pairwise fun s t => s.line < t.line) :
    (SymbolTable.empty.define (placed origin statements)).2.Pairwise
      fun d e => d.line < e.line := by
  have hlines : ((placed origin statements).map (·.1.line)).Pairwise (· < ·) :=
    List.pairwise_map.2 (pairwise_placed h)
  exact List.pairwise_map.1 (hlines.sublist (SymbolTable.lines_define_sublist _ _))

theorem pairwise_failures (hfits : Fits origin statements)
    (h : statements.Pairwise fun s t => s.line < t.line) :
    ((placed origin statements).filterMap fun p =>
      failure? (p.1.resolve (symbolsFrom origin statements) p.2)).Pairwise
        fun d e => d.line < e.line := by
  have hline : ∀ p ∈ placed origin statements, ∀ e,
      failure? (p.1.resolve (symbolsFrom origin statements) p.2) = some e → e.line = p.1.line := by
    intro p hp e he
    obtain ⟨_, _, -, -, rfl⟩ := (resolve_error_iff hfits hp).1 (failure?_eq_some_iff.1 he)
    rfl
  rw [List.pairwise_filterMap]
  refine (pairwise_placed h).imp_of_mem fun {p q} hp hq hpq d hd e he => ?_
  rw [hline p hp d hd, hline q hq e he]
  exact hpq

end DM2022.Assembly
