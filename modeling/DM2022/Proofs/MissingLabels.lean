import DM2022.Proofs.Assembly.Lines
import DM2022.Proofs.Assembly.ResolutionErrors
import DM2022.Proofs.Directives
import DM2022.Proofs.Instruction.Encoding

/-!
# Missing labels

Label operands can be resolved by the symbols of other statements than their own. An operand whose
label is no symbol is reported and still waits for an address, and just these operands keep their
instructions from being encoded. Every other one gets the address of its label and the offset that
reaches it, and nothing else changes.
-/
namespace DM2022.Assembly

variable {origin base address : Nat} {statements defining : List Statement} {table : SymbolTable}
  {s s' : Statement} {i : Instruction} {ref : LabelRef} {name : String} {symbol : Symbol}
  {e : AssemblyError}

/-- The label operand of the statement, if it has one, has no address yet. -/
def Statement.Waiting (s : Statement) : Prop :=
  ∀ i ref, s.body = .instruction i (some ref) → ref.target = none

def Statement.missing? (table : SymbolTable) (s : Statement) : Option AssemblyError :=
  match s.body with
  | .instruction _ (some ref) =>
      if table.find? ref.name = none then some ⟨s.line, .undefinedLabel ref.name⟩ else none
  | _ => none

/-- What the table makes of a statement at `address`. An operand whose label is a symbol gets its
address, and the instruction the offset: from the next instruction on if the operand is relative,
the address itself if it is absolute. All else stays. -/
inductive Statement.FixedAt (table : SymbolTable) (address : Nat) : Statement → Statement → Prop
  | plain {s : Statement} (hbody : ∀ i ref, s.body ≠ .instruction i (some ref)) :
      FixedAt table address s s
  | missing {s : Statement} {i : Instruction} {ref : LabelRef}
      (hbody : s.body = .instruction i (some ref)) (hname : table.find? ref.name = none) :
      FixedAt table address s s
  | relative {line : Nat} {label : Option String} {i : Instruction} {name : String}
      {target : Option Nat} {symbol : Symbol} {offset : Word}
      (hname : table.find? name = some symbol)
      (hoffset : offset.toInt = (symbol.address : Int) - (address + 1)) :
      FixedAt table address ⟨line, label, .instruction i (some ⟨name, .relative, target⟩)⟩
        ⟨line, label, .instruction { i with offset }
          (some ⟨name, .relative, some symbol.address⟩)⟩
  | absolute {line : Nat} {label : Option String} {i : Instruction} {name : String}
      {target : Option Nat} {symbol : Symbol} {offset : Word}
      (hname : table.find? name = some symbol) (hoffset : offset.toInt = symbol.address) :
      FixedAt table address ⟨line, label, .instruction i (some ⟨name, .absolute, target⟩)⟩
        ⟨line, label, .instruction { i with offset }
          (some ⟨name, .absolute, some symbol.address⟩)⟩

/-! ## What is read -/

theorem target_of_readBody {code : List Char}
    (h : readBody code = .ok (.instruction i (some ref))) : ref.target = none := by
  rcases readBody_cases (splitWord_eq_iff.1 rfl) h with hdata | hreserve | ⟨op, cond, -, hform⟩
  · obtain ⟨-, values, -, hbody⟩ := readData_ok_iff.1 hdata
    cases hbody
  · obtain ⟨count, -, -, hbody⟩ := readReserve_ok_iff.1 hreserve
    cases hbody
  · generalize splitOperands _ = operands at hform
    cases readOperands_ok_iff.1 hform with
    | jump _ hlabel => exact (readLabelRef_ok_iff.1 hlabel).2.1
    | label _ _ hlabel => exact (readLabelRef_ok_iff.1 hlabel).2.1

theorem waiting_of_mem_source {text : List Char} (h : s ∈ (Source.read text).statements) :
    s.Waiting := by
  intro i ref hbody
  obtain ⟨k, line, -, hkeeps⟩ := mem_statements_iff.1 h
  cases hkeeps with
  | said hread =>
    obtain ⟨code, -, hcode⟩ := readLine_ok_iff.1 (statement_read_ok_iff.1 hread).2
    rw [hbody] at hcode
    split at hcode
    · cases hcode
    · exact target_of_readBody hcode
  | label _ _ heq =>
    rw [heq] at hbody
    cases hbody

/-! ## One statement -/

theorem missing?_of_not_ref (h : ∀ i ref, s.body ≠ .instruction i (some ref)) :
    s.missing? table = none := by
  rw [Statement.missing?]
  split
  · next i ref hbody => exact absurd hbody (h i ref)
  · rfl

theorem missing?_of_ref (hbody : s.body = .instruction i (some ref)) : s.missing? table =
    if table.find? ref.name = none then some ⟨s.line, .undefinedLabel ref.name⟩ else none := by
  rw [Statement.missing?, hbody]

section Step

variable (htable : ∀ name symbol, table.find? name = some symbol → symbol.address ≤ addressLimit)
  (hend : address + s.size ≤ addressLimit)

include htable hend

/-- The cases of a statement that ends within the address range, with a table whose symbols lie
within it. -/
theorem resolve_within_cases :
    (∀ i ref, s.body ≠ .instruction i (some ref)) ∨
    (∃ i ref, s.body = .instruction i (some ref) ∧ table.find? ref.name = none ∧
      s.resolve table address = .error ⟨s.line, .undefinedLabel ref.name⟩) ∨
    ∃ i ref symbol offset, s.body = .instruction i (some ref) ∧
      table.find? ref.name = some symbol ∧
      BitVec.toInt offset = ref.mode.offset symbol.address address ∧
      s.resolve table address = .ok { s with
        body := .instruction { i with offset }
          (some { ref with target := some symbol.address }) } := by
  by_cases hbody : ∃ i ref, s.body = .instruction i (some ref)
  · obtain ⟨i, ref, hbody⟩ := hbody
    have hsize : s.size = 1 := by
      rw [Statement.size, hbody]
      rfl
    cases hname : table.find? ref.name with
    | none =>
      have hnone : table.address? ref.name = none := by
        rw [SymbolTable.address?, hname, Option.map_none]
      exact .inr (.inl ⟨i, ref, hbody, hname, resolve_of_missing hbody hnone⟩)
    | some symbol =>
      have haddress : table.address? ref.name = some symbol.address := by
        rw [SymbolTable.address?, hname, Option.map_some]
      obtain ⟨offset, hoffset, hresolve⟩ :=
        resolve_of_address hbody haddress (htable _ _ hname) (hsize ▸ hend)
      exact .inr (.inr ⟨i, ref, symbol, offset, hbody, hname, hoffset, hresolve⟩)
  · exact .inl fun i ref hi => hbody ⟨i, ref, hi⟩

theorem failure?_resolve_eq : failure? (s.resolve table address) = s.missing? table := by
  rcases resolve_within_cases htable hend with hplain | ⟨i, ref, hbody, hname, hresolve⟩ |
    ⟨i, ref, symbol, offset, hbody, hname, -, hresolve⟩
  · rw [resolve_of_not_ref hplain, missing?_of_not_ref hplain, failure?]
  · rw [hresolve, missing?_of_ref hbody, if_pos hname, failure?]
  · rw [hresolve, missing?_of_ref hbody, hname, if_neg (Option.some_ne_none symbol), failure?]

theorem fixedAt_resolved : s.FixedAt table address (resolved table (s, address)) := by
  rcases resolve_within_cases htable hend with hplain | ⟨i, ref, hbody, hname, hresolve⟩ |
    ⟨i, ref, symbol, offset, hbody, hname, hoffset, hresolve⟩
  · rw [resolved_of_ok (resolve_of_not_ref hplain)]
    exact .plain hplain
  · have hkept : resolved table (s, address) = s := by
      rw [resolved, hresolve]
      rfl
    rw [hkept]
    exact .missing hbody hname
  · rw [resolved_of_ok hresolve]
    obtain ⟨line, label, body⟩ := s
    obtain ⟨name, mode, target⟩ := ref
    cases hbody
    cases mode with
    | relative => exact .relative hname hoffset
    | absolute => exact .absolute hname hoffset

end Step

/-! ## Encoding -/

theorem encode_ne_unresolved (i : Instruction) (name : String) :
    i.encode ≠ .error (.unresolvedLabel name) := by
  intro h
  cases Instruction.encode_error_iff.1 h

/-- Encoding asks for an address if and only if a label operand has none. -/
theorem encodeOperation_unresolved_iff {ref : Option LabelRef} :
    encodeOperation i ref = .error (.unresolvedLabel name) ↔
      ∃ mode, ref = some ⟨name, mode, none⟩ := by
  cases ref with
  | none =>
    refine iff_of_false (encode_ne_unresolved i name) fun h => ?_
    obtain ⟨_, h⟩ := h
    cases h
  | some ref =>
    obtain ⟨label, mode, target⟩ := ref
    cases target with
    | none => simp [encodeOperation]
    | some target =>
      refine iff_of_false (encode_ne_unresolved i name) fun h => ?_
      obtain ⟨_, h⟩ := h
      cases h

/-- An operand that was waiting keeps its instruction from being encoded if and only if its label
is missing. -/
theorem Statement.FixedAt.unresolved_iff (h : s.FixedAt table address s') (hs : s.Waiting)
    {ref : Option LabelRef} (hbody : s'.body = .instruction i ref) :
    encodeOperation i ref = .error (.unresolvedLabel name) ↔
      s.missing? table = some ⟨s.line, .undefinedLabel name⟩ := by
  rw [encodeOperation_unresolved_iff]
  cases h with
  | plain hplain =>
    rw [missing?_of_not_ref hplain]
    refine iff_of_false (fun h => ?_) (Option.some_ne_none _).symm
    obtain ⟨mode, rfl⟩ := h
    exact hplain _ _ hbody
  | missing hbody' hname =>
    rw [missing?_of_ref hbody', if_pos hname]
    cases hbody.symm.trans hbody'
    have htarget := hs _ _ hbody'
    constructor
    · rintro ⟨mode, href⟩
      cases href
      rfl
    · intro he
      cases he
      exact ⟨_, by rw [← htarget]⟩
  | relative hname =>
    rw [missing?_of_ref rfl, hname, if_neg (Option.some_ne_none _)]
    cases hbody
    refine iff_of_false (fun h => ?_) (Option.some_ne_none _).symm
    obtain ⟨_, h⟩ := h
    cases h
  | absolute hname =>
    rw [missing?_of_ref rfl, hname, if_neg (Option.some_ne_none _)]
    cases hbody
    refine iff_of_false (fun h => ?_) (Option.some_ne_none _).symm
    obtain ⟨_, h⟩ := h
    cases h

/-! ## All statements -/

theorem address_le_of_find? (defining : List Statement) (base : Nat) (name : String)
    (symbol : Symbol) (h : (SymbolTable.ofStatements defining base).1.find? name = some symbol) :
    symbol.address ≤ addressLimit := by
  by_cases hfits : Fits base defining
  · rw [ofStatements_of_fits hfits, ← symbolsFrom] at h
    have haddress : (symbolsFrom base defining).address? name = some symbol.address := by
      rw [SymbolTable.address?, h, Option.map_some]
    exact address?_symbolsFrom_le hfits haddress
  · obtain ⟨e, he⟩ := exists_overflow hfits
    rw [SymbolTable.ofStatements, addresses_error_iff.2 he] at h
    cases h

/-- Statements that wait for their addresses are fixed by the symbols of any statements. If they
fit from `origin`, the errors are those of missing labels, in the order of the statements; each
statement is fixed at its own address, and asks for the address of a label when it is encoded if
and only if it was reported for that label. If they do not fit, the only error is that of the
first one past the address range, and they stay as they are. -/
theorem fixOperands_of_waiting (hwaiting : ∀ s ∈ statements, s.Waiting)
    (htable : (SymbolTable.ofStatements defining base).1 = table) (origin : Nat) :
    (Fits origin statements →
      (fixOperands statements table origin).2 = statements.filterMap (·.missing? table) ∧
      (fixOperands statements table origin).1.length = statements.length ∧
      ∀ (k : Nat) (s : Statement), statements[k]? = some s →
        ∃ s', (fixOperands statements table origin).1[k]? = some s' ∧
          s.FixedAt table (origin + imageSize (statements.take k)) s' ∧
          ∀ i ref, s'.body = .instruction i ref → ∀ name,
            encodeOperation i ref = .error (.unresolvedLabel name) ↔
              s.missing? table = some ⟨s.line, .undefinedLabel name⟩) ∧
    (¬Fits origin statements → ∃ e, Overflows origin statements e ∧
      fixOperands statements table origin = (statements, [e])) := by
  have hsymbols : ∀ name symbol, table.find? name = some symbol →
      symbol.address ≤ addressLimit := by
    rw [← htable]
    exact address_le_of_find? defining base
  constructor
  · intro hfits
    rw [fixOperands_ok (addresses_of_fits hfits) table, ← placed]
    refine ⟨?_, ?_, fun k s hs => ?_⟩
    · calc (placed origin statements).filterMap (fun p => failure? (p.1.resolve table p.2))
          = (placed origin statements).filterMap fun p => p.1.missing? table :=
            List.filterMap_congr fun p hp => failure?_resolve_eq hsymbols (hfits.end_le hp)
        _ = ((placed origin statements).map Prod.fst).filterMap (·.missing? table) :=
            by rw [List.filterMap_map]; rfl
        _ = statements.filterMap (·.missing? table) := by rw [map_fst_placed]
    · rw [List.length_map, length_placed]
    · have hplaced := getElem?_placed origin hs
      have hfixed := fixedAt_resolved hsymbols (hfits.end_le (List.mem_of_getElem? hplaced))
      refine ⟨_, by rw [List.getElem?_map, hplaced, Option.map_some], hfixed, ?_⟩
      intro i ref hbody name
      exact hfixed.unresolved_iff (hwaiting s (List.mem_of_getElem? hs)) hbody
  · intro hfits
    obtain ⟨e, he⟩ := exists_overflow hfits
    exact ⟨e, he, fixOperands_error (addresses_error_iff.2 he) table⟩

/-- Operands fixed by the symbols of another program, which has no `z`, from an address where they
fit and from one where they do not. -/
theorem fixOperands_of_waiting_other_program :
    ∃ statements table,
      statements = (Source.read "JUMP x\nLOAD r1,@y\nz: JUMP z".toList).statements ∧
      (SymbolTable.ofStatements (Source.read "x: HALT\ny: DATA 7".toList).statements 5).1 =
        table ∧
      (∀ s ∈ statements, s.Waiting) ∧ Fits 100 statements ∧
      (fixOperands statements table 100).2 = [⟨3, .undefinedLabel "z"⟩] ∧
      (∃ s s', statements[1]? = some s ∧ (fixOperands statements table 100).1[1]? = some s' ∧
        s.FixedAt table 101 s' ∧ s.missing? table = none) ∧
      ¬Fits 0x7ffffffe statements ∧
      ∃ e, Overflows 0x7ffffffe statements e ∧
        fixOperands statements table 0x7ffffffe = (statements, [e]) := by
  have hwaiting : ∀ s ∈ (Source.read "JUMP x\nLOAD r1,@y\nz: JUMP z".toList).statements,
      s.Waiting := fun s => waiting_of_mem_source
  have hfits : Fits 100 (Source.read "JUMP x\nLOAD r1,@y\nz: JUMP z".toList).statements :=
    .inr (by decide)
  have hlate : ¬Fits 0x7ffffffe
      (Source.read "JUMP x\nLOAD r1,@y\nz: JUMP z".toList).statements := by
    rintro (h | h)
    · cases h
    · exact absurd h (by decide)
  obtain ⟨herrors, -, hfixed⟩ := (fixOperands_of_waiting hwaiting rfl 100).1 hfits
  obtain ⟨s', hs', hfixedAt, -⟩ := hfixed 1 _ rfl
  exact ⟨_, _, rfl, rfl, hwaiting, hfits, herrors, ⟨_, s', rfl, hs', hfixedAt, rfl⟩, hlate,
    (fixOperands_of_waiting hwaiting rfl 0x7ffffffe).2 hlate⟩

end DM2022.Assembly
