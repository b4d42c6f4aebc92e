import DM2022.Proofs.Assembly.Operands
import DM2022.Assembly.Source

/-!
# What a source can say

Lines that are read give statements that can be written again: their labels are labels,
the fields of their instructions other than the offset fit a word, data are not empty, and
reserved words fit the address range.
-/
namespace DM2022

/-- The opcode is assigned, and the fields other than the offset fit their parts of a
word. -/
structure Instruction.Nameable (i : Instruction) : Prop where
  op : i.op ∈ Opcode.assigned
  cond : i.cond.bits.toNat < 16
  target : i.target.toNat < 16
  src1 : i.src1.toNat < 16
  src2 : i.src2.toNat < 16

theorem Opcode.mem_assigned_of_ofMnemonic? {name : List Char} {op : Opcode}
    (h : ofMnemonic? name = some op) : op ∈ assigned :=
  List.mem_of_find?_eq_some h

theorem Flags.toNat_ofLetter?_lt {c : Char} {flags : Flags} (h : ofLetter? c = some flags) :
    flags.bits.toNat < 16 := by
  obtain ⟨p, hp, rfl⟩ := Option.map_eq_some_iff.1 h
  have hall : ∀ q ∈ letters, q.1.bits.toNat < 16 := by decide
  exact hall p (List.mem_of_find?_eq_some hp)

theorem Flags.toNat_ofLetters?_lt {text : List Char} {flags : Flags}
    (h : ofLetters? text = some flags) : flags.bits.toNat < 16 := by
  induction text generalizing flags with
  | nil =>
    cases h
    decide
  | cons c rest ih =>
    obtain ⟨flag, hflag, h⟩ := Option.bind_eq_some_iff.1 h
    obtain ⟨others, hothers, rfl⟩ := Option.map_eq_some_iff.1 h
    have hunion : (flag.union others).bits.toNat = flag.bits.toNat ||| others.bits.toNat :=
      BitVec.toNat_or ..
    rw [hunion]
    exact Nat.or_lt_two_pow (n := 4) (toNat_ofLetter?_lt hflag) (ih hothers)

theorem Flags.toNat_ofText?_lt {text : List Char} {flags : Flags}
    (h : ofText? text = some flags) : flags.bits.toNat < 16 := by
  unfold ofText? at h
  simp only at h
  split at h
  · cases h
    decide
  · split at h
    · cases h
      decide
    · split at h
      · cases h
      · exact toNat_ofLetters?_lt h

theorem Register.toNat_zero_lt : Register.zero.toNat < 16 := by decide

theorem Register.toNat_pc_lt : Register.pc.toNat < 16 := by decide

theorem Register.toNat_ofName?_lt {name : List Char} {reg : Byte} (h : ofName? name = some reg) :
    reg.toNat < 16 := by
  unfold ofName? at h
  simp only at h
  split at h
  · cases h
    decide
  · split at h
    · cases h
      decide
    · split at h
      · obtain ⟨n, -, h⟩ := Option.bind_eq_some_iff.1 h
        split at h
        · next hn =>
          cases h
          rw [BitVec.toNat_ofNat]
          exact Nat.lt_of_le_of_lt (Nat.mod_le _ _) hn
        · cases h
      · cases h

namespace Assembly

variable {text operands : List Char} {body : Body}

/-- The body can be written and read again. -/
def Body.Readable : Body → Prop
  | .empty => True
  | .instruction instr ref => instr.Nameable ∧ ∀ r, ref = some r → isLabel r.name.toList
  | .data values => values ≠ []
  | .reserve count => count ≤ addressLimit

/-- The statement can be written and read again. -/
structure Statement.Readable (s : Statement) : Prop where
  label : ∀ name, s.label = some name → isLabel name.toList
  body : s.body.Readable

theorem toNat_readRegister_lt {reg : Byte} (h : readRegister text = .ok reg) :
    reg.toNat < 16 := by
  rw [readRegister, lookupRegister] at h
  cases hr : Register.ofName? text with
  | none =>
    rw [hr] at h
    cases h
  | some r =>
    rw [hr] at h
    cases h
    exact Register.toNat_ofName?_lt hr

theorem toNat_readDisplaced_lt {reg : Byte} {offset : Word}
    (h : readDisplaced text = .ok (reg, offset)) : reg.toNat < 16 := by
  rw [readDisplaced] at h
  split at h
  · obtain ⟨r, hr, h⟩ := bind_ok_iff.1 h
    cases h
    exact toNat_readRegister_lt hr
  · split at h
    · cases h
    · obtain ⟨r, hr, h⟩ := bind_ok_iff.1 h
      split at h
      · cases h
      · split at h
        · cases h
        · cases h
          exact toNat_readRegister_lt hr

/-- How a label is written as an operand. -/
def Addressing.operand (mode : Addressing) (name : String) : List Char :=
  match mode with
  | .relative => name.toList
  | .absolute => '@' :: name.toList

theorem readLabelRef_at (name : List Char) : readLabelRef ('@' :: name) =
    if isLabel name then .ok ⟨String.ofList name, .absolute, none⟩
    else .error (.malformed (.notLabel (String.ofList ('@' :: name)))) := rfl

theorem readLabelRef_of_ne (h : ∀ name, text ≠ '@' :: name) : readLabelRef text =
    if isLabel text then .ok ⟨String.ofList text, .relative, none⟩
    else .error (.malformed (.notLabel (String.ofList text))) := by
  unfold readLabelRef
  split
  next name mode hm =>
    split at hm
    · next name => exact absurd rfl (h name)
    · cases hm
      rfl

theorem ne_at_of_isLabel (h : isLabel text) (name : List Char) : text ≠ '@' :: name := by
  intro h
  subst h
  cases h

/-- A label operand is a label, with `@` before it for its address itself. -/
theorem readLabelRef_ok_iff {ref : LabelRef} : readLabelRef text = .ok ref ↔
    isLabel ref.name.toList ∧ ref.target = none ∧ text = ref.mode.operand ref.name := by
  constructor
  · intro h
    by_cases ha : ∃ name, text = '@' :: name
    · obtain ⟨name, rfl⟩ := ha
      rw [readLabelRef_at] at h
      split at h
      · next hl =>
        cases h
        exact ⟨by rwa [String.toList_ofList], rfl, by
          rw [Addressing.operand, String.toList_ofList]⟩
      · cases h
    · rw [readLabelRef_of_ne fun name hn => ha ⟨name, hn⟩] at h
      split at h
      · next hl =>
        cases h
        exact ⟨by rwa [String.toList_ofList], rfl, by
          rw [Addressing.operand, String.toList_ofList]⟩
      · cases h
  · intro h
    obtain ⟨hl, ht, rfl⟩ := h
    obtain ⟨name, mode, target⟩ := ref
    simp only at hl ht
    subst ht
    cases mode with
    | absolute =>
      rw [Addressing.operand, readLabelRef_at, if_pos hl, String.ofList_toList]
    | relative =>
      rw [Addressing.operand, readLabelRef_of_ne (ne_at_of_isLabel hl), if_pos hl,
        String.ofList_toList]

theorem readLabelRef_operand {name : String} (h : isLabel name.toList) (mode : Addressing) :
    readLabelRef (mode.operand name) = .ok ⟨name, mode, none⟩ :=
  readLabelRef_ok_iff.2 ⟨h, rfl, rfl⟩

theorem toNat_readPredicate_lt {predicate : Option (List Char)} {cond : Flags}
    (h : readPredicate predicate = .ok cond) : cond.bits.toNat < 16 := by
  cases predicate with
  | none =>
    cases h
    decide
  | some name =>
    rw [readPredicate, lookupPredicate] at h
    cases hf : Flags.ofText? name with
    | none =>
      simp only [hf] at h
      cases h
    | some flags =>
      simp only [hf] at h
      cases h
      exact Flags.toNat_ofText?_lt hf

theorem OperandForm.readable {op : Opcode} {cond : Flags} {operands : List (List Char)}
    (h : OperandForm op cond operands body) (hop : op ∈ Opcode.assigned)
    (hcond : cond.bits.toNat < 16) : body.Readable := by
  have hzero := Register.toNat_zero_lt
  have hpc := Register.toNat_pc_lt
  cases h with
  | halt hop' => exact ⟨⟨hop' ▸ hop, hcond, hzero, hzero, hzero⟩, by simp⟩
  | @jump _ ref hop' hlabel =>
    have hlabel := (readLabelRef_ok_iff.1 hlabel).1
    refine ⟨?_, fun r hr => by cases hr; exact hlabel⟩
    cases ref.mode with
    | relative => exact ⟨List.mem_of_elem_eq_true rfl, hcond, hpc, hzero, hpc⟩
    | absolute => exact ⟨List.mem_of_elem_eq_true rfl, hcond, hzero, hzero, hzero⟩
  | @label _ _ _ ref _ htarget hlabel =>
    have hlabel := (readLabelRef_ok_iff.1 hlabel).1
    have hbase : ref.mode.base.toNat < 16 := by
      cases ref.mode with
      | relative => exact hpc
      | absolute => exact hzero
    exact ⟨⟨hop, hcond, toNat_readRegister_lt htarget, hzero, hbase⟩,
      fun r hr => by cases hr; exact hlabel⟩
  | full htarget hsrc1 hsrc2 =>
    exact ⟨⟨hop, hcond, toNat_readRegister_lt htarget, toNat_readRegister_lt hsrc1,
      toNat_readDisplaced_lt hsrc2⟩, by simp⟩

theorem readData_ok_iff : readData operands = .ok body ↔ operands ≠ [] ∧ ∃ values,
    ((Text.pieces ',' operands).map Text.trim).map readValue = values.map .ok ∧
      body = .data values := by
  rw [readData]
  split
  · next h => simp [h]
  · next h =>
    rw [bind_ok_iff]
    constructor
    · intro h
      obtain ⟨values, hvalues, hbody⟩ := h
      cases hbody
      exact ⟨h, values, mapM_ok_iff.1 hvalues, rfl⟩
    · intro h
      obtain ⟨-, values, hvalues, rfl⟩ := h
      exact ⟨values, mapM_ok_iff.2 hvalues, rfl⟩

theorem readable_of_readData (h : readData operands = .ok body) : body.Readable := by
  obtain ⟨-, values, hvalues, rfl⟩ := readData_ok_iff.1 h
  intro h
  subst h
  rw [List.map_nil, List.map_map, List.map_eq_nil_iff] at hvalues
  exact Text.pieces_ne_nil _ _ hvalues

theorem readable_of_readReserve (h : readReserve operands = .ok body) : body.Readable := by
  rw [readReserve] at h
  split at h
  · cases h
  · split at h
    · next value hvalue hrange =>
      cases h
      have : value.toNat ≤ addressLimit := by omega
      exact this
    · cases h

theorem readable_of_readBody {code : List Char} (h : readBody code = .ok body) :
    body.Readable := by
  rw [readBody] at h
  simp only at h
  split at h
  · split at h
    · cases h
    · exact readable_of_readData h
  · split at h
    · split at h
      · cases h
      · exact readable_of_readReserve h
    · split at h
      · cases h
      · next op hop =>
        obtain ⟨cond, hcond, h⟩ := bind_ok_iff.1 h
        exact (readOperands_ok_iff.1 h).readable (Opcode.mem_assigned_of_ofMnemonic? hop)
          (toNat_readPredicate_lt hcond)

theorem isLabel_of_splitLabel {code rest : List Char} {name : String}
    (h : splitLabel code = .ok (some name, rest)) : isLabel name.toList := by
  rw [splitLabel] at h
  split at h
  · cases h
  · simp only at h
    split at h
    · next hl =>
      cases h
      rwa [String.toList_ofList]
    · cases h

theorem readLine_ok_iff {label : Option String} : readLine text = .ok (label, body) ↔
    ∃ code, splitLabel (lineCode text) = .ok (label, code) ∧
      if code = [] then body = .empty else readBody code = .ok body := by
  rw [readLine]
  rw [bind_ok_iff]
  constructor
  · intro h
    obtain ⟨⟨found, code⟩, hsplit, h⟩ := h
    cases hs : splitLabel (lineCode text) with
    | error e =>
      rw [hs] at hsplit
      cases hsplit
    | ok r =>
      rw [hs] at hsplit
      cases hsplit
      simp only at h
      split at h
      · next hc =>
        cases h
        exact ⟨code, rfl, by rw [if_pos hc]⟩
      · next hc =>
        obtain ⟨b, hb, h⟩ := bind_ok_iff.1 h
        cases h
        exact ⟨code, rfl, by rw [if_neg hc, hb]⟩
  · intro h
    obtain ⟨code, hsplit, h⟩ := h
    refine ⟨(label, code), by rw [hsplit]; rfl, ?_⟩
    simp only
    split at h
    · next hc =>
      rw [if_pos hc, h]
      rfl
    · next hc =>
      rw [if_neg hc, h]
      rfl

theorem statement_read_ok_iff {line : Nat} {s : Statement} :
    Statement.read text line = .ok s ↔ s.line = line ∧ readLine text = .ok (s.label, s.body) := by
  rw [Statement.read]
  obtain ⟨number, label, body⟩ := s
  cases readLine text with
  | error problem => simp
  | ok r =>
    obtain ⟨l, b⟩ := r
    simp [eq_comm]

theorem statement_read_error_iff {line : Nat} {e : AssemblyError} :
    Statement.read text line = .error e ↔ e.line = line ∧ readLine text = .error e.problem := by
  rw [Statement.read]
  obtain ⟨number, problem⟩ := e
  cases readLine text with
  | error found => simp [eq_comm]
  | ok r => simp

theorem readable_of_read {line : Nat} {s : Statement} (h : Statement.read text line = .ok s) :
    s.Readable := by
  obtain ⟨code, hsplit, hbody⟩ := readLine_ok_iff.1 (statement_read_ok_iff.1 h).2
  refine ⟨fun name hname => isLabel_of_splitLabel (hname ▸ hsplit), ?_⟩
  split at hbody
  · rw [hbody]
    trivial
  · exact readable_of_readBody hbody

theorem errorOf?_of_error {line : Nat} {e : AssemblyError}
    (h : Statement.read text line = .error e) : Source.errorOf? text line = some e := by
  rw [Source.errorOf?, h, failure?]

theorem errorOf?_of_ok {line : Nat} {s : Statement} (h : Statement.read text line = .ok s) :
    Source.errorOf? text line = none := by
  rw [Source.errorOf?, h, failure?]

theorem statementOf?_of_ok {line : Nat} {s : Statement} (h : Statement.read text line = .ok s) :
    Source.statementOf? text line = some s := by
  rw [Source.statementOf?, h]

/-- Lines without errors have a statement each. -/
theorem filterMap_read_iff (lines : List (List Char × Nat)) (statements : List Statement) :
    (lines.filterMap (fun p => Source.statementOf? p.1 p.2) = statements ∧
      lines.filterMap (fun p => Source.errorOf? p.1 p.2) = []) ↔
    lines.map (fun p => Statement.read p.1 p.2) = statements.map .ok := by
  induction lines generalizing statements with
  | nil => cases statements <;> simp
  | cons p rest ih =>
    cases hr : Statement.read p.1 p.2 with
    | error e =>
      simp only [List.filterMap_cons, errorOf?_of_error hr, List.map_cons, hr]
      constructor
      · intro h
        obtain ⟨-, h⟩ := h
        cases h
      · intro h
        cases statements <;> cases h
    | ok s =>
      simp only [List.filterMap_cons, errorOf?_of_ok hr, statementOf?_of_ok hr, List.map_cons, hr]
      cases statements with
      | nil => simp
      | cons t others =>
        rw [List.map_cons, List.cons.injEq, List.cons.injEq, Except.ok.injEq, and_assoc, ih]

/-- A source without errors has a statement for each of its lines. -/
theorem source_read_iff {statements : List Statement} :
    Source.read text = ⟨statements, []⟩ ↔
      (Source.numberedLines text).map (fun p => Statement.read p.1 p.2) =
        statements.map .ok := by
  rw [← filterMap_read_iff, Source.read, Source.mk.injEq]

theorem read_eq_of_errors (h : (Source.read text).errors = []) :
    Source.read text = ⟨(Source.read text).statements, []⟩ := by
  rw [← h]

theorem readable_of_mem_source (h : (Source.read text).errors = []) {s : Statement}
    (hs : s ∈ (Source.read text).statements) : s.Readable := by
  have hlines := source_read_iff.1 (read_eq_of_errors h)
  have hmem : Except.ok s ∈ (Source.numberedLines text).map fun p => Statement.read p.1 p.2 := by
    rw [hlines]
    exact List.mem_map_of_mem hs
  obtain ⟨p, -, hp⟩ := List.mem_map.1 hmem
  exact readable_of_read hp

/-- The statement of a line stands at the place of the line. -/
theorem getElem?_source (h : (Source.read text).errors = []) {k : Nat} {line : List Char}
    (hline : (Text.lines text)[k]? = some line) :
    ∃ s, Statement.read line (k + 1) = .ok s ∧ (Source.read text).statements[k]? = some s := by
  have hlines := congrArg (fun l => l[k]?) (source_read_iff.1 (read_eq_of_errors h))
  have hnumber : (Source.numberedLines text)[k]? = some (line, k + 1) := by
    rw [Source.numberedLines, List.getElem?_zipIdx, hline, Nat.add_comm]
    rfl
  simp only [List.getElem?_map, hnumber, Option.map_some] at hlines
  obtain ⟨s, hs, hread⟩ := Option.map_eq_some_iff.1 hlines.symm
  exact ⟨s, hread.symm, hs⟩

end Assembly
end DM2022
