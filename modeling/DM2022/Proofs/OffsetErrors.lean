import DM2022.Proofs.Assembly.ResolutionErrors
import DM2022.Proofs.Assembly.Lines
import DM2022.Proofs.Instruction.Encoding
import DM2022.Proofs.ListingPrograms

/-!
# Offsets out of range

A resolved source can fail to be encoded for one reason only: the offset of an instruction
does not fit its part of the word. All else that an encoder refuses is refused by the reader
or settled by resolution.
-/
namespace DM2022

namespace Instruction

variable {i : Instruction} {error : EncodeError}

theorem Nameable.ne_illegal (h : i.Nameable) (code : Byte) : i.op ≠ .illegal code := by
  intro hop
  have hassigned := h.op
  rw [hop] at hassigned
  simp [Opcode.assigned] at hassigned

/-- Every number of the record but the offset fits its part of a word. -/
theorem Nameable.holds (h : i.Nameable) {p : Part} (hp : p ≠ .offset) : p.Holds (i.value p) := by
  have hcond := h.cond
  have htarget := h.target
  have hsrc1 := h.src1
  have hsrc2 := h.src2
  cases p with
  | opcode => exact holds_opcode h.op
  | offset => exact absurd rfl hp
  | _ =>
    simp only [Part.Holds, Part.least, Part.greatest, value]
    omega

theorem Nameable.encode_error_iff (h : i.Nameable) : i.encode = .error error ↔
    ¬Part.offset.Holds i.offset.toInt ∧
      error = .field .offset (.outOfRange i.offset.toInt (-512) 511) := by
  rw [Instruction.encode_error_iff]
  constructor
  · intro hrefused
    cases hrefused with
    | illegal hop => exact absurd hop (h.ne_illegal _)
    | @misfit _ _ part _ _ _ hmisfit =>
      by_cases hpart : part = .offset
      · subst hpart
        exact ⟨hmisfit, rfl⟩
      · exact absurd (h.holds hpart) hmisfit
  · intro hoffset
    obtain ⟨hmisfit, rfl⟩ := hoffset
    have horder : operandParts = [.predicate, .target, .src1, .src2] ++ .offset :: [] := rfl
    have hbefore : ∀ p ∈ [Part.predicate, .target, .src1, .src2], p ≠ .offset := by decide
    exact .misfit h.ne_illegal horder (fun p hp => h.holds (hbefore p hp)) hmisfit

end Instruction

namespace Assembly

variable {text : List Char} {origin : Nat} {table : SymbolTable} {statements : List Statement}
  {s : Statement} {errors : List AssemblyError}

/-- The statement is an instruction with this offset, which fits no word. -/
def Statement.Overreaches (s : Statement) (offset : Int) : Prop :=
  ∃ i ref, s.body = .instruction i ref ∧ i.offset.toInt = offset ∧ ¬(-512 ≤ offset ∧ offset ≤ 511)

def offsetError (line : Nat) (offset : Int) : AssemblyError :=
  ⟨line, .encoding (.field .offset (.outOfRange offset (-512) 511))⟩

/-- A readable statement whose operand is resolved has no encoding error but that of its
offset. -/
theorem encodingError?_eq_some_iff (hreadable : s.Readable) (hsettled : s.Settled)
    {e : AssemblyError} : s.encodingError? = some e ↔
      ∃ offset, s.Overreaches offset ∧ e = offsetError s.line offset := by
  have hbody := hreadable.body
  cases hs : s.body with
  | instruction i ref =>
    rw [hs] at hbody
    simp only [Statement.encodingError?, hs, encodeOperation_of_settled hsettled hs,
      Option.map_eq_some_iff, failure?_eq_some_iff, hbody.1.encode_error_iff]
    constructor
    · intro h
      obtain ⟨_, ⟨hmisfit, rfl⟩, rfl⟩ := h
      exact ⟨_, ⟨i, ref, hs, rfl, hmisfit⟩, rfl⟩
    · intro h
      obtain ⟨_, ⟨j, ref', hj, rfl, hmisfit⟩, rfl⟩ := h
      cases hs.symm.trans hj
      exact ⟨_, ⟨hmisfit, rfl⟩, rfl⟩
  | _ => simp [Statement.encodingError?, Statement.Overreaches, hs]

theorem pairwise_resolved (h : resolveSource text origin = .ok (statements, table)) :
    statements.Pairwise fun s t => s.line < t.line := by
  have hlines := map_resolved h (f := Statement.line) fun hs => (resolve_keeps hs).1
  rw [← List.pairwise_map (R := (· < ·)), hlines, List.pairwise_map]
  exact pairwise_statements text

/-- The encoding errors of a resolved source are those of its offsets. -/
theorem mem_encodingErrors_iff (h : resolveSource text origin = .ok (statements, table))
    {e : AssemblyError} : e ∈ encodingErrors statements ↔
      ∃ s ∈ statements, ∃ offset, s.Overreaches offset ∧ e = offsetError s.line offset := by
  rw [encodingErrors_of_fits (fits_resolved h), List.mem_filterMap]
  refine exists_congr fun s => and_congr_right fun hs => ?_
  obtain ⟨t, address, -, hresolve⟩ := exists_source_of_mem h hs
  exact encodingError?_eq_some_iff (readable_resolved h s hs) (settled_of_resolve hresolve)

theorem pairwise_encodingErrors (h : resolveSource text origin = .ok (statements, table)) :
    (encodingErrors statements).Pairwise fun d e => d.line < e.line := by
  have hline : ∀ s e, Statement.encodingError? s = some e → e.line = s.line := by
    intro s e hs
    rw [Statement.encodingError?] at hs
    split at hs
    · obtain ⟨cause, -, rfl⟩ := Option.map_eq_some_iff.1 hs
      rfl
    · cases hs
  rw [encodingErrors_of_fits (fits_resolved h), List.pairwise_filterMap]
  refine (pairwise_resolved h).imp fun {s t} hst d hd e he => ?_
  rw [hline s d hd, hline t e he]
  exact hst

theorem assemble_eq_of_resolved (h : resolveSource text origin = .ok (statements, table)) :
    assemble text origin = match encodingErrors statements with
      | [] => .ok ⟨statements, table, origin⟩
      | errors => .error errors := by
  rw [assemble, h]
  rfl

theorem assemble_error_iff (h : resolveSource text origin = .ok (statements, table)) :
    assemble text origin = .error errors ↔
      encodingErrors statements = errors ∧ errors ≠ [] := by
  rw [assemble_eq_of_resolved h]
  cases encodingErrors statements with
  | nil => simp
  | cons e rest =>
    simp only [Except.error.injEq]
    constructor
    · intro heq
      exact ⟨heq, heq ▸ List.cons_ne_nil e rest⟩
    · intro heq
      exact heq.1

/-- A resolved source is assembled, unless the offset of an instruction fits no word. Then the
errors are those of all these offsets, one for each such instruction, in the order of the
lines. -/
theorem assemble_of_resolved (h : resolveSource text origin = .ok (statements, table)) :
    (statements.Pairwise fun s t => s.line < t.line) ∧
    ((∃ errors, assemble text origin = .error errors) ↔
      ∃ s ∈ statements, ∃ offset, s.Overreaches offset) ∧
    (∀ errors, assemble text origin = .error errors →
      (errors.Pairwise fun d e => d.line < e.line) ∧
      ∀ e, e ∈ errors ↔
        ∃ s ∈ statements, ∃ offset, s.Overreaches offset ∧ e = offsetError s.line offset) ∧
    ((∀ s ∈ statements, ∀ offset, ¬s.Overreaches offset) →
      assemble text origin = .ok ⟨statements, table, origin⟩) := by
  have hmem := fun e => mem_encodingErrors_iff h (e := e)
  refine ⟨pairwise_resolved h, ⟨fun hfail => ?_, fun hfail => ?_⟩, fun errors herrors => ?_,
    fun hnone => ?_⟩
  · obtain ⟨errors, herrors⟩ := hfail
    obtain ⟨rfl, hne⟩ := (assemble_error_iff h).1 herrors
    obtain ⟨e, he⟩ := List.exists_mem_of_ne_nil _ hne
    obtain ⟨s, hs, offset, hover, -⟩ := (hmem e).1 he
    exact ⟨s, hs, offset, hover⟩
  · obtain ⟨s, hs, offset, hover⟩ := hfail
    have he := (hmem _).2 ⟨s, hs, offset, hover, rfl⟩
    exact ⟨_, (assemble_error_iff h).2 ⟨rfl, List.ne_nil_of_mem he⟩⟩
  · obtain ⟨rfl, -⟩ := (assemble_error_iff h).1 herrors
    exact ⟨pairwise_encodingErrors h, hmem⟩
  · have hnil : encodingErrors statements = [] := by
      rw [List.eq_nil_iff_forall_not_mem]
      intro e he
      obtain ⟨s, hs, offset, hover, -⟩ := (hmem e).1 he
      exact hnone s hs offset hover
    rw [assemble_eq_of_resolved h, hnil]

/-- A source with two offsets out of range, one of them that of a label operand. -/
theorem assemble_of_resolved_far_label :
    ∃ statements table,
      resolveSource "JUMP far\nADD r1,r2,r3[-513]\nRESERVE 600\nfar: HALT".toList 7 =
        .ok (statements, table) ∧
      assemble "JUMP far\nADD r1,r2,r3[-513]\nRESERVE 600\nfar: HALT".toList 7 =
        .error [offsetError 1 601, offsetError 2 (-513)] ∧
      ∃ s ∈ statements, s.Overreaches 601 := by
  obtain ⟨statements, table, h, herrors⟩ : ∃ statements table,
      resolveSource "JUMP far\nADD r1,r2,r3[-513]\nRESERVE 600\nfar: HALT".toList 7 =
        .ok (statements, table) ∧
      assemble "JUMP far\nADD r1,r2,r3[-513]\nRESERVE 600\nfar: HALT".toList 7 =
        .error [offsetError 1 601, offsetError 2 (-513)] := ⟨_, _, rfl, rfl⟩
  obtain ⟨-, -, hexact, -⟩ := assemble_of_resolved h
  obtain ⟨s, hs, offset, hover, he⟩ := ((hexact _ herrors).2 _).1 List.mem_cons_self
  obtain ⟨-, hproblem⟩ := AssemblyError.mk.inj he
  cases hproblem
  exact ⟨statements, table, h, herrors, s, hs, hover⟩

end Assembly
end DM2022
