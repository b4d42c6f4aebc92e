import Mathlib.Data.List.Forall2
import DM2022.Proofs.OffsetErrors

/-!
# Relocation

A source that is resolved for one origin is resolved for every other one from which its
statements fit. All addresses move by the distance of the origins: those of the symbols, the
targets of label operands, and so the offsets of absolute ones. A relative offset is the
distance of two addresses and stays, and with it the words of a source that has no absolute
label operand.
-/
namespace DM2022.Assembly

variable {text : List Char} {origin other : Nat} {d : Int} {table table' : SymbolTable}
  {statements moved : List Statement} {s s' t t' : Statement}

structure Symbol.MovedBy (d : Int) (symbol symbol' : Symbol) : Prop where
  address : (symbol'.address : Int) = symbol.address + d
  line : symbol'.line = symbol.line

/-- The second table has the symbols of the first one, `d` addresses further. -/
def SymbolTable.MovedBy (d : Int) (table table' : SymbolTable) : Prop :=
  ∀ name, Option.Rel (Symbol.MovedBy d) (table.find? name) (table'.find? name)

/-- The second statement is the first one with the target of its label operand `d` addresses
further, and with it the offset of an absolute one. -/
inductive Statement.MovedBy (d : Int) : Statement → Statement → Prop
  | plain {s : Statement} (hbody : ∀ i ref, s.body ≠ .instruction i (some ref)) : MovedBy d s s
  | relative {line : Nat} {label : Option String} {i : Instruction} {name : String}
      {target target' : Nat} (htarget : (target' : Int) = target + d) :
      MovedBy d ⟨line, label, .instruction i (some ⟨name, .relative, some target⟩)⟩
        ⟨line, label, .instruction i (some ⟨name, .relative, some target'⟩)⟩
  | absolute {line : Nat} {label : Option String} {i : Instruction} {offset : Word}
      {name : String} {target target' : Nat} (htarget : (target' : Int) = target + d)
      (hoffset : offset.toInt = i.offset.toInt + d) :
      MovedBy d ⟨line, label, .instruction i (some ⟨name, .absolute, some target⟩)⟩
        ⟨line, label, .instruction { i with offset } (some ⟨name, .absolute, some target'⟩)⟩

def Statement.Absolute (s : Statement) : Prop :=
  ∃ i ref, s.body = .instruction i (some ref) ∧ ref.mode = .absolute

instance (s : Statement) : Decidable s.Absolute :=
  match h : s.body with
  | .instruction _ (some ref) =>
      decidable_of_iff (ref.mode = .absolute) (by simp [Statement.Absolute, h])
  | .instruction _ none => .isFalse (by simp [Statement.Absolute, h])
  | .empty => .isFalse (by simp [Statement.Absolute, h])
  | .data _ => .isFalse (by simp [Statement.Absolute, h])
  | .reserve _ => .isFalse (by simp [Statement.Absolute, h])

/-! ## Symbols -/

/-- The induction is on the statements, with the origins at the same distance. -/
theorem symbolsFrom_movedBy (h : (other : Int) = origin + d) (statements : List Statement) :
    (symbolsFrom origin statements).MovedBy d (symbolsFrom other statements) := by
  intro name
  rw [find?_symbolsFrom, find?_symbolsFrom]
  induction statements generalizing origin other with
  | nil => exact .none
  | cons s rest ih =>
    rw [placed_cons, placed_cons]
    by_cases hname : s.label = some name
    · rw [List.find?_cons_of_pos (by simpa using hname),
        List.find?_cons_of_pos (by simpa using hname)]
      exact .some ⟨h, rfl⟩
    · rw [List.find?_cons_of_neg (by simpa using hname),
        List.find?_cons_of_neg (by simpa using hname)]
      exact ih (by omega)

theorem SymbolTable.MovedBy.address? (h : table.MovedBy d table') {name : String} {target : Nat}
    (ht : table.address? name = some target) :
    ∃ target', table'.address? name = some target' ∧ (target' : Int) = target + d := by
  obtain ⟨symbol, hsymbol, rfl⟩ := Option.map_eq_some_iff.1 ht
  have hname := h name
  rw [hsymbol] at hname
  rw [SymbolTable.address?]
  cases hfound : table'.find? name with
  | none =>
    rw [hfound] at hname
    cases hname
  | some symbol' =>
    rw [hfound] at hname
    cases hname with
    | some hmoved => exact ⟨symbol'.address, rfl, hmoved.address⟩

/-! ## Statements -/

theorem movedBy_of_resolve (htable : table.MovedBy d table') {address address' : Nat}
    (haddress : (address' : Int) = address + d) (h : s.resolve table address = .ok t)
    (h' : s.resolve table' address' = .ok t') : t.MovedBy d t' := by
  rcases resolve_cases h with ⟨hplain, rfl⟩ | ⟨i, ref, target, word, hbody, htarget, hword, rfl⟩
  · rw [resolve_of_not_ref hplain] at h'
    cases h'
    exact .plain hplain
  · rcases resolve_cases h' with
      ⟨hplain, -⟩ | ⟨i', ref', target', word', hbody', htarget', hword', rfl⟩
    · exact absurd hbody (hplain i ref)
    · cases hbody.symm.trans hbody'
      obtain ⟨found, hfound, hmoved⟩ := htable.address? htarget
      cases hfound.symm.trans htarget'
      obtain ⟨name, mode, _⟩ := ref
      cases mode with
      | relative =>
        have hoffset : Addressing.relative.offset target' address' =
            Addressing.relative.offset target address := by
          simp only [Addressing.offset]
          omega
        rw [hoffset] at hword'
        cases hword.symm.trans hword'
        exact .relative hmoved
      | absolute =>
        have hvalue : word.toInt = target := (signedWord?_eq_some_iff.1 hword).symm
        have hvalue' : word'.toInt = target' := (signedWord?_eq_some_iff.1 hword').symm
        have hoffset : word'.toInt = word.toInt + d := by omega
        exact .absolute hmoved hoffset

theorem absolute_of_resolve {address : Nat} (h : s.resolve table address = .ok t)
    (ht : t.Absolute) : s.Absolute := by
  rcases resolve_cases h with ⟨-, rfl⟩ | ⟨i, ref, target, word, hbody, -, -, rfl⟩
  · exact ht
  · obtain ⟨_, _, hinstr, hmode⟩ := ht
    cases hinstr
    exact ⟨i, ref, hbody, hmode⟩

/-- A statement that moves without an absolute operand has the same words, or the same
error. -/
theorem Statement.MovedBy.encoding_eq (h : s.MovedBy d s') (hs : ¬s.Absolute) :
    s'.words = s.words ∧ s'.encodingError? = s.encodingError? := by
  cases h with
  | plain => exact ⟨rfl, rfl⟩
  | relative => exact ⟨rfl, rfl⟩
  | absolute => exact absurd ⟨_, _, rfl, rfl⟩ hs

theorem encoding_eq_of_movedBy (h : List.Forall₂ (Statement.MovedBy d) statements moved)
    (hs : ∀ s ∈ statements, ¬s.Absolute) : imageOf moved = imageOf statements ∧
      moved.filterMap Statement.encodingError? =
        statements.filterMap Statement.encodingError? := by
  induction h with
  | nil => exact ⟨rfl, rfl⟩
  | cons hmoved _ ih =>
    obtain ⟨hhead, htail⟩ := List.forall_mem_cons.1 hs
    obtain ⟨hwords, herror⟩ := hmoved.encoding_eq hhead
    obtain ⟨hwords', herror'⟩ := ih htail
    rw [imageOf_cons, imageOf_cons, hwords, hwords', List.filterMap_cons, List.filterMap_cons,
      herror, herror']
    exact ⟨rfl, rfl⟩

/-! ## Sources -/

theorem resolveSource_of_fits (h : resolveSource text origin = .ok (statements, table))
    (hfits : Fits other statements) :
    ∃ moved, resolveSource text other =
      .ok (moved, symbolsFrom other (Source.read text).statements) := by
  obtain ⟨hread, hresolve, -, -⟩ := resolveSource_ok_iff.1 h
  obtain ⟨-, hlabels, -⟩ := resolve_errors_eq_nil_iff.1 hresolve
  have hfits' : Fits other (Source.read text).statements := (fits_resolved_iff h).1 hfits
  have hsymbols : table.MovedBy (other - origin)
      (symbolsFrom other (Source.read text).statements) := by
    rw [symbols_resolved h]
    exact symbolsFrom_movedBy (by omega) _
  refine ⟨_, resolveSource_ok_iff.2 ⟨hread, ?_, rfl, ?_⟩⟩
  · refine resolve_errors_eq_nil_iff.2 ⟨hfits', hlabels, fun p hp => ?_⟩
    obtain ⟨k, hk⟩ := List.getElem?_of_mem hp
    obtain ⟨t, -, ht⟩ := getElem?_resolved h (getElem?_placed_iff.1 hk).1
    rcases resolve_cases ht with ⟨hplain, -⟩ | ⟨i, ref, target, word, hbody, htarget, -, -⟩
    · exact ⟨p.1, resolve_of_not_ref hplain⟩
    · obtain ⟨target', htarget', -⟩ := hsymbols.address? htarget
      exact resolve_of_target hfits' hp hbody htarget'
  · rw [resolve_of_fits hfits']

/-- A source that is resolved for two origins has the same statements, apart from the
distance of the origins. -/
theorem movedBy_resolved (h : resolveSource text origin = .ok (statements, table))
    (h' : resolveSource text other = .ok (moved, table')) :
    List.Forall₂ (Statement.MovedBy (other - origin)) statements moved := by
  have hsymbols : table.MovedBy (other - origin) table' := by
    rw [symbols_resolved h, symbols_resolved h']
    exact symbolsFrom_movedBy (by omega) _
  rw [List.forall₂_iff_get]
  refine ⟨(length_resolved h).trans (length_resolved h').symm, fun k hk hk' => ?_⟩
  have hsource := List.getElem?_eq_getElem (length_resolved h ▸ hk)
  obtain ⟨t, ht, hresolve⟩ := getElem?_resolved h hsource
  obtain ⟨t', ht', hresolve'⟩ := getElem?_resolved h' hsource
  obtain ⟨_, rfl⟩ := List.getElem?_eq_some_iff.1 ht
  obtain ⟨_, rfl⟩ := List.getElem?_eq_some_iff.1 ht'
  exact movedBy_of_resolve hsymbols (by omega) hresolve hresolve'

theorem assemble_words_of_resolved (h : resolveSource text origin = .ok (statements, table)) :
    (assemble text origin).map Program.words =
      match statements.filterMap Statement.encodingError? with
      | [] => .ok (imageOf statements)
      | errors => .error errors := by
  rw [assemble_eq_of_resolved h, encodingErrors_of_fits (fits_resolved h)]
  cases statements.filterMap Statement.encodingError? <;> rfl

/-- If a source is resolved for one origin, and its statements fit from another one, it is
resolved for that one too, and all differs by just the distance of the origins: the address
of every symbol, the target of every label operand and the offset of every absolute one.
Without an absolute label operand the source is assembled to the same words, or refused with
the same errors. -/
theorem resolveSource_relocated (h : resolveSource text origin = .ok (statements, table))
    (hfits : Fits other statements) :
    (∃ moved table', resolveSource text other = .ok (moved, table') ∧
      List.Forall₂ (Statement.MovedBy (other - origin)) statements moved ∧
      table.MovedBy (other - origin) table') ∧
    ((∀ s ∈ (Source.read text).statements, ¬s.Absolute) →
      (assemble text other).map Program.words = (assemble text origin).map Program.words) := by
  obtain ⟨moved, h'⟩ := resolveSource_of_fits h hfits
  have hmoved := movedBy_resolved h h'
  refine ⟨⟨moved, _, h', hmoved, ?_⟩, fun hrelative => ?_⟩
  · rw [symbols_resolved h]
    exact symbolsFrom_movedBy (by omega) _
  · have hstatements : ∀ s ∈ statements, ¬s.Absolute := by
      intro s hs habsolute
      obtain ⟨t, _, ht, hresolve⟩ := exists_source_of_mem h hs
      exact hrelative t ht (absolute_of_resolve hresolve habsolute)
    obtain ⟨hwords, herrors⟩ := encoding_eq_of_movedBy hmoved hstatements
    rw [assemble_words_of_resolved h, assemble_words_of_resolved h', hwords, herrors]

/-- The loop that reads a word after it, once by an absolute and once by a relative operand. -/
theorem resolveSource_relocated_loop :
    (∃ statements table moved table',
      resolveSource "loop: LOAD r1,@far\nJUMP loop\nfar: DATA 5".toList 0 =
        .ok (statements, table) ∧
      Fits 100 statements ∧ table.address? "far" = some 2 ∧
      resolveSource "loop: LOAD r1,@far\nJUMP loop\nfar: DATA 5".toList 100 =
        .ok (moved, table') ∧
      table'.address? "far" = some 102 ∧
      List.Forall₂ (Statement.MovedBy 100) statements moved) ∧
    (∀ s ∈ (Source.read "loop: LOAD r1,far\nJUMP loop\nfar: DATA 5".toList).statements,
      ¬s.Absolute) ∧
    (assemble "loop: LOAD r1,far\nJUMP loop\nfar: DATA 5".toList 100).map Program.words =
      (assemble "loop: LOAD r1,far\nJUMP loop\nfar: DATA 5".toList 0).map Program.words := by
  have hrelative : ∀ s ∈ (Source.read
      "loop: LOAD r1,far\nJUMP loop\nfar: DATA 5".toList).statements, ¬s.Absolute := by
    decide
  refine ⟨?_, hrelative, ?_⟩
  · obtain ⟨statements, table, h, hfits, hfar⟩ : ∃ statements table,
        resolveSource "loop: LOAD r1,@far\nJUMP loop\nfar: DATA 5".toList 0 =
          .ok (statements, table) ∧
        Fits 100 statements ∧ table.address? "far" = some 2 :=
      ⟨_, _, rfl, .inr (by decide), rfl⟩
    obtain ⟨⟨moved, table', h', hmoved, hsymbols⟩, -⟩ := resolveSource_relocated h hfits
    obtain ⟨target', htarget', hvalue⟩ := hsymbols.address? hfar
    have htarget : target' = 102 := by omega
    rw [htarget] at htarget'
    exact ⟨statements, table, moved, table', h, hfits, hfar, h', htarget', hmoved⟩
  · obtain ⟨statements, table, h, hfits⟩ : ∃ statements table,
        resolveSource "loop: LOAD r1,far\nJUMP loop\nfar: DATA 5".toList 0 =
          .ok (statements, table) ∧ Fits 100 statements :=
      ⟨_, _, rfl, .inr (by decide)⟩
    exact (resolveSource_relocated h hfits).2 hrelative

end DM2022.Assembly
