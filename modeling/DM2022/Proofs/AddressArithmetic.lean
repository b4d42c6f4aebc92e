import DM2022.Proofs.MissingLabels

/-!
# Address arithmetic

An address is a word, and the end of a statement a sum of 64 bits. In this arithmetic statements
have the addresses that exact numbers give them: no sum overflows, and no address loses a bit. Nor
is there an offset between two addresses that is no word, whatever statements they are from.
-/
namespace DM2022

namespace Count

def word? (n : Count) : Option Word :=
  if (n.setWidth 32).setWidth 64 = n then some (n.setWidth 32) else none

theorem word?_eq_some {n : Count} (h : n.toNat < 0x100000000) :
    ∃ word, word? n = some word ∧ word.toNat = n.toNat := by
  have hword : (n.setWidth 32).toNat = n.toNat := by
    rw [BitVec.toNat_setWidth]
    omega
  have hkeeps : (n.setWidth 32).setWidth 64 = n := by
    apply BitVec.eq_of_toNat_eq
    rw [BitVec.toNat_setWidth, hword]
    omega
  exact ⟨n.setWidth 32, if_pos hkeeps, hword⟩

theorem sum?_eq_some {a b : Count} (h : a.toNat + b.toNat < 0x10000000000000000) :
    ∃ c, sum? a b = some c ∧ c.toNat = a.toNat + b.toNat := by
  have hsum : ¬BitVec.uaddOverflow a b = true := by
    rw [BitVec.uaddOverflow, decide_eq_true_iff]
    exact Nat.not_le_of_gt h
  exact ⟨a + b, if_neg hsum, BitVec.toNat_add_of_lt h⟩

end Count

namespace Assembly

variable {statements : List Statement} {s : Statement} {origin : Nat} {next : Count}

/-- The addresses of statements from `next` on as they are computed: a size is a word, it is added
in 64 bits, and an address is cut to a word. There is no result if a sum or an address loses a
bit. -/
def wordLayout? (next : Count) : List Statement → Option (Except AssemblyError (List Word))
  | [] => some (.ok [])
  | s :: rest =>
      (sum? next ((Word.wrap s.size).setWidth 64)).bind fun stop =>
        if BitVec.ofNat 64 addressLimit < stop then
          some (.error ⟨s.line, .imageTooLarge stop.toNat⟩)
        else (Count.word? next).bind fun address =>
          (wordLayout? stop rest).map fun others => others.map (address :: ·)

/-- One address for each statement, where the statements before it end. All of them end within the
address range. -/
structure Addressed (origin : Nat) (statements : List Statement) (layout : List Nat) : Prop where
  length_eq : layout.length = statements.length
  address : ∀ (k : Nat) (s : Statement), statements[k]? = some s →
    layout[k]? = some (origin + ((statements.take k).map Statement.size).sum)
  ends : ∀ (k : Nat) (s : Statement), statements[k]? = some s →
    origin + ((statements.take (k + 1)).map Statement.size).sum ≤ 0x7fffffff

/-! ## Addresses -/

theorem exists_stop (hsize : s.size < 0x100000000) (hnext : next.toNat < 0x100000000) :
    ∃ stop, sum? next ((Word.wrap s.size).setWidth 64) = some stop ∧
      stop.toNat = next.toNat + s.size := by
  have hword : ((Word.wrap s.size).setWidth 64).toNat = s.size := by
    rw [Word.wrap_eq, BitVec.toNat_setWidth, BitVec.toNat_ofNat]
    omega
  have hsum : next.toNat + ((Word.wrap s.size).setWidth 64).toNat < 0x10000000000000000 := by omega
  obtain ⟨stop, hstop, hexact⟩ := Count.sum?_eq_some hsum
  exact ⟨stop, hstop, by rw [hexact, hword]⟩

/-- Statements of fewer than `2 ^ 32` words have their exact addresses, and the first that ends past
the address range its exact end. -/
theorem wordLayout?_eq (hsize : ∀ s ∈ statements, s.size < 0x100000000)
    (hnext : next.toNat < 0x100000000) :
    ∃ result, wordLayout? next statements = some result ∧
      result.map (List.map BitVec.toNat) = addresses next.toNat statements := by
  induction statements generalizing next with
  | nil => exact ⟨.ok [], rfl, rfl⟩
  | cons s rest ih =>
    obtain ⟨hs, hrest⟩ := List.forall_mem_cons.1 hsize
    obtain ⟨stop, hstop, hexact⟩ := exists_stop hs hnext
    have hpast : BitVec.ofNat 64 addressLimit < stop ↔ addressLimit < next.toNat + s.size := by
      rw [BitVec.lt_def, hexact]
      exact Iff.rfl
    rw [wordLayout?, hstop, Option.bind_some, addresses]
    by_cases hlimit : addressLimit < next.toNat + s.size
    · rw [if_pos (hpast.2 hlimit), if_pos hlimit, hexact]
      exact ⟨_, rfl, rfl⟩
    · have hrange : addressLimit = 0x7fffffff := rfl
      obtain ⟨address, haddress, hkept⟩ := Count.word?_eq_some hnext
      have hnext' : stop.toNat < 0x100000000 := by omega
      obtain ⟨result, hresult, hothers⟩ := ih hrest hnext'
      rw [if_neg (mt hpast.1 hlimit), if_neg hlimit, haddress, Option.bind_some, hresult, ← hexact,
        ← hothers, Option.map_some]
      refine ⟨_, rfl, ?_⟩
      cases result <;> simp [Except.map, hkept]

theorem addressed_starts (h : Fits origin statements) :
    Addressed origin statements (starts origin statements) where
  length_eq := length_starts origin statements
  address := by
    intro k s hs
    rw [← imageSize_eq_sum]
    exact (List.getElem?_zip_eq_some.1 (getElem?_placed origin hs)).2
  ends := by
    intro k s hs
    have hend : origin + imageSize (statements.take k) + s.size ≤ 0x7fffffff :=
      h.end_le (List.mem_of_getElem? (getElem?_placed origin hs))
    rw [imageSize_eq_sum] at hend
    simp only [List.take_add_one, hs, Option.toList_some, List.map_append, List.map_cons,
      List.map_nil, List.sum_append, List.sum_singleton]
    omega

/-! ## Offsets -/

section Table

variable {table : SymbolTable} {layout : List Nat} {e : AssemblyError}
variable (htable : ∀ name symbol, table.find? name = some symbol → symbol.address ≤ addressLimit)

include htable

/-- Both ends of an offset lie within the address range, and so does the address after its
instruction. -/
theorem offset_within_word (hlayout : addresses origin statements = .ok layout)
    {p : Statement × Nat} (hp : p ∈ statements.zip layout) {i : Instruction} {ref : LabelRef}
    (hbody : p.1.body = .instruction i (some ref)) {target : Nat}
    (htarget : table.address? ref.name = some target) :
    -0x80000000 ≤ ref.mode.offset target p.2 ∧ ref.mode.offset target p.2 ≤ 0x7fffffff := by
  obtain ⟨hfits, rfl⟩ := addresses_ok_iff.1 hlayout
  have hsize : p.1.size = 1 := by
    rw [Statement.size, hbody]
    rfl
  have hend : p.2 + p.1.size ≤ 0x7fffffff := hfits.end_le hp
  obtain ⟨symbol, hsymbol, rfl⟩ := Option.map_eq_some_iff.1 htarget
  have hle : symbol.address ≤ 0x7fffffff := htable _ _ hsymbol
  cases ref.mode with
  | relative =>
    rw [Addressing.offset]
    omega
  | absolute =>
    rw [Addressing.offset]
    omega

theorem fixOperands_error_cases (he : e ∈ (fixOperands statements table origin).2) :
    Overflows origin statements e ∨ ∃ s ∈ statements, s.missing? table = some e := by
  by_cases hfits : Fits origin statements
  · rw [fixOperands_ok (addresses_of_fits hfits) table, ← placed] at he
    obtain ⟨p, hp, he⟩ := List.mem_filterMap.1 he
    rw [failure?_resolve_eq htable (hfits.end_le hp)] at he
    exact .inr ⟨p.1, (List.of_mem_zip hp).1, he⟩
  · obtain ⟨e', he'⟩ := exists_overflow hfits
    rw [fixOperands_error (addresses_error_iff.2 he') table, List.mem_singleton] at he
    exact .inl (he ▸ he')

theorem fixOperands_ne_valueOutOfRange (he : e ∈ (fixOperands statements table origin).2)
    (v : Int) : e.problem ≠ .valueOutOfRange v := by
  rcases fixOperands_error_cases htable he with ⟨-, -, -⟩ | ⟨s, -, hmissing⟩
  · simp
  · rw [Statement.missing?] at hmissing
    split at hmissing
    · obtain ⟨-, heq⟩ := Option.ite_none_right_eq_some.1 hmissing
      cases heq
      simp
    · cases hmissing

end Table

/-- Statements of fewer than `2 ^ 32` words each are laid out from a word on, and no sum or address
loses a bit. Either each of them has its exact address and ends within the address range, or the
error names the first that does not, with its exact end. With the symbols of any statements, the
offset of every operand is then a signed word, so no operand is in error for its value. -/
theorem addresses_within_words (hsize : ∀ s ∈ statements, s.size < 0x100000000) (origin : Word) :
    ((∃ layout, wordLayout? (origin.setWidth 64) statements = some (.ok layout) ∧
        addresses origin.toNat statements = .ok (layout.map BitVec.toNat) ∧
        Addressed origin.toNat statements (layout.map BitVec.toNat)) ∨
      ∃ e, wordLayout? (origin.setWidth 64) statements = some (.error e) ∧
        addresses origin.toNat statements = .error e ∧ Overflows origin.toNat statements e) ∧
    ∀ (defining : List Statement) (base : Nat) (table : SymbolTable),
      (SymbolTable.ofStatements defining base).1 = table →
      (∀ layout, addresses origin.toNat statements = .ok layout →
        ∀ p ∈ statements.zip layout, ∀ i ref target, p.1.body = .instruction i (some ref) →
          table.address? ref.name = some target →
          -0x80000000 ≤ ref.mode.offset target p.2 ∧
            ref.mode.offset target p.2 ≤ 0x7fffffff) ∧
      ∀ e ∈ (fixOperands statements table origin.toNat).2, ∀ v, e.problem ≠ .valueOutOfRange v := by
  constructor
  · have hnext : (origin.setWidth 64).toNat = origin.toNat := by
      rw [BitVec.toNat_setWidth]
      omega
    have hword : (origin.setWidth 64).toNat < 0x100000000 := hnext ▸ origin.isLt
    obtain ⟨result, hresult, hexact⟩ := wordLayout?_eq hsize hword
    rw [hnext] at hexact
    cases result with
    | ok layout =>
      obtain ⟨hfits, hlayout⟩ := addresses_ok_iff.1 hexact.symm
      exact .inl ⟨layout, hresult, hexact.symm, hlayout ▸ addressed_starts hfits⟩
    | error e => exact .inr ⟨e, hresult, hexact.symm, addresses_error_iff.1 hexact.symm⟩
  · rintro defining base table rfl
    have htable := address_le_of_find? defining base
    refine ⟨fun layout hlayout p hp i ref target hbody htarget => ?_, fun e he v => ?_⟩
    · exact offset_within_word htable hlayout hp hbody htarget
    · exact fixOperands_ne_valueOutOfRange htable he v

/-- A jump at the last address of the range, back to a label of another program at 0; and reserved
words of which the exact end has 33 bits. -/
theorem addresses_within_words_extremes : ∃ (statements : List Statement) (table : SymbolTable),
    statements = [⟨1, none, .reserve 0x7ffffffe⟩,
      ⟨2, none, .instruction (jumpTo .always .relative) (some ⟨"x", .relative, none⟩)⟩] ∧
    (∀ s ∈ statements, s.size < 0x100000000) ∧
    (SymbolTable.ofStatements [⟨1, some "x", .empty⟩] 0).1 = table ∧
    (∃ layout, wordLayout? 0 statements = some (.ok layout) ∧
      layout.map BitVec.toNat = [0, 0x7ffffffe]) ∧
    -0x80000000 ≤ Addressing.relative.offset 0 0x7ffffffe ∧
    (∀ e ∈ (fixOperands statements table 0).2, ∀ v, e.problem ≠ .valueOutOfRange v) ∧
    wordLayout? 0xffffffff [⟨7, none, .reserve 0xffffffff⟩] =
      some (.error ⟨7, .imageTooLarge 0x1fffffffe⟩) := by
  have hsize : ∀ s ∈ [(⟨1, none, .reserve 0x7ffffffe⟩ : Statement),
      ⟨2, none, .instruction (jumpTo .always .relative) (some ⟨"x", .relative, none⟩)⟩],
      s.size < 0x100000000 := by decide
  have hlayout : addresses 0 [(⟨1, none, .reserve 0x7ffffffe⟩ : Statement),
      ⟨2, none, .instruction (jumpTo .always .relative) (some ⟨"x", .relative, none⟩)⟩] =
        .ok [0, 0x7ffffffe] := rfl
  obtain ⟨hwords, hoffsets⟩ := addresses_within_words hsize 0
  obtain ⟨hoffset, herrors⟩ := hoffsets [⟨1, some "x", .empty⟩] 0 _ rfl
  have hlast := (hoffset _ hlayout _ (.tail _ (.head _)) _ _ 0 rfl rfl).1
  refine ⟨_, _, rfl, hsize, rfl, ?_, hlast, herrors, ?_⟩
  · rcases hwords with ⟨layout, hwords, hexact, -⟩ | ⟨e, -, herror, -⟩
    · exact ⟨layout, hwords, Except.ok.inj (hexact.symm.trans hlayout)⟩
    · cases herror.symm.trans hlayout
  · have hreserve : ∀ s ∈ [(⟨7, none, .reserve 0xffffffff⟩ : Statement)], s.size < 0x100000000 := by
      decide
    have hpast : addresses 0xffffffff [(⟨7, none, .reserve 0xffffffff⟩ : Statement)] =
        .error ⟨7, .imageTooLarge 0x1fffffffe⟩ := rfl
    rcases (addresses_within_words hreserve 0xffffffff).1 with ⟨layout, -, hexact, -⟩ |
      ⟨e, herror, hexact, -⟩
    · cases hpast.symm.trans hexact
    · rw [Except.error.inj (hpast.symm.trans hexact)]
      exact herror

end Assembly
end DM2022
