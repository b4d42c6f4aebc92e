import DM2022.Proofs.Assembly.Reading
import DM2022.Proofs.Assembly.Resolution
import DM2022.Proofs.Instruction.Encoding
import DM2022.Proofs.Machine.Step

/-!
# Programs in memory

The words of an assembled program stand at the addresses of their statements, and the word
of an instruction decodes to it. A machine that comes to the instruction executes it.
-/
namespace DM2022

namespace Assembly

variable {text : List Char} {origin : Nat} {p : Program} {statements : List Statement}

theorem encodingErrors_eq_nil (h : encodingErrors statements = []) {s : Statement}
    (hs : s ∈ statements) : s.encodingError? = none := by
  rw [encodingErrors] at h
  split at h
  · cases h
  · exact List.filterMap_eq_nil_iff.1 h s hs

theorem assemble_ok_iff : assemble text origin = .ok p ↔
    resolveSource text origin = .ok (p.statements, p.symbols) ∧
      encodingErrors p.statements = [] ∧ p.origin = origin := by
  obtain ⟨statements, symbols, start⟩ := p
  rw [assemble]
  rw [bind_ok_iff]
  constructor
  · intro h
    obtain ⟨⟨found, table⟩, hresolve, h⟩ := h
    simp only at h
    split at h
    · next he =>
      cases h
      exact ⟨hresolve, he, rfl⟩
    · cases h
  · intro h
    obtain ⟨hresolve, he, rfl⟩ := h
    refine ⟨(statements, symbols), hresolve, ?_⟩
    simp only at he ⊢
    rw [he]
    rfl

theorem encode_of_encodeOperation {i : Instruction} {ref : Option LabelRef} {word : Word}
    (h : encodeOperation i ref = .ok word) : i.encode = .ok word := by
  simp only [encodeOperation] at h
  split at h
  · cases h
  · exact h

theorem words_of_instruction {s : Statement} {i : Instruction} {ref : Option LabelRef}
    (h : s.encodingError? = none) (hbody : s.body = .instruction i ref) :
    ∃ word, i.encode = .ok word ∧ s.words = [word] := by
  rw [Statement.encodingError?, hbody] at h
  simp only [Option.map_eq_none_iff, failure?_eq_none_iff] at h
  obtain ⟨word, hword⟩ := h
  refine ⟨word, encode_of_encodeOperation hword, ?_⟩
  rw [Statement.words, hbody]
  simp only [hword]
  rfl

namespace Program

def addressOf (p : Program) (k : Nat) : Nat := p.origin + imageSize (p.statements.take k)

/-- The label has this address, by the table of symbols and by a statement that it labels. -/
def Labels (p : Program) (name : String) (address : Nat) : Prop :=
  p.symbols.address? name = some address ∧
    ∃ j s, p.statements[j]? = some s ∧ s.label = some name ∧ address = p.addressOf j

/-- The memory holds the word of a statement at the address of the statement. -/
def HeldAt (p : Program) (k : Nat) (mem : Memory) : Prop :=
  ∃ s word, p.statements[k]? = some s ∧ s.words = [word] ∧
    mem.read (.ofNat 32 (p.addressOf k)) = .ok word

/-- A running machine has come to a statement whose word is still in memory and whose
predicate it meets. -/
structure Reached (p : Program) (k : Nat) (cond : Flags) (m : Machine) : Prop where
  running : m.state = .running
  pc_eq : m.regs.pc = .ofNat 32 (p.addressOf k)
  held : p.HeldAt k m.mem
  enabled : m.regs.flags.inter cond ≠ .never

theorem fits_of_assemble (hp : assemble text origin = .ok p) :
    Fits p.origin p.statements := by
  obtain ⟨hresolve, -, rfl⟩ := assemble_ok_iff.1 hp
  exact fits_resolved hresolve

theorem addressOf_add_size_le (hp : assemble text origin = .ok p) {k : Nat} {s : Statement}
    (hs : p.statements[k]? = some s) : p.addressOf k + s.size ≤ addressLimit := by
  have htake := imageSize_take_add hs
  rcases fits_of_assemble hp with hnil | hfits
  · rw [hnil] at hs
    cases hs
  · rw [addressOf]
    omega

theorem labels_of_address? (hp : assemble text origin = .ok p) {name : String} {target : Nat}
    (h : p.symbols.address? name = some target) :
    p.Labels name target ∧ target ≤ addressLimit := by
  obtain ⟨hresolve, -, rfl⟩ := assemble_ok_iff.1 hp
  obtain ⟨j, s, hs, hlabel, htarget⟩ := labelled_of_address? hresolve h
  have hlimit := addressOf_add_size_le hp hs
  refine ⟨⟨h, j, s, hs, hlabel, htarget⟩, ?_⟩
  rw [htarget]
  exact Nat.le_trans (Nat.le_add_right _ _) hlimit

/-- The statement of a line is the one that the line says, with its operand resolved. -/
theorem statement_of_line (hp : assemble text origin = .ok p) {k : Nat} {line : List Char}
    (hline : (Text.lines text)[k]? = some line) : ∃ s s', Statement.read line (k + 1) = .ok s ∧
      p.statements[k]? = some s' ∧ s.resolve p.symbols (p.addressOf k) = .ok s' := by
  obtain ⟨hresolve, -, rfl⟩ := assemble_ok_iff.1 hp
  obtain ⟨s, hread, hs⟩ := getElem?_source (resolveSource_ok_iff.1 hresolve).1 hline
  obtain ⟨s', hs', hoperand⟩ := getElem?_resolved hresolve hs
  refine ⟨s, s', hread, hs', ?_⟩
  rw [addressOf, imageSize_take_resolved hresolve k]
  exact hoperand

theorem decode_of_heldAt (hp : assemble text origin = .ok p) {k : Nat} {mem : Memory}
    {s : Statement} {i : Instruction} {ref : Option LabelRef} (hs : p.statements[k]? = some s)
    (hbody : s.body = .instruction i ref) (hheld : p.HeldAt k mem) : ∃ word,
      mem.read (.ofNat 32 (p.addressOf k)) = .ok word ∧ Instruction.decode word = i := by
  obtain ⟨-, herrors, -⟩ := assemble_ok_iff.1 hp
  have hencoding := encodingErrors_eq_nil herrors (List.mem_of_getElem? hs)
  obtain ⟨word, hword, hwords⟩ := words_of_instruction hencoding hbody
  obtain ⟨t, held, ht, hheld, hread⟩ := hheld
  cases hs.symm.trans ht
  cases hwords.symm.trans hheld
  exact ⟨word, hread, Instruction.decode_of_encode hword⟩

/-- A machine executes the instruction that it has come to. -/
theorem step_of_reached (hp : assemble text origin = .ok p) {k : Nat} {m : Machine}
    {s : Statement} {i : Instruction} {ref : Option LabelRef} (hs : p.statements[k]? = some s)
    (hbody : s.body = .instruction i ref) (hm : p.Reached k i.cond m) :
    m.step = match m.execute i with
      | (.ok next, n) => (.ok i, (n.goTo next).complete i)
      | (.error kind, _) => m.stop m.regs.pc kind := by
  obtain ⟨word, hread, rfl⟩ := decode_of_heldAt hp hs hbody hm.held
  rw [← hm.pc_eq] at hread
  exact Machine.step_of_enabled hm.running hread hm.enabled

/-- A machine that has loaded the program at its origin holds the word of each statement that has
one, as long as the words can be counted by a word. -/
theorem heldAt_of_load (hp : assemble text origin = .ok p) {k : Nat} {m m' : Machine}
    {s : Statement} {word : Word} (hs : p.statements[k]? = some s) (hword : s.words = [word])
    (hcount : p.words.length < 0x100000000)
    (hbase : m.config.loadBase = .ofNat 32 origin) (hload : m.load p.words = .ok m') :
    p.HeldAt k m'.mem := by
  obtain ⟨-, -, rfl⟩ := assemble_ok_iff.1 hp
  have hsizes : ∀ t ∈ p.statements, t.size = t.length := by
    intro t ht
    refine Statement.size_eq_length fun values hbody => ?_
    have hle := length_le_imageLength ht
    rw [Statement.length, hbody, Body.length] at hle
    have hlength : p.words.length = imageLength p.statements := p.length_words
    omega
  have hlengths : imageSize (p.statements.take k) = imageLength (p.statements.take k) :=
    imageSize_eq_length fun t ht => hsizes t (List.mem_of_mem_take ht)
  have hone : s.length = 1 := by rw [← s.length_words, hword, List.length_singleton]
  have hsize : s.size = 1 := by rw [hsizes s (List.mem_of_getElem? hs), hone]
  have hlimit := addressOf_add_size_le hp hs
  have haddress : p.addressOf k = p.origin + imageSize (p.statements.take k) := rfl
  have hplace : p.words[imageLength (p.statements.take k)]? = some word := by
    have hplace := getElem?_imageOf hs (j := 0) (by omega)
    rw [hword] at hplace
    exact hplace
  have hwithin : imageLength (p.statements.take k) < p.words.length :=
    (List.getElem?_eq_some_iff.1 hplace).1
  have hbaseNat : m.config.loadBase.toNat = p.origin := by
    rw [hbase, toNat_address (by omega)]
  obtain ⟨mem, hmem, rfl⟩ := Machine.load_ok_iff.1 hload
  obtain ⟨hroom, rfl⟩ := Memory.load_ok_iff.1 hmem
  rw [hbaseNat] at hroom
  refine ⟨s, word, hs, hword, Memory.read_eq_ok_iff.2 ⟨?_, ?_⟩⟩
  · rw [Memory.contains_ofNat_iff (by omega), Memory.size_copy]
    omega
  · rw [toNat_address (by omega), hbaseNat, Memory.cell_copy _ _ _ hroom, if_pos (by omega),
      haddress, Nat.add_sub_cancel_left, hlengths, List.getD_eq_getElem?_getD, hplace]
    rfl

end Program
end Assembly
end DM2022
