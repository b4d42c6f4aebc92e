import DM2022.Proofs.Assembly.Program
import DM2022.Proofs.ListingPrograms

/-!
# The layout of an image

An assembled program is laid out statement by statement: each has its words at its address,
and the symbols are the labels with the addresses of their own statements. This holds as long as
the words of each statement can be counted. As many data words as a word cannot count are not
counted, and so they pass every limit and move what follows them from its address.
-/
namespace DM2022.Assembly

variable {text : List Char} {origin : Nat} {p : Program} {statements : List Statement}
  {s : Statement}

/-- The words that stand for a body: one that encodes the instruction, the data modulo
`2 ^ 32`, or zeros. -/
def Body.Emits : Body → List Word → Prop
  | .empty, words => words = []
  | .instruction i _, words => ∃ word, i.encode = .ok word ∧ words = [word]
  | .data values, words =>
      words.map (fun w => (w.toNat : Int)) = values.map fun v => v.toInt % 0x100000000
  | .reserve count, words => words = List.replicate count 0

/-- The image holds the statements one after the other, and the symbols are their labels. -/
structure Program.LaidOut (p : Program) : Prop where
  /-- A statement starts where those before it end. -/
  address : ∀ k, p.addressOf k = p.origin + ((p.statements.take k).map Statement.size).sum
  length_words : p.words.length = (p.statements.map Statement.size).sum
  /-- The image ends within the address range. -/
  ends : p.statements ≠ [] → p.origin + p.words.length ≤ 0x7fffffff
  /-- The words of each statement stand at its address. -/
  emits : ∀ k (s : Statement), p.statements[k]? = some s →
    s.body.Emits ((p.words.drop (p.addressOf k - p.origin)).take s.size)
  labels_nodup : (labels p.statements).Nodup
  /-- The symbols are the labels, each at the address and on the line of its statement. -/
  symbol_iff : ∀ name symbol, p.symbols.find? name = some symbol ↔
    ∃ k s, p.statements[k]? = some s ∧ s.label = some name ∧
      symbol = ⟨p.addressOf k, s.line⟩
  /-- A label whose statement occupies no place names the next one that does. -/
  label_next : ∀ (k j : Nat) (s t : Statement) name, p.statements[k]? = some s →
    s.label = some name → s.size = 0 → k < j → p.statements[j]? = some t → 0 < t.size →
      (∀ (i : Nat) (u : Statement), k < i → i < j → p.statements[i]? = some u → u.size = 0) →
      p.symbols.address? name = some (p.addressOf j)
  /-- Without a next one, it names the end of the image. -/
  label_last : ∀ (k : Nat) (s : Statement) name, p.statements[k]? = some s →
    s.label = some name → s.size = 0 →
      (∀ (i : Nat) (u : Statement), k < i → p.statements[i]? = some u → u.size = 0) →
      p.symbols.address? name = some (p.origin + p.words.length)

theorem map_toNat_eq (values : List Word) :
    values.map (fun w => (w.toNat : Int)) = values.map fun v => v.toInt % 0x100000000 := by
  apply List.map_congr_left
  intro v _
  have hv := v.isLt
  rw [BitVec.toInt_eq_toNat_cond]
  split <;> omega

theorem emits_words (h : s.encodingError? = none) : s.body.Emits s.words := by
  cases hbody : s.body with
  | instruction i ref => exact words_of_instruction h hbody
  | data values =>
    have hwords : s.words = values := by rw [Statement.words, hbody]
    rw [hwords]
    exact map_toNat_eq values
  | empty => rw [Statement.words, hbody]; rfl
  | reserve count => rw [Statement.words, hbody]; rfl

theorem eq_of_labels_nodup (h : (labels statements).Nodup) {j k : Nat} {t : Statement}
    {name : String} (hj : statements[j]? = some s) (hk : statements[k]? = some t)
    (hs : s.label = some name) (ht : t.label = some name) : j = k := by
  have hpairs := List.pairwise_iff_getElem.1 (List.pairwise_filterMap.1 h)
  obtain ⟨hjl, rfl⟩ := List.getElem?_eq_some_iff.1 hj
  obtain ⟨hkl, rfl⟩ := List.getElem?_eq_some_iff.1 hk
  rcases Nat.lt_trichotomy j k with hlt | heq | hlt
  · exact absurd rfl (hpairs j k hjl hkl hlt name hs name ht)
  · exact heq
  · exact absurd rfl (hpairs k j hkl hjl hlt name ht name hs)

theorem find?_resolved_iff {table : SymbolTable}
    (h : resolveSource text origin = .ok (statements, table)) (name : String) (symbol : Symbol) :
    table.find? name = some symbol ↔ ∃ k s, statements[k]? = some s ∧ s.label = some name ∧
      symbol = ⟨origin + imageSize (statements.take k), s.line⟩ := by
  constructor
  · exact labelled_of_find? h
  · intro hs
    obtain ⟨k, s, hk, hlabel, rfl⟩ := hs
    obtain ⟨found, hfound⟩ := Option.isSome_iff_exists.1 (find?_isSome_of_label h hk hlabel)
    obtain ⟨j, t, hj, hlabel', rfl⟩ := labelled_of_find? h hfound
    cases eq_of_labels_nodup (labels_nodup_resolved h) hj hk hlabel' hlabel
    cases hj.symm.trans hk
    exact hfound

theorem Program.addressOf_eq_of_empty {k j : Nat} (hkj : k ≤ j)
    (h : ∀ i s, k ≤ i → i < j → p.statements[i]? = some s → s.size = 0) :
    p.addressOf j = p.addressOf k := by
  rw [addressOf, addressOf, imageSize_take_eq hkj h]

/-- An assembled program consists of the resolved statements, laid out from the origin on, if no
statement has more data words than a word can count. -/
theorem assemble_layout (hp : assemble text origin = .ok p)
    (hdata : ∀ s ∈ p.statements, ∀ values, s.body = .data values → values.length < 0x100000000) :
    p.origin = origin ∧ resolveSource text origin = .ok (p.statements, p.symbols) ∧
      p.LaidOut := by
  obtain ⟨hresolve, herrors, rfl⟩ := assemble_ok_iff.1 hp
  have hsizes : ∀ s ∈ p.statements, s.size = s.length :=
    fun s hs => Statement.size_eq_length (hdata s hs)
  have hlength : p.words.length = imageSize p.statements :=
    p.length_words.trans (imageSize_eq_length hsizes).symm
  have hsymbol := find?_resolved_iff hresolve
  have haddress : ∀ k s name, p.statements[k]? = some s → s.label = some name →
      p.symbols.address? name = some (p.addressOf k) := by
    intro k s name hk hlabel
    rw [SymbolTable.address?, (hsymbol name _).2 ⟨k, s, hk, hlabel, rfl⟩]
    rfl
  -- The statements from a label on, as long as they are empty, all stand at its address.
  have hnext : ∀ (k j : Nat) (s : Statement) name, p.statements[k]? = some s →
      s.label = some name → s.size = 0 → k < j →
      (∀ (i : Nat) (u : Statement), k < i → i < j → p.statements[i]? = some u → u.size = 0) →
      p.symbols.address? name = some (p.addressOf j) := by
    intro k j s name hk hlabel hsize hkj hbetween
    rw [haddress k s name hk hlabel, Program.addressOf_eq_of_empty (Nat.le_of_lt hkj)]
    intro i u hki hij hu
    rcases Nat.eq_or_lt_of_le hki with rfl | hlt
    · cases hk.symm.trans hu
      exact hsize
    · exact hbetween i u hlt hij hu
  refine ⟨rfl, hresolve, ?_⟩
  constructor
  case address => exact fun k => congrArg _ (imageSize_eq_sum _)
  case length_words => rw [hlength, imageSize_eq_sum]
  case ends =>
    intro hne
    rw [hlength]
    exact (Program.fits_of_assemble hp).resolve_left hne
  case emits =>
    intro k s hk
    have htake : imageSize (p.statements.take k) = imageLength (p.statements.take k) :=
      imageSize_eq_length fun t ht => hsizes t (List.mem_of_mem_take ht)
    rw [Program.addressOf, Nat.add_sub_cancel_left, Program.words, htake,
      hsizes s (List.mem_of_getElem? hk), slice_imageOf hk]
    exact emits_words (encodingErrors_eq_nil herrors (List.mem_of_getElem? hk))
  case labels_nodup => exact labels_nodup_resolved hresolve
  case symbol_iff => exact hsymbol
  case label_next =>
    intro k j s t name hk hlabel hsize hkj _ _ hbetween
    exact hnext k j s name hk hlabel hsize hkj hbetween
  case label_last =>
    intro k s name hk hlabel hsize hafter
    have hkl : k < p.statements.length := (List.getElem?_eq_some_iff.1 hk).1
    have hend : p.addressOf p.statements.length = p.origin + p.words.length := by
      rw [Program.addressOf, List.take_length, hlength]
    rw [← hend]
    exact hnext k _ s name hk hlabel hsize hkl fun i u hki _ hu => hafter i u hki hu

/-- A program with a label on a line of its own, a blank line, reserved words and data. -/
theorem assemble_layout_reserved :
    ∃ p, assemble "start: JUMP end\nend:\n\n RESERVE 2\n DATA -1,2".toList 40 = .ok p ∧
      (∀ s ∈ p.statements, ∀ values, s.body = .data values → values.length < 0x100000000) ∧
      p.LaidOut ∧ p.words = [0x0ffc3c00, 0, 0, 0xffffffff, 2] ∧ p.addressOf 4 = 43 ∧
      p.symbols.address? "end" = some (p.addressOf 3) := by
  obtain ⟨p, hp, hwords, haddress, hend, hblank, hreserve, hlengths⟩ : ∃ p,
      assemble "start: JUMP end\nend:\n\n RESERVE 2\n DATA -1,2".toList 40 = .ok p ∧
        p.words = [0x0ffc3c00, 0, 0, 0xffffffff, 2] ∧ p.addressOf 4 = 43 ∧
        p.statements[1]? = some ⟨2, some "end", .empty⟩ ∧
        p.statements[2]? = some ⟨3, none, .empty⟩ ∧
        p.statements[3]? = some ⟨4, none, .reserve 2⟩ ∧
        p.statements.map Statement.length = [1, 0, 0, 2, 2] :=
    ⟨_, rfl, rfl, rfl, rfl, rfl, rfl, rfl⟩
  have hdata : ∀ s ∈ p.statements, ∀ values, s.body = .data values →
      values.length < 0x100000000 := by
    intro s hs values hbody
    have hlength : s.length = values.length := by rw [Statement.length, hbody, Body.length]
    have hmem : s.length ∈ [1, 0, 0, 2, 2] := hlengths ▸ List.mem_map_of_mem hs
    have hall : ∀ n ∈ [1, 0, 0, 2, 2], n < 0x100000000 := by decide
    exact hlength ▸ hall _ hmem
  obtain ⟨-, -, hlayout⟩ := assemble_layout hp hdata
  refine ⟨p, hp, hdata, hlayout, hwords, haddress, ?_⟩
  refine hlayout.label_next 1 3 _ _ "end" hend rfl rfl (by decide) hreserve (by decide) ?_
  intro i u hl hu hi
  have hcases : i = 2 := by omega
  subst hcases
  cases hblank.symm.trans hi
  rfl

theorem assemble_listing_data {values : List Word} (hne : values ≠ [])
    (hsize : (Body.data values).size ≤ addressLimit) : ∃ table,
    assemble (listing [⟨1, none, .data values⟩]).toList 0 =
      .ok ⟨[⟨1, none, .data values⟩], table, 0⟩ := by
  have hfits : Fits 0 [(⟨1, none, .data values⟩ : Statement)] := by
    refine .inr ?_
    rw [imageSize, imageSize, Nat.zero_add]
    exact hsize
  have hreadable : ∀ s ∈ [(⟨1, none, .data values⟩ : Statement)], s.Readable := by
    intro s hs
    rw [List.mem_singleton.1 hs]
    exact ⟨fun _ hname => (Option.some_ne_none _ hname.symm).elim, hne⟩
  refine ⟨_, assemble_ok_iff.2 ⟨(resolveSource_listing_iff hreadable List.nodup_nil).2
    ⟨hfits, rfl, rfl⟩, ?_, rfl⟩⟩
  rw [encodingErrors_of_fits hfits]
  rfl

/-- One line of `2 ^ 32` zeros is assembled, far past the address range, to an image of which the
layout counts no word. -/
theorem assemble_uncounted_zeros :
    ∃ p, assemble (listing [⟨1, none, .data (List.replicate 0x100000000 0)⟩]).toList 0 = .ok p ∧
      p.words.length = 0x100000000 ∧ ¬p.LaidOut := by
  obtain ⟨zeros, hzeros⟩ : ∃ zeros : List Word, zeros = List.replicate 0x100000000 0 := ⟨_, rfl⟩
  have hlength : zeros.length = 0x100000000 := by rw [hzeros, List.length_replicate]
  have hne : zeros ≠ [] := by
    rintro rfl
    cases hlength
  have hsize : (Body.data zeros).size = 0 := by
    rw [Body.size, hlength]
    rfl
  obtain ⟨table, hp⟩ := assemble_listing_data hne (by rw [hsize]; exact Nat.zero_le _)
  rw [← hzeros]
  refine ⟨_, hp, (congrArg List.length (List.append_nil zeros)).trans hlength, fun hlaid => ?_⟩
  have hcount : zeros.length = 0 := by
    have hsum := hlaid.length_words
    rw [Program.length_words] at hsum
    simpa [Program.size, imageLength, Statement.length, Body.length, Statement.size, hsize] using hsum
  rw [hlength] at hcount
  cases hcount

end DM2022.Assembly
