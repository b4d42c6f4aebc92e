import Mathlib.Data.List.Basic
import DM2022.Proofs.Assembly.Listing

/-!
# The program of a listing

The listing of resolved statements resolves to these statements again, at every origin
where they fit: the blank ones and the names of label operands are gone, but the labels,
their addresses and the words are the same.
-/
namespace DM2022.Assembly

variable {text : List Char} {origin : Nat} {table : SymbolTable} {body : Body} {s : Statement}
  {statements : List Statement}

/-! ## Layout -/

@[simp] theorem plain_plain (body : Body) : body.plain.plain = body.plain := by
  cases body <;> rfl

@[simp] theorem size_plain (body : Body) : body.plain.size = body.size := by
  cases body <;> rfl

theorem plain_eq_empty_iff : body.plain = .empty ↔ body = .empty := by
  cases body <;> simp [Body.plain]

theorem outline_cons (s : Statement) (statements : List Statement) :
    outline (s :: statements) = outline [s] ++ outline statements := by
  rw [← List.singleton_append, outline, List.map_append, List.filter_append]
  rfl

theorem outline_shown (statements : List Statement) :
    outline (shown statements) = outline statements := by
  induction statements with
  | nil => rfl
  | cons s rest ih =>
    rw [shown_cons]
    split
    · next hblank =>
      obtain ⟨hlabel, hbody⟩ := isBlank_iff.1 hblank
      have houtline : (s.label, s.size) = (none, 0) := by
        rw [hlabel, Statement.size, hbody]
        rfl
      rw [ih, outline_cons_of_eq houtline]
    · rw [outline_cons, ih, ← outline_cons]

theorem outline_relisted (statements : List Statement) :
    outline (relisted statements) = outline statements := by
  have hparts : (relisted statements).map (fun s => (s.label, s.size)) =
      (shown statements).map fun s => (s.label, s.size) := by
    rw [relisted, List.map_map, ← List.zipIdx_map_fst 1 (shown statements), List.map_map,
      List.zipIdx_map_fst]
    refine List.map_congr_left fun p _ => ?_
    simp [Statement.relist, Statement.size]
  rw [← outline_shown statements, outline, outline, hparts]

theorem fits_relisted (h : Fits origin statements) : Fits origin (relisted statements) := by
  rcases h with rfl | h
  · exact .inl rfl
  · refine .inr ?_
    rw [imageSize_eq_of_outline, outline_relisted, ← imageSize_eq_of_outline]
    exact h

theorem labels_relisted (statements : List Statement) :
    labels (relisted statements) = labels statements := by
  rw [labels_eq_of_outline, outline_relisted, ← labels_eq_of_outline]

/-! ## Resolution -/

/-- Statements without label operands are resolved if they fit and their labels differ. -/
theorem resolve_of_plain (hfits : Fits origin statements) (hlabels : (labels statements).Nodup)
    (hplain : ∀ s ∈ statements, s.body.plain = s.body) :
    resolve statements origin = ⟨statements, symbolsFrom origin statements, []⟩ := by
  have hresolve : ∀ p ∈ placed origin statements, ∀ table : SymbolTable,
      p.1.resolve table p.2 = .ok p.1 := by
    intro p hp table
    refine resolve_of_not_ref fun i ref hbody => ?_
    have hp := hplain p.1 (List.of_mem_zip hp).1
    rw [hbody] at hp
    cases hp
  have hstatements : (placed origin statements).map
      (resolved (symbolsFrom origin statements)) = statements := by
    have hmap := map_fst_placed origin statements
    rw [← List.map_congr_left fun p hp => resolved_of_ok (hresolve p hp _)] at hmap
    exact hmap
  have herrors : ((placed origin statements).filterMap fun p =>
      failure? (p.1.resolve (symbolsFrom origin statements) p.2)) = [] := by
    rw [List.filterMap_eq_nil_iff]
    intro p hp
    rw [hresolve p hp, failure?]
  rw [resolve_of_fits hfits, define_placed_errors_eq_nil_iff.2 hlabels, hstatements, herrors]
  rfl

theorem plain_relisted : ∀ s ∈ relisted statements, s.body.plain = s.body := by
  intro s hs
  obtain ⟨p, -, rfl⟩ := List.mem_map.1 hs
  exact plain_plain _

/-- A listing is resolved where its statements fit, and they stay as they are. -/
theorem resolveSource_listing_iff (hreadable : ∀ s ∈ statements, s.Readable)
    (hlabels : (labels statements).Nodup) {found : List Statement} :
    resolveSource (listing statements).toList origin = .ok (found, table) ↔
      Fits origin (relisted statements) ∧ found = relisted statements ∧
        table = symbolsFrom origin (relisted statements) := by
  have hlabels' : (labels (relisted statements)).Nodup := by
    rw [labels_relisted]
    exact hlabels
  rw [resolveSource_ok_iff, read_listing hreadable]
  simp only [true_and]
  constructor
  · intro h
    obtain ⟨herrors, rfl, rfl⟩ := h
    have hfits := (resolve_errors_eq_nil_iff.1 herrors).1
    rw [resolve_of_plain hfits hlabels' plain_relisted]
    exact ⟨hfits, rfl, rfl⟩
  · intro h
    obtain ⟨hfits, rfl, rfl⟩ := h
    rw [resolve_of_plain hfits hlabels' plain_relisted]
    exact ⟨rfl, rfl, rfl⟩

/-- A statement stays readable when its operand is resolved. -/
theorem readable_of_resolve {s' : Statement} {address : Nat} (h : s.Readable)
    (hs : s.resolve table address = .ok s') : s'.Readable := by
  rcases resolve_cases hs with ⟨-, rfl⟩ | ⟨i, ref, target, word, hbody, -, -, rfl⟩
  · exact h
  · have hreadable := h.body
    rw [hbody] at hreadable
    obtain ⟨hi, hname⟩ := hreadable
    refine ⟨h.label, ⟨⟨hi.op, hi.cond, hi.target, hi.src1, hi.src2⟩, fun r hr => ?_⟩⟩
    cases hr
    exact hname ref rfl

theorem exists_source_of_mem (h : resolveSource text origin = .ok (statements, table))
    (hs : s ∈ statements) : ∃ s' address, s' ∈ (Source.read text).statements ∧
      s'.resolve table address = .ok s := by
  obtain ⟨k, hk⟩ := List.getElem?_of_mem hs
  have hlength : k < (Source.read text).statements.length := by
    rw [← length_resolved h]
    exact (List.getElem?_eq_some_iff.1 hk).1
  obtain ⟨t, ht, hresolve⟩ := getElem?_resolved h (List.getElem?_eq_getElem hlength)
  cases hk.symm.trans ht
  exact ⟨_, _, List.getElem_mem hlength, hresolve⟩

theorem readable_resolved (h : resolveSource text origin = .ok (statements, table)) :
    ∀ s ∈ statements, s.Readable := by
  intro s hs
  obtain ⟨s', address, hmem, hresolve⟩ := exists_source_of_mem h hs
  exact readable_of_resolve (readable_of_mem_source (resolveSource_ok_iff.1 h).1 hmem) hresolve

/-! ## Words -/

/-- The label operand of the statement, if it has one, is resolved. -/
def Statement.Settled (s : Statement) : Prop :=
  ∀ i ref, s.body = .instruction i (some ref) → ref.target.isSome

theorem settled_of_resolve {s' : Statement} {address : Nat}
    (h : s.resolve table address = .ok s') : s'.Settled := by
  intro j ref' hj
  rcases resolve_cases h with ⟨hplain, rfl⟩ | ⟨i, ref, target, word, -, -, -, rfl⟩
  · exact absurd hj (hplain j ref')
  · cases hj
    rfl

theorem encodeOperation_of_settled {i : Instruction} {ref : Option LabelRef} (h : s.Settled)
    (hbody : s.body = .instruction i ref) : encodeOperation i ref = i.encode := by
  cases ref with
  | none => rfl
  | some ref =>
    obtain ⟨name, mode, target⟩ := ref
    have htarget := h i _ hbody
    cases target with
    | none => cases htarget
    | some target => rfl

theorem words_relist (h : s.Settled) (line : Nat) : (s.relist line).words = s.words := by
  cases hbody : s.body with
  | instruction i ref =>
    simp only [Statement.words, Statement.relist, Body.plain, hbody,
      encodeOperation_of_settled h hbody]
    rfl
  | _ => simp [Statement.words, Statement.relist, Body.plain, hbody]

theorem encodingError?_relist (h : s.Settled) (line : Nat) :
    (s.relist line).encodingError? = s.encodingError?.map fun e => { e with line } := by
  cases hbody : s.body with
  | instruction i ref =>
    have hplain : encodeOperation i none = i.encode := rfl
    simp only [Statement.encodingError?, Statement.relist, Body.plain, hbody,
      encodeOperation_of_settled h hbody, hplain]
    cases failure? i.encode <;> rfl
  | _ => simp [Statement.encodingError?, Statement.relist, Body.plain, hbody]

theorem imageOf_cons (s : Statement) (statements : List Statement) :
    imageOf (s :: statements) = s.words ++ imageOf statements := List.flatMap_cons

theorem imageOf_shown (statements : List Statement) :
    imageOf (shown statements) = imageOf statements := by
  induction statements with
  | nil => rfl
  | cons s rest ih =>
    rw [shown_cons, imageOf_cons]
    split
    · next hblank =>
      have hwords : s.words = [] := by rw [Statement.words, (isBlank_iff.1 hblank).2]
      rw [hwords, ih, List.nil_append]
    · rw [imageOf_cons, ih]

theorem settled_of_mem_zipIdx (h : ∀ s ∈ statements, s.Settled) {p : Statement × Nat}
    (hp : p ∈ (shown statements).zipIdx 1) : p.1.Settled :=
  h p.1 (List.mem_filter.1 (List.fst_mem_of_mem_zipIdx hp)).1

/-- A listing has the words of its statements. -/
theorem imageOf_relisted (h : ∀ s ∈ statements, s.Settled) :
    imageOf (relisted statements) = imageOf statements := by
  calc imageOf (relisted statements)
      = ((shown statements).zipIdx 1).flatMap fun p => (p.1.relist p.2).words :=
        List.flatMap_map ..
    _ = ((shown statements).zipIdx 1).flatMap fun p => p.1.words :=
        List.flatMap_congr fun p hp => words_relist (settled_of_mem_zipIdx h hp) p.2
    _ = (((shown statements).zipIdx 1).map Prod.fst).flatMap Statement.words :=
        (List.flatMap_map ..).symm
    _ = imageOf (shown statements) := by rw [List.zipIdx_map_fst, imageOf]
    _ = imageOf statements := imageOf_shown statements

theorem encodingErrors_shown (h : Fits origin statements) :
    encodingErrors statements = (shown statements).filterMap Statement.encodingError? := by
  rw [encodingErrors_of_fits h, shown, List.filterMap_filter]
  refine List.filterMap_congr fun s _ => ?_
  cases hblank : s.isBlank with
  | false => rfl
  | true => rw [Statement.encodingError?, (isBlank_iff.1 hblank).2]; rfl

/-- The encoding errors of a listing are those of its statements, on the lines of their
rows. -/
theorem encodingErrors_relisted (hfits : Fits origin statements)
    (h : ∀ s ∈ statements, s.Settled) : encodingErrors (relisted statements) =
      ((shown statements).zipIdx 1).filterMap fun p =>
        p.1.encodingError?.map fun e => { e with line := p.2 } := by
  rw [encodingErrors_of_fits (fits_relisted hfits), relisted, List.filterMap_map]
  exact List.filterMap_congr fun p hp => encodingError?_relist (settled_of_mem_zipIdx h hp) p.2

theorem encodingErrors_relisted_eq_nil_iff (hfits : Fits origin statements)
    (h : ∀ s ∈ statements, s.Settled) :
    encodingErrors (relisted statements) = [] ↔ encodingErrors statements = [] := by
  rw [encodingErrors_relisted hfits h, encodingErrors_shown hfits, List.filterMap_eq_nil_iff,
    List.filterMap_eq_nil_iff]
  simp only [Option.map_eq_none_iff]
  constructor
  · intro hnone s hs
    obtain ⟨k, hk⟩ := List.getElem?_of_mem hs
    have hp : (s, 1 + k) ∈ (shown statements).zipIdx 1 := by
      refine List.mem_of_getElem? (i := k) ?_
      rw [List.getElem?_zipIdx, hk, Option.map_some]
    exact hnone _ hp
  · intro hnone p hp
    exact hnone p.1 (List.fst_mem_of_mem_zipIdx hp)

/-! ## Listings of listings -/

theorem shown_relisted (statements : List Statement) :
    shown (relisted statements) = relisted statements := by
  rw [shown, List.filter_eq_self]
  intro s hs
  obtain ⟨p, hp, rfl⟩ := List.mem_map.1 hs
  have hblank := (List.mem_filter.1 (List.fst_mem_of_mem_zipIdx hp)).2
  simpa [Statement.isBlank, Statement.relist, plain_eq_empty_iff] using hblank

/-- A listing of a listing shows the same statements. -/
theorem relisted_relisted (statements : List Statement) :
    relisted (relisted statements) = relisted statements := by
  refine List.ext_getElem? fun k => ?_
  rw [relisted, shown_relisted, List.getElem?_map, List.getElem?_zipIdx, relisted,
    List.getElem?_map, List.getElem?_zipIdx, Option.map_map, Option.map_map, Option.map_map]
  cases (shown statements)[k]? with
  | none => rfl
  | some s => simp [Statement.relist]

theorem readable_relisted (h : ∀ s ∈ statements, s.Readable) :
    ∀ s ∈ relisted statements, s.Readable := by
  intro s hs
  obtain ⟨p, hp, rfl⟩ := List.mem_map.1 hs
  have hread := h p.1 (List.mem_filter.1 (List.fst_mem_of_mem_zipIdx hp)).1
  refine ⟨hread.label, ?_⟩
  have hbody := hread.body
  rw [Statement.relist]
  generalize p.1.body = body at hbody
  cases body with
  | instruction i ref => exact ⟨hbody.1, by simp⟩
  | _ => exact hbody

/-- The listing of resolved statements is a source for them: it resolves, at any origin
where they fit, to the statements that it shows, with the same addresses of labels and the
same words or encoding errors, and its own listing resolves to these statements again. -/
theorem resolveSource_listing (h : resolveSource text origin = .ok (statements, table)) :
    ∃ table', resolveSource (listing statements).toList origin =
        .ok (relisted statements, table') ∧
      (∀ name, table'.address? name = table.address? name) ∧
      (∀ words, encodeStatements (relisted statements) = .ok words ↔
        encodeStatements statements = .ok words) ∧
      (∀ errors, encodeStatements statements = .error errors →
        errors = (shown statements).filterMap Statement.encodingError? ∧
          encodeStatements (relisted statements) =
            .error (((shown statements).zipIdx 1).filterMap fun p =>
              p.1.encodingError?.map fun e => { e with line := p.2 })) ∧
      (∀ other, Fits other (relisted statements) ↔ ∃ found,
        resolveSource (listing statements).toList other = .ok found) ∧
      (∀ other found, resolveSource (listing statements).toList other = .ok found →
        found.1 = relisted statements) ∧
      resolveSource (listing (relisted statements)).toList origin =
        .ok (relisted statements, table') := by
  have hreadable := readable_resolved h
  have hlabels := labels_nodup_resolved h
  have hfits := fits_resolved h
  have hsettled : ∀ s ∈ statements, s.Settled := by
    intro s hs
    obtain ⟨s', address, -, hresolve⟩ := exists_source_of_mem h hs
    exact settled_of_resolve hresolve
  have hlabels' : (labels (relisted statements)).Nodup := by
    rw [labels_relisted]
    exact hlabels
  refine ⟨symbolsFrom origin (relisted statements), ?_, ?_, ?_, ?_, ?_, ?_, ?_⟩
  · exact (resolveSource_listing_iff hreadable hlabels).2 ⟨fits_relisted hfits, rfl, rfl⟩
  · intro name
    rw [address?_eq_of_outline, outline_relisted, outline_resolved h, ← address?_eq_of_outline,
      ← symbols_resolved h]
  · intro words
    rw [encodeStatements_ok_iff, encodeStatements_ok_iff, imageOf_relisted hsettled,
      encodingErrors_relisted_eq_nil_iff hfits hsettled]
  · intro errors herrors
    obtain ⟨hne, rfl⟩ := encodeStatements_error_iff.1 herrors
    refine ⟨encodingErrors_shown hfits, encodeStatements_error_iff.2 ⟨?_, ?_⟩⟩
    · exact mt (encodingErrors_relisted_eq_nil_iff hfits hsettled).1 hne
    · exact encodingErrors_relisted hfits hsettled
  · intro other
    constructor
    · intro hother
      exact ⟨_, (resolveSource_listing_iff hreadable hlabels).2 ⟨hother, rfl, rfl⟩⟩
    · intro h
      obtain ⟨⟨found, symbols⟩, hfound⟩ := h
      exact ((resolveSource_listing_iff hreadable hlabels).1 hfound).1
  · rintro other ⟨found, symbols⟩ hfound
    exact ((resolveSource_listing_iff hreadable hlabels).1 hfound).2.1
  · have hagain := (resolveSource_listing_iff (readable_relisted hreadable) hlabels').2
      ⟨fits_relisted (fits_relisted hfits), rfl, rfl⟩
    rw [relisted_relisted] at hagain
    exact hagain

/-- A source with a blank line, a label operand and a label on a line of its own. -/
theorem resolveSource_listing_loop :
    ∃ statements table table',
      resolveSource "loop: JUMP loop\n\n DATA -1\nend:".toList 5 = .ok (statements, table) ∧
      listing statements = "loop:  ADD   r15,r0,r15[-1] #loop\n    DATA -1\nend:\n" ∧
      resolveSource (listing statements).toList 5 = .ok
        ([⟨1, some "loop", .instruction ⟨.add, .always, 15, 0, 15, -1⟩ none⟩,
          ⟨2, none, .data [-1]⟩, ⟨3, some "end", .empty⟩], table') ∧
      encodeStatements [⟨1, some "loop", .instruction ⟨.add, .always, 15, 0, 15, -1⟩ none⟩,
        ⟨2, none, .data [-1]⟩, ⟨3, some "end", .empty⟩] = .ok [0x0ffc3fff, 0xffffffff] ∧
      table'.address? "loop" = some 5 ∧ table'.address? "end" = some 7 := by
  obtain ⟨statements, table, h, hlisted, hwords, hrelisted, hloop, hend⟩ : ∃ statements table,
      resolveSource "loop: JUMP loop\n\n DATA -1\nend:".toList 5 = .ok (statements, table) ∧
        listing statements = "loop:  ADD   r15,r0,r15[-1] #loop\n    DATA -1\nend:\n" ∧
        encodeStatements statements = .ok [0x0ffc3fff, 0xffffffff] ∧
        relisted statements =
          [⟨1, some "loop", .instruction ⟨.add, .always, 15, 0, 15, -1⟩ none⟩,
            ⟨2, none, .data [-1]⟩, ⟨3, some "end", .empty⟩] ∧
        table.address? "loop" = some 5 ∧ table.address? "end" = some 7 :=
    ⟨_, _, rfl, by decide, rfl, rfl, rfl, rfl⟩
  obtain ⟨table', hlisting, haddress, hencoded, -⟩ := resolveSource_listing h
  have hlistedWords := (hencoded _).2 hwords
  rw [hrelisted] at hlisting hlistedWords
  exact ⟨statements, table, table', h, hlisted, hlisting, hlistedWords,
    (haddress "loop").trans hloop, (haddress "end").trans hend⟩

end DM2022.Assembly
