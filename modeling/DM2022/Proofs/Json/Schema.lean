import DM2022.Json.Schema
import DM2022.Proofs.Json.Records

/-!
# Values of declared types

When a JSON value can be read as a value of a declared type. What a lawful schema writes is read
as the value that was written.
-/
namespace DM2022.Json

namespace Schema

/-- The value can be read as the second one. Objects may have other members, absent fields have
their defaults, and `null` stands for no value. -/
def Reads {k : Construct} {α : Type} : Schema k α → k.Given → α → Prop
  | .unsigned _, v, n => v = Value.integer n.toNat
  | .signed _, v, n => v = Value.integer n.toInt
  | .text, v, s => v = Value.string (some s)
  | .optional _, v, none => v = Value.null
  | .optional s, v, some a => v ≠ Value.null ∧ s.Reads v a
  | .list s, v, items =>
      ∃ values, v = Value.array values ∧ List.Forall₂ (fun v a => s.Reads v a) values items
  | .vector _ s, v, items =>
      ∃ values, v = Value.array values ∧ List.Forall₂ (fun v a => s.Reads v a) values items.toList
  | .newtype s _ make, v, b => ∃ a, s.Reads v a ∧ make a = b
  | .record fields short _ make, v, b =>
      ∃ given a, Value.Gives fields.names short v given ∧ fields.Reads given a ∧ make a = b
  | .choice alternatives, v, b =>
      ∃ name content, Value.Names v name content ∧ alternatives.Reads (name, content) b
  | .noFields, given, _ => given = ([] : List (Option Value))
  | .field _ s absent rest, given, (a, b) => ∃ field others, given = field :: others ∧
      (match field with
        | some v => s.Reads v a
        | none => absent = some a) ∧ rest.Reads others b
  | .unit, content, _ => content = none ∨ content = some Value.null
  | .bare s, content, a => ∃ v, content = some v ∧ s.Reads v a
  | .named fields, content, a =>
      ∃ v given, content = some v ∧ Value.Gives fields.names false v given ∧ fields.Reads given a
  | .noAlternatives, _, _ => False
  | .alternative name content make _ rest, (found, given), b =>
      (found = name ∧ ∃ a, content.Reads given a ∧ make a = b) ∨
        (found ≠ name ∧ rest.Reads (found, given) b)

/-- The parts of a value make it up again, no name stands for two fields or alternatives, and
`null` stands for nothing else than no value. -/
def Lawful {k : Construct} {α : Type} : Schema k α → Prop
  | .optional s => (∀ a, s.write a ≠ Value.null) ∧ s.Lawful
  | .list s => s.Lawful
  | .vector _ s => s.Lawful
  | .newtype s part make => (∀ b, make (part b) = b) ∧ s.Lawful
  | .record fields _ parts make => (∀ b, make (parts b) = b) ∧ fields.Lawful
  | .choice alternatives => (∀ b, alternatives.write b ≠ none) ∧ alternatives.Lawful
  | .field name s _ rest => name ∉ rest.names ∧ s.Lawful ∧ rest.Lawful
  | .bare s => s.Lawful
  | .named fields => fields.Lawful
  | .alternative name content make match? rest => name ∉ rest.names ∧
      (∀ a b, match? b = some a → make a = b) ∧ content.Lawful ∧ rest.Lawful
  | _ => True

variable {k : Construct} {α : Type}

/-! ## Reading -/

theorem vector?_eq_some_iff {n : Nat} {items : List α} {v : Vector α n} :
    vector? n items = some v ↔ items = v.toList := by
  rw [vector?]
  split
  · next h =>
    obtain ⟨⟨l⟩, hl⟩ := v
    simp
  · next h =>
    refine iff_of_false nofun ?_
    rintro rfl
    simp at h

theorem read?_eq_some_iff {s : Schema k α} : ∀ {given : k.Given} {a : α},
    s.read? given = some a ↔ s.Reads given a := by
  -- one case for each way in which a value is declared
  induction s with
  | unsigned width => exact Value.unsigned?_eq_some_iff
  | signed width => exact Value.signed?_eq_some_iff
  | text =>
    intro (v : Value) a
    cases v <;> simp [read?, Reads, Value.text?]
  | optional s ih =>
    intro (v : Value) a
    by_cases hv : v = Value.null
    · subst hv
      cases a <;> simp [read?, Reads, Value.optional?]
    · have hread : Value.optional? (fun v => s.read? v) v = (s.read? v).map some := by
        cases v <;> first | rfl | exact absurd rfl hv
      cases a <;> simp [read?, Reads, hread, hv, ← ih]
  | list s ih =>
    intro (v : Value) items
    cases v <;> simp [read?, Reads, Value.items?, Value.mapM_eq_some_iff, ih]
  | vector n s ih =>
    intro (v : Value) items
    cases v <;> simp [read?, Reads, Value.items?, Option.bind_eq_some_iff, vector?_eq_some_iff,
      Value.mapM_eq_some_iff, ih]
  | newtype s part make ih =>
    intro (v : Value) b
    simp [read?, Reads, Option.map_eq_some_iff, ih]
  | record fields short parts make ih =>
    intro (v : Value) b
    simp [read?, Reads, Option.bind_eq_some_iff, Value.fields?_eq_some_iff, ih]
  | choice alternatives ih =>
    intro (v : Value) b
    simp [read?, Reads, Option.bind_eq_some_iff, Value.alternative?_eq_some_iff, ih]
  | noFields =>
    intro (given : List (Option Value)) a
    simp [read?, Reads]
  | field name s absent rest ihs ihrest =>
    intro (given : List (Option Value)) a
    obtain ⟨a, b⟩ := a
    rcases given with _ | ⟨_ | v, others⟩
    · simp [read?, Reads]
    · simp [read?, Reads, Option.bind_eq_some_iff, ← ihrest]
    · simp [read?, Reads, Option.bind_eq_some_iff, ← ihrest, ← ihs]
  | unit =>
    intro (content : Option Value) a
    rcases content with _ | v
    · simp [read?, Reads, Value.isUnit]
    · cases v <;> simp [read?, Reads, Value.isUnit]
  | bare s ih =>
    intro (content : Option Value) a
    simp [read?, Reads, Option.bind_eq_some_iff, ih]
  | named fields ih =>
    intro (content : Option Value) a
    simp [read?, Reads, Option.bind_eq_some_iff, Value.fields?_eq_some_iff, ih]
  | noAlternatives =>
    intro given b
    simp [read?, Reads]
  | alternative name content make match? rest ihcontent ihrest =>
    rintro ⟨found, given⟩ b
    by_cases hfound : found = name
    · simp [read?, Reads, hfound, ihcontent]
    · simp [read?, Reads, hfound, ihrest]

/-! ## Writing -/

theorem map_fst_write : {α : Type} → (fields : Schema .fields α) → (a : α) →
    (fields.write a).map Prod.fst = fields.names
  | _, .noFields, _ => rfl
  | _, .field _ _ _ rest, (_, b) => congrArg _ (map_fst_write rest b)

theorem nodup_names : {α : Type} → {fields : Schema .fields α} → fields.Lawful →
    fields.names.Nodup
  | _, .noFields, _ => List.nodup_nil
  | _, .field _ _ _ _, h => List.nodup_cons.2 ⟨h.1, nodup_names h.2.2⟩

theorem mem_names_of_write {found : String} {given : Option Value} {b : α} :
    {s : Schema .alternatives α} → s.write b = some (found, given) → found ∈ s.names
  | .alternative name content make match? rest, h => by
    rw [write] at h
    split at h
    · cases h
      exact List.mem_cons_self
    · exact List.mem_cons_of_mem _ (mem_names_of_write h)

/-- An object of fields gives them, if no two have the same name. -/
theorem gives_record {fields : List (String × Value)} (h : (fields.map Prod.fst).Nodup)
    (short : Bool) :
    Value.Gives (fields.map Prod.fst) short (Json.record fields) (fields.map fun f => some f.2) := by
  have hkeys : (fields.map fun f => (some f.1, f.2)).map Prod.fst =
      (fields.map Prod.fst).map some := by
    rw [List.map_map, List.map_map]
    rfl
  have hmem : ∀ f : String × Value,
      (some f.1, f.2) ∈ fields.map (fun f => (some f.1, f.2)) ↔ f ∈ fields := by
    intro f
    simp
  refine @Value.Gives.object _ _ (fields.map fun f => (some f.1, f.2)) _ ?_ ?_ ?_
  · intro m hm
    obtain ⟨f, -, rfl⟩ := List.mem_map.1 hm
    rfl
  · intro name _
    rw [hkeys, List.count_map_of_injective _ some fun _ _ => Option.some.inj]
    exact List.nodup_iff_count_le_one.1 h name
  · rw [List.forall₂_map_left_iff, List.forall₂_map_right_iff, List.forall₂_same]
    intro f hf v
    rw [Option.some.injEq, hmem (f.1, v)]
    constructor
    · rintro rfl
      exact hf
    · intro hv
      exact congrArg Prod.snd (List.inj_on_of_nodup_map h hf hv rfl)

theorem names_ofAlternative (name : String) (content : Option Value) :
    Value.Names (Value.ofAlternative (some (name, content))) name content := by
  cases content with
  | none => exact .text name
  | some content => exact .object name content

theorem gives_write {fields : Schema .fields α} (h : fields.Lawful) (short : Bool) (a : α) :
    Value.Gives fields.names short (Json.record (fields.write a))
      ((fields.write a).map fun f => some f.2) := by
  rw [← map_fst_write fields a]
  refine gives_record ?_ short
  rw [map_fst_write]
  exact nodup_names h

end Schema

/-- What there is to read of what was written. -/
def Construct.given? : (k : Construct) → k.Written → Option k.Given
  | .type, v => some v
  | .fields, written => some (written.map fun f => some f.2)
  | .content, written => some written
  | .alternatives, written => written

namespace Schema

variable {k : Construct} {α : Type}

/-- The value that was written can be read from what was written. -/
theorem reads_write {s : Schema k α} (hs : s.Lawful) : ∀ {a : α} {given : k.Given},
    k.given? (s.write a) = some given → s.Reads given a := by
  induction s with
  | unsigned width | signed width | text =>
    rintro a given ⟨⟩
    rfl
  | optional s ih =>
    rintro (_ | a) given ⟨⟩
    · rfl
    · exact ⟨hs.1 a, ih hs.2 rfl⟩
  | list s ih =>
    rintro items given ⟨⟩
    exact ⟨_, rfl, List.forall₂_map_left_iff.2 (List.forall₂_same.2 fun a _ => ih hs rfl)⟩
  | vector n s ih =>
    rintro items given ⟨⟩
    exact ⟨_, rfl, List.forall₂_map_left_iff.2 (List.forall₂_same.2 fun a _ => ih hs rfl)⟩
  | newtype s part make ih =>
    rintro b given ⟨⟩
    exact ⟨part b, ih hs.2 rfl, hs.1 b⟩
  | record fields short parts make ih =>
    rintro b given ⟨⟩
    exact ⟨_, parts b, gives_write hs.2 short (parts b), ih hs.2 rfl, hs.1 b⟩
  | choice alternatives ih =>
    rintro b given ⟨⟩
    obtain ⟨⟨name, content⟩, hwrite⟩ := Option.ne_none_iff_exists'.1 (hs.1 b)
    refine ⟨name, content, ?_, ih hs.2 hwrite⟩
    rw [write, hwrite]
    exact names_ofAlternative name content
  | noFields =>
    rintro a given ⟨⟩
    rfl
  | field name s absent rest ihs ihrest =>
    rintro ⟨a, b⟩ given ⟨⟩
    exact ⟨_, _, rfl, ihs hs.2.1 rfl, ihrest hs.2.2 rfl⟩
  | unit =>
    rintro a given ⟨⟩
    exact .inl rfl
  | bare s ih =>
    rintro a given ⟨⟩
    exact ⟨_, rfl, ih hs rfl⟩
  | named fields ih =>
    rintro a given ⟨⟩
    exact ⟨_, _, rfl, gives_write hs false a, ih hs rfl⟩
  | noAlternatives =>
    rintro b given ⟨⟩
  | alternative name content make match? rest ihcontent ihrest =>
    rintro b ⟨found, given⟩ hgiven
    obtain ⟨hname, hmake, hcontent, hrest⟩ := hs
    cases hmatch : match? b with
    | some a =>
      have hwrite : (alternative name content make match? rest).write b =
          some (name, content.write a) := by rw [write, hmatch]
      cases hgiven.symm.trans hwrite
      exact .inl ⟨rfl, a, ihcontent hcontent rfl, hmake a b hmatch⟩
    | none =>
      have hwrite : (alternative name content make match? rest).write b = rest.write b := by
        rw [write, hmatch]
      have hfound : rest.write b = some (found, given) := hwrite.symm.trans hgiven
      refine .inr ⟨?_, ihrest hrest hfound⟩
      rintro rfl
      exact hname (mem_names_of_write hfound)

/-! ## Constants -/

section Constant

variable {β : Type} [DecidableEq β] {rest : Schema .alternatives β}

theorem lawful_constant {name : String} (value : β) (hname : name ∉ rest.names)
    (hrest : rest.Lawful) : (constant name value rest).Lawful := by
  refine ⟨hname, fun _ b hmatch => ?_, trivial, hrest⟩
  obtain ⟨hb, -⟩ := Option.ite_none_right_eq_some.1 hmatch
  exact hb.symm

theorem names_foldr_constant (name : β → String) (rest : Schema .alternatives β)
    (values : List β) : (values.foldr (fun value => constant (name value) value) rest).names =
      values.map name ++ rest.names := by
  induction values with
  | nil => rfl
  | cons value values ih => exact congrArg (name value :: ·) ih

theorem lawful_foldr_constant {name : β → String} {values : List β} (hrest : rest.Lawful)
    (h : (values.map name ++ rest.names).Nodup) :
    (values.foldr (fun value => constant (name value) value) rest).Lawful := by
  induction values with
  | nil => exact hrest
  | cons value values ih =>
    obtain ⟨hname, hvalues⟩ := List.nodup_cons.1 h
    refine lawful_constant value ?_ (ih hvalues)
    rw [names_foldr_constant]
    exact hname

end Constant

end Schema

end DM2022.Json
