import DM2022.Proofs.Machine.Snapshot

/-!
# Configurations

A text gives a configuration with an object of its fields in any order, perhaps among members
with other keys, or with an array of the first fields in theirs. The fields that are left out
have their defaults. The reader finds the configuration that a text gives and then checks it as
a whole, defaults included; a text that gives none is malformed.
-/
namespace DM2022.Config

open Json

inductive Field where
  | memoryWords | loadBase | entry | maxCycles
  deriving DecidableEq

namespace Field

/-- In the order of an array. -/
def all : List Field := [.memoryWords, .loadBase, .entry, .maxCycles]

def key : Field → String
  | .memoryWords => "memory_words"
  | .loadBase => "load_base"
  | .entry => "entry"
  | .maxCycles => "max_cycles"

/-- The values that a field can have. -/
inductive Holds : Field → Value → Prop
  | memoryWords {n : Int} (h : 0 ≤ n ∧ n ≤ 0xffffffffffffffff) : Holds .memoryWords (.integer n)
  | loadBase {n : Int} (h : 0 ≤ n ∧ n ≤ 0xffffffff) : Holds .loadBase (.integer n)
  | entry {n : Int} (h : 0 ≤ n ∧ n ≤ 0xffffffff) : Holds .entry (.integer n)
  | maxCycles {n : Int} (h : 0 ≤ n ∧ n ≤ 0xffffffffffffffff) : Holds .maxCycles (.integer n)
  | unlimited : Holds .maxCycles .null

theorem mem_all (f : Field) : f ∈ all := by
  cases f <;> decide

theorem key_injective {f g : Field} (h : f.key = g.key) : f = g := by
  revert h
  cases f <;> cases g <;> decide

theorem forall_iff {p : Field → Prop} :
    (∀ f, p f) ↔ p .memoryWords ∧ p .loadBase ∧ p .entry ∧ p .maxCycles := by
  refine ⟨fun h => ⟨h _, h _, h _, h _⟩, fun h f => ?_⟩
  cases f with
  | memoryWords => exact h.1
  | loadBase => exact h.2.1
  | entry => exact h.2.2.1
  | maxCycles => exact h.2.2.2

end Field

def limitValue : Option Count → Value
  | some limit => .integer limit.toNat
  | none => .null

/-- The value of a field as it is written. -/
def value (c : Config) : Field → Value
  | .memoryWords => .integer c.memoryWords.toNat
  | .loadBase => .integer c.loadBase.toNat
  | .entry => .integer c.entry.toNat
  | .maxCycles => limitValue c.maxCycles

/-- A field has the value that is given for it, or else its default. -/
def Takes (c : Config) (f : Field) : Option Value → Prop
  | some v => v = c.value f
  | none => c.value f = default.value f

/-- The members of an object give a configuration: every key is a text, and a known one occurs
once at most. -/
structure OfMembers (members : List (Option String × Value)) (c : Config) : Prop where
  texts : ∀ m ∈ members, m.1.isSome = true
  once : ∀ f : Field, (members.map Prod.fst).count (some f.key) ≤ 1
  given : ∀ (f : Field) (v : Value), (some f.key, v) ∈ members → v = c.value f
  absent : ∀ f : Field, (∀ v, (some f.key, v) ∉ members) → c.value f = default.value f

inductive Gives : Value → Config → Prop
  | object {members : List (Option String × Value)} {c : Config} (h : OfMembers members c) :
      Gives (.object members) c
  | array {items : List Value} {c : Config} (hlength : items.length ≤ 4)
      (h : ∀ f, c.Takes f items[Field.all.idxOf f]?) : Gives (.array items) c

/-- The text spells a value that gives the configuration. -/
def Writes (text : List Char) (c : Config) : Prop := ∃ v, Spells v.tokens text ∧ Gives v c

/-- The text is malformed, for the reason that the library gives. -/
def Malformed (l : Library) (text : List Char) : Prop := ∃ reason,
  l.read schema text = .error reason ∧ fromJson l text = .error (@ConfigError.malformed reason)

/-- What is checked, in order, with the text that is reported when it fails. -/
def checks (c : Config) : List (Bool × String) := [
  (c.memoryWords.toNat = 0, "memory_words must be at least 1"),
  (0x7fffffff < c.memoryWords.toNat,
    "memory_words " ++ Text.naturalText c.memoryWords.toNat ++ " exceeds the addressable range"),
  (c.memoryWords.toNat < c.loadBase.toNat,
    "load_base " ++ Text.naturalText c.loadBase.toNat ++ " is beyond memory of " ++
      Text.naturalText c.memoryWords.toNat ++ " words"),
  (c.memoryWords.toNat ≤ c.entry.toNat,
    "entry " ++ Text.naturalText c.entry.toNat ++ " is beyond memory of " ++
      Text.naturalText c.memoryWords.toNat ++ " words")]

/-- The text of the first check that fails. -/
def complaint? (c : Config) : Option String := (c.checks.find? Prod.fst).map Prod.snd

/-- The fields that are not kept have their defaults. -/
def keeping (c : Config) (kept : Field → Bool) : Config where
  memoryWords := if kept .memoryWords then c.memoryWords else default.memoryWords
  loadBase := if kept .loadBase then c.loadBase else default.loadBase
  entry := if kept .entry then c.entry else default.entry
  maxCycles := if kept .maxCycles then c.maxCycles else default.maxCycles

/-- The member has the key of a field. -/
def isField (m : Option String × Value) : Bool := Field.all.any fun f => m.1 == some f.key

/-- The members are the kept fields of a configuration, in any order and among others. -/
structure HoldFields (members : List (Option String × Value)) (c : Config) (kept : Field → Bool) :
    Prop where
  texts : ∀ m ∈ members, m.1.isSome = true
  fields : (members.filter isField).Perm
    ((Field.all.filter kept).map fun f => (some f.key, c.value f))

variable {c : Config} {v : Value} {members : List (Option String × Value)} {text : List Char}
  {kept : Field → Bool}

/-! ## Fields -/

theorem limitValue_inj {a b : Option Count} : limitValue a = limitValue b ↔ a = b := by
  rcases a with _ | a <;> rcases b with _ | b
  · exact iff_of_true rfl rfl
  · exact iff_of_false nofun nofun
  · exact iff_of_false nofun nofun
  · rw [limitValue, limitValue, Value.integer_toNat_inj, Option.some.injEq]

theorem reads_limit {limit : Option Count} :
    (Schema.optional (.unsigned 64)).Reads v limit ↔ v = limitValue limit := by
  cases limit with
  | none => exact Iff.rfl
  | some limit =>
    refine and_iff_right_of_imp ?_
    rintro rfl
    exact nofun

/-- A field that is given, or else has its default. -/
theorem readsField_iff {α : Type} {s : Schema .type α} {write : α → Value}
    (hread : ∀ v a, s.Reads v a ↔ v = write a) (hwrite : ∀ a b, write a = write b ↔ a = b)
    (absent a : α) (given : Option Value) :
    (match given with
      | some v => s.Reads v a
      | none => some absent = some a) ↔
    match given with
      | some v => v = write a
      | none => write a = write absent := by
  cases given with
  | some v => exact hread v a
  | none => rw [Option.some.injEq, hwrite, eq_comm]

theorem readsField_unsigned {width : Nat} (absent bits : BitVec width) (given : Option Value) :
    (match given with
      | some v => (Schema.unsigned width).Reads v bits
      | none => some absent = some bits) ↔
    match given with
      | some v => v = Value.integer bits.toNat
      | none => Value.integer bits.toNat = Value.integer absent.toNat :=
  readsField_iff (fun _ _ => Iff.rfl) (fun _ _ => Value.integer_toNat_inj) absent bits given

theorem readsField_limit (absent limit : Option Count) (given : Option Value) :
    (match given with
      | some v => (Schema.optional (.unsigned 64)).Reads v limit
      | none => some absent = some limit) ↔
    match given with
      | some v => v = limitValue limit
      | none => limitValue limit = limitValue absent :=
  readsField_iff (fun _ _ => reads_limit) (fun _ _ => limitValue_inj) absent limit given

theorem reads_fields_iff {given : Field → Option Value} :
    fields.Reads (Field.all.map given) (c.memoryWords, c.loadBase, c.entry, c.maxCycles, ()) ↔
      ∀ f, c.Takes f (given f) := by
  rw [Field.forall_iff]
  constructor
  · rintro ⟨_, _, ⟨⟩, hwords, _, _, ⟨⟩, hbase, _, _, ⟨⟩, hentry, _, _, ⟨⟩, hlimit, -⟩
    exact ⟨(readsField_unsigned _ _ _).1 hwords, (readsField_unsigned _ _ _).1 hbase,
      (readsField_unsigned _ _ _).1 hentry, (readsField_limit _ _ _).1 hlimit⟩
  · intro h
    obtain ⟨hwords, hbase, hentry, hlimit⟩ := h
    exact ⟨_, _, rfl, (readsField_unsigned _ _ _).2 hwords,
      _, _, rfl, (readsField_unsigned _ _ _).2 hbase,
      _, _, rfl, (readsField_unsigned _ _ _).2 hentry,
      _, _, rfl, (readsField_limit _ _ _).2 hlimit, rfl⟩

/-- The value is read as the configuration that takes what it gives. -/
theorem reads_of_given {given : Field → Option Value}
    (h : v.fields? (Field.all.map Field.key) true = some (Field.all.map given)) :
    schema.Reads v c ↔ ∀ f, c.Takes f (given f) := by
  rw [← reads_fields_iff]
  constructor
  · rintro ⟨given', ⟨memoryWords, loadBase, entry, maxCycles, ⟨⟩⟩, hgives, hreads, rfl⟩
    cases h.symm.trans (Value.fields?_eq_some_iff.2 hgives)
    exact hreads
  · intro hreads
    exact ⟨_, _, Value.fields?_eq_some_iff.1 h, hreads, rfl⟩

/-! ## Values that give a configuration -/

theorem exists_fields_of_reads (h : schema.Reads v c) :
    ∃ given, v.fields? (Field.all.map Field.key) true = some given := by
  obtain ⟨given, -, hgives, -⟩ := h
  exact ⟨given, Value.fields?_eq_some_iff.2 hgives⟩

theorem takes_member? {f : Field} (h : (members.map Prod.fst).count (some f.key) ≤ 1) :
    c.Takes f (Value.member? members f.key) ↔
      (∀ v, (some f.key, v) ∈ members → v = c.value f) ∧
      ((∀ v, (some f.key, v) ∉ members) → c.value f = default.value f) := by
  rw [← Value.member?_eq_none_iff]
  simp only [← Value.member?_eq_some_iff h]
  cases Value.member? members f.key with
  | some v => simp [Takes]
  | none => simp [Takes]

theorem reads_object : schema.Reads (Value.object members) c ↔ OfMembers members c := by
  by_cases h : (∀ m ∈ members, m.1.isSome = true) ∧
      ∀ f : Field, (members.map Prod.fst).count (some f.key) ≤ 1
  · obtain ⟨htexts, honce⟩ := h
    have hopen : (Value.object members).fields? (Field.all.map Field.key) true =
        some (Field.all.map fun f => Value.member? members f.key) :=
      Value.members?_eq_some_iff.2 ⟨htexts, fun name hname => by
        obtain ⟨f, -, rfl⟩ := List.mem_map.1 hname
        exact honce f, List.map_map⟩
    rw [reads_of_given hopen]
    simp only [takes_member? (honce _), forall_and]
    exact ⟨fun ⟨hgiven, habsent⟩ => ⟨htexts, honce, hgiven, habsent⟩,
      fun h => ⟨h.given, h.absent⟩⟩
  · refine iff_of_false (fun hread => h ?_) fun hmembers => h ⟨hmembers.texts, hmembers.once⟩
    obtain ⟨given, hopen⟩ := exists_fields_of_reads hread
    obtain ⟨htexts, honce, -⟩ := Value.members?_eq_some_iff.1 hopen
    exact ⟨htexts, fun f => honce f.key (List.mem_map_of_mem f.mem_all)⟩

theorem fields?_array {items : List Value} (h : items.length ≤ 4) :
    (Value.array items).fields? (Field.all.map Field.key) true =
      some (Field.all.map fun f => items[Field.all.idxOf f]?) := by
  rcases items with _ | ⟨a, _ | ⟨b, _ | ⟨d, _ | ⟨e, _ | ⟨_, rest⟩⟩⟩⟩⟩
  · rfl
  · rfl
  · rfl
  · rfl
  · rfl
  · exact absurd h (by simp)

theorem reads_array {items : List Value} : schema.Reads (Value.array items) c ↔
    items.length ≤ 4 ∧ ∀ f, c.Takes f items[Field.all.idxOf f]? := by
  by_cases h : items.length ≤ 4
  · rw [reads_of_given (fields?_array h), and_iff_right h]
  · refine iff_of_false (fun hread => ?_) fun hitems => h hitems.1
    obtain ⟨given, hopen⟩ := exists_fields_of_reads hread
    have hlong : ¬(items.length = 4 ∨ true = true ∧ items.length ≤ 4) := by
      rintro (hlength | ⟨-, hle⟩)
      · exact h (Nat.le_of_eq hlength)
      · exact h hle
    have hnone : (Value.array items).fields? (Field.all.map Field.key) true = none := if_neg hlong
    cases hnone.symm.trans hopen

theorem reads_iff : schema.Reads v c ↔ Gives v c := by
  cases v with
  | object members =>
    rw [reads_object]
    exact ⟨.object, fun h => by cases h; assumption⟩
  | array items =>
    rw [reads_array]
    refine ⟨fun h => .array h.1 h.2, fun h => ?_⟩
    cases h with
    | array hlength h => exact ⟨hlength, h⟩
  | _ =>
    refine iff_of_false (fun h => ?_) nofun
    obtain ⟨given, a, hgives, -⟩ := h
    cases hgives

/-! ## Checks -/

theorem find?_check (p : Prop) [Decidable p] (message : String) (rest : List (Bool × String)) :
    (((decide p, message) :: rest).find? Prod.fst).map Prod.snd =
      if p then some message else (rest.find? Prod.fst).map Prod.snd := by
  by_cases hp : p
  · rw [if_pos hp, List.find?_cons_of_pos (by simpa using hp), Option.map_some]
  · rw [if_neg hp, List.find?_cons_of_neg (by simpa using hp)]

/-! The messages of the checks start with the same words. Unfolding `message` by its equation is
slow for literals of this length, so each message is written out instead. -/

theorem message_noMemory :
    ConfigError.noMemory.message = "invalid config: " ++ "memory_words must be at least 1" := by
  decide +kernel

theorem message_memoryTooLarge (words : Count) :
    (ConfigError.memoryTooLarge words).message = "invalid config: " ++
      ("memory_words " ++ Text.naturalText words.toNat ++ " exceeds the addressable range") := by
  have hwords : "invalid config: memory_words " = "invalid config: " ++ "memory_words " := by
    decide +kernel
  change "invalid config: memory_words " ++ Text.naturalText words.toNat ++ _ = _
  rw [hwords, String.append_assoc, String.append_assoc, String.append_assoc]

theorem message_loadBaseBeyond (base : Word) (words : Count) :
    (ConfigError.loadBaseBeyond base words).message = "invalid config: " ++
      ("load_base " ++ Text.naturalText base.toNat ++ " is beyond memory of " ++
        Text.naturalText words.toNat ++ " words") := by
  have hbase : "invalid config: load_base " = "invalid config: " ++ "load_base " := by
    decide +kernel
  change "invalid config: load_base " ++ Text.naturalText base.toNat ++ _ ++ _ ++ _ = _
  rw [hbase]
  simp only [String.append_assoc, -String.reduceAppend]

theorem message_entryBeyond (entry : Word) (words : Count) :
    (ConfigError.entryBeyond entry words).message = "invalid config: " ++
      ("entry " ++ Text.naturalText entry.toNat ++ " is beyond memory of " ++
        Text.naturalText words.toNat ++ " words") := by
  have hentry : "invalid config: entry " = "invalid config: " ++ "entry " := by
    decide +kernel
  change "invalid config: entry " ++ Text.naturalText entry.toNat ++ _ ++ _ ++ _ = _
  rw [hentry]
  simp only [String.append_assoc, -String.reduceAppend]

/-- The check that fails first is reported with its text, after the same words for all. -/
theorem validate_cases (c : Config) : (c.complaint? = none ∧ c.validate = .ok ()) ∨
    ∃ message e, c.complaint? = some message ∧ c.validate = .error e ∧
      (∀ reason, e ≠ @ConfigError.malformed reason) ∧
      e.message = "invalid config: " ++ message := by
  have hlimit : addressLimit = 0x7fffffff := rfl
  rw [complaint?, checks, find?_check, find?_check, find?_check, find?_check, validate, hlimit]
  split
  · exact .inr ⟨_, _, rfl, rfl, nofun, message_noMemory⟩
  split
  · exact .inr ⟨_, _, rfl, rfl, nofun, message_memoryTooLarge _⟩
  split
  · exact .inr ⟨_, _, rfl, rfl, nofun, message_loadBaseBeyond _ _⟩
  split
  · exact .inr ⟨_, _, rfl, rfl, nofun, message_entryBeyond _ _⟩
  · exact .inl ⟨rfl, rfl⟩

/-- Two checks fail, and the first of them is reported. -/
example : complaint? ⟨8, 9, 8, none⟩ = some "load_base 9 is beyond memory of 8 words" := by
  decide +kernel

theorem validate_ok_iff_complaint? : c.validate = .ok () ↔ c.complaint? = none := by
  rcases c.validate_cases with ⟨hcomplaint, hvalid⟩ | ⟨message, e, hcomplaint, hvalid, -⟩
  · exact iff_of_true hvalid hcomplaint
  · rw [hcomplaint, hvalid]
    exact iff_of_false nofun nofun

/-! ## Reading -/

theorem fromJson_of_read {l : Library} (h : l.read schema text = .ok c) (hvalid : c.validate = .ok ()) :
    fromJson l text = .ok c := by
  simp only [fromJson, h, hvalid]
  rfl

section Reading

variable {l : Library} (hl : l.Documented schema)

include hl

theorem read_schema_iff : l.read schema text = .ok c ↔ Writes text c := by
  simp only [hl.read_iff, reads_iff, Writes]

theorem fromJson_of_writes (h : Writes text c) :
    fromJson l text = c.validate.map fun _ => c := by
  rw [fromJson, (read_schema_iff hl).2 h]

theorem malformed_of_not_writes (h : ¬∃ c, Writes text c) :
    Malformed l text := by
  cases hread : l.read schema text with
  | ok c => exact absurd ⟨c, (read_schema_iff hl).1 hread⟩ h
  | error reason => exact ⟨reason, hread, by rw [fromJson, hread]⟩

theorem fromJson_eq_ok_iff : fromJson l text = .ok c ↔ Writes text c ∧ c.validate = .ok () := by
  constructor
  · intro h
    by_cases hwrites : ∃ d, Writes text d
    · obtain ⟨d, hd⟩ := hwrites
      rw [fromJson_of_writes hl hd] at h
      cases hvalid : d.validate with
      | ok u =>
        rw [hvalid] at h
        cases h
        exact ⟨hd, hvalid⟩
      | error e =>
        rw [hvalid] at h
        cases h
    · obtain ⟨reason, -, hmalformed⟩ := malformed_of_not_writes hl hwrites
      cases h.symm.trans hmalformed
  · rintro ⟨hwrites, hvalid⟩
    rw [fromJson_of_writes hl hwrites, hvalid]
    rfl

/-- The text of the first failing check is reported, and only that of a configuration that the
text gives. -/
theorem fromJson_invalid_iff {message : String} :
    (∃ e, fromJson l text = .error e ∧ (∀ reason, e ≠ @ConfigError.malformed reason) ∧
      e.message = "invalid config: " ++ message) ↔
      ∃ c, Writes text c ∧ c.complaint? = some message := by
  constructor
  · rintro ⟨e, hread, hne, hmessage⟩
    by_cases hwrites : ∃ c, Writes text c
    · obtain ⟨c, hc⟩ := hwrites
      rw [fromJson_of_writes hl hc] at hread
      rcases c.validate_cases with ⟨-, hvalid⟩ | ⟨reported, e', hcomplaint, hvalid, -, hreported⟩
      · rw [hvalid] at hread
        cases hread
      · rw [hvalid] at hread
        cases hread
        rw [hreported, String.append_right_inj] at hmessage
        exact ⟨c, hc, hmessage ▸ hcomplaint⟩
    · obtain ⟨reason, -, hmalformed⟩ := malformed_of_not_writes hl hwrites
      exact absurd (Except.error.inj (hread.symm.trans hmalformed)) (hne reason)
  · rintro ⟨c, hc, hcomplaint⟩
    rcases c.validate_cases with ⟨hnone, -⟩ | ⟨reported, e, hreported, hvalid, he⟩
    · cases hnone.symm.trans hcomplaint
    · cases hreported.symm.trans hcomplaint
      refine ⟨e, ?_, he⟩
      rw [fromJson_of_writes hl hc, hvalid]
      rfl

theorem malformed_iff : Malformed l text ↔ ¬∃ c, Writes text c := by
  refine ⟨?_, malformed_of_not_writes hl⟩
  rintro ⟨reason, hread, -⟩ ⟨c, hc⟩
  cases hread.symm.trans ((read_schema_iff hl).2 hc)

/-- A valid configuration is read back from either form in which it is written. -/
theorem fromJson_write (h : c.validate = .ok ()) :
    fromJson l (l.write schema c).toList = .ok c ∧
      fromJson l (l.writeIndented schema c).toList = .ok c := by
  obtain ⟨hcompact, hindented⟩ := hl.read_write lawful_schema c
  exact ⟨fromJson_of_read hcompact h, fromJson_of_read hindented h⟩

end Reading

/-! ## Objects of fields -/

theorem isField_key (f : Field) (v : Value) : isField (some f.key, v) = true :=
  List.any_eq_true.2 ⟨f, f.mem_all, beq_self_eq_true _⟩

theorem value_keeping (c : Config) (kept : Field → Bool) (f : Field) :
    (c.keeping kept).value f = if kept f then c.value f else default.value f := by
  by_cases hkept : kept f = true
  · rw [if_pos hkept]
    cases f <;> simp only [keeping, value, if_pos hkept]
  · rw [if_neg hkept]
    cases f <;> simp only [keeping, value, if_neg hkept]

/-- The members with the key of a field are that field, if it is kept. -/
theorem HoldFields.mem_iff (h : HoldFields members c kept) (f : Field) (v : Value) :
    (some f.key, v) ∈ members ↔ kept f = true ∧ v = c.value f := by
  have hfilter : (some f.key, v) ∈ members ↔ (some f.key, v) ∈ members.filter isField := by
    rw [List.mem_filter, and_iff_left (isField_key f v)]
  rw [hfilter, h.fields.mem_iff, List.mem_map]
  constructor
  · rintro ⟨g, hg, heq⟩
    rw [Prod.mk.injEq, Option.some.injEq] at heq
    obtain ⟨hkey, rfl⟩ := heq
    rw [← Field.key_injective hkey]
    exact ⟨(List.mem_filter.1 hg).2, rfl⟩
  · rintro ⟨hkept, rfl⟩
    exact ⟨f, List.mem_filter.2 ⟨f.mem_all, hkept⟩, rfl⟩

theorem HoldFields.count_le (h : HoldFields members c kept) (f : Field) :
    (members.map Prod.fst).count (some f.key) ≤ 1 := by
  have hcount : (members.map Prod.fst).count (some f.key) =
      ((members.filter isField).map Prod.fst).count (some f.key) := by
    rw [List.count_eq_countP, List.countP_map, List.count_eq_countP, List.countP_map,
      List.countP_filter]
    refine List.countP_congr fun m _ => ?_
    obtain ⟨key, v⟩ := m
    simp only [Function.comp_apply, Bool.and_eq_true, beq_iff_eq]
    exact ⟨fun hkey => ⟨hkey, hkey ▸ isField_key f v⟩, And.left⟩
  have hnodup : ((Field.all.filter kept).map fun f => some f.key).Nodup := by
    refine List.Nodup.map (fun f g hkey => Field.key_injective (Option.some.inj hkey)) ?_
    exact List.Nodup.filter _ (by decide)
  rw [hcount, (h.fields.map Prod.fst).count_eq, List.map_map]
  exact List.nodup_iff_count_le_one.1 hnodup _

/-- Fields in any order, among others, give the configuration that they are kept of. -/
theorem HoldFields.ofMembers (h : HoldFields members c kept) : OfMembers members (c.keeping kept) where
  texts := h.texts
  once := h.count_le
  given f v hv := by
    obtain ⟨hkept, rfl⟩ := (h.mem_iff f v).1 hv
    rw [value_keeping, if_pos hkept]
  absent f hnone := by
    have hkept : ¬kept f = true := fun hkept => hnone _ ((h.mem_iff f _).2 ⟨hkept, rfl⟩)
    rw [value_keeping, if_neg hkept]

theorem holds_value (c : Config) (f : Field) : f.Holds (c.value f) := by
  have hcount : ∀ n : Count, 0 ≤ (n.toNat : Int) ∧ (n.toNat : Int) ≤ 0xffffffffffffffff := by
    intro n
    have hlt := n.isLt
    omega
  have hword : ∀ w : Word, 0 ≤ (w.toNat : Int) ∧ (w.toNat : Int) ≤ 0xffffffff := by
    intro w
    have hlt := w.isLt
    omega
  cases f with
  | memoryWords => exact .memoryWords (hcount _)
  | loadBase => exact .loadBase (hword _)
  | entry => exact .entry (hword _)
  | maxCycles =>
    obtain ⟨memoryWords, loadBase, entry, _ | limit⟩ := c
    · exact .unlimited
    · exact .maxCycles (hcount _)

theorem not_ofMembers (h : (∃ f : Field, 1 < (members.map Prod.fst).count (some f.key)) ∨
    ∃ (f : Field) (v : Value), (some f.key, v) ∈ members ∧ ¬f.Holds v) : ¬OfMembers members c := by
  intro hmembers
  rcases h with ⟨f, hf⟩ | ⟨f, v, hv, hf⟩
  · exact absurd (hmembers.once f) (Nat.not_le.2 hf)
  · rw [hmembers.given f v hv] at hf
    exact hf (c.holds_value f)

/-- No text of a configuration goes on with more than blanks. -/
theorem Writes.not_append {extra : List Char} (h : Writes text c) (hextra : ¬Blank extra) :
    ¬∃ c', Writes (text ++ extra) c' := by
  obtain ⟨v, hspells, hgives⟩ := h
  have hlast : ∀ token ∈ v.tokens.getLast?, token.isNumber = false := by
    cases hgives with
    | object =>
      rw [getLast?_object]
      rintro _ ⟨⟩
      rfl
    | array =>
      rw [getLast?_array]
      rintro _ ⟨⟩
      rfl
  rintro ⟨c', v', hspells', -⟩
  cases (read?_eq_some_iff.2 hspells').symm.trans (read?_append hspells hlast hextra)

/-- A text spells one value only. -/
theorem not_writes_of_not_gives (hspells : Spells v.tokens text) (h : ∀ c, ¬Gives v c) :
    ¬∃ c, Writes text c := by
  rintro ⟨c, w, hw, hgives⟩
  have hv := (read?_eq_some_iff.2 hw).symm.trans (read?_eq_some_iff.2 hspells)
  exact h c (Option.some.inj hv ▸ hgives)

theorem writes_of_holdFields (h : HoldFields members c kept)
    (hspells : Spells (Value.object members).tokens text) : Writes text (c.keeping kept) :=
  ⟨_, hspells, .object h.ofMembers⟩

/-- A text is read as the configuration that it gives, if that is valid. Otherwise the first
check that fails is reported, and every other text is malformed. So an object of all fields gives
a valid configuration in any order, with any blanks and among any other members, and what is
written is read back; fields that are left out have their defaults, if they make a valid
configuration. An object that repeats a field or has a value that the field cannot have, and
more than blanks after a configuration, are malformed. All of this rests on what the library
documents of a record. -/
theorem read_writes {l : Library} (hl : l.Documented schema) (text : List Char) :
    (∀ c, fromJson l text = .ok c ↔ Writes text c ∧ c.validate = .ok ()) ∧
    (∀ message,
      (∃ e, fromJson l text = .error e ∧ (∀ reason, e ≠ @ConfigError.malformed reason) ∧
        e.message = "invalid config: " ++ message) ↔
        ∃ c, Writes text c ∧ c.complaint? = some message) ∧
    (Malformed l text ↔ ¬∃ c, Writes text c) ∧
    (∀ c : Config, c.validate = .ok () ↔ c.complaint? = none) ∧
    (∀ c : Config, c.validate = .ok () →
      fromJson l (l.write schema c).toList = .ok c ∧
      fromJson l (l.writeIndented schema c).toList = .ok c) ∧
    (∀ members, Spells (Value.object members).tokens text →
      (∀ c, HoldFields members c (fun _ => true) → c.validate = .ok () →
        fromJson l text = .ok c) ∧
      (∀ c kept, HoldFields members c kept → (c.keeping kept).validate = .ok () →
        fromJson l text = .ok (c.keeping kept)) ∧
      ((∃ f : Field, 1 < (members.map Prod.fst).count (some f.key)) →
        Malformed l text) ∧
      ((∃ (f : Field) (v : Value), (some f.key, v) ∈ members ∧ ¬f.Holds v) →
        Malformed l text)) ∧
    ∀ c extra, Writes text c → ¬Blank extra → Malformed l (text ++ extra) := by
  refine ⟨fun c => fromJson_eq_ok_iff hl, fun message => fromJson_invalid_iff hl,
    malformed_iff hl, fun c => validate_ok_iff_complaint?, fun c => fromJson_write hl,
    fun members hspells => ?_,
    fun c extra h hextra => malformed_of_not_writes hl (h.not_append hextra)⟩
  have hmalformed : (∀ c, ¬OfMembers members c) → Malformed l text := by
    intro hnone
    refine malformed_of_not_writes hl (not_writes_of_not_gives hspells fun c hgives => ?_)
    cases hgives with
    | object h => exact hnone c h
  refine ⟨fun c h hvalid => ?_, fun c kept h hvalid => ?_,
    fun h => hmalformed fun c => not_ofMembers (.inl h),
    fun h => hmalformed fun c => not_ofMembers (.inr h)⟩
  · exact (fromJson_eq_ok_iff hl).2 ⟨writes_of_holdFields h hspells, hvalid⟩
  · exact (fromJson_eq_ok_iff hl).2 ⟨writes_of_holdFields h hspells, hvalid⟩

/-- An object without the first two fields, with another member between the others. -/
theorem read_writes_partial : ∃ v : Value,
    v = record [("max_cycles", .null), ("x", .array [.integer 1, .real]), ("entry", .integer 3)] ∧
    fromJson .standard v.compact.toList = .ok ⟨1024, 0, 3, none⟩ ∧
    Malformed .standard (v.compact.toList ++ ['1']) := by
  obtain ⟨v, hv⟩ : ∃ v, v = record
    [("max_cycles", .null), ("x", .array [.integer 1, .real]), ("entry", .integer 3)] := ⟨_, rfl⟩
  have hfields : HoldFields
      [(some "max_cycles", .null), (some "x", .array [.integer 1, .real]),
        (some "entry", .integer 3)]
      ⟨7, 9, 3, none⟩ (fun f => f == .entry || f == .maxCycles) :=
    ⟨by simp, List.Perm.swap _ _ _⟩
  have hspells := v.spells_compact
  nth_rewrite 1 [hv] at hspells
  obtain ⟨hok, -, -, -, -, hobject, happend⟩ :=
    read_writes (Library.standard_documented schema) v.compact.toList
  obtain ⟨-, hkept, -, -⟩ := hobject _ hspells
  have hread : fromJson .standard v.compact.toList = .ok ⟨1024, 0, 3, none⟩ :=
    hkept _ _ hfields rfl
  have hextra : ¬Blank ['1'] := fun hblank =>
    Bool.false_ne_true (hblank '1' List.mem_cons_self)
  exact ⟨v, hv, hread, happend _ _ ((hok _).1 hread).1 hextra⟩

end DM2022.Config
