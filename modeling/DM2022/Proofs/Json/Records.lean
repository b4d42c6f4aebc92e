import DM2022.Json.Shape
import Mathlib.Data.List.Nodup
import Mathlib.Data.List.Count

/-!
# Fields and alternatives

The fields of a record are found in any order and among other members, if every key is a text and
no known one occurs twice.
-/
namespace DM2022.Json.Value

theorem member?_cons_self (key : String) (value : Value) (members : List (Option String × Value)) :
    member? ((some key, value) :: members) key = some value := by
  simp [member?]

theorem mapM_eq_some_iff {α : Type} {read : Value → Option α} {items : List Value} {l : List α} :
    items.mapM read = some l ↔ List.Forall₂ (fun v a => read v = some a) items l := by
  induction items generalizing l with
  | nil =>
    rw [List.mapM_nil, List.forall₂_nil_left_iff]
    simp [eq_comm]
  | cons v items ih =>
    rw [List.mapM_cons, List.forall₂_cons_left_iff]
    simp [Option.bind_eq_some_iff, ← ih, @eq_comm _ l]

theorem map_eq_iff_forall₂ {α β : Type} {f : α → β} {related : α → β → Prop} {l : List α}
    {l' : List β} (h : ∀ a ∈ l, ∀ b, f a = b ↔ related a b) :
    l.map f = l' ↔ List.Forall₂ related l l' := by
  induction l generalizing l' with
  | nil => rw [List.map_nil, List.forall₂_nil_left_iff, eq_comm]
  | cons a l ih =>
    obtain ⟨ha, hl⟩ := List.forall_mem_cons.1 h
    rw [List.map_cons, List.forall₂_cons_left_iff]
    simp [← ha, ← ih hl, @eq_comm _ l']

/-! ## Fields -/

section Numbers

variable {width : Nat}

theorem unsigned?_eq_some_iff {v : Value} {bits : BitVec width} :
    v.unsigned? width = some bits ↔ v = .integer bits.toNat := by
  constructor
  · intro h
    unfold unsigned? at h
    split at h
    · simp only [Option.ite_none_right_eq_some, Option.some.injEq] at h
      obtain ⟨hn, rfl⟩ := h
      rw [hn]
    · cases h
  · rintro rfl
    exact unsigned?_toNat bits

theorem signed?_eq_some_iff {v : Value} {bits : BitVec width} :
    v.signed? width = some bits ↔ v = .integer bits.toInt := by
  constructor
  · intro h
    unfold signed? at h
    split at h
    · simp only [Option.ite_none_right_eq_some, Option.some.injEq] at h
      obtain ⟨hn, rfl⟩ := h
      rw [hn]
    · cases h
  · rintro rfl
    exact signed?_toInt bits

theorem integer_toNat_inj {a b : BitVec width} :
    Value.integer a.toNat = .integer b.toNat ↔ a = b := by
  rw [Value.integer.injEq, Int.natCast_inj, BitVec.toNat_inj]

end Numbers

/-! ## Members in any order -/

section Members

variable {members : List (Option String × Value)} {name : String} {v : Value}

theorem keys?_cons (m : Option String × Value) (members : List (Option String × Value)) :
    keys? (m :: members) = m.1.bind fun key => (keys? members).map (key :: ·) := by
  rw [keys?, List.mapM_cons]
  rcases m with ⟨_ | key, value⟩
  · rfl
  · cases h : keys? members <;> rw [keys?] at h <;> simp [h]

theorem keys?_eq_some_iff {keys : List String} :
    keys? members = some keys ↔ members.map Prod.fst = keys.map some := by
  induction members generalizing keys with
  | nil =>
    have hnil : keys? [] = some [] := rfl
    rw [hnil, Option.some.injEq, List.map_nil, eq_comm (a := []), eq_comm (a := []),
      List.map_eq_nil_iff]
  | cons m members ih =>
    obtain ⟨_ | key, value⟩ := m
    · cases keys <;> simp [keys?_cons]
    · cases keys <;> simp [keys?_cons, ih, and_comm]

theorem exists_keys_iff :
    (∃ keys, keys? members = some keys) ↔ ∀ m ∈ members, m.1.isSome = true := by
  induction members with
  | nil => exact iff_of_true ⟨[], rfl⟩ nofun
  | cons m members ih =>
    rw [List.forall_mem_cons, ← ih]
    obtain ⟨_ | key, value⟩ := m <;> simp [keys?_cons]

theorem member?_eq_none_iff : member? members name = none ↔ ∀ v, (some name, v) ∉ members := by
  rw [member?, Option.map_eq_none_iff, List.find?_eq_none]
  constructor
  · intro h v hv
    exact h _ hv (beq_self_eq_true _)
  · rintro h ⟨key, value⟩ hm hkey
    rw [eq_of_beq hkey] at hm
    exact h value hm

/-- The member that is found is the only one with its key. -/
theorem member?_eq_some_iff (h : (members.map Prod.fst).count (some name) ≤ 1) :
    member? members name = some v ↔ (some name, v) ∈ members := by
  induction members with
  | nil => exact iff_of_false nofun List.not_mem_nil
  | cons m members ih =>
    obtain ⟨key, value⟩ := m
    rw [List.map_cons, List.count_cons] at h
    by_cases hkey : key = some name
    · subst hkey
      rw [beq_self_eq_true, if_pos rfl] at h
      have hrest : (some name, v) ∉ members := fun hv => by
        have hpos : 0 < (members.map Prod.fst).count (some name) :=
          List.count_pos_iff.2 (List.mem_map_of_mem hv)
        omega
      rw [member?_cons_self, List.mem_cons, Prod.mk.injEq, Option.some.injEq]
      simp [hrest, eq_comm]
    · rw [member?, List.find?_cons_of_neg (by simpa using hkey), ← member?, ih (by omega),
        List.mem_cons, Prod.mk.injEq]
      simp [Ne.symm hkey]

theorem members?_eq_some_iff {names : List String} {given : List (Option Value)} :
    members? names members = some given ↔ (∀ m ∈ members, m.1.isSome = true) ∧
      (∀ name ∈ names, (members.map Prod.fst).count (some name) ≤ 1) ∧
      names.map (member? members) = given := by
  rw [members?, Option.bind_eq_some_iff, ← exists_keys_iff, ← exists_and_right]
  refine exists_congr fun keys => and_congr_right fun hkeys => ?_
  rw [keys?_eq_some_iff] at hkeys
  have hcount : ∀ name, (members.map Prod.fst).count (some name) = keys.count name := fun name => by
    rw [hkeys, List.count_map_of_injective keys some fun _ _ => Option.some.inj]
  simp only [Option.ite_none_right_eq_some, List.all_eq_true, decide_eq_true_eq, hcount,
    Option.some.injEq]

/-- The field of a name is the member with that key. -/
theorem member?_eq_iff {given : Option Value}
    (h : (members.map Prod.fst).count (some name) ≤ 1) :
    member? members name = given ↔ ∀ v, given = some v ↔ (some name, v) ∈ members := by
  simp only [← member?_eq_some_iff h]
  exact Option.ext_iff.trans (forall_congr' fun v => iff_comm)

end Members

/-- What a value gives for the fields of a record, some of which may be absent: an object the
members with their keys, each of which occurs once at most, and an array its items in order. -/
inductive Gives (names : List String) (short : Bool) : Value → List (Option Value) → Prop
  | object {members : List (Option String × Value)} {given : List (Option Value)}
      (texts : ∀ m ∈ members, m.1.isSome = true)
      (once : ∀ name ∈ names, (members.map Prod.fst).count (some name) ≤ 1)
      (h : List.Forall₂ (fun name field => ∀ v, field = some v ↔ (some name, v) ∈ members)
        names given) : Gives names short (.object members) given
  | array {items : List Value}
      (h : items.length = names.length ∨ short = true ∧ items.length ≤ names.length) :
      Gives names short (.array items)
        (items.map some ++ List.replicate (names.length - items.length) none)

theorem fields?_eq_some_iff {names : List String} {short : Bool} {v : Value}
    {given : List (Option Value)} : v.fields? names short = some given ↔ Gives names short v given := by
  cases v with
  | object members =>
    rw [fields?, members?_eq_some_iff]
    have hmap (honce : ∀ name ∈ names, (members.map Prod.fst).count (some name) ≤ 1) :
        names.map (member? members) = given ↔ List.Forall₂
          (fun name field => ∀ v, field = some v ↔ (some name, v) ∈ members) names given :=
      map_eq_iff_forall₂ fun name hname _ => member?_eq_iff (honce name hname)
    constructor
    · intro h
      obtain ⟨htexts, honce, h⟩ := h
      exact .object htexts honce ((hmap honce).1 h)
    · intro h
      cases h with
      | object htexts honce h => exact ⟨htexts, honce, (hmap honce).2 h⟩
  | array items =>
    rw [fields?, Option.ite_none_right_eq_some, Option.some.injEq]
    constructor
    · rintro ⟨h, rfl⟩
      exact .array h
    · intro h
      cases h with
      | array h => exact ⟨h, rfl⟩
  | _ => exact iff_of_false nofun nofun

/-- An alternative is given by its name, or by an object of its name and its content. -/
inductive Names : Value → String → Option Value → Prop
  | text (name : String) : Names (.string (some name)) name none
  | object (name : String) (content : Value) :
      Names (.object [(some name, content)]) name (some content)

theorem alternative?_eq_some_iff {v : Value} {name : String} {content : Option Value} :
    v.alternative? = some (name, content) ↔ Names v name content := by
  constructor
  · intro h
    unfold alternative? at h
    split at h
    · cases h
      exact .text _
    · cases h
      exact .object _ _
    · cases h
  · intro h
    cases h <;> rfl

end DM2022.Json.Value
