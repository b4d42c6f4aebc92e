import DM2022.Json.Value

/-!
# Shapes of values

Reading numbers of a fixed width, records and alternatives. A record is an object, of
which each known key may occur once, or an array of its fields in order. An alternative
is its name, or an object of its name and its content.
-/
namespace DM2022.Json.Value

def unsigned? (width : Nat) : Value → Option (BitVec width)
  | .integer n =>
      let bits := BitVec.ofInt width n
      if bits.toNat = n then some bits else none
  | _ => none

def signed? (width : Nat) : Value → Option (BitVec width)
  | .integer n =>
      let bits := BitVec.ofInt width n
      if bits.toInt = n then some bits else none
  | _ => none

def text? : Value → Option String
  | .string s => s
  | _ => none

def items? : Value → Option (List Value)
  | .array items => some items
  | _ => none

/-- `null` stands for no value. -/
def optional? {α : Type} (read : Value → Option α) : Value → Option (Option α)
  | .null => some none
  | v => (read v).map some

/-- The keys of the members, if all of them denote texts. -/
def keys? (members : List (Option String × Value)) : Option (List String) :=
  members.mapM Prod.fst

def member? (members : List (Option String × Value)) (name : String) : Option Value :=
  (members.find? fun (key, _) => key == some name).map Prod.snd

/-- The members of a record with these keys, in their order. Other keys are skipped, but
they have to denote texts. -/
def members? (names : List String) (members : List (Option String × Value)) :
    Option (List (Option Value)) :=
  (keys? members).bind fun keys =>
    if names.all fun name => keys.count name ≤ 1 then some (names.map (member? members)) else none

/-- The fields of a record. An array gives all of them, unless it may be short. -/
def fields? (names : List String) (short : Bool) : Value → Option (List (Option Value))
  | .array items =>
      if items.length = names.length ∨ short = true ∧ items.length ≤ names.length then
        some (items.map some ++ List.replicate (names.length - items.length) none)
      else none
  | .object members => members? names members
  | _ => none

def alternative? : Value → Option (String × Option Value)
  | .string (some name) => some (name, none)
  | .object [(some name, content)] => some (name, some content)
  | _ => none

/-- An alternative without content may have the content `null`. -/
def isUnit : Option Value → Bool
  | none => true
  | some .null => true
  | _ => false

theorem unsigned?_toNat {width : Nat} (bits : BitVec width) :
    unsigned? width (.integer bits.toNat) = some bits := by
  simp [unsigned?]

theorem signed?_toInt {width : Nat} (bits : BitVec width) :
    signed? width (.integer bits.toInt) = some bits := by
  simp [signed?]

end DM2022.Json.Value
