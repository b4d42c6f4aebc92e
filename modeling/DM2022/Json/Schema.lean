import DM2022.Json.Shape

/-!
# Schemas

How a type is declared says how its values are written and read: a record is the object of its
fields, and an alternative its name or an object of its name and its content. Each declaration
comes with the functions between a value and its parts.
-/
namespace DM2022.Json

/-- What is declared. -/
inductive Construct where
  | type | fields | content | alternatives

/-- Declarations of the values of a type. A field may have a value that stands for it when it is
absent, and a record with such values may be given by a short array. -/
inductive Schema : Construct → Type → Type 1 where
  | unsigned (width : Nat) : Schema .type (BitVec width)
  | signed (width : Nat) : Schema .type (BitVec width)
  | text : Schema .type String
  | optional {α : Type} (s : Schema .type α) : Schema .type (Option α)
  | list {α : Type} (s : Schema .type α) : Schema .type (List α)
  | vector {α : Type} (n : Nat) (s : Schema .type α) : Schema .type (Vector α n)
  | newtype {α β : Type} (s : Schema .type α) (part : β → α) (make : α → β) : Schema .type β
  | record {α β : Type} (fields : Schema .fields α) (short : Bool) (parts : β → α)
      (make : α → β) : Schema .type β
  | choice {β : Type} (alternatives : Schema .alternatives β) : Schema .type β
  | noFields : Schema .fields Unit
  | field {α β : Type} (name : String) (s : Schema .type α) (absent : Option α)
      (rest : Schema .fields β) : Schema .fields (α × β)
  | unit : Schema .content Unit
  | bare {α : Type} (s : Schema .type α) : Schema .content α
  | named {α : Type} (fields : Schema .fields α) : Schema .content α
  | noAlternatives {β : Type} : Schema .alternatives β
  | alternative {α β : Type} (name : String) (content : Schema .content α) (make : α → β)
      (match? : β → Option α) (rest : Schema .alternatives β) : Schema .alternatives β

namespace Construct

abbrev Written : Construct → Type
  | .type => Value
  | .fields => List (String × Value)
  | .content => Option Value
  | .alternatives => Option (String × Option Value)

/-- What there is to read: of the fields those that are not absent, of the alternatives the name
and the content of one. -/
abbrev Given : Construct → Type
  | .type => Value
  | .fields => List (Option Value)
  | .content => Option Value
  | .alternatives => String × Option Value

end Construct

def Value.ofAlternative : Option (String × Option Value) → Value
  | some (name, none) => Json.text name
  | some (name, some content) => Json.record [(name, content)]
  | none => .null

def vector? {α : Type} (n : Nat) (items : List α) : Option (Vector α n) :=
  if h : items.toArray.size = n then some ⟨items.toArray, h⟩ else none

namespace Schema

variable {β : Type}

/-- The names of the fields or of the alternatives. -/
def names {k : Construct} {α : Type} : Schema k α → List String
  | .field name _ _ rest => name :: rest.names
  | .alternative name _ _ _ rest => name :: rest.names
  | _ => []

def write {k : Construct} {α : Type} : Schema k α → α → k.Written
  | .unsigned _, n => Value.integer n.toNat
  | .signed _, n => Value.integer n.toInt
  | .text, s => Json.text s
  | .optional _, none => Value.null
  | .optional s, some a => s.write a
  | .list s, items => Value.array (items.map fun a => s.write a)
  | .vector _ s, items => Value.array (items.toList.map fun a => s.write a)
  | .newtype s part _, b => s.write (part b)
  | .record fields _ parts _, b => Json.record (fields.write (parts b))
  | .choice alternatives, b => Value.ofAlternative (alternatives.write b)
  | .noFields, _ => ([] : List (String × Value))
  | .field name s _ rest, (a, b) => ((name, s.write a) :: rest.write b : List (String × Value))
  | .unit, _ => (none : Option Value)
  | .bare s, a => some (s.write a : Value)
  | .named fields, a => some (Json.record (fields.write a))
  | .noAlternatives, _ => (none : Option (String × Option Value))
  | .alternative name content _ match? rest, b =>
      match match? b with
      | some a => some (name, content.write a)
      | none => rest.write b

def read? {k : Construct} {α : Type} : Schema k α → k.Given → Option α
  | .unsigned width, v => Value.unsigned? width v
  | .signed width, v => Value.signed? width v
  | .text, v => Value.text? v
  | .optional s, v => Value.optional? (fun v => s.read? v) v
  | .list s, v => (Value.items? v).bind fun items => items.mapM fun v => s.read? v
  | .vector n s, v =>
      (Value.items? v).bind fun items => (items.mapM fun v => s.read? v).bind (vector? n)
  | .newtype s _ make, v => (s.read? v).map make
  | .record fields short _ make, v =>
      (Value.fields? fields.names short v).bind fun given => (fields.read? given).map make
  | .choice alternatives, v => (Value.alternative? v).bind fun named => alternatives.read? named
  | .noFields, given => if given.isEmpty then some () else none
  | .field _ s absent rest, given => match given with
    | [] => none
    | none :: others => absent.bind fun a => (rest.read? others).map fun b => (a, b)
    | some v :: others => (s.read? v).bind fun a => (rest.read? others).map fun b => (a, b)
  | .unit, content => if Value.isUnit content then some () else none
  | .bare s, content => content.bind fun v => s.read? v
  | .named fields, content =>
      content.bind fun v => (Value.fields? fields.names false v).bind fun given => fields.read? given
  | .noAlternatives, _ => none
  | .alternative name content make _ rest, (found, given) =>
      if found = name then (content.read? given).map make else rest.read? (found, given)

/-- An alternative without content. -/
def constant [DecidableEq β] (name : String) (value : β) (rest : Schema .alternatives β) :
    Schema .alternatives β :=
  .alternative name .unit (fun _ => value) (fun b => if b = value then some () else none) rest

end Schema

end DM2022.Json
