import DM2022.Json.Lexer

/-!
# Reading JSON

Builds the value of a token list with the open containers in a list, so nesting of any
depth is read in one pass over the tokens.
-/
namespace DM2022.Json

/-- A container that waits for the value of an item or of the member `key`. What it
holds so far stands with the last part first. -/
inductive Frame where
  | array (items : List Value)
  | object (members : List (Option String × Value)) (key : Option String)

inductive Expected where
  | value
  | firstItem
  | nextItem (items : List Value)
  | firstMember
  | member (members : List (Option String × Value))
  | colon (members : List (Option String × Value)) (key : Option String)
  | nextMember (members : List (Option String × Value))
  | nothing (result : Value)

structure Progress where
  frames : List Frame
  expected : Expected

namespace Progress

/-- A value is complete: it belongs to the innermost container. -/
def deliver (value : Value) : List Frame → Progress
  | [] => ⟨[], .nothing value⟩
  | .array items :: frames => ⟨frames, .nextItem (value :: items)⟩
  | .object members key :: frames => ⟨frames, .nextMember ((key, value) :: members)⟩

def start (frames : List Frame) : Token → Option Progress
  | .openArray => some ⟨frames, .firstItem⟩
  | .openObject => some ⟨frames, .firstMember⟩
  | .null => some (deliver .null frames)
  | .bool b => some (deliver (.bool b) frames)
  | .integer n => some (deliver (.integer n) frames)
  | .real => some (deliver .real frames)
  | .string s => some (deliver (.string s) frames)
  | _ => none

def step (p : Progress) (token : Token) : Option Progress :=
  match p.expected, token with
  | .value, token => start p.frames token
  | .firstItem, .closeArray => some (deliver (.array []) p.frames)
  | .firstItem, token => start (.array [] :: p.frames) token
  | .nextItem items, .comma => some ⟨.array items :: p.frames, .value⟩
  | .nextItem items, .closeArray => some (deliver (.array items.reverse) p.frames)
  | .firstMember, .closeObject => some (deliver (.object []) p.frames)
  | .firstMember, .string key => some ⟨p.frames, .colon [] key⟩
  | .member members, .string key => some ⟨p.frames, .colon members key⟩
  | .colon members key, .colon => some ⟨.object members key :: p.frames, .value⟩
  | .nextMember members, .comma => some ⟨p.frames, .member members⟩
  | .nextMember members, .closeObject => some (deliver (.object members.reverse) p.frames)
  | _, _ => none

/-- The value of the tokens, if they end where it ends. -/
def finish (p : Progress) : List Token → Option Value
  | [] => match p.expected with
    | .nothing value => some value
    | _ => none
  | token :: rest => (p.step token).bind fun p => p.finish rest

end Progress

def read? (text : List Char) : Option Value :=
  (tokens? text).bind (Progress.finish ⟨[], .value⟩)

end DM2022.Json
