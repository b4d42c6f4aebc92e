import DM2022.Json.Reader
import DM2022.Json.Writer
import DM2022.Proofs.Json.Tokens

/-!
# Values read back

No two numbers stand side by side among the tokens of a value, and the reader turns the
tokens into the value again, whatever containers are open around it. In turn what the reader
holds tells the tokens that it has read, so that a value is read just from the texts that spell
its tokens. Its compact form and its indented form are two of them.
-/
namespace DM2022.Json
namespace Value

theorem isNumber_itemTokens (items : List Value) :
    ∀ token ∈ (itemTokens items).head?, token.isNumber = false := by
  cases items <;> rintro _ ⟨⟩ <;> rfl

theorem isNumber_memberTokens (members : List (Option String × Value)) :
    ∀ token ∈ (memberTokens members).head?, token.isNumber = false := by
  rcases members with _ | ⟨⟨_, _⟩, _⟩ <;> rintro _ ⟨⟩ <;> rfl

theorem isChain_append {first rest : List Token} (hf : first.IsChain Apart)
    (hr : rest.IsChain Apart) (h : ∀ token ∈ rest.head?, token.isNumber = false) :
    (first ++ rest).IsChain Apart :=
  List.isChain_append.2 ⟨hf, hr, fun _ _ token ht _ => h token ht⟩

theorem isChain_cons {token : Token} {rest : List Token} (h : token.isNumber = false)
    (hr : rest.IsChain Apart) : (token :: rest).IsChain Apart :=
  List.isChain_cons.2 ⟨fun _ _ ht => absurd (h.symm.trans ht) Bool.false_ne_true, hr⟩

mutual

/-- After a value comes a comma or the end of its container, so numbers stay apart. -/
theorem isChain_tokens : (v : Value) → v.tokens.IsChain Apart
  | .null => .singleton _
  | .bool _ => .singleton _
  | .integer _ => .singleton _
  | .real => .singleton _
  | .string _ => .singleton _
  | .array [] => isChain_cons rfl (.singleton _)
  | .array (item :: rest) =>
      isChain_cons rfl
        (isChain_append item.isChain_tokens (isChain_itemTokens rest) (isNumber_itemTokens rest))
  | .object [] => isChain_cons rfl (.singleton _)
  | .object ((_, value) :: rest) =>
      isChain_cons rfl (isChain_cons rfl (isChain_cons rfl
        (isChain_append value.isChain_tokens (isChain_memberTokens rest)
          (isNumber_memberTokens rest))))

theorem isChain_itemTokens : (items : List Value) → (itemTokens items).IsChain Apart
  | [] => .singleton _
  | item :: rest =>
      isChain_cons rfl
        (isChain_append item.isChain_tokens (isChain_itemTokens rest) (isNumber_itemTokens rest))

theorem isChain_memberTokens :
    (members : List (Option String × Value)) → (memberTokens members).IsChain Apart
  | [] => .singleton _
  | (_, value) :: rest =>
      isChain_cons rfl (isChain_cons rfl (isChain_cons rfl
        (isChain_append value.isChain_tokens (isChain_memberTokens rest)
          (isNumber_memberTokens rest))))

end

theorem spells_compact (v : Value) : Spells v.tokens v.compact.toList := by
  rw [compact, String.toList_join, List.flatMap_map]
  exact spells_texts v.tokens

theorem blank_newLine (depth : Nat) : Blank (newLine depth).toList := by
  rw [newLine, String.toList_ofList]
  intro c hc
  rcases List.mem_cons.1 hc with rfl | hc
  · rfl
  · rw [List.eq_of_mem_replicate hc]
    rfl

theorem blank_space : Blank [' '] := by
  rintro c hc
  rw [List.mem_singleton.1 hc]
  rfl

/-- A token at the start of a new line. -/
theorem spells_line (depth : Nat) (token : Token) :
    Spells [token] ((newLine depth).toList ++ token.text.toList) :=
  (spells_text token).blank_append (blank_newLine depth)

mutual

/-- The indented form spells the same tokens, with line breaks and blanks between them. -/
theorem spells_indentedAt (depth : Nat) :
    (v : Value) → Spells v.tokens (v.indentedAt depth).toList
  | .null => spells_text .null
  | .bool b => spells_text (.bool b)
  | .integer n => spells_text (.integer n)
  | .real => spells_text .real
  | .string s => spells_text (.string s)
  | .array [] => by
      simpa [tokens, indentedAt, Token.text] using (spells_text .openArray).append (spells_text .closeArray)
  | .array (item :: rest) => by
      have hitem := (item.spells_indentedAt (depth + 1)).blank_append (blank_newLine (depth + 1))
      have h := ((spells_text .openArray).append hitem).append (spells_indentedItems depth rest)
      simpa [tokens, indentedAt, Token.text] using h
  | .object [] => by
      simpa [tokens, indentedAt, Token.text] using (spells_text .openObject).append (spells_text .closeObject)
  | .object ((key, value) :: rest) => by
      have hkey := (spells_line (depth + 1) (.string key)).append (spells_text .colon)
      have hvalue := (value.spells_indentedAt (depth + 1)).blank_append blank_space
      have h := (((spells_text .openObject).append hkey).append hvalue).append
        (spells_indentedMembers depth rest)
      simpa [tokens, indentedAt, Token.text] using h

theorem spells_indentedItems (depth : Nat) : (items : List Value) →
    Spells (itemTokens items)
      ((indentedItems depth items).toList ++ ((newLine depth).toList ++ [']']))
  | [] => spells_line depth .closeArray
  | item :: rest => by
      have hitem := (item.spells_indentedAt (depth + 1)).blank_append (blank_newLine (depth + 1))
      have h := ((spells_text .comma).append hitem).append (spells_indentedItems depth rest)
      simpa [itemTokens, indentedItems, Token.text] using h

theorem spells_indentedMembers (depth : Nat) : (members : List (Option String × Value)) →
    Spells (memberTokens members)
      ((indentedMembers depth members).toList ++ ((newLine depth).toList ++ ['\x7d']))
  | [] => spells_line depth .closeObject
  | (key, value) :: rest => by
      have hkey := (spells_line (depth + 1) (.string key)).append (spells_text .colon)
      have hvalue := (value.spells_indentedAt (depth + 1)).blank_append blank_space
      have h := (((spells_text .comma).append hkey).append hvalue).append
        (spells_indentedMembers depth rest)
      simpa [memberTokens, indentedMembers, Token.text] using h

end

theorem spells_indented (v : Value) : Spells v.tokens v.indented.toList := v.spells_indentedAt 0

end Value

namespace Progress

open Value

theorem exists_tokens_eq_cons (v : Value) :
    ∃ token rest, v.tokens = token :: rest ∧ token ≠ .closeArray := by
  cases v with
  | array items => cases items <;> exact ⟨_, _, rfl, nofun⟩
  | object members => rcases members with _ | ⟨⟨_, _⟩, _⟩ <;> exact ⟨_, _, rfl, nofun⟩
  | _ => exact ⟨_, _, rfl, nofun⟩

theorem step_firstItem {token : Token} (h : token ≠ .closeArray) (frames : List Frame) :
    step ⟨frames, .firstItem⟩ token = step ⟨.array [] :: frames, .value⟩ token := by
  cases token with
  | closeArray => exact absurd rfl h
  | _ => rfl

/-- No value closes an array, so the first item is read like the later ones. -/
theorem finish_firstItem (frames : List Frame) (v : Value) (rest : List Token) :
    finish ⟨frames, .firstItem⟩ (v.tokens ++ rest) =
      finish ⟨.array [] :: frames, .value⟩ (v.tokens ++ rest) := by
  obtain ⟨token, tokens, hv, ht⟩ := exists_tokens_eq_cons v
  rw [hv, List.cons_append, finish, finish, step_firstItem ht]

mutual

/-- A value is read from its tokens, and belongs to the innermost container. -/
theorem finish_tokens (frames : List Frame) (rest : List Token) :
    (v : Value) → finish ⟨frames, .value⟩ (v.tokens ++ rest) = (deliver v frames).finish rest
  | .null => rfl
  | .bool _ => rfl
  | .integer _ => rfl
  | .real => rfl
  | .string _ => rfl
  | .array [] => rfl
  | .array (item :: items) =>
      calc finish ⟨frames, .value⟩ ((Value.array (item :: items)).tokens ++ rest)
        _ = finish ⟨frames, .firstItem⟩ (item.tokens ++ itemTokens items ++ rest) := rfl
        _ = finish ⟨frames, .nextItem [item]⟩ (itemTokens items ++ rest) := by
          rw [List.append_assoc, finish_firstItem, finish_tokens (.array [] :: frames) _ item,
            deliver]
        _ = (deliver (.array (item :: items)) frames).finish rest :=
          finish_itemTokens frames [item] rest items
  | .object [] => rfl
  | .object ((key, value) :: members) =>
      calc finish ⟨frames, .value⟩ ((Value.object ((key, value) :: members)).tokens ++ rest)
        _ = finish ⟨.object [] key :: frames, .value⟩
              (value.tokens ++ memberTokens members ++ rest) := rfl
        _ = finish ⟨frames, .nextMember [(key, value)]⟩ (memberTokens members ++ rest) := by
          rw [List.append_assoc, finish_tokens (.object [] key :: frames) _ value, deliver]
        _ = (deliver (.object ((key, value) :: members)) frames).finish rest :=
          finish_memberTokens frames [(key, value)] rest members

theorem finish_itemTokens (frames : List Frame) (done : List Value) (rest : List Token) :
    (items : List Value) → finish ⟨frames, .nextItem done⟩ (itemTokens items ++ rest) =
      (deliver (.array (done.reverse ++ items)) frames).finish rest
  | [] => by
      rw [List.append_nil]
      rfl
  | item :: items =>
      calc finish ⟨frames, .nextItem done⟩ (itemTokens (item :: items) ++ rest)
        _ = finish ⟨.array done :: frames, .value⟩ (item.tokens ++ itemTokens items ++ rest) := rfl
        _ = finish ⟨frames, .nextItem (item :: done)⟩ (itemTokens items ++ rest) := by
          rw [List.append_assoc, finish_tokens (.array done :: frames) _ item, deliver]
        _ = (deliver (.array (done.reverse ++ item :: items)) frames).finish rest := by
          rw [finish_itemTokens frames (item :: done) rest items, List.reverse_cons,
            List.append_assoc, List.singleton_append]

theorem finish_memberTokens (frames : List Frame) (done : List (Option String × Value))
    (rest : List Token) : (members : List (Option String × Value)) →
      finish ⟨frames, .nextMember done⟩ (memberTokens members ++ rest) =
        (deliver (.object (done.reverse ++ members)) frames).finish rest
  | [] => by
      rw [List.append_nil]
      rfl
  | (key, value) :: members =>
      calc finish ⟨frames, .nextMember done⟩ (memberTokens ((key, value) :: members) ++ rest)
        _ = finish ⟨.object done key :: frames, .value⟩
              (value.tokens ++ memberTokens members ++ rest) := rfl
        _ = finish ⟨frames, .nextMember ((key, value) :: done)⟩ (memberTokens members ++ rest) := by
          rw [List.append_assoc, finish_tokens (.object done key :: frames) _ value, deliver]
        _ = (deliver (.object (done.reverse ++ (key, value) :: members)) frames).finish rest := by
          rw [finish_memberTokens frames ((key, value) :: done) rest members, List.reverse_cons,
            List.append_assoc, List.singleton_append]

end

/-! ## The tokens that were read -/

/-- What was read of a container before its next part. -/
def begun (opening : Token) (parts : List (List Token)) : List Token :=
  opening :: parts.flatMap (· ++ [.comma])

/-- What was read of a container up to a part that is complete; the last part comes first. -/
def held (opening : Token) : List (List Token) → List Token
  | [] => [opening]
  | part :: parts => begun opening parts.reverse ++ part

def member (m : Option String × Value) : List Token := .string m.1 :: .colon :: m.2.tokens

def readOfFrame : Frame → List Token
  | .array items => begun .openArray (items.map tokens).reverse
  | .object members key => begun .openObject (members.map member).reverse ++ [.string key, .colon]

def readOfExpected : Expected → List Token
  | .value => []
  | .firstItem => [.openArray]
  | .nextItem items => held .openArray (items.map tokens)
  | .firstMember => [.openObject]
  | .member members => begun .openObject (members.map member).reverse
  | .colon members key => begun .openObject (members.map member).reverse ++ [.string key]
  | .nextMember members => held .openObject (members.map member)
  | .nothing v => v.tokens

def readOfFrames (frames : List Frame) : List Token := frames.reverse.flatMap readOfFrame

/-- The tokens that lead to this progress. -/
def readTokens (p : Progress) : List Token := readOfFrames p.frames ++ readOfExpected p.expected

/-- A part of a container is complete only if there is one, and the whole value only if no
container is open. -/
def Proper (p : Progress) : Prop :=
  match p.expected with
  | .nextItem items => items ≠ []
  | .nextMember members => members ≠ []
  | .nothing _ => p.frames = []
  | _ => True

theorem readOfFrames_cons (frame : Frame) (frames : List Frame) :
    readOfFrames (frame :: frames) = readOfFrames frames ++ readOfFrame frame := by
  simp [readOfFrames]

theorem begun_reverse_cons (opening : Token) (part : List Token) (parts : List (List Token)) :
    begun opening (part :: parts).reverse = held opening (part :: parts) ++ [.comma] := by
  simp [begun, held]

theorem append_itemTokens (first last : Value) (items : List Value) :
    first.tokens ++ itemTokens (items ++ [last]) =
      ((first :: items).map tokens).flatMap (· ++ [.comma]) ++ (last.tokens ++ [.closeArray]) := by
  induction items generalizing first with
  | nil => simp [itemTokens]
  | cons item items ih => simp [itemTokens, ih]

theorem memberTokens_cons (m : Option String × Value) (members : List (Option String × Value)) :
    memberTokens (m :: members) = .comma :: (member m ++ memberTokens members) := rfl

theorem append_memberTokens (first last : Option String × Value)
    (members : List (Option String × Value)) :
    member first ++ memberTokens (members ++ [last]) =
      ((first :: members).map member).flatMap (· ++ [.comma]) ++
        (member last ++ [.closeObject]) := by
  induction members generalizing first with
  | nil => simp [memberTokens_cons, memberTokens]
  | cons m members ih => simp [memberTokens_cons, ih]

/-- An array is closed after its last item. -/
theorem tokens_array {items : List Value} (h : items ≠ []) :
    (Value.array items.reverse).tokens = held .openArray (items.map tokens) ++ [.closeArray] := by
  obtain ⟨last, items, rfl⟩ := List.exists_cons_of_ne_nil h
  rw [List.reverse_cons, List.map_cons, held, begun, ← List.map_reverse]
  rcases items.reverse with _ | ⟨first, rest⟩
  · simp [Value.tokens, itemTokens]
  · simp [Value.tokens, append_itemTokens]

theorem tokens_object {members : List (Option String × Value)} (h : members ≠ []) :
    (Value.object members.reverse).tokens =
      held .openObject (members.map member) ++ [.closeObject] := by
  obtain ⟨last, members, rfl⟩ := List.exists_cons_of_ne_nil h
  have hcons : ∀ m rest, (Value.object (m :: rest)).tokens =
      .openObject :: (member m ++ memberTokens rest) := fun _ _ => rfl
  rw [List.reverse_cons, List.map_cons, held, begun, ← List.map_reverse]
  rcases members.reverse with _ | ⟨first, rest⟩
  · simp [hcons, memberTokens]
  · simp [hcons, append_memberTokens]

theorem readTokens_deliver (v : Value) (frames : List Frame) :
    readTokens (deliver v frames) = readOfFrames frames ++ v.tokens ∧ Proper (deliver v frames) := by
  cases frames with
  | nil => exact ⟨rfl, rfl⟩
  | cons frame frames =>
    rw [readOfFrames_cons]
    cases frame with
    | array items => exact ⟨by simp [deliver, readTokens, readOfExpected, held, readOfFrame], nofun⟩
    | object members key =>
      exact ⟨by simp [deliver, readTokens, readOfExpected, held, readOfFrame, member], nofun⟩

theorem readTokens_start {frames : List Frame} {token : Token} {p : Progress}
    (h : start frames token = some p) :
    readTokens p = readOfFrames frames ++ [token] ∧ Proper p := by
  cases token with
  | openArray =>
    cases h
    exact ⟨rfl, trivial⟩
  | openObject =>
    cases h
    exact ⟨rfl, trivial⟩
  | null =>
    cases h
    exact readTokens_deliver .null frames
  | bool b =>
    cases h
    exact readTokens_deliver (.bool b) frames
  | integer n =>
    cases h
    exact readTokens_deliver (.integer n) frames
  | real =>
    cases h
    exact readTokens_deliver .real frames
  | string s =>
    cases h
    exact readTokens_deliver (.string s) frames
  | _ => cases h

theorem readTokens_expected (frames : List Frame) (expected : Expected) :
    readTokens ⟨frames, expected⟩ = readOfFrames frames ++ readOfExpected expected := rfl

/-- A container that is closed is a value. -/
theorem readTokens_close {v : Value} {expected : Expected} {closing : Token} (frames : List Frame)
    (h : v.tokens = readOfExpected expected ++ [closing]) :
    readTokens (deliver v frames) = readTokens ⟨frames, expected⟩ ++ [closing] ∧
      Proper (deliver v frames) := by
  obtain ⟨hread, hproper⟩ := readTokens_deliver v frames
  rw [hread, h, readTokens_expected, List.append_assoc]
  exact ⟨rfl, hproper⟩

/-- A step reads its token. -/
theorem readTokens_step {p q : Progress} {token : Token} (hp : Proper p)
    (h : p.step token = some q) : readTokens q = readTokens p ++ [token] ∧ Proper q := by
  obtain ⟨frames, expected⟩ := p
  unfold step at h
  split at h
  case h_1 heq =>
    cases heq
    rw [readTokens_expected frames, readOfExpected, List.append_nil]
    exact readTokens_start h
  case h_2 heq =>
    cases heq
    cases h
    exact readTokens_close frames rfl
  case h_3 heq _ =>
    cases heq
    obtain ⟨hread, hproper⟩ := readTokens_start h
    rw [readOfFrames_cons] at hread
    exact ⟨hread, hproper⟩
  case h_4 heq =>
    cases heq
    cases h
    obtain ⟨item, items, rfl⟩ := List.exists_cons_of_ne_nil hp
    rw [readTokens_expected, readOfFrames_cons, readOfFrame, List.map_cons, begun_reverse_cons]
    exact ⟨by simp [readTokens_expected, readOfExpected], trivial⟩
  case h_5 heq =>
    cases heq
    cases h
    exact readTokens_close frames (tokens_array hp)
  case h_6 heq =>
    cases heq
    cases h
    exact readTokens_close frames rfl
  case h_7 heq =>
    cases heq
    cases h
    exact ⟨by simp [readTokens_expected, readOfExpected, begun], trivial⟩
  case h_8 heq =>
    cases heq
    cases h
    exact ⟨by simp [readTokens_expected, readOfExpected], trivial⟩
  case h_9 heq =>
    cases heq
    cases h
    rw [readTokens_expected, readOfFrames_cons, readOfFrame]
    exact ⟨by simp [readTokens_expected, readOfExpected], trivial⟩
  case h_10 heq =>
    cases heq
    cases h
    obtain ⟨m, members, rfl⟩ := List.exists_cons_of_ne_nil hp
    rw [readTokens_expected, readOfExpected, List.map_cons, begun_reverse_cons]
    exact ⟨by simp [readTokens_expected, readOfExpected], trivial⟩
  case h_11 heq =>
    cases heq
    cases h
    exact readTokens_close frames (tokens_object hp)
  case h_12 => cases h

/-- A value is read only from its own tokens. -/
theorem readTokens_finish {p : Progress} {ts : List Token} {v : Value} (hp : Proper p)
    (h : p.finish ts = some v) : v.tokens = readTokens p ++ ts := by
  induction ts generalizing p with
  | nil =>
    obtain ⟨frames, expected⟩ := p
    rw [finish] at h
    split at h
    · next result hexpected =>
      cases hexpected
      cases h
      have hframes : frames = [] := hp
      subst hframes
      exact (List.append_nil _).symm
    · cases h
  | cons token ts ih =>
    rw [finish] at h
    obtain ⟨q, hstep, hfinish⟩ := Option.bind_eq_some_iff.1 h
    obtain ⟨hread, hq⟩ := readTokens_step hp hstep
    rw [ih hq hfinish, hread, List.append_assoc]
    rfl

end Progress

/-- A value is read just from the texts that spell its tokens. -/
theorem read?_eq_some_iff {text : List Char} {v : Value} :
    read? text = some v ↔ Spells v.tokens text := by
  rw [read?, Option.bind_eq_some_iff]
  constructor
  · rintro ⟨ts, hts, hfinish⟩
    rw [Progress.readTokens_finish (p := ⟨[], .value⟩) trivial hfinish]
    exact spells_of_tokens? hts
  · intro h
    have hfinish := Progress.finish_tokens [] [] v
    rw [List.append_nil] at hfinish
    exact ⟨_, tokens?_of_spells h v.isChain_tokens, hfinish⟩

theorem getLast?_array (items : List Value) :
    (Value.array items).tokens.getLast? = some .closeArray := by
  by_cases h : items = []
  · subst h
    rfl
  · have htokens := Progress.tokens_array (List.reverse_ne_nil_iff.2 h)
    rw [List.reverse_reverse] at htokens
    rw [htokens, List.getLast?_concat]

theorem getLast?_object (members : List (Option String × Value)) :
    (Value.object members).tokens.getLast? = some .closeObject := by
  by_cases h : members = []
  · subst h
    rfl
  · have htokens := Progress.tokens_object (List.reverse_ne_nil_iff.2 h)
    rw [List.reverse_reverse] at htokens
    rw [htokens, List.getLast?_concat]

/-- Nothing but blanks may follow a value. -/
theorem read?_append {text extra : List Char} {v : Value} (h : Spells v.tokens text)
    (hlast : ∀ token ∈ v.tokens.getLast?, token.isNumber = false) (hextra : ¬Blank extra) :
    read? (text ++ extra) = none := by
  refine Option.eq_none_iff_forall_ne_some.2 fun w hw => ?_
  have htokens := tokens?_of_spells (read?_eq_some_iff.1 hw) w.isChain_tokens
  have hends : ∀ token ∈ v.tokens.getLast?, token.isNumber = true → EndsNumber extra :=
    fun token ht hn => absurd ((hlast token ht).symm.trans hn) Bool.false_ne_true
  rw [tokens?, h.tokensAfter_append v.isChain_tokens hends, List.append_nil] at htokens
  obtain ⟨more, hmore, hspells⟩ := exists_spells_of_tokensAfter htokens
  rw [List.reverse_reverse] at hmore
  have hfinish := Progress.finish_tokens [] [] w
  rw [List.append_nil, hmore, Progress.finish_tokens [] more v] at hfinish
  cases hspells with
  | nil hgap => exact hextra hgap
  | cons => cases hfinish

end DM2022.Json
