import DM2022.Proofs.Json.Lexemes
import Mathlib.Data.List.Chain
import Mathlib.Data.List.TakeWhile

/-!
# Spelled tokens

A text spells tokens with their lexemes in order and blanks around them. The reader finds the
tokens that a text spells and no others; where it spells two numbers side by side, it spells
other tokens as well. Tokens are spelled by their own texts, one after the other.
-/
namespace DM2022.Json

def Blank (text : List Char) : Prop := ∀ c ∈ text, isSpace c = true

/-- The text consists of lexemes of the tokens and blanks. -/
inductive Spells : List Token → List Char → Prop
  | nil {gap : List Char} (hgap : Blank gap) : Spells [] gap
  | cons {gap lexeme rest : List Char} {token : Token} {tokens : List Token} (hgap : Blank gap)
      (h : Lexeme token lexeme) (hrest : Spells tokens rest) :
      Spells (token :: tokens) (gap ++ (lexeme ++ rest))

/-- The second token does not go on with the first. -/
def Apart (first second : Token) : Prop := first.isNumber = true → second.isNumber = false

variable {token : Token} {tokens : List Token} {gap lexeme text rest extra : List Char}

theorem blank_nil : Blank [] := nofun

theorem dropWhile_blank (h : Blank gap) (rest : List Char) :
    (gap ++ rest).dropWhile isSpace = rest.dropWhile isSpace :=
  List.dropWhile_append_of_pos h

theorem blank_takeWhile (text : List Char) : Blank (text.takeWhile isSpace) :=
  fun c hc => List.all_eq_true.1 List.all_takeWhile c hc

theorem isSpace_of_isDigit {c : Char} (h : c.isDigit = true) : isSpace c = false := by
  unfold isSpace
  simp only [Bool.or_eq_false_iff, beq_eq_false_iff_ne]
  refine ⟨⟨⟨?_, ?_⟩, ?_⟩, ?_⟩ <;> rintro rfl <;> exact Bool.noConfusion h

theorem foreign_of_isSpace {c : Char} (h : isSpace c = true) : Foreign c := by
  simp only [isSpace, Bool.or_eq_true, beq_iff_eq] at h
  rcases h with ((rfl | rfl) | rfl) | rfl <;> decide

/-- A lexeme starts with no blank, and goes on with a number only if it is one. -/
theorem Lexeme.exists_cons (h : Lexeme token lexeme) :
    ∃ c cs, lexeme = c :: cs ∧ isSpace c = false ∧ (token.isNumber = false → Foreign c) := by
  cases h with
  | word h =>
    cases token with
    | bool b => cases b <;> exact ⟨_, _, rfl, by decide, fun _ => by decide⟩
    | integer n => cases h
    | real => cases h
    | string s => cases h
    | _ => exact ⟨_, _, rfl, by decide, fun _ => by decide⟩
  | number h =>
    obtain ⟨c, cs, hlexeme, hc⟩ := h.head
    refine ⟨c, cs, hlexeme, ?_, fun hnot => absurd (h.isNumber.symm.trans hnot) (by decide)⟩
    rcases hc with hc | rfl
    · exact isSpace_of_isDigit hc
    · decide
  | string => exact ⟨_, _, rfl, by decide, fun _ => by decide⟩
  | lone => exact ⟨_, _, rfl, by decide, fun _ => by decide⟩

/-! ## Reading -/

theorem tokensAfter_blank (done : List Token) (h : Blank gap) :
    tokensAfter done (gap ++ rest) = tokensAfter done rest := by
  rw [tokensAfter, dropWhile_blank h, ← tokensAfter]

theorem tokensAfter_lexeme (done : List Token) (hgap : Blank gap) (h : Lexeme token lexeme)
    (hrest : token.isNumber = true → EndsNumber rest) :
    tokensAfter done (gap ++ (lexeme ++ rest)) = tokensAfter (token :: done) rest := by
  obtain ⟨c, cs, rfl, hs, -⟩ := h.exists_cons
  have hn := nextToken?_lexeme h hrest
  rw [tokensAfter_blank done hgap]
  rw [List.cons_append] at hn ⊢
  rw [tokensAfter, List.dropWhile_cons_of_neg (by simp [hs])]
  split
  · next heq => cases heq
  · next heq =>
    cases heq
    split
    · next hnone => cases hn.symm.trans hnone
    · next hsome =>
      cases hn.symm.trans hsome
      rfl

theorem Spells.endsNumber (h : Spells tokens text)
    (hhead : ∀ token ∈ tokens.head?, token.isNumber = false)
    (hextra : tokens = [] → EndsNumber extra) : EndsNumber (text ++ extra) := by
  cases h with
  | nil hgap =>
    cases text with
    | nil => exact hextra rfl
    | cons c cs =>
      rintro _ ⟨⟩
      exact foreign_of_isSpace (hgap c List.mem_cons_self)
  | @cons gap lexeme rest token tokens hgap h hrest =>
    cases gap with
    | nil =>
      obtain ⟨c, cs, rfl, -, hc⟩ := h.exists_cons
      rintro _ ⟨⟩
      exact hc (hhead token rfl)
    | cons c cs =>
      rintro _ ⟨⟩
      exact foreign_of_isSpace (hgap c List.mem_cons_self)

/-- The spelled tokens are found, whatever follows that does not go on with a last number. -/
theorem Spells.tokensAfter_append (h : Spells tokens text) (hchain : tokens.IsChain Apart)
    (hextra : ∀ token ∈ tokens.getLast?, token.isNumber = true → EndsNumber extra)
    (done : List Token) :
    tokensAfter done (text ++ extra) = tokensAfter (tokens.reverse ++ done) extra := by
  induction h generalizing done with
  | nil hgap => exact tokensAfter_blank done hgap
  | @cons gap lexeme rest token tokens hgap h hrest ih =>
    obtain ⟨hhead, htail⟩ := List.isChain_cons.1 hchain
    have hlast : ∀ last ∈ tokens.getLast?, last.isNumber = true → EndsNumber extra := by
      intro last hmem
      refine hextra last ?_
      rw [List.getLast?_cons, hmem]
      rfl
    have hends : token.isNumber = true → EndsNumber (rest ++ extra) := by
      intro hn
      refine hrest.endsNumber (fun next hnext => hhead next hnext hn) fun hnil => ?_
      subst hnil
      exact hextra token rfl hn
    rw [List.append_assoc, List.append_assoc, tokensAfter_lexeme done hgap h hends,
      ih htail hlast, List.reverse_cons, List.append_assoc]
    rfl

theorem tokens?_of_spells (h : Spells tokens text) (hchain : tokens.IsChain Apart) :
    tokens? text = some tokens := by
  have hread := h.tokensAfter_append hchain (fun _ _ _ => endsNumber_nil) []
  rw [List.append_nil, List.append_nil] at hread
  rw [tokens?, hread, tokensAfter]
  simp

theorem exists_spells_of_tokensAfter {done : List Token} (h : tokensAfter done text = some tokens) :
    ∃ read, tokens = done.reverse ++ read ∧ Spells read text := by
  fun_induction tokensAfter done text with
  | case1 done text hblank =>
    cases h
    exact ⟨[], (List.append_nil _).symm, .nil (List.dropWhile_eq_nil_iff.1 hblank)⟩
  | case2 => cases h
  | case3 done text c cs hdrop token rest hnext ih =>
    obtain ⟨read, rfl, hread⟩ := ih h
    obtain ⟨lexeme, hlexeme, heq⟩ := exists_lexeme_of_nextToken? hnext
    refine ⟨token :: read, by simp, ?_⟩
    rw [← List.takeWhile_append_dropWhile (p := isSpace) (l := text), hdrop, heq]
    exact .cons (blank_takeWhile text) hlexeme hread

theorem spells_of_tokens? (h : tokens? text = some tokens) : Spells tokens text := by
  obtain ⟨read, rfl, hread⟩ := exists_spells_of_tokensAfter h
  exact hread

/-! ## Writing -/

theorem digitChar_ne_zero {d : Nat} (hd : d < 10) (h : 0 < d) : d.digitChar ≠ '0' := by
  revert d
  decide

theorem exists_toDigits_eq_cons {n : Nat} (h : 0 < n) :
    ∃ c rest, Nat.toDigits 10 n = c :: rest ∧ c ≠ '0' := by
  induction n using Nat.strongRecOn with
  | ind n ih =>
    by_cases hn : n < 10
    · exact ⟨_, [], Nat.toDigits_of_lt_base hn, digitChar_ne_zero hn h⟩
    · obtain ⟨c, rest, hd, hc⟩ := ih (n / 10) (by omega) (by omega)
      exact ⟨c, rest ++ [(n % 10).digitChar],
        by rw [Nat.toDigits_of_base_le (by decide) (by omega), hd, List.cons_append], hc⟩

theorem whole_toDigits (n : Nat) : Whole (Nat.toDigits 10 n) n := by
  refine ⟨Text.natural?_eq_some_iff.1 (Text.natural?_toDigits n), fun hhead => ?_⟩
  rcases Nat.eq_zero_or_pos n with rfl | h
  · rfl
  · obtain ⟨c, rest, hd, hc⟩ := exists_toDigits_eq_cons h
    rw [hd] at hhead
    cases hhead
    exact absurd rfl hc

theorem numberText_integer (n : Int) : NumberText (.integer n) (Text.integerText n).toList := by
  cases n with
  | ofNat n =>
    rw [Text.integerText, Text.toList_naturalText]
    exact .plain (.integer (whole_toDigits n) fun h => Bool.false_ne_true h.1)
  | negSucc n =>
    rw [Text.integerText, String.toList_append, Text.toList_naturalText]
    exact .minus (.integer (whole_toDigits (n + 1)) fun h => Nat.succ_ne_zero n h.2)

theorem numberText_real : NumberText .real ['0', '.', '5'] :=
  .plain (.real (whole_toDigits 0) (.digits (whole_toDigits 5).value) .absent nofun)

theorem digits_escape {n : Nat} (h : n < 0x20) :
    Text.Digits 16 ((Nat.toDigits 16 n).leftpad 4 '0') n := by
  refine Text.hexadecimal?_eq_some_iff.1 ?_
  revert n
  decide

theorem length_escape {n : Nat} (h : n < 0x20) :
    ((Nat.toDigits 16 n).leftpad 4 '0').length = 4 := by
  revert n
  decide

/-- An escaped character is one part, which denotes the character. -/
theorem exists_part_escape (c : Char) : ∃ part, PartText part (escape c) ∧
    ∀ parts text, Denotes parts text → Denotes (part :: parts) (c :: text) := by
  have hshort (k : Char) (hk : unescape? k = some c) : ∃ part, PartText part ['\\', k] ∧
      ∀ parts text, Denotes parts text → Denotes (part :: parts) (c :: text) :=
    ⟨.char c, .short hk, fun _ _ => .char c⟩
  unfold escape
  split
  case h_8 hq hb _ _ _ _ _ =>
    split
    · next hs =>
      exact ⟨.unit c.toNat, .unit (digits_escape hs) (length_escape hs), fun _ _ => .unit c⟩
    · next hs => exact ⟨.char c, .plain hq hb hs, fun _ _ => .char c⟩
  all_goals exact hshort _ rfl

theorem exists_parts_escaped (text : List Char) :
    ∃ parts, PartsText parts (text.flatMap escape) ∧ Denotes parts text := by
  induction text with
  | nil => exact ⟨[], .nil, .nil⟩
  | cons c text ih =>
    obtain ⟨part, hpart, hdenotes⟩ := exists_part_escape c
    obtain ⟨parts, hparts, htext⟩ := ih
    exact ⟨part :: parts, .cons hpart hparts, hdenotes parts text htext⟩

theorem lexeme_string (s : Option String) : Lexeme (.string s) (stringText s).toList := by
  cases s with
  | some s =>
    obtain ⟨parts, hparts, hdenotes⟩ := exists_parts_escaped s.toList
    have h := Lexeme.string hparts hdenotes
    rw [String.ofList_toList] at h
    rw [stringText, quoted, String.toList_ofList]
    exact h
  | none =>
    have hdigits : Text.Digits 16 ['d', '8', '0', '0'] 0xd800 :=
      Text.hexadecimal?_eq_some_iff.1 (by decide)
    exact lexeme_quoted (.cons (.unit hdigits rfl) .nil)

/-- The text of a token is one of its lexemes. -/
theorem lexeme_text (token : Token) : Lexeme token token.text.toList := by
  cases token with
  | integer n => exact .number (numberText_integer n)
  | real => exact .number numberText_real
  | string s => exact lexeme_string s
  | _ => exact .word rfl

theorem spells_texts (tokens : List Token) :
    Spells tokens (tokens.flatMap fun token => token.text.toList) := by
  induction tokens with
  | nil => exact .nil blank_nil
  | cons token tokens ih => exact .cons blank_nil (lexeme_text token) ih

theorem spells_text (token : Token) : Spells [token] token.text.toList := by
  have h := spells_texts [token]
  rwa [List.flatMap_singleton] at h

/-! ## Blanks between tokens -/

theorem Spells.blank_append (hgap : Blank gap) (h : Spells tokens text) :
    Spells tokens (gap ++ text) := by
  have happend : ∀ gap', Blank gap' → Blank (gap ++ gap') := fun gap' hgap' c hc =>
    (List.mem_append.1 hc).elim (hgap c) (hgap' c)
  cases h with
  | nil hgap' => exact .nil (happend _ hgap')
  | cons hgap' h hrest =>
    rw [← List.append_assoc]
    exact .cons (happend _ hgap') h hrest

theorem Spells.append {first second : List Token} {more : List Char} (h : Spells first text)
    (hmore : Spells second more) : Spells (first ++ second) (text ++ more) := by
  induction h with
  | nil hgap => exact hmore.blank_append hgap
  | cons hgap h _ ih =>
    rw [List.append_assoc, List.append_assoc]
    exact .cons hgap h ih

end DM2022.Json
