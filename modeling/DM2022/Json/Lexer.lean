import DM2022.Json.Value

/-!
# Tokens of a JSON text

Reads numbers, strings and the other words of a text by the JSON grammar. An escape of
half a surrogate pair is grammatical; the string then denotes no text.
-/
namespace DM2022.Json

def isSpace (c : Char) : Bool := c == ' ' || c == '\n' || c == '\t' || c == '\r'

/-- A character of a string, or the code unit of a `\u` escape. -/
inductive StringPart where
  | char (c : Char)
  | unit (n : Nat)
  deriving DecidableEq

/-- The character that a backslash and one more character stand for. -/
def unescape? : Char → Option Char
  | '"' => some '"'
  | '\\' => some '\\'
  | '/' => some '/'
  | 'b' => some '\x08'
  | 'f' => some '\x0c'
  | 'n' => some '\n'
  | 'r' => some '\r'
  | 't' => some '\t'
  | _ => none

/-- Reads the rest of a string after the parts `done`, the last of which comes first. -/
def readString (done : List StringPart) : List Char → Option (List StringPart × List Char)
  | [] => none
  | '"' :: rest => some (done.reverse, rest)
  | '\\' :: 'u' :: a :: b :: c :: d :: rest =>
      match Text.hexadecimal? [a, b, c, d] with
      | some n => readString (.unit n :: done) rest
      | none => none
  | '\\' :: c :: rest =>
      match unescape? c with
      | some c => readString (.char c :: done) rest
      | none => none
  | c :: rest => if c.toNat < 0x20 then none else readString (.char c :: done) rest

def isHighSurrogate (n : Nat) : Bool := 0xD800 ≤ n && n ≤ 0xDBFF

def isLowSurrogate (n : Nat) : Bool := 0xDC00 ≤ n && n ≤ 0xDFFF

def surrogatePair (high low : Nat) : Char :=
  Char.ofNat (0x10000 + (high - 0xD800) * 0x400 + (low - 0xDC00))

/-- The text of the parts, if each surrogate is half of a pair. -/
def decodeParts : List StringPart → Option (List Char)
  | [] => some []
  | .char c :: rest => (decodeParts rest).map (c :: ·)
  | .unit n :: rest =>
      if isHighSurrogate n then
        match rest with
        | .unit m :: rest =>
            if isLowSurrogate m then (decodeParts rest).map (surrogatePair n m :: ·) else none
        | _ => none
      else if isLowSurrogate n then none
      else (decodeParts rest).map (Char.ofNat n :: ·)

/-- What follows one or more digits. -/
def skipDigits? (text : List Char) : Option (List Char) :=
  if text.takeWhile Char.isDigit = [] then none else some (text.dropWhile Char.isDigit)

def skipFraction? : List Char → Option (List Char)
  | '.' :: rest => skipDigits? rest
  | text => some text

def skipExponent? : List Char → Option (List Char)
  | 'e' :: rest => skipDigits? (Text.splitSign rest).2
  | 'E' :: rest => skipDigits? (Text.splitSign rest).2
  | text => some text

/-- The digits before the fraction have no leading zero. -/
def isWholePart : List Char → Bool
  | [] => false
  | ['0'] => true
  | c :: _ => c != '0'

/-- A fraction or an exponent starts here. -/
def startsFraction : List Char → Bool
  | '.' :: _ => true
  | 'e' :: _ => true
  | 'E' :: _ => true
  | _ => false

/-- A number without fraction and exponent is an integer, except minus zero. -/
def readUnsigned? (negative : Bool) (text : List Char) : Option (Token × List Char) :=
  let digits := text.takeWhile Char.isDigit
  let rest := text.dropWhile Char.isDigit
  if isWholePart digits then
    if startsFraction rest then
      ((skipFraction? rest).bind skipExponent?).map fun rest => (.real, rest)
    else
      let n := Nat.ofDigitChars 10 digits 0
      some (if negative ∧ n = 0 then .real else .integer (Text.applySign negative n), rest)
  else none

def readNumber? : List Char → Option (Token × List Char)
  | '-' :: rest => readUnsigned? true rest
  | text => readUnsigned? false text

/-- The first token of a text that starts with no blank, and what follows it. -/
def nextToken? : List Char → Option (Token × List Char)
  | '[' :: rest => some (.openArray, rest)
  | ']' :: rest => some (.closeArray, rest)
  | '{' :: rest => some (.openObject, rest)
  | '}' :: rest => some (.closeObject, rest)
  | ',' :: rest => some (.comma, rest)
  | ':' :: rest => some (.colon, rest)
  | '"' :: rest => (readString [] rest).map fun (parts, rest) =>
      (.string ((decodeParts parts).map String.ofList), rest)
  | 'n' :: 'u' :: 'l' :: 'l' :: rest => some (.null, rest)
  | 't' :: 'r' :: 'u' :: 'e' :: rest => some (.bool true, rest)
  | 'f' :: 'a' :: 'l' :: 's' :: 'e' :: rest => some (.bool false, rest)
  | text => readNumber? text

theorem readString_length {done parts : List StringPart} {text rest : List Char}
    (h : readString done text = some (parts, rest)) : rest.length < text.length := by
  fun_induction readString done text with
  | case1 => simp at h
  | case2 => simp_all
  | case3 _ _ _ _ _ _ _ _ ih => have := ih h; simp only [List.length_cons]; omega
  | case4 => simp at h
  | case5 _ _ _ _ _ _ ih => have := ih h; simp only [List.length_cons]; omega
  | case6 => simp at h
  | case7 => simp at h
  | case8 _ _ _ _ _ _ _ ih => have := ih h; simp only [List.length_cons]; omega

theorem length_dropWhile_le (p : Char → Bool) (text : List Char) :
    (text.dropWhile p).length ≤ text.length :=
  (List.dropWhile_sublist p).length_le

theorem skipDigits?_length {text rest : List Char} (h : skipDigits? text = some rest) :
    rest.length ≤ text.length := by
  simp only [skipDigits?, Option.ite_none_left_eq_some, Option.some.injEq] at h
  exact h.2 ▸ length_dropWhile_le ..

theorem splitSign_length (text : List Char) :
    (Text.splitSign text).2.length ≤ text.length := by
  fun_cases Text.splitSign text <;> simp

theorem skipFraction?_length {text rest : List Char} (h : skipFraction? text = some rest) :
    rest.length ≤ text.length := by
  fun_cases skipFraction? text with
  | case1 => exact Nat.le_succ_of_le (skipDigits?_length h)
  | case2 => simp_all [skipFraction?]

theorem skipExponent?_length {text rest : List Char} (h : skipExponent? text = some rest) :
    rest.length ≤ text.length := by
  fun_cases skipExponent? text with
  | case1 text => exact Nat.le_succ_of_le (Nat.le_trans (skipDigits?_length h) (splitSign_length text))
  | case2 text => exact Nat.le_succ_of_le (Nat.le_trans (skipDigits?_length h) (splitSign_length text))
  | case3 => simp_all [skipExponent?]

theorem length_dropWhile_isDigit_lt {text : List Char}
    (h : isWholePart (text.takeWhile Char.isDigit) = true) :
    (text.dropWhile Char.isDigit).length < text.length := by
  have hsum := congrArg List.length (List.takeWhile_append_dropWhile (p := Char.isDigit) (l := text))
  rw [List.length_append] at hsum
  have hpos : 0 < (text.takeWhile Char.isDigit).length := by
    apply List.length_pos_iff.2
    intro hd
    rw [hd] at h
    exact Bool.noConfusion h
  omega

theorem readUnsigned?_length {negative : Bool} {text rest : List Char} {token : Token}
    (h : readUnsigned? negative text = some (token, rest)) : rest.length < text.length := by
  simp only [readUnsigned?] at h
  split at h
  · next hw =>
    have hlt := length_dropWhile_isDigit_lt hw
    split at h
    · obtain ⟨r, hr, he⟩ := Option.map_eq_some_iff.1 h
      obtain ⟨q, hq, hr⟩ := Option.bind_eq_some_iff.1 hr
      have hle := Nat.le_trans (skipExponent?_length hr) (skipFraction?_length hq)
      cases he
      omega
    · cases h
      exact hlt
  · cases h

theorem readNumber?_length {text rest : List Char} {token : Token}
    (h : readNumber? text = some (token, rest)) : rest.length < text.length := by
  unfold readNumber? at h
  split at h
  · exact Nat.lt_succ_of_lt (readUnsigned?_length h)
  · exact readUnsigned?_length h

theorem nextToken?_length {text rest : List Char} {token : Token}
    (h : nextToken? text = some (token, rest)) : rest.length < text.length := by
  unfold nextToken? at h
  split at h
  case h_7 =>
    obtain ⟨⟨parts, r⟩, hr, he⟩ := Option.map_eq_some_iff.1 h
    simp only [Prod.mk.injEq] at he
    exact he.2 ▸ Nat.lt_succ_of_lt (readString_length hr)
  case h_11 => exact readNumber?_length h
  all_goals
    simp only [Option.some.injEq, Prod.mk.injEq] at h
    simp only [← h.2, List.length_cons]
    omega

/-- The tokens of a text after the tokens `done`, the last of which comes first. -/
def tokensAfter (done : List Token) (text : List Char) : Option (List Token) :=
  match _hs : text.dropWhile isSpace with
  | [] => some done.reverse
  | c :: rest =>
      match _ht : nextToken? (c :: rest) with
      | none => none
      | some (token, rest') => tokensAfter (token :: done) rest'
termination_by text.length
decreasing_by
  have hlt := nextToken?_length _ht
  have hle := length_dropWhile_le isSpace text
  rw [_hs] at hle
  omega

/-- The tokens of a text. -/
def tokens? (text : List Char) : Option (List Token) := tokensAfter [] text

end DM2022.Json
