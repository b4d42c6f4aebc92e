import DM2022.Json.Lexer
import DM2022.Proofs.Text.Numerals
import Mathlib.Data.List.Basic

/-!
# Lexemes

What the tokens look like in a text, by the JSON grammar. The reader takes a token off the front
of a text just if one of its lexemes stands there; a number is read as far as it goes on.
-/
namespace DM2022.Json

/-! ## Grammar -/

/-- A part of a string as it is written. -/
inductive PartText : StringPart → List Char → Prop
  | plain {c : Char} (hquote : c ≠ '"') (hbackslash : c ≠ '\\') (hshown : ¬c.toNat < 0x20) :
      PartText (.char c) [c]
  | short {k c : Char} (h : unescape? k = some c) : PartText (.char c) ['\\', k]
  | unit {digits : List Char} {n : Nat} (h : Text.Digits 16 digits n)
      (hlength : digits.length = 4) : PartText (.unit n) ('\\' :: 'u' :: digits)

inductive PartsText : List StringPart → List Char → Prop
  | nil : PartsText [] []
  | cons {part : StringPart} {parts : List StringPart} {written rest : List Char}
      (h : PartText part written) (hrest : PartsText parts rest) :
      PartsText (part :: parts) (written ++ rest)

/-- The parts are the UTF-16 form of a text, apart from the characters that stand for
themselves. -/
inductive Denotes : List StringPart → List Char → Prop
  | nil : Denotes [] []
  | char {parts : List StringPart} {text : List Char} (c : Char) (h : Denotes parts text) :
      Denotes (.char c :: parts) (c :: text)
  | unit {parts : List StringPart} {text : List Char} (c : Char) (h : Denotes parts text) :
      Denotes (.unit c.toNat :: parts) (c :: text)
  | pair {parts : List StringPart} {text : List Char} {high low : Nat} {c : Char}
      (hhigh : 0xD800 ≤ high ∧ high ≤ 0xDBFF) (hlow : 0xDC00 ≤ low ∧ low ≤ 0xDFFF)
      (hc : c.toNat = 0x10000 + (high - 0xD800) * 0x400 + (low - 0xDC00))
      (h : Denotes parts text) : Denotes (.unit high :: .unit low :: parts) (c :: text)

/-- The digits before a fraction: no zero leads others. -/
structure Whole (digits : List Char) (n : Nat) : Prop where
  value : Text.Digits 10 digits n
  leads : digits.head? = some '0' → digits = ['0']

inductive Fraction : List Char → Prop
  | absent : Fraction []
  | digits {digits : List Char} {n : Nat} (h : Text.Digits 10 digits n) : Fraction ('.' :: digits)

inductive Exponent : List Char → Prop
  | absent : Exponent []
  | digits {mark : Char} {sign digits : List Char} {n : Nat} (hmark : mark = 'e' ∨ mark = 'E')
      (hsign : sign = [] ∨ sign = ['+'] ∨ sign = ['-']) (h : Text.Digits 10 digits n) :
      Exponent (mark :: (sign ++ digits))

/-- A number after its sign. Minus zero is no integer. -/
inductive UnsignedText (negative : Bool) : Token → List Char → Prop
  | integer {digits : List Char} {n : Nat} (h : Whole digits n) (hn : ¬(negative = true ∧ n = 0)) :
      UnsignedText negative (.integer (Text.applySign negative n)) digits
  | minusZero {digits : List Char} (h : Whole digits 0) (hnegative : negative = true) :
      UnsignedText negative .real digits
  | real {digits fraction exponent : List Char} {n : Nat} (h : Whole digits n)
      (hfraction : Fraction fraction) (hexponent : Exponent exponent)
      (hreal : fraction ++ exponent ≠ []) :
      UnsignedText negative .real (digits ++ (fraction ++ exponent))

inductive NumberText : Token → List Char → Prop
  | plain {token : Token} {written : List Char} (h : UnsignedText false token written) :
      NumberText token written
  | minus {token : Token} {written : List Char} (h : UnsignedText true token written) :
      NumberText token ('-' :: written)

def Token.isNumber : Token → Bool
  | .integer _ => true
  | .real => true
  | _ => false

/-- The token has one lexeme only. -/
def Token.isWord : Token → Bool
  | .integer _ => false
  | .real => false
  | .string _ => false
  | _ => true

inductive Lexeme : Token → List Char → Prop
  | word {token : Token} (h : token.isWord = true) : Lexeme token token.text.toList
  | number {token : Token} {written : List Char} (h : NumberText token written) :
      Lexeme token written
  | string {parts : List StringPart} {written text : List Char} (h : PartsText parts written)
      (hdenotes : Denotes parts text) :
      Lexeme (.string (some (String.ofList text))) ('"' :: (written ++ ['"']))
  | lone {parts : List StringPart} {written : List Char} (h : PartsText parts written)
      (hdenotes : ∀ text, ¬Denotes parts text) :
      Lexeme (.string none) ('"' :: (written ++ ['"']))

variable {token : Token} {parts : List StringPart} {text written rest : List Char} {n : Nat}

/-! ## Reading strings -/

theorem readString_unit {done : List StringPart} {digits : List Char}
    (hl : digits.length = 4) (hn : Text.Digits 16 digits n) (rest : List Char) :
    readString done ('\\' :: 'u' :: (digits ++ rest)) = readString (.unit n :: done) rest := by
  obtain ⟨a, b, c, d, rfl⟩ := List.length_eq_four.1 hl
  simp only [List.cons_append, List.nil_append, readString, Text.hexadecimal?_eq_some_iff.2 hn]

theorem readString_short {k c : Char} (h : unescape? k = some c) (done : List StringPart)
    (rest : List Char) :
    readString done ('\\' :: k :: rest) = readString (.char c :: done) rest := by
  have hu : k ≠ 'u' := by
    rintro rfl
    simp [unescape?] at h
  rw [readString.eq_def]
  split
  case h_5 _ hb heq =>
    cases heq
    exact absurd rfl (hb k rest rfl)
  all_goals simp_all

theorem readString_plain {c : Char} (hq : c ≠ '"') (hb : c ≠ '\\') (hs : ¬ c.toNat < 0x20)
    (done : List StringPart) (rest : List Char) :
    readString done (c :: rest) = readString (.char c :: done) rest := by
  rw [readString.eq_def]
  split <;> simp_all

theorem readString_part {part : StringPart} (h : PartText part written) (done : List StringPart)
    (rest : List Char) :
    readString done (written ++ rest) = readString (part :: done) rest := by
  cases h with
  | plain hquote hbackslash hshown => exact readString_plain hquote hbackslash hshown done rest
  | short h => exact readString_short h done rest
  | unit h hlength => exact readString_unit hlength h rest

theorem readString_of_parts (h : PartsText parts written) (done : List StringPart)
    (rest : List Char) :
    readString done (written ++ '"' :: rest) = some (done.reverse ++ parts, rest) := by
  induction h generalizing done with
  | nil => simp [readString]
  | cons hpart _ ih =>
    rw [List.append_assoc, readString_part hpart, ih, List.reverse_cons, List.append_assoc]
    rfl

theorem exists_parts_of_readString {done : List StringPart}
    (h : readString done text = some (parts, rest)) :
    ∃ read written, parts = done.reverse ++ read ∧ PartsText read written ∧
      text = written ++ '"' :: rest := by
  -- one case for each way in which a part is written
  fun_induction readString done text with
  | case1 => cases h
  | case2 done rest' =>
    cases h
    exact ⟨[], [], (List.append_nil _).symm, .nil, rfl⟩
  | case3 done a b c d text n hn ih =>
    obtain ⟨read, written, rfl, hread, rfl⟩ := ih h
    refine ⟨.unit n :: read, '\\' :: 'u' :: [a, b, c, d] ++ written, by simp, ?_, rfl⟩
    exact .cons (.unit (Text.hexadecimal?_eq_some_iff.1 hn) rfl) hread
  | case4 => cases h
  | case5 done k text _ c hc ih =>
    obtain ⟨read, written, rfl, hread, rfl⟩ := ih h
    exact ⟨.char c :: read, ['\\', k] ++ written, by simp, .cons (.short hc) hread, rfl⟩
  | case6 => cases h
  | case7 => cases h
  | case8 done c text hquote _ hbackslash hshown ih =>
    obtain ⟨read, written, rfl, hread, rfl⟩ := ih h
    have hc : c ≠ '\\' := by
      rintro rfl
      cases written with
      | nil => exact hbackslash _ _ rfl rfl
      | cons => exact hbackslash _ _ rfl rfl
    exact ⟨.char c :: read, [c] ++ written, by simp, .cons (.plain hquote hc hshown) hread, rfl⟩

/-! ## Denoted texts -/

theorem toNat_ofNat_of_isValidChar (h : n.isValidChar) : (Char.ofNat n).toNat = n := by
  rw [Char.ofNat, dif_pos h]
  rfl

theorem isHighSurrogate_iff : isHighSurrogate n = true ↔ 0xD800 ≤ n ∧ n ≤ 0xDBFF := by
  simp [isHighSurrogate]

theorem isLowSurrogate_iff : isLowSurrogate n = true ↔ 0xDC00 ≤ n ∧ n ≤ 0xDFFF := by
  simp [isLowSurrogate]

theorem PartText.unit_lt (h : PartText (.unit n) written) : n < 0x10000 := by
  cases h with
  | @unit digits _ h hlength =>
    have hbase : ∀ d ∈ (digits.map Text.digitValue).reverse, d < 16 := by simpa using h.lt
    have hlt := Nat.ofDigits_lt_base_pow_length (by decide) hbase
    rw [h.value, List.length_reverse, List.length_map, hlength] at hlt
    exact hlt

theorem PartsText.tail {part : StringPart} (h : PartsText (part :: parts) written) :
    ∃ rest, PartsText parts rest := by
  cases h with
  | cons _ hrest => exact ⟨_, hrest⟩

theorem PartsText.head_lt (h : PartsText (.unit n :: parts) written) : n < 0x10000 := by
  cases h with
  | cons hpart _ => exact hpart.unit_lt

/-- What the reader makes of the parts is what they denote. -/
theorem denotes_of_decodeParts (h : PartsText parts written)
    (htext : decodeParts parts = some text) : Denotes parts text := by
  fun_induction decodeParts parts generalizing written text with
  | case1 =>
    cases htext
    exact .nil
  | case2 c parts ih =>
    obtain ⟨text, hrest, rfl⟩ := Option.map_eq_some_iff.1 htext
    obtain ⟨_, h⟩ := h.tail
    exact .char c (ih h hrest)
  | case3 high hhigh low parts hlow ih =>
    obtain ⟨text, hrest, rfl⟩ := Option.map_eq_some_iff.1 htext
    obtain ⟨_, h⟩ := h.tail
    obtain ⟨_, h⟩ := h.tail
    rw [isHighSurrogate_iff] at hhigh
    rw [isLowSurrogate_iff] at hlow
    refine .pair hhigh hlow (toNat_ofNat_of_isValidChar ?_) (ih h hrest)
    exact .inr ⟨by omega, by omega⟩
  | case4 => cases htext
  | case5 => cases htext
  | case6 => cases htext
  | case7 n parts hhigh hlow ih =>
    obtain ⟨text, hrest, rfl⟩ := Option.map_eq_some_iff.1 htext
    have hlt := h.head_lt
    obtain ⟨_, h⟩ := h.tail
    rw [isHighSurrogate_iff] at hhigh
    rw [isLowSurrogate_iff] at hlow
    have hvalid : n.isValidChar := by
      rw [Nat.isValidChar]
      omega
    have hunit := Denotes.unit (Char.ofNat n) (ih h hrest)
    rwa [toNat_ofNat_of_isValidChar hvalid] at hunit

theorem decodeParts_of_denotes (h : Denotes parts text) : decodeParts parts = some text := by
  induction h with
  | nil => rfl
  | char c _ ih => rw [decodeParts, ih, Option.map_some]
  | @unit parts text c _ ih =>
    have hvalid : c.toNat < 0xD800 ∨ 0xDFFF < c.toNat ∧ c.toNat < 0x110000 := c.valid
    have hhigh : ¬isHighSurrogate c.toNat = true := by
      rw [isHighSurrogate_iff]
      omega
    have hlow : ¬isLowSurrogate c.toNat = true := by
      rw [isLowSurrogate_iff]
      omega
    rw [decodeParts.eq_def]
    simp only [hhigh, hlow, ih, Option.map_some, Char.ofNat_toNat]
    rfl
  | @pair parts text high low c hhigh hlow hc _ ih =>
    rw [← isHighSurrogate_iff] at hhigh
    rw [← isLowSurrogate_iff] at hlow
    rw [decodeParts, if_pos hhigh]
    simp only [if_pos hlow, ih, Option.map_some, surrogatePair, ← hc, Char.ofNat_toNat]

theorem denotes_iff (h : PartsText parts written) :
    Denotes parts text ↔ decodeParts parts = some text :=
  ⟨decodeParts_of_denotes, denotes_of_decodeParts h⟩

/-! ## Reading numbers -/

/-- A character that is neither in the whole part of a number nor right after it. -/
def Foreign (c : Char) : Prop := c.isDigit = false ∧ c ≠ '.' ∧ c ≠ 'e' ∧ c ≠ 'E'

instance (c : Char) : Decidable (Foreign c) := inferInstanceAs (Decidable (_ ∧ _))

/-- A number does not go on with this text. -/
def EndsNumber (text : List Char) : Prop := ∀ c ∈ text.head?, Foreign c

/-- Digits do not go on with this text. -/
def EndsDigits (text : List Char) : Prop := ∀ c ∈ text.head?, c.isDigit = false

theorem endsNumber_nil : EndsNumber [] := nofun

theorem EndsNumber.endsDigits (h : EndsNumber rest) : EndsDigits rest := fun c hc => (h c hc).1

theorem isDigit_of_digits {digits : List Char} (h : Text.Digits 10 digits n) :
    ∀ c ∈ digits, c.isDigit = true :=
  fun c hc => Text.isDigit_iff_digitValue.2 (h.lt c hc)

theorem takeWhile_digits {digits : List Char} (h : Text.Digits 10 digits n)
    (hrest : EndsDigits rest) : (digits ++ rest).takeWhile Char.isDigit = digits := by
  rw [List.takeWhile_append_of_pos (isDigit_of_digits h)]
  cases rest with
  | nil => exact List.append_nil _
  | cons c rest => rw [List.takeWhile_cons_of_neg (by simp [hrest c rfl]), List.append_nil]

theorem dropWhile_digits {digits : List Char} (h : Text.Digits 10 digits n)
    (hrest : EndsDigits rest) : (digits ++ rest).dropWhile Char.isDigit = rest := by
  rw [List.dropWhile_append_of_pos (isDigit_of_digits h)]
  cases rest with
  | nil => rfl
  | cons c rest => exact List.dropWhile_cons_of_neg (by simp [hrest c rfl])

/-- The digits at the start of a text, if there are any. -/
theorem digits_takeWhile (h : text.takeWhile Char.isDigit ≠ []) :
    Text.Digits 10 (text.takeWhile Char.isDigit)
      (Nat.ofDigitChars 10 (text.takeWhile Char.isDigit) 0) := by
  refine Text.natural?_eq_some_iff.1 (if_pos ⟨h, ?_⟩)
  exact List.all_eq_true.2 fun c hc => List.all_eq_true.1 (List.all_takeWhile) c hc

theorem skipDigits?_digits {digits : List Char} (h : Text.Digits 10 digits n)
    (hrest : EndsDigits rest) : skipDigits? (digits ++ rest) = some rest := by
  rw [skipDigits?, takeWhile_digits h hrest, dropWhile_digits h hrest, if_neg h.ne_nil]

theorem exists_digits_of_skipDigits? (h : skipDigits? text = some rest) :
    ∃ digits n, Text.Digits 10 digits n ∧ text = digits ++ rest := by
  rw [skipDigits?, Option.ite_none_left_eq_some, Option.some.injEq] at h
  obtain ⟨hne, rfl⟩ := h
  exact ⟨_, _, digits_takeWhile hne, List.takeWhile_append_dropWhile.symm⟩

theorem skipFraction?_fraction {fraction : List Char} (h : Fraction fraction)
    (hrest : EndsDigits rest) (hdot : fraction = [] → '.' ∉ rest.head?) :
    skipFraction? (fraction ++ rest) = some rest := by
  cases h with
  | absent =>
    rw [List.nil_append]
    unfold skipFraction?
    split
    · exact absurd rfl (hdot rfl)
    · rfl
  | digits h => exact skipDigits?_digits h hrest

theorem exists_fraction_of_skipFraction? (h : skipFraction? text = some rest) :
    ∃ fraction, Fraction fraction ∧ text = fraction ++ rest ∧
      ('.' ∈ text.head? → fraction ≠ []) := by
  unfold skipFraction? at h
  split at h
  · obtain ⟨digits, n, hdigits, rfl⟩ := exists_digits_of_skipDigits? h
    exact ⟨_, .digits hdigits, rfl, fun _ => List.cons_ne_nil _ _⟩
  · next hdot =>
    cases h
    refine ⟨[], .absent, rfl, fun hhead => ?_⟩
    obtain ⟨rest', rfl⟩ := List.head?_eq_some_iff.1 hhead
    exact absurd rfl (hdot rest')

theorem splitSign_sign {sign : List Char} (hsign : sign = [] ∨ sign = ['+'] ∨ sign = ['-'])
    {digits : List Char} (h : Text.Digits 10 digits n) :
    (Text.splitSign (sign ++ (digits ++ rest))).2 = digits ++ rest := by
  rcases hsign with rfl | rfl | rfl
  · have hdigits : ∀ c text, digits ++ rest = c :: text → c ≠ '+' ∧ c ≠ '-' := by
      intro c text hc
      obtain ⟨d, ds, rfl⟩ := List.exists_cons_of_ne_nil h.ne_nil
      have hdigit := isDigit_of_digits h d List.mem_cons_self
      cases hc
      constructor <;> rintro rfl <;> exact Bool.noConfusion hdigit
    rw [List.nil_append, Text.splitSign_of_unsigned hdigits]
  · rfl
  · rfl

theorem exists_sign (text : List Char) :
    ∃ sign, (sign = [] ∨ sign = ['+'] ∨ sign = ['-']) ∧ text = sign ++ (Text.splitSign text).2 := by
  unfold Text.splitSign
  split
  · exact ⟨['-'], .inr (.inr rfl), rfl⟩
  · exact ⟨['+'], .inr (.inl rfl), rfl⟩
  · exact ⟨[], .inl rfl, rfl⟩

theorem skipExponent?_exponent {exponent : List Char} (h : Exponent exponent)
    (hrest : EndsNumber rest) : skipExponent? (exponent ++ rest) = some rest := by
  cases h with
  | absent =>
    rw [List.nil_append]
    unfold skipExponent?
    split
    · exact absurd rfl (hrest _ rfl).2.2.1
    · exact absurd rfl (hrest _ rfl).2.2.2
    · rfl
  | @digits mark sign digits n hmark hsign h =>
    have hskip := skipDigits?_digits h hrest.endsDigits
    rw [← splitSign_sign hsign h] at hskip
    rcases hmark with rfl | rfl
    · rw [List.cons_append, List.append_assoc]
      exact hskip
    · rw [List.cons_append, List.append_assoc]
      exact hskip

theorem exists_exponent_of_skipExponent? (h : skipExponent? text = some rest) :
    ∃ exponent, Exponent exponent ∧ text = exponent ++ rest ∧
      ('e' ∈ text.head? ∨ 'E' ∈ text.head? → exponent ≠ []) := by
  have hmarked : ∀ mark after, (mark = 'e' ∨ mark = 'E') →
      skipDigits? (Text.splitSign after).2 = some rest →
      ∃ exponent, Exponent exponent ∧ mark :: after = exponent ++ rest ∧ exponent ≠ [] := by
    intro mark after hmark hskip
    obtain ⟨sign, hsign, hafter⟩ := exists_sign after
    obtain ⟨digits, n, hdigits, heq⟩ := exists_digits_of_skipDigits? hskip
    refine ⟨_, .digits hmark hsign hdigits, ?_, List.cons_ne_nil _ _⟩
    rw [List.cons_append, List.append_assoc, ← heq, ← hafter]
  unfold skipExponent? at h
  split at h
  · obtain ⟨exponent, hexponent, heq, hne⟩ := hmarked _ _ (.inl rfl) h
    exact ⟨exponent, hexponent, heq, fun _ => hne⟩
  · obtain ⟨exponent, hexponent, heq, hne⟩ := hmarked _ _ (.inr rfl) h
    exact ⟨exponent, hexponent, heq, fun _ => hne⟩
  · next hsmall hcapital =>
    cases h
    refine ⟨[], .absent, rfl, fun hhead => ?_⟩
    rcases hhead with hhead | hhead
    · obtain ⟨rest', rfl⟩ := List.head?_eq_some_iff.1 hhead
      exact absurd rfl (hsmall rest')
    · obtain ⟨rest', rfl⟩ := List.head?_eq_some_iff.1 hhead
      exact absurd rfl (hcapital rest')

theorem startsFraction_iff : startsFraction text = true ↔
    '.' ∈ text.head? ∨ 'e' ∈ text.head? ∨ 'E' ∈ text.head? := by
  unfold startsFraction
  split
  · exact iff_of_true rfl (.inl rfl)
  · exact iff_of_true rfl (.inr (.inl rfl))
  · exact iff_of_true rfl (.inr (.inr rfl))
  · next hdot hsmall hcapital =>
    refine iff_of_false Bool.false_ne_true fun hhead => ?_
    rcases hhead with hhead | hhead | hhead
    · obtain ⟨rest, rfl⟩ := List.head?_eq_some_iff.1 hhead
      exact hdot rest rfl
    · obtain ⟨rest, rfl⟩ := List.head?_eq_some_iff.1 hhead
      exact hsmall rest rfl
    · obtain ⟨rest, rfl⟩ := List.head?_eq_some_iff.1 hhead
      exact hcapital rest rfl

theorem Whole.isWholePart {digits : List Char} (h : Whole digits n) :
    isWholePart digits = true := by
  obtain ⟨c, cs, hcs⟩ := List.exists_cons_of_ne_nil h.value.ne_nil
  by_cases hc : c = '0'
  · rw [h.leads (by rw [hcs, hc]; rfl)]
    rfl
  · rw [hcs]
    unfold Json.isWholePart
    split <;> simp_all

theorem whole_takeWhile (h : isWholePart (text.takeWhile Char.isDigit) = true) :
    Whole (text.takeWhile Char.isDigit) (Nat.ofDigitChars 10 (text.takeWhile Char.isDigit) 0) := by
  have hne : text.takeWhile Char.isDigit ≠ [] := by
    intro hnil
    rw [hnil] at h
    exact Bool.noConfusion h
  refine ⟨digits_takeWhile hne, fun hhead => ?_⟩
  obtain ⟨rest, hrest⟩ := List.head?_eq_some_iff.1 hhead
  rw [hrest] at h ⊢
  unfold isWholePart at h
  split at h <;> simp_all

theorem startsFraction_real {fraction exponent : List Char} (hfraction : Fraction fraction)
    (hexponent : Exponent exponent) (hreal : fraction ++ exponent ≠ []) (rest : List Char) :
    startsFraction (fraction ++ (exponent ++ rest)) = true := by
  rw [startsFraction_iff]
  cases hfraction with
  | digits => exact .inl rfl
  | absent =>
    cases hexponent with
    | absent => exact absurd rfl hreal
    | digits hmark =>
      rcases hmark with rfl | rfl
      · exact .inr (.inl rfl)
      · exact .inr (.inr rfl)

theorem endsDigits_of_startsFraction (h : startsFraction text = true) : EndsDigits text := by
  intro c hc
  rcases startsFraction_iff.1 h with hhead | hhead | hhead <;> cases hc.symm.trans hhead <;> rfl

theorem startsFraction_eq_false (h : EndsNumber rest) : startsFraction rest = false := by
  rw [Bool.eq_false_iff, Ne, startsFraction_iff]
  rintro (hhead | hhead | hhead)
  · exact (h _ hhead).2.1 rfl
  · exact (h _ hhead).2.2.1 rfl
  · exact (h _ hhead).2.2.2 rfl

theorem exponent_ends {exponent : List Char} (h : Exponent exponent) (hrest : EndsNumber rest) :
    EndsDigits (exponent ++ rest) ∧ '.' ∉ (exponent ++ rest).head? := by
  cases h with
  | absent => exact ⟨hrest.endsDigits, fun hhead => (hrest _ hhead).2.1 rfl⟩
  | digits hmark =>
    rcases hmark with rfl | rfl
    · exact ⟨by rintro _ ⟨⟩; rfl, nofun⟩
    · exact ⟨by rintro _ ⟨⟩; rfl, nofun⟩

theorem ofDigitChars_digits {digits : List Char} (h : Text.Digits 10 digits n) :
    Nat.ofDigitChars 10 digits 0 = n := by
  have hread := Text.natural?_eq_some_iff.2 h
  rw [Text.natural?, Option.ite_none_right_eq_some, Option.some.injEq] at hread
  exact hread.2

theorem readUnsigned?_whole {digits : List Char} (h : Whole digits n) (hrest : EndsNumber rest)
    (negative : Bool) : readUnsigned? negative (digits ++ rest) = some
      (if negative = true ∧ n = 0 then .real else .integer (Text.applySign negative n), rest) := by
  simp only [readUnsigned?, takeWhile_digits h.value hrest.endsDigits,
    dropWhile_digits h.value hrest.endsDigits, h.isWholePart, startsFraction_eq_false hrest,
    ofDigitChars_digits h.value, if_true, Bool.false_eq_true, if_false]

theorem readUnsigned?_written {negative : Bool} (h : UnsignedText negative token written)
    (hrest : EndsNumber rest) : readUnsigned? negative (written ++ rest) = some (token, rest) := by
  cases h with
  | integer h hn => rw [readUnsigned?_whole h hrest, if_neg hn]
  | minusZero h hnegative => rw [readUnsigned?_whole h hrest, if_pos ⟨hnegative, rfl⟩]
  | real h hfraction hexponent hreal =>
    have hstarts := startsFraction_real hfraction hexponent hreal rest
    have hends := endsDigits_of_startsFraction hstarts
    obtain ⟨hexponentEnds, hdot⟩ := exponent_ends hexponent hrest
    rw [readUnsigned?, List.append_assoc, List.append_assoc, takeWhile_digits h.value hends,
      dropWhile_digits h.value hends, if_pos h.isWholePart, if_pos hstarts,
      skipFraction?_fraction hfraction hexponentEnds fun _ => hdot, Option.bind_some,
      skipExponent?_exponent hexponent hrest, Option.map_some]

/-- What is skipped after the digits of a number that is no integer. -/
theorem exists_real_of_skip (hstarts : startsFraction text = true)
    (h : (skipFraction? text).bind skipExponent? = some rest) :
    ∃ fraction exponent, Fraction fraction ∧ Exponent exponent ∧ fraction ++ exponent ≠ [] ∧
      text = fraction ++ (exponent ++ rest) := by
  obtain ⟨after, hskip, hskip'⟩ := Option.bind_eq_some_iff.1 h
  obtain ⟨fraction, hfraction, rfl, hdot⟩ := exists_fraction_of_skipFraction? hskip
  obtain ⟨exponent, hexponent, rfl, hmark⟩ := exists_exponent_of_skipExponent? hskip'
  refine ⟨fraction, exponent, hfraction, hexponent, fun hnone => ?_, rfl⟩
  obtain ⟨rfl, rfl⟩ := List.append_eq_nil_iff.1 hnone
  rcases startsFraction_iff.1 hstarts with hhead | hhead
  · exact hdot hhead rfl
  · exact hmark hhead rfl

theorem exists_written_of_readUnsigned? {negative : Bool}
    (h : readUnsigned? negative text = some (token, rest)) :
    ∃ written, UnsignedText negative token written ∧ text = written ++ rest := by
  simp only [readUnsigned?] at h
  have htext := List.takeWhile_append_dropWhile (p := Char.isDigit) (l := text)
  split at h
  · next hwhole =>
    have hwhole := whole_takeWhile hwhole
    split at h
    · next hstarts =>
      obtain ⟨_, hskip, heq⟩ := Option.map_eq_some_iff.1 h
      cases heq
      obtain ⟨fraction, exponent, hfraction, hexponent, hreal, hdrop⟩ :=
        exists_real_of_skip hstarts hskip
      refine ⟨_, .real hwhole hfraction hexponent hreal, ?_⟩
      rw [List.append_assoc, List.append_assoc, ← hdrop, htext]
    · cases h
      refine ⟨_, ?_, htext.symm⟩
      split
      · next hzero =>
        rw [hzero.2] at hwhole
        exact .minusZero hwhole hzero.1
      · next hnonzero => exact .integer hwhole hnonzero
  · cases h

theorem UnsignedText.exists_digit {negative : Bool} (h : UnsignedText negative token written) :
    ∃ c cs, written = c :: cs ∧ c.isDigit = true := by
  obtain ⟨digits, rest, n, hdigits, rfl⟩ : ∃ digits rest n, Text.Digits 10 digits n ∧
      written = digits ++ rest := by
    cases h with
    | integer h => exact ⟨_, [], _, h.value, (List.append_nil _).symm⟩
    | minusZero h => exact ⟨_, [], _, h.value, (List.append_nil _).symm⟩
    | real h => exact ⟨_, _, _, h.value, rfl⟩
  obtain ⟨c, cs, rfl⟩ := List.exists_cons_of_ne_nil hdigits.ne_nil
  exact ⟨c, cs ++ rest, rfl, isDigit_of_digits hdigits c List.mem_cons_self⟩

theorem readNumber?_written (h : NumberText token written) (hrest : EndsNumber rest) :
    readNumber? (written ++ rest) = some (token, rest) := by
  cases h with
  | minus h => exact readUnsigned?_written h hrest
  | plain h =>
    obtain ⟨c, cs, rfl, hc⟩ := h.exists_digit
    rw [← readUnsigned?_written h hrest, List.cons_append]
    unfold readNumber?
    split
    · next heq =>
      cases heq
      exact absurd hc Bool.false_ne_true
    · rfl

theorem exists_written_of_readNumber? (h : readNumber? text = some (token, rest)) :
    ∃ written, NumberText token written ∧ text = written ++ rest := by
  unfold readNumber? at h
  split at h
  · obtain ⟨written, hwritten, rfl⟩ := exists_written_of_readUnsigned? h
    exact ⟨_, .minus hwritten, rfl⟩
  · obtain ⟨written, hwritten, rfl⟩ := exists_written_of_readUnsigned? h
    exact ⟨_, .plain hwritten, rfl⟩

theorem NumberText.head (h : NumberText token written) :
    ∃ c cs, written = c :: cs ∧ (c.isDigit = true ∨ c = '-') := by
  cases h with
  | minus h => exact ⟨'-', _, rfl, .inr rfl⟩
  | plain h =>
    obtain ⟨c, cs, hwritten, hc⟩ := h.exists_digit
    exact ⟨c, cs, hwritten, .inl hc⟩

theorem NumberText.isNumber (h : NumberText token written) : token.isNumber = true := by
  rcases h with ⟨_ | _ | _⟩ | ⟨_ | _ | _⟩ <;> rfl

/-! ## Reading tokens -/

/-- A digit or a minus sign starts a number. -/
theorem nextToken?_number {c : Char} (h : c.isDigit = true ∨ c = '-') (text : List Char) :
    nextToken? (c :: text) = readNumber? (c :: text) := by
  unfold nextToken?
  split
  case h_11 => rfl
  all_goals
    next heq =>
      cases heq
      simp at h

theorem nextToken?_quoted {written : List Char} (h : PartsText parts written) (rest : List Char) :
    nextToken? ('"' :: (written ++ ['"']) ++ rest) =
      some (.string ((decodeParts parts).map String.ofList), rest) := by
  have hread := readString_of_parts h [] rest
  rw [List.cons_append, List.append_assoc, List.singleton_append, nextToken?, hread]
  rfl

/-- A lexeme is read as its token. What follows a number must not go on with it. -/
theorem nextToken?_lexeme (h : Lexeme token written)
    (hrest : token.isNumber = true → EndsNumber rest) :
    nextToken? (written ++ rest) = some (token, rest) := by
  cases h with
  | word h =>
    cases token with
    | bool b => cases b <;> rfl
    | integer n => cases h
    | real => cases h
    | string s => cases h
    | _ => rfl
  | number h =>
    obtain ⟨c, cs, rfl, hc⟩ := h.head
    rw [List.cons_append, nextToken?_number hc, ← List.cons_append]
    exact readNumber?_written h (hrest h.isNumber)
  | string h hdenotes => rw [nextToken?_quoted h, (denotes_iff h).1 hdenotes, Option.map_some]
  | lone h hdenotes =>
    have hnone : decodeParts _ = none :=
      Option.eq_none_iff_forall_ne_some.2 fun text htext => hdenotes text ((denotes_iff h).2 htext)
    rw [nextToken?_quoted h, hnone, Option.map_none]

theorem lexeme_quoted (h : PartsText parts written) :
    Lexeme (.string ((decodeParts parts).map String.ofList)) ('"' :: (written ++ ['"'])) := by
  cases hdecode : decodeParts parts with
  | some text => exact .string h ((denotes_iff h).2 hdecode)
  | none =>
    refine .lone h fun text hdenotes => ?_
    cases hdecode.symm.trans ((denotes_iff h).1 hdenotes)

/-- A token is taken off the front of a text only where a lexeme of it stands. -/
theorem exists_lexeme_of_nextToken? (h : nextToken? text = some (token, rest)) :
    ∃ lexeme, Lexeme token lexeme ∧ text = lexeme ++ rest := by
  unfold nextToken? at h
  split at h
  case h_7 =>
    obtain ⟨⟨parts, rest'⟩, hread, heq⟩ := Option.map_eq_some_iff.1 h
    cases heq
    obtain ⟨read, written, rfl, hparts, rfl⟩ := exists_parts_of_readString hread
    refine ⟨_, lexeme_quoted hparts, ?_⟩
    rw [List.cons_append, List.append_assoc, List.singleton_append]
  case h_11 =>
    obtain ⟨written, hwritten, rfl⟩ := exists_written_of_readNumber? h
    exact ⟨written, .number hwritten, rfl⟩
  all_goals
    cases h
    exact ⟨_, .word rfl, rfl⟩

end DM2022.Json
