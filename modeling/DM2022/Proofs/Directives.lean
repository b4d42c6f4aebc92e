import Mathlib.Data.List.Forall2
import DM2022.Proofs.Assembly.Grammar
import DM2022.Proofs.Assembly.Layout

/-!
# Lines with directives

A line with `DATA` is read if its operands are literals that words can hold, and a line with
`RESERVE` if its operand is a literal that counts words. If they are not, the first item from the
left that is wrong tells the error.
-/
namespace DM2022.Assembly

variable {line code word operands item : List Char} {label : Option String} {number : Nat}
variable {body : Body} {problem : Problem} {cause : Malformation} {low high v : Int}

/-! ## Numbers -/

/-- The item is a literal of which the number is in the range of the word. -/
def Value (item : List Char) (value : Word) : Prop :=
  ∃ v, Text.Literal item v ∧ Word.OfNumber v value

/-- Why the text is no number from `low` to `high`: the number of the literal lies outside, or there
is no literal with a magnitude of at most 63 bits. -/
inductive Refused (text : List Char) (low high : Int) (cause : Malformation) : Problem → Prop
  | range {v : Int} (h : Text.Literal text v) (hle : v.natAbs ≤ 0x7fffffffffffffff)
      (hrange : ¬(low ≤ v ∧ v ≤ high)) : Refused text low high cause (.valueOutOfRange v)
  | literal (h : ∀ v, Text.Literal text v → 0x7fffffffffffffff < v.natAbs) :
      Refused text low high cause (.malformed cause)

theorem literal?_eq_none_iff : Text.literal? item = none ↔
    ∀ v, Text.Literal item v → 0x7fffffffffffffff < v.natAbs := by
  simp only [Option.eq_none_iff_forall_ne_some, ne_eq, Text.literal?_eq_some_iff, not_and,
    Nat.not_le]

theorem refused_of_none (h : Text.literal? item = none) :
    Refused item low high cause problem ↔ problem = .malformed cause := by
  constructor
  · intro hrefused
    cases hrefused with
    | range hliteral hle => cases h.symm.trans (Text.literal?_eq_some_iff.2 ⟨hliteral, hle⟩)
    | literal => rfl
  · rintro rfl
    exact .literal (literal?_eq_none_iff.1 h)

theorem refused_of_some (h : Text.literal? item = some v) :
    Refused item low high cause problem ↔
      ¬(low ≤ v ∧ v ≤ high) ∧ problem = .valueOutOfRange v := by
  obtain ⟨hliteral, hle⟩ := Text.literal?_eq_some_iff.1 h
  constructor
  · intro hrefused
    cases hrefused with
    | range hliteral' hle' hrange =>
      cases h.symm.trans (Text.literal?_eq_some_iff.2 ⟨hliteral', hle'⟩)
      exact ⟨hrange, rfl⟩
    | literal hlong => exact absurd (hlong v hliteral) (by omega)
  · rintro ⟨hrange, rfl⟩
    exact .range hliteral hle hrange

/-- Reads a literal of which the number is that of a word. -/
def readLiteral (cause : Malformation) (word? : Int → Option Word) (text : List Char) :
    Except Problem Word :=
  match Text.literal? text with
  | none => .error (.malformed cause)
  | some v => match word? v with
    | none => .error (.valueOutOfRange v)
    | some word => .ok word

theorem readLiteral_ok_iff {word? : Int → Option Word} {value : Word} :
    readLiteral cause word? item = .ok value ↔
      ∃ v, Text.literal? item = some v ∧ word? v = some value := by
  rw [readLiteral]
  cases Text.literal? item with
  | none => simp
  | some v => cases hword : word? v <;> simp [hword]

theorem readLiteral_error_iff {word? : Int → Option Word}
    (hrange : ∀ v, word? v = none ↔ ¬(low ≤ v ∧ v ≤ high)) :
    readLiteral cause word? item = .error problem ↔ Refused item low high cause problem := by
  rw [readLiteral]
  cases hread : Text.literal? item with
  | none => simp [refused_of_none hread, eq_comm]
  | some v =>
    rw [refused_of_some hread, ← hrange]
    cases hword : word? v with
    | none => simp [hword, eq_comm]
    | some value => simp [hword]

theorem value_iff {value : Word} :
    Value item value ↔ ∃ v, Text.literal? item = some v ∧ eitherWord? v = some value := by
  simp only [Text.literal?_eq_some_iff, eitherWord?_eq_some_iff]
  constructor
  · rintro ⟨v, hliteral, hvalue⟩
    have hl := hvalue.ge
    have hu := hvalue.le
    exact ⟨v, ⟨hliteral, by omega⟩, hvalue⟩
  · rintro ⟨v, ⟨hliteral, -⟩, hvalue⟩
    exact ⟨v, hliteral, hvalue⟩

theorem readValue_eq (item : List Char) :
    readValue item = readLiteral (.badValue (String.ofList item)) eitherWord? item := rfl

theorem readValue_ok_iff {value : Word} : readValue item = .ok value ↔ Value item value := by
  rw [value_iff, readValue_eq, readLiteral_ok_iff]

theorem readValue_error_iff : readValue item = .error problem ↔
    Refused item (-0x80000000) 0xffffffff (.badValue (String.ofList item)) problem := by
  rw [readValue_eq, readLiteral_error_iff fun _ => eitherWord?_eq_none_iff]

/-! ## Data -/

/-- The items between the commas, without the blanks around them. -/
def items (operands : List Char) : List (List Char) := (Text.pieces ',' operands).map Text.trim

/-- Why there are no data: there is no item at all, or the first one that is no value is refused. -/
inductive DataProblem (operands : List Char) : Problem → Prop
  | none (h : operands = []) : DataProblem operands (.malformed .noData)
  | item {before after : List (List Char)} {item : List Char} {problem : Problem}
      (hne : operands ≠ []) (hitems : items operands = before ++ item :: after)
      (hbefore : ∀ i ∈ before, ∃ value, Value i value)
      (hitem : Refused item (-0x80000000) 0xffffffff (.badValue (String.ofList item)) problem) :
      DataProblem operands problem

theorem exists_forall₂_iff {α β : Type} {R : α → β → Prop} {l : List α} :
    (∃ l', List.Forall₂ R l l') ↔ ∀ a ∈ l, ∃ b, R a b := by
  induction l with
  | nil => simp
  | cons a l ih =>
    rw [List.forall_mem_cons, ← ih]
    simp only [List.forall₂_cons_left_iff]
    constructor
    · rintro ⟨_, b, rest, hb, hrest, rfl⟩
      exact ⟨⟨b, hb⟩, rest, hrest⟩
    · rintro ⟨⟨b, hb⟩, rest, hrest⟩
      exact ⟨_, b, rest, hb, hrest, rfl⟩

theorem map_readValue_iff {l : List (List Char)} {values : List Word} :
    l.map readValue = values.map .ok ↔ List.Forall₂ Value l values := by
  rw [← List.forall₂_eq_eq_eq, List.forall₂_map_left_iff, List.forall₂_map_right_iff]
  simp only [readValue_ok_iff]

theorem readData_ok_forall₂_iff : readData operands = .ok body ↔
    operands ≠ [] ∧ ∃ values, List.Forall₂ Value (items operands) values ∧ body = .data values := by
  rw [readData_ok_iff]
  simp only [map_readValue_iff, items]

theorem readData_error_iff : readData operands = .error problem ↔ DataProblem operands problem := by
  rw [readData]
  constructor
  · intro h
    split at h
    · next hnil =>
      cases h
      exact .none hnil
    · next hne =>
      rcases bind_error_iff.1 h with hitems | ⟨_, _, h⟩
      · obtain ⟨before, item, after, heq, hitem, hbefore⟩ := mapM_error_iff.1 hitems
        simp only [readValue_ok_iff] at hbefore
        exact .item hne heq hbefore (readValue_error_iff.1 hitem)
      · cases h
  · intro h
    cases h with
    | none h => rw [if_pos h]
    | @item before after item _ hne hitems hbefore hitem =>
      simp only [← readValue_ok_iff] at hbefore
      rw [if_neg hne]
      exact bind_error_iff.2
        (.inl (mapM_error_iff.2 ⟨before, item, after, hitems, readValue_error_iff.2 hitem, hbefore⟩))

/-! ## Reserved words -/

theorem readReserve_ok_iff : readReserve operands = .ok body ↔
    ∃ count : Nat, Text.Literal operands count ∧ count ≤ 0x7fffffff ∧ body = .reserve count := by
  rw [readReserve]
  constructor
  · intro h
    split at h
    · cases h
    · next v hv =>
      split at h
      · next hrange =>
        cases h
        obtain ⟨count, rfl⟩ := Int.eq_ofNat_of_zero_le hrange.1
        have hlimit : (count : Int) ≤ 0x7fffffff := hrange.2
        exact ⟨count, (Text.literal?_eq_some_iff.1 hv).1, by omega, by rw [Int.toNat_natCast]⟩
      · cases h
  · rintro ⟨count, hliteral, hle, rfl⟩
    have hread : Text.literal? operands = some (count : Int) :=
      Text.literal?_eq_some_iff.2 ⟨hliteral, by omega⟩
    have hlimit : (count : Int) ≤ addressLimit := by
      rw [addressLimit]
      omega
    simp only [hread]
    rw [if_pos ⟨by omega, hlimit⟩, Int.toNat_natCast]

theorem readReserve_error_iff : readReserve operands = .error problem ↔
    Refused operands 0 0x7fffffff (.badCount (String.ofList operands)) problem := by
  rw [readReserve]
  cases hread : Text.literal? operands with
  | none => simp [refused_of_none hread, eq_comm]
  | some v =>
    have hlimit : v ≤ addressLimit ↔ v ≤ 0x7fffffff := Iff.rfl
    rw [refused_of_some hread]
    simp only [hlimit]
    split
    · next h => simp [h.1, h.2]
    · next h =>
      rw [and_iff_right h]
      simp [eq_comm]

/-! ## Lines -/

/-- A word that is a directive in capitals has no predicate. -/
theorem splitPredicate_of_upper {directive : String} (h : Text.upper word = directive.toList)
    (hslash : '/' ∉ directive.toList) : splitPredicate word = (word, none) := by
  have hword : '/' ∉ word := by
    intro hmem
    have hupper : '/' ∈ Text.upper word := List.mem_map_of_mem (f := Char.toUpper) hmem
    exact hslash (h ▸ hupper)
  rw [splitPredicate, Text.cut?_eq_none_iff.2 hword]

theorem readBody_of_data (hword : FirstWord code word operands)
    (h : Text.upper word = "DATA".toList) : readBody code = readData operands := by
  rw [readBody, splitWord_eq_iff.2 hword]
  simp only [splitPredicate_of_upper h (by decide)]
  rw [if_pos h]
  rfl

theorem readBody_of_reserve (hword : FirstWord code word operands)
    (h : Text.upper word = "RESERVE".toList) : readBody code = readReserve operands := by
  have hdata : "RESERVE".toList ≠ "DATA".toList := by decide
  rw [readBody, splitWord_eq_iff.2 hword]
  simp only [splitPredicate_of_upper h (by decide)]
  rw [h, if_neg hdata, if_pos rfl]
  rfl

/-- The words of the statement make an image of their own, and wherever the statement stands in an
image they are there. -/
structure Statement.Contributes (s : Statement) (values : List Word) : Prop where
  alone : values.length ≤ addressLimit → encodeStatements [s] = .ok values
  placed : ∀ before after words, encodeStatements (before ++ s :: after) = .ok words →
    (words.drop (imageLength before)).take values.length = values

theorem Statement.contributes_words {s : Statement} (h : s.encodingError? = none) : s.Contributes s.words where
  alone := by
    intro hlength
    have hfits : Fits 0 [s] := by
      have hsize := s.size_le_length
      rw [s.length_words] at hlength
      exact .inr (by rw [imageSize, imageSize]; omega)
    have hwords : imageOf [s] = s.words := List.append_nil _
    rw [encodeStatements_ok_iff, encodingErrors_of_fits hfits, hwords,
      List.filterMap_cons_none h]
    exact ⟨rfl, rfl⟩
  placed := by
    intro before after words h
    obtain ⟨-, rfl⟩ := encodeStatements_ok_iff.1 h
    have hplace : (before ++ s :: after)[before.length]? = some s := by simp
    have hslice := slice_imageOf hplace
    rwa [List.take_left, ← s.length_words] at hslice

theorem ne_nil_of_upper {directive : String} (hword : FirstWord code word operands)
    (h : Text.upper word = directive.toList) (hne : directive.toList ≠ []) : code ≠ [] := by
  refine hword.ne_nil ?_
  rintro rfl
  exact hne h.symm

theorem read_data_ok_iff (h : Headed (lineCode line) label code)
    (hword : FirstWord code word operands) (hdata : Text.upper word = "DATA".toList)
    {s : Statement} : Statement.read line number = .ok s ↔ operands ≠ [] ∧ ∃ values,
      List.Forall₂ Value (items operands) values ∧ s = ⟨number, label, .data values⟩ := by
  rw [Statement.read_headed_ok_iff h (ne_nil_of_upper hword hdata (by decide)),
    readBody_of_data hword hdata]
  simp only [readData_ok_forall₂_iff]
  constructor
  · rintro ⟨_, ⟨hne, values, hvalues, rfl⟩, rfl⟩
    exact ⟨hne, values, hvalues, rfl⟩
  · rintro ⟨hne, values, hvalues, rfl⟩
    exact ⟨_, ⟨hne, values, hvalues, rfl⟩, rfl⟩

theorem read_data_error_iff (h : Headed (lineCode line) label code)
    (hword : FirstWord code word operands) (hdata : Text.upper word = "DATA".toList)
    {e : AssemblyError} : Statement.read line number = .error e ↔
      e.line = number ∧ DataProblem operands e.problem := by
  rw [Statement.read_headed_error_iff h (ne_nil_of_upper hword hdata (by decide)),
    readBody_of_data hword hdata, readData_error_iff]

theorem read_reserve_ok_iff (h : Headed (lineCode line) label code)
    (hword : FirstWord code word operands) (hreserve : Text.upper word = "RESERVE".toList)
    {s : Statement} : Statement.read line number = .ok s ↔ ∃ count : Nat,
      Text.Literal operands count ∧ count ≤ 0x7fffffff ∧
        s = ⟨number, label, .reserve count⟩ := by
  rw [Statement.read_headed_ok_iff h (ne_nil_of_upper hword hreserve (by decide)),
    readBody_of_reserve hword hreserve]
  simp only [readReserve_ok_iff]
  constructor
  · rintro ⟨_, ⟨count, hliteral, hle, rfl⟩, rfl⟩
    exact ⟨count, hliteral, hle, rfl⟩
  · rintro ⟨count, hliteral, hle, rfl⟩
    exact ⟨_, ⟨count, hliteral, hle, rfl⟩, rfl⟩

theorem read_reserve_error_iff (h : Headed (lineCode line) label code)
    (hword : FirstWord code word operands) (hreserve : Text.upper word = "RESERVE".toList)
    {e : AssemblyError} : Statement.read line number = .error e ↔ e.line = number ∧
      Refused operands 0 0x7fffffff (.badCount (String.ofList operands)) e.problem := by
  rw [Statement.read_headed_error_iff h (ne_nil_of_upper hword hreserve (by decide)),
    readBody_of_reserve hword hreserve, readReserve_error_iff]

/-- A line with `DATA` is read if it has operands and each of them, between the commas and without
the blanks around it, is a literal from `-2 ^ 31` to `2 ^ 32 - 1`. The statement holds the words of
these numbers, which are also in the image. Otherwise the first item from the left that is no such
literal tells the error. A line with `RESERVE` is read if its operand is a literal from `0` to
`2 ^ 31 - 1`, and it reserves that many words. Magnitudes are signed numbers of 64 bits, and so are
their negations. -/
theorem Statement.read_directive (h : Headed (lineCode line) label code)
    (hword : FirstWord code word operands) (number : Nat) :
    (Text.upper word = "DATA".toList →
      ((∃ s, Statement.read line number = .ok s) ↔
        operands ≠ [] ∧ ∀ item ∈ items operands, ∃ value, Value item value) ∧
      (∀ s, Statement.read line number = .ok s → ∃ values, s = ⟨number, label, .data values⟩ ∧
        List.Forall₂ Value (items operands) values ∧ s.Contributes values) ∧
      ∀ e, Statement.read line number = .error e ↔
        e.line = number ∧ DataProblem operands e.problem) ∧
    (Text.upper word = "RESERVE".toList →
      (∀ s, Statement.read line number = .ok s ↔ ∃ count : Nat, Text.Literal operands count ∧
        count ≤ 0x7fffffff ∧ s = ⟨number, label, .reserve count⟩) ∧
      (∀ count : Nat, (⟨number, label, .reserve count⟩ : Statement).Contributes
        (List.replicate count 0)) ∧
      ∀ e, Statement.read line number = .error e ↔ e.line = number ∧
        Refused operands 0 0x7fffffff (.badCount (String.ofList operands)) e.problem) ∧
    ∀ text v, Text.literal? text = some v → ∃ n : Nat, Text.Magnitude (Text.splitSign text).2 n ∧
      v = Text.applySign (Text.splitSign text).1 n ∧
      (BitVec.ofInt 64 n).toInt = n ∧ (-BitVec.ofInt 64 n).toInt = -n := by
  refine ⟨fun hdata => ⟨?_, ?_, fun e => read_data_error_iff h hword hdata⟩, fun hreserve =>
    ⟨fun s => read_reserve_ok_iff h hword hreserve, fun count => ?_,
      fun e => read_reserve_error_iff h hword hreserve⟩,
    fun text v => Text.exists_magnitude_of_literal?⟩
  · simp only [read_data_ok_iff h hword hdata, ← exists_forall₂_iff]
    constructor
    · rintro ⟨s, hne, values, hvalues, -⟩
      exact ⟨hne, values, hvalues⟩
    · rintro ⟨hne, values, hvalues⟩
      exact ⟨_, hne, values, hvalues, rfl⟩
  · intro s hs
    obtain ⟨-, values, hvalues, rfl⟩ := (read_data_ok_iff h hword hdata).1 hs
    exact ⟨values, rfl, hvalues, Statement.contributes_words rfl⟩
  · exact Statement.contributes_words rfl

/-- The same word without and with a sign, a count in hexadecimal, and data of which the second
item is out of range and the third no literal. -/
theorem Statement.read_directive_spellings :
    (∃ values, (⟨1, some "x", .data [0xffffffff, 0xffffffff]⟩ : Statement) =
      ⟨1, some "x", .data values⟩ ∧
        List.Forall₂ Value (items "0xFFFFFFFF, -1".toList) values) ∧
    (∃ count : Nat, Text.Literal "+0X10".toList count ∧ count ≤ 0x7fffffff ∧
      (⟨2, none, .reserve 16⟩ : Statement) = ⟨2, none, .reserve count⟩) ∧
    DataProblem "7,4294967296,x".toList (.valueOutOfRange 4294967296) := by
  have hones : Headed (lineCode "x: data 0xFFFFFFFF, -1 ; ones".toList) (some "x")
      "data 0xFFFFFFFF, -1".toList := splitLabel_ok_iff.1 rfl
  have hcount : Headed (lineCode "reserve +0X10".toList) none "reserve +0X10".toList :=
    splitLabel_ok_iff.1 rfl
  have hlarge : Headed (lineCode "DATA 7,4294967296,x".toList) none "DATA 7,4294967296,x".toList :=
    splitLabel_ok_iff.1 rfl
  obtain ⟨-, hdata, -⟩ := (Statement.read_directive hones (splitWord_eq_iff.1 rfl) 1).1 rfl
  obtain ⟨hreserve, -⟩ := (Statement.read_directive hcount (splitWord_eq_iff.1 rfl) 2).2.1 rfl
  obtain ⟨-, -, herror⟩ := (Statement.read_directive hlarge (splitWord_eq_iff.1 rfl) 3).1 rfl
  obtain ⟨values, heq, hvalues, -⟩ := hdata ⟨1, some "x", .data [0xffffffff, 0xffffffff]⟩ rfl
  exact ⟨⟨values, heq, hvalues⟩, (hreserve ⟨2, none, .reserve 16⟩).1 rfl,
    ((herror ⟨3, .valueOutOfRange 4294967296⟩).1 rfl).2⟩

end DM2022.Assembly
