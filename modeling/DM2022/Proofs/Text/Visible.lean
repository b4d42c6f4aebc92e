import DM2022.Text.Blank
import DM2022.Text.Line
import DM2022.Text.Numeral

/-!
# Visible text

Visible characters are neither blank nor a mark of the line syntax, which are the colon
after a label and the marks before a comment. Reading splits a line between visible texts,
and takes nothing away from them.
-/
namespace DM2022.Text

variable {text rest blanks : List Char}

/-- A printable ASCII character other than a blank, `#`, `:` and `;`. -/
def isVisible (c : Char) : Bool :=
  let n := c.toNat
  0x21 ≤ n && n ≤ 0x7e && n != 0x23 && n != 0x3a && n != 0x3b

/-- All characters are visible. -/
def Visible (text : List Char) : Prop := ∀ c ∈ text, isVisible c = true

instance (text : List Char) : Decidable (Visible text) :=
  decidable_of_iff (text.all isVisible = true) List.all_eq_true

/-! ## Characters -/

theorem isVisible_iff {c : Char} : isVisible c = true ↔
    0x21 ≤ c.toNat ∧ c.toNat ≤ 0x7e ∧ c.toNat ≠ 0x23 ∧ c.toNat ≠ 0x3a ∧ c.toNat ≠ 0x3b := by
  simp [isVisible, and_assoc]

theorem isBlank_of_isVisible {c : Char} (h : isVisible c = true) : isBlank c = false := by
  have hc := isVisible_iff.1 h
  simp only [isBlank, Bool.or_eq_false_iff, Bool.and_eq_false_iff, decide_eq_false_iff_not,
    beq_eq_false_iff_ne]
  omega

theorem ne_of_isVisible {c d : Char} (h : isVisible c = true) (hd : isVisible d = false) :
    c ≠ d := by
  intro h
  subst h
  rw [h] at hd
  cases hd

theorem isCommentMark_of_isVisible {c : Char} (h : isVisible c = true) :
    isCommentMark c = false := by
  have hash := ne_of_isVisible h (show isVisible '#' = false by decide)
  have hsemicolon := ne_of_isVisible h (show isVisible ';' = false by decide)
  simp [isCommentMark, hash, hsemicolon]

theorem isVisible_of_isDigit {c : Char} (h : c.isDigit = true) : isVisible c = true := by
  have hc : 48 ≤ c.toNat ∧ c.toNat ≤ 57 := Char.isDigit_iff_toNat.1 h
  rw [isVisible_iff]
  omega

theorem isVisible_of_isAlpha {c : Char} (h : c.isAlpha = true) : isVisible c = true := by
  have hc : 65 ≤ c.toNat ∧ c.toNat ≤ 90 ∨ 97 ≤ c.toNat ∧ c.toNat ≤ 122 := by
    rcases (Bool.or_eq_true ..).mp h with hupper | hlower
    · exact .inl (of_decide_eq_true hupper)
    · obtain ⟨hl, hu⟩ := (Bool.and_eq_true ..).mp hlower
      exact .inr ⟨of_decide_eq_true hl, of_decide_eq_true hu⟩
  rw [isVisible_iff]
  omega

/-! ## Texts -/

theorem visible_append {l l' : List Char} : Visible (l ++ l') ↔ Visible l ∧ Visible l' :=
  List.forall_mem_append

theorem visible_cons {c : Char} : Visible (c :: text) ↔ isVisible c = true ∧ Visible text :=
  List.forall_mem_cons

theorem notMem_of_visible {c : Char} (h : Visible text) (hc : isVisible c = false) :
    c ∉ text :=
  fun hm => ne_of_isVisible (h c hm) hc rfl

theorem visible_toDigits (n : Nat) : Visible (Nat.toDigits 10 n) :=
  fun _ hc => isVisible_of_isDigit (isDigit_of_mem_toDigits hc)

theorem mem_integerText {v : Int} {c : Char} (h : c ∈ (integerText v).toList) :
    c.isDigit = true ∨ c = '-' := by
  cases v with
  | ofNat n =>
    rw [integerText, toList_naturalText] at h
    exact .inl (isDigit_of_mem_toDigits h)
  | negSucc n =>
    rw [integerText, String.toList_append, toList_naturalText] at h
    rcases List.mem_cons.1 h with h | h
    · exact .inr h
    · exact .inl (isDigit_of_mem_toDigits h)

theorem visible_integerText (v : Int) : Visible (integerText v).toList := by
  intro c hc
  rcases mem_integerText hc with hc | rfl
  · exact isVisible_of_isDigit hc
  · decide

theorem integerText_ne_nil (v : Int) : (integerText v).toList ≠ [] := by
  cases v with
  | ofNat n =>
    rw [integerText, toList_naturalText]
    exact Nat.toDigits_ne_nil
  | negSucc n => simp [integerText]

theorem comma_notMem_integerText (v : Int) : ',' ∉ (integerText v).toList := by
  intro h
  rcases mem_integerText h with h | h
  · cases h
  · cases h

/-- Pieces are what was joined. -/
theorem pieces_intercalate {sep : Char} {pieces' : List (List Char)} (hne : pieces' ≠ [])
    (h : ∀ piece ∈ pieces', sep ∉ piece) : pieces sep ([sep].intercalate pieces') = pieces' := by
  induction pieces' with
  | nil => exact absurd rfl hne
  | cons piece others ih =>
    obtain ⟨hpiece, hothers⟩ := List.forall_mem_cons.1 h
    cases others with
    | nil => simpa using pieces_of_notMem hpiece
    | cons next others =>
      have hjoin : [sep].intercalate (piece :: next :: others) =
          piece ++ sep :: [sep].intercalate (next :: others) := by simp
      rw [hjoin, pieces_append _ hpiece, ih (List.cons_ne_nil _ _) hothers]

/-- The parts of a text that stand between its separators. -/
structure Separated (sep : Char) (text : List Char) (parts : List (List Char)) : Prop where
  ne_nil : parts ≠ []
  notMem : ∀ part ∈ parts, sep ∉ part
  join : [sep].intercalate parts = text

theorem Separated.nil {sep : Char} : Separated sep [] [[]] where
  ne_nil := List.cons_ne_nil _ _
  notMem := by simp
  join := by simp

theorem Separated.sep_cons {sep : Char} {parts : List (List Char)} (h : Separated sep text parts) :
    Separated sep (sep :: text) ([] :: parts) where
  ne_nil := List.cons_ne_nil _ _
  notMem := List.forall_mem_cons.2 ⟨List.not_mem_nil, h.notMem⟩
  join := by
    rw [List.intercalate_cons_of_ne_nil h.ne_nil, h.join]
    rfl

theorem Separated.cons {sep c : Char} {parts : List (List Char)} (h : Separated sep text parts)
    (hc : c ≠ sep) : Separated sep (c :: text) (consHead c parts) := by
  obtain ⟨hne, hparts, hjoin⟩ := h
  cases parts with
  | nil => exact absurd rfl hne
  | cons part others =>
    obtain ⟨hpart, hothers⟩ := List.forall_mem_cons.1 hparts
    refine ⟨List.cons_ne_nil _ _, List.forall_mem_cons.2 ⟨?_, hothers⟩, ?_⟩
    · exact List.not_mem_cons_of_ne_of_not_mem (Ne.symm hc) hpart
    · rw [← hjoin]
      cases others <;> simp [consHead]

theorem separated_pieces (sep : Char) (text : List Char) : Separated sep text (pieces sep text) := by
  induction text with
  | nil => exact .nil
  | cons c rest ih =>
    rw [pieces]
    split
    · next hc =>
      subst hc
      exact ih.sep_cons
    · next hc => exact ih.cons hc

theorem pieces_eq_iff {sep : Char} {parts : List (List Char)} :
    pieces sep text = parts ↔ Separated sep text parts := by
  constructor
  · intro h
    exact h ▸ separated_pieces sep text
  · intro h
    rw [← h.join, pieces_intercalate h.ne_nil h.notMem]

theorem visible_intercalate {sep : Char} {pieces' : List (List Char)} (hsep : isVisible sep = true)
    (h : ∀ piece ∈ pieces', Visible piece) : Visible ([sep].intercalate pieces') := by
  induction pieces' with
  | nil => simp [Visible]
  | cons piece others ih =>
    obtain ⟨hpiece, hothers⟩ := List.forall_mem_cons.1 h
    cases others with
    | nil => simpa using hpiece
    | cons next others =>
      have hjoin : [sep].intercalate (piece :: next :: others) =
          piece ++ sep :: [sep].intercalate (next :: others) := by simp
      rw [hjoin]
      exact visible_append.2 ⟨hpiece, visible_cons.2 ⟨hsep, ih hothers⟩⟩

/-! ## Trimming -/

theorem trim_blanks_append (h : ∀ c ∈ blanks, isBlank c = true) :
    trim (blanks ++ text) = trim text := by
  rw [trim, trim, trimLeft, trimLeft, List.dropWhile_append_of_pos h]

theorem trim_blank_cons {blank : Char} (h : isBlank blank = true) :
    trim (blank :: text) = trim text :=
  trim_blanks_append (List.forall_mem_singleton.2 h)

theorem trimRight_append_blanks (h : ∀ c ∈ blanks, isBlank c = true) :
    trimRight (text ++ blanks) = trimRight text := by
  have hreverse : ∀ c ∈ blanks.reverse, isBlank c = true :=
    fun c hc => h c (List.mem_reverse.1 hc)
  rw [trimRight, trimRight, List.reverse_append, List.dropWhile_append_of_pos hreverse]

theorem trim_append_blanks (h : ∀ c ∈ blanks, isBlank c = true) :
    trim (text ++ blanks) = trim text := by
  rw [trim, trim, trimLeft, trimLeft, List.dropWhile_append]
  split
  · next hempty =>
    have hblanks : blanks.dropWhile isBlank = [] := by
      rw [← List.append_nil blanks, List.dropWhile_append_of_pos h, List.dropWhile_nil]
    rw [List.isEmpty_iff.1 hempty, hblanks]
  · exact trimRight_append_blanks h

theorem dropWhile_isBlank {first : List Char} (h : ∀ c ∈ first, isBlank c = false)
    (hne : first ≠ []) : (first ++ rest).dropWhile isBlank = first ++ rest := by
  cases first with
  | nil => exact absurd rfl hne
  | cons c first => simp [h c List.mem_cons_self]

/-- Nothing is trimmed from a text that does not start or end with a blank. -/
theorem trim_between {first last : List Char} (hfirst : ∀ c ∈ first, isBlank c = false)
    (hlast : ∀ c ∈ last, isBlank c = false) (hf : first ≠ []) (hl : last ≠ [])
    (middle : List Char) : trim (first ++ middle ++ last) = first ++ middle ++ last := by
  have hleft : trimLeft (first ++ middle ++ last) = first ++ middle ++ last := by
    rw [trimLeft, List.append_assoc, dropWhile_isBlank hfirst hf]
  have hreverse : ∀ c ∈ last.reverse, isBlank c = false :=
    fun c hc => hlast c (List.mem_reverse.1 hc)
  have hl' : last.reverse ≠ [] := fun h => hl (List.reverse_eq_nil_iff.1 h)
  rw [trim, hleft, trimRight, List.reverse_append, dropWhile_isBlank hreverse hl',
    ← List.reverse_append, List.reverse_reverse]

theorem isBlank_of_visible (h : Visible text) : ∀ c ∈ text, isBlank c = false :=
  fun c hc => isBlank_of_isVisible (h c hc)

theorem trim_of_not_blank (h : ∀ c ∈ text, isBlank c = false) : trim text = text := by
  by_cases hne : text = []
  · rw [hne]
    rfl
  · have hleft : trimLeft text = text := by
      rw [trimLeft, ← List.append_nil text, dropWhile_isBlank h hne]
    have hreverse : ∀ c ∈ text.reverse, isBlank c = false :=
      fun c hc => h c (List.mem_reverse.1 hc)
    have hne' : text.reverse ≠ [] := fun h => hne (List.reverse_eq_nil_iff.1 h)
    rw [trim, hleft, trimRight, ← List.append_nil text.reverse, dropWhile_isBlank hreverse hne',
      List.append_nil, List.reverse_reverse]

theorem squeeze_of_not_blank (h : ∀ c ∈ text, isBlank c = false) : squeeze text = text := by
  rw [squeeze, List.filter_eq_self]
  intro c hc
  rw [h c hc]
  rfl

theorem trim_of_visible (h : Visible text) : trim text = text :=
  trim_of_not_blank (isBlank_of_visible h)

theorem squeeze_of_visible (h : Visible text) : squeeze text = text :=
  squeeze_of_not_blank (isBlank_of_visible h)

/-! ## Lines -/

/-- The text has no end of a line. -/
def Inline (text : List Char) : Prop := ∀ c ∈ text, c ≠ '\n' ∧ c ≠ '\r'

theorem inline_append {l l' : List Char} : Inline (l ++ l') ↔ Inline l ∧ Inline l' :=
  List.forall_mem_append

theorem inline_cons {c : Char} : Inline (c :: text) ↔ (c ≠ '\n' ∧ c ≠ '\r') ∧ Inline text :=
  List.forall_mem_cons

theorem inline_replicate {c : Char} (n : Nat) (h : c ≠ '\n' ∧ c ≠ '\r') :
    Inline (List.replicate n c) := by
  intro d hd
  rw [List.mem_replicate] at hd
  exact hd.2 ▸ h

theorem inline_of_visible (h : Visible text) : Inline text :=
  fun c hc => ⟨ne_of_isVisible (h c hc) rfl, ne_of_isVisible (h c hc) rfl⟩

/-- Lines with line feeds after them are read back. -/
theorem lines_flatMap {rows : List (List Char)} (h : ∀ row ∈ rows, Inline row) :
    lines (rows.flatMap (· ++ ['\n'])) = rows := by
  induction rows with
  | nil => rfl
  | cons row rows ih =>
    obtain ⟨hrow, hrows⟩ := List.forall_mem_cons.1 h
    rw [List.flatMap_cons, List.append_assoc, List.singleton_append, lines_append _ hrow,
      ih hrows]

/-! ## Columns -/

theorem toList_zeroPadded (width : Nat) (digits : List Char) :
    (zeroPadded width digits).toList = List.replicate (width - digits.length) '0' ++ digits := by
  rw [zeroPadded, String.toList_ofList, List.leftpad]

theorem toList_blankPadded (width : Nat) (text : String) : (blankPadded width text).toList =
    text.toList ++ List.replicate (width - text.toList.length) ' ' := by
  rw [blankPadded, String.toList_ofList, List.rightpad]

/-- Zeros before a number do not change it. -/
theorem natural?_zeroPadded (width n : Nat) :
    natural? (zeroPadded width (Nat.toDigits 10 n)).toList = some n := by
  rw [toList_zeroPadded, natural?, if_pos, Nat.ofDigitChars_append,
    Nat.ofDigitChars_replicate_zero, Nat.mul_zero, Nat.ofDigitChars_ten_toDigits]
  refine ⟨by simp [Nat.toDigits_ne_nil], List.all_eq_true.2 fun c hc => ?_⟩
  rcases List.mem_append.1 hc with hc | hc
  · rw [(List.mem_replicate.1 hc).2]
    rfl
  · exact isDigit_of_mem_toDigits hc

theorem visible_zeroPadded (width n : Nat) :
    Visible (zeroPadded width (Nat.toDigits 10 n)).toList := by
  rw [toList_zeroPadded]
  refine visible_append.2 ⟨fun c hc => ?_, visible_toDigits n⟩
  rw [(List.mem_replicate.1 hc).2]
  rfl

/-- The digits of a number in any base are those that the library has. -/
theorem exists_digitChar_of_mem_toDigits {b n : Nat} (hb : 1 < b) {c : Char}
    (h : c ∈ Nat.toDigits b n) : ∃ d : Nat, c = d.digitChar := by
  induction n using Nat.strongRecOn with
  | ind n ih =>
    rw [Nat.toDigits_eq_if hb] at h
    split at h
    · exact ⟨n, List.mem_singleton.1 h⟩
    · next hn =>
      rcases List.mem_append.1 h with h | h
      · exact ih (n / b) (Nat.div_lt_self (by omega) hb) h
      · exact ⟨n % b, List.mem_singleton.1 h⟩

theorem inline_hexadecimalText (n : Nat) : Inline (hexadecimalText n).toList := by
  have hdigits : Inline (Nat.toDigits 16 n) := by
    intro c hc
    obtain ⟨d, rfl⟩ := exists_digitChar_of_mem_toDigits (by decide) hc
    exact ⟨Nat.digitChar_ne _ rfl, Nat.digitChar_ne _ rfl⟩
  rw [hexadecimalText, String.toList_append, toList_zeroPadded]
  refine inline_append.2 ⟨by simp [Inline], inline_append.2 ⟨?_, hdigits⟩⟩
  exact inline_replicate _ (by decide)

/-! ## Comments -/

theorem unmarked_of_notMem (hash : '#' ∉ text) (hsemicolon : ';' ∉ text) :
    ∀ c ∈ text, isCommentMark c = false := by
  intro c hc
  have hash' : c ≠ '#' := fun heq => hash (heq ▸ hc)
  have hsemicolon' : c ≠ ';' := fun heq => hsemicolon (heq ▸ hc)
  simp [isCommentMark, hash', hsemicolon']

theorem dropComment_of_unmarked (h : ∀ c ∈ text, isCommentMark c = false) :
    dropComment text = text := by
  rw [← List.append_nil text, dropComment, List.takeWhile_append_of_pos, List.takeWhile_nil]
  intro c hc
  rw [h c hc]
  rfl

theorem dropComment_append {mark : Char} (h : ∀ c ∈ text, isCommentMark c = false)
    (hmark : isCommentMark mark = true) : dropComment (text ++ mark :: rest) = text := by
  rw [dropComment, List.takeWhile_append_of_pos, List.takeWhile_cons, hmark]
  · simp
  · intro c hc
    rw [h c hc]
    rfl

end DM2022.Text
