import DM2022.Instruction.Name
import DM2022.Proofs.Text.Numerals

/-!
# Names of opcodes, registers and predicates

Which words name an opcode, a register or a predicate. The case of ASCII letters does not matter in
any of them. Looking a name up succeeds for these words only.
-/
namespace DM2022

/-! ## Opcodes -/

/-- The mnemonic of an assigned opcode. -/
structure Opcode.Named (name : List Char) (op : Opcode) : Prop where
  mem : op ∈ assigned
  upper : Text.upper name = op.mnemonic.toList

theorem Opcode.find?_mnemonic {op : Opcode} (h : op ∈ assigned) :
    assigned.find? (fun other => other.mnemonic.toList == op.mnemonic.toList) = some op := by
  revert op
  decide

theorem Opcode.ofMnemonic?_eq_some_iff {name : List Char} {op : Opcode} :
    ofMnemonic? name = some op ↔ Named name op := by
  constructor
  · intro h
    have hname := List.find?_some h
    exact ⟨List.mem_of_find?_eq_some h, (eq_of_beq hname).symm⟩
  · intro h
    rw [ofMnemonic?, h.upper, find?_mnemonic h.mem]

/-! ## Registers -/

/-- `zero`, `pc`, or `r` and a decimal number up to 15 with any zeros before it. -/
inductive Register.Named (name : List Char) : Byte → Prop
  | zero (h : Text.lower name = "zero".toList) : Named name zero
  | pc (h : Text.lower name = "pc".toList) : Named name pc
  | numbered {digits : List Char} {n : Nat} (h : Text.lower name = 'r' :: digits)
      (hdigits : Text.Digits 10 digits n) (hn : n < 16) : Named name (.ofNat 8 n)

theorem Register.ofName?_eq_some_iff {name : List Char} {reg : Byte} :
    ofName? name = some reg ↔ Named name reg := by
  constructor
  · intro h
    unfold ofName? at h
    simp only at h
    split at h
    · next hzero =>
      cases h
      exact .zero hzero
    · split at h
      · next hpc =>
        cases h
        exact .pc hpc
      · split at h
        · next digits hname =>
          obtain ⟨n, hdigits, h⟩ := Option.bind_eq_some_iff.1 h
          obtain ⟨hn, h⟩ := Option.ite_none_right_eq_some.1 h
          cases h
          exact .numbered hname (Text.natural?_eq_some_iff.1 hdigits) hn
        · cases h
  · intro h
    unfold ofName?
    cases h with
    | zero h => simp only [h, if_true]
    | pc h =>
      have hzero : "pc".toList ≠ "zero".toList := by decide
      simp only [h, if_neg hzero, if_true]
    | @numbered digits n h hdigits hn =>
      have hzero : 'r' :: digits ≠ "zero".toList := by simp
      have hpc : 'r' :: digits ≠ "pc".toList := by simp
      have hnatural := Text.natural?_eq_some_iff.2 hdigits
      simp only [h, if_neg hzero, if_neg hpc, hnatural, Option.bind_some, if_pos hn]

theorem lookupRegister_ok_iff {name : List Char} {reg : Byte} :
    lookupRegister name = .ok reg ↔ Register.Named name reg := by
  rw [← Register.ofName?_eq_some_iff, lookupRegister]
  cases Register.ofName? name <;> simp

/-! ## Predicates -/

namespace Flags

/-- A word over the letters of flags, and the union of their flags. -/
inductive Lettered : List Char → Flags → Prop
  | nil : Lettered [] never
  | cons {flag others : Flags} {c : Char} {rest : List Char} (h : (flag, c) ∈ letters)
      (hrest : Lettered rest others) : Lettered (c :: rest) (flag.union others)

/-- `ALWAYS`, `NEVER`, or one or more letters in any order. -/
inductive Named (text : List Char) : Flags → Prop
  | always (h : Text.upper text = "ALWAYS".toList) : Named text always
  | never (h : Text.upper text = "NEVER".toList) : Named text never
  | letters {flags : Flags} (hne : text ≠ []) (h : Lettered (Text.upper text) flags) :
      Named text flags

variable {c : Char} {text : List Char} {flags : Flags}

theorem ofLetter?_eq_some_iff : ofLetter? c = some flags ↔ (flags, c) ∈ letters := by
  constructor
  · intro h
    obtain ⟨p, hp, rfl⟩ := Option.map_eq_some_iff.1 h
    have hletter := List.find?_some hp
    cases eq_of_beq hletter
    exact List.mem_of_find?_eq_some hp
  · have hall : ∀ p ∈ letters, ofLetter? p.2 = some p.1 := by decide
    exact fun h => hall _ h

theorem ofLetters?_eq_some_iff : ofLetters? text = some flags ↔ Lettered text flags := by
  constructor
  · intro h
    induction text generalizing flags with
    | nil =>
      cases h
      exact .nil
    | cons c rest ih =>
      obtain ⟨flag, hflag, h⟩ := Option.bind_eq_some_iff.1 h
      obtain ⟨others, hothers, rfl⟩ := Option.map_eq_some_iff.1 h
      exact .cons (ofLetter?_eq_some_iff.1 hflag) (ih hothers)
  · intro h
    induction h with
    | nil => rfl
    | cons hflag _ ih => rw [ofLetters?, ofLetter?_eq_some_iff.2 hflag, Option.bind_some, ih,
        Option.map_some]

/-- Neither name is a word over the letters, as no flag has the letter `A` or `N`. -/
theorem Lettered.ne_name (h : Lettered text flags) :
    text ≠ "ALWAYS".toList ∧ text ≠ "NEVER".toList := by
  have hall : ∀ p ∈ letters, p.2 ≠ 'A' ∧ p.2 ≠ 'N' := by decide
  cases h with
  | nil => exact ⟨by decide, by decide⟩
  | cons hflag _ =>
    obtain ⟨hA, hN⟩ := hall _ hflag
    exact ⟨fun h => hA (List.cons.inj h).1, fun h => hN (List.cons.inj h).1⟩

theorem ofText?_eq_some_iff : ofText? text = some flags ↔ Named text flags := by
  have hnil : Text.upper text = [] ↔ text = [] := List.map_eq_nil_iff
  have hnever : "NEVER".toList ≠ "ALWAYS".toList := by decide
  unfold ofText?
  simp only
  constructor
  · intro h
    split at h
    · next halways =>
      cases h
      exact .always halways
    · split at h
      · next hname =>
        cases h
        exact .never hname
      · split at h
        · cases h
        · next hne => exact .letters (mt hnil.2 hne) (ofLetters?_eq_some_iff.1 h)
  · intro h
    cases h with
    | always h => rw [h, if_pos rfl]
    | never h => rw [h, if_neg hnever, if_pos rfl]
    | letters hne h =>
      rw [if_neg h.ne_name.1, if_neg h.ne_name.2, if_neg (mt hnil.1 hne),
        ofLetters?_eq_some_iff.2 h]

end Flags
end DM2022
