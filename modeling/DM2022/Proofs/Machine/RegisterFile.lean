import DM2022.Proofs.Machine.Calls
import DM2022.Proofs.Machine.Snapshot

/-!
# The register file

A register holds what was last put into it, under any of its numbers. The numbers count modulo
16, but only the number 0 itself is known for `r0`: the other multiples of 16 name a cell that
can be written and read, and that the snapshot does not show. As long as they are not written,
nothing is stored for `r0`.
-/
namespace DM2022.Registers

variable {r r' : Registers} {ops : List Operation}

/-- The file after these operations. -/
def operated (ops : List Operation) : Registers := ops.foldl operate initial

/-- The word that was last put into a cell, where the latest operation comes first. -/
def lastGiven (k : Nat) : List Operation → Word
  | [] => 0
  | .set reg value :: earlier =>
      if reg ≠ Register.zero ∧ reg.toNat % 16 = k then value else lastGiven k earlier
  | .jump address :: earlier => if k = 15 then address else lastGiven k earlier
  | .advance :: earlier =>
      if k = 15 then Word.sum (lastGiven k earlier) 1 else lastGiven k earlier
  | .reset :: _ => 0
  | .setFlags _ :: earlier => lastGiven k earlier

/-- The flags that were last assigned, where the latest operation comes first. -/
def lastFlags : List Operation → Flags
  | [] => .always
  | .set _ _ :: earlier => lastFlags earlier
  | .jump _ :: earlier => lastFlags earlier
  | .advance :: earlier => lastFlags earlier
  | .reset :: _ => .always
  | .setFlags flags :: _ => flags

/-- The operation writes no register whose number is a multiple of 16, unless that number
is 0. -/
def Operation.SparesZero : Operation → Prop
  | .set reg _ => reg.toNat % 16 = 0 → reg = Register.zero
  | _ => True

instance : DecidablePred Operation.SparesZero
  | .set reg _ => inferInstanceAs (Decidable (reg.toNat % 16 = 0 → reg = Register.zero))
  | .jump _ | .advance | .reset | .setFlags _ => .isTrue trivial

/-! ## One operation -/

theorem cells_jump_apply (r : Registers) (address : Word) {k : Nat} (hk : k < 16) :
    (r.jump address).cells[k] = if k = 15 then address else r.cells[k] := by
  simp only [jump, Vector.getElem_set, eq_comm]

/-- An operation leaves in a cell what was last put there. -/
theorem cells_operate {earlier : List Operation} (op : Operation) {k : Nat} (hk : k < 16)
    (h : ∀ (j : Nat) (hj : j < 16), r.cells[j] = lastGiven j earlier) :
    (r.operate op).cells[k] = lastGiven k (op :: earlier) := by
  cases op with
  | set reg value =>
    rw [operate, set, lastGiven]
    by_cases hreg : reg = Register.zero
    · simp only [hreg, if_pos, ne_eq, not_true, false_and, if_false, h]
    · simp only [hreg, if_false, ne_eq, not_false_iff, true_and, Vector.getElem_set, h]
  | jump address => rw [operate, lastGiven, cells_jump_apply, h]
  | advance =>
    rw [operate, advance, lastGiven, cells_jump_apply, next, pc, h, h]
    split
    next heq => rw [heq]
    next => rfl
  | reset => rw [operate, lastGiven, initial, Vector.getElem_replicate]
  | setFlags flags => rw [operate, lastGiven, h]

theorem flags_operate {earlier : List Operation} (op : Operation)
    (h : r.flags = lastFlags earlier) : (r.operate op).flags = lastFlags (op :: earlier) := by
  cases op with
  | set reg value => rw [operate, flags_set, lastFlags, h]
  | jump address => rw [operate, flags_jump, lastFlags, h]
  | advance => rw [operate, advance, flags_jump, lastFlags, h]
  | reset => rfl
  | setFlags flags => rfl

/-! ## All operations -/

theorem operated_append (ops : List Operation) (op : Operation) :
    operated (ops ++ [op]) = (operated ops).operate op :=
  List.foldl_append ..

/-- The induction is on the operations from the last one back. -/
theorem cells_operated (ops : List Operation) {k : Nat} (hk : k < 16) :
    (operated ops).cells[k] = lastGiven k ops.reverse := by
  induction ops using List.reverseRecOn generalizing k with
  | nil => exact Vector.getElem_replicate ..
  | append_singleton ops op ih =>
    rw [List.reverse_append, List.reverse_singleton, List.singleton_append]
    simp only [operated_append]
    exact cells_operate op hk fun _ hj => ih hj

theorem flags_operated (ops : List Operation) :
    (operated ops).flags = lastFlags ops.reverse := by
  induction ops using List.reverseRecOn with
  | nil => rfl
  | append_singleton ops op ih =>
    rw [List.reverse_append, List.reverse_singleton, List.singleton_append, operated_append]
    exact flags_operate op ih

theorem get_operated_of_ne (ops : List Operation) {reg : Byte} (h : reg ≠ Register.zero) :
    (operated ops).get reg = lastGiven (reg.toNat % 16) ops.reverse := by
  rw [get, if_neg h]
  exact cells_operated ops (Nat.mod_lt _ (by decide))

theorem lastGiven_zero_of_spares (h : ∀ op ∈ ops, op.SparesZero) : lastGiven 0 ops = 0 := by
  induction ops with
  | nil => rfl
  | cons op earlier ih =>
    obtain ⟨hop, hearlier⟩ := List.forall_mem_cons.1 h
    cases op with
    | set reg value =>
      rw [lastGiven, if_neg fun hwrites => hwrites.1 (hop hwrites.2), ih hearlier]
    | jump address => rw [lastGiven, if_neg (by decide), ih hearlier]
    | advance => rw [lastGiven, if_neg (by decide), ih hearlier]
    | reset => rfl
    | setFlags flags => rw [lastGiven, ih hearlier]

theorem getElem?_zero_operated (ops : List Operation) :
    (operated ops).cells[0]? = some (lastGiven 0 ops.reverse) := by
  rw [← cells_operated ops (Nat.succ_pos 15)]
  exact Vector.getElem?_eq_getElem _

theorem zero_operated (h : ∀ op ∈ ops, op.SparesZero) : (operated ops).cells[0]? = some 0 := by
  rw [getElem?_zero_operated, lastGiven_zero_of_spares]
  exact fun op hop => h op (List.mem_reverse.1 hop)

/-! ## What a file shows -/

theorem getElem_snapshot (r : Registers) {k : Nat} (hk : k < 16) (hne : k ≠ 0) :
    r.snapshot[k] = r.cells[k] :=
  Vector.getElem_set_ne _ hk hne.symm

/-- Two files are the same if they show the same and the same is stored for `r0`. -/
theorem eq_iff_shown (h : r.cells[0]? = r'.cells[0]?) :
    r = r' ↔ r.flags = r'.flags ∧ r.snapshot = r'.snapshot := by
  refine ⟨fun heq => heq ▸ ⟨rfl, rfl⟩, fun ⟨hflags, hsnapshot⟩ => ?_⟩
  have hcells : r.cells = r'.cells := by
    refine Vector.ext fun k hk => ?_
    by_cases hzero : k = 0
    · subst hzero
      rwa [Vector.getElem?_eq_getElem hk, Vector.getElem?_eq_getElem hk, Option.some.injEq] at h
    · rw [← r.getElem_snapshot hk hzero, hsnapshot, r'.getElem_snapshot hk hzero]
  cases r
  cases r'
  rw [Registers.mk.injEq]
  exact ⟨hcells, hflags⟩

/-- A library that keeps to its documentation writes different files differently. -/
theorem write_eq_iff {l : Json.Library} (hl : l.Documented schema) :
    l.write schema r = l.write schema r' ↔ r = r' := by
  refine ⟨fun h => ?_, fun h => by rw [h]⟩
  have hread := (hl.read_write lawful_schema r).1
  rw [h, (hl.read_write lawful_schema r').1, Except.ok.injEq] at hread
  exact hread.symm

/-- What a register file holds after any operations from the start. The flags are those last
assigned, `r0` itself reads as zero, and under every other number the word is read that was
last put there under a number that counts like it. The cell 0 is no exception: it can be
written and read under the multiples of 16 that are not 0. As long as none of these is written,
the cell 0 stays zero, `r0` reads as zero under all its numbers, and a file has nothing besides
its flags and what the snapshot shows, nor has its JSON form, whatever library writes it. -/
theorem operated_holds (ops : List Operation) :
    (operated ops).flags = lastFlags ops.reverse ∧
    (operated ops).get Register.zero = 0 ∧
    (∀ reg ≠ Register.zero,
      (operated ops).get reg = lastGiven (reg.toNat % 16) ops.reverse) ∧
    (operated ops).cells[0]? = some (lastGiven 0 ops.reverse) ∧
    ((∀ op ∈ ops, op.SparesZero) →
      (operated ops).cells[0]? = some 0 ∧
      (∀ reg : Byte, reg.toNat % 16 = 0 → (operated ops).get reg = 0) ∧
      ∀ others : List Operation, (∀ op ∈ others, op.SparesZero) →
        (operated ops = operated others ↔
          (operated ops).flags = (operated others).flags ∧
            (operated ops).snapshot = (operated others).snapshot) ∧
        ∀ l : Json.Library,
          ((operated ops).flags = (operated others).flags ∧
            (operated ops).snapshot = (operated others).snapshot →
              l.write schema (operated ops) = l.write schema (operated others)) ∧
          (l.Documented schema →
            (l.write schema (operated ops) = l.write schema (operated others) ↔
              (operated ops).flags = (operated others).flags ∧
                (operated ops).snapshot = (operated others).snapshot))) := by
  refine ⟨flags_operated ops, get_zero _, fun reg => get_operated_of_ne ops,
    getElem?_zero_operated ops, fun hspares => ?_⟩
  have hzero : (operated ops).cells[0]? = some 0 := zero_operated hspares
  refine ⟨hzero, fun reg hreg => ?_, fun others hothers => ?_⟩
  · by_cases hreg0 : reg = Register.zero
    · rw [hreg0, get_zero]
    · rw [getElem?_zero_operated, Option.some.injEq] at hzero
      rw [get_operated_of_ne ops hreg0, hreg, hzero]
  · have hshown := eq_iff_shown (hzero.trans (zero_operated hothers).symm)
    refine ⟨hshown, fun l => ⟨fun h => ?_, fun hl => (write_eq_iff hl).trans hshown⟩⟩
    rw [hshown.2 h]

/-- Of the writes under the numbers 3 and 19, both of which name `r3`, the last one is read
under both, and a write under the number 0 leaves no trace. -/
theorem operated_holds_aliases : ∃ ops others : List Operation,
    ops = [.set 3 7, .set 0 99, .set 19 8, .jump 4, .advance] ∧
    others = [.set 15 5, .set 3 8] ∧
    (operated ops).get 3 = 8 ∧ (operated ops).get 31 = 5 ∧ (operated ops).get 16 = 0 ∧
    operated ops = operated others ∧
    (∀ l : Json.Library, l.write schema (operated ops) = l.write schema (operated others)) := by
  refine ⟨[.set 3 7, .set 0 99, .set 19 8, .jump 4, .advance], [.set 15 5, .set 3 8], rfl, rfl,
    ?_⟩
  obtain ⟨-, -, hget, -, hspared⟩ :=
    operated_holds [.set 3 7, .set 0 99, .set 19 8, .jump 4, .advance]
  obtain ⟨-, hzero, hothers⟩ := hspared (by decide)
  obtain ⟨hshown, hwritten⟩ := hothers [.set 15 5, .set 3 8] (by decide)
  exact ⟨hget 3 (by decide), hget 31 (by decide), hzero 16 (by decide), hshown.2 ⟨rfl, rfl⟩,
    fun l => (hwritten l).1 ⟨rfl, rfl⟩⟩

/-- The number 16 names `r0` but is not the number 0: what is written there is stored and read
back, so that two files differ, and their JSON forms in any documented library, although their
flags and their snapshots are the same. -/
theorem not_zero_operated_sixteen :
    (operated [.set 16 99]).cells[0]? = some 99 ∧
    (operated [.set 16 99]).get 16 = 99 ∧
    (operated [.set 16 99]).flags = (operated []).flags ∧
    (operated [.set 16 99]).snapshot = (operated []).snapshot ∧
    operated [.set 16 99] ≠ operated [] ∧
    (∀ l : Json.Library, l.Documented schema →
      l.write schema (operated [.set 16 99]) ≠ l.write schema (operated [])) ∧
    ¬∀ ops, (operated ops).cells[0]? = some 0 := by
  have hcell : (operated [.set 16 99]).cells[0]? = some 99 := rfl
  have hne : operated [.set 16 99] ≠ operated [] := by decide
  refine ⟨hcell, rfl, rfl, rfl, hne, fun l hl => mt (write_eq_iff hl).1 hne, fun hzero => ?_⟩
  rw [hzero] at hcell
  exact absurd hcell (by decide)

end DM2022.Registers
