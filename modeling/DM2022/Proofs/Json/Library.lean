import DM2022.Json.Library
import DM2022.Proofs.Json.Reading
import DM2022.Proofs.Json.Schema

/-!
# Documented libraries

A library reads a value from every text that spells it, and writes a text that spells it. So it
reads what it has written.
-/
namespace DM2022.Json.Library

variable {α : Type} {s : Schema .type α}

/-- What the library documents about a declared type: which texts are read as which values, and
that each of its two forms of writing spells the value. -/
structure Documented (l : Library) (s : Schema .type α) : Prop where
  read_iff : ∀ text a, l.read s text = .ok a ↔
    ∃ v : Value, Spells v.tokens text ∧ s.Reads v a
  write : ∀ a, Spells (Value.tokens (s.write a)) (l.write s a).toList
  writeIndented : ∀ a, Spells (Value.tokens (s.write a)) (l.writeIndented s a).toList

theorem standard_documented (s : Schema .type α) : standard.Documented s where
  read_iff text a := by
    have hread : (read? text).bind s.read? = some a ↔
        ∃ v : Value, Spells v.tokens text ∧ s.Reads v a := by
      simp only [Option.bind_eq_some_iff, read?_eq_some_iff, Schema.read?_eq_some_iff]
    rw [← hread]
    simp only [standard]
    cases (read? text).bind s.read? with
    | none => simp
    | some b => simp
  write a := Value.spells_compact _
  writeIndented a := Value.spells_indented _

/-- Both forms of a value are read back, if its schema is lawful. -/
theorem Documented.read_write {l : Library} (h : l.Documented s) (hs : s.Lawful) (a : α) :
    l.read s (l.write s a).toList = .ok a ∧ l.read s (l.writeIndented s a).toList = .ok a :=
  ⟨(h.read_iff _ a).2 ⟨s.write a, h.write a, Schema.reads_write hs rfl⟩,
    (h.read_iff _ a).2 ⟨s.write a, h.writeIndented a, Schema.reads_write hs rfl⟩⟩

end DM2022.Json.Library
