import DM2022.Machine.Snapshot
import DM2022.Proofs.Json.Library

/-!
# Snapshots read back

The schemas of a machine and of its parts are lawful, so a library that keeps to its documentation
reads a machine back from the text that it wrote, whatever the machine holds.
-/
namespace DM2022

open Json

theorem Flags.lawful_schema : schema.Lawful := ⟨fun _ => rfl, trivial⟩

theorem Config.lawful_schema : schema.Lawful := by
  -- without a limit the field is `null`, not absent: it would be read as the default then
  refine ⟨fun _ => rfl, ?_, trivial, ?_, trivial, ?_, trivial, ?_, ⟨nofun, trivial⟩, trivial⟩
  all_goals decide

theorem Opcode.lawful_schema : schema.Lawful := by
  refine ⟨fun op => ?_, Schema.lawful_foldr_constant ⟨List.not_mem_nil, ?_, trivial, trivial⟩ ?_⟩
  · cases op <;> exact Option.some_ne_none _
  · intro code op hmatch
    cases op <;> cases hmatch
    rfl
  · decide

theorem Instruction.lawful_schema : schema.Lawful := by
  refine ⟨fun _ => rfl, ?_, Opcode.lawful_schema, ?_, Flags.lawful_schema, ?_, trivial, ?_,
    trivial, ?_, trivial, ?_, trivial, trivial⟩
  all_goals decide

theorem FaultKind.lawful_schema : schema.Lawful := by
  refine ⟨fun kind => ?_, ?_, ?_, ⟨?_, trivial, ?_, trivial, trivial⟩,
    Schema.lawful_constant _ ?_ ⟨?_, ?_, trivial, ?_, ?_, trivial, ?_, ?_, trivial,
      ?_, ?_, ⟨?_, trivial, trivial⟩, trivial⟩⟩
  · cases kind <;> exact Option.some_ne_none _
  all_goals first
    | decide
    | rintro content kind hmatch
      cases kind <;> cases hmatch
      rfl

theorem Fault.lawful_schema : schema.Lawful := by
  refine ⟨fun _ => rfl, ?_, trivial, ?_, FaultKind.lawful_schema, trivial⟩
  all_goals decide

theorem State.lawful_schema : schema.Lawful := by
  refine ⟨fun state => ?_, Schema.lawful_constant _ ?_ (Schema.lawful_constant _ ?_
    ⟨?_, ?_, Fault.lawful_schema, trivial⟩)⟩
  · cases state <;> exact Option.some_ne_none _
  all_goals first
    | decide
    | rintro content state hmatch
      cases state <;> cases hmatch
      rfl

theorem Registers.lawful_schema : schema.Lawful := by
  refine ⟨fun _ => rfl, ?_, trivial, ?_, Flags.lawful_schema, trivial⟩
  all_goals decide

theorem Memory.lawful_schema : schema.Lawful :=
  ⟨ofList_toList, List.not_mem_nil, trivial, trivial⟩

theorem Instruction.write_schema_ne_null (i : Instruction) : schema.write i ≠ Value.null := nofun

namespace Machine

theorem lawful_schema : schema.Lawful := by
  refine ⟨fun _ => rfl, ?_, Registers.lawful_schema, ?_, Memory.lawful_schema, ?_,
    State.lawful_schema, ?_, trivial, ?_, Config.lawful_schema, ?_, trivial, ?_,
    ⟨Instruction.write_schema_ne_null, Instruction.lawful_schema⟩, trivial⟩
  all_goals decide

/-- A library that keeps to its documentation reads a machine from the text that it wrote, and
then writes the same text again. -/
theorem read_written {l : Library} (h : l.Documented schema) (m : Machine) :
    l.read schema (l.write schema m).toList = .ok m ∧
      (l.read schema (l.write schema m).toList).map (l.write schema) =
        .ok (l.write schema m) := by
  obtain ⟨hread, -⟩ := h.read_write lawful_schema m
  refine ⟨hread, ?_⟩
  rw [hread]
  rfl

/-- A machine that has faulted at the end of its counter. What it printed has to be escaped. -/
def faulted : Machine where
  regs := ⟨.replicate 16 (-1), ⟨9⟩⟩
  mem := .ofList [7]
  state := .faulted ⟨-1, .addressOutOfRange 1 1⟩
  cycles := 0xffffffffffffffff
  config := ⟨1, 0, 0, none⟩
  output := "\"ü\\\n\x01"
  lastInstr := some ⟨.illegal 63, ⟨255⟩, 0, 0, 0, -1⟩

theorem read_written_faulted : ∃ text,
    text = "\x7b\"regs\":\x7b\"regs\":[-1,-1,-1,-1,-1,-1,-1,-1,-1,-1,-1,-1,-1,-1,-1,-1]," ++
      "\"flags\":9\x7d,\"mem\":\x7b\"cells\":[7]\x7d,\"state\":\x7b\"Faulted\":\x7b\"pc\":-1," ++
      "\"kind\":\x7b\"AddressOutOfRange\":\x7b\"addr\":1,\"size\":1\x7d\x7d\x7d\x7d," ++
      "\"cycles\":18446744073709551615,\"config\":\x7b\"memory_words\":1,\"load_base\":0," ++
      "\"entry\":0,\"max_cycles\":null\x7d,\"output\":\"\\\"ü\\\\\\n\\u0001\"," ++
      "\"last_instr\":\x7b\"op\":\x7b\"Illegal\":63\x7d,\"cond\":255,\"target\":0," ++
      "\"src1\":0,\"src2\":0,\"offset\":-1\x7d\x7d" ∧
    Library.standard.write schema faulted = text ∧
    Library.standard.read schema text.toList = .ok faulted := by
  obtain ⟨hread, -⟩ := read_written (Library.standard_documented schema) faulted
  exact ⟨_, by decide +kernel, rfl, hread⟩

end Machine
end DM2022
