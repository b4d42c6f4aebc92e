import DM2022.Proofs.Machine.Calls

/-!
# Resets

Whatever is done to a machine, it keeps its configuration and the number of its cells. So a
reset gives the machine that its configuration makes, and nothing that was done before shows
in what is done after it.
-/
namespace DM2022.Machine

/-- What can be done to a machine: a call, or an operation on its memory or its registers. -/
inductive Action where
  | call (c : Call)
  | onMemory (operation : Memory.Operation)
  | onRegisters (operation : Registers.Operation)

/-- The machine after an action. An operation that is refused leaves it as it is. -/
def act (m : Machine) : Action → Machine
  | .call c => m.call c
  | .onMemory operation => { m with mem := (m.mem.operate operation).toOption.getD m.mem }
  | .onRegisters operation => { m with regs := m.regs.operate operation }

/-- The action comes to an end. -/
def Finishes (m : Machine) : Action → Prop
  | .call c => m.Returns c
  | _ => True

variable {m : Machine} {c : Config}

theorem size_operate {m m' : Memory} {operation : Memory.Operation}
    (h : m.operate operation = .ok m') : m'.size = m.size := by
  cases operation with
  | write address value => exact Memory.size_write h
  | load base image => exact Memory.size_load h
  | clear =>
    cases h
    exact m.size_clear

namespace MadeFrom

theorem act (h : MadeFrom c m) {action : Action} (hfinishes : m.Finishes action) :
    MadeFrom c (m.act action) := by
  cases action with
  | call c => exact h.call hfinishes
  | onRegisters operation => exact ⟨h.config_eq, h.size_eq⟩
  | onMemory operation =>
    rw [Machine.act]
    cases hmem : m.mem.operate operation with
    | error e => exact h
    | ok mem => exact ⟨h.config_eq, (size_operate hmem).trans h.size_eq⟩

theorem reset_eq (h : MadeFrom c m) : m.reset = ofConfig c := by
  rw [reset, ofConfig, h.config_eq, Memory.clear, h.size_eq]

end MadeFrom

/-- After a reset a machine is as it was made, in all that it holds, whatever was done to it
before that came to an end. So an image that is then loaded runs as on a new machine. -/
theorem reset_eq_ofConfig (c : Config) {actions : List Action}
    (hends : Throughout Finishes act (ofConfig c) actions) :
    (actions.foldl act (ofConfig c)).reset = ofConfig c ∧
    ∀ image drives,
      ((actions.foldl act (ofConfig c)).reset.load image).map (·.driveAll drives) =
        ((ofConfig c).load image).map (·.driveAll drives) := by
  have hmade : MadeFrom c (actions.foldl act (ofConfig c)) :=
    hends.keeps (fun hfinishes hmade => hmade.act hfinishes) (MadeFrom.made c)
  have hreset : (actions.foldl act (ofConfig c)).reset = ofConfig c := hmade.reset_eq
  refine ⟨hreset, fun image drives => ?_⟩
  rw [hreset]

/-- A machine that has taken an image and a step, and was written to. -/
theorem reset_eq_ofConfig_written : ∃ actions : List Action,
    actions = [.call (.load [0x0fc40005, 0x03c00000]), .call (.drive .step),
      .onRegisters (.set 5 9), .onMemory (.write 3 7)] ∧
    (actions.foldl act (ofConfig .default)).regs.get 1 = 5 ∧
    (actions.foldl act (ofConfig .default)).mem.read 3 = .ok 7 ∧
    (actions.foldl act (ofConfig .default)).reset = ofConfig .default := by
  have hends : Throughout Finishes act (ofConfig .default)
      [.call (.load [0x0fc40005, 0x03c00000]), .call (.drive .step), .onRegisters (.set 5 9),
        .onMemory (.write 3 7)] := ⟨trivial, trivial, trivial, trivial, trivial⟩
  exact ⟨_, rfl, rfl, rfl, (reset_eq_ofConfig .default hends).1⟩

end DM2022.Machine
