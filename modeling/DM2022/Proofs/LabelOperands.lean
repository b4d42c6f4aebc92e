import DM2022.Proofs.Assembly.Program
import DM2022.Proofs.Machine.Completion

/-!
# Label operands at run time

An operand that names a label stands for the address of the label when its instruction is
executed: the target of a jump, the cell of a load or a store, the right operand of
arithmetic. It does not matter whether the reference is relative or absolute, where the
label is defined, or where the program is loaded.
-/
namespace DM2022

open Assembly

namespace Machine

variable {m : Machine}

theorem reading_base_add {address : Nat} (h : m.regs.pc = .ofNat 32 address)
    (mode : Addressing) (target : Nat) :
    m.reading mode.base + .ofInt 32 (mode.offset target address) = .ofNat 32 target := by
  cases mode with
  | absolute =>
    have hbase : m.reading Addressing.absolute.base = 0 := m.reading_zero
    rw [hbase, BitVec.ofNat_eq_ofNat, BitVec.zero_add]
    exact BitVec.ofInt_natCast 32 target
  | relative =>
    have hbase : m.reading Addressing.relative.base = .ofInt 32 (address + 1 : Nat) := by
      rw [Addressing.base, reading, if_neg (by decide), if_pos rfl, h, BitVec.ofInt_natCast]
      exact (BitVec.ofNat_add address 1).symm
    have hsum : ((address + 1 : Nat) : Int) + ((target : Int) - (address + 1)) = target := by
      omega
    rw [hbase, Addressing.offset, ← BitVec.ofInt_add, hsum, BitVec.ofInt_natCast]

/-- An instruction has given `value` to its target register and gone on. For the program counter
that is a jump, and `r0` takes no value. -/
structure Gives (m : Machine) (target : Byte) (value : Word) (next : Machine) : Prop where
  target_eq : target ≠ Register.zero → next.regs.get target = value
  pc_eq : next.regs.pc = if target = Register.pc then value else m.regs.pc + 1
  cells_kept : ∀ k < 15, (target.toNat = k → k = 0) → next.regs.cells[k]? = m.regs.cells[k]?

/-- What a step does with an instruction whose last operand has the value `target`. A load takes
the word of the cell with this address, and a store writes this cell and no other. Arithmetic
computes with zero and `target`. All that is not named is kept. -/
structure StepsWith (m : Machine) (i : Instruction) (target : Nat) : Prop where
  load : i.op = .load → target < m.mem.size → ∃ next, m.step = (.ok i, next) ∧
    next = { m with regs := next.regs, cycles := m.cycles + 1, lastInstr := some i } ∧
    next.regs.flags = m.regs.flags ∧ m.Gives i.target (m.mem.cell target) next
  store : i.op = .store → target < m.mem.size → ∃ next, m.step = (.ok i, next) ∧
    next = { m with
      regs := m.regs.jump (m.regs.pc + 1)
      mem := next.mem
      cycles := m.cycles + 1
      lastInstr := some i } ∧
    next.mem.size = m.mem.size ∧ next.mem.cell target = m.reading i.target ∧
    ∀ j, j ≠ target → next.mem.cell j = m.mem.cell j
  /-- Past the last cell both only store a fault for this address. -/
  outside : i.op = .load ∨ i.op = .store → m.mem.size ≤ target → ∃ fault,
    fault = ⟨m.regs.pc, .addressOutOfRange (.ofNat 32 target) (.ofNat 64 m.mem.size)⟩ ∧
      m.step = (.error (.fault fault), { m with state := .faulted fault })
  compare : i.op = .cmp → ∃ value flags, AluOp.sub.exec 0 (.ofNat 32 target) = .ok (value, flags) ∧
    m.step = (.ok i, { m with
      regs := ({ m.regs with flags }).jump (m.regs.pc + 1)
      cycles := m.cycles + 1
      lastInstr := some i })
  compute : ∀ alu, i.op.aluOp? = some alu → i.op ≠ .cmp → ∀ value flags,
    alu.exec 0 (.ofNat 32 target) = .ok (value, flags) → ∃ next, m.step = (.ok i, next) ∧
      next = { m with regs := next.regs, cycles := m.cycles + 1, lastInstr := some i } ∧
      next.regs.flags = flags ∧ m.Gives i.target value next
  /-- Arithmetic that fails only stores its fault. -/
  fails : ∀ alu, i.op.aluOp? = some alu → ∀ kind, alu.exec 0 (.ofNat 32 target) = .error kind →
    m.step = (.error (.fault ⟨m.regs.pc, kind⟩), { m with state := .faulted ⟨m.regs.pc, kind⟩ })

def delivered (m : Machine) (i : Instruction) (value next : Word) : Machine :=
  ((m.writeTarget i.target value next).2.goTo (m.writeTarget i.target value next).1).complete i

theorem delivered_eq (m : Machine) (i : Instruction) (value next : Word) :
    m.delivered i value next =
      { m with
        regs := (m.delivered i value next).regs
        cycles := m.cycles + 1
        lastInstr := some i } := by
  rw [delivered, writeTarget_keeps]
  rfl

theorem flags_delivered (m : Machine) (i : Instruction) (value next : Word) :
    (m.delivered i value next).regs.flags = m.regs.flags :=
  m.flags_writeTarget i.target value next

/-- The flags do not matter for what a register receives. -/
theorem gives_delivered {n : Machine} {i : Instruction} (hcells : n.regs.cells = m.regs.cells)
    (ht : i.target.toNat < 16) (value : Word) :
    m.Gives i.target value (n.delivered i value m.regs.next) where
  target_eq hz := n.get_writeTarget value _ hz ht
  pc_eq := (Registers.pc_jump _ _).trans (n.next_writeTarget i.target value _)
  cells_kept k hk hd := by
    refine (Registers.cells_jump _ _ hk).trans ?_
    rw [n.cells_writeTarget i.target value _ ht hd, hcells]

/-- The flags after a jump to a label: those of its address, if it is relative. -/
def flagsAfterJump (m : Machine) (mode : Addressing) (target : Nat) : Flags :=
  match mode with
  | .relative => .ofResult (.ofNat 32 target) false
  | .absolute => m.regs.flags

end Machine

namespace Assembly

variable {text line : List Char} {origin : Nat} {p : Program} {k : Nat} {op : Opcode}
  {cond : Flags} {mode : Addressing} {name : String} {operands : List (List Char)}

/-- The line holds an instruction, after a label or not, with these operands between its
commas. -/
def InstructionLine (line : List Char) (op : Opcode) (cond : Flags)
    (operands : List (List Char)) : Prop :=
  ∃ label code mnemonic predicate rest, splitLabel (lineCode line) = .ok (label, code) ∧
    splitWord code = (mnemonic, rest) ∧
    Opcode.ofMnemonic? (splitPredicate mnemonic).1 = some op ∧
    (splitPredicate mnemonic).2 = predicate ∧ readPredicate predicate = .ok cond ∧
    splitOperands rest = operands

theorem upper_of_ofMnemonic? {name : List Char} (h : Opcode.ofMnemonic? name = some op) :
    Text.upper name = op.mnemonic.toList := by
  have hname := List.find?_some h
  exact (eq_of_beq hname).symm

theorem operandForm_of_read {n : Nat} {s : Statement} (h : InstructionLine line op cond operands)
    (hread : Statement.read line n = .ok s) : OperandForm op cond operands s.body := by
  obtain ⟨label, code, mnemonic, predicate, rest, hsplit, hword, hop, hpredicate, hcond, hrest⟩ := h
  obtain ⟨code', hsplit', hbody⟩ := readLine_ok_iff.1 (statement_read_ok_iff.1 hread).2
  cases hsplit.symm.trans hsplit'
  have hassigned := Opcode.mem_assigned_of_ofMnemonic? hop
  have hupper := upper_of_ofMnemonic? hop
  have hdirective : ∀ op ∈ Opcode.assigned, op.mnemonic.toList ≠ [] ∧
      op.mnemonic.toList ≠ "DATA".toList ∧ op.mnemonic.toList ≠ "RESERVE".toList := by decide
  obtain ⟨hempty, hdata, hreserve⟩ := hdirective op hassigned
  have hcode : code ≠ [] := by
    intro h
    subst h
    cases hword
    exact hempty (hupper.symm.trans rfl)
  rw [if_neg hcode, readBody, hword] at hbody
  simp only [hupper, if_neg hdata, if_neg hreserve, hop, hpredicate, hcond] at hbody
  rw [← hrest]
  exact readOperands_ok_iff.1 hbody

theorem eq_ofInt_of_signedWord? {value : Int} {word : Word} (h : signedWord? value = some word) :
    word = .ofInt 32 value := by
  rw [signedWord?] at h
  split at h
  · cases h
    rfl
  · cases h

/-- A label operand has found the address of its label, and the offset to it stands in the
instruction. -/
theorem resolved_label (hp : assemble text origin = .ok p) {s s' : Statement} {i : Instruction}
    (hbody : s.body = .instruction i (some ⟨name, mode, none⟩))
    (hresolve : s.resolve p.symbols (p.addressOf k) = .ok s') :
    ∃ target, p.Labels name target ∧ target ≤ addressLimit ∧ s'.body = .instruction
      { i with offset := .ofInt 32 (mode.offset target (p.addressOf k)) }
      (some ⟨name, mode, some target⟩) := by
  rcases resolve_cases hresolve with
    ⟨hplain, -⟩ | ⟨j, ref, target, word, hj, haddress, hword, rfl⟩
  · exact absurd hbody (hplain i _)
  · cases hbody.symm.trans hj
    obtain ⟨hlabels, hlimit⟩ := Program.labels_of_address? hp haddress
    refine ⟨target, hlabels, hlimit, ?_⟩
    rw [← eq_ofInt_of_signedWord? hword]

theorem step_jumpTo (hp : assemble text origin = .ok p) {s : Statement} {ref : Option LabelRef}
    {target : Nat} {i : Instruction} (hs : p.statements[k]? = some s)
    (hi : i = { jumpTo cond mode with offset := .ofInt 32 (mode.offset target (p.addressOf k)) })
    (hbody : s.body = .instruction i ref) {m : Machine} (hm : p.Reached k cond m) :
    m.step = (.ok i, { m with
      regs := ({ m.regs with flags := m.flagsAfterJump mode target }).jump (.ofNat 32 target)
      cycles := m.cycles + 1
      lastInstr := some i }) := by
  have hbase := Machine.reading_base_add hm.pc_eq mode target
  cases mode with
  | relative =>
    have hexecute : m.execute i =
        (.ok (.ofNat 32 target), m.setFlags (.ofResult (.ofNat 32 target) false)) := by
      have hleft : m.reading i.src1 = 0 := by
        rw [hi]
        exact m.reading_zero
      have hright : m.reading i.src2 + i.offset = .ofNat 32 target := by
        rw [hi]
        exact hbase
      have hop : i.op.aluOp? = some .add := by
        rw [hi]
        rfl
      rw [Machine.execute_arithmetic hop, hleft, hright, AluOp.exec_add_zero, hi]
      rfl
    have hcond : i.cond = cond := by rw [hi, jumpTo]
    rw [Program.step_of_reached hp hs hbody (hcond ▸ hm), hexecute]
    rfl
  | absolute =>
    have hexecute : m.execute i = (.ok (.ofNat 32 target), m) := by
      have hnext : m.reading i.src1 + i.offset = .ofNat 32 target := by
        rw [hi]
        exact hbase
      have hop : i.op = .jump := by rw [hi, jumpTo]
      rw [Machine.execute_jump hop, hnext]
    have hcond : i.cond = cond := by rw [hi, jumpTo]
    rw [Program.step_of_reached hp hs hbody (hcond ▸ hm), hexecute]
    rfl

/-- An instruction whose sources are zero and a label uses the address of the label. -/
theorem stepsWith_of_reached (hp : assemble text origin = .ok p) {s : Statement}
    {ref : Option LabelRef} {target : Nat} {i : Instruction} (hs : p.statements[k]? = some s)
    (hlimit : target ≤ addressLimit) (hsrc1 : i.src1 = Register.zero)
    (hsrc2 : i.src2 = mode.base)
    (hoffset : i.offset = .ofInt 32 (mode.offset target (p.addressOf k)))
    (hbody : s.body = .instruction i ref) {m : Machine} (hm : p.Reached k i.cond m) :
    m.StepsWith i target := by
  have hstep := Program.step_of_reached hp hs hbody hm
  have hleft : m.reading i.src1 = 0 := by
    rw [hsrc1]
    exact m.reading_zero
  have hright : m.reading i.src2 + i.offset = .ofNat 32 target := by
    rw [hsrc2, hoffset]
    exact Machine.reading_base_add hm.pc_eq mode target
  have haddress : m.address i = .ofNat 32 target := by
    rw [Machine.address, BitVec.add_assoc, hright, hleft]
    exact BitVec.zero_add _
  have ht : i.target.toNat < 16 := by
    obtain ⟨word, -, rfl⟩ := Program.decode_of_heldAt hp hs hbody hm.held
    exact Instruction.toNat_target_decode_lt word
  have hwithin := Memory.contains_ofNat_iff (m := m.mem) hlimit
  constructor
  case load =>
    intro hop hc
    have hdone : m.step = (.ok i, m.delivered i (m.mem.cell target) m.regs.next) := by
      rw [hstep, Machine.execute_load hop, haddress, if_pos (hwithin.2 hc), toNat_address hlimit]
      rfl
    exact ⟨_, hdone, m.delivered_eq i _ _, m.flags_delivered i _ _,
      Machine.gives_delivered rfl ht _⟩
  case store =>
    intro hop hc
    have hexecute := m.execute_store hop
    rw [haddress, if_pos (hwithin.2 hc), toNat_address hlimit] at hexecute
    rw [hexecute] at hstep
    refine ⟨_, hstep, rfl, Memory.size_set .., ?_, fun j hj => ?_⟩
    · exact (Memory.cell_set ..).trans (if_pos ⟨rfl, hc⟩)
    · exact (Memory.cell_set ..).trans (if_neg fun h => hj h.1.symm)
  case outside =>
    intro hop hc
    refine ⟨_, rfl, ?_⟩
    have hout := mt hwithin.1 (Nat.not_lt.2 hc)
    have hexecute : m.execute i =
        (.error (.addressOutOfRange (.ofNat 32 target) (.ofNat 64 m.mem.size)), m) := by
      rcases hop with hop | hop
      · rw [Machine.execute_load hop, haddress, if_neg hout]
      · rw [Machine.execute_store hop, haddress, if_neg hout]
    rw [hstep, hexecute]
    rfl
  case compare =>
    intro hop
    obtain ⟨value, flags, hexec⟩ : ∃ value flags,
        AluOp.sub.exec 0 (.ofNat 32 target) = .ok (value, flags) := ⟨_, _, rfl⟩
    have halu : i.op.aluOp? = some .sub := by
      rw [hop]
      rfl
    have hexecute := m.execute_arithmetic halu
    rw [hleft, hright, hexec] at hexecute
    rw [hexecute] at hstep
    simp only [if_pos hop] at hstep
    exact ⟨value, flags, hexec, hstep⟩
  case compute =>
    intro alu halu hne value flags hexec
    have hdone : m.step = (.ok i, (m.setFlags flags).delivered i value m.regs.next) := by
      rw [hstep, Machine.execute_arithmetic halu, hleft, hright, hexec]
      simp only [if_neg hne]
      rfl
    exact ⟨_, hdone, (m.setFlags flags).delivered_eq i _ _, (m.setFlags flags).flags_delivered i _ _,
      Machine.gives_delivered (m := m) (n := m.setFlags flags) rfl ht _⟩
  case fails =>
    intro alu halu kind hexec
    have hexecute := m.execute_arithmetic halu
    rw [hleft, hright, hexec] at hexecute
    rw [hstep, hexecute]
    rfl

/-- When a machine comes to an instruction with a label operand, a jump goes to the address
of the label, a load or a store accesses the cell with this address, and arithmetic computes
with zero and the address. A machine that has loaded the program comes to the word of the
instruction, if the words of the program can be counted by a word. -/
theorem step_label_operand (hp : assemble text origin = .ok p)
    (hline : (Text.lines text)[k]? = some line) (hname : isLabel name.toList)
    (mode : Addressing) :
    (InstructionLine line .jump cond [mode.operand name] →
      ∃ target i, p.Labels name target ∧ target ≤ addressLimit ∧
        ∀ m, p.Reached k cond m → m.step = (.ok i, { m with
          regs := ({ m.regs with flags := m.flagsAfterJump mode target }).jump (.ofNat 32 target)
          cycles := m.cycles + 1
          lastInstr := some i })) ∧
    (∀ op reg, InstructionLine line op cond [reg, mode.operand name] →
      ∃ target i, p.Labels name target ∧ target ≤ addressLimit ∧ i.op = op ∧
        readRegister reg = .ok i.target ∧ ∀ m, p.Reached k cond m → m.StepsWith i target) ∧
    (∀ op operands, InstructionLine line op cond operands → p.words.length < 0x100000000 →
      ∀ m m' : Machine, m.config.loadBase = .ofNat 32 origin → m.load p.words = .ok m' →
        p.HeldAt k m'.mem) := by
  obtain ⟨s, s', hread, hs', hresolve⟩ := Program.statement_of_line hp hline
  have hlabel := readLabelRef_operand hname mode
  refine ⟨fun hinstr => ?_, fun op reg hinstr => ?_,
    fun op operands hinstr hcount m m' hbase hload => ?_⟩
  · have hform := operandForm_of_read hinstr hread
    have hbody : s.body = .instruction (jumpTo cond mode) (some ⟨name, mode, none⟩) := by
      generalize s.body = body at hform
      cases hform with
      | jump _ hlabel' =>
        cases hlabel.symm.trans hlabel'
        rfl
    obtain ⟨target, hlabels, hlimit, hbody'⟩ := resolved_label hp hbody hresolve
    exact ⟨target, _, hlabels, hlimit, fun m hm => step_jumpTo hp hs' rfl hbody' hm⟩
  · have hform := operandForm_of_read hinstr hread
    obtain ⟨byte, hreg, hbody⟩ : ∃ byte, readRegister reg = .ok byte ∧ s.body =
        .instruction ⟨op, cond, byte, Register.zero, mode.base, 0⟩ (some ⟨name, mode, none⟩) := by
      generalize s.body = body at hform
      cases hform with
      | label _ hreg hlabel' =>
        cases hlabel.symm.trans hlabel'
        exact ⟨_, hreg, rfl⟩
    obtain ⟨target, hlabels, hlimit, hbody'⟩ := resolved_label hp hbody hresolve
    exact ⟨target, _, hlabels, hlimit, rfl, hreg, fun m hm =>
      stepsWith_of_reached hp hs' hlimit rfl rfl rfl hbody' hm⟩
  · have hform := operandForm_of_read hinstr hread
    obtain ⟨i, ref, hbody⟩ : ∃ i ref, s'.body = .instruction i ref := by
      rcases resolve_cases hresolve with ⟨-, rfl⟩ | ⟨i, ref, target, word, -, -, -, rfl⟩
      · generalize s'.body = body at hform
        cases hform <;> exact ⟨_, _, rfl⟩
      · exact ⟨_, _, rfl⟩
    obtain ⟨-, herrors, -⟩ := assemble_ok_iff.1 hp
    have hencoding := encodingErrors_eq_nil herrors (List.mem_of_getElem? hs')
    obtain ⟨word, -, hword⟩ := words_of_instruction hencoding hbody
    exact Program.heldAt_of_load hp hs' hword hcount hbase hload

/-- References back and forward, and the label of one of them on a line of its own: a jump, a load
of the word of the jump, a store of 9 and an addition. -/
theorem step_label_operand_both_ways : ∃ (text : List Char) (p : Program) (loaded : Machine),
    text = ("start: JUMP done\n LOAD r1,@start\n STORE r2,cell\n ADD r3,@cell\n" ++
      "done:\n HALT\ncell: DATA 7").toList ∧
    assemble text 40 = .ok p ∧
    (Machine.ofConfig ⟨64, 40, 40, none⟩).load p.words = .ok loaded ∧
    (∃ i, loaded.step = (.ok i, { loaded with
      regs := ({ loaded.regs with flags := .plus }).jump 44
      cycles := 1
      lastInstr := some i })) ∧
    (∃ i next, (loaded.goTo 41).step = (.ok i, next) ∧ next.regs.get 1 = loaded.mem.cell 40 ∧
      next.regs.pc = 42 ∧ next.mem = loaded.mem) ∧
    (∃ i next, ({ loaded with regs := loaded.regs.set 2 9 }.goTo 42).step = (.ok i, next) ∧
      next.mem.cell 45 = 9 ∧ (∀ j, j ≠ 45 → next.mem.cell j = loaded.mem.cell j) ∧
      next.regs.pc = 43) ∧
    ∃ i next, (loaded.goTo 43).step = (.ok i, next) ∧ next.regs.get 3 = 45 ∧
      next.regs.flags = .plus ∧ next.regs.pc = 44 ∧ next.mem = loaded.mem := by
  obtain ⟨text, htext⟩ : ∃ text, text =
    ("start: JUMP done\n LOAD r1,@start\n STORE r2,cell\n ADD r3,@cell\n" ++
      "done:\n HALT\ncell: DATA 7").toList := ⟨_, rfl⟩
  obtain ⟨p, hp, hdone, hstart, hcell, h0, h1, h2, h3, hlength⟩ : ∃ p, assemble text 40 = .ok p ∧
      p.symbols.address? "done" = some 44 ∧ p.symbols.address? "start" = some 40 ∧
      p.symbols.address? "cell" = some 45 ∧ p.addressOf 0 = 40 ∧ p.addressOf 1 = 41 ∧
      p.addressOf 2 = 42 ∧ p.addressOf 3 = 43 ∧ p.words.length = 6 := by
    rw [htext]
    exact ⟨_, rfl, rfl, rfl, rfl, rfl, rfl, rfl, rfl, rfl⟩
  obtain ⟨mem, hmem⟩ : ∃ mem, (Memory.zeros 64).load 40 p.words = .ok mem :=
    ⟨_, Memory.load_ok_iff.2 ⟨by rw [hlength]; decide, rfl⟩⟩
  obtain ⟨loaded, hloaded⟩ : ∃ loaded : Machine,
    loaded = { Machine.ofConfig ⟨64, 40, 40, none⟩ with mem } := ⟨_, rfl⟩
  have hload : (Machine.ofConfig ⟨64, 40, 40, none⟩).load p.words = .ok loaded :=
    Machine.load_ok_iff.2 ⟨mem, hmem, hloaded⟩
  have hsize : loaded.mem.size = 64 := by
    rw [hloaded]
    exact Memory.size_load hmem
  have hjumpLine : (Text.lines text)[0]? = some "start: JUMP done".toList := by rw [htext]; rfl
  have hloadLine : (Text.lines text)[1]? = some " LOAD r1,@start".toList := by rw [htext]; rfl
  have hstoreLine : (Text.lines text)[2]? = some " STORE r2,cell".toList := by rw [htext]; rfl
  have haddLine : (Text.lines text)[3]? = some " ADD r3,@cell".toList := by rw [htext]; rfl
  have hjump : InstructionLine "start: JUMP done".toList .jump .always
      [Addressing.relative.operand "done"] := ⟨_, _, _, _, _, rfl, rfl, rfl, rfl, rfl, rfl⟩
  have hloads : InstructionLine " LOAD r1,@start".toList .load .always
      ["r1".toList, Addressing.absolute.operand "start"] :=
    ⟨_, _, _, _, _, rfl, rfl, rfl, rfl, rfl, rfl⟩
  have hstores : InstructionLine " STORE r2,cell".toList .store .always
      ["r2".toList, Addressing.relative.operand "cell"] :=
    ⟨_, _, _, _, _, rfl, rfl, rfl, rfl, rfl, rfl⟩
  have hadds : InstructionLine " ADD r3,@cell".toList .add .always
      ["r3".toList, Addressing.absolute.operand "cell"] :=
    ⟨_, _, _, _, _, rfl, rfl, rfl, rfl, rfl, rfl⟩
  have hdoneName : isLabel "done".toList := by decide
  have hstartName : isLabel "start".toList := by decide
  have hcellName : isLabel "cell".toList := by decide
  -- Wherever the loaded machine is sent, it finds the instruction there.
  have hreached : ∀ {k line op operands address} {m : Machine}, (Text.lines text)[k]? = some line →
      InstructionLine line op .always operands → p.addressOf k = address →
      m.state = .running → m.regs.pc = .ofNat 32 address → m.mem = loaded.mem →
      m.regs.flags = .always → p.Reached k .always m := by
    intro k line op operands address m hline hinstr haddress hr hpc hmem hflags
    have hheld := (step_label_operand hp hline hdoneName .relative).2.2 op operands hinstr
      (by rw [hlength]; decide) _ loaded rfl hload
    exact ⟨hr, haddress ▸ hpc, hmem ▸ hheld, by rw [hflags]; decide⟩
  refine ⟨text, p, loaded, htext, hp, hload, ?_, ?_, ?_, ?_⟩
  · obtain ⟨target, i, hlabels, -, hstep⟩ :=
      (step_label_operand hp hjumpLine hdoneName .relative).1 hjump
    cases hdone.symm.trans hlabels.1
    have hrun := hreached (m := loaded) hjumpLine hjump h0 (by rw [hloaded]; rfl)
      (by rw [hloaded]; rfl) rfl (by rw [hloaded]; rfl)
    refine ⟨i, (hstep loaded hrun).trans ?_⟩
    rw [hloaded]
    rfl
  · obtain ⟨target, i, hlabels, -, hop, hreg, hstep⟩ :=
      (step_label_operand hp hloadLine hstartName .absolute).2.1 _ _ hloads
    cases hstart.symm.trans hlabels.1
    have hrun := hreached (m := loaded.goTo 41) hloadLine hloads h1 (by rw [hloaded]; rfl)
      (by rw [hloaded]; rfl) rfl (by rw [hloaded]; rfl)
    obtain ⟨next, hnext, hkept, -, hgives⟩ := (hstep _ hrun).load hop (by
      show 40 < loaded.mem.size
      rw [hsize]
      decide)
    have htarget : i.target = 1 := (Except.ok.inj hreg).symm
    rw [htarget] at hgives
    refine ⟨i, next, hnext, hgives.target_eq (by decide), ?_, by rw [hkept]; rfl⟩
    rw [hgives.pc_eq, if_neg (by decide), hloaded]
    rfl
  · obtain ⟨target, i, hlabels, -, hop, hreg, hstep⟩ :=
      (step_label_operand hp hstoreLine hcellName .relative).2.1 _ _ hstores
    cases hcell.symm.trans hlabels.1
    have hrun := hreached (m := { loaded with regs := loaded.regs.set 2 9 }.goTo 42) hstoreLine
      hstores h2 (by rw [hloaded]; rfl) (by rw [hloaded]; rfl) rfl (by rw [hloaded]; rfl)
    obtain ⟨next, hnext, hkept, -, hstored, hothers⟩ := (hstep _ hrun).store hop (by
      show 45 < loaded.mem.size
      rw [hsize]
      decide)
    have htarget : i.target = 2 := (Except.ok.inj hreg).symm
    refine ⟨i, next, hnext, ?_, hothers, ?_⟩
    · rw [hstored, htarget, hloaded]
      rfl
    · rw [hkept, hloaded]
      rfl
  · obtain ⟨target, i, hlabels, -, hop, hreg, hstep⟩ :=
      (step_label_operand hp haddLine hcellName .absolute).2.1 _ _ hadds
    cases hcell.symm.trans hlabels.1
    have hrun := hreached (m := loaded.goTo 43) haddLine hadds h3 (by rw [hloaded]; rfl)
      (by rw [hloaded]; rfl) rfl (by rw [hloaded]; rfl)
    obtain ⟨next, hnext, hkept, hflags, hgives⟩ := (hstep _ hrun).compute .add (by rw [hop]; rfl)
      (by rw [hop]; decide) 45 .plus rfl
    have htarget : i.target = 3 := (Except.ok.inj hreg).symm
    rw [htarget] at hgives
    refine ⟨i, next, hnext, hgives.target_eq (by decide), hflags, ?_, by rw [hkept]; rfl⟩
    rw [hgives.pc_eq, if_neg (by decide), hloaded]
    rfl

end Assembly
end DM2022
