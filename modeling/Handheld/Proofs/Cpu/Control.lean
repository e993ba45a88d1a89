-- SUMMARY: Where every instruction continues, what it costs, and the return address that calls leave on the stack.
import Handheld.Proofs.Cpu.Effect

namespace Handheld

open LawfulBus

/-! ## Displacements -/

/-- Widening a displacement byte gives the word of the signed number that it stands for. -/
theorem signExtend_eq_ofInt (b : UInt8) : signExtend b = UInt16.ofInt b.toInt8.toInt := by
  have hlt := b.toNat_lt
  have hint : b.toInt8.toInt = if b.toNat < 128 then (b.toNat : Int) else b.toNat - 256 := by
    change b.toBitVec.toInt = _
    rw [BitVec.toInt_eq_toNat_cond]
    change (if 2 * b.toNat < 256 then (b.toNat : Int) else b.toNat - 256) = _
    split <;> split <;> omega
  have hhigh (h : 128 ≤ b.toNat) : (0xFF00 ||| b.toUInt16).toNat = 0xFF00 + b.toNat := by
    rw [UInt16.toNat_or, UInt8.toNat_toUInt16]
    exact (Nat.two_pow_add_eq_or_of_lt hlt 255).symm
  apply UInt16.toNat_inj.mp
  rw [hint, signExtend]
  by_cases h : b.toNat < 128
  · have hb : b < 0x80 := h
    rw [if_pos hb, if_pos h, UInt8.toNat_toUInt16, UInt16.ofInt]
    simp
    omega
  · have hb : ¬b < 0x80 := h
    rw [if_neg hb, if_neg h, hhigh (by omega), UInt16.ofInt]
    simp
    omega

/-! ## The course of a program

Where a program goes on after an instruction, written out for each transfer of
control. Conditions are those of the flags before the instruction, addresses
wrap around, and `image` is memory before the instruction. -/

/-- The condition of a conditional transfer of control. -/
def Instruction.condition : Instruction → Option Condition
  | jr condition | jp condition | call condition | ret condition => condition
  | _ => none

/-- Only conditional transfers have two costs. -/
theorem Instruction.taken_eq_base {i : Instruction} (h : i.condition = none) :
    i.cost.taken = i.cost.base := by
  cases i with
  | jr condition | jp condition | call condition | ret condition =>
    cases h
    rfl
  | _ => rfl

namespace Cpu

/-- Whether an instruction is a conditional transfer whose condition holds. -/
def branches (cpu : Cpu) (i : Instruction) : Bool :=
  i.condition.any cpu.holds

/-- Whether an instruction leaves a return address: a call that happens, or a restart. -/
def calls (cpu : Cpu) : Instruction → Bool
  | .call condition => cpu.transfers condition
  | .rst _ => true
  | _ => false

/-- The address behind an instruction at PC. -/
def behind (cpu : Cpu) (i : Instruction) : UInt16 :=
  if i = .stop ∧ cpu.config.stopLength = .oneByte then cpu.regs.pc + 1
  else cpu.regs.pc + i.length

/-- The address at which the program goes on after an instruction at PC. -/
def destination (cpu : Cpu) (image : Image) (i : Instruction) : UInt16 :=
  let pc := cpu.regs.pc
  match i with
  | .jr condition =>
    if cpu.transfers condition then pc + 2 + UInt16.ofInt (image (pc + 1)).toInt8.toInt
    else cpu.behind i
  | .jp condition | .call condition =>
    if cpu.transfers condition then image.wordAt (pc + 1) else cpu.behind i
  | .jpHl => cpu.regs.hl
  | .ret condition => if cpu.transfers condition then image.wordAt cpu.regs.sp else cpu.behind i
  | .reti => image.wordAt cpu.regs.sp
  | .rst target => target.toUInt16
  | i => cpu.behind i

/-! ### Instruction by instruction -/

theorem pc_passing (cpu : Cpu) (i : Instruction) : (cpu.passing i).regs.pc = cpu.behind i := by
  unfold passing Config.advance behind
  split <;> rfl

/-- A conditional transfer whose condition fails only passes itself. -/
theorem effectIn_of_fails {cpu : Cpu} (image : Image) {i : Instruction} {c : Condition}
    (hcondition : i.condition = some c) (hfails : cpu.holds c = false) :
    cpu.effectIn image i = { cpu := cpu.passing i } := by
  have hstays : cpu.transfers (some c) ≠ true := ne_true_of_eq_false hfails
  cases i with
  | jr condition | jp condition | call condition | ret condition =>
    cases hcondition
    exact if_neg hstays
  | _ => cases hcondition

theorem taken_effectIn_of_holds {cpu : Cpu} (image : Image) {i : Instruction} {c : Condition}
    (hcondition : i.condition = some c) (hholds : cpu.holds c = true) :
    (cpu.effectIn image i).taken = true := by
  have hgoes : cpu.transfers (some c) = true := hholds
  cases i with
  | jr condition | jp condition | call condition | ret condition =>
    cases hcondition
    exact congrArg Effect.taken (if_pos hgoes)
  | _ => cases hcondition

/-- The program counter after an instruction. -/
theorem pc_effectIn (cpu : Cpu) (image : Image) (i : Instruction) :
    (cpu.effectIn image i).cpu.regs.pc = cpu.destination image i := by
  let pcOf (effect : Effect) : UInt16 := effect.cpu.regs.pc
  cases i with
  | jr condition =>
    have hbyte : loByte (image (cpu.regs.pc + 1)).toUInt16 = image (cpu.regs.pc + 1) :=
      UInt8.toUInt8_toUInt16 _
    rw [destination]
    by_cases hgoes : cpu.transfers condition = true
    · rw [if_pos hgoes, ← signExtend_eq_ofInt, ← hbyte]
      exact congrArg pcOf (if_pos hgoes)
    · rw [if_neg hgoes, ← pc_passing]
      exact congrArg pcOf (if_neg hgoes)
  | jp condition | call condition =>
    rw [destination]
    by_cases hgoes : cpu.transfers condition = true
    · rw [if_pos hgoes]
      exact congrArg pcOf (if_pos hgoes)
    · rw [if_neg hgoes, ← pc_passing]
      exact congrArg pcOf (if_neg hgoes)
  | ret condition =>
    rw [destination]
    by_cases hgoes : cpu.transfers condition = true
    · have hread : (cpu.passing (.ret condition)).dataRead 0 (.ret condition) =
          .stack cpu.regs.sp := if_pos hgoes
      have hpopped : (cpu.effectIn image (.ret condition)).cpu.regs.pc =
          DataRead.valueIn image ((cpu.passing (.ret condition)).dataRead 0 (.ret condition)) :=
        congrArg pcOf (if_pos hgoes)
      rw [if_pos hgoes, hpopped, hread]
      rfl
    · rw [if_neg hgoes, ← pc_passing]
      exact congrArg pcOf (if_neg hgoes)
  | jpHl => rfl
  | reti => rfl
  | rst target => rfl
  | _ => exact (keeps_effect _ _ _ _ rfl).pc.trans (pc_passing cpu _)

/-- The cost of an instruction. -/
theorem costOf_effectIn (cpu : Cpu) (image : Image) (i : Instruction) :
    costOf i (cpu.effectIn image i) = if cpu.branches i then i.cost.taken else i.cost.base := by
  rw [costOf, branches]
  cases hcondition : i.condition with
  | none =>
    -- Unconditional transfers are taken too, but their two costs are the same.
    rw [Instruction.taken_eq_base hcondition, ite_self, ite_self]
  | some c =>
    cases hholds : cpu.holds c with
    | false =>
      rw [effectIn_of_fails image hcondition hholds, Option.any_some, hholds]
    | true =>
      rw [taken_effectIn_of_holds image hcondition hholds, Option.any_some, hholds]

theorem behind_of_ne_stop (cpu : Cpu) {i : Instruction} (h : i ≠ .stop) :
    cpu.behind i = cpu.regs.pc + i.length :=
  if_neg fun hstop => h hstop.1

/-- Calls push the address behind themselves. -/
theorem effectIn_of_calls {cpu : Cpu} (image : Image) {i : Instruction} (h : cpu.calls i = true) :
    (cpu.effectIn image i).cpu.regs.sp = cpu.regs.sp - 2 ∧
      (cpu.effectIn image i).actions = pushActions cpu.regs.sp (cpu.regs.pc + i.length) := by
  cases i with
  | call condition =>
    have hgoes : cpu.transfers condition = true := h
    have heffect : cpu.effectIn image (.call condition) =
        (cpu.passing (.call condition)).callTo (image.wordAt (cpu.regs.pc + 1)) true :=
      if_pos hgoes
    rw [heffect, ← cpu.behind_of_ne_stop (by simp), ← pc_passing]
    exact ⟨rfl, rfl⟩
  | rst target =>
    rw [← cpu.behind_of_ne_stop (by simp), ← pc_passing]
    exact ⟨rfl, rfl⟩
  | _ => cases h

theorem step_run_flat (cpu : Cpu) (bus : FlatBus) :
    ((cpu.step).run bus).1 = (cpu.outcome bus.memory.get).1 ∧
      ((cpu.step).run bus).2.memory =
        putAll (β := FlatBus) (cpu.outcome bus.memory.get).2 bus.memory :=
  step_run cpu bus

theorem step_succeeds {cpu : Cpu} (bus : FlatBus) {i : Instruction}
    (hi : cpu.instructionIn bus.memory.get = .ok i) :
    ∃ cost, ((cpu.step).run bus).1.1 = .ok cost := by
  rw [(step_run_flat cpu bus).1, outcome, hi]
  exact ⟨_, rfl⟩

/-- A successful step on a flat bus is the effect of the instruction that memory holds at PC. -/
theorem effectIn_of_step {cpu cpu' : Cpu} {bus bus' : FlatBus} {cost : Nat}
    (hstep : (cpu.step).run bus = ((.ok cost, cpu'), bus')) :
    ∃ i, cpu.instructionIn bus.memory.get = .ok i ∧
      cost = costOf i (cpu.effectIn bus.memory.get i) ∧
      cpu' = (cpu.effectIn bus.memory.get i).cpu.timed cost ∧
      bus'.memory = putAll (β := FlatBus) (cpu.effectIn bus.memory.get i).actions bus.memory := by
  obtain ⟨hresult, hmemory⟩ := step_run_flat cpu bus
  rw [hstep] at hresult hmemory
  cases hi : cpu.instructionIn bus.memory.get with
  | error cause =>
    rw [outcome, hi] at hresult
    cases hresult
  | ok i =>
    rw [outcome, hi] at hresult hmemory
    cases hresult
    exact ⟨i, rfl, rfl, rfl, hmemory⟩

/-- A successful step on a flat bus. Its cost is the dearer one exactly for a conditional transfer
    whose condition holds. The program goes on at the instruction's destination. A call leaves the
    address behind itself on the stack, high byte first, and a conditional transfer whose condition
    fails changes nothing but the program counter. -/
theorem step_control {cpu cpu' : Cpu} {bus bus' : FlatBus} {cost : Nat}
    (hstep : (cpu.step).run bus = ((.ok cost, cpu'), bus')) :
    ∃ i, cpu.instructionIn bus.memory.get = .ok i ∧
      (cpu'.cycles = cost ∧ cost = if cpu.branches i then i.cost.taken else i.cost.base) ∧
      cpu'.regs.pc = cpu.destination bus.memory.get i ∧
      (cpu.calls i = true →
        cpu'.regs.sp = cpu.regs.sp - 2 ∧
          bus'.memory =
            (bus.memory.set (cpu.regs.sp - 1) (hiByte (cpu.regs.pc + i.length))).set
              (cpu.regs.sp - 2) (loByte (cpu.regs.pc + i.length))) ∧
      (∀ c, i.condition = some c → cpu.holds c = false →
        cpu'.regs = { cpu.regs with pc := cpu.regs.pc + i.length } ∧
          bus'.memory = bus.memory) := by
  obtain ⟨i, hi, hcost, hcpu, hmemory⟩ := effectIn_of_step hstep
  have hregs : cpu'.regs = (cpu.effectIn bus.memory.get i).cpu.regs := by
    rw [hcpu]
    rfl
  refine ⟨i, hi, ⟨?_, ?_⟩, ?_, ?_, ?_⟩
  · rw [hcpu]
    rfl
  · rw [hcost, costOf_effectIn]
  · rw [hregs, pc_effectIn]
  · intro hcalls
    obtain ⟨hsp, hactions⟩ := effectIn_of_calls bus.memory.get hcalls
    rw [hactions] at hmemory
    exact ⟨hregs ▸ hsp, hmemory⟩
  · intro c hcondition hfails
    have hpasses := effectIn_of_fails bus.memory.get hcondition hfails
    rw [hpasses] at hregs hmemory
    have hnext : (cpu.passing i).regs.pc = cpu.regs.pc + i.length := by
      rw [pc_passing, behind_of_ne_stop]
      rintro rfl
      cases hcondition
    refine ⟨?_, hmemory⟩
    rw [hregs, ← hnext]
    rfl

/-- A processor at a conditional call at the last address, with a stack that wraps around. -/
def callAtEnd : Cpu where
  regs := { f := .ofByte 0x80, sp := 1, pc := 0xFFFF }

theorem get_callAtEnd :
    (Memory.zero.set 0xFFFF 0xCC).get = fun address => if address = 0xFFFF then 0xCC else 0 := by
  funext address
  rw [Memory.get_set, Memory.get_zero]

theorem instructionIn_callAtEnd :
    callAtEnd.instructionIn (Memory.zero.set 0xFFFF 0xCC).get = .ok (.call (some .zero)) := by
  have hfetch : Image.opcodeAt (Memory.zero.set 0xFFFF 0xCC).get callAtEnd.regs.pc =
      (0xCC, false) := by
    rw [get_callAtEnd]
    decide
  rw [instructionIn_of_opcodeAt hfetch]
  rfl

theorem step_control_callAtEnd :
    let bus : FlatBus := { memory := Memory.zero.set 0xFFFF 0xCC }
    ∃ cpu' bus', (callAtEnd.step).run bus = ((.ok 6, cpu'), bus') ∧
      cpu'.regs.pc = 0 ∧ cpu'.regs.sp = 0xFFFF ∧
      bus'.memory = (bus.memory.set 0 0).set 0xFFFF 2 := by
  intro bus
  rcases hstep : (callAtEnd.step).run bus with ⟨⟨result, cpu'⟩, bus'⟩
  obtain ⟨cost, hsucceeds⟩ := step_succeeds bus instructionIn_callAtEnd
  rw [hstep] at hsucceeds
  cases hsucceeds
  obtain ⟨i, hi, ⟨-, hcost⟩, hpc, hcalls, -⟩ := step_control hstep
  rw [instructionIn_callAtEnd] at hi
  cases hi
  obtain ⟨hsp, hmemory⟩ := hcalls rfl
  refine ⟨cpu', bus', by rw [hcost]; rfl, ?_, hsp.trans (by decide), hmemory.trans ?_⟩
  · rw [hpc, get_callAtEnd]
    decide
  · rw [show callAtEnd.regs.sp - 1 = 0 by decide, show callAtEnd.regs.sp - 2 = 0xFFFF by decide,
      show hiByte (callAtEnd.regs.pc + (Instruction.call (some .zero)).length) = 0 by decide,
      show loByte (callAtEnd.regs.pc + (Instruction.call (some .zero)).length) = 2 by decide]

end Cpu

end Handheld
