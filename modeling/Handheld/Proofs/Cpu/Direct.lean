-- SUMMARY: Instructions access by access: with each read and write where an instruction makes it, the processor does the same.
import Handheld.Cpu.Interrupt
import Handheld.Cpu.Step

namespace Handheld

/-! ## Instructions access by access

An instruction is planned as one read and the actions that follow from it. Here
every instruction is written down a second time, as a program that reads and
writes on its way. On every bus the plan is that program. -/

/-- Carries out an effect, and returns whether control was transferred. -/
def Effect.perform {β : Type} [Bus β] (effect : Effect) : StateM β (Bool × Cpu) := do
  performAll effect.actions
  return (effect.taken, effect.cpu)

namespace Cpu

section

variable {β : Type} [Bus β]

/-! ### Operands and the stack -/

/-- Reads an 8-bit operand. -/
def fetch8 (cpu : Cpu) : Operand8 → StateM β UInt8
  | .b => return cpu.regs.b
  | .c => return cpu.regs.c
  | .d => return cpu.regs.d
  | .e => return cpu.regs.e
  | .h => return cpu.regs.h
  | .l => return cpu.regs.l
  | .atHl => Bus.read8 cpu.regs.hl
  | .a => return cpu.regs.a

/-- Writes an 8-bit operand. -/
def store8 (cpu : Cpu) (dst : Operand8) (value : UInt8) : StateM β Cpu :=
  match dst with
  | .b => return { cpu with regs.b := value }
  | .c => return { cpu with regs.c := value }
  | .d => return { cpu with regs.d := value }
  | .e => return { cpu with regs.e := value }
  | .h => return { cpu with regs.h := value }
  | .l => return { cpu with regs.l := value }
  | .atHl => do
    Bus.write8 cpu.regs.hl value
    return cpu
  | .a => return { cpu with regs.a := value }

/-- Pushes a word byte by byte, moving the stack pointer before each of them. -/
def pushWord (cpu : Cpu) (value : UInt16) : StateM β Cpu := do
  let cpu := { cpu with regs.sp := cpu.regs.sp - 1 }
  Bus.write8 cpu.regs.sp (hiByte value)
  let cpu := { cpu with regs.sp := cpu.regs.sp - 1 }
  Bus.write8 cpu.regs.sp (loByte value)
  return cpu

/-- Pops a word byte by byte. -/
def popWord (cpu : Cpu) : StateM β (UInt16 × Cpu) := do
  let lo ← Bus.read8 cpu.regs.sp
  let hi ← Bus.read8 (cpu.regs.sp + 1)
  return (word hi lo, { cpu with regs.sp := cpu.regs.sp + 2 })

/-- Puts the hidden cartridge bytes back, if there are any. -/
def retireOverlay (cpu : Cpu) : StateM β Cpu := do
  match cpu.overlay with
  | none => return cpu
  | some overlay =>
    (List.finRange bootSize).forM fun i => Bus.write8 (UInt16.ofNat i.val) (overlay.saved.get i)
    Bus.report (.bootUnmapped cpu.regs.pc bootSize)
    return { cpu with overlay := none }

/-! ### The instructions -/

/-- Goes on with the next instruction. -/
def goOn (cpu : Cpu) : StateM β (Bool × Cpu) :=
  return (false, cpu)

/-- Carries out an instruction, with PC past it, and returns whether control was transferred. -/
def perform (cpu : Cpu) (immediate : UInt16) : Instruction → StateM β (Bool × Cpu)
  | .nop => goOn cpu
  | .stop | .halt => goOn { cpu with halted := true }
  | .di => goOn { cpu with ime := false }
  | .ei => goOn { cpu with ime := true }
  | .ld dst src => do
    let value ← cpu.fetch8 src
    goOn (← cpu.store8 dst value)
  | .ldImm dst => do goOn (← cpu.store8 dst (loByte immediate))
  | .ldImm16 dst => goOn (cpu.setReg16 dst immediate)
  | .storeA dst => do
    let stepped := cpu.stepPointer dst
    Bus.write8 (cpu.pointer dst) stepped.regs.a
    goOn stepped
  | .loadA src => do
    let stepped := cpu.stepPointer src
    let value ← Bus.read8 (cpu.pointer src)
    goOn { stepped with regs.a := value }
  | .storeSp => do
    Bus.write16 immediate cpu.regs.sp
    goOn cpu
  | .storeHigh => do
    let address := Hardware.ofOffset (loByte immediate)
    let cpu ← if address = Hardware.bootOff then cpu.retireOverlay else pure cpu
    Bus.write8 address cpu.regs.a
    goOn cpu
  | .loadHigh => do
    let offset := loByte immediate
    let value ←
      if cpu.spoofs offset then pure Hardware.scanlineInBlank
      else Bus.read8 (Hardware.ofOffset offset)
    goOn { cpu with regs.a := value }
  | .storeHighC => do
    Bus.write8 (Hardware.ofOffset cpu.regs.c) cpu.regs.a
    goOn cpu
  | .loadHighC => do
    let value ← Bus.read8 (Hardware.ofOffset cpu.regs.c)
    goOn { cpu with regs.a := value }
  | .storeAbs => do
    Bus.write8 immediate cpu.regs.a
    goOn cpu
  | .loadAbs => do
    let value ← Bus.read8 immediate
    goOn { cpu with regs.a := value }
  | .ldHlSpOffset =>
    let (result, flags) := Alu.addOffset cpu.regs.sp (loByte immediate)
    goOn ((cpu.withFlags flags).setReg16 .hl result)
  | .ldSpHl => goOn (cpu.setReg16 .sp cpu.regs.hl)
  | .alu op src => do
    let value ← cpu.fetch8 src
    goOn (cpu.operate op value)
  | .aluImm op => goOn (cpu.operate op (loByte immediate))
  | .inc dst => do
    let value ← cpu.fetch8 dst
    let (result, flags) := Alu.inc value cpu.regs.f
    goOn (← (cpu.withFlags flags).store8 dst result)
  | .dec dst => do
    let value ← cpu.fetch8 dst
    let (result, flags) := Alu.dec value cpu.regs.f
    goOn (← (cpu.withFlags flags).store8 dst result)
  | .inc16 dst => goOn (cpu.setReg16 dst (cpu.reg16 dst + 1))
  | .dec16 dst => goOn (cpu.setReg16 dst (cpu.reg16 dst - 1))
  | .addHl src =>
    let (result, flags) := Alu.addWord cpu.regs.hl (cpu.reg16 src) cpu.regs.f
    goOn ((cpu.withFlags flags).setReg16 .hl result)
  | .addSpOffset =>
    let (result, flags) := Alu.addOffset cpu.regs.sp (loByte immediate)
    goOn ((cpu.withFlags flags).setReg16 .sp result)
  | .rlca => goOn (cpu.rotateA .rlc)
  | .rrca => goOn (cpu.rotateA .rrc)
  | .rla => goOn (cpu.rotateA .rl)
  | .rra => goOn (cpu.rotateA .rr)
  | .daa => goOn (cpu.accumulate (Alu.daa cpu.regs.a cpu.regs.f))
  | .cpl =>
    goOn (cpu.accumulate
      (~~~cpu.regs.a, { cpu.regs.f with subtract := true, halfCarry := true }))
  | .scf =>
    goOn (cpu.withFlags { cpu.regs.f with subtract := false, halfCarry := false, carry := true })
  | .ccf =>
    goOn (cpu.withFlags
      { cpu.regs.f with subtract := false, halfCarry := false, carry := !cpu.regs.f.carry })
  | .jr condition =>
    if cpu.transfers condition then
      return (true, cpu.goto (cpu.regs.pc + signExtend (loByte immediate)))
    else goOn cpu
  | .jp condition =>
    if cpu.transfers condition then return (true, cpu.goto immediate) else goOn cpu
  | .jpHl => goOn (cpu.goto cpu.regs.hl)
  | .call condition => do
    if cpu.transfers condition then
      let cpu ← cpu.pushWord cpu.regs.pc
      return (true, cpu.goto immediate)
    else goOn cpu
  | .ret condition => do
    if cpu.transfers condition then
      let (target, cpu) ← cpu.popWord
      return (true, cpu.goto target)
    else goOn cpu
  | .reti => do
    let (target, cpu) ← cpu.popWord
    goOn { cpu.goto target with ime := true }
  | .rst target => do
    let cpu ← cpu.pushWord cpu.regs.pc
    goOn (cpu.goto target.toUInt16)
  | .push pair => do goOn (← cpu.pushWord (cpu.stackPair pair))
  | .pop pair => do
    let (value, cpu) ← cpu.popWord
    goOn (cpu.setStackPair pair value)
  | .shift op dst => do
    let value ← cpu.fetch8 dst
    let (result, flags) := Alu.shift op value cpu.regs.f.carry
    goOn (← (cpu.withFlags flags).store8 dst result)
  | .bit index src => do
    let value ← cpu.fetch8 src
    goOn (cpu.withFlags (Alu.testBit index value cpu.regs.f))
  | .res index dst => do
    let value ← cpu.fetch8 dst
    goOn (← cpu.store8 dst (value &&& ~~~Alu.mask index))
  | .set index dst => do
    let value ← cpu.fetch8 dst
    goOn (← cpu.store8 dst (value ||| Alu.mask index))

/-! ### The plan -/

/-- Reading an operand is the read that is planned for it. -/
theorem fetch8_bind {α : Type} (cpu : Cpu) (src : Operand8) (next : UInt8 → StateM β α) :
    (cpu.fetch8 src >>= next) = (do
      let data ← (cpu.readOperand8 src).perform
      next (cpu.operand8 (loByte data) src)) := by
  cases src <;> simp [fetch8, readOperand8, DataRead.perform, operand8]

/-- Writing an operand is the effect that is planned for it. -/
theorem store8_bind (cpu : Cpu) (dst : Operand8) (value : UInt8) :
    (cpu.store8 dst value >>= goOn : StateM β (Bool × Cpu)) = (cpu.put8 dst value).perform := by
  cases dst <;> rfl

theorem pushWord_eq (cpu : Cpu) (value : UInt16) :
    (cpu.pushWord value : StateM β Cpu) = (do
      performAll (cpu.push value).actions
      return (cpu.push value).cpu) := by
  have hsp : cpu.regs.sp - 1 - 1 = cpu.regs.sp - 2 := by grind
  simp only [pushWord, hsp]
  rfl

/-- What is planned for the hidden bytes is that each of them is written. -/
theorem performAll_restore (overlay : BootOverlay) :
    (performAll overlay.restore : StateM β Unit) =
      (List.finRange bootSize).forM fun i =>
        Bus.write8 (UInt16.ofNat i.val) (overlay.saved.get i) := by
  rw [BootOverlay.restore]
  induction List.finRange bootSize with
  | nil => rfl
  | cons i rest ih =>
    rw [List.map_cons, performAll, ih]
    rfl

/-- The boot switch: the hidden bytes are put back before the store. -/
theorem perform_storeHigh (cpu : Cpu) (offset : UInt8) :
    ((do
      let address := Hardware.ofOffset offset
      let cpu ← if address = Hardware.bootOff then cpu.retireOverlay else pure cpu
      Bus.write8 address cpu.regs.a
      goOn cpu) : StateM β (Bool × Cpu)) = (cpu.storeHigh offset).perform := by
  rw [storeHigh]
  cases hoverlay : cpu.overlay with
  | none =>
    have hretire : (cpu.retireOverlay : StateM β Cpu) = pure cpu := by rw [retireOverlay, hoverlay]
    simp only [hretire, ite_self]
    rfl
  | some overlay =>
    by_cases h : Hardware.ofOffset offset = Hardware.bootOff
    · simp only [h, if_true, retireOverlay, hoverlay, Effect.perform, performAll_append,
        performAll_restore]
      simp [performAll, goOn, Action.perform]
    · simp only [h, if_false]
      rfl

/-- On every bus an instruction does what is planned: it makes the one data read that it needs, and
    then carries out its effect. -/
theorem perform_eq_plan (cpu : Cpu) (immediate : UInt16) (i : Instruction) :
    (cpu.perform immediate i : StateM β (Bool × Cpu)) = (do
      let data ← (cpu.dataRead immediate i).perform
      (cpu.effect immediate data i).perform) := by
  cases i with
  | storeHigh => exact perform_storeHigh cpu (loByte immediate)
  | ldImm dst => exact store8_bind cpu dst (loByte immediate)
  | ld dst src | inc dst | dec dst | shift op dst | res index dst | set index dst =>
    rw [perform, fetch8_bind]
    simp only [store8_bind]
    rfl
  | alu op src | bit index src =>
    rw [perform, fetch8_bind]
    rfl
  | storeA dst =>
    cases dst <;> rfl
  | loadA _ | loadHighC | loadAbs =>
    simp only [perform, dataRead, effect, DataRead.perform, bind_assoc, pure_bind,
      loByte_toUInt16]
    rfl
  | loadHigh =>
    simp only [perform, dataRead, effect]
    split
    · rfl
    · simp only [DataRead.perform, bind_assoc, pure_bind, loByte_toUInt16]
      rfl
  | jr condition | jp condition =>
    simp only [perform, effect]
    split <;> rfl
  | call condition =>
    simp only [perform, effect, pushWord_eq]
    split <;> rfl
  | ret condition =>
    simp only [perform, dataRead, effect]
    split <;> rfl
  | rst target | push pair =>
    rw [perform, pushWord_eq]
    rfl
  | _ => rfl

/-- Executing an instruction is carrying it out access by access, once its immediate is fetched. -/
theorem execute_eq_perform (cpu : Cpu) (i : Instruction) :
    (cpu.execute i : StateM β (Nat × Cpu)) = (do
      let immediate ← fetchImmediate cpu.regs.pc i.immediate
      Bus.report (.executing i immediate cpu.regs)
      let (taken, left) ← (cpu.passing i).perform immediate i
      let cost := if taken then i.cost.taken else i.cost.base
      return (cost, { left with cycles := cost })) := by
  simp only [execute, perform_eq_plan, Effect.perform, bind_assoc, pure_bind, costOf]

/-- Entering a handler is clearing the request and then pushing PC, access by access. -/
theorem serviceInterrupt_eq_perform (cpu : Cpu) :
    (cpu.serviceInterrupt : StateM β (Option Nat × Cpu)) = (do
      if cpu.ime then
        let pending ← pendingInterrupts
        match pending.lowest? with
        | none => return (none, cpu)
        | some source =>
          let requested ← Bus.read8 Hardware.interruptFlags
          Bus.write8 Hardware.interruptFlags
            (requested &&& ~~~(Interrupts.single source).bits)
          let pushed ← { cpu with ime := false, halted := false }.pushWord cpu.regs.pc
          let entered := pushed.goto (Interrupts.handler source)
          Bus.report
            (.interrupted source cpu.regs.pc entered.regs.sp pending.bits requested)
          return (some dispatchCycles, entered)
      else return (none, cpu)) := by
  simp only [serviceInterrupt, dispatch, performAll_append, pushWord_eq, performAll]
  split
  · congr 1
    funext pending
    cases pending.lowest? with
    | none => rfl
    | some source => simp [Action.perform, push, goto]
  · rfl

end

end Cpu

end Handheld
