-- SUMMARY: An instruction on the byte at HL does what its register form does to a register that holds that byte.
import Handheld.Proofs.Cpu.Fetch
import Handheld.Proofs.Cpu.Frame

namespace Handheld

open LawfulBus

/-! ## Instructions with an open operand

Most instructions on bytes leave it to one operand where the byte lies: in a
register or in memory at HL. Here is what is left of such an instruction when
that operand is taken out of it. -/

/-- A byte register: an 8-bit operand that does not lie in memory. -/
abbrev Register8 := { r : Operand8 // r ≠ .atHl }

/-- An instruction with a slot for an 8-bit operand. -/
inductive Slotted where
  /-- `LD r,·`. -/
  | loadInto (dst : Register8)
  /-- `LD ·,r`. -/
  | storeFrom (src : Register8)
  /-- `LD ·,d8`. -/
  | storeImm
  | alu (op : AluOp)
  | inc
  | dec
  | shift (op : ShiftOp)
  | bit (index : UInt8)
  | res (index : UInt8)
  | set (index : UInt8)

namespace Slotted

/-- The instruction with an operand in its slot. -/
def fill (form : Slotted) (slot : Operand8) : Instruction :=
  match form with
  | loadInto dst => .ld dst slot
  | storeFrom src => .ld slot src
  | storeImm => .ldImm slot
  | alu op => .alu op slot
  | inc => .inc slot
  | dec => .dec slot
  | shift op => .shift op slot
  | bit index => .bit index slot
  | res index => .res index slot
  | set index => .set index slot

/-- The operand that the instruction names besides its slot. -/
def names? : Slotted → Option Operand8
  | loadInto r | storeFrom r => some r
  | _ => none

/-- Whether the instruction looks at its slot. -/
def reads : Slotted → Bool
  | storeFrom _ | storeImm => false
  | _ => true

/-- Whether the instruction writes its slot. -/
def writes : Slotted → Bool
  | loadInto _ | alu _ | bit _ => false
  | _ => true

/-- What the instruction makes of the processor and of the value in its slot, which is `none`
    where the slot is not written. -/
def act (form : Slotted) (cpu : Cpu) (immediate : UInt16) (value : UInt8) : Cpu × Option UInt8 :=
  let f := cpu.regs.f
  let replaced (result : UInt8 × Flags) := (cpu.withFlags result.2, some result.1)
  match form with
  | loadInto dst => ((cpu.put8 dst value).cpu, none)
  | storeFrom src => (cpu, some (cpu.operand8 0 src))
  | storeImm => (cpu, some (loByte immediate))
  | alu op => (cpu.operate op value, none)
  | inc => replaced (Alu.inc value f)
  | dec => replaced (Alu.dec value f)
  | shift op => replaced (Alu.shift op value f.carry)
  | bit index => (cpu.withFlags (Alu.testBit index value f), none)
  | res index => (cpu, some (value &&& ~~~Alu.mask index))
  | set index => (cpu, some (value ||| Alu.mask index))

/-- Puts what the instruction made of its slot back there. -/
def putBack (slot : Operand8) : Cpu × Option UInt8 → Effect
  | (cpu, none) => { cpu }
  | (cpu, some value) => cpu.put8 slot value

variable (form : Slotted)

theorem condition_fill (slot : Operand8) : (form.fill slot).condition = none := by
  cases form <;> rfl

theorem advance_fill (config : Cpu.Config) (slot slot' : Operand8) :
    config.advance (form.fill slot) = config.advance (form.fill slot') := by
  cases form <;> rfl

/-- An effect is what the instruction makes of its slot, put back there. -/
theorem effect_fill (cpu : Cpu) (immediate data : UInt16) (slot : Operand8) :
    cpu.effect immediate data (form.fill slot) =
      putBack slot (form.act cpu immediate (cpu.operand8 (loByte data) slot)) := by
  cases form with
  | loadInto dst =>
    obtain ⟨dst, hdst⟩ := dst
    cases dst with
    | atHl => exact absurd rfl hdst
    | _ => rfl
  | storeFrom src =>
    obtain ⟨src, hsrc⟩ := src
    cases src with
    | atHl => exact absurd rfl hsrc
    | _ => rfl
  | _ => rfl

theorem isSome_act (cpu : Cpu) (immediate : UInt16) (value : UInt8) :
    (form.act cpu immediate value).2.isSome = form.writes := by
  cases form <;> rfl

/-- A slot is filled with a register: nothing is read. -/
theorem dataRead_fill_register (cpu : Cpu) (immediate : UInt16) {slot : Operand8}
    (h : slot ≠ .atHl) : cpu.dataRead immediate (form.fill slot) = .none := by
  cases form with
  | storeFrom src => exact if_neg src.2
  | storeImm => rfl
  | _ => exact if_neg h

theorem dataRead_fill_atHl (cpu : Cpu) (immediate : UInt16) :
    cpu.dataRead immediate (form.fill .atHl) =
      if form.reads then .byte cpu.regs.hl else .none := by
  cases form with
  | storeFrom src => exact if_neg src.2
  | _ => rfl

/-- The effect on the byte at HL. -/
theorem effect_fill_atHl (cpu : Cpu) (immediate : UInt16) (image : Image) :
    cpu.effect immediate ((cpu.dataRead immediate (form.fill .atHl)).valueIn image)
        (form.fill .atHl) =
      putBack .atHl (form.act cpu immediate (image cpu.regs.hl)) := by
  rw [effect_fill, dataRead_fill_atHl]
  cases form with
  | storeFrom src => rfl
  | storeImm => rfl
  | _ =>
    show putBack .atHl (act _ cpu immediate (loByte (image cpu.regs.hl).toUInt16)) = _
    rw [loByte_toUInt16]

theorem hl_act (cpu : Cpu) (immediate : UInt16) (value : UInt8) (h : form.writes = true) :
    (form.act cpu immediate value).1.regs.hl = cpu.regs.hl := by
  cases form with
  | loadInto dst => cases h
  | alu op => cases h
  | bit index => cases h
  | _ => rfl

/-- The instruction does not look at a register that it does not name. -/
theorem act_put8 {form : Slotted} {cpu : Cpu} {x : Operand8} (immediate : UInt16)
    (value other : UInt8) (hx : x ∈ [.b, .c, .d, .e]) (hname : form.names? ≠ some x)
    (hconfig : cpu.config.subtrahend = .operand) :
    form.act (cpu.put8 x other).cpu immediate value =
      (((form.act cpu immediate value).1.put8 x other).cpu, (form.act cpu immediate value).2) := by
  cases x with
  | a | h | l | atHl => exact absurd hx (by decide)
  | b | c | d | e =>
    cases form with
    | loadInto dst =>
      obtain ⟨dst, hdst⟩ := dst
      cases dst <;> first | rfl | exact absurd rfl hname
    | storeFrom src =>
      have hsrc : (src : Operand8) ≠ _ := fun heq => hname (congrArg some heq)
      exact Prod.ext rfl (congrArg some (Cpu.operand8_put8 cpu _ other hsrc))
    | alu op =>
      cases op with
      | sub =>
        simp only [act, Cpu.operate, Cpu.put8, hconfig]
        rfl
      | _ => rfl
    | _ => rfl

/-- Apart from reading the slot and writing it back, both forms cost the same. -/
theorem cost_fill_atHl {x : Operand8} (hx : x ≠ .atHl) :
    (form.fill .atHl).cost.base =
      (form.fill x).cost.base + (form.reads.toNat + form.writes.toNat) := by
  cases form with
  | loadInto dst | storeFrom dst =>
    obtain ⟨dst, hdst⟩ := dst
    simp [fill, reads, writes, Instruction.cost, Instruction.Cost.fixed, hx, hdst]
  | _ => simp [fill, reads, writes, Instruction.cost, Instruction.Cost.byOperand,
      Instruction.Cost.fixed, hx]

end Slotted

namespace Cpu

/-! ## Carrying out an instruction on a flat bus -/

/-- An instruction that is carried out on a flat bus reads its data, then makes the stores of its
    effect, and does nothing else there. -/
theorem carryOut_run_flat (cpu : Cpu) (i : Instruction) (immediate : UInt16) (bus : FlatBus) :
    let read := (cpu.passing i).dataRead immediate i
    let effect := (cpu.passing i).effect immediate (read.valueIn bus.memory.get) i
    ∃ bus', (cpu.carryOut i immediate).run bus =
        ((.ok (costOf i effect), effect.cpu.timed (costOf i effect)), bus') ∧
      bus'.memory = putAll (β := FlatBus) effect.actions bus.memory ∧
      bus'.traffic.toList = bus.traffic.toList ++
        (read.reads bus.memory.get ++ FlatBus.writes (storesOf effect.actions)) := by
  intro read effect
  let reported : FlatBus := cpu.announced i immediate bus
  obtain ⟨hvalue, hheld⟩ := perform_observes (β := FlatBus) read reported
  have hreads := adds_dataRead read reported
  have hdone : (cpu.carryOut i immediate).run bus =
      (let data := (read.perform : StateM FlatBus UInt16).run reported
      let effect := (cpu.passing i).effect immediate data.1 i
      ((.ok (costOf i effect), effect.cpu.timed (costOf i effect)),
        ((performAll effect.actions).run data.2).2)) := rfl
  dsimp only at hdone
  rw [hvalue] at hdone
  generalize ((read.perform : StateM FlatBus UInt16).run reported).2 = bus₁ at hheld hreads hdone
  refine ⟨_, hdone, ?_, ?_⟩
  · exact (performAll_held effect.actions bus₁).trans (congrArg _ hheld)
  · refine (FlatBus.adds_performAll effect.actions bus₁).trans ?_
    rw [hreads, List.append_assoc]
    rfl

/-! ## The two forms of an instruction -/

/-- Two processors differ at most in one byte register and in what the latest step has cost. -/
structure AgreesExcept (x : Operand8) (cpu cpu' : Cpu) : Prop where
  flags : cpu'.regs.f = cpu.regs.f
  pc : cpu'.regs.pc = cpu.regs.pc
  sp : cpu'.regs.sp = cpu.regs.sp
  ime : cpu'.ime = cpu.ime
  halted : cpu'.halted = cpu.halted
  registers : ∀ r ≠ x, cpu'.operand8 0 r = cpu.operand8 0 r

theorem agreesExcept_put8 (cpu : Cpu) (x : Operand8) (value : UInt8) (cost cost' : Nat) :
    AgreesExcept x (cpu.timed cost) ((cpu.put8 x value).cpu.timed cost') where
  flags := f_put8 cpu x value
  pc := (keeps_put8 cpu x value).pc
  sp := sp_put8 cpu x value
  ime := (onlyRegs_put8 cpu x value).ime
  halted := (onlyRegs_put8 cpu x value).halted
  registers _ hr := operand8_put8 cpu x value hr

theorem operand8_put8_self (cpu : Cpu) {x : Operand8} (value : UInt8) (h : x ≠ .atHl) :
    (cpu.put8 x value).cpu.operand8 0 x = value := by
  cases x with
  | atHl => exact absurd rfl h
  | _ => rfl

theorem put8_put8 (cpu : Cpu) (x : Operand8) (value other : UInt8) :
    ((cpu.put8 x other).cpu.put8 x value).cpu = (cpu.put8 x value).cpu := by
  cases x <;> rfl

theorem passing_put8 (cpu : Cpu) (x : Operand8) (value : UInt8) (i : Instruction) :
    (cpu.put8 x value).cpu.passing i = ((cpu.passing i).put8 x value).cpu := by
  cases x <;> rfl

theorem cpu_putBack (cpu : Cpu) (x : Operand8) (value : UInt8) (written : Option UInt8) :
    (Slotted.putBack x ((cpu.put8 x value).cpu, written)).cpu =
      (cpu.put8 x (written.getD value)).cpu := by
  cases written with
  | none => rfl
  | some other => exact put8_put8 ..

theorem costOf_fill (form : Slotted) (slot : Operand8) (effect : Effect) :
    costOf (form.fill slot) effect = (form.fill slot).cost.base := by
  rw [costOf, Instruction.taken_eq_base (form.condition_fill slot), ite_self]

/-- What is carried out on a register: the processor does what the instruction makes of its slot. -/
theorem carryOut_fill_register (cpu : Cpu) (form : Slotted) {x : Operand8} (hx : x ≠ .atHl)
    (immediate : UInt16) (bus : FlatBus) :
    let cost := (form.fill x).cost.base
    let acted := form.act (cpu.passing (form.fill x)) immediate (cpu.operand8 0 x)
    ∃ bus', (cpu.carryOut (form.fill x) immediate).run bus =
      ((.ok cost, (Slotted.putBack x acted).cpu.timed cost), bus') := by
  intro cost acted
  obtain ⟨bus', hrun, -⟩ := cpu.carryOut_run_flat (form.fill x) immediate bus
  rw [form.dataRead_fill_register _ immediate hx, form.effect_fill, costOf_fill] at hrun
  exact ⟨bus', hrun⟩

/-- What is put back at HL is a single store there. -/
theorem putBack_atHl {cpu : Cpu} {written : Option UInt8} {address : UInt16} (memory : Memory)
    (h : written.isSome = true → cpu.regs.hl = address) :
    let effect := Slotted.putBack .atHl (cpu, written)
    effect.cpu = cpu ∧
      putAll (β := FlatBus) effect.actions memory = written.elim memory (memory.set address) ∧
      FlatBus.writes (storesOf effect.actions) = written.toList.map (⟨.write, address, ·⟩) := by
  cases written with
  | none => exact ⟨rfl, rfl, rfl⟩
  | some value =>
    obtain rfl := h rfl
    exact ⟨rfl, rfl, rfl⟩

/-- What is carried out on the byte at HL: each access is one at HL, and the byte there changes as
    the slot does. -/
theorem carryOut_fill_atHl (cpu : Cpu) (form : Slotted) (immediate : UInt16) (bus : FlatBus) :
    let cost := (form.fill .atHl).cost.base
    let value := bus.memory.get cpu.regs.hl
    let acted := form.act (cpu.passing (form.fill .atHl)) immediate value
    ∃ bus' accesses, (cpu.carryOut (form.fill .atHl) immediate).run bus =
        ((.ok cost, acted.1.timed cost), bus') ∧
      bus'.memory =
        (if form.writes then bus.memory.set cpu.regs.hl (acted.2.getD value) else bus.memory) ∧
      bus'.traffic.toList = bus.traffic.toList ++ accesses ∧
      (∀ access ∈ accesses, access.address = cpu.regs.hl) ∧
      accesses.length = form.reads.toNat + form.writes.toNat := by
  intro cost value acted
  obtain ⟨bus', hrun, hmemory, htraffic⟩ :=
    cpu.carryOut_run_flat (form.fill .atHl) immediate bus
  have heffect : _ = Slotted.putBack .atHl acted :=
    form.effect_fill_atHl (cpu.passing (form.fill .atHl)) immediate bus.memory.get
  have hwrites : acted.2.isSome = form.writes := form.isSome_act ..
  have hhl (h : acted.2.isSome = true) : acted.1.regs.hl = cpu.regs.hl :=
    form.hl_act _ immediate value (hwrites ▸ h)
  obtain ⟨hcpu, hput, hstored⟩ := putBack_atHl bus.memory hhl
  have hread : DataRead.reads bus.memory.get
        (if form.reads then .byte (cpu.passing (form.fill .atHl)).regs.hl else .none) =
      if form.reads then [⟨.read, cpu.regs.hl, value⟩] else [] := by
    split <;> rfl
  rw [heffect, costOf_fill, hcpu] at hrun
  rw [heffect, hput] at hmemory
  rw [heffect, hstored, form.dataRead_fill_atHl, hread] at htraffic
  refine ⟨bus', _, hrun, hmemory.trans ?_, htraffic, ?_, ?_⟩
  · rw [← hwrites]
    cases acted.2 <;> rfl
  · intro access haccess
    rcases List.mem_append.mp haccess with hread | hwrite
    · split at hread
      · rw [List.mem_singleton.mp hread]
      · cases hread
    · obtain ⟨byte, -, rfl⟩ := List.mem_map.mp hwrite
      rfl
  · rw [← hwrites]
    cases form.reads <;> cases acted.2 <;> rfl

/-- An instruction on the byte at HL does what its register form does to a register that holds that
    byte and is not named otherwise. Both leave the same flags, program counter, stack pointer,
    interrupt and halt switches, and the same byte registers but for that one. If the instruction
    writes its operand, the byte at HL becomes what that register holds in the end, and all other
    memory is as before. Each access that is made at HL costs one cycle more. The subtractions among
    these instructions subtract what they name, as they do by default. -/
theorem memory_operand_agrees {cpu : Cpu} {form : Slotted} {x : Operand8}
    (hconfig : cpu.config.subtrahend = .operand) (hx : x ∈ [.b, .c, .d, .e])
    (hname : form.names? ≠ some x) (immediate : UInt16) (bus : FlatBus) :
    let inMemory := form.fill .atHl
    let inRegister := form.fill x
    let loaded := (cpu.put8 x (bus.memory.get cpu.regs.hl)).cpu
    ∃ cpu₁ cpu₂ bus₁ bus₂ accesses,
      (cpu.carryOut inMemory immediate).run bus = ((.ok inMemory.cost.base, cpu₁), bus₁) ∧
      (loaded.carryOut inRegister immediate).run bus =
        ((.ok inRegister.cost.base, cpu₂), bus₂) ∧
      AgreesExcept x cpu₁ cpu₂ ∧
      bus₁.memory =
        (if form.writes then bus.memory.set cpu.regs.hl (cpu₂.operand8 0 x) else bus.memory) ∧
      bus₁.traffic.toList = bus.traffic.toList ++ accesses ∧
      (∀ access ∈ accesses, access.address = cpu.regs.hl) ∧
      inMemory.cost.base = inRegister.cost.base + accesses.length := by
  intro inMemory inRegister loaded
  have hregister : x ≠ .atHl := fun heq => absurd (heq ▸ hx) (by decide)
  let value := bus.memory.get cpu.regs.hl
  let acted := form.act (cpu.passing inMemory) immediate value
  obtain ⟨bus₁, accesses, hrun₁, hmemory, htraffic, haddress, hlength⟩ :=
    cpu.carryOut_fill_atHl form immediate bus
  obtain ⟨bus₂, hrun₂⟩ := loaded.carryOut_fill_register form hregister immediate bus
  have hsame : cpu.passing inRegister = cpu.passing inMemory := by
    rw [passing, passing, form.advance_fill cpu.config x .atHl]
  have hacted : form.act (loaded.passing inRegister) immediate (loaded.operand8 0 x) =
      ((acted.1.put8 x value).cpu, acted.2) := by
    rw [operand8_put8_self cpu _ hregister, passing_put8, hsame]
    exact Slotted.act_put8 immediate _ _ hx hname hconfig
  rw [hacted, cpu_putBack] at hrun₂
  let written := (acted.1.put8 x (acted.2.getD value)).cpu
  have hslot : (written.timed inRegister.cost.base).operand8 0 x = acted.2.getD value :=
    operand8_put8_self acted.1 _ hregister
  refine ⟨_, _, bus₁, bus₂, accesses, hrun₁, hrun₂, agreesExcept_put8 .., ?_, htraffic, haddress,
    ?_⟩
  · rw [hslot, hmemory]
  · rw [hlength]
    exact form.cost_fill_atHl hregister

/-- Incrementing the byte `0xFF` in memory and in register D. -/
theorem memory_operand_agrees_incToZero :
    let cpu : Cpu := { regs := { h := 0xC0 } }
    let bus : FlatBus := { memory := Memory.zero.set 0xC000 0xFF }
    ∃ cpu₁ cpu₂ bus₁ bus₂,
      (cpu.carryOut (.inc .atHl) 0).run bus = ((.ok 3, cpu₁), bus₁) ∧
      ((cpu.put8 .d 0xFF).cpu.carryOut (.inc .d) 0).run bus = ((.ok 1, cpu₂), bus₂) ∧
      cpu₂.regs.f = cpu₁.regs.f ∧ bus₁.memory = bus.memory.set 0xC000 cpu₂.regs.d := by
  intro cpu bus
  have hconfig : cpu.config.subtrahend = .operand := rfl
  have hx : Operand8.d ∈ [.b, .c, .d, .e] := by decide
  have hname : Slotted.inc.names? ≠ some .d := by decide
  have hhl : cpu.regs.hl = 0xC000 := by decide
  have hvalue : bus.memory.get cpu.regs.hl = 0xFF := hhl ▸ Memory.get_set_self ..
  obtain ⟨cpu₁, cpu₂, bus₁, bus₂, -, hrun₁, hrun₂, hagrees, hmemory, -⟩ :=
    memory_operand_agrees hconfig hx hname 0 bus
  rw [hvalue] at hrun₂
  rw [hhl] at hmemory
  exact ⟨cpu₁, cpu₂, bus₁, bus₂, hrun₁, hrun₂, hagrees.flags, hmemory⟩

end Cpu

end Handheld
