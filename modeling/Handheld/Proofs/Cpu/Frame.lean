-- SUMMARY: The frame of every instruction: the switches, flags, registers and bytes that a successful step can change.
import Handheld.Proofs.Cpu.Control
import Handheld.Proofs.Cpu.Traffic

namespace Handheld

open LawfulBus

/-! ## What instructions may change

One table for each part of the state. A flag or a byte register that is in no
row of an instruction is kept by it. -/

/-- The byte registers of a 16-bit register. -/
def Reg16.halves : Reg16 → List Operand8
  | bc => [.b, .c]
  | de => [.d, .e]
  | hl => [.h, .l]
  | sp => []

/-- The byte registers of a stack pair. The other half of AF are the flags. -/
def StackPair.halves : StackPair → List Operand8
  | bc => [.b, .c]
  | de => [.d, .e]
  | hl => [.h, .l]
  | af => [.a]

/-- How far the use of a pointer moves HL. -/
def Pointer.stride : Pointer → UInt16
  | bc | de => 0
  | hlUp => 1
  | hlDown => -1

/-- The byte registers that a pointer moves. -/
def Pointer.moved : Pointer → List Operand8
  | bc | de => []
  | hlUp | hlDown => [.h, .l]

namespace Instruction

/-- The flags that an instruction may change. -/
def flags : Instruction → List Flag
  | alu _ _ | aluImm _ | addSpOffset | ldHlSpOffset | rlca | rrca | rla | rra | shift _ _
  | pop .af =>
    [.zero, .subtract, .halfCarry, .carry]
  | inc _ | dec _ | bit _ _ => [.zero, .subtract, .halfCarry]
  | addHl _ | scf | ccf => [.subtract, .halfCarry, .carry]
  | daa => [.zero, .halfCarry, .carry]
  | cpl => [.subtract, .halfCarry]
  | _ => []

/-- The pointer that an instruction uses. -/
def pointer? : Instruction → Option Pointer
  | storeA pointer | loadA pointer => some pointer
  | _ => none

/-- The operands that an instruction has as its destination. `(HL)` is among them where the
    destination lies in memory. -/
def destinations : Instruction → List Operand8
  | ld dst _ | ldImm dst | inc dst | dec dst | shift _ dst | res _ dst | set _ dst => [dst]
  | ldImm16 dst | inc16 dst | dec16 dst => dst.halves
  | addHl _ | ldHlSpOffset => [.h, .l]
  | pop pair => pair.halves
  | alu op _ | aluImm op => if op = .cp then [] else [.a]
  | loadA _ | loadHigh | loadHighC | loadAbs => [.a]
  | rlca | rrca | rla | rra | daa | cpl => [.a]
  | _ => []

/-- The byte registers that an instruction may change: its destinations, and H and L where it
    steps them as a pointer. -/
def changes (i : Instruction) : List Operand8 :=
  i.destinations ++ i.pointer?.elim [] Pointer.moved

/-- Whether an instruction has SP as its destination. -/
def setsSp : Instruction → Bool
  | ldImm16 .sp | inc16 .sp | dec16 .sp | ldSpHl | addSpOffset => true
  | _ => false

end Instruction

namespace Cpu

/-- How far an instruction moves SP by using the stack. -/
def stackMove (cpu : Cpu) : Instruction → UInt16
  | .push _ | .rst _ => -2
  | .pop _ | .reti => 2
  | .call condition => if cpu.transfers condition then -2 else 0
  | .ret condition => if cpu.transfers condition then 2 else 0
  | _ => 0

/-- The addresses to which an instruction at PC writes, in the order in which it does. -/
def writesTo (cpu : Cpu) (image : Image) (i : Instruction) : List UInt16 :=
  let pc := cpu.regs.pc
  let sp := cpu.regs.sp
  match i with
  | .ld .atHl _ | .ldImm .atHl | .inc .atHl | .dec .atHl
  | .shift _ .atHl | .res _ .atHl | .set _ .atHl => [cpu.regs.hl]
  | .storeA pointer => [cpu.pointer pointer]
  | .storeHigh => [0xFF00 + (image (pc + 1)).toUInt16]
  | .storeHighC => [0xFF00 + cpu.regs.c.toUInt16]
  | .storeAbs => [image.wordAt (pc + 1)]
  | .storeSp => [image.wordAt (pc + 1) + 1, image.wordAt (pc + 1)]
  | .push _ | .rst _ => [sp - 1, sp - 2]
  | .call condition => if cpu.transfers condition then [sp - 1, sp - 2] else []
  | _ => []

/-- Between two processors nothing has changed that an instruction keeps. -/
structure Framed (cpu : Cpu) (i : Instruction) (cpu' : Cpu) : Prop where
  ime : i ≠ .ei → i ≠ .di → i ≠ .reti → cpu'.ime = cpu.ime
  halted : i ≠ .halt → i ≠ .stop → cpu'.halted = cpu.halted
  flags : ∀ flag ∉ i.flags, cpu'.regs.f.get flag = cpu.regs.f.get flag
  registers : ∀ r ∉ i.changes, cpu'.operand8 0 r = cpu.operand8 0 r
  hl : ∀ pointer, i.pointer? = some pointer → cpu'.regs.hl = cpu.regs.hl + pointer.stride
  sp : i.setsSp = false → cpu'.regs.sp = cpu.regs.sp + cpu.stackMove i

/-! ## Interrupts and halting -/

/-- Nothing but registers differs. -/
def OnlyRegs (cpu cpu' : Cpu) : Prop :=
  cpu' = { cpu with regs := cpu'.regs }

theorem OnlyRegs.ime {cpu cpu' : Cpu} (h : cpu.OnlyRegs cpu') : cpu'.ime = cpu.ime := by
  unfold OnlyRegs at h
  rw [h]

theorem OnlyRegs.halted {cpu cpu' : Cpu} (h : cpu.OnlyRegs cpu') : cpu'.halted = cpu.halted := by
  unfold OnlyRegs at h
  rw [h]

theorem onlyRegs_put8 (cpu : Cpu) (dst : Operand8) (value : UInt8) :
    cpu.OnlyRegs (cpu.put8 dst value).cpu := by
  cases dst <;> rfl

theorem onlyRegs_setReg16 (cpu : Cpu) (dst : Reg16) (value : UInt16) :
    cpu.OnlyRegs (cpu.setReg16 dst value) := by
  cases dst <;> rfl

theorem onlyRegs_setStackPair (cpu : Cpu) (dst : StackPair) (value : UInt16) :
    cpu.OnlyRegs (cpu.setStackPair dst value) := by
  cases dst <;> rfl

theorem onlyRegs_stepPointer (cpu : Cpu) (pointer : Pointer) :
    cpu.OnlyRegs (cpu.stepPointer pointer) := by
  cases pointer <;> rfl

theorem onlyRegs_operate (cpu : Cpu) (op : AluOp) (value : UInt8) :
    cpu.OnlyRegs (cpu.operate op value) := by
  cases op with
  | sub =>
    rw [operate]
    cases cpu.config.subtrahend <;> rfl
  | _ => rfl

/-- All but five instructions change nothing but registers. -/
theorem onlyRegs_effect {cpu : Cpu} (immediate data : UInt16) {i : Instruction}
    (hoverlay : cpu.overlay = none) (h : i ∉ [.stop, .halt, .di, .ei, .reti]) :
    cpu.OnlyRegs (cpu.effect immediate data i).cpu := by
  cases i with
  | stop | halt | di | ei | reti => simp at h
  | ld dst src | ldImm dst | res index dst | set index dst => exact onlyRegs_put8 ..
  | inc dst | dec dst | shift op dst => exact onlyRegs_put8 (cpu.withFlags _) ..
  | ldImm16 dst | inc16 dst | dec16 dst => exact onlyRegs_setReg16 ..
  | storeA dst => exact onlyRegs_stepPointer ..
  | loadA src => cases src <;> rfl
  | storeHigh =>
    rw [effect, storeHigh, hoverlay]
    rfl
  | alu op src | aluImm op => exact onlyRegs_operate ..
  | jr condition | jp condition | call condition | ret condition =>
    rw [effect]
    split <;> rfl
  | pop pair => exact onlyRegs_setStackPair cpu.drop ..
  | _ => rfl

theorem ime_effect (cpu : Cpu) (immediate data : UInt16) {i : Instruction}
    (hoverlay : cpu.overlay = none) (hei : i ≠ .ei) (hdi : i ≠ .di) (hreti : i ≠ .reti) :
    (cpu.effect immediate data i).cpu.ime = cpu.ime := by
  by_cases h : i = .stop ∨ i = .halt
  · rcases h with rfl | rfl <;> rfl
  · have hother : i ∉ [.stop, .halt, .di, .ei, .reti] := by simp_all
    exact (onlyRegs_effect immediate data hoverlay hother).ime

theorem halted_effect (cpu : Cpu) (immediate data : UInt16) {i : Instruction}
    (hoverlay : cpu.overlay = none) (hhalt : i ≠ .halt) (hstop : i ≠ .stop) :
    (cpu.effect immediate data i).cpu.halted = cpu.halted := by
  by_cases h : i = .di ∨ i = .ei ∨ i = .reti
  · rcases h with rfl | rfl | rfl <;> rfl
  · have hother : i ∉ [.stop, .halt, .di, .ei, .reti] := by simp_all
    exact (onlyRegs_effect immediate data hoverlay hother).halted

theorem regs_storeHigh (cpu : Cpu) (offset : UInt8) :
    (cpu.storeHigh offset).cpu.regs = cpu.regs := by
  unfold storeHigh
  cases cpu.overlay with
  | none => rfl
  | some overlay =>
    dsimp only
    split <;> rfl

/-! ## Flags -/

theorem f_put8 (cpu : Cpu) (dst : Operand8) (value : UInt8) :
    (cpu.put8 dst value).cpu.regs.f = cpu.regs.f := by
  cases dst <;> rfl

theorem f_setReg16 (cpu : Cpu) (dst : Reg16) (value : UInt16) :
    (cpu.setReg16 dst value).regs.f = cpu.regs.f := by
  cases dst <;> rfl

theorem f_stepPointer (cpu : Cpu) (pointer : Pointer) :
    (cpu.stepPointer pointer).regs.f = cpu.regs.f := by
  cases pointer <;> rfl

theorem f_setStackPair (cpu : Cpu) {dst : StackPair} (value : UInt16) (h : dst ≠ .af) :
    (cpu.setStackPair dst value).regs.f = cpu.regs.f := by
  cases dst with
  | af => exact absurd rfl h
  | _ => rfl

/-- An instruction keeps the flags that are not in its row. -/
theorem get_f_effect (cpu : Cpu) (immediate data : UInt16) (i : Instruction) {flag : Flag}
    (h : flag ∉ i.flags) :
    (cpu.effect immediate data i).cpu.regs.f.get flag = cpu.regs.f.get flag := by
  let flagOf (f : Flags) : Bool := f.get flag
  cases i with
  | ld dst src | ldImm dst | res index dst | set index dst => exact congrArg flagOf (f_put8 ..)
  | inc dst | dec dst =>
    refine (congrArg flagOf (f_put8 (cpu.withFlags _) dst _)).trans ?_
    cases flag with
    | carry => rfl
    | _ => simp [Instruction.flags] at h
  | bit index src =>
    cases flag with
    | carry => rfl
    | _ => simp [Instruction.flags] at h
  | addHl src =>
    cases flag with
    | zero => rfl
    | _ => simp [Instruction.flags] at h
  | scf | ccf =>
    cases flag with
    | zero => rfl
    | _ => simp [Instruction.flags] at h
  | daa =>
    cases flag with
    | subtract => rfl
    | _ => simp [Instruction.flags] at h
  | cpl =>
    cases flag with
    | zero | carry => rfl
    | _ => simp [Instruction.flags] at h
  | alu op src | aluImm op | addSpOffset | ldHlSpOffset | rlca | rrca | rla | rra | shift op dst =>
    cases flag <;> simp [Instruction.flags] at h
  | pop pair =>
    have hpair : pair ≠ .af := by
      rintro rfl
      cases flag <;> simp [Instruction.flags] at h
    exact congrArg flagOf (f_setStackPair cpu.drop data hpair)
  | ldImm16 dst | inc16 dst | dec16 dst => exact congrArg flagOf (f_setReg16 ..)
  | storeA pointer | loadA pointer => exact congrArg flagOf (f_stepPointer cpu pointer)
  | storeHigh => exact congrArg (flagOf ·.f) (regs_storeHigh ..)
  | jr condition | jp condition | call condition | ret condition =>
    rw [effect]
    split <;> rfl
  | _ => rfl

/-! ## Byte registers -/

theorem operand8_put8 (cpu : Cpu) (dst : Operand8) {r : Operand8} (value : UInt8) (h : r ≠ dst) :
    (cpu.put8 dst value).cpu.operand8 0 r = cpu.operand8 0 r := by
  cases dst <;> cases r <;> first | rfl | exact absurd rfl h

theorem operand8_setReg16 (cpu : Cpu) (dst : Reg16) {r : Operand8} (value : UInt16)
    (h : r ∉ dst.halves) : (cpu.setReg16 dst value).operand8 0 r = cpu.operand8 0 r := by
  cases dst <;> cases r <;> first | rfl | exact absurd h (by decide)

theorem operand8_setStackPair (cpu : Cpu) {dst : StackPair} {r : Operand8} (value : UInt16)
    (h : r ∉ dst.halves) : (cpu.setStackPair dst value).operand8 0 r = cpu.operand8 0 r := by
  cases dst <;> cases r <;> first | rfl | exact absurd h (by decide)

theorem operand8_stepPointer (cpu : Cpu) {pointer : Pointer} {r : Operand8}
    (h : r ∉ pointer.moved) : (cpu.stepPointer pointer).operand8 0 r = cpu.operand8 0 r := by
  cases pointer <;> cases r <;> first | rfl | exact absurd h (by decide)

theorem operand8_accumulate (cpu : Cpu) {r : Operand8} (result : UInt8 × Flags) (h : r ≠ .a) :
    (cpu.accumulate result).operand8 0 r = cpu.operand8 0 r := by
  cases r <;> first | rfl | exact absurd rfl h

theorem operand8_operate (cpu : Cpu) {op : AluOp} {r : Operand8} (value : UInt8)
    (h : r ∉ if op = .cp then [] else [Operand8.a]) :
    (cpu.operate op value).operand8 0 r = cpu.operand8 0 r := by
  cases op with
  | cp => rfl
  | sub =>
    have ha : r ≠ .a := by simpa using h
    rw [operate]
    cases cpu.config.subtrahend <;> exact operand8_accumulate cpu _ ha
  | _ => exact operand8_accumulate cpu _ (by simpa using h)

/-- An instruction keeps the byte registers that are neither its destinations nor stepped. -/
theorem operand8_effect (cpu : Cpu) (immediate data : UInt16) (i : Instruction) {r : Operand8}
    (h : r ∉ i.changes) :
    (cpu.effect immediate data i).cpu.operand8 0 r = cpu.operand8 0 r := by
  obtain ⟨hkept, hstill⟩ := not_or.mp (mt List.mem_append.mpr h)
  cases i with
  | ld dst src | ldImm dst | res index dst | set index dst =>
    exact operand8_put8 cpu _ _ (List.ne_of_not_mem_cons hkept)
  | inc dst | dec dst | shift op dst =>
    exact operand8_put8 (cpu.withFlags _) _ _ (List.ne_of_not_mem_cons hkept)
  | ldImm16 dst | inc16 dst | dec16 dst => exact operand8_setReg16 cpu _ _ hkept
  | addHl src | ldHlSpOffset =>
    exact operand8_setReg16 (cpu.withFlags _) .hl _ hkept
  | storeA pointer => exact operand8_stepPointer cpu hstill
  | loadA pointer =>
    have ha : r ≠ .a := List.ne_of_not_mem_cons hkept
    refine Eq.trans ?_ (operand8_stepPointer cpu hstill)
    exact operand8_put8 (cpu.stepPointer pointer) .a (loByte data) ha
  | loadHigh | loadHighC | loadAbs =>
    exact operand8_put8 cpu .a _ (List.ne_of_not_mem_cons hkept)
  | storeHigh =>
    exact congrArg (fun regs : Registers => ({ regs } : Cpu).operand8 0 r) (regs_storeHigh ..)
  | alu op src | aluImm op => exact operand8_operate cpu _ hkept
  | rlca | rrca | rla | rra | daa | cpl =>
    exact operand8_accumulate cpu _ (List.ne_of_not_mem_cons hkept)
  | pop pair => exact operand8_setStackPair cpu.drop _ hkept
  | jr condition | jp condition | call condition | ret condition =>
    rw [effect]
    split <;> rfl
  | _ => rfl

/-! ## HL and SP -/

theorem hl_stepPointer (cpu : Cpu) (pointer : Pointer) :
    (cpu.stepPointer pointer).regs.hl = cpu.regs.hl + pointer.stride := by
  cases pointer with
  | bc | de => exact (UInt16.add_zero _).symm
  | hlUp => exact Registers.hl_setHl ..
  | hlDown => exact (Registers.hl_setHl ..).trans (UInt16.sub_eq_add_neg ..)

/-- A pointer moves HL by its stride. -/
theorem hl_effect (cpu : Cpu) (immediate data : UInt16) {i : Instruction} {pointer : Pointer}
    (h : i.pointer? = some pointer) :
    (cpu.effect immediate data i).cpu.regs.hl = cpu.regs.hl + pointer.stride := by
  cases i with
  | storeA dst | loadA dst =>
    cases h
    exact hl_stepPointer ..
  | _ => cases h

theorem sp_put8 (cpu : Cpu) (dst : Operand8) (value : UInt8) :
    (cpu.put8 dst value).cpu.regs.sp = cpu.regs.sp := by
  cases dst <;> rfl

theorem sp_stepPointer (cpu : Cpu) (pointer : Pointer) :
    (cpu.stepPointer pointer).regs.sp = cpu.regs.sp := by
  cases pointer <;> rfl

theorem sp_operate (cpu : Cpu) (op : AluOp) (value : UInt8) :
    (cpu.operate op value).regs.sp = cpu.regs.sp := by
  cases op with
  | sub =>
    rw [operate]
    cases cpu.config.subtrahend <;> rfl
  | _ => rfl

/-- Where SP is no destination it moves by what the stack needs. -/
theorem sp_effect (cpu : Cpu) (immediate data : UInt16) {i : Instruction}
    (h : i.setsSp = false) :
    (cpu.effect immediate data i).cpu.regs.sp = cpu.regs.sp + cpu.stackMove i := by
  have hstill {sp : UInt16} (hsame : sp = cpu.regs.sp) : sp = cpu.regs.sp + 0 := by
    rw [hsame, UInt16.add_zero]
  cases i with
  | ld dst src | ldImm dst | res index dst | set index dst => exact hstill (sp_put8 ..)
  | inc dst | dec dst | shift op dst => exact hstill (sp_put8 (cpu.withFlags _) ..)
  | ldImm16 dst | inc16 dst | dec16 dst =>
    cases dst with
    | sp => cases h
    | _ => exact hstill rfl
  | ldSpHl | addSpOffset => cases h
  | storeA pointer | loadA pointer => exact hstill (sp_stepPointer cpu pointer)
  | storeHigh => exact hstill (congrArg Registers.sp (regs_storeHigh ..))
  | alu op src | aluImm op => exact hstill (sp_operate ..)
  | jr condition | jp condition =>
    rw [effect]
    split <;> exact hstill rfl
  | call condition =>
    show _ = cpu.regs.sp + if cpu.transfers condition then -2 else 0
    rw [effect]
    split
    · exact UInt16.sub_eq_add_neg ..
    · exact hstill rfl
  | ret condition =>
    show _ = cpu.regs.sp + if cpu.transfers condition then 2 else 0
    rw [effect]
    split
    · rfl
    · exact hstill rfl
  | rst target | push pair => exact UInt16.sub_eq_add_neg ..
  | pop pair => cases pair <;> rfl
  | reti => rfl
  | _ => exact hstill rfl

/-! ## Stores -/

theorem ofOffset_eq_add (offset : UInt8) : Hardware.ofOffset offset = 0xFF00 + offset.toUInt16 :=
  forall_byte (P := fun offset => Hardware.ofOffset offset = 0xFF00 + offset.toUInt16)
    (by decide +kernel) offset

theorem storesOf_storeHigh (cpu : Cpu) (offset : UInt8) (hoverlay : cpu.overlay = none) :
    storesOf (cpu.storeHigh offset).actions = [(Hardware.ofOffset offset, cpu.regs.a)] := by
  rw [storeHigh, hoverlay]
  rfl

/-- The stores of an instruction go where `writesTo` says. -/
theorem map_fst_storesOf_effectIn {cpu : Cpu} (image : Image) (i : Instruction)
    (hoverlay : cpu.overlay = none) :
    (storesOf (cpu.effectIn image i).actions).map Prod.fst = cpu.writesTo image i := by
  cases i with
  | ld dst src | ldImm dst | inc dst | dec dst | shift op dst | res index dst | set index dst =>
    cases dst <;> rfl
  | storeHigh =>
    have hstores : storesOf (cpu.effectIn image .storeHigh).actions =
        [(Hardware.ofOffset (loByte (image (cpu.regs.pc + 1)).toUInt16), cpu.regs.a)] :=
      storesOf_storeHigh (cpu.passing .storeHigh) _ hoverlay
    rw [hstores, loByte_toUInt16, ofOffset_eq_add]
    rfl
  | storeHighC => exact congrArg ([·]) (ofOffset_eq_add cpu.regs.c)
  | jr condition | jp condition | ret condition =>
    rw [effectIn, effect]
    split <;> rfl
  | call condition =>
    show _ = if (cpu.passing (.call condition)).transfers condition then
      [cpu.regs.sp - 1, cpu.regs.sp - 2] else []
    rw [effectIn, effect]
    split <;> rfl
  | _ => rfl

/-- The actions of a program leave the bytes alone that none of them stores to. -/
theorem get_putAll_of_not_mem (actions : List Action) (memory : Memory) {address : UInt16}
    (h : address ∉ (storesOf actions).map Prod.fst) :
    (putAll (β := FlatBus) actions memory).get address = memory.get address := by
  induction actions generalizing memory with
  | nil => rfl
  | cons action rest ih =>
    rw [storesOf, List.flatMap_cons, List.map_append, List.mem_append, not_or] at h
    refine (ih _ h.2).trans ?_
    cases action with
    | write8 target value => exact memory.get_set_of_ne value (by simpa [Action.stores] using h.1)
    | write16 target value =>
      obtain ⟨hhigh, hlow⟩ : address ≠ target + 1 ∧ address ≠ target := by
        simpa [Action.stores] using h.1
      exact (Memory.get_set_of_ne _ _ hlow).trans (memory.get_set_of_ne _ hhigh)
    | report record => rfl

/-! ## Whole steps -/

theorem framed_effectIn {cpu : Cpu} (image : Image) (i : Instruction) (cost : Nat)
    (hoverlay : cpu.overlay = none) : cpu.Framed i ((cpu.effectIn image i).cpu.timed cost) where
  ime := ime_effect (cpu.passing i) _ _ hoverlay
  halted := halted_effect (cpu.passing i) _ _ hoverlay
  flags _ h := get_f_effect (cpu.passing i) _ _ i h
  registers _ h := operand8_effect (cpu.passing i) _ _ i h
  hl _ h := hl_effect (cpu.passing i) _ _ h
  sp h := (sp_effect (cpu.passing i) _ _ h).trans (by cases i <;> rfl)

theorem filter_write_reads (cpu : Cpu) (image : Image) (stores : List (UInt16 × UInt8)) :
    ((cpu.reads image ++ FlatBus.writes stores).filter (·.kind = .write)).map Access.address =
      stores.map Prod.fst := by
  have hreads : (cpu.reads image).filter (·.kind = .write) = [] := by
    rw [List.filter_eq_nil_iff]
    intro access haccess
    simp [kind_of_mem_reads haccess]
  have hwrites : (FlatBus.writes stores).filter (·.kind = .write) = FlatBus.writes stores := by
    rw [List.filter_eq_self]
    intro access haccess
    simp [FlatBus.kind_of_mem_writes haccess]
  rw [List.filter_append, hreads, hwrites, List.nil_append, FlatBus.writes, List.map_map]
  rfl

/-- A successful step on a flat bus without a boot overlay changes nothing that the instruction
    keeps: interrupts are enabled or disabled by `EI`, `DI` and `RETI` only, the processor is
    halted by `HALT` and `STOP` only, and flags, byte registers and SP change only as the rows of
    the instruction say. The writes that it makes are at most two, they go to the addresses that
    the instruction names, and every other byte of memory is as before. -/
theorem step_frame {cpu cpu' : Cpu} {bus bus' : FlatBus} {cost : Nat}
    (hoverlay : cpu.overlay = none)
    (hstep : (cpu.step).run bus = ((.ok cost, cpu'), bus')) :
    ∃ i accesses, cpu.instructionIn bus.memory.get = .ok i ∧ cpu.Framed i cpu' ∧
      bus'.traffic.toList = bus.traffic.toList ++ accesses ∧
      (accesses.filter (·.kind = .write)).map Access.address = cpu.writesTo bus.memory.get i ∧
      (cpu.writesTo bus.memory.get i).length ≤ 2 ∧
      ∀ address ∉ cpu.writesTo bus.memory.get i,
        bus'.memory.get address = bus.memory.get address := by
  obtain ⟨i, hi, -, rfl, hmemory⟩ := effectIn_of_step hstep
  have htargets := map_fst_storesOf_effectIn bus.memory.get i hoverlay
  have htraffic := traffic_step cpu bus
  have houtcome : (cpu.outcome bus.memory.get).2 = (cpu.effectIn bus.memory.get i).actions := by
    rw [outcome, hi]
  rw [hstep, houtcome] at htraffic
  refine ⟨i, _, hi, framed_effectIn _ i cost hoverlay, htraffic, ?_, ?_, ?_⟩
  · rw [filter_write_reads, htargets]
  · rw [← htargets, List.length_map]
    exact length_stores_effect _ _ i hoverlay
  · intro address haddress
    rw [hmemory]
    exact get_putAll_of_not_mem _ _ (htargets ▸ haddress)

/-- A processor about to store A at the last address and to step HL past it. -/
def storeAtEnd : Cpu where
  regs := { a := 0x55, h := 0xFF, l := 0xFF }

theorem instructionIn_storeAtEnd :
    storeAtEnd.instructionIn (Memory.zero.set 0 0x22).get = .ok (.storeA .hlUp) := by
  have hfetch : Image.opcodeAt (Memory.zero.set 0 0x22).get storeAtEnd.regs.pc = (0x22, false) := by
    rw [Image.opcodeAt, show storeAtEnd.regs.pc = 0 from rfl, Memory.get_set_self]
    rfl
  rw [instructionIn_of_opcodeAt hfetch]
  rfl

theorem step_frame_storeAtEnd :
    let bus : FlatBus := { memory := Memory.zero.set 0 0x22 }
    ∃ cpu' bus', (storeAtEnd.step).run bus = ((.ok 2, cpu'), bus') ∧
      cpu'.regs.hl = 0 ∧ cpu'.regs.a = 0x55 ∧ cpu'.regs.sp = 0 ∧
      ∀ address ≠ 0xFFFF, bus'.memory.get address = bus.memory.get address := by
  intro bus
  rcases hstep : (storeAtEnd.step).run bus with ⟨⟨result, cpu'⟩, bus'⟩
  obtain ⟨cost, hsucceeds⟩ := step_succeeds bus instructionIn_storeAtEnd
  rw [hstep] at hsucceeds
  cases hsucceeds
  obtain ⟨i, hi, hcost, -⟩ := effectIn_of_step hstep
  rw [instructionIn_storeAtEnd] at hi
  cases hi
  obtain ⟨i, -, hi, hframed, -, -, -, hmemory⟩ := step_frame rfl hstep
  rw [instructionIn_storeAtEnd] at hi
  cases hi
  refine ⟨cpu', bus', by rw [hcost]; rfl, ?_, hframed.registers .a (by decide), hframed.sp rfl, ?_⟩
  · exact (hframed.hl .hlUp rfl).trans (by decide)
  · intro address haddress
    exact hmemory address (List.not_mem_cons_of_ne_of_not_mem haddress List.not_mem_nil)

end Cpu

end Handheld
