-- SUMMARY: What an instruction reads, and the state change and memory actions it then has.
import Handheld.Alu
import Handheld.Bus
import Handheld.Cpu.Basic
import Handheld.Hardware

namespace Handheld

/-! ## Data reads

An instruction makes all its reads before its first write, and which byte or
word it reads depends on the registers alone. So the read is planned first, and
the rest of the instruction is a function of the value that it yields. In
`Handheld/Proofs/Cpu/Direct.lean` the plan is compared with the accesses as each
instruction makes them. -/

/-- The data that an instruction needs from memory. -/
inductive DataRead where
  | none
  | byte (address : UInt16)
  /-- A word on the stack, read as two bytes. -/
  | stack (address : UInt16)
deriving DecidableEq, Repr

/-- The value of a data read: zero, a byte, or a word. -/
def DataRead.perform {β : Type} [Bus β] : DataRead → StateM β UInt16
  | none => return 0
  | byte address => return (← Bus.read8 address).toUInt16
  | stack address => do
    let lo ← Bus.read8 address
    let hi ← Bus.read8 (address + 1)
    return word hi lo

/-! ## Actions -/

/-- Something that an instruction does to the outside. -/
inductive Action where
  | write8 (address : UInt16) (value : UInt8)
  | write16 (address value : UInt16)
  | report (record : Record)
deriving DecidableEq, Repr

/-- Carries out an action on a bus. -/
def Action.perform {β : Type} [Bus β] : Action → StateM β Unit
  | write8 address value => Bus.write8 address value
  | write16 address value => Bus.write16 address value
  | report record => Bus.report record

/-- Carries out actions in order. -/
def performAll {β : Type} [Bus β] : List Action → StateM β Unit
  | [] => return ()
  | action :: rest => do
    action.perform
    performAll rest

/-- Actions in two parts are carried out one part after the other. -/
theorem performAll_append {β : Type} [Bus β] (first second : List Action) :
    performAll (first ++ second) = (do
      performAll first
      performAll second : StateM β Unit) := by
  induction first with
  | nil => rfl
  | cons action rest ih => simp [performAll, ih]

/-- The writes that put the saved cartridge bytes back, in ascending order. -/
def BootOverlay.restore (overlay : BootOverlay) : List Action :=
  (List.finRange bootSize).map fun i => .write8 (UInt16.ofNat i.val) overlay.saved[i]

/-- The outcome of an instruction once its data is known. -/
structure Effect where
  cpu : Cpu
  /-- What reaches the bus, in order. -/
  actions : List Action := []
  /-- Whether a transfer of control happened. -/
  taken : Bool := false

namespace Cpu

/-! ## Operands -/

/-- The value of an 8-bit operand, given the byte at HL. -/
def operand8 (cpu : Cpu) (atHl : UInt8) : Operand8 → UInt8
  | .b => cpu.regs.b
  | .c => cpu.regs.c
  | .d => cpu.regs.d
  | .e => cpu.regs.e
  | .h => cpu.regs.h
  | .l => cpu.regs.l
  | .atHl => atHl
  | .a => cpu.regs.a

/-- Stores a byte in an 8-bit operand. -/
def put8 (cpu : Cpu) (dst : Operand8) (value : UInt8) : Effect :=
  match dst with
  | .b => { cpu := { cpu with regs.b := value } }
  | .c => { cpu := { cpu with regs.c := value } }
  | .d => { cpu := { cpu with regs.d := value } }
  | .e => { cpu := { cpu with regs.e := value } }
  | .h => { cpu := { cpu with regs.h := value } }
  | .l => { cpu := { cpu with regs.l := value } }
  | .atHl => { cpu, actions := [.write8 cpu.regs.hl value] }
  | .a => { cpu := { cpu with regs.a := value } }

/-- The value of a 16-bit register operand. -/
def reg16 (cpu : Cpu) : Reg16 → UInt16
  | .bc => cpu.regs.bc
  | .de => cpu.regs.de
  | .hl => cpu.regs.hl
  | .sp => cpu.regs.sp

/-- Loads a 16-bit register operand. -/
def setReg16 (cpu : Cpu) (dst : Reg16) (value : UInt16) : Cpu :=
  match dst with
  | .bc => { cpu with regs := cpu.regs.setBc value }
  | .de => { cpu with regs := cpu.regs.setDe value }
  | .hl => { cpu with regs := cpu.regs.setHl value }
  | .sp => { cpu with regs.sp := value }

/-- The value of a stack pair. -/
def stackPair (cpu : Cpu) : StackPair → UInt16
  | .bc => cpu.regs.bc
  | .de => cpu.regs.de
  | .hl => cpu.regs.hl
  | .af => cpu.regs.af

/-- Loads a stack pair. -/
def setStackPair (cpu : Cpu) (dst : StackPair) (value : UInt16) : Cpu :=
  match dst with
  | .bc => { cpu with regs := cpu.regs.setBc value }
  | .de => { cpu with regs := cpu.regs.setDe value }
  | .hl => { cpu with regs := cpu.regs.setHl value }
  | .af => { cpu with regs := cpu.regs.setAf value }

/-- The address that a pointer operand names. -/
def pointer (cpu : Cpu) : Pointer → UInt16
  | .bc => cpu.regs.bc
  | .de => cpu.regs.de
  | .hlUp | .hlDown => cpu.regs.hl

/-- The processor after a pointer operand has been used. -/
def stepPointer (cpu : Cpu) : Pointer → Cpu
  | .bc | .de => cpu
  | .hlUp => { cpu with regs := cpu.regs.setHl (cpu.regs.hl + 1) }
  | .hlDown => { cpu with regs := cpu.regs.setHl (cpu.regs.hl - 1) }

/-! ## Groups of instructions -/

/-- Loads accumulator and flags together. -/
def accumulate (cpu : Cpu) (result : UInt8 × Flags) : Cpu :=
  { cpu with regs := { cpu.regs with a := result.1, f := result.2 } }

/-- An accumulator operation. -/
def operate (cpu : Cpu) (op : AluOp) (value : UInt8) : Cpu :=
  let a := cpu.regs.a
  let carryIn := cpu.regs.f.carry
  match op with
  | .add => cpu.accumulate (Alu.add a value false)
  | .adc => cpu.accumulate (Alu.add a value carryIn)
  | .sub =>
    match cpu.config.subtrahend with
    | .operand => cpu.accumulate (Alu.sub a value false)
    | .registerB => cpu.accumulate (a - cpu.regs.b, Alu.compare a value)
  | .sbc => cpu.accumulate (Alu.sub a value carryIn)
  | .and => cpu.accumulate (Alu.bitwise (a &&& value) true)
  | .xor => cpu.accumulate (Alu.bitwise (a ^^^ value) false)
  | .or => cpu.accumulate (Alu.bitwise (a ||| value) false)
  | .cp => cpu.withFlags (Alu.compare a value)

/-- A rotation of the accumulator, which never sets the zero flag. -/
def rotateA (cpu : Cpu) (op : ShiftOp) : Cpu :=
  let (result, flags) := Alu.shift op cpu.regs.a cpu.regs.f.carry
  cpu.accumulate (result, { flags with zero := false })

/-- Replaces an 8-bit operand by a result and loads the flags that come with it. -/
def replace8 (cpu : Cpu) (dst : Operand8) (result : UInt8 × Flags) : Effect :=
  (cpu.withFlags result.2).put8 dst result.1

/-- The two writes that push a word below the stack pointer, high byte first. -/
def pushActions (sp value : UInt16) : List Action :=
  [.write8 (sp - 1) (hiByte value), .write8 (sp - 2) (loByte value)]

/-- Pushes a word. -/
def push (cpu : Cpu) (value : UInt16) : Effect where
  cpu := { cpu with regs.sp := cpu.regs.sp - 2 }
  actions := pushActions cpu.regs.sp value

/-- Moves the stack pointer past a word that has been read. -/
def drop (cpu : Cpu) : Cpu :=
  { cpu with regs.sp := cpu.regs.sp + 2 }

/-- Continues at an address. -/
def goto (cpu : Cpu) (target : UInt16) : Cpu :=
  { cpu with regs.pc := target }

/-- Pushes the address of the next instruction and continues elsewhere. -/
def callTo (cpu : Cpu) (target : UInt16) (taken : Bool) : Effect :=
  let pushed := cpu.push cpu.regs.pc
  { cpu := pushed.cpu.goto target, actions := pushed.actions, taken }

/-! ## The boot switch -/

/-- Stores the accumulator at an address of the top page. The boot switch first
    puts the hidden cartridge bytes back, the first time that it is used. -/
def storeHigh (cpu : Cpu) (offset : UInt8) : Effect :=
  let address := Hardware.ofOffset offset
  let store := Action.write8 address cpu.regs.a
  match cpu.overlay with
  | some overlay =>
    if address = Hardware.bootOff then
      { cpu := { cpu with overlay := none }
        actions := overlay.restore ++ [.report (.bootUnmapped cpu.regs.pc bootSize), store] }
    else { cpu, actions := [store] }
  | none => { cpu, actions := [store] }

/-- Whether a load from the top page is answered without a read. -/
def spoofs (cpu : Cpu) (offset : UInt8) : Bool :=
  cpu.config.spoofScanline && Hardware.ofOffset offset == Hardware.scanline

/-! ## Instructions

For both functions PC is already past the instruction, and `immediate` is the
immediate byte or word, zero if there is none. -/

/-- The read that the value of an 8-bit operand needs. -/
def readOperand8 (cpu : Cpu) (src : Operand8) : DataRead :=
  if src = .atHl then .byte cpu.regs.hl else .none

/-- The data that an instruction needs from memory. -/
def dataRead (cpu : Cpu) (immediate : UInt16) : Instruction → DataRead
  | .ld _ src | .alu _ src | .inc src | .dec src
  | .shift _ src | .bit _ src | .res _ src | .set _ src => cpu.readOperand8 src
  | .loadA src => .byte (cpu.pointer src)
  | .loadHigh =>
    let offset := loByte immediate
    if cpu.spoofs offset then .none else .byte (Hardware.ofOffset offset)
  | .loadHighC => .byte (Hardware.ofOffset cpu.regs.c)
  | .loadAbs => .byte immediate
  | .ret condition => if cpu.transfers condition then .stack cpu.regs.sp else .none
  | .reti | .pop _ => .stack cpu.regs.sp
  | _ => .none

/-- What an instruction does with its immediate and the data read from memory. -/
def effect (cpu : Cpu) (immediate data : UInt16) : Instruction → Effect
  | .nop => { cpu }
  | .stop | .halt => { cpu := { cpu with halted := true } }
  | .di => { cpu := { cpu with ime := false } }
  | .ei => { cpu := { cpu with ime := true } }
  | .ld dst src => cpu.put8 dst (cpu.operand8 (loByte data) src)
  | .ldImm dst => cpu.put8 dst (loByte immediate)
  | .ldImm16 dst => { cpu := cpu.setReg16 dst immediate }
  | .storeA dst =>
    { cpu := cpu.stepPointer dst, actions := [.write8 (cpu.pointer dst) cpu.regs.a] }
  | .loadA src =>
    let cpu := cpu.stepPointer src
    { cpu := { cpu with regs.a := loByte data } }
  | .storeSp => { cpu, actions := [.write16 immediate cpu.regs.sp] }
  | .storeHigh => cpu.storeHigh (loByte immediate)
  | .loadHigh =>
    let value := if cpu.spoofs (loByte immediate) then Hardware.scanlineInBlank else loByte data
    { cpu := { cpu with regs.a := value } }
  | .storeHighC => { cpu, actions := [.write8 (Hardware.ofOffset cpu.regs.c) cpu.regs.a] }
  | .loadHighC | .loadAbs => { cpu := { cpu with regs.a := loByte data } }
  | .storeAbs => { cpu, actions := [.write8 immediate cpu.regs.a] }
  | .ldHlSpOffset =>
    let (result, flags) := Alu.addOffset cpu.regs.sp (loByte immediate)
    { cpu := (cpu.withFlags flags).setReg16 .hl result }
  | .ldSpHl => { cpu := cpu.setReg16 .sp cpu.regs.hl }
  | .alu op src => { cpu := cpu.operate op (cpu.operand8 (loByte data) src) }
  | .aluImm op => { cpu := cpu.operate op (loByte immediate) }
  | .inc dst => cpu.replace8 dst (Alu.inc (cpu.operand8 (loByte data) dst) cpu.regs.f)
  | .dec dst => cpu.replace8 dst (Alu.dec (cpu.operand8 (loByte data) dst) cpu.regs.f)
  | .inc16 dst => { cpu := cpu.setReg16 dst (cpu.reg16 dst + 1) }
  | .dec16 dst => { cpu := cpu.setReg16 dst (cpu.reg16 dst - 1) }
  | .addHl src =>
    let (result, flags) := Alu.addWord cpu.regs.hl (cpu.reg16 src) cpu.regs.f
    { cpu := (cpu.withFlags flags).setReg16 .hl result }
  | .addSpOffset =>
    let (result, flags) := Alu.addOffset cpu.regs.sp (loByte immediate)
    { cpu := (cpu.withFlags flags).setReg16 .sp result }
  | .rlca => { cpu := cpu.rotateA .rlc }
  | .rrca => { cpu := cpu.rotateA .rrc }
  | .rla => { cpu := cpu.rotateA .rl }
  | .rra => { cpu := cpu.rotateA .rr }
  | .daa => { cpu := cpu.accumulate (Alu.daa cpu.regs.a cpu.regs.f) }
  | .cpl =>
    { cpu := cpu.accumulate (~~~cpu.regs.a, { cpu.regs.f with subtract := true, halfCarry := true }) }
  | .scf =>
    { cpu := cpu.withFlags { cpu.regs.f with subtract := false, halfCarry := false, carry := true } }
  | .ccf =>
    { cpu := cpu.withFlags
        { cpu.regs.f with subtract := false, halfCarry := false, carry := !cpu.regs.f.carry } }
  | .jr condition =>
    if cpu.transfers condition then
      { cpu := cpu.goto (cpu.regs.pc + signExtend (loByte immediate)), taken := true }
    else { cpu }
  | .jp condition =>
    if cpu.transfers condition then { cpu := cpu.goto immediate, taken := true } else { cpu }
  | .jpHl => { cpu := cpu.goto cpu.regs.hl }
  | .call condition =>
    if cpu.transfers condition then cpu.callTo immediate true else { cpu }
  | .ret condition =>
    if cpu.transfers condition then { cpu := cpu.drop.goto data, taken := true } else { cpu }
  | .reti => { cpu := { cpu.drop.goto data with ime := true } }
  | .rst target => cpu.callTo target.toUInt16 false
  | .push pair => cpu.push (cpu.stackPair pair)
  | .pop pair => { cpu := cpu.drop.setStackPair pair data }
  | .shift op dst =>
    cpu.replace8 dst (Alu.shift op (cpu.operand8 (loByte data) dst) cpu.regs.f.carry)
  | .bit index src =>
    { cpu := cpu.withFlags (Alu.testBit index (cpu.operand8 (loByte data) src) cpu.regs.f) }
  | .res index dst => cpu.put8 dst (cpu.operand8 (loByte data) dst &&& ~~~Alu.mask index)
  | .set index dst => cpu.put8 dst (cpu.operand8 (loByte data) dst ||| Alu.mask index)

end Cpu

end Handheld
