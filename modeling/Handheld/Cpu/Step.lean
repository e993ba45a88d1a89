-- SUMMARY: One step of the processor: fetch, decode, read, and carry out the effect.
import Handheld.Cpu.Effect

namespace Handheld.Cpu

/-! ## Fetching -/

/-- Reads the opcode at an address, and says whether it belongs to the second table. -/
def fetchOpcode {β : Type} [Bus β] (pc : UInt16) : StateM β (UInt8 × Bool) := do
  let first ← Bus.read8 pc
  if first = extensionByte then
    let second ← Bus.read8 (pc + 1)
    return (second, true)
  else
    return (first, false)

/-- Reads the immediate that follows the opcode at an address; zero if there is none. -/
def fetchImmediate {β : Type} [Bus β] (pc : UInt16) : Instruction.Immediate → StateM β UInt16
  | .none => return 0
  | .byte => return (← Bus.read8 (pc + 1)).toUInt16
  | .word => Bus.read16 (pc + 1)

/-! ## What a configuration can execute -/

/-- Whether a configuration executes an instruction. -/
def Config.supports (config : Config) (i : Instruction) : Bool :=
  match config.prefixedCoverage with
  | .full => true
  | .bitAndRotate =>
    match i with
    | .bit .. => true
    | .shift op _ => op == .rl
    | i => !i.prefixed

/-- The instruction that a configuration executes for an opcode. -/
def Config.decode (config : Config) (opcode : UInt8) (extended : Bool) :
    Except Fault.Cause Instruction :=
  match Instruction.decode? opcode extended with
  | none => .error (.undefined ⟨opcode, extended⟩)
  | some i => if config.supports i then .ok i else .error (.unimplemented i.diagnosticName)

/-- How far an instruction moves the program counter when it does not jump. -/
def Config.advance (config : Config) (i : Instruction) : UInt16 :=
  if i = .stop ∧ config.stopLength = .oneByte then 1 else i.length

/-! ## Stepping -/

/-- The processor with PC past the instruction, ready for its effect. -/
def passing (cpu : Cpu) (i : Instruction) : Cpu :=
  cpu.goto (cpu.regs.pc + cpu.config.advance i)

/-- The cost of an instruction with the given effect. -/
def costOf (i : Instruction) (effect : Effect) : Nat :=
  if effect.taken then i.cost.taken else i.cost.base

/-- Executes a decoded instruction at PC and returns its cost. -/
def execute {β : Type} [Bus β] (cpu : Cpu) (i : Instruction) : StateM β (Nat × Cpu) := do
  let immediate ← fetchImmediate cpu.regs.pc i.immediate
  Bus.report (.executing i immediate cpu.regs)
  let next := cpu.passing i
  let data ← (next.dataRead immediate i).perform
  let effect := next.effect immediate data i
  performAll effect.actions
  let cost := costOf i effect
  return (cost, { effect.cpu with cycles := cost })

/-- Fetches, decodes and executes the instruction at PC, and returns its cost in
    machine cycles. A step that fails reports why and changes nothing but the
    cost of the latest step, which is then zero. -/
def step {β : Type} [Bus β] (cpu : Cpu) : StateM β (Except Fault Nat × Cpu) := do
  let (opcode, extended) ← fetchOpcode cpu.regs.pc
  match cpu.config.decode opcode extended with
  | .ok i =>
    let (cost, cpu) ← execute cpu i
    return (.ok cost, cpu)
  | .error cause =>
    Bus.report (.faulted cause cpu.regs)
    return (.error ⟨cause, cpu.regs.pc⟩, { cpu with cycles := 0 })

end Handheld.Cpu
