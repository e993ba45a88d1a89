-- SUMMARY: The console: processor, memory and timer in lockstep, and how a program is loaded into it.
import Handheld.Cpu.Interrupt
import Handheld.Cpu.Step
import Handheld.Timer

namespace Handheld

/-! ## The console -/

/-- How a console is assembled. -/
structure Console.Config where
  cpu : Cpu.Config := {}
  /-- The boot program, mapped over the start of the cartridge until it unmaps itself. -/
  bootRom : Option ByteArray := none
  /-- The address at which a run stops. -/
  endpoint : Option UInt16 := none

instance : Inhabited Console.Config := ⟨{}⟩

/-- Processor, memory and timer. -/
structure Console where
  cpu : Cpu
  memory : AddressSpace
  timer : Timer
  config : Console.Config

namespace Console

/-- The largest cartridge image that leaves the rest of memory alone. -/
def romLimit : UInt16 := 0x8000

/-- The cycles that a halted processor idles per step. -/
def idleCycles : Nat := 1

/-- A console with empty memory, in the state that the boot program leaves. -/
def ofConfig (config : Config) : Console :=
  let (timer, memory) := Timer.start Timer.postBootCounter {}
  { cpu := .ofConfig config.cpu, memory, timer, config }

instance : Inhabited Console := ⟨ofConfig {}⟩

/-- Registers a listener on the console's memory. -/
def listen (m : Console) (listener : Listener) : Console :=
  { m with memory := m.memory.listen listener }

/-- The journal gets a record. -/
def report (m : Console) (record : Record) : Console :=
  { m with memory := { m.memory with journal := m.memory.journal.add record } }

/-! ## Loading -/

/-- Starts execution in the cartridge, in the state that the boot program leaves. -/
def enterCartridge (m : Console) : Console :=
  let cpu := m.cpu.reset
  let (timer, memory) := Timer.start Timer.postBootCounter m.memory
  report { m with cpu, memory, timer } (.bootSkipped cpu.regs.pc)

/-- Maps the boot program over the start of a cartridge and starts execution there. -/
def enterBoot (m : Console) (rom boot : ByteArray) : Console :=
  let size := min boot.size bootSize
  let cpu := m.cpu.powerOn.armOverlay rom
  let (timer, memory) := Timer.start 0 (m.memory.load 0 (boot.extract 0 size))
  report { m with cpu, memory, timer } (.bootMapped size)

/-- Puts a cartridge image at address zero and prepares the processor and the timer to run it. -/
def loadRom (m : Console) (rom : ByteArray) : Console :=
  let m := if romLimit.toNat < rom.size then m.report (.oversizedRom rom.size romLimit) else m
  let m := { m with memory := m.memory.load 0 rom }
  match m.config.bootRom with
  | some boot => m.enterBoot rom boot
  | none => m.enterCartridge

/-! ## Stepping -/

/-- Lets cycles pass for the timer. -/
def elapse (m : Console) (cycles : Nat) : Console :=
  let ⟨cpu, memory, timer, config⟩ := m
  let (timer, memory) := timer.advance cycles memory
  { cpu, memory, timer, config }

/-- One step of the processor on the console's memory; the timer stands still. -/
def stepCpu (m : Console) : Except Fault Nat × Console :=
  let ⟨cpu, memory, timer, config⟩ := m
  let ((result, cpu), memory) := (cpu.step).run memory
  (result, { cpu, memory, timer, config })

/-- Wakes a halted processor if an interrupt is pending, and says whether it did. -/
def wake (m : Console) : Bool × Console :=
  let ⟨cpu, memory, timer, config⟩ := m
  let ((woken, cpu), memory) := (cpu.wakeIfPending).run memory
  (woken, { cpu, memory, timer, config })

/-- Enters an interrupt handler if one is due, and returns the cycles that this took. -/
def service (m : Console) : Nat × Console :=
  let ⟨cpu, memory, timer, config⟩ := m
  let ((cycles, cpu), memory) := (cpu.serviceInterrupt).run memory
  (cycles.getD 0, { cpu, memory, timer, config })

/-- Executes one instruction, or idles for a cycle while the processor stays halted. -/
def work (m : Console) : Except Fault Nat × Console :=
  if m.cpu.halted then
    let (woken, m) := m.wake
    if woken then m.stepCpu else (.ok idleCycles, m)
  else m.stepCpu

/-- One step of the console: work, then the timer, then an interrupt if one is due,
    and the timer again for the cycles of its dispatch. Returns the cycles consumed. -/
def step (m : Console) : Except Fault Nat × Console :=
  match m.work with
  | (.error fault, m) => (.error fault, m)
  | (.ok cycles, m) =>
    let m := m.elapse cycles
    let (dispatch, m) := m.service
    let m := m.elapse dispatch
    (.ok (cycles + dispatch), m)

end Console

end Handheld
