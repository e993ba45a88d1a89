-- SUMMARY: The processor state, its configuration, and the states it starts from.
import Handheld.Instruction.Basic
import Handheld.Registers

namespace Handheld

/-! ## Configuration -/

/-- What `SUB` subtracts from the accumulator. -/
inductive Subtrahend where
  /-- The decoded operand, as the hardware does. -/
  | operand
  /-- Register B, although the flags are those of the decoded operand. -/
  | registerB
deriving DecidableEq, Repr

/-- How much of the second opcode table can be executed. -/
inductive PrefixedCoverage where
  | full
  /-- Only bit tests and the rotation `RL`. -/
  | bitAndRotate
deriving DecidableEq, Repr

/-- How far `STOP` moves the program counter. -/
inductive StopLength where
  /-- Past the padding byte, as the hardware does. -/
  | twoBytes
  /-- To the padding byte, which is executed next. -/
  | oneByte
deriving DecidableEq, Repr

/-- Switches of the processor's behaviour. -/
structure Cpu.Config where
  subtrahend : Subtrahend := .operand
  /-- Whether `LDH A,(a8)` reads the display line as if it were in the vertical blank. -/
  spoofScanline : Bool := true
  prefixedCoverage : PrefixedCoverage := .full
  stopLength : StopLength := .twoBytes
deriving DecidableEq, Repr, Inhabited

/-! ## The boot overlay -/

/-- The number of cartridge bytes that a boot program hides, from address zero up. -/
def bootSize : Nat := 0x100

/-- The cartridge bytes that the boot program hides until it unmaps itself. -/
structure BootOverlay where
  saved : Vector UInt8 bootSize
deriving DecidableEq, Repr

/-- The overlay that saves the first bytes of a cartridge, with zeros for those it lacks. -/
def BootOverlay.ofCartridge (cartridge : ByteArray) : BootOverlay where
  saved := Vector.ofFn fun i => if h : i.val < cartridge.size then cartridge.get i h else 0

/-! ## The processor -/

/-- The state of the processor. -/
structure Cpu where
  regs : Registers := {}
  /-- Whether interrupts may be dispatched. -/
  ime : Bool := false
  /-- Set by `HALT` and `STOP`. Stepping does not look at it. -/
  halted : Bool := false
  config : Cpu.Config := {}
  /-- The overlay, as long as the boot program has not unmapped itself. -/
  overlay : Option BootOverlay := none
  /-- The cost of the latest step, zero if it failed. -/
  cycles : Nat := 0
deriving DecidableEq, Repr, Inhabited

namespace Cpu

/-- The processor as the boot program leaves it, with nothing hidden. -/
def ofConfig (config : Config) : Cpu where
  regs := .postBoot
  config := config

/-- Starts over in the state that the boot program leaves. -/
def reset (cpu : Cpu) : Cpu :=
  ofConfig cpu.config

/-- Starts over with all registers zero, where a boot program begins. The overlay stays. -/
def powerOn (cpu : Cpu) : Cpu where
  config := cpu.config
  overlay := cpu.overlay

/-- Gives the registers the values that the boot program leaves and disables interrupts. -/
def enterPostBoot (cpu : Cpu) : Cpu :=
  { cpu with regs := .postBoot, ime := false }

/-- Hides the start of a cartridge behind a boot program that the caller maps. -/
def armOverlay (cpu : Cpu) (cartridge : ByteArray) : Cpu :=
  { cpu with overlay := some (.ofCartridge cartridge) }

/-- The processor with other flags. -/
def withFlags (cpu : Cpu) (flags : Flags) : Cpu :=
  { cpu with regs.f := flags }

/-- Whether a condition holds. -/
def holds (cpu : Cpu) : Condition → Bool
  | .notZero => !cpu.regs.f.zero
  | .zero => cpu.regs.f.zero
  | .notCarry => !cpu.regs.f.carry
  | .carry => cpu.regs.f.carry

/-- Whether a transfer with an optional condition happens. -/
def transfers (cpu : Cpu) (condition : Option Condition) : Bool :=
  condition.all cpu.holds

end Cpu

end Handheld
