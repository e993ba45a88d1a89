-- SUMMARY: Sessions in which a tester sets the processor state, makes a step and compares what it wrote.
import Handheld.AddressSpace.Basic
import Handheld.Cpu.Step

namespace Handheld

/-! ## Conformance sessions

The tester lends a buffer of instructions, which never changes: writes are
logged. It sets a snapshot, steps, and reads the snapshot back together with
the writes that the instruction attempted. -/

/-- What a tester sets and reads back. -/
structure CpuSnapshot where
  a : UInt8 := 0
  f : UInt8 := 0
  b : UInt8 := 0
  c : UInt8 := 0
  d : UInt8 := 0
  e : UInt8 := 0
  h : UInt8 := 0
  l : UInt8 := 0
  sp : UInt16 := 0
  pc : UInt16 := 0
  halted : Bool := false
  interruptsEnabled : Bool := false
  /-- The number of accesses made since the snapshot was set. -/
  accessCount : Nat := 0
  accesses : Vector Access AccessLog.capacity := Vector.replicate _ {}
deriving DecidableEq

instance : Inhabited CpuSnapshot := ⟨{}⟩

/-- A processor on a borrowed buffer. -/
structure ConformanceSession where
  cpu : Cpu
  memory : AddressSpace

namespace ConformanceSession

/-- A session over the first `size` bytes of a buffer. -/
def start (size : Nat) (buffer : ByteArray) (config : Cpu.Config := {}) : ConformanceSession where
  cpu := (Cpu.ofConfig config).powerOn
  memory := .borrow size buffer

/-- Loads the registers and replays an access log, whose count starts over from zero. -/
def set (session : ConformanceSession) (s : CpuSnapshot) : ConformanceSession where
  cpu :=
    { session.cpu with
      regs :=
        { a := s.a, f := .ofByte s.f, b := s.b, c := s.c, d := s.d, e := s.e, h := s.h, l := s.l
          sp := s.sp, pc := s.pc }
      halted := s.halted
      ime := s.interruptsEnabled }
  memory := { session.memory with accessLog := .restore s.accesses }

/-- The state as the tester sees it. -/
def get (session : ConformanceSession) : CpuSnapshot :=
  let regs := session.cpu.regs
  let log := session.memory.accessLog
  { a := regs.a, f := regs.f.toByte, b := regs.b, c := regs.c, d := regs.d, e := regs.e
    h := regs.h, l := regs.l, sp := regs.sp, pc := regs.pc
    halted := session.cpu.halted, interruptsEnabled := session.cpu.ime
    accessCount := log.length, accesses := log.slots }

/-- Executes one instruction and returns its cost. -/
def step (session : ConformanceSession) : Except Fault Nat × ConformanceSession :=
  let ((result, cpu), memory) := (session.cpu.step).run session.memory
  (result, { cpu, memory })

end ConformanceSession

end Handheld
