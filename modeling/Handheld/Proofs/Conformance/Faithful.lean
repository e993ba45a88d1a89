-- SUMMARY: A step of a conformance session is a step on memory that the program owns, with the writes logged in place of being made.
import Handheld.Conformance
import Handheld.Proofs.Cpu.Effect

namespace Handheld

open LawfulBus

/-! ## Steps on owned and on logged memory

Both kinds of memory are one bus type, so a step comes to the same on both as
soon as the same bytes are read. Only what the actions of the step do differs. -/

namespace Cpu

theorem step_quiet (cpu : Cpu) (s : AddressSpace) :
    ((cpu.step).run s).2.quiet = ((performAll (cpu.outcome s.peek).2).run s).2.quiet :=
  (step_run cpu s).2.trans (performAll_held (cpu.outcome s.peek).2 s).symm

/-- After a step on owned memory the memory is what its stores leave. -/
theorem step_holds (cpu : Cpu) {s : AddressSpace} {memory : Memory} (h : s.Holds memory) :
    ((cpu.step).run s).2.Holds (memory.setAll (storesOf (cpu.outcome memory.get).2)) := by
  have hpeek : s.peek = memory.get := funext h.peek
  rw [← hpeek]
  exact (h.performAll _).1.of_quiet (step_quiet cpu s)

/-- After a step on logged memory the store is the same, and its log tells of its stores. -/
theorem step_logs (cpu : Cpu) {s : AddressSpace} {store : Store} (h : s.Logs store) :
    ((cpu.step).run s).2.Logs store ∧
      AddressSpace.LogGrows s ((cpu.step).run s).2 (storesOf (cpu.outcome s.peek).2) := by
  obtain ⟨hlogs, hgrows⟩ := h.performAll (cpu.outcome s.peek).2
  have hquiet := step_quiet cpu s
  refine ⟨hlogs.of_quiet hquiet, fun hroom => ?_⟩
  have hlog := congrArg (·.accessLog.recorded) hquiet
  exact hlog.trans (hgrows hroom)

end Cpu

/-! ## Sessions -/

/-- The registers that a snapshot sets. -/
def CpuSnapshot.registers (s : CpuSnapshot) : Registers where
  a := s.a
  f := .ofByte s.f
  b := s.b
  c := s.c
  d := s.d
  e := s.e
  h := s.h
  l := s.l
  sp := s.sp
  pc := s.pc

/-- A processor in the state that a snapshot sets. -/
structure CpuSnapshot.Describes (s : CpuSnapshot) (cpu : Cpu) : Prop where
  regs : cpu.regs = s.registers
  ime : cpu.ime = s.interruptsEnabled
  halted : cpu.halted = s.halted

/-- The accesses that a snapshot counts, oldest first. -/
def CpuSnapshot.logged (s : CpuSnapshot) : List Access :=
  s.accesses.toList.take s.accessCount

/-- The memory after logged writes have been made in it, in order. -/
def Memory.replay (memory : Memory) (accesses : List Access) : Memory :=
  accesses.foldl (fun memory access => memory.set access.address access.value) memory

namespace ConformanceSession

/-- The sessions that a tester can bring about over a buffer. -/
inductive Reached (size : Nat) (buffer : ByteArray) (config : Cpu.Config) :
    ConformanceSession → Prop where
  | start : Reached size buffer config (start size buffer config)
  | set {session : ConformanceSession} (s : CpuSnapshot) :
      Reached size buffer config session → Reached size buffer config (session.set s)
  | step {session : ConformanceSession} :
      Reached size buffer config session → Reached size buffer config session.step.2

variable {size : Nat} {buffer : ByteArray} {config : Cpu.Config} {session : ConformanceSession}

/-- What every session keeps: its configuration, no boot overlay, and the buffer it was lent. -/
structure Lent (size : Nat) (buffer : ByteArray) (config : Cpu.Config)
    (session : ConformanceSession) : Prop where
  config : session.cpu.config = config
  overlay : session.cpu.overlay = none
  memory : session.memory.Logs (.borrow size buffer)

theorem step_fst (session : ConformanceSession) :
    session.step.1 = (session.cpu.outcome session.memory.peek).1.1 :=
  congrArg Prod.fst (Cpu.step_run session.cpu session.memory).1

theorem step_cpu (session : ConformanceSession) :
    session.step.2.cpu = (session.cpu.outcome session.memory.peek).1.2 :=
  congrArg Prod.snd (Cpu.step_run session.cpu session.memory).1

theorem Lent.set (h : Lent size buffer config session) (s : CpuSnapshot) :
    Lent size buffer config (session.set s) :=
  ⟨h.config, h.overlay, h.memory.store_eq, h.memory.logsWrites⟩

theorem Lent.step (h : Lent size buffer config session) :
    Lent size buffer config session.step.2 where
  config := by rw [step_cpu, Cpu.config_outcome, h.config]
  overlay := by
    rw [step_cpu]
    exact Cpu.overlay_outcome _ h.overlay
  memory := (Cpu.step_logs session.cpu h.memory).1

theorem Reached.lent (h : Reached size buffer config session) :
    Lent size buffer config session := by
  induction h with
  | start => exact ⟨rfl, rfl, rfl, rfl⟩
  | set s _ ih => exact ih.set s
  | step _ ih => exact ih.step

/-- The byte that a session finds at an address: one of the buffer, or open bus. -/
theorem Lent.peek (h : Lent size buffer config session) (address : UInt16) :
    session.memory.peek address =
      if inside : address.toNat < min size buffer.size then
        buffer.get address.toNat (Nat.lt_of_lt_of_le inside (Nat.min_le_right ..))
      else openBus := by
  rw [AddressSpace.peek, h.memory.store_eq]
  rfl

/-- The processor of a session with a fresh snapshot, but for the cost of the step before. -/
theorem Lent.cpu_set (h : Lent size buffer config session) {s : CpuSnapshot} {cpu : Cpu}
    (hs : s.Describes cpu) (hconfig : cpu.config = config) (hoverlay : cpu.overlay = none) :
    (session.set s).cpu = cpu.timed session.cpu.cycles := by
  obtain ⟨regs, ime, halted, config', overlay, cycles⟩ := cpu
  obtain ⟨hregs, hime, hhalted⟩ := hs
  subst hconfig hoverlay hregs hime hhalted
  obtain ⟨⟨regs', ime', halted', config'', overlay', cycles'⟩, memory⟩ := session
  obtain ⟨hsame, hbare, -⟩ := h
  dsimp only at hsame hbare
  subst hsame hbare
  rfl

/-- From an empty log, a step logs its stores and nothing else. -/
theorem Lent.logged_step (h : Lent size buffer config session)
    (hempty : session.memory.accessLog.recorded = []) :
    session.step.2.get.logged =
      (storesOf (session.cpu.outcome session.memory.peek).2).map AddressSpace.loggedWrite := by
  have htwo := Cpu.length_stores_outcome session.memory.peek h.overlay
  have hroom : session.memory.accessLog.recorded.length +
      (storesOf (session.cpu.outcome session.memory.peek).2).length ≤ AccessLog.capacity := by
    rw [hempty, List.length_nil, AccessLog.capacity]
    omega
  have hgrown := (Cpu.step_logs session.cpu h.memory).2 hroom
  rw [hempty, List.nil_append] at hgrown
  exact hgrown

/-- However a session came about, a step from a snapshot is the step of a processor in that state
    on owned memory with the same bytes: it comes to the same result and the same state, and making
    the logged writes, two at most, gives the memory that the real step leaves. -/
theorem step_faithful (h : Reached size buffer config session) {s : CpuSnapshot} {cpu : Cpu}
    {space : AddressSpace} {memory : Memory} (hs : s.Describes cpu) (hconfig : cpu.config = config)
    (hoverlay : cpu.overlay = none) (hspace : space.Holds memory)
    (hmemory : ∀ address, memory.get address =
      if inside : address.toNat < min size buffer.size then
        buffer.get address.toNat (Nat.lt_of_lt_of_le inside (Nat.min_le_right ..))
      else 0xAA) :
    let stepped := (session.set s).step
    let real := (cpu.step).run space
    let seen := stepped.2.get
    (stepped.1 = real.1.1 ∧ stepped.2.cpu.regs = real.1.2.regs ∧
        stepped.2.cpu.ime = real.1.2.ime ∧ stepped.2.cpu.halted = real.1.2.halted) ∧
      (seen.accessCount ≤ 2 ∧ seen.logged.length = seen.accessCount ∧
        ∀ access ∈ seen.logged, access.kind = .write) ∧
      real.2.Holds (memory.replay seen.logged) ∧
      stepped.2.memory.store = .borrow size buffer := by
  intro stepped real seen
  have hset := (Reached.set s h).lent
  have hpeek : (session.set s).memory.peek = memory.get := by
    funext address
    rw [hset.peek, hmemory]
    rfl
  -- Same bytes and same processor, so both steps are one outcome, up to what its actions do.
  have houtcome : (session.set s).cpu.outcome (session.set s).memory.peek =
      cpu.outcome memory.get := by
    rw [hpeek, h.lent.cpu_set hs hconfig hoverlay, Cpu.outcome_timed]
  have hreal : real.1 = (cpu.outcome memory.get).1 := by
    rw [← funext hspace.peek]
    exact (Cpu.step_run cpu space).1
  have hresult : stepped.1 = real.1.1 := by
    rw [hreal, ← houtcome]
    exact step_fst _
  have hcpu : stepped.2.cpu = real.1.2 := by
    rw [hreal, ← houtcome]
    exact step_cpu _
  have hlogged : seen.logged =
      (storesOf (cpu.outcome memory.get).2).map AddressSpace.loggedWrite := by
    rw [← houtcome]
    exact hset.logged_step (AccessLog.recorded_restore s.accesses)
  have hcount : seen.logged.length = seen.accessCount :=
    AccessLog.length_recorded stepped.2.memory.accessLog
  refine ⟨⟨hresult, ?_, ?_, ?_⟩, ⟨?_, hcount, ?_⟩, ?_, hset.step.memory.store_eq⟩
  · rw [hcpu]
  · rw [hcpu]
  · rw [hcpu]
  · rw [← hcount, hlogged, List.length_map]
    exact Cpu.length_stores_outcome memory.get hoverlay
  · intro access hmem
    rw [hlogged] at hmem
    obtain ⟨store, -, rfl⟩ := List.mem_map.mp hmem
    rfl
  · rw [hlogged, Memory.replay, AddressSpace.foldl_loggedWrite]
    exact Cpu.step_holds cpu hspace

/-- `LD (a16),SP` at the divider, once as a buffer to lend and once as memory. -/
def spToDivider : ByteArray := ⟨#[0x08, 0x04, 0xFF]⟩

def spToDividerMemory : Memory :=
  Memory.load ⟨⟨Array.replicate memorySize openBus⟩, Array.size_replicate⟩ 0 spToDivider

theorem get_spToDividerMemory (address : UInt16) :
    spToDividerMemory.get address =
      if inside : address.toNat < min 3 spToDivider.size then
        spToDivider.get address.toNat (Nat.lt_of_lt_of_le inside (Nat.min_le_right ..))
      else 0xAA := by
  have hsize : spToDivider.size = 3 := rfl
  have hbase : (0 : UInt16).toNat = 0 := rfl
  rw [spToDividerMemory, Memory.get_load]
  by_cases inside : address.toNat < min 3 spToDivider.size
  · rw [dif_pos inside, dif_pos ⟨Nat.zero_le _, by omega⟩]
    rfl
  · rw [dif_neg inside, dif_neg fun h => inside (by omega)]
    exact Array.getElem_replicate ..

/-- The step after another one in the same session; the byte for the divider is logged as zero. -/
theorem step_faithful_spToDivider :
    let s : CpuSnapshot := { sp := 0x1234, halted := true }
    let seen := ((start 3 spToDivider).step.2.set s).step.2.get
    seen.logged = [⟨.write, 0xFF05, 0x12⟩, ⟨.write, 0xFF04, 0⟩] ∧
      ((Cpu.step { regs := s.registers, halted := true }).run
        ({ store := .owned spToDividerMemory } : AddressSpace)).2.Holds
          (spToDividerMemory.replay seen.logged) := by
  refine ⟨by decide, ?_⟩
  exact (step_faithful (.step .start) ⟨rfl, rfl, rfl⟩ rfl rfl ⟨rfl, rfl⟩
    get_spToDividerMemory).2.2.1

end ConformanceSession

end Handheld
