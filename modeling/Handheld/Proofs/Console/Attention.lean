-- SUMMARY: Between two steps of the console no interrupt waits that may be dispatched.
import Handheld.Proofs.Console.Steps

namespace Handheld.Console

open LawfulBus

/-! ## Entering a handler

A step looks for interrupts once, after the timer has caught up with the cycles
of the instruction. If it enters a handler, it disables interrupts. If it does
not, the timer runs for no further cycle, so that no request can come up behind
the check. Either way nothing that may be dispatched is left at the boundary. -/

/-- `served` is `due` with the handler of `source` entered, the pending source of highest
    priority: its request is cleared, and PC is pushed. -/
structure Enters (source : Nat) (due served : Console) : Prop where
  source_lt : source < 5
  isPending : due.pending.toNat.testBit source = true
  isFirst : ∀ lower < source, due.pending.toNat.testBit lower = false
  cpu_eq : served.cpu =
    { due.cpu with
      ime := false
      halted := false
      regs := { due.cpu.regs with
        pc := 0x40 + 8 * UInt16.ofNat source
        sp := due.cpu.regs.sp - 2 } }
  memory_eq : served.memory.quiet =
    (((due.memory.writeByte Hardware.interruptFlags
      (due.memory.peek Hardware.interruptFlags &&& ~~~(1 <<< UInt8.ofNat source))).writeByte
        (due.cpu.regs.sp - 1) (hiByte due.cpu.regs.pc)).writeByte
          (due.cpu.regs.sp - 2) (loByte due.cpu.regs.pc)).quiet
  timer_eq : served.timer = due.timer
  config_eq : served.config = due.config

theorem service_of_not_due {m : Console} (h : m.cpu.ime = false ∨ m.pending = 0) :
    m.service.1 = 0 ∧ m.service.2.cpu = m.cpu ∧ m.service.2.memory.quiet = m.memory.quiet := by
  have houtcome := serviceOutcome_of_no_source (dueSource_eq_none_iff.mpr h)
  refine ⟨?_, ?_, ?_⟩
  · rw [service_fst, houtcome]
    rfl
  · rw [service_cpu, houtcome]
  · rw [service_memory, houtcome]
    rfl

theorem service_of_due {m : Console} (hime : m.cpu.ime = true) (hpending : m.pending ≠ 0) :
    m.service.1 = Cpu.dispatchCycles ∧ ∃ source, Enters source m m.service.2 := by
  obtain ⟨source, hsource⟩ : ∃ source, m.dueSource = some source := by
    apply Option.ne_none_iff_exists'.mp
    intro hnone
    rcases dueSource_eq_none_iff.mp hnone with hdisabled | hzero
    · rw [hime] at hdisabled
      cases hdisabled
    · exact hpending hzero
  have houtcome := serviceOutcome_of_source hsource
  obtain ⟨-, hbit, hlower⟩ :=
    Interrupts.lowest?_eq_some_iff.mp (lowest?_of_dueSource hsource).2
  refine ⟨?_, source, ?_⟩
  · rw [service_fst, houtcome]
    rfl
  · exact
      { source_lt := testBit_pending_lt hbit
        isPending := hbit
        isFirst := hlower
        cpu_eq := by
          rw [service_cpu, houtcome]
          rfl
        memory_eq := by
          rw [service_memory, houtcome]
          exact (performAll_held (β := AddressSpace) _ m.memory).symm
        timer_eq := rfl
        config_eq := rfl }

/-! ## The boundary between steps -/

/-- After a successful step nothing is pending that may be dispatched, whatever was before. -/
theorem not_due_of_step {m m' : Console} {cost : Nat} (h : m.step = (.ok cost, m')) :
    m'.cpu.ime = false ∨ m'.pending = 0 := by
  obtain ⟨cycles, worked, -, -, rfl⟩ := work_of_step h
  by_cases hnot : (worked.elapse cycles).cpu.ime = false ∨ (worked.elapse cycles).pending = 0
  · -- Nothing is dispatched, and the timer then runs for zero cycles, which request nothing.
    obtain ⟨hzero, hcpu, hmemory⟩ := service_of_not_due hnot
    have hpeek (address : UInt16) : (worked.elapse cycles).service.2.memory.peek address =
        (worked.elapse cycles).memory.peek address :=
      congrFun (congrArg AddressSpace.peek hmemory) address
    have hpending : (worked.elapse cycles).service.2.pending = (worked.elapse cycles).pending := by
      rw [pending, hpeek, hpeek, pending]
    rw [hzero, cpu_elapse, hcpu, pending_elapse_zero, hpending]
    exact hnot
  · obtain ⟨hime, hpending⟩ := not_or.mp hnot
    obtain ⟨-, source, henters⟩ := service_of_due (Bool.of_not_eq_false hime) hpending
    left
    rw [cpu_elapse, henters.cpu_eq]

theorem ime_loadRom (m : Console) (rom : ByteArray) : (m.loadRom rom).cpu.ime = false := by
  unfold loadRom
  dsimp only
  split <;> rfl

/-- Along every run from a freshly loaded cartridge, no interrupt that may be dispatched is left
    at the boundary between two steps. What comes up during a step while interrupts are enabled
    is dispatched in that step, and so a halted processor that wakes to go on with its program
    has interrupts disabled. -/
theorem no_request_overlooked {m m' : Console} {rom : ByteArray} {costs : List Nat}
    (run : Steps (m.loadRom rom) costs m') :
    (m'.cpu.ime = false ∨ m'.pending = 0) ∧
      (∀ cycles worked, m'.work = (.ok cycles, worked) →
        (worked.elapse cycles).cpu.ime = true → (worked.elapse cycles).pending ≠ 0 →
          ∃ source served, Enters source (worked.elapse cycles) served ∧
            m'.step = (.ok (cycles + Cpu.dispatchCycles), served.elapse Cpu.dispatchCycles)) ∧
      (m'.cpu.halted = true → m'.wake.1 = true → m'.cpu.ime = false) := by
  have hboundary : m'.cpu.ime = false ∨ m'.pending = 0 := by
    apply run.invariant (P := fun m => m.cpu.ime = false ∨ m.pending = 0)
    · exact .inl (ime_loadRom m rom)
    · intro _ _ _ _ hstep
      exact not_due_of_step hstep
  refine ⟨hboundary, ?_, ?_⟩
  · intro cycles worked hwork hime hpending
    obtain ⟨hcycles, source, henters⟩ := service_of_due hime hpending
    refine ⟨source, _, henters, ?_⟩
    rw [step_of_work hwork, hcycles]
  · intro hhalted hwake
    rcases hboundary with hime | hpending
    · exact hime
    · have hwoken := congrArg Prod.fst (wake_eq m')
      rw [Cpu.wakeOutcome, if_pos hhalted, lowest?_pending_eq_none_iff.mpr hpending] at hwoken
      have : true = false := hwake.symm.trans hwoken
      cases this

/-- Memory with `EI` where cartridges start, and the vertical blank enabled and requested. -/
def blankAtStart : Console where
  cpu := {}
  memory := (((default : AddressSpace).poke 0x100 0xFB).poke Hardware.interruptEnable 1).poke
    Hardware.interruptFlags 1
  timer := {}
  config := {}

theorem peek_blankAtStart (address : UInt16) :
    (blankAtStart.loadRom .empty).memory.peek address =
      if address = Hardware.divider then 0xAB
      else if address = Hardware.interruptFlags then 1
      else if address = Hardware.interruptEnable then 1
      else if address = 0x100 then 0xFB
      else 0 := by
  change ((((Memory.zero.set _ _).set _ _).set _ _).set _ _).get address = _
  simp only [Memory.get_set, Memory.get_zero]
  rfl

theorem outcome_blankAtStart :
    (blankAtStart.loadRom .empty).cpu.outcome (blankAtStart.loadRom .empty).memory.peek =
      ((.ok 1, { (Cpu.ofConfig {}) with ime := true, regs.pc := 0x101, cycles := 1 }), []) := by
  have hfetch : Image.opcodeAt (blankAtStart.loadRom .empty).memory.peek
      (blankAtStart.loadRom .empty).cpu.regs.pc = (0xFB, false) := by
    simp only [Image.opcodeAt, peek_blankAtStart]
    rfl
  rw [Cpu.outcome, Cpu.instructionIn_of_opcodeAt hfetch]
  rfl

theorem work_blankAtStart :
    ∃ worked, (blankAtStart.loadRom .empty).work = (.ok 1, worked) ∧
      worked.cpu.ime = true ∧ (worked.elapse 1).pending = 1 := by
  generalize hm : blankAtStart.loadRom .empty = m
  have hpeek := hm ▸ peek_blankAtStart
  have houtcome := hm ▸ outcome_blankAtStart
  have howned : ∃ memory, m.memory.Holds memory := by
    rw [← hm]
    exact ⟨_, rfl, rfl⟩
  have hawake : m.cpu.halted = false := by
    rw [← hm]
    rfl
  have hwork : m.work = (.ok 1, m.stepCpu.2) := by
    have hcost : m.stepCpu.1 = .ok 1 := by rw [stepCpu_fst, houtcome]
    rw [← hcost]
    exact work_of_not_halted hawake
  have hquiet : m.stepCpu.2.memory.quiet = m.memory.quiet := by
    rw [stepCpu_memory, houtcome]
    rfl
  refine ⟨m.stepCpu.2, hwork, by rw [stepCpu_cpu, houtcome], ?_⟩
  generalize m.stepCpu.2 = worked at hquiet ⊢
  have hkept (address : UInt16) : worked.memory.peek address = m.memory.peek address :=
    congrFun (congrArg AddressSpace.peek hquiet) address
  have henabled : (worked.elapse 1).memory.peek Hardware.interruptEnable = 1 := by
    rw [peek_elapse_interruptEnable, hkept, hpeek]
    rfl
  have hrequested : worked.memory.peek Hardware.interruptFlags = 1 := by
    rw [hkept, hpeek]
    rfl
  obtain ⟨memory, howned⟩ := howned
  have hafter := Timer.peek_advance_interruptFlags 1 worked.timer (howned.of_quiet hquiet)
  rw [pending, henabled, memory_elapse, hafter, hrequested]
  split <;> decide

theorem no_request_overlooked_ei :
    ∃ m', Steps (blankAtStart.loadRom .empty) [6] m' ∧ m'.cpu.regs.pc = 0x40 ∧
      (m'.cpu.ime = false ∨ m'.pending = 0) := by
  obtain ⟨worked, hwork, hime, hpending⟩ := work_blankAtStart
  obtain ⟨source, served, henters, hstep⟩ :=
    (no_request_overlooked .none).2.1 1 worked hwork hime (by rw [hpending]; decide)
  have hsource : source = 0 := by
    apply Nat.eq_zero_of_not_pos
    intro hpos
    have hfirst := henters.isFirst 0 hpos
    rw [hpending] at hfirst
    exact absurd hfirst (by decide)
  have run : Steps (blankAtStart.loadRom .empty) [6] (served.elapse 5) := .next .none hstep
  refine ⟨_, run, ?_, (no_request_overlooked run).1⟩
  rw [cpu_elapse, henters.cpu_eq, hsource]
  rfl

end Handheld.Console
