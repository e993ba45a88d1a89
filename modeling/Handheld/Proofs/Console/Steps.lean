-- SUMMARY: Runs of successful console steps, and what the parts of a step do to the processor and to memory.
import Handheld.Console.Basic
import Handheld.Proofs.Cpu.Interrupts
import Handheld.Proofs.Cpu.Outcome
import Handheld.Proofs.Timer.Advance

namespace Handheld

open LawfulBus

namespace Console

/-! ## Runs -/

/-- Successful steps in a row, with the cost of each. -/
inductive Steps (m : Console) : List Nat → Console → Prop where
  | none : Steps m [] m
  | next {costs : List Nat} {m₁ m₂ : Console} {cost : Nat} :
      Steps m costs m₁ → m₁.step = (.ok cost, m₂) → Steps m (costs ++ [cost]) m₂

theorem Steps.single {m : Console} {cost : Nat} (h : m.step.1 = .ok cost) :
    Steps m [cost] m.step.2 :=
  .next .none (Prod.ext h rfl)

/-- What holds at first and is kept by every successful step holds after every run. -/
theorem Steps.invariant {P : Console → Prop} {m m' : Console} {costs : List Nat}
    (run : Steps m costs m') (start : P m)
    (step : ∀ m₁ cost m₂, P m₁ → m₁.step = (.ok cost, m₂) → P m₂) : P m' := by
  induction run with
  | none => exact start
  | next _ hstep ih => exact step _ _ _ ih hstep

/-! ## Loading -/

/-- A warning about an oversized cartridge changes the journal only. -/
theorem exists_loadRom_eq (m : Console) (rom : ByteArray) :
    ∃ journal, m.loadRom rom =
      (let loaded : Console := { m with memory := { m.memory with journal }.load 0 rom }
      match m.config.bootRom with
      | some boot => loaded.enterBoot rom boot
      | none => loaded.enterCartridge) := by
  have hwarned : ∃ journal,
      (if romLimit.toNat < rom.size then m.report (.oversizedRom rom.size romLimit) else m) =
        { m with memory := { m.memory with journal } } := by
    split
    · exact ⟨_, rfl⟩
    · exact ⟨_, rfl⟩
  obtain ⟨journal, hwarned⟩ := hwarned
  refine ⟨journal, ?_⟩
  cases hboot : m.config.bootRom <;> simp only [loadRom, hwarned, hboot]

/-! ## The parts of a step -/

/-- The sources that are both enabled and requested, as memory shows them. -/
def pending (m : Console) : UInt8 :=
  m.memory.peek Hardware.interruptEnable &&& m.memory.peek Hardware.interruptFlags &&& 0x1F

theorem lowest?_pending_eq_none_iff {m : Console} :
    (Image.pending m.memory.peek).lowest? = none ↔ m.pending = 0 :=
  Interrupts.lowest?_eq_none_iff

theorem testBit_pending_lt {m : Console} {source : Nat}
    (h : m.pending.toNat.testBit source = true) : source < 5 :=
  Interrupts.testBit_ofByte_lt h

@[simp] theorem cpu_elapse (m : Console) (cycles : Nat) : (m.elapse cycles).cpu = m.cpu := rfl

theorem memory_elapse (m : Console) (cycles : Nat) :
    (m.elapse cycles).memory = (m.timer.advance cycles m.memory).2 := rfl

theorem peek_elapse_interruptEnable (m : Console) (cycles : Nat) :
    (m.elapse cycles).memory.peek Hardware.interruptEnable =
      m.memory.peek Hardware.interruptEnable :=
  Timer.peek_advance_of_ne cycles m.timer m.memory (by decide) (by decide) (by decide)

theorem pending_elapse_zero (m : Console) : (m.elapse 0).pending = m.pending := by
  have hrequested : (m.elapse 0).memory.peek Hardware.interruptFlags =
      m.memory.peek Hardware.interruptFlags :=
    Timer.peek_advance_zero_interruptFlags m.timer m.memory
  rw [pending, peek_elapse_interruptEnable, hrequested, pending]

theorem stepCpu_fst (m : Console) : m.stepCpu.1 = (m.cpu.outcome m.memory.peek).1.1 :=
  congrArg Prod.fst (Cpu.step_run m.cpu m.memory).1

theorem stepCpu_cpu (m : Console) : m.stepCpu.2.cpu = (m.cpu.outcome m.memory.peek).1.2 :=
  congrArg Prod.snd (Cpu.step_run m.cpu m.memory).1

theorem stepCpu_memory (m : Console) :
    m.stepCpu.2.memory.quiet =
      putAll (β := AddressSpace) (m.cpu.outcome m.memory.peek).2 m.memory.quiet :=
  (Cpu.step_run m.cpu m.memory).2

theorem service_fst (m : Console) :
    m.service.1 = (m.cpu.serviceOutcome m.memory.peek).1.1.getD 0 :=
  congrArg (fun r : Option Nat × Cpu => r.1.getD 0) (Cpu.serviceInterrupt_run m.cpu m.memory).1

theorem service_cpu (m : Console) :
    m.service.2.cpu = (m.cpu.serviceOutcome m.memory.peek).1.2 :=
  congrArg (fun r : Option Nat × Cpu => r.2) (Cpu.serviceInterrupt_run m.cpu m.memory).1

theorem service_memory (m : Console) :
    m.service.2.memory.quiet =
      putAll (β := AddressSpace) (m.cpu.serviceOutcome m.memory.peek).2 m.memory.quiet :=
  (Cpu.serviceInterrupt_run m.cpu m.memory).2

/-- The source that is dispatched if interrupts are looked for now. -/
def dueSource (m : Console) : Option Nat :=
  if m.cpu.ime then (Image.pending m.memory.peek).lowest? else none

theorem dueSource_eq_none_iff {m : Console} :
    m.dueSource = none ↔ m.cpu.ime = false ∨ m.pending = 0 :=
  Cpu.dueSource_eq_none_iff

theorem lowest?_of_dueSource {m : Console} {source : Nat} (h : m.dueSource = some source) :
    m.cpu.ime = true ∧ (Image.pending m.memory.peek).lowest? = some source :=
  Cpu.lowest?_of_dueSource h

theorem serviceOutcome_of_no_source {m : Console} (h : m.dueSource = none) :
    m.cpu.serviceOutcome m.memory.peek = ((none, m.cpu), []) :=
  Cpu.serviceOutcome_of_none h

theorem serviceOutcome_of_source {m : Console} {source : Nat} (h : m.dueSource = some source) :
    m.cpu.serviceOutcome m.memory.peek =
      ((some Cpu.dispatchCycles,
        (m.cpu.dispatch source (Image.pending m.memory.peek)
          (m.memory.peek Hardware.interruptFlags)).cpu),
        (m.cpu.dispatch source (Image.pending m.memory.peek)
          (m.memory.peek Hardware.interruptFlags)).actions) :=
  Cpu.serviceOutcome_of_some h

theorem wake_eq (m : Console) : (m.wake.1, m.wake.2.cpu) = m.cpu.wakeOutcome m.memory.peek :=
  (Cpu.wakeIfPending_observes m.cpu m.memory).1

theorem work_of_not_halted {m : Console} (h : m.cpu.halted = false) : m.work = m.stepCpu := by
  rw [work, h]
  rfl

/-- Whether a step only idles: the processor is halted, and nothing is pending that wakes it. -/
def idles (m : Console) : Bool :=
  m.cpu.halted && m.pending == 0

/-- What the work of a step comes to: its result, the processor after it, and what reaches the
    bus. A halted processor that does not idle is woken first. -/
def workOutcome (m : Console) : (Except Fault Nat × Cpu) × List Action :=
  if m.idles then ((.ok idleCycles, m.cpu), [])
  else ({ m.cpu with halted := false } : Cpu).outcome m.memory.peek

theorem idles_of_not_halted {m : Console} (h : m.cpu.halted = false) : m.idles = false := by
  rw [idles, h, Bool.false_and]

theorem workOutcome_of_not_halted {m : Console} (h : m.cpu.halted = false) :
    m.workOutcome = m.cpu.outcome m.memory.peek := by
  have hcpu : ({ m.cpu with halted := false } : Cpu) = m.cpu := by rw [← h]
  rw [workOutcome, idles_of_not_halted h, hcpu]
  rfl

/-- Asking for a wake-up wakes a halted processor exactly if it does not idle then. -/
theorem wake_of_halted {m : Console} (h : m.cpu.halted = true) :
    m.wake.1 = !m.idles ∧ m.wake.2.cpu = { m.cpu with halted := m.idles } := by
  have heq := wake_eq m
  rw [Cpu.wakeOutcome, if_pos h] at heq
  cases hpending : (Image.pending m.memory.peek).lowest? with
  | none =>
    have hidles : m.idles = true := by
      rw [idles, h, lowest?_pending_eq_none_iff.mp hpending]
      rfl
    have hsame : ({ m.cpu with halted := true } : Cpu) = m.cpu := by rw [← h]
    rw [hpending] at heq
    rw [hidles, hsame]
    exact ⟨congrArg Prod.fst heq, congrArg Prod.snd heq⟩
  | some source =>
    have hidles : m.idles = false := by
      have hne : m.pending ≠ 0 := fun hzero => by
        rw [lowest?_pending_eq_none_iff.mpr hzero] at hpending
        cases hpending
      rw [idles, h, Bool.true_and, beq_eq_false_iff_ne]
      exact hne
    rw [hpending] at heq
    rw [hidles]
    exact ⟨congrArg Prod.fst heq, congrArg Prod.snd heq⟩

theorem wake_memory (m : Console) : m.wake.2.memory.quiet = m.memory.quiet :=
  (Cpu.wakeIfPending_observes m.cpu m.memory).2

theorem peek_wake (m : Console) : m.wake.2.memory.peek = m.memory.peek :=
  view_eq_of_held_eq (β := AddressSpace) (wake_memory m)

/-- Asking for a wake-up does nothing to a processor that is awake. -/
theorem wake_of_not_halted {m : Console} (h : m.cpu.halted = false) : m.wake = (false, m) := by
  have hasked : Cpu.wakeIfPending (β := AddressSpace) m.cpu = pure (false, m.cpu) := by
    simp [Cpu.wakeIfPending, h]
  rw [wake, hasked]
  rfl

/-- The processor is awake after that unless it idles. -/
theorem cpu_wake (m : Console) : m.wake.2.cpu = { m.cpu with halted := m.idles } := by
  cases hhalted : m.cpu.halted with
  | true => exact (wake_of_halted hhalted).2
  | false => rw [wake_of_not_halted hhalted, idles_of_not_halted hhalted, ← hhalted]

/-- The work of a step is one instruction of the awake processor, or a cycle of idling. -/
theorem work_eq (m : Console) :
    m.work = if m.idles then (.ok idleCycles, m.wake.2) else m.wake.2.stepCpu := by
  cases hhalted : m.cpu.halted with
  | false =>
    rw [work_of_not_halted hhalted, idles_of_not_halted hhalted, wake_of_not_halted hhalted]
    rfl
  | true =>
    have hwoken := (wake_of_halted hhalted).1
    rw [work, if_pos hhalted]
    dsimp only
    rw [hwoken]
    cases m.idles <;> rfl

/-- Work comes to what `workOutcome` says, and leaves the timer alone. -/
theorem work_run (m : Console) :
    (m.work.1, m.work.2.cpu) = m.workOutcome.1 ∧
      m.work.2.memory.quiet = putAll (β := AddressSpace) m.workOutcome.2 m.memory.quiet ∧
      m.work.2.timer = m.timer ∧ m.work.2.config = m.config := by
  have hcpu := cpu_wake m
  rw [work_eq, workOutcome]
  cases hidles : m.idles with
  | true =>
    have hhalted : m.cpu.halted = true := (Bool.and_eq_true_iff.mp hidles).1
    have hsame : m.wake.2.cpu = m.cpu := by rw [hcpu, hidles, ← hhalted]
    exact ⟨congrArg (Prod.mk _) hsame, wake_memory m, rfl, rfl⟩
  | false =>
    have hresult : (m.wake.2.stepCpu.1, m.wake.2.stepCpu.2.cpu) = _ :=
      Prod.ext (stepCpu_fst m.wake.2) (stepCpu_cpu m.wake.2)
    have hleft := stepCpu_memory m.wake.2
    rw [hcpu, hidles, peek_wake] at hresult hleft
    rw [wake_memory] at hleft
    exact ⟨hresult, hleft, rfl, rfl⟩

theorem step_of_work {m worked : Console} {cycles : Nat} (h : m.work = (.ok cycles, worked)) :
    m.step =
      (.ok (cycles + (worked.elapse cycles).service.1),
        (worked.elapse cycles).service.2.elapse (worked.elapse cycles).service.1) := by
  simp only [step, h]

/-- A successful step is some work followed by the timer, interrupts and the timer again. -/
theorem work_of_step {m m' : Console} {cost : Nat} (h : m.step = (.ok cost, m')) :
    ∃ cycles worked, m.work = (.ok cycles, worked) ∧
      cost = cycles + (worked.elapse cycles).service.1 ∧
      m' = (worked.elapse cycles).service.2.elapse (worked.elapse cycles).service.1 := by
  cases hwork : m.work with
  | mk result worked =>
    cases result with
    | error fault =>
      simp only [step, hwork] at h
      cases h
    | ok cycles =>
      rw [step_of_work hwork] at h
      cases h
      exact ⟨cycles, worked, rfl, rfl, rfl⟩

end Console

end Handheld
