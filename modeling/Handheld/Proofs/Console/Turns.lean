-- SUMMARY: What happens in each step of a run: the bytes stored, the cycles charged, the reloads of the timer and the handler entered.
import Handheld.Proofs.Console.Steps

namespace Handheld

/-! ## Turns

A step is work, then the timer for its cycles, then a handler if one is due, and
the timer again for the cycles of the dispatch. A turn is the record of what the
parts of one step did, as far as the timer and the interrupt requests can tell. -/

/-- What happens in a successful step, in the order in which it happens. -/
structure Turn where
  /-- The bytes that the instruction stores. -/
  stores : List (UInt16 × UInt8)
  /-- The cycles of the instruction, or of idling. -/
  cycles : Nat
  /-- How often the timer's counter restarts during these cycles. -/
  reloads : Nat
  /-- The source whose handler is entered then, if one is. -/
  source : Option Nat
  /-- The bytes of PC that are pushed for it. -/
  pushed : List (UInt16 × UInt8)
  /-- How often the timer's counter restarts during the cycles of the dispatch. -/
  lateReloads : Nat

namespace Turn

/-- The cycles of the dispatch, zero if no handler is entered. -/
def dispatchCycles (turn : Turn) : Nat :=
  if turn.source.isSome then Cpu.dispatchCycles else 0

/-- All cycles of the step. -/
def cost (turn : Turn) : Nat :=
  turn.cycles + turn.dispatchCycles

end Turn

namespace Console

/-- The cycles of the work of a step, zero if it fails. -/
def workCycles (m : Console) : Nat :=
  m.work.1.toOption.getD 0

/-- The console when its step looks for interrupts. -/
def due (m : Console) : Console :=
  m.work.2.elapse m.workCycles

/-- What entering the handler that is due does to the outside. -/
def serviceActions (m : Console) : List Action :=
  (m.cpu.serviceOutcome m.memory.peek).2

/-- The bytes of PC that are pushed then. -/
def pushed (m : Console) : List (UInt16 × UInt8) :=
  if m.dueSource.isSome then storesOf (Cpu.pushActions m.cpu.regs.sp m.cpu.regs.pc) else []

/-- How many of the cycles that are about to pass restart the timer's counter. -/
def reloadsIn (m : Console) (cycles : Nat) : Nat :=
  m.timer.reloadsIn cycles m.memory

/-- The next step of a console, if it succeeds. -/
def turn (m : Console) : Turn where
  stores := storesOf m.workOutcome.2
  cycles := m.workCycles
  reloads := m.work.2.reloadsIn m.workCycles
  source := m.due.dueSource
  pushed := m.due.pushed
  lateReloads := m.due.service.2.reloadsIn m.due.service.1

theorem source_turn (m : Console) : m.turn.source = m.due.dueSource := rfl

theorem pushed_turn (m : Console) : m.turn.pushed = m.due.pushed := rfl

/-- Successful steps in a row, with what happens in each. -/
inductive Turns (m : Console) : List Turn → Console → Prop where
  | none : Turns m [] m
  | next {turns : List Turn} {m₁ m₂ : Console} {cost : Nat} :
      Turns m turns m₁ → m₁.step = (.ok cost, m₂) → Turns m (turns ++ [m₁.turn]) m₂

theorem Turns.single {m m' : Console} {cost : Nat} (h : m.step = (.ok cost, m')) :
    Turns m [m.turn] m' :=
  .next .none h

/-! ## Serving -/

/-- Looking for interrupts yields the cycles of a dispatch exactly if a source is due. -/
theorem serviceInterrupt_fst (m : Console) :
    ((m.cpu.serviceInterrupt).run m.memory).1.1 =
      m.dueSource.map fun _ => Cpu.dispatchCycles := by
  have houtcome : ((m.cpu.serviceInterrupt).run m.memory).1.1 =
      (m.cpu.serviceOutcome m.memory.peek).1.1 :=
    congrArg Prod.fst (Cpu.serviceInterrupt_run m.cpu m.memory).1
  rw [houtcome]
  cases h : m.dueSource with
  | none => rw [serviceOutcome_of_no_source h, Option.map_none]
  | some source => rw [serviceOutcome_of_source h, Option.map_some]

theorem service_fst_eq (m : Console) :
    m.service.1 = if m.dueSource.isSome then Cpu.dispatchCycles else 0 := by
  have hcycles : m.service.1 = ((m.cpu.serviceInterrupt).run m.memory).1.1.getD 0 := rfl
  rw [hcycles, serviceInterrupt_fst]
  cases m.dueSource <;> rfl

theorem pc_service {m : Console} {source : Nat} (h : m.dueSource = some source) :
    m.service.2.cpu.regs.pc = Interrupts.handler source := by
  rw [service_cpu, serviceOutcome_of_source h]
  rfl

/-- Entering a handler stores the requests without its source, and then PC. -/
theorem storesOf_serviceActions (m : Console) :
    storesOf m.serviceActions =
      (m.dueSource.map fun source => (Hardware.interruptFlags,
        m.memory.peek Hardware.interruptFlags &&& ~~~(Interrupts.single source).bits)).toList ++
          m.pushed := by
  unfold serviceActions pushed
  cases h : m.dueSource with
  | none =>
    rw [serviceOutcome_of_no_source h]
    rfl
  | some source =>
    rw [serviceOutcome_of_source h]
    rfl

theorem serviceActions_of_no_source {m : Console} (h : m.dueSource = none) :
    m.serviceActions = [] :=
  congrArg Prod.snd (serviceOutcome_of_no_source h)

theorem pushed_of_no_source {m : Console} (h : m.dueSource = none) : m.pushed = [] := by
  rw [pushed, h]
  rfl

theorem pushed_of_source {m : Console} {source : Nat} (h : m.dueSource = some source) :
    m.pushed = storesOf (Cpu.pushActions m.cpu.regs.sp m.cpu.regs.pc) := by
  rw [pushed, h]
  rfl

/-- A source that is dispatched is requested. -/
theorem testBit_of_dueSource {m : Console} {source : Nat} (h : m.dueSource = some source) :
    source < 5 ∧ (m.memory.peek Hardware.interruptFlags).toNat.testBit source = true := by
  obtain ⟨-, hbit, -⟩ := Interrupts.lowest?_eq_some_iff.mp (lowest?_of_dueSource h).2
  have hpending : m.pending.toNat.testBit source = true := hbit
  refine ⟨testBit_pending_lt hpending, ?_⟩
  rw [pending, UInt8.toNat_and, UInt8.toNat_and, Nat.testBit_and, Nat.testBit_and,
    Bool.and_eq_true, Bool.and_eq_true] at hpending
  exact hpending.1.2

/-! ## The parts of a turn

While writes are not logged, each part of a step has its effect on the divider
and on the interrupt requests, and leaves writes unlogged for the next part. -/

section

variable {m : Console}

theorem work_stores (hlog : m.memory.logsWrites = false) :
    m.memory.Stored m.turn.stores m.work.2.memory :=
  AddressSpace.stored_of_putAll hlog (work_run m).2.1

theorem service_stores (hlog : m.memory.logsWrites = false) :
    m.memory.Stored (storesOf m.serviceActions) m.service.2.memory :=
  AddressSpace.stored_of_putAll hlog (service_memory m)

/-- Taking back a request does not restart the divider, but the push of PC may. -/
theorem dividerHit_service (hlog : m.memory.logsWrites = false) :
    m.service.2.memory.dividerHit =
      (m.memory.dividerHit || storesAt m.pushed Hardware.divider) := by
  rw [(service_stores hlog).dividerHit, storesOf_serviceActions]
  cases m.dueSource <;> simp [storesAt, Hardware.interruptFlags, Hardware.divider]

@[simp] theorem dividerHit_elapse (cycles : Nat) : (m.elapse cycles).memory.dividerHit = false :=
  rfl

theorem counter_elapse (cycles : Nat) :
    (m.elapse cycles).timer.counter =
      (if m.memory.dividerHit then 0 else m.timer.counter) + UInt16.ofNat cycles :=
  Timer.counter_advance ..

theorem logsWrites_elapse (hlog : m.memory.logsWrites = false) (cycles : Nat) :
    (m.elapse cycles).memory.logsWrites = false := by
  obtain ⟨memory, hm⟩ := AddressSpace.exists_holds_of_not_logsWrites hlog
  exact (Timer.holds_advance cycles m.timer hm).logsWrites

theorem peek_elapse_divider (hlog : m.memory.logsWrites = false) (cycles : Nat) :
    (m.elapse cycles).memory.peek Hardware.divider = (m.elapse cycles).timer.divider := by
  obtain ⟨memory, hm⟩ := AddressSpace.exists_holds_of_not_logsWrites hlog
  exact Timer.peek_advance_divider cycles m.timer hm

theorem peek_elapse_interruptFlags (hlog : m.memory.logsWrites = false) (cycles : Nat) :
    (m.elapse cycles).memory.peek Hardware.interruptFlags =
      if 0 < m.reloadsIn cycles then m.memory.peek Hardware.interruptFlags ||| Interrupts.timer
      else m.memory.peek Hardware.interruptFlags := by
  obtain ⟨memory, hm⟩ := AddressSpace.exists_holds_of_not_logsWrites hlog
  exact Timer.peek_advance_interruptFlags cycles m.timer hm

theorem logsWrites_due (hlog : m.memory.logsWrites = false) : m.due.memory.logsWrites = false :=
  logsWrites_elapse (work_stores hlog).logsWrites _

end

/-! ## Steps as turns -/

/-- A successful step costs what its turn says, and it ends when the cycles of the dispatch have
    passed. -/
theorem turn_of_step {m m' : Console} {cost : Nat} (h : m.step = (.ok cost, m')) :
    cost = m.turn.cost ∧ m' = m.due.service.2.elapse m.turn.dispatchCycles := by
  obtain ⟨cycles, worked, hwork, rfl, rfl⟩ := work_of_step h
  have hcycles : m.workCycles = cycles := by
    rw [workCycles, hwork]
    rfl
  have hdue : m.due = worked.elapse cycles := by rw [due, hcycles, hwork]
  have hdispatch : (worked.elapse cycles).service.1 = m.turn.dispatchCycles := by
    rw [← hdue, service_fst_eq]
    rfl
  refine ⟨?_, ?_⟩
  · rw [hdispatch, ← hcycles]
    rfl
  · rw [hdispatch, hdue]

/-- A step succeeds if its work does. -/
theorem step_of_workOutcome {m : Console} {cycles : Nat} {cpu : Cpu} {actions : List Action}
    (h : m.workOutcome = ((.ok cycles, cpu), actions)) :
    m.step = (.ok m.turn.cost, m.step.2) ∧ m.turn.cycles = cycles ∧
      m.turn.stores = storesOf actions ∧ m.due.cpu = cpu := by
  have hresult : (m.work.1, m.work.2.cpu) = (.ok cycles, cpu) :=
    (work_run m).1.trans (congrArg Prod.fst h)
  have hsucceeds : m.work.1 = .ok cycles := congrArg Prod.fst hresult
  have hwork : m.work = (.ok cycles, m.work.2) := Prod.ext hsucceeds rfl
  have hstep := step_of_work hwork
  refine ⟨?_, ?_, ?_, ?_⟩
  · rw [← (turn_of_step hstep).1, hstep]
  · exact congrArg (·.toOption.getD 0) hsucceeds
  · exact congrArg storesOf (congrArg Prod.snd h)
  · exact congrArg Prod.snd hresult

theorem logsWrites_of_step {m m' : Console} {cost : Nat} (h : m.step = (.ok cost, m'))
    (hlog : m.memory.logsWrites = false) : m'.memory.logsWrites = false := by
  rw [(turn_of_step h).2]
  exact logsWrites_elapse (service_stores (logsWrites_due hlog)).logsWrites _

theorem Turns.logsWrites {m m' : Console} {turns : List Turn} (run : Turns m turns m')
    (hlog : m.memory.logsWrites = false) : m'.memory.logsWrites = false := by
  induction run with
  | none => exact hlog
  | next _ hstep ih => exact logsWrites_of_step hstep ih

/-- The turns of a run tell the cost of each of its steps. -/
theorem Turns.steps {m m' : Console} {turns : List Turn} (run : Turns m turns m') :
    Steps m (turns.map Turn.cost) m' := by
  induction run with
  | none => exact .none
  | next _ hstep ih =>
    rw [List.map_append, List.map_singleton, ← (turn_of_step hstep).1]
    exact .next ih hstep

/-- Every run has turns. -/
theorem Steps.turns {m m' : Console} {costs : List Nat} (run : Steps m costs m') :
    ∃ turns, Turns m turns m' ∧ costs = turns.map Turn.cost := by
  induction run with
  | none => exact ⟨[], .none, rfl⟩
  | next _ hstep ih =>
    obtain ⟨turns, hturns, rfl⟩ := ih
    refine ⟨_, .next hturns hstep, ?_⟩
    rw [List.map_append, List.map_singleton, (turn_of_step hstep).1]

end Console

end Handheld
