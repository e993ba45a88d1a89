-- SUMMARY: How long a halted processor sleeps: until the timer's next reload if that is enabled, and otherwise for ever.
import Handheld.Proofs.Console.Attention
import Handheld.Proofs.Console.Divider
import Handheld.Proofs.Console.Requests
import Handheld.Proofs.Console.Runs
import Handheld.Proofs.Timer.Overflow

namespace Handheld.Console

/-! ## Consoles at rest

Between two steps the timer has caught up with all stores, and memory shows its
divider. So cycles that pass can be split, and no cycle makes no difference. -/

/-- What holds of timer and memory between two steps while writes are not logged. -/
structure AtRest (m : Console) : Prop where
  logsWrites : m.memory.logsWrites = false
  no_hit : m.memory.dividerHit = false
  control_seen : m.timer.lastControl = m.memory.peek Hardware.timerControl
  published : m.memory.peek Hardware.divider = m.timer.divider

section

variable {m : Console}

theorem AtRest.elapse (hlog : m.memory.logsWrites = false) (cycles : Nat) :
    (m.elapse cycles).AtRest where
  logsWrites := logsWrites_elapse hlog cycles
  no_hit := dividerHit_elapse cycles
  control_seen := by
    have hseen : (m.elapse cycles).timer.lastControl = m.memory.peek Hardware.timerControl :=
      congrArg (·.1) (Timer.setup_advanced cycles m.timer m.memory)
    have hkept : (m.elapse cycles).memory.peek Hardware.timerControl =
        m.memory.peek Hardware.timerControl :=
      Timer.peek_advance_of_ne cycles m.timer m.memory (by decide) (by decide) (by decide)
    exact hseen.trans hkept.symm
  published := peek_elapse_divider hlog cycles

theorem AtRest.step (h : m.AtRest) {m' : Console} {cost : Nat} (hstep : m.step = (.ok cost, m')) :
    m'.AtRest := by
  rw [(turn_of_step hstep).2]
  exact .elapse (service_stores (logsWrites_due h.logsWrites)).logsWrites _

theorem atRest_loadRom (rom : ByteArray) (hlog : m.memory.logsWrites = false) :
    (m.loadRom rom).AtRest := by
  have hshows := shows_loadRom rom hlog
  have hseen : (m.loadRom rom).timer.lastControl =
      (m.loadRom rom).memory.peek Hardware.timerControl := by
    obtain ⟨journal, hload⟩ := m.exists_loadRom_eq rom
    rw [hload]
    cases m.config.bootRom with
    | none => exact (AddressSpace.peek_poke_of_ne _ _ (by decide)).symm
    | some boot => exact (AddressSpace.peek_poke_of_ne _ _ (by decide)).symm
  exact ⟨hshows.logsWrites, hshows.no_hit, hseen, hshows.published⟩

theorem Steps.atRest {m' : Console} {rom : ByteArray} {costs : List Nat}
    (run : Steps (m.loadRom rom) costs m') (hlog : m.memory.logsWrites = false) : m'.AtRest := by
  apply run.invariant (atRest_loadRom rom hlog)
  intro _ _ _ h hstep
  exact h.step hstep

theorem AtRest.elapse_zero (h : m.AtRest) : m.elapse 0 = m := by
  obtain ⟨memory, hm⟩ := AddressSpace.exists_holds_of_not_logsWrites h.logsWrites
  have hadvance := Timer.advance_zero hm h.no_hit h.control_seen h.published
  exact congrArg (fun p : Timer × AddressSpace => { m with timer := p.1, memory := p.2 }) hadvance

theorem elapse_elapse (hlog : m.memory.logsWrites = false) (first second : Nat) :
    (m.elapse first).elapse second = m.elapse (first + second) := by
  obtain ⟨memory, hm⟩ := AddressSpace.exists_holds_of_not_logsWrites hlog
  have hadvance := Timer.advance_advance first second m.timer hm.store_eq
  exact congrArg (fun p : Timer × AddressSpace => { m with timer := p.1, memory := p.2 }) hadvance

end

/-! ## What observers have not seen -/

/-- The console with nothing heard and an empty journal. -/
def quiet (m : Console) : Console :=
  { m with memory := m.memory.quiet }

section

variable {m m' : Console}

theorem quiet_ext (hcpu : m.cpu = m'.cpu) (hmemory : m.memory.quiet = m'.memory.quiet)
    (htimer : m.timer = m'.timer) (hconfig : m.config = m'.config) : m.quiet = m'.quiet := by
  simp only [quiet, hcpu, hmemory, htimer, hconfig]

theorem elapse_quiet (m : Console) (cycles : Nat) : m.quiet.elapse cycles = (m.elapse cycles).quiet :=
  rfl

theorem elapse_congr (h : m.quiet = m'.quiet) (cycles : Nat) :
    (m.elapse cycles).quiet = (m'.elapse cycles).quiet := by
  rw [← elapse_quiet, h, elapse_quiet]

theorem cpu_congr (h : m.quiet = m'.quiet) : m.cpu = m'.cpu :=
  congrArg (·.cpu) h

theorem peek_congr (h : m.quiet = m'.quiet) (address : UInt16) :
    m.memory.peek address = m'.memory.peek address :=
  congrArg (fun m => m.memory.peek address) h

theorem pending_congr (h : m.quiet = m'.quiet) : m.pending = m'.pending := by
  simp only [pending, peek_congr h]

theorem requested_congr (h : m.quiet = m'.quiet) (bit : Nat) :
    m.requested bit = m'.requested bit := by
  simp only [requested, peek_congr h]

end

/-! ## Steps that store nothing

A step that stores nothing lets its cycles pass and then looks for interrupts. If
none is due, nothing else happens. Idling is such a step. -/

section

variable {m : Console} {cycles : Nat} {cpu : Cpu}

theorem step_eq_of_silent (h : m.workOutcome = ((.ok cycles, cpu), [])) :
    m.due.quiet = (({ m with cpu } : Console).elapse cycles).quiet ∧
      m.step = (.ok (cycles + m.due.service.1), m.due.service.2.elapse m.due.service.1) := by
  obtain ⟨hresult, hmemory, htimer, hconfig⟩ := work_run m
  rw [h] at hresult hmemory
  have hsucceeds : m.work.1 = .ok cycles := congrArg Prod.fst hresult
  have hwork : m.work = (.ok cycles, m.work.2) := Prod.ext hsucceeds rfl
  have hsilent : m.work.2.quiet = ({ m with cpu } : Console).quiet :=
    quiet_ext (congrArg Prod.snd hresult) hmemory htimer hconfig
  have hdue : m.due = m.work.2.elapse cycles := by
    rw [due, workCycles, hwork]
    rfl
  rw [hdue]
  exact ⟨elapse_congr hsilent cycles, step_of_work hwork⟩

theorem step_of_silent (h : m.workOutcome = ((.ok cycles, cpu), []))
    (hnot : cpu.ime = false ∨ (({ m with cpu } : Console).elapse cycles).pending = 0) :
    m.step.1 = .ok cycles ∧
      m.step.2.quiet = ((({ m with cpu } : Console).elapse cycles).elapse 0).quiet := by
  obtain ⟨hdue, hstep⟩ := step_eq_of_silent h
  have hnot' : m.due.cpu.ime = false ∨ m.due.pending = 0 := by
    rw [cpu_congr hdue, pending_congr hdue]
    exact hnot
  obtain ⟨hzero, hcpu, hmemory⟩ := service_of_not_due hnot'
  have hserved : m.due.service.2.quiet = (({ m with cpu } : Console).elapse cycles).quiet :=
    (quiet_ext hcpu hmemory rfl rfl).trans hdue
  rw [hstep, hzero]
  exact ⟨rfl, elapse_congr hserved 0⟩

theorem idles_iff : m.idles = true ↔ m.cpu.halted = true ∧ m.pending = 0 := by
  simp [idles]

theorem workOutcome_of_idles (h : m.idles = true) : m.workOutcome = ((.ok 1, m.cpu), []) := by
  rw [workOutcome, if_pos h]
  rfl

end

/-! ## Sleeping

While a processor sleeps its steps are the cycles of the timer, one by one. -/

section

variable {m : Console}

/-- In each of the next steps the processor goes to sleep with nothing pending, and no request
    that comes up is dispatched. -/
def Sleeps (m : Console) (n : Nat) : Prop :=
  ∀ j < n, (m.elapse j).pending = 0 ∧ (m.cpu.ime = false ∨ (m.elapse (j + 1)).pending = 0)

theorem Sleeps.of_le {n n' : Nat} (h : m.Sleeps n) (hle : n' ≤ n) : m.Sleeps n' :=
  fun j hj => h j (Nat.lt_of_lt_of_le hj hle)

theorem sleeps_of_pending {n : Nat} (h : ∀ j ≤ n, (m.elapse j).pending = 0) : m.Sleeps n :=
  fun j hj => ⟨h j (Nat.le_of_lt hj), .inr (h (j + 1) hj)⟩

theorem idles_of_quiet {m' : Console} {j : Nat} (hhalted : m.cpu.halted = true)
    (hpending : (m.elapse j).pending = 0) (h : m'.quiet = (m.elapse j).quiet) :
    m'.idles = true := by
  apply idles_iff.mpr
  rw [cpu_congr h, pending_congr h]
  exact ⟨hhalted, hpending⟩

/-- A step of sleep lets the timer run for one cycle. -/
theorem step_asleep {m' : Console} {j : Nat} (hlog : m.memory.logsWrites = false)
    (hhalted : m.cpu.halted = true) (h : m'.quiet = (m.elapse j).quiet)
    (hpending : (m.elapse j).pending = 0)
    (hnot : m.cpu.ime = false ∨ (m.elapse (j + 1)).pending = 0) :
    m'.step.1 = .ok 1 ∧ m'.step.2.quiet = (m.elapse (j + 1)).quiet := by
  have hnext : (m'.elapse 1).quiet = (m.elapse (j + 1)).quiet := by
    rw [← elapse_elapse hlog]
    exact elapse_congr h 1
  have hnot' : m'.cpu.ime = false ∨ (m'.elapse 1).pending = 0 := by
    rw [cpu_congr h, pending_congr hnext]
    exact hnot
  obtain ⟨hcost, hstep⟩ :=
    step_of_silent (workOutcome_of_idles (idles_of_quiet hhalted hpending h)) hnot'
  refine ⟨hcost, ?_⟩
  rw [hstep, elapse_congr hnext 0, elapse_elapse hlog]

/-- After steps of sleep the timer has run for as many cycles, and nothing else has happened. -/
theorem Sleeps.quiet_after (hrest : m.AtRest) (hhalted : m.cpu.halted = true) {n : Nat}
    (h : m.Sleeps n) : (m.after n).quiet = (m.elapse n).quiet := by
  induction n with
  | zero =>
    rw [hrest.elapse_zero]
    rfl
  | succ n ih =>
    have hbefore := ih (h.of_le (Nat.le_succ n))
    obtain ⟨hpending, hnot⟩ := h n (Nat.lt_succ_self n)
    rw [after_succ]
    exact (step_asleep hrest.logsWrites hhalted hbefore hpending hnot).2

end

/-- The next steps only idle. They change no register of the processor, and in memory at most the
    divider, the timer's counter and the timer's request. -/
structure Dozes (m : Console) (n : Nat) : Prop where
  step_eq : ∀ j < n, (m.after j).step.1 = .ok 1
  cpu_eq : ∀ j ≤ n, (m.after j).cpu = m.cpu
  peek_eq : ∀ j ≤ n, ∀ address, address ≠ Hardware.divider → address ≠ Hardware.timerCounter →
    address ≠ Hardware.interruptFlags →
      (m.after j).memory.peek address = m.memory.peek address
  requested_eq : ∀ j ≤ n, ∀ bit, bit ≠ 2 → (m.after j).requested bit = m.requested bit

theorem requested_elapse_of_ne {m : Console} (hlog : m.memory.logsWrites = false) (cycles : Nat)
    {bit : Nat} (hbit : bit ≠ 2) : (m.elapse cycles).requested bit = m.requested bit := by
  rw [requested_elapse hlog, Signal.foldl_leaves_replicate_reload, beq_eq_false_iff_ne.mpr hbit]
  simp

theorem Sleeps.dozes {m : Console} (hrest : m.AtRest) (hhalted : m.cpu.halted = true) {n : Nat}
    (h : m.Sleeps n) : m.Dozes n := by
  have hafter (j : Nat) (hj : j ≤ n) : (m.after j).quiet = (m.elapse j).quiet :=
    (h.of_le hj).quiet_after hrest hhalted
  refine ⟨?_, ?_, ?_, ?_⟩
  · intro j hj
    obtain ⟨hpending, hnot⟩ := h j hj
    exact (step_asleep hrest.logsWrites hhalted (hafter j (Nat.le_of_lt hj)) hpending hnot).1
  · intro j hj
    exact (cpu_congr (hafter j hj)).trans (m.cpu_elapse j)
  · intro j hj address hdivider hcount hflags
    rw [peek_congr (hafter j hj)]
    exact Timer.peek_advance_of_ne j m.timer m.memory hcount hflags hdivider
  · intro j hj bit hbit
    rw [requested_congr (hafter j hj)]
    exact requested_elapse_of_ne hrest.logsWrites j hbit

/-! ## What can be requested

Nothing but the timer makes a request while the processor sleeps. So it sleeps
until the next reload, and for ever if there is none or nobody asks for it. -/

/-- Which sources are pending once the timer has made its request. -/
theorem pending_or_timer (enabled requested : UInt8) :
    enabled &&& (requested ||| Interrupts.timer) &&& 0x1F =
      (enabled &&& requested &&& 0x1F) |||
        (if enabled.toNat.testBit 2 then Interrupts.timer else 0) := by
  apply UInt8.toNat_inj.mp
  apply Nat.eq_of_testBit_eq
  intro bit
  simp only [UInt8.toNat_and, UInt8.toNat_or, Nat.testBit_and, Nat.testBit_or,
    Interrupts.testBit_timer]
  by_cases hbit : bit = 2
  · subst hbit
    have hsource : Nat.testBit 31 2 = true := by decide
    cases henabled : enabled.toNat.testBit 2 <;> simp [Interrupts.testBit_timer, hsource]
  · have hother : (bit == 2) = false := beq_eq_false_iff_ne.mpr hbit
    cases henabled : enabled.toNat.testBit 2 <;> simp [Interrupts.testBit_timer, hother]

section

variable {m : Console}

theorem AtRest.settled (h : m.AtRest) (hdue : m.timer.reloadDue = false) :
    Timer.Settled m.timer m.memory :=
  ⟨hdue, h.no_hit, h.control_seen⟩

theorem pending_elapse_of_same {cycles : Nat}
    (h : (m.elapse cycles).memory.peek Hardware.interruptFlags =
      m.memory.peek Hardware.interruptFlags) : (m.elapse cycles).pending = m.pending := by
  simp only [pending, peek_elapse_interruptEnable, h]

/-- A request that is not enabled makes nothing pending. -/
theorem pending_elapse_of_not_enabled (hlog : m.memory.logsWrites = false)
    (h : (m.memory.peek Hardware.interruptEnable).toNat.testBit 2 = false) (cycles : Nat) :
    (m.elapse cycles).pending = m.pending := by
  have hrequested := peek_elapse_interruptFlags hlog cycles
  split at hrequested
  · simp [pending, peek_elapse_interruptEnable, hrequested, pending_or_timer, h]
  · exact pending_elapse_of_same hrequested

/-- Without a reload to come no request is made. -/
theorem pending_elapse_of_not_counting (hrest : m.AtRest)
    (hdisabled : TimerReference.enables (m.memory.peek Hardware.timerControl) = false)
    (hdue : m.timer.reloadDue = false) (cycles : Nat) :
    (m.elapse cycles).pending = m.pending := by
  obtain ⟨memory, hm⟩ := AddressSpace.exists_holds_of_not_logsWrites hrest.logsWrites
  have htally :=
    (Timer.closedForm_advance cycles hm.store_eq (hrest.settled hdue)).disabled hdisabled
  exact pending_elapse_of_same (congrArg Tally.requests htally)

/-- How many steps it takes until the timer's request has been made. -/
def wakeTime (m : Console) : Nat :=
  let period := TimerReference.period (m.memory.peek Hardware.timerControl)
  if m.timer.reloadDue then 1
  else
    (256 - (m.memory.peek Hardware.timerCounter).toNat) * period -
      m.timer.counter.toNat % period + 1

theorem wakeTime_congr {m' : Console} (h : m.quiet = m'.quiet) : m.wakeTime = m'.wakeTime := by
  have htimer : m.timer = m'.timer := congrArg (·.timer) h
  simp only [wakeTime, htimer, peek_congr h]

/-- Up to the last cycle before that time nothing has been requested, but a reload is due then. -/
theorem exists_last_before (hrest : m.AtRest)
    (hcounts : TimerReference.enables (m.memory.peek Hardware.timerControl) = true ∨
      m.timer.reloadDue = true) :
    ∃ n ≤ 65536, m.wakeTime = n + 1 ∧
      (∀ j ≤ n, (m.elapse j).memory.peek Hardware.interruptFlags =
        m.memory.peek Hardware.interruptFlags) ∧
      (m.elapse n).timer.reloadDue = true := by
  cases hdue : m.timer.reloadDue with
  | true =>
    refine ⟨0, Nat.zero_le _, ?_, ?_, ?_⟩
    · simp [wakeTime, hdue]
    · intro j hj
      rw [Nat.le_zero.mp hj, hrest.elapse_zero]
    · rw [hrest.elapse_zero]
      exact hdue
  | false =>
    have henables := hcounts.resolve_right (by simp [hdue])
    obtain ⟨memory, hm⟩ := AddressSpace.exists_holds_of_not_logsWrites hrest.logsWrites
    obtain ⟨hsame, hlast⟩ :=
      Timer.advance_to_overflow hm.store_eq (hrest.settled hdue) henables
    refine ⟨Timer.overflowTime m.timer m.memory, Timer.overflowTime_le .., ?_, hsame, hlast⟩
    simp [wakeTime, hdue, Timer.overflowTime]

/-- A reload that is due makes its request in the next cycle. -/
theorem requests_of_reloadDue (hrest : m.AtRest) {n : Nat}
    (hsame : (m.elapse n).memory.peek Hardware.interruptFlags =
      m.memory.peek Hardware.interruptFlags)
    (hdue : (m.elapse n).timer.reloadDue = true) :
    (m.elapse (n + 1)).memory.peek Hardware.interruptFlags =
      m.memory.peek Hardware.interruptFlags ||| Interrupts.timer := by
  have hlater := AtRest.elapse hrest.logsWrites n
  obtain ⟨memory, hm⟩ := AddressSpace.exists_holds_of_not_logsWrites hlater.logsWrites
  have hrequested := Timer.peek_advance_of_reloadDue hm hlater.no_hit hlater.control_seen hdue
  rw [hsame] at hrequested
  rw [← elapse_elapse hrest.logsWrites, memory_elapse]
  exact hrequested

theorem pending_of_reloadDue (hpending : m.pending = 0)
    (henabled : (m.memory.peek Hardware.interruptEnable).toNat.testBit 2 = true) {n : Nat}
    (hrequests : (m.elapse (n + 1)).memory.peek Hardware.interruptFlags =
      m.memory.peek Hardware.interruptFlags ||| Interrupts.timer) :
    (m.elapse (n + 1)).pending = Interrupts.timer := by
  rw [pending, peek_elapse_interruptEnable, hrequests, pending_or_timer, if_pos henabled]
  exact (congrArg (· ||| Interrupts.timer) hpending).trans (UInt8.zero_or ..)

theorem requested_of_pending_zero (hpending : m.pending = 0)
    (henabled : (m.memory.peek Hardware.interruptEnable).toNat.testBit 2 = true) :
    m.requested 2 = false := by
  have hbit : m.pending.toNat.testBit 2 = false := by rw [hpending]; rfl
  have hsource : Nat.testBit 31 2 = true := by decide
  rw [requested]
  simpa [pending, henabled, hsource] using hbit

end

/-! ## The end of sleep -/

/-- A halted processor sleeps for some steps, and in the one after them the timer makes its request.
    If interrupts may be dispatched, that step enters the timer's handler. If not, the processor
    sleeps through it, and the step after it wakes up and goes on at PC. -/
structure WakesAfter (m : Console) (n : Nat) : Prop where
  dozes : m.Dozes n
  not_yet : (m.after n).requested 2 = false
  requested : (m.after n).due.requested 2 = true
  enters : m.cpu.ime = true → ∃ served, Enters 2 (m.after n).due served ∧
    (m.after n).step = (.ok 6, served.elapse 5) ∧
      (m.after (n + 1)).cpu =
        { m.cpu with
          ime := false
          halted := false
          regs := { m.cpu.regs with pc := 0x50, sp := m.cpu.regs.sp - 2 } }
  sleeps_on : m.cpu.ime = false → m.Dozes (n + 1) ∧ (m.after (n + 1)).requested 2 = true
  goes_on : m.cpu.ime = false → ∃ woken, (m.after (n + 1)).wake = (true, woken) ∧
    woken.cpu = { m.cpu with halted := false } ∧
      woken.memory.quiet = (m.after (n + 1)).memory.quiet ∧
        (m.after (n + 1)).work = woken.stepCpu

section

variable {m : Console}

/-- With the timer's request alone pending, its handler is entered. -/
theorem service_of_timer (hime : m.cpu.ime = true) (hpending : m.pending = Interrupts.timer) :
    m.service.1 = Cpu.dispatchCycles ∧ Enters 2 m m.service.2 := by
  have hsome : m.pending ≠ 0 := by
    rw [hpending]
    decide
  obtain ⟨hcycles, source, henters⟩ := service_of_due hime hsome
  have hsource : source = 2 := by
    have hbit := henters.isPending
    rw [hpending, Interrupts.testBit_timer, beq_iff_eq] at hbit
    exact hbit
  exact ⟨hcycles, hsource ▸ henters⟩

/-- A halted processor with something pending wakes up and does the instruction at PC. -/
theorem work_of_halted_of_pending (hhalted : m.cpu.halted = true) (hpending : m.pending ≠ 0) :
    ∃ woken, m.wake = (true, woken) ∧ woken.cpu = { m.cpu with halted := false } ∧
      woken.memory.quiet = m.memory.quiet ∧ m.work = woken.stepCpu := by
  have hidles : m.idles = false := by simp [idles, hpending]
  obtain ⟨hwoken, hcpu⟩ := wake_of_halted hhalted
  rw [hidles] at hwoken hcpu
  refine ⟨m.wake.2, Prod.ext hwoken rfl, hcpu, wake_memory m, ?_⟩
  rw [work_eq, hidles]
  rfl

/-- A sleeping processor that the timer will wake: nothing becomes pending for some cycles, and in
    the cycle after them the timer's interrupt does, which is enabled. -/
structure Rings (m : Console) (n : Nat) : Prop where
  atRest : m.AtRest
  halted : m.cpu.halted = true
  silent : ∀ j ≤ n, (m.elapse j).pending = 0
  not_yet : (m.elapse n).requested 2 = false
  requested : (m.elapse (n + 1)).requested 2 = true
  pending : (m.elapse (n + 1)).pending = Interrupts.timer

theorem rings_of_reloadDue (hrest : m.AtRest) (hhalted : m.cpu.halted = true)
    (hpending : m.pending = 0)
    (henabled : (m.memory.peek Hardware.interruptEnable).toNat.testBit 2 = true) {n : Nat}
    (hsame : ∀ j ≤ n, (m.elapse j).memory.peek Hardware.interruptFlags =
      m.memory.peek Hardware.interruptFlags)
    (hdue : (m.elapse n).timer.reloadDue = true) : m.Rings n := by
  have hlast := hsame n (Nat.le_refl n)
  have hrequests := requests_of_reloadDue hrest hlast hdue
  refine ⟨hrest, hhalted, ?_, ?_, ?_, pending_of_reloadDue hpending henabled hrequests⟩
  · intro j hj
    exact (pending_elapse_of_same (hsame j hj)).trans hpending
  · rw [requested, hlast]
    exact requested_of_pending_zero hpending henabled
  · rw [requested, hrequests, UInt8.toNat_or, Nat.testBit_or, Interrupts.testBit_timer]
    simp

namespace Rings

variable {n : Nat}

theorem sleeps (h : m.Rings n) : m.Sleeps n :=
  sleeps_of_pending h.silent

theorem quiet_after (h : m.Rings n) : (m.after n).quiet = (m.elapse n).quiet :=
  h.sleeps.quiet_after h.atRest h.halted

/-- The step in which the timer's interrupt becomes pending idles until it looks for interrupts. -/
theorem due_quiet (h : m.Rings n) :
    (m.after n).due.quiet = (m.elapse (n + 1)).quiet ∧
      (m.after n).step =
        (.ok (1 + (m.after n).due.service.1),
          (m.after n).due.service.2.elapse (m.after n).due.service.1) := by
  have hidles := idles_of_quiet h.halted (h.silent n (Nat.le_refl n)) h.quiet_after
  obtain ⟨hdue, hstep⟩ := step_eq_of_silent (workOutcome_of_idles hidles)
  refine ⟨?_, hstep⟩
  rw [hdue, ← elapse_elapse h.atRest.logsWrites]
  exact elapse_congr h.quiet_after 1

theorem enters (h : m.Rings n) (hime : m.cpu.ime = true) :
    ∃ served, Enters 2 (m.after n).due served ∧ (m.after n).step = (.ok 6, served.elapse 5) ∧
      (m.after (n + 1)).cpu =
        { m.cpu with
          ime := false
          halted := false
          regs := { m.cpu.regs with pc := 0x50, sp := m.cpu.regs.sp - 2 } } := by
  obtain ⟨hdue, hstep⟩ := h.due_quiet
  have hcpu : (m.after n).due.cpu = m.cpu := (cpu_congr hdue).trans (m.cpu_elapse _)
  obtain ⟨hcycles, henters⟩ :=
    service_of_timer (hcpu ▸ hime) ((pending_congr hdue).trans h.pending)
  rw [hcycles] at hstep
  refine ⟨_, henters, hstep, ?_⟩
  rw [after_succ, hstep, cpu_elapse, henters.cpu_eq, hcpu]
  rfl

theorem sleeps_on (h : m.Rings n) (hime : m.cpu.ime = false) : m.Sleeps (n + 1) :=
  fun j hj => ⟨h.silent j (Nat.le_of_lt_succ hj), .inl hime⟩

theorem quiet_after_succ (h : m.Rings n) (hime : m.cpu.ime = false) :
    (m.after (n + 1)).quiet = (m.elapse (n + 1)).quiet :=
  (h.sleeps_on hime).quiet_after h.atRest h.halted

theorem goes_on (h : m.Rings n) (hime : m.cpu.ime = false) :
    ∃ woken, (m.after (n + 1)).wake = (true, woken) ∧
      woken.cpu = { m.cpu with halted := false } ∧
        woken.memory.quiet = (m.after (n + 1)).memory.quiet ∧
          (m.after (n + 1)).work = woken.stepCpu := by
  have hquiet := h.quiet_after_succ hime
  have hcpu : (m.after (n + 1)).cpu = m.cpu := (cpu_congr hquiet).trans (m.cpu_elapse _)
  have hsome : (m.after (n + 1)).pending ≠ 0 := by
    rw [pending_congr hquiet, h.pending]
    decide
  have hwoken := work_of_halted_of_pending (hcpu ▸ h.halted) hsome
  rw [hcpu] at hwoken
  exact hwoken

theorem wakesAfter (h : m.Rings n) : m.WakesAfter n := by
  refine ⟨h.sleeps.dozes h.atRest h.halted, ?_, ?_, h.enters, ?_, h.goes_on⟩
  · rw [requested_congr h.quiet_after]
    exact h.not_yet
  · rw [requested_congr h.due_quiet.1]
    exact h.requested
  · intro hime
    refine ⟨(h.sleeps_on hime).dozes h.atRest h.halted, ?_⟩
    rw [requested_congr (h.quiet_after_succ hime)]
    exact h.requested

end Rings

/-- With the timer's interrupt not enabled, or the timer stopped and no reload due, nothing that
    can still happen wakes the processor. -/
theorem dozes_for_ever (hrest : m.AtRest) (hhalted : m.cpu.halted = true) (hpending : m.pending = 0)
    (hnever : (m.memory.peek Hardware.interruptEnable).toNat.testBit 2 = false ∨
      (m.memory.peek Hardware.timerControl).toNat.testBit 2 = false ∧ m.timer.reloadDue = false)
    (n : Nat) : m.Dozes n := by
  apply Sleeps.dozes hrest hhalted
  apply sleeps_of_pending
  intro j _
  rw [← hpending]
  rcases hnever with hdisabled | ⟨hstopped, hdue⟩
  · exact pending_elapse_of_not_enabled hrest.logsWrites hdisabled j
  · exact pending_elapse_of_not_counting hrest hstopped hdue j

/-! ### Runs that end in a deadlock -/

theorem AtRest.after (h : m.AtRest) {k : Nat}
    (hsteps : ∀ j < k, ∃ cost, (m.after j).step.1 = .ok cost) : (m.after k).AtRest := by
  induction k with
  | zero => exact h
  | succ k ih =>
    obtain ⟨cost, hcost⟩ := hsteps k (Nat.lt_succ_self k)
    rw [after_succ]
    apply AtRest.step (ih fun j hj => hsteps j (Nat.lt_succ_of_lt hj))
    exact Prod.ext hcost rfl

theorem halted_of_deadlocked {budget : Option Nat} {k : Nat}
    (h : m.ending? budget k = some (.ok .deadlocked)) :
    (m.after k).cpu.halted = true ∧
      (m.after k).memory.peek Hardware.interruptEnable &&& 0x1F = 0 := by
  simp only [ending?] at h
  split at h
  · cases h
  split at h
  · cases h
  split at h
  · next hdead => exact hdead
  · split at h <;> cases h

/-- A processor that is halted with no source enabled never wakes. -/
theorem dozes_of_none_enabled (hrest : m.AtRest) (hhalted : m.cpu.halted = true)
    (hnone : m.memory.peek Hardware.interruptEnable &&& 0x1F = 0) (n : Nat) : m.Dozes n := by
  have hpending : m.pending = 0 := by
    rw [pending, UInt8.and_assoc, UInt8.and_comm (m.memory.peek Hardware.interruptFlags),
      ← UInt8.and_assoc, hnone, UInt8.zero_and]
  have hdisabled : (m.memory.peek Hardware.interruptEnable).toNat.testBit 2 = false := by
    have hbit := congrArg (fun b : UInt8 => b.toNat.testBit 2) hnone
    have hsource : Nat.testBit 31 2 = true := by decide
    simpa [hsource] using hbit
  exact dozes_for_ever hrest hhalted hpending (.inl hdisabled) n

theorem dozes_of_run (hrest : m.AtRest) {budget : Option Nat} {summary : RunSummary}
    {left : Console} (hrun : m.run budget = (.ok summary, left))
    (hreason : summary.reason = .deadlocked) :
    left.cpu.halted = true ∧ ∀ n, left.Dozes n := by
  obtain ⟨k, -, ending, hends, hended⟩ := m.ends_of_run (budget.getD stepCeiling)
  have hsame : m.run budget = m.run (some (budget.getD stepCeiling)) := rfl
  rw [hsame, hended] at hrun
  cases ending with
  | error fault => cases hrun
  | ok reason =>
    cases hrun
    obtain rfl : reason = .deadlocked := hreason
    obtain ⟨hhalted, hnone⟩ := halted_of_deadlocked hends.here
    have hreached : (m.after k).AtRest :=
      hrest.after fun j hj => step_of_goes_on (hends.earlier j hj)
    refine ⟨hhalted, ?_⟩
    exact dozes_of_none_enabled ⟨hreached.logsWrites, hreached.no_hit, hreached.control_seen,
      hreached.published⟩ hhalted hnone

end

/-- A processor that is halted with nothing pending, at any time between two steps of a run from a
    freshly loaded cartridge. With the timer's interrupt not enabled, or the timer stopped and no
    reload due, it sleeps for ever; in particular a deadlock that a run reports is one. Otherwise
    it sleeps until the timer's next reload, which comes when it should. -/
theorem sleeps_until_timer {m₀ m : Console} {rom : ByteArray} {costs : List Nat}
    (hlog : m₀.memory.logsWrites = false) (run : Steps (m₀.loadRom rom) costs m) :
    (m.cpu.halted = true → m.pending = 0 →
      ((m.memory.peek 0xFFFF).toNat.testBit 2 = false ∨
          (m.memory.peek 0xFF07).toNat.testBit 2 = false ∧ m.timer.reloadDue = false →
        ∀ n, m.Dozes n) ∧
      ((m.memory.peek 0xFFFF).toNat.testBit 2 = true →
        (m.memory.peek 0xFF07).toNat.testBit 2 = true ∨ m.timer.reloadDue = true →
          ∃ n ≤ 65536, m.wakeTime = n + 1 ∧ m.WakesAfter n)) ∧
      ∀ budget summary left, m.run budget = (.ok summary, left) →
        summary.reason = .deadlocked → left.cpu.halted = true ∧ ∀ n, left.Dozes n := by
  have hrest := run.atRest hlog
  refine ⟨?_, fun _ _ _ => dozes_of_run hrest⟩
  intro hhalted hpending
  refine ⟨dozes_for_ever hrest hhalted hpending, ?_⟩
  intro henabled hcounts
  obtain ⟨n, hn, htime, hsame, hdue⟩ := exists_last_before hrest hcounts
  have hrings := rings_of_reloadDue hrest hhalted hpending henabled hsame hdue
  exact ⟨n, hn, htime, hrings.wakesAfter⟩

/-- Memory with `HALT` where cartridges start, and the timer enabled and about to overflow. -/
def overflowSoon : Console where
  cpu := {}
  memory := (((default : AddressSpace).poke 0x100 0x76).poke Hardware.interruptEnable 4).poke
    Hardware.timerControl 5 |>.poke Hardware.timerCounter 0xFF
  timer := {}
  config := {}

theorem peek_overflowSoon (address : UInt16) :
    (overflowSoon.loadRom .empty).memory.peek address =
      if address = Hardware.divider then 0xAB
      else if address = Hardware.timerCounter then 0xFF
      else if address = Hardware.timerControl then 5
      else if address = Hardware.interruptEnable then 4
      else if address = 0x100 then 0x76
      else 0 := by
  change (((((Memory.zero.set _ _).set _ _).set _ _).set _ _).set _ _).get address = _
  simp only [Memory.get_set, Memory.get_zero]
  rfl

/-- The processor after the step of `HALT`. -/
def asleepSoon : Cpu :=
  { Cpu.ofConfig {} with regs.pc := 0x101, halted := true, cycles := 1 }

theorem workOutcome_overflowSoon :
    (overflowSoon.loadRom .empty).workOutcome = ((.ok 1, asleepSoon), []) := by
  have hfetch : Image.opcodeAt (overflowSoon.loadRom .empty).memory.peek
      (overflowSoon.loadRom .empty).cpu.regs.pc = (0x76, false) := by
    simp only [Image.opcodeAt, peek_overflowSoon]
    rfl
  rw [workOutcome_of_not_halted rfl, Cpu.outcome, Cpu.instructionIn_of_opcodeAt hfetch]
  rfl

/-- One cycle into a period of four cycles, a full counter is three cycles from its overflow. -/
theorem wakeTime_full {m : Console} (hrest : m.AtRest) (hdue : m.timer.reloadDue = false)
    (hcounter : m.timer.counter.toNat = 0x2AC0)
    (hcontrol : m.memory.peek Hardware.timerControl = 5)
    (hcount : m.memory.peek Hardware.timerCounter = 0xFF) :
    (m.elapse 1).wakeTime = 4 ∧ (m.elapse 1).pending = m.pending := by
  obtain ⟨memory, hm⟩ := AddressSpace.exists_holds_of_not_logsWrites hrest.logsWrites
  have hclosed := Timer.closedForm_advance 1 hm.store_eq (hrest.settled hdue)
  have htally := hclosed.enabled (by rw [hcontrol]; decide)
  have hbelow : TimerReference.falls 5 0x2AC0 1 < 256 - (0xFF : UInt8).toNat := by decide
  rw [hcontrol, hcount, hcounter, Tally.after_below _ _ _ _ hbelow] at htally
  have hcounted : (m.elapse 1).timer.counter.toNat = 0x2AC1 := by
    refine hclosed.counter.trans ?_
    rw [hcounter]
  have hfull : (m.elapse 1).memory.peek Hardware.timerCounter = 0xFF :=
    congrArg Tally.count htally
  have hnotDue : (m.elapse 1).timer.reloadDue = false := congrArg Tally.reloadDue htally
  have hkept : (m.elapse 1).memory.peek Hardware.timerControl = 5 :=
    (Timer.peek_advance_of_ne 1 _ _ (by decide) (by decide) (by decide)).trans hcontrol
  refine ⟨?_, pending_elapse_of_same (congrArg Tally.requests htally)⟩
  rw [wakeTime, hfull, hkept, hcounted, hnotDue]
  rfl

/-- The timer's counter overflows after three more cycles, and the processor sleeps for them. -/
theorem sleeps_until_timer_overflowSoon :
    ∃ m, Steps (overflowSoon.loadRom .empty) [1] m ∧ m.cpu.halted = true ∧ m.WakesAfter 3 := by
  obtain ⟨hcost, hquiet⟩ := step_of_silent workOutcome_overflowSoon (.inl rfl)
  rw [(AtRest.elapse rfl 1).elapse_zero] at hquiet
  have hloaded := atRest_loadRom (m := overflowSoon) .empty rfl
  have hrest : AtRest { overflowSoon.loadRom .empty with cpu := asleepSoon } :=
    ⟨hloaded.logsWrites, hloaded.no_hit, hloaded.control_seen, hloaded.published⟩
  obtain ⟨htime, hsame⟩ :=
    wakeTime_full hrest rfl rfl (peek_overflowSoon _) (peek_overflowSoon _)
  have run := Steps.single hcost
  have hhalted : (overflowSoon.loadRom .empty).step.2.cpu.halted = true := by
    rw [cpu_congr hquiet, cpu_elapse]
    rfl
  have hpending : (overflowSoon.loadRom .empty).step.2.pending = 0 := by
    rw [pending_congr hquiet, hsame, pending, peek_overflowSoon, peek_overflowSoon]
    rfl
  have henabled : (overflowSoon.loadRom .empty).step.2.memory.peek 0xFFFF = 4 := by
    rw [peek_congr hquiet, memory_elapse,
      Timer.peek_advance_of_ne 1 _ _ (by decide) (by decide) (by decide)]
    exact peek_overflowSoon _
  have hcontrol : (overflowSoon.loadRom .empty).step.2.memory.peek 0xFF07 = 5 := by
    rw [peek_congr hquiet, memory_elapse,
      Timer.peek_advance_of_ne 1 _ _ (by decide) (by decide) (by decide)]
    exact peek_overflowSoon _
  rw [← wakeTime_congr hquiet] at htime
  obtain ⟨n, -, hn, hwakes⟩ := ((sleeps_until_timer rfl run).1 hhalted hpending).2
    (by rw [henabled]; rfl) (.inl (by rw [hcontrol]; rfl))
  obtain rfl : n = 3 := Nat.succ.inj (hn.symm.trans htime)
  exact ⟨_, run, hhalted, hwakes⟩

end Handheld.Console
