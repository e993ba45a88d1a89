-- SUMMARY: No interrupt request is lost or delivered twice: what the timer requests and what is dispatched account for the requests.
import Handheld.Proofs.Console.Turns

namespace Handheld

/-! ## Signals

Two things change the interrupt requests while no program stores to them. The
timer's counter restarts, and the timer's request is made; a handler is entered,
and the request of its source is taken back. -/

/-- Something that changes the interrupt requests. -/
inductive Signal where
  | reload
  | dispatch (source : Nat)
deriving DecidableEq

namespace Signal

/-- Whether the request of a bit stands after a signal. -/
def leaves (bit : Nat) (stands : Bool) : Signal → Bool
  | reload => stands || bit == 2
  | dispatch source => stands && bit != source

theorem foldl_leaves_replicate_reload (bit count : Nat) (stands : Bool) :
    (List.replicate count reload).foldl (leaves bit) stands =
      (stands || (bit == 2 && decide (0 < count))) := by
  induction count generalizing stands with
  | zero => simp
  | succ count ih =>
    rw [List.replicate_succ, List.foldl_cons, ih, leaves]
    cases bit == 2 <;> simp

/-- Among some signals there is a reload after the last dispatch of a source exactly if the first
    one is such a reload, or the rest have one. -/
theorem exists_reload_cons_iff (source : Nat) (signal : Signal) (rest : List Signal) :
    (∃ before after, signal :: rest = before ++ reload :: after ∧ dispatch source ∉ after) ↔
      (signal = reload ∧ dispatch source ∉ rest) ∨
        ∃ before after, rest = before ++ reload :: after ∧ dispatch source ∉ after := by
  constructor
  · rintro ⟨before, after, heq, hnot⟩
    cases before with
    | nil =>
      cases heq
      exact .inl ⟨rfl, hnot⟩
    | cons first before =>
      cases heq
      exact .inr ⟨before, after, rfl, hnot⟩
  · rintro (⟨rfl, hnot⟩ | ⟨before, after, rfl, hnot⟩)
    · exact ⟨[], rest, rfl, hnot⟩
    · exact ⟨signal :: before, after, rfl, hnot⟩

/-- A request stands after some signals if it was made after the last dispatch of its source, or
    stood before and the source was never dispatched. -/
theorem foldl_leaves_iff (bit : Nat) (stands : Bool) (signals : List Signal) :
    signals.foldl (leaves bit) stands = true ↔
      (bit = 2 ∧ ∃ before after,
          signals = before ++ reload :: after ∧ dispatch bit ∉ after) ∨
        stands = true ∧ dispatch bit ∉ signals := by
  induction signals generalizing stands with
  | nil => simp
  | cons signal rest ih =>
    rw [List.foldl_cons, ih, exists_reload_cons_iff]
    cases signal with
    | reload =>
      simp only [leaves, Bool.or_eq_true, beq_iff_eq, List.mem_cons, reduceCtorEq, false_or,
        true_and]
      grind
    | dispatch source =>
      simp only [leaves, Bool.and_eq_true, bne_iff_ne, List.mem_cons, reduceCtorEq, false_and,
        false_or, dispatch.injEq, not_or]
      grind

end Signal

/-- The signals of a step, in order. -/
def Turn.signals (turn : Turn) : List Signal :=
  List.replicate turn.reloads .reload ++ turn.source.toList.map .dispatch ++
    List.replicate turn.lateReloads .reload

/-- Neither the instruction nor a push of PC stores to the interrupt requests. -/
structure Turn.SparesRequests (turn : Turn) : Prop where
  stores : storesAt turn.stores Hardware.interruptFlags = false
  pushed : storesAt turn.pushed Hardware.interruptFlags = false

theorem Turn.count_reload_signals (turn : Turn) :
    turn.signals.count .reload = turn.reloads + turn.lateReloads := by
  have hnone : (turn.source.toList.map Signal.dispatch).count .reload = 0 := by
    rw [List.count_eq_zero]
    simp
  rw [signals, List.count_append, List.count_append, hnone, List.count_replicate_self,
    List.count_replicate_self, Nat.add_zero]

theorem Turn.count_dispatch_signals (turn : Turn) (source : Nat) :
    turn.signals.count (.dispatch source) = if turn.source = some source then 1 else 0 := by
  rw [signals, List.count_append, List.count_append]
  cases turn.source with
  | none => simp [List.count_replicate]
  | some other =>
    by_cases h : other = source <;> simp [List.count_replicate, h]

theorem Turn.foldl_leaves_signals (turn : Turn) (bit : Nat) (stands : Bool) :
    turn.signals.foldl (Signal.leaves bit) stands =
      ((stands || (bit == 2 && decide (0 < turn.reloads))) && turn.source != some bit ||
        (bit == 2 && decide (0 < turn.lateReloads))) := by
  have hdispatch (stands : Bool) :
      (turn.source.toList.map Signal.dispatch).foldl (Signal.leaves bit) stands =
        (stands && turn.source != some bit) := by
    cases turn.source with
    | none => exact (Bool.and_true _).symm
    | some source =>
      have hne : (bit != source) = (some source != some bit) := by
        rw [Bool.eq_iff_iff, bne_iff_ne, bne_iff_ne, ne_comm, ne_eq, ne_eq, Option.some.injEq]
      exact congrArg (stands && ·) hne
  rw [signals, List.foldl_append, List.foldl_append, Signal.foldl_leaves_replicate_reload,
    hdispatch, Signal.foldl_leaves_replicate_reload]

namespace Console

/-! ## Requests in memory -/

/-- Whether the request of a bit stands in memory. -/
def requested (m : Console) (bit : Nat) : Bool :=
  (m.memory.peek Hardware.interruptFlags).toNat.testBit bit

section

variable {m : Console}

theorem requested_work (hlog : m.memory.logsWrites = false)
    (hstores : storesAt m.turn.stores Hardware.interruptFlags = false) (bit : Nat) :
    m.work.2.requested bit = m.requested bit := by
  rw [requested, (work_stores hlog).peek_of_not_storesAt (by decide) hstores]
  rfl

theorem requested_elapse (hlog : m.memory.logsWrites = false) (cycles bit : Nat) :
    (m.elapse cycles).requested bit =
      (List.replicate (m.reloadsIn cycles) Signal.reload).foldl (Signal.leaves bit)
        (m.requested bit) := by
  rw [Signal.foldl_leaves_replicate_reload, requested, peek_elapse_interruptFlags hlog]
  by_cases h : 0 < m.reloadsIn cycles
  · rw [if_pos h, UInt8.toNat_or, Nat.testBit_or, Interrupts.testBit_timer, decide_eq_true h,
      Bool.and_true]
    rfl
  · rw [if_neg h, decide_eq_false h, Bool.and_false, Bool.or_false]
    rfl

theorem requested_service (hlog : m.memory.logsWrites = false)
    (hpushed : storesAt m.pushed Hardware.interruptFlags = false) (bit : Nat) :
    m.service.2.requested bit =
      (m.dueSource.toList.map Signal.dispatch).foldl (Signal.leaves bit) (m.requested bit) := by
  rw [requested, (service_stores hlog).peek_of_ne _ (by decide), storesOf_serviceActions]
  cases hsource : m.dueSource with
  | none => exact congrArg (·.toNat.testBit bit) (lastStored_of_not_storesAt _ hpushed)
  | some source =>
    have hstored (requests : UInt8) : lastStored ((Hardware.interruptFlags, requests) :: m.pushed)
        Hardware.interruptFlags (m.memory.peek Hardware.interruptFlags) = requests := by
      rw [lastStored, List.foldl_cons, if_pos rfl]
      exact lastStored_of_not_storesAt _ hpushed
    exact (congrArg (·.toNat.testBit bit) (hstored _)).trans
      (Interrupts.testBit_without (testBit_of_dueSource hsource).1 _ bit)

/-! ## A step -/

theorem requested_due (hlog : m.memory.logsWrites = false) (hspares : m.turn.SparesRequests)
    (bit : Nat) :
    m.due.requested bit =
      (List.replicate m.turn.reloads Signal.reload).foldl (Signal.leaves bit)
        (m.requested bit) := by
  rw [due, requested_elapse (work_stores hlog).logsWrites, requested_work hlog hspares.stores]
  rfl

/-- A step changes the requests by its signals. -/
theorem requested_step {m' : Console} {cost : Nat} (hlog : m.memory.logsWrites = false)
    (hspares : m.turn.SparesRequests) (hstep : m.step = (.ok cost, m')) (bit : Nat) :
    m'.requested bit = m.turn.signals.foldl (Signal.leaves bit) (m.requested bit) := by
  have hdispatch : m.due.service.1 = m.turn.dispatchCycles := service_fst_eq m.due
  have hdue := logsWrites_due hlog
  rw [(turn_of_step hstep).2, ← hdispatch, requested_elapse (service_stores hdue).logsWrites,
    requested_service hdue hspares.pushed, requested_due hlog hspares, Turn.signals,
    List.foldl_append, List.foldl_append]
  rfl

/-- A request that is dispatched in a step stood before it, or the timer made it in this step. -/
theorem requested_of_source (hlog : m.memory.logsWrites = false)
    (hspares : m.turn.SparesRequests) {source : Nat} (hsource : m.turn.source = some source) :
    m.requested source = true ∨ (source = 2 ∧ 0 < m.turn.reloads) := by
  have hstands : m.due.requested source = true := (testBit_of_dueSource hsource).2
  rw [requested_due hlog hspares, Signal.foldl_leaves_replicate_reload, Bool.or_eq_true,
    Bool.and_eq_true, beq_iff_eq, decide_eq_true_eq] at hstands
  exact hstands

end

/-- What a step from `m` to `m'` does to the requests: it enters the handler of its turn's source if
    there is one, and of all requests but the timer's it takes back that one alone and makes none. -/
structure Serves (m m' : Console) : Prop where
  served : ((m.due.cpu.serviceInterrupt).run m.due.memory).1.1 =
    m.turn.source.map fun _ => Cpu.dispatchCycles
  pc_eq : ∀ source, m.turn.source = some source → m'.cpu.regs.pc = 0x40 + 8 * UInt16.ofNat source
  changed_iff : ∀ bit, bit ≠ 2 →
    (m'.requested bit ≠ m.requested bit ↔ m.turn.source = some bit)
  only_taken_back : ∀ bit, bit ≠ 2 → m'.requested bit = true → m.requested bit = true
  upper_kept : ∀ bit, 5 ≤ bit → m'.requested bit = m.requested bit
  /-- A reload during the cycles of a dispatch survives the dispatch. -/
  late_kept : 0 < m.turn.lateReloads → m'.requested 2 = true

theorem serves_of_step {m m' : Console} {cost : Nat} (hlog : m.memory.logsWrites = false)
    (hspares : m.turn.SparesRequests) (hstep : m.step = (.ok cost, m')) : Serves m m' := by
  have hrequested (bit : Nat) : m'.requested bit = _ :=
    (requested_step hlog hspares hstep bit).trans (m.turn.foldl_leaves_signals bit _)
  have hother (bit : Nat) (hne : bit ≠ 2) :
      m'.requested bit = (m.requested bit && m.turn.source != some bit) := by
    rw [hrequested, beq_eq_false_iff_ne.mpr hne, Bool.false_and, Bool.false_and, Bool.or_false,
      Bool.or_false]
  have hchanged (bit : Nat) (hne : bit ≠ 2) :
      m'.requested bit ≠ m.requested bit ↔ m.turn.source = some bit := by
    by_cases hsource : m.turn.source = some bit
    · have hstood : m.requested bit = true :=
        (requested_of_source hlog hspares hsource).resolve_right fun h => hne h.1
      rw [hother bit hne, hstood, hsource]
      simp
    · rw [hother bit hne, bne_iff_ne.mpr hsource, Bool.and_true]
      simp [hsource]
  refine
    { served := ?_
      pc_eq := ?_
      changed_iff := hchanged
      only_taken_back := ?_
      upper_kept := ?_
      late_kept := ?_ }
  · exact serviceInterrupt_fst m.due
  · intro source hsource
    rw [(turn_of_step hstep).2]
    exact pc_service hsource
  · intro bit hne hstands
    rw [hother bit hne, Bool.and_eq_true] at hstands
    exact hstands.1
  · intro bit hupper
    apply Decidable.byContradiction
    intro hne
    have hlt := (testBit_of_dueSource ((hchanged bit (by omega)).mp hne)).1
    omega
  · intro hlate
    rw [hrequested, decide_eq_true hlate]
    simp

/-- In a step the timer's request pays for its dispatch. -/
theorem accounted_step {m m' : Console} {cost : Nat} (hlog : m.memory.logsWrites = false)
    (hspares : m.turn.SparesRequests) (hstep : m.step = (.ok cost, m')) :
    m.turn.signals.count (.dispatch 2) + (m'.requested 2).toNat ≤
      m.turn.signals.count .reload + (m.requested 2).toNat := by
  have hafter := (requested_step hlog hspares hstep 2).trans (m.turn.foldl_leaves_signals 2 _)
  have hor (first second : Bool) : (first || second).toNat ≤ first.toNat + second.toNat := by
    cases first <;> cases second <;> decide
  have hpos (count : Nat) : (decide (0 < count)).toNat ≤ count := by
    cases count <;> simp
  have hlate := hpos m.turn.lateReloads
  rw [m.turn.count_dispatch_signals, m.turn.count_reload_signals, hafter, beq_self_eq_true,
    Bool.true_and, Bool.true_and]
  by_cases hsource : m.turn.source = some 2
  · -- The dispatch takes the request back, which stood before or was made in this step.
    have hstood : 1 ≤ m.turn.reloads + (m.requested 2).toNat := by
      rcases requested_of_source hlog hspares hsource with hbefore | ⟨-, hreload⟩
      · rw [hbefore]
        exact Nat.le_add_left ..
      · omega
    rw [if_pos hsource, hsource, bne_self_eq_false, Bool.and_false, Bool.false_or]
    omega
  · have hreload := hpos m.turn.reloads
    have hdue := hor (m.requested 2) (decide (0 < m.turn.reloads))
    have hall := hor (m.requested 2 || decide (0 < m.turn.reloads))
      (decide (0 < m.turn.lateReloads))
    rw [if_neg hsource, bne_iff_ne.mpr hsource, Bool.and_true]
    omega

/-! ## Runs -/

theorem requested_turns {m m' : Console} {turns : List Turn} (run : Turns m turns m')
    (hlog : m.memory.logsWrites = false) (hspares : ∀ turn ∈ turns, turn.SparesRequests)
    (bit : Nat) :
    m'.requested bit =
      (turns.flatMap Turn.signals).foldl (Signal.leaves bit) (m.requested bit) := by
  induction run with
  | none => rfl
  | next before hstep ih =>
    obtain ⟨hbefore, hlast⟩ := List.forall_mem_append.mp hspares
    rw [List.flatMap_append, List.flatMap_singleton, List.foldl_append, ← ih hbefore]
    exact requested_step (before.logsWrites hlog) (hlast _ (List.mem_singleton_self _)) hstep bit

theorem accounted_turns {m m' : Console} {turns : List Turn} (run : Turns m turns m')
    (hlog : m.memory.logsWrites = false) (hspares : ∀ turn ∈ turns, turn.SparesRequests) :
    (turns.flatMap Turn.signals).count (.dispatch 2) + (m'.requested 2).toNat ≤
      (turns.flatMap Turn.signals).count .reload + (m.requested 2).toNat := by
  induction run with
  | none => exact Nat.le_refl _
  | next before hstep ih =>
    obtain ⟨hbefore, hlast⟩ := List.forall_mem_append.mp hspares
    have hstepped :=
      accounted_step (before.logsWrites hlog) (hlast _ (List.mem_singleton_self _)) hstep
    have hran := ih hbefore
    rw [List.flatMap_append, List.flatMap_singleton, List.count_append, List.count_append]
    omega

/-- While no program stores to the interrupt requests, no request is lost or delivered twice. The
    timer's request stands exactly if it was made after the last dispatch of the timer's handler,
    at `0x50`, or stood before the run and that handler was never entered. Any other request goes
    in the step that enters its handler and in no other, and none is made. So the timer's handler
    is entered at most as often as the timer's counter restarts, and once more if its request
    stood at the start. -/
theorem requests_conserved {m m' : Console} {turns : List Turn}
    (hlog : m.memory.logsWrites = false) (run : Turns m turns m')
    (hspares : ∀ turn ∈ turns, turn.SparesRequests) :
    (m'.requested 2 = true ↔
        (∃ before after, turns.flatMap Turn.signals = before ++ .reload :: after ∧
            .dispatch 2 ∉ after) ∨
          m.requested 2 = true ∧ .dispatch 2 ∉ turns.flatMap Turn.signals) ∧
      (∀ earlier later m₁ cost m₂, Turns m earlier m₁ → m₁.step = (.ok cost, m₂) →
        turns = earlier ++ m₁.turn :: later → Serves m₁ m₂) ∧
      (turns.flatMap Turn.signals).count (.dispatch 2) ≤
        (turns.flatMap Turn.signals).count .reload + (m.requested 2).toNat := by
  refine ⟨?_, ?_, ?_⟩
  · rw [requested_turns run hlog hspares, Signal.foldl_leaves_iff]
    simp
  · rintro earlier later m₁ cost m₂ hearlier hstep rfl
    exact serves_of_step (hearlier.logsWrites hlog) (hspares _ (by simp)) hstep
  · exact Nat.le_of_add_right_le (accounted_turns run hlog hspares)

/-- A console at `NOP` whose timer is about to restart its counter, with its interrupt enabled. -/
def reloadAtStart : Console where
  cpu := { regs := { sp := 0xFFFE }, ime := true }
  memory := (default : AddressSpace).poke Hardware.interruptEnable 4
  timer := { reloadDue := true }
  config := {}

theorem peek_reloadAtStart (address : UInt16) :
    reloadAtStart.memory.peek address = if address = Hardware.interruptEnable then 4 else 0 := by
  change (Memory.zero.set _ _).get address = _
  rw [Memory.get_set, Memory.get_zero]

theorem workOutcome_reloadAtStart :
    reloadAtStart.workOutcome =
      ((.ok 1, { reloadAtStart.cpu with regs.pc := 1, cycles := 1 }), []) := by
  have hfetch : Image.opcodeAt reloadAtStart.memory.peek reloadAtStart.cpu.regs.pc =
      (0, false) := by
    simp only [Image.opcodeAt, peek_reloadAtStart]
    rfl
  rw [workOutcome_of_not_halted rfl, Cpu.outcome, Cpu.instructionIn_of_opcodeAt hfetch]
  rfl

/-- The timer's request comes up in the cycle of the `NOP`, and its handler is due at once. -/
theorem dueSource_reloadAtStart : reloadAtStart.due.dueSource = some 2 := by
  generalize hm : reloadAtStart = m
  have hpeek := hm ▸ peek_reloadAtStart
  have houtcome := hm ▸ workOutcome_reloadAtStart
  have hlog : m.memory.logsWrites = false := by
    rw [← hm]
    rfl
  obtain ⟨-, hcycles, hstores, hcpu⟩ := step_of_workOutcome houtcome
  obtain ⟨-, hquiet, htimer, -⟩ := work_run m
  rw [houtcome] at hquiet
  have hkept (address : UInt16) : m.work.2.memory.peek address = m.memory.peek address :=
    congrFun (congrArg AddressSpace.peek hquiet) address
  have hreloads : m.work.2.reloadsIn 1 = 1 := by
    have hregisters : Timer.registers m.work.2.memory = ⟨0, 0, 0, 0⟩ := by
      simp only [Timer.registers, hkept, hpeek]
      rfl
    have hhit : m.work.2.memory.dividerHit = false := by
      rw [(work_stores hlog).dividerHit, hstores, ← hm]
      rfl
    rw [reloadsIn, htimer, Timer.reloadsIn, hregisters, hhit, ← hm]
    rfl
  have henabled : (m.work.2.elapse 1).memory.peek Hardware.interruptEnable = 4 := by
    rw [peek_elapse_interruptEnable, hkept, hpeek]
    rfl
  have hrequested : (m.work.2.elapse 1).memory.peek Hardware.interruptFlags = 4 := by
    rw [peek_elapse_interruptFlags (work_stores hlog).logsWrites, hreloads, hkept, hpeek]
    rfl
  have hdue : m.due = m.work.2.elapse 1 := congrArg m.work.2.elapse hcycles
  have hime : m.due.cpu.ime = true := by
    rw [hcpu, ← hm]
    rfl
  rw [dueSource, hime, if_pos rfl, hdue, Image.pending, henabled, hrequested]
  decide

theorem requests_conserved_reload :
    ∃ m', Turns reloadAtStart [reloadAtStart.turn] m' ∧ m'.cpu.regs.pc = 0x50 ∧
      1 ≤ reloadAtStart.turn.signals.count .reload := by
  obtain ⟨hstep, -, hstores, hcpu⟩ := step_of_workOutcome workOutcome_reloadAtStart
  have hsource : reloadAtStart.turn.source = some 2 := by
    rw [source_turn, dueSource_reloadAtStart]
  have hpushed : reloadAtStart.turn.pushed = [(0xFFFD, 0), (0xFFFC, 1)] := by
    rw [pushed_turn, pushed_of_source dueSource_reloadAtStart, hcpu]
    rfl
  have hspares : ∀ turn ∈ [reloadAtStart.turn], turn.SparesRequests := by
    intro turn hturn
    cases List.mem_singleton.mp hturn
    refine ⟨?_, ?_⟩
    · rw [hstores]
      rfl
    · rw [hpushed]
      rfl
  have run : Turns reloadAtStart [reloadAtStart.turn] reloadAtStart.step.2 := .single hstep
  have hlog : reloadAtStart.memory.logsWrites = false := rfl
  obtain ⟨-, hserves, hcount⟩ := requests_conserved hlog run hspares
  refine ⟨_, run, ?_, ?_⟩
  · exact (hserves [] [] _ _ _ .none hstep rfl).pc_eq 2 hsource
  · have hnone : reloadAtStart.requested 2 = false := by
      rw [requested, peek_reloadAtStart]
      rfl
    rw [List.flatMap_singleton, Turn.count_dispatch_signals, if_pos hsource, hnone,
      Bool.toNat_false, Nat.add_zero] at hcount
    exact hcount

end Console

end Handheld
