-- SUMMARY: The serial bytes of a run are those that its stores send, and a longer run only adds to them.
import Handheld.Proofs.Bus.SerialPort
import Handheld.Proofs.Console.Runs
import Handheld.Proofs.Console.Turns

namespace Handheld

open LawfulBus SerialPort

namespace Console

/-! ## What a step sends

A console whose memory is wired to a port stays so: each part of a step does to
memory what its actions do to the port. -/

/-- The bytes that a step sends: those of its work, and then those of the handler that it enters. -/
def sent (m : Console) : List UInt8 :=
  sentBy (m.memory.peek Hardware.serialData) m.workOutcome.2 ++
    sentBy (m.due.memory.peek Hardware.serialData) m.due.serviceActions

variable {m : Console} {port : SerialPort}

theorem singleTransfer_work (m : Console) : SingleTransfer m.workOutcome.2 := by
  rw [workOutcome]
  split
  · exact .nil
  · exact Cpu.singleTransfer_outcome ..

theorem singleTransfer_service (m : Console) : SingleTransfer m.serviceActions :=
  m.cpu.singleTransfer_serviceOutcome _

theorem startTransfer_not_mem_work (h : m.cpu.instructionIn m.memory.peek = .ok .storeSp) :
    startTransfer ∉ m.workOutcome.2 := by
  have hawake : ({ m.cpu with halted := false } : Cpu).instructionIn m.memory.peek =
      .ok .storeSp := h
  rw [workOutcome]
  split
  · exact List.not_mem_nil
  · exact Cpu.startTransfer_not_mem_storeSp hawake

theorem wired_stepCpu (h : Wired port m.memory) :
    Wired (port.after (m.cpu.outcome m.memory.peek).2) m.stepCpu.2.memory := by
  have hview : m.memory.peek = port.memory.get := funext h.holds.peek
  have hport : ((m.cpu.step).run port).2 = port.after (m.cpu.outcome port.memory.get).2 :=
    (Cpu.step_run m.cpu port).2.trans (putAll_eq ..)
  rw [hview, ← hport]
  exact (busRelation_wired.step m.cpu port m.memory h).2

theorem wired_wake (h : Wired port m.memory) : Wired port m.wake.2.memory := by
  have hport : ((m.cpu.wakeIfPending).run port).2 = port :=
    (Cpu.wakeIfPending_observes m.cpu port).2
  rw [← hport]
  exact (busRelation_wired.wakeIfPending m.cpu port m.memory h).2

theorem wired_service (h : Wired port m.memory) :
    Wired (port.after m.serviceActions) m.service.2.memory := by
  have hview : m.memory.peek = port.memory.get := funext h.holds.peek
  have hport : ((m.cpu.serviceInterrupt).run port).2 =
      port.after (m.cpu.serviceOutcome port.memory.get).2 :=
    (Cpu.serviceInterrupt_run m.cpu port).2.trans (putAll_eq ..)
  rw [serviceActions, hview, ← hport]
  exact (busRelation_wired.serviceInterrupt m.cpu port m.memory h).2

theorem wired_work (h : Wired port m.memory) :
    Wired (port.after m.workOutcome.2) m.work.2.memory := by
  have hwake := wired_wake h
  rw [work_eq, workOutcome]
  cases hidles : m.idles with
  | true =>
    -- Asking what is pending only reads.
    simpa [SerialPort.after, storesOf, Memory.setAll, sentBy] using hwake
  | false =>
    have hstep := wired_stepCpu hwake
    rw [cpu_wake, hidles, peek_wake] at hstep
    exact hstep

/-- The timer neither sends nor changes what is sent next. -/
theorem wired_elapse (h : Wired port m.memory) (cycles : Nat) :
    ∃ port', Wired port' (m.elapse cycles).memory ∧ port'.sent = port.sent := by
  have hheard : (m.elapse cycles).memory.heard = m.memory.heard := rfl
  refine ⟨⟨_, port.sent⟩, ⟨Timer.holds_advance cycles m.timer h.holds, h.listeners_eq, ?_⟩, rfl⟩
  rw [hheard]
  exact h.heard_eq

/-- A step that succeeds adds what it sends. -/
theorem wired_step (h : Wired port m.memory) {cost : Nat} {m' : Console}
    (hstep : m.step = (.ok cost, m')) :
    ∃ port', Wired port' m'.memory ∧ port'.sent = port.sent ++ m.sent := by
  have hdata {m : Console} {port : SerialPort} (h : Wired port m.memory) :
      m.memory.peek Hardware.serialData = port.data := h.holds.peek _
  obtain ⟨waiting, hdue, hworked⟩ := wired_elapse (wired_work h) m.workCycles
  obtain ⟨left, hleft, hserved⟩ := wired_elapse (wired_service hdue) m.turn.dispatchCycles
  refine ⟨left, ?_, ?_⟩
  · rw [(turn_of_step hstep).2]
    exact hleft
  · have hdispatch : m.due.memory.peek Hardware.serialData = waiting.data := hdata hdue
    rw [hserved, SerialPort.after, hworked, SerialPort.after, sent, hdata h, hdispatch,
      List.append_assoc]
    rfl

/-! ## What a run sends -/

/-- The bytes that the first steps send, oldest first. -/
def sentOver (m : Console) (k : Nat) : List UInt8 :=
  (List.range k).flatMap fun j => (m.after j).sent

@[simp] theorem sentOver_zero (m : Console) : m.sentOver 0 = [] := rfl

theorem sentOver_succ (m : Console) (k : Nat) :
    m.sentOver (k + 1) = m.sentOver k ++ (m.after k).sent := by
  simp [sentOver, List.range_succ]

/-- More steps only add to what is sent. -/
theorem sentOver_prefix (m : Console) {j k : Nat} (h : j ≤ k) : m.sentOver j <+: m.sentOver k := by
  obtain ⟨more, rfl⟩ := Nat.exists_eq_add_of_le h
  rw [sentOver, sentOver, List.range_add, List.flatMap_append]
  exact List.prefix_append ..

theorem wired_after (h : Wired port m.memory) {k : Nat}
    (hsteps : ∀ j < k, ∃ cost, (m.after j).step.1 = .ok cost) :
    ∃ port', Wired port' (m.after k).memory ∧ port'.sent = port.sent ++ m.sentOver k := by
  induction k with
  | zero => exact ⟨port, h, (List.append_nil _).symm⟩
  | succ k ih =>
    obtain ⟨reached, hreached, hsent⟩ := ih fun j hj => hsteps j (Nat.lt_succ_of_lt hj)
    obtain ⟨cost, hstep⟩ := hsteps k (Nat.lt_succ_self k)
    obtain ⟨left, hleft, hsent'⟩ := wired_step hreached (Prod.ext hstep rfl)
    refine ⟨left, ?_, ?_⟩
    · rw [after_succ]
      exact hleft
    · rw [hsent', hsent, sentOver_succ, List.append_assoc]

/-- What a successful run has sent is what its steps have sent. -/
theorem serialBytes_of_run {budget : Option Nat} {summary : RunSummary} {m' : Console}
    (h : Wired port m.memory) (hnone : port.sent = [])
    (hrun : m.run budget = (.ok summary, m')) :
    ∃ reason, m.Ends (some (budget.getD stepCeiling)) summary.steps (.ok reason) ∧
      summary.steps ≤ budget.getD stepCeiling ∧
      (∀ k < summary.steps, ∃ cost, (m.after k).step = (.ok cost, m.after (k + 1))) ∧
      m'.serialBytes = m.sentOver summary.steps := by
  obtain ⟨k, hk, ending, hends, hended⟩ := m.ends_of_run (budget.getD stepCeiling)
  have hsame : m.run budget = m.run (some (budget.getD stepCeiling)) := rfl
  rw [hsame, hended] at hrun
  cases ending with
  | error fault => cases hrun
  | ok reason =>
    cases hrun
    have hsteps (j : Nat) (hj : j < k) : ∃ cost, (m.after j).step.1 = .ok cost :=
      step_of_goes_on (hends.earlier j hj)
    obtain ⟨left, hleft, hsent⟩ := wired_after h hsteps
    refine ⟨reason, hends, hk, ?_, ?_⟩
    · intro j hj
      obtain ⟨cost, hstep⟩ := hsteps j hj
      exact ⟨cost, Prod.ext hstep (m.after_succ j).symm⟩
    · rw [hnone, List.nil_append] at hsent
      exact hleft.heard_eq.trans hsent

/-- A step that stores nothing and enters no handler changes the timer's registers only. -/
theorem peek_of_silent_step {m' : Console} {cost : Nat} (hlog : m.memory.logsWrites = false)
    (hstep : m.step = (.ok cost, m')) (hstores : m.turn.stores = [])
    (hsource : m.due.dueSource = none) {address : UInt16}
    (hcount : address ≠ Hardware.timerCounter) (hrequests : address ≠ Hardware.interruptFlags)
    (hdivider : address ≠ Hardware.divider) : m'.memory.peek address = m.memory.peek address := by
  have hserved := (service_stores (logsWrites_due hlog)).peek_of_ne address hdivider
  have hworked := (work_stores hlog).peek_of_ne address hdivider
  rw [serviceActions_of_no_source hsource] at hserved
  rw [hstores] at hworked
  rw [(turn_of_step hstep).2, memory_elapse,
    Timer.peek_advance_of_ne _ _ _ hcount hrequests hdivider]
  refine hserved.trans ?_
  rw [due, memory_elapse, Timer.peek_advance_of_ne _ _ _ hcount hrequests hdivider]
  exact hworked

end Console

/-! ## Loading

Before the serial link is connected nobody listens, and loading tells nobody. -/

/-- Stores reach a memory of the space, nobody listens, and nothing has been heard. -/
structure AddressSpace.Unwatched (s : AddressSpace) : Prop where
  holds : ∃ memory, s.Holds memory
  listeners_eq : s.listeners = []
  heard_eq : s.heard = #[]

namespace AddressSpace.Unwatched

variable {s : AddressSpace}

theorem record (h : s.Unwatched) (journal : Journal) : { s with journal }.Unwatched := by
  obtain ⟨memory, hs⟩ := h.holds
  exact ⟨⟨memory, hs.store_eq, hs.logSwitch_eq⟩, h.listeners_eq, h.heard_eq⟩

theorem load (h : s.Unwatched) (base : UInt16) (data : ByteArray) :
    (s.load base data).Unwatched := by
  obtain ⟨memory, hs⟩ := h.holds
  exact ⟨⟨_, hs.load base data⟩, h.listeners_eq, h.heard_eq⟩

theorem start (h : s.Unwatched) (counter : UInt16) : (Timer.start counter s).2.Unwatched := by
  obtain ⟨memory, hs⟩ := h.holds
  have hquiet : ({ s with dividerHit := false } : AddressSpace).Holds memory :=
    ⟨hs.store_eq, hs.logSwitch_eq⟩
  exact ⟨⟨_, hquiet.poke ..⟩, h.listeners_eq, h.heard_eq⟩

end AddressSpace.Unwatched

theorem Console.unwatched_loadRom {m : Console} (h : m.memory.Unwatched) (rom : ByteArray) :
    (m.loadRom rom).memory.Unwatched := by
  obtain ⟨journal, hload⟩ := m.exists_loadRom_eq rom
  have hloaded : ({ m.memory with journal }.load 0 rom).Unwatched := (h.record journal).load 0 rom
  rw [hload]
  cases m.config.bootRom with
  | some boot => exact ((hloaded.load 0 _).start _).record _
  | none => exact (hloaded.start _).record _

/-- Connecting the serial link to a console that nobody has listened to wires it to a port that has
    sent nothing. -/
theorem Console.wired_listen {m : Console} (h : m.memory.Unwatched) :
    ∃ port, Wired port (m.listen serialListener).memory ∧ port.sent = [] := by
  obtain ⟨⟨memory, hs⟩, hlisteners, hheard⟩ := h
  refine ⟨⟨memory, []⟩, ⟨⟨hs.store_eq, hs.logSwitch_eq⟩, ?_, ?_⟩, rfl⟩
  · exact congrArg (· ++ [serialListener]) hlisteners
  · exact congrArg (·.toList.map Sighting.serialByte) hheard

namespace RunOptions

theorem wired_console (options : RunOptions) (rom : ByteArray) (boot : Option ByteArray)
    (threshold : Option Severity) :
    ∃ port, Wired port (options.console rom boot threshold).memory ∧ port.sent = [] := by
  have hempty : ({} : AddressSpace).Unwatched := ⟨⟨.zero, rfl, rfl⟩, rfl, rfl⟩
  have hassembled : (Console.ofConfig (options.consoleConfig boot)).memory.Unwatched :=
    hempty.start Timer.postBootCounter
  exact Console.wired_listen (Console.unwatched_loadRom (hassembled.record { threshold }) rom)

/-! ## The report -/

variable {options : RunOptions} {files : String → Except String ByteArray}
  {threshold : Option Severity}

/-- Loading, where the files are at hand. -/
theorem load_eq (options : RunOptions) (files : String → Except String ByteArray)
    (threshold : Option Severity) :
    options.load (m := Id) files threshold =
      (match files options.rom with
      | .error cause => .error (.unreadableRom options.rom cause)
      | .ok rom =>
        match options.bootRom with
        | none => .ok (options.console rom none threshold)
        | some path =>
          match files path with
          | .error cause => .error (.unreadableBootRom path cause)
          | .ok boot => .ok (options.console rom (some boot) threshold) :
        Except RunError Console) := by
  rw [load]
  cases files options.rom with
  | error cause => rfl
  | ok rom => cases options.bootRom <;> rfl

theorem wired_of_load {m : Console} (h : options.load (m := Id) files threshold = .ok m) :
    ∃ port, Wired port m.memory ∧ port.sent = [] := by
  rw [load_eq] at h
  split at h
  · cases h
  split at h
  · cases h
    exact wired_console ..
  split at h
  · cases h
  · cases h
    exact wired_console ..

/-- What is reported is what the steps of the run have sent. -/
theorem sent_of_serialReport {serial : List UInt8}
    (h : options.serialReport files threshold = .ok serial) :
    ∃ m summary left reason, options.load (m := Id) files threshold = .ok m ∧
      options.execute m = (.ok summary, left) ∧
      m.Ends (some (options.maxSteps.getD Console.stepCeiling)) summary.steps (.ok reason) ∧
      summary.steps ≤ options.maxSteps.getD Console.stepCeiling ∧
      (∀ k < summary.steps, ∃ cost, (m.after k).step = (.ok cost, m.after (k + 1))) ∧
      serial = m.sentOver summary.steps := by
  obtain ⟨m, summary, left, hload, hexecute, rfl⟩ := exists_of_serialReport h
  obtain ⟨port, hwired, hnone⟩ := wired_of_load hload
  obtain ⟨reason, hends, hle, hsteps, hsent⟩ :=
    Console.serialBytes_of_run hwired hnone (execute_eq_ok_iff.mp hexecute)
  exact ⟨m, summary, left, reason, hload, hexecute, hends, hle, hsteps, hsent⟩

/-- The serial bytes of every run that succeeds. They are what the actions of its steps send, in
    order: the byte in the data register before each byte store of the start value to the control
    register. The actions are all that work and the dispatch of a handler do to memory; each of the
    two sends one byte at most, which is the one that the data register holds before it, and the
    store of the stack pointer sends none. Whether bytes are echoed makes no difference, and a larger
    budget only adds to them. -/
theorem serial_capture (options : RunOptions) (files : String → Except String ByteArray)
    (threshold : Option Severity) :
    (∀ serial, options.serialReport files threshold = .ok serial →
        ∃ m summary left, options.load (m := Id) files threshold = .ok m ∧
          options.execute m = (.ok summary, left) ∧
          (∀ k < summary.steps, ∃ cost, (m.after k).step = (.ok cost, m.after (k + 1))) ∧
          serial = m.sentOver summary.steps) ∧
      (∀ m : Console,
        m.work.2.memory.quiet = ((performAll m.workOutcome.2).run m.memory).2.quiet ∧
          m.service.2.memory.quiet = ((performAll m.serviceActions).run m.memory).2.quiet) ∧
      (∀ m : Console, m.sent =
        (if startTransfer ∈ m.workOutcome.2 then [m.memory.peek Hardware.serialData] else []) ++
          if startTransfer ∈ m.due.serviceActions then [m.due.memory.peek Hardware.serialData]
          else []) ∧
      (∀ m : Console, m.cpu.instructionIn m.memory.peek = .ok .storeSp →
        startTransfer ∉ m.workOutcome.2) ∧
      (∀ echoes, ({ options with serial := echoes }).serialReport files threshold =
        options.serialReport files threshold) ∧
      (∀ first second : Option Nat,
        first.getD Console.stepCeiling ≤ second.getD Console.stepCeiling →
          ∀ earlier later,
            ({ options with maxSteps := first }).serialReport files threshold = .ok earlier →
            ({ options with maxSteps := second }).serialReport files threshold = .ok later →
              earlier <+: later) := by
  refine ⟨?_, ?_, ?_, ?_, fun _ => rfl, ?_⟩
  · intro serial h
    obtain ⟨m, summary, left, _, hload, hexecute, -, -, hsteps, hsent⟩ := sent_of_serialReport h
    exact ⟨m, summary, left, hload, hexecute, hsteps, hsent⟩
  · intro m
    exact ⟨(Console.work_run m).2.1.trans (performAll_held (β := AddressSpace) _ _).symm,
      (Console.service_memory m).trans (performAll_held (β := AddressSpace) _ _).symm⟩
  · intro m
    rw [Console.sent, m.singleTransfer_work.sentBy_eq, m.due.singleTransfer_service.sentBy_eq]
  · intro m hstores
    exact m.startTransfer_not_mem_work hstores
  · intro first second hle earlier later hearlier hlater
    obtain ⟨m, summary, _, _, hload, -, hends, hwithin, -, rfl⟩ := sent_of_serialReport hearlier
    obtain ⟨m', summary', _, _, hload', -, hends', -, -, rfl⟩ := sent_of_serialReport hlater
    have hsame : (.ok m : Except RunError Console) = .ok m' := hload.symm.trans hload'
    cases hsame
    exact m.sentOver_prefix (hends.le_of_le hends' hwithin hle)

/-! ## A program that sends

A boot program that loads A with the start value and stores it to the control
register. It sends the zero that the data register holds. -/

/-- `LD A,0x81` and `LDH (0x02),A`. -/
def sender : ByteArray := ⟨#[0x3E, 0x81, 0xE0, 0x02]⟩

/-- An empty cartridge behind the boot program, for two steps. -/
def sending : RunOptions := { rom := "game", bootRom := some "boot", maxSteps := some 2 }

/-- The files that are read. -/
def senderFiles (path : String) : Except String ByteArray :=
  .ok (if path = "boot" then sender else .empty)

/-- The console before the first step. -/
def atSender : Console := sending.console .empty (some sender) none

theorem load_sending : sending.load (m := Id) senderFiles none = .ok atSender := by
  rw [load_eq]
  rfl

theorem peek_atSender (address : UInt16) :
    atSender.memory.peek address =
      if address = Hardware.divider then 0
      else if address = 3 then 0x02
      else if address = 2 then 0xE0
      else if address = 1 then 0x81
      else if address = 0 then 0x3E
      else 0 := by
  change ((((((Memory.zero.set Hardware.divider 0xAB).set 0 0x3E).set 1 0x81).set 2 0xE0).set 3
    0x02).set Hardware.divider 0).get address = _
  simp only [Memory.get_set, Memory.get_zero]
  split <;> rfl

/-- The processor between its two instructions. -/
def senderReady : Cpu :=
  { atSender.cpu with regs := { atSender.cpu.regs with a := 0x81, pc := 2 }, cycles := 2 }

theorem workOutcome_atSender : atSender.workOutcome = ((.ok 2, senderReady), []) := by
  have houtcome : atSender.workOutcome = atSender.cpu.outcome atSender.memory.peek :=
    Console.workOutcome_of_not_halted rfl
  rw [houtcome, funext peek_atSender]
  rfl

/-- The second instruction is the one that sends. -/
theorem outcome_senderReady {image : Image} (hopcode : image 2 = 0xE0)
    (hoffset : image 3 = 0x02) :
    senderReady.outcome image =
      ((.ok 3, { senderReady with regs := { senderReady.regs with pc := 4 }, cycles := 3 }),
        [startTransfer]) := by
  have hfetched : image.opcodeAt senderReady.regs.pc = (0xE0, false) := by
    change (if image 2 = extensionByte then (image 3, true) else (image 2, false)) = _
    rw [hopcode]
    rfl
  have hdecoded : senderReady.instructionIn image = .ok .storeHigh :=
    Cpu.instructionIn_of_opcodeAt hfetched
  have himmediate : image.immediateAt senderReady.regs.pc Instruction.storeHigh.immediate = 2 := by
    change (image 3).toUInt16 = 2
    rw [hoffset]
    rfl
  rw [Cpu.outcome, hdecoded]
  dsimp only
  rw [Cpu.effectIn, himmediate]
  rfl

/-- After a first step that stores nothing the second instruction is still there. -/
theorem after_atSender :
    (∃ cost, atSender.step.1 = .ok cost) ∧ atSender.sent = [] ∧
      (atSender.after 1).cpu = senderReady ∧
      ∀ address, address ≠ Hardware.timerCounter → address ≠ Hardware.interruptFlags →
        address ≠ Hardware.divider →
          (atSender.after 1).memory.peek address = atSender.memory.peek address := by
  have hlog : atSender.memory.logsWrites = false := rfl
  obtain ⟨hstep, -, hstores, hcpu⟩ := Console.step_of_workOutcome workOutcome_atSender
  have hsource : atSender.due.dueSource = none := by
    rw [Console.dueSource_eq_none_iff, hcpu]
    exact .inl rfl
  have hservice : atSender.due.serviceActions = [] :=
    Console.serviceActions_of_no_source hsource
  have hnext : atSender.after 1 = atSender.step.2 := atSender.after_succ 0
  refine ⟨⟨_, congrArg Prod.fst hstep⟩, ?_, ?_, ?_⟩
  · simp [Console.sent, workOutcome_atSender, hservice, sentBy]
  · rw [hnext, (Console.turn_of_step hstep).2, Console.cpu_elapse, Console.service_cpu,
      Console.serviceOutcome_of_no_source hsource, hcpu]
  · intro address hcount hrequests hdivider
    rw [hnext]
    exact Console.peek_of_silent_step hlog hstep hstores hsource hcount hrequests hdivider

theorem workOutcome_after_atSender :
    (atSender.after 1).workOutcome =
      ((.ok 3, { senderReady with regs := { senderReady.regs with pc := 4 }, cycles := 3 }),
        [startTransfer]) := by
  obtain ⟨-, -, hcpu, hpeek⟩ := after_atSender
  have hopcode : (atSender.after 1).memory.peek 2 = 0xE0 := by
    rw [hpeek 2 (by decide) (by decide) (by decide), peek_atSender]
    rfl
  have hoffset : (atSender.after 1).memory.peek 3 = 0x02 := by
    rw [hpeek 3 (by decide) (by decide) (by decide), peek_atSender]
    rfl
  have hawake : (atSender.after 1).cpu.halted = false := by
    rw [hcpu]
    rfl
  rw [Console.workOutcome_of_not_halted hawake, hcpu]
  exact outcome_senderReady hopcode hoffset

theorem sent_after_atSender : (atSender.after 1).sent = [0] := by
  obtain ⟨-, -, -, hpeek⟩ := after_atSender
  have hdata : (atSender.after 1).memory.peek Hardware.serialData = 0 := by
    rw [hpeek _ (by decide) (by decide) (by decide), peek_atSender]
    rfl
  have hsource : (atSender.after 1).due.dueSource = none := by
    rw [Console.dueSource_eq_none_iff,
      (Console.step_of_workOutcome workOutcome_after_atSender).2.2.2]
    exact .inl rfl
  have hservice : (atSender.after 1).due.serviceActions = [] :=
    Console.serviceActions_of_no_source hsource
  simp [Console.sent, workOutcome_after_atSender, hdata, hservice, sentBy]

/-- Under a budget of two steps or fewer the run uses up its budget. -/
theorem execute_sending {budget : Nat} (h : budget ≤ 2) :
    ({ sending with maxSteps := some budget }).execute atSender =
      (.ok ⟨.stepLimit, budget, atSender.cyclesOver budget⟩,
        (atSender.after budget).report
          (.stopped .stepLimit budget (atSender.cyclesOver budget))) := by
  have hends : atSender.Ends (some budget) budget (.ok .stepLimit) := by
    have hnowhere : atSender.config.endpoint = none := rfl
    constructor
    · intro k hk
      have hgoes : (atSender.after k).cpu.halted = false ∧
          ∃ cost, (atSender.after k).step.1 = .ok cost := by
        obtain ⟨hfirst, -, hcpu, -⟩ := after_atSender
        obtain rfl | rfl : k = 0 ∨ k = 1 := by omega
        · exact ⟨rfl, hfirst⟩
        · exact ⟨by rw [hcpu]; rfl,
            _, congrArg Prod.fst (Console.step_of_workOutcome workOutcome_after_atSender).1⟩
      obtain ⟨hawake, cost, hstep⟩ := hgoes
      have hne : budget ≠ k := by omega
      simp [Console.ending?, hnowhere, hne, hawake, hstep]
    · simp [Console.ending?, hnowhere]
  rw [execute, Console.run_of_ends hends]
  rfl

theorem serial_capture_sender :
    ∃ earlier, ({ sending with maxSteps := some 1 }).serialReport senderFiles none = .ok earlier ∧
      sending.serialReport senderFiles none = .ok [0] ∧ earlier <+: [0] := by
  have hreport {budget : Nat} (h : budget ≤ 2) :
      ∃ serial, ({ sending with maxSteps := some budget }).serialReport senderFiles none =
        .ok serial := by
    have hload : ({ sending with maxSteps := some budget }).load (m := Id) senderFiles none =
        .ok atSender := load_sending
    rw [serialReport, hload]
    dsimp only
    rw [execute_sending h]
    exact ⟨_, rfl⟩
  obtain ⟨hsent, -, -, -, -, hprefix⟩ := serial_capture sending senderFiles none
  obtain ⟨earlier, hearlier⟩ := hreport (show 1 ≤ 2 by decide)
  obtain ⟨later, hlater⟩ := hreport (Nat.le_refl 2)
  obtain ⟨m, summary, left, hload, hexecute, -, rfl⟩ := hsent later hlater
  cases load_sending.symm.trans hload
  cases (execute_sending (Nat.le_refl 2)).symm.trans hexecute
  have hzero : atSender.sentOver 2 = [0] := by
    have hfirst : (atSender.after 0).sent = [] := after_atSender.2.1
    simp [Console.sentOver_succ, hfirst, sent_after_atSender]
  have hgrows := hprefix (some 1) (some 2) (by decide) earlier _ hearlier hlater
  rw [hzero] at hlater hgrows
  exact ⟨earlier, hearlier, hlater, hgrows⟩

end RunOptions

end Handheld
