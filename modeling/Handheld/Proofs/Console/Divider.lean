-- SUMMARY: In every run the divider register tells the machine time since the cartridge was loaded or the divider last stored to.
import Handheld.Proofs.Console.Turns
import Handheld.Proofs.Timer.Rounds

namespace Handheld

/-! ## Charges

The cycles of a step are charged in two parts: those of the instruction after
its stores, and those of a dispatch after the push of PC. If one of the stores
of a part hits the divider, time starts over before the cycles of that part. -/

/-- Some stores, and the cycles that are charged after them. -/
structure Charge where
  stores : List (UInt16 × UInt8)
  cycles : Nat

namespace Charge

/-- Whether one of the stores, byte or half of a word, hits the divider. -/
def restarts (charge : Charge) : Bool :=
  storesAt charge.stores Hardware.divider

/-- The time after a charge. -/
def pass (time : Nat) (charge : Charge) : Nat :=
  if charge.restarts then charge.cycles else time + charge.cycles

theorem foldl_pass_of_no_restart (time : Nat) {charges : List Charge}
    (h : ∀ charge ∈ charges, charge.restarts = false) :
    charges.foldl pass time = time + (charges.map cycles).sum := by
  induction charges generalizing time with
  | nil => rfl
  | cons charge rest ih =>
    obtain ⟨hfirst, hrest⟩ := List.forall_mem_cons.mp h
    rw [List.foldl_cons, ih _ hrest, List.map_cons, List.sum_cons, pass, hfirst,
      if_neg Bool.false_ne_true, Nat.add_assoc]

/-- What was before the last restart does not matter. -/
theorem foldl_pass_of_restart (time : Nat) (earlier : List Charge) {last : Charge}
    {later : List Charge} (hlast : last.restarts = true)
    (hlater : ∀ charge ∈ later, charge.restarts = false) :
    (earlier ++ last :: later).foldl pass time = ((last :: later).map cycles).sum := by
  rw [List.foldl_append, List.foldl_cons, foldl_pass_of_no_restart _ hlater, pass, hlast,
    List.map_cons, List.sum_cons]
  rfl

end Charge

/-- The two charges of a step. -/
def Turn.charges (turn : Turn) : List Charge :=
  [⟨turn.stores, turn.cycles⟩, ⟨turn.pushed, turn.dispatchCycles⟩]

theorem Turn.sum_cycles_charges (turns : List Turn) :
    ((turns.flatMap charges).map Charge.cycles).sum = (turns.map cost).sum := by
  induction turns with
  | nil => rfl
  | cons turn rest ih =>
    rw [List.flatMap_cons, List.map_append, List.sum_append, ih, List.map_cons, List.sum_cons]
    rfl

namespace Console

/-! ## Time

The hidden counter of the timer is the time modulo its range, and the divider
register shows it. Restarts of the timer's own counter, idling and dispatches
make no difference. -/

/-- Between steps: the counter stands at the given time, and the divider shows it. -/
structure Shows (m : Console) (time : Nat) : Prop where
  logsWrites : m.memory.logsWrites = false
  no_hit : m.memory.dividerHit = false
  counter : m.timer.counter = UInt16.ofNat time
  published : m.memory.peek Hardware.divider = m.timer.divider

theorem Shows.divider {m : Console} {time : Nat} (h : Shows m time) :
    (m.memory.peek Hardware.divider).toNat = time / 64 % 256 := by
  rw [h.published, Timer.toNat_divider, h.counter, UInt16.toNat_ofNat']
  omega

theorem counter_pass {counter : UInt16} {time : Nat} (charge : Charge)
    (h : counter = UInt16.ofNat time) :
    (if charge.restarts then 0 else counter) + UInt16.ofNat charge.cycles =
      UInt16.ofNat (charge.pass time) := by
  rw [Charge.pass]
  cases charge.restarts with
  | false => rw [h, if_neg Bool.false_ne_true, if_neg Bool.false_ne_true, UInt16.ofNat_add]
  | true => rw [if_pos rfl, if_pos rfl, UInt16.zero_add]

/-- A step lets the time of its two charges pass. -/
theorem Shows.step {m m' : Console} {cost time : Nat} (h : Shows m time)
    (hstep : m.step = (.ok cost, m')) : Shows m' (m.turn.charges.foldl Charge.pass time) := by
  have hdue : m.due.timer.counter =
      UInt16.ofNat (Charge.pass time ⟨m.turn.stores, m.turn.cycles⟩) := by
    rw [← counter_pass _ h.counter, due, counter_elapse, (work_stores h.logsWrites).dividerHit,
      h.no_hit, Bool.false_or, (work_run m).2.2.1]
    rfl
  have hlog := logsWrites_due h.logsWrites
  have hserved := (service_stores hlog).logsWrites
  rw [(turn_of_step hstep).2]
  refine ⟨logsWrites_elapse hserved _, dividerHit_elapse _, ?_, peek_elapse_divider hserved _⟩
  rw [counter_elapse, dividerHit_service hlog, due, dividerHit_elapse, Bool.false_or]
  exact counter_pass ⟨m.turn.pushed, m.turn.dispatchCycles⟩ hdue

theorem Shows.turns {m m' : Console} {turns : List Turn} {time : Nat} (h : Shows m time)
    (run : Turns m turns m') :
    Shows m' ((turns.flatMap Turn.charges).foldl Charge.pass time) := by
  induction run with
  | none => exact h
  | next _ hstep ih =>
    rw [List.flatMap_append, List.flatMap_singleton, List.foldl_append]
    exact ih.step hstep

/-- The time at which a cartridge starts: as the boot program leaves it, or zero where there is a
    boot program to run. -/
def startTime (config : Config) : Nat :=
  if config.bootRom.isSome then 0 else 0x2AC0

theorem Shows.of_start {m : Console} {s : AddressSpace} (counter : UInt16)
    (hlog : s.logsWrites = false) (htimer : m.timer = (Timer.start counter s).1)
    (hmemory : m.memory.quiet = (Timer.start counter s).2.quiet) : Shows m counter.toNat := by
  obtain ⟨⟨memory, howned⟩, hnone, -, -, hpublished, -⟩ := Timer.between_start counter hlog
  have hholds : m.memory.Holds memory := howned.of_quiet hmemory
  refine ⟨hholds.logsWrites, ?_, ?_, ?_⟩
  · exact (congrArg AddressSpace.dividerHit hmemory).trans hnone
  · rw [htimer]
    exact UInt16.ofNat_toNat.symm
  · rw [htimer, hholds.peek, ← howned.peek]
    exact hpublished

theorem shows_enterCartridge {m : Console} (hlog : m.memory.logsWrites = false) :
    Shows m.enterCartridge 0x2AC0 :=
  .of_start Timer.postBootCounter hlog rfl rfl

theorem shows_enterBoot {m : Console} (rom boot : ByteArray) (hlog : m.memory.logsWrites = false) :
    Shows (m.enterBoot rom boot) 0 :=
  .of_start 0 ((AddressSpace.logsWrites_load ..).trans hlog) rfl rfl

/-- Loading a cartridge starts time over. -/
theorem shows_loadRom {m : Console} (rom : ByteArray) (hlog : m.memory.logsWrites = false) :
    Shows (m.loadRom rom) (startTime m.config) := by
  obtain ⟨journal, hload⟩ := m.exists_loadRom_eq rom
  have hloaded : ({ m.memory with journal }.load 0 rom).logsWrites = false :=
    (AddressSpace.logsWrites_load ..).trans hlog
  rw [hload, startTime]
  cases m.config.bootRom with
  | some boot => exact shows_enterBoot rom boot hloaded
  | none => exact shows_enterCartridge hloaded

/-- In every run from a freshly loaded cartridge the divider tells the time. As long as no store
    has hit it, this is the time at which the cartridge started and the cost of all steps since.
    Once stores have hit it, it is what was charged for the last of them and everything after
    that: all cycles of the instruction that made it, or those of the dispatch that pushed it. -/
theorem divider_tells_time {m m' : Console} {rom : ByteArray} {turns : List Turn}
    (hlog : m.memory.logsWrites = false) (run : Turns (m.loadRom rom) turns m') :
    Steps (m.loadRom rom) (turns.map Turn.cost) m' ∧
      ((∀ charge ∈ turns.flatMap Turn.charges, charge.restarts = false) →
        (m'.memory.peek Hardware.divider).toNat =
          (startTime m.config + (turns.map Turn.cost).sum) / 64 % 256) ∧
      (∀ earlier last later, turns.flatMap Turn.charges = earlier ++ last :: later →
        last.restarts = true → (∀ charge ∈ later, charge.restarts = false) →
          (m'.memory.peek Hardware.divider).toNat =
            ((last :: later).map Charge.cycles).sum / 64 % 256) := by
  have htime := ((shows_loadRom rom hlog).turns run).divider
  refine ⟨run.steps, ?_, ?_⟩
  · intro hnone
    rw [htime, Charge.foldl_pass_of_no_restart _ hnone, Turn.sum_cycles_charges]
  · intro earlier last later hcharges hlast hlater
    rw [htime, hcharges, Charge.foldl_pass_of_restart _ earlier hlast hlater]

/-- Memory with `LD (a16),SP` where cartridges start; its high byte goes to the divider. -/
def spOverDivider : Console where
  cpu := {}
  memory := (((default : AddressSpace).poke 0x100 0x08).poke 0x101 0x03).poke 0x102 0xFF
  timer := {}
  config := {}

theorem peek_spOverDivider (address : UInt16) :
    (spOverDivider.loadRom .empty).memory.peek address =
      if address = Hardware.divider then 0xAB
      else if address = 0x102 then 0xFF
      else if address = 0x101 then 0x03
      else if address = 0x100 then 0x08
      else 0 := by
  change ((((Memory.zero.set _ _).set _ _).set _ _).set _ _).get address = _
  simp only [Memory.get_set, Memory.get_zero]
  rfl

theorem workOutcome_spOverDivider :
    (spOverDivider.loadRom .empty).workOutcome =
      ((.ok 5, { Cpu.ofConfig {} with regs.pc := 0x103, cycles := 5 }),
        [.write16 0xFF03 0xFFFE]) := by
  have hfetch : Image.opcodeAt (spOverDivider.loadRom .empty).memory.peek
      (spOverDivider.loadRom .empty).cpu.regs.pc = (0x08, false) := by
    simp only [Image.opcodeAt, peek_spOverDivider]
    rfl
  have himmediate : Image.immediateAt (spOverDivider.loadRom .empty).memory.peek 0x100 .word =
      0xFF03 := by
    simp only [Image.immediateAt, Image.wordAt, peek_spOverDivider]
    rfl
  rw [workOutcome_of_not_halted rfl, Cpu.outcome, Cpu.instructionIn_of_opcodeAt hfetch]
  change ((Except.ok 5, _), [Action.write16 (Image.immediateAt _ 0x100 .word) 0xFFFE]) = _
  rw [himmediate]
  rfl

theorem divider_tells_time_spOver :
    ∃ m', Steps (spOverDivider.loadRom .empty) [5] m' ∧
      m'.memory.peek Hardware.divider = 0 := by
  generalize hm : spOverDivider.loadRom .empty = m
  obtain ⟨hstep, hcycles, hstores, hcpu⟩ :=
    step_of_workOutcome (hm ▸ workOutcome_spOverDivider)
  have hidle : m.due.dueSource = none := by
    rw [dueSource_eq_none_iff, hcpu]
    exact .inl rfl
  have hdispatch : m.turn.dispatchCycles = 0 := by
    rw [Turn.dispatchCycles, source_turn, hidle]
    rfl
  have hpushed : m.turn.pushed = [] := by rw [pushed_turn, pushed_of_no_source hidle]
  have hcharges : [m.turn].flatMap Turn.charges =
      [] ++ ⟨[(0xFF04, 0xFF), (0xFF03, 0xFE)], 5⟩ :: [⟨[], 0⟩] := by
    rw [List.flatMap_singleton, Turn.charges, hstores, hcycles, hpushed, hdispatch]
    rfl
  have run : Turns (spOverDivider.loadRom .empty) [m.turn] m.step.2 := by
    rw [hm]
    exact .single hstep
  obtain ⟨hsteps, -, hrestarted⟩ := divider_tells_time rfl run
  have hcost : m.turn.cost = 5 := by rw [Turn.cost, hcycles, hdispatch]
  refine ⟨m.step.2, ?_, ?_⟩
  · rw [List.map_singleton, hcost, hm] at hsteps
    exact hsteps
  · apply UInt8.toNat_inj.mp
    exact hrestarted _ _ _ hcharges rfl (by simp [Charge.restarts, storesAt])

end Console

end Handheld
