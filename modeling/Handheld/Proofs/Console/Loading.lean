-- SUMMARY: Loading a cartridge makes the same console whatever it was used for before.
import Handheld.Console.Run
import Handheld.Proofs.AddressSpace.Plain
import Handheld.Proofs.Bus.ByteBus
import Handheld.Proofs.Console.Steps
import Handheld.Proofs.Cpu.Effect
import Handheld.Proofs.Timer.ClosedForm

namespace Handheld

/-! ## Where stores go

No access makes a space borrow its bytes, or stop borrowing them. -/

namespace AddressSpace

@[simp] theorem isBorrowed_putByte (s : AddressSpace) (address : UInt16) (value : UInt8) :
    (s.putByte address value).store.isBorrowed = s.store.isBorrowed := by
  unfold putByte logAccess
  dsimp only
  split
  · split <;> rfl
  · simp

@[simp] theorem isBorrowed_writeByte (s : AddressSpace) (address : UInt16) (value : UInt8) :
    (s.writeByte address value).store.isBorrowed = s.store.isBorrowed := by
  simp [writeByte]

@[simp] theorem isBorrowed_writeWord (s : AddressSpace) (address value : UInt16) :
    (s.writeWord address value).store.isBorrowed = s.store.isBorrowed := by
  simp [writeWord]

@[simp] theorem isBorrowed_load (s : AddressSpace) (base : UInt16) (data : ByteArray) :
    (s.load base data).store.isBorrowed = s.store.isBorrowed := by
  unfold load Store.load
  split <;> simp_all [Store.isBorrowed]

theorem exists_owned {s : AddressSpace} (h : s.store.isBorrowed = false) :
    ∃ memory, s.store = .owned memory := by
  cases hstore : s.store with
  | owned memory => exact ⟨memory, rfl⟩
  | borrowed buffer limit limit_le =>
    rw [hstore] at h
    cases h

/-- After loading at address zero the bytes of the data lie from there up. -/
theorem peek_load_zero {s : AddressSpace} (howned : s.store.isBorrowed = false) (data : ByteArray)
    (address : UInt16) :
    (s.load 0 data).peek address =
      if inside : address.toNat < data.size then data.get address.toNat inside
      else s.peek address := by
  obtain ⟨memory, hstore⟩ := exists_owned howned
  have hload : (s.load 0 data).peek address = (memory.load 0 data).get address := by
    rw [peek, load, hstore]
    rfl
  have hbefore : s.peek address = memory.get address := by rw [peek, hstore, Store.peek_owned]
  rw [hload, hbefore, Memory.get_load]
  by_cases hinside : address.toNat < data.size
  · rw [dif_pos hinside]
    exact dif_pos ⟨Nat.zero_le _, (Nat.zero_add data.size).symm ▸ hinside⟩
  · rw [dif_neg hinside]
    exact dif_neg fun h => hinside (Nat.zero_add data.size ▸ h.2)

theorem isBorrowed_of_quiet {s s' : AddressSpace} (h : s'.quiet = s.quiet) :
    s'.store.isBorrowed = s.store.isBorrowed :=
  congrArg (·.store.isBorrowed) h

theorem isBorrowed_putAll (actions : List Action) (s : AddressSpace) :
    (putAll (β := AddressSpace) actions s).store.isBorrowed = s.store.isBorrowed := by
  induction actions generalizing s with
  | nil => rfl
  | cons action rest ih =>
    refine (ih _).trans ?_
    cases action with
    | write8 address value => exact isBorrowed_writeByte ..
    | write16 address value => exact isBorrowed_writeWord ..
    | report record => rfl

end AddressSpace

theorem Request.isBorrowed_serve (s : AddressSpace) (request : Request) :
    (request.serve s).2.store.isBorrowed = s.store.isBorrowed := by
  cases request with
  | readByte address => exact AddressSpace.isBorrowed_of_quiet (LawfulBus.read8_held address s)
  | readWord address => exact AddressSpace.isBorrowed_of_quiet (LawfulBus.read16_held address s)
  | writeByte address value => exact s.isBorrowed_writeByte address value
  | writeWord address value => exact s.isBorrowed_writeWord address value
  | poke address value => exact Store.isBorrowed_poke ..
  | load base data => exact s.isBorrowed_load base data
  | _ => rfl

theorem Call.isBorrowed_perform (call : Call) (cpu : Cpu) (s : AddressSpace) :
    ((call.perform cpu).run s).2.store.isBorrowed = s.store.isBorrowed :=
  (congrArg (·.store.isBorrowed) (call.perform_run cpu s).2).trans
    (AddressSpace.isBorrowed_putAll _ s.quiet)

/-- No call changes the switches of the processor. -/
theorem Call.config_perform (call : Call) (cpu : Cpu) (s : AddressSpace) :
    ((call.perform cpu).run s).1.2.config = cpu.config := by
  rw [(call.perform_run cpu s).1]
  cases call with
  | step => exact Cpu.config_outcome cpu _
  | service =>
    simp only [outcome, Cpu.serviceOutcome]
    split
    · split <;> rfl
    · rfl
  | wake =>
    simp only [outcome, Cpu.wakeOutcome]
    split
    · split <;> rfl
    · rfl
  | _ => rfl

namespace Timer

variable {s : AddressSpace}

theorem peek_start (howned : s.store.isBorrowed = false) (counter address : UInt16) :
    (start counter s).2.peek address =
      if address = Hardware.divider then (counter >>> 6).toUInt8 else s.peek address := by
  split
  · next h =>
    obtain ⟨memory, hmemory⟩ := AddressSpace.exists_owned howned
    rw [h]
    exact AddressSpace.peek_poke_self (s := { s with dividerHit := false }) hmemory _ _
  · next h => exact AddressSpace.peek_poke_of_ne _ _ h

/-- A timer that starts over has seen the control value that stands in memory then. -/
theorem start_fst (counter : UInt16) (s : AddressSpace) :
    (start counter s).1 =
      { counter
        reloadDue := false
        lastControl := (start counter s).2.peek Hardware.timerControl } := by
  have hcontrol : (start counter s).2.peek Hardware.timerControl =
      s.peek Hardware.timerControl :=
    AddressSpace.peek_poke_of_ne { s with dividerHit := false } _ (by decide)
  rw [hcontrol]
  rfl

end Timer

namespace Console

/-! ## Uses

Whatever is done with a console, its configuration stays, and its memory stays
its own. -/

/-- One use of a console. -/
inductive Use where
  | loadRom (rom : ByteArray)
  | step
  | run (budget : Option Nat)
  | listen (listener : Listener)
  /-- An access to the memory, or a change of its log. -/
  | request (request : Request)
  /-- The processor runs on the memory while the timer stands still. -/
  | call (call : Call)
  /-- The processor is put in any state at all, except for its switches: registers and modes may
      be set, it may be reset, and an overlay may be armed. -/
  | processor (cpu : Cpu)

/-- The console after a use, whatever the use returns. -/
def Use.apply (m : Console) : Use → Console
  | loadRom rom => m.loadRom rom
  | step => m.step.2
  | run budget => (m.run budget).2
  | listen listener => m.listen listener
  | .request made => { m with memory := (made.serve m.memory).2 }
  | .call made =>
    let ((_, cpu), memory) := (made.perform m.cpu).run m.memory
    { m with cpu, memory }
  | processor cpu => { m with cpu := { cpu with config := m.cpu.config } }

/-- A console that was assembled from a configuration and then used. -/
def used (config : Config) (uses : List Use) : Console :=
  uses.foldl Use.apply (ofConfig config)

/-- What no use changes. -/
structure Kept (config : Config) (m : Console) : Prop where
  config_eq : m.config = config
  switches_eq : m.cpu.config = config.cpu
  owned : m.memory.store.isBorrowed = false

/-! ## Loading -/

/-- The byte at an address after loading, where `before` is what was read before. The boot program
    lies over the cartridge, and the divider shows its new start over both. -/
def loadedByte (bootRom : Option ByteArray) (rom : ByteArray) (before : Image) (address : UInt16) :
    UInt8 :=
  let boot := bootRom.getD .empty
  if address = 0xFF04 then if bootRom.isSome then 0x00 else 0xAB
  else if mapped : address.toNat < min boot.size 0x100 then
    boot.get address.toNat (Nat.lt_of_lt_of_le mapped (Nat.min_le_left ..))
  else if inside : address.toNat < rom.size then rom.get address.toNat inside
  else before address

theorem loadedByte_none (rom : ByteArray) (before : Image) {address : UInt16}
    (hother : address ≠ 0xFF04) :
    loadedByte none rom before address =
      if inside : address.toNat < rom.size then rom.get address.toNat inside
      else before address := by
  have hempty : ¬address.toNat < min ByteArray.empty.size 0x100 := Nat.not_lt_zero _
  exact (if_neg hother).trans (dif_neg hempty)

theorem loadedByte_some (boot rom : ByteArray) (before : Image) {address : UInt16}
    (hother : address ≠ 0xFF04) :
    loadedByte (some boot) rom before address =
      if mapped : address.toNat < min boot.size 0x100 then
        boot.get address.toNat (Nat.lt_of_lt_of_le mapped (Nat.min_le_left ..))
      else if inside : address.toNat < rom.size then rom.get address.toNat inside
      else before address :=
  if_neg hother

/-- The processor after loading. The overlay saves what the boot program hides of the cartridge
    itself, not of the memory that the two are copied to. -/
def loadedCpu (config : Config) (rom : ByteArray) : Cpu :=
  match config.bootRom with
  | none => .ofConfig config.cpu
  | some _ =>
    { regs := {}
      ime := false
      halted := false
      config := config.cpu
      overlay := some
        ⟨Vector.ofFn fun i : Fin 0x100 => if h : i.val < rom.size then rom.get i.val h else 0⟩
      cycles := 0 }

/-- `after` is what loading a cartridge into `before` has to leave under a configuration. -/
structure Loaded (config : Config) (rom : ByteArray) (before after : Console) : Prop where
  peek : ∀ address, after.memory.peek address =
    loadedByte config.bootRom rom before.memory.peek address
  cpu : after.cpu = loadedCpu config rom
  timer : after.timer =
    { counter := if config.bootRom.isSome then 0 else 0x2AC0
      reloadDue := false
      lastControl := after.memory.peek 0xFF07 }
  dividerHit : after.memory.dividerHit = false
  /-- Unless the first instruction hits the divider or changes the control register, the timer has
      nothing to catch up with after it. -/
  catches_up : ∀ cycles worked, after.work = (.ok cycles, worked) →
    worked.memory.dividerHit = false →
    worked.memory.peek 0xFF07 = after.memory.peek 0xFF07 →
    worked.timer.sync worked.memory.dividerHit (Timer.registers worked.memory) =
      (after.timer, Timer.registers worked.memory)
  /-- Nobody hears of it. -/
  heard : after.memory.heard = before.memory.heard
  listeners : after.memory.listeners = before.memory.listeners
  accessLog : after.memory.accessLog = before.memory.accessLog
  logSwitch : after.memory.logSwitch = before.memory.logSwitch
  logsWrites : after.memory.logsWrites = before.memory.logsWrites
  kept : after.Kept config

theorem exists_enterCartridge_eq (m : Console) :
    ∃ journal, m.enterCartridge =
      (let start := Timer.start Timer.postBootCounter m.memory
      { m with cpu := m.cpu.reset, memory := { start.2 with journal }, timer := start.1 }) :=
  ⟨_, rfl⟩

theorem exists_enterBoot_eq (m : Console) (rom boot : ByteArray) :
    ∃ journal, m.enterBoot rom boot =
      (let start := Timer.start 0 (m.memory.load 0 (boot.extract 0 (min boot.size bootSize)))
      { m with
        cpu := m.cpu.powerOn.armOverlay rom
        memory := { start.2 with journal }
        timer := start.1 }) :=
  ⟨_, rfl⟩

theorem get_extract_zero (data : ByteArray) {size i : Nat} (h : i < (data.extract 0 size).size)
    (h' : i < data.size) : (data.extract 0 size).get i h = data.get i h' :=
  (ByteArray.getElem_extract h).trans (getElem_congr_idx (c := data) (Nat.zero_add i))

section

variable {config : Config} {m : Console}

/-- `s` is the memory of a console with the cartridge laid on it, and over that the boot program. -/
structure LaidOut (config : Config) (rom : ByteArray) (before s : AddressSpace) : Prop where
  owned : s.store.isBorrowed = false
  peek : ∀ address ≠ Hardware.divider,
    s.peek address = loadedByte config.bootRom rom before.peek address
  heard : s.heard = before.heard
  listeners : s.listeners = before.listeners
  accessLog : s.accessLog = before.accessLog
  logSwitch : s.logSwitch = before.logSwitch

theorem laidOut_cartridge (h : m.Kept config) (hboot : config.bootRom = none) (rom : ByteArray)
    (journal : Journal) :
    LaidOut config rom m.memory ({ m.memory with journal }.load 0 rom) where
  owned := (AddressSpace.isBorrowed_load ..).trans h.owned
  peek address hne := by
    rw [hboot, loadedByte_none rom _ hne]
    exact AddressSpace.peek_load_zero h.owned rom address
  heard := rfl
  listeners := rfl
  accessLog := rfl
  logSwitch := rfl

theorem laidOut_boot (h : m.Kept config) {boot : ByteArray} (hboot : config.bootRom = some boot)
    (rom : ByteArray) (journal : Journal) :
    LaidOut config rom m.memory
      (({ m.memory with journal }.load 0 rom).load 0
        (boot.extract 0 (min boot.size bootSize))) where
  owned := ((AddressSpace.isBorrowed_load ..).trans (AddressSpace.isBorrowed_load ..)).trans h.owned
  peek address hne := by
    have hsize : (boot.extract 0 (min boot.size bootSize)).size = min boot.size 0x100 := by
      simp [bootSize]
    have hcartridge := AddressSpace.peek_load_zero (s := { m.memory with journal }) h.owned rom
      address
    have howned := (AddressSpace.isBorrowed_load { m.memory with journal } 0 rom).trans h.owned
    refine (AddressSpace.peek_load_zero howned _ address).trans ?_
    rw [hboot, loadedByte_some boot rom _ hne]
    by_cases hmapped : address.toNat < min boot.size 0x100
    · rw [dif_pos (hsize.symm ▸ hmapped), dif_pos hmapped]
      exact get_extract_zero boot _ _
    · rw [dif_neg (hsize.symm ▸ hmapped), dif_neg hmapped, hcartridge]
      rfl
  heard := rfl
  listeners := rfl
  accessLog := rfl
  logSwitch := rfl

/-- Loading lays out the images and then starts the timer over. -/
theorem exists_loadRom_eq_start (h : m.Kept config) (rom : ByteArray) :
    ∃ s journal, LaidOut config rom m.memory s ∧
      m.loadRom rom =
        (let start := Timer.start (if config.bootRom.isSome then 0 else Timer.postBootCounter) s
        { cpu := loadedCpu config rom
          memory := { start.2 with journal }
          timer := start.1
          config }) := by
  obtain ⟨warned, hload⟩ := m.exists_loadRom_eq rom
  rw [h.config_eq] at hload
  cases hboot : config.bootRom with
  | none =>
    simp only [hboot] at hload
    obtain ⟨journal, hentered⟩ := exists_enterCartridge_eq
      { m with memory := { m.memory with journal := warned }.load 0 rom, config }
    have hcpu : m.cpu.reset = loadedCpu config rom := by
      rw [loadedCpu, hboot, Cpu.reset, h.switches_eq]
    refine ⟨_, journal, laidOut_cartridge h hboot rom warned, ?_⟩
    rw [hload, hentered, ← hcpu]
    rfl
  | some boot =>
    simp only [hboot] at hload
    obtain ⟨journal, hentered⟩ := exists_enterBoot_eq
      { m with memory := { m.memory with journal := warned }.load 0 rom, config } rom boot
    have hcpu : m.cpu.powerOn.armOverlay rom = loadedCpu config rom := by
      rw [loadedCpu, hboot, Cpu.armOverlay, Cpu.powerOn, h.switches_eq]
      rfl
    refine ⟨_, journal, laidOut_boot h hboot rom warned, ?_⟩
    rw [hload, hentered, ← hcpu]
    rfl

theorem config_loadedCpu (config : Config) (rom : ByteArray) :
    (loadedCpu config rom).config = config.cpu := by
  unfold loadedCpu
  split <;> rfl

/-- Loading into a console of a configuration leaves what it has to. -/
theorem loaded_loadRom (h : m.Kept config) (rom : ByteArray) :
    Loaded config rom m (m.loadRom rom) := by
  obtain ⟨s, journal, hlaid, hload⟩ := exists_loadRom_eq_start h rom
  have hpeek (address : UInt16) : (m.loadRom rom).memory.peek address =
      loadedByte config.bootRom rom m.memory.peek address := by
    rw [hload]
    refine (Timer.peek_start hlaid.owned _ address).trans ?_
    split
    · next hdivider =>
      rw [loadedByte]
      refine Eq.trans ?_ (if_pos hdivider).symm
      cases config.bootRom.isSome <;> decide
    · next hother => exact hlaid.peek address hother
  have htimer : (m.loadRom rom).timer =
      { counter := if config.bootRom.isSome then 0 else 0x2AC0
        reloadDue := false
        lastControl := (m.loadRom rom).memory.peek 0xFF07 } := by
    rw [hload]
    exact Timer.start_fst _ s
  have howned : (m.loadRom rom).memory.store.isBorrowed = false := by
    rw [hload]
    exact (Store.isBorrowed_poke ..).trans hlaid.owned
  have hswitch : (m.loadRom rom).memory.logSwitch = m.memory.logSwitch := by
    rw [hload]
    exact hlaid.logSwitch
  exact
    { peek := hpeek
      cpu := by rw [hload]
      timer := htimer
      dividerHit := by
        rw [hload]
        rfl
      catches_up := by
        intro cycles worked hwork hhit hcontrol
        have hkept : worked.timer = (m.loadRom rom).timer := by
          rw [← (work_run (m.loadRom rom)).2.2.1, hwork]
        have hseen : (m.loadRom rom).timer.lastControl =
            (Timer.registers worked.memory).control := by
          rw [htimer]
          exact hcontrol.symm
        rw [hhit, hkept, Timer.sync_seen hseen]
      heard := by
        rw [hload]
        exact hlaid.heard
      listeners := by
        rw [hload]
        exact hlaid.listeners
      accessLog := by
        rw [hload]
        exact hlaid.accessLog
      logSwitch := hswitch
      logsWrites := by simp only [AddressSpace.logsWrites, hswitch, howned, h.owned]
      kept := ⟨by rw [hload], by rw [hload]; exact config_loadedCpu config rom, howned⟩ }

/-! ## After any use -/

theorem kept_ofConfig (config : Config) : (ofConfig config).Kept config :=
  ⟨rfl, rfl, rfl⟩

theorem Kept.elapse (h : m.Kept config) (cycles : Nat) : (m.elapse cycles).Kept config := by
  refine ⟨h.config_eq, h.switches_eq, ?_⟩
  rw [memory_elapse, Timer.advance_snd]
  simp [h.owned]

theorem Kept.call (h : m.Kept config) (made : Call) : (Use.apply m (.call made)).Kept config where
  config_eq := h.config_eq
  switches_eq := (made.config_perform m.cpu m.memory).trans h.switches_eq
  owned := (made.isBorrowed_perform m.cpu m.memory).trans h.owned

-- Apart from the timer, the parts of a step are calls.

theorem Kept.stepCpu (h : m.Kept config) : m.stepCpu.2.Kept config :=
  h.call .step

theorem Kept.wake (h : m.Kept config) : m.wake.2.Kept config :=
  h.call .wake

theorem Kept.service (h : m.Kept config) : m.service.2.Kept config :=
  h.call .service

theorem Kept.work (h : m.Kept config) : m.work.2.Kept config := by
  rw [work_eq]
  split
  · exact h.wake
  · exact h.wake.stepCpu

theorem Kept.step (h : m.Kept config) : m.step.2.Kept config := by
  have hwork := h.work
  rw [Console.step]
  generalize m.work = work at hwork
  obtain ⟨result, worked⟩ := work
  cases result with
  | error fault => exact hwork
  | ok cycles => exact ((hwork.elapse cycles).service).elapse _

theorem Kept.runFrom (h : m.Kept config) (steps cycles budget : Nat) :
    (m.runFrom steps cycles budget).2.Kept config := by
  induction budget generalizing m steps cycles with
  | zero => exact h
  | succ budget ih =>
    have hstep := h.step
    rw [Console.runFrom]
    split
    · exact h
    · split
      · exact h
      · generalize m.step = step at hstep
        obtain ⟨result, stepped⟩ := step
        cases result with
        | error fault => exact hstep
        | ok cost => exact ih hstep _ _

theorem Kept.run (h : m.Kept config) (budget : Option Nat) : (m.run budget).2.Kept config := by
  have hrun := h.runFrom 0 0 (budget.getD stepCeiling)
  rw [Console.run]
  generalize m.runFrom 0 0 (budget.getD stepCeiling) = run at hrun
  obtain ⟨result, left⟩ := run
  cases result with
  | error fault => exact hrun
  | ok summary => exact ⟨hrun.config_eq, hrun.switches_eq, hrun.owned⟩

theorem Kept.apply (h : m.Kept config) (use : Use) : (use.apply m).Kept config := by
  cases use with
  | loadRom rom => exact (loaded_loadRom h rom).kept
  | step => exact h.step
  | run budget => exact h.run budget
  | listen listener => exact ⟨h.config_eq, h.switches_eq, h.owned⟩
  | request made =>
    exact ⟨h.config_eq, h.switches_eq, (made.isBorrowed_serve m.memory).trans h.owned⟩
  | call made => exact h.call made
  | processor cpu => exact ⟨h.config_eq, h.switches_eq, h.owned⟩

theorem Kept.foldl (h : m.Kept config) (uses : List Use) :
    (uses.foldl Use.apply m).Kept config := by
  induction uses generalizing m with
  | nil => exact h
  | cons use rest ih => exact ih (h.apply use)

/-- Whatever a console was used for, loading a cartridge of any size leaves the processor, the
    timer and every byte as the configuration and the images say, with the old byte only where no
    image reaches. The timer starts with nothing to catch up with, nobody hears of the loading, and
    the access log stays as it was. -/
theorem loading_starts_over (config : Config) (uses : List Use) (rom : ByteArray) :
    Loaded config rom (used config uses) ((used config uses).loadRom rom) :=
  loaded_loadRom ((kept_ofConfig config).foldl uses) rom

end

end Console

end Handheld
