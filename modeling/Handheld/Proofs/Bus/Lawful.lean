-- SUMMARY: Buses on which a read shows what the bus holds and only writes change it, with the flat bus and the address space as instances.
import Handheld.AddressSpace.Basic
import Handheld.Cpu.Effect
import Handheld.FlatBus

namespace Handheld

/-! ## Lawful buses

A bus may record its traffic, tell listeners of it and keep a journal. What it
records never decides what a read yields. So the state of a bus is split into
what it holds and what it has observed: reads and reports leave the first part
alone, and a write changes it by a function of itself. -/

/-- What a reader finds at each address. -/
abbrev Image := UInt16 → UInt8

/-- The word at an address of an image, low byte first. -/
def Image.wordAt (image : Image) (address : UInt16) : UInt16 :=
  word (image (address + 1)) (image address)

/-- Buses of which `held` is the part that decides every read. -/
class LawfulBus (β : Type) (γ : outParam Type) [Bus β] where
  /-- What a bus holds, apart from what it has observed of the traffic. -/
  held : β → γ
  /-- What a reader finds on a bus that holds the given contents. -/
  image : γ → Image
  /-- What is held after a byte has been written. -/
  put8 : UInt16 → UInt8 → γ → γ
  /-- What is held after a word has been written. -/
  put16 : UInt16 → UInt16 → γ → γ
  read8_value (address : UInt16) (bus : β) :
    ((Bus.read8 address : StateM β UInt8).run bus).1 = image (held bus) address
  read8_held (address : UInt16) (bus : β) :
    held ((Bus.read8 address : StateM β UInt8).run bus).2 = held bus
  read16_value (address : UInt16) (bus : β) :
    ((Bus.read16 address : StateM β UInt16).run bus).1 = (image (held bus)).wordAt address
  read16_held (address : UInt16) (bus : β) :
    held ((Bus.read16 address : StateM β UInt16).run bus).2 = held bus
  write8_held (address : UInt16) (value : UInt8) (bus : β) :
    held ((Bus.write8 address value : StateM β Unit).run bus).2 = put8 address value (held bus)
  write16_held (address value : UInt16) (bus : β) :
    held ((Bus.write16 address value : StateM β Unit).run bus).2 = put16 address value (held bus)
  report_held (record : Record) (bus : β) :
    held ((Bus.report record : StateM β Unit).run bus).2 = held bus

open LawfulBus

section

variable {β γ : Type} [Bus β] [LawfulBus β γ] {α δ : Type}

/-- What a reader finds on a bus. -/
def LawfulBus.view (bus : β) : Image :=
  image β (held bus)

theorem LawfulBus.view_eq_of_held_eq {bus bus' : β} (h : held bus = held bus') :
    view bus = view bus' :=
  congrArg (image β) h

/-! ### Computations that only observe -/

/-- A computation only observes a bus: what a reader finds decides its result,
    and what is held stays as it is. -/
def Observes (x : StateM β α) (value : Image → α) : Prop :=
  ∀ bus, (x.run bus).1 = value (view bus) ∧ held (x.run bus).2 = held bus

theorem Observes.pure (a : α) : Observes (pure a : StateM β α) (fun _ => a) := by
  intro bus
  exact ⟨rfl, rfl⟩

theorem Observes.bind {x : StateM β α} {value : Image → α} {y : α → StateM β δ}
    {next : α → Image → δ} (hx : Observes x value) (hy : ∀ a, Observes (y a) (next a)) :
    Observes (x >>= y) (fun view => next (value view) view) := by
  intro bus
  obtain ⟨hvalue, hheld⟩ := hx bus
  obtain ⟨hnext, hkept⟩ := hy (x.run bus).1 (x.run bus).2
  rw [StateT.run_bind]
  refine ⟨?_, ?_⟩
  · exact hnext.trans (by rw [hvalue, view_eq_of_held_eq hheld])
  · exact hkept.trans hheld

theorem Observes.ite {c : Prop} [Decidable c] {x y : StateM β α} {value other : Image → α}
    (hx : Observes x value) (hy : Observes y other) :
    Observes (if c then x else y) (fun view => if c then value view else other view) := by
  split
  · exact hx
  · exact hy

/-- What comes after an observation runs on a bus that holds the same. -/
theorem Observes.run_bind {x : StateM β α} {value : Image → α} (hx : Observes x value)
    (y : α → StateM β δ) (bus : β) :
    ∃ bus', held bus' = held bus ∧ (x >>= y).run bus = (y (value (view bus))).run bus' := by
  obtain ⟨hvalue, hheld⟩ := hx bus
  refine ⟨(x.run bus).2, hheld, ?_⟩
  rw [← hvalue]
  rfl

theorem observes_read8 (address : UInt16) :
    Observes (Bus.read8 address : StateM β UInt8) (fun view => view address) :=
  fun bus => ⟨read8_value address bus, read8_held address bus⟩

theorem observes_read16 (address : UInt16) :
    Observes (Bus.read16 address : StateM β UInt16) (fun view => view.wordAt address) :=
  fun bus => ⟨read16_value address bus, read16_held address bus⟩

theorem observes_report (record : Record) :
    Observes (Bus.report record : StateM β Unit) (fun _ => ()) :=
  fun bus => ⟨rfl, report_held record bus⟩

/-! ### Actions -/

/-- What is held after an action. -/
def Action.put (action : Action) (h : γ) : γ :=
  match action with
  | .write8 address value => put8 β address value h
  | .write16 address value => put16 β address value h
  | .report _ => h

/-- What is held after several actions. -/
def putAll (actions : List Action) (h : γ) : γ :=
  actions.foldl (fun h action => action.put (β := β) h) h

theorem perform_held (action : Action) (bus : β) :
    held ((action.perform).run bus).2 = action.put (β := β) (held bus) := by
  cases action with
  | write8 address value => exact write8_held address value bus
  | write16 address value => exact write16_held address value bus
  | report record => exact report_held record bus

theorem performAll_held (actions : List Action) (bus : β) :
    held ((performAll actions).run bus).2 = putAll (β := β) actions (held bus) := by
  induction actions generalizing bus with
  | nil => rfl
  | cons action rest ih =>
    rw [performAll, StateT.run_bind]
    refine (ih _).trans ?_
    rw [perform_held]
    rfl

end

/-! ### The flat bus -/

instance : LawfulBus FlatBus Memory where
  held := FlatBus.memory
  image := Memory.get
  put8 address value memory := memory.set address value
  put16 address value memory :=
    (memory.set (address + 1) (hiByte value)).set address (loByte value)
  read8_value _ _ := rfl
  read8_held _ _ := rfl
  read16_value _ _ := rfl
  read16_held _ _ := rfl
  write8_held _ _ _ := rfl
  write16_held _ _ _ := rfl
  report_held _ _ := rfl

/-! ### The address space

What listeners have heard and the journal are observations. Everything else is
held, the write log included. -/

namespace AddressSpace

/-- The space with nothing heard and an empty journal. -/
def quiet (s : AddressSpace) : AddressSpace :=
  { s with heard := #[], journal := {} }

@[simp] theorem accessLog_quiet (s : AddressSpace) : s.quiet.accessLog = s.accessLog := rfl
@[simp] theorem logsWrites_quiet (s : AddressSpace) : s.quiet.logsWrites = s.logsWrites := rfl

@[simp] theorem peek_notify (s : AddressSpace) (kind : EventKind) (address other : UInt16)
    (byte : UInt8) (value : UInt16) :
    (s.notify kind address byte value).peek other = s.peek other := by
  simp only [peek, store_notify]

theorem quiet_notify (s : AddressSpace) (kind : EventKind) (address : UInt16) (byte : UInt8)
    (value : UInt16) :
    (s.notify kind address byte value).quiet = (s.quiet.notify kind address byte value).quiet := by
  unfold notify
  rw [logsWrites_quiet]
  split <;> rfl

/-- Telling listeners of a read changes nothing that is held. -/
theorem quiet_notify_of_not_hit (s : AddressSpace) (kind : EventKind) (address : UInt16)
    (byte : UInt8) (value : UInt16)
    (h : (Event.mk kind address byte value s.store).hitsDivider = false) :
    (s.notify kind address byte value).quiet = s.quiet := by
  unfold notify
  split
  · rfl
  · simp only [quiet, h, Bool.or_false]

theorem quiet_logAccess (s : AddressSpace) (access : Access) :
    (s.logAccess access).quiet = (s.quiet.logAccess access).quiet := by
  unfold logAccess
  rw [accessLog_quiet]
  split <;> rfl

theorem quiet_putByte (s : AddressSpace) (address : UInt16) (value : UInt8) :
    (s.putByte address value).quiet = (s.quiet.putByte address value).quiet := by
  cases h : s.logsWrites with
  | true =>
    simp only [putByte, logsWrites_quiet, h, if_true]
    exact quiet_logAccess ..
  | false =>
    simp only [putByte, logsWrites_quiet, h]
    rfl

theorem quiet_writeByte (s : AddressSpace) (address : UInt16) (value : UInt8) :
    (s.writeByte address value).quiet = (s.quiet.writeByte address value).quiet := by
  unfold writeByte
  rw [quiet_putByte, quiet_notify, ← quiet_putByte]

theorem quiet_writeWord (s : AddressSpace) (address value : UInt16) :
    (s.writeWord address value).quiet = (s.quiet.writeWord address value).quiet := by
  unfold writeWord
  rw [quiet_putByte, quiet_putByte (notify ..), quiet_notify, ← quiet_putByte (notify ..),
    ← quiet_putByte]

instance : LawfulBus AddressSpace AddressSpace where
  held := quiet
  image := peek
  put8 address value s := (s.writeByte address value).quiet
  put16 address value s := (s.writeWord address value).quiet
  read8_value _ _ := rfl
  read8_held address s := quiet_notify_of_not_hit s _ _ _ _ rfl
  read16_value address s := by
    change word ((s.notify ..).peek (address + 1)) (s.peek address) = _
    rw [peek_notify]
    rfl
  read16_held address s := by
    change (((s.notify ..).notify ..).notify ..).quiet = _
    rw [quiet_notify_of_not_hit _ _ _ _ _ rfl, quiet_notify_of_not_hit _ _ _ _ _ rfl,
      quiet_notify_of_not_hit _ _ _ _ _ rfl]
  write8_held address value s := quiet_writeByte s address value
  write16_held address value s := quiet_writeWord s address value
  report_held _ _ := rfl

end AddressSpace

end Handheld
