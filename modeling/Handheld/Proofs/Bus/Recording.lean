-- SUMMARY: A bus that records every access to it, and runs of calls on buses that no access can tell apart.
import Handheld.Proofs.Bus.ByteBus
import Handheld.Proofs.Bus.Map

namespace Handheld

/-! ## The recording bus

A byte for every address, with the rule for the divider, and a list of all
accesses. The bytes are not stored: they follow from the accesses and from the
memory that the bus starts with. -/

/-- One access to a bus. -/
inductive BusAccess where
  | read8 (address : UInt16)
  | read16 (address : UInt16)
  | write8 (address : UInt16) (value : UInt8)
  | write16 (address value : UInt16)
deriving DecidableEq, Repr

/-- The bytes that an access puts at addresses, in order. -/
def BusAccess.stores : BusAccess → List (UInt16 × UInt8)
  | read8 _ | read16 _ => []
  | write8 address value => [(address, value)]
  | write16 address value => [(address + 1, hiByte value), (address, loByte value)]

/-- The memory after several accesses. -/
def Memory.accessAll (image : Memory) (accesses : List BusAccess) : Memory :=
  image.setAll (accesses.flatMap BusAccess.stores)

/-- The accesses since the memory was `image`, oldest first. -/
structure RecordingBus (image : Memory) where
  accesses : List BusAccess := []

namespace RecordingBus

variable {image : Memory}

/-- The memory as the accesses have left it. -/
def memory (bus : RecordingBus image) : Memory :=
  image.accessAll bus.accesses

/-- Records one more access. -/
def record (bus : RecordingBus image) (access : BusAccess) : RecordingBus image where
  accesses := bus.accesses ++ [access]

instance : Bus (RecordingBus image) where
  read8 address := fun bus => (bus.memory.get address, bus.record (.read8 address))
  read16 address := fun bus =>
    (word (bus.memory.get (address + 1)) (bus.memory.get address), bus.record (.read16 address))
  write8 address value := modify (·.record (.write8 address value))
  write16 address value := modify (·.record (.write16 address value))
  report _ := pure ()

theorem memory_record (bus : RecordingBus image) (access : BusAccess) :
    (bus.record access).memory = bus.memory.setAll access.stores := by
  simp [memory, record, Memory.accessAll, Memory.setAll_append]

end RecordingBus

/-! ## Calls on related buses -/

/-- The same answer, the same processor, and related buses. -/
structure Call.Moment.Matches {β β' : Type} (R : β → β' → Prop) (m : Moment β) (m' : Moment β') :
    Prop where
  answer : m'.answer = m.answer
  cpu : m'.cpu = m.cpu
  bus : R m.bus m'.bus

namespace BusRelation

variable {β β' : Type} [Bus β] [Bus β'] {R : β → β' → Prop} (hR : BusRelation R)

include hR

theorem perform (call : Call) (cpu : Cpu) : Relates R (call.perform cpu) (call.perform cpu) := by
  cases call with
  | step => exact (hR.step cpu).bind fun _ => .pure _
  | service => exact (hR.serviceInterrupt cpu).bind fun _ => .pure _
  | wake => exact (hR.wakeIfPending cpu).bind fun _ => .pure _
  | pending => exact hR.pendingInterrupts.bind fun _ => .pure _
  | read8 address => exact (hR.read8 address).bind fun _ => .pure _
  | read16 address => exact (hR.read16 address).bind fun _ => .pure _
  | write8 address value => exact (hR.write8 address value).bind fun _ => .pure _
  | write16 address value => exact (hR.write16 address value).bind fun _ => .pure _

/-- Calls go the same way on related buses. -/
theorem history (calls : List Call) (cpu : Cpu) {bus : β} {bus' : β'} (h : R bus bus') :
    List.Forall₂ (Call.Moment.Matches R) (Call.history cpu bus calls)
      (Call.history cpu bus' calls) := by
  induction calls generalizing cpu bus bus' with
  | nil => exact .nil
  | cons call rest ih =>
    obtain ⟨hvalue, hleft⟩ := hR.perform call cpu bus bus' h
    rcases hrun : (call.perform cpu).run bus with ⟨⟨answer, cpu₁⟩, bus₁⟩
    rcases hrun' : (call.perform cpu).run bus' with ⟨⟨answer', cpu₁'⟩, bus₁'⟩
    rw [hrun, hrun'] at hvalue hleft
    cases hvalue
    rw [Call.history, Call.history, hrun, hrun']
    exact .cons ⟨rfl, rfl, hleft⟩ (ih cpu₁ hleft)

end BusRelation

end Handheld
