-- SUMMARY: Memory events, the listeners that subscribe to them, and what listeners hear.
import Handheld.AddressSpace.Store
import Handheld.Hardware

namespace Handheld

/-! ## Events

An event tells of one access and shows the store as it is before the access
takes effect. -/

/-- The kinds of access that can be listened to. -/
inductive EventKind where
  | readByte | readWord | writeByte | writeWord
deriving DecidableEq, Repr

/-- One access to memory. -/
structure Event where
  kind : EventKind
  address : UInt16
  /-- The byte read or stored; zero for word accesses. -/
  byte : UInt8
  /-- The word read or written; zero for byte accesses. -/
  word : UInt16
  /-- The store before the access. -/
  store : Store

namespace Event

/-- Whether the access puts a byte at the divider's address. -/
def hitsDivider (event : Event) : Bool :=
  match event.kind with
  | .writeByte => event.address == Hardware.divider
  | .writeWord => event.address == Hardware.divider || event.address + 1 == Hardware.divider
  | _ => false

end Event

/-! ## Listeners -/

/-- A subscription to one kind of event. -/
structure Listener where
  /-- Tells listeners apart. -/
  tag : Nat
  kind : EventKind
  /-- With an address and a byte, only events at that address with that byte are heard. -/
  only : Option (UInt16 × UInt8) := none
deriving DecidableEq, Repr

namespace Listener

/-- Whether a listener hears an event. -/
def hears (listener : Listener) (event : Event) : Bool :=
  listener.kind == event.kind &&
    match listener.only with
    | none => true
    | some (address, byte) => event.address == address && event.byte == byte

end Listener

/-- An event as one listener heard it. -/
structure Sighting where
  tag : Nat
  event : Event

end Handheld
