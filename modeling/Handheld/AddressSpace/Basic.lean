-- SUMMARY: The address space: a store with listeners, a write log and the rule for the divider.
import Handheld.AddressSpace.AccessLog
import Handheld.AddressSpace.Event
import Handheld.Bus

namespace Handheld

/-! ## The address space

A write goes either to the store or, while writes are logged, to the access log
and never to both. Events are raised only while writes are not logged. A store
to the divider leaves zero whatever its value. Peripherals look at the bytes
directly with `peek` and `poke`, past all of these rules. -/

/-- Memory as the processor and the peripherals share it. -/
structure AddressSpace where
  store : Store := .owned .zero
  /-- The switch that sends writes to the log. -/
  logSwitch : Bool := false
  accessLog : AccessLog := {}
  /-- The listeners in the order of their registration. -/
  listeners : List Listener := []
  /-- What listeners have heard, oldest first. -/
  heard : Array Sighting := #[]
  /-- Whether a store has hit the divider since the timer last looked. -/
  dividerHit : Bool := false
  journal : Journal := {}

namespace AddressSpace

instance : Inhabited AddressSpace := ⟨{}⟩

/-- A space over the first `size` bytes of a buffer that must not change. -/
def borrow (size : Nat) (buffer : ByteArray) : AddressSpace where
  store := .borrow size buffer

/-- Whether writes go to the log; over a borrowed store they always do. -/
def logsWrites (s : AddressSpace) : Bool :=
  s.logSwitch || s.store.isBorrowed

/-- Registers a listener. -/
def listen (s : AddressSpace) (listener : Listener) : AddressSpace :=
  { s with listeners := s.listeners ++ [listener] }

/-- The byte at an address, seen by nobody. -/
def peek (s : AddressSpace) (address : UInt16) : UInt8 :=
  s.store.peek address

/-- Changes a byte past events, log and divider rule. -/
def poke (s : AddressSpace) (address : UInt16) (value : UInt8) : AddressSpace :=
  { s with store := s.store.poke address value }

/-- Copies bytes into the store past events, log and divider rule. -/
def load (s : AddressSpace) (base : UInt16) (data : ByteArray) : AddressSpace :=
  { s with store := s.store.load base data }

/-! ### Events -/

/-- What listeners have heard once an event has reached those that subscribe to it. -/
def deliver (event : Event) (listeners : List Listener) (heard : Array Sighting) : Array Sighting :=
  listeners.foldl (fun heard listener =>
    if listener.hears event then heard.push ⟨listener.tag, event⟩ else heard) heard

/-- Tells the listeners of an access that is about to take effect, unless writes are logged. -/
def notify (s : AddressSpace) (kind : EventKind) (address : UInt16) (byte : UInt8) (word : UInt16) :
    AddressSpace :=
  if s.logsWrites then s
  else
    let event : Event := ⟨kind, address, byte, word, s.store⟩
    { s with
      heard := deliver event s.listeners s.heard
      dividerHit := s.dividerHit || event.hitsDivider }

/-! ### Reading -/

/-- Reads a byte. -/
def readByte (address : UInt16) : StateM AddressSpace UInt8 := fun s =>
  let value := s.peek address
  (value, s.notify .readByte address value 0)

/-- Reads the low byte and then the high byte of a word. -/
def readWord (address : UInt16) : StateM AddressSpace UInt16 := do
  let lo ← readByte address
  let hi ← readByte (address + 1)
  let value := word hi lo
  modify (·.notify .readWord address 0 value)
  return value

/-! ### Writing -/

/-- The byte that a write leaves at an address: zero at the divider. -/
def settled (address : UInt16) (value : UInt8) : UInt8 :=
  if address = Hardware.divider then 0 else value

/-- Appends an access to the log, or reports that the log is full. -/
def logAccess (s : AddressSpace) (access : Access) : AddressSpace :=
  match s.accessLog.push? access with
  | some log => { s with accessLog := log }
  | none => { s with journal := s.journal.add (.accessDropped access) }

/-- Carries out the write of one byte, to the log or to the store. -/
def putByte (s : AddressSpace) (address : UInt16) (value : UInt8) : AddressSpace :=
  let value := settled address value
  if s.logsWrites then s.logAccess ⟨.write, address, value⟩ else s.poke address value

/-- Writes a byte. -/
def writeByte (s : AddressSpace) (address : UInt16) (value : UInt8) : AddressSpace :=
  (s.notify .writeByte address (settled address value) 0).putByte address value

/-- Writes the high byte and then the low byte of a word. Listeners to words hear
    of it once; listeners to bytes do not. -/
def writeWord (s : AddressSpace) (address value : UInt16) : AddressSpace :=
  ((s.notify .writeWord address 0 value).putByte (address + 1) (hiByte value)).putByte
    address (loByte value)

instance : Bus AddressSpace where
  read8 := readByte
  read16 := readWord
  write8 address value := modify (·.writeByte address value)
  write16 address value := modify (·.writeWord address value)
  report record := modify fun s => { s with journal := s.journal.add record }

/-! ### Small facts -/

@[simp] theorem store_poke (s : AddressSpace) (address : UInt16) (value : UInt8) :
    (s.poke address value).store = s.store.poke address value := rfl

@[simp] theorem store_notify (s : AddressSpace) (kind : EventKind) (address : UInt16) (byte : UInt8)
    (word : UInt16) : (s.notify kind address byte word).store = s.store := by
  simp only [notify]
  split <;> rfl

@[simp] theorem logsWrites_notify (s : AddressSpace) (kind : EventKind) (address : UInt16)
    (byte : UInt8) (word : UInt16) :
    (s.notify kind address byte word).logsWrites = s.logsWrites := by
  unfold notify
  split <;> rfl

end AddressSpace

end Handheld
