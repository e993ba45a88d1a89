-- SUMMARY: Where the bytes of an address space live: a memory of its own, or a borrowed buffer that never changes.
import Handheld.Memory

namespace Handheld

/-! ## Stores

An owned store is a full memory. A borrowed store is a window on somebody else's
bytes: it ends at a limit, reads as open bus past it, and cannot be changed. -/

/-- The value of a read past the end of a store. -/
def openBus : UInt8 := 0xAA

/-- The bytes behind an address space. -/
inductive Store where
  | owned (memory : Memory)
  | borrowed (buffer : ByteArray) (limit : Nat) (limit_le : limit ≤ buffer.size)

namespace Store

instance : Inhabited Store := ⟨owned .zero⟩

/-- The window on the first `size` bytes of a buffer, or on all of it if it is shorter. -/
def borrow (size : Nat) (buffer : ByteArray) : Store :=
  borrowed buffer (min size buffer.size) (Nat.min_le_right ..)

def isBorrowed : Store → Bool
  | owned _ => false
  | borrowed .. => true

/-- The number of addresses, from zero, that hold a byte. -/
def size : Store → Nat
  | owned _ => memorySize
  | borrowed _ limit _ => limit

/-- All bytes behind the store, those past its limit included. -/
def bytes : Store → ByteArray
  | owned memory => memory.bytes
  | borrowed buffer _ _ => buffer

/-- The byte at an address, open bus past the limit. -/
def peek (store : Store) (address : UInt16) : UInt8 :=
  match store with
  | owned memory => memory.get address
  | borrowed buffer limit limit_le =>
    if h : address.toNat < limit then buffer.get address.toNat (Nat.lt_of_lt_of_le h limit_le)
    else openBus

/-- The byte behind an address, if the backing bytes reach that far. -/
def behind? (store : Store) (address : UInt16) : Option UInt8 :=
  if h : address.toNat < store.bytes.size then some (store.bytes.get address.toNat h) else none

/-- The store after a byte has been changed; a borrowed store keeps its bytes. -/
def poke (store : Store) (address : UInt16) (value : UInt8) : Store :=
  match store with
  | owned memory => owned (memory.set address value)
  | borrowed buffer limit limit_le => borrowed buffer limit limit_le

/-- The store after bytes have been copied in; a borrowed store keeps its bytes. -/
def load (store : Store) (base : UInt16) (data : ByteArray) : Store :=
  match store with
  | owned memory => owned (memory.load base data)
  | borrowed buffer limit limit_le => borrowed buffer limit limit_le

@[simp] theorem peek_owned (memory : Memory) (address : UInt16) :
    (owned memory).peek address = memory.get address := rfl

@[simp] theorem poke_owned (memory : Memory) (address : UInt16) (value : UInt8) :
    (owned memory).poke address value = owned (memory.set address value) := rfl

@[simp] theorem isBorrowed_poke (store : Store) (address : UInt16) (value : UInt8) :
    (store.poke address value).isBorrowed = store.isBorrowed := by
  cases store <;> rfl

end Store

end Handheld
