-- SUMMARY: The plainest bus: a memory that stores what it is given and records the traffic.
import Handheld.Bus
import Handheld.Memory

namespace Handheld

/-! ## The flat bus

Only byte accesses are defined, so word accesses are the two byte accesses that
every bus has by default. -/

/-- A memory with a record of the byte accesses made to it. -/
structure FlatBus where
  memory : Memory := .zero
  /-- The byte accesses so far, oldest first. -/
  traffic : Array Access := #[]
  journal : Journal := {}

namespace FlatBus

/-- The byte at an address; the access joins the traffic. -/
def read8 (address : UInt16) : StateM FlatBus UInt8 := fun bus =>
  let value := bus.memory.get address
  (value, { bus with traffic := bus.traffic.push ⟨.read, address, value⟩ })

/-- Stores a byte; the access joins the traffic. -/
def write8 (address : UInt16) (value : UInt8) : StateM FlatBus Unit :=
  modify fun bus =>
    { bus with
      memory := bus.memory.set address value
      traffic := bus.traffic.push ⟨.write, address, value⟩ }

instance : Bus FlatBus where
  read8 := read8
  write8 := write8
  report record := modify fun bus => { bus with journal := bus.journal.add record }

end FlatBus

end Handheld
