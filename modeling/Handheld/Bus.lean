-- SUMMARY: What the processor needs of the memory it is connected to.
import Handheld.Journal

namespace Handheld

/-! ## Buses

The processor reaches memory only through a bus, whose state changes with every
access because it may count, record or react. A bus also carries the journal, so
that what the processor and the memory report stays in one order. -/

/-- Types that the processor can be connected to. Word accesses have a default in
    terms of byte accesses: low byte first when reading, high byte first when
    writing. -/
class Bus (β : Type) where
  read8 (address : UInt16) : StateM β UInt8
  write8 (address : UInt16) (value : UInt8) : StateM β Unit
  read16 (address : UInt16) : StateM β UInt16 := do
    let lo ← read8 address
    let hi ← read8 (address + 1)
    return word hi lo
  write16 (address value : UInt16) : StateM β Unit := do
    write8 (address + 1) (hiByte value)
    write8 address (loByte value)
  report (record : Record) : StateM β Unit

end Handheld
