-- SUMMARY: Sets of interrupt sources, their priority and their handler addresses.

namespace Handheld

/-! ## Interrupt sources

A byte holds a set of sources, one per bit. Bits 0 to 4 are the vertical blank,
the display status, the timer, the serial link and the joypad; a lower bit has
priority over a higher one. -/

/-- A set of interrupt sources. -/
structure Interrupts where
  bits : UInt8
deriving DecidableEq, Repr

namespace Interrupts

/-- The bits that stand for a source. -/
def sources : UInt8 := 0x1F

/-- The set that a byte holds, without the bits that stand for no source. -/
def ofByte (b : UInt8) : Interrupts := ⟨b &&& sources⟩

/-- The bit of the timer. -/
def timer : UInt8 := 0x04

/-- The number of the lowest bit in the set. -/
def lowest? (s : Interrupts) : Option Nat :=
  (List.range 8).find? (s.bits.toNat.testBit ·)

/-- The set of the one source with the given bit number. -/
def single (bit : Nat) : Interrupts := ⟨1 <<< UInt8.ofNat bit⟩

/-- The source with the highest priority, as a set of its own. -/
def highest? (s : Interrupts) : Option Interrupts :=
  s.lowest?.map single

/-- The handler of the source with the given bit number. -/
def handler (bit : Nat) : UInt16 := 0x40 + 8 * UInt16.ofNat bit

/-- The handler of the highest-priority source; the empty set counts as bit 8. -/
def vector (s : Interrupts) : UInt16 :=
  handler (s.lowest?.getD 8)

/-- The names of the sources in the order of their bits. -/
def names : List String := ["VBLANK", "LCD_STAT", "TIMER", "SERIAL", "JOYPAD"]

/-- The name of the source with the given bit number. -/
def name (bit : Nat) : String := names[bit]?.getD ""

end Interrupts

end Handheld
