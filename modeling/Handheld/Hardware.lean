-- SUMMARY: Addresses of the memory-mapped registers and the constants that belong to them.

namespace Handheld.Hardware

/-! ## Memory-mapped registers

Interrupts, timer, serial link and boot switch are reached through ordinary
addresses at the top of memory. -/

/-- Serial transfer data. -/
def serialData : UInt16 := 0xFF01

/-- Serial transfer control. -/
def serialControl : UInt16 := 0xFF02

/-- The control value that starts a transfer on the internal clock. -/
def serialStart : UInt8 := 0x81

/-- The divider. Any store to it leaves zero. -/
def divider : UInt16 := 0xFF04

/-- The timer's counter. -/
def timerCounter : UInt16 := 0xFF05

/-- The value that the timer's counter restarts from. -/
def timerModulo : UInt16 := 0xFF06

/-- Timer control: bit 2 enables the timer, bits 1 and 0 choose its rate. -/
def timerControl : UInt16 := 0xFF07

/-- Requested interrupts. -/
def interruptFlags : UInt16 := 0xFF0F

/-- The display line being drawn. -/
def scanline : UInt16 := 0xFF44

/-- The line reported to programs that wait for the vertical blank without a display. -/
def scanlineInBlank : UInt8 := 0x90

/-- The boot switch: a store here unmaps the boot program. -/
def bootOff : UInt16 := 0xFF50

/-- Enabled interrupts. -/
def interruptEnable : UInt16 := 0xFFFF

/-- The address that a one-byte offset names: the page from `0xFF00` up. -/
def ofOffset (offset : UInt8) : UInt16 := 0xFF00 ||| offset.toUInt16

end Handheld.Hardware
