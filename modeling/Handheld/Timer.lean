-- SUMMARY: The divider and the timer, as an automaton over the timer's memory-mapped registers.
import Handheld.AddressSpace.Basic

namespace Handheld

/-! ## The timer

A hidden 16-bit counter runs at one count per machine cycle. Its bits 13 to 6 are
the divider register. The timer's own counter goes up whenever its input falls,
where the input is a bit of the hidden counter, chosen by the control register,
and zero while the timer is disabled. When the counter overflows it stays zero
for one cycle; then it restarts from the modulo and requests an interrupt. -/

/-- The hidden state of the timer. -/
structure Timer where
  /-- The system counter. -/
  counter : UInt16 := 0
  /-- Whether the timer's counter overflowed in the previous cycle. -/
  reloadDue : Bool := false
  /-- The control register as the timer last saw it. -/
  lastControl : UInt8 := 0
deriving DecidableEq, Repr, Inhabited

/-- The registers that the timer shares with programs. -/
structure TimerRegisters where
  /-- The timer's counter. -/
  count : UInt8
  modulo : UInt8
  control : UInt8
  /-- The interrupt requests. -/
  requests : UInt8
deriving DecidableEq, Repr

namespace Timer

/-- The system counter when the boot program hands over; the divider then reads `0xAB`. -/
def postBootCounter : UInt16 := 0x2AC0

/-- The bit of the system counter that a control value selects. -/
def selectedBit (control : UInt8) : UInt16 :=
  match (control &&& 3).toNat with
  | 0 => 0x80
  | 1 => 0x02
  | 2 => 0x08
  | _ => 0x20

/-- The timer's input under a control value and a system counter. -/
def input (control : UInt8) (counter : UInt16) : Bool :=
  control &&& 4 != 0 && counter &&& selectedBit control != 0

/-- The divider register. -/
def divider (t : Timer) : UInt8 :=
  (t.counter >>> 6).toUInt8

/-! ### Events -/

/-- Counts one fall of the input. -/
def count (t : Timer) (r : TimerRegisters) : Timer × TimerRegisters :=
  ({ t with reloadDue := t.reloadDue || r.count == 0xFF }, { r with count := r.count + 1 })

/-- Counts if the input was high and is low. -/
def countIfFell (before after : Bool) (t : Timer) (r : TimerRegisters) : Timer × TimerRegisters :=
  if before && !after then t.count r else (t, r)

/-- A store to the divider restarts the system counter. -/
def restart (t : Timer) (r : TimerRegisters) : Timer × TimerRegisters :=
  let (next, r) := countIfFell (input r.control t.counter) false t r
  ({ next with counter := 0 }, r)

/-- A changed control value takes effect. -/
def adopt (t : Timer) (r : TimerRegisters) : Timer × TimerRegisters :=
  let (next, r) := countIfFell (input t.lastControl t.counter) (input r.control t.counter) t r
  ({ next with lastControl := r.control }, r)

/-- Catches up with the stores made since the timer last ran. -/
def sync (dividerHit : Bool) (t : Timer) (r : TimerRegisters) : Timer × TimerRegisters :=
  let (t, r) := if dividerHit then t.restart r else (t, r)
  t.adopt r

/-- One machine cycle. -/
def tick (t : Timer) (r : TimerRegisters) : Timer × TimerRegisters :=
  let next := { t with counter := t.counter + 1 }
  if t.reloadDue then
    ({ next with reloadDue := false },
      { r with count := r.modulo, requests := r.requests ||| Interrupts.timer })
  else countIfFell (input r.control t.counter) (input r.control next.counter) next r

/-- Several machine cycles. -/
def ticks : Nat → Timer → TimerRegisters → Timer × TimerRegisters
  | 0, t, r => (t, r)
  | n + 1, t, r =>
    let (t, r) := t.tick r
    ticks n t r

/-! ### In the address space -/

/-- The timer's registers as they stand in memory. -/
def registers (s : AddressSpace) : TimerRegisters where
  count := s.peek Hardware.timerCounter
  modulo := s.peek Hardware.timerModulo
  control := s.peek Hardware.timerControl
  requests := s.peek Hardware.interruptFlags

/-- Shows the divider register in memory. -/
def publish (t : Timer) (s : AddressSpace) : AddressSpace :=
  s.poke Hardware.divider t.divider

/-- Starts the timer over with the given system counter, taking the control value
    in memory as already seen. -/
def start (counter : UInt16) (s : AddressSpace) : Timer × AddressSpace :=
  let t : Timer := { counter, lastControl := s.peek Hardware.timerControl }
  (t, t.publish { s with dividerHit := false })

/-- Lets machine cycles pass: catches up with stores, counts, and shows the result in memory. -/
def advance (cycles : Nat) (t : Timer) (s : AddressSpace) : Timer × AddressSpace :=
  let (t, r) := t.sync s.dividerHit (registers s)
  let (t, r) := ticks cycles t r
  let s := { s with dividerHit := false }
  (t, t.publish ((s.poke Hardware.timerCounter r.count).poke Hardware.interruptFlags r.requests))

end Timer

end Handheld
