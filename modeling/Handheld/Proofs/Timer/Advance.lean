-- SUMMARY: What the timer keeps while it runs, and what memory reads as once it has advanced.
import Handheld.Proofs.AddressSpace.Stores
import Handheld.Timer

namespace Handheld

namespace Timer

/-! ## Control and modulo -/

/-- What no fall of the input changes: the control value last seen, the one in the register, and
    the modulo. -/
def setup (p : Timer × TimerRegisters) : UInt8 × UInt8 × UInt8 :=
  (p.1.lastControl, p.2.control, p.2.modulo)

theorem setup_countIfFell (before after : Bool) (t : Timer) (r : TimerRegisters) :
    setup (countIfFell before after t r) = setup (t, r) := by
  unfold countIfFell
  split <;> rfl

theorem setup_restart (t : Timer) (r : TimerRegisters) : setup (t.restart r) = setup (t, r) :=
  setup_countIfFell ..

theorem setup_adopt (t : Timer) (r : TimerRegisters) :
    setup (t.adopt r) = (r.control, r.control, r.modulo) :=
  congrArg (fun kept => (kept.2.1, kept.2)) (setup_countIfFell _ _ t r)

theorem setup_sync (hit : Bool) (t : Timer) (r : TimerRegisters) :
    setup (t.sync hit r) = (r.control, r.control, r.modulo) := by
  cases hit with
  | false => exact setup_adopt t r
  | true =>
    have hkept := setup_restart t r
    exact (setup_adopt _ _).trans (congrArg (fun kept => (kept.2.1, kept.2)) hkept)

theorem setup_tick (t : Timer) (r : TimerRegisters) : setup (t.tick r) = setup (t, r) := by
  unfold tick
  split
  · rfl
  · exact setup_countIfFell ..

theorem setup_ticks (n : Nat) (t : Timer) (r : TimerRegisters) :
    setup (ticks n t r) = setup (t, r) := by
  induction n generalizing t r with
  | zero => rfl
  | succ n ih => exact (ih _ _).trans (setup_tick t r)

/-! ## Requests -/

theorem requests_countIfFell (before after : Bool) (t : Timer) (r : TimerRegisters) :
    (countIfFell before after t r).2.requests = r.requests := by
  unfold countIfFell
  split <;> rfl

theorem requests_sync (hit : Bool) (t : Timer) (r : TimerRegisters) :
    (t.sync hit r).2.requests = r.requests := by
  cases hit with
  | false => exact requests_countIfFell ..
  | true => exact (requests_countIfFell ..).trans (requests_countIfFell ..)

/-- How many of some cycles restart the timer's counter from the modulo. -/
def reloads : Nat → Timer → TimerRegisters → Nat
  | 0, _, _ => 0
  | n + 1, t, r => t.reloadDue.toNat + reloads n (t.tick r).1 (t.tick r).2

theorem requests_tick (t : Timer) (r : TimerRegisters) :
    (t.tick r).2.requests =
      if t.reloadDue then r.requests ||| Interrupts.timer else r.requests := by
  unfold tick
  cases t.reloadDue with
  | true => rfl
  | false => exact requests_countIfFell ..

/-- The timer never takes a request back, and the only one that it makes is its own, when its
    counter restarts. -/
theorem requests_ticks (cycles : Nat) (t : Timer) (r : TimerRegisters) :
    (ticks cycles t r).2.requests =
      if 0 < reloads cycles t r then r.requests ||| Interrupts.timer else r.requests := by
  induction cycles generalizing t r with
  | zero => rfl
  | succ cycles ih =>
    change (ticks cycles (t.tick r).1 (t.tick r).2).2.requests = _
    rw [ih, requests_tick, reloads]
    cases t.reloadDue with
    | false => simp
    | true => simp [UInt8.or_assoc]

/-! ## The system counter -/

theorem counter_countIfFell (before after : Bool) (t : Timer) (r : TimerRegisters) :
    (countIfFell before after t r).1.counter = t.counter := by
  unfold countIfFell
  split <;> rfl

theorem counter_sync (hit : Bool) (t : Timer) (r : TimerRegisters) :
    (t.sync hit r).1.counter = if hit then 0 else t.counter := by
  cases hit with
  | false => exact counter_countIfFell ..
  | true => exact counter_countIfFell ..

theorem counter_tick (t : Timer) (r : TimerRegisters) :
    (t.tick r).1.counter = t.counter + 1 := by
  unfold tick
  split
  · rfl
  · exact counter_countIfFell ..

/-- The system counter counts every cycle, whatever the timer's own counter does. -/
theorem counter_ticks (cycles : Nat) (t : Timer) (r : TimerRegisters) :
    (ticks cycles t r).1.counter = t.counter + UInt16.ofNat cycles := by
  induction cycles generalizing t r with
  | zero => exact (UInt16.add_zero _).symm
  | succ cycles ih =>
    change (ticks cycles (t.tick r).1 (t.tick r).2).1.counter = _
    rw [ih, counter_tick, UInt16.add_assoc, UInt16.ofNat_add, UInt16.add_comm 1]
    rfl

/-! ## In the address space

The timer pokes three addresses: its own counter, the interrupt requests and the
divider. Everything else reads as before. -/

/-- The timer and its registers after some cycles, before they are shown in memory. -/
def advanced (cycles : Nat) (t : Timer) (s : AddressSpace) : Timer × TimerRegisters :=
  ticks cycles (t.sync s.dividerHit (registers s)).1 (t.sync s.dividerHit (registers s)).2

theorem advance_fst (cycles : Nat) (t : Timer) (s : AddressSpace) :
    (advance cycles t s).1 = (advanced cycles t s).1 := rfl

theorem advance_snd (cycles : Nat) (t : Timer) (s : AddressSpace) :
    (advance cycles t s).2 =
      ((({ s with dividerHit := false }).poke Hardware.timerCounter
        (advanced cycles t s).2.count).poke Hardware.interruptFlags
          (advanced cycles t s).2.requests).poke Hardware.divider
            (advanced cycles t s).1.divider := rfl

theorem setup_advanced (cycles : Nat) (t : Timer) (s : AddressSpace) :
    setup (advanced cycles t s) =
      (s.peek Hardware.timerControl, s.peek Hardware.timerControl, s.peek Hardware.timerModulo) :=
  (setup_ticks ..).trans (setup_sync ..)

theorem peek_advance_of_ne (cycles : Nat) (t : Timer) (s : AddressSpace) {address : UInt16}
    (hcount : address ≠ Hardware.timerCounter) (hrequests : address ≠ Hardware.interruptFlags)
    (hdivider : address ≠ Hardware.divider) :
    (advance cycles t s).2.peek address = s.peek address := by
  rw [advance_snd, AddressSpace.peek_poke_of_ne _ _ hdivider,
    AddressSpace.peek_poke_of_ne _ _ hrequests, AddressSpace.peek_poke_of_ne _ _ hcount]
  rfl

/-- The memory after the timer has advanced. -/
theorem holds_advance (cycles : Nat) (t : Timer) {s : AddressSpace} {memory : Memory}
    (h : s.Holds memory) :
    (advance cycles t s).2.Holds
      (((memory.set Hardware.timerCounter (advanced cycles t s).2.count).set
        Hardware.interruptFlags (advanced cycles t s).2.requests).set Hardware.divider
          (advanced cycles t s).1.divider) := by
  have hquiet : ({ s with dividerHit := false } : AddressSpace).Holds memory :=
    ⟨h.store_eq, h.logSwitch_eq⟩
  rw [advance_snd]
  exact ((hquiet.poke _ _).poke _ _).poke _ _

theorem registers_advance (cycles : Nat) (t : Timer) {s : AddressSpace} {memory : Memory}
    (h : s.Holds memory) :
    registers (advance cycles t s).2 = (advanced cycles t s).2 := by
  have hheld := holds_advance cycles t h
  have hcount : (advance cycles t s).2.peek Hardware.timerCounter =
      (advanced cycles t s).2.count := by
    rw [hheld.peek, Memory.get_set_of_ne _ _ (by decide), Memory.get_set_of_ne _ _ (by decide),
      Memory.get_set_self]
  have hrequests : (advance cycles t s).2.peek Hardware.interruptFlags =
      (advanced cycles t s).2.requests := by
    rw [hheld.peek, Memory.get_set_of_ne _ _ (by decide), Memory.get_set_self]
  have hmodulo : (advance cycles t s).2.peek Hardware.timerModulo =
      (advanced cycles t s).2.modulo :=
    (peek_advance_of_ne cycles t s (by decide) (by decide) (by decide)).trans
      (congrArg (·.2.2) (setup_advanced cycles t s)).symm
  have hcontrol : (advance cycles t s).2.peek Hardware.timerControl =
      (advanced cycles t s).2.control :=
    (peek_advance_of_ne cycles t s (by decide) (by decide) (by decide)).trans
      (congrArg (·.2.1) (setup_advanced cycles t s)).symm
  rw [registers, hcount, hmodulo, hcontrol, hrequests]

theorem peek_advance_divider (cycles : Nat) (t : Timer) {s : AddressSpace} {memory : Memory}
    (h : s.Holds memory) :
    (advance cycles t s).2.peek Hardware.divider = (advance cycles t s).1.divider := by
  rw [(holds_advance cycles t h).peek, Memory.get_set_self, advance_fst]

theorem counter_advance (cycles : Nat) (t : Timer) (s : AddressSpace) :
    (advance cycles t s).1.counter =
      (if s.dividerHit then 0 else t.counter) + UInt16.ofNat cycles := by
  rw [advance_fst, advanced, counter_ticks, counter_sync]

/-- How many of the cycles that the timer advances restart its counter. -/
def reloadsIn (cycles : Nat) (t : Timer) (s : AddressSpace) : Nat :=
  reloads cycles (t.sync s.dividerHit (registers s)).1 (t.sync s.dividerHit (registers s)).2

theorem peek_advance_interruptFlags (cycles : Nat) (t : Timer) {s : AddressSpace} {memory : Memory}
    (h : s.Holds memory) :
    (advance cycles t s).2.peek Hardware.interruptFlags =
      if 0 < reloadsIn cycles t s then s.peek Hardware.interruptFlags ||| Interrupts.timer
      else s.peek Hardware.interruptFlags := by
  have hrequests : (advance cycles t s).2.peek Hardware.interruptFlags =
      (advanced cycles t s).2.requests :=
    congrArg TimerRegisters.requests (registers_advance cycles t h)
  rw [hrequests, advanced, requests_ticks, requests_sync]
  rfl

/-- When no cycle passes the interrupt requests stay as they are, even if catching up with
    stores counts a fall of the input. -/
theorem peek_advance_zero_interruptFlags (t : Timer) (s : AddressSpace) :
    (advance 0 t s).2.peek Hardware.interruptFlags = s.peek Hardware.interruptFlags := by
  have hrequests : (advanced 0 t s).2.requests = s.peek Hardware.interruptFlags :=
    requests_sync ..
  have hkept (count : UInt8) :
      (({ s with dividerHit := false }).poke Hardware.timerCounter count).peek
        Hardware.interruptFlags = s.peek Hardware.interruptFlags :=
    AddressSpace.peek_poke_of_ne _ _ (by decide)
  rw [advance_snd, hrequests, AddressSpace.peek_poke_of_ne _ _ (by decide),
    ← hkept (advanced 0 t s).2.count, AddressSpace.peek_poke_same]

end Timer

end Handheld
