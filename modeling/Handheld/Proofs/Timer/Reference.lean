-- SUMMARY: A reference timer in which every event counts a fall of the input, the reload cycle included, and its agreement with one cycle and one catching up of the timer.
import Mathlib.Data.Nat.Bitwise
import Handheld.Proofs.Timer.Advance

namespace Handheld

/-! ## The reference timer

Everything that can change the input is an event that gives the system counter
and the control value new values: a store to the divider, a changed control
value, a machine cycle. The count goes up at an event exactly if the input falls
there. An overflow leaves zero, and the next machine cycle reloads the count and
requests an interrupt before its own event is looked at. -/

/-- The state of the reference timer, with the registers that programs share. -/
structure TimerReference where
  counter : UInt16
  reloadDue : Bool
  tima : UInt8
  tma : UInt8
  tac : UInt8
  requests : UInt8
deriving DecidableEq

namespace TimerReference

/-- The bit of the system counter that a control value selects. -/
def selected (tac : UInt8) : Nat :=
  match tac.toNat % 4 with
  | 0 => 7
  | 1 => 1
  | 2 => 3
  | _ => 5

/-- The input: the selected bit while bit 2 of the control value enables the timer. -/
def signal (tac : UInt8) (counter : UInt16) : Bool :=
  tac.toNat.testBit 2 && counter.toNat.testBit (selected tac)

/-- One event. -/
def event (r : TimerReference) (counter : UInt16) (tac : UInt8) : TimerReference :=
  if signal r.tac r.counter = true ∧ signal tac counter = false then
    { r with
      counter, tac
      tima := r.tima + 1
      reloadDue := r.reloadDue || r.tima == 0xFF }
  else { r with counter, tac }

/-- The reload that a machine cycle makes first if the one before it overflowed. -/
def reload (r : TimerReference) : TimerReference :=
  if r.reloadDue then { r with tima := r.tma, requests := r.requests ||| 4, reloadDue := false }
  else r

/-- One machine cycle. -/
def cycle (r : TimerReference) : TimerReference :=
  r.reload.event (r.counter + 1) r.tac

/-- Several machine cycles. -/
def cycles : Nat → TimerReference → TimerReference
  | 0, r => r
  | n + 1, r => cycles n r.cycle

/-! ### The input -/

theorem selected_pos (tac : UInt8) : 0 < selected tac := by
  unfold selected
  split <;> decide

theorem toNat_selectedBit (tac : UInt8) : (Timer.selectedBit tac).toNat = 2 ^ selected tac := by
  have hmod : (tac &&& 3).toNat = tac.toNat % 4 := by
    rw [UInt8.toNat_and]
    exact Nat.and_two_pow_sub_one_eq_mod tac.toNat 2
  unfold Timer.selectedBit selected
  rw [hmod]
  generalize tac.toNat % 4 = rate
  match rate with
  | 0 => rfl
  | 1 => rfl
  | 2 => rfl
  | _ + 3 => rfl

theorem and_two_pow_bne_zero (x i : Nat) : (x &&& 2 ^ i != 0) = x.testBit i := by
  rw [Nat.and_two_pow]
  cases x.testBit i <;> simp

theorem input_eq_signal (tac : UInt8) (counter : UInt16) :
    Timer.input tac counter = signal tac counter := by
  have henabled : (tac &&& 4 != 0) = tac.toNat.testBit 2 := by
    rw [← and_two_pow_bne_zero, Bool.eq_iff_iff, bne_iff_ne, bne_iff_ne, ne_eq, ne_eq,
      ← UInt8.toNat_inj, UInt8.toNat_and]
    rfl
  have hselected : (counter &&& Timer.selectedBit tac != 0) =
      counter.toNat.testBit (selected tac) := by
    rw [← and_two_pow_bne_zero, ← toNat_selectedBit, ← UInt16.toNat_and, Bool.eq_iff_iff,
      bne_iff_ne, bne_iff_ne, ne_eq, ne_eq, ← UInt16.toNat_inj]
    rfl
  rw [Timer.input, signal, henabled, hselected]

/-- The input does not fall at a cycle that starts with an even system counter: only the lowest
    bit of the counter changes there, and it is never selected. -/
theorem signal_add_one_of_even (tac : UInt8) {counter : UInt16} (h : counter.toNat % 2 = 0) :
    signal tac (counter + 1) = signal tac counter := by
  have hlt := counter.toNat_lt
  have hsucc : (counter + 1).toNat = counter.toNat + 1 := by
    rw [UInt16.toNat_add]
    exact Nat.mod_eq_of_lt (by simp; omega)
  obtain ⟨bit, hbit⟩ := Nat.exists_eq_succ_of_ne_zero (Nat.ne_of_gt (selected_pos tac))
  have hhalf : (counter.toNat + 1) / 2 = counter.toNat / 2 := by omega
  rw [signal, signal, hbit, hsucc, Nat.testBit_succ counter.toNat,
    Nat.testBit_succ (counter.toNat + 1), hhalf]

theorem signal_zero (tac : UInt8) : signal tac 0 = false := by
  rw [signal, UInt16.toNat_zero, Nat.zero_testBit, Bool.and_false]

/-! ### Events -/

theorem event_of_fall (r : TimerReference) {counter : UInt16} {tac : UInt8}
    (hfall : signal r.tac r.counter = true ∧ signal tac counter = false) :
    r.event counter tac =
      { r with
        counter, tac
        tima := r.tima + 1
        reloadDue := r.reloadDue || r.tima == 0xFF } :=
  if_pos hfall

theorem event_of_no_fall (r : TimerReference) {counter : UInt16} {tac : UInt8}
    (hsteady : ¬(signal r.tac r.counter = true ∧ signal tac counter = false)) :
    r.event counter tac = { r with counter, tac } :=
  if_neg hsteady

theorem event_same (r : TimerReference) : r.event r.counter r.tac = r := by
  have hsteady : ¬(signal r.tac r.counter = true ∧ signal r.tac r.counter = false) :=
    fun fell => Bool.false_ne_true (fell.2.symm.trans fell.1)
  rw [event_of_no_fall r hsteady]

/-! ### Why the reload cycle never loses a fall

An overflow happens only in a cycle where the selected bit falls, and that cycle
leaves an even system counter. The cycle of the reload then changes only the
lowest bit of the counter, which is never selected. A restart leaves zero, which
is even, and a changed control value that makes the input fall leaves it low. -/

/-- A reload is due only while the system counter is even. -/
def ReloadEven (r : TimerReference) : Prop :=
  r.reloadDue = true → r.counter.toNat % 2 = 0

/-- If a reload is due, the next cycle is not one in which the input falls. -/
def Steady (r : TimerReference) : Prop :=
  r.reloadDue = true →
    ¬(signal r.tac r.counter = true ∧ signal r.tac (r.counter + 1) = false)

theorem steady_of_even {r : TimerReference} (h : r.counter.toNat % 2 = 0) : r.Steady := by
  intro _ ⟨hhigh, hlow⟩
  rw [signal_add_one_of_even r.tac h, hhigh] at hlow
  cases hlow

theorem ReloadEven.steady {r : TimerReference} (h : r.ReloadEven) : r.Steady :=
  fun hdue => steady_of_even (h hdue) hdue

theorem counter_event (r : TimerReference) (counter : UInt16) (tac : UInt8) :
    (r.event counter tac).counter = counter := by
  unfold event
  split <;> rfl

theorem tac_event (r : TimerReference) (counter : UInt16) (tac : UInt8) :
    (r.event counter tac).tac = tac := by
  unfold event
  split <;> rfl

theorem steady_event_zero (r : TimerReference) (tac : UInt8) : (r.event 0 tac).Steady := by
  apply steady_of_even
  rw [counter_event]
  rfl

theorem ReloadEven.steady_event {r : TimerReference} (h : r.ReloadEven) (tac : UInt8) :
    (r.event r.counter tac).Steady := by
  intro hdue
  by_cases hfall : signal r.tac r.counter = true ∧ signal tac r.counter = false
  · rw [counter_event, tac_event, hfall.2]
    exact fun fell => Bool.false_ne_true fell.1
  · rw [r.event_of_no_fall hfall] at hdue ⊢
    exact steady_of_even (h hdue) hdue

theorem reloadDue_reload (r : TimerReference) : r.reload.reloadDue = false := by
  unfold reload
  split
  · rfl
  · next h => exact Bool.of_not_eq_true h

theorem counter_reload (r : TimerReference) : r.reload.counter = r.counter := by
  unfold reload
  split <;> rfl

theorem tac_reload (r : TimerReference) : r.reload.tac = r.tac := by
  unfold reload
  split <;> rfl

theorem reloadEven_cycle (r : TimerReference) : r.cycle.ReloadEven := by
  intro hdue
  rw [cycle] at hdue
  by_cases hfall : signal r.reload.tac r.reload.counter = true ∧
      signal r.tac (r.counter + 1) = false
  · -- The input fell, so the counter was odd: an even one only changes its lowest bit.
    rw [tac_reload, counter_reload] at hfall
    have hodd : r.counter.toNat % 2 ≠ 0 := by
      intro heven
      rw [signal_add_one_of_even r.tac heven, hfall.1] at hfall
      cases hfall.2
    rw [cycle, counter_event, UInt16.toNat_add, UInt16.toNat_one]
    omega
  · -- Without a fall only an overflow before this cycle could be pending, and that was reloaded.
    rw [r.reload.event_of_no_fall hfall] at hdue
    exact absurd (r.reloadDue_reload.symm.trans hdue) Bool.false_ne_true

theorem reloadEven_cycles (n : Nat) (r : TimerReference) : (cycles (n + 1) r).ReloadEven := by
  induction n generalizing r with
  | zero => exact reloadEven_cycle r
  | succ n ih => exact ih r.cycle

/-! ### The timer as the reference sees it -/

/-- The state of the reference timer that a timer and its registers stand for. -/
def of (p : Timer × TimerRegisters) : TimerReference where
  counter := p.1.counter
  reloadDue := p.1.reloadDue
  tima := p.2.count
  tma := p.2.modulo
  tac := p.2.control
  requests := p.2.requests

/-- Counting a fall is an event of the reference, once the timer and its registers have what the
    event brings. -/
theorem of_countIfFell {t : Timer} {r : TimerRegisters} (seen : TimerReference)
    (counter : UInt16) (tac : UInt8) (hseen : of (t, r) = { seen with counter, tac }) :
    of (Timer.countIfFell (Timer.input seen.tac seen.counter) (Timer.input tac counter) t r) =
      seen.event counter tac := by
  rw [input_eq_signal, input_eq_signal, Timer.countIfFell]
  by_cases hfall : signal seen.tac seen.counter = true ∧ signal tac counter = false
  · have hcount : of (t.count r) =
        { of (t, r) with
          tima := (of (t, r)).tima + 1
          reloadDue := (of (t, r)).reloadDue || (of (t, r)).tima == 0xFF } := rfl
    rw [hfall.1, hfall.2, seen.event_of_fall hfall]
    rw [hseen] at hcount
    exact hcount
  · rw [seen.event_of_no_fall hfall, ← hseen, if_neg]
    intro h
    rw [Bool.and_eq_true, Bool.not_eq_true'] at h
    exact hfall h

/-- A store to the divider is the event that sets the counter to zero. -/
theorem of_restart (t : Timer) (r : TimerRegisters) :
    of (t.restart r) = (of (t, r)).event 0 r.control := by
  have hlow : Timer.input r.control 0 = false := by rw [input_eq_signal, signal_zero]
  have hevent : of (Timer.countIfFell (Timer.input r.control t.counter) (Timer.input r.control 0)
      { t with counter := 0 } r) = (of (t, r)).event 0 r.control :=
    of_countIfFell (of (t, r)) 0 r.control rfl
  rw [← hevent, hlow, Timer.restart]
  cases Timer.input r.control t.counter with
  | false => rfl
  | true => rfl

/-- A changed control value is an event at the old counter. -/
theorem of_adopt (t : Timer) (r : TimerRegisters) :
    of (t.adopt r) = ({ of (t, r) with tac := t.lastControl }).event t.counter r.control :=
  of_countIfFell { of (t, r) with tac := t.lastControl } t.counter r.control rfl

/-- Catching up with a store to the divider, under the control value that was last seen: at a
    zero counter taking up that value again counts nothing. -/
theorem of_sync_hit (t : Timer) (r : TimerRegisters) (hseen : t.lastControl = r.control) :
    of (t.sync true r) = (of (t, r)).event 0 r.control := by
  let restarted := (of (t, r)).event 0 r.control
  have hkept := Timer.setup_restart t r
  have hlast : (t.restart r).1.lastControl = r.control := (congrArg (·.1) hkept).trans hseen
  have hcontrol : (t.restart r).2.control = r.control := congrArg (·.2.1) hkept
  have hadopt : of (t.sync true r) =
      ({ of (t.restart r) with tac := (t.restart r).1.lastControl }).event 0
        (t.restart r).2.control := of_adopt _ _
  have htac : { restarted with tac := r.control } = restarted :=
    congrArg (fun tac => { restarted with tac }) (tac_event _ _ _).symm
  have hagain : restarted.event 0 r.control = restarted := by
    have hsame := restarted.event_same
    rw [counter_event, tac_event] at hsame
    exact hsame
  rw [hadopt, hlast, hcontrol, of_restart]
  exact (congrArg (·.event 0 r.control) htac).trans hagain

/-- A machine cycle is a reference cycle: the cycle of a reload does not look for a fall, but in
    a steady state there is none. -/
theorem of_tick (t : Timer) (r : TimerRegisters) (hsteady : (of (t, r)).Steady) :
    of (t.tick r) = (of (t, r)).cycle := by
  cases hdue : t.reloadDue with
  | false =>
    have htick : t.tick r =
        Timer.countIfFell (Timer.input r.control t.counter)
          (Timer.input r.control (t.counter + 1)) { t with counter := t.counter + 1 } r := by
      simp only [Timer.tick, hdue, Bool.false_eq_true, if_false]
    have hcycle : (of (t, r)).cycle = (of (t, r)).event (t.counter + 1) r.control := by
      simp only [cycle, reload, of, hdue, Bool.false_eq_true, if_false]
    rw [htick, hcycle]
    exact of_countIfFell (of (t, r)) (t.counter + 1) r.control rfl
  | true =>
    have htick : of (t.tick r) =
        { (of (t, r)).reload with counter := t.counter + 1, tac := r.control } := by
      simp only [Timer.tick, reload, of, hdue, if_true]
      rfl
    have hkept : ¬(signal (of (t, r)).reload.tac (of (t, r)).reload.counter = true ∧
        signal r.control (t.counter + 1) = false) := by
      rw [tac_reload, counter_reload]
      exact hsteady hdue
    rw [htick, cycle]
    exact ((of (t, r)).reload.event_of_no_fall hkept).symm

/-- Machine cycles are reference cycles when the first of them starts steady. -/
theorem of_ticks (n : Nat) (t : Timer) (r : TimerRegisters) (hsteady : (of (t, r)).Steady) :
    of (Timer.ticks n t r) = cycles n (of (t, r)) := by
  induction n generalizing t r with
  | zero => rfl
  | succ n ih =>
    have hfirst := of_tick t r hsteady
    have hnext : (of (t.tick r)).Steady := by
      rw [hfirst]
      exact (reloadEven_cycle _).steady
    rw [cycles, ← hfirst]
    exact ih (t.tick r).1 (t.tick r).2 hnext

end TimerReference

end Handheld
