-- SUMMARY: What the timer shows after any number of machine cycles, in closed form, and how advances follow one another.
import Mathlib.Algebra.Order.Group.Nat
import Mathlib.Algebra.Ring.Parity
import Handheld.Proofs.Timer.Rounds

namespace Handheld

/-! ## Tallies

Besides the system counter a cycle can change three things: the timer's own
counter, the interrupt requests and whether a reload is due. How far they have
come depends only on how often the input has fallen and on whether it fell in
the last cycle: the cycle after an overflow has no fall of its own, and makes
the reload. -/

/-- What the cycles of the timer change besides the system counter. -/
structure Tally where
  /-- The timer's counter. -/
  count : UInt8
  /-- The interrupt requests. -/
  requests : UInt8
  reloadDue : Bool
deriving DecidableEq

namespace Tally

/-- A cycle without a fall of the input makes the reload that is due. -/
def rest (modulo : UInt8) (tally : Tally) : Tally :=
  if tally.reloadDue then ⟨modulo, tally.requests ||| Interrupts.timer, false⟩ else tally

/-- A cycle with a fall of the input, while no reload is due. -/
def fall (tally : Tally) : Tally :=
  ⟨tally.count + 1, tally.requests, tally.count == 0xFF⟩

/-- The tally after some falls of the input, counted from a tally with no reload due; `now` says
    whether the input fell in the last cycle. -/
def after (count modulo requests : UInt8) (falls : Nat) (now : Bool) : Tally :=
  let room := 256 - count.toNat
  let span := 256 - modulo.toNat
  if falls < room then ⟨UInt8.ofNat (count.toNat + falls), requests, false⟩
  else if (falls - room) % span = 0 ∧ now = true then
    ⟨0, if 1 ≤ (falls - room) / span then requests ||| Interrupts.timer else requests, true⟩
  else
    ⟨UInt8.ofNat (modulo.toNat + (falls - room) % span), requests ||| Interrupts.timer, false⟩

variable (count modulo requests : UInt8)

theorem after_below {falls : Nat} (now : Bool) (hbelow : falls < 256 - count.toNat) :
    after count modulo requests falls now =
      ⟨UInt8.ofNat (count.toNat + falls), requests, false⟩ :=
  if_pos hbelow

theorem after_over (excess : Nat) (now : Bool) :
    after count modulo requests (256 - count.toNat + excess) now =
      if excess % (256 - modulo.toNat) = 0 ∧ now = true then
        ⟨0, if 1 ≤ excess / (256 - modulo.toNat) then requests ||| Interrupts.timer else requests,
          true⟩
      else ⟨UInt8.ofNat (modulo.toNat + excess % (256 - modulo.toNat)),
        requests ||| Interrupts.timer, false⟩ := by
  have hover : ¬256 - count.toNat + excess < 256 - count.toNat :=
    Nat.not_lt.mpr (Nat.le_add_right ..)
  simp only [after, if_neg hover, Nat.add_sub_cancel_left]

theorem after_zero (now : Bool) : after count modulo requests 0 now = ⟨count, requests, false⟩ := by
  have hroom : 0 < 256 - count.toNat := Nat.sub_pos_of_lt count.toNat_lt
  simp [after_below, hroom]

theorem reloadDue_after (falls : Nat) :
    (after count modulo requests falls false).reloadDue = false := by
  simp only [after, Bool.false_eq_true, and_false, if_false]
  split <;> rfl

/-- A cycle without a fall makes the reload of an overflow in the cycle before. -/
theorem rest_after (falls : Nat) (now : Bool) :
    (after count modulo requests falls now).rest modulo =
      after count modulo requests falls false := by
  by_cases hbelow : falls < 256 - count.toNat
  · simp [after_below, hbelow, rest]
  · obtain ⟨excess, rfl⟩ := Nat.exists_eq_add_of_le (Nat.le_of_not_lt hbelow)
    by_cases hdue : excess % (256 - modulo.toNat) = 0 ∧ now = true
    · simp only [after_over, hdue, rest, if_true, and_self]
      -- The request of this reload covers those of earlier ones.
      split <;> simp [UInt8.or_assoc]
    · simp [after_over, hdue, rest]

/-! ### One more fall -/

theorem ofNat_succ (x : Nat) : UInt8.ofNat x + 1 = UInt8.ofNat (x + 1) :=
  (UInt8.ofNat_add x 1).symm

theorem ofNat_beq_last {x : Nat} (h : x < 256) : (UInt8.ofNat x == 0xFF) = decide (x = 255) := by
  rw [Bool.eq_iff_iff, beq_iff_eq, decide_eq_true_iff, ← UInt8.toNat_inj, UInt8.toNat_ofNat',
    Nat.mod_eq_of_lt h]
  rfl

theorem fall_below {x : Nat} (h : x < 255) :
    fall ⟨UInt8.ofNat x, requests, false⟩ = ⟨UInt8.ofNat (x + 1), requests, false⟩ := by
  have hlast : (UInt8.ofNat x == 0xFF) = false := by
    simp [ofNat_beq_last (Nat.lt_succ_of_lt h), Nat.ne_of_lt h]
  simp only [fall, hlast, ofNat_succ]

theorem fall_last : fall ⟨255, requests, false⟩ = ⟨0, requests, true⟩ := by
  simp [fall]

theorem mod_add_one_of_dvd {excess span : Nat} (h : span ∣ excess + 1) :
    excess % span + 1 = span := by
  have hquotient : (excess + 1) / span = excess / span + 1 := by
    simp [Nat.succ_div, h]
  have hnext := Nat.mul_div_cancel' h
  have hbefore := Nat.div_add_mod excess span
  rw [hquotient, Nat.mul_add] at hnext
  omega

theorem mod_add_one_of_not_dvd {excess span : Nat} (h : ¬span ∣ excess + 1) :
    (excess + 1) % span = excess % span + 1 := by
  have hquotient : (excess + 1) / span = excess / span := by
    simp [Nat.succ_div, h]
  have hnext := Nat.div_add_mod (excess + 1) span
  have hbefore := Nat.div_add_mod excess span
  rw [hquotient] at hnext
  omega

theorem fall_after (falls : Nat) :
    (after count modulo requests falls false).fall =
      after count modulo requests (falls + 1) true := by
  have hcount := count.toNat_lt
  have hmodulo := modulo.toNat_lt
  by_cases hbelow : falls < 256 - count.toNat
  · rw [after_below _ _ _ _ hbelow]
    by_cases hnext : falls + 1 < 256 - count.toNat
    · rw [after_below _ _ _ _ hnext, fall_below _ (by omega), Nat.add_assoc]
    · -- The count overflows for the first time.
      have hlast : count.toNat + falls = 255 := by omega
      have hroom : falls + 1 = 256 - count.toNat + 0 := by omega
      rw [hroom, after_over]
      simp [hlast, fall_last]
  · obtain ⟨excess, rfl⟩ := Nat.exists_eq_add_of_le (Nat.le_of_not_lt hbelow)
    have hspan : 0 < 256 - modulo.toNat := Nat.sub_pos_of_lt hmodulo
    have hreached := Nat.mod_lt excess hspan
    rw [after_over, Nat.add_assoc, after_over, if_neg (by simp)]
    by_cases hwhole : 256 - modulo.toNat ∣ excess + 1
    · -- The count has gone from the modulo all the way up, and overflows again.
      have hfull := mod_add_one_of_dvd hwhole
      have hlast : modulo.toNat + excess % (256 - modulo.toNat) = 255 := by omega
      have hagain : 1 ≤ (excess + 1) / (256 - modulo.toNat) :=
        Nat.div_pos (Nat.le_of_dvd (Nat.succ_pos excess) hwhole) hspan
      simp [hlast, fall_last, Nat.mod_eq_zero_of_dvd hwhole, hagain]
    · have hnext := mod_add_one_of_not_dvd hwhole
      have hroom := Nat.mod_lt (excess + 1) hspan
      rw [fall_below _ (by omega), hnext, if_neg (by simp), Nat.add_assoc]

end Tally

namespace TimerReference

/-! ## Falls of the input

While the control value stays as it is, the selected bit falls whenever the
system counter reaches a multiple of twice that bit's weight. So the falls
between two counter values are a difference of quotients. -/

/-- How many machine cycles lie between two falls of an enabled input. -/
def period (tac : UInt8) : Nat :=
  match tac.toNat % 4 with
  | 0 => 256
  | 1 => 4
  | 2 => 16
  | _ => 64

/-- Whether a control value lets the timer count. -/
def enables (tac : UInt8) : Bool :=
  tac.toNat.testBit 2

/-- How often an enabled input falls in some cycles that start at a system counter. -/
def falls (tac : UInt8) (counter cycles : Nat) : Nat :=
  (counter + cycles) / period tac - counter / period tac

theorem period_eq (tac : UInt8) : period tac = 2 ^ (selected tac + 1) := by
  unfold period selected
  generalize tac.toNat % 4 = rate
  match rate with
  | 0 => rfl
  | 1 => rfl
  | 2 => rfl
  | _ + 3 => rfl

theorem selected_lt (tac : UInt8) : selected tac < 15 := by
  unfold selected
  split <;> decide

theorem period_dvd (tac : UInt8) : period tac ∣ 65536 := by
  rw [period_eq]
  exact Nat.pow_dvd_pow 2 (Nat.le_of_lt (Nat.add_lt_add_right (selected_lt tac) 1))

theorem two_dvd_period (tac : UInt8) : 2 ∣ period tac := by
  rw [period_eq]
  exact Dvd.intro_left _ (pow_succ 2 (selected tac)).symm

/-- A bit falls from one number to the next exactly if it and all bits below it are carried away. -/
theorem testBit_falls_iff (i x : Nat) :
    x.testBit i = true ∧ (x + 1).testBit i = false ↔ 2 ^ (i + 1) ∣ x + 1 := by
  induction i generalizing x with
  | zero =>
    simp only [Nat.testBit_zero, decide_eq_true_eq, decide_eq_false_iff_not, zero_add, pow_one]
    omega
  | succ i ih =>
    simp only [Nat.testBit_succ]
    obtain ⟨half, heven | hodd⟩ := Nat.even_or_odd' x
    · -- From an even number only the lowest bit changes, and the next number is odd.
      have hsame : (x + 1) / 2 = x / 2 := by omega
      have htwo : 2 ∣ 2 ^ (i + 2) := Dvd.intro _ (pow_succ' 2 (i + 1)).symm
      constructor
      · intro ⟨hhigh, hlow⟩
        simp [hsame, hhigh] at hlow
      · intro hcarried
        have := htwo.trans hcarried
        omega
    · have hhalf : (x + 1) / 2 = x / 2 + 1 := by omega
      have hdouble : x + 1 = 2 * (x / 2 + 1) := by omega
      rw [hhalf, ih, hdouble, pow_succ' 2 (i + 1), Nat.mul_dvd_mul_iff_left Nat.two_pos]

theorem signal_falls_iff (tac : UInt8) (counter : UInt16) :
    signal tac counter = true ∧ signal tac (counter + 1) = false ↔
      enables tac = true ∧ period tac ∣ counter.toNat + 1 := by
  have hlt : selected tac < 16 := Nat.lt_succ_of_lt (selected_lt tac)
  have hwrap : (counter + 1).toNat = (counter.toNat + 1) % 2 ^ 16 := UInt16.toNat_add ..
  have hbit : (counter + 1).toNat.testBit (selected tac) =
      (counter.toNat + 1).testBit (selected tac) := by
    rw [hwrap, Nat.testBit_mod_two_pow, decide_eq_true hlt, Bool.true_and]
  rw [signal, signal, hbit, period_eq, ← testBit_falls_iff, enables]
  cases tac.toNat.testBit 2 <;> simp

theorem falls_zero (tac : UInt8) (counter : Nat) : falls tac counter 0 = 0 := by
  simp [falls]

theorem falls_succ (tac : UInt8) (counter cycles : Nat) :
    falls tac counter (cycles + 1) =
      falls tac counter cycles + if period tac ∣ counter + cycles + 1 then 1 else 0 := by
  have hle : counter / period tac ≤ (counter + cycles) / period tac :=
    Nat.div_le_div_right (Nat.le_add_right counter cycles)
  rw [falls, falls, ← Nat.add_assoc, Nat.succ_div, Nat.sub_add_comm hle]

/-! ## Cycles of the reference timer -/

/-- What the reference timer shows of a tally. -/
def tally (r : TimerReference) : Tally :=
  ⟨r.tima, r.requests, r.reloadDue⟩

theorem tally_reload (r : TimerReference) : r.reload.tally = r.tally.rest r.tma := by
  unfold reload Tally.rest
  cases hdue : r.reloadDue <;> simp [tally, hdue, Interrupts.timer]

theorem tally_cycle_of_fall {r : TimerReference} (hdue : r.reloadDue = false)
    (henables : enables r.tac = true) (hfall : period r.tac ∣ r.counter.toNat + 1) :
    r.cycle.tally = r.tally.fall := by
  have hreload : r.reload = r := if_neg (by simp [hdue])
  rw [cycle, hreload, r.event_of_fall ((signal_falls_iff _ _).mpr ⟨henables, hfall⟩), hdue]
  rfl

theorem tally_cycle_of_no_fall {r : TimerReference}
    (hsteady : ¬(enables r.tac = true ∧ period r.tac ∣ r.counter.toNat + 1)) :
    r.cycle.tally = r.tally.rest r.tma := by
  have hkept : ¬(signal r.reload.tac r.reload.counter = true ∧
      signal r.tac (r.counter + 1) = false) := by
    rw [tac_reload, counter_reload]
    exact hsteady ∘ (signal_falls_iff _ _).mp
  rw [cycle, event_of_no_fall _ hkept, ← tally_reload]
  rfl

theorem tac_cycle (r : TimerReference) : r.cycle.tac = r.tac :=
  tac_event ..

theorem tma_cycle (r : TimerReference) : r.cycle.tma = r.tma := by
  have hreload : r.reload.tma = r.tma := by
    unfold reload
    split <;> rfl
  rw [cycle, event]
  split <;> exact hreload

theorem counter_cycle (r : TimerReference) : r.cycle.counter = r.counter + 1 :=
  counter_event ..

theorem cycles_succ (n : Nat) (r : TimerReference) : cycles (n + 1) r = (cycles n r).cycle := by
  induction n generalizing r with
  | zero => rfl
  | succ n ih => exact ih r.cycle

theorem tac_cycles (n : Nat) (r : TimerReference) : (cycles n r).tac = r.tac := by
  induction n with
  | zero => rfl
  | succ n ih => simp only [cycles_succ, tac_cycle, ih]

theorem tma_cycles (n : Nat) (r : TimerReference) : (cycles n r).tma = r.tma := by
  induction n with
  | zero => rfl
  | succ n ih => simp only [cycles_succ, tma_cycle, ih]

theorem counter_cycles (n : Nat) (r : TimerReference) :
    (cycles n r).counter.toNat = (r.counter.toNat + n) % 65536 := by
  induction n with
  | zero => exact (Nat.mod_eq_of_lt r.counter.toNat_lt).symm
  | succ n ih =>
    rw [cycles_succ, counter_cycle, UInt16.toNat_add, ih]
    exact Nat.mod_add_mod ..

/-- The wrap of the system counter does not shift the falls: every period divides its range. -/
theorem period_dvd_counter_cycles (n : Nat) (r : TimerReference) :
    period r.tac ∣ (cycles n r).counter.toNat + 1 ↔ period r.tac ∣ r.counter.toNat + n + 1 := by
  rw [counter_cycles, ← Nat.dvd_mod_iff (period_dvd r.tac), Nat.mod_add_mod,
    Nat.dvd_mod_iff (period_dvd r.tac)]

theorem tally_cycles_of_enabled {r : TimerReference} (hdue : r.reloadDue = false)
    (henables : enables r.tac = true) (n : Nat) :
    (cycles n r).tally =
      Tally.after r.tima r.tma r.requests (falls r.tac r.counter.toNat n)
        (decide (period r.tac ∣ r.counter.toNat + n)) := by
  induction n with
  | zero =>
    rw [falls_zero, Tally.after_zero, ← hdue]
    rfl
  | succ n ih =>
    rw [cycles_succ, falls_succ, ← Nat.add_assoc]
    by_cases hfall : period r.tac ∣ r.counter.toNat + n + 1
    · -- Falls lie two cycles apart at least, so no reload is due from the cycle before.
      have hearlier : ¬period r.tac ∣ r.counter.toNat + n := by
        intro hjust
        have heven := (two_dvd_period r.tac).trans hjust
        have hnext := (two_dvd_period r.tac).trans hfall
        omega
      simp only [hearlier, decide_false] at ih
      have hnone : (cycles n r).reloadDue = false :=
        (congrArg Tally.reloadDue ih).trans (Tally.reloadDue_after ..)
      have hcycle := (period_dvd_counter_cycles n r).mpr hfall
      rw [← tac_cycles n r] at henables hcycle
      rw [tally_cycle_of_fall hnone henables hcycle, ih, Tally.fall_after]
      simp [hfall]
    · have hcycle := (period_dvd_counter_cycles n r).not.mpr hfall
      rw [← tac_cycles n r] at hcycle
      rw [tally_cycle_of_no_fall fun h => hcycle h.2, ih, tma_cycles, Tally.rest_after]
      simp [hfall]

theorem tally_cycles_of_disabled {r : TimerReference} (hdue : r.reloadDue = false)
    (hdisabled : enables r.tac = false) (n : Nat) : (cycles n r).tally = r.tally := by
  induction n with
  | zero => rfl
  | succ n ih =>
    rw [← tac_cycles n r] at hdisabled
    rw [cycles_succ, tally_cycle_of_no_fall (by simp [hdisabled]), ih]
    simp [Tally.rest, tally, hdue]

end TimerReference

namespace Timer

/-! ## In the address space

Nothing happens to the timer's registers between two advances that follow one
another, so the second has nothing to catch up with. -/

theorem sync_seen {t : Timer} {r : TimerRegisters} (hseen : t.lastControl = r.control) :
    t.sync false r = (t, r) := by
  obtain ⟨counter, reloadDue, lastControl⟩ := t
  subst hseen
  cases hinput : input r.control counter <;> simp [sync, adopt, countIfFell, hinput]

theorem ticks_add (first second : Nat) (t : Timer) (r : TimerRegisters) :
    ticks (first + second) t r = ticks second (ticks first t r).1 (ticks first t r).2 := by
  induction first generalizing t r with
  | zero => rw [Nat.zero_add]; rfl
  | succ first ih =>
    rw [Nat.succ_add]
    exact ih (t.tick r).1 (t.tick r).2

/-- A memory that shows a timer and its registers. -/
def shown (memory : Memory) (p : Timer × TimerRegisters) : Memory :=
  ((memory.set Hardware.timerCounter p.2.count).set Hardware.interruptFlags p.2.requests).set
    Hardware.divider p.1.divider

theorem shown_shown (memory : Memory) (p p' : Timer × TimerRegisters) :
    shown (shown memory p) p' = shown memory p' := by
  apply Memory.ext_get
  intro address
  simp only [shown, Memory.get_set]
  split
  · rfl
  · split
    · rfl
    · split <;> rfl

theorem advance_snd_owned (cycles : Nat) (t : Timer) {s : AddressSpace} {memory : Memory}
    (howned : s.store = .owned memory) :
    (advance cycles t s).2 =
      { s with store := .owned (shown memory (advanced cycles t s)), dividerHit := false } := by
  simp only [advance_snd, AddressSpace.poke, howned, Store.poke_owned, shown]

theorem registers_advance_owned (cycles : Nat) (t : Timer) {s : AddressSpace} {memory : Memory}
    (howned : s.store = .owned memory) :
    registers (advance cycles t s).2 = (advanced cycles t s).2 := by
  -- The timer does not look at the switch of the access log.
  have hholds : ({ s with logSwitch := false } : AddressSpace).Holds memory := ⟨howned, rfl⟩
  exact registers_advance (s := { s with logSwitch := false }) cycles t hholds

/-- The second of two advances goes on where the first one stopped. -/
theorem advanced_advance (first second : Nat) (t : Timer) {s : AddressSpace} {memory : Memory}
    (howned : s.store = .owned memory) :
    advanced second (advance first t s).1 (advance first t s).2 =
      advanced (first + second) t s := by
  have hsetup := setup_advanced first t s
  have hseen : (advanced first t s).1.lastControl = (advanced first t s).2.control :=
    (congrArg (·.1) hsetup).trans (congrArg (·.2.1) hsetup).symm
  have hhit : (advance first t s).2.dividerHit = false := rfl
  rw [advanced, registers_advance_owned first t howned, hhit, advance_fst, sync_seen hseen,
    advanced, advanced, ticks_add]

theorem advance_advance (first second : Nat) (t : Timer) {s : AddressSpace} {memory : Memory}
    (howned : s.store = .owned memory) :
    advance second (advance first t s).1 (advance first t s).2 = advance (first + second) t s := by
  have hadvanced := advanced_advance first second t howned
  have hmiddle := advance_snd_owned first t howned
  have hstore : (advance first t s).2.store = .owned (shown memory (advanced first t s)) := by
    rw [hmiddle]
  have htimer : (advance second (advance first t s).1 (advance first t s).2).1 =
      (advance (first + second) t s).1 :=
    (advance_fst ..).trans ((congrArg Prod.fst hadvanced).trans (advance_fst ..).symm)
  have hspace : (advance second (advance first t s).1 (advance first t s).2).2 =
      (advance (first + second) t s).2 := by
    rw [advance_snd_owned second _ hstore, hadvanced, shown_shown, hmiddle,
      advance_snd_owned _ t howned]
  exact Prod.ext htimer hspace

/-- A timer with no reload due and nothing to catch up with. -/
structure Settled (t : Timer) (s : AddressSpace) : Prop where
  reloadDue_eq : t.reloadDue = false
  dividerHit_eq : s.dividerHit = false
  lastControl_eq : t.lastControl = s.peek Hardware.timerControl

/-- What a timer and its address space show of a tally. -/
def tally (p : Timer × AddressSpace) : Tally :=
  ⟨p.2.peek Hardware.timerCounter, p.2.peek Hardware.interruptFlags, p.1.reloadDue⟩

/-- The closed form of a timer after some cycles. -/
structure ClosedForm (cycles : Nat) (t : Timer) (s : AddressSpace) (after : Timer × AddressSpace) :
    Prop where
  counter : after.1.counter.toNat = (t.counter.toNat + cycles) % 65536
  divider : (after.2.peek Hardware.divider).toNat = (t.counter.toNat + cycles) / 64 % 256
  /-- An enabled timer has counted every fall of its input. -/
  enabled : TimerReference.enables (s.peek Hardware.timerControl) = true →
    tally after =
      Tally.after (s.peek Hardware.timerCounter) (s.peek Hardware.timerModulo)
        (s.peek Hardware.interruptFlags)
        (TimerReference.falls (s.peek Hardware.timerControl) t.counter.toNat cycles)
        (decide (TimerReference.period (s.peek Hardware.timerControl) ∣
          t.counter.toNat + cycles))
  disabled : TimerReference.enables (s.peek Hardware.timerControl) = false →
    tally after = tally (t, s)

/-- A settled timer runs as the reference timer. -/
theorem of_advance (cycles : Nat) {t : Timer} {s : AddressSpace} {memory : Memory}
    (howned : s.store = .owned memory) (hsettled : Settled t s) :
    TimerReference.of ((advance cycles t s).1, registers (advance cycles t s).2) =
      TimerReference.cycles cycles (TimerReference.of (t, registers s)) := by
  have hsteady : (TimerReference.of (t, registers s)).Steady := by
    intro hreload
    exact absurd (hsettled.reloadDue_eq.symm.trans hreload) Bool.false_ne_true
  rw [registers_advance_owned cycles t howned, advance_fst, advanced, hsettled.dividerHit_eq,
    sync_seen hsettled.lastControl_eq]
  exact TimerReference.of_ticks cycles t (registers s) hsteady

theorem closedForm_advance (cycles : Nat) {t : Timer} {s : AddressSpace} {memory : Memory}
    (howned : s.store = .owned memory) (hsettled : Settled t s) :
    ClosedForm cycles t s (advance cycles t s) := by
  have hof := of_advance cycles howned hsettled
  have hcounter : (advance cycles t s).1.counter.toNat = (t.counter.toNat + cycles) % 65536 :=
    (congrArg (·.counter.toNat) hof).trans (TimerReference.counter_cycles ..)
  have htally : tally (advance cycles t s) =
      (TimerReference.cycles cycles (TimerReference.of (t, registers s))).tally :=
    congrArg TimerReference.tally hof
  have hdivider : (advance cycles t s).2.peek Hardware.divider =
      (advance cycles t s).1.divider := by
    rw [advance_snd_owned cycles t howned, AddressSpace.peek, Store.peek_owned, shown,
      Memory.get_set_self, advance_fst]
  constructor
  case counter => exact hcounter
  case divider =>
    rw [hdivider, toNat_divider, hcounter]
    omega
  case enabled =>
    intro henables
    exact htally.trans
      (TimerReference.tally_cycles_of_enabled hsettled.reloadDue_eq henables cycles)
  case disabled =>
    intro hdisabled
    exact htally.trans
      (TimerReference.tally_cycles_of_disabled hsettled.reloadDue_eq hdisabled cycles)

/-- A settled timer follows its closed form through any number of cycles; and from every state
    two advances are one advance by all their cycles. -/
theorem advance_closed_form (t : Timer) {s : AddressSpace} {memory : Memory}
    (howned : s.store = .owned memory) :
    (Settled t s → ∀ cycles, ClosedForm cycles t s (advance cycles t s)) ∧
      ∀ first second,
        advance second (advance first t s).1 (advance first t s).2 =
          advance (first + second) t s :=
  ⟨fun hsettled cycles => closedForm_advance cycles howned hsettled,
    fun first second => advance_advance first second t howned⟩

/-- With the largest modulo every fall overflows: after two falls the count is zero, the first
    overflow has been requested, and the reload of the second is due. -/
theorem advance_closed_form_two_overflows :
    let t : Timer := { lastControl := 5 }
    let s : AddressSpace :=
      { store := .owned (((Memory.zero.set Hardware.timerControl 5).set Hardware.timerModulo
          0xFF).set Hardware.timerCounter 0xFF) }
    Settled t s ∧ tally (advance 8 t s) = ⟨0, 4, true⟩ ∧
      advance 5 (advance 3 t s).1 (advance 3 t s).2 = advance 8 t s := by
  intro t s
  have hpeek (address : UInt16) : s.peek address =
      if address = Hardware.timerCounter then 0xFF
      else if address = Hardware.timerModulo then 0xFF
      else if address = Hardware.timerControl then 5 else 0 := by
    simp [s, AddressSpace.peek, Memory.get_set]
  have hsettled : Settled t s := ⟨rfl, rfl, (hpeek Hardware.timerControl).symm⟩
  obtain ⟨hclosed, hsplit⟩ := advance_closed_form t (s := s) rfl
  have htally := (hclosed hsettled 8).enabled (by rw [hpeek]; decide)
  rw [hpeek, hpeek, hpeek, hpeek] at htally
  exact ⟨hsettled, htally.trans (by decide), hsplit 3 5⟩

end Timer

end Handheld
