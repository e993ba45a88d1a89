-- SUMMARY: When the timer's counter overflows next, and what an advance by no cycle or by the cycle of a reload does.
import Handheld.Proofs.Timer.ClosedForm

namespace Handheld

namespace TimerReference

/-! ## The first falls of the input

Falls lie a period apart, and the first one comes as soon as the system counter
reaches a multiple of the period. -/

theorem period_pos (tac : UInt8) : 0 < period tac := by
  rw [period_eq]
  exact Nat.two_pow_pos _

theorem period_le (tac : UInt8) : period tac ≤ 256 := by
  unfold period
  split <;> decide

/-- In fewer cycles the input falls less often. -/
theorem falls_lt {tac : UInt8} {counter cycles room : Nat}
    (h : cycles < room * period tac - counter % period tac) : falls tac counter cycles < room := by
  have hpos : 0 < room := by
    apply Nat.pos_of_ne_zero
    rintro rfl
    simp at h
  have hcounter := Nat.div_add_mod counter (period tac)
  have hbelow : (counter + cycles) / period tac < counter / period tac + room := by
    rw [Nat.div_lt_iff_lt_mul (period_pos tac), Nat.add_mul, Nat.mul_comm (counter / period tac)]
    omega
  rw [falls]
  omega

/-- After that many cycles the input has just fallen for the given time. -/
theorem falls_eq (tac : UInt8) (counter : Nat) {room : Nat} (hroom : 0 < room) :
    falls tac counter (room * period tac - counter % period tac) = room ∧
      period tac ∣ counter + (room * period tac - counter % period tac) := by
  have hcounter := Nat.div_add_mod counter (period tac)
  have hmod := Nat.mod_lt counter (period_pos tac)
  have hle : period tac ≤ room * period tac := Nat.le_mul_of_pos_left _ hroom
  have hreached : counter + (room * period tac - counter % period tac) =
      period tac * (counter / period tac + room) := by
    rw [Nat.mul_add, Nat.mul_comm (period tac) room]
    omega
  rw [falls, hreached, Nat.mul_div_cancel_left _ (period_pos tac), Nat.add_sub_cancel_left]
  exact ⟨rfl, Dvd.intro _ rfl⟩

end TimerReference

namespace Timer

/-! ## The next overflow -/

/-- How many cycles of an enabled timer pass until its counter overflows. -/
def overflowTime (t : Timer) (s : AddressSpace) : Nat :=
  let period := TimerReference.period (s.peek Hardware.timerControl)
  (256 - (s.peek Hardware.timerCounter).toNat) * period - t.counter.toNat % period

theorem overflowTime_le (t : Timer) (s : AddressSpace) : overflowTime t s ≤ 65536 := by
  have hperiod := TimerReference.period_le (s.peek Hardware.timerControl)
  have hroom : 256 - (s.peek Hardware.timerCounter).toNat ≤ 256 := Nat.sub_le ..
  exact Nat.le_trans (Nat.sub_le ..) (Nat.mul_le_mul hroom hperiod)

section

variable {t : Timer} {s : AddressSpace} {memory : Memory}

/-- Until the counter overflows nothing is requested, and when it does a reload is due. -/
theorem advance_to_overflow (howned : s.store = .owned memory) (hsettled : Settled t s)
    (henables : TimerReference.enables (s.peek Hardware.timerControl) = true) :
    (∀ cycles ≤ overflowTime t s,
      (advance cycles t s).2.peek Hardware.interruptFlags = s.peek Hardware.interruptFlags) ∧
      (advance (overflowTime t s) t s).1.reloadDue = true := by
  have htally (cycles : Nat) := (closedForm_advance cycles howned hsettled).enabled henables
  have hroom : 0 < 256 - (s.peek Hardware.timerCounter).toNat :=
    Nat.sub_pos_of_lt (s.peek Hardware.timerCounter).toNat_lt
  have hlast : tally (advance (overflowTime t s) t s) =
      ⟨0, s.peek Hardware.interruptFlags, true⟩ := by
    obtain ⟨hfalls, hnow⟩ := TimerReference.falls_eq (s.peek Hardware.timerControl)
      t.counter.toNat hroom
    rw [htally, overflowTime, hfalls, decide_eq_true hnow]
    simpa using Tally.after_over (s.peek Hardware.timerCounter) (s.peek Hardware.timerModulo)
      (s.peek Hardware.interruptFlags) 0 true
  refine ⟨?_, congrArg Tally.reloadDue hlast⟩
  intro cycles hle
  rcases Nat.lt_or_eq_of_le hle with hbefore | rfl
  · have hbelow := htally cycles
    rw [Tally.after_below _ _ _ _ (TimerReference.falls_lt hbefore)] at hbelow
    exact congrArg Tally.requests hbelow
  · exact congrArg Tally.requests hlast

/-- The cycle of a reload requests the timer's interrupt. -/
theorem peek_advance_of_reloadDue (hs : s.Holds memory) (hhit : s.dividerHit = false)
    (hseen : t.lastControl = s.peek Hardware.timerControl) (hdue : t.reloadDue = true) :
    (advance 1 t s).2.peek Hardware.interruptFlags =
      s.peek Hardware.interruptFlags ||| Interrupts.timer := by
  have hcaught : t.sync s.dividerHit (registers s) = (t, registers s) := by
    rw [hhit]
    exact sync_seen hseen
  have hreloads : reloadsIn 1 t s = 1 := by
    rw [reloadsIn, hcaught, reloads, hdue]
    rfl
  rw [peek_advance_interruptFlags 1 t hs, hreloads]
  rfl

/-- An advance by no cycle changes nothing once the timer has caught up and shows the divider. -/
theorem advance_zero (hs : s.Holds memory) (hhit : s.dividerHit = false)
    (hseen : t.lastControl = s.peek Hardware.timerControl)
    (hpublished : s.peek Hardware.divider = t.divider) : advance 0 t s = (t, s) := by
  have hadvanced : advanced 0 t s = (t, registers s) := by
    rw [advanced, hhit, sync_seen hseen]
    rfl
  have hshown : shown memory (t, registers s) = memory := by
    apply Memory.ext_get
    intro address
    simp only [shown, registers, Memory.get_set, ← hpublished, hs.peek]
    split
    · next h => rw [h]
    · split
      · next h => rw [h]
      · split
        · next h => rw [h]
        · rfl
  have hspace : (advance 0 t s).2 = s := by
    rw [advance_snd_owned 0 t hs.store_eq, hadvanced, hshown, ← hs.store_eq, ← hhit]
  exact Prod.ext ((advance_fst 0 t s).trans (congrArg Prod.fst hadvanced)) hspace

end

end Timer

end Handheld
