-- SUMMARY: After every round of stores and machine cycles the timer shows what the reference timer shows.
import Handheld.Proofs.Timer.Reference

namespace Handheld

/-! ## Rounds

The timer runs in rounds. A program stores what it likes, and then the timer
catches up and some cycles pass. The order of a store to the divider and a store
to the control register in one round is not known to the timer, so a round with
both is left out. -/

/-- Some stores, and the machine cycles that pass after them. -/
structure Timer.Round where
  actions : List Action
  cycles : Nat
deriving DecidableEq

/-- A round in which cycles pass and not both the divider and the control register are stored to. -/
structure Timer.Round.Proper (round : Timer.Round) : Prop where
  cycles_pos : 0 < round.cycles
  one_event : ¬(storesAt (storesOf round.actions) Hardware.divider = true ∧
    storesAt (storesOf round.actions) Hardware.timerControl = true)

instance (round : Timer.Round) : Decidable round.Proper :=
  decidable_of_iff _ ⟨fun ⟨cycles_pos, one_event⟩ => ⟨cycles_pos, one_event⟩,
    fun ⟨cycles_pos, one_event⟩ => And.intro cycles_pos one_event⟩

/-- The stores of a round reach memory, and then the timer advances. -/
def Timer.round (p : Timer × AddressSpace) (round : Timer.Round) : Timer × AddressSpace :=
  p.1.advance round.cycles ((performAll round.actions).run p.2).2

namespace TimerReference

/-- The reference timer over a memory, when the system counter is started over. -/
def start (counter : UInt16) (s : AddressSpace) : TimerReference where
  counter
  reloadDue := false
  tima := s.peek Hardware.timerCounter
  tma := s.peek Hardware.timerModulo
  tac := s.peek Hardware.timerControl
  requests := s.peek Hardware.interruptFlags

/-- What stores leave in the registers that are no events. -/
def store (r : TimerReference) (stores : List (UInt16 × UInt8)) : TimerReference :=
  { r with
    tima := lastStored stores Hardware.timerCounter r.tima
    tma := lastStored stores Hardware.timerModulo r.tma
    requests := lastStored stores Hardware.interruptFlags r.requests }

/-- The one event that stores amount to: a store to the divider, or a new control value. -/
def changed (r : TimerReference) (stores : List (UInt16 × UInt8)) : TimerReference :=
  if storesAt stores Hardware.divider then r.event 0 r.tac
  else if storesAt stores Hardware.timerControl then
    r.event r.counter (lastStored stores Hardware.timerControl r.tac)
  else r

/-- A round: the stores take effect, then their event, then the cycles. -/
def round (r : TimerReference) (round : Timer.Round) : TimerReference :=
  cycles round.cycles ((r.store (storesOf round.actions)).changed (storesOf round.actions))

/-- A timer and a memory show what the reference timer shows. -/
structure Agrees (r : TimerReference) (t : Timer) (s : AddressSpace) : Prop where
  counter : t.counter = r.counter
  reloadDue : t.reloadDue = r.reloadDue
  tima : s.peek Hardware.timerCounter = r.tima
  tma : s.peek Hardware.timerModulo = r.tma
  tac : s.peek Hardware.timerControl = r.tac
  requests : s.peek Hardware.interruptFlags = r.requests
  /-- The divider shows bits 13 to 6 of the system counter. -/
  divider : (s.peek Hardware.divider).toNat = r.counter.toNat / 64 % 256

end TimerReference

/-! ## Between rounds -/

/-- What holds of a timer and its memory between rounds, as the reference timer `r` sees them. -/
structure Timer.Between (r : TimerReference) (t : Timer) (s : AddressSpace) : Prop where
  owned : ∃ memory, s.Holds memory
  no_hit : s.dividerHit = false
  control_seen : t.lastControl = r.tac
  registers : TimerReference.of (t, Timer.registers s) = r
  published : s.peek Hardware.divider = t.divider
  reloadEven : r.ReloadEven

namespace Timer

theorem toNat_divider (t : Timer) : t.divider.toNat = t.counter.toNat / 64 % 256 := by
  rw [divider, UInt16.toNat_toUInt8, UInt16.toNat_shiftRight, Nat.shiftRight_eq_div_pow]
  rfl

theorem Between.agrees {r : TimerReference} {t : Timer} {s : AddressSpace} (h : Between r t s) :
    r.Agrees t s where
  counter := congrArg TimerReference.counter h.registers
  reloadDue := congrArg TimerReference.reloadDue h.registers
  tima := congrArg TimerReference.tima h.registers
  tma := congrArg TimerReference.tma h.registers
  tac := congrArg TimerReference.tac h.registers
  requests := congrArg TimerReference.requests h.registers
  divider := by
    have hcounter : t.counter = r.counter := congrArg TimerReference.counter h.registers
    rw [h.published, toNat_divider, hcounter]

theorem between_start (counter : UInt16) {s : AddressSpace} (hlog : s.logsWrites = false) :
    Between (TimerReference.start counter s) (start counter s).1 (start counter s).2 := by
  obtain ⟨memory, hs⟩ := AddressSpace.exists_holds_of_not_logsWrites hlog
  have hquiet : ({ s with dividerHit := false } : AddressSpace).Holds memory :=
    ⟨hs.store_eq, hs.logSwitch_eq⟩
  have hpoked := hquiet.poke Hardware.divider (start counter s).1.divider
  have hkept (address : UInt16) (hne : address ≠ Hardware.divider) :
      (start counter s).2.peek address = s.peek address :=
    (AddressSpace.peek_poke_of_ne _ _ hne).trans rfl
  refine ⟨⟨_, hpoked⟩, rfl, rfl, ?_, ?_, ?_⟩
  · have hregisters : registers (start counter s).2 = registers s := by
      simp only [registers, hkept _ (show Hardware.timerCounter ≠ Hardware.divider by decide),
        hkept _ (show Hardware.timerModulo ≠ Hardware.divider by decide),
        hkept _ (show Hardware.timerControl ≠ Hardware.divider by decide),
        hkept _ (show Hardware.interruptFlags ≠ Hardware.divider by decide)]
    rw [hregisters]
    rfl
  · exact AddressSpace.peek_poke_self hs.store_eq _ _
  · intro hdue
    cases hdue

/-- The stores of a round change the registers as they change the reference. -/
theorem of_store {r : TimerReference} {t : Timer} {s s' : AddressSpace} {memory : Memory}
    {stores : List (UInt16 × UInt8)} (hr : TimerReference.of (t, registers s) = r)
    (hs : s.Holds memory) (hs' : s'.Holds (memory.setAll stores)) :
    TimerReference.of (t, registers s') =
      { r.store stores with tac := lastStored stores Hardware.timerControl r.tac } := by
  have hstored (address : UInt16) (hne : address ≠ Hardware.divider) :
      s'.peek address = lastStored stores address (s.peek address) := by
    rw [hs'.peek, hs.peek, memory.get_setAll_of_ne_divider stores hne]
  rw [← hr, registers, hstored Hardware.timerCounter (by decide),
    hstored Hardware.timerModulo (by decide), hstored Hardware.timerControl (by decide),
    hstored Hardware.interruptFlags (by decide)]
  rfl

/-- Catching up with the stores of a proper round is the event of the reference, and what it
    leaves is steady. -/
theorem of_sync {r : TimerReference} {t : Timer} {s s' : AddressSpace} {memory : Memory}
    {stores : List (UInt16 × UInt8)} (h : Between r t s) (hs : s.Holds memory)
    (hone : ¬(storesAt stores Hardware.divider = true ∧
      storesAt stores Hardware.timerControl = true))
    (hs' : s'.Holds (memory.setAll stores)) (hhit : s'.dividerHit = storesAt stores Hardware.divider) :
    TimerReference.of (t.sync s'.dividerHit (registers s')) = (r.store stores).changed stores ∧
      ((r.store stores).changed stores).Steady := by
  have hregisters := of_store h.registers hs hs'
  have hcounter : t.counter = (r.store stores).counter :=
    congrArg TimerReference.counter h.registers
  have hcontrol : (registers s').control = lastStored stores Hardware.timerControl r.tac :=
    congrArg TimerReference.tac hregisters
  have heven : (r.store stores).ReloadEven := h.reloadEven
  unfold TimerReference.changed
  rw [hhit]
  cases hdivider : storesAt stores Hardware.divider with
  | true =>
    -- A proper round then leaves the control register alone, so the value last seen still holds.
    have huntouched : storesAt stores Hardware.timerControl = false :=
      Bool.of_not_eq_true fun htouched => hone ⟨hdivider, htouched⟩
    have hsame : (registers s').control = r.tac :=
      hcontrol.trans (lastStored_of_not_storesAt r.tac huntouched)
    constructor
    · rw [TimerReference.of_sync_hit t _ (h.control_seen.trans hsame.symm), hregisters, hsame,
        lastStored_of_not_storesAt _ huntouched]
      rfl
    · exact TimerReference.steady_event_zero _ _
  | false =>
    have hadopt : TimerReference.of (t.sync false (registers s')) =
        (r.store stores).event (r.store stores).counter
          (lastStored stores Hardware.timerControl r.tac) := by
      refine (TimerReference.of_adopt t (registers s')).trans ?_
      rw [hregisters, hcontrol, hcounter, h.control_seen]
      rfl
    rw [hadopt]
    cases htouched : storesAt stores Hardware.timerControl with
    | true => exact ⟨rfl, heven.steady_event _⟩
    | false =>
      rw [lastStored_of_not_storesAt r.tac htouched]
      exact ⟨TimerReference.event_same _, heven.steady⟩

/-- One round keeps the timer and the reference together. -/
theorem Between.round {r : TimerReference} {t : Timer} {s : AddressSpace} {round : Round}
    (h : Between r t s) (hround : round.Proper) :
    Between (r.round round) (Timer.round (t, s) round).1 (Timer.round (t, s) round).2 := by
  obtain ⟨memory, hs⟩ := h.owned
  obtain ⟨hs', hhit⟩ := hs.performAll round.actions
  rw [h.no_hit, Bool.false_or] at hhit
  rw [Timer.round]
  -- From here on only what the stores left in memory matters, not the bus actions.
  generalize ((performAll round.actions).run s).2 = s' at hs' hhit
  obtain ⟨hsync, hsteady⟩ := of_sync h hs hround.one_event hs' hhit
  have hadvanced : TimerReference.of (advanced round.cycles t s') = r.round round := by
    rw [advanced, TimerReference.of_ticks, hsync]
    · rfl
    · rw [hsync]
      exact hsteady
  have hsetup := setup_advanced round.cycles t s'
  have hcontrol : (advanced round.cycles t s').2.control = (r.round round).tac :=
    congrArg TimerReference.tac hadvanced
  refine ⟨⟨_, holds_advance round.cycles t hs'⟩, rfl, ?_, ?_, peek_advance_divider _ t hs', ?_⟩
  · have hlast : (advanced round.cycles t s').1.lastControl =
        (advanced round.cycles t s').2.control :=
      (congrArg (·.1) hsetup).trans (congrArg (·.2.1) hsetup).symm
    exact hlast.trans hcontrol
  · rw [registers_advance _ t hs', advance_fst, ← hadvanced]
  · obtain ⟨n, hn⟩ := Nat.exists_eq_succ_of_ne_zero (Nat.ne_of_gt hround.cycles_pos)
    rw [TimerReference.round, hn]
    exact TimerReference.reloadEven_cycles n _

theorem between_rounds {r : TimerReference} {p : Timer × AddressSpace} {rounds : List Round}
    (h : Between r p.1 p.2) (hproper : ∀ round ∈ rounds, round.Proper) :
    Between (rounds.foldl TimerReference.round r) (rounds.foldl Timer.round p).1
      (rounds.foldl Timer.round p).2 := by
  induction rounds generalizing r p with
  | nil => exact h
  | cons round rest ih =>
    obtain ⟨hfirst, hrest⟩ := List.forall_mem_cons.mp hproper
    exact ih (h.round hfirst) hrest

/-- Through every sequence of proper rounds, from a start with any system counter, the timer shows
    what the reference timer shows. -/
theorem agrees_after_rounds (counter : UInt16) (s : AddressSpace) (hlog : s.logsWrites = false)
    (rounds : List Round) (hproper : ∀ round ∈ rounds, round.Proper) :
    (rounds.foldl TimerReference.round (TimerReference.start counter s)).Agrees
      (rounds.foldl Timer.round (start counter s)).1
      (rounds.foldl Timer.round (start counter s)).2 :=
  (between_rounds (between_start counter hlog) hproper).agrees

/-- Turning the timer off while its input is high makes the count overflow, and the cycle after it
    reloads. -/
theorem agrees_after_switch_off :
    let rounds : List Round :=
      [⟨[.write8 Hardware.timerControl 5], 6⟩,
        ⟨[.write8 Hardware.timerControl 0, .write16 Hardware.timerCounter 0x12FF], 1⟩]
    let r := rounds.foldl TimerReference.round (TimerReference.start 0 default)
    r = ⟨7, false, 0x12, 0x12, 0, 4⟩ ∧
      r.Agrees (rounds.foldl Timer.round (start 0 default)).1
        (rounds.foldl Timer.round (start 0 default)).2 := by
  have hzero (address : UInt16) : (default : AddressSpace).peek address = 0 :=
    Memory.get_zero address
  have hblank : TimerReference.start 0 default = ⟨0, false, 0, 0, 0, 0⟩ := by
    simp only [TimerReference.start, hzero]
  refine ⟨?_, agrees_after_rounds 0 default rfl _ (by decide)⟩
  rw [hblank]
  decide

end Timer

end Handheld
