-- SUMMARY: Which interrupt source is served, and what asking for and entering a handler come to on a lawful bus.
import Handheld.Cpu.Interrupt
import Handheld.Proofs.Bus.Lawful

namespace Handheld

open LawfulBus

/-! ## The lowest source of a set

Priority is a search for the lowest bit that is set. A set that a byte stands
for has no bit above the five sources, so the search finds a source exactly if
the set is not empty. -/

namespace Interrupts

theorem lowest?_eq_some_iff {s : Interrupts} {source : Nat} :
    s.lowest? = some source ↔
      source < 8 ∧ s.bits.toNat.testBit source = true ∧
        ∀ lower < source, s.bits.toNat.testBit lower = false := by
  unfold lowest?
  rw [List.find?_range_eq_some]
  constructor
  · rintro ⟨hbit, hlt, hlower⟩
    refine ⟨List.mem_range.mp hlt, hbit, ?_⟩
    intro lower h
    simpa using hlower lower h
  · rintro ⟨hlt, hbit, hlower⟩
    refine ⟨hbit, List.mem_range.mpr hlt, ?_⟩
    intro lower h
    simp [hlower lower h]

theorem lowest?_eq_none_iff {s : Interrupts} : s.lowest? = none ↔ s.bits = 0 := by
  unfold lowest?
  rw [List.find?_eq_none]
  constructor
  · intro h
    apply UInt8.toNat_inj.mp
    apply Nat.eq_of_testBit_eq
    intro bit
    by_cases hbit : bit < 8
    · simpa using h bit (List.mem_range.mpr hbit)
    · have hbound : s.bits.toNat < 2 ^ bit :=
        Nat.lt_of_lt_of_le s.bits.toNat_lt (Nat.pow_le_pow_right (by decide) (by omega))
      rw [Nat.testBit_lt_two_pow hbound]
      simp
  · intro h bit _
    simp [h]

/-- The sources in a set, in the order of their bits. -/
def toList (s : Interrupts) : List Nat :=
  (List.range 8).filter (s.bits.toNat.testBit ·)

theorem head?_toList (s : Interrupts) : s.toList.head? = s.lowest? :=
  List.head?_filter ..

theorem testBit_ofByte_lt {b : UInt8} {bit : Nat}
    (h : (ofByte b).bits.toNat.testBit bit = true) : bit < 5 := by
  have hmask : sources.toNat.testBit bit = true := by
    rw [ofByte, UInt8.toNat_and, Nat.testBit_and, Bool.and_eq_true] at h
    exact h.2
  rw [show sources.toNat = 2 ^ 5 - 1 from rfl, Nat.testBit_two_pow_sub_one] at hmask
  exact of_decide_eq_true hmask

theorem testBit_timer (bit : Nat) : timer.toNat.testBit bit = (bit == 2) := by
  rw [show timer.toNat = 2 ^ 2 from rfl, Nat.testBit_two_pow]
  by_cases h : 2 = bit
  · simp [h]
  · simp [h, Ne.symm h]

/-- Taking back the request of a source leaves the requests of all others. -/
theorem testBit_without {source : Nat} (h : source < 5) (requests : UInt8) (bit : Nat) :
    (requests &&& ~~~(single source).bits).toNat.testBit bit =
      (requests.toNat.testBit bit && bit != source) := by
  rw [UInt8.toNat_and, Nat.testBit_and]
  by_cases hbit : bit < 8
  · have hmask : ∀ (source : Fin 5) (bit : Fin 8),
        (~~~(single source).bits).toNat.testBit bit = (bit.val != source.val) := by
      decide
    rw [hmask ⟨source, h⟩ ⟨bit, hbit⟩]
  · have habove : requests.toNat.testBit bit = false :=
      Nat.testBit_lt_two_pow (Nat.lt_of_lt_of_le requests.toNat_lt
        (Nat.pow_le_pow_right (by decide) (Nat.not_lt.mp hbit)))
    rw [habove, Bool.false_and, Bool.false_and]

end Interrupts

/-! ## Pending sources -/

/-- The sources that are both enabled and requested. -/
def Image.pending (image : Image) : Interrupts :=
  .ofByte (image Hardware.interruptEnable &&& image Hardware.interruptFlags)

namespace Cpu

/-- What waking comes to. -/
def wakeOutcome (cpu : Cpu) (image : Image) : Bool × Cpu :=
  if cpu.halted then
    if image.pending.lowest?.isSome then (true, { cpu with halted := false }) else (false, cpu)
  else (false, cpu)

/-- What serving interrupts comes to: the cycles it takes, the processor after it, and what
    reaches the bus. -/
def serviceOutcome (cpu : Cpu) (image : Image) : (Option Nat × Cpu) × List Action :=
  if cpu.ime then
    match image.pending.lowest? with
    | some source =>
      let effect := cpu.dispatch source image.pending (image Hardware.interruptFlags)
      ((some dispatchCycles, effect.cpu), effect.actions)
    | none => ((none, cpu), [])
  else ((none, cpu), [])

/-- The source that is served if interrupts are looked for now. -/
def dueSource (cpu : Cpu) (image : Image) : Option Nat :=
  if cpu.ime then image.pending.lowest? else none

theorem lowest?_of_dueSource {cpu : Cpu} {image : Image} {source : Nat}
    (h : cpu.dueSource image = some source) :
    cpu.ime = true ∧ image.pending.lowest? = some source := by
  unfold dueSource at h
  split at h
  · next hime => exact ⟨hime, h⟩
  · cases h

theorem dueSource_eq_none_iff {cpu : Cpu} {image : Image} :
    cpu.dueSource image = none ↔ cpu.ime = false ∨ image.pending.bits = 0 := by
  unfold dueSource
  cases cpu.ime <;> simp [Interrupts.lowest?_eq_none_iff]

theorem serviceOutcome_of_none {cpu : Cpu} {image : Image} (h : cpu.dueSource image = none) :
    cpu.serviceOutcome image = ((none, cpu), []) := by
  unfold dueSource at h
  unfold serviceOutcome
  cases hime : cpu.ime with
  | false => rfl
  | true =>
    simp only [hime, if_true] at h
    simp [h]

theorem serviceOutcome_of_some {cpu : Cpu} {image : Image} {source : Nat}
    (h : cpu.dueSource image = some source) :
    cpu.serviceOutcome image =
      ((some dispatchCycles,
        (cpu.dispatch source image.pending (image Hardware.interruptFlags)).cpu),
        (cpu.dispatch source image.pending (image Hardware.interruptFlags)).actions) := by
  obtain ⟨hime, hlowest⟩ := lowest?_of_dueSource h
  simp only [serviceOutcome, hime, if_true, hlowest]

section

variable {β γ : Type} [Bus β] [LawfulBus β γ]

theorem pendingInterrupts_observes :
    Observes (pendingInterrupts : StateM β Interrupts) (fun view => view.pending) :=
  (observes_read8 Hardware.interruptEnable).bind fun enabled =>
    (observes_read8 Hardware.interruptFlags).bind fun requested =>
      .pure (Interrupts.ofByte (enabled &&& requested))

theorem wakeIfPending_observes (cpu : Cpu) :
    Observes (cpu.wakeIfPending : StateM β (Bool × Cpu)) (fun view => cpu.wakeOutcome view) := by
  unfold wakeIfPending
  apply Observes.ite
  · have hasked (pending : Interrupts) :
        Observes
          (if pending.lowest?.isSome then pure (true, { cpu with halted := false })
            else pure (false, cpu) : StateM β (Bool × Cpu))
          (fun _ => if pending.lowest?.isSome then (true, { cpu with halted := false })
            else (false, cpu)) :=
      .ite (.pure _) (.pure _)
    exact pendingInterrupts_observes.bind hasked
  · exact .pure _

/-- Serving comes to what `serviceOutcome` says, and what is held changes by its actions alone. -/
theorem serviceInterrupt_run (cpu : Cpu) (bus : β) :
    ((cpu.serviceInterrupt).run bus).1 = (cpu.serviceOutcome (view bus)).1 ∧
      held ((cpu.serviceInterrupt).run bus).2 =
        putAll (β := β) (cpu.serviceOutcome (view bus)).2 (held bus) := by
  unfold serviceInterrupt serviceOutcome
  split
  · obtain ⟨bus₁, held₁, run₁⟩ := pendingInterrupts_observes.run_bind _ bus
    rw [run₁]
    cases (view bus).pending.lowest? with
    | none => exact ⟨rfl, held₁⟩
    | some source =>
      obtain ⟨bus₂, held₂, run₂⟩ :=
        (observes_read8 Hardware.interruptFlags).run_bind _ bus₁
      have hview : view bus₁ = view bus := view_eq_of_held_eq held₁
      dsimp only
      rw [run₂, hview]
      generalize cpu.dispatch source _ _ = effect
      refine ⟨rfl, (performAll_held effect.actions bus₂).trans ?_⟩
      rw [held₂, held₁]
  · exact ⟨rfl, rfl⟩

end

end Cpu

end Handheld
