-- SUMMARY: A run ends at the first step at which it can, and runs under two budgets one after the other are a run under their sum.
import Handheld.Proofs.Console.Steps
import Handheld.Proofs.Console.Unnoticed
import Mathlib.Data.Nat.Find
import Mathlib.Logic.Function.Iterate

namespace Handheld

/-! ## Without the journal

A run reports its end. So two runs in a row leave one record more than a single
run does, and can be the same only in everything else. The journal decides
nothing: a console whose journal is taken away makes the same steps. -/

/-- The space with nothing in its journal and no more to come. -/
def AddressSpace.hush (s : AddressSpace) : AddressSpace :=
  { s with journal := {} }

namespace AddressSpace

theorem notify_hush (s : AddressSpace) (kind : EventKind) (address : UInt16) (byte : UInt8)
    (value : UInt16) :
    s.hush.notify kind address byte value = (s.notify kind address byte value).hush := by
  have hlogs : s.hush.logsWrites = s.logsWrites := rfl
  unfold notify
  rw [hlogs]
  split <;> rfl

theorem logAccess_hush (s : AddressSpace) (access : Access) :
    s.hush.logAccess access = (s.logAccess access).hush := by
  have hlog : s.hush.accessLog = s.accessLog := rfl
  unfold logAccess
  rw [hlog]
  split <;> rfl

/-- No access can tell whether there is a journal. -/
theorem unnoticed_hush : Unnoticed hush where
  store _ := rfl
  logSwitch _ := rfl
  notify := notify_hush
  logAccess := logAccess_hush
  poke _ _ _ := rfl
  report _ _ := rfl
  advance _ _ _ := rfl

end AddressSpace

namespace Console

/-- The console without its journal. -/
def hush (m : Console) : Console :=
  { m with memory := m.memory.hush }

@[simp] theorem hush_report (m : Console) (record : Record) : (m.report record).hush = m.hush :=
  rfl

/-! ## Where a run ends

The consoles that a run passes through are those that stepping passes through.
The run ends at the first of them at which one of its tests says so, or from
which the step fails. -/

theorem config_step (m : Console) : m.step.2.config = m.config := by
  have hwork : m.work.2.config = m.config := (work_run m).2.2.2
  rw [← hwork, step]
  rcases m.work with ⟨result, worked⟩
  cases result <;> rfl

/-- The console after the given number of steps. -/
def after (m : Console) (k : Nat) : Console :=
  (fun m : Console => m.step.2)^[k] m

theorem after_succ (m : Console) (k : Nat) : m.after (k + 1) = (m.after k).step.2 :=
  Function.iterate_succ_apply' ..

theorem after_after (m : Console) (a k : Nat) : (m.after a).after k = m.after (k + a) :=
  (Function.iterate_add_apply _ k a m).symm

theorem config_after (m : Console) (k : Nat) : (m.after k).config = m.config := by
  induction k with
  | zero => rfl
  | succ k ih => rw [after_succ, config_step, ih]

/-- The cycles that the next step returns, if it succeeds. -/
def cost (m : Console) : Nat :=
  m.step.1.toOption.getD 0

/-- The cycles that the first steps return together. -/
def cyclesOver (m : Console) : Nat → Nat
  | 0 => 0
  | k + 1 => m.cyclesOver k + (m.after k).cost

theorem cyclesOver_add (m : Console) (a k : Nat) :
    m.cyclesOver (k + a) = m.cyclesOver a + (m.after a).cyclesOver k := by
  induction k with
  | zero => rw [Nat.zero_add, cyclesOver, Nat.add_zero]
  | succ k ih =>
    rw [Nat.add_right_comm, cyclesOver, ih, cyclesOver, after_after, Nat.add_assoc]

theorem cyclesOver_succ (m : Console) (k : Nat) :
    m.cyclesOver (k + 1) = m.cost + m.step.2.cyclesOver k := by
  have hfirst : m.cyclesOver 1 = m.cost := Nat.zero_add _
  rw [cyclesOver_add, hfirst]
  rfl

/-- How a run within a budget ends if it comes to its end after the given number of steps. -/
def ending? (m : Console) (budget : Option Nat) (k : Nat) : Option (Except Fault StopReason) :=
  let reached := m.after k
  if m.config.endpoint = some reached.cpu.regs.pc then some (.ok .endpoint)
  else if budget = some k then some (.ok .stepLimit)
  else if reached.cpu.halted ∧ reached.memory.peek Hardware.interruptEnable &&& 0x1F = 0 then
    some (.ok .deadlocked)
  else
    match reached.step.1 with
    | .error fault => some (.error fault)
    | .ok _ => none

/-- A run within a budget ends after the given number of steps, and not before. -/
structure Ends (m : Console) (budget : Option Nat) (k : Nat) (ending : Except Fault StopReason) :
    Prop where
  earlier : ∀ j < k, m.ending? budget j = none
  here : m.ending? budget k = some ending

/-- The console at the end: one that a step fails from is left as that step leaves it. -/
def last (m : Console) (k : Nat) : Except Fault StopReason → Console
  | .ok _ => m.after k
  | .error _ => m.after (k + 1)

/-- What a run returns, and the console that it leaves, if it ends as given. Only an end that is
    not a failure is reported. -/
def ended (m : Console) (k : Nat) (ending : Except Fault StopReason) :
    Except Fault RunSummary × Console :=
  (ending.map fun reason => ⟨reason, k, m.cyclesOver k⟩,
    match ending with
    | .ok reason => (m.after k).report (.stopped reason k (m.cyclesOver k))
    | .error _ => m.after (k + 1))

/-- The tests along a run that starts later are those of the whole run. -/
theorem ending?_after (m : Console) (a b k : Nat) :
    (m.after a).ending? (some b) k = m.ending? (some (b + a)) (k + a) := by
  have hlimit : (some b = some k) = (some (b + a) = some (k + a)) := by simp
  simp only [ending?, after_after, config_after, hlimit]

/-- A run goes no further than its limit. -/
theorem ending?_limit (m : Console) (k : Nat) : m.ending? (some k) k ≠ none := by
  simp only [ending?, if_true]
  split <;> simp

/-- Away from its limit a budget makes no difference. -/
theorem ending?_of_ne {m : Console} {budget : Option Nat} {k : Nat} (h : budget ≠ some k) :
    m.ending? budget k = m.ending? none k := by
  simp only [ending?, h, if_false, reduceCtorEq]

/-- Where a run goes on its step succeeds. -/
theorem step_of_goes_on {m : Console} {budget : Option Nat} {k : Nat}
    (h : m.ending? budget k = none) : ∃ cost, (m.after k).step.1 = .ok cost := by
  cases hresult : (m.after k).step.1 with
  | ok cost => exact ⟨cost, rfl⟩
  | error fault =>
    simp only [ending?, hresult] at h
    split at h
    · cases h
    split at h
    · cases h
    split at h <;> cases h

/-! ## The loop -/

theorem atEndpoint_iff {m : Console} :
    m.atEndpoint = true ↔ m.config.endpoint = some m.cpu.regs.pc :=
  beq_iff_eq

theorem deadlocked_iff {m : Console} :
    m.deadlocked = true ↔
      m.cpu.halted ∧ m.memory.peek Hardware.interruptEnable &&& 0x1F = 0 := by
  rw [deadlocked, Bool.and_eq_true, beq_iff_eq]
  rfl

/-- One turn of the loop: the tests of its head, and a step if they find nothing. -/
theorem runFrom_eq (m : Console) (steps cycles budget : Nat) :
    m.runFrom steps cycles budget =
      match m.ending? (some budget) 0 with
      | some (.ok reason) => (.ok ⟨reason, steps, cycles⟩, m)
      | some (.error fault) => (.error fault, m.step.2)
      | none => m.step.2.runFrom (steps + 1) (cycles + m.cost) (budget - 1) := by
  have hstart : m.after 0 = m := rfl
  simp only [ending?, hstart, ← atEndpoint_iff, ← deadlocked_iff]
  cases budget with
  | zero =>
    rw [runFrom]
    cases m.atEndpoint <;> rfl
  | succ budget =>
    rw [runFrom]
    cases m.atEndpoint with
    | true => rfl
    | false =>
      cases m.deadlocked with
      | true => rfl
      | false =>
        rcases hstep : m.step with ⟨result, m'⟩
        have hcost : m.cost = result.toOption.getD 0 := by rw [cost, hstep]
        rw [hcost]
        cases result <;> rfl

/-- The loop ends where the tests first say so, with what has been counted until then. -/
theorem runFrom_of_ends {m : Console} {budget k : Nat} {ending : Except Fault StopReason}
    (steps cycles : Nat) (h : m.Ends (some budget) k ending) :
    m.runFrom steps cycles budget =
      (ending.map fun reason => ⟨reason, steps + k, cycles + m.cyclesOver k⟩, m.last k ending) := by
  induction k generalizing m steps cycles budget with
  | zero =>
    rw [runFrom_eq, h.here]
    cases ending <;> rfl
  | succ k ih =>
    have hnone : m.ending? (some budget) 0 = none := h.earlier 0 k.succ_pos
    have hbudget : budget - 1 + 1 = budget := by
      cases budget with
      | zero => exact absurd hnone (m.ending?_limit 0)
      | succ budget => rfl
    have hrest : m.step.2.Ends (some (budget - 1)) k ending := by
      have hshift (j : Nat) : m.step.2.ending? (some (budget - 1)) j =
          m.ending? (some budget) (j + 1) := by
        rw [← hbudget]
        exact m.ending?_after 1 (budget - 1) j
      exact
        { earlier := fun j hj => by rw [hshift, h.earlier _ (Nat.succ_lt_succ hj)]
          here := by rw [hshift, h.here] }
    rw [runFrom_eq, hnone]
    dsimp only
    rw [ih _ _ hrest, cyclesOver_succ, Nat.add_right_comm steps, Nat.add_assoc steps,
      Nat.add_assoc cycles]
    cases ending <;> rfl

/-- A run within a budget comes to an end, at its limit if not before. -/
theorem exists_ends (m : Console) (budget : Nat) :
    ∃ k ≤ budget, ∃ ending, m.Ends (some budget) k ending := by
  have hlimit : ∃ k, m.ending? (some budget) k ≠ none := ⟨budget, m.ending?_limit budget⟩
  obtain ⟨ending, hhere⟩ := Option.ne_none_iff_exists'.mp (Nat.find_spec hlimit)
  exact
    ⟨Nat.find hlimit, Nat.find_min' hlimit (m.ending?_limit budget), ending,
      { earlier := fun _ hj => not_not.mp (Nat.find_min hlimit hj), here := hhere }⟩

theorem run_of_ends {m : Console} {budget k : Nat} {ending : Except Fault StopReason}
    (h : m.Ends (some budget) k ending) : m.run (some budget) = m.ended k ending := by
  rw [run, Option.getD_some, runFrom_of_ends 0 0 h]
  cases ending <;> simp only [ended, last, Except.map, Nat.zero_add]

/-- What a run returns tells how it ended. -/
theorem ends_of_run (m : Console) (budget : Nat) :
    ∃ k ≤ budget, ∃ ending,
      m.Ends (some budget) k ending ∧ m.run (some budget) = m.ended k ending := by
  obtain ⟨k, hk, ending, h⟩ := m.exists_ends budget
  exact ⟨k, hk, ending, h, run_of_ends h⟩

/-! ## Larger budgets -/

/-- An end that is not the limit of the budget is the end under every budget that allows for as
    many steps. -/
theorem Ends.of_le {m : Console} {a k : Nat} {budget : Option Nat}
    {ending : Except Fault StopReason} (h : m.Ends (some a) k ending) (hk : k ≤ a)
    (hending : ending ≠ .ok .stepLimit) (hbudget : ∀ b, budget = some b → a ≤ b) :
    m.Ends budget k ending where
  earlier j hj := by
    have hne : budget ≠ some j := fun heq =>
      absurd (hbudget j heq) (Nat.not_le.mpr (Nat.lt_of_lt_of_le hj hk))
    have ha : some a ≠ some j := fun heq => absurd (Option.some.inj heq) (by omega)
    rw [ending?_of_ne hne, ← ending?_of_ne ha, h.earlier j hj]
  here := by
    have hhere := h.here
    simp only [ending?] at hhere ⊢
    split at hhere
    · next hend => rw [if_pos hend, hhere]
    · next hend =>
      rw [if_neg hend]
      split at hhere
      · exact absurd (Option.some.inj hhere).symm hending
      · next ha =>
        have hne : budget ≠ some k := fun heq => by
          have := hbudget k heq
          exact ha (congrArg some (by omega))
        rw [if_neg hne, hhere]

theorem Ends.of_none {m : Console} {b k : Nat} {ending : Except Fault StopReason}
    (h : m.Ends none k ending) (hk : k < b) : m.Ends (some b) k ending where
  earlier j hj := by
    have hne : some b ≠ some j := fun heq => absurd (Option.some.inj heq) (by omega)
    rw [ending?_of_ne hne, h.earlier j hj]
  here := by
    have hne : some b ≠ some k := fun heq => absurd (Option.some.inj heq) (by omega)
    rw [ending?_of_ne hne, h.here]

/-- Under a larger budget a run does not end earlier. -/
theorem Ends.le_of_le {m : Console} {a b k k' : Nat} {ending ending' : Except Fault StopReason}
    (h : m.Ends (some a) k ending) (h' : m.Ends (some b) k' ending') (hk : k ≤ a)
    (hab : a ≤ b) : k ≤ k' := by
  by_contra hlater
  have ha : some a ≠ some k' := fun heq => absurd (Option.some.inj heq) (by omega)
  have hb : some b ≠ some k' := fun heq => absurd (Option.some.inj heq) (by omega)
  have hhere := h'.here
  rw [ending?_of_ne hb, ← ending?_of_ne ha, h.earlier k' (Nat.lt_of_not_le hlater)] at hhere
  cases hhere

/-! ## One budget after the other -/

end Console

/-- What two runs in a row come to: the end of the second, and the totals of both. -/
def RunSummary.followedBy (first second : RunSummary) : RunSummary :=
  ⟨second.reason, first.steps + second.steps, first.cycles + second.cycles⟩

namespace Console

/-- If the first budget runs out, the end under the second from there is the end under their sum. -/
theorem Ends.append {m : Console} {a b k : Nat} {ending : Except Fault StopReason}
    (h : m.Ends (some a) a (.ok .stepLimit)) (hrest : (m.after a).Ends (some b) k ending) :
    m.Ends (some (b + a)) (k + a) ending where
  earlier j hj := by
    rcases Nat.lt_or_ge j a with hja | hja
    · have ha : some a ≠ some j := fun heq => absurd (Option.some.inj heq) (by omega)
      have hsum : some (b + a) ≠ some j := fun heq => absurd (Option.some.inj heq) (by omega)
      rw [ending?_of_ne hsum, ← ending?_of_ne ha, h.earlier j hja]
    · obtain ⟨i, rfl⟩ := Nat.exists_eq_add_of_le' hja
      rw [← ending?_after, hrest.earlier i (by omega)]
  here := by rw [← ending?_after, hrest.here]

/-- What a run returns does not depend on the journal, and neither does what it leaves elsewhere. -/
theorem run_congr {m m' : Console} (h : m.hush = m'.hush) (budget : Option Nat) :
    (m.run budget).1 = (m'.run budget).1 ∧ (m.run budget).2.hush = (m'.run budget).2.hush := by
  have hhush (m : Console) : m.hush.run budget = ((m.run budget).1, (m.run budget).2.hush) :=
    AddressSpace.unnoticed_hush.run m budget
  exact Prod.mk.inj ((hhush m).symm.trans ((congrArg (·.run budget) h).trans (hhush m')))

/-- A run whose budget ran out has made as many steps as the budget allows for. -/
theorem ends_of_stepLimit {m m₁ : Console} {a : Nat} {first : RunSummary}
    (h : m.run (some a) = (.ok first, m₁)) (hreason : first.reason = .stepLimit) :
    m.Ends (some a) a (.ok .stepLimit) ∧ first = ⟨.stepLimit, a, m.cyclesOver a⟩ ∧
      m₁.hush = (m.after a).hush := by
  obtain ⟨k, hk, ending, hends, hrun⟩ := m.ends_of_run a
  rw [hrun] at h
  cases ending with
  | error fault => cases h
  | ok reason =>
    cases h
    obtain rfl : reason = .stepLimit := hreason
    have hlimit : a = k := by
      by_contra hne
      have hhere := hends.here
      have ha : some a ≠ some k := fun heq => hne (Option.some.inj heq)
      simp only [ending?, ha, if_false] at hhere
      split at hhere
      · cases hhere
      split at hhere
      · cases hhere
      split at hhere <;> cases hhere
    subst hlimit
    exact ⟨hends, rfl, rfl⟩

theorem ended_append {m : Console} {a k : Nat} (ending : Except Fault StopReason) :
    ((m.after a).ended k ending).1.map (RunSummary.followedBy ⟨.stepLimit, a, m.cyclesOver a⟩) =
        (m.ended (k + a) ending).1 ∧
      ((m.after a).ended k ending).2.hush = (m.ended (k + a) ending).2.hush := by
  cases ending with
  | error fault =>
    refine ⟨rfl, congrArg hush ?_⟩
    show (m.after a).after (k + 1) = m.after (k + a + 1)
    rw [after_after, Nat.add_right_comm]
  | ok reason =>
    have hsteps : a + k = k + a := Nat.add_comm a k
    simp only [ended, Except.map, RunSummary.followedBy, hush_report, after_after, cyclesOver_add,
      hsteps, and_self]

/-- If a budget runs out, a run under another from there comes to a run under their sum. -/
theorem run_append {m m₁ : Console} {a b : Nat} {first : RunSummary}
    (h : m.run (some a) = (.ok first, m₁)) (hreason : first.reason = .stepLimit) :
    (m.run (some (a + b))).1 = (m₁.run (some b)).1.map first.followedBy ∧
      (m.run (some (a + b))).2.hush = (m₁.run (some b)).2.hush := by
  obtain ⟨hends, rfl, hm₁⟩ := ends_of_stepLimit h hreason
  obtain ⟨k, -, ending, hrest, hrun⟩ := (m.after a).ends_of_run b
  obtain ⟨hresult, hleft⟩ := run_congr hm₁ (some b)
  rw [hresult, hleft, hrun, Nat.add_comm a b, run_of_ends (hends.append hrest)]
  exact ⟨(ended_append ending).1.symm, (ended_append ending).2.symm⟩

/-- If a budget does not run out, a larger one makes no difference. -/
theorem run_of_le {m : Console} {a b : Nat}
    (hother : ∀ summary, (m.run (some a)).1 = .ok summary → summary.reason ≠ .stepLimit)
    (hb : a ≤ b) : m.run (some b) = m.run (some a) := by
  obtain ⟨k, hk, ending, hends, hrun⟩ := m.ends_of_run a
  have hending : ending ≠ .ok .stepLimit := by
    rintro rfl
    exact hother _ (congrArg Prod.fst hrun) rfl
  rw [hrun]
  exact run_of_ends (hends.of_le hk hending fun c hc => Option.some.inj hc ▸ hb)

/-- A run is stepping until the first stop. Where the tests of its head, in their order, or a step
    that fails end it is where it ends, with the steps made and their cycles counted; within a
    budget there is such an end. If a budget runs out, a run under another from there returns and
    leaves what a run under their sum would have, but for the journal, the totals adding up. Any
    other end is the same under every larger budget and without one. -/
theorem run_first_stop (m : Console) :
    (∀ budget k ending, m.Ends budget k ending → (budget = none → k < stepCeiling) →
        m.run budget = m.ended k ending) ∧
      (∀ budget, ∃ k ≤ budget, ∃ ending, m.Ends (some budget) k ending) ∧
      (∀ a b first m₁, m.run (some a) = (.ok first, m₁) → first.reason = .stepLimit →
        first.steps = a ∧
          (m.run (some (a + b))).1 = (m₁.run (some b)).1.map first.followedBy ∧
          (m.run (some (a + b))).2.hush = (m₁.run (some b)).2.hush) ∧
      (∀ a, (∀ summary, (m.run (some a)).1 = .ok summary → summary.reason ≠ .stepLimit) →
        (∀ b, a ≤ b → m.run (some b) = m.run (some a)) ∧
          (a ≤ stepCeiling → m.run none = m.run (some a))) := by
  refine ⟨fun budget k ending h hunbounded => ?_, m.exists_ends, ?_, ?_⟩
  · cases budget with
    | some budget => exact run_of_ends h
    | none => exact run_of_ends (h.of_none (hunbounded rfl))
  · intro a b first m₁ h hreason
    obtain ⟨-, rfl, -⟩ := ends_of_stepLimit h hreason
    exact ⟨rfl, run_append h rfl⟩
  · intro a hother
    exact ⟨fun b => run_of_le hother, run_of_le (b := stepCeiling) hother⟩

/-- A processor that sleeps, with an interrupt enabled that never comes. -/
def sleeper : Console where
  cpu := { halted := true }
  memory := (default : AddressSpace).poke Hardware.interruptEnable 1
  timer := {}
  config := {}

theorem peek_sleeper (address : UInt16) :
    sleeper.memory.peek address = if address = Hardware.interruptEnable then 1 else 0 := by
  change (Memory.zero.set _ _).get address = _
  rw [Memory.get_set, Memory.get_zero]

/-- A step that idles cannot fail. -/
theorem step_of_idles {m : Console} (h : m.idles = true) : ∃ cost, m.step.1 = .ok cost := by
  have hresult : m.work.1 = m.workOutcome.1.1 := congrArg Prod.fst (work_run m).1
  rw [workOutcome, if_pos h] at hresult
  exact ⟨_, congrArg Prod.fst (step_of_work (Prod.ext hresult rfl))⟩

theorem ends_sleeper : sleeper.Ends (some 1) 1 (.ok .stepLimit) := by
  have hidles : sleeper.idles = true := by
    rw [idles, pending, peek_sleeper, peek_sleeper]
    rfl
  obtain ⟨cost, hstep⟩ := step_of_idles hidles
  have henabled : ¬sleeper.memory.peek Hardware.interruptEnable &&& 0x1F = 0 := by
    rw [peek_sleeper]
    decide
  have hendpoint : sleeper.config.endpoint = none := rfl
  have hstart : sleeper.after 0 = sleeper := rfl
  constructor
  · intro j hj
    obtain rfl : j = 0 := Nat.lt_one_iff.mp hj
    simp [ending?, hstart, hendpoint, henabled, hstep]
  · simp [ending?, hendpoint]

theorem run_first_stop_sleeper :
    sleeper.run (some 1) = sleeper.ended 1 (.ok .stepLimit) ∧
      (sleeper.run (some (1 + 3))).1 =
        ((sleeper.run (some 1)).2.run (some 3)).1.map
          (RunSummary.followedBy ⟨.stepLimit, 1, sleeper.cyclesOver 1⟩) ∧
      (let atStart := ofConfig { endpoint := some 0x100 }
      atStart.run none = atStart.ended 0 (.ok .endpoint) ∧
        atStart.run (some 5) = atStart.run (some 0)) := by
  obtain ⟨hfirst, -, happend, -⟩ := run_first_stop sleeper
  have hrun := hfirst _ _ _ ends_sleeper fun h => nomatch h
  refine ⟨hrun, ?_, ?_⟩
  · obtain ⟨-, hresult, -⟩ := happend 1 3 _ _ hrun rfl
    rw [hresult, hrun]
    rfl
  · intro atStart
    have hhere : atStart.Ends none 0 (.ok .endpoint) :=
      ⟨fun j hj => absurd hj (Nat.not_lt_zero j), rfl⟩
    have hother (summary : RunSummary) (h : (atStart.run (some 0)).1 = .ok summary) :
        summary.reason ≠ .stepLimit := by
      cases h
      decide
    exact ⟨(run_first_stop atStart).1 none 0 _ hhere fun _ => by decide,
      ((run_first_stop atStart).2.2.2 0 hother).1 5 (Nat.zero_le 5)⟩

/-- Where the endpoint and the limit are reached together, the endpoint is the reason. -/
example : ((ofConfig { endpoint := some 0x100 }).run (some 0)).1 = .ok ⟨.endpoint, 0, 0⟩ := rfl

end Console

end Handheld
