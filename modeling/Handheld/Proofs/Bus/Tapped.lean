-- SUMMARY: A tap on any bus, which lists the byte accesses that go through it, and the accesses that a computation makes.
import Handheld.Proofs.Bus.Map
import Handheld.Proofs.Cpu.Traffic

namespace Handheld

/-! ## The tap

A bus need not remember its traffic, and what it answers may depend on anything.
A tap lets every access through to the bus behind it, and lists the byte accesses
that the access stands for: a word access stands for two, in the order of the two
byte accesses that it is by default. -/

/-- A bus with a tap on it. -/
structure TappedBus (β : Type) where
  /-- The bus behind the tap. -/
  bus : β
  /-- The byte accesses since the tap was put on, oldest first. -/
  accesses : List Access := []

namespace TappedBus

section

variable {β α δ : Type}

/-- Makes an access on the bus behind the tap, and lists the byte accesses that it stands for. -/
def tapped (access : StateM β α) (bytes : α → List Access) : StateM (TappedBus β) α := fun tap =>
  let (value, bus) := access.run tap.bus
  (value, { bus, accesses := tap.accesses ++ bytes value })

instance [Bus β] : Bus (TappedBus β) where
  read8 address := tapped (Bus.read8 address) fun value => [⟨.read, address, value⟩]
  read16 address := tapped (Bus.read16 address) fun value =>
    [⟨.read, address, loByte value⟩, ⟨.read, address + 1, hiByte value⟩]
  write8 address value := tapped (Bus.write8 address value) fun _ => [⟨.write, address, value⟩]
  write16 address value := tapped (Bus.write16 address value) fun _ =>
    [⟨.write, address + 1, hiByte value⟩, ⟨.write, address, loByte value⟩]
  report record := tapped (Bus.report record) fun _ => []

/-- The bus behind a tap goes the way that it goes without the tap. -/
theorem busMap_bus [Bus β] : BusMap (TappedBus.bus : TappedBus β → β) where
  read8 _ _ := rfl
  read16 _ _ := rfl
  write8 _ _ _ := rfl
  write16 _ _ _ := rfl
  report _ _ := rfl

/-! ## The accesses of a computation -/

/-- A computation only adds to the list, and `made` holds of what it returns and what it adds. -/
def Makes (x : StateM (TappedBus β) α) (made : α → List Access → Prop) : Prop :=
  ∀ tap, ∃ accesses,
    (x.run tap).2.accesses = tap.accesses ++ accesses ∧ made (x.run tap).1 accesses

theorem Makes.pure {made : α → List Access → Prop} {a : α} (h : made a []) :
    Makes (pure a : StateM (TappedBus β) α) made :=
  fun _ => ⟨[], (List.append_nil _).symm, h⟩

theorem Makes.mono {x : StateM (TappedBus β) α} {made made' : α → List Access → Prop}
    (hx : Makes x made) (h : ∀ a accesses, made a accesses → made' a accesses) :
    Makes x made' := by
  intro tap
  obtain ⟨accesses, hadded, hmade⟩ := hx tap
  exact ⟨accesses, hadded, h _ _ hmade⟩

/-- What is made in two parts is made in this order. The second part has to complete what the first
    one made. -/
theorem Makes.bind {x : StateM (TappedBus β) α} {y : α → StateM (TappedBus β) δ}
    {first : α → List Access → Prop} {made : δ → List Access → Prop} (hx : Makes x first)
    (hy : ∀ a before, first a before → Makes (y a) fun d after => made d (before ++ after)) :
    Makes (x >>= y) made := by
  intro tap
  obtain ⟨before, hbefore, hfirst⟩ := hx tap
  obtain ⟨after, hafter, hmade⟩ := hy _ before hfirst (x.run tap).2
  rw [hbefore, List.append_assoc] at hafter
  exact ⟨before ++ after, hafter, hmade⟩

/-- What is known of a run without the tap is known of the run with it, which besides lists the
    accesses. -/
theorem Makes.run_of_run {x : StateM (TappedBus β) α} {x' : StateM β α}
    {made : α → List Access → Prop} (hx : Makes x made) (hbehind : Respects TappedBus.bus x x')
    {bus bus' : β} {a : α} (h : x'.run bus = (a, bus')) :
    ∃ accesses, x.run { bus } = (a, { bus := bus', accesses }) ∧ made a accesses := by
  have hsame := hbehind { bus }
  obtain ⟨accesses, hadded, hmade⟩ := hx { bus }
  rcases hrun : x.run { bus } with ⟨value, tap⟩
  rw [hrun, h] at hsame
  rw [hrun] at hadded hmade
  obtain ⟨behind, listed⟩ := tap
  cases hsame
  cases hadded
  exact ⟨_, rfl, hmade⟩

theorem makes_tapped (access : StateM β α) (bytes : α → List Access) :
    Makes (tapped access bytes) fun value made => made = bytes value :=
  fun _ => ⟨_, rfl, rfl⟩

end

section

variable {β : Type} [Bus β]

theorem makes_read8 (address : UInt16) :
    Makes (Bus.read8 address : StateM (TappedBus β) UInt8) fun value made =>
      made = [⟨.read, address, value⟩] :=
  makes_tapped _ _

theorem makes_read16 (address : UInt16) :
    Makes (Bus.read16 address : StateM (TappedBus β) UInt16) fun value made =>
      made = [⟨.read, address, loByte value⟩, ⟨.read, address + 1, hiByte value⟩] :=
  makes_tapped _ _

theorem makes_report (record : Record) :
    Makes (Bus.report record : StateM (TappedBus β) Unit) fun _ made => made = [] :=
  makes_tapped _ _

theorem makes_action (action : Action) :
    Makes (action.perform : StateM (TappedBus β) Unit) fun _ made =>
      made = FlatBus.writes action.stores := by
  cases action with
  | write8 address value =>
    exact makes_tapped (Bus.write8 address value) fun _ => [⟨.write, address, value⟩]
  | write16 address value =>
    exact makes_tapped (Bus.write16 address value) fun _ =>
      [⟨.write, address + 1, hiByte value⟩, ⟨.write, address, loByte value⟩]
  | report record => exact makes_report record

/-- Actions make their stores, in order. -/
theorem makes_performAll (actions : List Action) :
    Makes (performAll actions : StateM (TappedBus β) Unit) fun _ made =>
      made = FlatBus.writes (storesOf actions) := by
  induction actions with
  | nil => exact .pure rfl
  | cons action rest ih =>
    refine (makes_action action).bind ?_
    rintro _ _ rfl
    refine ih.mono ?_
    rintro _ _ rfl
    exact List.map_append.symm

end

end TappedBus

end Handheld
