-- SUMMARY: What every access keeps between two buses, the processor keeps too: relations between their states, and maps from one to the other.
import Handheld.Cpu.Interrupt
import Handheld.Cpu.Step

namespace Handheld

/-! ## Relations that accesses keep

The processor knows its bus only through the accesses of the class. So if no
access can tell two related buses apart, nothing that the processor does can. -/

/-- From related buses two computations return the same, and leave related buses. -/
def Relates {β β' α : Type} (R : β → β' → Prop) (x : StateM β α) (x' : StateM β' α) : Prop :=
  ∀ bus bus', R bus bus' → (x'.run bus').1 = (x.run bus).1 ∧ R (x.run bus).2 (x'.run bus').2

/-- Every access keeps the relation. -/
structure BusRelation {β β' : Type} [Bus β] [Bus β'] (R : β → β' → Prop) : Prop where
  read8 (address : UInt16) : Relates R (Bus.read8 address) (Bus.read8 address)
  read16 (address : UInt16) : Relates R (Bus.read16 address) (Bus.read16 address)
  write8 (address : UInt16) (value : UInt8) :
    Relates R (Bus.write8 address value) (Bus.write8 address value)
  write16 (address value : UInt16) :
    Relates R (Bus.write16 address value) (Bus.write16 address value)
  report (record : Record) : Relates R (Bus.report record) (Bus.report record)

section

variable {β β' α δ : Type} {R : β → β' → Prop}

theorem Relates.pure (a : α) : Relates R (pure a) (pure a) :=
  fun _ _ hbus => ⟨rfl, hbus⟩

theorem Relates.bind {x : StateM β α} {x' : StateM β' α} {y : α → StateM β δ}
    {y' : α → StateM β' δ} (hx : Relates R x x') (hy : ∀ a, Relates R (y a) (y' a)) :
    Relates R (x >>= y) (x' >>= y') := by
  intro bus bus' hbus
  obtain ⟨hvalue, hleft⟩ := hx bus bus' hbus
  have hnext := hy (x.run bus).1 (x.run bus).2 (x'.run bus').2 hleft
  change ((y' (x'.run bus').1).run (x'.run bus').2).1 = _ ∧
    R _ ((y' (x'.run bus').1).run (x'.run bus').2).2
  rw [hvalue]
  exact hnext

theorem Relates.ite {c : Prop} [Decidable c] {x y : StateM β α} {x' y' : StateM β' α}
    (hx : Relates R x x') (hy : Relates R y y') :
    Relates R (if c then x else y) (if c then x' else y') := by
  split
  · exact hx
  · exact hy

end

namespace BusRelation

variable {β β' : Type} [Bus β] [Bus β'] {R : β → β' → Prop} (hR : BusRelation R)

include hR

theorem dataRead (read : DataRead) : Relates R read.perform read.perform := by
  cases read with
  | none => exact .pure 0
  | byte address => exact (hR.read8 address).bind fun a => .pure a.toUInt16
  | stack address =>
    exact (hR.read8 address).bind fun lo =>
      (hR.read8 (address + 1)).bind fun hi => .pure (word hi lo)

theorem action (action : Action) : Relates R action.perform action.perform := by
  cases action with
  | write8 address value => exact hR.write8 address value
  | write16 address value => exact hR.write16 address value
  | report record => exact hR.report record

theorem actions (actions : List Action) : Relates R (performAll actions) (performAll actions) := by
  induction actions with
  | nil => exact .pure ()
  | cons action rest ih => exact (hR.action action).bind fun _ => ih

theorem fetchOpcode (pc : UInt16) : Relates R (Cpu.fetchOpcode pc) (Cpu.fetchOpcode pc) :=
  (hR.read8 pc).bind fun first =>
    .ite ((hR.read8 (pc + 1)).bind fun second => .pure (second, true)) (.pure (first, false))

theorem fetchImmediate (pc : UInt16) (immediate : Instruction.Immediate) :
    Relates R (Cpu.fetchImmediate pc immediate) (Cpu.fetchImmediate pc immediate) := by
  cases immediate with
  | none => exact .pure 0
  | byte => exact (hR.read8 (pc + 1)).bind fun a => .pure a.toUInt16
  | word => exact hR.read16 (pc + 1)

theorem execute (cpu : Cpu) (i : Instruction) : Relates R (cpu.execute i) (cpu.execute i) :=
  (hR.fetchImmediate cpu.regs.pc i.immediate).bind fun _ =>
    (hR.report _).bind fun _ =>
      (hR.dataRead _).bind fun _ =>
        (hR.actions _).bind fun _ => .pure _

/-- A step of the processor keeps the relation. -/
theorem step (cpu : Cpu) : Relates R cpu.step cpu.step := by
  refine (hR.fetchOpcode cpu.regs.pc).bind fun (opcode, extended) => ?_
  dsimp only
  cases cpu.config.decode opcode extended with
  | ok i => exact (hR.execute cpu i).bind fun _ => .pure _
  | error cause => exact (hR.report _).bind fun _ => .pure _

theorem pendingInterrupts : Relates R Cpu.pendingInterrupts Cpu.pendingInterrupts :=
  (hR.read8 Hardware.interruptEnable).bind fun enabled =>
    (hR.read8 Hardware.interruptFlags).bind fun requested =>
      .pure (Interrupts.ofByte (enabled &&& requested))

theorem wakeIfPending (cpu : Cpu) : Relates R cpu.wakeIfPending cpu.wakeIfPending :=
  .ite (hR.pendingInterrupts.bind fun _ => .ite (.pure _) (.pure _)) (.pure _)

theorem serviceInterrupt (cpu : Cpu) : Relates R cpu.serviceInterrupt cpu.serviceInterrupt := by
  refine .ite (hR.pendingInterrupts.bind fun pending => ?_) (.pure _)
  cases pending.lowest? with
  | none => exact .pure _
  | some source =>
    exact (hR.read8 Hardware.interruptFlags).bind fun _ =>
      (hR.actions _).bind fun _ => .pure _

end BusRelation

/-! ## Maps that accesses respect

The second of two related buses is often a function of the first one. -/

/-- A computation on one bus and its counterpart on another return the same and keep the second
    bus the image of the first. -/
def Respects {β β' α : Type} (φ : β → β') (x : StateM β α) (x' : StateM β' α) : Prop :=
  ∀ bus, x'.run (φ bus) = ((x.run bus).1, φ (x.run bus).2)

/-- Every access respects the map. -/
structure BusMap {β β' : Type} [Bus β] [Bus β'] (φ : β → β') : Prop where
  read8 (address : UInt16) : Respects φ (Bus.read8 address) (Bus.read8 address)
  read16 (address : UInt16) : Respects φ (Bus.read16 address) (Bus.read16 address)
  write8 (address : UInt16) (value : UInt8) :
    Respects φ (Bus.write8 address value) (Bus.write8 address value)
  write16 (address value : UInt16) :
    Respects φ (Bus.write16 address value) (Bus.write16 address value)
  report (record : Record) : Respects φ (Bus.report record) (Bus.report record)

section

variable {β β' α δ : Type} {φ : β → β'}

theorem Respects.pure (a : α) : Respects φ (pure a) (pure a) :=
  fun _ => rfl

theorem Respects.bind {x : StateM β α} {x' : StateM β' α} {y : α → StateM β δ}
    {y' : α → StateM β' δ} (hx : Respects φ x x') (hy : ∀ a, Respects φ (y a) (y' a)) :
    Respects φ (x >>= y) (x' >>= y') := by
  intro bus
  rw [StateT.run_bind, hx bus]
  exact hy (x.run bus).1 (x.run bus).2

theorem Respects.modify {f : β → β} {f' : β' → β'} (h : ∀ bus, f' (φ bus) = φ (f bus)) :
    Respects φ (modify f) (modify f') :=
  fun bus => congrArg (Prod.mk PUnit.unit) (h bus)

theorem respects_iff_relates {x : StateM β α} {x' : StateM β' α} :
    Respects φ x x' ↔ Relates (fun bus bus' => bus' = φ bus) x x' := by
  constructor
  · intro h bus _ hbus
    subst hbus
    rw [h bus]
    exact ⟨rfl, rfl⟩
  · intro h bus
    obtain ⟨hvalue, hleft⟩ := h bus (φ bus) rfl
    exact Prod.ext hvalue hleft

end

namespace BusMap

variable {β β' : Type} [Bus β] [Bus β'] {φ : β → β'} (hφ : BusMap φ)

include hφ

theorem relation : BusRelation fun bus bus' => bus' = φ bus where
  read8 address := respects_iff_relates.mp (hφ.read8 address)
  read16 address := respects_iff_relates.mp (hφ.read16 address)
  write8 address value := respects_iff_relates.mp (hφ.write8 address value)
  write16 address value := respects_iff_relates.mp (hφ.write16 address value)
  report record := respects_iff_relates.mp (hφ.report record)

theorem step (cpu : Cpu) : Respects φ cpu.step cpu.step :=
  respects_iff_relates.mpr (hφ.relation.step cpu)

theorem wakeIfPending (cpu : Cpu) : Respects φ cpu.wakeIfPending cpu.wakeIfPending :=
  respects_iff_relates.mpr (hφ.relation.wakeIfPending cpu)

theorem serviceInterrupt (cpu : Cpu) :
    Respects φ cpu.serviceInterrupt cpu.serviceInterrupt :=
  respects_iff_relates.mpr (hφ.relation.serviceInterrupt cpu)

end BusMap

end Handheld
