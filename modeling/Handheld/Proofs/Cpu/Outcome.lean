-- SUMMARY: What a step of the processor comes to on a lawful bus, as a function of the processor and of what a reader finds.
import Handheld.Cpu.Step
import Handheld.Proofs.Bus.Lawful

namespace Handheld

open LawfulBus

/-! ## Reading an image

The reads that a step makes, as functions of what a reader finds. -/

/-- The opcode at an address, and whether it belongs to the second table. -/
def Image.opcodeAt (image : Image) (pc : UInt16) : UInt8 × Bool :=
  if image pc = extensionByte then (image (pc + 1), true) else (image pc, false)

/-- The immediate that follows the opcode at an address; zero if there is none. -/
def Image.immediateAt (image : Image) (pc : UInt16) : Instruction.Immediate → UInt16
  | .none => 0
  | .byte => (image (pc + 1)).toUInt16
  | .word => image.wordAt (pc + 1)

/-- The value of a data read. -/
def DataRead.valueIn (image : Image) : DataRead → UInt16
  | none => 0
  | byte address => (image address).toUInt16
  | stack address => image.wordAt address

namespace Cpu

/-- The instruction that the processor executes next, or why it cannot. -/
def instructionIn (cpu : Cpu) (image : Image) : Except Fault.Cause Instruction :=
  cpu.config.decode (image.opcodeAt cpu.regs.pc).1 (image.opcodeAt cpu.regs.pc).2

theorem instructionIn_of_opcodeAt {cpu : Cpu} {image : Image} {opcode : UInt8} {extended : Bool}
    (h : image.opcodeAt cpu.regs.pc = (opcode, extended)) :
    cpu.instructionIn image = cpu.config.decode opcode extended := by
  rw [instructionIn, h]

/-- The effect of executing an instruction at PC. -/
def effectIn (cpu : Cpu) (image : Image) (i : Instruction) : Effect :=
  let immediate := image.immediateAt cpu.regs.pc i.immediate
  let next := cpu.passing i
  next.effect immediate ((next.dataRead immediate i).valueIn image) i

/-- The result of a step, the processor after it, and what reaches the bus. -/
def outcome (cpu : Cpu) (image : Image) : (Except Fault Nat × Cpu) × List Action :=
  match cpu.instructionIn image with
  | .ok i =>
    let effect := cpu.effectIn image i
    let cost := costOf i effect
    ((.ok cost, { effect.cpu with cycles := cost }), effect.actions)
  | .error cause => ((.error ⟨cause, cpu.regs.pc⟩, { cpu with cycles := 0 }), [])

/-! ## Steps on a lawful bus -/

section

variable {β γ : Type} [Bus β] [LawfulBus β γ]

theorem fetchOpcode_observes (pc : UInt16) :
    Observes (fetchOpcode pc : StateM β (UInt8 × Bool)) (fun view => view.opcodeAt pc) := by
  have hsecond (first : UInt8) :
      Observes
        (if first = extensionByte then do
            let second ← Bus.read8 (pc + 1)
            return (second, true)
          else return (first, false) : StateM β (UInt8 × Bool))
        (fun view => if first = extensionByte then (view (pc + 1), true) else (first, false)) := by
    apply Observes.ite
    · exact (observes_read8 (pc + 1)).bind fun second => .pure (second, true)
    · exact .pure (first, false)
  exact (observes_read8 pc).bind hsecond

theorem fetchImmediate_observes (pc : UInt16) (immediate : Instruction.Immediate) :
    Observes (fetchImmediate pc immediate : StateM β UInt16)
      (fun view => view.immediateAt pc immediate) := by
  cases immediate with
  | none => exact .pure 0
  | byte => exact (observes_read8 (pc + 1)).bind fun a => .pure a.toUInt16
  | word => exact observes_read16 (pc + 1)

theorem perform_observes (read : DataRead) :
    Observes (read.perform : StateM β UInt16) (fun view => read.valueIn view) := by
  cases read with
  | none => exact .pure 0
  | byte address => exact (observes_read8 address).bind fun a => .pure a.toUInt16
  | stack address =>
    exact (observes_read8 address).bind fun lo =>
      (observes_read8 (address + 1)).bind fun hi => .pure (word hi lo)

theorem execute_run (cpu : Cpu) (i : Instruction) (bus : β) :
    ((cpu.execute i).run bus).1 =
        (costOf i (cpu.effectIn (view bus) i),
          { (cpu.effectIn (view bus) i).cpu with cycles := costOf i (cpu.effectIn (view bus) i) }) ∧
      held ((cpu.execute i).run bus).2 =
        putAll (β := β) (cpu.effectIn (view bus) i).actions (held bus) := by
  unfold execute
  obtain ⟨bus₁, held₁, run₁⟩ :=
    (fetchImmediate_observes cpu.regs.pc i.immediate).run_bind _ bus
  rw [run₁]
  obtain ⟨bus₂, held₂, run₂⟩ := (observes_report (β := β) (.executing i _ cpu.regs)).run_bind _ bus₁
  rw [run₂]
  obtain ⟨bus₃, held₃, run₃⟩ := (perform_observes ((cpu.passing i).dataRead _ i)).run_bind _ bus₂
  rw [run₃]
  have hview : view bus₁ = view bus := view_eq_of_held_eq held₁
  have hview' : view bus₂ = view bus := view_eq_of_held_eq (held₂.trans held₁)
  rw [hview'] at run₃ ⊢
  refine ⟨rfl, ?_⟩
  refine (performAll_held _ bus₃).trans ?_
  rw [held₃, held₂, held₁]
  rfl

/-- A step comes to what `outcome` says, and what is held changes by its actions alone. -/
theorem step_run (cpu : Cpu) (bus : β) :
    ((cpu.step).run bus).1 = (cpu.outcome (view bus)).1 ∧
      held ((cpu.step).run bus).2 =
        putAll (β := β) (cpu.outcome (view bus)).2 (held bus) := by
  unfold step
  obtain ⟨bus₁, held₁, run₁⟩ := (fetchOpcode_observes cpu.regs.pc).run_bind _ bus
  rw [run₁]
  have hview : view bus₁ = view bus := view_eq_of_held_eq held₁
  unfold outcome instructionIn
  obtain ⟨opcode, extended⟩ := (view bus).opcodeAt cpu.regs.pc
  dsimp only
  cases cpu.config.decode opcode extended with
  | ok i =>
    obtain ⟨hresult, hheld⟩ := execute_run cpu i bus₁
    rw [hview] at hresult hheld
    refine ⟨?_, ?_⟩
    · exact congrArg (fun r : Nat × Cpu => ((Except.ok r.1 : Except Fault Nat), r.2)) hresult
    · exact hheld.trans (congrArg _ held₁)
  | error cause =>
    obtain ⟨-, hheld⟩ := observes_report (β := β) (.faulted cause cpu.regs) bus₁
    exact ⟨rfl, hheld.trans held₁⟩

end

end Cpu

end Handheld
