-- SUMMARY: A step of the processor on any bus as what it fetches and what it then makes of it.
import Handheld.Proofs.Cpu.Effect
import Handheld.Proofs.Cpu.Faults

namespace Handheld

open LawfulBus

namespace Cpu

/-! ## Fetching and concluding

What a step fetches depends on the bus and the program counter alone. The
processor and its configuration come in only afterwards. Nothing is asked of
the bus here: a read may change what the next one yields. -/

section

variable {β : Type} [Bus β]

/-- Reads the instruction at an address and its immediate, or why the opcode means nothing. -/
def fetch (pc : UInt16) : StateM β (Except Fault.Cause (Instruction × UInt16)) := do
  let (opcode, extended) ← fetchOpcode pc
  match Instruction.decode? opcode extended with
  | none => return .error (.undefined ⟨opcode, extended⟩)
  | some i =>
    let immediate ← fetchImmediate pc i.immediate
    return .ok (i, immediate)

/-- Executes an instruction that has been fetched with its immediate. -/
def carryOut (cpu : Cpu) (i : Instruction) (immediate : UInt16) :
    StateM β (Except Fault Nat × Cpu) := do
  Bus.report (.executing i immediate cpu.regs)
  let next := cpu.passing i
  let data ← (next.dataRead immediate i).perform
  let effect := next.effect immediate data i
  performAll effect.actions
  let cost := costOf i effect
  return (.ok cost, { effect.cpu with cycles := cost })

/-- Reports why an instruction cannot be executed, and fails. -/
def refuse (cpu : Cpu) (cause : Fault.Cause) : StateM β (Except Fault Nat × Cpu) := do
  Bus.report (.faulted cause cpu.regs)
  return (.error ⟨cause, cpu.regs.pc⟩, { cpu with cycles := 0 })

/-- What a step makes of what it has fetched. -/
def conclude (cpu : Cpu) : Except Fault.Cause (Instruction × UInt16) →
    StateM β (Except Fault Nat × Cpu)
  | .ok (i, immediate) =>
    if cpu.config.supports i then cpu.carryOut i immediate
    else cpu.refuse (.unimplemented i.diagnosticName)
  | .error cause => cpu.refuse cause

/-- An instruction that a configuration leaves out has no immediate. -/
theorem immediate_of_not_supports {config : Config} {i : Instruction}
    (h : config.supports i = false) : i.immediate = .none := by
  cases hprefixed : i.prefixed with
  | false =>
    rw [config.supports_of_not_prefixed hprefixed] at h
    cases h
  | true => exact Instruction.immediate_of_prefixed hprefixed

/-- A step fetches and concludes. That the immediate is fetched before it is known whether the
    instruction can be executed makes no difference. -/
theorem step_eq_fetch (cpu : Cpu) :
    (cpu.step : StateM β (Except Fault Nat × Cpu)) = fetch cpu.regs.pc >>= cpu.conclude := by
  unfold step fetch
  rw [bind_assoc]
  congr 1
  funext ⟨opcode, extended⟩
  dsimp only
  rw [Config.decode]
  cases Instruction.decode? opcode extended with
  | none => rfl
  | some i =>
    dsimp only
    rw [bind_assoc]
    cases hsupported : cpu.config.supports i with
    | true =>
      simp only [if_true, execute, carryOut, conclude, hsupported, bind_assoc, pure_bind]
    | false =>
      rw [immediate_of_not_supports hsupported]
      simp only [conclude, hsupported, Bool.false_eq_true, if_false, fetchImmediate, pure_bind]
      rfl

/-- What a step comes to once it is known what it fetches. -/
theorem step_of_fetch {cpu : Cpu} {bus bus' : β}
    {fetched : Except Fault.Cause (Instruction × UInt16)}
    (h : (fetch cpu.regs.pc).run bus = (fetched, bus')) :
    (cpu.step).run bus = (cpu.conclude fetched).run bus' := by
  rw [step_eq_fetch, StateT.run_bind, h]
  rfl

/-- A step carries out what it has fetched, if the configuration can execute it. -/
theorem step_of_fetch_ok (cpu : Cpu) {i : Instruction} {immediate : UInt16} {bus bus' : β}
    (hfetch : (fetch cpu.regs.pc).run bus = (.ok (i, immediate), bus'))
    (hsupports : cpu.config.supports i = true) :
    (cpu.step).run bus = (cpu.carryOut i immediate).run bus' := by
  rw [step_of_fetch hfetch, conclude, if_pos hsupports]

/-- The bus once the instruction about to be executed has been reported. -/
def announced (cpu : Cpu) (i : Instruction) (immediate : UInt16) (bus : β) : β :=
  ((Bus.report (.executing i immediate cpu.regs) : StateM β Unit).run bus).2

theorem config_conclude (cpu : Cpu) (fetched : Except Fault.Cause (Instruction × UInt16))
    (bus : β) : ((cpu.conclude fetched).run bus).1.2.config = cpu.config := by
  match fetched with
  | .error cause => rfl
  | .ok (i, immediate) =>
    rw [conclude]
    split
    · exact config_effect (cpu.passing i) _ _ i
    · rfl

theorem config_step (cpu : Cpu) (bus : β) : ((cpu.step).run bus).1.2.config = cpu.config := by
  rcases hfetch : (fetch cpu.regs.pc).run bus with ⟨fetched, bus'⟩
  rw [step_of_fetch hfetch, config_conclude]

/-! ### Changes that a step does not look at -/

theorem passing_refit {cpu : Cpu} {r : Refit} {immediate : UInt16} {i : Instruction}
    (h : r.Spares cpu immediate i) :
    (cpu.refit r).passing i = (cpu.passing i).refit r ∧ r.Spares (cpu.passing i) immediate i := by
  have hadvance : (cpu.refit r).config.advance i = cpu.config.advance i := h.advance
  refine ⟨?_, ⟨h.supports, h.advance, h.subtrahend, h.spoofs, h.overlay⟩⟩
  rw [passing, hadvance]
  rfl

/-- An instruction is carried out in the same way, whatever it does not look at. -/
theorem carryOut_refit {cpu : Cpu} {r : Refit} {immediate : UInt16} {i : Instruction}
    (h : r.Spares cpu immediate i) :
    ((cpu.refit r).carryOut i immediate : StateM β (Except Fault Nat × Cpu)) =
      (fun out => (out.1, out.2.refit r.lasting)) <$> cpu.carryOut i immediate := by
  obtain ⟨hpassing, hspares⟩ := passing_refit h
  simp only [carryOut, hpassing, dataRead_refit hspares, effect_refit _ hspares, map_bind, map_pure]
  rfl

theorem conclude_refit {cpu : Cpu} {r : Refit}
    {fetched : Except Fault.Cause (Instruction × UInt16)}
    (h : ∀ i immediate, fetched = .ok (i, immediate) → r.Spares cpu immediate i) :
    ((cpu.refit r).conclude fetched : StateM β (Except Fault Nat × Cpu)) =
      (fun out => (out.1, out.2.refit r.lasting)) <$> cpu.conclude fetched := by
  have hrefuse (cause : Fault.Cause) :
      ((cpu.refit r).refuse cause : StateM β (Except Fault Nat × Cpu)) =
        (fun out => (out.1, out.2.refit r.lasting)) <$> cpu.refuse cause := by
    simp only [refuse, map_bind, map_pure]
    rfl
  match fetched with
  | .error cause => exact hrefuse cause
  | .ok (i, immediate) =>
    have hspares := h i immediate rfl
    have hsupports : (cpu.refit r).config.supports i = cpu.config.supports i := hspares.supports
    simp only [conclude, hsupports]
    split
    · exact carryOut_refit hspares
    · exact hrefuse _

/-- A step that fetches an instruction that does not look at what a change concerns is the same
    step after the change. -/
theorem step_refit {cpu : Cpu} {r : Refit} {bus : β}
    (h : ∀ i immediate, ((fetch cpu.regs.pc).run bus).1 = .ok (i, immediate) →
      r.Spares cpu immediate i) :
    ((cpu.refit r).step).run bus =
      ((((cpu.step).run bus).1.1, ((cpu.step).run bus).1.2.refit r.lasting),
        ((cpu.step).run bus).2) := by
  rcases hfetch : (fetch cpu.regs.pc).run bus with ⟨fetched, bus'⟩
  have hspares : ∀ i immediate, fetched = .ok (i, immediate) → r.Spares cpu immediate i := by
    intro i immediate hi
    exact h i immediate (by rw [hfetch, hi])
  have hsame : (fetch (cpu.refit r).regs.pc).run bus = (fetched, bus') := hfetch
  rw [step_of_fetch hsame, step_of_fetch hfetch, conclude_refit hspares, StateT.run_map]
  rfl

end

/-! ### Lawful buses -/

section

variable {β γ : Type} [Bus β] [LawfulBus β γ]

/-- What a step fetches, as a function of what a reader finds. -/
def fetchedIn (image : Image) (pc : UInt16) : Except Fault.Cause (Instruction × UInt16) :=
  let (opcode, extended) := image.opcodeAt pc
  match Instruction.decode? opcode extended with
  | none => .error (.undefined ⟨opcode, extended⟩)
  | some i => .ok (i, image.immediateAt pc i.immediate)

theorem fetch_observes (pc : UInt16) :
    Observes (fetch pc : StateM β (Except Fault.Cause (Instruction × UInt16)))
      (fun view => fetchedIn view pc) := by
  have hdecode (opcode : UInt8 × Bool) :
      Observes
        (match Instruction.decode? opcode.1 opcode.2 with
          | none => return .error (.undefined ⟨opcode.1, opcode.2⟩)
          | some i => do
            let immediate ← fetchImmediate pc i.immediate
            return .ok (i, immediate) :
          StateM β (Except Fault.Cause (Instruction × UInt16)))
        (fun view =>
          match Instruction.decode? opcode.1 opcode.2 with
          | none => .error (.undefined ⟨opcode.1, opcode.2⟩)
          | some i => .ok (i, view.immediateAt pc i.immediate)) := by
    cases Instruction.decode? opcode.1 opcode.2 with
    | none => exact .pure _
    | some i => exact (fetchImmediate_observes pc i.immediate).bind fun immediate => .pure _
  exact (fetchOpcode_observes pc).bind hdecode

end

end Cpu

end Handheld
