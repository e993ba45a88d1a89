-- SUMMARY: A failed step of the console, of a run or of the program leaves the machine as the last successful step left it, at the address of the fault.
import Handheld.CommandLine.Execution
import Handheld.Proofs.Console.Steps
import Handheld.Proofs.Cpu.Faults

namespace Handheld

namespace Console

/-! ## Failed steps

Only the processor can fail, and it does so before anything else in the step
happens: the timer has not run, and no handler has been entered. What comes
first is at most a wake-up. -/

/-- `m'` is `m` after a step that failed with the given fault. Of the processor only the cost of
    the latest step is lost, and a halted one has been woken; memory but for what listeners have
    heard and the journal, the timer and the configuration are the same. -/
structure Failed (m : Console) (fault : Fault) (m' : Console) : Prop where
  cpu_eq : m'.cpu = { m.cpu with cycles := 0, halted := false }
  woken : m.cpu.halted = true → m.pending ≠ 0
  memory_eq : m'.memory.quiet = m.memory.quiet
  timer_eq : m'.timer = m.timer
  config_eq : m'.config = m.config
  pc_eq : fault.pc = m'.cpu.regs.pc

/-- Whether an instruction is executed in a step, as a property of the halted state. -/
theorem idles_eq_false_iff {m : Console} :
    m.idles = false ↔ (m.cpu.halted = true → m.pending ≠ 0) := by
  simp [idles]

theorem workOutcome_eq_error_iff {m : Console} {fault : Fault} :
    m.workOutcome.1.1 = .error fault ↔
      m.idles = false ∧ Cpu.FaultAt m.cpu.config m.memory.peek m.cpu.regs.pc fault := by
  rw [workOutcome]
  cases m.idles with
  | true => simp
  | false =>
    rw [if_neg Bool.false_ne_true, Cpu.outcome_eq_error_iff]
    exact ⟨fun h => ⟨rfl, h⟩, fun h => h.2⟩

/-- A step fails exactly if its work fails, and then nothing follows the work. -/
theorem step_eq_error_iff {m m' : Console} {fault : Fault} :
    m.step = (.error fault, m') ↔ m.work = (.error fault, m') := by
  rcases hwork : m.work with ⟨result, worked⟩
  cases result with
  | error cause => simp only [step, hwork]
  | ok cycles =>
    rw [step_of_work hwork]
    exact ⟨fun h => (by cases h), fun h => (by cases h)⟩

theorem step_fst_eq_error_iff {m : Console} {fault : Fault} :
    m.step.1 = .error fault ↔
      (m.cpu.halted = true → m.pending ≠ 0) ∧
        Cpu.FaultAt m.cpu.config m.memory.peek m.cpu.regs.pc fault := by
  rw [← idles_eq_false_iff, ← workOutcome_eq_error_iff, ← congrArg Prod.fst (work_run m).1]
  constructor
  · intro h
    have hstep : m.step = (.error fault, m.step.2) := by rw [← h]
    rw [step_eq_error_iff.mp hstep]
  · intro h
    have hwork : m.work = (.error fault, m.work.2) := by rw [← h]
    rw [step_eq_error_iff.mpr hwork]

theorem failed_of_step {m m' : Console} {fault : Fault} (h : m.step = (.error fault, m')) :
    Failed m fault m' := by
  obtain ⟨hresult, hmemory, htimer, hconfig⟩ := work_run m
  rw [step_eq_error_iff.mp h] at hresult hmemory htimer hconfig
  obtain ⟨hidles, hfault⟩ := workOutcome_eq_error_iff.mp (congrArg Prod.fst hresult).symm
  have houtcome : m.workOutcome =
      ((.error fault, { m.cpu with cycles := 0, halted := false }), []) := by
    rw [workOutcome, hidles, if_neg Bool.false_ne_true]
    exact Cpu.outcome_of_error (Cpu.outcome_eq_error_iff.mpr hfault)
  rw [houtcome] at hresult hmemory
  have hcpu : m'.cpu = { m.cpu with cycles := 0, halted := false } := congrArg Prod.snd hresult
  exact
    { cpu_eq := hcpu
      woken := idles_eq_false_iff.mp hidles
      memory_eq := hmemory
      timer_eq := htimer
      config_eq := hconfig
      pc_eq := by rw [hfault.pc_eq, hcpu] }

/-! ## Failed runs -/

/-- A run that fails has made successful steps up to the one that failed. -/
theorem steps_of_runFrom {m₀ m m' : Console} {fault : Fault} {costs : List Nat}
    (steps cycles budget : Nat) (before : Steps m₀ costs m)
    (h : m.runFrom steps cycles budget = (.error fault, m')) :
    ∃ costs last, Steps m₀ costs last ∧ last.step = (.error fault, m') := by
  induction budget generalizing m steps cycles costs with
  | zero => cases h
  | succ budget ih =>
    rw [runFrom] at h
    split at h
    · cases h
    split at h
    · cases h
    split at h
    · next failed hstep =>
      cases h
      exact ⟨costs, m, before, hstep⟩
    · next cost next hstep => exact ih _ _ (.next before hstep) h

theorem steps_of_run {m m' : Console} {fault : Fault} {budget : Option Nat}
    (h : m.run budget = (.error fault, m')) :
    ∃ costs last, Steps m costs last ∧ last.step = (.error fault, m') := by
  rw [run] at h
  split at h
  · cases h
  · next hrun =>
    cases h
    exact steps_of_runFrom 0 0 _ .none hrun

/-- When steps fail, and that nothing is lost then. A step of the processor fails exactly if there
    is a fault at PC; it leaves the registers, the rest of the processor and what the bus holds as
    they were, after reading the opcode alone. A step of the console fails exactly if it executes
    an instruction that the processor cannot. A run, and with it the program, that fails leaves the
    console as the last successful step left it, but for a wake-up, and names the address at which
    the processor stands. -/
theorem failure_atomic (cpu : Cpu) (flat : FlatBus) (space : AddressSpace) (m : Console)
    (budget : Option Nat) (options : RunOptions) (fault : Fault) :
    (((cpu.step).run flat).1.1 = .error fault ↔
        Cpu.FaultAt cpu.config flat.memory.get cpu.regs.pc fault) ∧
      (((cpu.step).run space).1.1 = .error fault ↔
        Cpu.FaultAt cpu.config space.peek cpu.regs.pc fault) ∧
      (∀ cpu' flat', (cpu.step).run flat = ((.error fault, cpu'), flat') →
        fault.pc = cpu.regs.pc ∧ cpu' = { cpu with cycles := 0 } ∧ flat'.memory = flat.memory ∧
          flat'.traffic.toList =
            flat.traffic.toList ++ Cpu.opcodeReads flat.memory.get cpu.regs.pc) ∧
      (∀ cpu' space', (cpu.step).run space = ((.error fault, cpu'), space') →
        fault.pc = cpu.regs.pc ∧ cpu' = { cpu with cycles := 0 } ∧ space'.quiet = space.quiet) ∧
      (m.step.1 = .error fault ↔
        (m.cpu.halted = true → m.pending ≠ 0) ∧
          Cpu.FaultAt m.cpu.config m.memory.peek m.cpu.regs.pc fault) ∧
      (∀ m', m.step = (.error fault, m') → Failed m fault m') ∧
      (∀ m', m.run budget = (.error fault, m') →
        ∃ costs last, Steps m costs last ∧ last.step = (.error fault, m') ∧ Failed last fault m') ∧
      (∀ error m', options.execute m = (.error error, m') →
        ∃ fault, m.run options.maxSteps = (.error fault, m') ∧
          error = .faulted options.rom fault.pc fault ∧ fault.pc = m'.cpu.regs.pc) := by
  have hrun {budget : Option Nat} {fault : Fault} {m' : Console}
      (h : m.run budget = (.error fault, m')) :
      ∃ costs last, Steps m costs last ∧ last.step = (.error fault, m') ∧ Failed last fault m' := by
    obtain ⟨costs, last, hsteps, hstep⟩ := steps_of_run h
    exact ⟨costs, last, hsteps, hstep, failed_of_step hstep⟩
  refine ⟨Cpu.step_eq_error_iff, Cpu.step_eq_error_iff, ?_, ?_, step_fst_eq_error_iff, ?_, ?_, ?_⟩
  · intro cpu' flat' h
    obtain ⟨hpc, hcpu, hmemory⟩ := Cpu.step_of_error h
    exact ⟨hpc, hcpu, hmemory, Cpu.traffic_of_error h⟩
  · intro cpu' space' h
    exact Cpu.step_of_error h
  · intro m' h
    exact failed_of_step h
  · intro m' h
    exact hrun h
  · intro error m' h
    obtain ⟨fault, hfailed, rfl⟩ := RunOptions.execute_eq_error_iff.mp h
    obtain ⟨_, last, -, -, hlast⟩ := hrun hfailed
    exact ⟨fault, hfailed, by rw [hlast.pc_eq], hlast.pc_eq⟩

end Console

end Handheld
