-- SUMMARY: Exactly when a step of the processor fails, and that a failed step changes nothing but the cost of the latest step.
import Handheld.Proofs.Cpu.Outcome

namespace Handheld

open LawfulBus

/-! ## Opcodes that cannot be executed

Eleven bytes of the first table mean nothing, and the byte `0xCB` is no opcode
of its own. Every byte of the second table means something, but a configuration
may leave out all of them except the rotation `RL` and the bit tests. -/

/-- The bytes of the first opcode table that mean nothing. -/
def undefinedOpcodes : List UInt8 :=
  [0xD3, 0xDB, 0xDD, 0xE3, 0xE4, 0xEB, 0xEC, 0xED, 0xF4, 0xFC, 0xFD]

/-- Whether an opcode of the second table is a rotation `RL` or a bit test. -/
def IsBitOrRotate (opcode : UInt8) : Prop :=
  (0x10 ≤ opcode ∧ opcode ≤ 0x17) ∨ (0x40 ≤ opcode ∧ opcode ≤ 0x7F)

instance (opcode : UInt8) : Decidable (IsBitOrRotate opcode) :=
  inferInstanceAs (Decidable (_ ∨ _))

/-- What holds of every number below 256 as a byte holds of every byte. -/
theorem forall_byte {P : UInt8 → Prop} (h : ∀ n : Fin 256, P (UInt8.ofNat n)) (b : UInt8) :
    P b := by
  have hb := h b.toFin
  rwa [show UInt8.ofNat b.toFin = b from UInt8.ofNat_toNat] at hb

namespace Instruction

theorem decodeFirst?_eq_none_iff (opcode : UInt8) :
    decodeFirst? opcode = none ↔ opcode ∈ undefinedOpcodes ∨ opcode = extensionByte :=
  forall_byte (P := fun opcode => decodeFirst? opcode = none ↔
    opcode ∈ undefinedOpcodes ∨ opcode = extensionByte) (by decide +kernel) opcode

theorem prefixed_of_decodeFirst? {opcode : UInt8} {i : Instruction}
    (h : decodeFirst? opcode = some i) : i.prefixed = false := by
  have hall : (decodeFirst? opcode).all (!·.prefixed) = true :=
    forall_byte (P := fun opcode => (decodeFirst? opcode).all (!·.prefixed) = true)
      (by decide +kernel) opcode
  rw [h, Option.all_some, Bool.not_eq_true'] at hall
  exact hall

theorem immediate_of_prefixed {i : Instruction} (h : i.prefixed = true) : i.immediate = .none := by
  cases i with
  | shift op dst | bit index src | res index dst | set index dst => rfl
  | _ => cases h

end Instruction

namespace Cpu

theorem Config.supports_of_not_prefixed (config : Config) {i : Instruction}
    (h : i.prefixed = false) : config.supports i = true := by
  unfold Config.supports
  cases config.prefixedCoverage with
  | full => rfl
  | bitAndRotate =>
    cases i with
    | shift op dst | bit index src | res index dst | set index dst => cases h
    | _ => rfl

theorem Config.supports_decodeSecond_iff (config : Config) (opcode : UInt8) :
    config.supports (Instruction.decodeSecond opcode) = true ↔
      config.prefixedCoverage = .full ∨ IsBitOrRotate opcode := by
  unfold Config.supports
  cases config.prefixedCoverage with
  | full => simp
  | bitAndRotate =>
    have hreduced : Config.supports { prefixedCoverage := .bitAndRotate }
        (Instruction.decodeSecond opcode) = true ↔ IsBitOrRotate opcode :=
      forall_byte (P := fun opcode =>
        Config.supports { prefixedCoverage := .bitAndRotate } (Instruction.decodeSecond opcode) = true
          ↔ IsBitOrRotate opcode) (by decide +kernel) opcode
    simpa [Config.supports] using hreduced

/-! ## Faults -/

/-- Why a processor at `pc` with the given configuration cannot execute what an image holds there. -/
inductive FaultAt (config : Config) (image : Image) (pc : UInt16) : Fault → Prop where
  /-- The byte at `pc` means nothing. -/
  | undefined : image pc ∈ undefinedOpcodes →
      FaultAt config image pc ⟨.undefined ⟨image pc, false⟩, pc⟩
  /-- The opcode is one of the second table that the configuration leaves out. -/
  | unimplemented : config.prefixedCoverage = .bitAndRotate → image pc = 0xCB →
      ¬IsBitOrRotate (image (pc + 1)) →
      FaultAt config image pc
        ⟨.unimplemented (Instruction.decodeSecond (image (pc + 1))).diagnosticName, pc⟩

theorem FaultAt.pc_eq {config : Config} {image : Image} {pc : UInt16} {fault : Fault}
    (h : FaultAt config image pc fault) : fault.pc = pc := by
  cases h <;> rfl

theorem Config.decode_first_eq_error_iff (config : Config) (opcode : UInt8) (cause : Fault.Cause) :
    config.decode opcode false = .error cause ↔
      Instruction.decodeFirst? opcode = none ∧ cause = .undefined ⟨opcode, false⟩ := by
  unfold Config.decode Instruction.decode?
  rw [if_neg Bool.false_ne_true]
  cases h : Instruction.decodeFirst? opcode with
  | none => simp [eq_comm]
  | some i =>
    have hsupported := config.supports_of_not_prefixed (Instruction.prefixed_of_decodeFirst? h)
    simp [hsupported]

theorem Config.decode_second_eq_error_iff (config : Config) (opcode : UInt8)
    (cause : Fault.Cause) :
    config.decode opcode true = .error cause ↔
      (config.prefixedCoverage = .bitAndRotate ∧ ¬IsBitOrRotate opcode) ∧
        cause = .unimplemented (Instruction.decodeSecond opcode).diagnosticName := by
  have hcoverage : config.prefixedCoverage = .bitAndRotate ↔ ¬config.prefixedCoverage = .full := by
    cases config.prefixedCoverage <;> simp
  have hsupports := config.supports_decodeSecond_iff opcode
  unfold Config.decode Instruction.decode?
  rw [if_pos rfl, hcoverage, ← not_or, ← hsupports]
  by_cases h : config.supports (Instruction.decodeSecond opcode) = true
  · simp [h]
  · simp [h, eq_comm]

/-- The processor finds no instruction that it can execute exactly if there is a fault at PC. -/
theorem instructionIn_eq_error_iff {cpu : Cpu} {image : Image} {cause : Fault.Cause} :
    cpu.instructionIn image = .error cause ↔
      FaultAt cpu.config image cpu.regs.pc ⟨cause, cpu.regs.pc⟩ := by
  unfold instructionIn Image.opcodeAt
  by_cases hextended : image cpu.regs.pc = extensionByte
  · rw [if_pos hextended, Config.decode_second_eq_error_iff]
    constructor
    · rintro ⟨⟨hcoverage, hother⟩, rfl⟩
      exact .unimplemented hcoverage hextended hother
    · intro h
      cases h with
      | undefined hmem =>
        rw [hextended] at hmem
        exact absurd hmem (by decide)
      | unimplemented hcoverage _ hother => exact ⟨⟨hcoverage, hother⟩, rfl⟩
  · rw [if_neg hextended, Config.decode_first_eq_error_iff, Instruction.decodeFirst?_eq_none_iff,
      or_iff_left hextended]
    constructor
    · rintro ⟨hmem, rfl⟩
      exact .undefined hmem
    · intro h
      cases h with
      | undefined hmem => exact ⟨hmem, rfl⟩
      | unimplemented _ hbyte _ => exact absurd hbyte hextended

theorem faultAt_iff {cpu : Cpu} {image : Image} {fault : Fault} :
    FaultAt cpu.config image cpu.regs.pc fault ↔
      cpu.instructionIn image = .error fault.cause ∧ fault.pc = cpu.regs.pc := by
  obtain ⟨cause, pc⟩ := fault
  rw [instructionIn_eq_error_iff]
  constructor
  · intro h
    have hpc : pc = cpu.regs.pc := h.pc_eq
    subst hpc
    exact ⟨h, rfl⟩
  · rintro ⟨h, hpc⟩
    have hpc' : pc = cpu.regs.pc := hpc
    subst hpc'
    exact h

/-! ## Failed steps -/

/-- A step fails exactly if there is a fault at PC. -/
theorem outcome_eq_error_iff {cpu : Cpu} {image : Image} {fault : Fault} :
    (cpu.outcome image).1.1 = .error fault ↔ FaultAt cpu.config image cpu.regs.pc fault := by
  rw [faultAt_iff, outcome]
  obtain ⟨cause, pc⟩ := fault
  cases cpu.instructionIn image with
  | ok i => simp
  | error cause => simp [eq_comm]

/-- A step that fails changes nothing but the cost of the latest step, and stores nothing. -/
theorem outcome_of_error {cpu : Cpu} {image : Image} {fault : Fault}
    (h : (cpu.outcome image).1.1 = .error fault) :
    cpu.outcome image = ((.error fault, { cpu with cycles := 0 }), []) := by
  rw [outcome] at h ⊢
  cases hi : cpu.instructionIn image with
  | ok i =>
    rw [hi] at h
    cases h
  | error cause =>
    rw [hi] at h
    cases h
    rfl

section

variable {β γ : Type} [Bus β] [LawfulBus β γ]

theorem step_eq_error_iff {cpu : Cpu} {bus : β} {fault : Fault} :
    ((cpu.step).run bus).1.1 = .error fault ↔
      FaultAt cpu.config (view bus) cpu.regs.pc fault := by
  rw [(cpu.step_run bus).1, outcome_eq_error_iff]

/-- A failed step leaves the processor as it was but for the cost of the latest step, and what the
    bus holds as it was. -/
theorem step_of_error {cpu cpu' : Cpu} {bus bus' : β} {fault : Fault}
    (h : (cpu.step).run bus = ((.error fault, cpu'), bus')) :
    fault.pc = cpu.regs.pc ∧ cpu' = { cpu with cycles := 0 } ∧ held bus' = held bus := by
  have hfault : FaultAt cpu.config (view bus) cpu.regs.pc fault := by
    rw [← step_eq_error_iff, h]
  have houtcome := outcome_of_error (outcome_eq_error_iff.mpr hfault)
  obtain ⟨hresult, hheld⟩ := cpu.step_run bus
  rw [h, houtcome] at hresult hheld
  exact ⟨hfault.pc_eq, congrArg Prod.snd hresult, hheld⟩

end

/-! ### Traffic -/

/-- The reads that fetching an opcode takes: two for an opcode of the second table, one else. -/
def opcodeReads (image : Image) (pc : UInt16) : List Access :=
  if image pc = 0xCB then [⟨.read, pc, image pc⟩, ⟨.read, pc + 1, image (pc + 1)⟩]
  else [⟨.read, pc, image pc⟩]

/-- Whatever the bus, a failed step only fetches the opcode and reports the fault. -/
theorem step_bus_of_error {β : Type} [Bus β] {cpu cpu' : Cpu} {bus bus' : β} {fault : Fault}
    (h : (cpu.step).run bus = ((.error fault, cpu'), bus')) :
    bus' = ((do
      let _ ← fetchOpcode cpu.regs.pc
      Bus.report (.faulted fault.cause cpu.regs) : StateM β Unit).run bus).2 := by
  rw [step, StateT.run_bind] at h
  rw [StateT.run_bind]
  generalize (fetchOpcode cpu.regs.pc : StateM β (UInt8 × Bool)).run bus = fetched at h ⊢
  obtain ⟨⟨opcode, extended⟩, bus₁⟩ := fetched
  dsimp only [bind] at h ⊢
  cases hdecode : cpu.config.decode opcode extended with
  | ok i =>
    rw [hdecode] at h
    cases h
  | error cause =>
    rw [hdecode] at h
    cases h
    rfl

theorem traffic_fetchOpcode (pc : UInt16) (bus : FlatBus) :
    ((fetchOpcode pc : StateM FlatBus (UInt8 × Bool)).run bus).2.traffic.toList =
      bus.traffic.toList ++ opcodeReads bus.memory.get pc := by
  have hread (address : UInt16) (bus : FlatBus) :
      (Bus.read8 address : StateM FlatBus UInt8).run bus =
        (bus.memory.get address,
          { bus with traffic := bus.traffic.push ⟨.read, address, bus.memory.get address⟩ }) := rfl
  rw [fetchOpcode, StateT.run_bind, hread, opcodeReads]
  dsimp only [bind]
  by_cases hextended : bus.memory.get pc = extensionByte
  · have hbyte : bus.memory.get pc = 0xCB := hextended
    rw [if_pos hextended, if_pos hbyte]
    change ((bus.traffic.push _).push _).toList = _
    simp
  · have hbyte : ¬bus.memory.get pc = 0xCB := hextended
    rw [if_neg hextended, if_neg hbyte]
    exact Array.toList_push ..

/-- A failed step on a flat bus reads the opcode and makes no other access. -/
theorem traffic_of_error {cpu cpu' : Cpu} {bus bus' : FlatBus} {fault : Fault}
    (h : (cpu.step).run bus = ((.error fault, cpu'), bus')) :
    bus'.traffic.toList = bus.traffic.toList ++ opcodeReads bus.memory.get cpu.regs.pc := by
  rw [step_bus_of_error h]
  exact traffic_fetchOpcode cpu.regs.pc bus

end Cpu

end Handheld
