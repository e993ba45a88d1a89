-- SUMMARY: Each switch of a configuration acts on its own instructions only: runs that fetch none of those agree, and what a step that fetches one does otherwise.
import Handheld.Proofs.Cpu.Fetch

namespace Handheld

namespace Cpu

/-! ## What a switch governs -/

/-- Two configurations differ on the switch that governs an instruction with the given
    immediate. -/
def Config.DifferOn (config config' : Config) (immediate : UInt16) : Instruction → Prop
  | .alu .sub _ | .aluImm .sub => config.subtrahend ≠ config'.subtrahend
  | .loadHigh => loByte immediate = 0x44 ∧ config.spoofScanline ≠ config'.spoofScanline
  | .shift op _ => op ≠ .rl ∧ config.prefixedCoverage ≠ config'.prefixedCoverage
  | .res _ _ | .set _ _ => config.prefixedCoverage ≠ config'.prefixedCoverage
  | .stop => config.stopLength ≠ config'.stopLength
  | _ => False

/-- The processor with another configuration. -/
def withConfig (cpu : Cpu) (config : Config) : Cpu :=
  { cpu with config }

theorem ofOffset_eq_scanline_iff (offset : UInt8) :
    Hardware.ofOffset offset = Hardware.scanline ↔ offset = 0x44 :=
  forall_byte (P := fun offset => Hardware.ofOffset offset = Hardware.scanline ↔ offset = 0x44)
    (by decide +kernel) offset

theorem Config.supports_eq_of_not_differOn {config config' : Config} {immediate : UInt16}
    {i : Instruction} (h : ¬config.DifferOn config' immediate i) :
    config'.supports i = config.supports i := by
  by_cases hsame : config.prefixedCoverage = config'.prefixedCoverage
  · simp only [supports, hsame]
  · cases i with
    | shift op dst =>
      obtain rfl : op = .rl := Decidable.byContradiction fun hop => h ⟨hop, hsame⟩
      cases hc : config.prefixedCoverage <;> cases hc' : config'.prefixedCoverage <;>
        simp [supports, hc, hc']
    | bit index src =>
      cases hc : config.prefixedCoverage <;> cases hc' : config'.prefixedCoverage <;>
        simp [supports, hc, hc']
    | res index dst | set index dst => exact absurd hsame h
    | _ => rw [supports_of_not_prefixed _ rfl, supports_of_not_prefixed _ rfl]

theorem Config.advance_eq_of_not_differOn {config config' : Config} {immediate : UInt16}
    {i : Instruction} (h : ¬config.DifferOn config' immediate i) :
    config'.advance i = config.advance i := by
  by_cases hstop : i = .stop
  · subst hstop
    have hsame : config.stopLength = config'.stopLength := Decidable.not_not.mp h
    rw [advance, advance, hsame]
  · simp only [advance, hstop, false_and, if_false]

/-- An instruction does not look at a configuration that differs only on switches that do not
    govern it. -/
theorem spares_of_not_differOn {cpu : Cpu} {config : Config} {immediate : UInt16}
    {i : Instruction} (h : ¬cpu.config.DifferOn config immediate i) :
    ({ config := fun _ => config } : Refit).Spares cpu immediate i where
  supports := Config.supports_eq_of_not_differOn h
  advance := Config.advance_eq_of_not_differOn h
  subtrahend hsub := by
    rcases hsub with ⟨src, rfl⟩ | rfl <;> exact (Decidable.not_not.mp h).symm
  spoofs hload := by
    subst hload
    by_cases hoffset : loByte immediate = 0x44
    · have hsame : cpu.config.spoofScanline = config.spoofScanline :=
        Decidable.byContradiction fun hne => h ⟨hoffset, hne⟩
      exact congrArg (· && _) hsame.symm
    · have hother : (Hardware.ofOffset (loByte immediate) == Hardware.scanline) = false := by
        rw [beq_eq_false_iff_ne, ne_eq, ofOffset_eq_scanline_iff]
        exact hoffset
      rw [spoofs, spoofs, hother, Bool.and_false, Bool.and_false]
  overlay _ _ := ⟨rfl, rfl⟩

/-! ## Runs -/

section

variable {β : Type} [Bus β]

/-- The given number of steps, whether they fail or not, with their results. -/
def steps : Nat → Cpu → StateM β (List (Except Fault Nat) × Cpu)
  | 0, cpu => return ([], cpu)
  | n + 1, cpu => do
    let (results, cpu) ← steps n cpu
    let (result, cpu) ← cpu.step
    return (results ++ [result], cpu)

theorem config_steps (n : Nat) (cpu : Cpu) (bus : β) :
    ((steps n cpu).run bus).1.2.config = cpu.config := by
  induction n with
  | zero => rfl
  | succ n ih => exact (config_step _ _).trans ih

/-- What the step after the given number of steps fetches. -/
def fetchedAt (cpu : Cpu) (bus : β) (k : Nat) : Except Fault.Cause (Instruction × UInt16) :=
  ((fetch ((steps k cpu).run bus).1.2.regs.pc).run ((steps k cpu).run bus).2).1

/-- Runs under two configurations agree on everything else, as long as they fetch no instruction
    that is governed by a switch on which the configurations differ. -/
theorem steps_withConfig {cpu : Cpu} {config : Config} {bus : β} {n : Nat}
    (h : ∀ k < n, ∀ i immediate, cpu.fetchedAt bus k = .ok (i, immediate) →
      ¬cpu.config.DifferOn config immediate i) :
    (steps n (cpu.withConfig config)).run bus =
      ((((steps n cpu).run bus).1.1, ((steps n cpu).run bus).1.2.withConfig config),
        ((steps n cpu).run bus).2) := by
  induction n with
  | zero => rfl
  | succ n ih =>
    have hbefore := ih fun k hk => h k (Nat.lt_succ_of_lt hk)
    have hlast := h n n.lt_succ_self
    have hconfig := config_steps n cpu bus
    unfold fetchedAt at hlast
    rw [steps, StateT.run_bind, hbefore, steps, StateT.run_bind]
    generalize (steps n cpu).run bus = before at hlast hconfig ⊢
    obtain ⟨⟨results, reached⟩, bus'⟩ := before
    have hstep : ((reached.withConfig config).step).run bus' = _ :=
      step_refit (r := { config := fun _ => config }) fun i immediate hi => by
        have hconfig : reached.config = cpu.config := hconfig
        have hother := hlast i immediate hi
        rw [← hconfig] at hother
        exact spares_of_not_differOn hother
    show ((fun out : Except Fault Nat × Cpu => (results ++ [out.1], out.2)) <$>
      (reached.withConfig config).step).run bus' = _
    rw [StateT.run_map, hstep]
    rfl

/-! ## What a switch changes

The steps under the two settings of a switch, for each of the instructions that
it governs. Each is said of a whole step: its result, the processor after it and
the bus after it. -/

/-- The value that an accumulator operation works on: a register, the byte read at HL, or the
    immediate byte. -/
def operandValue (cpu : Cpu) (immediate : UInt16) : Instruction → StateM β UInt8
  | .alu _ .atHl => Bus.read8 cpu.regs.hl
  | .alu _ src => return cpu.operand8 0 src
  | _ => return loByte immediate

/-- What `SUB` leaves in A. -/
def difference (cpu : Cpu) (v : UInt8) : UInt8 :=
  match cpu.config.subtrahend with
  | .operand => cpu.regs.a - v
  | .registerB => cpu.regs.a - cpu.regs.b

/-- The processor after a subtraction of `v` that leaves `result`. -/
def subtracted (cpu : Cpu) (i : Instruction) (result v : UInt8) : Cpu :=
  { (cpu.passing i).accumulate (result, Alu.compare cpu.regs.a v) with cycles := i.cost.base }

/-- The processor after a load of a byte from the top page. -/
def loadedHigh (cpu : Cpu) (value : UInt8) : Cpu :=
  { cpu.goto (cpu.regs.pc + 2) with
    regs := { cpu.regs with pc := cpu.regs.pc + 2, a := value }
    cycles := 3 }

/-- The processor after a `STOP` that is as long as given. -/
def stopped (cpu : Cpu) (length : UInt16) : Cpu :=
  { cpu.goto (cpu.regs.pc + length) with halted := true, cycles := 1 }

/-- The instruction is a subtraction that `subtrahend` governs. -/
def IsSub (i : Instruction) : Prop :=
  i = .aluImm .sub ∨ ∃ src, i = .alu .sub src

theorem operate_sub (cpu : Cpu) (v : UInt8) :
    cpu.operate .sub v = cpu.accumulate (cpu.difference v, Alu.compare cpu.regs.a v) := by
  rw [operate, difference]
  cases cpu.config.subtrahend with
  | operand => rw [Alu.sub_eq_compare]
  | registerB => rfl

theorem carryOut_sub (cpu : Cpu) {i : Instruction} (immediate : UInt16) (bus : β) (h : IsSub i) :
    (cpu.carryOut i immediate).run bus =
      (let (v, bus') := (cpu.operandValue immediate i).run (cpu.announced i immediate bus)
      ((.ok i.cost.base, cpu.subtracted i (cpu.difference v) v), bus')) := by
  have hdone (i : Instruction) (v : UInt8) (bus' : β) :
      (((.ok i.cost.base, { (cpu.passing i).operate .sub v with cycles := i.cost.base }), bus') :
          (Except Fault Nat × Cpu) × β) =
        ((.ok i.cost.base, cpu.subtracted i (cpu.difference v) v), bus') := by
    rw [operate_sub]
    rfl
  rcases h with rfl | ⟨src, rfl⟩
  · exact hdone _ _ _
  · cases src with
    | atHl =>
      let read : UInt8 × β := (Bus.read8 cpu.regs.hl : StateM β UInt8).run
        (cpu.announced (.alu .sub .atHl) immediate bus)
      refine (hdone (.alu .sub .atHl) (loByte read.1.toUInt16) read.2).trans ?_
      rw [loByte_toUInt16]
      rfl
    | _ => exact hdone _ _ _

theorem prefixed_of_isSub {i : Instruction} (h : IsSub i) : i.prefixed = false := by
  rcases h with rfl | ⟨src, rfl⟩ <;> rfl

theorem carryOut_loadHigh (cpu : Cpu) {immediate : UInt16} (bus : β)
    (hoffset : loByte immediate = 0x44) :
    (cpu.carryOut .loadHigh immediate).run bus =
      if cpu.config.spoofScanline then
        ((.ok 3, cpu.loadedHigh 0x90), cpu.announced .loadHigh immediate bus)
      else
        let (v, bus') := (Bus.read8 0xFF44 : StateM β UInt8).run
          (cpu.announced .loadHigh immediate bus)
        ((.ok 3, cpu.loadedHigh v), bus') := by
  have haddress : Hardware.ofOffset (loByte immediate) = Hardware.scanline :=
    (ofOffset_eq_scanline_iff _).mpr hoffset
  have hspoofs : (cpu.passing .loadHigh).spoofs (loByte immediate) = cpu.config.spoofScanline := by
    rw [spoofs, haddress, beq_self_eq_true, Bool.and_true]
    rfl
  simp only [carryOut, dataRead, effect, hspoofs, haddress]
  cases cpu.config.spoofScanline with
  | true => rfl
  | false =>
    let read : UInt8 × β := (Bus.read8 0xFF44 : StateM β UInt8).run
      (cpu.announced .loadHigh immediate bus)
    show (((Except.ok 3 : Except Fault Nat), cpu.loadedHigh (loByte read.1.toUInt16)), read.2) = _
    rw [loByte_toUInt16]
    rfl

theorem carryOut_stop (cpu : Cpu) (immediate : UInt16) (bus : β) :
    (cpu.carryOut .stop immediate).run bus =
      ((.ok 1, cpu.stopped (if cpu.config.stopLength = .oneByte then 1 else 2)),
        cpu.announced .stop immediate bus) := by
  have hadvance : cpu.config.advance .stop =
      if cpu.config.stopLength = .oneByte then 1 else 2 := by
    simp only [Config.advance, true_and]
    rfl
  rw [← hadvance]
  rfl

/-- The processors after a step, under two settings of the switch for what is subtracted. -/
theorem step_of_sub {cpu : Cpu} {config : Config} {i : Instruction} {immediate : UInt16}
    {bus bus₁ : β} (hfetch : (fetch cpu.regs.pc).run bus = (.ok (i, immediate), bus₁))
    (hsub : IsSub i) (hcpu : cpu.config.subtrahend = .operand)
    (hconfig : config.subtrahend = .registerB) :
    let (v, bus') := (cpu.operandValue immediate i).run (cpu.announced i immediate bus₁)
    (cpu.step).run bus = ((.ok i.cost.base, cpu.subtracted i (cpu.regs.a - v) v), bus') ∧
      ((cpu.withConfig config).step).run bus =
        ((.ok i.cost.base, (cpu.subtracted i (cpu.regs.a - cpu.regs.b) v).withConfig config),
          bus') := by
  have hsupports (config : Config) : config.supports i = true :=
    config.supports_of_not_prefixed (prefixed_of_isSub hsub)
  have hstep := step_of_fetch_ok cpu hfetch (hsupports _)
  have hstep' := step_of_fetch_ok (cpu.withConfig config) hfetch (hsupports _)
  rw [carryOut_sub _ _ _ hsub] at hstep hstep'
  have hoperand (v : UInt8) : cpu.difference v = cpu.regs.a - v := by rw [difference, hcpu]
  have hregister (v : UInt8) : (cpu.withConfig config).difference v = cpu.regs.a - cpu.regs.b := by
    have hset : (cpu.withConfig config).config.subtrahend = .registerB := hconfig
    rw [difference, hset]
    rfl
  simp only [hoperand] at hstep
  simp only [hregister] at hstep'
  refine ⟨hstep, hstep'.trans ?_⟩
  rcases hsub with rfl | ⟨src, rfl⟩
  · rfl
  · cases src <;> rfl

/-- A subtraction of register B is the same under every configuration. -/
theorem step_of_sub_b {cpu : Cpu} {config : Config} {immediate : UInt16} {bus bus₁ : β}
    (hfetch : (fetch cpu.regs.pc).run bus = (.ok (.alu .sub .b, immediate), bus₁)) :
    ((cpu.withConfig config).step).run bus =
      ((((cpu.step).run bus).1.1, ((cpu.step).run bus).1.2.withConfig config),
        ((cpu.step).run bus).2) := by
  have hsub : IsSub (.alu .sub .b) := .inr ⟨.b, rfl⟩
  have hdifference (cpu : Cpu) : cpu.difference cpu.regs.b = cpu.regs.a - cpu.regs.b := by
    rw [difference]
    cases cpu.config.subtrahend <;> rfl
  have hstep (cpu : Cpu) (h : (fetch cpu.regs.pc).run bus = (.ok (.alu .sub .b, immediate), bus₁)) :
      (cpu.step).run bus =
        ((.ok 1, cpu.subtracted (.alu .sub .b) (cpu.regs.a - cpu.regs.b) cpu.regs.b),
          cpu.announced (.alu .sub .b) immediate bus₁) := by
    rw [step_of_fetch_ok cpu h (Config.supports_of_not_prefixed _ rfl), carryOut_sub _ _ _ hsub,
      ← hdifference]
    rfl
  rw [hstep cpu hfetch, hstep (cpu.withConfig config) hfetch]
  rfl

theorem step_of_loadHigh {cpu : Cpu} {config : Config} {immediate : UInt16} {bus bus₁ : β}
    (hfetch : (fetch cpu.regs.pc).run bus = (.ok (.loadHigh, immediate), bus₁))
    (hoffset : loByte immediate = 0x44) (hcpu : cpu.config.spoofScanline = true)
    (hconfig : config.spoofScanline = false) :
    let announced := cpu.announced .loadHigh immediate bus₁
    let (v, bus') := (Bus.read8 0xFF44 : StateM β UInt8).run announced
    (cpu.step).run bus = ((.ok 3, cpu.loadedHigh 0x90), announced) ∧
      ((cpu.withConfig config).step).run bus =
        ((.ok 3, (cpu.loadedHigh v).withConfig config), bus') := by
  have hstep := step_of_fetch_ok cpu hfetch (Config.supports_of_not_prefixed _ rfl)
  have hstep' := step_of_fetch_ok (cpu.withConfig config) hfetch
    (Config.supports_of_not_prefixed _ rfl)
  have hset : (cpu.withConfig config).config.spoofScanline = false := hconfig
  rw [carryOut_loadHigh _ _ hoffset, hcpu, if_pos rfl] at hstep
  rw [carryOut_loadHigh _ _ hoffset, hset, if_neg Bool.false_ne_true] at hstep'
  exact ⟨hstep, hstep'⟩

theorem step_of_stop {cpu : Cpu} {config : Config} {immediate : UInt16} {bus bus₁ : β}
    (hfetch : (fetch cpu.regs.pc).run bus = (.ok (.stop, immediate), bus₁))
    (hcpu : cpu.config.stopLength = .twoBytes) (hconfig : config.stopLength = .oneByte) :
    let announced := cpu.announced .stop immediate bus₁
    (cpu.step).run bus = ((.ok 1, cpu.stopped 2), announced) ∧
      ((cpu.withConfig config).step).run bus =
        ((.ok 1, (cpu.stopped 1).withConfig config), announced) := by
  have hstep := step_of_fetch_ok cpu hfetch (Config.supports_of_not_prefixed _ rfl)
  have hstep' := step_of_fetch_ok (cpu.withConfig config) hfetch
    (Config.supports_of_not_prefixed _ rfl)
  have hset : (cpu.withConfig config).config.stopLength = .oneByte := hconfig
  rw [carryOut_stop, hcpu] at hstep
  rw [carryOut_stop, hset] at hstep'
  exact ⟨hstep, hstep'⟩

/-- An instruction of the second table that a configuration may leave out. -/
structure IsOptional (i : Instruction) : Prop where
  prefixed : i.prefixed = true
  not_rotate : ∀ dst, i ≠ .shift .rl dst
  not_bit : ∀ index src, i ≠ .bit index src

theorem IsOptional.supports_iff {i : Instruction} (h : IsOptional i) (config : Config) :
    config.supports i = true ↔ config.prefixedCoverage = .full := by
  unfold Config.supports
  cases config.prefixedCoverage with
  | full => simp
  | bitAndRotate =>
    cases i with
    | shift op dst =>
      have hop : op ≠ .rl := fun hop => h.not_rotate dst (hop ▸ rfl)
      simp [hop]
    | bit index src => exact absurd rfl (h.not_bit index src)
    | res index dst | set index dst => simp [Instruction.prefixed]
    | _ => cases h.prefixed

theorem costOf_of_prefixed {i : Instruction} (h : i.prefixed = true) (effect : Effect) :
    costOf i effect = i.cost.base := by
  rw [costOf]
  cases i with
  | shift op dst | bit index src | res index dst | set index dst => split <;> rfl
  | _ => cases h

theorem step_of_optional {cpu : Cpu} {config : Config} {i : Instruction} {immediate : UInt16}
    {bus bus₁ : β} (hfetch : (fetch cpu.regs.pc).run bus = (.ok (i, immediate), bus₁))
    (hoptional : IsOptional i) (hcpu : cpu.config.prefixedCoverage = .full)
    (hconfig : config.prefixedCoverage = .bitAndRotate) :
    (cpu.step).run bus = (cpu.carryOut i immediate).run bus₁ ∧
      ((cpu.step).run bus).1.1 = .ok i.cost.base ∧
      ((cpu.withConfig config).step).run bus =
        ((.error ⟨.unimplemented i.diagnosticName, cpu.regs.pc⟩,
          { cpu.withConfig config with cycles := 0 }),
          ((Bus.report (.faulted (.unimplemented i.diagnosticName) cpu.regs) :
            StateM β Unit).run bus₁).2) := by
  have hstep := step_of_fetch_ok cpu hfetch ((hoptional.supports_iff _).mpr hcpu)
  have hleftOut : ¬(cpu.withConfig config).config.supports i = true := by
    rw [hoptional.supports_iff]
    exact fun hfull => absurd (hconfig.symm.trans hfull) (by decide)
  refine ⟨hstep, ?_, ?_⟩
  · rw [hstep]
    exact congrArg Except.ok (costOf_of_prefixed hoptional.prefixed _)
  · have hstep' : ((cpu.withConfig config).step).run bus = _ := step_of_fetch hfetch
    rw [hstep', conclude, if_neg hleftOut]
    rfl

/-- Switches act on their own instructions only. Take a processor on any bus and the same one with
    another configuration. As long as neither run fetches an instruction that is governed by a
    switch on which the configurations differ, the runs have the same results and leave the same
    processors, but for the configuration, and the same bus. A step that fetches a governed
    instruction differs only in what the switch is for: in the value that is left in A, with or
    without a read of the display line; in how far the program counter moves; or in that the
    instruction is refused after its opcode has been read. -/
theorem switches_act_alone (cpu : Cpu) (config : Config) (bus : β) :
    (∀ n, (∀ k < n, ∀ i immediate, cpu.fetchedAt bus k = .ok (i, immediate) →
          ¬cpu.config.DifferOn config immediate i) →
        (steps n (cpu.withConfig config)).run bus =
          ((((steps n cpu).run bus).1.1, ((steps n cpu).run bus).1.2.withConfig config),
            ((steps n cpu).run bus).2)) ∧
      (∀ i immediate bus₁, (fetch cpu.regs.pc).run bus = (.ok (i, immediate), bus₁) →
        let announced := cpu.announced i immediate bus₁
        (IsSub i → cpu.config.subtrahend = .operand → config.subtrahend = .registerB →
          let (v, bus') := (cpu.operandValue immediate i).run announced
          (cpu.step).run bus =
              ((.ok i.cost.base, cpu.subtracted i (cpu.regs.a - v) v), bus') ∧
            ((cpu.withConfig config).step).run bus =
              ((.ok i.cost.base,
                (cpu.subtracted i (cpu.regs.a - cpu.regs.b) v).withConfig config), bus')) ∧
        (i = .alu .sub .b →
          ((cpu.withConfig config).step).run bus =
            ((((cpu.step).run bus).1.1, ((cpu.step).run bus).1.2.withConfig config),
              ((cpu.step).run bus).2)) ∧
        (i = .loadHigh → loByte immediate = 0x44 →
          cpu.config.spoofScanline = true → config.spoofScanline = false →
          let (v, bus') := (Bus.read8 0xFF44 : StateM β UInt8).run announced
          (cpu.step).run bus = ((.ok 3, cpu.loadedHigh 0x90), announced) ∧
            ((cpu.withConfig config).step).run bus =
              ((.ok 3, (cpu.loadedHigh v).withConfig config), bus')) ∧
        (i = .stop → cpu.config.stopLength = .twoBytes → config.stopLength = .oneByte →
          (cpu.step).run bus = ((.ok 1, cpu.stopped 2), announced) ∧
            ((cpu.withConfig config).step).run bus =
              ((.ok 1, (cpu.stopped 1).withConfig config), announced)) ∧
        (IsOptional i →
          cpu.config.prefixedCoverage = .full → config.prefixedCoverage = .bitAndRotate →
          (cpu.step).run bus = (cpu.carryOut i immediate).run bus₁ ∧
            ((cpu.step).run bus).1.1 = .ok i.cost.base ∧
            ((cpu.withConfig config).step).run bus =
              ((.error ⟨.unimplemented i.diagnosticName, cpu.regs.pc⟩,
                { cpu.withConfig config with cycles := 0 }),
                ((Bus.report (.faulted (.unimplemented i.diagnosticName) cpu.regs) :
                  StateM β Unit).run bus₁).2))) := by
  refine ⟨fun n h => steps_withConfig h, ?_⟩
  intro i immediate bus₁ hfetch
  refine ⟨step_of_sub hfetch, ?_, ?_, ?_, step_of_optional hfetch⟩
  · rintro rfl
    exact step_of_sub_b hfetch
  · rintro rfl
    exact step_of_loadHigh hfetch
  · rintro rfl
    exact step_of_stop hfetch

end

/-- A program that does nothing for one step and then reads the display line. -/
def lineReader : FlatBus where
  memory := (Memory.zero.set 1 0xF0).set 2 0x44

theorem get_lineReader : lineReader.memory.get =
    fun address => if address = 2 then 0x44 else if address = 1 then 0xF0 else 0 := by
  funext address
  rw [lineReader, Memory.get_set, Memory.get_set, Memory.get_zero]

/-- On a flat bus a fetch yields what the memory says, and leaves it alone. -/
theorem fetch_run_flat (pc : UInt16) (bus : FlatBus) :
    ∃ bus₁, (fetch pc).run bus = (fetchedIn bus.memory.get pc, bus₁) ∧
      bus₁.memory = bus.memory := by
  obtain ⟨hfetched, hheld⟩ := fetch_observes pc bus
  exact ⟨_, Prod.ext hfetched rfl, hheld⟩

theorem switches_act_alone_lineReader :
    let other : Config :=
      { subtrahend := .registerB, spoofScanline := false, prefixedCoverage := .bitAndRotate
        stopLength := .oneByte }
    let reader : Cpu := { regs := { pc := 1 } }
    (steps 1 (({} : Cpu).withConfig other)).run lineReader =
        ((((steps 1 {}).run lineReader).1.1, ((steps 1 {}).run lineReader).1.2.withConfig other),
          ((steps 1 {}).run lineReader).2) ∧
      ((reader.step).run lineReader).1.2.regs.a = 0x90 ∧
      (((reader.withConfig other).step).run lineReader).1.2.regs.a = 0 := by
  intro other reader
  have hnop : fetchedIn lineReader.memory.get 0 = .ok (.nop, 0) := by
    rw [get_lineReader]
    rfl
  have hload : fetchedIn lineReader.memory.get 1 = .ok (.loadHigh, 0x44) := by
    rw [get_lineReader]
    rfl
  constructor
  · refine (switches_act_alone {} other lineReader).1 1 ?_
    intro k hk i immediate hfetched
    obtain rfl : k = 0 := Nat.lt_one_iff.mp hk
    obtain ⟨bus₁, hfetch, -⟩ := fetch_run_flat 0 lineReader
    have hfirst : fetchedAt ({} : Cpu) lineReader 0 = .ok (.nop, 0) :=
      (congrArg Prod.fst hfetch).trans hnop
    cases hfirst.symm.trans hfetched
    exact id
  · obtain ⟨bus₁, hfetch, hmemory⟩ := fetch_run_flat 1 lineReader
    rw [hload] at hfetch
    obtain ⟨hspoofed, hread⟩ :=
      ((switches_act_alone reader other lineReader).2 _ _ bus₁ hfetch).2.2.1 rfl rfl rfl rfl
    have hline : bus₁.memory.get 0xFF44 = 0 := by
      rw [hmemory, get_lineReader]
      decide
    rw [hspoofed, hread]
    exact ⟨rfl, hline⟩

end Cpu

end Handheld
