-- SUMMARY: What the effect of an instruction leaves alone, and how many bytes it can store.
import Handheld.Proofs.AddressSpace.Stores
import Handheld.Proofs.Cpu.Outcome

namespace Handheld

/-! ## Transfers of control -/

/-- Whether an instruction can continue elsewhere than behind itself. -/
def Instruction.transfers : Instruction → Bool
  | jr _ | jp _ | jpHl | call _ | ret _ | reti | rst _ => true
  | _ => false

namespace Cpu

/-! ## What an effect keeps

Every instruction keeps the configuration, and none brings a boot overlay back.
Those that are no transfers of control keep the program counter, which is
already past them. -/

/-- The configuration and the program counter are kept, and an overlay does not come back. -/
structure Keeps (cpu cpu' : Cpu) : Prop where
  pc : cpu'.regs.pc = cpu.regs.pc
  config : cpu'.config = cpu.config
  overlay : cpu.overlay = none → cpu'.overlay = none

theorem Keeps.refl (cpu : Cpu) : Keeps cpu cpu := ⟨rfl, rfl, id⟩

theorem keeps_put8 (cpu : Cpu) (dst : Operand8) (value : UInt8) :
    Keeps cpu (cpu.put8 dst value).cpu := by
  cases dst <;> exact ⟨rfl, rfl, id⟩

theorem keeps_replace8 (cpu : Cpu) (dst : Operand8) (result : UInt8 × Flags) :
    Keeps cpu (cpu.replace8 dst result).cpu :=
  have h := keeps_put8 (cpu.withFlags result.2) dst result.1
  ⟨h.pc, h.config, h.overlay⟩

theorem keeps_setReg16 (cpu : Cpu) (dst : Reg16) (value : UInt16) :
    Keeps cpu (cpu.setReg16 dst value) := by
  cases dst <;> exact ⟨rfl, rfl, id⟩

theorem keeps_setStackPair (cpu : Cpu) (dst : StackPair) (value : UInt16) :
    Keeps cpu (cpu.setStackPair dst value) := by
  cases dst <;> exact ⟨rfl, rfl, id⟩

theorem keeps_stepPointer (cpu : Cpu) (pointer : Pointer) :
    Keeps cpu (cpu.stepPointer pointer) := by
  cases pointer <;> exact ⟨rfl, rfl, id⟩

theorem keeps_operate (cpu : Cpu) (op : AluOp) (value : UInt8) :
    Keeps cpu (cpu.operate op value) := by
  cases op with
  | sub =>
    rw [operate]
    cases cpu.config.subtrahend <;> exact ⟨rfl, rfl, id⟩
  | _ => exact ⟨rfl, rfl, id⟩

theorem keeps_storeHigh (cpu : Cpu) (offset : UInt8) : Keeps cpu (cpu.storeHigh offset).cpu := by
  unfold storeHigh
  cases cpu.overlay with
  | none => exact .refl cpu
  | some overlay =>
    dsimp only
    split
    · exact ⟨rfl, rfl, fun _ => rfl⟩
    · exact .refl cpu

/-- An instruction that is no transfer of control goes on with the next one. -/
theorem keeps_effect (cpu : Cpu) (immediate data : UInt16) (i : Instruction)
    (h : i.transfers = false) : Keeps cpu (cpu.effect immediate data i).cpu := by
  cases i with
  | ld dst src | ldImm dst | res index dst | set index dst => exact keeps_put8 ..
  | ldImm16 dst | inc16 dst | dec16 dst => exact keeps_setReg16 ..
  | storeA dst => exact keeps_stepPointer ..
  | loadA src =>
    have hstep := keeps_stepPointer cpu src
    exact ⟨hstep.pc, hstep.config, hstep.overlay⟩
  | storeHigh => exact keeps_storeHigh ..
  | alu op src | aluImm op => exact keeps_operate ..
  | inc dst | dec dst | shift op dst => exact keeps_replace8 ..
  | pop pair =>
    have hpair := keeps_setStackPair cpu.drop pair data
    exact ⟨hpair.pc, hpair.config, hpair.overlay⟩
  | jr condition | jp condition | jpHl | call condition | ret condition | reti | rst target =>
    cases h
  | _ => exact ⟨rfl, rfl, id⟩

/-- A transfer of control keeps the configuration and the overlay. -/
theorem config_overlay_transfer (cpu : Cpu) (immediate data : UInt16) (i : Instruction)
    (h : i.transfers = true) :
    (cpu.effect immediate data i).cpu.config = cpu.config ∧
      (cpu.effect immediate data i).cpu.overlay = cpu.overlay := by
  cases i with
  | jr condition | jp condition | call condition | ret condition =>
    rw [effect]
    split <;> exact ⟨rfl, rfl⟩
  | jpHl => exact ⟨rfl, rfl⟩
  | reti => exact ⟨rfl, rfl⟩
  | rst target => exact ⟨rfl, rfl⟩
  | _ => cases h

theorem config_effect (cpu : Cpu) (immediate data : UInt16) (i : Instruction) :
    (cpu.effect immediate data i).cpu.config = cpu.config := by
  cases h : i.transfers with
  | false => exact (keeps_effect cpu immediate data i h).config
  | true => exact (config_overlay_transfer cpu immediate data i h).1

theorem overlay_effect {cpu : Cpu} (immediate data : UInt16) (i : Instruction)
    (hoverlay : cpu.overlay = none) : (cpu.effect immediate data i).cpu.overlay = none := by
  cases h : i.transfers with
  | false => exact (keeps_effect cpu immediate data i h).overlay hoverlay
  | true => exact (config_overlay_transfer cpu immediate data i h).2.trans hoverlay

/-! ## Stores

An instruction stores two bytes at most, except the store to the boot switch
that puts the bytes under the overlay back. -/

theorem length_stores_put8 (cpu : Cpu) (dst : Operand8) (value : UInt8) :
    (storesOf (cpu.put8 dst value).actions).length ≤ 2 := by
  cases dst with
  | atHl => exact Nat.le_succ 1
  | _ => exact Nat.zero_le 2

theorem length_stores_storeHigh {cpu : Cpu} (offset : UInt8) (hoverlay : cpu.overlay = none) :
    (storesOf (cpu.storeHigh offset).actions).length ≤ 2 := by
  rw [storeHigh, hoverlay]
  exact Nat.le_succ 1

theorem length_stores_effect {cpu : Cpu} (immediate data : UInt16) (i : Instruction)
    (hoverlay : cpu.overlay = none) :
    (storesOf (cpu.effect immediate data i).actions).length ≤ 2 := by
  cases i with
  | ld dst src | ldImm dst | inc dst | dec dst | shift op dst | res index dst | set index dst =>
    exact length_stores_put8 ..
  | storeA dst | storeHighC | storeAbs => exact Nat.le_succ 1
  | storeHigh => exact length_stores_storeHigh _ hoverlay
  | call condition =>
    rw [effect]
    split
    · exact Nat.le_refl 2
    · exact Nat.zero_le 2
  | jr condition | jp condition | ret condition =>
    rw [effect]
    split <;> exact Nat.zero_le 2
  | storeSp | rst target | push pair => exact Nat.le_refl 2
  | _ => exact Nat.zero_le 2

end Cpu

/-! ## What most instructions never look at

The configuration, the overlay and what the step before has cost are part of the
processor, but decide next to nothing. Only subtractions, loads from the top page
and the instructions that a configuration may leave out or cut short look at the
configuration, only the store to the boot switch looks at the overlay, and
nothing looks at the cost. -/

/-- A change of the parts of the processor that most instructions never look at. -/
structure Refit where
  config : Cpu.Config → Cpu.Config := id
  overlay : Option BootOverlay → Option BootOverlay := id
  cycles : Nat → Nat := id

/-- What is left of the change after a step, which sets the cost anew. -/
def Refit.lasting (r : Refit) : Refit :=
  { r with cycles := id }

/-- The processor after the change. -/
def Cpu.refit (cpu : Cpu) (r : Refit) : Cpu :=
  { cpu with
    config := r.config cpu.config
    overlay := r.overlay cpu.overlay
    cycles := r.cycles cpu.cycles }

/-- The effect on a processor after the change. -/
def Effect.refit (effect : Effect) (r : Refit) : Effect :=
  { effect with cpu := effect.cpu.refit r }

/-- An instruction with the given immediate does not look at what the change concerns. -/
structure Refit.Spares (r : Refit) (cpu : Cpu) (immediate : UInt16) (i : Instruction) : Prop where
  supports : (r.config cpu.config).supports i = cpu.config.supports i
  advance : (r.config cpu.config).advance i = cpu.config.advance i
  subtrahend : (∃ src, i = .alu .sub src) ∨ i = .aluImm .sub →
    (r.config cpu.config).subtrahend = cpu.config.subtrahend
  spoofs : i = .loadHigh →
    (cpu.refit r).spoofs (loByte immediate) = cpu.spoofs (loByte immediate)
  overlay : i = .storeHigh → Hardware.ofOffset (loByte immediate) = Hardware.bootOff →
    r.overlay cpu.overlay = cpu.overlay ∧ r.overlay none = none

theorem Effect.refit_ite (c : Prop) [Decidable c] (taken untaken : Effect) (r : Refit) :
    (if c then taken else untaken).refit r = if c then taken.refit r else untaken.refit r := by
  split <;> rfl

namespace Cpu

theorem put8_refit (cpu : Cpu) (r : Refit) (dst : Operand8) (value : UInt8) :
    (cpu.refit r).put8 dst value = (cpu.put8 dst value).refit r := by
  cases dst <;> rfl

theorem setReg16_refit (cpu : Cpu) (r : Refit) (dst : Reg16) (value : UInt16) :
    (cpu.refit r).setReg16 dst value = (cpu.setReg16 dst value).refit r := by
  cases dst <;> rfl

theorem setStackPair_refit (cpu : Cpu) (r : Refit) (dst : StackPair) (value : UInt16) :
    (cpu.refit r).setStackPair dst value = (cpu.setStackPair dst value).refit r := by
  cases dst <;> rfl

theorem stepPointer_refit (cpu : Cpu) (r : Refit) (pointer : Pointer) :
    (cpu.refit r).stepPointer pointer = (cpu.stepPointer pointer).refit r := by
  cases pointer <;> rfl

theorem operate_refit {cpu : Cpu} {r : Refit} {op : AluOp} (value : UInt8)
    (h : op = .sub → (r.config cpu.config).subtrahend = cpu.config.subtrahend) :
    (cpu.refit r).operate op value = (cpu.operate op value).refit r := by
  cases op with
  | sub =>
    have hsame : (cpu.refit r).config.subtrahend = cpu.config.subtrahend := h rfl
    simp only [operate, hsame]
    cases cpu.config.subtrahend <;> rfl
  | _ => rfl

theorem storeHigh_refit {cpu : Cpu} {r : Refit} {offset : UInt8}
    (h : Hardware.ofOffset offset = Hardware.bootOff →
      r.overlay cpu.overlay = cpu.overlay ∧ r.overlay none = none) :
    (cpu.refit r).storeHigh offset = (cpu.storeHigh offset).refit r := by
  by_cases haddress : Hardware.ofOffset offset = Hardware.bootOff
  · obtain ⟨hkept, hnone⟩ := h haddress
    have hsame : (cpu.refit r).overlay = cpu.overlay := hkept
    simp only [storeHigh, hsame, haddress, if_true]
    cases cpu.overlay with
    | none => rfl
    | some overlay => simp only [Effect.refit, refit, hnone]
  · have hplain (cpu : Cpu) : cpu.storeHigh offset =
        { cpu, actions := [.write8 (Hardware.ofOffset offset) cpu.regs.a] } := by
      simp only [storeHigh, haddress, if_false]
      split <;> rfl
    rw [hplain, hplain]
    rfl

/-- The data that an instruction needs does not depend on what it does not look at. -/
theorem dataRead_refit {cpu : Cpu} {r : Refit} {immediate : UInt16} {i : Instruction}
    (h : r.Spares cpu immediate i) :
    (cpu.refit r).dataRead immediate i = cpu.dataRead immediate i := by
  cases i with
  | loadHigh => rw [dataRead, dataRead, h.spoofs rfl]
  | _ => rfl

/-- An instruction has the same effect, whatever the parts are that it does not look at. -/
theorem effect_refit {cpu : Cpu} {r : Refit} {immediate : UInt16} (data : UInt16)
    {i : Instruction} (h : r.Spares cpu immediate i) :
    (cpu.refit r).effect immediate data i = (cpu.effect immediate data i).refit r := by
  cases i with
  | ld dst src | ldImm dst | res index dst | set index dst => exact put8_refit ..
  | inc dst | dec dst | shift op dst => exact put8_refit (cpu.withFlags _) ..
  | ldImm16 dst | inc16 dst | dec16 dst =>
    exact congrArg (Effect.mk · [] false) (setReg16_refit ..)
  | storeA dst =>
    exact congrArg (Effect.mk · [.write8 (cpu.pointer dst) cpu.regs.a] false) (stepPointer_refit ..)
  | loadA src =>
    exact congrArg (fun stepped : Cpu => Effect.mk { stepped with regs.a := loByte data } [] false)
      (stepPointer_refit ..)
  | loadHigh =>
    rw [effect, effect, h.spoofs rfl]
    rfl
  | storeHigh => exact storeHigh_refit (h.overlay rfl)
  | alu op src =>
    have hsub : op = .sub → (r.config cpu.config).subtrahend = cpu.config.subtrahend := by
      rintro rfl
      exact h.subtrahend (.inl ⟨src, rfl⟩)
    exact congrArg (Effect.mk · [] false) (operate_refit _ hsub)
  | aluImm op =>
    have hsub : op = .sub → (r.config cpu.config).subtrahend = cpu.config.subtrahend := by
      rintro rfl
      exact h.subtrahend (.inr rfl)
    exact congrArg (Effect.mk · [] false) (operate_refit _ hsub)
  | jr condition | jp condition | call condition | ret condition =>
    rw [effect, effect, Effect.refit_ite]
    rfl
  | pop pair => exact congrArg (Effect.mk · [] false) (setStackPair_refit cpu.drop ..)
  | _ => rfl

/-- The processor when the latest step had the given cost. -/
def timed (cpu : Cpu) (cost : Nat) : Cpu :=
  { cpu with cycles := cost }

/-- No instruction looks at what the step before has cost. -/
theorem effect_timed (cpu : Cpu) (cost : Nat) (immediate data : UInt16) (i : Instruction) :
    (cpu.timed cost).effect immediate data i =
      (cpu.effect immediate data i).refit { cycles := fun _ => cost } :=
  effect_refit (r := { cycles := fun _ => cost }) data
    { supports := rfl
      advance := rfl
      subtrahend := fun _ => rfl
      spoofs := fun _ => rfl
      overlay := fun _ _ => ⟨rfl, rfl⟩ }

/-! ## Whole steps -/

theorem outcome_timed (cpu : Cpu) (cost : Nat) (image : Image) :
    (cpu.timed cost).outcome image = cpu.outcome image := by
  have hsame : (cpu.timed cost).instructionIn image = cpu.instructionIn image := rfl
  rw [outcome, outcome, hsame]
  cases cpu.instructionIn image with
  | error cause => rfl
  | ok i =>
    have heffect : (cpu.timed cost).effectIn image i =
        (cpu.effectIn image i).refit { cycles := fun _ => cost } :=
      effect_timed (cpu.passing i) cost _ _ i
    dsimp only
    rw [heffect]
    rfl

theorem config_outcome (cpu : Cpu) (image : Image) :
    (cpu.outcome image).1.2.config = cpu.config := by
  rw [outcome]
  cases cpu.instructionIn image with
  | error cause => rfl
  | ok i => exact config_effect (cpu.passing i) _ _ i

theorem overlay_outcome {cpu : Cpu} (image : Image) (hoverlay : cpu.overlay = none) :
    (cpu.outcome image).1.2.overlay = none := by
  rw [outcome]
  cases cpu.instructionIn image with
  | error cause => exact hoverlay
  | ok i => exact overlay_effect _ _ i hoverlay

theorem length_stores_outcome {cpu : Cpu} (image : Image) (hoverlay : cpu.overlay = none) :
    (storesOf (cpu.outcome image).2).length ≤ 2 := by
  rw [outcome]
  cases cpu.instructionIn image with
  | error cause => exact Nat.zero_le 2
  | ok i => exact length_stores_effect _ _ i hoverlay

end Cpu

end Handheld
