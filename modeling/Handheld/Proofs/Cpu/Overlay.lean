-- SUMMARY: The life of a boot overlay: it stays until LDH (a8),A stores to the boot switch; that step, and no other, puts the cartridge bytes back.
import Handheld.Proofs.Bus.ByteBus
import Handheld.Proofs.Bus.Storing
import Handheld.Proofs.Cpu.Fetch
import Handheld.Proofs.Cpu.Traffic

namespace Handheld

open LawfulBus

theorem ofOffset_eq_bootOff_iff (offset : UInt8) :
    Hardware.ofOffset offset = Hardware.bootOff ↔ offset = 0x50 :=
  forall_byte (P := fun offset => Hardware.ofOffset offset = Hardware.bootOff ↔ offset = 0x50)
    (by decide +kernel) offset

/-- The bytes that an overlay of a cartridge hides: those of the cartridge, and zeros behind it. -/
def cartridgeByte (cartridge : ByteArray) (k : Nat) : UInt8 :=
  if h : k < cartridge.size then cartridge.get k h else 0

theorem BootOverlay.restore_ofCartridge (cartridge : ByteArray) :
    (BootOverlay.ofCartridge cartridge).restore =
      writeAll (ascending bootSize (cartridgeByte cartridge)) := by
  rw [restore, writeAll, ascending, List.map_map, ← List.map_coe_finRange_eq_range, List.map_map]
  refine List.map_congr_left fun i _ => ?_
  have hbyte : (BootOverlay.ofCartridge cartridge).saved[i] = cartridgeByte cartridge i.val :=
    Vector.getElem_ofFn i.isLt
  rw [hbyte]
  rfl

namespace Cpu

/-! ## The step that unmaps -/

/-- The processor with another overlay, or without one. -/
def withOverlay (cpu : Cpu) (overlay : Option BootOverlay) : Cpu :=
  { cpu with overlay }

/-- The next step fetches `LDH (a8),A` with the boot switch as its target. -/
def Unmaps {β : Type} [Bus β] (cpu : Cpu) (bus : β) : Prop :=
  ∃ immediate, ((fetch cpu.regs.pc).run bus).1 = .ok (.storeHigh, immediate) ∧
    loByte immediate = 0x50

/-- What the step that unmaps an overlay does to the bus: it puts the cartridge bytes back in
    ascending order, and only then stores A at the boot switch. -/
def unmapping (cpu : Cpu) (cartridge : ByteArray) : List Action :=
  writeAll (ascending 256 (cartridgeByte cartridge)) ++
    [.report (.bootUnmapped (cpu.regs.pc + 2) 256), .write8 0xFF50 cpu.regs.a]

/-- The processor after the step that unmaps an overlay. -/
def unmapped (cpu : Cpu) : Cpu :=
  { cpu.goto (cpu.regs.pc + 2) with overlay := none, cycles := 3 }

theorem storeHigh_bootOff (cpu : Cpu) {cartridge : ByteArray}
    (hoverlay : cpu.overlay = some (.ofCartridge cartridge)) :
    cpu.storeHigh 0x50 =
      { cpu := cpu.withOverlay none
        actions := writeAll (ascending 256 (cartridgeByte cartridge)) ++
          [.report (.bootUnmapped cpu.regs.pc 256), .write8 0xFF50 cpu.regs.a] } := by
  have haddress : Hardware.ofOffset 0x50 = Hardware.bootOff := by decide
  simp only [storeHigh, hoverlay, haddress, if_true, BootOverlay.restore_ofCartridge]
  rfl

/-- The effect of the instruction that unmaps an overlay. -/
theorem effect_storeHigh {cpu : Cpu} {cartridge : ByteArray} {immediate : UInt16} (data : UInt16)
    (hoverlay : cpu.overlay = some (.ofCartridge cartridge)) (hoffset : loByte immediate = 0x50) :
    (cpu.passing .storeHigh).effect immediate data .storeHigh =
      { cpu := (cpu.goto (cpu.regs.pc + 2)).withOverlay none
        actions := cpu.unmapping cartridge } := by
  rw [effect, hoffset]
  exact storeHigh_bootOff (cpu.passing .storeHigh) hoverlay

section

variable {β : Type} [Bus β]

/-- The step that unmaps carries out what it has fetched: every configuration supports it. -/
theorem step_of_fetch_unmaps {cpu : Cpu} {bus : β} (h : cpu.Unmaps bus) :
    ∃ immediate bus₁, loByte immediate = 0x50 ∧
      (fetch cpu.regs.pc).run bus = (.ok (.storeHigh, immediate), bus₁) ∧
      (cpu.step).run bus = (cpu.carryOut .storeHigh immediate).run bus₁ := by
  obtain ⟨immediate, hfetched, hoffset⟩ := h
  have hfetch : (fetch cpu.regs.pc).run bus = (.ok (.storeHigh, immediate), _) :=
    Prod.ext hfetched rfl
  exact ⟨immediate, _, hoffset, hfetch,
    step_of_fetch_ok cpu hfetch (Config.supports_of_not_prefixed _ rfl)⟩

theorem step_of_unmaps {cpu : Cpu} {cartridge : ByteArray} {bus : β}
    (hoverlay : cpu.overlay = some (.ofCartridge cartridge)) (hunmaps : cpu.Unmaps bus) :
    ∃ immediate bus₁, (fetch cpu.regs.pc).run bus = (.ok (.storeHigh, immediate), bus₁) ∧
      (cpu.step).run bus =
        ((.ok 3, cpu.unmapped),
          ((performAll (cpu.unmapping cartridge)).run
            (cpu.announced .storeHigh immediate bus₁)).2) := by
  obtain ⟨immediate, bus₁, hoffset, hfetch, hstep⟩ := step_of_fetch_unmaps hunmaps
  refine ⟨immediate, bus₁, hfetch, ?_⟩
  rw [hstep, carryOut]
  simp only [dataRead, effect_storeHigh _ hoverlay hoffset]
  -- What is carried out does not matter from here on.
  generalize cpu.unmapping cartridge = actions
  rfl

/-! ## All other steps -/

/-- A step that does not unmap the overlay does not know whether there is one. -/
theorem step_of_not_unmaps {cpu : Cpu} {bus : β} (h : ¬cpu.Unmaps bus) :
    (cpu.step).run bus =
      (((((cpu.withOverlay none).step).run bus).1.1,
        (((cpu.withOverlay none).step).run bus).1.2.withOverlay cpu.overlay),
        (((cpu.withOverlay none).step).run bus).2) := by
  have hspares : ∀ i immediate, ((fetch cpu.regs.pc).run bus).1 = .ok (i, immediate) →
      ({ overlay := fun _ => cpu.overlay } : Refit).Spares (cpu.withOverlay none) immediate i := by
    intro i immediate hi
    refine ⟨rfl, rfl, fun _ => rfl, fun _ => rfl, ?_⟩
    rintro rfl haddress
    exact absurd ⟨immediate, hi, (ofOffset_eq_bootOff_iff _).mp haddress⟩ h
  have hsame : (((cpu.withOverlay none).refit { overlay := fun _ => cpu.overlay }).step).run bus =
      _ := step_refit hspares
  exact hsame

theorem overlay_step_of_none {cpu : Cpu} (bus : β) (h : cpu.overlay = none) :
    ((cpu.step).run bus).1.2.overlay = none := by
  rcases hfetch : (fetch cpu.regs.pc).run bus with ⟨fetched, bus'⟩
  rw [step_of_fetch hfetch]
  match fetched with
  | .error cause => exact h
  | .ok (i, immediate) =>
    rw [conclude]
    split
    · exact overlay_effect _ _ i h
    · exact h

theorem withOverlay_of_eq {cpu : Cpu} {overlay : Option BootOverlay} (h : cpu.overlay = overlay) :
    cpu.withOverlay overlay = cpu := by
  subst h
  rfl

/-- Unless a step unmaps an overlay, it is the step of a processor that never had one. -/
theorem step_without {cpu : Cpu} {bus : β}
    (h : ¬(cpu.overlay.isSome = true ∧ cpu.Unmaps bus)) :
    (cpu.step).run bus =
      (((((cpu.withOverlay none).step).run bus).1.1,
        (((cpu.withOverlay none).step).run bus).1.2.withOverlay cpu.overlay),
        (((cpu.withOverlay none).step).run bus).2) := by
  cases hoverlay : cpu.overlay with
  | none =>
    rw [withOverlay_of_eq hoverlay, withOverlay_of_eq (overlay_step_of_none bus hoverlay)]
    rfl
  | some overlay =>
    rw [← hoverlay]
    exact step_of_not_unmaps fun hunmaps => h ⟨by rw [hoverlay]; rfl, hunmaps⟩

theorem overlay_step_of_unmaps {cpu : Cpu} {bus : β} (h : cpu.Unmaps bus) :
    ((cpu.step).run bus).1.2.overlay = none := by
  obtain ⟨immediate, bus₁, hoffset, -, hstep⟩ := step_of_fetch_unmaps h
  rw [hstep]
  show ((cpu.passing .storeHigh).storeHigh (loByte immediate)).cpu.overlay = none
  rw [storeHigh, hoffset]
  split
  · rfl
  · next hnone => exact hnone

theorem overlay_step_of_not_unmaps {cpu : Cpu} {bus : β} (h : ¬cpu.Unmaps bus) :
    ((cpu.step).run bus).1.2.overlay = cpu.overlay := by
  rw [step_of_not_unmaps h]
  rfl

theorem overlay_serviceInterrupt (cpu : Cpu) (bus : β) :
    ((cpu.serviceInterrupt).run bus).1.2.overlay = cpu.overlay := by
  unfold serviceInterrupt
  split
  · rw [StateT.run_bind]
    generalize (pendingInterrupts : StateM β Interrupts).run bus = asked
    obtain ⟨pending, bus'⟩ := asked
    dsimp only [bind]
    cases pending.lowest? <;> rfl
  · rfl

theorem overlay_wakeIfPending (cpu : Cpu) (bus : β) :
    ((cpu.wakeIfPending).run bus).1.2.overlay = cpu.overlay := by
  unfold wakeIfPending
  split
  · rw [StateT.run_bind]
    generalize (pendingInterrupts : StateM β Interrupts).run bus = asked
    obtain ⟨pending, bus'⟩ := asked
    dsimp only [bind]
    split <;> rfl
  · rfl

end

/-! ## On a lawful bus

What is fetched can be seen beforehand there, and so can what a step stores. -/

theorem decodeFirst?_eq_storeHigh_iff (opcode : UInt8) :
    Instruction.decodeFirst? opcode = some .storeHigh ↔ opcode = 0xE0 :=
  forall_byte (P := fun opcode => Instruction.decodeFirst? opcode = some .storeHigh ↔ opcode = 0xE0)
    (by decide +kernel) opcode

theorem decodeSecond_ne_storeHigh (opcode : UInt8) :
    Instruction.decodeSecond opcode ≠ .storeHigh := by
  unfold Instruction.decodeSecond
  intro h
  split at h <;> cases h

theorem fetchedIn_eq_storeHigh_iff {image : Image} {pc immediate : UInt16} :
    fetchedIn image pc = .ok (.storeHigh, immediate) ↔
      image pc = 0xE0 ∧ immediate = (image (pc + 1)).toUInt16 := by
  unfold fetchedIn Image.opcodeAt Instruction.decode?
  by_cases hextended : image pc = extensionByte
  · have hother : extensionByte ≠ 0xE0 := by decide
    simp [hextended, hother, decodeSecond_ne_storeHigh]
  · rw [if_neg hextended, ← decodeFirst?_eq_storeHigh_iff]
    simp only [Bool.false_eq_true, if_false]
    cases Instruction.decodeFirst? (image pc) with
    | none => simp
    | some i =>
      simp only [Except.ok.injEq, Prod.mk.injEq, Option.some.injEq]
      constructor
      · rintro ⟨rfl, rfl⟩
        exact ⟨rfl, rfl⟩
      · rintro ⟨rfl, rfl⟩
        exact ⟨rfl, rfl⟩

section

variable {β γ : Type} [Bus β] [LawfulBus β γ]

/-- The step that unmaps is the one that finds the instruction's two bytes at PC. -/
theorem unmaps_iff {cpu : Cpu} {bus : β} :
    cpu.Unmaps bus ↔ view bus cpu.regs.pc = 0xE0 ∧ view bus (cpu.regs.pc + 1) = 0x50 := by
  have hfetched := (fetch_observes cpu.regs.pc bus).1
  simp only [Unmaps, hfetched, fetchedIn_eq_storeHigh_iff]
  constructor
  · rintro ⟨_, ⟨hopcode, rfl⟩, hoffset⟩
    exact ⟨hopcode, (loByte_toUInt16 _).symm.trans hoffset⟩
  · rintro ⟨hopcode, hoffset⟩
    exact ⟨_, ⟨hopcode, rfl⟩, (loByte_toUInt16 _).trans hoffset⟩

theorem instructionIn_of_unmaps {cpu : Cpu} {bus : β} (h : cpu.Unmaps bus) :
    cpu.instructionIn (view bus) = .ok .storeHigh := by
  obtain ⟨hopcode, -⟩ := unmaps_iff.mp h
  have hfirst : (view bus).opcodeAt cpu.regs.pc = (0xE0, false) := by
    rw [Image.opcodeAt, hopcode]
    rfl
  rw [instructionIn_of_opcodeAt hfirst]
  exact if_pos (Config.supports_of_not_prefixed _ rfl)

theorem outcome_of_unmaps {cpu : Cpu} {cartridge : ByteArray} {bus : β}
    (hoverlay : cpu.overlay = some (.ofCartridge cartridge)) (h : cpu.Unmaps bus) :
    (cpu.outcome (view bus)).2 = cpu.unmapping cartridge := by
  obtain ⟨-, hoffset⟩ := unmaps_iff.mp h
  have himmediate : loByte ((view bus).immediateAt cpu.regs.pc .byte) = 0x50 :=
    (loByte_toUInt16 _).trans hoffset
  rw [outcome, instructionIn_of_unmaps h]
  exact congrArg Effect.actions (effect_storeHigh _ hoverlay himmediate)

/-- On a bus that stores, the addresses that the overlay hid hold the cartridge bytes after the
    step that unmaps it, whatever was there before. -/
theorem view_of_unmaps {P : γ → Prop} (hstoring : Storing β P) {cpu : Cpu} {cartridge : ByteArray}
    {bus : β} (hP : P (held bus)) (hoverlay : cpu.overlay = some (.ofCartridge cartridge))
    (h : cpu.Unmaps bus) {k : Nat} (hk : k < 256) :
    view ((cpu.step).run bus).2 (UInt16.ofNat k) = cartridgeByte cartridge k := by
  have hheld : held ((cpu.step).run bus).2 = putAll (β := β) (cpu.unmapping cartridge) (held bus) :=
    outcome_of_unmaps hoverlay h ▸ (cpu.step_run bus).2
  let stores := ascending 256 (cartridgeByte cartridge) ++ [(0xFF50, cpu.regs.a)]
  have hstores : putAll (β := β) (cpu.unmapping cartridge) (held bus) =
      putAll (β := β) (writeAll stores) (held bus) := by
    rw [unmapping, writeAll, writeAll, List.map_append, putAll, putAll, List.foldl_append,
      List.foldl_append]
    rfl
  have hlow {k : Nat} (hk : k < 256) {address : UInt16} (haddress : 256 ≤ address.toNat) :
      UInt16.ofNat k ≠ address := by
    rintro rfl
    rw [UInt16.toNat_ofNat', Nat.mod_eq_of_lt (by omega)] at haddress
    omega
  have hdivider : ∀ store ∈ stores, store.1 ≠ Hardware.divider := by
    intro store hstore
    rcases List.mem_append.mp hstore with hstore | hstore
    · obtain ⟨j, hj, rfl⟩ := List.mem_map.mp hstore
      exact hlow (List.mem_range.mp hj) (by decide)
    · rw [List.mem_singleton.mp hstore]
      exact (by decide : (0xFF50 : UInt16) ≠ Hardware.divider)
  have hne : (0xFF50 : UInt16) ≠ UInt16.ofNat k := (hlow hk (by decide)).symm
  rw [view, hheld, hstores, (hstoring.putAll hP hdivider).2, lastStored_concat, if_neg hne,
    lastStored_ascending _ _ hk (by decide)]

end

/-! ### Traffic -/

/-- On a flat bus the step that unmaps an overlay reads the instruction's two bytes, writes the
    cartridge bytes in ascending order, and writes A to the boot switch last. -/
theorem traffic_of_unmaps {cpu : Cpu} {cartridge : ByteArray} {bus : FlatBus}
    (hoverlay : cpu.overlay = some (.ofCartridge cartridge)) (h : cpu.Unmaps bus) :
    ((cpu.step).run bus).2.traffic.toList =
      bus.traffic.toList ++
        ([⟨.read, cpu.regs.pc, 0xE0⟩, ⟨.read, cpu.regs.pc + 1, 0x50⟩] ++
          FlatBus.writes (ascending 256 (cartridgeByte cartridge) ++ [(0xFF50, cpu.regs.a)])) := by
  have hbytes : bus.memory.get cpu.regs.pc = 0xE0 ∧ bus.memory.get (cpu.regs.pc + 1) = 0x50 :=
    unmaps_iff.mp h
  have hinstruction : cpu.instructionIn bus.memory.get = .ok .storeHigh := instructionIn_of_unmaps h
  have houtcome : (cpu.outcome bus.memory.get).2 = cpu.unmapping cartridge :=
    outcome_of_unmaps hoverlay h
  have hreads : cpu.reads bus.memory.get =
      [⟨.read, cpu.regs.pc, 0xE0⟩, ⟨.read, cpu.regs.pc + 1, 0x50⟩] := by
    rw [reads, hinstruction, opcodeReads, hbytes.1, ← hbytes.2]
    rfl
  have hstores : storesOf (cpu.unmapping cartridge) =
      ascending 256 (cartridgeByte cartridge) ++ [(0xFF50, cpu.regs.a)] := by
    rw [unmapping, storesOf, List.flatMap_append]
    exact congrArg (· ++ _) (storesOf_writeAll _)
  rw [traffic_step, hreads, houtcome, hstores]

/-- On a flat bus every other step only reads and then writes two bytes at most. -/
theorem traffic_without {cpu : Cpu} {bus : FlatBus}
    (h : ¬(cpu.overlay.isSome = true ∧ cpu.Unmaps bus)) :
    ∃ reads writes, ((cpu.step).run bus).2.traffic.toList = bus.traffic.toList ++ (reads ++ writes) ∧
      (∀ access ∈ reads, access.kind = .read) ∧ writes.length ≤ 2 := by
  have hbare : (cpu.withOverlay none).overlay = none := rfl
  rw [step_without h]
  refine ⟨_, _, (cpu.withOverlay none).traffic_step bus, fun _ => kind_of_mem_reads, ?_⟩
  rw [FlatBus.writes, List.length_map]
  exact length_stores_outcome _ hbare

end Cpu

/-! ## Runs

Between the steps anything may happen to the bus, and the processor may be asked
for interrupts, woken, or sent into a handler. None of this touches the overlay. -/

/-- Something that happens to a processor and its bus. -/
inductive Happening (β : Type) where
  | call (call : Call)
  /-- The bus changes, and the processor has no part in it. -/
  | elsewhere (change : β → β)

namespace Happening

variable {β : Type} [Bus β]

/-- The processor and the bus after something has happened. -/
def apply (happening : Happening β) (cpu : Cpu) (bus : β) : Cpu × β :=
  match happening with
  | .call made => (((made.perform cpu).run bus).1.2, ((made.perform cpu).run bus).2)
  | .elsewhere change => (cpu, change bus)

/-- The processor and the bus after several things have happened in order. -/
def applyAll (happenings : List (Happening β)) (cpu : Cpu) (bus : β) : Cpu × β :=
  happenings.foldl (fun reached happening => happening.apply reached.1 reached.2) (cpu, bus)

theorem applyAll_step (cpu : Cpu) (bus : β) :
    applyAll [.call .step] cpu bus = (((cpu.step).run bus).1.2, ((cpu.step).run bus).2) := rfl

/-- One of the steps stored to the boot switch by `LDH (a8),A`. -/
def Unmapped (happenings : List (Happening β)) (cpu : Cpu) (bus : β) : Prop :=
  ∃ earlier later, happenings = earlier ++ .call .step :: later ∧
    (applyAll earlier cpu bus).1.Unmaps (applyAll earlier cpu bus).2

theorem unmapped_cons_iff {happening : Happening β} {rest : List (Happening β)} {cpu : Cpu}
    {bus : β} :
    Unmapped (happening :: rest) cpu bus ↔
      (happening = .call .step ∧ cpu.Unmaps bus) ∨
        Unmapped rest (happening.apply cpu bus).1 (happening.apply cpu bus).2 := by
  constructor
  · rintro ⟨earlier, later, hsplit, hunmaps⟩
    cases earlier with
    | nil =>
      cases hsplit
      exact .inl ⟨rfl, hunmaps⟩
    | cons first earlier =>
      cases hsplit
      exact .inr ⟨earlier, later, rfl, hunmaps⟩
  · rintro (⟨rfl, hunmaps⟩ | ⟨earlier, later, rfl, hunmaps⟩)
    · exact ⟨[], rest, rfl, hunmaps⟩
    · exact ⟨happening :: earlier, later, rfl, hunmaps⟩

/-- The overlay goes with the step that unmaps it, and with nothing else. -/
theorem overlay_apply {happening : Happening β} {cpu : Cpu} {bus : β}
    (h : ¬(happening = .call .step ∧ cpu.Unmaps bus)) :
    (happening.apply cpu bus).1.overlay = cpu.overlay := by
  cases happening with
  | elsewhere change => rfl
  | call made =>
    cases made with
    | step => exact Cpu.overlay_step_of_not_unmaps fun hunmaps => h ⟨rfl, hunmaps⟩
    | service => exact cpu.overlay_serviceInterrupt bus
    | wake => exact cpu.overlay_wakeIfPending bus
    | pending | read8 address | read16 address | write8 address value | write16 address value => rfl

theorem overlay_applyAll (happenings : List (Happening β)) (cpu : Cpu) (bus : β) :
    (Unmapped happenings cpu bus → (applyAll happenings cpu bus).1.overlay = none) ∧
      (¬Unmapped happenings cpu bus → (applyAll happenings cpu bus).1.overlay = cpu.overlay) := by
  induction happenings generalizing cpu bus with
  | nil =>
    refine ⟨?_, fun _ => rfl⟩
    rintro ⟨earlier, later, hsplit, -⟩
    cases earlier <;> cases hsplit
  | cons happening rest ih =>
    obtain ⟨hgone, hkept⟩ := ih (happening.apply cpu bus).1 (happening.apply cpu bus).2
    have hrest : applyAll (happening :: rest) cpu bus =
        applyAll rest (happening.apply cpu bus).1 (happening.apply cpu bus).2 := rfl
    rw [unmapped_cons_iff, hrest]
    by_cases hnow : happening = .call .step ∧ cpu.Unmaps bus
    · have hnone : (happening.apply cpu bus).1.overlay = none := by
        obtain ⟨rfl, hunmaps⟩ := hnow
        exact Cpu.overlay_step_of_unmaps hunmaps
      refine ⟨fun _ => ?_, fun hnever => absurd (.inl hnow) hnever⟩
      by_cases hlater : Unmapped rest (happening.apply cpu bus).1 (happening.apply cpu bus).2
      · exact hgone hlater
      · exact (hkept hlater).trans hnone
    · rw [or_iff_right hnow, ← overlay_apply hnow]
      exact ⟨hgone, hkept⟩

/-- The overlay of a cartridge over any run. It is there exactly as long as no step has stored to
    the boot switch by `LDH (a8),A`. The first step that does puts the cartridge bytes back in
    ascending order and then stores A, so that a bus that stores holds them afterwards. Every
    other step, before and after, is the step of a processor that never had an overlay, and writes
    two bytes at most. -/
theorem overlay_lifecycle (cpu : Cpu) (cartridge : ByteArray) (bus : β)
    (happenings : List (Happening β)) (flat : FlatBus) (onFlat : List (Happening FlatBus)) :
    let armed := cpu.armOverlay cartridge
    let now := applyAll happenings armed bus
    let flatNow := applyAll onFlat armed flat
    (now.1.overlay.isSome = true ↔ ¬Unmapped happenings armed bus) ∧
      (now.1.overlay.isSome = true ∧ now.1.Unmaps now.2 →
        (∃ immediate bus₁,
          (Cpu.fetch now.1.regs.pc).run now.2 = (.ok (.storeHigh, immediate), bus₁) ∧
            (now.1.step).run now.2 =
              ((.ok 3, now.1.unmapped),
                ((performAll (now.1.unmapping cartridge)).run
                  (now.1.announced .storeHigh immediate bus₁)).2)) ∧
          (∀ (γ : Type) [LawfulBus β γ] (P : γ → Prop), Storing β P → P (held now.2) → ∀ k < 256,
            view ((now.1.step).run now.2).2 (UInt16.ofNat k) = cartridgeByte cartridge k)) ∧
      (¬(now.1.overlay.isSome = true ∧ now.1.Unmaps now.2) →
        (now.1.step).run now.2 =
          (((((now.1.withOverlay none).step).run now.2).1.1,
            (((now.1.withOverlay none).step).run now.2).1.2.withOverlay now.1.overlay),
            (((now.1.withOverlay none).step).run now.2).2)) ∧
      (flatNow.1.overlay.isSome = true ∧ flatNow.1.Unmaps flatNow.2 →
        ((flatNow.1.step).run flatNow.2).2.traffic.toList =
          flatNow.2.traffic.toList ++
            ([⟨.read, flatNow.1.regs.pc, 0xE0⟩, ⟨.read, flatNow.1.regs.pc + 1, 0x50⟩] ++
              FlatBus.writes
                (ascending 256 (cartridgeByte cartridge) ++ [(0xFF50, flatNow.1.regs.a)]))) ∧
      (¬(flatNow.1.overlay.isSome = true ∧ flatNow.1.Unmaps flatNow.2) →
        ∃ reads writes,
          ((flatNow.1.step).run flatNow.2).2.traffic.toList =
              flatNow.2.traffic.toList ++ (reads ++ writes) ∧
            (∀ access ∈ reads, access.kind = .read) ∧ writes.length ≤ 2) := by
  intro armed now flatNow
  -- Whatever has happened, an overlay that is still there is the one that was armed.
  have hsame {δ : Type} [Bus δ] (happenings : List (Happening δ)) (bus : δ) :
      (applyAll happenings armed bus).1.overlay.isSome = true ↔ ¬Unmapped happenings armed bus := by
    obtain ⟨hgone, hkept⟩ := overlay_applyAll happenings armed bus
    by_cases h : Unmapped happenings armed bus
    · simp [h, hgone h]
    · rw [hkept h]
      exact ⟨fun _ => h, fun _ => rfl⟩
  have harmed {δ : Type} [Bus δ] {happenings : List (Happening δ)} {bus : δ}
      (h : (applyAll happenings armed bus).1.overlay.isSome = true) :
      (applyAll happenings armed bus).1.overlay = some (.ofCartridge cartridge) :=
    (overlay_applyAll happenings armed bus).2 ((hsame happenings bus).mp h)
  refine ⟨hsame happenings bus, ?_, Cpu.step_without, ?_, Cpu.traffic_without⟩
  · rintro ⟨hactive, hunmaps⟩
    refine ⟨Cpu.step_of_unmaps (harmed hactive) hunmaps, ?_⟩
    intro γ _ P hstoring hP k hk
    exact Cpu.view_of_unmaps hstoring hP (harmed hactive) hunmaps hk
  · rintro ⟨hactive, hunmaps⟩
    exact Cpu.traffic_of_unmaps (harmed hactive) hunmaps

/-- A boot program at address zero that does nothing but unmap itself. -/
def bootAtZero : FlatBus where
  memory := (Memory.zero.set 0 0xE0).set 1 0x50

theorem unmaps_bootAtZero (cartridge : ByteArray) :
    (({} : Cpu).armOverlay cartridge).Unmaps bootAtZero := by
  have hget : bootAtZero.memory.get =
      fun address => if address = 1 then 0x50 else if address = 0 then 0xE0 else 0 := by
    funext address
    rw [bootAtZero, Memory.get_set, Memory.get_set, Memory.get_zero]
  refine Cpu.unmaps_iff.mpr ?_
  show bootAtZero.memory.get 0 = 0xE0 ∧ bootAtZero.memory.get 1 = 0x50
  rw [hget]
  decide

theorem overlay_lifecycle_bootAtZero :
    let armed := ({} : Cpu).armOverlay ⟨#[0xAB]⟩
    (applyAll [.call .step] armed bootAtZero).1.overlay.isSome = false ∧
      (applyAll [.call .step] armed bootAtZero).2.memory.get 0 = 0xAB ∧
      (applyAll [.call .step] armed bootAtZero).2.memory.get 1 = 0 := by
  intro armed
  have hunmaps : armed.Unmaps bootAtZero := unmaps_bootAtZero _
  have hlow (flat : FlatBus) (h : armed.Unmaps flat) : ∀ k < 256,
      ((armed.step).run flat).2.memory.get (UInt16.ofNat k) = cartridgeByte ⟨#[0xAB]⟩ k :=
    ((overlay_lifecycle {} ⟨#[0xAB]⟩ flat [] flat []).2.1 ⟨rfl, h⟩).2 Memory _ FlatBus.storing trivial
  have hgone := (overlay_lifecycle {} ⟨#[0xAB]⟩ bootAtZero [.call .step] bootAtZero []).1
  rw [← Bool.not_eq_true, hgone, Classical.not_not, applyAll_step]
  exact ⟨⟨[], [], rfl, hunmaps⟩, hlow _ hunmaps 0 (by decide), hlow _ hunmaps 1 (by decide)⟩

end Happening

end Handheld
