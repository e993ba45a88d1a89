-- SUMMARY: On any bus a step fetches, reads its data and then stores, and only STOP makes more byte accesses than it costs cycles.
import Handheld.Proofs.Bus.Tapped

namespace Handheld

open TappedBus

/-! ## The phases of a step

The byte accesses of a step come in four phases. What a phase reads is decided
by the phases before it, so here the accesses of each phase are functions of the
values that its reads yield. Nothing is asked of the bus: the same address may
yield another byte each time that it is read. -/

/-- The reads that yield an opcode, and whether it belongs to the second table. -/
def opcodeAccesses (pc : UInt16) : UInt8 × Bool → List Access
  | (opcode, false) => [⟨.read, pc, opcode⟩]
  | (opcode, true) => [⟨.read, pc, 0xCB⟩, ⟨.read, pc + 1, opcode⟩]

/-- The reads that yield the immediate behind an opcode. -/
def Instruction.Immediate.accesses (pc value : UInt16) : Immediate → List Access
  | none => []
  | byte => [⟨.read, pc + 1, loByte value⟩]
  | word => [⟨.read, pc + 1, loByte value⟩, ⟨.read, pc + 2, hiByte value⟩]

/-- The reads that yield the data of an instruction. -/
def DataRead.accesses (value : UInt16) : DataRead → List Access
  | none => []
  | byte address => [⟨.read, address, loByte value⟩]
  | stack address => [⟨.read, address, loByte value⟩, ⟨.read, address + 1, hiByte value⟩]

theorem kind_opcodeAccesses (pc : UInt16) (opcode : UInt8 × Bool) :
    ∀ access ∈ opcodeAccesses pc opcode, access.kind = .read := by
  obtain ⟨opcode, extended⟩ := opcode
  cases extended <;> simp [opcodeAccesses]

theorem Instruction.Immediate.kind_accesses (pc value : UInt16) (immediate : Immediate) :
    ∀ access ∈ immediate.accesses pc value, access.kind = .read := by
  cases immediate <;> simp [accesses]

theorem DataRead.kind_accesses (value : UInt16) (read : DataRead) :
    ∀ access ∈ read.accesses value, access.kind = .read := by
  cases read <;> simp [accesses]

/-- The byte accesses of a step, phase by phase. -/
structure StepTraffic where
  opcode : List Access
  immediate : List Access
  data : List Access
  stores : List Access

namespace StepTraffic

/-- The reads of a step. -/
def reads (t : StepTraffic) : List Access :=
  t.opcode ++ t.immediate ++ t.data

/-- All byte accesses of a step. -/
def accesses (t : StepTraffic) : List Access :=
  t.reads ++ t.stores

/-- The traffic is that of a step which executes an instruction at PC: the reads of its opcode, those
    of its immediate, reads of data, and then two writes at most. -/
structure Executes (t : StepTraffic) (cpu : Cpu) (i : Instruction) : Prop where
  opcode : ∃ opcode, cpu.config.decode opcode.1 opcode.2 = .ok i ∧
    (opcode.2 = false → opcode.1 ≠ 0xCB) ∧ t.opcode = opcodeAccesses cpu.regs.pc opcode
  immediate : ∃ value, t.immediate = i.immediate.accesses cpu.regs.pc value
  reads : ∀ access ∈ t.reads, access.kind = .read
  stores : ∀ access ∈ t.stores, access.kind = .write
  length_stores : t.stores.length ≤ 2

end StepTraffic

/-- No read comes after a write. -/
def ReadsFirst (accesses : List Access) : Prop :=
  accesses.Pairwise fun earlier later => later.kind = .read → earlier.kind = .read

theorem readsFirst_append {reads writes : List Access} (hreads : ∀ access ∈ reads, access.kind = .read)
    (hwrites : ∀ access ∈ writes, access.kind = .write) : ReadsFirst (reads ++ writes) := by
  have hwrite {access : Access} (hmem : access ∈ writes) : access.kind ≠ .read := by
    rw [hwrites access hmem]
    decide
  rw [ReadsFirst, List.pairwise_append]
  refine ⟨?_, ?_, ?_⟩
  · exact (List.pairwise_of_forall fun _ _ => trivial).imp_of_mem
      fun hearlier _ _ _ => hreads _ hearlier
  · exact (List.pairwise_of_forall fun _ _ => trivial).imp_of_mem
      fun _ hlater _ hread => absurd hread (hwrite hlater)
  · exact fun _ hearlier _ _ _ => hreads _ hearlier

/-! ## The cost of a transfer

A transfer of control has one cost if it is unconditional, and two others if it
is not. Whatever is paid for by the one and by one of the others is paid for in
that case, whichever kind of transfer it is. -/

namespace Instruction.Cost

variable {condition : Option Condition} {n always untaken taken : Nat}

theorem le_taken_transfer (halways : n ≤ always) (htaken : n ≤ taken) :
    n ≤ (transfer condition always untaken taken).taken := by
  cases condition with
  | none => exact halways
  | some c => exact htaken

theorem le_base_transfer (halways : n ≤ always) (huntaken : n ≤ untaken) :
    n ≤ (transfer condition always untaken taken).base := by
  cases condition with
  | none => exact halways
  | some c => exact huntaken

end Instruction.Cost

namespace Cpu

/-- The traffic of a step that executes an instruction, given the values that its reads yield. -/
def phases (cpu : Cpu) (i : Instruction) (opcode : UInt8 × Bool) (immediate data : UInt16) :
    StepTraffic where
  opcode := opcodeAccesses cpu.regs.pc opcode
  immediate := i.immediate.accesses cpu.regs.pc immediate
  data := ((cpu.passing i).dataRead immediate i).accesses data
  stores := FlatBus.writes (storesOf ((cpu.passing i).effect immediate data i).actions)

/-! ## The accesses of a step on a tapped bus -/

section

variable {β : Type} [Bus β]

theorem makes_fetchOpcode (pc : UInt16) :
    Makes (fetchOpcode pc : StateM (TappedBus β) (UInt8 × Bool)) fun opcode made =>
      made = opcodeAccesses pc opcode ∧ (opcode.2 = false → opcode.1 ≠ 0xCB) := by
  refine (makes_read8 pc).bind ?_
  rintro first _ rfl
  split
  · next hextended =>
    subst hextended
    refine (makes_read8 (pc + 1)).bind ?_
    rintro second _ rfl
    exact .pure ⟨rfl, nofun⟩
  · next hother => exact .pure ⟨rfl, fun _ => hother⟩

/-- A byte that is read as a word is its low byte. -/
theorem makes_byte (address : UInt16) :
    Makes (do return (← Bus.read8 address).toUInt16 : StateM (TappedBus β) UInt16)
      fun value made => made = [⟨.read, address, loByte value⟩] := by
  refine (makes_read8 address).bind ?_
  rintro value _ rfl
  refine .pure ?_
  rw [loByte_toUInt16]
  rfl

theorem makes_fetchImmediate (pc : UInt16) (immediate : Instruction.Immediate) :
    Makes (fetchImmediate pc immediate : StateM (TappedBus β) UInt16) fun value made =>
      made = immediate.accesses pc value := by
  cases immediate with
  | none => exact .pure rfl
  | byte => exact makes_byte (pc + 1)
  | word =>
    refine (makes_read16 (pc + 1)).mono ?_
    rintro value _ rfl
    have hnext : pc + 1 + 1 = pc + 2 := UInt16.add_assoc pc 1 1
    rw [hnext]
    rfl

theorem makes_dataRead (read : DataRead) :
    Makes (read.perform : StateM (TappedBus β) UInt16) fun value made =>
      made = read.accesses value := by
  cases read with
  | none => exact .pure rfl
  | byte address => exact makes_byte address
  | stack address =>
    refine (makes_read8 address).bind ?_
    rintro lo _ rfl
    refine (makes_read8 (address + 1)).bind ?_
    rintro hi _ rfl
    refine .pure ?_
    rw [DataRead.accesses, loByte_word, hiByte_word]
    rfl

theorem makes_execute (cpu : Cpu) (i : Instruction) :
    Makes (cpu.execute i : StateM (TappedBus β) (Nat × Cpu)) fun out made =>
      ∃ immediate data,
        let effect := (cpu.passing i).effect immediate data i
        out.1 = costOf i effect ∧
          made = i.immediate.accesses cpu.regs.pc immediate ++
            (((cpu.passing i).dataRead immediate i).accesses data ++
              FlatBus.writes (storesOf effect.actions)) := by
  refine (makes_fetchImmediate cpu.regs.pc i.immediate).bind ?_
  rintro immediate _ rfl
  refine (makes_report _).bind ?_
  rintro _ _ rfl
  refine (makes_dataRead _).bind ?_
  rintro data _ rfl
  refine (makes_performAll _).bind ?_
  rintro _ _ rfl
  refine .pure ⟨immediate, data, rfl, ?_⟩
  rw [List.nil_append, List.append_nil]

/-- A step that succeeds goes through the phases of the instruction that it finds, and returns the
    cost of that. -/
theorem makes_step (cpu : Cpu) :
    Makes (cpu.step : StateM (TappedBus β) (Except Fault Nat × Cpu)) fun out made =>
      ∀ cost, out.1 = .ok cost → ∃ i opcode immediate data,
        cpu.config.decode opcode.1 opcode.2 = .ok i ∧ (opcode.2 = false → opcode.1 ≠ 0xCB) ∧
        cost = costOf i ((cpu.passing i).effect immediate data i) ∧
        made = (cpu.phases i opcode immediate data).accesses := by
  refine (makes_fetchOpcode cpu.regs.pc).bind ?_
  rintro opcode _ ⟨rfl, hfirst⟩
  dsimp only
  cases hdecode : cpu.config.decode opcode.1 opcode.2 with
  | ok i =>
    refine (makes_execute cpu i).bind ?_
    rintro out _ ⟨immediate, data, hcost, rfl⟩
    refine .pure ?_
    rintro cost ⟨⟩
    refine ⟨i, opcode, immediate, data, hdecode, hfirst, hcost, ?_⟩
    simp only [StepTraffic.accesses, StepTraffic.reads, phases, List.append_assoc, List.append_nil]
  | error cause => exact (makes_report _).bind fun _ _ _ => .pure nofun

end

/-! ## What decoding leaves out

`LD (HL),(HL)` would read and write in two cycles, the first of which goes to its
opcode. It has no opcode: `HALT` is in its place. -/

theorem Config.decode?_of_decode {config : Config} {opcode : UInt8} {extended : Bool}
    {i : Instruction} (h : config.decode opcode extended = .ok i) :
    Instruction.decode? opcode extended = some i := by
  rw [Config.decode] at h
  cases hfound : Instruction.decode? opcode extended with
  | none =>
    rw [hfound] at h
    cases h
  | some found =>
    rw [hfound] at h
    dsimp only at h
    split at h <;> cases h
    rfl

theorem Config.prefixed_of_decode {config : Config} {opcode : UInt8} {extended : Bool}
    {i : Instruction} (h : config.decode opcode extended = .ok i) : i.prefixed = extended := by
  have hfound := Config.decode?_of_decode h
  cases extended with
  | false => exact Instruction.prefixed_of_decodeFirst? hfound
  | true =>
    have hsecond : Instruction.decodeSecond opcode = i := Option.some.inj hfound
    rw [← hsecond, Instruction.decodeSecond]
    split <;> rfl

theorem Config.ne_ld_atHl_of_decode {config : Config} {opcode : UInt8} {extended : Bool}
    {i : Instruction} (h : config.decode opcode extended = .ok i) : i ≠ .ld .atHl .atHl := by
  rintro rfl
  have hfirst : extended = false := (Config.prefixed_of_decode h).symm
  subst hfirst
  exact forall_byte (P := fun opcode => Instruction.decodeFirst? opcode ≠ some (.ld .atHl .atHl))
    (by decide +kernel) opcode (Config.decode?_of_decode h)

/-! ## The number of accesses

Fetching reads every byte of an instruction once. -/

theorem length_fetch {config : Config} {opcode : UInt8 × Bool} {i : Instruction}
    (h : config.decode opcode.1 opcode.2 = .ok i) (pc value : UInt16) :
    (opcodeAccesses pc opcode).length + (i.immediate.accesses pc value).length =
      i.length.toNat := by
  obtain ⟨opcode, extended⟩ := opcode
  have hprefixed : i.prefixed = extended := Config.prefixed_of_decode h
  rw [Instruction.length, hprefixed]
  cases extended with
  | true =>
    rw [Instruction.immediate_of_prefixed hprefixed]
    rfl
  | false => cases i.immediate <;> rfl

/-- The accesses that an instruction makes once it has been fetched. -/
def accessCount (cpu : Cpu) (immediate data : UInt16) (i : Instruction) : Nat :=
  ((cpu.dataRead immediate i).accesses data).length +
    (storesOf (cpu.effect immediate data i).actions).length

theorem length_phases {cpu : Cpu} {i : Instruction} {opcode : UInt8 × Bool}
    (h : cpu.config.decode opcode.1 opcode.2 = .ok i) (immediate data : UInt16) :
    (cpu.phases i opcode immediate data).accesses.length =
      i.length.toNat + (cpu.passing i).accessCount immediate data i := by
  rw [← length_fetch h cpu.regs.pc immediate, StepTraffic.accesses, StepTraffic.reads, phases,
    accessCount]
  simp only [List.length_append, FlatBus.writes, List.length_map]
  omega

/-- What an instruction costs pays for all its accesses, fetching included. -/
theorem accessCount_le {cpu : Cpu} (immediate data : UInt16) {i : Instruction}
    (hoverlay : cpu.overlay = none) (hstop : i ≠ .stop) (hld : i ≠ .ld .atHl .atHl) :
    i.length.toNat + cpu.accessCount immediate data i ≤
      costOf i (cpu.effect immediate data i) := by
  cases i with
  | stop => exact absurd rfl hstop
  | ld dst src =>
    cases dst <;> cases src <;> first | exact Nat.le_refl _ | exact absurd rfl hld
  | ldImm dst | inc dst | dec dst | shift op dst | res index dst | set index dst =>
    cases dst <;> exact Nat.le_refl _
  | alu op src | bit index src => cases src <;> exact Nat.le_refl _
  | storeHigh =>
    -- With an overlay this instruction could store the bytes under it as well.
    rw [accessCount, effect, storeHigh, hoverlay]
    exact Nat.le_refl 3
  | loadHigh =>
    rw [accessCount, dataRead]
    split
    · exact Nat.le_succ 2
    · exact Nat.le_refl 3
  | jr condition =>
    rw [accessCount, effect]
    split
    · exact Instruction.Cost.le_taken_transfer (n := 2) (by decide) (by decide)
    · exact Instruction.Cost.le_base_transfer (n := 2) (by decide) (by decide)
  | jp condition =>
    rw [accessCount, effect]
    split
    · exact Instruction.Cost.le_taken_transfer (n := 3) (by decide) (by decide)
    · exact Instruction.Cost.le_base_transfer (n := 3) (by decide) (by decide)
  | call condition =>
    rw [accessCount, effect]
    split
    · exact Instruction.Cost.le_taken_transfer (n := 5) (by decide) (by decide)
    · exact Instruction.Cost.le_base_transfer (n := 3) (by decide) (by decide)
  | ret condition =>
    rw [accessCount, dataRead, effect]
    split
    · exact Instruction.Cost.le_taken_transfer (n := 3) (by decide) (by decide)
    · exact Instruction.Cost.le_base_transfer (n := 1) (by decide) (by decide)
  -- Work on whole words takes a cycle or two in which the bus rests.
  | ldHlSpOffset | ldSpHl | inc16 dst | dec16 dst | addHl src | reti | rst target | push pair =>
    exact Nat.le_succ _
  | addSpOffset => exact Nat.le_add_right 2 2
  | _ => exact Nat.le_refl _

/-! ## The discipline -/

theorem executes_phases {cpu : Cpu} {i : Instruction} {opcode : UInt8 × Bool}
    (hoverlay : cpu.overlay = none) (hdecode : cpu.config.decode opcode.1 opcode.2 = .ok i)
    (hfirst : opcode.2 = false → opcode.1 ≠ 0xCB) (immediate data : UInt16) :
    (cpu.phases i opcode immediate data).Executes cpu i where
  opcode := ⟨opcode, hdecode, hfirst, rfl⟩
  immediate := ⟨immediate, rfl⟩
  reads access hmem := by
    rw [StepTraffic.reads, List.mem_append, List.mem_append] at hmem
    rcases hmem with (hmem | hmem) | hmem
    · exact kind_opcodeAccesses _ _ access hmem
    · exact Instruction.Immediate.kind_accesses _ _ _ access hmem
    · exact DataRead.kind_accesses _ _ access hmem
  stores _ hmem := FlatBus.kind_of_mem_writes hmem
  length_stores := by
    rw [phases, FlatBus.writes, List.length_map]
    exact length_stores_effect immediate data i hoverlay

/-- The accesses that entering the handler of a source takes, given the bytes read: those of the
    enabled and of the requested sources, and the latter once more. -/
def dispatchAccesses (cpu : Cpu) (source : Nat) (enabled requested again : UInt8) : List Access :=
  [ ⟨.read, Hardware.interruptEnable, enabled⟩
  , ⟨.read, Hardware.interruptFlags, requested⟩
  , ⟨.read, Hardware.interruptFlags, again⟩
  , ⟨.write, Hardware.interruptFlags, again &&& ~~~(Interrupts.single source).bits⟩
  , ⟨.write, cpu.regs.sp - 1, hiByte cpu.regs.pc⟩
  , ⟨.write, cpu.regs.sp - 2, loByte cpu.regs.pc⟩ ]

section

variable {β : Type} [Bus β]

theorem makes_pendingInterrupts :
    Makes (pendingInterrupts : StateM (TappedBus β) Interrupts) fun pending made =>
      ∃ enabled requested, pending = .ofByte (enabled &&& requested) ∧
        made = [⟨.read, Hardware.interruptEnable, enabled⟩,
          ⟨.read, Hardware.interruptFlags, requested⟩] := by
  refine (makes_read8 _).bind ?_
  rintro enabled _ rfl
  refine (makes_read8 _).bind ?_
  rintro requested _ rfl
  exact .pure ⟨enabled, requested, rfl, rfl⟩

/-- Entering a handler takes three reads and then three writes. -/
theorem makes_serviceInterrupt (cpu : Cpu) :
    Makes (cpu.serviceInterrupt : StateM (TappedBus β) (Option Nat × Cpu)) fun out made =>
      ∀ cycles, out.1 = some cycles → ∃ source enabled requested again,
        (Interrupts.ofByte (enabled &&& requested)).lowest? = some source ∧
        made = cpu.dispatchAccesses source enabled requested again := by
  rw [serviceInterrupt]
  split
  · refine makes_pendingInterrupts.bind ?_
    rintro _ _ ⟨enabled, requested, rfl, rfl⟩
    cases hlowest : (Interrupts.ofByte (enabled &&& requested)).lowest? with
    | none => exact .pure nofun
    | some source =>
      refine (makes_read8 _).bind ?_
      rintro again _ rfl
      refine (makes_performAll _).bind ?_
      rintro _ _ rfl
      exact .pure fun _ _ => ⟨source, enabled, requested, again, hlowest, rfl⟩
  · exact .pure nofun

/-- The bus discipline, on any bus whatever. A step that succeeds without a boot overlay makes its
    byte accesses in this order: it reads the opcode, the immediate and the data of an instruction,
    and then makes two writes at most. There are no more accesses than cycles that the step costs,
    except that `STOP` makes two in its one cycle. Entering an interrupt handler takes the reads of
    the enabled and, twice, of the requested sources, and then three writes. -/
theorem bus_discipline (cpu : Cpu) (bus : β) :
    (∀ cost cpu' bus', cpu.overlay = none → (cpu.step).run bus = ((.ok cost, cpu'), bus') →
      ∃ i t, StepTraffic.Executes t cpu i ∧
        (cpu.step).run ({ bus } : TappedBus β) =
          ((.ok cost, cpu'), { bus := bus', accesses := t.accesses }) ∧
        ReadsFirst t.accesses ∧
        (i ≠ .stop → t.accesses.length ≤ cost) ∧
        (i = .stop → cost = 1 ∧ t.reads.length = 2 ∧ t.stores = [])) ∧
    (∀ cycles cpu' bus', (cpu.serviceInterrupt).run bus = ((some cycles, cpu'), bus') →
      ∃ source enabled requested again,
        (Interrupts.ofByte (enabled &&& requested)).lowest? = some source ∧
        (cpu.serviceInterrupt).run ({ bus } : TappedBus β) =
          ((some cycles, cpu'),
            { bus := bus', accesses := cpu.dispatchAccesses source enabled requested again })) := by
  constructor
  · intro cost cpu' bus' hoverlay hstep
    obtain ⟨_, hrun, hmade⟩ := (makes_step cpu).run_of_run (busMap_bus.step cpu) hstep
    obtain ⟨i, opcode, immediate, data, hdecode, hfirst, hcost, rfl⟩ := hmade cost rfl
    have hexecutes := executes_phases hoverlay hdecode hfirst immediate data
    have hlength := length_phases hdecode immediate data
    refine ⟨i, _, hexecutes, hrun, readsFirst_append hexecutes.reads hexecutes.stores, ?_, ?_⟩
    · intro hstop
      rw [hlength, hcost]
      exact accessCount_le immediate data hoverlay hstop (Config.ne_ld_atHl_of_decode hdecode)
    · rintro rfl
      have hreads : (cpu.phases .stop opcode immediate data).accesses =
          (cpu.phases .stop opcode immediate data).reads := List.append_nil _
      exact ⟨hcost, hreads ▸ hlength, rfl⟩
  · intro cycles cpu' bus' hserve
    obtain ⟨_, hrun, hmade⟩ :=
      (makes_serviceInterrupt cpu).run_of_run (busMap_bus.serviceInterrupt cpu) hserve
    obtain ⟨source, enabled, requested, again, hlowest, rfl⟩ := hmade cycles rfl
    exact ⟨source, enabled, requested, again, hlowest, hrun⟩

end

/-- A bus that answers each read with the next byte of a tape, and forgets what is written. -/
structure TapeBus where
  tape : List UInt8

instance : Bus TapeBus where
  read8 _ := modifyGet fun bus => (bus.tape.headD 0, { tape := bus.tape.tail })
  write8 _ _ := pure ()
  report _ := pure ()

/-- A processor at the last address, about to store SP or to be interrupted. -/
def atEnd : Cpu where
  regs := { sp := 0xFFFE, pc := 0xFFFF }
  ime := true

/-- On a tape the requested sources differ each time that they are read. -/
theorem bus_discipline_tape :
    (∃ cpu' i t, StepTraffic.Executes t atEnd i ∧
      (atEnd.step).run ({ bus := ⟨[0x08, 0x34, 0x12]⟩ } : TappedBus TapeBus) =
        ((.ok 5, cpu'), { bus := ⟨[]⟩, accesses := t.accesses }) ∧
      t.accesses =
        [ ⟨.read, 0xFFFF, 0x08⟩, ⟨.read, 0x0000, 0x34⟩, ⟨.read, 0x0001, 0x12⟩
        , ⟨.write, 0x1235, 0xFF⟩, ⟨.write, 0x1234, 0xFE⟩ ] ∧
      ReadsFirst t.accesses ∧ t.accesses.length ≤ 5) ∧
    (∃ cpu' source enabled requested again,
      (atEnd.serviceInterrupt).run ({ bus := ⟨[0x05, 0x04, 0x06]⟩ } : TappedBus TapeBus) =
        ((some 5, cpu'),
          { bus := ⟨[]⟩, accesses := atEnd.dispatchAccesses source enabled requested again }) ∧
      atEnd.dispatchAccesses source enabled requested again =
        [ ⟨.read, 0xFFFF, 0x05⟩, ⟨.read, 0xFF0F, 0x04⟩, ⟨.read, 0xFF0F, 0x06⟩
        , ⟨.write, 0xFF0F, 0x02⟩, ⟨.write, 0xFFFD, 0xFF⟩, ⟨.write, 0xFFFC, 0xFF⟩ ]) := by
  have hstep : (atEnd.step).run (⟨[0x08, 0x34, 0x12]⟩ : TapeBus) =
      ((.ok 5, { atEnd with regs.pc := 2, cycles := 5 }), ⟨[]⟩) := rfl
  have hserve : (atEnd.serviceInterrupt).run (⟨[0x05, 0x04, 0x06]⟩ : TapeBus) =
      ((some 5, { atEnd with regs.sp := 0xFFFC, regs.pc := 0x50, ime := false }), ⟨[]⟩) := rfl
  obtain ⟨i, t, hexecutes, hrun, hfirst, hcost, hstop⟩ :=
    (bus_discipline atEnd _).1 _ _ _ rfl hstep
  have hne : i ≠ .stop := fun h => absurd (hstop h).1 (by decide)
  obtain ⟨source, enabled, requested, again, -, hserved⟩ := (bus_discipline atEnd _).2 _ _ _ hserve
  -- What the runs list can be computed, so what the theorem says of their lists can be read off.
  have haccesses := (congrArg (·.2.accesses) hrun).symm
  have hdispatch := (congrArg (·.2.accesses) hserved).symm
  exact ⟨⟨_, i, t, hexecutes, hrun, haccesses.trans rfl, hfirst, hcost hne⟩,
    ⟨_, source, enabled, requested, again, hserved, hdispatch.trans rfl⟩⟩

end Cpu

end Handheld
