-- SUMMARY: The traffic of a step on a flat bus: the reads of the opcode, the immediate and the data, and then the stores.
import Handheld.Proofs.Cpu.Effect
import Handheld.Proofs.Cpu.Faults

namespace Handheld

open LawfulBus

/-! ## Adding to the traffic

On a flat bus every access leaves a trace. As all reads of a step come before
its first store, what the memory holds at first decides all of them. -/

/-- What a computation adds to the traffic, given what a reader finds before it. -/
def FlatBus.Adds {α : Type} (x : StateM FlatBus α) (added : Image → List Access) : Prop :=
  ∀ bus, (x.run bus).2.traffic.toList = bus.traffic.toList ++ added bus.memory.get

namespace FlatBus

section

variable {α δ : Type}

theorem Adds.pure (a : α) : Adds (pure a) (fun _ => []) :=
  fun _ => (List.append_nil _).symm

/-- After a computation that only observes memory the next one finds the same. -/
theorem Adds.bind {x : StateM FlatBus α} {y : α → StateM FlatBus δ} {value : Image → α}
    {first : Image → List Access} {next : α → Image → List Access} (hvalue : Observes x value)
    (hx : Adds x first) (hy : ∀ a, Adds (y a) (next a)) :
    Adds (x >>= y) (fun image => first image ++ next (value image) image) := by
  intro bus
  obtain ⟨hresult, hmemory⟩ := hvalue bus
  have hget : (x.run bus).2.memory.get = bus.memory.get := congrArg Memory.get hmemory
  rw [StateT.run_bind]
  refine (hy (x.run bus).1 (x.run bus).2).trans ?_
  rw [hx bus, hget, hresult, List.append_assoc]
  rfl

/-- A computation of which only the result is changed adds the same. -/
theorem Adds.map {x : StateM FlatBus α} {added : Image → List Access} (hx : Adds x added)
    (f : α → δ) : Adds (do return f (← x)) added :=
  hx

theorem adds_read8 (address : UInt16) :
    Adds (Bus.read8 address) (fun image => [⟨.read, address, image address⟩]) :=
  fun _ => Array.toList_push ..

theorem adds_report (record : Record) : Adds (Bus.report record) (fun _ => []) :=
  fun _ => (List.append_nil _).symm

end

/-- The accesses that byte stores make. -/
def writes (stores : List (UInt16 × UInt8)) : List Access :=
  stores.map fun store => ⟨.write, store.1, store.2⟩

theorem kind_of_mem_writes {stores : List (UInt16 × UInt8)} {access : Access}
    (h : access ∈ writes stores) : access.kind = .write := by
  obtain ⟨store, -, rfl⟩ := List.mem_map.mp h
  rfl

theorem adds_action (action : Action) : Adds action.perform (fun _ => writes action.stores) := by
  intro bus
  cases action with
  | write8 address value => exact Array.toList_push ..
  | write16 address value =>
    refine (Array.toList_push ..).trans ?_
    rw [Array.toList_push, List.append_assoc]
    rfl
  | report record => exact (List.append_nil _).symm

theorem adds_performAll (actions : List Action) :
    Adds (performAll actions) (fun _ => writes (storesOf actions)) := by
  induction actions with
  | nil => exact .pure ()
  | cons action rest ih =>
    intro bus
    have hboth : writes (storesOf (action :: rest)) =
        writes action.stores ++ writes (storesOf rest) := by
      rw [storesOf, List.flatMap_cons, writes, List.map_append]
      rfl
    rw [performAll, StateT.run_bind]
    refine (ih _).trans ?_
    rw [adds_action, hboth, List.append_assoc]

end FlatBus

/-! ## The reads of a step -/

/-- The reads of the immediate behind an opcode. -/
def Image.immediateReads (image : Image) (pc : UInt16) : Instruction.Immediate → List Access
  | .none => []
  | .byte => [⟨.read, pc + 1, image (pc + 1)⟩]
  | .word => [⟨.read, pc + 1, image (pc + 1)⟩, ⟨.read, pc + 1 + 1, image (pc + 1 + 1)⟩]

/-- The reads that yield the data of an instruction. -/
def DataRead.reads (image : Image) : DataRead → List Access
  | none => []
  | byte address => [⟨.read, address, image address⟩]
  | stack address =>
    [⟨.read, address, image address⟩, ⟨.read, address + 1, image (address + 1)⟩]

namespace Cpu

open FlatBus

/-- The reads of an instruction at PC, behind its opcode. -/
def instructionReads (cpu : Cpu) (image : Image) (i : Instruction) : List Access :=
  let immediate := image.immediateAt cpu.regs.pc i.immediate
  image.immediateReads cpu.regs.pc i.immediate ++
    ((cpu.passing i).dataRead immediate i).reads image

/-- The reads of a step. -/
def reads (cpu : Cpu) (image : Image) : List Access :=
  opcodeReads image cpu.regs.pc ++
    match cpu.instructionIn image with
    | .ok i => cpu.instructionReads image i
    | .error _ => []

theorem kind_of_mem_reads {cpu : Cpu} {image : Image} {access : Access}
    (h : access ∈ cpu.reads image) : access.kind = .read := by
  have hopcode : ∀ access ∈ opcodeReads image cpu.regs.pc, access.kind = .read := by
    rw [opcodeReads]
    split <;> simp
  have himmediate (immediate : Instruction.Immediate) :
      ∀ access ∈ image.immediateReads cpu.regs.pc immediate, access.kind = .read := by
    cases immediate <;> simp [Image.immediateReads]
  have hdata (read : DataRead) : ∀ access ∈ read.reads image, access.kind = .read := by
    cases read <;> simp [DataRead.reads]
  rw [reads, List.mem_append] at h
  rcases h with h | h
  · exact hopcode access h
  · split at h
    · rw [instructionReads, List.mem_append] at h
      exact h.elim (himmediate _ access) (hdata _ access)
    · cases h

theorem adds_fetchImmediate (pc : UInt16) (immediate : Instruction.Immediate) :
    Adds (fetchImmediate pc immediate) (fun image => image.immediateReads pc immediate) := by
  cases immediate with
  | none => exact .pure 0
  | byte => exact .bind (observes_read8 _) (adds_read8 _) fun a => .pure a.toUInt16
  | word =>
    exact .bind (observes_read8 _) (adds_read8 (pc + 1)) fun lo =>
      .bind (observes_read8 _) (adds_read8 (pc + 1 + 1)) fun hi => .pure (word hi lo)

theorem adds_dataRead (read : DataRead) : Adds read.perform (fun image => read.reads image) := by
  cases read with
  | none => exact .pure 0
  | byte address => exact .bind (observes_read8 _) (adds_read8 address) fun a => .pure a.toUInt16
  | stack address =>
    exact .bind (observes_read8 _) (adds_read8 address) fun lo =>
      .bind (observes_read8 _) (adds_read8 (address + 1)) fun hi => .pure (word hi lo)

theorem adds_execute (cpu : Cpu) (i : Instruction) :
    Adds (cpu.execute i) (fun image =>
      cpu.instructionReads image i ++ writes (storesOf (cpu.effectIn image i).actions)) := by
  have hparts := Adds.bind (fetchImmediate_observes cpu.regs.pc i.immediate)
    (adds_fetchImmediate cpu.regs.pc i.immediate) fun immediate =>
      .bind (observes_report _) (adds_report (.executing i immediate cpu.regs)) fun _ =>
        .bind (perform_observes _) (adds_dataRead ((cpu.passing i).dataRead immediate i))
          fun data =>
            let effect := (cpu.passing i).effect immediate data i
            (adds_performAll effect.actions).map fun _ =>
              (costOf i effect, { effect.cpu with cycles := costOf i effect })
  intro bus
  refine (hparts bus).trans ?_
  simp only [instructionReads, List.nil_append, List.append_assoc]
  rfl

/-- A step reads what `reads` says, and then makes the stores that its outcome tells of. -/
theorem traffic_step (cpu : Cpu) (bus : FlatBus) :
    ((cpu.step).run bus).2.traffic.toList =
      bus.traffic.toList ++
        (cpu.reads bus.memory.get ++ writes (storesOf (cpu.outcome bus.memory.get).2)) := by
  obtain ⟨hopcode, hmemory⟩ := fetchOpcode_observes cpu.regs.pc bus
  have hfetched := traffic_fetchOpcode cpu.regs.pc bus
  rw [step, StateT.run_bind, reads, outcome, instructionIn]
  generalize (fetchOpcode cpu.regs.pc : StateM FlatBus (UInt8 × Bool)).run bus = fetched
    at hopcode hmemory hfetched ⊢
  obtain ⟨⟨opcode, extended⟩, bus₁⟩ := fetched
  have hsame : bus₁.memory = bus.memory := hmemory
  have hfound : Image.opcodeAt bus.memory.get cpu.regs.pc = (opcode, extended) := hopcode.symm
  rw [hfound]
  dsimp only [bind] at hfetched ⊢
  cases cpu.config.decode opcode extended with
  | ok i =>
    refine (adds_execute cpu i bus₁).trans ?_
    rw [hfetched, hsame, List.append_assoc, List.append_assoc]
  | error cause =>
    refine (adds_report (.faulted cause cpu.regs) bus₁).trans ?_
    rw [List.append_nil, hfetched]
    exact congrArg (bus.traffic.toList ++ ·) (by simp [writes, storesOf])

end Cpu

end Handheld
