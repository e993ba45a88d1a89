-- SUMMARY: A handler that saves registers, restores them in the opposite order and returns goes unnoticed by what it interrupts.
import Mathlib.Algebra.GroupWithZero.Nat
import Handheld.Proofs.Cpu.Control
import Handheld.Proofs.Cpu.Dispatch
import Handheld.Proofs.Cpu.Stack
import Handheld.Proofs.Cpu.Switches

namespace Handheld

open LawfulBus

/-! ## Code in memory -/

/-- From an address up lie the opcodes of some instructions, each one byte long. -/
def Installed (image : Image) (pc : UInt16) : List Instruction → Prop
  | [] => True
  | i :: code => image pc = loByte i.opcode ∧ Installed image (pc + 1) code

theorem add_ofNat_succ (pc : UInt16) (n : Nat) :
    pc + 1 + UInt16.ofNat n = pc + UInt16.ofNat (n + 1) := by
  rw [UInt16.ofNat_add]
  grind

theorem Installed.append {image : Image} {pc : UInt16} {code later : List Instruction}
    (h : Installed image pc (code ++ later)) :
    Installed image pc code ∧ Installed image (pc + UInt16.ofNat code.length) later := by
  induction code generalizing pc with
  | nil =>
    have hzero : pc + UInt16.ofNat 0 = pc := by grind
    exact ⟨trivial, hzero.symm ▸ h⟩
  | cons i code ih =>
    obtain ⟨hcode, hlater⟩ := ih h.2
    rw [add_ofNat_succ] at hlater
    exact ⟨⟨h.1, hcode⟩, hlater⟩

/-- Code stays where it is as long as its bytes do. -/
theorem Installed.of_same {image image' : Image} {pc : UInt16} {code : List Instruction}
    (h : Installed image pc code)
    (hsame : ∀ j < code.length, image' (pc + UInt16.ofNat j) = image (pc + UInt16.ofNat j)) :
    Installed image' pc code := by
  induction code generalizing pc with
  | nil => trivial
  | cons i code ih =>
    refine ⟨?_, ih h.2 ?_⟩
    · have hfirst := hsame 0 (Nat.zero_lt_succ _)
      have hzero : pc + UInt16.ofNat 0 = pc := by grind
      rw [hzero] at hfirst
      exact hfirst.trans h.1
    · intro j hj
      rw [add_ofNat_succ]
      exact hsame (j + 1) (Nat.succ_lt_succ hj)

namespace Cpu

/-! ## Steps that succeed -/

section

variable {β : Type} [Bus β]

theorem steps_add (m n : Nat) (cpu : Cpu) (bus : β) :
    (steps (m + n) cpu).run bus =
      let first := (steps m cpu).run bus
      let second := (steps n first.1.2).run first.2
      ((first.1.1 ++ second.1.1, second.1.2), second.2) := by
  induction n with
  | zero =>
    refine Prod.ext (Prod.ext ?_ rfl) rfl
    exact (List.append_nil _).symm
  | succ n ih =>
    rw [← Nat.add_assoc, steps, StateT.run_bind, ih]
    refine Prod.ext (Prod.ext ?_ rfl) rfl
    exact List.append_assoc ..

end

/-- Some steps all succeed, at a cost in total, and lead from one state to another. -/
def Proceeds (n cost : Nat) (cpu : Cpu) (bus : FlatBus) (cpu' : Cpu) (bus' : FlatBus) : Prop :=
  ∃ costs : List Nat, (steps n cpu).run bus = ((costs.map .ok, cpu'), bus') ∧ costs.sum = cost

section

variable {cpu cpu₁ cpu₂ : Cpu} {bus bus₁ bus₂ : FlatBus}

theorem Proceeds.refl (cpu : Cpu) (bus : FlatBus) : Proceeds 0 0 cpu bus cpu bus :=
  ⟨[], rfl, rfl⟩

theorem Proceeds.trans {m n cost cost' : Nat} (h : Proceeds m cost cpu bus cpu₁ bus₁)
    (h' : Proceeds n cost' cpu₁ bus₁ cpu₂ bus₂) :
    Proceeds (m + n) (cost + cost') cpu bus cpu₂ bus₂ := by
  obtain ⟨costs, hrun, rfl⟩ := h
  obtain ⟨costs', hrun', rfl⟩ := h'
  refine ⟨costs ++ costs', ?_, List.sum_append⟩
  rw [steps_add, hrun]
  simp only [hrun', List.map_append]

theorem steps_one {β : Type} [Bus β] (cpu : Cpu) (bus : β) :
    (steps 1 cpu).run bus =
      (([((cpu.step).run bus).1.1], ((cpu.step).run bus).1.2), ((cpu.step).run bus).2) := rfl

/-- A step that can be decoded proceeds to what its instruction does. -/
theorem proceeds_step {i : Instruction} (hi : cpu.instructionIn bus.memory.get = .ok i) :
    let effect := cpu.effectIn bus.memory.get i
    ∃ bus', Proceeds 1 (costOf i effect) cpu bus (effect.cpu.timed (costOf i effect)) bus' ∧
      bus'.memory = putAll (β := FlatBus) effect.actions bus.memory := by
  intro effect
  obtain ⟨hresult, hmemory⟩ := step_run_flat cpu bus
  rw [outcome, hi] at hresult hmemory
  refine ⟨((cpu.step).run bus).2, ⟨[costOf i effect], ?_, List.sum_singleton⟩, hmemory⟩
  rw [steps_one, hresult]
  rfl

/-- What an opcode of the first table stands for is executed under every configuration. -/
theorem instructionIn_of_opcode {image : Image} {i : Instruction}
    (hcode : image cpu.regs.pc = loByte i.opcode) (hplain : i.prefixed = false)
    (hne : loByte i.opcode ≠ extensionByte)
    (hdecode : Instruction.decode? (loByte i.opcode) false = some i) :
    cpu.instructionIn image = .ok i := by
  have hfetch : image.opcodeAt cpu.regs.pc = (loByte i.opcode, false) := by
    rw [Image.opcodeAt, hcode, if_neg hne]
  rw [instructionIn_of_opcodeAt hfetch, Config.decode, hdecode]
  simp [Config.supports_of_not_prefixed _ hplain]

/-! ### Saving, restoring and returning -/

/-- The processor after a step that moved nothing but the program counter and the stack pointer. -/
def moved (cpu : Cpu) (pc sp : UInt16) (cycles : Nat) : Cpu :=
  { cpu with regs := { cpu.regs with pc, sp }, cycles }

@[simp] theorem stackPair_moved (cpu : Cpu) (pc sp : UInt16) (cycles : Nat) (pair : StackPair) :
    (cpu.moved pc sp cycles).stackPair pair = cpu.stackPair pair := by
  cases pair <;> rfl

theorem setStackPair_stackPair (cpu : Cpu) (pair : StackPair) :
    cpu.setStackPair pair (cpu.stackPair pair) = cpu := by
  cases pair <;> simp [setStackPair, stackPair]

theorem proceeds_push {pair : StackPair}
    (hcode : bus.memory.get cpu.regs.pc = loByte (Instruction.push pair).opcode) :
    ∃ bus', Proceeds 1 4 cpu bus (cpu.moved (cpu.regs.pc + 1) (cpu.regs.sp - 2) 4) bus' ∧
      Image.wordAt bus'.memory.get (cpu.regs.sp - 2) = cpu.stackPair pair ∧
      ∀ address, address ≠ cpu.regs.sp - 1 → address ≠ cpu.regs.sp - 2 →
        bus'.memory.get address = bus.memory.get address := by
  have hi : cpu.instructionIn bus.memory.get = .ok (.push pair) := by
    apply instructionIn_of_opcode hcode rfl <;> cases pair <;> decide
  obtain ⟨bus', hproceeds, hmemory⟩ := proceeds_step hi
  have hactions : (cpu.effectIn bus.memory.get (.push pair)).actions =
      pushActions cpu.regs.sp (cpu.stackPair pair) := by
    cases pair <;> rfl
  rw [hactions] at hmemory
  have hpushed := FlatBus.storingAt.push (h := bus.memory) trivial cpu.regs.sp
    (cpu.stackPair pair) trivial trivial
  rw [← hmemory] at hpushed
  exact ⟨bus', hproceeds, hpushed.2⟩

theorem proceeds_pop (cpu : Cpu) {pair : StackPair}
    (hcode : bus.memory.get cpu.regs.pc = loByte (Instruction.pop pair).opcode) :
    ∃ bus', Proceeds 1 3 cpu bus
        ((cpu.moved (cpu.regs.pc + 1) (cpu.regs.sp + 2) 3).setStackPair pair
          (Image.wordAt bus.memory.get cpu.regs.sp)) bus' ∧
      bus'.memory = bus.memory := by
  have hi : cpu.instructionIn bus.memory.get = .ok (.pop pair) := by
    apply instructionIn_of_opcode hcode rfl <;> cases pair <;> decide
  obtain ⟨bus', hproceeds, hmemory⟩ := proceeds_step hi
  refine ⟨bus', ?_, hmemory⟩
  cases pair <;> exact hproceeds

/-- Popping what a pair holds already moves nothing but the program counter and the stack
    pointer. -/
theorem proceeds_restore (cpu : Cpu) {pc sp : UInt16} {cycles : Nat} {pair : StackPair}
    (hcode : bus.memory.get pc = loByte (Instruction.pop pair).opcode)
    (hword : Image.wordAt bus.memory.get sp = cpu.stackPair pair) :
    ∃ bus', Proceeds 1 3 (cpu.moved pc sp cycles) bus (cpu.moved (pc + 1) (sp + 2) 3) bus' ∧
      bus'.memory = bus.memory := by
  obtain ⟨bus', hpopped, hmemory⟩ := proceeds_pop (cpu.moved pc sp cycles) hcode
  have hrestored : (cpu.moved (pc + 1) (sp + 2) 3).setStackPair pair
      (Image.wordAt bus.memory.get sp) = cpu.moved (pc + 1) (sp + 2) 3 := by
    rw [hword, ← cpu.stackPair_moved (pc + 1) (sp + 2) 3 pair, setStackPair_stackPair]
  exact ⟨bus', hrestored ▸ hpopped, hmemory⟩

theorem proceeds_reti (cpu : Cpu)
    (hcode : bus.memory.get cpu.regs.pc = loByte Instruction.reti.opcode) :
    ∃ bus', Proceeds 1 4 cpu bus
        { cpu.moved (Image.wordAt bus.memory.get cpu.regs.sp) (cpu.regs.sp + 2) 4 with
          ime := true } bus' ∧
      bus'.memory = bus.memory := by
  have hi : cpu.instructionIn bus.memory.get = .ok .reti :=
    instructionIn_of_opcode hcode rfl (by decide) (by decide)
  exact proceeds_step hi

end

/-! ## Saving registers around nothing -/

/-- Saves some register pairs and restores them in the opposite order. -/
def saveAndRestore : List StackPair → List Instruction
  | [] => []
  | pair :: pairs => .push pair :: (saveAndRestore pairs ++ [.pop pair])

theorem saveAndRestore_eq (pairs : List StackPair) :
    saveAndRestore pairs = pairs.map .push ++ pairs.reverse.map .pop := by
  induction pairs with
  | nil => rfl
  | cons pair pairs ih => simp [saveAndRestore, ih]

theorem length_saveAndRestore (pairs : List StackPair) :
    (saveAndRestore pairs).length = 2 * pairs.length := by
  rw [saveAndRestore_eq]
  simp
  omega

/-- What stands behind the code is still there if only bytes of a window change that it is out of. -/
theorem opcode_behind {image image' : Image} {pc sp : UInt16} {pairs : List StackPair}
    {last : Instruction} (h : Installed image pc (saveAndRestore pairs ++ [last])) {n : Nat}
    (hkept : ∀ address, ¬Below sp n address → image' address = image address)
    (hapart : ¬Below sp n (pc + UInt16.ofNat (2 * pairs.length))) :
    image' (pc + UInt16.ofNat (2 * pairs.length)) = loByte last.opcode := by
  obtain ⟨-, hlast, -⟩ := h.append
  rw [length_saveAndRestore] at hlast
  exact (hkept _ hapart).trans hlast

/-- The word just above a window is not in it. -/
theorem not_below_above (sp : UInt16) {n : Nat} (hn : n + 2 ≤ memorySize) :
    ¬Below (sp - 2) n (sp - 1) ∧ ¬Below (sp - 2) n (sp - 2) := by
  have hsize : memorySize = 65536 := rfl
  have hhigh : sp - 2 - 1 - (sp - 1) = 0xFFFE := by grind
  have hlow : sp - 2 - 1 - (sp - 2) = 0xFFFF := by grind
  constructor
  · rw [below_iff, hhigh, show (0xFFFE : UInt16).toNat = 65534 from rfl]
    omega
  · rw [below_iff, hlow, show (0xFFFF : UInt16).toNat = 65535 from rfl]
    omega

/-- A word above a window is kept if the bytes outside the window are. -/
theorem wordAt_of_kept {image image' : Image} {sp : UInt16} {n : Nat}
    (hn : n + 2 ≤ memorySize)
    (hkept : ∀ address, ¬Below (sp - 2) n address → image' address = image address) :
    image'.wordAt (sp - 2) = image.wordAt (sp - 2) := by
  obtain ⟨hhigh, hlow⟩ := not_below_above sp hn
  have habove : sp - 2 + 1 = sp - 1 := by grind
  rw [Image.wordAt, Image.wordAt, habove, hkept _ hhigh, hkept _ hlow]

theorem proceeds_saveAndRestore (pairs : List StackPair) {cpu : Cpu} {bus : FlatBus}
    (hcode : Installed bus.memory.get cpu.regs.pc (saveAndRestore pairs))
    (hapart : ∀ j < 2 * pairs.length,
      ¬Below cpu.regs.sp (2 * pairs.length) (cpu.regs.pc + UInt16.ofNat j))
    (hsize : 2 * pairs.length ≤ memorySize) :
    ∃ cycles bus', Proceeds (2 * pairs.length) (7 * pairs.length) cpu bus
        (cpu.moved (cpu.regs.pc + UInt16.ofNat (2 * pairs.length)) cpu.regs.sp cycles) bus' ∧
      ∀ address, ¬Below cpu.regs.sp (2 * pairs.length) address →
        bus'.memory.get address = bus.memory.get address := by
  induction pairs generalizing cpu bus with
  | nil =>
    refine ⟨cpu.cycles, bus, ?_, fun _ _ => rfl⟩
    have hpc : cpu.regs.pc + UInt16.ofNat (2 * ([] : List StackPair).length) = cpu.regs.pc := by
      simp
    rw [hpc]
    exact .refl cpu bus
  | cons pair pairs ih =>
    have hlength : 2 * (pair :: pairs).length = 2 * pairs.length + 2 := rfl
    rw [hlength] at hapart hsize ⊢
    obtain ⟨hpush, hrest⟩ := hcode
    obtain ⟨bus₁, hpushed, hword, hkept₁⟩ := proceeds_push hpush
    -- The saved registers are in nobody's way: not in that of the code, nor of what is saved next.
    have hinner (j : Nat) (hj : j < 2 * pairs.length + 1) :
        bus₁.memory.get (cpu.regs.pc + 1 + UInt16.ofNat j) =
            bus.memory.get (cpu.regs.pc + 1 + UInt16.ofNat j) ∧
          ¬Below (cpu.regs.sp - 2) (2 * pairs.length) (cpu.regs.pc + 1 + UInt16.ofNat j) := by
      have hbelow := hapart (j + 1) (by omega)
      rw [← add_ofNat_succ, below_add_two, not_or, not_or] at hbelow
      exact ⟨hkept₁ _ hbelow.1 hbelow.2.1, hbelow.2.2⟩
    have hmoved : Installed bus₁.memory.get (cpu.regs.pc + 1)
        (saveAndRestore pairs ++ [.pop pair]) := by
      apply hrest.of_same
      intro j hj
      rw [List.length_append, length_saveAndRestore] at hj
      exact (hinner j hj).1
    obtain ⟨cycles, bus₂, hrun, hkept₂⟩ :=
      @ih (cpu.moved (cpu.regs.pc + 1) (cpu.regs.sp - 2) 4) bus₁ hmoved.append.1
        (fun j hj => (hinner j (Nat.lt_succ_of_lt hj)).2) (by omega)
    have hpop₂ : bus₂.memory.get (cpu.regs.pc + 1 + UInt16.ofNat (2 * pairs.length)) =
        loByte (Instruction.pop pair).opcode :=
      opcode_behind hmoved hkept₂ (hinner _ (Nat.lt_succ_self _)).2
    have hword₂ : Image.wordAt bus₂.memory.get (cpu.regs.sp - 2) = cpu.stackPair pair := by
      rw [wordAt_of_kept hsize hkept₂]
      exact hword
    obtain ⟨bus₃, hrestored, hmemory⟩ := proceeds_restore cpu hpop₂ hword₂
    have hall : Proceeds (1 + (2 * pairs.length + 1)) (4 + (7 * pairs.length + 3)) cpu bus
        (cpu.moved (cpu.regs.pc + 1 + UInt16.ofNat (2 * pairs.length) + 1)
          (cpu.regs.sp - 2 + 2) 3) bus₃ :=
      hpushed.trans (hrun.trans hrestored)
    have hpc : cpu.regs.pc + 1 + UInt16.ofNat (2 * pairs.length) + 1 =
        cpu.regs.pc + UInt16.ofNat (2 * pairs.length + 2) := by
      rw [add_ofNat_succ, UInt16.ofNat_add _ 1, UInt16.ofNat_add _ 2]
      grind
    rw [hpc, UInt16.sub_add_cancel] at hall
    refine ⟨3, bus₃, ?_, ?_⟩
    · have hsteps : 1 + (2 * pairs.length + 1) = 2 * pairs.length + 2 := by omega
      have hcost : 4 + (7 * pairs.length + 3) = 7 * (pair :: pairs).length := by
        rw [List.length_cons]
        omega
      rw [hsteps, hcost] at hall
      exact hall
    · intro address haddress
      rw [below_add_two, not_or, not_or] at haddress
      rw [hmemory, hkept₂ address haddress.2.2, hkept₁ address haddress.1 haddress.2.1]

/-! ## The handler and what it interrupts -/

/-- A handler that saves some register pairs, restores them and returns. -/
def handlerCode (pairs : List StackPair) : List Instruction :=
  pairs.map .push ++ pairs.reverse.map .pop ++ [.reti]

/-- A run of bytes fits in memory together with a window that it stays out of. -/
theorem add_le_of_not_below {base start : UInt16} {n m : Nat} (hpos : 0 < n) (hm : 0 < m)
    (hn : n ≤ memorySize) (h : ∀ j < n, ¬Below base m (start + UInt16.ofNat j)) :
    n + m ≤ memorySize := by
  have hsize : memorySize = 65536 := rfl
  have hdistance := (base - 1 - start).toNat_lt
  have hfar (j : Nat) (hj : j < n) (hle : j ≤ (base - 1 - start).toNat) :
      m + j ≤ (base - 1 - start).toNat := by
    have hshift : base - 1 - (start + UInt16.ofNat j) = base - 1 - start - UInt16.ofNat j := by grind
    have hsmall : (UInt16.ofNat j).toNat = j := by
      rw [UInt16.toNat_ofNat', Nat.mod_eq_of_lt (by omega)]
    have hle' : UInt16.ofNat j ≤ base - 1 - start := by
      rw [UInt16.le_iff_toNat_le, hsmall]
      exact hle
    have hback := h j hj
    rw [below_iff, hshift, UInt16.toNat_sub_of_le _ _ hle', hsmall] at hback
    omega
  by_cases hbefore : (base - 1 - start).toNat < n
  · have := hfar _ hbefore (Nat.le_refl _)
    omega
  · have := hfar (n - 1) (by omega) (by omega)
    omega

theorem toNat_handler {source : Nat} (h : source < 5) :
    (Interrupts.handler source).toNat = 64 + 8 * source := by
  have hsource : (UInt16.ofNat source).toNat = source := by
    rw [UInt16.toNat_ofNat', Nat.mod_eq_of_lt (by omega)]
  rw [Interrupts.handler, UInt16.toNat_add, UInt16.toNat_mul, hsource]
  rw [show (0x40 : UInt16).toNat = 64 from rfl, show (8 : UInt16).toNat = 8 from rfl]
  omega

/-- Code that stays out of the stack it needs does not reach the interrupt registers. -/
theorem handler_add_ne_interruptFlags {source : Nat} (hsource : source < 5) {sp : UInt16} {k : Nat}
    (hapart : ∀ j < 2 * k + 1,
      ¬Below sp (2 * k + 2) (Interrupts.handler source + UInt16.ofNat j)) :
    ∀ j < 2 * k + 1, Interrupts.handler source + UInt16.ofNat j ≠ Hardware.interruptFlags := by
  intro j hj heq
  have hsize : memorySize = 65536 := rfl
  have hwindow := lt_memorySize_of_not_below (hapart 0 (by omega))
  have hfits := add_le_of_not_below (by omega) (by omega) (by omega) hapart
  have hnat := congrArg UInt16.toNat heq
  rw [UInt16.toNat_add, toNat_handler hsource, UInt16.toNat_ofNat',
    show Hardware.interruptFlags.toNat = 65295 from rfl] at hnat
  omega

theorem dueSource_of_lowest {cpu : Cpu} {image : Image} {source : Nat} (hime : cpu.ime = true)
    (hbit : image.pending.bits.toNat.testBit source = true)
    (hlower : ∀ lower < source, image.pending.bits.toNat.testBit lower = false) :
    cpu.dueSource image = some source := by
  have hlt := Interrupts.testBit_ofByte_lt hbit
  rw [dueSource, if_pos hime, Interrupts.lowest?_eq_some_iff]
  exact ⟨by omega, hbit, hlower⟩

/-- On a flat bus a dispatch takes back one request, and then leaves PC on the stack. -/
theorem service_run_flat {cpu : Cpu} {bus : FlatBus} {source : Nat}
    (h : cpu.dueSource bus.memory.get = some source) :
    ∃ bus', (cpu.serviceInterrupt).run bus = ((some dispatchCycles, cpu.entered source), bus') ∧
      Image.wordAt bus'.memory.get (cpu.regs.sp - 2) = cpu.regs.pc ∧
      ∀ address, address ≠ cpu.regs.sp - 1 → address ≠ cpu.regs.sp - 2 →
        bus'.memory.get address =
          if address = Hardware.interruptFlags then
            bus.memory.get Hardware.interruptFlags &&& ~~~(Interrupts.single source).bits
          else bus.memory.get address := by
  obtain ⟨hresult, hheld⟩ := cpu.serviceInterrupt_run bus
  have hview : view bus = bus.memory.get := rfl
  rw [hview, serviceOutcome_of_some h] at hresult hheld
  let requests := bus.memory.set Hardware.interruptFlags
    (bus.memory.get Hardware.interruptFlags &&& ~~~(Interrupts.single source).bits)
  have hmemory : ((cpu.serviceInterrupt).run bus).2.memory =
      putAll (β := FlatBus) (pushActions cpu.regs.sp cpu.regs.pc) requests := hheld
  obtain ⟨-, hword, hkept⟩ := FlatBus.storingAt.push (h := requests) trivial cpu.regs.sp
    cpu.regs.pc trivial trivial
  rw [← hmemory] at hword hkept
  refine ⟨((cpu.serviceInterrupt).run bus).2, Prod.ext hresult rfl, hword, ?_⟩
  intro address hhigh hlow
  exact (hkept address hhigh hlow).trans (Memory.get_set ..)

/-- A handler that saves register pairs, restores them in the opposite order and returns, with
    its code out of the way of the stack. What was interrupted goes on as if nothing had happened:
    all registers are as they were, interrupts are enabled, and outside the window of the stack
    only the request of the source has been taken back. -/
theorem handler_transparent {cpu : Cpu} {bus : FlatBus} {source : Nat} {pairs : List StackPair}
    (hime : cpu.ime = true)
    (hbit : (bus.memory.get 0xFFFF &&& bus.memory.get 0xFF0F &&& 0x1F).toNat.testBit source = true)
    (hlower : ∀ lower < source,
      (bus.memory.get 0xFFFF &&& bus.memory.get 0xFF0F &&& 0x1F).toNat.testBit lower = false)
    (hcode : Installed bus.memory.get (0x40 + 8 * UInt16.ofNat source) (handlerCode pairs))
    (hapart : ∀ j < 2 * pairs.length + 1, ¬Below cpu.regs.sp (2 * pairs.length + 2)
      (0x40 + 8 * UInt16.ofNat source + UInt16.ofNat j))
    (hflags : ¬Below cpu.regs.sp (2 * pairs.length + 2) 0xFF0F) :
    ∃ (cpu₁ : Cpu) (bus₁ : FlatBus) (costs : List Nat) (bus₂ : FlatBus),
      (cpu.serviceInterrupt).run bus = ((some 5, cpu₁), bus₁) ∧
      (steps (2 * pairs.length + 1) cpu₁).run bus₁ =
        ((costs.map .ok, { cpu with ime := true, halted := false, cycles := 4 }), bus₂) ∧
      5 + costs.sum = 5 + 7 * pairs.length + 4 ∧
      bus₂.memory.get 0xFF0F = bus.memory.get 0xFF0F &&& ~~~(1 <<< UInt8.ofNat source) ∧
      ∀ address, address ≠ 0xFF0F → ¬Below cpu.regs.sp (2 * pairs.length + 2) address →
        bus₂.memory.get address = bus.memory.get address := by
  have hsource : source < 5 := Interrupts.testBit_ofByte_lt hbit
  have hdue : cpu.dueSource bus.memory.get = some source := dueSource_of_lowest hime hbit hlower
  have hsize : 2 * pairs.length + 2 ≤ memorySize :=
    Nat.le_of_lt (lt_memorySize_of_not_below hflags)
  obtain ⟨bus₁, hserved, hword, hkept⟩ := service_run_flat hdue
  -- Each byte of the code is out of reach of the dispatch, and of what is saved.
  have hinner (j : Nat) (hj : j < 2 * pairs.length + 1) :
      bus₁.memory.get (Interrupts.handler source + UInt16.ofNat j) =
          bus.memory.get (Interrupts.handler source + UInt16.ofNat j) ∧
        ¬Below (cpu.regs.sp - 2) (2 * pairs.length) (Interrupts.handler source + UInt16.ofNat j) := by
    have hbelow := hapart j hj
    rw [below_add_two, not_or, not_or] at hbelow
    refine ⟨?_, hbelow.2.2⟩
    refine (hkept _ hbelow.1 hbelow.2.1).trans (if_neg ?_)
    exact handler_add_ne_interruptFlags hsource hapart j hj
  have hinstalled : Installed bus₁.memory.get (Interrupts.handler source)
      (saveAndRestore pairs ++ [.reti]) := by
    rw [saveAndRestore_eq]
    apply hcode.of_same
    intro j hj
    have hlength : (handlerCode pairs).length = 2 * pairs.length + 1 := by
      rw [handlerCode, ← saveAndRestore_eq, List.length_append, length_saveAndRestore]
      rfl
    exact (hinner j (hlength ▸ hj)).1
  obtain ⟨cycles, bus₂, hrun, hkept₂⟩ :=
    @proceeds_saveAndRestore pairs (cpu.entered source) bus₁ hinstalled.append.1
      (fun j hj => (hinner j (Nat.lt_succ_of_lt hj)).2) (by omega)
  have hreti₂ : bus₂.memory.get (Interrupts.handler source + UInt16.ofNat (2 * pairs.length)) =
      loByte Instruction.reti.opcode :=
    opcode_behind hinstalled hkept₂ (hinner _ (Nat.lt_succ_self _)).2
  have hword₂ : Image.wordAt bus₂.memory.get (cpu.regs.sp - 2) = cpu.regs.pc :=
    (wordAt_of_kept hsize hkept₂).trans hword
  obtain ⟨bus₃, hreturned, hmemory⟩ :=
    proceeds_reti ((cpu.entered source).moved
      (Interrupts.handler source + UInt16.ofNat (2 * pairs.length)) (cpu.regs.sp - 2) cycles) hreti₂
  obtain ⟨costs, hsteps, hsum⟩ := hrun.trans hreturned
  have hback : ({ (cpu.entered source).moved (Image.wordAt bus₂.memory.get (cpu.regs.sp - 2))
      (cpu.regs.sp - 2 + 2) 4 with ime := true } : Cpu) =
      { cpu with ime := true, halted := false, cycles := 4 } := by
    rw [hword₂, UInt16.sub_add_cancel]
    rfl
  have hleft (address : UInt16) (haddress : ¬Below cpu.regs.sp (2 * pairs.length + 2) address) :
      bus₃.memory.get address =
        if address = Hardware.interruptFlags then
          bus.memory.get Hardware.interruptFlags &&& ~~~(Interrupts.single source).bits
        else bus.memory.get address := by
    rw [below_add_two, not_or, not_or] at haddress
    rw [hmemory, hkept₂ address haddress.2.2, hkept address haddress.1 haddress.2.1]
  refine ⟨cpu.entered source, bus₁, costs, bus₃, hserved, ?_, by omega, ?_, ?_⟩
  · rw [← hback]
    exact hsteps
  · exact (hleft _ hflags).trans (if_pos rfl)
  · intro address hne haddress
    exact (hleft address haddress).trans (if_neg hne)

/-- The timer is pending, and its handler saves and restores two register pairs. -/
def timerSavesTwo : FlatBus where
  memory :=
    ((((((Memory.zero.set 0xFFFF 0x04).set 0xFF0F 0xE4).set 0x50 0xF5).set 0x51 0xC5).set
      0x52 0xC1).set 0x53 0xF1).set 0x54 0xD9

theorem get_timerSavesTwo : timerSavesTwo.memory.get = fun address =>
    if address = 0x54 then 0xD9 else if address = 0x53 then 0xF1 else if address = 0x52 then 0xC1
    else if address = 0x51 then 0xC5 else if address = 0x50 then 0xF5
    else if address = 0xFF0F then 0xE4 else if address = 0xFFFF then 0x04 else 0 := by
  funext address
  simp only [timerSavesTwo, Memory.get_set, Memory.get_zero]

/-- The stack may wrap around, and even reach the byte that enables sources. -/
theorem handler_transparent_timerSavesTwo :
    let cpu : Cpu := { regs := { a := 0xAB, sp := 2, pc := 0x1234 }, ime := true, halted := true }
    ∃ (cpu₁ : Cpu) (bus₁ : FlatBus) (costs : List Nat) (bus₂ : FlatBus),
      (cpu.serviceInterrupt).run timerSavesTwo = ((some 5, cpu₁), bus₁) ∧
      (steps 5 cpu₁).run bus₁ =
        ((costs.map .ok, { cpu with ime := true, halted := false, cycles := 4 }), bus₂) ∧
      5 + costs.sum = 23 ∧ bus₂.memory.get 0xFF0F = 0xE0 := by
  intro cpu
  have hbits : timerSavesTwo.memory.get 0xFFFF &&& timerSavesTwo.memory.get 0xFF0F &&& 0x1F = 4 := by
    rw [get_timerSavesTwo]
    decide
  have hcode : Installed timerSavesTwo.memory.get (0x40 + 8 * UInt16.ofNat 2)
      (handlerCode [.af, .bc]) := by
    rw [get_timerSavesTwo]
    exact ⟨rfl, rfl, rfl, rfl, rfl, trivial⟩
  obtain ⟨cpu₁, bus₁, costs, bus₂, hserved, hsteps, hcosts, hrequests, -⟩ :=
    @handler_transparent cpu timerSavesTwo 2 [.af, .bc] rfl (by rw [hbits]; decide)
      (by rw [hbits]; decide) hcode (by decide) (by decide)
  refine ⟨cpu₁, bus₁, costs, bus₂, hserved, hsteps, hcosts, hrequests.trans ?_⟩
  rw [get_timerSavesTwo]
  decide

end Cpu

end Handheld
