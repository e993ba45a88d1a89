-- SUMMARY: A plain bus of single bytes, on which the processor runs exactly as it runs on the address space.
import Mathlib.Data.List.Forall2
import Handheld.Proofs.AddressSpace.Stores
import Handheld.Proofs.Cpu.Interrupts
import Handheld.Proofs.Cpu.Outcome

namespace Handheld

open LawfulBus

/-! ## The byte bus

An array of bytes with one rule: a store to the divider leaves zero. It defines
byte accesses only, so a word access is the two byte accesses that every bus has
by default. Nobody listens to it, and it records nothing. -/

/-- A byte for every address, and the journal that every bus carries. -/
structure ByteBus where
  memory : Memory
  journal : Journal := {}

instance : Bus ByteBus where
  read8 address := fun bus => (bus.memory.get address, bus)
  write8 address value := modify fun bus =>
    { bus with memory := bus.memory.set address (if address = 0xFF04 then 0 else value) }
  report record := modify fun bus => { bus with journal := bus.journal.add record }

instance : LawfulBus ByteBus Memory where
  held := ByteBus.memory
  image := Memory.get
  put8 address value memory := memory.setAll [(address, value)]
  put16 address value memory :=
    memory.setAll [(address + 1, hiByte value), (address, loByte value)]
  read8_value _ _ := rfl
  read8_held _ _ := rfl
  read16_value _ _ := rfl
  read16_held _ _ := rfl
  write8_held _ _ _ := rfl
  write16_held _ _ _ := rfl
  report_held _ _ := rfl

/-- On the byte bus an action leaves what its byte stores leave, word stores included. -/
theorem ByteBus.put_eq_setAll (action : Action) (memory : Memory) :
    action.put (β := ByteBus) memory = memory.setAll action.stores := by
  cases action <;> rfl

theorem ByteBus.putAll_eq_setAll (actions : List Action) (memory : Memory) :
    putAll (β := ByteBus) actions memory = memory.setAll (storesOf actions) := by
  induction actions generalizing memory with
  | nil => rfl
  | cons action rest ih =>
    rw [storesOf, List.flatMap_cons, Memory.setAll_append, ← put_eq_setAll]
    exact ih _

/-! ## Calls

What can be done with a processor and its bus: step, ask for interrupts, wake,
enter a handler, and access the bus directly. -/

/-- One use of a processor and its bus. -/
inductive Call where
  | step
  | service
  | wake
  | pending
  | read8 (address : UInt16)
  | read16 (address : UInt16)
  | write8 (address : UInt16) (value : UInt8)
  | write16 (address value : UInt16)
deriving DecidableEq, Repr

/-- What a call returns. -/
inductive Answer where
  | stepped (result : Except Fault Nat)
  | served (cycles : Option Nat)
  | woken (did : Bool)
  | pending (sources : Interrupts)
  | byte (value : UInt8)
  | word (value : UInt16)
  | done

namespace Call

/-- Makes a call with a processor, and returns the answer and the processor after it. -/
def perform {β : Type} [Bus β] (cpu : Cpu) : Call → StateM β (Answer × Cpu)
  | step => do
    let (result, cpu) ← cpu.step
    return (.stepped result, cpu)
  | service => do
    let (cycles, cpu) ← cpu.serviceInterrupt
    return (.served cycles, cpu)
  | wake => do
    let (did, cpu) ← cpu.wakeIfPending
    return (.woken did, cpu)
  | pending => return (.pending (← Cpu.pendingInterrupts), cpu)
  | read8 address => return (.byte (← Bus.read8 address), cpu)
  | read16 address => return (.word (← Bus.read16 address), cpu)
  | write8 address value => do
    Bus.write8 address value
    return (.done, cpu)
  | write16 address value => do
    Bus.write16 address value
    return (.done, cpu)

/-- What a call comes to, as a function of the processor and of what a reader finds: the answer,
    the processor after it, and what reaches the bus. -/
def outcome (cpu : Cpu) (image : Image) : Call → (Answer × Cpu) × List Action
  | step =>
    let ((result, cpu), actions) := cpu.outcome image
    ((.stepped result, cpu), actions)
  | service =>
    let ((cycles, cpu), actions) := cpu.serviceOutcome image
    ((.served cycles, cpu), actions)
  | wake =>
    let (did, cpu) := cpu.wakeOutcome image
    ((.woken did, cpu), [])
  | pending => ((.pending image.pending, cpu), [])
  | read8 address => ((.byte (image address), cpu), [])
  | read16 address => ((.word (image.wordAt address), cpu), [])
  | write8 address value => ((.done, cpu), [.write8 address value])
  | write16 address value => ((.done, cpu), [.write16 address value])

section

variable {β γ : Type} [Bus β] [LawfulBus β γ]

/-- A call comes to what `outcome` says, and what is held changes by its actions alone. -/
theorem perform_run (call : Call) (cpu : Cpu) (bus : β) :
    ((call.perform cpu).run bus).1 = (call.outcome cpu (view bus)).1 ∧
      held ((call.perform cpu).run bus).2 =
        putAll (β := β) (call.outcome cpu (view bus)).2 (held bus) := by
  cases call with
  | step =>
    obtain ⟨hresult, hheld⟩ := cpu.step_run bus
    exact ⟨congrArg (fun r : Except Fault Nat × Cpu => (Answer.stepped r.1, r.2)) hresult, hheld⟩
  | service =>
    obtain ⟨hresult, hheld⟩ := cpu.serviceInterrupt_run bus
    exact ⟨congrArg (fun r : Option Nat × Cpu => (Answer.served r.1, r.2)) hresult, hheld⟩
  | wake =>
    obtain ⟨hresult, hheld⟩ := cpu.wakeIfPending_observes bus
    exact ⟨congrArg (fun r : Bool × Cpu => (Answer.woken r.1, r.2)) hresult, hheld⟩
  | pending =>
    exact (Cpu.pendingInterrupts_observes.bind fun sources => .pure (Answer.pending sources, cpu)) bus
  | read8 address =>
    exact ((observes_read8 address).bind fun value => .pure (Answer.byte value, cpu)) bus
  | read16 address =>
    exact ((observes_read16 address).bind fun value => .pure (Answer.word value, cpu)) bus
  | write8 address value => exact ⟨rfl, write8_held address value bus⟩
  | write16 address value => exact ⟨rfl, write16_held address value bus⟩

end

/-! ## Runs of calls -/

/-- What can be seen once a call has been made. -/
structure Moment (β : Type) where
  answer : Answer
  cpu : Cpu
  bus : β

/-- What can be seen after each of several calls, made one after the other. -/
def history {β : Type} [Bus β] (cpu : Cpu) (bus : β) : List Call → List (Moment β)
  | [] => []
  | call :: rest =>
    let ((answer, cpu), bus) := (call.perform cpu).run bus
    ⟨answer, cpu, bus⟩ :: history cpu bus rest

/-- The same answer, the same processor, and the same byte at every address. -/
structure Alike (m : Moment AddressSpace) (m' : Moment ByteBus) : Prop where
  answer : m.answer = m'.answer
  cpu : m.cpu = m'.cpu
  bytes : ∀ address, m.bus.peek address = m'.bus.memory.get address

/-- A call with one processor, on a space and on a byte bus with the same bytes. -/
theorem perform_alike (call : Call) (cpu : Cpu) {s : AddressSpace} {bus : ByteBus}
    (h : s.Holds bus.memory) :
    ((call.perform cpu).run s).1 = ((call.perform cpu).run bus).1 ∧
      ((call.perform cpu).run s).2.Holds ((call.perform cpu).run bus).2.memory := by
  obtain ⟨hanswer, hheld⟩ := call.perform_run cpu s
  obtain ⟨hanswer', hheld'⟩ := call.perform_run cpu bus
  have hview : view s = view bus := funext h.peek
  rw [hview] at hanswer hheld
  refine ⟨hanswer.trans hanswer'.symm, ?_⟩
  have hmemory : ((call.perform cpu).run bus).2.memory =
      bus.memory.setAll (storesOf (call.outcome cpu (view bus)).2) :=
    hheld'.trans (ByteBus.putAll_eq_setAll _ _)
  rw [hmemory]
  exact (h.of_putAll hheld).1

theorem history_alike (calls : List Call) (cpu : Cpu) {s : AddressSpace} {bus : ByteBus}
    (h : s.Holds bus.memory) : List.Forall₂ Alike (history cpu s calls) (history cpu bus calls) := by
  induction calls generalizing cpu s bus with
  | nil => exact .nil
  | cons call rest ih =>
    obtain ⟨hanswer, hholds⟩ := call.perform_alike cpu h
    rcases hs : (call.perform cpu).run s with ⟨⟨answer, cpu₁⟩, s₁⟩
    rcases hbus : (call.perform cpu).run bus with ⟨⟨answer', cpu₁'⟩, bus₁⟩
    rw [hs, hbus] at hanswer hholds
    cases hanswer
    rw [history, history, hs, hbus]
    exact .cons ⟨rfl, rfl, hholds.peek⟩ (ih cpu₁ hholds)

/-- Registering listeners does not change where stores go. -/
theorem holds_listen {s : AddressSpace} {memory : Memory} (h : s.Holds memory)
    (listeners : List Listener) : (listeners.foldl AddressSpace.listen s).Holds memory := by
  induction listeners generalizing s with
  | nil => exact h
  | cons listener rest ih => exact ih ⟨h.store_eq, h.logSwitch_eq⟩

/-- Every sequence of calls goes the same way on the address space, whoever listens to it, and on
    the byte bus: after each call the answers, the processors and all bytes are the same. -/
theorem interchangeable (image : Memory) (listeners : List Listener) (cpu : Cpu)
    (calls : List Call) :
    List.Forall₂ Alike
      (history cpu (listeners.foldl AddressSpace.listen
        ((default : AddressSpace).load 0 image.bytes)) calls)
      (history cpu ({ memory := image } : ByteBus) calls) := by
  have hloaded : Memory.zero.load 0 image.bytes = image := by
    apply Memory.ext_get
    intro address
    have hlt := image.toNat_lt_size address
    have hbase : (0 : UInt16).toNat = 0 := rfl
    rw [Memory.get_load, dif_pos ⟨Nat.zero_le _, by omega⟩]
    rfl
  have hholds : ((default : AddressSpace).load 0 image.bytes).Holds image :=
    ⟨congrArg Store.owned hloaded, rfl⟩
  exact history_alike calls cpu (holds_listen hholds listeners)

end Call

end Handheld
