-- SUMMARY: Changes of a console's memory that no access can tell are kept by everything that the console does.
import Handheld.Console.Run
import Handheld.Proofs.Bus.Map

namespace Handheld

/-! ## Changes that no access can tell

An address space carries more than what its accesses show: the journal, and what
listeners have heard. A change of those commutes with every access, and so with
steps and with runs. -/

namespace AddressSpace

/-- A change of address spaces that keeps what accesses look at and commutes with what they do,
    with the journal and with the timer. -/
structure Unnoticed (φ : AddressSpace → AddressSpace) : Prop where
  store (s : AddressSpace) : (φ s).store = s.store
  logSwitch (s : AddressSpace) : (φ s).logSwitch = s.logSwitch
  notify (s : AddressSpace) (kind : EventKind) (address : UInt16) (byte : UInt8) (value : UInt16) :
    (φ s).notify kind address byte value = φ (s.notify kind address byte value)
  logAccess (s : AddressSpace) (access : Access) : (φ s).logAccess access = φ (s.logAccess access)
  poke (s : AddressSpace) (address : UInt16) (value : UInt8) :
    (φ s).poke address value = φ (s.poke address value)
  report (s : AddressSpace) (record : Record) :
    { φ s with journal := (φ s).journal.add record } =
      φ { s with journal := s.journal.add record }
  advance (t : Timer) (cycles : Nat) (s : AddressSpace) :
    t.advance cycles (φ s) = ((t.advance cycles s).1, φ (t.advance cycles s).2)

namespace Unnoticed

variable {φ : AddressSpace → AddressSpace} (hφ : Unnoticed φ)

include hφ

theorem peek (s : AddressSpace) (address : UInt16) : (φ s).peek address = s.peek address := by
  rw [AddressSpace.peek, hφ.store]
  rfl

theorem logsWrites (s : AddressSpace) : (φ s).logsWrites = s.logsWrites := by
  rw [AddressSpace.logsWrites, hφ.store, hφ.logSwitch]
  rfl

theorem putByte (s : AddressSpace) (address : UInt16) (value : UInt8) :
    (φ s).putByte address value = φ (s.putByte address value) := by
  simp only [AddressSpace.putByte, hφ.logsWrites]
  split
  · exact hφ.logAccess ..
  · exact hφ.poke ..

theorem readByte (address : UInt16) :
    Respects φ (AddressSpace.readByte address) (AddressSpace.readByte address) := by
  intro s
  have hvalue := hφ.peek s address
  change (_, _) = (_, _)
  rw [hvalue]
  exact congrArg _ (hφ.notify ..)

theorem readWord (address : UInt16) :
    Respects φ (AddressSpace.readWord address) (AddressSpace.readWord address) :=
  (hφ.readByte address).bind fun lo =>
    (hφ.readByte (address + 1)).bind fun hi =>
      Respects.bind (.modify fun s => hφ.notify s .readWord address 0 (word hi lo))
        fun _ => .pure (word hi lo)

theorem writeByte (s : AddressSpace) (address : UInt16) (value : UInt8) :
    (φ s).writeByte address value = φ (s.writeByte address value) := by
  rw [AddressSpace.writeByte, hφ.notify, hφ.putByte]
  rfl

theorem writeWord (s : AddressSpace) (address value : UInt16) :
    (φ s).writeWord address value = φ (s.writeWord address value) := by
  rw [AddressSpace.writeWord, hφ.notify, hφ.putByte, hφ.putByte]
  rfl

/-- No access can tell whether the space has been changed. -/
theorem busMap : BusMap φ where
  read8 := hφ.readByte
  read16 := hφ.readWord
  write8 address value := .modify fun s => hφ.writeByte s address value
  write16 address value := .modify fun s => hφ.writeWord s address value
  report record := .modify fun s => hφ.report s record

end Unnoticed

end AddressSpace

namespace Console

/-- The console with its memory changed. -/
def onMemory (φ : AddressSpace → AddressSpace) (m : Console) : Console :=
  { m with memory := φ m.memory }

end Console

namespace AddressSpace.Unnoticed

variable {φ : AddressSpace → AddressSpace} (hφ : Unnoticed φ)

include hφ

theorem elapse (m : Console) (cycles : Nat) :
    (m.onMemory φ).elapse cycles = (m.elapse cycles).onMemory φ := by
  have h := hφ.advance m.timer cycles m.memory
  simp only [Console.elapse, Console.onMemory]
  rw [h]

theorem stepCpu (m : Console) : (m.onMemory φ).stepCpu = (m.stepCpu.1, m.stepCpu.2.onMemory φ) := by
  have h := hφ.busMap.step m.cpu m.memory
  simp only [Console.stepCpu, Console.onMemory]
  rw [h]
  rfl

theorem wake (m : Console) : (m.onMemory φ).wake = (m.wake.1, m.wake.2.onMemory φ) := by
  have h := hφ.busMap.wakeIfPending m.cpu m.memory
  simp only [Console.wake, Console.onMemory]
  rw [h]
  rfl

theorem service (m : Console) : (m.onMemory φ).service = (m.service.1, m.service.2.onMemory φ) := by
  have h := hφ.busMap.serviceInterrupt m.cpu m.memory
  simp only [Console.service, Console.onMemory]
  rw [h]
  rfl

theorem work (m : Console) : (m.onMemory φ).work = (m.work.1, m.work.2.onMemory φ) := by
  have hhalted : (m.onMemory φ).cpu.halted = m.cpu.halted := rfl
  simp only [Console.work, hhalted, hφ.wake, hφ.stepCpu]
  split
  · split <;> rfl
  · rfl

/-- The changed console makes the same step. -/
theorem step (m : Console) : (m.onMemory φ).step = (m.step.1, m.step.2.onMemory φ) := by
  simp only [Console.step, hφ.work]
  rcases m.work with ⟨result, worked⟩
  cases result with
  | error fault => rfl
  | ok cycles => simp only [hφ.elapse, hφ.service]

theorem runFrom (m : Console) (steps cycles budget : Nat) :
    (m.onMemory φ).runFrom steps cycles budget =
      ((m.runFrom steps cycles budget).1, (m.runFrom steps cycles budget).2.onMemory φ) := by
  have hend (m : Console) : (m.onMemory φ).atEndpoint = m.atEndpoint := rfl
  have hdead (m : Console) : (m.onMemory φ).deadlocked = m.deadlocked := by
    rw [Console.deadlocked, Console.onMemory, hφ.peek]
    rfl
  induction budget generalizing m steps cycles with
  | zero => rfl
  | succ budget ih =>
    simp only [Console.runFrom, hend, hdead, hφ.step]
    split
    · rfl
    split
    · rfl
    rcases m.step with ⟨result, m'⟩
    cases result with
    | error fault => rfl
    | ok cost => exact ih ..

/-- The changed console makes the same run. -/
theorem run (m : Console) (budget : Option Nat) :
    (m.onMemory φ).run budget = ((m.run budget).1, (m.run budget).2.onMemory φ) := by
  simp only [Console.run, hφ.runFrom]
  rcases m.runFrom 0 0 (budget.getD Console.stepCeiling) with ⟨result, m'⟩
  cases result with
  | error fault => rfl
  | ok summary =>
    have h := hφ.report m'.memory (.stopped summary.reason summary.steps summary.cycles)
    simp only [Console.report, Console.onMemory]
    rw [← h]

end AddressSpace.Unnoticed

end Handheld
