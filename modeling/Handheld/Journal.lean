-- SUMMARY: What the library reports while it runs: records with a severity, their text, and the journal that keeps them.
import Handheld.Access
import Handheld.Fault
import Handheld.Interrupts
import Handheld.Registers

namespace Handheld

/-! ## Severity -/

/-- The severity of a record, the most severe first. -/
inductive Severity where
  | error | warn | info | debug | trace
deriving DecidableEq, Repr

namespace Severity

def rank : Severity → Nat
  | error => 0 | warn => 1 | info => 2 | debug => 3 | trace => 4

end Severity

/-! ## Records

A record holds what happened and not its wording, so that nothing is formatted
for a record that nobody keeps. -/

/-- Why a run came to its end. -/
inductive StopReason where
  /-- The program counter reached the endpoint. -/
  | endpoint
  /-- The step budget ran out. -/
  | stepLimit
  /-- The processor is halted and no interrupt source that could wake it is enabled. -/
  | deadlocked
deriving DecidableEq, Repr

instance : ToString StopReason where
  toString | .endpoint => "Endpoint" | .stepLimit => "StepLimit" | .deadlocked => "Deadlocked"

/-- Something the library reports. -/
inductive Record where
  /-- The processor cannot execute the instruction at PC. -/
  | faulted (cause : Fault.Cause) (regs : Registers)
  /-- An instruction is about to be executed; the registers are those before it. -/
  | executing (instruction : Instruction) (immediate : UInt16) (regs : Registers)
  /-- The boot program unmapped itself. -/
  | bootUnmapped (pc : UInt16) (restored : Nat)
  /-- An interrupt handler was entered; `pc` is the interrupted address and `sp` the new stack pointer. -/
  | interrupted (source : Nat) (pc sp : UInt16) (pending requested : UInt8)
  /-- An access found the access log full. -/
  | accessDropped (access : Access)
  /-- A cartridge image reaches beyond the address `limit`. -/
  | oversizedRom (size : Nat) (limit : UInt16)
  /-- A boot program was mapped. -/
  | bootMapped (size : Nat)
  /-- Execution starts in the cartridge. -/
  | bootSkipped (pc : UInt16)
  /-- A run came to its end. -/
  | stopped (reason : StopReason) (steps cycles : Nat)
deriving DecidableEq, Repr

namespace Record

/-- A named 16-bit value as it stands in records. -/
private def shown (name : String) (value : UInt16) : String :=
  name ++ "=0x" ++ hex4 value

/-- The wording of a fault in the record that reports it. -/
private def faultText : Fault.Cause → String
  | .undefined opcode => toString opcode
  | .unimplemented name => "unimplemented instruction " ++ name

def severity : Record → Severity
  | faulted .. => .error
  | accessDropped .. | oversizedRom .. => .warn
  | bootUnmapped .. | bootMapped .. | bootSkipped .. | stopped .. => .info
  | interrupted .. => .debug
  | executing .. => .trace

/-- The wording of a record. -/
def text : Record → String
  | faulted cause r =>
    "CPU halted: " ++ faultText cause ++ " at " ++ shown "PC" r.pc ++ " (" ++
      " ".intercalate
        [shown "SP" r.sp, shown "AF" r.af, shown "BC" r.bc, shown "DE" r.de, shown "HL" r.hl] ++ ")"
  | executing instruction immediate r =>
    "0x" ++ hex4 r.pc ++ ": " ++ toString instruction ++ " (" ++ shown "operand" immediate ++ ") " ++
      " ".intercalate
        [shown "AF" r.af, shown "BC" r.bc, shown "DE" r.de, shown "HL" r.hl, shown "SP" r.sp]
  | bootUnmapped pc restored =>
    "boot ROM unmapped at " ++ shown "PC" pc ++ ", restored " ++ toString restored ++ " cartridge bytes"
  | interrupted source pc sp pending requested =>
    "interrupt Interrupts(" ++ Interrupts.name source ++ ") (bit " ++ toString source ++ "): " ++
      " ".intercalate
        [ shown "vector" (Interrupts.handler source), shown "pc" pc, shown "sp" sp
        , "pending=0x" ++ hex2 pending, "IF=0x" ++ hex2 requested ]
  | accessDropped access =>
    "access log full, dropping " ++ toString access.kind ++ " " ++
      "0x" ++ hex4 access.address ++ "=0x" ++ hex2 access.value
  | oversizedRom size limit =>
    "ROM is " ++ toString size ++ " bytes; banking is not supported, bytes past 0x" ++ hex4 limit ++
      " overlay RAM"
  | bootMapped size =>
    "boot ROM mapped (" ++ toString size ++ " bytes), starting at 0x0000"
  | bootSkipped pc =>
    "no boot ROM, starting at 0x" ++ hex4 pc
  | stopped reason steps cycles =>
    "run stopped: " ++ toString reason ++ " after " ++ toString steps ++ " steps (" ++
      toString cycles ++ " cycles)"

end Record

/-! ## The journal -/

/-- The records kept so far, oldest first, and how severe a record must be to be kept. -/
structure Journal where
  /-- The least severe level that is kept; without one nothing is. -/
  threshold : Option Severity := none
  records : Array Record := #[]
deriving Repr, Inhabited

namespace Journal

/-- Whether records of a severity are kept. -/
def keeps (j : Journal) (severity : Severity) : Bool :=
  match j.threshold with
  | none => false
  | some least => severity.rank ≤ least.rank

/-- The journal after a record has been offered to it. -/
def add (j : Journal) (record : Record) : Journal :=
  if j.keeps record.severity then { j with records := j.records.push record } else j

@[simp] theorem threshold_add (j : Journal) (record : Record) :
    (j.add record).threshold = j.threshold := by
  simp only [add]
  split <;> rfl

end Journal

end Handheld
