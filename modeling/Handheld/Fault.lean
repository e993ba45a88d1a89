-- SUMMARY: Why the processor cannot go on: undefined opcodes and instructions left out by the configuration.
import Handheld.Instruction.Mnemonic

namespace Handheld

/-! ## Faults

Both kinds of fault leave the register file as it was before the failing fetch,
so the address in the fault is the program counter. -/

/-- An opcode byte that its table gives no meaning. -/
structure UndefinedOpcode where
  opcode : UInt8
  /-- Whether the byte was looked up in the second table. -/
  prefixed : Bool
deriving DecidableEq, Repr

instance : ToString UndefinedOpcode where
  toString u :=
    "invalid " ++ (if u.prefixed then "prefixed" else "non-prefixed") ++ " opcode 0x" ++ hex2 u.opcode

/-- Why an opcode cannot be executed. -/
inductive Fault.Cause where
  | undefined (opcode : UndefinedOpcode)
  /-- An instruction, named as in diagnostics, that the configuration leaves out. -/
  | unimplemented (instruction : String)
deriving DecidableEq, Repr

/-- A step that could not be made. -/
structure Fault where
  cause : Fault.Cause
  /-- The address of the opcode. -/
  pc : UInt16
deriving DecidableEq, Repr

namespace Fault

/-- The text of a fault. -/
def message (fault : Fault) : String :=
  (match fault.cause with
    | .undefined opcode => toString opcode
    | .unimplemented name => "encountered unimplemented instruction " ++ name)
    ++ " at PC=0x" ++ hex4 fault.pc

instance : ToString Fault where
  toString := message

/-- The text of the error below a fault; a missing instruction has none. -/
def source? (fault : Fault) : Option String :=
  match fault.cause with
  | .undefined opcode => some (toString opcode)
  | .unimplemented _ => none

/-- The texts of a fault and of what lies below it, outermost first. -/
def chain (fault : Fault) : List String :=
  fault.message :: fault.source?.toList

end Fault

end Handheld
