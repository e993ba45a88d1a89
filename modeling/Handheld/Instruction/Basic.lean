-- SUMMARY: The instruction set: operands, operations and instructions, with their length and cost.

namespace Handheld

/-! ## Operands

Each kind of operand is an enumeration in the order of its field in the opcode,
so `code` and `ofCode` convert between the operand and the field. -/

/-- An 8-bit operand: a register, or the byte in memory at HL. -/
inductive Operand8 where
  | b | c | d | e | h | l | atHl | a
deriving DecidableEq, Repr

namespace Operand8

def code : Operand8 → UInt8
  | b => 0 | c => 1 | d => 2 | e => 3 | h => 4 | l => 5 | atHl => 6 | a => 7

/-- The operand that a three-bit field names. -/
def ofCode (n : UInt8) : Operand8 :=
  match n.toNat with
  | 0 => b | 1 => c | 2 => d | 3 => e | 4 => h | 5 => l | 6 => atHl | _ => a

end Operand8

/-- A 16-bit register operand. -/
inductive Reg16 where
  | bc | de | hl | sp
deriving DecidableEq, Repr

namespace Reg16

def code : Reg16 → UInt8
  | bc => 0 | de => 1 | hl => 2 | sp => 3

/-- The register that a two-bit field names. -/
def ofCode (n : UInt8) : Reg16 :=
  match n.toNat with
  | 0 => bc | 1 => de | 2 => hl | _ => sp

end Reg16

/-- A register pair as `PUSH` and `POP` name it. -/
inductive StackPair where
  | bc | de | hl | af
deriving DecidableEq, Repr

namespace StackPair

def code : StackPair → UInt8
  | bc => 0 | de => 1 | hl => 2 | af => 3

/-- The pair that a two-bit field names. -/
def ofCode (n : UInt8) : StackPair :=
  match n.toNat with
  | 0 => bc | 1 => de | 2 => hl | _ => af

end StackPair

/-- A pointer operand; the last two step HL up or down after the access. -/
inductive Pointer where
  | bc | de | hlUp | hlDown
deriving DecidableEq, Repr

namespace Pointer

def code : Pointer → UInt8
  | bc => 0 | de => 1 | hlUp => 2 | hlDown => 3

/-- The pointer that a two-bit field names. -/
def ofCode (n : UInt8) : Pointer :=
  match n.toNat with
  | 0 => bc | 1 => de | 2 => hlUp | _ => hlDown

end Pointer

/-- The condition of a jump, call or return. -/
inductive Condition where
  | notZero | zero | notCarry | carry
deriving DecidableEq, Repr

namespace Condition

def code : Condition → UInt8
  | notZero => 0 | zero => 1 | notCarry => 2 | carry => 3

/-- The condition that a two-bit field names. -/
def ofCode (n : UInt8) : Condition :=
  match n.toNat with
  | 0 => notZero | 1 => zero | 2 => notCarry | _ => carry

end Condition

/-- An operation on the accumulator. -/
inductive AluOp where
  | add | adc | sub | sbc | and | xor | or | cp
deriving DecidableEq, Repr

namespace AluOp

def code : AluOp → UInt8
  | add => 0 | adc => 1 | sub => 2 | sbc => 3 | and => 4 | xor => 5 | or => 6 | cp => 7

/-- The operation that a three-bit field names. -/
def ofCode (n : UInt8) : AluOp :=
  match n.toNat with
  | 0 => add | 1 => adc | 2 => sub | 3 => sbc | 4 => and | 5 => xor | 6 => or | _ => cp

end AluOp

/-- A rotation or shift of one byte. -/
inductive ShiftOp where
  | rlc | rrc | rl | rr | sla | sra | swap | srl
deriving DecidableEq, Repr

namespace ShiftOp

def code : ShiftOp → UInt8
  | rlc => 0 | rrc => 1 | rl => 2 | rr => 3 | sla => 4 | sra => 5 | swap => 6 | srl => 7

/-- The operation that a three-bit field names. -/
def ofCode (n : UInt8) : ShiftOp :=
  match n.toNat with
  | 0 => rlc | 1 => rrc | 2 => rl | 3 => rr | 4 => sla | 5 => sra | 6 => swap | _ => srl

end ShiftOp

/-! ## Instructions

A jump, call or return carries the condition under which it happens, or `none`
when it always does. The immediate byte or word that follows some opcodes is not
part of the instruction: `Instruction.immediate` says how wide it is. -/

/-- A decoded instruction. -/
inductive Instruction where
  | nop
  | stop
  | halt
  | di
  | ei
  /-- `LD d,s` between two 8-bit operands. -/
  | ld (dst src : Operand8)
  /-- `LD d,d8`. -/
  | ldImm (dst : Operand8)
  /-- `LD rr,d16`. -/
  | ldImm16 (dst : Reg16)
  /-- `LD (rr),A`. -/
  | storeA (dst : Pointer)
  /-- `LD A,(rr)`. -/
  | loadA (src : Pointer)
  /-- `LD (a16),SP`. -/
  | storeSp
  /-- `LDH (a8),A`. -/
  | storeHigh
  /-- `LDH A,(a8)`. -/
  | loadHigh
  /-- `LD (C),A`. -/
  | storeHighC
  /-- `LD A,(C)`. -/
  | loadHighC
  /-- `LD (a16),A`. -/
  | storeAbs
  /-- `LD A,(a16)`. -/
  | loadAbs
  /-- `LD HL,SP+r8`. -/
  | ldHlSpOffset
  /-- `LD SP,HL`. -/
  | ldSpHl
  /-- An accumulator operation on an 8-bit operand. -/
  | alu (op : AluOp) (src : Operand8)
  /-- An accumulator operation on the immediate byte. -/
  | aluImm (op : AluOp)
  | inc (dst : Operand8)
  | dec (dst : Operand8)
  | inc16 (dst : Reg16)
  | dec16 (dst : Reg16)
  /-- `ADD HL,rr`. -/
  | addHl (src : Reg16)
  /-- `ADD SP,r8`. -/
  | addSpOffset
  | rlca
  | rrca
  | rla
  | rra
  | daa
  | cpl
  | scf
  | ccf
  /-- A relative jump. -/
  | jr (condition : Option Condition)
  /-- An absolute jump. -/
  | jp (condition : Option Condition)
  /-- `JP (HL)`: the target is HL itself. -/
  | jpHl
  | call (condition : Option Condition)
  | ret (condition : Option Condition)
  /-- A return that also enables interrupts. -/
  | reti
  /-- A call to a fixed address in page zero. -/
  | rst (target : UInt8)
  | push (pair : StackPair)
  | pop (pair : StackPair)
  | shift (op : ShiftOp) (dst : Operand8)
  /-- Tests one bit. -/
  | bit (index : UInt8) (src : Operand8)
  /-- Clears one bit. -/
  | res (index : UInt8) (dst : Operand8)
  /-- Sets one bit. -/
  | set (index : UInt8) (dst : Operand8)
deriving DecidableEq, Repr

namespace Instruction

/-- Whether the opcode is a byte of the second table, reached through the byte `0xCB`. -/
def prefixed : Instruction → Bool
  | shift .. | bit .. | res .. | set .. => true
  | _ => false

/-! ## Immediates and length -/

/-- The width of the immediate that follows the opcode. -/
inductive Immediate where
  | none | byte | word
deriving DecidableEq, Repr

/-- What follows the opcode of an instruction. `STOP` has a padding byte. -/
def immediate : Instruction → Immediate
  | stop | ldImm _ | storeHigh | loadHigh | ldHlSpOffset | aluImm _ | addSpOffset | jr _ => .byte
  | ldImm16 _ | storeSp | storeAbs | loadAbs | jp _ | call _ => .word
  | _ => .none

/-- The number of bytes of the encoding, opcode and immediate together. -/
def length (i : Instruction) : UInt16 :=
  if i.prefixed then 2
  else match i.immediate with
    | .none => 1
    | .byte => 2
    | .word => 3

/-! ## Cost -/

/-- The cost of an instruction in machine cycles. -/
structure Cost where
  /-- The cost when the instruction has no condition or its condition fails. -/
  base : Nat
  /-- The cost when a conditional transfer happens. -/
  taken : Nat
deriving DecidableEq, Repr

/-- The same cost whether or not a transfer happens. -/
def Cost.fixed (cycles : Nat) : Cost := ⟨cycles, cycles⟩

/-- The cost of an instruction that is dearer when its operand lies in memory. -/
def Cost.byOperand (operand : Operand8) (register memory : Nat) : Cost :=
  .fixed (if operand = .atHl then memory else register)

/-- The cost of a transfer of control, which is cheaper when its condition fails. -/
def Cost.transfer (condition : Option Condition) (always untaken taken : Nat) : Cost :=
  if condition.isSome then ⟨untaken, taken⟩ else .fixed always

/-- The cost of each instruction. -/
def cost : Instruction → Cost
  | nop | stop | halt | di | ei => .fixed 1
  | ld dst src => .fixed (if dst = .atHl ∨ src = .atHl then 2 else 1)
  | ldImm dst => .byOperand dst 2 3
  | ldImm16 _ => .fixed 3
  | storeA _ | loadA _ => .fixed 2
  | storeSp => .fixed 5
  | storeHigh | loadHigh => .fixed 3
  | storeHighC | loadHighC => .fixed 2
  | storeAbs | loadAbs => .fixed 4
  | ldHlSpOffset => .fixed 3
  | ldSpHl => .fixed 2
  | alu _ src => .byOperand src 1 2
  | aluImm _ => .fixed 2
  | inc dst | dec dst => .byOperand dst 1 3
  | inc16 _ | dec16 _ | addHl _ => .fixed 2
  | addSpOffset => .fixed 4
  | rlca | rrca | rla | rra | daa | cpl | scf | ccf => .fixed 1
  | jr condition => .transfer condition 3 2 3
  | jp condition => .transfer condition 4 3 4
  | jpHl => .fixed 1
  | call condition => .transfer condition 6 3 6
  | ret condition => .transfer condition 4 2 5
  | reti => .fixed 4
  | rst _ | push _ => .fixed 4
  | pop _ => .fixed 3
  | shift _ dst | res _ dst | set _ dst => .byOperand dst 2 4
  | bit _ src => .byOperand src 2 3

end Instruction

end Handheld
