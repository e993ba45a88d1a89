-- SUMMARY: The text of instructions: mnemonics with operands, and names that carry the opcode.
import Handheld.Hex
import Handheld.Instruction.Decode

namespace Handheld

/-! ## Operand names -/

instance : ToString Operand8 where
  toString
    | .b => "B" | .c => "C" | .d => "D" | .e => "E"
    | .h => "H" | .l => "L" | .atHl => "(HL)" | .a => "A"

instance : ToString Reg16 where
  toString | .bc => "BC" | .de => "DE" | .hl => "HL" | .sp => "SP"

instance : ToString StackPair where
  toString | .bc => "BC" | .de => "DE" | .hl => "HL" | .af => "AF"

instance : ToString Pointer where
  toString | .bc => "(BC)" | .de => "(DE)" | .hlUp => "(HL+)" | .hlDown => "(HL-)"

instance : ToString Condition where
  toString | .notZero => "NZ" | .zero => "Z" | .notCarry => "NC" | .carry => "C"

instance : ToString ShiftOp where
  toString
    | .rlc => "RLC" | .rrc => "RRC" | .rl => "RL" | .rr => "RR"
    | .sla => "SLA" | .sra => "SRA" | .swap => "SWAP" | .srl => "SRL"

/-- An accumulator operation with its operand; only some operations name the accumulator. -/
def AluOp.render (op : AluOp) (operand : String) : String :=
  match op with
  | .add => "ADD A," ++ operand
  | .adc => "ADC A," ++ operand
  | .sub => "SUB " ++ operand
  | .sbc => "SBC A," ++ operand
  | .and => "AND " ++ operand
  | .xor => "XOR " ++ operand
  | .or => "OR " ++ operand
  | .cp => "CP " ++ operand

/-- The operand list of a transfer of control: the condition, if any, before the target. -/
def Condition.before (condition : Option Condition) (target : String) : String :=
  match condition with
  | none => target
  | some c => toString c ++ "," ++ target

namespace Instruction

/-! ## Mnemonics

An immediate is shown by its kind: `d8` and `d16` for data, `a8` and `a16` for
addresses, `r8` for a signed displacement. -/

/-- The mnemonic of an instruction with its operands. -/
def mnemonic : Instruction → String
  | nop => "NOP"
  | stop => "STOP"
  | halt => "HALT"
  | di => "DI"
  | ei => "EI"
  | ld dst src => "LD " ++ toString dst ++ "," ++ toString src
  | ldImm dst => "LD " ++ toString dst ++ ",d8"
  | ldImm16 dst => "LD " ++ toString dst ++ ",d16"
  | storeA dst => "LD " ++ toString dst ++ ",A"
  | loadA src => "LD A," ++ toString src
  | storeSp => "LD (a16),SP"
  | storeHigh => "LDH (a8),A"
  | loadHigh => "LDH A,(a8)"
  | storeHighC => "LD (C),A"
  | loadHighC => "LD A,(C)"
  | storeAbs => "LD (a16),A"
  | loadAbs => "LD A,(a16)"
  | ldHlSpOffset => "LD HL,SP+r8"
  | ldSpHl => "LD SP,HL"
  | alu op src => op.render (toString src)
  | aluImm op => op.render "d8"
  | inc dst => "INC " ++ toString dst
  | dec dst => "DEC " ++ toString dst
  | inc16 dst => "INC " ++ toString dst
  | dec16 dst => "DEC " ++ toString dst
  | addHl src => "ADD HL," ++ toString src
  | addSpOffset => "ADD SP,r8"
  | rlca => "RLCA"
  | rrca => "RRCA"
  | rla => "RLA"
  | rra => "RRA"
  | daa => "DAA"
  | cpl => "CPL"
  | scf => "SCF"
  | ccf => "CCF"
  | jr condition => "JR " ++ Condition.before condition "r8"
  | jp condition => "JP " ++ Condition.before condition "a16"
  | jpHl => "JP (HL)"
  | call condition => "CALL " ++ Condition.before condition "a16"
  | ret none => "RET"
  | ret (some c) => "RET " ++ toString c
  | reti => "RETI"
  | rst target => "RST " ++ hex2 target ++ "H"
  | push pair => "PUSH " ++ toString pair
  | pop pair => "POP " ++ toString pair
  | shift op dst => toString op ++ " " ++ toString dst
  | bit index src => "BIT " ++ toString index ++ "," ++ toString src
  | res index dst => "RES " ++ toString index ++ "," ++ toString dst
  | set index dst => "SET " ++ toString index ++ "," ++ toString dst

instance : ToString Instruction where
  toString := mnemonic

/-- The opcode in hexadecimal joined to the mnemonic, as diagnostics name an instruction. -/
def diagnosticName (i : Instruction) : String :=
  let digits := if i.prefixed then hex4 i.opcode else hex2 i.opcode.toUInt8
  "0x" ++ digits ++ "__" ++ i.mnemonic

end Instruction

end Handheld
