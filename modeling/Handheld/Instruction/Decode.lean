-- SUMMARY: Opcodes: how each instruction is encoded, and how opcode bytes are decoded.
import Handheld.Instruction.Basic

namespace Handheld

/-! ## Decoding

An opcode byte splits into a two-bit block and two three-bit fields. The byte
`0xCB` announces that the opcode proper is the next byte, read from a second
table. That table is full; eleven bytes of the first one mean nothing. -/

/-- The byte that announces an opcode of the second table. -/
def extensionByte : UInt8 := 0xCB

namespace Instruction

/-- The upper three-bit field of an opcode. -/
def upperField (opcode : UInt8) : UInt8 := (opcode >>> 3) &&& 7

/-- The lower three-bit field of an opcode. -/
def lowerField (opcode : UInt8) : UInt8 := opcode &&& 7

/-- The first block: loads of immediates, 16-bit arithmetic, accumulator rotations and relative jumps. -/
def decodeFirstBlock (y z : UInt8) : Instruction :=
  let p := y >>> 1
  let even := y &&& 1 == 0
  match z.toNat with
  | 0 =>
    match y.toNat with
    | 0 => nop
    | 1 => storeSp
    | 2 => stop
    | 3 => jr none
    | _ => jr (some (.ofCode (y - 4)))
  | 1 => if even then ldImm16 (.ofCode p) else addHl (.ofCode p)
  | 2 => if even then storeA (.ofCode p) else loadA (.ofCode p)
  | 3 => if even then inc16 (.ofCode p) else dec16 (.ofCode p)
  | 4 => inc (.ofCode y)
  | 5 => dec (.ofCode y)
  | 6 => ldImm (.ofCode y)
  | _ =>
    match y.toNat with
    | 0 => rlca
    | 1 => rrca
    | 2 => rla
    | 3 => rra
    | 4 => daa
    | 5 => cpl
    | 6 => scf
    | _ => ccf

/-- The last block: returns, jumps, calls, stack operations and accumulator operations on immediates. -/
def decodeLastBlock (y z : UInt8) : Option Instruction :=
  let p := y >>> 1
  let even := y &&& 1 == 0
  match z.toNat with
  | 0 =>
    match y.toNat with
    | 4 => some storeHigh
    | 5 => some addSpOffset
    | 6 => some loadHigh
    | 7 => some ldHlSpOffset
    | _ => some (ret (some (.ofCode y)))
  | 1 =>
    if even then some (pop (.ofCode p))
    else match p.toNat with
      | 0 => some (ret none)
      | 1 => some reti
      | 2 => some jpHl
      | _ => some ldSpHl
  | 2 =>
    match y.toNat with
    | 4 => some storeHighC
    | 5 => some storeAbs
    | 6 => some loadHighC
    | 7 => some loadAbs
    | _ => some (jp (some (.ofCode y)))
  | 3 =>
    match y.toNat with
    | 0 => some (jp none)
    | 6 => some di
    | 7 => some ei
    | _ => none
  | 4 => if y < 4 then some (call (some (.ofCode y))) else none
  | 5 =>
    if even then some (push (.ofCode p))
    else if p = 0 then some (call none)
    else none
  | 6 => some (aluImm (.ofCode y))
  | _ => some (rst (y * 8))

/-- The instruction of an opcode of the first table, if the opcode has a meaning. -/
def decodeFirst? (opcode : UInt8) : Option Instruction :=
  let y := upperField opcode
  let z := lowerField opcode
  match (opcode >>> 6).toNat with
  | 0 => some (decodeFirstBlock y z)
  | 1 => some (if opcode = 0x76 then halt else ld (.ofCode y) (.ofCode z))
  | 2 => some (alu (.ofCode y) (.ofCode z))
  | _ => decodeLastBlock y z

/-- The instruction of an opcode of the second table. -/
def decodeSecond (opcode : UInt8) : Instruction :=
  let y := upperField opcode
  let z := lowerField opcode
  match (opcode >>> 6).toNat with
  | 0 => shift (.ofCode y) (.ofCode z)
  | 1 => bit y (.ofCode z)
  | 2 => res y (.ofCode z)
  | _ => set y (.ofCode z)

/-- The instruction of an opcode byte in the table it belongs to. -/
def decode? (opcode : UInt8) (extended : Bool) : Option Instruction :=
  if extended then some (decodeSecond opcode) else decodeFirst? opcode

/-! ## Encoding -/

/-- An opcode with a field placed at a bit position. -/
def place (base : UInt16) (field : UInt8) (position : UInt16) : UInt16 :=
  base ||| field.toUInt16 <<< position

/-- An opcode with an optional condition: `always` without one, else `base` with its field. -/
def placeCondition (always base : UInt16) : Option Condition → UInt16
  | none => always
  | some c => place base c.code 3

/-- The opcode of an instruction, with the extension byte as high byte where there is one. -/
def opcode : Instruction → UInt16
  | nop => 0x00
  | stop => 0x10
  | halt => 0x76
  | di => 0xF3
  | ei => 0xFB
  | ld dst src => place (place 0x40 dst.code 3) src.code 0
  | ldImm dst => place 0x06 dst.code 3
  | ldImm16 dst => place 0x01 dst.code 4
  | storeA dst => place 0x02 dst.code 4
  | loadA src => place 0x0A src.code 4
  | storeSp => 0x08
  | storeHigh => 0xE0
  | loadHigh => 0xF0
  | storeHighC => 0xE2
  | loadHighC => 0xF2
  | storeAbs => 0xEA
  | loadAbs => 0xFA
  | ldHlSpOffset => 0xF8
  | ldSpHl => 0xF9
  | alu op src => place (place 0x80 op.code 3) src.code 0
  | aluImm op => place 0xC6 op.code 3
  | inc dst => place 0x04 dst.code 3
  | dec dst => place 0x05 dst.code 3
  | inc16 dst => place 0x03 dst.code 4
  | dec16 dst => place 0x0B dst.code 4
  | addHl src => place 0x09 src.code 4
  | addSpOffset => 0xE8
  | rlca => 0x07
  | rrca => 0x0F
  | rla => 0x17
  | rra => 0x1F
  | daa => 0x27
  | cpl => 0x2F
  | scf => 0x37
  | ccf => 0x3F
  | jr condition => placeCondition 0x18 0x20 condition
  | jp condition => placeCondition 0xC3 0xC2 condition
  | jpHl => 0xE9
  | call condition => placeCondition 0xCD 0xC4 condition
  | ret condition => placeCondition 0xC9 0xC0 condition
  | reti => 0xD9
  | rst target => place 0xC7 target 0
  | push pair => place 0xC5 pair.code 4
  | pop pair => place 0xC1 pair.code 4
  | shift op dst => place (place 0xCB00 op.code 3) dst.code 0
  | bit index src => place (place 0xCB40 index 3) src.code 0
  | res index dst => place (place 0xCB80 index 3) dst.code 0
  | set index dst => place (place 0xCBC0 index 3) dst.code 0

end Instruction

end Handheld
