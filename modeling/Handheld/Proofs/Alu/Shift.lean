-- SUMMARY: Rotations and shifts of numbers of any number of bytes, from either end, and the rotations of the accumulator.
import Mathlib.Data.Nat.Bitwise
import Handheld.Proofs.AddressSpace.Stores
import Handheld.Proofs.Alu.Binary

namespace Handheld

/-! ## Rotations and shifts of a byte

To the left a byte is doubled: what no longer fits comes out as the carry. To the
right it is halved, with the carry as a ninth bit above it, and what is left over
comes out. -/

namespace Alu

/-- Bytes without a common bit, one above and one below a bit position, are put together by
    addition. -/
theorem toNat_or_of_apart {high low : UInt8} (k : ℕ) {m : ℕ} (hhigh : high.toNat = 2 ^ k * m)
    (hlow : low.toNat < 2 ^ k) : (high ||| low).toNat = high.toNat + low.toNat := by
  rw [UInt8.toNat_or, hhigh, Nat.two_pow_add_eq_or_of_lt hlow]

theorem toNat_double (v : UInt8) : (v <<< 1).toNat = 2 * (v.toNat % 128) := by
  simp [UInt8.toNat_shiftLeft, Nat.shiftLeft_eq]
  omega

theorem toNat_half (v : UInt8) : (v >>> 1).toNat = v.toNat / 2 := by
  simp [UInt8.toNat_shiftRight, Nat.shiftRight_eq_div_pow]

/-- A byte of which a mask leaves one bit. -/
theorem toNat_and_bit (v mask : UInt8) {i : ℕ} (h : mask.toNat = 2 ^ i) :
    (v &&& mask).toNat = 2 ^ i * (v.toNat / 2 ^ i % 2) := by
  rw [UInt8.toNat_and, h, Nat.and_two_pow, Nat.toNat_testBit, Nat.mul_comm]

/-- A bit of a byte as a number. -/
theorem toNat_and_bne_zero (v mask : UInt8) {i : ℕ} (h : mask.toNat = 2 ^ i) :
    (v &&& mask != 0).toNat = v.toNat / 2 ^ i % 2 := by
  have hzero : v &&& mask = 0 ↔ v.toNat / 2 ^ i % 2 = 0 := by
    simp [← UInt8.toNat_inj, toNat_and_bit v mask h]
  by_cases hbit : v &&& mask = 0
  · simp [hbit, hzero.mp hbit]
  · simp [hbit, Nat.mod_two_ne_zero.mp (hzero.not.mp hbit)]

/-- `RL` adds a byte to itself, with a carry. -/
theorem balances_rl (v : UInt8) (carryIn : Bool) :
    let rotated := shifted .rl v carryIn
    Balances 1 256 v.toNat v.toNat carryIn rotated.1.toNat rotated.2 := by
  have hlt := v.toNat_lt
  have htop : (v &&& 0x80 != 0).toNat = v.toNat / 128 % 2 := toNat_and_bne_zero v 0x80 (i := 7) rfl
  have hlow : (if carryIn then 0x01 else 0 : UInt8).toNat = carryIn.toNat := by
    cases carryIn <;> rfl
  have hbit : (if carryIn then 0x01 else 0 : UInt8).toNat < 2 ^ 1 :=
    hlow.trans_lt (Nat.lt_succ_of_le carryIn.toNat_le)
  have hsum := toNat_or_of_apart 1 (toNat_double v) hbit
  simp only [Balances, shifted, hsum, toNat_double, hlow, htop]
  omega

/-- `RR` halves a byte with a carry above it. -/
theorem halves_rr (v : UInt8) (carryIn : Bool) :
    let rotated := shifted .rr v carryIn
    v.toNat + 256 * carryIn.toNat = 2 * rotated.1.toNat + rotated.2.toNat := by
  have hlt := v.toNat_lt
  have hbottom : (v &&& 0x01 != 0).toNat = v.toNat / 1 % 2 := toNat_and_bne_zero v 0x01 (i := 0) rfl
  have hhigh : (if carryIn then 0x80 else 0 : UInt8).toNat = 2 ^ 7 * carryIn.toNat := by
    cases carryIn <;> rfl
  have hhalf : (v >>> 1).toNat < 2 ^ 7 := by rw [toNat_half]; omega
  have hsum := toNat_or_of_apart 7 hhigh hhalf
  rw [UInt8.or_comm, hhigh] at hsum
  simp only [shifted, hsum, toNat_half, hbottom]
  omega

/-- `SRA` is `RR` with the top bit of the byte for a carry. -/
theorem shift_sra (v : UInt8) (carryIn : Bool) :
    shift .sra v carryIn = shift .rr v (v &&& 0x80 != 0) := by
  have htop : v &&& 0x80 = if v &&& 0x80 != 0 then 0x80 else 0 := by
    apply UInt8.toNat_inj.mp
    rw [toNat_and_bit v 0x80 (i := 7) rfl, ← toNat_and_bne_zero v 0x80 (i := 7) rfl]
    cases v &&& 0x80 != 0 <;> rfl
  simp only [shift, shifted, ← htop]

theorem toNat_rlc (v : UInt8) (carryIn : Bool) :
    (shifted .rlc v carryIn).1.toNat = 2 * (v.toNat % 128) + v.toNat / 128 := by
  have hlt := v.toNat_lt
  have htop : (v >>> 7).toNat = v.toNat / 128 := by
    simp [UInt8.toNat_shiftRight, Nat.shiftRight_eq_div_pow]
  refine (toNat_or_of_apart 1 (toNat_double v) (by rw [htop]; omega)).trans ?_
  rw [toNat_double, htop]

theorem toNat_rrc (v : UInt8) (carryIn : Bool) :
    (shifted .rrc v carryIn).1.toNat = v.toNat / 2 + 128 * (v.toNat % 2) := by
  have hlt := v.toNat_lt
  have hbottom : (v <<< 7).toNat = 128 * (v.toNat % 2) := by
    simp [UInt8.toNat_shiftLeft, Nat.shiftLeft_eq]
    omega
  have hhalf : (v >>> 1).toNat < 2 ^ 7 := by rw [toNat_half]; omega
  have hsum := toNat_or_of_apart 7 hbottom hhalf
  rw [UInt8.or_comm, hbottom, toNat_half, Nat.add_comm] at hsum
  exact hsum

/-- The rotations of a byte to the left and to the right undo each other. -/
theorem rlc_rrc (v : UInt8) (carryIn carryIn' : Bool) :
    (shifted .rrc (shifted .rlc v carryIn).1 carryIn').1 = v ∧
      (shifted .rlc (shifted .rrc v carryIn).1 carryIn').1 = v := by
  have hlt := v.toNat_lt
  simp only [← UInt8.toNat_inj, toNat_rlc, toNat_rrc]
  omega

end Alu

/-! ## Bytes in their places

A byte of a number lies in a register or in memory at HL. What an instruction
stores at HL is taken as it is handed to memory. -/

/-- A byte where a shift finds it: the operand that names it, the processor whose operand it is, and
    the byte at HL. -/
structure Cell where
  cpu : Cpu
  atHl : UInt8
  operand : Operand8

namespace Cell

/-- The byte in the cell. -/
def byte (cell : Cell) : UInt8 :=
  cell.cpu.operand8 cell.atHl cell.operand

/-- The flags that the processor of the cell holds. -/
def flags (cell : Cell) : Flags :=
  cell.cpu.regs.f

/-- The cell after an effect on its processor and on the byte at HL. -/
def after (cell : Cell) (effect : Effect) : Cell where
  cpu := effect.cpu
  atHl := lastStored (storesOf effect.actions) cell.cpu.regs.hl cell.atHl
  operand := cell.operand

/-- The cell after a rotation or shift of its byte under flags that are handed on to it. -/
def shift (op : ShiftOp) (cell : Cell) (handed : Flags) : Cell :=
  cell.after ((cell.cpu.withFlags handed).effect 0 cell.atHl.toUInt16 (.shift op cell.operand))

/-- Of the flags that are handed on to a shift, it takes the carry alone. -/
theorem shift_eq (op : ShiftOp) (cell : Cell) (handed : Flags) :
    cell.shift op handed =
      cell.after (cell.cpu.replace8 cell.operand (Alu.shift op cell.byte handed.carry)) := by
  obtain ⟨cpu, atHl, operand⟩ := cell
  cases operand with
  | atHl => simp only [shift, Cpu.effect, loByte_toUInt16]; rfl
  | _ => rfl

@[simp] theorem flags_shift (op : ShiftOp) (cell : Cell) (handed : Flags) :
    (cell.shift op handed).flags = (Alu.shift op cell.byte handed.carry).2 := by
  rw [shift_eq]
  obtain ⟨cpu, atHl, operand⟩ := cell
  cases operand <;> rfl

@[simp] theorem byte_shift (op : ShiftOp) (cell : Cell) (handed : Flags) :
    (cell.shift op handed).byte = (Alu.shifted op cell.byte handed.carry).1 := by
  rw [shift_eq]
  obtain ⟨cpu, atHl, operand⟩ := cell
  cases operand with
  | atHl => exact if_pos rfl
  | _ => rfl

end Cell

/-! ## Numbers of many bytes

The bytes are shifted one after the other, from either end. Between two of them
the processor may do anything, as long as it hands the flags on. -/

open Cell

/-- The number that the cells hold, the lowest byte first. -/
def cellsValue (cells : List Cell) : ℕ :=
  binary (cells.map byte)

/-- The cells after their shifts, each under the flags that the cell before has left. The first one
    is shifted by `first` and the others by `rest`. -/
def shiftAll (first rest : ShiftOp) (handed : Flags) : List Cell → List Cell
  | [] => []
  | cell :: cells =>
    let done := cell.shift first handed
    done :: shiftAll rest rest done.flags cells

/-- Shifts a number from its lowest byte up. -/
def shiftUp (first : ShiftOp) (handed : Flags) (cells : List Cell) : List Cell :=
  shiftAll first .rl handed cells

/-- Shifts a number from its highest byte down. -/
def shiftDown (first : ShiftOp) (handed : Flags) (cells : List Cell) : List Cell :=
  (shiftAll first .rr handed cells.reverse).reverse

/-- The flags that are left after some cells; those that were handed to them, if there are none. -/
def leftBy (handed : Flags) (done : List Cell) : Flags :=
  (done.getLast?.map flags).getD handed

theorem leftBy_cons (handed : Flags) (cell : Cell) (done : List Cell) :
    leftBy handed (cell :: done) = leftBy cell.flags done := by
  simp [leftBy, List.getLast?_cons, Option.getD_map]

@[simp] theorem length_shiftAll (first rest : ShiftOp) (handed : Flags) (cells : List Cell) :
    (shiftAll first rest handed cells).length = cells.length := by
  induction cells generalizing first handed with
  | nil => rfl
  | cons cell cells ih => simp [shiftAll, ih]

/-- A first cell that is shifted as the others would be under other flags. -/
theorem shiftAll_cons_eq {first rest : ShiftOp} {handed handed' : Flags} {cell : Cell}
    (cells : List Cell)
    (h : Alu.shift first cell.byte handed.carry = Alu.shift rest cell.byte handed'.carry) :
    shiftAll first rest handed (cell :: cells) = shiftAll rest rest handed' (cell :: cells) := by
  simp only [shiftAll, shift_eq, h]

theorem cellsValue_lt (cells : List Cell) : cellsValue cells < 256 ^ cells.length := by
  rw [cellsValue, binary_map]
  exact ofDigits_map_lt (by decide) fun cell _ => cell.byte.toNat_lt

theorem cellsValue_cons (cell : Cell) (cells : List Cell) :
    cellsValue (cell :: cells) = cell.byte.toNat + 256 * cellsValue cells :=
  Nat.ofDigits_cons ..

theorem cellsValue_concat (cells : List Cell) (cell : Cell) :
    cellsValue (cells ++ [cell]) = cellsValue cells + 256 ^ cells.length * cell.byte.toNat := by
  simp [cellsValue, binary, Nat.ofDigits_append]

/-- From the lowest byte up, `RL` adds the number to itself, with a carry. -/
theorem balances_shiftAll (handed : Flags) (cells : List Cell) :
    let done := shiftAll .rl .rl handed cells
    Balances 1 (256 ^ cells.length) (cellsValue cells) (cellsValue cells) handed.carry
      (cellsValue done) (leftBy handed done).carry := by
  induction cells generalizing handed with
  | nil => simp [Balances, shiftAll, leftBy, cellsValue, binary]
  | cons cell cells ih =>
    have hcell := Alu.balances_rl cell.byte handed.carry
    have hrest := ih (cell.shift .rl handed).flags
    dsimp only at hcell hrest
    simp only [shiftAll, leftBy_cons, cellsValue_cons, byte_shift, List.length_cons, pow_succ']
    rw [flags_shift] at hrest ⊢
    exact hcell.cons hrest

/-- From the highest byte down, `RR` halves the number with a carry above it. -/
theorem halves_shiftAll (handed : Flags) (cells : List Cell) :
    let done := shiftAll .rr .rr handed cells
    cellsValue cells.reverse + 256 ^ cells.length * handed.carry.toNat =
      2 * cellsValue done.reverse + (leftBy handed done).carry.toNat := by
  induction cells generalizing handed with
  | nil => simp [shiftAll, leftBy, cellsValue, binary]
  | cons cell cells ih =>
    have hcell := Alu.halves_rr cell.byte handed.carry
    have hrest := ih (cell.shift .rr handed).flags
    dsimp only at hcell hrest
    simp only [shiftAll, leftBy_cons, List.reverse_cons, cellsValue_concat, byte_shift,
      List.length_reverse, length_shiftAll, List.length_cons, pow_succ']
    rw [flags_shift] at hrest ⊢
    simp only [Alu.shift] at hrest ⊢
    linear_combination hrest + 256 ^ cells.length * hcell

@[simp] theorem length_shiftUp (first : ShiftOp) (handed : Flags) (cells : List Cell) :
    (shiftUp first handed cells).length = cells.length :=
  length_shiftAll ..

@[simp] theorem length_shiftDown (first : ShiftOp) (handed : Flags) (cells : List Cell) :
    (shiftDown first handed cells).length = cells.length := by
  simp [shiftDown]

/-- The last cell has left the flags that are left in the end. -/
theorem exists_last (handed : Flags) {done : List Cell} (hne : done ≠ []) :
    ∃ last, done.getLast? = some last ∧ leftBy handed done = last.flags := by
  refine ⟨done.getLast hne, List.getLast?_eq_some_getLast hne, ?_⟩
  simp [leftBy, List.getLast?_eq_some_getLast hne]

theorem balances_shiftUp {cells : List Cell} (hne : cells ≠ []) (handed : Flags) :
    let done := shiftUp .rl handed cells
    ∃ last, done.getLast? = some last ∧
      Balances 1 (256 ^ cells.length) (cellsValue cells) (cellsValue cells) handed.carry
        (cellsValue done) last.flags.carry := by
  intro done
  have hdone : done ≠ [] := by simpa [← List.length_pos_iff, done] using hne
  obtain ⟨last, hlast, hleft⟩ := exists_last handed hdone
  exact ⟨last, hlast, hleft ▸ balances_shiftAll handed cells⟩

theorem halves_shiftDown {cells : List Cell} (hne : cells ≠ []) (handed : Flags) :
    let done := shiftDown .rr handed cells
    ∃ last, done.head? = some last ∧
      cellsValue cells + 256 ^ cells.length * handed.carry.toNat =
        2 * cellsValue done + last.flags.carry.toNat := by
  intro done
  let highFirst := shiftAll .rr .rr handed cells.reverse
  have hhighFirst : highFirst ≠ [] := by simpa [← List.length_pos_iff, highFirst] using hne
  obtain ⟨last, hlast, hleft⟩ := exists_last handed hhighFirst
  have hhalves := halves_shiftAll handed cells.reverse
  rw [List.reverse_reverse, List.length_reverse] at hhalves
  exact ⟨last, List.head?_reverse.trans hlast, hleft ▸ hhalves⟩

/-- The cells `done` hold the number `value` of `n` bytes, and the one that was shifted last has
    left the carry `carry`. -/
structure ShiftsTo (n value carry : ℕ) (done : List Cell) (last : Option Cell) : Prop where
  length : done.length = n
  value : cellsValue done = value
  carry : ∃ cell, last = some cell ∧ cell.flags.carry.toNat = carry

/-- Of the numbers of `n` bytes, half have the top bit. -/
theorem pow_eq_two_mul {n : ℕ} (h : 0 < n) : 256 ^ n = 2 * 2 ^ (8 * n - 1) := by
  rw [← pow_succ', show 8 * n - 1 + 1 = 8 * n by omega, pow_mul]
  rfl

/-- The top bit tells in which half a number lies. -/
theorem top_eq {v half : ℕ} (hlt : v < 2 * half) : v / half = (decide (half ≤ v)).toNat := by
  by_cases h : half ≤ v
  · simp [h, Nat.div_eq_of_lt_le (m := v) (n := half) (k := 1) (by omega) (by omega)]
  · simp [h, Nat.div_eq_of_lt (Nat.lt_of_not_le h)]

/-- A chain of `RL` doubles a number. -/
theorem shiftsTo_rl {cells : List Cell} (hne : cells ≠ []) (handed : Flags) :
    ShiftsTo cells.length ((2 * cellsValue cells + handed.carry.toNat) % 256 ^ cells.length)
      (cellsValue cells / 2 ^ (8 * cells.length - 1)) (shiftUp .rl handed cells)
      (shiftUp .rl handed cells).getLast? := by
  obtain ⟨last, hlast, hbalances⟩ := balances_shiftUp hne handed
  obtain ⟨hvalue, hcarry⟩ :=
    hbalances.sum (length_shiftUp .rl handed cells ▸ cellsValue_lt (shiftUp .rl handed cells))
  refine ⟨length_shiftUp .., by rw [hvalue, two_mul], last, hlast, ?_⟩
  have hlt := cellsValue_lt cells
  have hc := handed.carry.toNat_le
  rw [pow_eq_two_mul (List.length_pos_iff.mpr hne)] at hcarry hlt
  have htop : last.flags.carry = true ↔ 2 ^ (8 * cells.length - 1) ≤ cellsValue cells := by
    rw [hcarry]
    omega
  rw [top_eq hlt, Bool.eq_iff_iff.mpr (htop.trans decide_eq_true_iff.symm)]

/-- A chain of `RR` halves a number with a carry above it. -/
theorem shiftsTo_rr {cells : List Cell} (hne : cells ≠ []) (handed : Flags) :
    ShiftsTo cells.length
      (handed.carry.toNat * 2 ^ (8 * cells.length - 1) + cellsValue cells / 2)
      (cellsValue cells % 2) (shiftDown .rr handed cells) (shiftDown .rr handed cells).head? := by
  obtain ⟨last, hlast, hhalves⟩ := halves_shiftDown hne handed
  have hcarry := last.flags.carry.toNat_le
  rw [pow_eq_two_mul (List.length_pos_iff.mpr hne), mul_assoc, mul_comm (2 ^ _)] at hhalves
  exact ⟨length_shiftDown .., by omega, last, hlast, by omega⟩

/-- A chain of `RR` undoes a chain of `RL`. -/
theorem shiftsTo_back {cells : List Cell} (hne : cells ≠ []) (handed : Flags) :
    let moved := shiftUp .rl handed cells
    ∃ last, moved.getLast? = some last ∧
      let back := shiftDown .rr last.flags moved
      ShiftsTo cells.length (cellsValue cells) handed.carry.toNat back back.head? := by
  intro moved
  have hlength : moved.length = cells.length := length_shiftUp ..
  have hmoved : moved ≠ [] := by simpa [← List.length_pos_iff, moved] using hne
  obtain ⟨last, hlast, hdouble⟩ := balances_shiftUp hne handed
  obtain ⟨lowest, hlowest, hhalf⟩ := halves_shiftDown hmoved last.flags
  -- The chain of `RR` halves just what the chain of `RL` has doubled, its carry included.
  have hboth : 2 * cellsValue cells + handed.carry.toNat =
      2 * cellsValue (shiftDown .rr last.flags moved) + lowest.flags.carry.toNat := by
    unfold Balances at hdouble
    rw [hlength] at hhalf
    zify at hhalf ⊢
    push_cast at hdouble
    linear_combination hdouble + hhalf
  have hcarry := handed.carry.toNat_le
  have hcarry' := lowest.flags.carry.toNat_le
  exact ⟨last, hlast, (length_shiftDown ..).trans hlength, by omega, lowest, hlowest, by omega⟩

/-- A number whose first byte from above is shifted as `RR` would do it under other flags. -/
theorem shiftDown_eq {first : ShiftOp} {handed handed' : Flags} {cells : List Cell}
    (h : ∀ top, cells.getLast? = some top →
      Alu.shift first top.byte handed.carry = Alu.shift .rr top.byte handed'.carry) :
    shiftDown first handed cells = shiftDown .rr handed' cells := by
  rw [← List.head?_reverse] at h
  unfold shiftDown
  cases hcells : cells.reverse with
  | nil => rfl
  | cons top rest => rw [shiftAll_cons_eq rest (h top (by rw [hcells]; rfl))]

/-- With `SLA` on the lowest byte the carry that was handed on is not taken in. -/
theorem shiftUp_sla (handed : Flags) (cells : List Cell) :
    shiftUp .sla handed cells = shiftUp .rl { handed with carry := false } cells := by
  cases cells with
  | nil => rfl
  | cons cell cells => exact shiftAll_cons_eq cells (by simp [Alu.shift, Alu.shifted])

/-- With `SRL` on the highest byte the carry that was handed on is not taken in. -/
theorem shiftDown_srl (handed : Flags) (cells : List Cell) :
    shiftDown .srl handed cells = shiftDown .rr { handed with carry := false } cells :=
  shiftDown_eq fun top _ => by simp [Alu.shift, Alu.shifted]

/-- With `SRA` on the highest byte its top bit is taken in for the carry. -/
theorem shiftDown_sra (handed : Flags) {cells : List Cell} {highest : Cell}
    (h : cells.getLast? = some highest) :
    shiftDown .sra handed cells =
      shiftDown .rr { handed with carry := highest.byte &&& 0x80 != 0 } cells := by
  apply shiftDown_eq
  intro top htop
  cases h.symm.trans htop
  exact Alu.shift_sra ..

/-- The number of `n` bytes in two's complement. -/
def signed (n v : ℕ) : ℤ :=
  if v < 2 ^ (8 * n - 1) then v else v - 256 ^ n

/-- Half of a number with its own top bit above it is the floor of its signed half. -/
theorem signed_half {n v : ℕ} (hpos : 0 < n) (hlt : v < 256 ^ n) :
    signed n (v / 2 ^ (8 * n - 1) * 2 ^ (8 * n - 1) + v / 2) = signed n v / 2 := by
  have hpow : (256 ^ n : ℤ) = 2 * (2 ^ (8 * n - 1) : ℕ) := by exact_mod_cast pow_eq_two_mul hpos
  rw [pow_eq_two_mul hpos] at hlt
  rw [signed, signed, hpow, top_eq hlt]
  by_cases h : 2 ^ (8 * n - 1) ≤ v
  · simp only [h, decide_true, Bool.toNat_true]
    omega
  · simp only [h, decide_false, Bool.toNat_false]
    omega

/-- The top bit of a number is that of its highest byte. -/
theorem top_of_getLast? {cells : List Cell} {top : Cell} (h : cells.getLast? = some top) :
    cellsValue cells / 2 ^ (8 * cells.length - 1) = (top.byte &&& 0x80 != 0).toNat := by
  obtain ⟨rest, rfl⟩ := List.getLast?_eq_some_iff.mp h
  have hlt := top.byte.toNat_lt
  have hpow : 2 ^ (8 * (rest ++ [top]).length - 1) = 256 ^ rest.length * 128 := by
    rw [List.length_append, List.length_singleton,
      show 8 * (rest.length + 1) - 1 = 8 * rest.length + 7 by omega, pow_add, pow_mul]
    rfl
  rw [hpow, cellsValue_concat, ← Nat.div_div_eq_div_mul,
    Nat.add_mul_div_left _ _ (by positivity), Nat.div_eq_of_lt (cellsValue_lt rest), Nat.zero_add,
    Alu.toNat_and_bne_zero top.byte 0x80 (i := 7) rfl]
  omega

/-- The rotations of the accumulator that have opcodes of their own, and what they rotate by. -/
def accumulatorRotations : List (Instruction × ShiftOp) :=
  [(.rlca, .rlc), (.rrca, .rrc), (.rla, .rl), (.rra, .rr)]

/-- Numbers of any number of bytes, at least one, are shifted by a bit. From the lowest byte up, a
    chain of `RL` doubles the number and takes a carry in, and `SLA` on the lowest byte does without
    the carry. From the highest byte down, a chain of `RR` halves it with the carry above it, `SRL`
    on the highest byte does without the carry, and `SRA` halves the signed number. The chain of
    `RL` is undone by that of `RR`, and `RLC` and `RRC` undo each other on a byte. Every shift sets
    the zero flag if the byte becomes zero; the rotations of the accumulator differ from those in
    that they always clear it. -/
theorem shifts_exact {cells : List Cell} (hne : cells ≠ []) (handed : Flags) :
    let n := cells.length
    let v := cellsValue cells
    let c := handed.carry.toNat
    let top := v / 2 ^ (8 * n - 1)
    let up (first : ShiftOp) := shiftUp first handed cells
    let down (first : ShiftOp) := shiftDown first handed cells
    ShiftsTo n ((2 * v + c) % 256 ^ n) top (up .rl) (up .rl).getLast? ∧
      ShiftsTo n (2 * v % 256 ^ n) top (up .sla) (up .sla).getLast? ∧
      ShiftsTo n (c * 2 ^ (8 * n - 1) + v / 2) (v % 2) (down .rr) (down .rr).head? ∧
      ShiftsTo n (v / 2) (v % 2) (down .srl) (down .srl).head? ∧
      (∃ w, signed n w = signed n v / 2 ∧ ShiftsTo n w (v % 2) (down .sra) (down .sra).head?) ∧
      (∃ last, (up .rl).getLast? = some last ∧
        let back := shiftDown .rr last.flags (up .rl)
        ShiftsTo n v c back back.head?) ∧
      (∀ (cell : Cell) (handed handed' : Flags),
        ((cell.shift .rlc handed).shift .rrc handed').byte = cell.byte ∧
          ((cell.shift .rrc handed).shift .rlc handed').byte = cell.byte) ∧
      (∀ (op : ShiftOp) (cell : Cell) (handed : Flags),
        (cell.shift op handed).flags.zero = true ↔ (cell.shift op handed).byte = 0) ∧
      ∀ form ∈ accumulatorRotations, ∀ (cpu : Cpu) (immediate data : UInt16),
        let prefixed := cpu.effect immediate data (.shift form.2 .a)
        cpu.effect immediate data form.1 =
          { prefixed with
            cpu := prefixed.cpu.withFlags { prefixed.cpu.regs.f with zero := false } } := by
  intro n v c top up down
  have hpos : 0 < n := List.length_pos_iff.mpr hne
  have hlt : v < 256 ^ n := cellsValue_lt cells
  refine ⟨shiftsTo_rl hne handed, ?sla, shiftsTo_rr hne handed, ?srl, ?sra,
    shiftsTo_back hne handed, ?inverse, ?zero, ?accumulator⟩
  case sla =>
    have hup : up .sla = _ := shiftUp_sla handed cells
    rw [hup]
    exact shiftsTo_rl hne { handed with carry := false }
  case srl =>
    have hdown : down .srl = _ := shiftDown_srl handed cells
    rw [hdown]
    simpa using shiftsTo_rr hne { handed with carry := false }
  case sra =>
    let highest := cells.getLast hne
    have hhighest : cells.getLast? = some highest := List.getLast?_eq_some_getLast hne
    have hdown : down .sra = _ := shiftDown_sra handed hhighest
    rw [hdown]
    refine ⟨_, ?_, shiftsTo_rr hne _⟩
    dsimp only
    rw [← top_of_getLast? hhighest]
    exact signed_half hpos hlt
  case inverse =>
    intro cell handed handed'
    simp only [byte_shift]
    exact Alu.rlc_rrc ..
  case zero =>
    intro op cell handed
    rw [flags_shift, byte_shift]
    exact beq_iff_eq
  case accumulator =>
    intro form hform cpu immediate data
    simp only [accumulatorRotations, List.mem_cons, List.not_mem_nil, or_false] at hform
    rcases hform with rfl | rfl | rfl | rfl <;> rfl

/-- A number whose low byte lies in register B and whose high byte lies in memory at HL. -/
theorem shifts_exact_twoBytes :
    let cells : List Cell := [⟨{ regs := { b := 0xFF } }, 0, .b⟩, ⟨{}, 0x81, .atHl⟩]
    let handed : Flags := { carry := true }
    cellsValue cells = 0x81FF ∧
      ShiftsTo 2 0x03FF 1 (shiftUp .rl handed cells) (shiftUp .rl handed cells).getLast? ∧
      ShiftsTo 2 0xC0FF 1 (shiftDown .rr handed cells) (shiftDown .rr handed cells).head? := by
  intro cells handed
  have hne : cells ≠ [] := List.cons_ne_nil _ _
  have hvalue : cellsValue cells = 0x81FF := rfl
  have hlength : cells.length = 2 := rfl
  have hcarry : handed.carry.toNat = 1 := rfl
  obtain ⟨hrl, -, hrr, -⟩ := shifts_exact hne handed
  refine ⟨hvalue, ?_, ?_⟩
  · simpa [hvalue, hlength, hcarry] using hrl
  · simpa [hvalue, hlength, hcarry] using hrr

end Handheld
