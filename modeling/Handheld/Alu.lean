-- SUMMARY: Byte and word arithmetic with its flags.
import Handheld.Instruction.Basic
import Handheld.Registers

namespace Handheld.Alu

/-! ## Byte arithmetic

Sums and differences are judged on the operands as numbers: the carry says that
the result does not fit a byte, the half carry that the sum of the low digits
does not fit four bits. -/

/-- The sum of two bytes and a carry, with its flags. -/
def add (a v : UInt8) (carryIn : Bool) : UInt8 × Flags :=
  let low := a.toNat % 16 + v.toNat % 16 + carryIn.toNat
  let full := a.toNat + v.toNat + carryIn.toNat
  let result := UInt8.ofNat full
  (result, { zero := result == 0, halfCarry := 15 < low, carry := 255 < full })

/-- Whether bit 4 of a byte is set. -/
theorem and_sixteen_bne_zero (v : UInt8) : (v &&& 0x10 != 0) = v.toBitVec.getLsbD 4 := by
  have h : (v &&& 0x10).toBitVec = if v.toBitVec.getLsbD 4 then .twoPow 8 4 else 0#8 := by
    rw [← BitVec.and_twoPow]
    rfl
  rw [Bool.eq_iff_iff, bne_iff_ne, ne_eq, ← UInt8.toBitVec_inj, h]
  cases v.toBitVec.getLsbD 4 <;> decide

/-- The same sum worked out on words. Its half carry shows in bit 4: there the result is not the
    exclusive or of the operands. -/
theorem add_eq_wide (a v : UInt8) (carryIn : Bool) :
    let full := a.toUInt16 + v.toUInt16 + carryIn.toUInt16
    let result := full.toUInt8
    add a v carryIn =
      (result,
        { zero := result == 0
          halfCarry := (a ^^^ v ^^^ result) &&& 0x10 != 0
          carry := 0xFF < full }) := by
  intro full result
  have hfull : full.toNat = a.toNat + v.toNat + carryIn.toNat := by
    have ha := a.toNat_lt
    have hv := v.toNat_lt
    have hc : carryIn.toUInt16.toNat = carryIn.toNat := by cases carryIn <;> rfl
    have hle := carryIn.toNat_le
    simp only [full, UInt16.toNat_add, UInt8.toNat_toUInt16, hc]
    omega
  have hresult : UInt8.ofNat (a.toNat + v.toNat + carryIn.toNat) = result := by
    rw [← hfull]
    rfl
  have hbits : result.toBitVec = a.toBitVec + v.toBitVec + (BitVec.ofBool carryIn).setWidth 8 := by
    rw [← hresult]
    apply BitVec.eq_of_toNat_eq
    simp
  -- A bit of a sum is that of the operands and the carry into it.
  have hhalf : ((a ^^^ v ^^^ result) &&& 0x10 != 0) =
      decide (15 < a.toNat % 16 + v.toNat % 16 + carryIn.toNat) := by
    rw [and_sixteen_bne_zero, UInt8.toBitVec_xor, UInt8.toBitVec_xor, BitVec.getLsbD_xor,
      BitVec.getLsbD_xor, hbits, BitVec.getLsbD_add_add_bool (by decide)]
    cases a.toBitVec.getLsbD 4 <;> cases v.toBitVec.getLsbD 4 <;> simp <;> rfl
  have hcarry : (0xFF < full) = (255 < a.toNat + v.toNat + carryIn.toNat) := by
    rw [UInt16.lt_iff_toNat_lt, hfull]
    rfl
  simp only [add, hresult, hhalf, hcarry]

/-- The difference of two bytes and a borrow, with its flags. -/
def sub (a v : UInt8) (carryIn : Bool) : UInt8 × Flags :=
  let result := a - v - UInt8.ofNat carryIn.toNat
  (result,
    { zero := result == 0
      subtract := true
      halfCarry := a.toNat % 16 < v.toNat % 16 + carryIn.toNat
      carry := a.toNat < v.toNat + carryIn.toNat })

/-- The low digit of a byte. -/
theorem toNat_and_low (v : UInt8) : (v &&& 0x0F).toNat = v.toNat % 16 := by
  rw [UInt8.toNat_and]
  exact Nat.and_two_pow_sub_one_eq_mod v.toNat 4

/-- The same difference worked out on numbers with a sign. A borrow makes it negative. -/
theorem sub_eq_signed (a v : UInt8) (carryIn : Bool) :
    let half : Int := (a &&& 0x0F).toNat - (v &&& 0x0F).toNat - carryIn.toNat
    let full : Int := a.toNat - v.toNat - carryIn.toNat
    let result := UInt8.ofInt full
    sub a v carryIn =
      (result,
        { zero := result == 0, subtract := true, halfCarry := half < 0, carry := full < 0 }) := by
  intro half full result
  have hresult : a - v - UInt8.ofNat carryIn.toNat = result := by
    have ha := a.toNat_lt
    have hv := v.toNat_lt
    have hc := carryIn.toNat_le
    apply UInt8.toNat_inj.mp
    simp only [result, full, UInt8.toNat_sub, UInt8.ofInt, UInt8.toNat_ofNat']
    omega
  have hhalf : (a.toNat % 16 < v.toNat % 16 + carryIn.toNat) = (half < 0) := by
    simp only [half, toNat_and_low, eq_iff_iff]
    omega
  have hfull : (a.toNat < v.toNat + carryIn.toNat) = (full < 0) := by
    simp only [full, eq_iff_iff]
    omega
  simp only [sub, hresult, hhalf, hfull]

/-- The flags of a comparison. -/
def compare (a v : UInt8) : Flags where
  zero := a == v
  subtract := true
  halfCarry := a &&& 0x0F < v &&& 0x0F
  carry := a < v

/-- The flags of a difference are those of a comparison. -/
theorem sub_eq_compare (a v : UInt8) : sub a v false = (a - v, compare a v) := by
  have hzero : (a - v == 0) = (a == v) := by
    rw [Bool.eq_iff_iff, beq_iff_eq, beq_iff_eq, UInt8.sub_eq_iff_eq_add, UInt8.zero_add]
  have hhalf : (a &&& 0x0F < v &&& 0x0F) = (a.toNat % 16 < v.toNat % 16) := by
    rw [UInt8.lt_iff_toNat_lt, toNat_and_low, toNat_and_low]
  have hborrow : (a < v) = (a.toNat < v.toNat) := by rw [UInt8.lt_iff_toNat_lt]
  have hresult : a - v - UInt8.ofNat false.toNat = a - v := UInt8.sub_zero (a - v)
  simp only [sub, compare, hresult, hzero, hhalf, hborrow]
  rfl

/-- The flags of a bitwise operation; only the conjunction sets the half carry. -/
def bitwise (result : UInt8) (half : Bool) : UInt8 × Flags :=
  (result, { zero := result == 0, halfCarry := half })

/-- One more, with its flags; the carry is kept. -/
def inc (v : UInt8) (f : Flags) : UInt8 × Flags :=
  let result := v + 1
  (result, { f with zero := result == 0, subtract := false, halfCarry := result &&& 0x0F == 0 })

/-- One less, with its flags; the carry is kept. -/
def dec (v : UInt8) (f : Flags) : UInt8 × Flags :=
  let result := v - 1
  (result, { f with zero := result == 0, subtract := true, halfCarry := result &&& 0x0F == 0x0F })

/-! ## Decimal adjustment -/

/-- What must be added or subtracted so that the last sum or difference of two
    decimal bytes is decimal again. After a subtraction the carries alone decide. -/
def decimalCorrection (a : UInt8) (f : Flags) : UInt8 :=
  let units := f.halfCarry || (!f.subtract && 9 < a &&& 0x0F)
  let tens := f.carry || (!f.subtract && 0x99 < a)
  (if tens then 0x60 else 0) ||| (if units then 0x06 else 0)

/-- The accumulator and flags after decimal adjustment; the subtract flag is kept. -/
def daa (a : UInt8) (f : Flags) : UInt8 × Flags :=
  let correction := decimalCorrection a f
  let result := if f.subtract then a - correction else a + correction
  (result, { f with zero := result == 0, halfCarry := false, carry := 0x60 ≤ correction })

/-! ## Rotations and shifts -/

/-- The rotated or shifted byte and the bit that falls out. -/
def shifted (op : ShiftOp) (v : UInt8) (carryIn : Bool) : UInt8 × Bool :=
  let top := v &&& 0x80 != 0
  let bottom := v &&& 0x01 != 0
  match op with
  | .rlc => (v <<< 1 ||| v >>> 7, top)
  | .rrc => (v >>> 1 ||| v <<< 7, bottom)
  | .rl => (v <<< 1 ||| (if carryIn then 0x01 else 0), top)
  | .rr => (v >>> 1 ||| (if carryIn then 0x80 else 0), bottom)
  | .sla => (v <<< 1, top)
  | .sra => (v >>> 1 ||| v &&& 0x80, bottom)
  | .swap => (v <<< 4 ||| v >>> 4, false)
  | .srl => (v >>> 1, bottom)

/-- A rotation or shift with its flags. -/
def shift (op : ShiftOp) (v : UInt8) (carryIn : Bool) : UInt8 × Flags :=
  let (result, out) := shifted op v carryIn
  (result, { zero := result == 0, carry := out })

/-! ## Single bits -/

/-- The byte in which only the given bit is set. -/
def mask (index : UInt8) : UInt8 := 1 <<< index

/-- The flags of a bit test; the carry is kept. -/
def testBit (index v : UInt8) (f : Flags) : Flags :=
  { f with zero := v &&& mask index == 0, subtract := false, halfCarry := true }

/-! ## Word arithmetic -/

/-- The sum of two words with its flags: the half carry comes from bit 11, the
    carry from bit 15, and the zero flag is kept. -/
def addWord (a v : UInt16) (f : Flags) : UInt16 × Flags :=
  (a + v,
    { f with
      subtract := false
      halfCarry := 0x0FFF < a.toNat % 0x1000 + v.toNat % 0x1000
      carry := 0xFFFF < a.toNat + v.toNat })

/-- Where a mask leaves the lowest bits of words, the sum of two words that are left fits a word. -/
theorem toNat_sum_masked (x y : UInt16) {mask : UInt16} {n : Nat}
    (hmask : ∀ w : UInt16, (w &&& mask).toNat = w.toNat % n) (hn : 0 < n ∧ n ≤ 0x8000) :
    ((x &&& mask) + (y &&& mask)).toNat = x.toNat % n + y.toNat % n := by
  have hx : x.toNat % n < n := Nat.mod_lt _ hn.1
  have hy : y.toNat % n < n := Nat.mod_lt _ hn.1
  rw [UInt16.toNat_add, hmask, hmask]
  exact Nat.mod_eq_of_lt (by omega)

/-- The half carry of a sum of words is that of their lower twelve bits. -/
theorem addWord_eq_masked (a v : UInt16) (f : Flags) :
    addWord a v f =
      (a + v,
        { f with
          subtract := false
          halfCarry := 0x0FFF < (a &&& 0x0FFF) + (v &&& 0x0FFF)
          carry := 0xFFFF < a.toUInt32 + v.toUInt32 }) := by
  have hmask (w : UInt16) : (w &&& 0x0FFF).toNat = w.toNat % 0x1000 :=
    Nat.and_two_pow_sub_one_eq_mod w.toNat 12
  have hhalf : (0x0FFF < (a &&& 0x0FFF) + (v &&& 0x0FFF)) =
      (0x0FFF < a.toNat % 0x1000 + v.toNat % 0x1000) := by
    rw [UInt16.lt_iff_toNat_lt, toNat_sum_masked a v hmask (by decide)]
    rfl
  have hcarry : (0xFFFF < a.toUInt32 + v.toUInt32) = (0xFFFF < a.toNat + v.toNat) := by
    have ha := a.toNat_lt
    have hv := v.toNat_lt
    have hsum : (a.toUInt32 + v.toUInt32).toNat = a.toNat + v.toNat := by
      rw [UInt32.toNat_add, UInt16.toNat_toUInt32, UInt16.toNat_toUInt32]
      omega
    rw [UInt32.lt_iff_toNat_lt, hsum]
    rfl
  simp only [addWord, hhalf, hcarry]

/-- A word moved by a signed displacement, with flags as for the unsigned sum of
    the low byte and the displacement byte. -/
def addOffset (base : UInt16) (offset : UInt8) : UInt16 × Flags :=
  (base + signExtend offset,
    { halfCarry := 15 < base.toNat % 16 + offset.toNat % 16
      carry := 255 < base.toNat % 256 + offset.toNat })

/-- The displacement byte is the lower byte of the widened displacement. -/
theorem addOffset_eq_masked (base : UInt16) (offset : UInt8) :
    let widened := signExtend offset
    addOffset base offset =
      (base + widened,
        { halfCarry := 0x000F < (base &&& 0x000F) + (widened &&& 0x000F)
          carry := 0x00FF < (base &&& 0x00FF) + (widened &&& 0x00FF) }) := by
  intro widened
  have hlow : widened.toNat % 256 = offset.toNat := by
    have hlt := offset.toNat_lt
    rw [show widened = _ from signExtend_eq_word offset, toNat_word]
    omega
  have hdigitMask (w : UInt16) : (w &&& 0x000F).toNat = w.toNat % 16 :=
    Nat.and_two_pow_sub_one_eq_mod w.toNat 4
  have hbyteMask (w : UInt16) : (w &&& 0x00FF).toNat = w.toNat % 256 :=
    Nat.and_two_pow_sub_one_eq_mod w.toNat 8
  have hhalf : (0x000F < (base &&& 0x000F) + (widened &&& 0x000F)) =
      (15 < base.toNat % 16 + offset.toNat % 16) := by
    have hdigit : widened.toNat % 16 = offset.toNat % 16 := by omega
    rw [UInt16.lt_iff_toNat_lt, toNat_sum_masked base widened hdigitMask (by decide), ← hdigit]
    rfl
  have hcarry : (0x00FF < (base &&& 0x00FF) + (widened &&& 0x00FF)) =
      (255 < base.toNat % 256 + offset.toNat) := by
    rw [UInt16.lt_iff_toNat_lt, toNat_sum_masked base widened hbyteMask (by decide), ← hlow]
    rfl
  simp only [addOffset, hhalf, hcarry]
  rfl

end Handheld.Alu
