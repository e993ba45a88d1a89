-- SUMMARY: Words as pairs of bytes, and the sign extension of displacement bytes.

namespace Handheld

/-! ## Words

The processor works on bytes and on 16-bit words. A word in memory or in a
register pair is a high and a low byte. -/

/-- The word with the given high and low byte. -/
def word (hi lo : UInt8) : UInt16 :=
  hi.toUInt16 <<< 8 ||| lo.toUInt16

/-- The upper byte of a word. -/
def hiByte (w : UInt16) : UInt8 :=
  (w >>> 8).toUInt8

/-- The lower byte of a word. -/
def loByte (w : UInt16) : UInt8 :=
  w.toUInt8

/-- A displacement byte read as a signed number and widened to a word. -/
def signExtend (b : UInt8) : UInt16 :=
  if b < 0x80 then b.toUInt16 else 0xFF00 ||| b.toUInt16

theorem hiByte_eq_ofNat (w : UInt16) : hiByte w = UInt8.ofNat (w.toNat / 256) := by
  apply UInt8.toNat_inj.mp
  simp [hiByte, Nat.shiftRight_eq_div_pow]

theorem loByte_eq_ofNat (w : UInt16) : loByte w = UInt8.ofNat w.toNat := by
  apply UInt8.toNat_inj.mp
  simp [loByte]

theorem toNat_word (hi lo : UInt8) : (word hi lo).toNat = hi.toNat * 256 + lo.toNat := by
  have h₁ := hi.toNat_lt
  have h₂ := lo.toNat_lt
  have h : (hi.toNat <<< 8) % 65536 = 2 ^ 8 * hi.toNat := by
    rw [Nat.shiftLeft_eq]
    omega
  simp only [word, UInt16.toNat_or, UInt16.toNat_shiftLeft, UInt8.toNat_toUInt16]
  rw [show (8 : UInt16).toNat % 16 = 8 from rfl, h, ← Nat.two_pow_add_eq_or_of_lt h₂]
  omega

@[simp] theorem hiByte_word (hi lo : UInt8) : hiByte (word hi lo) = hi := by
  have := lo.toNat_lt
  rw [hiByte_eq_ofNat, toNat_word, show (hi.toNat * 256 + lo.toNat) / 256 = hi.toNat by omega]
  exact UInt8.ofNat_toNat

@[simp] theorem loByte_word (hi lo : UInt8) : loByte (word hi lo) = lo := by
  have := lo.toNat_lt
  apply UInt8.toNat_inj.mp
  rw [loByte_eq_ofNat, toNat_word]
  simp

/-- The bytes of a widened displacement. -/
theorem signExtend_eq_word (e : UInt8) :
    signExtend e = word (if e < 0x80 then 0x00 else 0xFF) e := by
  unfold signExtend
  split
  · simp [word]
  · rfl

@[simp] theorem loByte_toUInt16 (b : UInt8) : loByte b.toUInt16 = b :=
  UInt8.toUInt8_toUInt16 b

@[simp] theorem word_hiByte_loByte (w : UInt16) : word (hiByte w) (loByte w) = w := by
  have := w.toNat_lt
  apply UInt16.toNat_inj.mp
  rw [toNat_word, hiByte_eq_ofNat, loByte_eq_ofNat]
  simp
  omega

end Handheld
