-- SUMMARY: The 64 KiB memory: one byte at every 16-bit address.

namespace Handheld

/-! ## Memory

Every word is an address, so reading and writing never fail. -/

/-- The number of addresses. -/
def memorySize : Nat := 0x10000

/-- A byte for every address. -/
structure Memory where
  bytes : ByteArray
  size_eq : bytes.size = memorySize

namespace Memory

/-- Memory with a zero at every address. -/
def zero : Memory where
  bytes := ⟨Array.replicate memorySize 0⟩
  size_eq := Array.size_replicate

instance : Inhabited Memory := ⟨zero⟩

theorem toNat_lt_size (m : Memory) (address : UInt16) : address.toNat < m.bytes.size :=
  m.size_eq ▸ address.toNat_lt

/-- The byte at an address. -/
def get (m : Memory) (address : UInt16) : UInt8 :=
  m.bytes.get address.toNat (m.toNat_lt_size address)

/-- The memory after a byte has been stored at an address. -/
def set (m : Memory) (address : UInt16) (value : UInt8) : Memory where
  bytes := m.bytes.set address.toNat value (m.toNat_lt_size address)
  size_eq := by
    rw [← m.size_eq]
    exact Array.size_set ..

/-- The memory after `count` bytes of `data` have been copied to `base` and the addresses after it. -/
def copy (m : Memory) (base : UInt16) (data : ByteArray) : (count : Nat) → count ≤ data.size → Memory
  | 0, _ => m
  | count + 1, h =>
    (m.copy base data count (Nat.le_of_succ_le h)).set (base + UInt16.ofNat count) (data.get count h)

/-- The memory after `data` has been copied to `base`, cut off at the last address. -/
def load (m : Memory) (base : UInt16) (data : ByteArray) : Memory :=
  m.copy base data (min data.size (memorySize - base.toNat)) (Nat.min_le_left ..)

/-! ### Reading back -/

@[simp] theorem get_zero (address : UInt16) : zero.get address = 0 :=
  Array.getElem_replicate ..

@[simp] theorem get_set_self (m : Memory) (address : UInt16) (value : UInt8) :
    (m.set address value).get address = value :=
  Array.getElem_set_self (m.toNat_lt_size address)

theorem get_set_of_ne (m : Memory) {address other : UInt16} (value : UInt8) (h : other ≠ address) :
    (m.set address value).get other = m.get other :=
  Array.getElem_set_ne (m.toNat_lt_size address) (m.toNat_lt_size other)
    fun e => h (UInt16.toNat_inj.mp e.symm)

theorem get_set (m : Memory) (address other : UInt16) (value : UInt8) :
    (m.set address value).get other = if other = address then value else m.get other := by
  split
  · next h => rw [h, get_set_self]
  · next h => exact get_set_of_ne m value h

/-- After a copy the bytes of the data lie from `base` up, and all others are kept. -/
theorem get_copy (m : Memory) (base : UInt16) (data : ByteArray) (count : Nat)
    (h : count ≤ data.size) (fits : base.toNat + count ≤ memorySize) (address : UInt16) :
    (m.copy base data count h).get address =
      if inside : base.toNat ≤ address.toNat ∧ address.toNat < base.toNat + count then
        data.get (address.toNat - base.toNat) (by omega)
      else m.get address := by
  induction count with
  | zero =>
    rw [dif_neg (by omega)]
    rfl
  | succ count ih =>
    have size : memorySize = 65536 := rfl
    have target : (base + UInt16.ofNat count).toNat = base.toNat + count := by
      rw [UInt16.toNat_add, UInt16.toNat_ofNat', Nat.mod_eq_of_lt (show count < 65536 by omega)]
      exact Nat.mod_eq_of_lt (by omega)
    change ((m.copy base data count (Nat.le_of_succ_le h)).set (base + UInt16.ofNat count)
      (data.get count h)).get address = _
    rw [get_set, ih (by omega) (by omega)]
    by_cases last : address = base + UInt16.ofNat count
    · have place : address.toNat = base.toNat + count := by rw [last, target]
      have offset : address.toNat - base.toNat = count := by omega
      rw [if_pos last, dif_pos (by omega)]
      exact (getElem_congr_idx (c := data) offset).symm
    · have apart : address.toNat ≠ base.toNat + count := fun e =>
        last (UInt16.toNat_inj.mp (e.trans target.symm))
      rw [if_neg last]
      by_cases inside : base.toNat ≤ address.toNat ∧ address.toNat < base.toNat + count
      · rw [dif_pos inside, dif_pos (by omega)]
      · rw [dif_neg inside, dif_neg (by omega)]

/-- After loading, each address that the data reaches holds its byte, and all others are kept. -/
theorem get_load (m : Memory) (base : UInt16) (data : ByteArray) (address : UInt16) :
    (m.load base data).get address =
      if inside : base.toNat ≤ address.toNat ∧ address.toNat < base.toNat + data.size then
        data.get (address.toNat - base.toNat) (by omega)
      else m.get address := by
  have size : memorySize = 65536 := rfl
  have above := address.toNat_lt
  have below := base.toNat_lt
  rw [load, get_copy m base data _ _ (by omega)]
  by_cases inside : base.toNat ≤ address.toNat ∧ address.toNat < base.toNat + data.size
  · rw [dif_pos inside, dif_pos (by omega)]
  · rw [dif_neg inside, dif_neg (by omega)]

/-- Two memories with the same byte at every address are the same. -/
theorem ext_get {m m' : Memory} (h : ∀ address, m.get address = m'.get address) : m = m' := by
  obtain ⟨⟨bytes⟩, size_eq⟩ := m
  obtain ⟨⟨bytes'⟩, size_eq'⟩ := m'
  have same : bytes = bytes' := by
    apply Array.ext (size_eq.trans size_eq'.symm)
    intro i hi _
    have lt : i < 65536 := Nat.lt_of_lt_of_eq hi size_eq
    have place : (UInt16.ofNat i).toNat = i := by
      rw [UInt16.toNat_ofNat', Nat.mod_eq_of_lt lt]
    exact (getElem_congr_idx place.symm).trans
      ((h (UInt16.ofNat i)).trans (getElem_congr_idx place))
  subst same
  rfl

end Memory

end Handheld
