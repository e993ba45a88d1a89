-- SUMMARY: The four condition flags and the byte that shows them.

namespace Handheld

/-! ## Flags

The flag byte shows zero, subtract, half carry and carry in bits 7 to 4. Its
lower four bits do not exist: they read as zero and a value written to them is
lost. -/

/-- The name of a condition flag. -/
inductive Flag where
  | zero
  | subtract
  | halfCarry
  | carry
deriving DecidableEq, Repr

/-- The four condition flags. -/
structure Flags where
  zero : Bool := false
  subtract : Bool := false
  halfCarry : Bool := false
  carry : Bool := false
deriving DecidableEq, Repr, Inhabited

namespace Flags

/-- The value of one flag. -/
def get (f : Flags) : Flag → Bool
  | .zero => f.zero
  | .subtract => f.subtract
  | .halfCarry => f.halfCarry
  | .carry => f.carry

/-- The flags after one of them is given a value. -/
def set (f : Flags) (name : Flag) (value : Bool) : Flags :=
  match name with
  | .zero => { f with zero := value }
  | .subtract => { f with subtract := value }
  | .halfCarry => { f with halfCarry := value }
  | .carry => { f with carry := value }

/-- The flags that a byte stands for; its lower four bits are ignored. -/
def ofByte (b : UInt8) : Flags where
  zero := b &&& 0x80 != 0
  subtract := b &&& 0x40 != 0
  halfCarry := b &&& 0x20 != 0
  carry := b &&& 0x10 != 0

/-- The byte that shows the flags. -/
def toByte (f : Flags) : UInt8 :=
  (if f.zero then 0x80 else 0) ||| (if f.subtract then 0x40 else 0) |||
    (if f.halfCarry then 0x20 else 0) ||| (if f.carry then 0x10 else 0)

@[simp] theorem get_set_self (f : Flags) (name : Flag) (value : Bool) :
    (f.set name value).get name = value := by
  cases name <;> rfl

theorem get_set_of_ne (f : Flags) {name other : Flag} (value : Bool) (h : other ≠ name) :
    (f.set name value).get other = f.get other := by
  cases name <;> cases other <;> first | rfl | exact absurd rfl h

@[simp] theorem ofByte_toByte (f : Flags) : ofByte f.toByte = f := by
  obtain ⟨z, n, h, c⟩ := f
  cases z <;> cases n <;> cases h <;> cases c <;> rfl

end Flags

end Handheld
