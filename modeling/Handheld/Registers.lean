-- SUMMARY: The register file: seven byte registers, the flags, SP and PC, and the register pairs.
import Handheld.Word
import Handheld.Flags

namespace Handheld

/-! ## Registers

The byte registers also form the pairs AF, BC, DE and HL, with the first letter
naming the high byte. -/

/-- The register file of the processor. -/
structure Registers where
  a : UInt8 := 0
  f : Flags := {}
  b : UInt8 := 0
  c : UInt8 := 0
  d : UInt8 := 0
  e : UInt8 := 0
  h : UInt8 := 0
  l : UInt8 := 0
  sp : UInt16 := 0
  pc : UInt16 := 0
deriving DecidableEq, Repr, Inhabited

namespace Registers

def af (r : Registers) : UInt16 := word r.a r.f.toByte
def bc (r : Registers) : UInt16 := word r.b r.c
def de (r : Registers) : UInt16 := word r.d r.e
def hl (r : Registers) : UInt16 := word r.h r.l

/-- Loads AF; the lower four bits of the word are lost. -/
def setAf (r : Registers) (w : UInt16) : Registers :=
  { r with a := hiByte w, f := Flags.ofByte (loByte w) }

def setBc (r : Registers) (w : UInt16) : Registers := { r with b := hiByte w, c := loByte w }
def setDe (r : Registers) (w : UInt16) : Registers := { r with d := hiByte w, e := loByte w }
def setHl (r : Registers) (w : UInt16) : Registers := { r with h := hiByte w, l := loByte w }

/-- The registers as the boot program leaves them. -/
def postBoot : Registers where
  a := 0x01
  f := { zero := true, subtract := false, halfCarry := true, carry := true }
  b := 0x00
  c := 0x13
  d := 0x00
  e := 0xD8
  h := 0x01
  l := 0x4D
  sp := 0xFFFE
  pc := 0x0100

@[simp] theorem bc_setBc (r : Registers) (w : UInt16) : (r.setBc w).bc = w := by simp [setBc, bc]
@[simp] theorem de_setDe (r : Registers) (w : UInt16) : (r.setDe w).de = w := by simp [setDe, de]
@[simp] theorem hl_setHl (r : Registers) (w : UInt16) : (r.setHl w).hl = w := by simp [setHl, hl]

@[simp] theorem setAf_af (r : Registers) : r.setAf r.af = r := by simp [setAf, af]
@[simp] theorem setBc_bc (r : Registers) : r.setBc r.bc = r := by simp [setBc, bc]
@[simp] theorem setDe_de (r : Registers) : r.setDe r.de = r := by simp [setDe, de]
@[simp] theorem setHl_hl (r : Registers) : r.setHl r.hl = r := by simp [setHl, hl]

end Registers

end Handheld
