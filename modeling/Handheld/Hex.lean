-- SUMMARY: Fixed-width upper-case hexadecimal text of bytes and words.

namespace Handheld

/-! ## Hexadecimal text

Every address and register that the library prints is written with upper-case
digits and a fixed width: two digits for a byte, four for a word. -/

/-- The upper-case digit of a number below sixteen. -/
def hexDigit (n : Nat) : Char :=
  if n < 10 then Char.ofNat ('0'.toNat + n) else Char.ofNat ('A'.toNat + (n - 10))

/-- The two digits of a byte. -/
def hex2 (b : UInt8) : String :=
  String.ofList [hexDigit (b.toNat / 16), hexDigit (b.toNat % 16)]

/-- The four digits of a word. -/
def hex4 (w : UInt16) : String :=
  String.ofList
    [ hexDigit (w.toNat / 4096), hexDigit (w.toNat / 256 % 16)
    , hexDigit (w.toNat / 16 % 16), hexDigit (w.toNat % 16) ]

example : hex2 0x0F = "0F" := by decide
example : hex4 0xC0DE = "C0DE" := by decide

end Handheld
