-- SUMMARY: Unsigned numerals in a radix, bounded from above, and why a text is not one.

namespace Handheld

/-! ## Numerals

A numeral is an optional plus sign and one or more digits. Digits are taken from
left to right, and the first that is no digit or makes the value too large decides
what is wrong with the text. -/

/-- Why a text is not a numeral below the limit. -/
inductive NumeralError where
  | empty
  | invalidDigit
  | tooLarge
deriving DecidableEq, Repr

instance : ToString NumeralError where
  toString
    | .empty => "cannot parse integer from empty string"
    | .invalidDigit => "invalid digit found in string"
    | .tooLarge => "number too large to fit in target type"

namespace Numeral

/-- The value of a digit or letter of either case, if it is below the radix. -/
def digit? (radix : Nat) (c : Char) : Option Nat :=
  let value? :=
    if '0' ≤ c ∧ c ≤ '9' then some (c.toNat - '0'.toNat)
    else if 'a' ≤ c ∧ c ≤ 'z' then some (c.toNat - 'a'.toNat + 10)
    else if 'A' ≤ c ∧ c ≤ 'Z' then some (c.toNat - 'A'.toNat + 10)
    else none
  value?.filter (· < radix)

/-- The value of digits that follow those whose value is `sofar`. -/
def ofDigits (radix limit sofar : Nat) : List Char → Except NumeralError Nat
  | [] => .ok sofar
  | c :: rest =>
    match digit? radix c with
    | none => .error .invalidDigit
    | some digit =>
      let value := sofar * radix + digit
      if value < limit then ofDigits radix limit value rest else .error .tooLarge

/-- The value of a numeral below `limit`. -/
def parse (radix limit : Nat) : List Char → Except NumeralError Nat
  | [] => .error .empty
  | '+' :: c :: rest => ofDigits radix limit 0 (c :: rest)
  | text => ofDigits radix limit 0 text

/-- A decimal numeral that fits 64 bits. -/
def parseCount (text : String) : Except NumeralError Nat :=
  parse 10 UInt64.size text.toList

/-- The text of an address without the mark that it is hexadecimal. -/
def withoutHexMark : List Char → List Char
  | '0' :: 'x' :: digits | '0' :: 'X' :: digits => digits
  | text => text

/-- A hexadecimal address, marked as such or not. -/
def parseAddress (text : String) : Except NumeralError UInt16 :=
  (parse 16 UInt16.size (withoutHexMark text.toList)).map UInt16.ofNat

end Numeral

end Handheld
