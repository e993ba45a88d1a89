-- SUMMARY: The texts that are read as numbers: an optional plus sign and digits whose value is below a limit.
import Handheld.CommandLine.Numeral
import Handheld.Hex
import Mathlib.Data.List.Forall2
import Mathlib.Data.Nat.Digits.Defs

namespace Handheld

namespace Numeral

/-! ## Digits -/

/-- A character stands for a number in a radix. The numbers from ten on have a letter each, which
    may be of either case. -/
def IsDigit (radix : Nat) (c : Char) (digit : Nat) : Prop :=
  digit < radix ∧ (c = digit.digitChar ∨ c = digit.digitChar.toUpper)

instance (radix : Nat) (c : Char) (digit : Nat) : Decidable (IsDigit radix c digit) :=
  inferInstanceAs (Decidable (_ ∧ _))

theorem digit?_digitChar :
    ∀ digit < 16, digit? 16 digit.digitChar = some digit ∧
      digit? 16 digit.digitChar.toUpper = some digit := by
  decide

theorem ofNat_eq_digitChar :
    ∀ digit < 16,
      (digit < 10 → Char.ofNat (48 + digit) = digit.digitChar) ∧
      (10 ≤ digit → Char.ofNat (87 + digit) = digit.digitChar ∧
        Char.ofNat (55 + digit) = digit.digitChar.toUpper) := by
  decide

/-- The characters with a value lie in three ranges of codes. -/
theorem isDigit_of_digit? {c : Char} {digit : Nat} (h : digit? 16 c = some digit) :
    IsDigit 16 c digit := by
  obtain ⟨hvalue, hlt⟩ := Option.filter_eq_some_iff.mp h
  rw [decide_eq_true_eq] at hlt
  obtain ⟨hdecimal, hletter⟩ := ofNat_eq_digitChar digit hlt
  refine ⟨hlt, ?_⟩
  rw [← Char.ofNat_toNat c]
  split at hvalue
  · next hrange =>
    have hlow : 48 ≤ c.toNat := hrange.1
    have hhigh : c.toNat ≤ 57 := hrange.2
    have hoffset : c.toNat - 48 = digit := Option.some.inj hvalue
    have hcode : c.toNat = 48 + digit := by omega
    rw [hcode]
    exact .inl (hdecimal (by omega))
  split at hvalue
  · next hrange =>
    have hlow : 97 ≤ c.toNat := hrange.1
    have hoffset : c.toNat - 97 + 10 = digit := Option.some.inj hvalue
    have hcode : c.toNat = 87 + digit := by omega
    rw [hcode]
    exact .inl (hletter (by omega)).1
  split at hvalue
  · next hrange =>
    have hlow : 65 ≤ c.toNat := hrange.1
    have hoffset : c.toNat - 65 + 10 = digit := Option.some.inj hvalue
    have hcode : c.toNat = 55 + digit := by omega
    rw [hcode]
    exact .inr (hletter (by omega)).2
  · cases hvalue

theorem digit?_eq_some_iff {radix : Nat} (hradix : radix ≤ 16) (c : Char) (digit : Nat) :
    digit? radix c = some digit ↔ IsDigit radix c digit := by
  have hfilter : digit? radix c = (digit? 16 c).filter (· < radix) := by
    simp only [digit?, Option.filter_filter]
    congr 1
    funext value
    simp
    omega
  rw [hfilter, Option.filter_eq_some_iff, decide_eq_true_eq]
  constructor
  · rintro ⟨hdigit, hlt⟩
    exact ⟨hlt, (isDigit_of_digit? hdigit).2⟩
  · rintro ⟨hlt, hc⟩
    obtain ⟨hlower, hupper⟩ := digit?_digitChar digit (by omega)
    rcases hc with rfl | rfl
    · exact ⟨hlower, hlt⟩
    · exact ⟨hupper, hlt⟩

/-! ## Digits in a row -/

section

variable {radix limit : Nat}

/-- Digits that follow those whose value is `sofar` are taken if there are none, or if the value of
    all of them together is below the limit. -/
theorem ofDigits_eq_ok_iff (hpositive : 0 < radix) (hradix : radix ≤ 16) (sofar : Nat)
    (digits : List Char) (value : Nat) :
    ofDigits radix limit sofar digits = .ok value ↔
      ∃ values, List.Forall₂ (IsDigit radix) digits values ∧
        value = sofar * radix ^ values.length + Nat.ofDigits radix values.reverse ∧
        (digits ≠ [] → value < limit) := by
  induction digits generalizing sofar with
  | nil =>
    simp only [ofDigits, Except.ok.injEq, List.forall₂_nil_left_iff]
    simp [eq_comm]
  | cons c rest ih =>
    have hgrown (digit : Nat) (values : List Nat) :
        sofar * radix ^ (digit :: values).length +
            Nat.ofDigits radix (digit :: values).reverse =
          (sofar * radix + digit) * radix ^ values.length + Nat.ofDigits radix values.reverse := by
      rw [List.reverse_cons, Nat.ofDigits_append, Nat.ofDigits_singleton, List.length_reverse,
        List.length_cons]
      ring
    simp only [List.forall₂_cons_left_iff, ofDigits]
    cases hdigit : digit? radix c with
    | none =>
      have hnone (digit : Nat) : ¬IsDigit radix c digit := by
        rw [← digit?_eq_some_iff hradix, hdigit]
        exact Option.some_ne_none digit |>.symm
      simp [hnone]
    | some digit =>
      have hsome (other : Nat) : IsDigit radix c other ↔ other = digit := by
        rw [← digit?_eq_some_iff hradix, hdigit, Option.some.injEq, eq_comm]
      simp only [hsome]
      constructor
      · intro h
        split at h
        · next hfirst =>
          obtain ⟨values, hvalues, hvalue, hlt⟩ := (ih _).mp h
          refine ⟨digit :: values, ⟨digit, values, rfl, hvalues, rfl⟩,
            hvalue.trans (hgrown digit values).symm, fun _ => ?_⟩
          cases rest with
          | nil =>
            cases hvalues
            simpa [hvalue] using hfirst
          | cons => exact hlt (List.cons_ne_nil _ _)
        · cases h
      · rintro ⟨_, ⟨digit, values, rfl, hvalues, rfl⟩, hvalue, hlt⟩
        rw [hgrown] at hvalue
        have hprefix : sofar * radix + digit ≤ value := by
          rw [hvalue]
          exact (Nat.le_mul_of_pos_right _ (Nat.pow_pos hpositive)).trans (Nat.le_add_right ..)
        have hbelow := hlt (List.cons_ne_nil _ _)
        rw [if_pos (by omega)]
        exact (ih _).mpr ⟨values, hvalues, hvalue, fun _ => hbelow⟩

/-- One or more digits in a row have a value below a limit. -/
def AreDigits (radix limit : Nat) (digits : List Char) (value : Nat) : Prop :=
  digits ≠ [] ∧ ∃ values, List.Forall₂ (IsDigit radix) digits values ∧
    value = Nat.ofDigits radix values.reverse ∧ value < limit

theorem ofDigits_zero_eq_ok_iff (hpositive : 0 < radix) (hradix : radix ≤ 16) {digits : List Char}
    (hsome : digits ≠ []) (value : Nat) :
    ofDigits radix limit 0 digits = .ok value ↔ AreDigits radix limit digits value := by
  rw [ofDigits_eq_ok_iff hpositive hradix]
  simp [AreDigits, hsome]

theorem not_areDigits_plus (hradix : radix ≤ 16) (rest : List Char) (value : Nat) :
    ¬AreDigits radix limit ('+' :: rest) value := by
  rintro ⟨-, values, hvalues, -⟩
  cases hvalues with
  | cons hplus =>
    rw [← digit?_eq_some_iff hradix] at hplus
    cases hplus

/-! ## Numerals -/

/-- A text is a numeral below a limit: an optional plus sign, and one or more digits. -/
def IsNumeral (radix limit : Nat) (text : List Char) (value : Nat) : Prop :=
  ∃ digits, (text = digits ∨ text = '+' :: digits) ∧ AreDigits radix limit digits value

/-- Exactly the numerals below the limit are read, each as its value. -/
theorem parse_eq_ok_iff (hpositive : 0 < radix) (hradix : radix ≤ 16) (text : List Char)
    (value : Nat) : parse radix limit text = .ok value ↔ IsNumeral radix limit text value := by
  unfold parse
  split
  · -- the empty text
    simp [IsNumeral, AreDigits]
  · next c rest =>
    rw [ofDigits_zero_eq_ok_iff hpositive hradix (List.cons_ne_nil c rest)]
    constructor
    · intro h
      exact ⟨_, .inr rfl, h⟩
    · rintro ⟨digits, rfl | hdigits, h⟩
      · exact absurd h (not_areDigits_plus hradix _ _)
      · cases hdigits
        exact h
  · next hempty hsigned =>
    rw [ofDigits_zero_eq_ok_iff hpositive hradix hempty]
    constructor
    · intro h
      exact ⟨text, .inl rfl, h⟩
    · rintro ⟨digits, rfl | rfl, h⟩
      · exact h
      · cases digits with
        | nil => exact absurd rfl h.1
        | cons c rest => exact absurd rfl (hsigned c rest)

end

/-! ## Counts and addresses -/

/-- A text is a decimal numeral of 64 bits. -/
def IsCount (text : String) (count : Nat) : Prop :=
  IsNumeral 10 (2 ^ 64) text.toList count

/-- A text is a hexadecimal numeral of 16 bits, behind a mark or without one. -/
def IsAddress (text : String) (address : UInt16) : Prop :=
  ∃ numeral, (text.toList = numeral ∨ text.toList = '0' :: 'x' :: numeral ∨
      text.toList = '0' :: 'X' :: numeral) ∧
    IsNumeral 16 (2 ^ 16) numeral address.toNat

theorem parseCount_eq_ok_iff (text : String) (count : Nat) :
    parseCount text = .ok count ↔ IsCount text count :=
  parse_eq_ok_iff (by decide) (by decide) text.toList count

theorem not_isCount_of_error {text : String} {cause : NumeralError}
    (h : parseCount text = .error cause) (count : Nat) : ¬IsCount text count := by
  rw [← parseCount_eq_ok_iff, h]
  exact nofun

/-- The mark of a hexadecimal numeral is never a part of its digits. -/
theorem not_isNumeral_mark {mark : Char} (hmark : mark = 'x' ∨ mark = 'X') (rest : List Char)
    (value : Nat) : ¬IsNumeral 16 (2 ^ 16) ('0' :: mark :: rest) value := by
  rintro ⟨digits, hdigits | hdigits, -, values, hvalues, -⟩
  · subst hdigits
    obtain - | ⟨-, - | ⟨hsecond, -⟩⟩ := hvalues
    rw [← digit?_eq_some_iff (by decide)] at hsecond
    rcases hmark with rfl | rfl <;> cases hsecond
  · cases hdigits

theorem isNumeral_withoutHexMark_iff (text : List Char) (value : Nat) :
    IsNumeral 16 (2 ^ 16) (withoutHexMark text) value ↔
      ∃ numeral, (text = numeral ∨ text = '0' :: 'x' :: numeral ∨ text = '0' :: 'X' :: numeral) ∧
        IsNumeral 16 (2 ^ 16) numeral value := by
  unfold withoutHexMark
  split
  · constructor
    · intro h
      exact ⟨_, .inr (.inl rfl), h⟩
    · rintro ⟨numeral, rfl | hmarked | hmarked, h⟩
      · exact absurd h (not_isNumeral_mark (.inl rfl) _ _)
      · cases hmarked
        exact h
      · cases hmarked
  · constructor
    · intro h
      exact ⟨_, .inr (.inr rfl), h⟩
    · rintro ⟨numeral, rfl | hmarked | hmarked, h⟩
      · exact absurd h (not_isNumeral_mark (.inr rfl) _ _)
      · cases hmarked
      · cases hmarked
        exact h
  · next hlower hupper =>
    constructor
    · intro h
      exact ⟨text, .inl rfl, h⟩
    · rintro ⟨numeral, rfl | hmarked | hmarked, h⟩
      · exact h
      · exact absurd hmarked (hlower numeral)
      · exact absurd hmarked (hupper numeral)

theorem parseAddress_eq_ok_iff (text : String) (address : UInt16) :
    parseAddress text = .ok address ↔ IsAddress text address := by
  have hparse (value : Nat) : parse 16 UInt16.size (withoutHexMark text.toList) = .ok value ↔
      IsNumeral 16 (2 ^ 16) (withoutHexMark text.toList) value :=
    parse_eq_ok_iff (by decide) (by decide) _ value
  rw [IsAddress, ← isNumeral_withoutHexMark_iff, ← hparse, parseAddress]
  cases hread : parse 16 UInt16.size (withoutHexMark text.toList) with
  | error cause => simp [Except.map]
  | ok value =>
    -- A numeral is below the limit, so its value is that of the address itself.
    have hlt : value < 2 ^ 16 := by
      obtain ⟨_, _, _, _, _, _, hlt⟩ := (hparse value).mp hread
      exact hlt
    simp only [Except.map, Except.ok.injEq, ← UInt16.toNat_inj, UInt16.toNat_ofNat']
    rw [Nat.mod_eq_of_lt hlt]

theorem not_isAddress_of_error {text : String} {cause : NumeralError}
    (h : parseAddress text = .error cause) (address : UInt16) : ¬IsAddress text address := by
  rw [← parseAddress_eq_ok_iff, h]
  exact nofun

instance (text : String) (count : Nat) : Decidable (IsCount text count) :=
  decidable_of_iff _ (parseCount_eq_ok_iff text count)

instance (text : String) (address : UInt16) : Decidable (IsAddress text address) :=
  decidable_of_iff _ (parseAddress_eq_ok_iff text address)

/-! ## Writing numerals -/

theorem exists_toDigits (count : Nat) :
    ∃ values, List.Forall₂ (IsDigit 10) (Nat.toDigits 10 count) values ∧
      count = Nat.ofDigits 10 values.reverse := by
  induction count using Nat.strong_induction_on with
  | _ count ih =>
    by_cases hsmall : count < 10
    · rw [Nat.toDigits_of_lt_base hsmall]
      exact ⟨[count], .cons ⟨hsmall, .inl rfl⟩ .nil, by simp⟩
    · obtain ⟨values, hvalues, hcount⟩ := ih (count / 10) (by omega)
      have hlast : count % 10 < 10 := Nat.mod_lt _ (by decide)
      rw [Nat.toDigits_of_base_le (by decide) (by omega)]
      refine ⟨values ++ [count % 10], ?_, ?_⟩
      · exact List.rel_append hvalues (.cons ⟨hlast, .inl rfl⟩ .nil)
      · rw [List.reverse_append, List.reverse_singleton, Nat.ofDigits_append, ← hcount]
        simp
        omega

/-- The decimal digits of a number of 64 bits are a count. -/
theorem isCount_repr {count : Nat} (h : count < 2 ^ 64) : IsCount count.repr count := by
  obtain ⟨values, hvalues, hcount⟩ := exists_toDigits count
  rw [IsCount, Nat.toList_repr]
  exact ⟨_, .inl rfl, Nat.toDigits_ne_nil, values, hvalues, hcount, h⟩

theorem isDigit_hexDigit : ∀ digit < 16, IsDigit 16 (hexDigit digit) digit := by
  decide

/-- The mark and the four digits of a word are an address. -/
theorem isAddress_hex4 (address : UInt16) : IsAddress ("0x" ++ hex4 address) address := by
  have hlt := address.toNat_lt
  have hmark : "0x".toList = ['0', 'x'] := rfl
  have hdigits : List.Forall₂ (IsDigit 16) (hex4 address).toList
      [address.toNat / 4096, address.toNat / 256 % 16, address.toNat / 16 % 16,
        address.toNat % 16] := by
    rw [hex4, String.toList_ofList]
    exact .cons (isDigit_hexDigit _ (by omega)) (.cons (isDigit_hexDigit _ (by omega))
      (.cons (isDigit_hexDigit _ (by omega)) (.cons (isDigit_hexDigit _ (by omega)) .nil)))
  refine ⟨(hex4 address).toList, .inr (.inl ?_), _, .inl rfl, ?_, _, hdigits, ?_, hlt⟩
  · rw [String.toList_append, hmark]
    rfl
  · rw [hex4, String.toList_ofList]
    exact List.cons_ne_nil _ _
  · simp [Nat.ofDigits_cons]
    omega

end Numeral

end Handheld
