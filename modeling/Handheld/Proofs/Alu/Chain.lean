-- SUMMARY: Operations on numbers of many digits, one digit after the other with only the flags carried over: what holds of each digit's carry holds of the number's.
import Handheld.Cpu.Effect
import Mathlib.Data.Nat.Digits.Defs
import Mathlib.Tactic.LinearCombination

namespace Handheld

/-! ## Chains of operations

A number that is too long for the accumulator is worked on digit by digit from
its low end. Between two digits the processor may do anything, as long as it
hands the flags on. -/

/-- The processors after each digit, each working under the flags that the digit before left. -/
def chain {δ : Type} (work : δ → Flags → Cpu) (flags : Flags) : List δ → List Cpu
  | [] => []
  | d :: ds =>
    let done := work d flags
    done :: chain work done.regs.f ds

/-- The same when the lowest digit is worked on in another way than the rest. -/
def chainFrom {δ : Type} (first rest : δ → Flags → Cpu) (flags : Flags) : List δ → List Cpu
  | [] => []
  | d :: ds =>
    let done := first d flags
    done :: chain rest done.regs.f ds

/-- The bytes that a chain leaves in the accumulator. -/
def bytesOf (done : List Cpu) : List UInt8 :=
  done.map (·.regs.a)

section

variable {δ : Type} {work : δ → Flags → Cpu}

@[simp] theorem length_chain (work : δ → Flags → Cpu) (flags : Flags) (ds : List δ) :
    (chain work flags ds).length = ds.length := by
  induction ds generalizing flags with
  | nil => rfl
  | cons d ds ih => simp [chain, ih]

/-- Whatever a chain leaves is the work on one of its digits. -/
theorem exists_of_mem_chain {flags : Flags} {ds : List δ} {done : Cpu}
    (h : done ∈ chain work flags ds) : ∃ d ∈ ds, ∃ flags, done = work d flags := by
  induction ds generalizing flags with
  | nil => cases h
  | cons d ds ih =>
    rcases List.mem_cons.mp h with rfl | hrest
    · exact ⟨d, .head _, flags, rfl⟩
    · obtain ⟨d', hd', found⟩ := ih hrest
      exact ⟨d', .tail _ hd', found⟩

theorem exists_last_of_chain (work : δ → Flags → Cpu) (flags : Flags) {ds : List δ} (h : ds ≠ []) :
    ∃ last, (chain work flags ds).getLast? = some last := by
  refine Option.isSome_iff_exists.mp ?_
  rw [List.getLast?_isSome]
  exact fun hnil => h (List.eq_nil_of_length_eq_zero (by rw [← length_chain work flags, hnil]; rfl))

/-- A first digit that is worked on as the others would be under other flags. -/
theorem chainFrom_eq_chain {first : δ → Flags → Cpu} {flags flags' : Flags} {ds : List δ}
    (h : ∀ d ∈ ds, first d flags = work d flags') :
    chainFrom first work flags ds = chain work flags' ds := by
  cases ds with
  | nil => rfl
  | cons d ds => rw [chainFrom, chain, h d (.head _)]

/-! ## Carries

A digit of a sum is what its column adds up to, less a carry to the next column,
and a digit of a difference what is left of its column, with a borrow from the
next. Both are one equation, in which `sign` is `1` or `-1`. A number fulfils the
equation that its digits fulfil. As a flag may look at the lower part of a digit
only, the highest digit is taken modulo `part`. -/

/-- Two operands and a carry result in a digit and a carry that is worth `unit`. -/
def Balances (sign : ℤ) (unit x y : ℕ) (carryIn : Bool) (result : ℕ) (carryOut : Bool) : Prop :=
  (x : ℤ) + sign * (y + carryIn.toNat) = result + sign * (unit * carryOut.toNat)

/-- A column in front of a number that balances, with the carry between them. -/
theorem Balances.cons {sign : ℤ} {base unit x y result x' y' result' : ℕ}
    {carryIn carry carryOut : Bool} (h : Balances sign base x y carryIn result carry)
    (hrest : Balances sign unit x' y' carry result' carryOut) :
    Balances sign (base * unit) (x + base * x') (y + base * y') carryIn (result + base * result')
      carryOut := by
  unfold Balances at *
  push_cast
  linear_combination h + base * hrest

/-- A sum without its carry, and when there is one. -/
theorem Balances.sum {unit x y result : ℕ} {carryIn carryOut : Bool}
    (h : Balances 1 unit x y carryIn result carryOut) (hlt : result < unit) :
    result = (x + y + carryIn.toNat) % unit ∧
      (carryOut = true ↔ unit ≤ x + y + carryIn.toNat) := by
  have hsum : x + y + carryIn.toNat = result + unit * carryOut.toNat := by
    unfold Balances at h
    zify
    linear_combination h
  rw [hsum, Nat.add_mul_mod_self_left, Nat.mod_eq_of_lt hlt]
  refine ⟨rfl, ?_⟩
  cases carryOut with
  | false => simpa using hlt
  | true => simp

/-- A difference up to its borrow, and when there is one. -/
theorem Balances.difference {unit x y result : ℕ} {carryIn carryOut : Bool}
    (h : Balances (-1) unit x y carryIn result carryOut) (hlt : result < unit) :
    (result : ℤ) = ((x : ℤ) - y - carryIn.toNat) % unit ∧
      (carryOut = true ↔ x < y + carryIn.toNat) := by
  have hdifference : (x : ℤ) - y - carryIn.toNat = result + unit * -(carryOut.toNat : ℤ) := by
    unfold Balances at h
    linear_combination h
  constructor
  · rw [hdifference, Int.add_mul_emod_self_left]
    exact (Int.emod_eq_of_lt (by omega) (by exact_mod_cast hlt)).symm
  · cases carryOut with
    | false =>
      simp only [Bool.toNat_false] at hdifference
      simp only [Bool.false_eq_true, false_iff]
      omega
    | true =>
      simp only [Bool.toNat_true] at hdifference
      simp only [true_iff]
      omega

theorem mod_base_mul {base x : ℕ} (hx : x < base) (rest unit : ℕ) :
    (x + base * rest) % (base * unit) = x + base * (rest % unit) := by
  have hpos : 0 < base := Nat.zero_lt_of_lt hx
  rw [Nat.mod_mul, Nat.add_mul_mod_self_left, Nat.mod_eq_of_lt hx, Nat.add_mul_div_left x rest hpos,
    Nat.div_eq_of_lt hx, Nat.zero_add]

variable {sign : ℤ} {base : ℕ} {x y : δ → ℕ} {digit : UInt8 → ℕ}

/-- If in every column the digits and the carries balance, and the highest digits do so modulo
    `part` with a flag in place of the carry, then the numbers balance with that flag. -/
theorem balances_chain {d : δ} {ds : List δ} (part : ℕ) (out : Flags → Bool) (flags : Flags)
    {last : Cpu}
    (hlt : ∀ d' ∈ d :: ds, x d' < base ∧ y d' < base ∧ ∀ flags, digit (work d' flags).regs.a < base)
    (hcarry : ∀ d' ∈ d :: ds, ∀ flags, Balances sign base (x d') (y d') flags.carry
      (digit (work d' flags).regs.a) (work d' flags).regs.f.carry)
    (hpart : ∀ d' ∈ d :: ds, ∀ flags, Balances sign part (x d' % part) (y d' % part) flags.carry
      (digit (work d' flags).regs.a % part) (out (work d' flags).regs.f))
    (hlast : (chain work flags (d :: ds)).getLast? = some last) :
    let unit := part * base ^ ds.length
    Balances sign unit (Nat.ofDigits base ((d :: ds).map x) % unit)
      (Nat.ofDigits base ((d :: ds).map y) % unit) flags.carry
      (Nat.ofDigits base ((bytesOf (chain work flags (d :: ds))).map digit) % unit)
      (out last.regs.f) := by
  induction ds generalizing d flags with
  | nil =>
    obtain rfl : work d flags = last := by simpa [chain] using hlast
    simpa [chain, bytesOf, Nat.ofDigits_singleton] using hpart d (.head _) flags
  | cons next ds ih =>
    let done := work d flags
    obtain ⟨hx, hy, hdigit⟩ := hlt d (.head _)
    have hrest := ih (d := next) done.regs.f (fun d' hd' => hlt d' (.tail _ hd'))
      (fun d' hd' => hcarry d' (.tail _ hd')) (fun d' hd' => hpart d' (.tail _ hd'))
      (by simpa [chain] using hlast)
    have hunit : part * base ^ (next :: ds).length = base * (part * base ^ ds.length) := by
      rw [List.length_cons, pow_succ]
      ring
    have hsplit (n m : ℕ) (hn : n < base) :
        (n + base * m) % (part * base ^ (next :: ds).length) =
          n + base * (m % (part * base ^ ds.length)) := by
      rw [hunit, mod_base_mul hn]
    have hboth := (hcarry d (.head _) flags).cons hrest
    rw [← hsplit _ _ hx, ← hsplit _ _ hy, ← hsplit _ _ (hdigit flags), ← hunit] at hboth
    exact hboth

theorem ofDigits_map_lt {digits : δ → ℕ} {ds : List δ} (hbase : 1 < base)
    (h : ∀ d ∈ ds, digits d < base) : Nat.ofDigits base (ds.map digits) < base ^ ds.length := by
  rw [← List.length_map digits]
  apply Nat.ofDigits_lt_base_pow_length hbase
  intro n hn
  obtain ⟨d, hd, rfl⟩ := List.mem_map.mp hn
  exact h d hd

theorem ofDigits_bytesOf_lt {ds : List δ} (hbase : 1 < base)
    (h : ∀ d ∈ ds, ∀ flags, digit (work d flags).regs.a < base) (flags : Flags) :
    Nat.ofDigits base ((bytesOf (chain work flags ds)).map digit) < base ^ ds.length := by
  rw [bytesOf, List.map_map, ← length_chain work flags ds]
  apply ofDigits_map_lt hbase
  intro done hdone
  obtain ⟨d, hd, flags, rfl⟩ := exists_of_mem_chain hdone
  exact h d hd flags

/-- If in every column the digits and the carries balance, then so do the numbers. -/
theorem balances_chain_carry {ds : List δ} (hbase : 1 < base) (flags : Flags) {last : Cpu}
    (hlt : ∀ d ∈ ds, x d < base ∧ y d < base ∧ ∀ flags, digit (work d flags).regs.a < base)
    (hcarry : ∀ d ∈ ds, ∀ flags, Balances sign base (x d) (y d) flags.carry
      (digit (work d flags).regs.a) (work d flags).regs.f.carry)
    (hlast : (chain work flags ds).getLast? = some last) :
    Balances sign (base ^ ds.length) (Nat.ofDigits base (ds.map x)) (Nat.ofDigits base (ds.map y))
      flags.carry (Nat.ofDigits base ((bytesOf (chain work flags ds)).map digit))
      last.regs.f.carry := by
  have hx := ofDigits_map_lt hbase fun d hd => (hlt d hd).1
  have hy := ofDigits_map_lt hbase fun d hd => (hlt d hd).2.1
  have hresult := ofDigits_bytesOf_lt hbase (fun d hd => (hlt d hd).2.2) flags
  cases ds with
  | nil => cases hlast
  | cons d ds =>
    have hwhole := balances_chain base Flags.carry flags hlt hcarry
      (fun d' hd' flags => by
        obtain ⟨hx, hy, hdigit⟩ := hlt d' hd'
        rw [Nat.mod_eq_of_lt hx, Nat.mod_eq_of_lt hy, Nat.mod_eq_of_lt (hdigit flags)]
        exact hcarry d' hd' flags) hlast
    rw [List.length_cons, pow_succ'] at hx hy hresult ⊢
    dsimp only at hwhole
    rwa [Nat.mod_eq_of_lt hx, Nat.mod_eq_of_lt hy, Nat.mod_eq_of_lt hresult] at hwhole

end

end Handheld
