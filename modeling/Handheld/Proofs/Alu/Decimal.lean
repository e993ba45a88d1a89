-- SUMMARY: Decimal arithmetic on bytes of two digits each: the adjustment after a sum or a difference makes it decimal, for numbers of any number of bytes.
import Handheld.Proofs.Alu.Binary

namespace Handheld

/-! ## Packed bytes -/

/-- Both digits of the byte are decimal. -/
def IsPacked (byte : UInt8) : Prop :=
  byte.toNat % 16 ≤ 9 ∧ byte.toNat / 16 ≤ 9

instance (byte : UInt8) : Decidable (IsPacked byte) :=
  inferInstanceAs (Decidable (_ ∧ _))

/-- The number that the two decimal digits of a byte stand for. -/
def unpacked (byte : UInt8) : ℕ :=
  byte.toNat % 16 + 10 * (byte.toNat / 16)

theorem unpacked_lt {byte : UInt8} (h : IsPacked byte) : unpacked byte < 100 := by
  unfold unpacked
  obtain ⟨hunits, htens⟩ := h
  omega

/-- Decimal digits that balance, put together in a byte. -/
theorem balances_unpacked {sign : ℤ} {x y result : UInt8} {units tens : ℕ}
    {carryIn carry carryOut : Bool} (hresult : result.toNat = units + 16 * tens)
    (hunits : units ≤ 9) (htens : tens ≤ 9)
    (hlow : Balances sign 10 (x.toNat % 16) (y.toNat % 16) carryIn units carry)
    (hhigh : Balances sign 10 (x.toNat / 16) (y.toNat / 16) carry tens carryOut) :
    IsPacked result ∧
      Balances sign 100 (unpacked x) (unpacked y) carryIn (unpacked result) carryOut := by
  have hmod : result.toNat % 16 = units := by omega
  have hdiv : result.toNat / 16 = tens := by omega
  refine ⟨⟨hmod ▸ hunits, hdiv ▸ htens⟩, ?_⟩
  unfold unpacked
  rw [hmod, hdiv]
  exact hlow.cons hhigh

/-- Decimal digits have a decimal sum. -/
theorem exists_sum_digit {m n : ℕ} (hm : m ≤ 9) (hn : n ≤ 9) (carryIn : Bool) :
    ∃ digit ≤ 9, ∃ carry, Balances 1 10 m n carryIn digit carry := by
  have hc := carryIn.toNat_le
  unfold Balances
  by_cases hcarry : 9 < m + n + carryIn.toNat
  · exact ⟨m + n + carryIn.toNat - 10, by omega, true, by simp only [Bool.toNat_true]; omega⟩
  · exact ⟨m + n + carryIn.toNat, by omega, false, by simp only [Bool.toNat_false]; omega⟩

/-- Decimal digits have a decimal difference. -/
theorem exists_difference_digit {m n : ℕ} (hm : m ≤ 9) (hn : n ≤ 9) (carryIn : Bool) :
    ∃ digit ≤ 9, ∃ carry, Balances (-1) 10 m n carryIn digit carry := by
  have hc := carryIn.toNat_le
  unfold Balances
  by_cases hborrow : m < n + carryIn.toNat
  · exact ⟨10 + m - n - carryIn.toNat, by omega, true, by simp only [Bool.toNat_true]; omega⟩
  · exact ⟨m - n - carryIn.toNat, by omega, false, by simp only [Bool.toNat_false]; omega⟩

/-! ## The adjustment

Sixteen and ten differ by the correction of a digit. It is due where the decimal digit carries, and
the flags of the binary operation, with the comparisons of its result after a sum, tell where. -/

namespace Alu

theorem decimalCorrection_toNat (a : UInt8) (f : Flags) :
    (decimalCorrection a f).toNat =
      96 * (f.carry || (!f.subtract && decide (153 < a.toNat))).toNat +
        6 * (f.halfCarry || (!f.subtract && decide (9 < a.toNat % 16))).toNat := by
  have hunits : (9 < a &&& 0x0F) ↔ 9 < a.toNat % 16 := by
    rw [UInt8.lt_iff_toNat_lt, toNat_and_low]
    rfl
  have htens : (0x99 < a) ↔ 153 < a.toNat := UInt8.lt_iff_toNat_lt
  simp only [decimalCorrection, hunits, htens]
  cases f.carry || (!f.subtract && decide (153 < a.toNat)) <;>
    cases f.halfCarry || (!f.subtract && decide (9 < a.toNat % 16)) <;> rfl

/-- The carry after an adjustment tells whether the tens were corrected. -/
theorem daa_carry {a : UInt8} {f : Flags} {tens units : Bool}
    (h : (decimalCorrection a f).toNat = 96 * tens.toNat + 6 * units.toNat) :
    (daa a f).2.carry = tens := by
  have hle : (0x60 ≤ decimalCorrection a f) ↔ 96 ≤ 96 * tens.toNat + 6 * units.toNat := by
    rw [UInt8.le_iff_toNat_le, h]
    rfl
  simp only [daa, hle]
  cases tens <;> cases units <;> rfl

/-- The second test finds the carries out of a decimal digit that the flag misses. -/
theorem or_decide_eq {flag carry : Bool} {p : Prop} [Decidable p] (hpos : p → carry.toNat = 1)
    (hneg : ¬p → flag.toNat = carry.toNat) : (flag || decide p) = carry := by
  cases flag <;> cases carry <;> simp_all

/-- An adjusted sum of packed bytes is their decimal sum. -/
theorem balances_daa_add {x y : UInt8} (hx : IsPacked x) (hy : IsPacked y) (carryIn : Bool) :
    let sum := add x y carryIn
    let adjusted := daa sum.1 sum.2
    IsPacked adjusted.1 ∧
      Balances 1 100 (unpacked x) (unpacked y) carryIn (unpacked adjusted.1) adjusted.2.carry := by
  intro sum adjusted
  obtain ⟨hwhole, hhalf⟩ : Balances 1 256 x.toNat y.toNat carryIn sum.1.toNat sum.2.carry ∧
      Balances 1 16 (x.toNat % 16) (y.toNat % 16) carryIn (sum.1.toNat % 16) sum.2.halfCarry :=
    balances_add x y carryIn
  obtain ⟨units, hunits, carry, hlow⟩ := exists_sum_digit hx.1 hy.1 carryIn
  obtain ⟨tens, htens, carryOut, hhigh⟩ := exists_sum_digit hx.2 hy.2 carry
  have hcarry := carry.toNat_le
  have hcarryOut := carryOut.toNat_le
  have hbinaryHalf := sum.2.halfCarry.toNat_le
  have hbinaryCarry := sum.2.carry.toNat_le
  have hresult : adjusted.1.toNat = (sum.1.toNat + (decimalCorrection sum.1 sum.2).toNat) % 256 :=
    UInt8.toNat_add ..
  have hcorrection :
      (decimalCorrection sum.1 sum.2).toNat = 96 * carryOut.toNat + 6 * carry.toNat := by
    rw [decimalCorrection_toNat, show sum.2.subtract = false from rfl, Bool.not_false,
      Bool.true_and, Bool.true_and]
    -- Without a binary carry, a digit that carries shows in the comparison with nine or with 99.
    congr 3
    · unfold Balances at hwhole hlow hhigh
      apply or_decide_eq <;> omega
    · unfold Balances at hhalf hlow
      apply or_decide_eq <;> omega
  -- Six for each carry of the units and 96 for one of the tens make up for what sixteen is more
  -- than ten, up to the 256 that falls out of the byte.
  have hdigits : adjusted.1.toNat = units + 16 * tens := by
    unfold Balances at hlow hhigh hwhole
    omega
  rw [show adjusted.2.carry = carryOut from daa_carry hcorrection]
  exact balances_unpacked hdigits hunits htens hlow hhigh

/-- An adjusted difference of packed bytes is their decimal difference. -/
theorem balances_daa_sub {x y : UInt8} (hx : IsPacked x) (hy : IsPacked y) (carryIn : Bool) :
    let difference := sub x y carryIn
    let adjusted := daa difference.1 difference.2
    IsPacked adjusted.1 ∧
      Balances (-1) 100 (unpacked x) (unpacked y) carryIn (unpacked adjusted.1)
        adjusted.2.carry := by
  intro difference adjusted
  obtain ⟨hwhole, hhalf⟩ :
      Balances (-1) 256 x.toNat y.toNat carryIn difference.1.toNat difference.2.carry ∧
        Balances (-1) 16 (x.toNat % 16) (y.toNat % 16) carryIn (difference.1.toNat % 16)
          difference.2.halfCarry :=
    balances_sub x y carryIn
  obtain ⟨units, hunits, carry, hlow⟩ := exists_difference_digit hx.1 hy.1 carryIn
  obtain ⟨tens, htens, carryOut, hhigh⟩ := exists_difference_digit hx.2 hy.2 carry
  have hresult : adjusted.1.toNat =
      (256 - (decimalCorrection difference.1 difference.2).toNat + difference.1.toNat) % 256 :=
    UInt8.toNat_sub ..
  have hlt := difference.1.toNat_lt
  have hcarry := carry.toNat_le
  have hcarryOut := carryOut.toNat_le
  have hbinaryHalf := difference.2.halfCarry.toNat_le
  have hbinaryCarry := difference.2.carry.toNat_le
  have hcorrection :
      (decimalCorrection difference.1 difference.2).toNat =
        96 * carryOut.toNat + 6 * carry.toNat := by
    rw [decimalCorrection_toNat, show difference.2.subtract = true from rfl, Bool.not_true,
      Bool.false_and, Bool.false_and, Bool.or_false, Bool.or_false]
    -- A decimal digit is borrowed for exactly when its nibble is.
    unfold Balances at hwhole hhalf hlow hhigh
    have hunitsBorrow : difference.2.halfCarry.toNat = carry.toNat := by omega
    have htensBorrow : difference.2.carry.toNat = carryOut.toNat := by omega
    rw [hunitsBorrow, htensBorrow]
  have hdigits : adjusted.1.toNat = units + 16 * tens := by
    unfold Balances at hlow hhigh hwhole
    omega
  rw [show adjusted.2.carry = carryOut from daa_carry hcorrection]
  exact balances_unpacked hdigits hunits htens hlow hhigh

end Alu

/-! ## Numbers of many bytes -/

/-- The number that packed bytes stand for, the lowest one first. -/
def decimal (bytes : List UInt8) : ℕ :=
  Nat.ofDigits 100 (bytes.map unpacked)

theorem decimal_map {δ : Type} (byte : δ → UInt8) (ds : List δ) :
    decimal (ds.map byte) = Nat.ofDigits 100 (ds.map fun d => unpacked (byte d)) := by
  rw [decimal, List.map_map]
  rfl

/-- Both bytes of the column are packed. -/
def Column.Packed (column : Column) : Prop :=
  IsPacked column.x ∧ IsPacked column.y

instance (column : Column) : Decidable column.Packed :=
  inferInstanceAs (Decidable (_ ∧ _))

/-- The processor after an operation on the column and a `DAA`. -/
def Column.adjusted (op : AluOp) (column : Column) (flags : Flags) : Cpu :=
  ((column.work op flags).effect 0 0 .daa).cpu

/-- The processors `done` after the adjustments of `n` bytes hold a packed number. The last of them
    is `top`. -/
structure IsAdjusted (subtract : Bool) (n : ℕ) (done : List Cpu) (top : Cpu) : Prop where
  length : done.length = n
  last : done.getLast? = some top
  packed : ∀ cpu ∈ done, IsPacked cpu.regs.a
  zero : ∀ cpu ∈ done, (cpu.regs.f.zero = true ↔ cpu.regs.a = 0)
  halfCarry : ∀ cpu ∈ done, cpu.regs.f.halfCarry = false
  subtract : ∀ cpu ∈ done, cpu.regs.f.subtract = subtract

/-- They hold the decimal sum of `x` and `y` and a carry. -/
structure IsDecimalSum (n x y carryIn : ℕ) (done : List Cpu) (top : Cpu) : Prop
    extends IsAdjusted false n done top where
  value : decimal (bytesOf done) = (x + y + carryIn) % 100 ^ n
  carry : top.regs.f.carry = true ↔ 100 ^ n ≤ x + y + carryIn

/-- They hold the decimal difference of `x` and `y` less a borrow. -/
structure IsDecimalDifference (n x y carryIn : ℕ) (done : List Cpu) (top : Cpu) : Prop
    extends IsAdjusted true n done top where
  value : (decimal (bytesOf done) : ℤ) = ((x : ℤ) - y - carryIn) % (100 ^ n : ℕ)
  carry : top.regs.f.carry = true ↔ x < y + carryIn

/-- An adjustment keeps the subtract flag, clears the half carry and tells whether the result is
    zero, after any operation and on any bytes. -/
theorem adjusted_flags (cpu : Cpu) :
    let done := (cpu.effect 0 0 .daa).cpu
    done.regs.f.subtract = cpu.regs.f.subtract ∧ done.regs.f.halfCarry = false ∧
      (done.regs.f.zero = true ↔ done.regs.a = 0) :=
  ⟨rfl, rfl, beq_iff_eq⟩

/-- If an operation with its adjustment balances on packed bytes, then it does so on numbers. -/
theorem decimal_columns (op : AluOp) {sign : ℤ} {subtract : Bool} {columns : List Column}
    (hne : columns ≠ []) (flags : Flags)
    (hop : ∀ column ∈ columns, ∀ flags, let done := column.adjusted op flags
      IsPacked done.regs.a ∧ Balances sign 100 (unpacked column.x) (unpacked column.y) flags.carry
        (unpacked done.regs.a) done.regs.f.carry)
    (hsubtract : ∀ (column : Column) flags, (column.work op flags).regs.f.subtract = subtract)
    (hpacked : ∀ column ∈ columns, column.Packed) :
    let n := columns.length
    let done := chain (Column.adjusted op) flags columns
    ∃ top, IsAdjusted subtract n done top ∧ decimal (bytesOf done) < 100 ^ n ∧
      Balances sign (100 ^ n) (decimal (columns.map (·.x))) (decimal (columns.map (·.y)))
        flags.carry (decimal (bytesOf done)) top.regs.f.carry := by
  intro n done
  obtain ⟨top, hlast⟩ := exists_last_of_chain (Column.adjusted op) flags hne
  have hlt : ∀ column ∈ columns, unpacked column.x < 100 ∧ unpacked column.y < 100 ∧
      ∀ flags, unpacked (column.adjusted op flags).regs.a < 100 := by
    intro column hcolumn
    obtain ⟨hx, hy⟩ := hpacked column hcolumn
    exact ⟨unpacked_lt hx, unpacked_lt hy, fun flags => unpacked_lt (hop column hcolumn flags).1⟩
  refine ⟨top, ⟨length_chain .., hlast, ?packed, ?zero, ?halfCarry, ?subtract⟩, ?bound, ?value⟩
  case bound =>
    exact ofDigits_bytesOf_lt (by decide) (fun column hcolumn => (hlt column hcolumn).2.2) flags
  case value =>
    rw [decimal_map, decimal_map]
    exact balances_chain_carry (by decide) flags hlt
      (fun column hcolumn flags => (hop column hcolumn flags).2) hlast
  all_goals
    intro cpu hcpu
    obtain ⟨column, hcolumn, flags', rfl⟩ := exists_of_mem_chain hcpu
  case packed => exact (hop column hcolumn flags').1
  case zero => exact (adjusted_flags _).2.2
  case halfCarry => exact (adjusted_flags _).2.1
  case subtract => exact (adjusted_flags _).1.trans (hsubtract column flags')

/-- Packed numbers of any number of bytes, at least one, are added by `ADD` and `DAA` on the lowest
    bytes and `ADC` and `DAA` on the others, and subtracted by `SUB` and `SBC` with `DAA` in the
    same way, if `SUB` subtracts its operand as it does by default. -/
theorem decimal_exact {columns : List Column} (hne : columns ≠ [])
    (hpacked : ∀ column ∈ columns, column.Packed) (flags : Flags) :
    let n := columns.length
    let x := decimal (columns.map (·.x))
    let y := decimal (columns.map (·.y))
    let run (first rest : AluOp) :=
      chainFrom (Column.adjusted first) (Column.adjusted rest) flags columns
    (∃ top, IsDecimalSum n x y 0 (run .add .adc) top) ∧
      ((∀ column ∈ columns, column.cpu.config.subtrahend = .operand) →
        ∃ top, IsDecimalDifference n x y 0 (run .sub .sbc) top) ∧
      ∀ cpu : Cpu, (cpu.effect 0 0 .daa).cpu.regs.f.subtract = cpu.regs.f.subtract := by
  intro n x y run
  refine ⟨?_, ?_, fun cpu => (adjusted_flags cpu).1⟩
  · have hchain : run .add .adc = _ := chainFrom_eq_chain fun column _ =>
      show column.adjusted .add flags = column.adjusted .adc { flags with carry := false } from rfl
    obtain ⟨top, hadjusted, hlt, hbalances⟩ := decimal_columns .adc hne
      { flags with carry := false }
      (fun column hcolumn flags => Alu.balances_daa_add (hpacked column hcolumn).1
        (hpacked column hcolumn).2 flags.carry) (fun column flags => rfl) hpacked
    obtain ⟨hvalue, hcarry⟩ := hbalances.sum hlt
    rw [hchain]
    exact ⟨top, hadjusted, hvalue, hcarry⟩
  · intro hconfig
    have hchain : run .sub .sbc = _ := chainFrom_eq_chain fun column hcolumn =>
      show column.adjusted .sub flags = column.adjusted .sbc { flags with carry := false } by
        rw [Column.adjusted, work_sub (hconfig column hcolumn), Column.adjusted]
    obtain ⟨top, hadjusted, hlt, hbalances⟩ := decimal_columns .sbc hne
      { flags with carry := false }
      (fun column hcolumn flags => Alu.balances_daa_sub (hpacked column hcolumn).1
        (hpacked column hcolumn).2 flags.carry) (fun column flags => rfl) hpacked
    obtain ⟨hvalue, hcarry⟩ := hbalances.difference hlt
    rw [hchain]
    exact ⟨top, hadjusted, hvalue, hcarry⟩

theorem decimal_exact_twoBytes :
    let columns : List Column := [⟨{}, 0x99, 0x01⟩, ⟨{}, 0x12, 0x34⟩]
    (∃ top, IsDecimalSum 2 1299 3401 0
      (chainFrom (Column.adjusted .add) (Column.adjusted .adc) {} columns) top) ∧
      ∃ top, IsDecimalDifference 2 1299 3401 0
        (chainFrom (Column.adjusted .sub) (Column.adjusted .sbc) {} columns) top := by
  intro columns
  have hne : columns ≠ [] := List.cons_ne_nil _ _
  obtain ⟨hsum, hdifference, -⟩ := decimal_exact hne (by decide) {}
  exact ⟨hsum, hdifference (by decide)⟩

end Handheld
