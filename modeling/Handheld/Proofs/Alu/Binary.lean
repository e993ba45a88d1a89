-- SUMMARY: Sums and differences of numbers of any number of bytes by the byte instructions, with the flags that are left at the end.
import Handheld.Proofs.Alu.Chain
import Handheld.Proofs.Cpu.Switches

namespace Handheld

/-! ## Sums and differences of bytes -/

namespace Alu

/-- A sum of bytes balances with its carry, and so do the low digits with the half carry. -/
theorem balances_add (a v : UInt8) (carryIn : Bool) :
    let sum := add a v carryIn
    Balances 1 256 a.toNat v.toNat carryIn sum.1.toNat sum.2.carry ∧
      Balances 1 16 (a.toNat % 16) (v.toNat % 16) carryIn (sum.1.toNat % 16) sum.2.halfCarry := by
  have ha := a.toNat_lt
  have hv := v.toNat_lt
  have hc := carryIn.toNat_le
  have htoNat : (UInt8.ofNat (a.toNat + v.toNat + carryIn.toNat)).toNat =
      (a.toNat + v.toNat + carryIn.toNat) % 256 := UInt8.toNat_ofNat'
  simp only [Balances, add, htoNat]
  constructor
  · by_cases hcarry : 255 < a.toNat + v.toNat + carryIn.toNat <;> simp [hcarry] <;> omega
  · by_cases hhalf : 15 < a.toNat % 16 + v.toNat % 16 + carryIn.toNat <;> simp [hhalf] <;> omega

/-- A difference of bytes balances with its borrow, and so do the low digits with the half
    borrow. -/
theorem balances_sub (a v : UInt8) (carryIn : Bool) :
    let difference := sub a v carryIn
    Balances (-1) 256 a.toNat v.toNat carryIn difference.1.toNat difference.2.carry ∧
      Balances (-1) 16 (a.toNat % 16) (v.toNat % 16) carryIn (difference.1.toNat % 16)
        difference.2.halfCarry := by
  have ha := a.toNat_lt
  have hv := v.toNat_lt
  have hc := carryIn.toNat_le
  have htoNat : (a - v - UInt8.ofNat carryIn.toNat).toNat =
      (512 + a.toNat - v.toNat - carryIn.toNat) % 256 := by
    rw [UInt8.toNat_sub, UInt8.toNat_sub, UInt8.toNat_ofNat']
    omega
  simp only [Balances, sub, htoNat]
  constructor
  · by_cases hborrow : a.toNat < v.toNat + carryIn.toNat <;> simp [hborrow] <;> omega
  · by_cases hhalf : a.toNat % 16 < v.toNat % 16 + carryIn.toNat <;> simp [hhalf] <;> omega

end Alu

/-! ## Numbers of many bytes -/

/-- The number that bytes stand for, the lowest one first. -/
def binary (bytes : List UInt8) : ℕ :=
  Nat.ofDigits 256 (bytes.map UInt8.toNat)

/-- One byte of each of two numbers. -/
structure Column where
  /-- The processor that works on the two bytes. Only its flags come from the bytes below. -/
  cpu : Cpu
  x : UInt8
  y : UInt8

/-- The processor with the first byte of the column in A, combined with the second one. -/
def Column.work (op : AluOp) (column : Column) (flags : Flags) : Cpu :=
  Cpu.operate { column.cpu with regs := { column.cpu.regs with a := column.x, f := flags } } op
    column.y

theorem binary_map {δ : Type} (byte : δ → UInt8) (ds : List δ) :
    binary (ds.map byte) = Nat.ofDigits 256 (ds.map fun d => (byte d).toNat) := by
  rw [binary, List.map_map]
  rfl

/-- The processors `done` after each byte have worked out the sum of the numbers `x` and `y` of
    `n` bytes and a carry. The last of them is `top`. -/
structure IsSum (n x y carryIn : ℕ) (done : List Cpu) (top : Cpu) : Prop where
  length : done.length = n
  last : done.getLast? = some top
  value : binary (bytesOf done) = (x + y + carryIn) % 256 ^ n
  carry : top.regs.f.carry = true ↔ 256 ^ n ≤ x + y + carryIn
  /-- The half carry is the carry into bit `8 * n - 4`. -/
  halfCarry : top.regs.f.halfCarry = true ↔
    2 ^ (8 * n - 4) ≤ x % 2 ^ (8 * n - 4) + y % 2 ^ (8 * n - 4) + carryIn
  subtract : top.regs.f.subtract = false
  zero : top.regs.f.zero = true ↔ top.regs.a = 0

/-- The same for the difference of `x` and `y` less a borrow. -/
structure IsDifference (n x y carryIn : ℕ) (done : List Cpu) (top : Cpu) : Prop where
  length : done.length = n
  last : done.getLast? = some top
  value : (binary (bytesOf done) : ℤ) = ((x : ℤ) - y - carryIn) % (256 ^ n : ℕ)
  carry : top.regs.f.carry = true ↔ x < y + carryIn
  /-- The half carry is the borrow into bit `8 * n - 4`. -/
  halfCarry : top.regs.f.halfCarry = true ↔
    x % 2 ^ (8 * n - 4) < y % 2 ^ (8 * n - 4) + carryIn
  subtract : top.regs.f.subtract = true
  zero : top.regs.f.zero = true ↔ top.regs.a = 0

theorem two_pow_eq (k : ℕ) : 2 ^ (8 * (k + 1) - 4) = 16 * 256 ^ k := by
  rw [show 8 * (k + 1) - 4 = 4 + 8 * k by omega, pow_add, pow_mul]
  rfl

/-- If an operation balances on bytes, with its carry and with its half carry, then it does so on
    numbers. -/
theorem balances_columns (op : AluOp) {sign : ℤ}
    (hop : ∀ (column : Column) flags, let done := column.work op flags
      Balances sign 256 column.x.toNat column.y.toNat flags.carry done.regs.a.toNat
          done.regs.f.carry ∧
        Balances sign 16 (column.x.toNat % 16) (column.y.toNat % 16) flags.carry
          (done.regs.a.toNat % 16) done.regs.f.halfCarry)
    {columns : List Column} (flags : Flags) {top : Cpu}
    (hlast : (chain (Column.work op) flags columns).getLast? = some top) :
    let n := columns.length
    let x := binary (columns.map (·.x))
    let y := binary (columns.map (·.y))
    let result := binary (bytesOf (chain (Column.work op) flags columns))
    (Balances sign (256 ^ n) x y flags.carry result top.regs.f.carry ∧ result < 256 ^ n) ∧
      ∃ low < 2 ^ (8 * n - 4), Balances sign (2 ^ (8 * n - 4)) (x % 2 ^ (8 * n - 4))
        (y % 2 ^ (8 * n - 4)) flags.carry low top.regs.f.halfCarry := by
  have hlt : ∀ column ∈ columns, column.x.toNat < 256 ∧ column.y.toNat < 256 ∧
      ∀ flags, (column.work op flags).regs.a.toNat < 256 :=
    fun column _ => ⟨column.x.toNat_lt, column.y.toNat_lt, fun flags => UInt8.toNat_lt _⟩
  have hwhole : ∀ column ∈ columns, ∀ flags, let done := column.work op flags
      Balances sign 256 column.x.toNat column.y.toNat flags.carry done.regs.a.toNat
        done.regs.f.carry :=
    fun column _ flags => (hop column flags).1
  intro n x y result
  rw [show x = _ from binary_map .., show y = _ from binary_map ..]
  refine ⟨⟨?_, ?_⟩, ?_⟩
  · exact balances_chain_carry (by decide) flags hlt hwhole hlast
  · exact ofDigits_bytesOf_lt (by decide) (fun column hcolumn => (hlt column hcolumn).2.2) flags
  · cases columns with
    | nil => cases hlast
    | cons column columns =>
      have hhalf := balances_chain 16 Flags.halfCarry flags hlt hwhole
        (fun column _ flags => (hop column flags).2) hlast
      rw [show n = columns.length + 1 from rfl, two_pow_eq]
      exact ⟨_, Nat.mod_lt _ (by positivity), hhalf⟩

/-- A chain of `ADC` works out a sum. -/
theorem isSum_chain {columns : List Column} (hne : columns ≠ []) (flags : Flags) :
    ∃ top, IsSum columns.length (binary (columns.map (·.x))) (binary (columns.map (·.y)))
      flags.carry.toNat (chain (Column.work .adc) flags columns) top := by
  obtain ⟨top, hlast⟩ := exists_last_of_chain (Column.work .adc) flags hne
  obtain ⟨⟨hwhole, hlt⟩, low, hlow, hhalf⟩ := balances_columns .adc
    (fun column flags => Alu.balances_add column.x column.y flags.carry) flags hlast
  obtain ⟨hvalue, hcarry⟩ := hwhole.sum hlt
  obtain ⟨column, -, flags', rfl⟩ := exists_of_mem_chain (List.mem_of_getLast? hlast)
  exact ⟨_, length_chain .., hlast, hvalue, hcarry, (hhalf.sum hlow).2, rfl, beq_iff_eq⟩

/-- A chain of `SBC` works out a difference. -/
theorem isDifference_chain {columns : List Column} (hne : columns ≠ []) (flags : Flags) :
    ∃ top, IsDifference columns.length (binary (columns.map (·.x)))
      (binary (columns.map (·.y))) flags.carry.toNat
      (chain (Column.work .sbc) flags columns) top := by
  obtain ⟨top, hlast⟩ := exists_last_of_chain (Column.work .sbc) flags hne
  obtain ⟨⟨hwhole, hlt⟩, low, hlow, hhalf⟩ := balances_columns .sbc
    (fun column flags => Alu.balances_sub column.x column.y flags.carry) flags hlast
  obtain ⟨hvalue, hcarry⟩ := hwhole.difference hlt
  obtain ⟨column, -, flags', rfl⟩ := exists_of_mem_chain (List.mem_of_getLast? hlast)
  exact ⟨_, length_chain .., hlast, hvalue, hcarry, (hhalf.difference hlow).2, rfl, beq_iff_eq⟩

/-- `ADD` is `ADC` without a carry. -/
theorem work_add (column : Column) (flags : Flags) :
    column.work .add flags = column.work .adc { flags with carry := false } := rfl

/-- `SUB` is `SBC` without a borrow, if it subtracts its operand. -/
theorem work_sub {column : Column} (hconfig : column.cpu.config.subtrahend = .operand)
    (flags : Flags) : column.work .sub flags = column.work .sbc { flags with carry := false } := by
  simp only [Column.work, Cpu.operate, hconfig]
  rfl

/-- Numbers of any number of bytes, at least one, are added by `ADD` on the lowest bytes and `ADC`
    on the others, and subtracted by `SUB` and `SBC` in the same way, if `SUB` subtracts its operand
    as it does by default. With `ADC` or `SBC` on the lowest bytes too, the carry that comes in is
    added or subtracted as well. A comparison sets the flags of a subtraction and leaves all else
    as it is, under every configuration. -/
theorem multibyte_exact {columns : List Column} (hne : columns ≠ []) (flags : Flags) :
    let n := columns.length
    let x := binary (columns.map (·.x))
    let y := binary (columns.map (·.y))
    let run (first rest : AluOp) := chainFrom (Column.work first) (Column.work rest) flags columns
    (∃ top, IsSum n x y 0 (run .add .adc) top) ∧
      (∃ top, IsSum n x y flags.carry.toNat (run .adc .adc) top) ∧
      ((∀ column ∈ columns, column.cpu.config.subtrahend = .operand) →
        ∃ top, IsDifference n x y 0 (run .sub .sbc) top) ∧
      (∃ top, IsDifference n x y flags.carry.toNat (run .sbc .sbc) top) ∧
      ∀ (cpu : Cpu) (v : UInt8),
        cpu.operate .cp v = cpu.withFlags (cpu.operate .sub v).regs.f := by
  intro n x y run
  refine ⟨?_, ?_, ?_, ?_, ?_⟩
  · have hchain : run .add .adc = _ := chainFrom_eq_chain fun column _ => work_add column flags
    rw [hchain]
    exact isSum_chain hne { flags with carry := false }
  · have hchain : run .adc .adc = _ := chainFrom_eq_chain fun column _ => rfl
    rw [hchain]
    exact isSum_chain hne flags
  · intro hconfig
    have hchain : run .sub .sbc = _ :=
      chainFrom_eq_chain fun column hcolumn => work_sub (hconfig column hcolumn) flags
    rw [hchain]
    exact isDifference_chain hne { flags with carry := false }
  · have hchain : run .sbc .sbc = _ := chainFrom_eq_chain fun column _ => rfl
    rw [hchain]
    exact isDifference_chain hne flags
  · intro cpu v
    rw [Cpu.operate_sub]
    rfl

theorem multibyte_exact_twoBytes :
    let columns : List Column := [⟨{}, 0xFF, 0x01⟩, ⟨{}, 0x01, 0x02⟩]
    (∃ top, IsSum 2 0x01FF 0x0201 0
      (chainFrom (Column.work .add) (Column.work .adc) {} columns) top) ∧
      ∃ top, IsDifference 2 0x01FF 0x0201 0
        (chainFrom (Column.work .sub) (Column.work .sbc) {} columns) top := by
  intro columns
  have hne : columns ≠ [] := List.cons_ne_nil _ _
  obtain ⟨hsum, -, hdifference, -⟩ := multibyte_exact hne {}
  exact ⟨hsum, hdifference (by decide)⟩

end Handheld
