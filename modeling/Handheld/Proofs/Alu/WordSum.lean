-- SUMMARY: Sums of words come to the sums of their bytes, with the flags of those: `ADD HL,rr`, and the two instructions that add a displacement to SP.
import Handheld.Proofs.Alu.Binary
import Handheld.Proofs.Cpu.Control

namespace Handheld

/-! ## Sums of words

A word is a number of two bytes, so its sum is a chain of two sums of bytes. The
instructions on words work out their flags in another way: they look at the
lower bits of the whole words. -/

theorem toNat_eq_bytes (w : UInt16) : w.toNat = (loByte w).toNat + 256 * (hiByte w).toNat := by
  have h := toNat_word (hiByte w) (loByte w)
  rw [word_hiByte_loByte] at h
  omega

namespace Alu

/-- A sum of words is the sum of the low bytes and then, with its carry, that of the high bytes.
    The carries into bits 12 and 16 are those of the high bytes. -/
theorem addWord_eq (x y : UInt16) (f : Flags) :
    let low := add (loByte x) (loByte y) false
    let high := add (hiByte x) (hiByte y) low.2.carry
    addWord x y f =
      (word high.1 low.1,
        { f with
          subtract := false
          halfCarry := high.2.halfCarry
          carry := high.2.carry }) := by
  intro low high
  obtain ⟨hlow, -⟩ : Balances 1 256 (loByte x).toNat (loByte y).toNat false low.1.toNat
      low.2.carry ∧ _ := balances_add ..
  obtain ⟨hhigh, hhalf⟩ : Balances 1 256 (hiByte x).toNat (hiByte y).toNat low.2.carry
      high.1.toNat high.2.carry ∧ Balances 1 16 ((hiByte x).toNat % 16) ((hiByte y).toNat % 16)
      low.2.carry (high.1.toNat % 16) high.2.halfCarry := balances_add ..
  have hlowLt := low.1.toNat_lt
  have hhighLt := high.1.toNat_lt
  obtain ⟨hvalue, hcarry⟩ := (hlow.cons hhigh).sum (by omega)
  obtain ⟨-, hhalfCarry⟩ := (hlow.cons hhalf).sum (by omega)
  have hx := toNat_eq_bytes x
  have hy := toNat_eq_bytes y
  have hxlow := (loByte x).toNat_lt
  have hylow := (loByte y).toNat_lt
  have hsum : x + y = word high.1 low.1 := by
    apply UInt16.toNat_inj.mp
    rw [UInt16.toNat_add, toNat_word, hx, hy, Nat.mul_comm high.1.toNat, Nat.add_comm (_ * _),
      hvalue]
    rfl
  have hwordCarry : decide (0xFFFF < x.toNat + y.toNat) = high.2.carry := by
    rw [Bool.eq_iff_iff, decide_eq_true_iff, hcarry, hx, hy]
    simp only [Bool.toNat_false]
    omega
  have hwordHalf : decide (0x0FFF < x.toNat % 0x1000 + y.toNat % 0x1000) = high.2.halfCarry := by
    rw [Bool.eq_iff_iff, decide_eq_true_iff, hhalfCarry, hx, hy]
    simp only [Bool.toNat_false]
    omega
  rw [addWord, hsum, hwordCarry, hwordHalf]

/-- A word moved by a displacement is the sum of its low byte and the displacement byte and then,
    with its carry, that of its high byte and a byte of signs. The flags are those of the low
    byte. -/
theorem addOffset_eq (base : UInt16) (e : UInt8) :
    let low := add (loByte base) e false
    let high := add (hiByte base) (if e < 0x80 then 0x00 else 0xFF) low.2.carry
    addOffset base e =
      (word high.1 low.1, { halfCarry := low.2.halfCarry, carry := low.2.carry }) := by
  intro low high
  have hsum : base + signExtend e = word high.1 low.1 := by
    have hword := congrArg Prod.fst (addWord_eq base (signExtend e) {})
    rwa [signExtend_eq_word, loByte_word, hiByte_word, ← signExtend_eq_word] at hword
  have hbase := toNat_eq_bytes base
  have hlt := (loByte base).toNat_lt
  have hhalf : base.toNat % 16 + e.toNat % 16 =
      (loByte base).toNat % 16 + e.toNat % 16 + false.toNat := by
    rw [Bool.toNat_false]
    omega
  have hcarry : base.toNat % 256 + e.toNat = (loByte base).toNat + e.toNat + false.toNat := by
    rw [Bool.toNat_false]
    omega
  simp only [addOffset, hsum, hhalf, hcarry]
  rfl

end Alu

/-! ## The instructions -/

/-- The processors after the sums of the low and of the high bytes of two words, `ADD` and then
    `ADC`. -/
def addBytes (cpu : Cpu) (x y : UInt16) : Cpu × Cpu :=
  let low := Column.work .add ⟨cpu, loByte x, loByte y⟩ cpu.regs.f
  (low, Column.work .adc ⟨cpu, hiByte x, hiByte y⟩ low.regs.f)

/-- The word that the sums of its bytes leave. -/
def sumOf (sums : Cpu × Cpu) : UInt16 :=
  word sums.2.regs.a sums.1.regs.a

/-- `ADD HL,rr` changes HL and the flags alone, even when HL is added to itself. HL becomes the sum
    of the words modulo 65536, and this sum, the half carry and the carry are those of `ADD` on the
    low and `ADC` on the high bytes. `ADD SP,r8` and `LD HL,SP+r8` leave the same word in SP and in
    HL, with the same flags, and change nothing else. The word is SP moved by the signed
    displacement modulo 65536, its bytes are those of `ADD` on the low byte of SP with the
    displacement and `ADC` on the high byte with a byte of signs, and the half carry and the carry
    are those of that `ADD`. -/
theorem word_sums_agree (cpu : Cpu) (immediate data : UInt16) :
    (∀ src : Reg16,
      let x := cpu.regs.hl
      let y := cpu.reg16 src
      let sums := addBytes cpu x y
      let flags : Flags :=
        { zero := cpu.regs.f.zero
          subtract := false
          halfCarry := sums.2.regs.f.halfCarry
          carry := sums.2.regs.f.carry }
      (sumOf sums).toNat = (x.toNat + y.toNat) % 65536 ∧
        (cpu.effect immediate data (.addHl src)).cpu =
          { cpu with regs := { cpu.regs.setHl (sumOf sums) with f := flags } }) ∧
      let sp := cpu.regs.sp
      let e := loByte immediate
      let sums := addBytes cpu sp (word (if e < 0x80 then 0x00 else 0xFF) e)
      let flags : Flags :=
        { zero := false
          subtract := false
          halfCarry := sums.1.regs.f.halfCarry
          carry := sums.1.regs.f.carry }
      ((sumOf sums).toNat : ℤ) = (sp.toNat + e.toInt8.toInt) % 65536 ∧
        (cpu.effect immediate data .addSpOffset).cpu =
          { cpu with regs := { cpu.regs with sp := sumOf sums, f := flags } } ∧
        (cpu.effect immediate data .ldHlSpOffset).cpu =
          { cpu with regs := { cpu.regs.setHl (sumOf sums) with f := flags } } := by
  refine ⟨?_, ?_⟩
  · intro src x y sums flags
    have hsum : Alu.addWord x y cpu.regs.f = (sumOf sums, flags) := Alu.addWord_eq ..
    refine ⟨?_, ?_⟩
    · have hword : x + y = sumOf sums := congrArg Prod.fst hsum
      rw [← hword]
      exact UInt16.toNat_add ..
    · simp only [Cpu.effect]
      rw [hsum]
      rfl
  · intro sp e sums flags
    have hsum : Alu.addOffset sp e = (sumOf sums, flags) := by
      simp only [Alu.addOffset_eq, sums, flags, sumOf, addBytes, loByte_word, hiByte_word]
      rfl
    refine ⟨?_, ?_, ?_⟩
    · have hword : sp + UInt16.ofInt e.toInt8.toInt = sumOf sums := by
        rw [← signExtend_eq_ofInt]
        exact congrArg Prod.fst hsum
      rw [← hword, UInt16.toNat_add, UInt16.ofInt]
      simp
      omega
    · simp only [Cpu.effect]
      rw [hsum]
      rfl
    · simp only [Cpu.effect]
      rw [hsum]
      rfl

end Handheld
