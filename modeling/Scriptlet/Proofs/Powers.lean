import Mathlib.Algebra.Ring.Parity
import Scriptlet.Proofs.Arithmetic
import Scriptlet.Proofs.Syntax.Spelling

/-! Powers of integers. A power to an exponent that is not negative is exact or an overflow, as the other
operators are, with one exception: of the bases whose powers stay small whatever the exponent is, minus one is not
told from the others when the exponent takes more than 32 bits. -/
namespace Scriptlet

/-- The powers of a number that is zero or one, but for its sign, depend on the parity of the exponent. -/
theorem pow_of_natAbs_le_one {a : Int} (ha : a.natAbs ≤ 1) (n : Nat) :
    a ^ (if n = 0 then 0 else 2 - n % 2) = a ^ n := by
  have hcases : a = 0 ∨ a = 1 ∨ a = -1 := by omega
  by_cases hn : n = 0
  · rw [if_pos hn, hn]
  rw [if_neg hn]
  rcases hcases with rfl | rfl | rfl
  · rw [zero_pow hn, zero_pow (by omega)]
  · rw [one_pow, one_pow]
  · rcases Nat.even_or_odd n with heven | hodd
    · rw [heven.neg_one_pow, Nat.even_iff.1 heven]
      rfl
    · rw [hodd.neg_one_pow, Nat.odd_iff.1 hodd]
      rfl

/-- The powers of all other numbers are too large from the sixty-fourth on. -/
theorem not_fits_pow {a : Int} (ha : ¬a.natAbs ≤ 1) {n : Nat} (hn : 64 ≤ n) : ¬Fits (a ^ n) := by
  have hlarge : 2 ^ 64 ≤ (a ^ n).natAbs := by
    rw [Int.natAbs_pow]
    calc 2 ^ 64 ≤ a.natAbs ^ 64 := Nat.pow_le_pow_left (by omega) 64
      _ ≤ a.natAbs ^ n := Nat.pow_le_pow_right (by omega) hn
  rw [fits_iff]
  omega

theorem exactPower_eq (a : Int) (n : Nat) : exactPower a n = Decimal.fit? (a ^ n) := by
  unfold exactPower
  split
  · next ha => exact congrArg Decimal.fit? (pow_of_natAbs_le_one ha n)
  · next ha =>
    split
    · next hn => rw [fit?_of_not_fits (not_fits_pow ha hn)]
    · rfl

/-- Beyond 32 bits of exponent only zero and one have powers. -/
theorem intPower_eq {a b : Int64} (h : ¬(a.toInt = -1 ∧ 2 ^ 32 ≤ b.toInt)) :
    intPower a b = Decimal.fit? (a.toInt ^ b.toInt.toNat) := by
  unfold intPower
  split
  · exact exactPower_eq _ _
  · next hlarge =>
    have hexponent : b.toInt.toNat ≠ 0 := by omega
    split
    · next hbase =>
      rcases Bool.or_eq_true_iff.1 hbase with hzero | hone
      · have ha : a.toInt = 0 := congrArg Int64.toInt (of_decide_eq_true hzero)
        rw [ha, zero_pow hexponent, ← ha, fit?_toInt]
      · have ha : a.toInt = 1 := congrArg Int64.toInt (of_decide_eq_true hone)
        rw [ha, one_pow, ← ha, fit?_toInt]
    · next hbase =>
      have hzero : a.toInt ≠ 0 := fun ha => hbase (by rw [Int64.toInt_inj.1 (ha.trans Int64.toInt_zero.symm)]; rfl)
      have hone : a.toInt ≠ 1 := fun ha => hbase (by rw [Int64.toInt_inj.1 (ha.trans Int64.toInt_one.symm)]; rfl)
      have hminus : a.toInt ≠ -1 := fun ha => h ⟨ha, by omega⟩
      rw [fit?_of_not_fits (not_fits_pow (by omega) (by omega))]

/-- Minus one is taken for a base whose powers grow. -/
theorem intPower_minus_one {a b : Int64} (ha : a.toInt = -1) (hb : 2 ^ 32 ≤ b.toInt) : intPower a b = none := by
  obtain rfl : a = -1 := Int64.toInt_inj.1 ha
  rw [intPower, if_neg (by omega), if_neg (by decide)]

theorem fits_minus_one_pow (n : Nat) : Fits ((-1) ^ n) := by
  rw [fits_iff]
  rcases neg_one_pow_eq_or Int n with h | h <;> rw [h] <;> decide

theorem apply_power (s : Store) (a : Int64) {b : Int64} (hb : 0 ≤ b.toInt) :
    BinaryOp.apply s (.compute .power) (.int a) (.int b) = checked "**" (intPower a b) := by
  have hsign : ¬b < 0 := by
    rw [Int64.lt_iff_toInt_lt, Int64.toInt_zero]
    omega
  exact if_neg hsign

/-- Powers to exponents that are not negative are exact, or an overflow if they do not fit, in all cases but
one: minus one to an exponent of more than 32 bits. -/
theorem power_is_exact_iff (s : Store) (a b : Int64) (hb : 0 ≤ b.toInt) :
    Exact "**" (a.toInt ^ b.toInt.toNat) (BinaryOp.apply s (.compute .power) (.int a) (.int b)) ↔
      ¬(a.toInt = -1 ∧ 2 ^ 32 ≤ b.toInt) := by
  rw [apply_power s a hb]
  constructor
  · rintro hexact ⟨ha, hlarge⟩
    obtain ⟨v, -, hok⟩ := hexact.result (ha ▸ fits_minus_one_pow _)
    rw [intPower_minus_one ha hlarge] at hok
    cases hok
  · intro h
    rw [intPower_eq h]
    exact checked_exact _ _

/-- The largest exponent that minus one can be raised to. -/
theorem power_is_exact_iff_minus_one :
    0 ≤ (4294967295 : Int64).toInt ∧
      Exact "**" ((-1) ^ 4294967295) (BinaryOp.apply {} (.compute .power) (.int (-1)) (.int 4294967295)) :=
  have hb : 0 ≤ (4294967295 : Int64).toInt := by decide
  ⟨hb, (power_is_exact_iff {} (-1) 4294967295 hb).2 (by decide)⟩

/-- The power of minus one to the next exponent is one, and yet it overflows. -/
theorem minus_one_to_large_power_overflows :
    ((-1 : Int64).toInt ^ (4294967296 : Int64).toInt.toNat = 1 ∧ Fits 1) ∧
      BinaryOp.apply {} (.compute .power) (.int (-1)) (.int 4294967296) = .error (.integerOverflow "**") := by
  refine ⟨⟨?_, by rw [fits_iff]; decide⟩, ?_⟩
  · have heven : Even (4294967296 : Int64).toInt.toNat := Nat.even_iff.2 (by decide)
    exact heven.neg_one_pow
  · rw [apply_power {} (-1) (by decide), intPower_minus_one (by decide) (by decide), checked]

end Scriptlet
