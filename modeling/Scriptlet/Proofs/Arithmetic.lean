import Mathlib.Algebra.Order.Ring.Int
import Mathlib.Algebra.Order.Monoid.NatCast
import Scriptlet.Proofs.NormalForm

/-! The operators on integers. Sums, differences, products and negations are exact or an overflow, division
is exact or falls back on floats, remainders take the sign of the dividend, and shifts work on 64 bits and
take their amount modulo 64. Where folding computes an operator, it agrees with all this. -/
namespace Scriptlet

theorem fits_iff {n : Int} : Fits n ↔ -2 ^ 63 ≤ n ∧ n < 2 ^ 63 := by
  rw [Fits, Decimal.minInt, Decimal.maxInt]
  omega

theorem fits_toInt (a : Int64) : Fits a.toInt := fits_iff.2 ⟨Int64.le_toInt a, Int64.toInt_lt a⟩

theorem Fits.toInt_ofInt {n : Int} (h : Fits n) : (Int64.ofInt n).toInt = n :=
  Int64.toInt_ofInt_of_le (fits_iff.1 h).1 (fits_iff.1 h).2

theorem fit?_of_fits {n : Int} (h : Fits n) : Decimal.fit? n = some (Int64.ofInt n) :=
  if_pos (by simpa [Fits] using h)

theorem fit?_of_not_fits {n : Int} (h : ¬Fits n) : Decimal.fit? n = none :=
  if_neg (by simpa [Fits] using h)

/-- The operator yields the number if it fits, and is an overflow if it does not. -/
structure Exact (operator : String) (n : Int) (outcome : Except RuntimeCause Value) : Prop where
  result : Fits n → ∃ v : Int64, v.toInt = n ∧ outcome = .ok (.int v)
  overflow : ¬Fits n → outcome = .error (.integerOverflow operator)

theorem checked_exact (operator : String) (n : Int) :
    Exact operator n (checked operator (Decimal.fit? n)) where
  result h := ⟨Int64.ofInt n, h.toInt_ofInt, by rw [fit?_of_fits h, checked]⟩
  overflow h := by rw [fit?_of_not_fits h, checked]

/-- What comes of a division by a number other than zero: the integer quotient if there is one, an overflow
if only its size is in the way, and a float otherwise. -/
structure Divided (a b : Int64) (outcome : Except RuntimeCause Value) : Prop where
  quotient_iff : (∃ q : Int64, outcome = .ok (.int q)) ↔ b.toInt ∣ a.toInt ∧ Fits (a.toInt / b.toInt)
  quotient : ∀ q : Int64, outcome = .ok (.int q) → q.toInt * b.toInt = a.toInt
  overflow_iff : outcome = .error (.integerOverflow "/") ↔ a.toInt = -2 ^ 63 ∧ b.toInt = -1
  otherwise : ¬(b.toInt ∣ a.toInt ∧ Fits (a.toInt / b.toInt)) → ¬(a.toInt = -2 ^ 63 ∧ b.toInt = -1) →
    outcome = .ok (.float (nearestFloat a / nearestFloat b))

/-- A quotient of two integers of the language is too large only where the least one changes its sign. -/
theorem not_fits_div_iff {a b : Int64} (hb : b.toInt ≠ 0) (hdvd : b.toInt ∣ a.toInt) :
    ¬Fits (a.toInt / b.toInt) ↔ a.toInt = -2 ^ 63 ∧ b.toInt = -1 := by
  obtain ⟨q, hq⟩ := hdvd
  obtain ⟨hl, hu⟩ := fits_iff.1 (fits_toInt a)
  rw [hq, Int.mul_ediv_cancel_left q hb, ← hq, fits_iff]
  constructor
  · intro hlarge
    have hle : q.natAbs ≤ a.toInt.natAbs := by
      rw [hq, Int.natAbs_mul]
      exact Nat.le_mul_of_pos_left _ (Int.natAbs_pos.2 hb)
    have hmost : q = 2 ^ 63 := by omega
    rw [hmost] at hq
    omega
  · rintro ⟨ha, hb⟩
    rw [ha, hb] at hq
    omega

theorem toInt_ne_zero {b : Int64} (hb : b ≠ 0) : b.toInt ≠ 0 := fun h => hb (Int64.toInt_inj.1 h)

theorem intQuotient_divided (a : Int64) {b : Int64} (hb : b ≠ 0) : Divided a b (intQuotient a b) := by
  rw [intQuotient, if_neg hb]
  by_cases hdvd : b.toInt ∣ a.toInt
  · have hlarge := not_fits_div_iff (toInt_ne_zero hb) hdvd
    rw [if_pos (Int.tmod_eq_zero_of_dvd hdvd), Int.tdiv_eq_ediv_of_dvd hdvd]
    by_cases hfits : Fits (a.toInt / b.toInt)
    · obtain ⟨q, hq, hok⟩ := (checked_exact "/" _).result hfits
      have hleast : ¬(a.toInt = -2 ^ 63 ∧ b.toInt = -1) := fun h => hlarge.2 h hfits
      rw [hok]
      refine ⟨by simp [hdvd, hfits], fun q' hq' => ?_, by simpa using hleast, fun h => (h ⟨hdvd, hfits⟩).elim⟩
      cases hq'
      rw [hq, Int.ediv_mul_cancel hdvd]
    · rw [(checked_exact "/" _).overflow hfits]
      refine ⟨by simp [hfits], fun q hq => ?_, by simpa using hlarge.1 hfits,
        fun _ h => (h (hlarge.1 hfits)).elim⟩
      cases hq
  · have hleast : ¬(a.toInt = -2 ^ 63 ∧ b.toInt = -1) := by
      rintro ⟨-, hone⟩
      exact hdvd (hone ▸ Int.neg_dvd.2 (Int.one_dvd _))
    rw [if_neg fun h => hdvd (Int.dvd_of_tmod_eq_zero h)]
    refine ⟨by simp [hdvd], fun q hq => ?_, by simpa using hleast, fun _ _ => rfl⟩
    cases hq

/-- The rest of a division: smaller than the divisor, and on the side of the dividend. -/
structure Rest (a b r : Int64) : Prop where
  smaller : r.toInt.natAbs < b.toInt.natAbs
  side : r.toInt = 0 ∨ r.toInt.sign = a.toInt.sign
  divides : b.toInt ∣ a.toInt - r.toInt

theorem natAbs_tmod_lt (a : Int64) {b : Int64} (hb : b ≠ 0) :
    (a.toInt.tmod b.toInt).natAbs < b.toInt.natAbs := by
  rw [Int.natAbs_tmod]
  exact Nat.mod_lt _ (Int.natAbs_pos.2 (toInt_ne_zero hb))

theorem fits_tmod (a : Int64) {b : Int64} (hb : b ≠ 0) : Fits (a.toInt.tmod b.toInt) := by
  have hlt := natAbs_tmod_lt a hb
  obtain ⟨hl, hu⟩ := fits_iff.1 (fits_toInt b)
  rw [fits_iff]
  omega

theorem rest_tmod (a : Int64) {b : Int64} (hb : b ≠ 0) :
    Rest a b (Int64.ofInt (a.toInt.tmod b.toInt)) := by
  have hr := (fits_tmod a hb).toInt_ofInt
  constructor
  · rw [hr]
    exact natAbs_tmod_lt a hb
  · rw [hr]
    by_cases hdvd : b.toInt ∣ a.toInt
    · exact .inl (Int.tmod_eq_zero_of_dvd hdvd)
    · exact .inr (by rw [Int.sign_tmod, if_neg hdvd])
  · rw [hr]
    exact Int.dvd_self_sub_tmod

def places (b : Int64) : Nat := (b.toInt % 64).toNat

theorem toNat_smod_places (b : Int64) : (b.toBitVec.smod 64).toNat = places b := by
  have hsmod : (b.toBitVec.smod 64).toInt = b.toInt % 64 := by
    rw [BitVec.toInt_smod, Int64.toInt_toBitVec]
    exact Int.fmod_eq_emod_of_nonneg _ (by decide)
  rw [places, ← hsmod]
  rw [BitVec.toInt_eq_toNat_cond] at hsmod ⊢
  split at hsmod <;> omega

theorem natCast_toUInt64 (a : Int64) : (a.toUInt64.toNat : Int) = a.toInt % 2 ^ 64 := by
  have hlt := a.toBitVec.isLt
  rw [← Int64.toNat_toBitVec, ← Int64.toInt_toBitVec, BitVec.toInt_eq_toNat_cond]
  split <;> omega

theorem toUInt64_places (b : Int64) : b.toUInt64.toNat % 64 = places b := by
  have hb := natCast_toUInt64 b
  rw [places]
  omega

theorem toInt_shiftLeft (a b : Int64) : (a <<< b).toInt = (a.toInt * 2 ^ places b).bmod (2 ^ 64) := by
  rw [← Int64.toInt_toBitVec, Int64.toBitVec_shiftLeft, BitVec.shiftLeft_eq', toNat_smod_places,
    BitVec.toInt_shiftLeft, Nat.shiftLeft_eq, Int.natCast_mul, ← Int64.toInt_toBitVec a,
    BitVec.toInt_eq_toNat_bmod a.toBitVec, Int.bmod_mul_bmod, Int.natCast_pow]
  rfl

theorem toInt_shiftRight (a b : Int64) : (a >>> b).toInt = a.toInt / 2 ^ places b := by
  rw [← Int64.toInt_toBitVec, Int64.toBitVec_shiftRight, BitVec.sshiftRight_eq', toNat_smod_places,
    BitVec.toInt_sshiftRight, Int.shiftRight_eq_div_pow, Int64.toInt_toBitVec, Int.natCast_pow]
  rfl

theorem toInt_unsignedShiftRight (a b : Int64) : (a.toUInt64 >>> b.toUInt64).toInt64.toInt =
    (a.toInt % 2 ^ 64 / 2 ^ places b).bmod (2 ^ 64) := by
  have hbits : (a.toUInt64 >>> b.toUInt64).toInt64.toBitVec.toNat = a.toUInt64.toNat >>> places b := by
    rw [← toUInt64_places, ← UInt64.toNat_shiftRight]
    rfl
  rw [← Int64.toInt_toBitVec, BitVec.toInt_eq_toNat_bmod, hbits, Nat.shiftRight_eq_div_pow,
    Int.natCast_ediv, natCast_toUInt64, Int.natCast_pow]
  rfl

/-- The literal that an operator on two integers is folded into is what the operator yields. -/
theorem apply_of_optimize_eq {op : BinaryOp} {left right : Expr} {a b : Int64} {sa sb sp at_ : Span}
    {value : Literal} {found : Findings} (hleft : (left.optimize.run found).1 = .literal (.int a) sa)
    (hright : (right.optimize.run found).1 = .literal (.int b) sb)
    (h : ((Expr.binary op left right sp).optimize.run found).1 = .literal value at_) (s : Store) :
    ∃ v, value = .int v ∧ op.apply s (.int a) (.int b) = .ok (.int v) := by
  rw [Expr.optimize_fst] at hleft hright h
  rw [Expr.fold, hleft, hright, Expr.foldedBinary, foldOperands] at h
  cases hv : foldInts op a b with
  | none =>
    rw [hv] at h
    cases h
  | some v =>
    rw [hv] at h
    cases h
    obtain ⟨o, rfl, happly⟩ := foldInts_apply hv
    exact ⟨v, rfl, happly s⟩

/-- All integer operators compute the numbers they stand for, up to the size of an integer. -/
theorem integer_operators_are_exact (s : Store) (a b : Int64) :
    Exact "+" (a.toInt + b.toInt) (BinaryOp.apply s (.compute .add) (.int a) (.int b)) ∧
    Exact "-" (a.toInt - b.toInt) (BinaryOp.apply s (.compute .subtract) (.int a) (.int b)) ∧
    Exact "*" (a.toInt * b.toInt) (BinaryOp.apply s (.compute .multiply) (.int a) (.int b)) ∧
    Exact "-" (-a.toInt) (UnaryOp.apply .negate (.int a)) ∧
    (b = 0 → BinaryOp.apply s (.compute .divide) (.int a) (.int b) = .ok .undefined ∧
      BinaryOp.apply s (.compute .remainder) (.int a) (.int b) = .ok .undefined) ∧
    (b ≠ 0 → Divided a b (BinaryOp.apply s (.compute .divide) (.int a) (.int b)) ∧
      ∃ r, Rest a b r ∧ BinaryOp.apply s (.compute .remainder) (.int a) (.int b) = .ok (.int r)) ∧
    (∃ v, v.toInt = (a.toInt * 2 ^ places b).bmod (2 ^ 64) ∧
      BinaryOp.apply s (.compute .shiftLeft) (.int a) (.int b) = .ok (.int v)) ∧
    (∃ v, v.toInt = a.toInt / 2 ^ places b ∧
      BinaryOp.apply s (.compute .shiftRight) (.int a) (.int b) = .ok (.int v)) ∧
    (∃ v, v.toInt = (a.toInt % 2 ^ 64 / 2 ^ places b).bmod (2 ^ 64) ∧
      BinaryOp.apply s (.compute .unsignedShiftRight) (.int a) (.int b) = .ok (.int v)) ∧
    ∀ (op : BinaryOp) (left right : Expr) (sa sb sp at_ : Span) (value : Literal) (found : Findings),
      (left.optimize.run found).1 = .literal (.int a) sa → (right.optimize.run found).1 = .literal (.int b) sb →
      ((Expr.binary op left right sp).optimize.run found).1 = .literal value at_ →
      ∃ v, value = .int v ∧ op.apply s (.int a) (.int b) = .ok (.int v) := by
  refine ⟨checked_exact _ _, checked_exact _ _, checked_exact _ _, checked_exact _ _, ?_, ?_, ?_, ?_, ?_, ?_⟩
  · intro hb
    exact ⟨if_pos hb, if_pos hb⟩
  · intro hb
    exact ⟨intQuotient_divided a hb, _, rest_tmod a hb, if_neg hb⟩
  · exact ⟨_, toInt_shiftLeft a b, rfl⟩
  · exact ⟨_, toInt_shiftRight a b, rfl⟩
  · exact ⟨_, toInt_unsignedShiftRight a b, rfl⟩
  · intro op left right sa sb sp at_ value found hleft hright h
    exact apply_of_optimize_eq hleft hright h s

end Scriptlet
