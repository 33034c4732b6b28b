import Scriptlet.Decimal.Reading
import Scriptlet.Proofs.Decimal.Packing

/-! Decimal numbers read as doubles. -/
namespace Scriptlet.Decimal

open Float.Model Float.Model.UnpackedFloat

namespace Binary

variable {b : Binary} {x : ℚ}

/-- A double stands between the ends of what it attracts. -/
theorem Proper.between (hb : b.Proper) :
    lower b * (2 : ℚ) ^ (b.exponent - 2) < b.mantissa * 2 ^ b.exponent ∧
      b.mantissa * 2 ^ b.exponent < upper b * (2 : ℚ) ^ (b.exponent - 2) := by
  have hpos := hb.pos
  have hunit : (0 : ℚ) < 2 ^ b.exponent := by positivity
  have hlower : (lower b : ℚ) < 4 * b.mantissa := by
    have : lower b < 4 * b.mantissa := by
      unfold lower
      split <;> omega
    exact_mod_cast this
  rw [quarter, upper_cast]
  constructor <;> nlinarith

/-- A double attracts itself. -/
theorem Proper.attracts_self (hb : b.Proper) : b.Attracts (b.mantissa * 2 ^ b.exponent) :=
  ⟨hb.between.1.le, hb.between.2.le, fun _ => hb.between⟩

/-- What is attracted is neither too small nor too large. -/
theorem Attracts.bounds (h : b.Attracts x) (hb : b.Proper) : (2 : ℚ) ^ (-1075 : ℤ) ≤ x ∧ x < 2 ^ (1024 : ℤ) := by
  obtain ⟨hl, hu, -⟩ := h.half hb
  have hpos : (1 : ℚ) ≤ b.mantissa := by exact_mod_cast hb.pos
  have hlt : (b.mantissa : ℚ) + 1 ≤ 2 ^ 53 := by exact_mod_cast hb.mantissa
  have hleast : (2 : ℚ) ^ (-1074 : ℤ) ≤ 2 ^ b.exponent := zpow_le_zpow_right₀ one_le_two hb.least
  have hgreatest : (2 : ℚ) ^ b.exponent ≤ 2 ^ (971 : ℤ) := zpow_le_zpow_right₀ one_le_two hb.greatest
  have hsmall : (2 : ℚ) ^ (-1075 : ℤ) = 2 ^ (-1074 : ℤ) / 2 := by
    rw [div_eq_mul_inv]
    exact zpow_sub_one₀ (a := (2 : ℚ)) two_ne_zero (-1074)
  have hlarge : (2 : ℚ) ^ (1024 : ℤ) = 2 ^ 53 * 2 ^ (971 : ℤ) :=
    zpow_add₀ (a := (2 : ℚ)) two_ne_zero 53 971
  have hunit : (0 : ℚ) < 2 ^ b.exponent := by positivity
  rw [hsmall, hlarge]
  -- powers this large are better not computed
  generalize (2 : ℚ) ^ (-1074 : ℤ) = least at hleast ⊢
  generalize (2 : ℚ) ^ (971 : ℤ) = greatest at hgreatest ⊢
  generalize (2 : ℚ) ^ 53 = limit at hlt ⊢
  constructor
  · nlinarith
  · nlinarith

/-- Zero is not attracted. -/
theorem Attracts.digits_pos {m : ℕ} {e : ℤ} (h : b.Attracts (m * 10 ^ e)) (hb : b.Proper) : 0 < m := by
  refine Nat.pos_of_ne_zero fun hzero => ?_
  have hleast := (h.bounds hb).1
  rw [hzero, Nat.cast_zero, zero_mul] at hleast
  exact absurd hleast (not_le.2 (by positivity))

end Binary

def Binary.ofNat (n : ℕ) : Binary :=
  ⟨n * 2 ^ 52 / 2 ^ n.log2, n.log2 - 52, n * 2 ^ 52 / 2 ^ n.log2 = 2 ^ 52⟩

section OfNat

variable {n : ℕ}

theorem Binary.ofNat_full (hn : 0 < n) : 2 ^ 52 ≤ (ofNat n).mantissa ∧ (ofNat n).mantissa < 2 ^ 53 := by
  have hl := Nat.log2_self_le hn.ne'
  have hu := Nat.lt_log2_self (n := n)
  have hpos := Nat.two_pow_pos n.log2
  constructor
  · refine (Nat.le_div_iff_mul_le hpos).2 ?_
    rw [Nat.mul_comm]
    exact Nat.mul_le_mul_right _ hl
  · refine (Nat.div_lt_iff_lt_mul hpos).2 ?_
    rw [pow_succ] at hu
    omega

theorem Binary.ofNat_proper (hn : 0 < n) (hlog : n.log2 ≤ 1023) : (ofNat n).Proper where
  pos := lt_of_lt_of_le (by norm_num) (ofNat_full hn).1
  mantissa := (ofNat_full hn).2
  least := by
    simp only [ofNat]
    omega
  greatest := by
    simp only [ofNat]
    omega
  full := .inl (ofNat_full hn).1
  lowest := by
    simp only [ofNat, decide_eq_true_eq]
    omega

/-- Nothing is lost if the number ends in enough zero bits. -/
theorem Binary.ofNat_value (h : 2 ^ n.log2 ∣ n * 2 ^ 52) :
    ((ofNat n).mantissa : ℚ) * 2 ^ (ofNat n).exponent = n := by
  have hexact : ((ofNat n).mantissa : ℚ) * 2 ^ n.log2 = n * 2 ^ 52 := by
    exact_mod_cast Nat.div_mul_cancel h
  have hexponent : (ofNat n).exponent = n.log2 - (52 : ℕ) := rfl
  rw [hexponent, zpow_sub₀ two_ne_zero, zpow_natCast, zpow_natCast, ← mul_div_assoc, hexact]
  field_simp

theorem unpack_of_bits {x : Float} {b : Binary} (hb : b.Proper) (h : x.toBits.toNat = b.bits) :
    x.toModel.unpack = b.unsigned hb.pos := by
  have hx : x = Float.ofModel (Float.Model.pack (b.unsigned hb.pos)) := by
    refine float_ext (h.trans ?_)
    rw [← hb.pack_toNat]
    rfl
  rw [hx]
  exact hb.unpack_pack .positive

theorem log2_le_of_lt (h : n < 2 ^ 53) : n.log2 ≤ 52 := by
  rcases Nat.eq_zero_or_pos n with rfl | hpos
  · simp
  · exact Nat.lt_succ_iff.1 ((Nat.log2_lt hpos.ne').2 h)

theorem Binary.ofNat_attracts (h : 2 ^ n.log2 ∣ n * 2 ^ 52) (hb : (Binary.ofNat n).Proper) :
    (Binary.ofNat n).Attracts n := by
  have hself := hb.attracts_self
  rwa [Binary.ofNat_value h] at hself

/-- A whole number is rounded to the double that attracts it. -/
theorem round_whole (hn : 0 < n) {b : Binary} (hb : b.Proper) (hx : b.Attracts n) :
    UnpackedFloat.round Format.binary64 .positive n 0 = b.unsigned hb.pos := by
  -- short numbers get all the bits of a mantissa first
  obtain ⟨k, hk⟩ : ∃ k, k = 52 - n.log2 := ⟨_, rfl⟩
  have hround : UnpackedFloat.round Format.binary64 .positive n 0 =
      roundWithAccuracy Format.binary64 .positive (n <<< k) (-k) .exact := by
    have hshift : (-max ((n.log2 : ℤ) + 0 - 52) (-1074)).toNat = k := by omega
    simp only [UnpackedFloat.round, decreaseExponent, targetExponent_eq, zero_sub, hshift]
  have hshift : n <<< k = n * 2 ^ k := Nat.shiftLeft_eq n k
  rw [hround]
  refine roundWithAccuracy_eq hb hx ?_ (.inl ?_)
  · show _ = ((n <<< k : ℕ) : ℚ)
    rw [hshift, zpow_neg, zpow_natCast, div_inv_eq_mul]
    push_cast
    rfl
  · rw [Nat.le_log2 (by rw [hshift]; positivity), hshift]
    calc 2 ^ 52 ≤ 2 ^ (n.log2 + k) := Nat.pow_le_pow_right two_pos (by omega)
      _ = 2 ^ n.log2 * 2 ^ k := pow_add 2 _ _
      _ ≤ n * 2 ^ k := Nat.mul_le_mul_right _ (Nat.log2_self_le hn.ne')

/-- A whole number of 64 bits as a double. -/
theorem toFloat_eq (hn : 0 < n) (h : n < 2 ^ 64) {b : Binary} (hb : b.Proper) (hx : b.Attracts n) :
    n.toUInt64.toFloat = Float.ofModel (Float.Model.pack (b.unsigned hb.pos)) := by
  have hnat : n.toUInt64.toNat = n := by
    rw [Nat.toUInt64_eq, UInt64.toNat_ofNat']
    exact Nat.mod_eq_of_lt h
  have hround : UnpackedFloat.ofUInt64 Format.binary64 n.toUInt64 = b.unsigned hb.pos := by
    have hgt : compare (n : ℤ) 0 = .gt := compare_gt_iff_gt.2 (by exact_mod_cast hn)
    rw [UnpackedFloat.ofUInt64, hnat, UnpackedFloat.ofNat, UnpackedFloat.ofInt, UnpackedFloat.normalize, hgt]
    exact round_whole hn hb hx
  exact congrArg (fun f => Float.ofModel (Float.Model.pack f)) hround

theorem toFloat_unpack (hn : 0 < n) (h : n < 2 ^ 64) {b : Binary} (hb : b.Proper) (hx : b.Attracts n) :
    n.toUInt64.toFloat.toModel.unpack = b.unsigned hb.pos := by
  rw [toFloat_eq hn h hb hx]
  exact hb.unpack_pack .positive

end OfNat

theorem power_bits : ∀ e : Fin 23,
    (Float.exactlyRepresentablePowersOfTen.getD e 0).toBits.toNat = (Binary.ofNat (10 ^ e.val)).bits ∧
      2 ^ (10 ^ e.val).log2 ∣ 10 ^ e.val * 2 ^ 52 ∧ (10 ^ e.val).log2 ≤ 74 := by
  decide +kernel

theorem power_proper {e : ℕ} (he : e ≤ 22) : (Binary.ofNat (10 ^ e)).Proper :=
  Binary.ofNat_proper (by positivity) ((power_bits ⟨e, by omega⟩).2.2.trans (by norm_num))

theorem power_unpack {e : ℕ} (he : e ≤ 22) (hsize : e < Float.exactlyRepresentablePowersOfTen.size) :
    Float.exactlyRepresentablePowersOfTen[e].toModel.unpack =
      (Binary.ofNat (10 ^ e)).unsigned (power_proper he).pos := by
  refine unpack_of_bits (power_proper he) ?_
  have := (power_bits ⟨e, by omega⟩).1
  rwa [Array.getD_eq_getD_getElem?, Array.getElem?_eq_getElem hsize] at this

theorem power_value {e : ℕ} (he : e ≤ 22) :
    ((Binary.ofNat (10 ^ e)).mantissa : ℚ) * 2 ^ (Binary.ofNat (10 ^ e)).exponent = 10 ^ e := by
  rw [Binary.ofNat_value (power_bits ⟨e, by omega⟩).2.1]
  push_cast
  rfl

section Reading

variable {b : Binary} {m e : ℕ}

/-- Short numbers with small powers take one exact step and one rounding. -/
theorem ofScientific_short (hb : b.Proper) (hpos : 0 < m) (hm : m < 2 ^ 53) (he : e ≤ 22) {small : Bool}
    (hx : b.Attracts (m * 10 ^ (if small then Int.negOfNat e else Int.ofNat e))) :
    Float.ofScientific m small e = Float.ofModel (Float.Model.pack (b.unsigned hb.pos)) := by
  have hlog := log2_le_of_lt hm
  have hwhole := Binary.ofNat_proper hpos (hlog.trans (by norm_num))
  have hdvd : 2 ^ m.log2 ∣ m * 2 ^ 52 := Dvd.dvd.mul_left (pow_dvd_pow 2 hlog) m
  have hvalue := Binary.ofNat_value hdvd
  have hunpack := toFloat_unpack hpos (hm.trans (by norm_num)) hwhole (Binary.ofNat_attracts hdvd hwhole)
  have hpower := power_proper he
  have hsize : e < Float.exactlyRepresentablePowersOfTen.size := by
    simp only [Float.exactlyRepresentablePowersOfTen, List.size_toArray, List.length_cons, List.length_nil]
    omega
  rw [Float.ofScientific, dif_pos ⟨hm, he⟩]
  cases small with
  | true =>
    have hdiv : UnpackedFloat.div Format.binary64 m.toUInt64.toFloat.toModel.unpack
        Float.exactlyRepresentablePowersOfTen[e].toModel.unpack = b.unsigned hb.pos := by
      rw [hunpack, power_unpack he hsize]
      refine div_eq hb hwhole.pos hpower.pos ?_ ?_
      · rw [hvalue, power_value he, div_eq_mul_inv, ← zpow_natCast, ← zpow_neg]
        rwa [if_pos rfl, Int.negOfNat_eq] at hx
      · have hpower : (10 ^ e).log2 ≤ 74 := (power_bits ⟨e, by omega⟩).2.2
        simp only [Binary.ofNat]
        omega
    exact congrArg (fun f => Float.ofModel (Float.Model.pack f)) hdiv
  | false =>
    have hmul : UnpackedFloat.mul Format.binary64 m.toUInt64.toFloat.toModel.unpack
        Float.exactlyRepresentablePowersOfTen[e].toModel.unpack = b.unsigned hb.pos := by
      rw [hunpack, power_unpack he hsize]
      refine mul_eq hb hwhole.pos hpower.pos ?_ ?_
      · rw [hvalue, power_value he, ← zpow_natCast]
        exact hx
      · exact (Binary.ofNat_full hpos).1.trans (Nat.le_mul_of_pos_right _ hpower.pos)
    exact congrArg (fun f => Float.ofModel (Float.Model.pack f)) hmul

/-- Other numbers are rounded once, unless the power is out of all reach. -/
theorem ofScientific_long (hb : b.Proper) (hpos : 0 < m) {e : ℤ} (hx : b.Attracts (m * 10 ^ e))
    (hlow : -(2048 + m.log2) ≤ e) (hhigh : e ≤ 2048) :
    UnpackedFloat.ofScientific Format.binary64 m e = b.unsigned hb.pos := by
  have hrange : (2 : ℤ) ^ Format.binary64.exponentBits = 2048 := by norm_num [Format.exponentBits]
  rw [UnpackedFloat.ofScientific, dif_neg hpos.ne', hrange, if_neg (by omega), if_neg (by omega)]
  by_cases he : 0 ≤ e
  · rw [if_pos he]
    obtain ⟨n, rfl⟩ := Int.eq_ofNat_of_zero_le he
    refine mul_eq hb _ _ ?_ ?_
    · have hvalue : ((m <<< Format.binary64.mantissaBits : ℕ) : ℚ) *
          2 ^ (-(Format.binary64.mantissaBits : ℤ)) = m := by
        rw [Nat.shiftLeft_eq, zpow_neg, zpow_natCast]
        push_cast
        field_simp
      rw [hvalue, zpow_zero, mul_one]
      rw [zpow_natCast] at hx
      exact_mod_cast hx
    · rw [Nat.shiftLeft_eq]
      have : 2 ^ 52 ≤ 2 ^ Format.binary64.mantissaBits := Nat.pow_le_pow_right two_pos (by decide)
      calc 2 ^ 52 ≤ 2 ^ Format.binary64.mantissaBits := this
        _ ≤ m * 2 ^ Format.binary64.mantissaBits := Nat.le_mul_of_pos_left _ hpos
        _ ≤ _ := Nat.le_mul_of_pos_right _ (by positivity)
  · rw [if_neg he]
    obtain ⟨n, rfl⟩ := Int.exists_eq_neg_ofNat (Int.le_of_lt (Int.not_le.1 he))
    refine div_eq hb _ _ ?_ (by norm_num)
    rw [zpow_neg, zpow_natCast, ← div_eq_mul_inv] at hx
    rw [zpow_zero, mul_one, mul_one, neg_neg]
    exact_mod_cast hx

theorem ofScientific_eq (hb : b.Proper) (hpos : 0 < m) {small : Bool}
    (hx : b.Attracts (m * 10 ^ (if small then Int.negOfNat e else Int.ofNat e)))
    (hsmall : small = true → e ≤ 2048 + m.log2) (hlarge : small = false → e ≤ 2048) :
    Float.ofScientific m small e = Float.ofModel (Float.Model.pack (b.unsigned hb.pos)) := by
  by_cases hshort : m < 2 ^ 53 ∧ e ≤ 22
  · exact ofScientific_short hb hpos hshort.1 hshort.2 hx
  · rw [Float.ofScientific, dif_neg hshort]
    refine congrArg (fun f => Float.ofModel (Float.Model.pack f)) (ofScientific_long hb hpos hx ?_ ?_)
    · cases small <;> simp_all [Int.negOfNat_eq] <;> omega
    · cases small <;> simp_all [Int.negOfNat_eq]

/-- The bits of a number bound its decimal digits from both sides. -/
theorem log2_digits (hpos : 0 < m) : (10 : ℚ) ^ (m.log2 / 4) ≤ m ∧ (m : ℚ) < 10 ^ (m.log2 / 3 + 1) := by
  have hl := Nat.log2_self_le hpos.ne'
  have hu := Nat.lt_log2_self (n := m)
  constructor
  · have : 10 ^ (m.log2 / 4) ≤ m := calc
      10 ^ (m.log2 / 4) ≤ (2 ^ 4) ^ (m.log2 / 4) := Nat.pow_le_pow_left (by norm_num) _
      _ = 2 ^ (4 * (m.log2 / 4)) := (pow_mul 2 4 _).symm
      _ ≤ 2 ^ m.log2 := Nat.pow_le_pow_right two_pos (Nat.mul_div_le _ _)
      _ ≤ m := hl
    exact_mod_cast this
  · have : m < 10 ^ (m.log2 / 3 + 1) := calc
      m < 2 ^ (m.log2 + 1) := hu
      _ ≤ 2 ^ (3 * (m.log2 / 3 + 1)) := Nat.pow_le_pow_right two_pos (by omega)
      _ = (2 ^ 3) ^ (m.log2 / 3 + 1) := pow_mul 2 3 _
      _ ≤ 10 ^ (m.log2 / 3 + 1) := Nat.pow_le_pow_left (by norm_num) _
    exact_mod_cast this

theorem tenth_power_lt : (10 : ℚ) ^ (-331 : ℤ) < 2 ^ (-1075 : ℤ) := by
  have : 2 ^ 1075 < 10 ^ 331 := calc
    2 ^ 1075 = (2 ^ 215) ^ 5 := by rw [← pow_mul]
    _ < (10 ^ 65) ^ 5 := pow_lt_pow_left₀ (by norm_num) (by norm_num) (by norm_num)
    _ = 10 ^ 325 := by rw [← pow_mul]
    _ < 10 ^ 331 := pow_lt_pow_right₀ (by norm_num) (by norm_num)
  rw [zpow_neg, zpow_neg]
  exact inv_strictAnti₀ (by positivity) (by exact_mod_cast this)

theorem power_lt_tenth_power : (2 : ℚ) ^ (1024 : ℤ) < 10 ^ (311 : ℤ) := by
  have : 2 ^ 1024 < 10 ^ 311 := calc
    2 ^ 1024 < 2 ^ 1025 := pow_lt_pow_right₀ (by norm_num) (by norm_num)
    _ = (2 ^ 205) ^ 5 := by rw [← pow_mul]
    _ < (10 ^ 62) ^ 5 := pow_lt_pow_left₀ (by norm_num) (by norm_num) (by norm_num)
    _ = 10 ^ 310 := by rw [← pow_mul]
    _ < 10 ^ 311 := pow_lt_pow_right₀ (by norm_num) (by norm_num)
  exact_mod_cast this

/-- A decimal number is read as the double that attracts it. -/
theorem nearest_eq (hb : b.Proper) {e : ℤ} (hx : b.Attracts (m * 10 ^ e)) :
    nearest m e = Float.ofModel (Float.Model.pack (b.unsigned hb.pos)) := by
  obtain ⟨hleast, hgreatest⟩ := hx.bounds hb
  have hten : (0 : ℚ) < 10 ^ e := by positivity
  have hpos := hx.digits_pos hb
  obtain ⟨hl, hu⟩ := log2_digits hpos
  have hlow : -330 ≤ (m.log2 / 3 : ℕ) + 1 + e := by
    by_contra hlt
    have : (m : ℚ) * 10 ^ e < 2 ^ (-1075 : ℤ) := calc
      (m : ℚ) * 10 ^ e < 10 ^ (m.log2 / 3 + 1) * 10 ^ e := mul_lt_mul_of_pos_right hu hten
      _ = 10 ^ (((m.log2 / 3 + 1 : ℕ) : ℤ) + e) := by rw [zpow_add₀ (by norm_num), zpow_natCast]
      _ ≤ 10 ^ (-331 : ℤ) := zpow_le_zpow_right₀ (by norm_num) (by push_cast at hlt ⊢; omega)
      _ < 2 ^ (-1075 : ℤ) := tenth_power_lt
    exact absurd hleast (not_le.2 this)
  have hhigh : (m.log2 / 4 : ℕ) + e ≤ 310 := by
    by_contra hlt
    have : (2 : ℚ) ^ (1024 : ℤ) < m * 10 ^ e := calc
      (2 : ℚ) ^ (1024 : ℤ) < 10 ^ (311 : ℤ) := power_lt_tenth_power
      _ ≤ 10 ^ (((m.log2 / 4 : ℕ) : ℤ) + e) := zpow_le_zpow_right₀ (by norm_num) (by omega)
      _ = 10 ^ (m.log2 / 4) * 10 ^ e := by rw [zpow_add₀ (by norm_num), zpow_natCast]
      _ ≤ m * 10 ^ e := mul_le_mul_of_nonneg_right hl hten.le
    exact absurd hgreatest (not_lt.2 this.le)
  have hzero : ¬ (decide (m = 0) || decide ((m.log2 / 3 : ℕ) + 1 + e < -330)) = true := by
    simp only [Bool.or_eq_true, decide_eq_true_eq]
    omega
  rw [nearest, if_neg hzero, if_neg (by omega)]
  split
  case isTrue he =>
    obtain ⟨n, rfl⟩ := Int.eq_ofNat_of_zero_le he
    refine ofScientific_eq hb hpos hx ?_ ?_ <;> omega
  case isFalse he =>
    obtain ⟨n, rfl⟩ := Int.exists_eq_neg_ofNat (Int.le_of_lt (Int.not_le.1 he))
    rw [neg_neg]
    refine ofScientific_eq hb hpos ?_ ?_ ?_
    · rw [if_pos rfl, Int.negOfNat_eq]
      exact hx
    · simp only [Int.toNat_natCast]
      omega
    · simp

end Reading

/-- A double that measures an amount, which is neither negative nor undefined. -/
def IsAmount : UnpackedFloat → Prop
  | .notANumber => False
  | .infinity sign => sign = .positive
  | .zero sign => sign = .positive
  | .finite sign _ _ _ => sign = .positive

/-- The bits of the infinite number, which are larger than those of all other amounts. -/
def infiniteBits : ℕ := 0x7ff0000000000000

section Amount

variable {f : UnpackedFloat}

theorem IsAmount.ite {p : Prop} [Decidable p] {g : UnpackedFloat} (hf : p → IsAmount f)
    (hg : ¬p → IsAmount g) : IsAmount (if p then f else g) := by
  split
  · next h => exact hf h
  · next h => exact hg h

theorem IsAmount.dite {p : Prop} [Decidable p] {f : p → UnpackedFloat} {g : ¬p → UnpackedFloat}
    (hf : ∀ h, IsAmount (f h)) (hg : ∀ h, IsAmount (g h)) : IsAmount (if h : p then f h else g h) := by
  split
  · exact hf _
  · exact hg _

theorem packComponents_le {exponent : BitVec 11} {mantissa : BitVec 52}
    (h : exponent.toNat < 2047 ∨ exponent.toNat = 2047 ∧ mantissa.toNat = 0) :
    (packComponents Format.binary64 .positive exponent mantissa).toNat ≤ infiniteBits := by
  have hsign : Sign.positive.toBitVec.toNat = 0 := rfl
  have hmantissa := mantissa.isLt
  rw [packComponents_toNat, hsign, infiniteBits]
  omega

theorem packedInfinity_le : (packedInfinity Format.binary64 .positive).toNat ≤ infiniteBits :=
  packComponents_le (.inr ⟨rfl, rfl⟩)

theorem IsAmount.pack (h : IsAmount f) : (UnpackedFloat.pack Format.binary64 f).toNat ≤ infiniteBits := by
  cases f with
  | notANumber => exact h.elim
  | infinity sign =>
    cases h
    exact packedInfinity_le
  | zero sign =>
    cases h
    exact packComponents_le (.inl (by decide))
  | finite sign m e hm =>
    cases h
    unfold UnpackedFloat.pack
    dsimp only
    split
    · exact packedInfinity_le
    · next hexponent =>
      split
      · refine packComponents_le (.inl ?_)
        rw [BitVec.toNat_ofNat, Nat.mod_eq_of_lt (by omega)]
        omega
      · exact packComponents_le (.inl (by decide))

theorem isAmount_unpack {x : Float} (h : x.toBits.toNat ≤ infiniteBits) : IsAmount x.toModel.unpack := by
  rw [infiniteBits] at h
  have hsign : @unpackSign Format.binary64 x.toModel.toBits.toBitVec = 0#1 := by
    refine BitVec.eq_of_toNat_eq ?_
    rw [unpackSign_toNat, Nat.div_eq_of_lt (by omega)]
    rfl
  have hpositive : Sign.ofBitVec 0#1 = .positive := rfl
  unfold Float.Model.unpack UnpackedFloat.unpack
  dsimp only
  rw [hsign, hpositive]
  refine .ite (fun hones => .ite (fun _ => rfl) fun hmantissa => ?_) fun _ =>
    .ite (fun _ => .dite (fun _ => rfl) fun _ => rfl) fun _ => rfl
  -- the bits would be larger than those of the infinite number
  have hexponent := congrArg BitVec.toNat hones
  have hall : (-1#11).toNat = 2047 := rfl
  rw [unpackExponent_toNat, hall] at hexponent
  refine absurd (BitVec.eq_of_toNat_eq ?_) hmantissa
  rw [unpackMantissa_toNat, BitVec.toNat_zero]
  omega

theorem isAmount_roundWithAccuracy (m : ℕ) (e : ℤ) (accuracy : Accuracy) :
    IsAmount (roundWithAccuracy Format.binary64 .positive m e accuracy) := by
  unfold roundWithAccuracy
  exact .dite (fun _ => rfl) fun _ => rfl

/-- An amount times a finite one. -/
theorem IsAmount.mul (h : IsAmount f) {m : ℕ} {e : ℤ} (hm : 0 < m) :
    IsAmount (UnpackedFloat.mul Format.binary64 f (.finite .positive m e hm)) := by
  cases f <;> cases h <;> first | exact isAmount_roundWithAccuracy _ _ _ | rfl

theorem IsAmount.div (h : IsAmount f) {m : ℕ} {e : ℤ} (hm : 0 < m) :
    IsAmount (UnpackedFloat.div Format.binary64 f (.finite .positive m e hm)) := by
  cases f <;> cases h <;> first | exact isAmount_roundWithAccuracy _ _ _ | rfl

theorem isAmount_ofUInt64 (n : UInt64) : IsAmount (UnpackedFloat.ofUInt64 Format.binary64 n) := by
  unfold UnpackedFloat.ofUInt64 UnpackedFloat.ofNat UnpackedFloat.ofInt UnpackedFloat.normalize
  split
  · next hlt => exact absurd (compare_lt_iff_lt.1 hlt) (by omega)
  · rfl
  · exact isAmount_roundWithAccuracy _ _ _

theorem isAmount_ofScientific (m : ℕ) (e : ℤ) : IsAmount (UnpackedFloat.ofScientific Format.binary64 m e) := by
  have hfinite {m : ℕ} {e : ℤ} (h : 0 < m) : IsAmount (.finite .positive m e h) := rfl
  unfold UnpackedFloat.ofScientific
  exact .dite (fun _ => rfl) fun _ => .ite (fun _ => rfl) fun _ => .ite (fun _ => rfl) fun _ =>
    .ite (fun _ => (hfinite _).mul _) fun _ => (hfinite _).div _

theorem ofScientific_le (m : ℕ) (small : Bool) (e : ℕ) :
    (Float.ofScientific m small e).toBits.toNat ≤ infiniteBits := by
  unfold Float.ofScientific
  split
  · next h =>
    have hwhole : IsAmount m.toUInt64.toFloat.toModel.unpack := isAmount_unpack (isAmount_ofUInt64 m.toUInt64).pack
    have hsize : e < Float.exactlyRepresentablePowersOfTen.size := Nat.lt_succ_of_le h.2
    have hpower := power_unpack h.2 hsize
    dsimp only
    split
    · have hdiv : IsAmount (UnpackedFloat.div Format.binary64 m.toUInt64.toFloat.toModel.unpack
          Float.exactlyRepresentablePowersOfTen[e].toModel.unpack) := by
        rw [hpower]
        exact hwhole.div _
      exact hdiv.pack
    · have hmul : IsAmount (UnpackedFloat.mul Format.binary64 m.toUInt64.toFloat.toModel.unpack
          Float.exactlyRepresentablePowersOfTen[e].toModel.unpack) := by
        rw [hpower]
        exact hwhole.mul _
      exact hmul.pack
  · exact (isAmount_ofScientific _ _).pack

theorem infinity_toBits : (1.0 / 0.0 : Float).toBits.toNat = infiniteBits := by decide +kernel

/-- What is read from digits is an amount. -/
theorem nearest_le (m : ℕ) (e : ℤ) : (nearest m e).toBits.toNat ≤ infiniteBits := by
  unfold nearest
  split
  · exact ofScientific_le 0 true 1
  · split
    · exact infinity_toBits.le
    · split
      · exact ofScientific_le ..
      · exact ofScientific_le ..

theorem nearest_unsigned (m : ℕ) (e : ℤ) : (nearest m e).toBits.toNat < 2 ^ 63 :=
  (nearest_le m e).trans_lt (by decide)

/-- What is read from digits and is not finite is the infinite number. -/
theorem nearest_eq_infinity {m : ℕ} {e : ℤ} (h : (nearest m e).isFinite = false) : nearest m e = 1.0 / 0.0 := by
  have hle := nearest_le m e
  have hexponent : (nearest m e).toBits.toNat / 0x10000000000000 % 0x800 = 0x7ff := by
    by_contra hne
    exact Bool.false_ne_true (h.symm.trans (isFinite_iff.2 hne))
  refine float_ext (infinity_toBits ▸ ?_)
  rw [infiniteBits] at hle ⊢
  omega

end Amount

end Scriptlet.Decimal
