import Mathlib.Algebra.Order.Field.Power
import Mathlib.Data.Rat.Star
import Mathlib.Tactic.FieldSimp
import Mathlib.Tactic.Linarith
import Mathlib.Tactic.NormNum
import Mathlib.Tactic.Positivity
import Mathlib.Tactic.Ring
import Scriptlet.Decimal.Shortest

/-! Rounding to double precision. Each double is the nearest to the numbers of an interval around it, with ties
to even mantissas; products and quotients that fall in the interval are rounded to the double. -/
namespace Scriptlet.Decimal

open Float.Model Float.Model.UnpackedFloat

/-- The mantissa is the whole part of the number, and the two bits tell of its fraction whether it reaches one
half, and whether there is more to it. -/
def Shows : ExtendedMantissa → ℚ → Prop
  | ⟨m, false, false⟩, x => x = m
  | ⟨m, false, true⟩, x => m < x ∧ x < m + 1 / 2
  | ⟨m, true, false⟩, x => x = m + 1 / 2
  | ⟨m, true, true⟩, x => m + 1 / 2 < x ∧ x < m + 1

namespace Shows

variable {em : ExtendedMantissa} {x : ℚ}

theorem whole (h : Shows em x) : em.mantissa ≤ x ∧ x < em.mantissa + 1 := by
  obtain ⟨m, round, sticky⟩ := em
  cases round <;> cases sticky <;> simp only [Shows] at h ⊢ <;> constructor <;> linarith

theorem shiftRightOne (h : Shows em x) : Shows em.shiftRightOne (x / 2) := by
  obtain ⟨m, round, sticky⟩ := em
  have hsplit : (m : ℚ) = 2 * (m / 2 : ℕ) + (m % 2 : ℕ) := by
    exact_mod_cast (Nat.div_add_mod m 2).symm
  have hhalf : ExtendedMantissa.shiftRightOne ⟨m, round, sticky⟩ = ⟨m / 2, m % 2 != 0, round || sticky⟩ := rfl
  rw [hhalf]
  rcases Nat.mod_two_eq_zero_or_one m with hmod | hmod <;> rw [hmod] at hsplit ⊢ <;> push_cast at hsplit
  · -- the last bit of the mantissa is the new round bit, and it is not set
    have hbit : ((0 : ℕ) != 0) = false := rfl
    rw [hbit]
    cases round <;> cases sticky <;> simp only [Shows, Bool.or_false, Bool.or_true] at h ⊢
    · linarith
    all_goals constructor <;> linarith
  · have hbit : ((1 : ℕ) != 0) = true := rfl
    rw [hbit]
    cases round <;> cases sticky <;> simp only [Shows, Bool.or_false, Bool.or_true] at h ⊢
    · linarith
    all_goals constructor <;> linarith

theorem shiftRight (h : Shows em x) (n : ℕ) : Shows (em >>> n) (x / 2 ^ n) := by
  change Shows (n.repeat ExtendedMantissa.shiftRightOne em) _
  induction n with
  | zero => simpa [Nat.repeat] using h
  | succ n ih =>
    rw [Nat.repeat, pow_succ, div_mul_eq_div_div]
    exact ih.shiftRightOne

/-- A number within one half of `n` is rounded to `n`, and on the edge only if `n` is even. -/
theorem roundedMantissa_eq (h : Shows em x) {n : ℕ} (hl : n - 1 / 2 ≤ x) (hu : x ≤ n + 1 / 2)
    (hodd : n % 2 = 1 → n - 1 / 2 < x ∧ x < n + 1 / 2) : em.roundedMantissa = n := by
  obtain ⟨m, round, sticky⟩ := em
  have hle : ∀ {a b : ℕ}, (a : ℚ) < b + 1 → a ≤ b := fun h => Nat.lt_succ_iff.1 (by exact_mod_cast h)
  cases round <;> cases sticky <;> simp only [Shows] at h
  · have h₁ : m ≤ n := hle (by linarith)
    have h₂ : n ≤ m := hle (by linarith)
    exact Nat.le_antisymm h₁ h₂
  · have h₁ : m ≤ n := hle (by linarith)
    have h₂ : n ≤ m := hle (by linarith)
    exact Nat.le_antisymm h₁ h₂
  · show m + m % 2 = n
    have h₁ : m ≤ n := hle (by linarith)
    have h₂ : n ≤ m + 1 := hle (by push_cast; linarith)
    -- a tie: `n` is on one side of it, and even
    have heven : n % 2 ≠ 1 := by
      intro h1
      obtain ⟨hl', hu'⟩ := hodd h1
      have h₃ : n ≤ m := hle (by linarith)
      have h₄ : (m : ℚ) < n := by linarith
      exact absurd h₃ (Nat.not_le.2 (by exact_mod_cast h₄))
    omega
  · show m + 1 = n
    have h₁ : m + 1 ≤ n := by
      have : (m : ℚ) < n := by linarith
      exact_mod_cast this
    have h₂ : n ≤ m + 1 := hle (by push_cast; linarith)
    omega

end Shows

namespace Binary

/-- The mantissa has 53 bits, or the exponent is the least; `lowest` says of a mantissa that opens a binade that
there is another binade below. -/
structure Proper (b : Binary) : Prop where
  pos : 0 < b.mantissa
  mantissa : b.mantissa < 2 ^ 53
  least : -1074 ≤ b.exponent
  greatest : b.exponent ≤ 971
  full : 2 ^ 52 ≤ b.mantissa ∨ b.exponent = -1074
  lowest : b.lowest = true ↔ b.mantissa = 2 ^ 52 ∧ -1074 < b.exponent

/-- The numbers that are rounded to the double: those nearer to it than to any other, and the two ends if its
mantissa is even. -/
structure Attracts (b : Binary) (x : ℚ) : Prop where
  low : lower b * (2 : ℚ) ^ (b.exponent - 2) ≤ x
  high : x ≤ upper b * (2 : ℚ) ^ (b.exponent - 2)
  odd : b.mantissa % 2 = 1 →
    lower b * (2 : ℚ) ^ (b.exponent - 2) < x ∧ x < upper b * (2 : ℚ) ^ (b.exponent - 2)

variable {b : Binary} {x : ℚ}

theorem quarter (e : ℤ) : (2 : ℚ) ^ (e - 2) = 2 ^ e / 4 := by
  rw [zpow_sub₀ (by norm_num)]
  norm_num

theorem upper_cast (b : Binary) : (upper b : ℚ) = 4 * b.mantissa + 2 := by simp [upper]

theorem Proper.lower_ge (hb : b.Proper) : 4 * (b.mantissa : ℚ) - 2 ≤ lower b := by
  have hpos := hb.pos
  have hlower : 4 * b.mantissa ≤ lower b + 2 := by
    unfold lower
    split <;> omega
  have hcast : 4 * (b.mantissa : ℚ) ≤ lower b + 2 := by exact_mod_cast hlower
  linarith

/-- The numbers are within one half of the mantissa, in units of the last place. -/
theorem Attracts.half (h : b.Attracts x) (hb : b.Proper) :
    (b.mantissa - 1 / 2) * (2 : ℚ) ^ b.exponent ≤ x ∧ x ≤ (b.mantissa + 1 / 2) * (2 : ℚ) ^ b.exponent ∧
      (b.mantissa % 2 = 1 →
        (b.mantissa - 1 / 2) * (2 : ℚ) ^ b.exponent < x ∧ x < (b.mantissa + 1 / 2) * (2 : ℚ) ^ b.exponent) := by
  have hunit : (0 : ℚ) < 2 ^ b.exponent := by positivity
  have hlower := mul_le_mul_of_nonneg_right hb.lower_ge hunit.le
  obtain ⟨hl, hu, hodd⟩ := h
  rw [quarter, upper_cast] at hu
  rw [quarter] at hl
  refine ⟨by linarith, by linarith, fun h => ?_⟩
  obtain ⟨hl', hu'⟩ := hodd h
  rw [quarter] at hl'
  rw [quarter, upper_cast] at hu'
  constructor <;> linarith

/-- Below a mantissa that opens a binade, the numbers are within a quarter of it. -/
theorem Attracts.quarter (h : b.Attracts x) (hb : b.Proper) (hlowest : b.lowest = true) :
    (2 ^ 52 - 1 / 4) * (2 : ℚ) ^ b.exponent ≤ x := by
  have hm := (hb.lowest.1 hlowest).1
  have hlower : (lower b : ℚ) = 4 * 2 ^ 52 - 1 := by
    rw [lower, if_pos hlowest, hm]
    norm_num
  have hl := h.low
  rw [Binary.quarter, hlower] at hl
  linarith

end Binary

theorem binary64_mantissaBits : Format.binary64.mantissaBits = 53 := rfl

theorem targetExponent_eq (m : ℕ) (e : ℤ) :
    Format.binary64.targetExponent (totalExponent m e) = max (m.log2 + e - 52) (-1074) := by
  simp only [Format.targetExponent, totalExponent, binary64_mantissaBits, Format.minExponent]
  norm_num
  omega

theorem shiftToTargetExponent_eq (m : ℕ) (e : ℤ) (accuracy : Accuracy) :
    shiftToTargetExponent Format.binary64 m e accuracy =
      let n := (max (m.log2 + e - 52) (-1074) - e).toNat
      (ExtendedMantissa.ofMantissaAndAccuracy m accuracy >>> n, e + n) := by
  rw [← targetExponent_eq]
  rfl

/-- A mantissa that needs no more than 53 bits stays as it is. -/
theorem shiftToTargetExponent_full {r : ℕ} {e : ℤ} (hr : r < 2 ^ 53) (he : -1074 ≤ e) :
    shiftToTargetExponent Format.binary64 r e .exact = (⟨r, false, false⟩, e) := by
  have hlog : r.log2 ≤ 52 := by
    rcases Nat.eq_zero_or_pos r with rfl | hpos
    · simp
    · exact Nat.lt_succ_iff.1 ((Nat.log2_lt hpos.ne').2 hr)
  have hshift : (max (r.log2 + e - 52) (-1074) - e).toNat = 0 := by omega
  rw [shiftToTargetExponent_eq, hshift]
  simp [HShiftRight.hShiftRight, Nat.repeat, ExtendedMantissa.ofMantissaAndAccuracy]

/-- A mantissa that was rounded up to 54 bits is halved. -/
theorem shiftToTargetExponent_over {e : ℤ} (he : -1074 ≤ e) :
    shiftToTargetExponent Format.binary64 (2 ^ 53) e .exact = (⟨2 ^ 52, false, false⟩, e + 1) := by
  have hshift : (max (((2 ^ 53 : ℕ).log2 : ℤ) + e - 52) (-1074) - e).toNat = 1 := by
    rw [Nat.log2_two_pow]
    omega
  rw [shiftToTargetExponent_eq, hshift]
  rfl

/-- A positive whole part tells the number within a factor of two. -/
theorem zpow_log2_le {m : ℕ} {e : ℤ} {x : ℚ} (hm : 0 < m) (hl : m ≤ x / 2 ^ e) (hu : x / 2 ^ e < m + 1) :
    (2 : ℚ) ^ (m.log2 + e) ≤ x ∧ x < (2 : ℚ) ^ (m.log2 + e + 1) := by
  have hunit : (0 : ℚ) < 2 ^ e := by positivity
  rw [le_div_iff₀ hunit] at hl
  rw [div_lt_iff₀ hunit] at hu
  have hlog : ((2 ^ m.log2 : ℕ) : ℚ) ≤ m := by exact_mod_cast Nat.log2_self_le hm.ne'
  have hlog' : (m : ℚ) + 1 ≤ ((2 ^ (m.log2 + 1) : ℕ) : ℚ) := by exact_mod_cast Nat.lt_log2_self
  push_cast at hlog hlog'
  constructor
  · calc (2 : ℚ) ^ (m.log2 + e) = 2 ^ m.log2 * 2 ^ e := by rw [zpow_add₀ (by norm_num), zpow_natCast]
      _ ≤ m * 2 ^ e := by gcongr
      _ ≤ x := hl
  · calc x < (m + 1) * 2 ^ e := hu
      _ ≤ 2 ^ (m.log2 + 1) * 2 ^ e := by gcongr
      _ = (2 : ℚ) ^ (m.log2 + e + 1) := by
        rw [add_right_comm, zpow_add₀ (by norm_num), ← Nat.cast_succ, zpow_natCast]

/-- The exponent that rounding goes to is that of the double, or the one below where the number is in the binade
below. -/
theorem Binary.Attracts.target {b : Binary} {x : ℚ} (h : b.Attracts x) (hb : b.Proper) {k : ℤ}
    (hl : (2 : ℚ) ^ k ≤ x) (hu : x < 2 ^ (k + 1)) :
    max (k - 52) (-1074) = b.exponent ∨
      b.lowest = true ∧ x < 2 ^ 52 * 2 ^ b.exponent ∧ max (k - 52) (-1074) = b.exponent - 1 := by
  obtain ⟨hlow, hhigh, -⟩ := h.half hb
  have hunit : (0 : ℚ) < 2 ^ b.exponent := by positivity
  have hscale (n : ℕ) : (2 : ℚ) ^ n * 2 ^ b.exponent = 2 ^ (n + b.exponent) := by
    rw [zpow_add₀ (by norm_num), zpow_natCast]
  have hcompare {i j : ℤ} (hij : (2 : ℚ) ^ i < 2 ^ j) : i < j := (zpow_lt_zpow_iff_right₀ one_lt_two).1 hij
  have hleast := hb.least
  have hk : k < 53 + b.exponent := by
    refine hcompare (hl.trans_lt (hhigh.trans_lt ?_))
    have hm : (b.mantissa : ℚ) + 1 ≤ 2 ^ 53 := by exact_mod_cast hb.mantissa
    have hlt : ((b.mantissa : ℚ) + 1 / 2) * 2 ^ b.exponent < 2 ^ 53 * 2 ^ b.exponent := by
      gcongr
      linarith
    rw [hscale] at hlt
    exact_mod_cast hlt
  rcases hb.full with hfull | hmin
  · have hm : (2 ^ 52 : ℚ) ≤ b.mantissa := by exact_mod_cast hfull
    by_cases hx : (2 : ℚ) ^ 52 * 2 ^ b.exponent ≤ x
    · rw [hscale] at hx
      have hk' : ((52 : ℕ) : ℤ) + b.exponent < k + 1 := hcompare (hx.trans_lt hu)
      left
      omega
    · -- the number is in the binade below, so the mantissa opens one
      rw [not_le] at hx
      have hm' : b.mantissa = 2 ^ 52 := by
        have hlt : (b.mantissa : ℚ) - 1 / 2 < 2 ^ 52 := (mul_lt_mul_iff_left₀ hunit).1 (hlow.trans_lt hx)
        have hle : (b.mantissa : ℚ) < ((2 ^ 52 + 1 : ℕ) : ℚ) := by
          push_cast
          linarith
        have hle' : b.mantissa < 2 ^ 52 + 1 := by exact_mod_cast hle
        omega
      have hk' : k < 52 + b.exponent := by
        have hlt := hl.trans_lt hx
        rw [hscale] at hlt
        exact_mod_cast hcompare hlt
      rcases Int.lt_or_eq_of_le hleast with hgreater | hmin
      · have hlowest := hb.lowest.2 ⟨hm', hgreater⟩
        have hk'' : 51 + b.exponent < k + 1 := by
          have hlt : (2 : ℚ) ^ 51 * 2 ^ b.exponent ≤ x := by
            refine le_trans ?_ (h.quarter hb hlowest)
            gcongr
            norm_num
          rw [hscale] at hlt
          exact_mod_cast hcompare (hlt.trans_lt hu)
        exact .inr ⟨hlowest, hx, by omega⟩
      · left
        omega
  · left
    omega

theorem ofMantissaAndAccuracy_mantissa (m : ℕ) (accuracy : Accuracy) :
    (ExtendedMantissa.ofMantissaAndAccuracy m accuracy).mantissa = m := by
  cases accuracy with
  | exact => rfl
  | inexact ordering => cases ordering <;> rfl

/-- A number whose whole part is zero at the least exponent is next to zero. -/
theorem Binary.Attracts.tiny {b : Binary} {x : ℚ} (h : b.Attracts x) (hb : b.Proper)
    (hx : x < (2 : ℚ) ^ (-1074 : ℤ)) : b.exponent = -1074 := by
  refine hb.full.resolve_left fun hfull => ?_
  have hm : (2 ^ 52 : ℚ) ≤ b.mantissa := by exact_mod_cast hfull
  have hunit : (2 : ℚ) ^ (-1074 : ℤ) ≤ 2 ^ b.exponent := zpow_le_zpow_right₀ one_le_two hb.least
  have hlow := (h.half hb).1
  have hpos : (0 : ℚ) < 2 ^ b.exponent := by positivity
  nlinarith

/-- Rounding a number that is within the interval of a double gives the double. -/
theorem roundWithAccuracy_eq {b : Binary} (hb : b.Proper) {x : ℚ} (hx : b.Attracts x) {m : ℕ} {e : ℤ}
    {accuracy : Accuracy} (hshows : Shows (.ofMantissaAndAccuracy m accuracy) (x / 2 ^ e))
    (hbits : 52 ≤ m.log2 ∨ e = -1074) :
    roundWithAccuracy Format.binary64 .positive m e accuracy =
      .finite .positive b.mantissa b.exponent hb.pos := by
  have hwhole := hshows.whole
  rw [ofMantissaAndAccuracy_mantissa] at hwhole
  have htarget : max (m.log2 + e - 52) (-1074) = b.exponent ∨ b.lowest = true ∧
      x < 2 ^ 52 * 2 ^ b.exponent ∧ max (m.log2 + e - 52) (-1074) = b.exponent - 1 := by
    rcases Nat.eq_zero_or_pos m with rfl | hpos
    · have hleast := hbits.resolve_left (by simp)
      have hunit : (0 : ℚ) < 2 ^ e := by positivity
      have htiny : x < 2 ^ e := by simpa [div_lt_iff₀ hunit] using hwhole.2
      rw [hleast] at htiny ⊢
      rw [hx.tiny hb htiny]
      exact .inl (by norm_num)
    · obtain ⟨hl, hu⟩ := zpow_log2_le hpos hwhole.1 hwhole.2
      exact hx.target hb hl hu
  have hfirst := shiftToTargetExponent_eq m e accuracy
  have he : e ≤ max (m.log2 + e - 52) (-1074) := by omega
  generalize max (m.log2 + e - 52) (-1074) = target at he htarget hfirst
  obtain ⟨n, rfl⟩ : ∃ n : ℕ, target = e + n := ⟨(target - e).toNat, by omega⟩
  have hn : (e + n - e).toNat = n := by omega
  rw [hn] at hfirst
  have hshown := hshows.shiftRight n
  rw [div_div, ← zpow_natCast (2 : ℚ) n, ← zpow_add₀ (by norm_num)] at hshown
  unfold roundWithAccuracy
  rw [hfirst]
  dsimp only
  rcases htarget with htarget | ⟨hlowest, hbelow, htarget⟩
  · have hunit : (0 : ℚ) < 2 ^ b.exponent := by positivity
    obtain ⟨hl, hu, hodd⟩ := hx.half hb
    rw [← le_div_iff₀ hunit] at hl
    rw [← div_le_iff₀ hunit] at hu
    rw [← lt_div_iff₀ hunit, ← div_lt_iff₀ hunit] at hodd
    rw [htarget] at hshown ⊢
    rw [hshown.roundedMantissa_eq hl hu hodd, shiftToTargetExponent_full hb.mantissa hb.least]
    exact dif_neg hb.pos.ne'
  · -- just below a binade, the mantissa is rounded up to the one that opens it
    have hunit : (0 : ℚ) < 2 ^ (b.exponent - 1) := by positivity
    have hhalf : (2 : ℚ) ^ b.exponent = 2 ^ (b.exponent - 1) * 2 := by
      rw [← zpow_add_one₀ (by norm_num), sub_add_cancel]
    have hquarter := hx.quarter hb hlowest
    rw [hhalf] at hbelow hquarter
    have hl : ((2 ^ 53 : ℕ) : ℚ) - 1 / 2 ≤ x / 2 ^ (b.exponent - 1) := by
      rw [le_div_iff₀ hunit]
      push_cast
      linarith
    have hu : x / 2 ^ (b.exponent - 1) ≤ ((2 ^ 53 : ℕ) : ℚ) + 1 / 2 := by
      rw [div_le_iff₀ hunit]
      push_cast
      linarith
    obtain ⟨hmantissa, hleast⟩ := hb.lowest.1 hlowest
    rw [htarget] at hshown ⊢
    rw [hshown.roundedMantissa_eq hl hu (by norm_num), shiftToTargetExponent_over (by omega), sub_add_cancel]
    dsimp only
    rw [dif_neg (by norm_num)]
    congr 1
    exact hmantissa.symm

theorem mul_eq {b : Binary} (hb : b.Proper) {m₁ m₂ : ℕ} {e₁ e₂ : ℤ} (h₁ : 0 < m₁) (h₂ : 0 < m₂)
    (hx : b.Attracts (m₁ * 2 ^ e₁ * (m₂ * 2 ^ e₂))) (hbits : 2 ^ 52 ≤ m₁ * m₂) :
    mul Format.binary64 (.finite .positive m₁ e₁ h₁) (.finite .positive m₂ e₂ h₂) =
      .finite .positive b.mantissa b.exponent hb.pos := by
  have hlog : 52 ≤ (m₁ * m₂).log2 := (Nat.le_log2 (by positivity)).2 hbits
  refine roundWithAccuracy_eq hb hx ?_ (.inl hlog)
  show _ = ((m₁ * m₂ : ℕ) : ℚ)
  rw [zpow_add₀ (by norm_num)]
  field_simp
  push_cast
  rfl

theorem shows_fraction (m : ℕ) {n : ℕ} (hn : 0 < n) :
    Shows (.ofMantissaAndAccuracy (m / n) (accuracyOfFraction (m % n) n)) (m / n) := by
  have hpos : (0 : ℚ) < n := by exact_mod_cast hn
  have hsplit : (m : ℚ) = n * (m / n : ℕ) + (m % n : ℕ) := by exact_mod_cast (Nat.div_add_mod m n).symm
  have hless : ((m % n : ℕ) : ℚ) < n := by exact_mod_cast Nat.mod_lt m hn
  unfold accuracyOfFraction
  split
  · next hzero =>
    show (m : ℚ) / n = (m / n : ℕ)
    rw [div_eq_iff hpos.ne', hsplit, hzero]
    push_cast
    ring
  · next hzero =>
    have hrest : (0 : ℚ) < (m % n : ℕ) := by exact_mod_cast Nat.pos_of_ne_zero hzero
    rcases hcompare : compare (2 * (m % n)) n with _ | _ | _
    · have hhalf : 2 * ((m % n : ℕ) : ℚ) < n := by exact_mod_cast Nat.compare_eq_lt.1 hcompare
      refine ⟨?_, ?_⟩
      · rw [lt_div_iff₀ hpos]
        linarith
      · rw [div_lt_iff₀ hpos]
        linarith
    · have hhalf : 2 * ((m % n : ℕ) : ℚ) = n := by exact_mod_cast Nat.compare_eq_eq.1 hcompare
      show (m : ℚ) / n = (m / n : ℕ) + 1 / 2
      rw [div_eq_iff hpos.ne']
      linarith
    · have hhalf : (n : ℚ) < 2 * (m % n : ℕ) := by exact_mod_cast Nat.compare_eq_gt.1 hcompare
      refine ⟨?_, ?_⟩
      · rw [lt_div_iff₀ hpos]
        linarith
      · rw [div_lt_iff₀ hpos]
        linarith

/-- The quotient that is to be rounded has all the bits that are needed, or is at the least exponent. -/
theorem divCore_shows {m₁ m₂ : ℕ} {e₁ e₂ : ℤ} (h₁ : 0 < m₁) (h₂ : 0 < m₂) (he : -1074 ≤ e₁ - e₂) :
    ∃ m e accuracy, divCore Format.binary64 m₁ e₁ m₂ e₂ = (m, e, accuracy) ∧
      Shows (.ofMantissaAndAccuracy m accuracy) (m₁ * 2 ^ e₁ / (m₂ * 2 ^ e₂) / 2 ^ e) ∧
      (52 ≤ m.log2 ∨ e = -1074) := by
  have htarget : Format.binary64.targetExponent (totalExponent m₁ e₁ - totalExponent m₂ e₂) =
      max (m₁.log2 + e₁ - (m₂.log2 + e₂) - 53) (-1074) := by
    simp only [Format.targetExponent, totalExponent, binary64_mantissaBits, Format.minExponent]
    norm_num
    omega
  generalize ht : min (e₁ - e₂) (max (m₁.log2 + e₁ - (m₂.log2 + e₂) - 53) (-1074)) = t
  have hcore : divCore Format.binary64 m₁ e₁ m₂ e₂ =
      (m₁ <<< (e₁ - e₂ - t).toNat / m₂, t,
        accuracyOfFraction (m₁ <<< (e₁ - e₂ - t).toNat % m₂) m₂) := by
    unfold divCore
    rw [htarget, ht]
  obtain ⟨n, hn⟩ : ∃ n : ℕ, e₁ - e₂ = t + n := ⟨(e₁ - e₂ - t).toNat, by omega⟩
  have hn' : (e₁ - e₂ - t).toNat = n := by omega
  rw [hn', Nat.shiftLeft_eq] at hcore
  refine ⟨_, _, _, hcore, ?_, ?_⟩
  · have hvalue : m₁ * 2 ^ e₁ / (m₂ * 2 ^ e₂) / (2 : ℚ) ^ t = ((m₁ * 2 ^ n : ℕ) : ℚ) / m₂ := by
      have hpow : (2 : ℚ) ^ e₁ = 2 ^ t * 2 ^ n * 2 ^ e₂ := by
        rw [← zpow_natCast (2 : ℚ) n, ← zpow_add₀ (by norm_num), ← zpow_add₀ (by norm_num), ← hn, sub_add_cancel]
      have hpos : (m₂ : ℚ) ≠ 0 := by exact_mod_cast h₂.ne'
      rw [hpow]
      push_cast
      field_simp
    rw [hvalue]
    exact shows_fraction _ h₂
  · rcases Int.lt_or_le (-1074) t with hleast | hleast
    · left
      have hpow : 2 ^ 52 * m₂ ≤ m₁ * 2 ^ n :=
        calc 2 ^ 52 * m₂ ≤ 2 ^ 52 * 2 ^ (m₂.log2 + 1) := Nat.mul_le_mul_left _ Nat.lt_log2_self.le
          _ = 2 ^ (52 + (m₂.log2 + 1)) := (pow_add 2 _ _).symm
          _ ≤ 2 ^ (m₁.log2 + n) := Nat.pow_le_pow_right (by norm_num) (by omega)
          _ = 2 ^ m₁.log2 * 2 ^ n := pow_add 2 _ _
          _ ≤ m₁ * 2 ^ n := Nat.mul_le_mul_right _ (Nat.log2_self_le h₁.ne')
      have hquotient : 2 ^ 52 ≤ m₁ * 2 ^ n / m₂ := (Nat.le_div_iff_mul_le h₂).2 hpow
      exact (Nat.le_log2 (by omega)).2 hquotient
    · right
      omega

theorem div_eq {b : Binary} (hb : b.Proper) {m₁ m₂ : ℕ} {e₁ e₂ : ℤ} (h₁ : 0 < m₁) (h₂ : 0 < m₂)
    (hx : b.Attracts (m₁ * 2 ^ e₁ / (m₂ * 2 ^ e₂))) (he : -1074 ≤ e₁ - e₂) :
    div Format.binary64 (.finite .positive m₁ e₁ h₁) (.finite .positive m₂ e₂ h₂) =
      .finite .positive b.mantissa b.exponent hb.pos := by
  obtain ⟨m, e, accuracy, hcore, hshows, hbits⟩ := divCore_shows h₁ h₂ he
  have hdiv : div Format.binary64 (.finite .positive m₁ e₁ h₁) (.finite .positive m₂ e₂ h₂) =
      roundWithAccuracy Format.binary64 .positive (divCore Format.binary64 m₁ e₁ m₂ e₂).1
        (divCore Format.binary64 m₁ e₁ m₂ e₂).2.1 (divCore Format.binary64 m₁ e₁ m₂ e₂).2.2 := rfl
  rw [hdiv, hcore]
  exact roundWithAccuracy_eq hb hx hshows hbits

end Scriptlet.Decimal
