import Scriptlet.Proofs.Decimal.Nearest

/-! The digits found for a double stand for a number that it attracts. -/
namespace Scriptlet.Decimal

variable {b : Binary} {e : ℤ}

theorem twoPower_eq (e : ℤ) : ((twoPower e).1 : ℚ) / (twoPower e).2 = 2 ^ e := by
  obtain ⟨n, rfl | rfl⟩ := e.eq_nat_or_neg <;> simp [twoPower]

theorem tenPower_eq (e : ℤ) : ((tenPower e).1 : ℚ) / (tenPower e).2 = 10 ^ e := by
  obtain ⟨n, rfl | rfl⟩ := e.eq_nat_or_neg <;> simp [tenPower]

theorem twoPower_pos (e : ℤ) : 0 < (twoPower e).1 ∧ 0 < (twoPower e).2 :=
  ⟨Nat.pow_pos two_pos, Nat.pow_pos two_pos⟩

theorem tenPower_pos (e : ℤ) : 0 < (tenPower e).1 ∧ 0 < (tenPower e).2 :=
  ⟨Nat.pow_pos (by norm_num), Nat.pow_pos (by norm_num)⟩

/-- Quarters of the last binary place against multiples of a power of ten, with denominators cleared. -/
theorem quarters_le_iff (quarters n : ℕ) (k e : ℤ) :
    quarters * (twoPower k).1 * (tenPower e).2 ≤ n * ((tenPower e).1 * (twoPower k).2) ↔
      (quarters : ℚ) * 2 ^ k ≤ n * 10 ^ e := by
  have htwo : (0 : ℚ) < (twoPower k).2 := by exact_mod_cast (twoPower_pos k).2
  have hten : (0 : ℚ) < (tenPower e).2 := by exact_mod_cast (tenPower_pos e).2
  rw [← twoPower_eq, ← tenPower_eq, ← mul_div_assoc, ← mul_div_assoc, div_le_div_iff₀ htwo hten, mul_assoc (n : ℚ)]
  exact_mod_cast Iff.rfl

theorem le_quarters_iff (quarters n : ℕ) (k e : ℤ) :
    n * ((tenPower e).1 * (twoPower k).2) ≤ quarters * (twoPower k).1 * (tenPower e).2 ↔
      (n : ℚ) * 10 ^ e ≤ quarters * 2 ^ k := by
  have htwo : (0 : ℚ) < (twoPower k).2 := by exact_mod_cast (twoPower_pos k).2
  have hten : (0 : ℚ) < (tenPower e).2 := by exact_mod_cast (tenPower_pos e).2
  rw [← twoPower_eq, ← tenPower_eq, ← mul_div_assoc, ← mul_div_assoc, div_le_div_iff₀ hten htwo, mul_assoc (n : ℚ)]
  exact_mod_cast Iff.rfl

namespace Binary

/-- Whether a multiple of a power of ten is attracted, in whole numbers. -/
def attracts (b : Binary) (e : ℤ) (n : ℕ) : Bool :=
  let low := lower b * (twoPower (b.exponent - 2)).1 * (tenPower e).2
  let high := upper b * (twoPower (b.exponent - 2)).1 * (tenPower e).2
  let multiple := n * ((tenPower e).1 * (twoPower (b.exponent - 2)).2)
  if b.mantissa % 2 = 0 then low ≤ multiple && multiple ≤ high else low < multiple && multiple < high

theorem attracts_iff (b : Binary) (e : ℤ) (n : ℕ) : b.attracts e n = true ↔ b.Attracts (n * 10 ^ e) := by
  have hlt {x y : ℕ} {p q : ℚ} (h : y ≤ x ↔ q ≤ p) : x < y ↔ p < q := by
    rw [← not_le, ← not_le, h]
  unfold attracts
  dsimp only
  split
  case isTrue heven =>
    rw [Bool.and_eq_true, decide_eq_true_eq, decide_eq_true_eq, quarters_le_iff, le_quarters_iff]
    exact ⟨fun h => ⟨h.1, h.2, fun hodd => absurd heven (by omega)⟩, fun h => ⟨h.low, h.high⟩⟩
  case isFalse hodd =>
    rw [Bool.and_eq_true, decide_eq_true_eq, decide_eq_true_eq, hlt (le_quarters_iff ..), hlt (quarters_le_iff ..)]
    exact ⟨fun h => ⟨h.1.le, h.2.le, fun _ => h⟩, fun h => h.odd (by omega)⟩

end Binary

def below (b : Binary) (e : ℤ) : ℕ :=
  4 * b.mantissa * (twoPower (b.exponent - 2)).1 * (tenPower e).2 / ((tenPower e).1 * (twoPower (b.exponent - 2)).2)

theorem onGrid?_eq (b : Binary) (e : ℤ) : ∃ nearer, (nearer = below b e ∨ nearer = below b e + 1) ∧
    onGrid? b e =
      if b.attracts e (below b e) && b.attracts e (below b e + 1) then some ⟨nearer, e⟩
      else if b.attracts e (below b e) then some ⟨below b e, e⟩
      else if b.attracts e (below b e + 1) then some ⟨below b e + 1, e⟩
      else none :=
  ⟨_, ite_eq_or_eq _ _ _, rfl⟩

theorem onGrid?_eq_some {s : Scaled} (h : onGrid? b e = some s) : b.Attracts (s.digits * 10 ^ s.exponent) := by
  obtain ⟨nearer, hnearer, heq⟩ := onGrid?_eq b e
  have hdigits : s.exponent = e ∧ b.attracts e s.digits = true := by
    rw [heq] at h
    split at h
    · next hboth =>
      cases h
      rw [Bool.and_eq_true] at hboth
      rcases hnearer with rfl | rfl
      · exact ⟨rfl, hboth.1⟩
      · exact ⟨rfl, hboth.2⟩
    · split at h
      · next hbelow =>
        cases h
        exact ⟨rfl, hbelow⟩
      · split at h
        · next habove =>
          cases h
          exact ⟨rfl, habove⟩
        · cases h
  rw [hdigits.1]
  exact (b.attracts_iff e _).1 hdigits.2

theorem onGrid?_ne_none (h : b.Attracts (below b e * 10 ^ e) ∨ b.Attracts ((below b e + 1 : ℕ) * 10 ^ e)) :
    onGrid? b e ≠ none := by
  obtain ⟨nearer, -, heq⟩ := onGrid?_eq b e
  rw [← Binary.attracts_iff, ← Binary.attracts_iff] at h
  rw [heq]
  split
  · nofun
  · split
    · nofun
    · next hbelow =>
      rw [if_pos (h.resolve_left hbelow)]
      nofun

/-- The multiples on both sides of the double. -/
theorem below_le (b : Binary) (e : ℤ) :
    (below b e : ℚ) * 10 ^ e ≤ b.mantissa * 2 ^ b.exponent ∧
      b.mantissa * 2 ^ b.exponent < (below b e + 1 : ℚ) * 10 ^ e := by
  have hscale : 0 < (tenPower e).1 * (twoPower (b.exponent - 2)).2 :=
    Nat.mul_pos (tenPower_pos e).1 (twoPower_pos _).2
  have hvalue : ((4 * b.mantissa : ℕ) : ℚ) * 2 ^ (b.exponent - 2) = b.mantissa * 2 ^ b.exponent := by
    rw [Binary.quarter]
    push_cast
    ring
  rw [← hvalue]
  constructor
  · exact (le_quarters_iff _ _ _ _).1 (Nat.div_mul_le_self _ _)
  · have hnext := (le_quarters_iff (4 * b.mantissa) (below b e + 1) (b.exponent - 2) e).not
    rw [not_le, not_le] at hnext
    exact_mod_cast hnext.1 ((Nat.div_lt_iff_lt_mul hscale).1 (Nat.lt_succ_self _))

theorem ten_pow_le_of_length {n : ℕ} (hn : 0 < n) : 10 ^ ((Nat.toDigits 10 n).length - 1) ≤ n := by
  by_cases hone : (Nat.toDigits 10 n).length - 1 = 0
  · rw [hone]
    exact hn
  · rw [← not_lt, ← Nat.length_toDigits_le_iff (by norm_num) (Nat.pos_of_ne_zero hone)]
    omega

/-- The leading digit does not stand higher than the double. -/
theorem leadingExponent_le (hb : b.Proper) : (10 : ℚ) ^ leadingExponent b ≤ b.mantissa * 2 ^ b.exponent := by
  obtain ⟨num, den, hpower⟩ : ∃ num den, twoPower b.exponent = (num, den) := ⟨_, _, rfl⟩
  have hvalue := twoPower_eq b.exponent
  obtain ⟨hnum, hden⟩ := twoPower_pos b.exponent
  have hleast : den ≤ 10 ^ 400 := by
    have : den = 2 ^ (-b.exponent).toNat := congrArg Prod.snd hpower.symm
    rw [this]
    have hbound : (-b.exponent).toNat ≤ 3 * 400 := by
      have := hb.least
      omega
    have hpowers : 2 ^ (3 * 400) ≤ 10 ^ 400 := by
      rw [pow_mul]
      exact pow_le_pow_left₀ (by norm_num) (by norm_num) 400
    exact (pow_le_pow_right₀ one_le_two hbound).trans hpowers
  rw [hpower] at hvalue hnum hden
  dsimp only at hvalue hnum hden
  have hlead : leadingExponent b = ((Nat.toDigits 10 (b.mantissa * num * 10 ^ 400 / den)).length : ℤ) - 401 := by
    rw [leadingExponent, hpower, ← Nat.pow_eq]
  have hpos : 0 < b.mantissa * num * 10 ^ 400 / den := by
    refine Nat.div_pos (hleast.trans ?_) hden
    exact Nat.le_mul_of_pos_left _ (Nat.mul_pos hb.pos hnum)
  have hdigits := ten_pow_le_of_length hpos
  have hlength : 0 < (Nat.toDigits 10 (b.mantissa * num * 10 ^ 400 / den)).length := Nat.length_toDigits_pos
  generalize (Nat.toDigits 10 (b.mantissa * num * 10 ^ 400 / den)).length = length at hlead hdigits hlength
  obtain ⟨n, rfl⟩ : ∃ n, length = n + 1 := ⟨length - 1, by omega⟩
  have hcleared : 10 ^ n * den ≤ b.mantissa * num * 10 ^ 400 :=
    (Nat.mul_le_mul_right _ hdigits).trans (Nat.div_mul_le_self _ _)
  have hexponent : leadingExponent b = (n : ℤ) - (400 : ℕ) := by omega
  have hdenpos : (0 : ℚ) < den := by exact_mod_cast hden
  have hten : (0 : ℚ) < 10 ^ 400 := by positivity
  rw [hexponent, zpow_sub₀ (by norm_num), zpow_natCast, zpow_natCast, ← hvalue, ← mul_div_assoc,
    div_le_div_iff₀ hten hdenpos]
  exact_mod_cast hcleared

/-- Among the multiples with seventeen digits, one of the two around a double is attracted. -/
theorem attracts_seventeen (hb : b.Proper) (he : e = leadingExponent b - 16) :
    b.Attracts (below b e * 10 ^ e) ∨ b.Attracts ((below b e + 1 : ℕ) * 10 ^ e) := by
  obtain ⟨hl, hu⟩ := below_le b e
  have hgrid : (10 : ℚ) ^ e * 10 ^ 16 ≤ b.mantissa * 2 ^ b.exponent := by
    rw [he, zpow_sub₀ (by norm_num)]
    norm_num
    exact leadingExponent_le hb
  have hunit : (0 : ℚ) < 2 ^ b.exponent := by positivity
  have hmantissa : (b.mantissa : ℚ) < 2 ^ 53 := by exact_mod_cast hb.mantissa
  have hstrict {x : ℚ} (hlow : lower b * (2 : ℚ) ^ (b.exponent - 2) < x)
      (hhigh : x < upper b * (2 : ℚ) ^ (b.exponent - 2)) : b.Attracts x := ⟨hlow.le, hhigh.le, fun _ => ⟨hlow, hhigh⟩⟩
  rw [Binary.quarter, Binary.upper_cast] at hstrict
  -- above a double the way to the next is half a place, below it is half or a quarter
  have habove (h : (below b e + 1 : ℚ) * 10 ^ e < (b.mantissa + 1 / 2) * 2 ^ b.exponent) :
      b.Attracts ((below b e + 1 : ℕ) * 10 ^ e) := by
    have hlow := lt_of_le_of_lt hb.attracts_self.low hu
    rw [Binary.quarter] at hlow
    push_cast
    exact hstrict hlow (by linarith)
  cases hlowest : b.lowest with
  | true =>
    have hm : (b.mantissa : ℚ) = 2 ^ 52 := by exact_mod_cast (hb.lowest.1 hlowest).1
    rw [hm] at hgrid hl
    refine .inr (habove ?_)
    rw [hm]
    nlinarith
  | false =>
    have hlower : (lower b : ℚ) = 4 * b.mantissa - 2 := by
      have hpos := hb.pos
      rw [lower, if_neg (by simp [hlowest]), Nat.cast_sub (by omega)]
      norm_num
    have hlt : (10 : ℚ) ^ e < 2 ^ b.exponent := by nlinarith
    rw [hlower] at hstrict
    by_cases hnear : (b.mantissa - 1 / 2) * 2 ^ b.exponent < (below b e : ℚ) * 10 ^ e
    · exact .inl (hstrict (by linarith) (by linarith))
    · exact .inr (habove (by linarith))

theorem searchGrid_attracts (lead : ℤ) (h : onGrid? b (lead - 16) ≠ none) (n : ℕ) :
    b.Attracts ((searchGrid b lead (n + 1)).digits * 10 ^ (searchGrid b lead (n + 1)).exponent) := by
  induction n with
  | zero =>
    obtain ⟨s, hs⟩ := Option.ne_none_iff_exists'.1 h
    have hlast : lead - (17 - ((0 : ℕ) + 1 : ℤ)) = lead - 16 := by norm_num
    rw [searchGrid, hlast, hs]
    exact onGrid?_eq_some hs
  | succ n ih =>
    rw [searchGrid]
    split
    · next s hs => exact onGrid?_eq_some hs
    · exact ih

/-- The digits of a double read back. -/
theorem shortest_attracts (hb : b.Proper) : b.Attracts ((shortest b).digits * 10 ^ (shortest b).exponent) :=
  searchGrid_attracts _ (onGrid?_ne_none (attracts_seventeen hb rfl)) 16

end Scriptlet.Decimal
