import Scriptlet.Proofs.Decimal.Nearest
import Scriptlet.Value.Basic

/-! Integers as doubles. The nearest doubles stand in the order of the integers, but integers of more than 53 bits
may share one. -/
namespace Scriptlet.Decimal

open Float.Model Float.Model.UnpackedFloat

namespace Binary

variable {a b : Binary} {x y : ℚ}

def value (b : Binary) : ℚ := b.mantissa * 2 ^ b.exponent

/-- A smaller exponent, or the same with a smaller mantissa. -/
def Below (a b : Binary) : Prop :=
  a.exponent < b.exponent ∨ a.exponent = b.exponent ∧ a.mantissa < b.mantissa

theorem below_or (a b : Binary) :
    a.Below b ∨ a.exponent = b.exponent ∧ a.mantissa = b.mantissa ∨ b.Below a := by
  unfold Below
  omega

/-- The first double of a binade attracts less from below, just as much as the last one of the binade before
leaves to it. -/
theorem Proper.lower_of_full (hb : b.Proper) (hfull : 2 ^ 52 ≤ b.mantissa) (hleast : -1074 < b.exponent) :
    2 ^ 54 - 1 ≤ lower b := by
  unfold lower
  split
  · omega
  · next hlowest =>
    have hm : b.mantissa ≠ 2 ^ 52 := fun hm => hlowest (hb.lowest.2 ⟨hm, hleast⟩)
    omega

/-- What a double attracts ends before that of a greater one starts. -/
theorem Below.upper_le_lower (h : a.Below b) (ha : a.Proper) (hb : b.Proper) :
    upper a * (2 : ℚ) ^ (a.exponent - 2) ≤ lower b * (2 : ℚ) ^ (b.exponent - 2) := by
  have hunit : (0 : ℚ) < 2 ^ (a.exponent - 2) := by positivity
  rcases h with hlt | ⟨heq, hlt⟩
  · have hfull := hb.full.resolve_right (by have := ha.least; omega)
    have hlower : (2 : ℚ) ^ 54 - 1 ≤ lower b := by
      have hle := hb.lower_of_full hfull (by have := ha.least; omega)
      have hle' : 2 ^ 54 ≤ lower b + 1 := by omega
      have hcast : ((2 ^ 54 : ℕ) : ℚ) ≤ lower b + 1 := by exact_mod_cast hle'
      push_cast at hcast
      linarith
    have hupper : (upper a : ℚ) ≤ 2 ^ 55 - 2 := by
      have hle : upper a + 2 ≤ 2 ^ 55 := by
        have hm := ha.mantissa
        unfold upper
        omega
      have hcast : (upper a : ℚ) + 2 ≤ ((2 ^ 55 : ℕ) : ℚ) := by exact_mod_cast hle
      push_cast at hcast
      linarith
    have hdouble : (2 : ℚ) * 2 ^ (a.exponent - 2) ≤ 2 ^ (b.exponent - 2) := by
      rw [← zpow_one_add₀ two_ne_zero]
      exact zpow_le_zpow_right₀ one_le_two (by omega)
    calc upper a * (2 : ℚ) ^ (a.exponent - 2) ≤ (2 ^ 55 - 2) * 2 ^ (a.exponent - 2) := by gcongr
      _ = (2 ^ 54 - 1) * (2 * 2 ^ (a.exponent - 2)) := by ring
      _ ≤ lower b * (2 : ℚ) ^ (b.exponent - 2) := by gcongr
  · have hlower := hb.lower_ge
    have hm : (a.mantissa : ℚ) + 1 ≤ b.mantissa := by exact_mod_cast hlt
    rw [← heq, upper_cast]
    gcongr
    linarith

theorem Below.value_lt (h : a.Below b) (ha : a.Proper) (hb : b.Proper) : a.value < b.value :=
  ha.between.2.trans (lt_of_le_of_lt (h.upper_le_lower ha hb) hb.between.1)

theorem Below.attracted_le (h : a.Below b) (ha : a.Proper) (hb : b.Proper) (hx : a.Attracts x)
    (hy : b.Attracts y) : x ≤ y := hx.high.trans ((h.upper_le_lower ha hb).trans hy.low)

theorem value_lt_iff (ha : a.Proper) (hb : b.Proper) : a.value < b.value ↔ a.Below b := by
  refine ⟨fun h => ?_, fun h => h.value_lt ha hb⟩
  rcases below_or a b with hbelow | ⟨he, hm⟩ | hbelow
  · exact hbelow
  · rw [value, value, he, hm] at h
    exact absurd h (lt_irrefl _)
  · exact absurd h (hbelow.value_lt hb ha).not_gt

/-- A greater number is rounded to a double that is not smaller. -/
theorem Attracts.value_le (hx : a.Attracts x) (hy : b.Attracts y) (ha : a.Proper) (hb : b.Proper) (h : x < y) :
    a.value ≤ b.value := by
  refine not_lt.1 fun hlt => ?_
  exact absurd h (((value_lt_iff hb ha).1 hlt).attracted_le hb ha hy hx).not_gt

/-- Doubles are attracted by themselves alone. -/
theorem Attracts.value_eq (h : a.Attracts b.value) (ha : a.Proper) (hb : b.Proper) : a.value = b.value := by
  rcases below_or a b with hbelow | ⟨he, hm⟩ | hbelow
  · exact absurd (h.high.trans (hbelow.upper_le_lower ha hb)) (not_le.2 hb.between.1)
  · rw [value, value, he, hm]
  · exact absurd ((hbelow.upper_le_lower hb ha).trans h.low) (not_le.2 hb.between.2)

theorem signed_eq (ha : a.Proper) (hb : b.Proper) (h : a.value = b.value) {sign : Sign} :
    a.signed sign ha.pos = b.signed sign hb.pos := by
  rcases below_or a b with hbelow | ⟨he, hm⟩ | hbelow
  · exact absurd h (hbelow.value_lt ha hb).ne
  · rw [signed, signed, UnpackedFloat.finite.injEq]
    exact ⟨rfl, hm, he⟩
  · exact absurd h (hbelow.value_lt hb ha).ne'

theorem value_pos (hb : b.Proper) : 0 < b.value := by
  have hpos : (0 : ℚ) < b.mantissa := by exact_mod_cast hb.pos
  unfold value
  positivity

section
variable {t : ℕ} {e : ℤ}

/-- What is less than halfway to the next double is rounded down, and what is halfway if the mantissa is even. -/
theorem exists_attracts_down (ht : 2 ^ 52 ≤ t) (ht' : t < 2 ^ 53) (he : -1074 ≤ e) (he' : e ≤ 970)
    (hl : t * (2 : ℚ) ^ e ≤ x) (hx : x < (t + 1 / 2) * 2 ^ e ∨ x = (t + 1 / 2) * 2 ^ e ∧ t % 2 = 0) :
    ∃ b : Binary, b.Proper ∧ b.Attracts x := by
  have hb : Proper ⟨t, e, t = 2 ^ 52 ∧ -1074 < e⟩ :=
    ⟨Nat.lt_of_lt_of_le (by norm_num) ht, ht', he, he'.trans (by norm_num), .inl ht, by simp⟩
  have hlower := hb.between.1
  have hhigh : x ≤ (t + 1 / 2) * 2 ^ e := hx.elim le_of_lt fun h => h.1.le
  have hupper : (upper ⟨t, e, t = 2 ^ 52 ∧ -1074 < e⟩ : ℚ) * 2 ^ (e - 2) = (t + 1 / 2) * 2 ^ e := by
    rw [quarter, upper_cast]
    ring
  refine ⟨_, hb, hlower.le.trans hl, hupper ▸ hhigh, fun hodd => ⟨lt_of_lt_of_le hlower hl, ?_⟩⟩
  dsimp only at hodd ⊢
  rw [hupper]
  exact hx.resolve_right fun h => by omega

/-- What is more than halfway to the next double is rounded up, and what is halfway if that mantissa is even. -/
theorem exists_attracts_up (ht : 2 ^ 52 ≤ t) (ht' : t + 1 < 2 ^ 53) (he : -1074 ≤ e) (he' : e ≤ 970)
    (hl : (t + 1 / 2) * (2 : ℚ) ^ e ≤ x) (hu : x < (t + 1) * 2 ^ e)
    (hx : x = (t + 1 / 2) * 2 ^ e → t % 2 ≠ 0) : ∃ b : Binary, b.Proper ∧ b.Attracts x := by
  have hb : Proper ⟨t + 1, e, false⟩ :=
    ⟨Nat.succ_pos t, ht', he, he'.trans (by norm_num), .inl (ht.trans (Nat.le_succ t)), by simp; omega⟩
  have hlower : (lower ⟨t + 1, e, false⟩ : ℚ) * 2 ^ (e - 2) = (t + 1 / 2) * 2 ^ e := by
    have hnat : lower ⟨t + 1, e, false⟩ = 4 * t + 2 := by
      simp only [lower, Bool.false_eq_true, if_false]
      omega
    rw [quarter, hnat]
    push_cast
    ring
  have hu' : x < ((t + 1 : ℕ) : ℚ) * 2 ^ e := by
    push_cast
    exact hu
  have hupper := hu'.trans hb.between.2
  refine ⟨_, hb, hlower ▸ hl, hupper.le, fun hodd => ⟨?_, hupper⟩⟩
  dsimp only at hodd ⊢
  rw [hlower]
  exact lt_of_le_of_ne hl fun heq => hx heq.symm (by omega)

/-- The double after the last one of a binade is the first one of the next. -/
theorem exists_attracts_carry (he : -1074 ≤ e) (he' : e ≤ 970) (hl : ((2 : ℚ) ^ 53 - 1 / 2) * 2 ^ e ≤ x)
    (hu : x < 2 ^ 53 * 2 ^ e) : ∃ b : Binary, b.Proper ∧ b.Attracts x := by
  have hb : Proper ⟨2 ^ 52, e + 1, true⟩ :=
    ⟨by norm_num, by norm_num, by dsimp only; omega, by dsimp only; omega, .inl le_rfl, by simp; omega⟩
  have htwice : (2 : ℚ) ^ (e + 1) = 2 ^ e * 2 := zpow_add_one₀ two_ne_zero e
  have hlower : (lower ⟨2 ^ 52, e + 1, true⟩ : ℚ) * 2 ^ (e + 1 - 2) = ((2 : ℚ) ^ 53 - 1 / 2) * 2 ^ e := by
    have hnat : (lower ⟨2 ^ 52, e + 1, true⟩ : ℚ) = 2 ^ 54 - 1 := by norm_num [lower]
    rw [quarter, hnat, htwice]
    ring
  have hu' : x < ((2 ^ 52 : ℕ) : ℚ) * 2 ^ (e + 1) := by
    rw [htwice]
    push_cast
    linarith
  exact ⟨_, hb, hlower ▸ hl, (hu'.trans hb.between.2).le, fun hodd => absurd hodd (by norm_num)⟩

/-- A number between two neighbours is rounded to the nearer one, and halfway to the even one. -/
theorem exists_attracts (ht : 2 ^ 52 ≤ t) (ht' : t < 2 ^ 53) (he : -1074 ≤ e) (he' : e ≤ 970)
    (hl : t * (2 : ℚ) ^ e ≤ x) (hu : x < (t + 1) * 2 ^ e) : ∃ b : Binary, b.Proper ∧ b.Attracts x := by
  by_cases hdown : x < (t + 1 / 2) * 2 ^ e ∨ x = (t + 1 / 2) * 2 ^ e ∧ t % 2 = 0
  · exact exists_attracts_down ht ht' he he' hl hdown
  · have hl' : (t + 1 / 2) * 2 ^ e ≤ x := not_lt.1 fun h => hdown (.inl h)
    by_cases hcarry : t + 1 < 2 ^ 53
    · exact exists_attracts_up ht hcarry he he' hl' hu fun heq heven => hdown (.inr ⟨heq, heven⟩)
    · have hlast : (t : ℚ) = 2 ^ 53 - 1 := by
        have hnat : t = 2 ^ 53 - 1 := by omega
        rw [hnat]
        norm_num
      rw [hlast] at hl' hu
      exact exists_attracts_carry he he' (by linarith) (by linarith)

end

/-- A whole number of 64 bits has a nearest double. -/
theorem exists_attracts_whole {n : ℕ} (hn : 0 < n) (h : n < 2 ^ 64) : ∃ b : Binary, b.Proper ∧ b.Attracts n := by
  have hlog : n.log2 < 64 := (Nat.log2_lt hn.ne').2 h
  obtain ⟨hl, hu⟩ := ofNat_full hn
  have hpos : 0 < 2 ^ n.log2 := Nat.two_pow_pos _
  have hscale : (2 : ℚ) ^ (ofNat n).exponent = 2 ^ n.log2 / 2 ^ 52 := by
    have hexponent : (ofNat n).exponent = n.log2 - (52 : ℕ) := rfl
    rw [hexponent, zpow_sub₀ two_ne_zero, zpow_natCast, zpow_natCast]
  have hlow : (ofNat n).mantissa * 2 ^ n.log2 ≤ n * 2 ^ 52 := Nat.div_mul_le_self _ _
  have hhigh : n * 2 ^ 52 < ((ofNat n).mantissa + 1) * 2 ^ n.log2 := by
    rw [Nat.mul_comm _ (2 ^ n.log2)]
    exact Nat.lt_mul_div_succ _ hpos
  have hlow' : ((ofNat n).mantissa : ℚ) * 2 ^ n.log2 ≤ n * 2 ^ 52 := by exact_mod_cast hlow
  have hhigh' : (n : ℚ) * 2 ^ 52 < ((ofNat n).mantissa + 1) * 2 ^ n.log2 := by exact_mod_cast hhigh
  refine exists_attracts hl hu (e := (ofNat n).exponent) ?_ ?_ ?_ ?_
  · simp only [ofNat]
    omega
  · simp only [ofNat]
    omega
  · rw [hscale]
    linarith
  · rw [hscale]
    linarith

end Binary

theorem compare_positive {a b : Binary} (ha : a.Proper) (hb : b.Proper) :
    (compare a.exponent b.exponent).then (compare a.mantissa b.mantissa) = .lt ↔ a.value < b.value := by
  rw [Ordering.then_eq_lt, compare_lt_iff_lt, compare_eq_iff_eq, compare_lt_iff_lt, Binary.value_lt_iff ha hb]
  rfl

theorem compare_negative {a b : Binary} (ha : a.Proper) (hb : b.Proper) :
    ((compare a.exponent b.exponent).then (compare a.mantissa b.mantissa)).swap = .lt ↔ -a.value < -b.value := by
  rw [Ordering.swap_then, ← Std.OrientedOrd.eq_swap, ← Std.OrientedOrd.eq_swap, neg_lt_neg_iff]
  exact compare_positive hb ha

/-- A double that is a number, and the number. -/
inductive Stands : UnpackedFloat → ℚ → Prop
  | zero : Stands (.zero .positive) 0
  | positive {b : Binary} (hb : b.Proper) : Stands (b.signed .positive hb.pos) b.value
  | negative {b : Binary} (hb : b.Proper) : Stands (b.signed .negative hb.pos) (-b.value)

theorem Stands.lt_iff {x y : UnpackedFloat} {u v : ℚ} (hx : Stands x u) (hy : Stands y v) :
    UnpackedFloat.compare x y = some .lt ↔ u < v := by
  have hzero : ¬some Ordering.eq = some .lt := by decide
  have hgreater : ¬some Ordering.gt = some .lt := by decide
  cases hx with
  | zero =>
    cases hy with
    | zero => exact iff_of_false hzero (lt_irrefl 0)
    | positive hb' => exact iff_of_true rfl (Binary.value_pos hb')
    | negative hb' => exact iff_of_false hgreater (neg_lt_zero.2 (Binary.value_pos hb')).not_gt
  | positive hb =>
    have hpos := Binary.value_pos hb
    cases hy with
    | zero => exact iff_of_false hgreater hpos.not_gt
    | positive hb' => exact Option.some_inj.trans (compare_positive hb hb')
    | negative hb' =>
      have hlt := (neg_lt_zero.2 (Binary.value_pos hb')).trans hpos
      exact iff_of_false hgreater hlt.not_gt
  | negative hb =>
    have hneg := neg_lt_zero.2 (Binary.value_pos hb)
    cases hy with
    | zero => exact iff_of_true rfl hneg
    | positive hb' => exact iff_of_true rfl (hneg.trans (Binary.value_pos hb'))
    | negative hb' => exact Option.some_inj.trans (compare_negative hb hb')

/-- The integer is rounded to the double, which stands for the number. -/
inductive Rounds : ℤ → Float → ℚ → Prop
  | zero : Rounds 0 (Float.ofModel (Float.Model.pack (.zero .positive))) 0
  | positive {n : ℕ} {b : Binary} (hn : 0 < n) (hb : b.Proper) (hx : b.Attracts n) :
    Rounds n (Float.ofModel (Float.Model.pack (b.signed .positive hb.pos))) b.value
  | negative {n : ℕ} {b : Binary} (hn : 0 < n) (hb : b.Proper) (hx : b.Attracts n) :
    Rounds (-n) (Float.ofModel (Float.Model.pack (b.signed .negative hb.pos))) (-b.value)

theorem neg_toFloat {n : ℕ} (hn : 0 < n) (h : n < 2 ^ 64) {b : Binary} (hb : b.Proper) (hx : b.Attracts n) :
    -n.toUInt64.toFloat = Float.ofModel (Float.Model.pack (b.signed .negative hb.pos)) := by
  rw [toFloat_eq hn h hb hx]
  have hneg : -Float.ofModel (Float.Model.pack (b.unsigned hb.pos)) =
    Float.ofModel (Float.Model.pack (Float.Model.pack (b.unsigned hb.pos)).unpack.neg) := rfl
  rw [hneg, Binary.unsigned, hb.unpack_pack]
  rfl

theorem rounds_nearestFloat (a : Int64) : ∃ v, Rounds a.toInt (nearestFloat a) v := by
  have hleast := a.le_toInt
  have hgreatest := a.toInt_lt
  unfold nearestFloat
  by_cases hneg : a < 0
  · have hlt : a.toInt < 0 := Int64.lt_iff_toInt_lt.1 hneg
    obtain ⟨b, hb, hx⟩ := Binary.exists_attracts_whole (n := a.toInt.natAbs) (by omega) (by omega)
    rw [if_pos hneg, neg_toFloat (by omega) (by omega) hb hx]
    have hint : -(a.toInt.natAbs : ℤ) = a.toInt := by omega
    have hrounds := Rounds.negative (by omega) hb hx
    rw [hint] at hrounds
    exact ⟨_, hrounds⟩
  · have hge : 0 ≤ a := Int64.not_lt.1 hneg
    have hge' : 0 ≤ a.toInt := Int64.le_iff_toInt_le.1 hge
    have hword : a.toUInt64 = a.toInt.natAbs.toUInt64 := by
      refine UInt64.toNat_inj.1 ?_
      rw [Int64.toNat_toUInt64_of_le hge, Nat.toUInt64_eq, UInt64.toNat_ofNat', Nat.mod_eq_of_lt (by omega)]
      exact (Int.natAbs_of_nonneg hge' ▸ rfl : a.toInt.toNat = a.toInt.natAbs)
    rw [if_neg hneg, hword]
    rcases Nat.eq_zero_or_pos a.toInt.natAbs with hzero | hpos
    · rw [hzero, Int.natAbs_eq_zero.1 hzero]
      exact ⟨0, .zero⟩
    · obtain ⟨b, hb, hx⟩ := Binary.exists_attracts_whole hpos (by omega)
      have hrounds := Rounds.positive hpos hb hx
      rw [Int.natAbs_of_nonneg hge'] at hrounds
      rw [toFloat_eq hpos (by omega) hb hx]
      exact ⟨_, hrounds⟩

section
variable {n k : ℤ} {x y : Float} {u v : ℚ}

theorem Rounds.stands (h : Rounds n x u) : Stands x.toModel.unpack u := by
  cases h with
  | zero => exact .zero
  | positive _ hb _ => exact (hb.unpack_pack .positive).symm ▸ .positive hb
  | negative _ hb _ => exact (hb.unpack_pack .negative).symm ▸ .negative hb

/-- Doubles are compared as the numbers that they stand for. -/
theorem Rounds.lt_iff (hx : Rounds n x u) (hy : Rounds k y v) : x < y ↔ u < v := by
  have hlt : x < y ↔
      decide ((UnpackedFloat.compare x.toModel.unpack y.toModel.unpack == some .lt) = true) = true := Iff.rfl
  rw [hlt, decide_eq_true_iff, beq_iff_eq]
  exact hx.stands.lt_iff hy.stands

/-- A double stands for one number. -/
theorem Rounds.unique (hx : Rounds n x u) (hy : Rounds k x v) : u = v := by
  have hirrefl : ¬x < x := fun h => lt_irrefl u ((hx.lt_iff hx).1 h)
  exact le_antisymm (not_lt.1 fun h => hirrefl ((hy.lt_iff hx).2 h)) (not_lt.1 fun h => hirrefl ((hx.lt_iff hy).2 h))

/-- The order of the integers is kept, except that some of them fall together. -/
theorem Rounds.mono (hx : Rounds n x u) (hy : Rounds k y v) (h : n < k) : u ≤ v := by
  cases hx with
  | zero =>
    cases hy with
    | zero => exact le_rfl
    | positive _ hb' _ => exact (Binary.value_pos hb').le
    | negative => omega
  | positive _ hb hx =>
    cases hy with
    | zero => omega
    | positive _ hb' hx' => exact hx.value_le hx' hb hb' (by exact_mod_cast h)
    | negative => omega
  | negative _ hb hx =>
    have hpos := Binary.value_pos hb
    cases hy with
    | zero => linarith
    | positive _ hb' _ => linarith [Binary.value_pos hb']
    | negative _ hb' hx' => exact neg_le_neg (hx'.value_le hx hb' hb (by exact_mod_cast Int.neg_lt_neg_iff.1 h))

/-- There is one double for each number. -/
theorem Rounds.ext (hx : Rounds n x u) (hy : Rounds k y v) (h : u = v) : x = y := by
  cases hx with
  | zero =>
    cases hy with
    | zero => rfl
    | positive _ hb' _ => linarith [Binary.value_pos hb']
    | negative _ hb' _ => linarith [Binary.value_pos hb']
  | positive _ hb _ =>
    cases hy with
    | zero => linarith [Binary.value_pos hb]
    | positive _ hb' _ => rw [Binary.signed_eq hb hb' h]
    | negative _ hb' _ => linarith [Binary.value_pos hb, Binary.value_pos hb']
  | negative _ hb _ =>
    cases hy with
    | zero => linarith [Binary.value_pos hb]
    | positive _ hb' _ => linarith [Binary.value_pos hb, Binary.value_pos hb']
    | negative _ hb' _ => rw [Binary.signed_eq hb hb' (neg_inj.1 h)]

/-- Integers of at most 53 bits are doubles themselves. -/
theorem Rounds.exact (hx : Rounds n x u) (h : n.natAbs ≤ 2 ^ 53) : u = n := by
  have hvalue {n : ℕ} {b : Binary} (hn : 0 < n) (hb : b.Proper) (hx : b.Attracts n) (h : n ≤ 2 ^ 53) :
      b.value = n := by
    have hdvd : 2 ^ n.log2 ∣ n * 2 ^ 52 := by
      rcases h.lt_or_eq with hlt | rfl
      · exact dvd_mul_of_dvd_right (pow_dvd_pow 2 (log2_le_of_lt hlt)) n
      · decide +kernel
    have hlog : n.log2 < 54 := (Nat.log2_lt hn.ne').2 (h.trans_lt (by norm_num))
    have hself : (Binary.ofNat n).value = n := Binary.ofNat_value hdvd
    rw [← hself] at hx ⊢
    exact hx.value_eq hb (Binary.ofNat_proper hn (by omega))
  cases hx with
  | zero => rfl
  | positive hn hb hx =>
    rw [hvalue hn hb hx (by omega), Int.cast_natCast]
  | negative hn hb hx =>
    rw [hvalue hn hb hx (by omega), Int.cast_neg, Int.cast_natCast]

end

end Scriptlet.Decimal
