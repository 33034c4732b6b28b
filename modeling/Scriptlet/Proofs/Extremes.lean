import Scriptlet.Eval.Builtin
import Scriptlet.Eval.Operator
import Scriptlet.Proofs.Decimal.Whole

/-! The least and the greatest of several integers. They are compared as doubles, while the operators compare
integers as they are: the two agree on integers with different nearest doubles. -/
namespace Scriptlet

open Decimal

section
variable {beats : Float → Float → Bool}

def better (beats : Float → Float → Bool) (best x : Int64) : Int64 :=
  if beats (nearestFloat x) (nearestFloat best) then x else best

def scored (x : Int64) : Option (Value × Float) := some (.int x, nearestFloat x)

theorem foldlM_scored {step : Option (Value × Float) → Value → Except String (Option (Value × Float))}
    (hstep : ∀ best x, step (scored best) (.int x) = .ok (scored (better beats best x))) (numbers : List Int64)
    (best : Int64) :
    (numbers.map .int).foldlM step (scored best) = .ok (scored (numbers.foldl (better beats) best)) := by
  induction numbers generalizing best with
  | nil => rfl
  | cons x numbers ih =>
    rw [List.map_cons, List.foldlM_cons, hstep]
    exact ih _

theorem extremum_cons {name : String} (x : Int64) (numbers : List Int64) :
    Builtin.extremum name beats ((x :: numbers).map .int) = .ok (.int (numbers.foldl (better beats) x)) := by
  unfold Builtin.extremum
  rw [List.map_cons, List.foldlM_cons]
  change (List.foldlM _ (scored x) _ >>= _) = _
  rw [foldlM_scored]
  · rfl
  · intro best x
    exact congrArg Except.ok (apply_ite scored (beats (nearestFloat x) (nearestFloat best)) x best).symm

theorem max_apply_cons (now : Except String Float) (s : Store) (x : Int64) (numbers : List Int64) :
    Builtin.max.apply now ((x :: numbers).map .int) s =
      (.ok (.int (numbers.foldl (better fun x y => x > y) x)), s) := congrArg (·, s) (extremum_cons x numbers)

variable {cost : Int64 → ℚ}

/-- One comparison keeps an integer that costs no more than either. -/
theorem better_le (hbeats : ∀ a b, beats (nearestFloat a) (nearestFloat b) = true ↔ cost a < cost b)
    (best x : Int64) :
    cost (better beats best x) ≤ cost best ∧ cost (better beats best x) ≤ cost x := by
  unfold better
  split
  · next h => exact ⟨((hbeats _ _).1 h).le, le_rfl⟩
  · next h => exact ⟨le_rfl, not_lt.1 fun hlt => h ((hbeats _ _).2 hlt)⟩

theorem better_mem (beats : Float → Float → Bool) (best x : Int64) :
    better beats best x = best ∨ better beats best x = x := by
  unfold better
  split
  · exact .inr rfl
  · exact .inl rfl

/-- All comparisons together keep one that costs no more than any. -/
theorem foldl_better (hbeats : ∀ a b, beats (nearestFloat a) (nearestFloat b) = true ↔ cost a < cost b)
    (numbers : List Int64) (best : Int64) :
    numbers.foldl (better beats) best ∈ best :: numbers ∧
      ∀ x ∈ best :: numbers, cost (numbers.foldl (better beats) best) ≤ cost x := by
  induction numbers generalizing best with
  | nil => simp
  | cons x numbers ih =>
    obtain ⟨hmem, hle⟩ := ih (better beats best x)
    obtain ⟨hbest, hx⟩ := better_le hbeats best x
    have hkept := hle _ List.mem_cons_self
    rw [List.foldl_cons]
    refine ⟨?_, ?_⟩
    · rcases List.mem_cons.1 hmem with heq | hmem
      · rcases better_mem beats best x with hkeep | hkeep
        · rw [heq, hkeep]
          exact List.mem_cons_self
        · rw [heq, hkeep]
          exact .tail _ List.mem_cons_self
      · exact .tail _ (.tail _ hmem)
    · rw [List.forall_mem_cons, List.forall_mem_cons]
      exact ⟨hkept.trans hbest, hkept.trans hx, fun y hy => hle y (.tail _ hy)⟩

theorem extremum_least (beats : Float → Float → Bool) (cost : Int64 → ℚ)
    (hbeats : ∀ a b, beats (nearestFloat a) (nearestFloat b) = true ↔ cost a < cost b)
    {numbers : List Int64} (h : numbers ≠ []) (name : String) :
    ∃ best ∈ numbers, Builtin.extremum name beats (numbers.map .int) = .ok (.int best) ∧
      ∀ x ∈ numbers, cost best ≤ cost x := by
  obtain ⟨x, numbers, rfl⟩ := List.exists_cons_of_ne_nil h
  obtain ⟨hmem, hle⟩ := foldl_better hbeats numbers x
  exact ⟨_, hmem, extremum_cons x numbers, hle⟩

end

/-- The integers are equal or have different nearest doubles. -/
def Told (x y : Int64) : Prop := nearestFloat x = nearestFloat y → x = y

theorem Told.symm {x y : Int64} (h : Told x y) : Told y x := fun heq => (h heq.symm).symm

theorem told_of_natAbs_le {x y : Int64} (hx : x.toInt.natAbs ≤ 2 ^ 53) (hy : y.toInt.natAbs ≤ 2 ^ 53) :
    Told x y := by
  intro heq
  obtain ⟨u, hu⟩ := rounds_nearestFloat x
  obtain ⟨v, hv⟩ := rounds_nearestFloat y
  have huv : u = v := hu.unique (heq ▸ hv)
  rw [hu.exact hx, hv.exact hy] at huv
  exact Int64.toInt_inj.1 (Int.cast_injective huv)

/-- Told apart, integers stand in the order of their nearest doubles. -/
theorem Told.le {cost : Int64 → ℚ} (hcost : ∀ a, Rounds a.toInt (nearestFloat a) (cost a)) {x y : Int64}
    (h : Told x y) (hle : cost x ≤ cost y) : x.toInt ≤ y.toInt := by
  refine not_lt.1 fun hlt => ?_
  have heq : cost x = cost y := le_antisymm hle ((hcost y).mono (hcost x) hlt)
  rw [h ((hcost x).ext (hcost y) heq)] at hlt
  exact lt_irrefl _ hlt

theorem less_false (s : Store) {x y : Int64} (h : y.toInt ≤ x.toInt) :
    BinaryOp.apply s (.relate .less) (.int x) (.int y) = .ok (.bool false) := by
  have hne : compare x.toInt y.toInt ≠ .lt := fun hlt => not_lt.2 h (compare_lt_iff_lt.1 hlt)
  exact congrArg (fun b => Except.ok (Value.bool b)) (decide_eq_false hne)

theorem greater_false (s : Store) {x y : Int64} (h : x.toInt ≤ y.toInt) :
    BinaryOp.apply s (.relate .greater) (.int x) (.int y) = .ok (.bool false) := by
  have hne : compare x.toInt y.toInt ≠ .gt := fun hgt => not_lt.2 h (compare_gt_iff_gt.1 hgt)
  exact congrArg (fun b => Except.ok (Value.bool b)) (decide_eq_false hne)

/-- The least of several integers is one that no other is less than, unless they share a nearest double, and so is
the greatest; integers of at most 53 bits never share one. -/
theorem extremes_agree_with_operators (now : Except String Float) (s : Store) {numbers : List Int64}
    (h : numbers ≠ []) :
    (∃ low ∈ numbers, Builtin.min.apply now (numbers.map .int) s = (.ok (.int low), s) ∧
      ∀ x ∈ numbers, Told x low →
        BinaryOp.apply s (.relate .less) (.int x) (.int low) = .ok (.bool false)) ∧
    (∃ high ∈ numbers, Builtin.max.apply now (numbers.map .int) s = (.ok (.int high), s) ∧
      ∀ x ∈ numbers, Told x high →
        BinaryOp.apply s (.relate .greater) (.int x) (.int high) = .ok (.bool false)) ∧
    ∀ x y : Int64, x.toInt.natAbs ≤ 2 ^ 53 → y.toInt.natAbs ≤ 2 ^ 53 → Told x y := by
  obtain ⟨cost, hcost⟩ := Classical.skolem.1 rounds_nearestFloat
  have hless (a b : Int64) : decide (nearestFloat a < nearestFloat b) = true ↔ cost a < cost b := by
    rw [decide_eq_true_iff, (hcost a).lt_iff (hcost b)]
  have hgreater (a b : Int64) : decide (nearestFloat a > nearestFloat b) = true ↔ -cost a < -cost b := by
    rw [decide_eq_true_iff, gt_iff_lt, (hcost b).lt_iff (hcost a), neg_lt_neg_iff]
  obtain ⟨low, hlow, hmin, hleast⟩ := extremum_least (fun x y => x < y) cost hless h "min"
  obtain ⟨high, hhigh, hmax, hgreatest⟩ := extremum_least (fun x y => x > y) (fun a => -cost a) hgreater h "max"
  refine ⟨⟨low, hlow, ?_, fun x hx htold => ?_⟩, ⟨high, hhigh, ?_, fun x hx htold => ?_⟩,
    fun x y => told_of_natAbs_le⟩
  · exact congrArg (·, s) hmin
  · exact less_false s (htold.symm.le hcost (hleast x hx))
  · exact congrArg (·, s) hmax
  · exact greater_false s (htold.le hcost (neg_le_neg_iff.1 (hgreatest x hx)))

theorem extremes_agree_with_operators_limit :
    Builtin.max.apply (.ok 0) [.int 3, .int 9007199254740992, .int (-4)] {} = (.ok (.int 9007199254740992), {}) ∧
      ∀ x ∈ [(3 : Int64), 9007199254740992, -4],
        BinaryOp.apply {} (.relate .greater) (.int x) (.int 9007199254740992) = .ok (.bool false) := by
  have hmax := max_apply_cons (.ok 0) {} 3 [9007199254740992, -4]
  have hbest : [9007199254740992, -4].foldl (better fun x y => x > y) 3 = 9007199254740992 := by decide +kernel
  rw [hbest] at hmax
  obtain ⟨-, ⟨high, -, happly, hle⟩, htold⟩ :=
    extremes_agree_with_operators (.ok 0) {} (List.cons_ne_nil 3 [9007199254740992, -4])
  rw [hmax] at happly
  cases happly
  have hshort : ∀ x ∈ [(3 : Int64), 9007199254740992, -4], x.toInt.natAbs ≤ 2 ^ 53 := by
    rw [List.forall_mem_cons, List.forall_mem_cons, List.forall_mem_singleton]
    exact ⟨by decide +kernel, by decide +kernel, by decide +kernel⟩
  exact ⟨hmax, fun x hx => hle x hx (htold _ _ (hshort x hx) (by decide +kernel))⟩

/-- Two integers that share a nearest double: the first is taken for the greatest, and the operator finds the other
one greater. -/
theorem greatest_of_shared_double :
    Builtin.max.apply (.ok 0) [.int 9007199254740992, .int 9007199254740993] {} = (.ok (.int 9007199254740992), {}) ∧
      BinaryOp.apply {} (.relate .greater) (.int 9007199254740993) (.int 9007199254740992) = .ok (.bool true) := by
  have hmax := max_apply_cons (.ok 0) {} 9007199254740992 [9007199254740993]
  have hbest : [9007199254740993].foldl (better fun x y => x > y) 9007199254740992 = 9007199254740992 := by
    decide +kernel
  rw [hbest] at hmax
  exact ⟨hmax, rfl⟩

end Scriptlet
