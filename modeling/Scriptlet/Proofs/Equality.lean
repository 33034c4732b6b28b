import Mathlib.Data.Finset.Prod
import Mathlib.Order.Bounds.Basic
import Scriptlet.Value.Equality

/-! Equality by content, for containers that share parts and hold themselves. A comparison takes two
containers for equal while they are being compared, and only then. That it ends is seen from the pairs of
containers that are not open yet. That it overlooks no difference is seen from how far away differences
are: on the way to the nearest one, no pair is met again. -/
namespace Scriptlet

/-- One step of equality by content, where `R` compares what the values hold. -/
inductive Value.Alike (s : Store) (R : Value → Value → Prop) : Value → Value → Prop
  | null : Alike s R .null .null
  | undefined : Alike s R .undefined .undefined
  | bool (a : Bool) : Alike s R (.bool a) (.bool a)
  | int (a : Int64) : Alike s R (.int a) (.int a)
  | float {a b : Float} (h : (a == b) = true) : Alike s R (.float a) (.float b)
  | intFloat {a : Int64} {b : Float} (h : (nearestFloat a == b) = true) : Alike s R (.int a) (.float b)
  | floatInt {a : Int64} {b : Float} (h : (nearestFloat a == b) = true) : Alike s R (.float b) (.int a)
  | string (a : String) : Alike s R (.string a) (.string a)
  | function (r : Nat) : Alike s R (.function r) (.function r)
  | native (f : Native) : Alike s R (.native f) (.native f)
  | class_ (r : Nat) : Alike s R (.class_ r) (.class_ r)
  | instance_ (r : Nat) : Alike s R (.instance_ r) (.instance_ r)
  | bareError (message : String) : Alike s R (.error message none) (.error message none)
  | error (message : String) {x y : Value} (h : R x y) :
    Alike s R (.error message (some x)) (.error message (some y))
  | sameArray (r : Nat) : Alike s R (.array r) (.array r)
  | array {i j : Nat} (h : List.Forall₂ R (s.array i).toList (s.array j).toList) :
    Alike s R (.array i) (.array j)
  | sameMap (r : Nat) : Alike s R (.map r) (.map r)
  | map {i j : Nat} (hsize : (s.map i).size = (s.map j).size)
    (h : ∀ e ∈ (s.map i).entries, ∃ y, (s.map j).get? e.1 = some y ∧ R e.2 y) :
    Alike s R (.map i) (.map j)

/-- The relation takes values for equal only if they are alike in all that they hold. -/
def Store.Respects (s : Store) (R : Value → Value → Prop) : Prop := ∀ x y, R x y → Value.Alike s R x y

namespace Cell

def value : Cell → Value
  | array r => .array r
  | map r => .map r

def isArray : Cell → Bool
  | array _ => true
  | map _ => false

end Cell

namespace Store

variable (s : Store)

def extent : Cell → Nat
  | .array r => (s.array r).size
  | .map r => (s.map r).size

/-- The values that a container holds, each with the one at its place in another container. -/
def counterparts : Cell → Cell → List (Value × Option Value)
  | .array i, .array j => ((s.array i).toList.zip (s.array j).toList).map fun p => (p.1, some p.2)
  | .map i, .map j => (s.map i).entries.map fun e => (e.2, (s.map j).get? e.1)
  | _, _ => []

variable {s}

theorem forall₂_iff_counterparts {R : Value → Value → Prop} {xs ys : List Value} :
    List.Forall₂ R xs ys ↔ xs.length = ys.length ∧
      ∀ p ∈ (xs.zip ys).map fun p => (p.1, some p.2), ∃ y, p.2 = some y ∧ R p.1 y := by
  rw [List.forall₂_iff_zip, List.forall_mem_map]
  simp

end Store

/-- Containers of one kind are alike if they are the same one, or if they hold equally many values and each
has a counterpart that is taken for equal. -/
theorem Value.alike_cells_iff {s : Store} {R : Value → Value → Prop} {a b : Cell}
    (hkind : a.isArray = b.isArray) : Value.Alike s R a.value b.value ↔
      a = b ∨ s.extent a = s.extent b ∧ ∀ p ∈ s.counterparts a b, ∃ y, p.2 = some y ∧ R p.1 y := by
  match a, b, hkind with
  | .array i, .array j, _ =>
    have hitems : List.Forall₂ R (s.array i).toList (s.array j).toList ↔
        s.extent (.array i) = s.extent (.array j) ∧
          ∀ p ∈ s.counterparts (.array i) (.array j), ∃ y, p.2 = some y ∧ R p.1 y := by
      rw [Store.forall₂_iff_counterparts]
      rfl
    rw [← hitems]
    constructor
    · intro h
      cases h with
      | sameArray => exact .inl rfl
      | array h => exact .inr h
    · rintro (h | h)
      · cases h
        exact .sameArray i
      · exact .array h
  | .map i, .map j, _ =>
    have hentries : (∀ p ∈ s.counterparts (.map i) (.map j), ∃ y, p.2 = some y ∧ R p.1 y) ↔
        ∀ e ∈ (s.map i).entries, ∃ y, (s.map j).get? e.1 = some y ∧ R e.2 y := List.forall_mem_map
    rw [hentries]
    constructor
    · intro h
      cases h with
      | sameMap => exact .inl rfl
      | map hsize h => exact .inr ⟨hsize, h⟩
    · rintro (h | ⟨hsize, h⟩)
      · cases h
        exact .sameMap i
      · exact .map hsize h
  | .array i, .map j, h => cases h
  | .map i, .array j, h => cases h

theorem Value.Alike.mono {s : Store} {R S : Value → Value → Prop} (h : ∀ x y, R x y → S x y) {x y : Value}
    (hxy : Alike s R x y) : Alike s S x y := by
  cases hxy with
  | error message hdata => exact .error message (h _ _ hdata)
  | array hitems => exact .array (hitems.imp h)
  | map hsize hentries =>
    refine .map hsize fun e he => ?_
    obtain ⟨y, hy, hey⟩ := hentries e he
    exact ⟨y, hy, h _ _ hey⟩
  | float hab => exact .float hab
  | intFloat hab => exact .intFloat hab
  | floatInt hab => exact .floatInt hab
  | _ => constructor

/-- Values that hold nothing which would have to be compared. -/
def Value.Flat : Value → Value → Prop
  | array _, array _ | map _, map _ | error _ (some _), error _ (some _) => False
  | _, _ => True

mutual

/-- The course of a comparison while the `open_` pairs are being compared, with its answer. The premises
of a rule are the comparisons that it makes, so those that end, and only those, have a derivation. -/
inductive Store.Compares (s : Store) : List (Cell × Cell) → Value → Value → Bool → Prop
  | flat {open_ : List (Cell × Cell)} {x y : Value} (h : x.Flat y) :
    Compares s open_ x y (x.equalWith (fun _ _ => false) y)
  | messages {open_ : List (Cell × Cell)} {a b : String} (x y : Value) (h : a ≠ b) :
    Compares s open_ (.error a (some x)) (.error b (some y)) false
  | data {open_ : List (Cell × Cell)} (a : String) {x y : Value} {answer : Bool}
    (h : Compares s open_ x y answer) :
    Compares s open_ (.error a (some x)) (.error a (some y)) answer
  | met {open_ : List (Cell × Cell)} {a b : Cell} (hkind : a.isArray = b.isArray)
    (h : a = b ∨ (a, b) ∈ open_) : Compares s open_ a.value b.value true
  | extents {open_ : List (Cell × Cell)} {a b : Cell} (hkind : a.isArray = b.isArray)
    (hnew : ¬(a = b ∨ (a, b) ∈ open_)) (h : s.extent a ≠ s.extent b) :
    Compares s open_ a.value b.value false
  | held {open_ : List (Cell × Cell)} {a b : Cell} {answer : Bool} (hkind : a.isArray = b.isArray)
    (hnew : ¬(a = b ∨ (a, b) ∈ open_)) (hextent : s.extent a = s.extent b)
    (h : ComparesAll s ((a, b) :: open_) (s.counterparts a b) answer) :
    Compares s open_ a.value b.value answer

/-- Values are compared with their counterparts one after another, up to the first that differs. -/
inductive Store.ComparesAll (s : Store) : List (Cell × Cell) → List (Value × Option Value) → Bool → Prop
  | nil {open_ : List (Cell × Cell)} : ComparesAll s open_ [] true
  | missing {open_ : List (Cell × Cell)} (x : Value) (rest : List (Value × Option Value)) :
    ComparesAll s open_ ((x, none) :: rest) false
  | differs {open_ : List (Cell × Cell)} {x y : Value} (rest : List (Value × Option Value))
    (h : Compares s open_ x y false) : ComparesAll s open_ ((x, some y) :: rest) false
  | agrees {open_ : List (Cell × Cell)} {x y : Value} {rest : List (Value × Option Value)} {answer : Bool}
    (h : Compares s open_ x y true) (hrest : ComparesAll s open_ rest answer) :
    ComparesAll s open_ ((x, some y) :: rest) answer

end

namespace Store

variable {s : Store}

theorem cellsEqual_met (n : Nat) {open_ : List (Cell × Cell)} {a b : Cell} (h : a = b ∨ (a, b) ∈ open_) :
    s.cellsEqual (n + 1) open_ a b = true := by
  unfold cellsEqual
  exact if_pos (by simpa using h)

/-- One level of the comparison of two containers. -/
theorem cellsEqual_new (n : Nat) {open_ : List (Cell × Cell)} {a b : Cell} (hkind : a.isArray = b.isArray)
    (hnew : ¬(a = b ∨ (a, b) ∈ open_)) :
    s.cellsEqual (n + 1) open_ a b = (s.extent a = s.extent b && (s.counterparts a b).all fun p =>
      p.2.any (p.1.equalWith (s.cellsEqual n ((a, b) :: open_)))) := by
  unfold cellsEqual
  rw [if_neg (by simpa using hnew)]
  match a, b, hkind with
  | .array i, .array j, _ =>
    rw [counterparts, List.all_map]
    rfl
  | .map i, .map j, _ =>
    rw [counterparts, List.all_map]
    rfl

def cellPairs (s : Store) : Finset (Cell × Cell) :=
  (Finset.range s.arrays.size ×ˢ Finset.range s.arrays.size).image (fun p => (.array p.1, .array p.2)) ∪
    (Finset.range s.maps.size ×ˢ Finset.range s.maps.size).image fun p => (.map p.1, .map p.2)

theorem card_cellPairs_lt (s : Store) : s.cellPairs.card < s.pairLimit := by
  refine Nat.lt_succ_of_le (Nat.le_trans (Finset.card_union_le _ _) (Nat.add_le_add ?_ ?_))
  · refine Nat.le_trans Finset.card_image_le ?_
    simp
  · refine Nat.le_trans Finset.card_image_le ?_
    simp

def unopened (s : Store) (open_ : List (Cell × Cell)) : Finset (Cell × Cell) :=
  s.cellPairs \ open_.toFinset

theorem unopened_lt {open_ : List (Cell × Cell)} {p : Cell × Cell} (hp : p ∈ s.cellPairs)
    (hnew : p ∉ open_) : (s.unopened (p :: open_)).card < (s.unopened open_).card := by
  apply Finset.card_lt_card
  rw [Finset.ssubset_iff_of_subset]
  · exact ⟨p, by simp [unopened, hp, hnew], by simp [unopened]⟩
  · exact Finset.sdiff_subset_sdiff subset_rfl (by simp)

theorem array_of_size_le {r : Nat} (h : s.arrays.size ≤ r) : s.array r = #[] := by
  simp [array, h]

theorem map_of_size_le {r : Nat} (h : s.maps.size ≤ r) : s.map r = .empty := by
  simp [Store.map, h]

/-- Only containers of the store hold something. -/
theorem mem_cellPairs {a b : Cell} (hextent : s.extent a = s.extent b) (h : s.counterparts a b ≠ []) :
    (a, b) ∈ s.cellPairs := by
  match a, b with
  | .array i, .array j =>
    have hi : i < s.arrays.size := by
      by_contra hi
      simp [counterparts, array_of_size_le (Nat.le_of_not_lt hi)] at h
    have hj : j < s.arrays.size := by
      by_contra hj
      simp [counterparts, array_of_size_le (Nat.le_of_not_lt hj)] at h
    exact Finset.mem_union_left _ (Finset.mem_image.2 ⟨(i, j), by simp [hi, hj], rfl⟩)
  | .map i, .map j =>
    have hi : i < s.maps.size := by
      by_contra hi
      simp [counterparts, map_of_size_le (Nat.le_of_not_lt hi), Dictionary.empty] at h
    have hj : j < s.maps.size := by
      by_contra hj
      have hnone : (s.map i).size = 0 := by
        have hempty : s.extent (.map j) = 0 := by
          simp [extent, map_of_size_le (Nat.le_of_not_lt hj), Dictionary.empty, Dictionary.size]
        exact hextent.trans hempty
      simp [counterparts, List.length_eq_zero_iff.1 hnone] at h
    exact Finset.mem_union_right _ (Finset.mem_image.2 ⟨(i, j), by simp [hi, hj], rfl⟩)
  | .array i, .map j => exact (h rfl).elim
  | .map i, .array j => exact (h rfl).elim

theorem compares_all {open_ : List (Cell × Cell)} {f : Cell → Cell → Bool}
    (h : ∀ x y : Value, s.Compares open_ x y (x.equalWith f y)) (ps : List (Value × Option Value)) :
    s.ComparesAll open_ ps (ps.all fun p => p.2.any (p.1.equalWith f)) := by
  induction ps with
  | nil => exact .nil
  | cons p ps ih =>
    obtain ⟨x, y⟩ := p
    cases y with
    | none => exact .missing x ps
    | some y =>
      have hxy := h x y
      cases hanswer : x.equalWith f y with
      | false =>
        rw [hanswer] at hxy
        simpa [hanswer] using ComparesAll.differs ps hxy
      | true =>
        rw [hanswer] at hxy
        simpa [hanswer] using ComparesAll.agrees hxy ih

theorem compares_values {open_ : List (Cell × Cell)} {f : Cell → Cell → Bool}
    (h : ∀ a b : Cell, a.isArray = b.isArray → s.Compares open_ a.value b.value (f a b)) (x y : Value) :
    s.Compares open_ x y (x.equalWith f y) := by
  fun_induction Value.equalWith f x y with
  | case1 a b => exact .flat (x := .int a) (y := .float b) trivial
  | case2 a b => exact .flat (x := .float a) (y := .int b) trivial
  | case3 i j => exact h (.array i) (.array j) rfl
  | case4 i j => exact h (.map i) (.map j) rfl
  | case5 a b => exact .flat (x := .error a none) (y := .error b none) trivial
  | case6 a x b y ih =>
    by_cases hab : a = b
    · simpa [hab] using Compares.data a ih
    · simpa [hab] using Compares.messages x y hab
  | case7 x y hintFloat hfloatInt harrays hmaps hbare herrors =>
    have hflat : x.Flat y := by
      unfold Value.Flat
      split
      · exact harrays _ _ rfl rfl
      · exact hmaps _ _ rfl rfl
      · exact herrors _ _ _ _ rfl rfl
      · trivial
    rw [← Value.equalWith.eq_7 (fun _ _ => false) x y hintFloat hfloatInt harrays hmaps hbare herrors]
    exact .flat hflat

/-- A limit above the number of pairs that can still be opened is not reached. -/
theorem compares_within (n : Nat) : ∀ open_ : List (Cell × Cell), (s.unopened open_).card < n →
    ∀ x y : Value, s.Compares open_ x y (x.equalWith (s.cellsEqual n open_) y) := by
  induction n with
  | zero => exact fun _ h => absurd h (Nat.not_lt_zero _)
  | succ n ih =>
    intro open_ hlt
    refine compares_values fun a b hkind => ?_
    by_cases hmet : a = b ∨ (a, b) ∈ open_
    · rw [cellsEqual_met n hmet]
      exact .met hkind hmet
    · rw [cellsEqual_new n hkind hmet]
      by_cases hextent : s.extent a = s.extent b
      · simp only [hextent, decide_true, Bool.true_and]
        refine .held hkind hmet hextent ?_
        by_cases hnone : s.counterparts a b = []
        · rw [hnone]
          exact .nil
        · have hless := unopened_lt (mem_cellPairs hextent hnone) fun h => hmet (.inr h)
          exact compares_all (ih _ (by omega)) _
      · simp only [hextent, decide_false, Bool.false_and]
        exact .extents hkind hmet hextent

theorem compares_equal (x y : Value) : s.Compares [] x y (s.equal x y) := by
  refine compares_within _ [] ?_ x y
  exact Nat.lt_of_le_of_lt (Finset.card_le_card Finset.sdiff_subset) s.card_cellPairs_lt

/-- The values differ in nothing that is fewer than so many steps away. -/
def Near (s : Store) : Nat → Value → Value → Prop
  | 0 => fun _ _ => True
  | k + 1 => Value.Alike s (Near s k)

theorem Near.of_succ {k : Nat} : ∀ {x y : Value}, s.Near (k + 1) x y → s.Near k x y := by
  induction k with
  | zero => exact fun _ => trivial
  | succ k ih => exact fun h => Value.Alike.mono (fun _ _ => ih) h

theorem ComparesAll.counterpart {open_ : List (Cell × Cell)} {ps : List (Value × Option Value)}
    (h : s.ComparesAll open_ ps true) : ∀ p ∈ ps, ∃ y, p.2 = some y ∧ s.Compares open_ p.1 y true := by
  induction ps with
  | nil => exact fun p hp => absurd hp List.not_mem_nil
  | cons p ps ih =>
    cases h with
    | agrees hxy hrest => exact List.forall_mem_cons.2 ⟨⟨_, rfl, hxy⟩, ih hrest⟩

theorem alike_of_identical {R : Value → Value → Prop} {x y : Value} (h : x.identical y = true) :
    Value.Alike s R x y := by
  fun_cases Value.identical x y with
  | case1 => exact .null
  | case2 => exact .undefined
  | case3 a b => exact of_decide_eq_true h ▸ .bool a
  | case4 a b => exact of_decide_eq_true h ▸ .int a
  | case5 a b => exact .float h
  | case6 a b => exact of_decide_eq_true h ▸ .string a
  | case7 a b => exact of_decide_eq_true h ▸ .sameArray a
  | case8 a b => exact of_decide_eq_true h ▸ .sameMap a
  | case9 a b => exact of_decide_eq_true h ▸ .function a
  | case10 a b => exact of_decide_eq_true h ▸ .class_ a
  | case11 a b => exact of_decide_eq_true h ▸ .instance_ a
  | case12 a b => exact of_decide_eq_true h ▸ .native a
  | case13 => simp_all [Value.identical]

theorem alike_of_flat {R : Value → Value → Prop} {x y : Value} (h : x.Flat y)
    (heq : x.equalWith (fun _ _ => false) y = true) : Value.Alike s R x y := by
  fun_cases Value.equalWith (fun _ _ => false) x y with
  | case1 a b => exact .intFloat heq
  | case2 a b => exact .floatInt heq
  | case3 | case4 | case6 => exact h.elim
  | case5 a b => exact of_decide_eq_true heq ▸ .bareError a
  | case7 x y hintFloat hfloatInt harrays hmaps hbare herrors =>
    rw [Value.equalWith.eq_7 _ x y hintFloat hfloatInt harrays hmaps hbare herrors] at heq
    exact alike_of_identical heq

/-- Where a comparison finds no difference, there is none near by, if the pairs that are open have none. The
pair itself joins them one step further on, where a difference would be one step nearer. -/
theorem Compares.near {k : Nat} : ∀ {open_ : List (Cell × Cell)} {x y : Value}, s.Compares open_ x y true →
    (∀ p ∈ open_, s.Near k p.1.value p.2.value) → s.Near k x y := by
  induction k with
  | zero => exact fun _ _ => trivial
  | succ k ih =>
    intro open_ x y h hopen
    have hopen' : ∀ p ∈ open_, s.Near k p.1.value p.2.value := fun p hp => (hopen p hp).of_succ
    have hclose : s.Near k x y := ih h hopen'
    generalize hanswer : true = answer at h
    cases h with
    | flat hflat => exact alike_of_flat hflat hanswer.symm
    | messages => cases hanswer
    | data a hdata =>
      subst hanswer
      exact .error a (ih hdata hopen')
    | @met _ a b hkind hmet =>
      rcases hmet with hsame | hmem
      · exact (Value.alike_cells_iff hkind).2 (.inl hsame)
      · exact hopen (a, b) hmem
    | extents => cases hanswer
    | @held _ a b _ hkind hnew hextent hall =>
      subst hanswer
      refine (Value.alike_cells_iff hkind).2 (.inr ⟨hextent, fun p hp => ?_⟩)
      obtain ⟨y, hy, hcompares⟩ := hall.counterpart p hp
      exact ⟨y, hy, ih hcompares (List.forall_mem_cons.2 ⟨hclose, hopen'⟩)⟩

/-- What holds at every distance holds of all that is held. -/
theorem alike_forall {R : Nat → Value → Value → Prop} {x y : Value} (h : ∀ k, Value.Alike s (R k) x y) :
    Value.Alike s (fun x y => ∀ k, R k x y) x y := by
  have hcells {a b : Cell} (hkind : a.isArray = b.isArray) (h : ∀ k, Value.Alike s (R k) a.value b.value) :
      Value.Alike s (fun x y => ∀ k, R k x y) a.value b.value := by
    rw [Value.alike_cells_iff hkind]
    by_cases hab : a = b
    · exact .inl hab
    · have hall (k : Nat) := ((Value.alike_cells_iff hkind).1 (h k)).resolve_left hab
      refine .inr ⟨(hall 0).1, fun p hp => ?_⟩
      obtain ⟨y, hy, -⟩ := (hall 0).2 p hp
      refine ⟨y, hy, fun k => ?_⟩
      obtain ⟨y', hy', hk⟩ := (hall k).2 p hp
      cases hy.symm.trans hy'
      exact hk
  cases h 0 with
  | error message _ =>
    refine .error message fun k => ?_
    cases h k with
    | error _ hdata => exact hdata
  | @array i j _ => exact hcells (a := .array i) (b := .array j) rfl h
  | @map i j _ _ => exact hcells (a := .map i) (b := .map j) rfl h
  | float hab => exact .float hab
  | intFloat hab => exact .intFloat hab
  | floatInt hab => exact .floatInt hab
  | _ => constructor

theorem equalWith_of_respects {R : Value → Value → Prop} (hR : s.Respects R) {f : Cell → Cell → Bool}
    (hf : ∀ a b : Cell, a.isArray = b.isArray → R a.value b.value → f a b = true) {x y : Value}
    (h : R x y) : x.equalWith f y = true := by
  fun_induction Value.equalWith f x y with
  | case1 a b =>
    cases hR _ _ h with
    | intFloat hab => exact hab
  | case2 a b =>
    cases hR _ _ h with
    | floatInt hab => exact hab
  | case3 i j => exact hf (.array i) (.array j) rfl h
  | case4 i j => exact hf (.map i) (.map j) rfl h
  | case5 a b =>
    cases hR _ _ h with
    | bareError => exact decide_eq_true rfl
  | case6 a x b y ih =>
    cases hR _ _ h with
    | error _ hdata => simpa using ih hdata
  | case7 x y hintFloat hfloatInt harrays hmaps hbare herrors =>
    cases hR _ _ h with
    | null | undefined => rfl
    | float hab => exact hab
    | bool | int | string | function | native | class_ | instance_ => exact decide_eq_true rfl
    | intFloat => exact (hintFloat _ _ rfl rfl).elim
    | floatInt => exact (hfloatInt _ _ rfl rfl).elim
    | bareError => exact (hbare _ _ rfl rfl).elim
    | error => exact (herrors _ _ _ _ rfl rfl).elim
    | sameArray | array => exact (harrays _ _ rfl rfl).elim
    | sameMap | map => exact (hmaps _ _ rfl rfl).elim

theorem cellsEqual_of_respects {R : Value → Value → Prop} (hR : s.Respects R) (n : Nat) :
    ∀ (open_ : List (Cell × Cell)) (a b : Cell), a.isArray = b.isArray → R a.value b.value →
      s.cellsEqual n open_ a b = true := by
  induction n with
  | zero => exact fun _ _ _ _ _ => rfl
  | succ n ih =>
    intro open_ a b hkind h
    by_cases hmet : a = b ∨ (a, b) ∈ open_
    · exact cellsEqual_met n hmet
    · rw [cellsEqual_new n hkind hmet]
      obtain ⟨hextent, hall⟩ :=
        ((Value.alike_cells_iff hkind).1 (hR _ _ h)).resolve_left fun hab => hmet (.inl hab)
      rw [Bool.and_eq_true, List.all_eq_true]
      refine ⟨decide_eq_true hextent, fun p hp => ?_⟩
      obtain ⟨y, hy, hpy⟩ := hall p hp
      rw [hy]
      exact equalWith_of_respects hR (ih _) hpy

theorem equal_of_respects {R : Value → Value → Prop} (hR : s.Respects R) {x y : Value} (h : R x y) :
    s.equal x y = true :=
  equalWith_of_respects hR (cellsEqual_of_respects hR _ _) h

/-- Values that are found equal are alike in all that they hold. -/
theorem respects_equal : s.Respects fun x y => s.equal x y = true := by
  have hnear : s.Respects fun x y => ∀ k, s.Near k x y := fun x y h => alike_forall fun k => h (k + 1)
  intro x y h
  have hcompares : s.Compares [] x y true := h ▸ compares_equal x y
  have hxy : ∀ k, s.Near k x y := fun k => hcompares.near fun p hp => absurd hp List.not_mem_nil
  exact (hnear x y hxy).mono fun x y h => equal_of_respects hnear h

theorem equal_iff_alike {x y : Value} :
    s.equal x y = true ↔ Value.Alike s (fun x y => s.equal x y = true) x y := by
  refine ⟨respects_equal x y, fun h => ?_⟩
  have hstep : s.Respects (Value.Alike s fun x y => s.equal x y = true) := fun x y h => h.mono respects_equal
  exact equal_of_respects hstep h

end Store

/-- Every comparison of two values ends, whatever containers share and hold. The values that are found equal
are those of the greatest relation that takes values for equal only if they are alike in all that they
hold. -/
theorem equality_is_greatest (s : Store) :
    (∀ x y : Value, s.Compares [] x y (s.equal x y)) ∧
      IsGreatest {R | s.Respects R} fun x y => s.equal x y = true := by
  exact ⟨fun x y => Store.compares_equal x y, Store.respects_equal, fun R hR x y h => Store.equal_of_respects hR h⟩

-- two arrays that hold each other before an equal number, and one that holds itself before another number
example :
    let s : Store := { arrays := #[#[.array 1, .int 1], #[.array 0, .float 1.0], #[.array 2, .int 2]] }
    s.equal (.array 0) (.array 1) = true ∧ s.equal (.array 0) (.array 2) = false := by decide

end Scriptlet
