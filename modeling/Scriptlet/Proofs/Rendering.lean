import Mathlib.Logic.Relation
import Scriptlet.Proofs.Equality

/-! Values written for people, also when containers share parts and hold themselves. What is written is a
drawing of the value: a finite tree, in which dots stand for a container just where it is open already. That
the tree is finite is seen from the containers that are not open yet. Where no container holds itself there
are no dots, and every container is written out in full wherever it stands. -/
namespace Scriptlet

namespace Store

variable (s : Store)

def held : Cell → List Value
  | .array r => (s.array r).toList
  | .map r => (s.map r).values

/-- A container, given how the values that it holds are written. -/
def bracketed : Cell → List String → String
  | .array _, texts => "[" ++ ", ".intercalate texts ++ "]"
  | .map r, texts => "\x7b" ++ ", ".intercalate
      (List.zipWith (fun key text => Text.quoted key ++ ": " ++ text) (s.map r).keys texts) ++ "\x7d"

theorem cellText_open {open_ : List Cell} {c : Cell} (h : c ∈ open_) (n : Nat) :
    s.cellText (n + 1) open_ c = dots c := by
  rw [cellText, if_pos h]

theorem cellText_new {open_ : List Cell} {c : Cell} (h : c ∉ open_) (n : Nat) :
    s.cellText (n + 1) open_ c =
      s.bracketed c ((s.held c).map (Value.textWith s (s.cellText n (c :: open_)) true)) := by
  rw [cellText, if_neg h]
  cases c with
  | array r => rfl
  | map r =>
    simp only [bracketed, held, Dictionary.keys, Dictionary.values, List.map_map, List.zipWith_map,
      List.zipWith_self]
    rfl

end Store

/-- The value is no container, and no error with data that may be one. -/
def Value.isPlain : Value → Bool
  | array _ | map _ | error _ (some _) => false
  | _ => true

theorem Value.textWith_plain {v : Value} (h : v.isPlain = true) (s : Store) (f g : Cell → String)
    (quoted : Bool) : v.textWith s f quoted = v.textWith s g quoted := by
  cases v with
  | array | map => cases h
  | error message data =>
    cases data with
    | none => rfl
    | some x => cases h
  | _ => rfl

theorem Cell.isPlain_value (c : Cell) : c.value.isPlain = false := by
  cases c <;> rfl

theorem Cell.textWith_value (c : Cell) (s : Store) (f : Cell → String) (quoted : Bool) :
    c.value.textWith s f quoted = f c := by
  cases c <;> rfl

theorem Cell.value_inj {c e : Cell} (h : c.value = e.value) : c = e := by
  cases c <;> cases e <;> cases h <;> rfl

theorem Cell.value_ne_error (c : Cell) (message : String) (data : Option Value) :
    c.value ≠ .error message data := by
  cases c <;> exact nofun

/-- A value with a container in it: it is one, or an error whose data have one in them. -/
inductive Value.Mentions : Value → Cell → Prop
  | self (c : Cell) : Mentions c.value c
  | data (message : String) {x : Value} {c : Cell} (h : Mentions x c) : Mentions (.error message (some x)) c

/-- The second container stands in the first one. -/
def Store.PointsTo (s : Store) (c e : Cell) : Prop := ∃ v ∈ s.held c, v.Mentions e

/-- The container is in the value, or in a container that the value leads to. -/
def Store.Reaches (s : Store) (v : Value) (c : Cell) : Prop :=
  ∃ e, v.Mentions e ∧ Relation.ReflTransGen s.PointsTo e c

/-- The value leads to no container that stands, however deep, in itself. -/
def Store.Acyclic (s : Store) (v : Value) : Prop := ∀ c, s.Reaches v c → ¬Relation.TransGen s.PointsTo c c

/-- Containers written out wherever they stand, down to a level at which nothing is written. -/
def Store.naiveCell (s : Store) : (levels : Nat) → Cell → String
  | 0, _ => ""
  | n + 1, c => s.bracketed c ((s.held c).map (Value.textWith s (s.naiveCell n) true))

/-- The naive rendering of a value, to the given level. -/
def Store.naive (s : Store) (levels : Nat) (quoted : Bool) (v : Value) : String :=
  v.textWith s (s.naiveCell levels) quoted

/-- What is seen of a value when it is written: text without containers, an error with its data, dots, or a
container with what it holds. -/
inductive Drawing where
  | plain (v : Value)
  | error (message : String) (data : Drawing)
  | dots (c : Cell)
  | full (c : Cell) (items : List Drawing)

namespace Drawing

instance : Inhabited Drawing := ⟨plain .undefined⟩

mutual

def text (s : Store) (quoted : Bool) : Drawing → String
  | plain v => v.textWith s (fun _ => "") quoted
  | error message data => "error: " ++ message ++ " (" ++ data.text s true ++ ")"
  | dots c => Store.dots c
  | full c items => s.bracketed c (texts s items)

def texts (s : Store) : List Drawing → List String
  | [] => []
  | d :: ds => d.text s true :: texts s ds

end

theorem texts_eq_map (s : Store) (ds : List Drawing) : texts s ds = ds.map (text s true) := by
  induction ds with
  | nil => rfl
  | cons d ds ih => rw [texts, ih, List.map_cons]

/-- A drawing shows a value if it follows the store, up to dots for containers. -/
inductive Shows (s : Store) : Drawing → Value → Prop
  | plain {v : Value} (h : v.isPlain = true) : Shows s (plain v) v
  | error (message : String) {d : Drawing} {x : Value} (h : Shows s d x) :
    Shows s (error message d) (.error message (some x))
  | dots (c : Cell) : Shows s (dots c) c.value
  | full (c : Cell) {ds : List Drawing} (hlength : ds.length = (s.held c).length)
    (h : ∀ p ∈ ds.zip (s.held c), Shows s p.1 p.2) : Shows s (full c ds) c.value

/-- A drawing in another one, with the containers that are open where it stands, given those that are open
around the other one. -/
inductive Occurs (x : Drawing) : (around : List Cell) → Drawing → (open_ : List Cell) → Prop
  | self (open_ : List Cell) : Occurs x open_ x open_
  | data {around open_ : List Cell} (message : String) {d : Drawing} (h : Occurs x around d open_) :
    Occurs x around (error message d) open_
  | item {around open_ : List Cell} {c : Cell} {ds : List Drawing} {d : Drawing} (hd : d ∈ ds)
    (h : Occurs x (c :: around) d open_) : Occurs x around (full c ds) open_

/-- Dots stand for the containers that are open already, and only for these. -/
structure Exact (around : List Cell) (d : Drawing) : Prop where
  dots : ∀ c open_, Occurs (.dots c) around d open_ → c ∈ open_
  full : ∀ c items open_, Occurs (.full c items) around d open_ → c ∉ open_

variable {around : List Cell} {s : Store}

theorem exact_plain (v : Value) : Exact around (plain v) where
  dots c open_ h := by cases h
  full c items open_ h := by cases h

theorem Exact.error {d : Drawing} (h : Exact around d) (message : String) : Exact around (error message d) where
  dots c open_ hc := by
    cases hc with
    | data _ hc => exact h.dots c open_ hc
  full c items open_ hc := by
    cases hc with
    | data _ hc => exact h.full c items open_ hc

theorem exact_dots {c : Cell} (h : c ∈ around) : Exact around (.dots c) where
  dots e open_ he := by
    cases he with
    | self => exact h
  full e items open_ he := by cases he

theorem exact_full {c : Cell} {ds : List Drawing} (hc : c ∉ around) (h : ∀ d ∈ ds, Exact (c :: around) d) :
    Exact around (.full c ds) where
  dots e open_ he := by
    cases he with
    | item hd he => exact (h _ hd).dots e open_ he
  full e items open_ he := by
    cases he with
    | self => exact hc
    | item hd he => exact (h _ hd).full e items open_ he

/-- The drawing shows the value, and it is what is written when containers are written by `cell`. -/
structure Written (s : Store) (around : List Cell) (cell : Cell → String) (v : Value) (d : Drawing) : Prop where
  shows : d.Shows s v
  exact : d.Exact around
  text : ∀ quoted, v.textWith s cell quoted = d.text s quoted

theorem written_value {cell : Cell → String} (h : ∀ c : Cell, ∃ d, Written s around cell c.value d) :
    ∀ v : Value, ∃ d, Written s around cell v d
  | .array r => h (.array r)
  | .map r => h (.map r)
  | .error message (some x) => by
    obtain ⟨d, hshows, hexact, htext⟩ := written_value h x
    refine ⟨.error message d, .error message hshows, hexact.error message, fun quoted => ?_⟩
    rw [Value.textWith, htext, Drawing.text]
  | .error message none => ⟨_, .plain rfl, exact_plain _, fun _ => rfl⟩
  | .null | .undefined | .bool _ | .int _ | .float _ | .string _ | .function _ | .native _ | .class_ _
  | .instance_ _ => ⟨_, .plain rfl, exact_plain _, fun _ => rfl⟩

end Drawing

namespace Store

variable (s : Store)

def cells : Finset Cell :=
  (Finset.range s.arrays.size).image .array ∪ (Finset.range s.maps.size).image .map

theorem card_cells_lt : s.cells.card < s.cellLimit := by
  refine Nat.lt_succ_of_le (Nat.le_trans (Finset.card_union_le _ _) (Nat.add_le_add ?_ ?_))
  · exact Nat.le_trans Finset.card_image_le (Nat.le_of_eq (Finset.card_range _))
  · exact Nat.le_trans Finset.card_image_le (Nat.le_of_eq (Finset.card_range _))

/-- Only containers of the store hold something. -/
theorem mem_cells {c : Cell} (h : s.held c ≠ []) : c ∈ s.cells := by
  cases c with
  | array r =>
    have hr : r < s.arrays.size := by
      by_contra hr
      simp [held, array_of_size_le (Nat.le_of_not_lt hr)] at h
    exact Finset.mem_union_left _ (Finset.mem_image_of_mem _ (Finset.mem_range.2 hr))
  | map r =>
    have hr : r < s.maps.size := by
      by_contra hr
      simp [held, map_of_size_le (Nat.le_of_not_lt hr), Dictionary.empty, Dictionary.values] at h
    exact Finset.mem_union_right _ (Finset.mem_image_of_mem _ (Finset.mem_range.2 hr))

theorem closed_lt {around : List Cell} {c : Cell} (hc : c ∈ s.cells) (hnew : c ∉ around) :
    (s.cells \ (c :: around).toFinset).card < (s.cells \ around.toFinset).card := by
  apply Finset.card_lt_card
  rw [Finset.ssubset_iff_of_subset]
  · exact ⟨c, by simp [hc, hnew], by simp⟩
  · exact Finset.sdiff_subset_sdiff subset_rfl (by simp)

end Store

namespace Drawing

variable {s : Store}

/-- A container that is not open yet, once what it holds can be drawn. -/
theorem written_full {around : List Cell} {c : Cell} {n : Nat} (hnew : c ∉ around)
    (h : ∀ v ∈ s.held c, ∃ d, Written s (c :: around) (s.cellText n (c :: around)) v d) :
    ∃ d, Written s around (s.cellText (n + 1) around) c.value d := by
  choose! draw hdraw using h
  refine ⟨.full c ((s.held c).map draw), .full c (by simp) ?_, exact_full hnew ?_, fun quoted => ?_⟩
  · rw [List.zip, List.zipWith_map_left, List.zipWith_self, List.forall_mem_map]
    exact fun v hv => (hdraw v hv).shows
  · rw [List.forall_mem_map]
    exact fun v hv => (hdraw v hv).exact
  · rw [Cell.textWith_value, s.cellText_new hnew, text, texts_eq_map, List.map_map]
    congr 1
    exact List.map_congr_left fun v hv => (hdraw v hv).text true

/-- A limit above the number of containers that can still be opened is not reached. -/
theorem written_within (n : Nat) : ∀ around : List Cell, (s.cells \ around.toFinset).card < n →
    ∀ v, ∃ d, Written s around (s.cellText n around) v d := by
  induction n with
  | zero => exact fun _ h => absurd h (Nat.not_lt_zero _)
  | succ n ih =>
    intro around hlt
    refine written_value fun c => ?_
    by_cases hopen : c ∈ around
    · refine ⟨.dots c, .dots c, exact_dots hopen, fun quoted => ?_⟩
      rw [Cell.textWith_value, s.cellText_open hopen, text]
    · refine written_full hopen fun v hv => ih (c :: around) ?_ v
      have hc := s.mem_cells (List.ne_nil_of_mem hv)
      exact Nat.lt_of_lt_of_le (s.closed_lt hc hopen) (Nat.le_of_lt_succ hlt)

theorem written_root (s : Store) (v : Value) : ∃ d, Written s [] (s.cellText s.cellLimit []) v d := by
  refine written_within _ [] ?_ v
  rw [List.toFinset_nil, Finset.sdiff_empty]
  exact s.card_cells_lt

theorem Exact.of_error {around : List Cell} {message : String} {d : Drawing}
    (h : Exact around (.error message d)) : Exact around d where
  dots c open_ hc := h.dots c open_ (.data message hc)
  full c items open_ hc := h.full c items open_ (.data message hc)

theorem Exact.of_full {around : List Cell} {c : Cell} {ds : List Drawing} {d : Drawing}
    (h : Exact around (.full c ds)) (hd : d ∈ ds) : Exact (c :: around) d where
  dots e open_ he := h.dots e open_ (.item hd he)
  full e items open_ he := h.full e items open_ (.item hd he)

theorem Shows.of_plain {d : Drawing} {v : Value} (h : Shows s d v) (hv : v.isPlain = true) : d = .plain v := by
  cases h with
  | plain => rfl
  | error => cases hv
  | dots c | full c =>
    rw [c.isPlain_value] at hv
    cases hv

theorem Shows.of_error {d : Drawing} {message : String} {x : Value}
    (h : Shows s d (.error message (some x))) : ∃ data, d = .error message data ∧ Shows s data x := by
  generalize hv : Value.error message (some x) = v at h
  cases h with
  | plain hplain =>
    subst hv
    cases hplain
  | error message' hdata =>
    cases hv
    exact ⟨_, rfl, hdata⟩
  | dots c | full c => exact absurd hv.symm (c.value_ne_error _ _)

theorem Shows.of_cell {d : Drawing} {c : Cell} (h : Shows s d c.value) :
    d = .dots c ∨ ∃ ds, d = .full c ds ∧ ds.length = (s.held c).length ∧
      ∀ p ∈ ds.zip (s.held c), Shows s p.1 p.2 := by
  generalize hv : c.value = v at h
  cases h with
  | plain hplain =>
    rw [← hv, c.isPlain_value] at hplain
    cases hplain
  | error => exact absurd hv (c.value_ne_error _ _)
  | dots e =>
    cases Cell.value_inj hv
    exact .inl rfl
  | full e hlength hitems =>
    cases Cell.value_inj hv
    exact .inr ⟨_, rfl, hlength, hitems⟩

theorem mem_zip_getElem {α β : Type} {xs : List α} {ys : List β} {i : Nat} (hx : i < xs.length)
    (hy : i < ys.length) : (xs[i], ys[i]) ∈ xs.zip ys :=
  List.mem_iff_getElem.2 ⟨i, by simp [hx, hy], List.getElem_zip⟩

theorem Shows.unique {d : Drawing} {v : Value} (h : Shows s d v) : ∀ {around : List Cell} {d' : Drawing},
    Exact around d → Shows s d' v → Exact around d' → d = d' := by
  induction h with
  | plain hplain => exact fun _ h' _ => (h'.of_plain hplain).symm
  | error message h ih =>
    intro around d' hexact h' hexact'
    obtain ⟨data, rfl, hdata⟩ := h'.of_error
    rw [ih hexact.of_error hdata hexact'.of_error]
  | dots c =>
    intro around d' hexact h' hexact'
    rcases h'.of_cell with rfl | ⟨ds, rfl, -⟩
    · rfl
    · exact absurd (hexact.dots c around (.self _)) (hexact'.full c ds around (.self _))
  | @full c ds hlength h ih =>
    intro around d' hexact h' hexact'
    rcases h'.of_cell with rfl | ⟨ds', rfl, hlength', h'⟩
    · exact absurd (hexact'.dots c around (.self _)) (hexact.full c ds around (.self _))
    · congr 1
      refine List.ext_getElem (hlength.trans hlength'.symm) fun i hi hi' => ?_
      have hheld : i < (s.held c).length := hlength ▸ hi
      exact ih _ (mem_zip_getElem hi hheld) (hexact.of_full (List.getElem_mem hi))
        (h' _ (mem_zip_getElem hi' hheld)) (hexact'.of_full (List.getElem_mem hi'))

/-- The open containers lead to all that are in a value, and so does the value `v`. -/
structure Under (s : Store) (v : Value) (open_ : List Cell) (w : Value) : Prop where
  opened : ∀ o ∈ open_, ∀ e, w.Mentions e → Relation.TransGen s.PointsTo o e
  root : ∀ e, w.Mentions e → s.Reaches v e

theorem Under.item {v w : Value} {around : List Cell} {c : Cell} (h : Under s v around c.value)
    (hw : w ∈ s.held c) : Under s v (c :: around) w where
  opened o ho e he := by
    have hstep : s.PointsTo c e := ⟨w, hw, he⟩
    rcases List.mem_cons.1 ho with rfl | ho
    · exact .single hstep
    · exact .tail (h.opened o ho c (.self c)) hstep
  root e he := by
    obtain ⟨a, ha, hreach⟩ := h.root c (.self c)
    exact ⟨a, ha, hreach.tail ⟨w, hw, he⟩⟩

/-- Containers that are open around dots lead to the container that the dots stand for. -/
theorem Occurs.leads {v : Value} {c : Cell} {around open_ : List Cell} {d : Drawing}
    (h : Occurs (.dots c) around d open_) : ∀ {w : Value}, Shows s d w → Under s v around w →
      Under s v open_ c.value := by
  induction h with
  | self =>
    intro w hd hw
    cases hd
    exact hw
  | data message h ih =>
    intro w hd hw
    cases hd with
    | error _ hd =>
      exact ih hd ⟨fun o ho e he => hw.opened o ho e (.data _ he), fun e he => hw.root e (.data _ he)⟩
  | item hmem h ih =>
    intro w hd hw
    cases hd with
    | full _ hlength hitems =>
      obtain ⟨i, hi, rfl⟩ := List.mem_iff_getElem.1 hmem
      have hpair := mem_zip_getElem hi (hlength ▸ hi)
      exact ih (hitems _ hpair) (hw.item (List.of_mem_zip hpair).2)

theorem Exact.no_dots {d : Drawing} {v : Value} (h : d.Exact []) (hd : Shows s d v) (hv : s.Acyclic v) (c : Cell)
    (open_ : List Cell) : ¬Occurs (.dots c) [] d open_ := by
  intro hc
  have hunder := hc.leads hd (v := v) ⟨nofun, fun e he => ⟨e, he, .refl⟩⟩
  exact hv c (hunder.root c (.self c)) (hunder.opened c (h.dots c open_ hc) c (.self c))

theorem exists_bound {α : Type} {P : α → Nat → Prop} (xs : List α) (h : ∀ x ∈ xs, ∃ k, ∀ n, k ≤ n → P x n) :
    ∃ k, ∀ x ∈ xs, ∀ n, k ≤ n → P x n := by
  induction xs with
  | nil => exact ⟨0, nofun⟩
  | cons x xs ih =>
    obtain ⟨k, hk⟩ := h x (List.mem_cons_self)
    obtain ⟨m, hm⟩ := ih fun y hy => h y (List.mem_cons_of_mem x hy)
    refine ⟨max k m, fun y hy n hn => ?_⟩
    rcases List.mem_cons.1 hy with rfl | hy
    · exact hk n (by omega)
    · exact hm y hy n (by omega)

/-- A drawing without dots is what the naive rendering writes. -/
theorem Shows.naive {d : Drawing} {v : Value} (hd : Shows s d v) : ∀ {around : List Cell},
    (∀ c open_, ¬Occurs (.dots c) around d open_) →
    ∃ k, ∀ n, k ≤ n → ∀ quoted, s.naive n quoted v = d.text s quoted := by
  induction hd with
  | plain hplain => exact fun _ => ⟨0, fun n _ quoted => Value.textWith_plain hplain s _ _ quoted⟩
  | error message hd ih =>
    intro around hfull
    obtain ⟨k, hk⟩ := ih fun c open_ hc => hfull c open_ (.data message hc)
    refine ⟨k, fun n hn quoted => ?_⟩
    have hdata := hk n hn true
    rw [Store.naive] at hdata ⊢
    rw [Value.textWith, hdata, text]
  | dots c => exact fun hfull => (hfull c _ (.self _)).elim
  | @full c ds hlength hd ih =>
    intro around hfull
    obtain ⟨k, hk⟩ := exists_bound (ds.zip (s.held c)) fun p hp =>
      ih p hp fun e open_ he => hfull e open_ (.item (List.of_mem_zip hp).1 he)
    refine ⟨k + 1, fun n hn quoted => ?_⟩
    obtain ⟨m, rfl⟩ : ∃ m, n = m + 1 := ⟨n - 1, by omega⟩
    rw [Store.naive, Cell.textWith_value, Store.naiveCell, text, texts_eq_map]
    congr 1
    calc (s.held c).map (s.naive m true)
        = ((ds.zip (s.held c)).map Prod.snd).map (s.naive m true) := by
          rw [List.map_snd_zip (Nat.le_of_eq hlength.symm)]
      _ = ((ds.zip (s.held c)).map Prod.fst).map (text s true) := by
          rw [List.map_map, List.map_map]
          exact List.map_congr_left fun p hp => hk p hp m (by omega) true
      _ = ds.map (text s true) := by rw [List.map_fst_zip (Nat.le_of_eq hlength)]

end Drawing

end Scriptlet
