import Scriptlet.Eval.Evaluator

/-! What a program can see of a store: everything but the code of functions and classes, of which only the
names show. Stores that agree on that much give the same answers to all that is asked of them. -/
namespace Scriptlet

namespace Store

/-- The stores agree on all but the code that functions and classes hold. -/
structure Resembles (s t : Store) : Prop where
  frames : s.frames = t.frames
  arrays : s.arrays = t.arrays
  maps : s.maps = t.maps
  instances : s.instances = t.instances
  functionName : ∀ r : Nat, (s.functions[r]?).bind (·.name) = (t.functions[r]?).bind (·.name)
  className : ∀ r : Nat, s.className r = t.className r

namespace Resembles

variable {s t : Store} (h : s.Resembles t)
include h

omit h in
theorem textWith_eq (h : s.Resembles t) (cell : Cell → String) :
    ∀ (v : Value) (quoted : Bool), v.textWith s cell quoted = v.textWith t cell quoted
  | .function r, _ => by simp only [Value.textWith, h.functionName r]
  | .class_ r, _ => by simp only [Value.textWith, h.className r]
  | .instance_ r, _ => by
    have hn : s.className = t.className := funext h.className
    simp only [Value.textWith, h.instances, hn]
  | .error _ (some data), _ => by simp only [Value.textWith, textWith_eq h cell data true]
  | .error _ none, _ | .null, _ | .undefined, _ | .bool _, _ | .int _, _ | .float _, _
  | .string _, _ | .array _, _ | .map _, _ | .native _, _ => rfl

theorem cellText_eq (limit : Nat) : s.cellText limit = t.cellText limit := by
  induction limit with
  | zero => rfl
  | succ n ih =>
    funext open_ c
    have hinner : ∀ v : Value, v.textWith s (s.cellText n (c :: open_)) true =
        v.textWith t (t.cellText n (c :: open_)) true := fun v => by rw [ih, h.textWith_eq]
    cases c with
    | array r => simp only [Store.cellText, Store.array, h.arrays, hinner]
    | map r => simp only [Store.cellText, Store.map, h.maps, hinner]

theorem display_eq (v : Value) : s.display v = t.display v := by
  have hl : s.cellLimit = t.cellLimit := by simp only [Store.cellLimit, h.arrays, h.maps]
  rw [Store.display, Store.display, hl, h.cellText_eq, h.textWith_eq]

theorem cellsEqual_eq (limit : Nat) : s.cellsEqual limit = t.cellsEqual limit := by
  induction limit with
  | zero => rfl
  | succ n ih =>
    have ha : s.array = t.array := funext fun r => by rw [Store.array, Store.array, h.arrays]
    have hm : s.map = t.map := funext fun r => by rw [Store.map, Store.map, h.maps]
    funext open_ a b
    unfold Store.cellsEqual
    rw [ih, ha, hm]

theorem equal_eq (x y : Value) : s.equal x y = t.equal x y := by
  have hl : s.pairLimit = t.pairLimit := by simp only [Store.pairLimit, h.arrays, h.maps]
  rw [Store.equal, Store.equal, hl, h.cellsEqual_eq]

theorem slot?_eq (env : Env) (name : String) : s.slot? env name = t.slot? env name := by
  simp only [Store.slot?, Store.frame, h.frames]

theorem get?_eq (env : Env) (name : String) : s.get? env name = t.get? env name := by
  rw [Store.get?, Store.get?, h.slot?_eq]

theorem getLocal?_eq (env : Env) (name : String) : s.getLocal? env name = t.getLocal? env name := by
  simp only [Store.getLocal?, Store.frame, h.frames]

theorem member_eq (r : Nat) (name : String) :
    ((s.instances[r]?).bind fun i => s.getLocal? i.env name) =
      (t.instances[r]?).bind fun i => t.getLocal? i.env name := by
  have hg : (fun i : Instance => s.getLocal? i.env name) = fun i => t.getLocal? i.env name :=
    funext fun i => h.getLocal?_eq i.env name
  rw [h.instances, hg]

theorem compute_eq (op : ComputeOp) (x y : Value) : op.apply s x y = op.apply t x y := by
  cases op <;> simp only [ComputeOp.apply, h.display_eq]

theorem relate_eq (op : RelateOp) (x y : Value) : op.apply s x y = op.apply t x y := by
  cases op <;> simp only [RelateOp.apply, h.equal_eq]

theorem at_eq (object key : Value) : object.at s key = object.at t key := by
  unfold Value.at
  simp only [Store.array, Store.map, h.arrays, h.maps]

/-- The answers are the same, and what is done to the one store is done to the other; so whatever relation
holds between the stores still holds if it outlives changes to arrays. -/
theorem builtin {R : Store → Store → Prop} (hR : R s t)
    (hpush : ∀ r item, R (s.push r item) (t.push r item)) (hpop : ∀ r, R (s.pop r) (t.pop r))
    (hnew : ∀ items, R (s.newArray items).2 (t.newArray items).2)
    (f : Builtin) (now : Except String Float) (arguments : List Value) :
    (f.apply now arguments s).1 = (f.apply now arguments t).1 ∧
      R (f.apply now arguments s).2 (f.apply now arguments t).2 := by
  have hlength : ∀ v, Builtin.length s v = Builtin.length t v := fun v => by
    simp only [Builtin.length, Store.array, Store.map, h.arrays, h.maps]
  have hcontains : ∀ v w, Builtin.contains s v w = Builtin.contains t v w := fun v w => by
    simp only [Builtin.contains, Store.array, Store.map, h.arrays, h.maps, h.equal_eq]
  have hmap : ∀ r, s.map r = t.map r := fun r => by rw [Store.map, Store.map, h.maps]
  have hcell : ∀ items, (s.newArray items).1 = (t.newArray items).1 := fun items => by
    simp only [Store.newArray, h.arrays]
  unfold Builtin.apply
  split
  · exact ⟨hlength _, hR⟩
  · exact ⟨rfl, hR⟩
  · exact ⟨by rw [h.display_eq], hR⟩
  · exact ⟨rfl, hR⟩
  · exact ⟨rfl, hR⟩
  · exact ⟨by simp only [Store.array, h.arrays], hpush _ _⟩
  · exact ⟨rfl, hR⟩
  · exact ⟨by simp only [Store.array, h.arrays], hpop _⟩
  · exact ⟨rfl, hR⟩
  · rw [hmap]
    exact ⟨congrArg Except.ok (hcell _), hnew _⟩
  · exact ⟨rfl, hR⟩
  · rw [hmap]
    exact ⟨congrArg Except.ok (hcell _), hnew _⟩
  · exact ⟨rfl, hR⟩
  · exact ⟨hcontains _ _, hR⟩
  · exact ⟨by rw [h.display_eq], hR⟩
  · exact ⟨by rw [h.display_eq], hR⟩
  · exact ⟨rfl, hR⟩
  · exact ⟨rfl, hR⟩
  · exact ⟨rfl, hR⟩
  · exact ⟨rfl, hR⟩
  · exact ⟨rfl, hR⟩
  · exact ⟨rfl, hR⟩

end Resembles

end Store

end Scriptlet
