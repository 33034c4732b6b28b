import Scriptlet.Proofs.Marks
import Scriptlet.Proofs.StoredCode

/-! Domains. A domain says what the code on a machine may carry, and whether natives of the host may be values.
What evaluation takes out of a store of the domain, computes from it and puts back into it belongs to the
domain as well. -/
namespace Scriptlet

def Value.isHosted : Value → Bool
  | .native (.host _ _ _) => true
  | _ => false

/-- What code may carry, whether natives of the host may be values, and whether someone who looks at a run may
quit. -/
structure Domain where
  mark : Mark → Prop
  free : Prop
  quits : Prop

namespace Domain

variable (D : Domain)

/-- The value is no native of the host, unless these are values too. -/
def Tame (v : Value) : Prop := D.free ∨ v.isHosted = false

def Body : FunctionBody → Prop
  | .block body => body.Within D.mark
  | .expression body => body.Within D.mark

/-- The store has nothing but what belongs to the domain. -/
structure Owns (s : Store) : Prop where
  frames : ∀ f ∈ s.frames, ∀ e ∈ f.entries, D.Tame e.2.value
  arrays : ∀ a ∈ s.arrays, ∀ v ∈ a, D.Tame v
  maps : ∀ d ∈ s.maps, ∀ e ∈ d.entries, D.Tame e.2
  functions : ∀ f ∈ s.functions, D.Body f.body
  classes : ∀ k ∈ s.classes, WithinMembers D.mark k.members

/-- The names of the domain mean natives that are values. -/
def Names (natives : Dictionary Native) : Prop :=
  ∀ name native, natives.get? name = some native → D.mark (.name name) → D.Tame (.native native)

variable {D}

theorem mem_of_get? {α : Type} {d : Dictionary α} {key : String} {a : α} (h : d.get? key = some a) :
    (key, a) ∈ d.entries := by
  obtain ⟨before, after, hentries, -⟩ := List.lookup_eq_some_iff.1 h
  rw [hentries]
  exact List.mem_append_right before List.mem_cons_self

theorem mem_insertEntry {α : Type} {key : String} {a : α} {entries : List (String × α)} {e : String × α}
    (h : e ∈ Dictionary.insertEntry key a entries) : e.2 = a ∨ e ∈ entries := by
  induction entries with
  | nil =>
    cases List.mem_singleton.1 h
    exact .inl rfl
  | cons first rest ih =>
    obtain ⟨k, b⟩ := first
    unfold Dictionary.insertEntry at h
    split at h
    · rcases List.mem_cons.1 h with rfl | h
      · exact .inl rfl
      · exact .inr (List.mem_cons_of_mem _ h)
    · rcases List.mem_cons.1 h with rfl | h
      · exact .inr List.mem_cons_self
      · exact (ih h).imp_right (List.mem_cons_of_mem _)

theorem forall_mem_modify {α : Type} {P : α → Prop} {as : Array α} {f : α → α} (r : Nat)
    (h : ∀ a ∈ as, P a) (hf : ∀ a, P a → P (f a)) : ∀ a ∈ as.modify r f, P a := by
  intro a ha
  obtain ⟨i, hi⟩ := Array.mem_iff_getElem?.1 ha
  rw [Array.getElem?_modify] at hi
  split at hi
  · obtain ⟨b, hb, rfl⟩ := Option.map_eq_some_iff.1 hi
    exact hf b (h b (Array.mem_of_getElem? hb))
  · exact h a (Array.mem_of_getElem? hi)

theorem forall_mem_push {α : Type} {P : α → Prop} {as : Array α} {a : α} (h : ∀ b ∈ as, P b) (ha : P a) :
    ∀ b ∈ as.push a, P b := by
  intro b hb
  rcases Array.mem_push.1 hb with hb | rfl
  · exact h b hb
  · exact ha

/-- A class comes from the store with all its ancestors. -/
theorem mem_classes_of_lineage {s : Store} {r : Nat} {k : Class} (h : k ∈ s.lineage r) : k ∈ s.classes := by
  induction r using Nat.strongRecOn with
  | ind r ih =>
    rw [Store.lineage] at h
    split at h
    · cases h
    · next c hc =>
      have hlast (h : k ∈ [c]) : k ∈ s.classes := List.mem_singleton.1 h ▸ Array.mem_of_getElem? hc
      split at h
      · exact hlast h
      · split at h
        · next p _ hp => exact (List.mem_append.1 h).elim (ih p hp) hlast
        · exact hlast h

namespace Owns

variable {s : Store} (h : D.Owns s)
include h

theorem frame (r : Nat) : ∀ e ∈ (s.frame r).entries, D.Tame e.2.value := by
  unfold Store.frame
  rw [Array.getD_eq_getD_getElem?]
  cases hf : s.frames[r]? with
  | none => exact fun e he => absurd he List.not_mem_nil
  | some f => exact h.frames f (Array.mem_of_getElem? hf)

theorem getLocal? {env : Env} {name : String} {v : Value} (hv : s.getLocal? env name = some v) :
    D.Tame v := by
  obtain ⟨slot, hslot, rfl⟩ := Option.map_eq_some_iff.1 hv
  exact h.frame env.frame _ (mem_of_get? hslot)

theorem get? {env : Env} {name : String} {v : Value} (hv : s.get? env name = some v) : D.Tame v := by
  obtain ⟨slot, hslot, rfl⟩ := Option.map_eq_some_iff.1 hv
  obtain ⟨r, -, hr⟩ := List.exists_of_findSome?_eq_some hslot
  exact h.frame r _ (mem_of_get? hr)

theorem array (r : Nat) : ∀ v ∈ s.array r, D.Tame v := by
  unfold Store.array
  rw [Array.getD_eq_getD_getElem?]
  cases ha : s.arrays[r]? with
  | none => exact fun v hv => absurd hv (Array.not_mem_empty v)
  | some a => exact h.arrays a (Array.mem_of_getElem? ha)

theorem map (r : Nat) : ∀ e ∈ (s.map r).entries, D.Tame e.2 := by
  unfold Store.map
  rw [Array.getD_eq_getD_getElem?]
  cases hd : s.maps[r]? with
  | none => exact fun e he => absurd he List.not_mem_nil
  | some d => exact h.maps d (Array.mem_of_getElem? hd)

theorem enclose (env : Env) : D.Owns (s.enclose env).2 :=
  { h with frames := forall_mem_push h.frames fun _ he => absurd he List.not_mem_nil }

theorem bind (r : Nat) (name : String) {slot : Slot} (hv : D.Tame slot.value) :
    D.Owns { s with frames := s.frames.modify r fun f => f.insert name slot } := by
  have hinsert (f : Frame) (hf : ∀ e ∈ f.entries, D.Tame e.2.value) :
      ∀ e ∈ (f.insert name slot).entries, D.Tame e.2.value := by
    intro e he
    rcases mem_insertEntry he with heq | hmem
    · rw [heq]
      exact hv
    · exact hf e hmem
  exact { h with frames := forall_mem_modify r h.frames hinsert }

theorem assign (env : Env) (name : String) {v : Value} (hv : D.Tame v) : D.Owns (s.assign env name v).2 := by
  unfold Store.assign
  split
  · exact h
  · exact h.bind _ name hv

theorem newArray {items : Array Value} (hv : ∀ v ∈ items, D.Tame v) : D.Owns (s.newArray items).2 :=
  { h with arrays := forall_mem_push h.arrays hv }

theorem newMap {entries : Dictionary Value} (hv : ∀ e ∈ entries.entries, D.Tame e.2) :
    D.Owns (s.newMap entries).2 :=
  { h with maps := forall_mem_push h.maps hv }

theorem newFunction {f : Function} (hf : D.Body f.body) : D.Owns (s.newFunction f).2 :=
  { h with functions := forall_mem_push h.functions hf }

theorem newClass {k : Class} (hk : WithinMembers D.mark k.members) : D.Owns (s.newClass k).2 :=
  { h with classes := forall_mem_push h.classes hk }

theorem newInstance (i : Instance) : D.Owns (s.newInstance i).2 := { h with }

theorem pop (r : Nat) : D.Owns (s.pop r) := by
  have hpop (a : Array Value) (ha : ∀ v ∈ a, D.Tame v) : ∀ v ∈ a.pop, D.Tame v := by
    intro v hv
    rw [Array.mem_def, Array.toList_pop] at hv
    exact ha v (Array.mem_def.2 (List.dropLast_subset _ hv))
  exact { h with arrays := forall_mem_modify r h.arrays hpop }

theorem push (r : Nat) {v : Value} (hv : D.Tame v) : D.Owns (s.push r v) :=
  { h with arrays := forall_mem_modify r h.arrays fun _ ha => forall_mem_push ha hv }

end Owns

theorem checked_plain {operator : String} {result : Option Int64} {v : Value}
    (h : checked operator result = .ok v) : v.isHosted = false := by
  cases result with
  | none => cases h
  | some value =>
    cases h
    rfl

theorem onInts_plain {op : ComputeOp} {a b : Int64} {v : Value} (h : op.onInts a b = .ok v) :
    v.isHosted = false := by
  cases op with
  | add => exact checked_plain h
  | subtract => exact checked_plain h
  | multiply => exact checked_plain h
  | divide =>
    simp only [ComputeOp.onInts, intQuotient] at h
    split at h
    · cases h
      rfl
    · split at h
      · exact checked_plain h
      · cases h
        rfl
  | remainder =>
    simp only [ComputeOp.onInts] at h
    split at h <;> cases h <;> rfl
  | power =>
    simp only [ComputeOp.onInts] at h
    split at h
    · cases h
      rfl
    · exact checked_plain h
  | _ =>
    cases h
    rfl

theorem onFloats_plain {op : ComputeOp} {a b : Float} {v : Value} (h : op.onFloats a b = some v) :
    v.isHosted = false := by
  cases op with
  | divide =>
    cases h
    split <;> rfl
  | remainder =>
    cases h
    split <;> rfl
  | _ => cases h <;> rfl

theorem compute_plain {op : ComputeOp} {s : Store} {x y v : Value} (h : op.apply s x y = .ok v) :
    v.isHosted = false := by
  unfold ComputeOp.apply at h
  split at h
  · cases h
    rfl
  · exact onInts_plain h
  · split at h
    · split at h
      · next hv =>
        cases h
        exact onFloats_plain hv
      · cases h
    · cases h

theorem relate_plain {op : RelateOp} {s : Store} {x y v : Value} (h : op.apply s x y = .ok v) :
    v.isHosted = false := by
  unfold RelateOp.apply at h
  split at h
  iterate 4
    · cases h
      rfl
  · split at h
    · cases h
      rfl
    · cases h
      rfl
    · cases h

theorem unary_plain {op : UnaryOp} {x v : Value} (h : op.apply x = .ok v) : v.isHosted = false := by
  unfold UnaryOp.apply at h
  split at h
  · cases h
    rfl
  · exact checked_plain h
  · cases h
    rfl
  · cases h
    rfl
  · cases h

theorem Owns.at_ {s : Store} (hs : D.Owns s) {object key v : Value} (h : object.at s key = .ok v) :
    D.Tame v := by
  unfold Value.at at h
  split at h
  · next r i =>
    cases h
    split
    · exact .inr rfl
    · rw [Array.getD_eq_getD_getElem?]
      cases ha : (s.array r)[i.toInt.toNat]? with
      | none => exact .inr rfl
      | some v => exact hs.array r v (Array.mem_of_getElem? ha)
  · cases h
    split
    · exact .inr rfl
    · next text i _ =>
      cases text.toList[i.toInt.toNat]? with
      | none => exact .inr rfl
      | some c => exact .inr rfl
  · next r key =>
    cases h
    cases hv : (s.map r).get? key with
    | none => exact .inr rfl
    | some v => exact hs.map r _ (mem_of_get? hv)
  iterate 4
    · cases h

theorem toInt_plain {x v : Value} (h : Builtin.toInt x = .ok v) : v.isHosted = false := by
  unfold Builtin.toInt at h
  split at h
  · cases h
    rfl
  · cases h
    rfl
  · dsimp only at h
    split at h
    · cases h
      rfl
    · split at h
      · cases h
        rfl
      · cases h
  · split at h
    · cases h
      rfl
    · cases h
  · cases h

theorem toFloat_plain {x v : Value} (h : Builtin.toFloat x = .ok v) : v.isHosted = false := by
  unfold Builtin.toFloat at h
  split at h
  iterate 3
    · cases h
      rfl
  · split at h
    · cases h
      rfl
    · cases h
  · cases h

theorem length_plain {s : Store} {x v : Value} (h : Builtin.length s x = .ok v) : v.isHosted = false := by
  unfold Builtin.length at h
  split at h
  iterate 3
    · cases h
      rfl
  · cases h

theorem contains_plain {s : Store} {x y v : Value} (h : Builtin.contains s x y = .ok v) :
    v.isHosted = false := by
  unfold Builtin.contains at h
  split at h
  iterate 3
    · cases h
      rfl
  · cases h

theorem magnitude_plain {x v : Value} (h : Builtin.magnitude x = .ok v) : v.isHosted = false := by
  unfold Builtin.magnitude at h
  split at h
  · split at h
    · cases h
      rfl
    · cases h
  · cases h
    rfl
  · cases h

theorem ok_of_bind {ε α β : Type} {x : Except ε α} {f : α → Except ε β} {b : β} (h : x >>= f = .ok b) :
    ∃ a, x = .ok a ∧ f a = .ok b := by
  cases x with
  | error e => cases h
  | ok a => exact ⟨a, rfl, h⟩

theorem foldlM_keeps {ε α β : Type} {P : β → Prop} {f : β → α → Except ε β}
    (hf : ∀ {b a b'}, P b → f b a = .ok b' → P b') {as : List α} {b b' : β} (hb : P b)
    (h : as.foldlM f b = .ok b') : P b' := by
  induction as generalizing b with
  | nil =>
    cases h
    exact hb
  | cons a as ih =>
    rw [List.foldlM_cons] at h
    obtain ⟨next, hstep, h⟩ := ok_of_bind h
    exact ih (hf hb hstep) h

/-- The best of the arguments so far is a number. -/
theorem extremum_plain {name : String} {beats : Float → Float → Bool} {arguments : List Value} {v : Value}
    (h : Builtin.extremum name beats arguments = .ok v) : v.isHosted = false := by
  have hnumber {w : Value} {x : Float} (hw : w.number? = some x) : w.isHosted = false := by
    cases w <;> cases hw <;> rfl
  obtain ⟨best, hbest, h⟩ := ok_of_bind h
  have hkept : ∀ p ∈ best, p.1.isHosted = false := by
    refine foldlM_keeps (P := fun b : Option (Value × Float) => ∀ p ∈ b, p.1.isHosted = false)
      (fun {b w b'} hb hstep => ?_) (by simp) hbest
    split at hstep
    · cases hstep
    · next x hx =>
      cases hstep
      exact fun p hp => by cases hp; exact hnumber hx
    · next x y hx =>
      cases hstep
      split
      · exact fun p hp => by cases hp; exact hnumber hx
      · exact hb
  cases best with
  | none => cases h
  | some p =>
    cases h
    exact hkept p rfl

theorem Owns.builtin {s : Store} (hs : D.Owns s) (f : Builtin) (now : Except String Float) {arguments : List Value}
    (harguments : ∀ v ∈ arguments, D.Tame v) :
    (∀ v, (f.apply now arguments s).1 = .ok v → D.Tame v) ∧ D.Owns (f.apply now arguments s).2 := by
  have hplain {result : Except String Value} (h : ∀ v, result = .ok v → v.isHosted = false) :
      (∀ v, result = .ok v → D.Tame v) ∧ D.Owns s := ⟨fun v hv => .inr (h v hv), hs⟩
  have hvalue {v : Value} (h : v.isHosted = false) :
      (∀ w, (Except.ok v : Except String Value) = .ok w → D.Tame w) ∧ D.Owns s := by
    refine hplain fun w hw => ?_
    cases hw
    exact h
  have herror (message : String) :
      (∀ v, (Except.error message : Except String Value) = .ok v → D.Tame v) ∧ D.Owns s := ⟨nofun, hs⟩
  unfold Builtin.apply
  split
  · exact hplain fun _ => length_plain
  · exact hvalue rfl
  · exact hvalue rfl
  · exact hplain fun _ => toInt_plain
  · exact hplain fun _ => toFloat_plain
  · next r item =>
    have hitem := harguments item (by simp)
    exact ⟨(hvalue rfl).1, hs.push r hitem⟩
  · exact herror _
  · next r =>
    refine ⟨fun v hv => ?_, hs.pop r⟩
    cases hv
    cases hback : (s.array r).back? with
    | none => exact .inr rfl
    | some v => exact hs.array r v (Array.mem_of_back? hback)
  · exact herror _
  · next r =>
    refine ⟨fun v hv => ?_, hs.newArray fun v hv => ?_⟩
    · cases hv
      exact .inr rfl
    · obtain ⟨key, -, rfl⟩ := List.mem_map.1 (List.mem_toArray.1 hv)
      exact .inr rfl
  · exact herror _
  · next r =>
    refine ⟨fun v hv => ?_, hs.newArray fun v hv => ?_⟩
    · cases hv
      exact .inr rfl
    · obtain ⟨e, he, rfl⟩ := List.mem_map.1 (List.mem_toArray.1 hv)
      exact hs.map r e he
  · exact herror _
  · exact hplain fun _ => contains_plain
  · exact hvalue rfl
  · exact hvalue rfl
  · exact herror _
  · cases now with
    | ok x => exact hvalue rfl
    | error message => exact herror message
  · exact hplain fun _ => magnitude_plain
  · exact hplain fun _ => extremum_plain
  · exact hplain fun _ => extremum_plain
  · exact hvalue rfl

end Domain
end Scriptlet
