import Scriptlet.Proofs.FrameDiscipline

/-! Scopes inside scopes. Whatever scopes are made and whatever is defined and set in them, a name stands for
its nearest binding, and setting it changes that binding or, when it is refused, nothing at all. -/
namespace Scriptlet

/-- A call that makes a scope or binds a name in one. Scopes go by the order in which they were made. -/
inductive ScopeCall where
  | global
  | enclosed (parent : Nat)
  | define (scope : Nat) (name : String) (value : Value) (constant : Bool)
  | set (scope : Nat) (name : String) (value : Value)

namespace ScopeCall

def made? : ScopeCall → Option (Option Nat)
  | global => some none
  | enclosed parent => some (some parent)
  | define .. | set .. => none

def parent? (calls : List ScopeCall) (f : Nat) : Option Nat := ((calls.filterMap made?)[f]?).join

def defines? (f : Nat) : ScopeCall → Option String
  | define scope name _ _ => if scope = f then some name else none
  | _ => none

def defined (calls : List ScopeCall) (f : Nat) : List String := calls.filterMap (defines? f)

/-- Going outwards from the scope `f` one gets to the scope `r`. -/
inductive Encloses (calls : List ScopeCall) : Nat → Nat → Prop
  | self (f : Nat) : Encloses calls f f
  | outer {f p r : Nat} (hp : parent? calls f = some p) (h : Encloses calls r p) : Encloses calls r f

/-- Going outwards from the scope `f`, the scope `r` is the first that binds the name. -/
inductive Nearest (calls : List ScopeCall) (s : Store) (name : String) : Nat → Nat → Prop
  | here {f : Nat} (h : name ∈ (s.frame f).keys) : Nearest calls s name f f
  | outer {f p r : Nat} (h : name ∉ (s.frame f).keys) (hp : parent? calls f = some p)
    (hr : Nearest calls s name p r) : Nearest calls s name f r

theorem Nearest.binds {calls : List ScopeCall} {s : Store} {name : String} {f r : Nat}
    (h : Nearest calls s name f r) : name ∈ (s.frame r).keys := by
  induction h with
  | here h => exact h
  | outer _ _ _ ih => exact ih

end ScopeCall

/-- The store, and the environment of each scope that was made. -/
structure Scopes where
  store : Store
  envs : List Env

/-- The scopes after a sequence of calls, each on a scope that is there. -/
inductive Scopes.Reached : List ScopeCall → Scopes → Prop
  | start (s : Store) (h : s.frames = #[]) : Reached [] ⟨s, []⟩
  | global {calls : List ScopeCall} {x : Scopes} (h : Reached calls x) :
    Reached (calls ++ [.global]) ⟨x.store.newGlobal.2, x.envs ++ [x.store.newGlobal.1]⟩
  | enclosed {calls : List ScopeCall} {x : Scopes} {env : Env} (h : Reached calls x) (p : Nat)
    (hp : x.envs[p]? = some env) :
    Reached (calls ++ [.enclosed p]) ⟨(x.store.enclose env).2, x.envs ++ [(x.store.enclose env).1]⟩
  | define {calls : List ScopeCall} {x : Scopes} {env : Env} (h : Reached calls x) (f : Nat)
    (hf : x.envs[f]? = some env) (name : String) (value : Value) (constant : Bool) :
    Reached (calls ++ [.define f name value constant]) ⟨x.store.define env name value constant, x.envs⟩
  | set {calls : List ScopeCall} {x : Scopes} {env : Env} (h : Reached calls x) (f : Nat)
    (hf : x.envs[f]? = some env) (name : String) (value : Value) :
    Reached (calls ++ [.set f name value]) ⟨(x.store.assign env name value).2, x.envs⟩

/-- The second store binds a name in the scope `r`, and otherwise it is the first one. -/
structure Store.Rebound (s : Store) (r : Nat) (name : String) (slot : Slot) (s' : Store) : Prop where
  bound : (s'.frame r).get? name = some slot
  others : ∀ f other, ¬(f = r ∧ other = name) → (s'.frame f).get? other = (s.frame f).get? other
  size : s'.frames.size = s.frames.size
  rest : { s' with frames := s.frames } = s

namespace Store

variable (s : Store)

theorem frame_modify_at {r : Nat} (hr : r < s.frames.size) (i : Nat) (f : Frame → Frame) :
    ({ s with frames := s.frames.modify r f } : Store).frame i =
      if i = r then f (s.frame i) else s.frame i := by
  by_cases hi : i < s.frames.size
  · exact s.frame_modify r i f hi
  · have hne : i ≠ r := fun h => hi (h ▸ hr)
    simp [frame, hi, hne]

theorem lt_of_mem_keys {r : Nat} {name : String} (h : name ∈ (s.frame r).keys) : r < s.frames.size := by
  refine Nat.lt_of_not_le fun hr => ?_
  simp [frame, hr, Dictionary.empty, Dictionary.keys] at h

theorem rebound_insert {r : Nat} (hr : r < s.frames.size) (name : String) (slot : Slot) :
    s.Rebound r name slot { s with frames := s.frames.modify r fun f => f.insert name slot } where
  bound := by rw [s.frame_modify_at hr, if_pos rfl, Dictionary.get?_insert_self]
  others f other h := by
    rw [s.frame_modify_at hr]
    split
    · next hf => exact Dictionary.get?_insert_other _ (fun he => h ⟨hf, he⟩) _
    · rfl
  size := by simp
  rest := rfl

theorem assign_undefined {env : Env} {name : String} (h : s.slot? env name = none) (value : Value) :
    s.assign env name value = (some (.undefined name), s) := by
  rw [assign, refusal?, h]

theorem assign_constant {env : Env} {name : String} {slot : Slot} (h : s.slot? env name = some slot)
    (hconstant : slot.constant = true) (value : Value) :
    s.assign env name value = (some (.constant name), s) := by
  simp [assign, refusal?, h, hconstant]

theorem assign_variable {env : Env} {name : String} {slot : Slot} {r : Nat}
    (h : s.slot? env name = some slot) (hr : s.binder? env name = some r) (hvariable : slot.constant = false)
    (value : Value) : s.assign env name value = (none, s.overwrite r name value) := by
  simp [assign, refusal?, h, hvariable, hr]

end Store

theorem eraseDups_concat (xs : List String) (x : String) :
    (xs ++ [x]).eraseDups = if x ∈ xs then xs.eraseDups else xs.eraseDups ++ [x] := by
  rw [List.eraseDups_append]
  by_cases h : x ∈ xs
  · simp [List.removeAll, h]
  · simp [List.removeAll, h, List.eraseDups_cons]

/-- The environment of a scope goes through the scopes around it. -/
structure Scopes.Linked (calls : List ScopeCall) (x : Scopes) (f : Nat) (env : Env) : Prop where
  frame : env.frame = f
  outer : ScopeCall.parent? calls f = none ∧ env.outer = [] ∨
    ∃ p around, ScopeCall.parent? calls f = some p ∧ p < f ∧ x.envs[p]? = some around ∧
      env.outer = around.chain

/-- Scopes that are as the calls made them. -/
structure Scopes.Formed (calls : List ScopeCall) (x : Scopes) : Prop where
  size : x.envs.length = x.store.frames.size
  made : (calls.filterMap ScopeCall.made?).length = x.envs.length
  linked : ∀ f env, x.envs[f]? = some env → x.Linked calls f env
  names : ∀ f, (x.store.frame f).keys = (ScopeCall.defined calls f).eraseDups
  distinct : ∀ f, (x.store.frame f).keys.Nodup

namespace Scopes

open ScopeCall

variable {calls : List ScopeCall} {x : Scopes}

/-- A call that makes no scope leaves the links. -/
theorem Linked.call {f : Nat} {env : Env} (h : x.Linked calls f env) {call : ScopeCall}
    (hcall : call.made? = none) (s : Store) : Linked (calls ++ [call]) ⟨s, x.envs⟩ f env := by
  have hparent : ScopeCall.parent? (calls ++ [call]) f = ScopeCall.parent? calls f := by
    simp [ScopeCall.parent?, hcall]
  exact ⟨h.frame, by rw [hparent]; exact h.outer⟩

/-- A new scope leaves the links between those that were there. -/
theorem Formed.linked_old (hx : x.Formed calls) {f : Nat} {env : Env} (hf : x.envs[f]? = some env)
    {call : ScopeCall} {parent : Option Nat} (hcall : call.made? = some parent) (s : Store) (new : Env) :
    Linked (calls ++ [call]) ⟨s, x.envs ++ [new]⟩ f env := by
  have hlt : f < x.envs.length := List.getElem?_eq_some_iff.1 hf |>.1
  have hparent : ScopeCall.parent? (calls ++ [call]) f = ScopeCall.parent? calls f := by
    simp [ScopeCall.parent?, hcall, List.getElem?_append, hx.made, hlt]
  obtain ⟨hframe, houter⟩ := hx.linked f env hf
  refine ⟨hframe, ?_⟩
  rw [hparent]
  refine houter.imp id fun ⟨p, around, hp, hlt', haround, hchain⟩ => ⟨p, around, hp, hlt', ?_, hchain⟩
  rw [List.getElem?_append_left (by omega), haround]

theorem Formed.parent?_new (hx : x.Formed calls) {call : ScopeCall} {parent : Option Nat}
    (hcall : call.made? = some parent) : ScopeCall.parent? (calls ++ [call]) x.envs.length = parent := by
  simp [ScopeCall.parent?, hcall, ← hx.made]

/-- A new scope binds nothing and is linked to its parent. -/
theorem Formed.make (hx : x.Formed calls) {call : ScopeCall} {parent : Option Nat} {new : Env}
    (hcall : call.made? = some parent)
    (hnew : Linked (calls ++ [call]) ⟨x.store.newGlobal.2, x.envs ++ [new]⟩ x.envs.length new) :
    Formed (calls ++ [call]) ⟨x.store.newGlobal.2, x.envs ++ [new]⟩ where
  size := by simp [Store.newGlobal, hx.size]
  made := by simp [hcall, hx.made]
  linked f env hf := by
    rcases Nat.lt_trichotomy f x.envs.length with hlt | rfl | hlt
    · rw [List.getElem?_append_left hlt] at hf
      exact hx.linked_old hf hcall _ new
    · rw [List.getElem?_concat_length] at hf
      cases hf
      exact hnew
    · rw [List.getElem?_eq_none (by simp; omega)] at hf
      cases hf
  names f := by
    have hdefined : ScopeCall.defined (calls ++ [call]) f = ScopeCall.defined calls f := by
      cases call <;> simp_all [ScopeCall.defined, ScopeCall.defines?, ScopeCall.made?]
    rw [hdefined, ← hx.names f]
    exact congrArg Dictionary.keys (x.store.frame_enclose default f)
  distinct f := by
    have hframe := x.store.frame_enclose default f
    exact hframe ▸ hx.distinct f

theorem Formed.frame_lt (hx : x.Formed calls) {f : Nat} {env : Env} (hf : x.envs[f]? = some env) :
    env.frame < x.store.frames.size := by
  rw [(hx.linked f env hf).frame, ← hx.size]
  exact (List.getElem?_eq_some_iff.1 hf).1

theorem Formed.define (hx : x.Formed calls) {f : Nat} {env : Env} (hf : x.envs[f]? = some env)
    (name : String) (value : Value) (constant : Bool) :
    Formed (calls ++ [.define f name value constant]) ⟨x.store.define env name value constant, x.envs⟩ where
  size := by simp [Store.define, hx.size]
  made := by simp [ScopeCall.made?, hx.made]
  linked g env' hg := (hx.linked g env' hg).call rfl _
  names g := by
    rw [Store.define, x.store.frame_modify_at (hx.frame_lt hf), (hx.linked f env hf).frame]
    by_cases hg : g = f
    · subst hg
      simp only [if_true, Dictionary.keys_insert, hx.names]
      simp [ScopeCall.defined, ScopeCall.defines?, eraseDups_concat]
    · have hg' : f ≠ g := fun h => hg h.symm
      simp [ScopeCall.defined, ScopeCall.defines?, hg, hg', hx.names]
  distinct g := by
    rw [Store.define, x.store.frame_modify_at (hx.frame_lt hf)]
    split
    · exact Dictionary.nodup_keys_insert (hx.distinct g) _ _
    · exact hx.distinct g

/-- The chain of an environment holds the scopes around it. -/
theorem Formed.encloses (hx : x.Formed calls) {f : Nat} {env : Env} (hf : x.envs[f]? = some env) {r : Nat}
    (hr : r ∈ env.chain) : Encloses calls r f := by
  induction f using Nat.strongRecOn generalizing env with
  | ind f ih =>
    obtain ⟨hframe, houter⟩ := hx.linked f env hf
    rcases List.mem_cons.1 hr with rfl | hr
    · exact hframe ▸ .self _
    · rcases houter with ⟨-, hnil⟩ | ⟨p, around, hp, hlt, haround, hchain⟩
      · rw [hnil] at hr
        cases hr
      · exact .outer hp (ih p hlt haround (hchain ▸ hr))

theorem Formed.nearest_or_unbound (hx : x.Formed calls) (name : String) {f : Nat} {env : Env}
    (hf : x.envs[f]? = some env) : (∃ r, Nearest calls x.store name f r) ∨
      ∀ r, Encloses calls r f → name ∉ (x.store.frame r).keys := by
  induction f using Nat.strongRecOn generalizing env with
  | ind f ih =>
    by_cases hname : name ∈ (x.store.frame f).keys
    · exact .inl ⟨f, .here hname⟩
    · rcases (hx.linked f env hf).outer with ⟨hnone, -⟩ | ⟨p, around, hp, hlt, haround, -⟩
      · refine .inr fun r hr => ?_
        cases hr with
        | self => exact hname
        | outer hp => cases hnone.symm.trans hp
      · rcases ih p hlt haround with ⟨r, hr⟩ | hnone
        · exact .inl ⟨r, .outer hname hp hr⟩
        · refine .inr fun r hr => ?_
          cases hr with
          | self => exact hname
          | outer hp' hr =>
            cases hp.symm.trans hp'
            exact hnone r hr

/-- The nearest binding is the one that is found. -/
theorem Formed.found (hx : x.Formed calls) {name : String} {f r : Nat} {env : Env}
    (hf : x.envs[f]? = some env) (h : Nearest calls x.store name f r) :
    x.store.binder? env name = some r ∧ x.store.slot? env name = (x.store.frame r).get? name := by
  induction h generalizing env with
  | @here f h =>
    rw [← Dictionary.isSome_get?_iff, ← (hx.linked f env hf).frame] at h
    obtain ⟨slot, hslot⟩ := Option.isSome_iff_exists.1 h
    simp [Store.binder?, Store.slot?, Env.chain, Dictionary.contains, ← (hx.linked f env hf).frame, hslot]
  | @outer f p r h hp hr ih =>
    obtain ⟨hframe, houter⟩ := hx.linked f env hf
    rcases houter with ⟨hnone, -⟩ | ⟨q, around, hq, -, haround, hchain⟩
    · cases hnone.symm.trans hp
    · cases hp.symm.trans hq
      rw [← Dictionary.get?_eq_none_iff, ← hframe] at h
      have hrest := ih haround
      rw [Store.binder?, Store.slot?, ← hchain] at hrest
      simpa [Store.binder?, Store.slot?, Env.chain, Dictionary.contains, h] using hrest

theorem Formed.not_found (hx : x.Formed calls) {name : String} {f : Nat} {env : Env}
    (hf : x.envs[f]? = some env) (h : ∀ r, Encloses calls r f → name ∉ (x.store.frame r).keys) :
    x.store.slot? env name = none := by
  rw [Store.slot?, List.findSome?_eq_none_iff]
  exact fun r hr => (Dictionary.get?_eq_none_iff _ name).2 (h r (hx.encloses hf hr))

/-- The slot that a name leads to from the scope `f` is in the scope `r`. -/
structure Leads (calls : List ScopeCall) (s : Store) (name : String) (f r : Nat) (slot : Slot) : Prop where
  nearest : Nearest calls s name f r
  slot : (s.frame r).get? name = some slot

/-- What can come of setting a name. -/
theorem Formed.assign_cases (hx : x.Formed calls) {f : Nat} {env : Env} (hf : x.envs[f]? = some env)
    (name : String) (value : Value) :
    (∃ r slot, Leads calls x.store name f r slot ∧ slot.constant = false ∧
      x.store.assign env name value = (none, x.store.overwrite r name value)) ∨
    (∃ r slot, Leads calls x.store name f r slot ∧ slot.constant = true ∧
      x.store.assign env name value = (some (.constant name), x.store)) ∨
    (∀ r, Encloses calls r f → name ∉ (x.store.frame r).keys) ∧
      x.store.assign env name value = (some (.undefined name), x.store) := by
  rcases hx.nearest_or_unbound name hf with ⟨r, hr⟩ | hnone
  · obtain ⟨slot, hslot⟩ := Option.isSome_iff_exists.1 ((Dictionary.isSome_get?_iff _ name).2 hr.binds)
    obtain ⟨hbinder, hfound⟩ := hx.found hf hr
    rw [hslot] at hfound
    cases hconstant : slot.constant with
    | false => exact .inl ⟨r, slot, ⟨hr, hslot⟩, hconstant, x.store.assign_variable hfound hbinder hconstant value⟩
    | true => exact .inr (.inl ⟨r, slot, ⟨hr, hslot⟩, hconstant, x.store.assign_constant hfound hconstant value⟩)
  · exact .inr (.inr ⟨hnone, x.store.assign_undefined (hx.not_found hf hnone) value⟩)

/-- Setting a name, refused or not, leaves the names of all scopes. -/
theorem Formed.keys_assign (hx : x.Formed calls) {f : Nat} {env : Env} (hf : x.envs[f]? = some env)
    (name : String) (value : Value) (g : Nat) :
    ((x.store.assign env name value).2.frame g).keys = (x.store.frame g).keys := by
  rcases hx.assign_cases hf name value with ⟨r, slot, hleads, -, hassign⟩ | ⟨-, -, -, -, hassign⟩ | ⟨-, hassign⟩
  · rw [hassign, Store.overwrite, x.store.frame_modify_at (x.store.lt_of_mem_keys hleads.nearest.binds)]
    split
    · next hg => rw [Dictionary.keys_insert, if_pos (hg ▸ hleads.nearest.binds)]
    · rfl
  · rw [hassign]
  · rw [hassign]

theorem Formed.set (hx : x.Formed calls) {f : Nat} {env : Env} (hf : x.envs[f]? = some env) (name : String)
    (value : Value) : Formed (calls ++ [.set f name value]) ⟨(x.store.assign env name value).2, x.envs⟩ where
  size := by
    rcases hx.assign_cases hf name value with ⟨r, slot, -, -, h⟩ | ⟨-, -, -, -, h⟩ | ⟨-, h⟩
    · simp [h, Store.overwrite, hx.size]
    · rw [h, hx.size]
    · rw [h, hx.size]
  made := by simp [ScopeCall.made?, hx.made]
  linked g env' hg := (hx.linked g env' hg).call rfl _
  names g := by
    have hnone : (ScopeCall.set f name value).defines? g = none := rfl
    rw [hx.keys_assign hf, hx.names]
    simp [ScopeCall.defined, hnone]
  distinct g := hx.keys_assign hf name value g ▸ hx.distinct g

theorem Reached.formed (h : Reached calls x) : x.Formed calls := by
  induction h with
  | start s h =>
    have hkeys : ∀ f, (s.frame f).keys = [] := fun f => by simp [Store.frame, h, Dictionary.empty, Dictionary.keys]
    exact ⟨by simp [h], rfl, fun f env hf => by simp at hf, hkeys, fun f => hkeys f ▸ .nil⟩
  | global _ hx => exact hx.make rfl ⟨hx.size.symm, .inl ⟨hx.parent?_new rfl, rfl⟩⟩
  | @enclosed calls x env _ p hp hx =>
    have hlt := (List.getElem?_eq_some_iff.1 hp).1
    refine hx.make rfl ⟨hx.size.symm, .inr ⟨p, env, hx.parent?_new rfl, hlt, ?_, rfl⟩⟩
    exact (List.getElem?_append_left hlt).trans hp
  | define _ _ hf name value constant hx => exact hx.define hf name value constant
  | set _ _ hf name value hx => exact hx.set hf name value

/-- What a name stands for in the scope `f`, and what comes of defining and setting it there. -/
structure Resolves (calls : List ScopeCall) (s : Store) (f : Nat) (env : Env) (name : String) : Prop where
  bound : ∀ r slot, Leads calls s name f r slot → s.get? env name = some slot.value ∧
    s.exists_ env name = true ∧ s.isConstant env name = slot.constant
  unbound : (∀ r, Encloses calls r f → name ∉ (s.frame r).keys) →
    s.get? env name = none ∧ s.exists_ env name = false ∧ s.isConstant env name = false
  define : ∀ value constant, s.Rebound f name ⟨value, constant⟩ (s.define env name value constant)
  set_iff : ∀ value, (s.assign env name value).1 = none ↔
    ∃ r slot, Leads calls s name f r slot ∧ slot.constant = false
  set_variable : ∀ value r slot, Leads calls s name f r slot → slot.constant = false →
    s.Rebound r name ⟨value, false⟩ (s.assign env name value).2 ∧
      ∀ g, ((s.assign env name value).2.frame g).keys = (s.frame g).keys
  set_constant : ∀ value r slot, Leads calls s name f r slot → slot.constant = true →
    s.assign env name value = (some (.constant name), s)
  set_unbound : ∀ value, (∀ r, Encloses calls r f → name ∉ (s.frame r).keys) →
    s.assign env name value = (some (.undefined name), s)

theorem Formed.slot?_eq (hx : x.Formed calls) {f r : Nat} {env : Env} {name : String} {slot : Slot}
    (hf : x.envs[f]? = some env) (h : Leads calls x.store name f r slot) :
    x.store.slot? env name = some slot := (hx.found hf h.nearest).2.trans h.slot

theorem Formed.resolves (hx : x.Formed calls) {f : Nat} {env : Env} (hf : x.envs[f]? = some env)
    (name : String) : Resolves calls x.store f env name where
  bound r slot h := by
    simp [Store.get?, Store.exists_, Store.isConstant, hx.slot?_eq hf h]
  unbound h := by
    simp [Store.get?, Store.exists_, Store.isConstant, hx.not_found hf h]
  define value constant := by
    have hdefine := x.store.rebound_insert (hx.frame_lt hf) name ⟨value, constant⟩
    exact (hx.linked f env hf).frame ▸ hdefine
  set_iff value := by
    rcases hx.assign_cases hf name value with ⟨r, slot, h, hvariable, hassign⟩ | ⟨r, slot, h, hconstant, hassign⟩ |
      ⟨h, hassign⟩
    · simp only [hassign, true_iff]
      exact ⟨r, slot, h, hvariable⟩
    · simp only [hassign, false_iff, reduceCtorEq]
      rintro ⟨r', slot', h', hvariable⟩
      cases (hx.slot?_eq hf h).symm.trans (hx.slot?_eq hf h')
      cases hconstant.symm.trans hvariable
    · simp only [hassign, false_iff, reduceCtorEq]
      rintro ⟨r', slot', h', -⟩
      cases (hx.not_found hf h).symm.trans (hx.slot?_eq hf h')
  set_variable value r slot h hvariable := by
    refine ⟨?_, hx.keys_assign hf name value⟩
    rw [x.store.assign_variable (hx.slot?_eq hf h) (hx.found hf h.nearest).1 hvariable]
    exact x.store.rebound_insert (x.store.lt_of_mem_keys h.nearest.binds) name ⟨value, false⟩
  set_constant value r slot h hconstant := x.store.assign_constant (hx.slot?_eq hf h) hconstant value
  set_unbound value h := x.store.assign_undefined (hx.not_found hf h) value

end Scopes

/-- Scopes nest, whatever calls made them. -/
theorem scopes_resolve_to_nearest {calls : List ScopeCall} {x : Scopes} (h : x.Reached calls) :
    (∀ f, (x.store.frame f).keys = (ScopeCall.defined calls f).eraseDups ∧ (x.store.frame f).keys.Nodup) ∧
    ∀ f env name, x.envs[f]? = some env → Scopes.Resolves calls x.store f env name :=
  ⟨fun f => ⟨h.formed.names f, h.formed.distinct f⟩, fun _ _ name hf => h.formed.resolves hf name⟩

/-- Two scopes in a third one that has a variable `x`. The first of them hides it behind a constant, so that it
cannot be set from there; from the second it can. -/
theorem scopes_resolve_to_nearest_siblings :
    let calls : List ScopeCall :=
      [.global, .enclosed 0, .enclosed 0, .define 0 "x" (.int 1) false, .define 1 "x" (.int 2) true]
    let x : Scopes := ⟨{ frames := #[⟨[("x", ⟨.int 1, false⟩)]⟩, ⟨[("x", ⟨.int 2, true⟩)]⟩, ⟨[]⟩] },
      [⟨0, []⟩, ⟨1, [0]⟩, ⟨2, [0]⟩]⟩
    x.Reached calls ∧ x.store.assign ⟨1, [0]⟩ "x" .null = (some (.constant "x"), x.store) ∧
      x.store.Rebound 0 "x" ⟨.null, false⟩ (x.store.assign ⟨2, [0]⟩ "x" .null).2 := by
  intro calls x
  have hmade := ((Scopes.Reached.start {} rfl).global.enclosed 0 rfl).enclosed 0 rfl
  have hx : x.Reached calls := (hmade.define 0 rfl "x" (.int 1) false).define 1 rfl "x" (.int 2) true
  have hfirst := (scopes_resolve_to_nearest hx).2 1 ⟨1, [0]⟩ "x" rfl
  have hsecond := (scopes_resolve_to_nearest hx).2 2 ⟨2, [0]⟩ "x" rfl
  refine ⟨hx, hfirst.set_constant .null 1 ⟨.int 2, true⟩ ⟨.here (by decide), rfl⟩ rfl, ?_⟩
  exact (hsecond.set_variable .null 0 ⟨.int 1, false⟩ ⟨.outer (by decide) rfl (.here (by decide)), rfl⟩ rfl).1

end Scriptlet
