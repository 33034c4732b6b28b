import Mathlib.Data.List.DropRight
import Scriptlet.Proofs.Equality

/-! Dictionaries and how they came about. Whatever is inserted and erased, the keys stay distinct and in the order in
which they were added, and each has its latest value. Maps with distinct keys are equal by content when they hold
equal values under the same keys, whatever order their histories have left. -/
namespace Scriptlet

namespace Dictionary

variable {α : Type}

inductive Change (α : Type) where
  | insert (key : String) (value : α)
  | erase (key : String)

namespace Change

def key : Change α → String
  | insert key _ => key
  | erase key => key

@[simp] theorem key_insert (key : String) (value : α) : (insert key value).key = key := rfl

@[simp] theorem key_erase (key : String) : (erase key : Change α).key = key := rfl

def value? : Change α → Option α
  | insert _ value => some value
  | erase _ => none

@[simp] theorem value?_insert (key : String) (value : α) : (insert key value).value? = some value := rfl

@[simp] theorem value?_erase (key : String) : (erase key : Change α).value? = none := rfl

def inserts (key : String) (c : Change α) : Bool := c.key = key && c.value?.isSome

def erases (key : String) (c : Change α) : Bool := c.key = key && c.value?.isNone

def insertions (entries : List (String × α)) : List (Change α) := entries.map fun e => insert e.1 e.2

end Change

def apply (d : Dictionary α) : Change α → Dictionary α
  | .insert key value => d.insert key value
  | .erase key => d.erase key

def run (d : Dictionary α) (changes : List (Change α)) : Dictionary α := changes.foldl apply d

/-- The value that a key was last inserted with, if it was not erased since. -/
def lastValue? (history : List (Change α)) (key : String) : Option α :=
  (history.filter (·.key = key)).getLast?.bind Change.value?

/-- What happened since a key was last erased. -/
def sinceErased (history : List (Change α)) (key : String) : List (Change α) :=
  history.rtakeWhile (!·.erases key)

/-- The place in the history of the first insertion of a key since it was last erased. -/
def addedAt? (history : List (Change α)) (key : String) : Option Nat :=
  ((sinceErased history key).findIdx? (·.inserts key)).map
    (history.length - (sinceErased history key).length + ·)

/-- Both keys are there, and the first was added earlier. -/
def AddedBefore (history : List (Change α)) (k l : String) : Prop :=
  ∃ m ∈ addedAt? history k, ∃ n ∈ addedAt? history l, m < n

section Step

variable (history : List (Change α)) {key : String}

theorem lastValue?_concat (c : Change α) (key : String) :
    lastValue? (history ++ [c]) key = if c.key = key then c.value? else lastValue? history key := by
  by_cases h : c.key = key <;> simp [lastValue?, List.filter_append, h]

theorem sinceErased_length_le (key : String) : (sinceErased history key).length ≤ history.length :=
  (List.rtakeWhile_suffix _ _).length_le

theorem addedAt?_concat (c : Change α) (key : String) : addedAt? (history ++ [c]) key =
    if c.erases key then none
    else (addedAt? history key).or (if c.inserts key then some history.length else none) := by
  have hle := sinceErased_length_le history key
  have hsince : sinceErased (history ++ [c]) key =
      if c.erases key then [] else sinceErased history key ++ [c] := by
    rw [sinceErased, List.rtakeWhile_concat]
    cases c.erases key <;> rfl
  rw [addedAt?, hsince]
  by_cases herases : c.erases key = true
  · simp [herases]
  · cases hfound : (sinceErased history key).findIdx? (·.inserts key) with
    | none =>
      by_cases hinserts : c.inserts key = true <;>
        simp [herases, hinserts, addedAt?, hfound, List.findIdx?_append, Nat.sub_add_cancel hle]
    | some m => simp [herases, addedAt?, hfound, List.findIdx?_append]

theorem addedAt?_insert (key : String) (value : α) :
    addedAt? (history ++ [.insert key value]) key = (addedAt? history key).or (some history.length) := by
  simp [addedAt?_concat, Change.erases, Change.inserts]

theorem addedAt?_erase (key : String) : addedAt? (history ++ [.erase key]) key = none := by
  simp [addedAt?_concat, Change.erases]

theorem addedAt?_other (c : Change α) (h : c.key ≠ key) :
    addedAt? (history ++ [c]) key = addedAt? history key := by
  simp [addedAt?_concat, Change.erases, Change.inserts, h]

variable {history}

theorem addedAt?_lt {n : Nat} (h : addedAt? history key = some n) : n < history.length := by
  obtain ⟨m, hm, rfl⟩ := Option.map_eq_some_iff.1 h
  obtain ⟨hlt, -⟩ := List.findIdx?_eq_some_iff_getElem.1 hm
  have hle := sinceErased_length_le history key
  omega

/-- A key that is there stays where it was added when it is inserted again. -/
theorem addedAt?_insert_of_isSome {other : String} (h : (addedAt? history other).isSome = true) (key : String)
    (value : α) : addedAt? (history ++ [.insert key value]) other = addedAt? history other := by
  by_cases hkey : key = other
  · subst hkey
    rw [addedAt?_insert, Option.or_of_isSome h]
  · exact addedAt?_other history (.insert key value) hkey

end Step

/-- The dictionary agrees with its history: the keys are those that were added and not erased since, in the order in
which they were added, with their latest values. -/
structure Follows (history : List (Change α)) (d : Dictionary α) : Prop where
  distinct : d.keys.Nodup
  present : ∀ key, key ∈ d.keys ↔ (addedAt? history key).isSome = true
  ordered : d.keys.Pairwise (AddedBefore history)
  latest : ∀ key, d.get? key = lastValue? history key

theorem follows_empty : Follows [] (empty : Dictionary α) where
  distinct := List.nodup_nil
  present key := by simp [empty, keys, addedAt?, sinceErased]
  ordered := List.Pairwise.nil
  latest _ := rfl

namespace Follows

variable {history : List (Change α)} {d : Dictionary α} (h : Follows history d)
include h

theorem insert (key : String) (value : α) : Follows (history ++ [.insert key value]) (d.insert key value) where
  distinct := nodup_keys_insert h.distinct key value
  present other := by
    by_cases hkey : key = other
    · subst hkey
      rw [addedAt?_insert, keys_insert]
      split <;> simp_all
    · rw [addedAt?_other history (.insert key value) hkey, ← h.present, keys_insert]
      split
      · rfl
      · simp [Ne.symm hkey]
  ordered := by
    have hkept {k : String} (hk : k ∈ d.keys) : addedAt? (history ++ [.insert key value]) k = addedAt? history k :=
      addedAt?_insert_of_isSome ((h.present k).1 hk) key value
    have hold : d.keys.Pairwise (AddedBefore (history ++ [.insert key value])) := by
      refine h.ordered.imp_of_mem fun hk hl hkl => ?_
      rw [AddedBefore, hkept hk, hkept hl]
      exact hkl
    rw [keys_insert]
    split
    · exact hold
    · next hnew =>
      refine List.pairwise_append.2 ⟨hold, List.pairwise_singleton _ _, fun k hk l hl => ?_⟩
      -- a new key is added by this call, later than all that are there
      obtain rfl := List.mem_singleton.1 hl
      obtain ⟨m, hm⟩ := Option.isSome_iff_exists.1 ((h.present k).1 hk)
      have hnone : addedAt? history l = none := by simpa [h.present] using hnew
      refine ⟨m, (hkept hk).trans hm, history.length, ?_, addedAt?_lt hm⟩
      rw [addedAt?_insert, hnone]
      rfl
  latest other := by
    rw [lastValue?_concat]
    by_cases hkey : key = other
    · subst hkey
      simp
    · rw [get?_insert_other d (Ne.symm hkey), h.latest]
      simp [hkey]

theorem erase (key : String) : Follows (history ++ [.erase key]) (d.erase key) where
  distinct := by
    rw [keys_erase]
    exact h.distinct.erase key
  present other := by
    rw [keys_erase, h.distinct.mem_erase_iff]
    by_cases hkey : key = other
    · subst hkey
      simp [addedAt?_erase]
    · rw [addedAt?_other history (.erase key) hkey, ← h.present]
      simp [Ne.symm hkey]
  ordered := by
    rw [keys_erase]
    have hkept {k : String} (hk : k ∈ d.keys.erase key) :
        addedAt? (history ++ [.erase key]) k = addedAt? history k :=
      addedAt?_other history (.erase key) (h.distinct.mem_erase_iff.1 hk).1.symm
    refine (h.ordered.sublist List.erase_sublist).imp_of_mem fun hk hl hkl => ?_
    rw [AddedBefore, hkept hk, hkept hl]
    exact hkl
  latest other := by
    rw [lastValue?_concat]
    by_cases hkey : key = other
    · subst hkey
      have hnone : (d.erase key).get? key = none := by
        rw [get?_eq_none_iff, keys_erase]
        exact h.distinct.not_mem_erase
      simp [hnone]
    · rw [get?_erase_other d (Ne.symm hkey), h.latest]
      simp [hkey]

theorem apply (c : Change α) : Follows (history ++ [c]) (d.apply c) := by
  cases c with
  | insert key value => exact h.insert key value
  | erase key => exact h.erase key

theorem run (changes : List (Change α)) : Follows (history ++ changes) (d.run changes) := by
  induction changes generalizing history d with
  | nil => rwa [List.append_nil]
  | cons c changes ih =>
    have hnext := ih (h.apply c)
    rwa [List.append_assoc, List.singleton_append] at hnext

end Follows

theorem ofList_eq_run (entries : List (String × α)) : ofList entries = empty.run (Change.insertions entries) := by
  rw [run, Change.insertions, List.foldl_map]
  rfl

theorem follows_run (entries : List (String × α)) (changes : List (Change α)) :
    Follows (Change.insertions entries ++ changes) ((ofList entries).run changes) := by
  rw [ofList_eq_run]
  exact (follows_empty.run (Change.insertions entries)).run changes

/-- Distinct keys have the values that stand at their places. -/
theorem map_get?_keys {d : Dictionary α} (h : d.keys.Nodup) : d.keys.map d.get? = d.values.map some := by
  rw [keys, values, List.map_map, List.map_map]
  exact List.map_congr_left fun e he => (get?_eq_some_iff h).2 he

end Dictionary

open Dictionary (Change addedAt? lastValue? AddedBefore)

/-- Maps with distinct keys, in two cells of a store, are equal by content when they hold equal values under the same
keys. The comparison looks up the keys of one map only, which is enough for as many distinct keys in the other. -/
theorem Store.equal_maps_iff {s : Store} {i j : Nat} (hi : (s.map i).keys.Nodup) (hj : (s.map j).keys.Nodup) :
    s.equal (.map i) (.map j) = true ↔ i = j ∨ (∀ key, key ∈ (s.map i).keys ↔ key ∈ (s.map j).keys) ∧
      ∀ key x y, (s.map i).get? key = some x → (s.map j).get? key = some y → s.equal x y = true := by
  rw [equal_iff_alike]
  constructor
  · intro h
    cases h with
    | sameMap => exact .inl rfl
    | map hsize hentries =>
      right
      have hsubset : (s.map i).keys ⊆ (s.map j).keys := by
        intro key hkey
        obtain ⟨e, he, rfl⟩ := List.mem_map.1 hkey
        obtain ⟨y, hy, -⟩ := hentries e he
        exact ((s.map j).isSome_get?_iff e.1).1 (by rw [hy]; rfl)
      have hlength : (s.map j).keys.length ≤ (s.map i).keys.length := by
        simpa [Dictionary.keys, Dictionary.size] using Nat.le_of_eq hsize.symm
      have hperm := (hi.subperm hsubset).perm_of_length_le hlength
      refine ⟨fun key => hperm.mem_iff, fun key x y hx hy => ?_⟩
      obtain ⟨y', hy', hxy⟩ := hentries (key, x) ((Dictionary.get?_eq_some_iff hi).1 hx)
      cases hy.symm.trans hy'
      exact hxy
  · rintro (rfl | ⟨hkeys, hvalues⟩)
    · exact .sameMap i
    · have hperm := (List.perm_ext_iff_of_nodup hi hj).2 hkeys
      refine .map (by simpa [Dictionary.keys, Dictionary.size] using hperm.length_eq) fun e he => ?_
      have hkey : e.1 ∈ (s.map j).keys := (hkeys e.1).1 (List.mem_map_of_mem he)
      obtain ⟨y, hy⟩ := Option.isSome_iff_exists.1 (((s.map j).isSome_get?_iff e.1).2 hkey)
      exact ⟨y, hy, hvalues e.1 e.2 y ((Dictionary.get?_eq_some_iff hi).2 he) hy⟩

/-- A map that was made of entries and then changed by insertions and erasures has distinct keys. They are those that
were added and not erased since, in the order in which they were added, and each has the value that it was last
inserted with; there are as many as the size says, and the values stand in the order of the keys. It is equal by
content to another such map, in another cell, if and only if both have the same keys with equal values. -/
theorem maps_keep_insertion_order (entries : List (String × Value)) (changes : List (Change Value))
    {m : Dictionary Value} (hm : (Dictionary.ofList entries).run changes = m) :
    m.keys.Nodup ∧
    (∀ key, key ∈ m.keys ↔ (addedAt? (Change.insertions entries ++ changes) key).isSome = true) ∧
    m.keys.Pairwise (AddedBefore (Change.insertions entries ++ changes)) ∧
    (∀ key, m.get? key = lastValue? (Change.insertions entries ++ changes) key) ∧
    m.size = m.keys.length ∧ m.keys.map m.get? = m.values.map some ∧
    ∀ (entries' : List (String × Value)) (changes' : List (Change Value)) (s : Store) (i j : Nat),
      s.map i = m → s.map j = (Dictionary.ofList entries').run changes' →
      (s.equal (.map i) (.map j) = true ↔ i = j ∨ (∀ key, key ∈ (s.map i).keys ↔ key ∈ (s.map j).keys) ∧
        ∀ key x y, (s.map i).get? key = some x → (s.map j).get? key = some y → s.equal x y = true) := by
  subst hm
  have h := Dictionary.follows_run entries changes
  refine ⟨h.distinct, h.present, h.ordered, h.latest, ?_, Dictionary.map_get?_keys h.distinct, ?_⟩
  · exact (List.length_map _).symm
  · intro entries' changes' s i j hi hj
    exact Store.equal_maps_iff (hi ▸ h.distinct) (hj ▸ (Dictionary.follows_run entries' changes').distinct)

/-- A key that is inserted again keeps its place, and one that is erased and inserted again comes last. A map with the
same keys in another order is equal. -/
theorem maps_keep_insertion_order_reinserted :
    (Dictionary.ofList [("b", Value.int 1), ("a", .int 2)]).run
      [.insert "b" (.int 3), .erase "a", .insert "c" .null, .insert "a" (.int 4)] =
        ⟨[("b", .int 3), ("c", .null), ("a", .int 4)]⟩ ∧
    ["b", "c", "a"].Pairwise (AddedBefore (Change.insertions [("b", Value.int 1), ("a", .int 2)] ++
      [.insert "b" (.int 3), .erase "a", .insert "c" .null, .insert "a" (.int 4)])) ∧
    Store.equal { maps := #[⟨[("b", .int 3), ("c", .null), ("a", .int 4)]⟩,
      .ofList [("a", .float 4.0), ("b", .int 3), ("c", .null)]] } (.map 0) (.map 1) = true := by
  have hrun : (Dictionary.ofList [("b", Value.int 1), ("a", .int 2)]).run
      [.insert "b" (.int 3), .erase "a", .insert "c" .null, .insert "a" (.int 4)] =
        ⟨[("b", .int 3), ("c", .null), ("a", .int 4)]⟩ := rfl
  obtain ⟨hdistinct, -, hordered, -, -, -, hequal⟩ := maps_keep_insertion_order _ _ hrun
  refine ⟨hrun, hordered, (hequal [("a", .float 4.0), ("b", .int 3), ("c", .null)] [] _ 0 1 rfl rfl).2 (.inr ⟨?_, ?_⟩)⟩
  · intro key
    show key ∈ ["b", "c", "a"] ↔ key ∈ ["a", "b", "c"]
    simp only [List.mem_cons, List.not_mem_nil, or_false]
    tauto
  · intro key x y hx hy
    have hentry : (key, x) ∈ [("b", Value.int 3), ("c", .null), ("a", .int 4)] :=
      (Dictionary.get?_eq_some_iff hdistinct).1 hx
    simp only [List.mem_cons, Prod.mk.injEq, List.not_mem_nil, or_false] at hentry
    rcases hentry with ⟨rfl, rfl⟩ | ⟨rfl, rfl⟩ | ⟨rfl, rfl⟩ <;> cases hy <;> decide

end Scriptlet
