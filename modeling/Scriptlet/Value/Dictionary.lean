/-! Values under names, in the order in which the names were first added. -/
namespace Scriptlet

structure Dictionary (α : Type) where
  entries : List (String × α) := []
  deriving Inhabited

namespace Dictionary

variable {α : Type}

def empty : Dictionary α := ⟨[]⟩

def keys (d : Dictionary α) : List String := d.entries.map (·.1)

def values (d : Dictionary α) : List α := d.entries.map (·.2)

def size (d : Dictionary α) : Nat := d.entries.length

def isEmpty (d : Dictionary α) : Bool := d.entries.isEmpty

def get? (d : Dictionary α) (key : String) : Option α := d.entries.lookup key

def contains (d : Dictionary α) (key : String) : Bool := (d.get? key).isSome

/-- Replaces the value of the first entry with the key, or adds an entry at the end. -/
def insertEntry (key : String) (value : α) : List (String × α) → List (String × α)
  | [] => [(key, value)]
  | (k, v) :: rest => if k = key then (k, value) :: rest else (k, v) :: insertEntry key value rest

/-- A key that is there keeps its place. -/
def insert (d : Dictionary α) (key : String) (value : α) : Dictionary α :=
  ⟨insertEntry key value d.entries⟩

def eraseEntry (key : String) : List (String × α) → List (String × α)
  | [] => []
  | (k, v) :: rest => if k = key then rest else (k, v) :: eraseEntry key rest

def erase (d : Dictionary α) (key : String) : Dictionary α := ⟨eraseEntry key d.entries⟩

/-- Inserts the entries one after another, so that the last value of a key wins. -/
def ofList (entries : List (String × α)) : Dictionary α :=
  entries.foldl (fun d e => d.insert e.1 e.2) empty

@[simp] theorem get?_empty (key : String) : (empty : Dictionary α).get? key = none := rfl

theorem lookup_insertEntry_self (key : String) (value : α) (entries : List (String × α)) :
    (insertEntry key value entries).lookup key = some value := by
  induction entries with
  | nil => simp [insertEntry]
  | cons e rest ih =>
    obtain ⟨k, v⟩ := e
    by_cases h : k = key
    · simp [insertEntry, h]
    · have : (key == k) = false := by simp [Ne.symm h]
      simp [insertEntry, h, List.lookup_cons, this, ih]

theorem lookup_insertEntry_other {key other : String} (h : other ≠ key) (value : α)
    (entries : List (String × α)) :
    (insertEntry key value entries).lookup other = entries.lookup other := by
  induction entries with
  | nil =>
    have : (other == key) = false := by simp [h]
    simp [insertEntry, List.lookup_cons, this]
  | cons e rest ih =>
    obtain ⟨k, v⟩ := e
    by_cases hk : k = key
    · subst hk
      have : (other == k) = false := by simp [h]
      simp [insertEntry, List.lookup_cons, this]
    · simp only [insertEntry, hk, if_false, List.lookup_cons]
      split <;> simp_all

@[simp] theorem get?_insert_self (d : Dictionary α) (key : String) (value : α) :
    (d.insert key value).get? key = some value := lookup_insertEntry_self key value d.entries

theorem get?_insert_other (d : Dictionary α) {key other : String} (h : other ≠ key) (value : α) :
    (d.insert key value).get? other = d.get? other := lookup_insertEntry_other h value d.entries

theorem map_fst_insertEntry (key : String) (value : α) (entries : List (String × α)) :
    (insertEntry key value entries).map (·.1) =
      if key ∈ entries.map (·.1) then entries.map (·.1) else entries.map (·.1) ++ [key] := by
  induction entries with
  | nil => simp [insertEntry]
  | cons e rest ih =>
    obtain ⟨k, v⟩ := e
    by_cases h : k = key
    · simp [insertEntry, h]
    · have h' : key ≠ k := fun e => h e.symm
      simp only [insertEntry, h, if_false, List.map_cons, ih, List.mem_cons, h', false_or]
      split <;> simp

/-- A new key goes to the end, and one that is there stays in its place. -/
theorem keys_insert (d : Dictionary α) (key : String) (value : α) :
    (d.insert key value).keys = if key ∈ d.keys then d.keys else d.keys ++ [key] :=
  map_fst_insertEntry key value d.entries

theorem nodup_keys_insert {d : Dictionary α} (h : d.keys.Nodup) (key : String) (value : α) :
    (d.insert key value).keys.Nodup := by
  rw [keys_insert]
  split
  · exact h
  · next hk =>
    rw [List.nodup_append]
    refine ⟨h, by simp, ?_⟩
    intro a ha b hb hab
    simp only [List.mem_singleton] at hb
    exact hk (hb ▸ hab ▸ ha)

theorem isSome_get?_iff (d : Dictionary α) (key : String) : (d.get? key).isSome = true ↔ key ∈ d.keys := by
  rw [get?, List.lookup_isSome_iff, keys, List.mem_map]
  exact ⟨fun ⟨e, he, hk⟩ => ⟨e, he, (eq_of_beq hk).symm⟩, fun ⟨e, he, hk⟩ => ⟨e, he, beq_iff_eq.2 hk.symm⟩⟩

theorem get?_eq_none_iff (d : Dictionary α) (key : String) : d.get? key = none ↔ key ∉ d.keys := by
  rw [← d.isSome_get?_iff, Option.not_isSome_iff_eq_none]

theorem lookup_eq_some_iff_mem {entries : List (String × α)} (h : (entries.map (·.1)).Nodup) {key : String}
    {value : α} : entries.lookup key = some value ↔ (key, value) ∈ entries := by
  induction entries with
  | nil => simp
  | cons e rest ih =>
    obtain ⟨k, v⟩ := e
    obtain ⟨hfresh, hrest⟩ := List.nodup_cons.1 h
    by_cases hk : key = k
    · subst hk
      have hnone : (key, value) ∉ rest := fun hmem => hfresh (List.mem_map.2 ⟨_, hmem, rfl⟩)
      simp [hnone, eq_comm]
    · have : (key == k) = false := by simp [hk]
      simp [List.lookup_cons, this, ih hrest, hk]

/-- Where no key occurs twice, every entry is found. -/
theorem get?_eq_some_iff {d : Dictionary α} (h : d.keys.Nodup) {key : String} {value : α} :
    d.get? key = some value ↔ (key, value) ∈ d.entries := lookup_eq_some_iff_mem h

theorem map_fst_eraseEntry (key : String) (entries : List (String × α)) :
    (eraseEntry key entries).map (·.1) = (entries.map (·.1)).erase key := by
  induction entries with
  | nil => rfl
  | cons e rest ih =>
    obtain ⟨k, v⟩ := e
    by_cases h : k = key
    · simp [eraseEntry, h]
    · simp [eraseEntry, h, ih]

/-- The other keys keep their order. -/
theorem keys_erase (d : Dictionary α) (key : String) : (d.erase key).keys = d.keys.erase key :=
  map_fst_eraseEntry key d.entries

theorem lookup_eraseEntry_other {key other : String} (h : other ≠ key) (entries : List (String × α)) :
    (eraseEntry key entries).lookup other = entries.lookup other := by
  induction entries with
  | nil => rfl
  | cons e rest ih =>
    obtain ⟨k, v⟩ := e
    by_cases hk : k = key
    · subst hk
      have : (other == k) = false := by simp [h]
      simp [eraseEntry, List.lookup_cons, this]
    · simp only [eraseEntry, hk, if_false, List.lookup_cons, ih]

theorem get?_erase_other (d : Dictionary α) {key other : String} (h : other ≠ key) :
    (d.erase key).get? other = d.get? other := lookup_eraseEntry_other h d.entries

end Dictionary

end Scriptlet
