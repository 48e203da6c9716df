import Mathlib.Data.List.Basic
import Mathlib.Data.List.Nodup

/-!
# A dict of lists, filled by `setdefault`

The idiom `d.setdefault(k, []).append(v)` keeps, for each key, the values it was
given, in order, and the keys in the order of their first value.  `Multimap` is
such a dict: no key stands twice and no key is without a value, both carried by
the structure.

* `get` reads `d.get(k, ())`, and `get_add` is the one fact about `add` that a
  caller needs;
* `mem_items_iff` says what iterating over the dict meets.
-/

namespace NetRollout

variable {κ ν : Type*} [DecidableEq κ]

namespace Multimap

/-- `setdefault(k, []).append(v)` on the entries. -/
def insertItem : List (κ × List ν) → κ → ν → List (κ × List ν)
  | [], k, v => [(k, [v])]
  | (k', vs) :: items, k, v =>
    if k' = k then (k', vs ++ [v]) :: items else (k', vs) :: insertItem items k v

/-- The values of a key among the entries. -/
def getItems : List (κ × List ν) → κ → List ν
  | [], _ => []
  | (k', vs) :: items, k => if k' = k then vs else getItems items k

theorem keys_insertItem (items : List (κ × List ν)) (k : κ) (v : ν) :
    (insertItem items k v).map Prod.fst =
      if k ∈ items.map Prod.fst then items.map Prod.fst else items.map Prod.fst ++ [k] := by
  induction items with
  | nil => simp [insertItem]
  | cons item items ih =>
    obtain ⟨k', vs⟩ := item
    by_cases h : k' = k
    · simp [insertItem, h]
    · have h' : k ≠ k' := fun e => h e.symm
      simp only [insertItem, if_neg h, List.map_cons, ih, List.mem_cons, h', false_or]
      split <;> simp

theorem getItems_insertItem (items : List (κ × List ν)) (k : κ) (v : ν) (j : κ) :
    getItems (insertItem items k v) j =
      if k = j then getItems items j ++ [v] else getItems items j := by
  induction items with
  | nil => simp [insertItem, getItems]
  | cons item items ih =>
    obtain ⟨k', vs⟩ := item
    by_cases h : k' = k
    · subst h
      by_cases hj : k' = j <;> simp [insertItem, getItems, hj]
    · rw [insertItem, if_neg h, getItems, getItems, ih]
      by_cases hj : k' = j
      · have hkj : k ≠ j := fun e => h (hj.trans e.symm)
        simp [hj, hkj]
      · simp [hj]

theorem nodup_insertItem {items : List (κ × List ν)} (h : (items.map Prod.fst).Nodup) (k : κ)
    (v : ν) : ((insertItem items k v).map Prod.fst).Nodup := by
  rw [keys_insertItem]
  split
  · exact h
  · next hk =>
    rw [List.nodup_append]
    exact ⟨h, List.nodup_singleton k, fun a ha b hb => by
      rw [List.mem_singleton] at hb
      rw [hb]
      exact fun e => hk (e ▸ ha)⟩

theorem ne_nil_insertItem {items : List (κ × List ν)} (h : ∀ item ∈ items, item.2 ≠ []) (k : κ)
    (v : ν) : ∀ item ∈ insertItem items k v, item.2 ≠ [] := by
  induction items with
  | nil => simp [insertItem]
  | cons item items ih =>
    intro entry hentry
    unfold insertItem at hentry
    split at hentry
    · rcases List.mem_cons.mp hentry with rfl | hentry
      · simp
      · exact h entry (List.mem_cons_of_mem _ hentry)
    · rcases List.mem_cons.mp hentry with rfl | hentry
      · exact h _ (List.mem_cons_self ..)
      · exact ih (fun x hx => h x (List.mem_cons_of_mem _ hx)) entry hentry

theorem mem_items_iff_getItems {items : List (κ × List ν)} (hnodup : (items.map Prod.fst).Nodup)
    (hne : ∀ item ∈ items, item.2 ≠ []) (k : κ) (vs : List ν) :
    (k, vs) ∈ items ↔ getItems items k = vs ∧ vs ≠ [] := by
  induction items with
  | nil => simp [getItems]
  | cons item items ih =>
    obtain ⟨k', us⟩ := item
    rw [List.map_cons, List.nodup_cons] at hnodup
    have ih' := ih hnodup.2 fun x hx => hne x (List.mem_cons_of_mem _ hx)
    rw [List.mem_cons, getItems]
    by_cases h : k' = k
    · subst h
      rw [if_pos rfl]
      constructor
      · rintro (heq | hmem)
        · rw [Prod.mk.injEq] at heq
          exact ⟨heq.2.symm, heq.2 ▸ hne _ (List.mem_cons_self ..)⟩
        · exact absurd (List.mem_map_of_mem (f := Prod.fst) hmem) hnodup.1
      · rintro ⟨rfl, -⟩
        exact Or.inl rfl
    · rw [if_neg h, ← ih']
      constructor
      · rintro (heq | hmem)
        · exact absurd (Prod.mk.inj heq).1.symm h
        · exact hmem
      · exact Or.inr

end Multimap

/-- A dict from keys to the values given to them, in order. -/
structure Multimap (κ ν : Type*) [DecidableEq κ] where
  items : List (κ × List ν)
  nodup_keys : (items.map Prod.fst).Nodup
  ne_nil : ∀ item ∈ items, item.2 ≠ []

namespace Multimap

/-- `{}`. -/
def empty : Multimap κ ν := ⟨[], List.nodup_nil, by simp⟩

/-- `d.setdefault(k, []).append(v)`. -/
def add (d : Multimap κ ν) (k : κ) (v : ν) : Multimap κ ν :=
  ⟨insertItem d.items k v, nodup_insertItem d.nodup_keys k v, ne_nil_insertItem d.ne_nil k v⟩

/-- `d.get(k, ())`. -/
def get (d : Multimap κ ν) (k : κ) : List ν := getItems d.items k

/-- The keys, in the order of their first value. -/
def keys (d : Multimap κ ν) : List κ := d.items.map Prod.fst

@[simp] theorem get_empty (k : κ) : (empty : Multimap κ ν).get k = [] := rfl

@[simp] theorem items_empty : (empty : Multimap κ ν).items = [] := rfl

/-- A key's values once a value is appended to one key's. -/
theorem get_add (d : Multimap κ ν) (k : κ) (v : ν) (j : κ) :
    (d.add k v).get j = if k = j then d.get j ++ [v] else d.get j :=
  getItems_insertItem d.items k v j

/-- An entry is a key with all its values. -/
theorem mem_items_iff (d : Multimap κ ν) (k : κ) (vs : List ν) :
    (k, vs) ∈ d.items ↔ d.get k = vs ∧ vs ≠ [] :=
  mem_items_iff_getItems d.nodup_keys d.ne_nil k vs

/-- A key is one that was given a value. -/
theorem mem_keys_iff (d : Multimap κ ν) (k : κ) : k ∈ d.keys ↔ d.get k ≠ [] := by
  constructor
  · intro hk
    obtain ⟨⟨k', vs⟩, hitem, rfl⟩ := List.mem_map.mp hk
    obtain ⟨hget, hne⟩ := (d.mem_items_iff k' vs).mp hitem
    rwa [hget]
  · intro hne
    exact List.mem_map.mpr ⟨(k, d.get k), (d.mem_items_iff k (d.get k)).mpr ⟨rfl, hne⟩, rfl⟩

end Multimap
end NetRollout
