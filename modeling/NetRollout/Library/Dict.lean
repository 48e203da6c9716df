import Mathlib.Data.Char
import Mathlib.Data.List.Basic
import Mathlib.Data.List.Lex
import Mathlib.Data.List.Nodup
import Mathlib.Data.List.Perm.Basic
import Mathlib.Data.List.Sort

/-!
# A dict, in the order its keys came

A Python `dict`: its items in the order their keys were first given, a key given again keeping
its place.  `update` gives several; a key has the value it is given (`get_update`), and
items with different keys are given as they stand (`update_nil`).  `setdefault` gives what a key
has not (`get_setdefaults`), `pop` takes a key away.
-/

namespace NetRollout
namespace Dict

variable {α β : Type*} [DecidableEq α]

/-- `d.get(key)`. -/
def get : List (α × β) → α → Option β
  | [], _ => none
  | e :: d, key => if e.1 = key then some e.2 else get d key

/-- `d[key] = value`. -/
def put : List (α × β) → α × β → List (α × β)
  | [], item => [item]
  | e :: d, item => if e.1 = item.1 then item :: d else e :: put d item

/-- `d.update(items)`. -/
def update (d items : List (α × β)) : List (α × β) := items.foldl put d

theorem get_eq_none_iff {d : List (α × β)} {key : α} : get d key = none ↔ key ∉ d.map Prod.fst := by
  induction d with
  | nil => simp [get]
  | cons e d ih =>
    rw [get, List.map_cons, List.mem_cons, not_or]
    split
    · next h => simp [h]
    · next h => rw [ih, and_iff_right (Ne.symm h)]

theorem get_of_mem {d : List (α × β)} (hd : (d.map Prod.fst).Nodup) {e : α × β} (he : e ∈ d) :
    get d e.1 = some e.2 := by
  induction d with
  | nil => cases he
  | cons a d ih =>
    rw [List.map_cons, List.nodup_cons] at hd
    rcases List.mem_cons.mp he with rfl | he
    · exact if_pos rfl
    · have hne : a.1 ≠ e.1 := fun heq => hd.1 (heq ▸ List.mem_map_of_mem he)
      rw [get, if_neg hne]
      exact ih hd.2 he

theorem mem_of_get {d : List (α × β)} {key : α} {value : β} (h : get d key = some value) :
    (key, value) ∈ d := by
  induction d with
  | nil => cases h
  | cons e d ih =>
    rw [get] at h
    split at h
    · next heq =>
      obtain rfl := Option.some.inj h
      rw [← heq]
      exact List.mem_cons_self
    · exact List.mem_cons_of_mem _ (ih h)

theorem get_put (d : List (α × β)) (item : α × β) (key : α) :
    get (put d item) key = if item.1 = key then some item.2 else get d key := by
  induction d with
  | nil => rfl
  | cons a d ih =>
    by_cases ha : a.1 = item.1
    · rw [put, if_pos ha, get, get, ha]
      by_cases hkey : item.1 = key
      · rw [if_pos hkey, if_pos hkey]
      · rw [if_neg hkey, if_neg hkey, if_neg hkey]
    · rw [put, if_neg ha, get, get, ih]
      by_cases hkey : item.1 = key
      · rw [if_pos hkey, if_neg fun heq => ha (heq.trans hkey.symm), if_pos hkey]
      · rw [if_neg hkey, if_neg hkey]

/-- A key that is given once has the value it is given. -/
theorem get_update {items : List (α × β)} (h : (items.map Prod.fst).Nodup) (d : List (α × β))
    (key : α) : get (update d items) key = (get items key).or (get d key) := by
  induction items generalizing d with
  | nil => rfl
  | cons item items ih =>
    rw [List.map_cons, List.nodup_cons] at h
    show get (update (put d item) items) key = _
    rw [ih h.2, get_put, get]
    by_cases hkey : item.1 = key
    · subst hkey
      rw [get_eq_none_iff.mpr h.1, if_pos rfl, if_pos rfl]
      rfl
    · rw [if_neg hkey, if_neg hkey]

theorem put_of_notMem {d : List (α × β)} {item : α × β} (h : item.1 ∉ d.map Prod.fst) :
    put d item = d ++ [item] := by
  induction d with
  | nil => rfl
  | cons e d ih =>
    rw [List.map_cons, List.mem_cons, not_or] at h
    rw [put, if_neg (Ne.symm h.1), ih h.2, List.cons_append]

theorem mem_put {d : List (α × β)} {item e : α × β} (h : e ∈ put d item) : e = item ∨ e ∈ d := by
  induction d with
  | nil => exact .inl (List.mem_singleton.mp h)
  | cons a d ih =>
    rw [put] at h
    split at h
    · rcases List.mem_cons.mp h with rfl | h
      · exact .inl rfl
      · exact .inr (List.mem_cons_of_mem _ h)
    · rcases List.mem_cons.mp h with rfl | h
      · exact .inr List.mem_cons_self
      · exact (ih h).imp_right (List.mem_cons_of_mem _)

theorem nodup_put {d : List (α × β)} (hd : (d.map Prod.fst).Nodup) (item : α × β) :
    ((put d item).map Prod.fst).Nodup := by
  induction d with
  | nil => exact List.nodup_singleton _
  | cons a d ih =>
    rw [List.map_cons, List.nodup_cons] at hd
    rw [put]
    split
    · next h =>
      rw [List.map_cons, List.nodup_cons]
      exact ⟨h ▸ hd.1, hd.2⟩
    · next h =>
      rw [List.map_cons, List.nodup_cons]
      refine ⟨fun hmem => ?_, ih hd.2⟩
      obtain ⟨e, he, heq⟩ := List.mem_map.mp hmem
      rcases mem_put he with rfl | he
      · exact h heq.symm
      · exact hd.1 (List.mem_map.mpr ⟨e, he, heq⟩)

theorem nodup_update {d : List (α × β)} (hd : (d.map Prod.fst).Nodup) (items : List (α × β)) :
    ((update d items).map Prod.fst).Nodup := by
  induction items generalizing d with
  | nil => exact hd
  | cons item items ih => exact ih (nodup_put hd item)

/-- Items with different keys are added as they stand. -/
theorem update_of_disjoint {items d : List (α × β)} (h : ((d ++ items).map Prod.fst).Nodup) :
    update d items = d ++ items := by
  induction items generalizing d with
  | nil => exact (List.append_nil d).symm
  | cons item items ih =>
    have hitem : item.1 ∉ d.map Prod.fst := by
      rw [List.map_append, List.map_cons] at h
      exact fun hmem => (List.disjoint_of_nodup_append h) hmem List.mem_cons_self
    show update (put d item) items = _
    rw [put_of_notMem hitem, ih (by rwa [List.append_assoc, List.singleton_append]),
      List.append_assoc, List.singleton_append]

theorem update_nil {items : List (α × β)} (h : (items.map Prod.fst).Nodup) :
    update [] items = items := update_of_disjoint (by rwa [List.nil_append])

/-- What holds of every item holds of every item of an updated dict. -/
theorem forall_mem_update {P : α × β → Prop} {d items : List (α × β)} (hd : ∀ e ∈ d, P e)
    (h : ∀ e ∈ items, P e) : ∀ e ∈ update d items, P e := by
  induction items generalizing d with
  | nil => exact hd
  | cons item items ih =>
    refine ih (fun e he => ?_) fun e he => h e (List.mem_cons_of_mem _ he)
    rcases mem_put he with rfl | he
    · exact h e List.mem_cons_self
    · exact hd e he

/-! ## Keys given once, and keys taken away -/

/-- `d.setdefault(key, value)`. -/
def setdefault (d : List (α × β)) (item : α × β) : List (α × β) :=
  if (get d item.1).isSome then d else put d item

/-- `d.pop(key, None)`. -/
def pop (d : List (α × β)) (key : α) : List (α × β) := d.filter fun e => e.1 ≠ key

theorem get_setdefault (d : List (α × β)) (item : α × β) (key : α) :
    get (setdefault d item) key =
      (get d key).or (if item.1 = key then some item.2 else none) := by
  by_cases hkey : item.1 = key
  · subst hkey
    cases hget : get d item.1 with
    | none =>
      rw [setdefault, hget, if_neg (by simp), get_put, if_pos rfl, if_pos rfl, Option.none_or]
    | some value =>
      rw [setdefault, hget, if_pos Option.isSome_some, hget]
      rfl
  · rw [setdefault, if_neg hkey, Option.or_none]
    split
    · rfl
    · rw [get_put, if_neg hkey]

theorem nodup_setdefault {d : List (α × β)} (hd : (d.map Prod.fst).Nodup) (item : α × β) :
    ((setdefault d item).map Prod.fst).Nodup := by
  rw [setdefault]
  split
  · exact hd
  · exact nodup_put hd item

/-- Several keys are given one value. -/
theorem get_setdefaults (keys : List α) (value : β) (d : List (α × β)) (key : α) :
    get (keys.foldl (fun d k => setdefault d (k, value)) d) key =
      (get d key).or (if key ∈ keys then some value else none) := by
  induction keys generalizing d with
  | nil => exact (Option.or_none ..).symm
  | cons k keys ih =>
    rw [List.foldl_cons, ih, get_setdefault, Option.or_assoc]
    congr 1
    by_cases hk : k = key
    · subst hk
      rw [if_pos rfl, if_pos List.mem_cons_self]
      rfl
    · have hmem : key ∈ k :: keys ↔ key ∈ keys := by
        rw [List.mem_cons, or_iff_right (Ne.symm hk)]
      rw [if_neg hk, Option.none_or]
      simp only [hmem]

theorem nodup_setdefaults {d : List (α × β)} (hd : (d.map Prod.fst).Nodup) (keys : List α)
    (value : β) : ((keys.foldl (fun d k => setdefault d (k, value)) d).map Prod.fst).Nodup := by
  induction keys generalizing d with
  | nil => exact hd
  | cons k keys ih => exact ih (nodup_setdefault hd (k, value))

theorem get_pop (d : List (α × β)) (key k : α) :
    get (pop d key) k = if k = key then none else get d k := by
  induction d with
  | nil => exact (ite_self _).symm
  | cons e d ih =>
    rw [pop, List.filter_cons]
    by_cases he : e.1 = key
    · rw [if_neg (by simpa using he), ← pop, ih, get]
      by_cases hk : k = key
      · rw [if_pos hk, if_pos hk]
      · rw [if_neg hk, if_neg hk, if_neg fun heq => hk (heq.symm.trans he)]
    · rw [if_pos (by simpa using he), get, get, ← pop, ih]
      by_cases heq : e.1 = k
      · rw [if_pos heq, if_neg fun hk => he (heq.trans hk), if_pos heq]
      · rw [if_neg heq, if_neg heq]

omit [DecidableEq α] in
theorem nodup_filter {d : List (α × β)} (hd : (d.map Prod.fst).Nodup) (p : α × β → Bool) :
    ((d.filter p).map Prod.fst).Nodup :=
  hd.sublist ((List.filter_sublist (l := d)).map Prod.fst)

/-- The items whose values meet a condition. -/
theorem get_filter {d : List (α × β)} (hd : (d.map Prod.fst).Nodup) (p : β → Bool) (key : α) :
    get (d.filter fun e => p e.2) key = (get d key).filter p := by
  induction d with
  | nil => rfl
  | cons e d ih =>
    rw [List.map_cons, List.nodup_cons] at hd
    rw [List.filter_cons, get]
    by_cases heq : e.1 = key
    · rw [if_pos heq]
      by_cases hp : p e.2 = true
      · rw [if_pos hp, get, if_pos heq, Option.filter_some, if_pos hp]
      · rw [if_neg hp, Option.filter_some, if_neg hp, get_eq_none_iff]
        intro hmem
        obtain ⟨e', he', hkey⟩ := List.mem_map.mp hmem
        exact hd.1 (heq ▸ hkey ▸ List.mem_map_of_mem (List.mem_filter.mp he').1)
    · rw [if_neg heq]
      by_cases hp : p e.2 = true
      · rw [if_pos hp, get, if_neg heq, ih hd.2]
      · rw [if_neg hp, ih hd.2]

section Sorted

variable [LE α] [DecidableLE α]

/-- `sorted(d)`: the keys in order. -/
def sorted (d : List (α × β)) : List α := (d.map Prod.fst).insertionSort (· ≤ ·)

omit [DecidableEq α] in
theorem mem_sorted {d : List (α × β)} {key : α} : key ∈ sorted d ↔ key ∈ d.map Prod.fst := by
  rw [sorted, List.mem_insertionSort]

end Sorted

theorem mem_keys_iff {d : List (α × β)} {key : α} :
    key ∈ d.map Prod.fst ↔ (get d key).isSome = true := by
  rw [← not_iff_not, ← get_eq_none_iff, Bool.not_eq_true, Option.isSome_eq_false_iff,
    Option.isNone_iff_eq_none]

end Dict
end NetRollout
