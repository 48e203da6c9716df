import Mathlib.Algebra.Order.Ring.Int
import Mathlib.Data.List.Induction
import NetRollout.Library.Dict

/-!
# Counting

Python's `Counter`, or a dict filled by `counts[key] = counts.get(key, 0) + 1`: each key with
how often it came, in the order the keys first came.

`get_count` is what is counted of a key, and `sum_count` that the counts come to all there is.
`le_mostCommon` is that no key came more often than the most common one.
-/

namespace NetRollout
namespace Counter

variable {α : Type*} [DecidableEq α]

/-- `counts[key] = counts.get(key, 0) + 1`. -/
def add (counts : List (α × ℕ)) (key : α) : List (α × ℕ) :=
  Dict.put counts (key, (Dict.get counts key).getD 0 + 1)

/-- How often each key comes. -/
def count (keys : List α) : List (α × ℕ) := keys.foldl add []

/-- `max(counts, key=counts.get)`: the first of the keys that came most often. -/
def mostCommon : List (α × ℕ) → Option (α × ℕ)
  | [] => none
  | e :: counts =>
    match mostCommon counts with
    | none => some e
    | some best => if e.2 < best.2 then some best else some e

theorem count_append_singleton (keys : List α) (key : α) :
    count (keys ++ [key]) = add (count keys) key := by
  rw [count, List.foldl_append]
  rfl

theorem get_add (counts : List (α × ℕ)) (key k : α) :
    (Dict.get (add counts key) k).getD 0 =
      (Dict.get counts k).getD 0 + if key = k then 1 else 0 := by
  rw [add, Dict.get_put]
  by_cases h : key = k
  · subst h
    simp
  · simp [h]

/-- A key's count is how often it came. -/
theorem get_count (keys : List α) (k : α) : (Dict.get (count keys) k).getD 0 = keys.count k := by
  induction keys using List.reverseRecOn with
  | nil => rfl
  | append_singleton keys key ih =>
    rw [count_append_singleton, get_add, ih, List.count_append, List.count_singleton]
    by_cases h : key = k <;> simp [h]

theorem nodup_count (keys : List α) : ((count keys).map Prod.fst).Nodup := by
  induction keys using List.reverseRecOn with
  | nil => exact List.nodup_nil
  | append_singleton keys key ih =>
    rw [count_append_singleton]
    exact Dict.nodup_put ih _

/-- Only what came is counted. -/
theorem mem_keys_count (keys : List α) (k : α) : k ∈ (count keys).map Prod.fst ↔ k ∈ keys := by
  induction keys using List.reverseRecOn with
  | nil => simp [count]
  | append_singleton keys key ih =>
    rw [count_append_singleton, add, ← not_iff_not, ← Dict.get_eq_none_iff, Dict.get_put]
    by_cases h : key = k
    · simp [h]
    · rw [if_neg h, Dict.get_eq_none_iff, ih, List.mem_append, List.mem_singleton,
        or_iff_left (Ne.symm h)]

/-- An entry is a key that came with how often it did. -/
theorem mem_count {keys : List α} {e : α × ℕ} (h : e ∈ count keys) :
    e.2 = keys.count e.1 ∧ e.1 ∈ keys := by
  constructor
  · rw [← get_count, Dict.get_of_mem (nodup_count keys) h, Option.getD_some]
  · exact (mem_keys_count keys e.1).mp (List.mem_map_of_mem h)

theorem sum_put {d : List (α × ℕ)} (key : α) (n : ℕ) :
    ((Dict.put d (key, (Dict.get d key).getD 0 + n)).map Prod.snd).sum =
      (d.map Prod.snd).sum + n := by
  induction d with
  | nil => simp [Dict.put, Dict.get]
  | cons e d ih =>
    rw [Dict.put, Dict.get]
    by_cases h : e.1 = key
    · rw [if_pos h, if_pos h, List.map_cons, List.map_cons, List.sum_cons, List.sum_cons,
        Option.getD_some]
      omega
    · rw [if_neg h, if_neg h, List.map_cons, List.map_cons, List.sum_cons, List.sum_cons, ih]
      omega

/-- The counts come to all there is. -/
theorem sum_count (keys : List α) : ((count keys).map Prod.snd).sum = keys.length := by
  induction keys using List.reverseRecOn with
  | nil => rfl
  | append_singleton keys key ih =>
    rw [count_append_singleton, add, sum_put, ih, List.length_append, List.length_singleton]

omit [DecidableEq α] in
/-- **None came more often** than the most common one. -/
theorem le_mostCommon {counts : List (α × ℕ)} {best : α × ℕ} (h : mostCommon counts = some best) :
    best ∈ counts ∧ ∀ e ∈ counts, e.2 ≤ best.2 := by
  induction counts generalizing best with
  | nil => cases h
  | cons e counts ih =>
    rw [mostCommon] at h
    split at h
    · next hnone =>
      obtain rfl := Option.some.inj h
      have hnil : counts = [] := by
        cases counts with
        | nil => rfl
        | cons f counts =>
          rw [mostCommon] at hnone
          split at hnone
          · cases hnone
          · split at hnone <;> cases hnone
      subst hnil
      exact ⟨List.mem_cons_self .., fun f hf => by rw [List.mem_singleton.mp hf]⟩
    · next top htop =>
      obtain ⟨hmem, hle⟩ := ih htop
      split at h
      · next hlt =>
        obtain rfl := Option.some.inj h
        refine ⟨List.mem_cons_of_mem _ hmem, fun f hf => ?_⟩
        rcases List.mem_cons.mp hf with rfl | hf
        · omega
        · exact hle f hf
      · next hge =>
        obtain rfl := Option.some.inj h
        refine ⟨List.mem_cons_self .., fun f hf => ?_⟩
        rcases List.mem_cons.mp hf with rfl | hf
        · omega
        · have := hle f hf
          omega

end Counter
end NetRollout
