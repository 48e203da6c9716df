import Mathlib.Data.List.Basic
import Mathlib.Data.List.Nodup
import Mathlib.Logic.Function.Basic

/-!
# Updates of a function, one after the other

A list of updates, each of one argument, applied in order: what stands at an argument
afterwards, and what becomes of it where the list is cut short.

`whole_or_none_iff` is the fact about a cut: a part of updates of different arguments looks
like none of them or like all of them exactly when the part done changes nothing or the
part not done would change nothing.
-/

namespace NetRollout
namespace Patch

variable {κ ν : Type*} [DecidableEq κ]

/-- The updates, in order. -/
def apply (updates : List (κ × ν)) (f : κ → ν) : κ → ν :=
  updates.foldl (fun f update => Function.update f update.1 update.2) f

variable {updates : List (κ × ν)} {f g : κ → ν} {k : κ} {v : ν}

@[simp] theorem apply_nil : apply [] f = f := rfl

theorem apply_cons (update : κ × ν) :
    apply (update :: updates) f = apply updates (Function.update f update.1 update.2) := rfl

theorem apply_of_notMem (h : k ∉ updates.map Prod.fst) : apply updates f k = f k := by
  induction updates generalizing f with
  | nil => rfl
  | cons update updates ih =>
    rw [List.map_cons, List.mem_cons, not_or] at h
    rw [apply_cons, ih h.2, Function.update_of_ne h.1]

/-- What stands at an argument is what stood there, or what one of its updates puts there. -/
theorem apply_cases (updates : List (κ × ν)) (f : κ → ν) (k : κ) :
    apply updates f k = f k ∨ (k, apply updates f k) ∈ updates := by
  induction updates generalizing f with
  | nil => exact .inl rfl
  | cons update updates ih =>
    rw [apply_cons]
    rcases ih (Function.update f update.1 update.2) with hold | hmem
    · by_cases hk : k = update.1
      · subst hk
        rw [hold, Function.update_self]
        exact .inr (List.mem_cons_self ..)
      · rw [hold, Function.update_of_ne hk]
        exact .inl rfl
    · exact .inr (List.mem_cons_of_mem _ hmem)

theorem apply_of_mem (hkeys : (updates.map Prod.fst).Nodup) (h : (k, v) ∈ updates) :
    apply updates f k = v := by
  induction updates generalizing f with
  | nil => cases h
  | cons update updates ih =>
    rw [List.map_cons, List.nodup_cons] at hkeys
    rw [apply_cons]
    rcases List.mem_cons.mp h with rfl | h
    · rw [apply_of_notMem hkeys.1, Function.update_self]
    · exact ih hkeys.2 h

/-- An update by what stands there already is none. -/
theorem apply_filter [DecidableEq ν] (hkeys : (updates.map Prod.fst).Nodup) :
    apply (updates.filter fun update => update.2 ≠ f update.1) f = apply updates f := by
  have hsub : (updates.filter fun update => update.2 ≠ f update.1).Sublist updates :=
    List.filter_sublist
  ext k
  by_cases hmem : k ∈ updates.map Prod.fst
  · obtain ⟨⟨k', v⟩, hupdate, rfl⟩ := List.mem_map.mp hmem
    rw [apply_of_mem hkeys hupdate]
    by_cases heq : v = f k'
    · rcases apply_cases (updates.filter fun update => update.2 ≠ f update.1) f k' with hold | hmem'
      · exact hold.trans heq.symm
      · rw [← apply_of_mem (f := f) hkeys (hsub.subset hmem'), apply_of_mem hkeys hupdate]
    · exact apply_of_mem (hkeys.sublist (hsub.map _))
        (List.mem_filter.mpr ⟨hupdate, decide_eq_true heq⟩)
  · rw [apply_of_notMem hmem, apply_of_notMem fun hk => hmem ((hsub.map _).subset hk)]

/-- **All or nothing**, for a part of the updates. -/
theorem whole_or_none_iff {done rest : List (κ × ν)} (hkeys : ((done ++ rest).map Prod.fst).Nodup) :
    ((∀ k ∈ (done ++ rest).map Prod.fst, apply done f k = f k) ∨
      ∀ k ∈ (done ++ rest).map Prod.fst, apply done f k = apply (done ++ rest) f k) ↔
    (∀ update ∈ done, f update.1 = update.2) ∨ ∀ update ∈ rest, f update.1 = update.2 := by
  have hparts := hkeys
  rw [List.map_append] at hparts
  obtain ⟨hdone, -, hdisjoint⟩ := List.nodup_append'.mp hparts
  have hleft : ∀ update ∈ done, apply done f update.1 = update.2 := fun _ hu =>
    apply_of_mem hdone hu
  have hright : ∀ update ∈ rest, apply done f update.1 = f update.1 := fun _ hu =>
    apply_of_notMem fun hk => hdisjoint hk (List.mem_map_of_mem hu)
  have hall : ∀ update ∈ done ++ rest, apply (done ++ rest) f update.1 = update.2 := fun _ hu =>
    apply_of_mem hkeys hu
  constructor
  · rintro (hnone | hwhole)
    · refine .inl fun update hu => ?_
      rw [← hleft update hu, hnone _ (List.mem_map_of_mem (List.mem_append_left _ hu))]
    · refine .inr fun update hu => ?_
      have hmem := List.mem_append_right done hu
      rw [← hright update hu, hwhole _ (List.mem_map_of_mem hmem), hall update hmem]
  · rintro (hnone | hwhole)
    · refine .inl fun k hk => ?_
      obtain ⟨update, hu, rfl⟩ := List.mem_map.mp hk
      rcases List.mem_append.mp hu with hu | hu
      · rw [hleft update hu, hnone update hu]
      · exact hright update hu
    · refine .inr fun k hk => ?_
      obtain ⟨update, hu, rfl⟩ := List.mem_map.mp hk
      rw [hall update hu]
      rcases List.mem_append.mp hu with hu | hu
      · exact hleft update hu
      · rw [hright update hu, hwhole update hu]

end Patch
end NetRollout
