import Mathlib.Data.Set.Function
import Mathlib.Logic.Function.Basic

/-!
# Leases

Resources lent to holders: a table that says who holds a resource, and what each
holder holds.  The two sides agree (`sound`), and that alone makes the holding
exclusive.  A holder is granted free resources once and releases all it holds; every
other operation on a system that keeps such a table leaves it as it is.
-/

namespace NetRollout

universe u v

/-- Who holds a resource, and what a holder holds: one relation, told twice. -/
structure Leases (ρ : Type u) (κ : Type v) where
  holder : ρ → Option κ
  claims : κ → Set ρ
  sound : ∀ r k, holder r = some k ↔ r ∈ claims k

namespace Leases

variable {ρ : Type u} {κ : Type v} (L : Leases ρ κ)

/-- Nothing is lent. -/
def none : Leases ρ κ where
  holder _ := Option.none
  claims _ := ∅
  sound r k := iff_of_false (fun h => by cases h) (Set.notMem_empty r)

/-- **A resource has one holder.** -/
theorem exclusive {r : ρ} {k k' : κ} (h : r ∈ L.claims k) (h' : r ∈ L.claims k') : k = k' :=
  Option.some.inj (((L.sound r k).mpr h).symm.trans ((L.sound r k').mpr h'))

/-- Free resources go to a holder that has none. -/
def grant [DecidableEq κ] (k : κ) (resources : Set ρ) [DecidablePred (· ∈ resources)]
    (hfree : ∀ r ∈ resources, L.holder r = Option.none) (hnew : L.claims k = ∅) :
    Leases ρ κ where
  holder r := if r ∈ resources then some k else L.holder r
  claims := Function.update L.claims k resources
  sound r k' := by
    rw [Function.update_apply]
    split
    · next hr =>
      split
      · next heq => exact iff_of_true (congrArg some heq.symm) hr
      · next hne =>
        refine iff_of_false (fun h => hne (Option.some.inj h).symm) fun h => ?_
        rw [← L.sound, hfree r hr] at h
        cases h
    · next hr =>
      split
      · next heq =>
        refine iff_of_false (fun h => ?_) hr
        rw [L.sound, heq, hnew] at h
        exact h
      · exact L.sound r k'

/-- A holder gives all it holds back. -/
def release [DecidableEq κ] (k : κ) : Leases ρ κ where
  holder r := if L.holder r = some k then Option.none else L.holder r
  claims := Function.update L.claims k ∅
  sound r k' := by
    rw [Function.update_apply]
    split
    · next hr =>
      refine iff_of_false (fun h => by cases h) fun h => ?_
      split at h
      · exact h
      · next hne => exact hne (L.exclusive h ((L.sound r k).mp hr))
    · next hr =>
      split
      · next heq => exact iff_of_false (fun h => hr (heq ▸ h)) (Set.notMem_empty r)
      · exact L.sound r k'

@[simp] theorem grant_holder [DecidableEq κ] (k : κ) (resources : Set ρ)
    [DecidablePred (· ∈ resources)] (hfree : ∀ r ∈ resources, L.holder r = Option.none)
    (hnew : L.claims k = ∅) (r : ρ) :
    (L.grant k resources hfree hnew).holder r = if r ∈ resources then some k else L.holder r :=
  rfl

@[simp] theorem grant_claims [DecidableEq κ] (k : κ) (resources : Set ρ)
    [DecidablePred (· ∈ resources)] (hfree : ∀ r ∈ resources, L.holder r = Option.none)
    (hnew : L.claims k = ∅) :
    (L.grant k resources hfree hnew).claims = Function.update L.claims k resources :=
  rfl

@[simp] theorem release_holder [DecidableEq κ] (k : κ) (r : ρ) :
    (L.release k).holder r = if L.holder r = some k then Option.none else L.holder r :=
  rfl

@[simp] theorem release_claims [DecidableEq κ] (k : κ) :
    (L.release k).claims = Function.update L.claims k ∅ :=
  rfl

/-- What a step of a system may do to its table. -/
inductive Step [DecidableEq κ] : Leases ρ κ → Leases ρ κ → Prop where
  | stay (L : Leases ρ κ) : Step L L
  | grant (L : Leases ρ κ) (k : κ) (resources : Set ρ) [DecidablePred (· ∈ resources)]
    (hfree : ∀ r ∈ resources, L.holder r = Option.none) (hnew : L.claims k = ∅) :
    Step L (L.grant k resources hfree hnew)
  | release (L : Leases ρ κ) (k : κ) : Step L (L.release k)

end Leases
end NetRollout
