import Mathlib.Data.List.Perm.Basic
import Mathlib.Tactic.Common

/-!
# Taking the members of a list out of a bag of keys

A list read from the front against a bag of keys: a member whose key the bag still holds
takes one copy out and is *held*, any other is *left*.  The bag is a list, its order of no
matter.

Counting says all there is to say: of each key as many members are held as the bag and the
list both have, and what is left over of the list is left.
-/

namespace NetRollout
namespace Bag

variable {α κ : Type*} [BEq κ] [LawfulBEq κ] (key : α → κ)

/-- The members left, and the members held. -/
def takeOut : List κ → List α → List α × List α
  | _, [] => ([], [])
  | bag, a :: l =>
    if key a ∈ bag then
      let rest := takeOut (bag.erase (key a)) l
      (rest.1, a :: rest.2)
    else
      let rest := takeOut bag l
      (a :: rest.1, rest.2)

variable {key} {bag : List κ} {a : α} {l : List α}

theorem takeOut_of_mem (h : key a ∈ bag) : takeOut key bag (a :: l) =
    ((takeOut key (bag.erase (key a)) l).1, a :: (takeOut key (bag.erase (key a)) l).2) := by
  rw [takeOut, if_pos h]

theorem takeOut_of_notMem (h : key a ∉ bag) : takeOut key bag (a :: l) =
    (a :: (takeOut key bag l).1, (takeOut key bag l).2) := by
  rw [takeOut, if_neg h]

variable (key bag l)

/-- Nothing is lost and nothing made up. -/
theorem perm_takeOut : ((takeOut key bag l).1 ++ (takeOut key bag l).2).Perm l := by
  induction l generalizing bag with
  | nil => exact .refl _
  | cons a l ih =>
    by_cases h : key a ∈ bag
    · rw [takeOut_of_mem h]
      exact List.perm_middle.trans ((ih _).cons a)
    · rw [takeOut_of_notMem h]
      exact (ih bag).cons a

theorem left_sublist : (takeOut key bag l).1.Sublist l := by
  induction l generalizing bag with
  | nil => exact .slnil
  | cons a l ih =>
    by_cases h : key a ∈ bag
    · rw [takeOut_of_mem h]
      exact (ih _).cons a
    · rw [takeOut_of_notMem h]
      exact (ih bag).cons_cons a

theorem held_sublist : (takeOut key bag l).2.Sublist l := by
  induction l generalizing bag with
  | nil => exact .slnil
  | cons a l ih =>
    by_cases h : key a ∈ bag
    · rw [takeOut_of_mem h]
      exact (ih _).cons_cons a
    · rw [takeOut_of_notMem h]
      exact (ih bag).cons a

/-- **What is held of a key** is what the bag and the list both have. -/
theorem count_held (k : κ) :
    ((takeOut key bag l).2.map key).count k = min (bag.count k) ((l.map key).count k) := by
  induction l generalizing bag with
  | nil => simp [takeOut]
  | cons a l ih =>
    by_cases h : key a ∈ bag
    · have hpos : 0 < bag.count (key a) := List.count_pos_iff.mpr h
      rw [takeOut_of_mem h, List.map_cons, List.map_cons, List.count_cons, List.count_cons, ih,
        List.count_erase]
      by_cases hk : key a = k
      · subst hk
        simp only [beq_self_eq_true, if_true]
        omega
      · have hne : (key a == k) = false := beq_eq_false_iff_ne.mpr hk
        simp only [hne, Bool.false_eq_true, if_false]
        omega
    · have hzero : bag.count (key a) = 0 := List.count_eq_zero.mpr h
      rw [takeOut_of_notMem h, List.map_cons, List.count_cons, ih]
      by_cases hk : key a = k
      · subst hk
        omega
      · have hne : (key a == k) = false := beq_eq_false_iff_ne.mpr hk
        simp only [hne, Bool.false_eq_true, if_false]
        omega

/-- **What is left of a key** is what the list has more of than the bag. -/
theorem count_left (k : κ) :
    ((takeOut key bag l).1.map key).count k = (l.map key).count k - bag.count k := by
  have hall := ((perm_takeOut key bag l).map key).count_eq k
  rw [List.map_append, List.count_append, count_held] at hall
  omega

end Bag
end NetRollout
