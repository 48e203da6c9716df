import Mathlib.Data.List.Basic

/-!
# Conditions of three values

A condition that a database selects rows by: tests, joined by AND and OR.  A test is true, false
or, where a value is missing, neither, and a row is selected when the condition is true.

Without NOT the third value makes no difference: a condition is true exactly when it is with
every test that is not true taken as false (`truth_eq_true_iff`).
-/

namespace NetRollout

inductive Condition (α : Type) where
  | tt
  | ff
  | test (a : α)
  | and (c d : Condition α)
  | or (c d : Condition α)

namespace Condition

variable {α : Type}

/-- `AND` of three values: false as soon as one is. -/
def both : Option Bool → Option Bool → Option Bool
  | some false, _ => some false
  | some true, b => b
  | none, some false => some false
  | none, _ => none

/-- `OR` of three values: true as soon as one is. -/
def either : Option Bool → Option Bool → Option Bool
  | some true, _ => some true
  | some false, b => b
  | none, some true => some true
  | none, _ => none

/-- The value of a condition, from those of its tests. -/
def truth (v : α → Option Bool) : Condition α → Option Bool
  | tt => some true
  | ff => some false
  | test a => v a
  | and c d => both (truth v c) (truth v d)
  | or c d => either (truth v c) (truth v d)

/-- What a condition says, when a test says that it is true. -/
def Holds (v : α → Option Bool) : Condition α → Prop
  | tt => True
  | ff => False
  | test a => v a = some true
  | and c d => Holds v c ∧ Holds v d
  | or c d => Holds v c ∨ Holds v d

theorem both_eq_true (a b : Option Bool) :
    both a b = some true ↔ a = some true ∧ b = some true := by
  rcases a with _ | _ | _ <;> rcases b with _ | _ | _ <;> simp [both]

theorem either_eq_true (a b : Option Bool) :
    either a b = some true ↔ a = some true ∨ b = some true := by
  rcases a with _ | _ | _ <;> rcases b with _ | _ | _ <;> simp [either]

/-- **A condition selects what it says.** -/
theorem truth_eq_true_iff (v : α → Option Bool) (c : Condition α) :
    truth v c = some true ↔ c.Holds v := by
  induction c with
  | tt => exact iff_of_true rfl trivial
  | ff => exact iff_of_false (by simp [truth]) id
  | test a => exact Iff.rfl
  | and c d ihc ihd => rw [truth, both_eq_true, ihc, ihd, Holds]
  | or c d ihc ihd => rw [truth, either_eq_true, ihc, ihd, Holds]

/-! ## Several conditions -/

/-- `and_(true(), *conditions)`. -/
def all (cs : List (Condition α)) : Condition α := cs.foldl and tt

/-- `or_(false(), *conditions)`. -/
def any (cs : List (Condition α)) : Condition α := cs.foldl or ff

variable {v : α → Option Bool}

theorem holds_foldl_and (c : Condition α) (cs : List (Condition α)) :
    (cs.foldl and c).Holds v ↔ c.Holds v ∧ ∀ d ∈ cs, d.Holds v := by
  induction cs generalizing c with
  | nil => simp
  | cons d cs ih => rw [List.foldl_cons, ih, Holds, List.forall_mem_cons, and_assoc]

theorem holds_foldl_or (c : Condition α) (cs : List (Condition α)) :
    (cs.foldl or c).Holds v ↔ c.Holds v ∨ ∃ d ∈ cs, d.Holds v := by
  induction cs generalizing c with
  | nil => simp
  | cons d cs ih =>
    rw [List.foldl_cons, ih, Holds]
    simp only [List.mem_cons, exists_eq_or_imp, or_assoc]

theorem holds_all (cs : List (Condition α)) : (all cs).Holds v ↔ ∀ c ∈ cs, c.Holds v := by
  rw [all, holds_foldl_and, Holds, true_and]

theorem holds_any (cs : List (Condition α)) : (any cs).Holds v ↔ ∃ c ∈ cs, c.Holds v := by
  rw [any, holds_foldl_or, Holds, false_or]

/-! ## The tests of a condition -/

def tests : Condition α → List α
  | tt => []
  | ff => []
  | test a => [a]
  | and c d => tests c ++ tests d
  | or c d => tests c ++ tests d

theorem mem_tests_foldl {f : Condition α → Condition α → Condition α}
    (hf : ∀ c d, tests (f c d) = tests c ++ tests d) {c : Condition α} {cs : List (Condition α)}
    {a : α} (h : a ∈ tests (cs.foldl f c)) : a ∈ tests c ∨ ∃ d ∈ cs, a ∈ tests d := by
  induction cs generalizing c with
  | nil => exact .inl h
  | cons d cs ih =>
    rcases ih h with h | ⟨d', hd', h⟩
    · rw [hf, List.mem_append] at h
      exact h.imp_right fun h => ⟨d, List.mem_cons_self, h⟩
    · exact .inr ⟨d', List.mem_cons_of_mem d hd', h⟩

theorem mem_tests_all {cs : List (Condition α)} {a : α} (h : a ∈ tests (all cs)) :
    ∃ c ∈ cs, a ∈ tests c :=
  (mem_tests_foldl (fun _ _ => rfl) h).resolve_left List.not_mem_nil

theorem mem_tests_any {cs : List (Condition α)} {a : α} (h : a ∈ tests (any cs)) :
    ∃ c ∈ cs, a ∈ tests c :=
  (mem_tests_foldl (fun _ _ => rfl) h).resolve_left List.not_mem_nil

end Condition
end NetRollout
