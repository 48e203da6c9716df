import Mathlib.Data.List.Basic
import NetRollout.Library.ListUpdate

/-!
# Rows by their ids

A table whose rows are found by their ids, given in order and never twice; a row may be
replaced or taken away.  What is found after a change is what was put there, or what was
there before.
-/

namespace NetRollout

/-- The row of each id given so far, if it has one. -/
structure Rows (α : Type) where
  rows : List (Option α) := []

namespace Rows

variable {α : Type} (R : Rows α)

def get? (i : Nat) : Option α := R.rows[i]?.join

/-- The row of an id given before. -/
def put (i : Nat) (row : Option α) : Rows α := ⟨R.rows.set i row⟩

/-- The next id. -/
def size : Nat := R.rows.length

/-- The next id, given with a row or without. -/
def add (row : Option α) : Rows α := ⟨R.rows ++ [row]⟩

/-- The rows there are, in order. -/
def entries : List (Nat × α) :=
  (List.range R.size).filterMap fun i => (R.get? i).map fun a => (i, a)

variable {R} {i j : Nat} {row : Option α} {a : α}

theorem lt_size (h : R.get? i = some a) : i < R.size := ListUpdate.lt_length_of_join h

theorem mem_entries : (i, a) ∈ R.entries ↔ R.get? i = some a := by
  simp only [entries, List.mem_filterMap, List.mem_range, Option.map_eq_some_iff, Prod.mk.injEq]
  constructor
  · rintro ⟨j, -, b, hb, rfl, rfl⟩
    exact hb
  · intro h
    exact ⟨i, lt_size h, a, h, rfl, rfl⟩

theorem get?_of_find? {p : Nat × α → Bool} (h : R.entries.find? p = some (i, a)) :
    R.get? i = some a ∧ p (i, a) = true :=
  ⟨mem_entries.mp (List.mem_of_find?_eq_some h), List.find?_some h⟩

theorem get?_put_ne (h : j ≠ i) : (R.put i row).get? j = R.get? j := by
  rw [get?, get?, put, List.getElem?_set_ne h.symm]

theorem get?_put_self (h : R.get? i = some a) : (R.put i row).get? i = row := by
  rw [get?, put, List.getElem?_set_self (lt_size h), Option.join_some]

theorem get?_of_put (h : (R.put i row).get? j = some a) :
    (j = i ∧ row = some a) ∨ (j ≠ i ∧ R.get? j = some a) := by
  have hset := Option.join_eq_some_iff.mp h
  rcases ListUpdate.getElem?_set_cases hset with ⟨rfl, hrow⟩ | ⟨hne, hold⟩
  · exact .inl ⟨rfl, hrow.symm⟩
  · exact .inr ⟨hne, Option.join_eq_some_iff.mpr hold⟩

theorem get?_of_add (h : (R.add row).get? j = some a) :
    (j = R.size ∧ row = some a) ∨ R.get? j = some a := by
  rcases ListUpdate.getElem?_concat_cases (Option.join_eq_some_iff.mp h) with hold | ⟨rfl, hrow⟩
  · exact .inr (Option.join_eq_some_iff.mpr hold)
  · exact .inl ⟨rfl, hrow.symm⟩

theorem get?_add_none : (R.add none).get? j = R.get? j := by
  by_cases hj : j < R.rows.length
  · rw [get?, get?, add, List.getElem?_append_left hj]
  · have hle : R.rows.length ≤ j := Nat.le_of_not_lt hj
    rw [get?, get?, add, List.getElem?_eq_none hle, List.getElem?_append_right hle]
    cases h : j - R.rows.length <;> rfl

/-- What is read of the rows, through a change of other parts of one. -/
theorem map_entries_put {β : Type} {f : Nat × α → β} {a' : α} (ha : R.get? i = some a)
    (hf : f (i, a') = f (i, a)) : (R.put i (some a')).entries.map f = R.entries.map f := by
  have hsize : (R.put i (some a')).size = R.size := by
    rw [size, put, List.length_set]
    rfl
  rw [entries, entries, hsize, List.map_filterMap, List.map_filterMap]
  refine List.filterMap_congr fun j hj => ?_
  by_cases hji : j = i
  · subst hji
    have hput : (R.put j (some a')).get? j = some a' := by
      rw [get?, put, List.getElem?_set_self (List.mem_range.mp hj)]
      rfl
    rw [hput, ha, Option.map_some, Option.map_some, Option.map_some, Option.map_some, hf]
  · rw [get?_put_ne hji]

end Rows
end NetRollout
