import NetRollout.Evidence.Config
import NetRollout.Library.Bag

/-!
# Two snapshots compared, line by line

`compare` reads each snapshot against a bag of keys: the second one against the first one's
keys, and the first one against the keys of what the second one kept.  What the two passes
give is the exact difference of the snapshots as multisets of keys.
-/

namespace NetRollout
namespace Evidence

open Bag

theorem splitByKeys_eq (remaining : List (Path × PyText.Str)) (lines : List Line) :
    splitByKeys remaining lines = takeOut Line.key remaining lines := by
  induction lines generalizing remaining with
  | nil => rfl
  | cons line lines ih =>
    rw [splitByKeys, takeOut, ih, ih]

/-- The keys of a snapshot. -/
abbrev keys (lines : List Line) : List (Path × PyText.Str) := lines.map Line.key

variable (before after : List Line)

theorem compare_eq : compare before after =
    ⟨(takeOut Line.key (keys before) after).1,
      (takeOut Line.key (keys (takeOut Line.key (keys before) after).2) before).1,
      (takeOut Line.key (keys before) after).2⟩ := by
  rw [compare, splitByKeys_eq, splitByKeys_eq]

theorem count_added (k : Path × PyText.Str) :
    (keys (compare before after).added).count k = (keys after).count k - (keys before).count k := by
  rw [compare_eq]
  exact count_left Line.key _ after k

theorem count_unchanged (k : Path × PyText.Str) : (keys (compare before after).unchanged).count k =
    min ((keys before).count k) ((keys after).count k) := by
  rw [compare_eq]
  exact count_held Line.key _ after k

/-- The second pass takes out what the first one held, so that it leaves what the first
snapshot has more of. -/
theorem count_removed (k : Path × PyText.Str) : (keys (compare before after).removed).count k =
    (keys before).count k - (keys after).count k := by
  have hunchanged := count_unchanged before after k
  rw [compare_eq] at hunchanged ⊢
  have hleft : _ = (keys before).count k - _ :=
    count_left Line.key (keys (takeOut Line.key (keys before) after).2) before k
  dsimp only at hunchanged ⊢
  rw [hleft, hunchanged]
  omega

/-- A line is added when the second snapshot has more of its key. -/
theorem key_mem_added_iff {k : Path × PyText.Str} : k ∈ keys (compare before after).added ↔
    (keys before).count k < (keys after).count k := by
  rw [← List.count_pos_iff, count_added]
  omega

theorem key_mem_removed_iff {k : Path × PyText.Str} : k ∈ keys (compare before after).removed ↔
    (keys after).count k < (keys before).count k := by
  rw [← List.count_pos_iff, count_removed]
  omega

/-- A difference of two snapshots that is exact: the second snapshot in two parts, each in
its order; the first one up to keys; no more unchanged than both have; and the other way
round the same with its sides changed. -/
structure ExactDifference (diff back : Diff) : Prop where
  perm_after : (diff.added ++ diff.unchanged).Perm after
  added_sublist : diff.added.Sublist after
  unchanged_sublist : diff.unchanged.Sublist after
  perm_before : (keys diff.removed ++ keys diff.unchanged).Perm (keys before)
  removed_sublist : diff.removed.Sublist before
  count_unchanged : ∀ k, (keys diff.unchanged).count k =
    min ((keys before).count k) ((keys after).count k)
  apart : ∀ added ∈ diff.added, ∀ removed ∈ diff.removed, added.key ≠ removed.key
  back_added : (keys back.added).Perm (keys diff.removed)
  back_removed : (keys back.removed).Perm (keys diff.added)

/-- **The comparison is an exact difference of multisets.** -/
theorem compare_exact :
    ExactDifference before after (compare before after) (compare after before) where
  perm_after := by
    rw [compare_eq]
    exact perm_takeOut Line.key (keys before) after
  added_sublist := by
    rw [compare_eq]
    exact left_sublist Line.key (keys before) after
  unchanged_sublist := by
    rw [compare_eq]
    exact held_sublist Line.key (keys before) after
  perm_before := by
    refine List.perm_iff_count.mpr fun k => ?_
    rw [List.count_append, count_removed, Evidence.count_unchanged]
    omega
  removed_sublist := by
    rw [compare_eq]
    exact left_sublist Line.key _ before
  count_unchanged := Evidence.count_unchanged before after
  apart := by
    intro added hadded removed hremoved heq
    have hmore := (key_mem_added_iff before after).mp (List.mem_map_of_mem hadded)
    have hless := (key_mem_removed_iff before after).mp (List.mem_map_of_mem hremoved)
    rw [heq] at hmore
    omega
  back_added := by
    refine List.perm_iff_count.mpr fun k => ?_
    rw [count_added, count_removed]
  back_removed := by
    refine List.perm_iff_count.mpr fun k => ?_
    rw [count_added, count_removed]

/-- A line standing twice and once more: once unchanged, once added. -/
example : compare [⟨[], ['a'], []⟩, ⟨[], ['b'], []⟩] [⟨[], ['a'], []⟩, ⟨[], ['a'], []⟩] =
    ⟨[⟨[], ['a'], []⟩], [⟨[], ['b'], []⟩], [⟨[], ['a'], []⟩]⟩ := by
  rfl

end Evidence
end NetRollout
