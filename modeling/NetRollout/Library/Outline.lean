import Mathlib.Data.List.Basic
import Mathlib.Data.List.Induction
import Mathlib.Data.List.TakeWhile
import Mathlib.Tactic.Common

/-!
# Outlines by indentation

Rows that nest by how far they are indented.  A row may be a header, which is under the
headers left open above it and opens one itself; it may close headers and open none; it may
close all of them; or it may be of no account.

`outline` keeps the open headers on a stack, innermost first.  `chain` says without a stack
which they are: reading the rows above backwards, the nearest header indented less than the
row, above it the nearest one indented less than that one, and so on, where a closing row
makes everything above it count as closed that is indented as far as itself.
`dropWhile_stack` is that the two agree.
-/

namespace NetRollout
namespace Outline

variable {τ : Type*}

inductive Row (τ : Type*) where
  | skip
  | reset
  | close (indent : Nat)
  | header (indent : Nat) (label : τ)

/-- The headers a row of some indentation leaves open. -/
def leaves (indent : Nat) (stack : List (Nat × τ)) : List (Nat × τ) :=
  stack.dropWhile fun header => indent ≤ header.1

/-- The headers open after a row. -/
def Row.push (stack : List (Nat × τ)) : Row τ → List (Nat × τ)
  | skip => stack
  | reset => []
  | close indent => leaves indent stack
  | header indent label => (indent, label) :: leaves indent stack

def stackFrom (stack : List (Nat × τ)) (rows : List (Row τ)) : List (Nat × τ) :=
  rows.foldl Row.push stack

/-- Each header with the headers above it, outermost first. -/
def outlineFrom (stack : List (Nat × τ)) : List (Row τ) → List (List τ × τ)
  | [] => []
  | .header indent label :: rows =>
    (((leaves indent stack).map Prod.snd).reverse, label) ::
      outlineFrom ((indent, label) :: leaves indent stack) rows
  | row :: rows => outlineFrom (row.push stack) rows

def outline (rows : List (Row τ)) : List (List τ × τ) := outlineFrom [] rows

/-- The headers above a row of some indentation, innermost first, from the rows above it,
nearest first. -/
def chain (indent : Nat) : List (Row τ) → List (Nat × τ)
  | [] => []
  | .skip :: rows => chain indent rows
  | .reset :: _ => []
  | .close closing :: rows => chain (min indent closing) rows
  | .header above label :: rows =>
    if above < indent then (above, label) :: chain above rows else chain indent rows

/-- The label of a header. -/
def Row.label? : Row τ → Option τ
  | header _ label => some label
  | _ => none

/-! ## The stack is the chain -/

theorem leaves_leaves (d e : Nat) (stack : List (Nat × τ)) :
    leaves d (leaves e stack) = leaves (min d e) stack := by
  induction stack with
  | nil => rfl
  | cons header stack ih =>
    unfold leaves at ih ⊢
    by_cases he : e ≤ header.1
    · rw [List.dropWhile_cons_of_pos (by simpa using he), ih,
        List.dropWhile_cons_of_pos (by simp only [decide_eq_true_eq]; omega)]
    · rw [List.dropWhile_cons_of_neg (l := stack) (p := fun header => decide (e ≤ header.1))
        (by simpa using he)]
      by_cases hd : d ≤ header.1
      · have hmin : min d e = d := by omega
        rw [hmin]
      · rw [List.dropWhile_cons_of_neg (by simpa using hd),
          List.dropWhile_cons_of_neg (by simp only [decide_eq_true_eq]; omega)]

/-- **The open headers a row is under are the chain of nearest ones.** -/
theorem leaves_stackFrom (rows : List (Row τ)) (d : Nat) :
    leaves d (stackFrom [] rows) = chain d rows.reverse := by
  induction rows using List.reverseRecOn generalizing d with
  | nil => rfl
  | append_singleton rows row ih =>
    have hstack : stackFrom [] (rows ++ [row]) = row.push (stackFrom [] rows) := by
      rw [stackFrom, List.foldl_append]
      rfl
    rw [hstack, List.reverse_append, List.reverse_singleton, List.singleton_append]
    cases row with
    | skip => exact ih d
    | reset => rfl
    | close e => rw [Row.push, leaves_leaves, ih, chain]
    | header e label =>
      rw [Row.push, chain]
      by_cases he : e < d
      · rw [if_pos he, leaves, List.dropWhile_cons_of_neg (by simpa using he), ih]
      · have hmin : min d e = d := by omega
        rw [if_neg he, leaves, List.dropWhile_cons_of_pos (by simpa using he)]
        show leaves d (leaves e (stackFrom [] rows)) = chain d rows.reverse
        rw [leaves_leaves, hmin, ih]

/-! ## Reading an outline -/

theorem outlineFrom_append (stack : List (Nat × τ)) (rows more : List (Row τ)) :
    outlineFrom stack (rows ++ more) =
      outlineFrom stack rows ++ outlineFrom (stackFrom stack rows) more := by
  induction rows generalizing stack with
  | nil => rfl
  | cons row rows ih =>
    cases row with
    | header indent label => exact congrArg (List.cons _) (ih _)
    | _ => exact ih _

/-- An outline lists the headers in their order. -/
theorem map_snd_outlineFrom (stack : List (Nat × τ)) (rows : List (Row τ)) :
    (outlineFrom stack rows).map Prod.snd = rows.filterMap Row.label? := by
  induction rows generalizing stack with
  | nil => rfl
  | cons row rows ih =>
    cases row with
    | header indent label => exact congrArg (List.cons label) (ih _)
    | _ => exact ih _

theorem length_outline (rows : List (Row τ)) :
    (outline rows).length = (rows.filterMap Row.label?).length := by
  rw [← map_snd_outlineFrom [] rows, List.length_map, outline]

/-- **A header is under the chain of the nearest ones above it.** -/
theorem getElem?_outline (above below : List (Row τ)) (indent : Nat) (label : τ) :
    (outline (above ++ .header indent label :: below))[(above.filterMap Row.label?).length]? =
      some (((chain indent above.reverse).map Prod.snd).reverse, label) := by
  rw [← length_outline, outline, outline, outlineFrom_append,
    List.getElem?_append_right (le_refl _), Nat.sub_self, outlineFrom, List.getElem?_cons_zero,
    leaves_stackFrom]

/-- The innermost header of a chain stands above the row, under the rest of the chain. -/
theorem exists_of_chain_eq_cons {indent : Nat} {rows : List (Row τ)} {e : Nat} {label : τ}
    {rest : List (Nat × τ)} (h : chain indent rows = (e, label) :: rest) :
    ∃ nearer farther, rows = nearer ++ .header e label :: farther ∧ chain e farther = rest := by
  induction rows generalizing indent with
  | nil => cases h
  | cons row rows ih =>
    cases row with
    | skip =>
      obtain ⟨nearer, farther, rfl, hrest⟩ := ih h
      exact ⟨.skip :: nearer, farther, rfl, hrest⟩
    | reset => cases h
    | close closing =>
      obtain ⟨nearer, farther, rfl, hrest⟩ := ih h
      exact ⟨.close closing :: nearer, farther, rfl, hrest⟩
    | header above name =>
      rw [chain] at h
      split at h
      · obtain ⟨heq, rfl⟩ := List.cons.inj h
        obtain ⟨rfl, rfl⟩ := Prod.mk.inj heq
        exact ⟨[], rows, rfl, rfl⟩
      · obtain ⟨nearer, farther, rfl, hrest⟩ := ih h
        exact ⟨.header above name :: nearer, farther, rfl, hrest⟩

/-- Where an entry of an outline stands among the rows. -/
theorem exists_of_getElem?_outline {rows : List (Row τ)} {i : Nat} {entry : List τ × τ}
    (h : (outline rows)[i]? = some entry) :
    ∃ above indent below, rows = above ++ .header indent entry.2 :: below ∧
      (above.filterMap Row.label?).length = i ∧
      entry.1 = ((chain indent above.reverse).map Prod.snd).reverse := by
  induction rows using List.reverseRecOn with
  | nil => cases h
  | append_singleton rows row ih =>
    rw [outline, outlineFrom_append] at h
    by_cases hi : i < (outlineFrom [] rows).length
    · rw [List.getElem?_append_left hi] at h
      obtain ⟨above, indent, below, rfl, hlen, hchain⟩ := ih h
      exact ⟨above, indent, below ++ [row], by simp, hlen, hchain⟩
    · rw [List.getElem?_append_right (by omega)] at h
      cases row with
      | header indent label =>
        rw [outlineFrom, outlineFrom, leaves_stackFrom] at h
        obtain ⟨hzero, rfl⟩ : i - (outlineFrom [] rows).length = 0 ∧
            (((chain indent rows.reverse).map Prod.snd).reverse, label) = entry := by
          rcases hk : i - (outlineFrom [] rows).length with _ | k
          · rw [hk, List.getElem?_cons_zero, Option.some_inj] at h
            exact ⟨rfl, h⟩
          · rw [hk] at h
            cases h
        refine ⟨rows, indent, [], rfl, ?_, rfl⟩
        have hlen := length_outline rows
        rw [outline] at hlen
        omega
      | _ => cases h

/-- **An outline is closed under going up**: the innermost header above an entry is an
earlier entry, under the others. -/
theorem exists_above {rows : List (Row τ)} {i : Nat} {path : List τ} {header label : τ}
    (h : (outline rows)[i]? = some (path ++ [header], label)) :
    ∃ j < i, (outline rows)[j]? = some (path, header) := by
  obtain ⟨above, indent, below, rfl, rfl, hchain⟩ := exists_of_getElem?_outline h
  have hrev : header :: path.reverse = (chain indent above.reverse).map Prod.snd := by
    rw [← List.reverse_inj, ← hchain]
    simp
  rcases hc : chain indent above.reverse with _ | ⟨⟨e, label'⟩, rest⟩
  · rw [hc] at hrev
    cases hrev
  · rw [hc] at hrev
    obtain ⟨rfl, hpath⟩ := List.cons.inj hrev
    obtain ⟨nearer, farther, hrows, rfl⟩ := exists_of_chain_eq_cons hc
    have habove : above = farther.reverse ++ .header e header :: nearer.reverse := by
      rw [← List.reverse_inj, hrows]
      simp
    refine ⟨(farther.reverse.filterMap Row.label?).length, ?_, ?_⟩
    · rw [habove, List.filterMap_append, List.length_append, List.filterMap_cons]
      show _ < _ + (_ :: _).length
      rw [List.length_cons]
      omega
    · rw [habove, List.append_assoc, List.cons_append, getElem?_outline, List.reverse_reverse,
        ← hpath, List.reverse_reverse]

end Outline
end NetRollout
