import Mathlib.Data.List.Infix

/-!
# Replacing what a text contains

`s.replace(p, v)` and `p in s` over letters that are read by `char`: a text whose letters
carry more than their character is searched as the plain text is, which `replace_map` says.

`found` are the stretches that are replaced, and `countP_replace` counts the letters they take
away.
-/

namespace NetRollout
namespace Replace

variable {α β γ : Type*} [DecidableEq β] (char : α → β) (p : List β) (v : List α)

/-- `s.replace(p, v)` with `n` letters of an occurrence still to be passed over. -/
def replaceFrom : ℕ → List α → List α
  | _, [] => []
  | n + 1, _ :: s => replaceFrom n s
  | 0, a :: s =>
    if p <+: (a :: s).map char then v ++ replaceFrom (p.length - 1) s else a :: replaceFrom 0 s

/-- `s.replace(p, v)`: the occurrences are found left to right and do not overlap. -/
def replace (s : List α) : List α := replaceFrom char p v 0 s

def foundFrom : ℕ → List α → List (List α)
  | _, [] => []
  | n + 1, _ :: s => foundFrom n s
  | 0, a :: s =>
    if p <+: (a :: s).map char then (a :: s).take p.length :: foundFrom (p.length - 1) s
    else foundFrom 0 s

/-- The occurrences `replace` replaces. -/
def found (s : List α) : List (List α) := foundFrom char p 0 s

/-- `p in s`. -/
def contains : List α → Bool
  | [] => p.isEmpty
  | a :: s => decide (p <+: (a :: s).map char) || contains s

variable {char p v}

@[simp] theorem replace_nil : replace char p v [] = [] := rfl

@[simp] theorem found_nil : found char p [] = [] := rfl

theorem replaceFrom_eq (n : ℕ) (s : List α) :
    replaceFrom char p v n s = replace char p v (s.drop n) := by
  induction s generalizing n with
  | nil => cases n <;> rfl
  | cons a s ih =>
    cases n with
    | zero => rfl
    | succ n => exact ih n

theorem foundFrom_eq (n : ℕ) (s : List α) :
    foundFrom char p n s = found char p (s.drop n) := by
  induction s generalizing n with
  | nil => cases n <;> rfl
  | cons a s ih =>
    cases n with
    | zero => rfl
    | succ n => exact ih n

theorem replace_cons_of_not {a : α} {s : List α} (h : ¬p <+: (a :: s).map char) :
    replace char p v (a :: s) = a :: replace char p v s :=
  if_neg h

theorem found_cons_of_not {a : α} {s : List α} (h : ¬p <+: (a :: s).map char) :
    found char p (a :: s) = found char p s :=
  if_neg h

theorem replace_of_starts (hp : p ≠ []) {s : List α} (h : p <+: s.map char) :
    replace char p v s = v ++ replace char p v (s.drop p.length) := by
  cases s with
  | nil => exact absurd (List.prefix_nil.mp h) hp
  | cons a s =>
    refine (if_pos h).trans ?_
    rw [replaceFrom_eq]
    obtain ⟨b, p, rfl⟩ := List.exists_cons_of_ne_nil hp
    rfl

theorem found_of_starts (hp : p ≠ []) {s : List α} (h : p <+: s.map char) :
    found char p s = s.take p.length :: found char p (s.drop p.length) := by
  cases s with
  | nil => exact absurd (List.prefix_nil.mp h) hp
  | cons a s =>
    refine (if_pos h).trans ?_
    rw [foundFrom_eq]
    obtain ⟨b, p, rfl⟩ := List.exists_cons_of_ne_nil hp
    rfl

omit [DecidableEq β] in
/-- An occurrence at the head is the written text. -/
theorem take_of_starts {s t : List α} (h : s.map char = p) :
    p <+: (s ++ t).map char ∧ (s ++ t).take p.length = s ∧ (s ++ t).drop p.length = t := by
  subst h
  rw [List.map_append, List.length_map]
  exact ⟨List.prefix_append _ _, List.take_left, List.drop_left⟩

/-- Where no occurrence begins, nothing is replaced. -/
theorem replace_append_of_not {u w : List α}
    (h : ∀ i < u.length, ¬p <+: ((u ++ w).drop i).map char) :
    replace char p v (u ++ w) = u ++ replace char p v w ∧
      found char p (u ++ w) = found char p w := by
  induction u with
  | nil => exact ⟨rfl, rfl⟩
  | cons a u ih =>
    have hhead : ¬p <+: (a :: (u ++ w)).map char := h 0 (Nat.succ_pos _)
    obtain ⟨hreplace, hfound⟩ := ih fun i hi => h (i + 1) (Nat.succ_lt_succ hi)
    rw [List.cons_append]
    constructor
    · rw [replace_cons_of_not hhead, hreplace, List.cons_append]
    · rw [found_cons_of_not hhead, hfound]

theorem contains_eq_false (hp : p ≠ []) {s : List α} :
    contains char p s = false ↔ found char p s = [] := by
  induction s with
  | nil => simpa [contains] using hp
  | cons a s ih =>
    by_cases h : p <+: (a :: s).map char
    · rw [found_of_starts hp h, contains, decide_eq_true h]
      exact iff_of_false Bool.noConfusion (List.cons_ne_nil _ _)
    · rw [found_cons_of_not h, contains, decide_eq_false h, Bool.false_or, ih]

theorem replace_of_found_eq_nil (hp : p ≠ []) {s : List α} (h : found char p s = []) :
    replace char p v s = s := by
  induction s with
  | nil => rfl
  | cons a s ih =>
    have hhead : ¬p <+: (a :: s).map char := fun hstarts => by
      rw [found_of_starts hp hstarts] at h
      cases h
    rw [found_cons_of_not hhead] at h
    rw [replace_cons_of_not hhead, ih h]

/-- What is replaced is part of the text. -/
theorem flatten_found_sublist (hp : p ≠ []) (s : List α) :
    (found char p s).flatten.Sublist s := by
  induction hn : s.length using Nat.strong_induction_on generalizing s with
  | _ n ih =>
    subst hn
    cases s with
    | nil => exact List.Sublist.slnil
    | cons a s =>
      by_cases h : p <+: (a :: s).map char
      · have hlen : 0 < p.length := List.length_pos_iff.mpr hp
        have hlt : ((a :: s).drop p.length).length < (a :: s).length := by
          rw [List.length_drop, List.length_cons]
          omega
        have hrest := (List.Sublist.refl ((a :: s).take p.length)).append (ih _ hlt _ rfl)
        rw [found_of_starts hp h, List.flatten_cons]
        rwa [List.take_append_drop] at hrest
      · rw [found_cons_of_not h]
        exact (ih s.length (Nat.lt_succ_self _) s rfl).cons a

/-- What letters carry beside their character changes nothing. -/
theorem replace_map {f : α → γ} {char' : γ → β} (hf : ∀ a, char' (f a) = char a) (s : List α) :
    replace char' p (v.map f) (s.map f) = (replace char p v s).map f := by
  have key : ∀ n (s : List α),
      replaceFrom char' p (v.map f) n (s.map f) = (replaceFrom char p v n s).map f := by
    intro n s
    induction s generalizing n with
    | nil => cases n <;> rfl
    | cons a s ih =>
      cases n with
      | succ n => exact ih n
      | zero =>
        have hread : (f a :: s.map f).map char' = (a :: s).map char := by
          simp [hf]
        simp only [List.map_cons, replaceFrom, hread, ih]
        split
        · rw [List.map_append]
        · rfl
  exact key 0 s

theorem contains_map {f : α → γ} {char' : γ → β} (hf : ∀ a, char' (f a) = char a) (s : List α) :
    contains char' p (s.map f) = contains char p s := by
  induction s with
  | nil => rfl
  | cons a s ih =>
    have hread : (f a :: s.map f).map char' = (a :: s).map char := by
      simp [hf]
    simp only [List.map_cons, contains, ih, hread]

/-- The letters of a kind that the replaced stretches took are missing afterwards, where the
new text has none of them. -/
theorem countP_replace (hp : p ≠ []) {q : α → Bool} (hv : v.countP q = 0) (s : List α) :
    (replace char p v s).countP q + (found char p s).flatten.countP q = s.countP q := by
  induction hn : s.length using Nat.strong_induction_on generalizing s with
  | _ n ih =>
    subst hn
    cases s with
    | nil => rfl
    | cons a s =>
      by_cases h : p <+: (a :: s).map char
      · have hlen : 0 < p.length := List.length_pos_iff.mpr hp
        have hlt : ((a :: s).drop p.length).length < (a :: s).length := by
          rw [List.length_drop, List.length_cons]
          omega
        have hrest := ih _ hlt _ rfl
        have hcut : ((a :: s).take p.length).countP q + ((a :: s).drop p.length).countP q =
            (a :: s).countP q := by
          rw [← List.countP_append, List.take_append_drop]
        rw [replace_of_starts hp h, found_of_starts hp h, List.flatten_cons,
          List.countP_append, List.countP_append, hv]
        omega
      · have hrest := ih s.length (Nat.lt_succ_self _) s rfl
        rw [replace_cons_of_not h, found_cons_of_not h, List.countP_cons, List.countP_cons]
        omega

end Replace
end NetRollout
