import Mathlib.Algebra.Order.BigOperators.Group.List
import Mathlib.Algebra.Order.Ring.Int
import Mathlib.Data.List.Basic
import Mathlib.Data.List.Dedup
import Mathlib.Data.List.Forall2
import Mathlib.Data.List.Nodup
import Mathlib.Data.Finset.Card

/-!
# Lists updated entry by entry

A pass over a list of results that rewrites some positions in turn: what stands
at a position afterwards, and what a test for "more than one different value"
says.
-/

namespace NetRollout
namespace ListUpdate

variable {α β : Type*}

/-- What stands at a position with one entry replaced. -/
theorem getElem?_set_cases {l : List α} {i j : Nat} {a b : α} (h : (l.set i a)[j]? = some b) :
    (j = i ∧ b = a) ∨ (j ≠ i ∧ l[j]? = some b) := by
  rw [List.getElem?_set] at h
  split at h
  · next heq =>
    split at h
    · exact .inl ⟨heq.symm, (Option.some.inj h).symm⟩
    · cases h
  · next hne => exact .inr ⟨Ne.symm hne, h⟩

/-- What a list holds with one entry replaced: that one, or one of the others. -/
theorem mem_set_cases {l : List α} {i : Nat} {a b : α} (h : b ∈ l.set i a) :
    b = a ∨ b ∈ l.eraseIdx i := by
  obtain ⟨j, hj⟩ := List.getElem?_of_mem h
  rcases getElem?_set_cases hj with ⟨-, rfl⟩ | ⟨hne, hj⟩
  · exact .inl rfl
  · exact .inr (List.mem_eraseIdx_iff_getElem?.mpr ⟨j, hne, hj⟩)

/-- What stands at a position with one entry more. -/
theorem getElem?_concat_cases {l : List α} {a b : α} {i : Nat} (h : (l ++ [a])[i]? = some b) :
    l[i]? = some b ∨ (i = l.length ∧ b = a) := by
  by_cases hlt : i < l.length
  · rw [List.getElem?_append_left hlt] at h
    exact .inl h
  · have hle : i < (l ++ [a]).length := (List.getElem?_eq_some_iff.mp h).1
    obtain rfl : i = l.length := by
      rw [List.length_append, List.length_singleton] at hle
      omega
    rw [List.getElem?_concat_length] at h
    exact .inr ⟨rfl, (Option.some.inj h).symm⟩

/-- What holds of every entry still does with one replaced. -/
theorem forall_mem_set {P : α → Prop} {l : List α} {i : Nat} {a : α} (h : ∀ b ∈ l, P b)
    (ha : P a) : ∀ b ∈ l.set i a, P b := by
  intro b hb
  rcases List.mem_or_eq_of_mem_set hb with hb | rfl
  · exact h b hb
  · exact ha

/-- What holds of every entry still does with one more. -/
theorem forall_mem_concat {P : α → Prop} {l : List α} {a : α} (h : ∀ b ∈ l, P b) (ha : P a) :
    ∀ b ∈ l ++ [a], P b :=
  List.forall_mem_append.mpr ⟨h, List.forall_mem_singleton.mpr ha⟩

/-- An entry of a kind is still there with one replaced, if it was not the one or is
replaced by one of the kind. -/
theorem exists_mem_set {P : α → Prop} {l : List α} {i : Nat} {a b : α} (hi : l[i]? = some b)
    (ha : P b → P a) (h : ∃ c ∈ l, P c) : ∃ c ∈ l.set i a, P c := by
  obtain ⟨c, hc, hP⟩ := h
  obtain ⟨j, hj⟩ := List.mem_iff_getElem?.mp hc
  by_cases hne : i = j
  · subst hne
    rw [hi, Option.some.injEq] at hj
    subst hj
    exact ⟨a, List.mem_set (List.getElem?_eq_some_iff.mp hi).1 a, ha hP⟩
  · refine ⟨c, List.mem_of_getElem? (i := j) ?_, hP⟩
    rw [List.getElem?_set_ne hne, hj]

/-- One entry at most is of a kind, still with one replaced that is of the kind only where no
other is. -/
theorem unique_set {P : α → Prop} {l : List α} {i : Nat} {a : α}
    (h : ∀ {j k : Nat} {b c : α}, l[j]? = some b → l[k]? = some c → P b → P c → j = k)
    (ha : ∀ {k : Nat} {b : α}, P a → l[k]? = some b → P b → i = k) {j k : Nat} {b c : α}
    (hb : (l.set i a)[j]? = some b) (hc : (l.set i a)[k]? = some c) (hPb : P b) (hPc : P c) :
    j = k := by
  rcases getElem?_set_cases hb with ⟨rfl, rfl⟩ | ⟨-, hb₀⟩
  · rcases getElem?_set_cases hc with ⟨rfl, -⟩ | ⟨-, hc₀⟩
    · rfl
    · exact ha hPb hc₀ hPc
  · rcases getElem?_set_cases hc with ⟨rfl, rfl⟩ | ⟨-, hc₀⟩
    · exact (ha hPc hb₀ hPb).symm
    · exact h hb₀ hc₀ hPb hPc

/-- One entry at most is of a kind, still with one more that is not. -/
theorem unique_concat {P : α → Prop} {l : List α} {a : α}
    (h : ∀ {j k : Nat} {b c : α}, l[j]? = some b → l[k]? = some c → P b → P c → j = k)
    (ha : ¬P a) {j k : Nat} {b c : α} (hb : (l ++ [a])[j]? = some b)
    (hc : (l ++ [a])[k]? = some c) (hPb : P b) (hPc : P c) : j = k := by
  rcases getElem?_concat_cases hb with hb | ⟨-, rfl⟩
  · rcases getElem?_concat_cases hc with hc | ⟨-, rfl⟩
    · exact h hb hc hPb hPc
    · exact (ha hPc).elim
  · exact (ha hPb).elim

/-- A count of the entries, with one replaced. -/
theorem countP_set_add (p : α → Bool) {l : List α} {i : Nat} {a b : α} (hi : l[i]? = some b) :
    (l.set i a).countP p + (p b).toNat = l.countP p + (p a).toNat := by
  induction l generalizing i with
  | nil => cases hi
  | cons c l ih =>
    cases i with
    | zero =>
      rw [List.getElem?_cons_zero, Option.some.injEq] at hi
      subst hi
      rw [List.set_cons_zero, List.countP_cons, List.countP_cons]
      cases p a <;> cases p c <;> simp
    | succ i =>
      have hrest := ih hi
      rw [List.set_cons_succ, List.countP_cons, List.countP_cons]
      omega

/-- A count of the entries, with one taken out. -/
theorem countP_erase_add [DecidableEq α] (p : α → Bool) {l : List α} {a : α} (h : a ∈ l) :
    (l.erase a).countP p + (p a).toNat = l.countP p := by
  rw [(List.perm_cons_erase h).countP_eq p, List.countP_cons]
  cases p a <;> simp

/-- No entry is counted by two tests that exclude each other. -/
theorem countP_add_le {p q : α → Bool} {l : List α} (h : ∀ a ∈ l, p a = true → q a = false) :
    l.countP p + l.countP q ≤ l.length := by
  rw [l.length_eq_countP_add_countP p]
  refine Nat.add_le_add_left (List.countP_mono_left fun a ha hq => ?_) _
  cases hp : p a with
  | false => rfl
  | true =>
    rw [h a ha hp] at hq
    cases hq

/-- No two positions hold entries that pass a test: one entry passes it at most. -/
theorem countP_le_one {p : α → Bool} {l : List α} (h : ∀ (i j : Nat) a b, l[i]? = some a →
    l[j]? = some b → p a = true → p b = true → i = j) : l.countP p ≤ 1 := by
  induction l with
  | nil => exact Nat.zero_le _
  | cons c l ih =>
    rw [List.countP_cons]
    split
    · next hc =>
      have hrest : l.countP p = 0 := by
        refine List.countP_eq_zero.mpr fun b hb hpb => ?_
        obtain ⟨j, hj⟩ := List.getElem?_of_mem hb
        cases h 0 (j + 1) c b rfl hj hc hpb
      omega
    · refine ih fun i j a b hi hj ha hb => ?_
      exact Nat.succ_injective (h (i + 1) (j + 1) a b hi hj ha hb)

/-- A sum over the entries, with one replaced. -/
theorem sum_map_set (f : α → Int) {l : List α} {i : Nat} {a b : α} (hi : l[i]? = some b) :
    ((l.set i a).map f).sum = (l.map f).sum - f b + f a := by
  induction l generalizing i with
  | nil => simp at hi
  | cons c l ih =>
    cases i with
    | zero =>
      rw [List.getElem?_cons_zero, Option.some.injEq] at hi
      subst hi
      simp only [List.set_cons_zero, List.map_cons, List.sum_cons]
      omega
    | succ i =>
      rw [List.getElem?_cons_succ] at hi
      simp only [List.set_cons_succ, List.map_cons, List.sum_cons, ih hi]
      omega

/-- A count is at most a sum of what each counted entry is worth. -/
theorem countP_le_sum_map {p : α → Bool} {f : α → Int} (h : ∀ a, (p a).toNat ≤ f a)
    (l : List α) : (l.countP p : Int) ≤ (l.map f).sum := by
  induction l with
  | nil => simp
  | cons a l ih =>
    have ha := h a
    rw [List.countP_cons, List.map_cons, List.sum_cons]
    cases hp : p a <;> simp only [hp, Bool.toNat_true, Bool.toNat_false] at ha <;>
      simp only [if_true, Bool.false_eq_true, if_false] <;> omega

/-- A sum that counts one for each entry that passes a test. -/
theorem sum_map_eq_countP {p : α → Bool} {f : α → Int} {l : List α}
    (h : ∀ a ∈ l, f a = (p a).toNat) : (l.map f).sum = l.countP p := by
  induction l with
  | nil => rfl
  | cons a l ih =>
    have hrest := ih fun b hb => h b (List.mem_cons_of_mem a hb)
    rw [List.map_cons, List.sum_cons, hrest, h a List.mem_cons_self, List.countP_cons]
    cases p a
    · simp
    · simp
      omega

/-- What passes a test alone, where nothing else was tested. -/
theorem eq_of_filter_singleton {p : α → Bool} {a b : α} (h : [b].filter p = [a]) :
    b = a ∧ p a = true := by
  have hmem : a ∈ [b].filter p := h ▸ List.mem_singleton_self a
  obtain ⟨ha, hp⟩ := List.mem_filter.mp hmem
  exact ⟨(List.mem_singleton.mp ha).symm, hp⟩

/-- A row that is there has its position in the list. -/
theorem lt_length_of_join {l : List (Option α)} {i : Nat} {a : α} (h : l[i]?.join = some a) :
    i < l.length := by
  by_contra hle
  rw [List.getElem?_eq_none (Nat.le_of_not_lt hle)] at h
  cases h

/-- One rewriting, at several positions: a position named more than once is
rewritten as if named once. -/
theorem getElem?_foldl_modify {f : α → α} (hf : ∀ a, f (f a) = f a) (positions : List Nat)
    (results : List α) (i : Nat) :
    (positions.foldl (fun results c => results.modify c f) results)[i]? =
      if i ∈ positions then results[i]?.map f else results[i]? := by
  induction positions generalizing results with
  | nil => simp
  | cons c positions ih =>
    rw [List.foldl_cons, ih, List.getElem?_modify]
    by_cases hc : c = i
    · subst hc
      cases results[c]? <;> simp [hf]
    · have hi : i ≠ c := fun h => hc h.symm
      simp [hc, hi]

/-- Rewritings of other positions leave a position as it was. -/
theorem getElem?_foldl_modify_of_ne (g : β → Nat) (f : β → α → α) (entries : List β)
    (results : List α) {i : Nat} (h : ∀ entry ∈ entries, g entry ≠ i) :
    (entries.foldl (fun results entry => results.modify (g entry) (f entry)) results)[i]? =
      results[i]? := by
  induction entries generalizing results with
  | nil => rfl
  | cons entry entries ih =>
    rw [List.foldl_cons, ih _ fun e he => h e (List.mem_cons_of_mem _ he),
      List.getElem?_modify_ne _ _ (h entry (List.mem_cons_self ..))]

/-- Where each position is named once, its rewriting is the one made. -/
theorem getElem?_foldl_modify_of_mem (g : β → Nat) (f : β → α → α) {entries : List β}
    (hnodup : (entries.map g).Nodup) (results : List α) {entry : β} (h : entry ∈ entries) :
    (entries.foldl (fun results entry => results.modify (g entry) (f entry)) results)[g entry]? =
      results[g entry]?.map (f entry) := by
  induction entries generalizing results with
  | nil => exact absurd h (by simp)
  | cons e entries ih =>
    rw [List.map_cons, List.nodup_cons] at hnodup
    rw [List.foldl_cons]
    rcases List.mem_cons.mp h with rfl | h
    · have hne : ∀ x ∈ entries, g x ≠ g entry := by
        intro x hx heq
        exact hnodup.1 (heq ▸ List.mem_map_of_mem hx)
      rw [getElem?_foldl_modify_of_ne g f entries _ hne, List.getElem?_modify_eq]
      rfl
    · have hne : g e ≠ g entry := by
        intro heq
        exact hnodup.1 (heq ▸ List.mem_map_of_mem h)
      rw [ih hnodup.2 _ h, List.getElem?_modify_ne _ _ hne]

/-- Rewriting positions moves none. -/
theorem length_foldl_modify (g : β → Nat) (f : β → α → α) (entries : List β) (results : List α) :
    (entries.foldl (fun results entry => results.modify (g entry) (f entry)) results).length =
      results.length := by
  induction entries generalizing results with
  | nil => rfl
  | cons entry entries ih => rw [List.foldl_cons, ih, List.length_modify]

/-! ## A relation kept position by position -/

section Relation

variable {R : α → α → Prop}

theorem forall₂_trans (htrans : ∀ a b c, R a b → R b c → R a c) {l m n : List α}
    (hlm : List.Forall₂ R l m) (hmn : List.Forall₂ R m n) : List.Forall₂ R l n := by
  induction hlm generalizing n with
  | nil => exact hmn
  | cons hab _ ih =>
    cases hmn with
    | cons hbc hrest => exact .cons (htrans _ _ _ hab hbc) (ih hrest)

theorem forall₂_modify (hrefl : ∀ a, R a a) {f : α → α} (hf : ∀ a, R a (f a)) (l : List α)
    (i : Nat) : List.Forall₂ R l (l.modify i f) := by
  induction l generalizing i with
  | nil => simp
  | cons a l ih =>
    cases i with
    | zero => exact .cons (hf a) (List.forall₂_same.mpr fun b _ => hrefl b)
    | succ i => exact .cons (hrefl a) (ih i)

theorem forall₂_foldl_modify (hrefl : ∀ a, R a a) (htrans : ∀ a b c, R a b → R b c → R a c)
    {f : α → α} (hf : ∀ a, R a (f a)) (positions : List Nat) (l : List α) :
    List.Forall₂ R l (positions.foldl (fun l c => l.modify c f) l) := by
  induction positions generalizing l with
  | nil => exact List.forall₂_same.mpr fun b _ => hrefl b
  | cons c positions ih => exact forall₂_trans htrans (forall₂_modify hrefl hf l c) (ih _)

theorem exists_of_forall₂ {S : α → β → Prop} {l : List α} {m : List β} (h : List.Forall₂ S l m)
    {i : Nat} {a : α} (ha : l[i]? = some a) : ∃ b, m[i]? = some b ∧ S a b := by
  induction h generalizing i with
  | nil => simp at ha
  | @cons x y l m hxy _ ih =>
    cases i with
    | zero =>
      rw [List.getElem?_cons_zero, Option.some_inj] at ha
      exact ⟨y, rfl, ha ▸ hxy⟩
    | succ i => exact ih ha

end Relation

/-! ## More than one different value -/

/-- A list has more than one different value exactly when two of its values
differ. -/
theorem one_lt_length_dedup_iff [DecidableEq α] (l : List α) :
    1 < l.dedup.length ↔ ∃ a ∈ l, ∃ b ∈ l, a ≠ b := by
  have hcard : l.dedup.length = l.toFinset.card := (List.card_toFinset l).symm
  rw [hcard, Finset.one_lt_card]
  simp only [List.mem_toFinset]

end ListUpdate
end NetRollout
