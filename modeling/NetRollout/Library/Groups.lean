import Mathlib.Data.List.Sort
import Mathlib.Order.Basic

/-!
# Groups of a list

Entries sorted by a key and cut where the key changes, as Python's `groupby(sorted(l, key), key)`.

`mem_grouped_iff` is what the groups are: for each key that occurs its entries, in the order of
the list; and `pairwise_grouped` that they come in the order of the keys.
-/

namespace NetRollout
namespace Groups

variable {α κ : Type*} [LinearOrder κ] (key : α → κ)

/-- `sorted(l, key=key)`. -/
def sorted (l : List α) : List α := l.mergeSort fun a b => decide (key a ≤ key b)

/-- `groupby(l, key=key)`, each group with its key. -/
def groupby : List α → List (κ × List α)
  | [] => []
  | a :: l =>
    match groupby l with
    | [] => [(key a, [a])]
    | (k, g) :: rest => if key a = k then (k, a :: g) :: rest else (key a, [a]) :: (k, g) :: rest

/-- The groups of a list, in the order of their keys. -/
def grouped (l : List α) : List (κ × List α) := groupby key (sorted key l)

variable {key}

/-! ## Sorting -/

theorem sorted_perm (l : List α) : (sorted key l).Perm l := List.mergeSort_perm ..

theorem pairwise_sorted (l : List α) : (sorted key l).Pairwise fun a b => key a ≤ key b := by
  have h := @List.pairwise_mergeSort _ (fun a b => decide (key a ≤ key b))
    (fun a b c hab hbc => by
      simp only [decide_eq_true_eq] at *
      exact hab.trans hbc)
    (fun a b => by
      simp only [Bool.or_eq_true, decide_eq_true_eq]
      exact le_total (key a) (key b)) l
  exact h.imp fun h => of_decide_eq_true h

/-- Sorting keeps the order of what has one key. -/
theorem filter_sorted (l : List α) (k : κ) :
    (sorted key l).filter (fun a => decide (key a = k)) =
      l.filter fun a => decide (key a = k) := by
  have hone : (l.filter fun a => decide (key a = k)).Pairwise
      fun a b => decide (key a ≤ key b) = true := by
    refine List.pairwise_iff_forall_sublist.mpr fun {a b} h => ?_
    have ha := List.of_mem_filter (h.subset (List.mem_cons_self ..))
    have hb := List.of_mem_filter (h.subset (List.mem_cons_of_mem _ (List.mem_cons_self ..)))
    simp only [decide_eq_true_eq] at *
    rw [ha, hb]
  have hsub := @List.sublist_mergeSort _ (fun a b => decide (key a ≤ key b)) l
    (fun a b c hab hbc => by
      simp only [decide_eq_true_eq] at *
      exact hab.trans hbc)
    (fun a b => by
      simp only [Bool.or_eq_true, decide_eq_true_eq]
      exact le_total (key a) (key b)) _ hone List.filter_sublist
  have hfiltered := hsub.filter fun a => decide (key a = k)
  rw [List.filter_filter] at hfiltered
  simp only [Bool.and_self] at hfiltered
  exact (hfiltered.eq_of_length (((sorted_perm l).symm.filter _).length_eq)).symm

/-! ## Cutting -/

variable (key) in
/-- An entry before others: it joins their first group, or is a group of its own. -/
theorem groupby_cons (a : α) (l : List α) :
    (∃ g rest, groupby key l = (key a, g) :: rest ∧
      groupby key (a :: l) = (key a, a :: g) :: rest) ∨
    ((∀ g rest, groupby key l ≠ (key a, g) :: rest) ∧
      groupby key (a :: l) = (key a, [a]) :: groupby key l) := by
  rw [groupby]
  split
  · next heq =>
    right
    rw [heq]
    exact ⟨fun g rest h => absurd h (List.cons_ne_nil _ _).symm, rfl⟩
  · next k g rest heq =>
    by_cases hk : key a = k
    · subst hk
      left
      exact ⟨g, rest, heq, if_pos rfl⟩
    · right
      rw [heq, if_neg hk]
      exact ⟨fun g' rest' h => hk (Prod.mk.inj (List.cons.inj h).1).1.symm, rfl⟩

/-- What the key of a group says of its entries. -/
theorem key_of_mem_groupby {l : List α} {k : κ} {g : List α} (h : (k, g) ∈ groupby key l) :
    g ≠ [] ∧ ∀ a ∈ g, key a = k := by
  induction l generalizing k g with
  | nil => cases h
  | cons a l ih =>
    rcases groupby_cons key a l with ⟨g', rest, heq, hcons⟩ | ⟨-, hcons⟩
    · rw [hcons] at h
      rcases List.mem_cons.mp h with hfirst | hmem
      · obtain ⟨rfl, rfl⟩ := Prod.mk.inj hfirst
        refine ⟨List.cons_ne_nil _ _, fun b hb => ?_⟩
        rcases List.mem_cons.mp hb with rfl | hb
        · rfl
        · exact (ih (heq ▸ List.mem_cons_self ..)).2 b hb
      · exact ih (heq ▸ List.mem_cons_of_mem _ hmem)
    · rw [hcons] at h
      rcases List.mem_cons.mp h with hfirst | hmem
      · obtain ⟨rfl, rfl⟩ := Prod.mk.inj hfirst
        exact ⟨List.cons_ne_nil _ _, fun b hb => congrArg key (List.mem_singleton.mp hb)⟩
      · exact ih hmem

variable (key) in
/-- The groups join to the list. -/
theorem flatMap_groupby (l : List α) : (groupby key l).flatMap Prod.snd = l := by
  induction l with
  | nil => rfl
  | cons a l ih =>
    rcases groupby_cons key a l with ⟨g, rest, heq, hcons⟩ | ⟨-, hcons⟩
    · rw [heq, List.flatMap_cons] at ih
      rw [hcons, List.flatMap_cons, List.cons_append, ih]
    · rw [hcons, List.flatMap_cons, ih, List.singleton_append]

/-- In a sorted list a later group has a larger key. -/
theorem pairwise_groupby {l : List α} (hl : l.Pairwise fun a b => key a ≤ key b) :
    (groupby key l).Pairwise fun g h => g.1 < h.1 := by
  induction l with
  | nil => exact List.Pairwise.nil
  | cons a l ih =>
    obtain ⟨ha, hl⟩ := List.pairwise_cons.mp hl
    have hrest := ih hl
    have hle : ∀ h ∈ groupby key l, key a ≤ h.1 := by
      intro h hh
      obtain ⟨hne, hkey⟩ := key_of_mem_groupby hh
      obtain ⟨b, g, hg⟩ := List.exists_cons_of_ne_nil hne
      have hb : b ∈ h.2 := hg ▸ List.mem_cons_self ..
      rw [← hkey b hb]
      refine ha b ?_
      rw [← flatMap_groupby key l]
      exact List.mem_flatMap.mpr ⟨h, hh, hb⟩
    rcases groupby_cons key a l with ⟨g, rest, heq, hcons⟩ | ⟨hnone, hcons⟩
    · rw [heq] at hrest
      rw [hcons]
      exact List.pairwise_cons.mpr (List.pairwise_cons.mp hrest)
    · rw [hcons]
      refine List.pairwise_cons.mpr ⟨?_, hrest⟩
      -- the next group's key is another one, and those after it are larger
      cases heq : groupby key l with
      | nil => simp
      | cons first rest =>
        rw [heq] at hrest hle
        have hne : key a ≠ first.1 := by
          rintro hkey
          exact hnone first.2 rest (by rw [heq, hkey])
        have hlt : key a < first.1 := lt_of_le_of_ne (hle first (List.mem_cons_self ..)) hne
        intro h hh
        rcases List.mem_cons.mp hh with rfl | hh
        · exact hlt
        · exact hlt.trans ((List.pairwise_cons.mp hrest).1 h hh)

/-- Of groups of different keys, the one of a key holds all the entries of that key. -/
theorem filter_flatMap {gs : List (κ × List α)} (hkeys : ∀ g ∈ gs, ∀ a ∈ g.2, key a = g.1)
    (hgs : gs.Pairwise fun g h => g.1 ≠ h.1) {g : κ × List α} (hg : g ∈ gs) :
    (gs.flatMap Prod.snd).filter (fun a => decide (key a = g.1)) = g.2 := by
  induction gs with
  | nil => cases hg
  | cons first rest ih =>
    obtain ⟨hfirst, hrest⟩ := List.pairwise_cons.mp hgs
    have hown := hkeys first (List.mem_cons_self ..)
    have hothers : ∀ h ∈ rest, ∀ a ∈ h.2, key a = h.1 :=
      fun h hh => hkeys h (List.mem_cons_of_mem _ hh)
    rw [List.flatMap_cons, List.filter_append]
    rcases List.mem_cons.mp hg with rfl | hg
    · have hall : g.2.filter (fun a => decide (key a = g.1)) = g.2 :=
        List.filter_eq_self.mpr fun a ha => decide_eq_true (hown a ha)
      have hnone : (rest.flatMap Prod.snd).filter (fun a => decide (key a = g.1)) = [] := by
        refine List.filter_eq_nil_iff.mpr fun a ha => ?_
        obtain ⟨h, hh, hmem⟩ := List.mem_flatMap.mp ha
        rw [hothers h hh a hmem, decide_eq_true_eq]
        exact fun heq => hfirst h hh heq.symm
      rw [hall, hnone, List.append_nil]
    · have hnone : first.2.filter (fun a => decide (key a = g.1)) = [] := by
        refine List.filter_eq_nil_iff.mpr fun a ha => ?_
        rw [hown a ha, decide_eq_true_eq]
        exact hfirst g hg
      rw [hnone, List.nil_append, ih hothers hrest hg]

/-! ## The groups of a list -/

theorem pairwise_grouped (l : List α) : (grouped key l).Pairwise fun g h => g.1 < h.1 :=
  pairwise_groupby (pairwise_sorted l)

variable (key) in
theorem flatMap_grouped_perm (l : List α) : ((grouped key l).flatMap Prod.snd).Perm l := by
  rw [grouped, flatMap_groupby]
  exact sorted_perm l

/-- **The groups**: the entries of each key that occurs, as they are in the list. -/
theorem mem_grouped_iff {l : List α} {k : κ} {g : List α} :
    (k, g) ∈ grouped key l ↔ g ≠ [] ∧ g = l.filter fun a => decide (key a = k) := by
  have hkeys : ∀ h ∈ grouped key l, ∀ a ∈ h.2, key a = h.1 :=
    fun h hh => (key_of_mem_groupby (k := h.1) (g := h.2) hh).2
  have hfilter : ∀ h ∈ grouped key l, h.2 = l.filter fun a => decide (key a = h.1) := by
    intro h hh
    rw [← filter_sorted, ← filter_flatMap hkeys ((pairwise_grouped l).imp ne_of_lt) hh, grouped,
      flatMap_groupby]
  constructor
  · intro hmem
    exact ⟨(key_of_mem_groupby hmem).1, hfilter _ hmem⟩
  · rintro ⟨hne, hg⟩
    obtain ⟨a, rest, heq⟩ := List.exists_cons_of_ne_nil hne
    have ha : a ∈ l.filter fun a => decide (key a = k) := by
      rw [← hg, heq]
      exact List.mem_cons_self ..
    obtain ⟨hal, hak⟩ := List.mem_filter.mp ha
    obtain ⟨h, hh, hmem⟩ :=
      List.mem_flatMap.mp ((flatMap_grouped_perm key l).mem_iff.mpr hal)
    have hk : h.1 = k := by
      rw [← hkeys h hh a hmem]
      exact of_decide_eq_true hak
    have hsame : h.2 = g := by rw [hfilter h hh, hk, ← hg]
    rw [← hk, ← hsame]
    exact hh

/-- A key that occurs has its group. -/
theorem mem_keys_iff {l : List α} {k : κ} :
    k ∈ (grouped key l).map Prod.fst ↔ ∃ a ∈ l, key a = k := by
  constructor
  · intro hk
    obtain ⟨⟨k, g⟩, hg, rfl⟩ := List.mem_map.mp hk
    obtain ⟨hne, hfilter⟩ := mem_grouped_iff.mp hg
    obtain ⟨a, rest, heq⟩ := List.exists_cons_of_ne_nil hne
    have ha : a ∈ g := heq ▸ List.mem_cons_self ..
    rw [hfilter] at ha
    exact ⟨a, (List.mem_filter.mp ha).1, of_decide_eq_true (List.mem_filter.mp ha).2⟩
  · rintro ⟨a, ha, rfl⟩
    refine List.mem_map.mpr ⟨(key a, l.filter fun b => decide (key b = key a)), ?_, rfl⟩
    refine mem_grouped_iff.mpr ⟨fun hnil => ?_, rfl⟩
    have hmem : a ∈ l.filter fun b => decide (key b = key a) :=
      List.mem_filter.mpr ⟨ha, decide_eq_true rfl⟩
    rw [hnil] at hmem
    cases hmem

theorem nodup_keys (l : List α) : ((grouped key l).map Prod.fst).Nodup :=
  List.pairwise_map.mpr ((pairwise_grouped l).imp ne_of_lt)

end Groups
end NetRollout
