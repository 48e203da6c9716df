import Mathlib.Data.List.Basic
import Mathlib.Data.List.Nodup
import Mathlib.Order.Basic

/-!
# A list cut into pages

A list read a page at a time, `LIMIT n OFFSET k * n` for the page `k`.

The pages join to the list (`flatten_pages`), all but the last are full (`length_page`), and the
entry at the position `i` is on the page `i / n` and on no other (`mem_page_iff`).  In a list
that is in the order of a relation, an entry's position is the number of entries before it
(`countP_eq_of_pairwise`), however the entries are counted.
-/

namespace NetRollout
namespace Paging

variable {α : Type*}

/-- The page `k` of a list, the first being 0. -/
def page (n : ℕ) (l : List α) (k : ℕ) : List α := (l.drop (k * n)).take n

theorem length_page_le (n : ℕ) (l : List α) (k : ℕ) : (page n l k).length ≤ n := by
  rw [page, List.length_take]
  omega

/-- A page with entries of the list after it is full. -/
theorem length_page {n : ℕ} {l : List α} {k : ℕ} (h : (k + 1) * n ≤ l.length) :
    (page n l k).length = n := by
  rw [Nat.succ_mul] at h
  rw [page, List.length_take, List.length_drop]
  omega

theorem getElem?_page {n : ℕ} {l : List α} {k i : ℕ} (h : i < n) :
    (page n l k)[i]? = l[k * n + i]? := by
  rw [page, List.getElem?_take_of_lt h, List.getElem?_drop]

/-- The first pages join to the first entries. -/
theorem flatten_pages_take (n : ℕ) (l : List α) (m : ℕ) :
    ((List.range m).map (page n l)).flatten = l.take (m * n) := by
  induction m with
  | zero => simp
  | succ m ih =>
    rw [List.range_succ, List.map_append, List.flatten_append, ih, List.map_singleton,
      List.flatten_singleton, page, Nat.succ_mul, List.take_add]

/-- As many pages as the list needs join to the list. -/
theorem flatten_pages {n : ℕ} {l : List α} {m : ℕ} (h : l.length ≤ m * n) :
    ((List.range m).map (page n l)).flatten = l := by
  rw [flatten_pages_take, List.take_of_length_le h]

/-- An entry is on the page of its position. -/
theorem mem_page_div {n : ℕ} (hn : 0 < n) {l : List α} {i : ℕ} {a : α} (h : l[i]? = some a) :
    a ∈ page n l (i / n) := by
  refine List.mem_of_getElem? (i := i % n) ?_
  rw [getElem?_page (Nat.mod_lt i hn), Nat.div_add_mod']
  exact h

/-- In a list without duplicates an entry is on the page of its position only. -/
theorem mem_page_iff {n : ℕ} (hn : 0 < n) {l : List α} (hl : l.Nodup) {i k : ℕ} {a : α}
    (h : l[i]? = some a) : a ∈ page n l k ↔ k = i / n := by
  constructor
  · intro hmem
    obtain ⟨j, hj⟩ := List.mem_iff_getElem?.mp hmem
    have hlt : j < n := by
      have hlength := (List.getElem?_eq_some_iff.mp hj).1
      exact Nat.lt_of_lt_of_le hlength (length_page_le n l k)
    rw [getElem?_page hlt] at hj
    have hi : i < l.length := (List.getElem?_eq_some_iff.mp h).1
    have hij : i = k * n + j := (List.getElem?_inj hi hl).mp (h.trans hj.symm)
    rw [hij, Nat.mul_comm, Nat.mul_add_div hn, Nat.div_eq_of_lt hlt, Nat.add_zero]
  · rintro rfl
    exact mem_page_div hn h

/-- In a list in the order of a relation, the entries before one are those the relation puts
before it. -/
theorem countP_eq_of_pairwise {R : α → α → Prop} [DecidableRel R] {l : List α}
    (hasymm : ∀ a b, R a b → ¬R b a) (hl : l.Pairwise R) {i : ℕ} {a : α} (h : l[i]? = some a) :
    l.countP (fun b => R b a) = i := by
  induction l generalizing i with
  | nil => cases h
  | cons b l ih =>
    obtain ⟨hb, hl⟩ := List.pairwise_cons.mp hl
    cases i with
    | zero =>
      obtain rfl : b = a := Option.some.inj h
      refine List.countP_eq_zero.mpr fun c hc => ?_
      have hnot : ¬R c b := by
        rcases List.mem_cons.mp hc with rfl | hc
        · exact fun hself => hasymm c c hself hself
        · exact hasymm b c (hb c hc)
      simpa using hnot
    | succ i =>
      have hbefore : R b a := hb a (List.mem_of_getElem? h)
      rw [List.countP_cons_of_pos (by simpa using hbefore), ih hl h]

end Paging
end NetRollout
