import Mathlib.Data.List.Infix
import Mathlib.Data.List.Nodup
import Mathlib.Data.List.Perm.Subperm

/-!
# One entry for each key

A table that is asked for keys one after the other: the entry a key has is given, and a key that
has none gets one, which the later ones share.

The table is a part of some state, and what is made for a new key may depend on all of it
(`Interner`).  `results_eq` is that what is given for a key is the first entry the last table has
for it, so equal keys are given the same; `prefix_run` that an entry is never changed, and
`mem_added_iff` which entries are new.

`firstFree` is the name such an entry may be given: the first of a sequence that is not taken.
-/

namespace NetRollout

/-- A state with a table, and how an entry for a new key is added to it. -/
structure Interner (σ κ α : Type) where
  table : σ → List (κ × α)
  create : σ → κ → σ × α
  table_create : ∀ s key, table (create s key).1 = table s ++ [(key, (create s key).2)]

namespace Interner

variable {σ κ α : Type} [DecidableEq κ] (I : Interner σ κ α)

/-- The first entry of a key. -/
def lookup (table : List (κ × α)) (key : κ) : Option α :=
  (table.find? fun e => e.1 = key).map Prod.snd

/-- The entry of a key, made if there is none. -/
def resolve (s : σ) (key : κ) : σ × α :=
  match lookup (I.table s) key with
  | some a => (s, a)
  | none => I.create s key

/-- The entries of several keys, one after the other, and none where no key is asked for. -/
def run (s : σ) : List (Option κ) → σ × List (Option α)
  | [] => (s, [])
  | none :: keys =>
    let (s, rest) := run s keys
    (s, none :: rest)
  | some key :: keys =>
    let (s, a) := I.resolve s key
    let (s, rest) := run s keys
    (s, some a :: rest)

variable {I} {s : σ}

omit I in
theorem lookup_append_of_some {table : List (κ × α)} {key : κ} {a : α}
    (h : lookup table key = some a) (more : List (κ × α)) :
    lookup (table ++ more) key = some a := by
  rw [lookup, Option.map_eq_some_iff] at h
  obtain ⟨e, he, rfl⟩ := h
  rw [lookup, List.find?_append, he]
  rfl

omit I in
theorem lookup_eq_none_iff {table : List (κ × α)} {key : κ} :
    lookup table key = none ↔ key ∉ table.map Prod.fst := by
  rw [lookup, Option.map_eq_none_iff, List.find?_eq_none, List.mem_map]
  constructor
  · rintro h ⟨e, he, rfl⟩
    exact h e he (decide_eq_true rfl)
  · intro h e he heq
    exact h ⟨e, he, of_decide_eq_true heq⟩

omit I in
theorem mem_of_lookup {table : List (κ × α)} {key : κ} {a : α}
    (h : lookup table key = some a) : (key, a) ∈ table := by
  rw [lookup, Option.map_eq_some_iff] at h
  obtain ⟨e, he, rfl⟩ := h
  have hkey := List.find?_some he
  rw [decide_eq_true_eq] at hkey
  exact hkey ▸ List.mem_of_find?_eq_some he

/-! ## One key -/

/-- What one key does: its entry is there, or is added. -/
theorem resolve_cases (I : Interner σ κ α) (s : σ) (key : κ) :
    (lookup (I.table s) key = some (I.resolve s key).2 ∧ (I.resolve s key).1 = s) ∨
    (key ∉ (I.table s).map Prod.fst ∧ I.resolve s key = I.create s key) := by
  rw [resolve]
  cases h : lookup (I.table s) key with
  | some a => exact Or.inl ⟨rfl, rfl⟩
  | none => exact Or.inr ⟨lookup_eq_none_iff.mp h, rfl⟩

theorem lookup_resolve (I : Interner σ κ α) (s : σ) (key : κ) :
    lookup (I.table (I.resolve s key).1) key = some (I.resolve s key).2 := by
  rcases resolve_cases I s key with ⟨hfound, hsame⟩ | ⟨hnew, heq⟩
  · rw [hsame]
    exact hfound
  · rw [heq, I.table_create, lookup, List.find?_append,
      Option.map_eq_none_iff.mp (lookup_eq_none_iff.mpr hnew), Option.none_or,
      List.find?_singleton]
    simp

theorem prefix_resolve (I : Interner σ κ α) (s : σ) (key : κ) :
    I.table s <+: I.table (I.resolve s key).1 := by
  rcases resolve_cases I s key with ⟨-, hsame⟩ | ⟨-, heq⟩
  · rw [hsame]
  · rw [heq, I.table_create]
    exact List.prefix_append _ _

/-! ## A run -/

theorem run_none (I : Interner σ κ α) (s : σ) (keys : List (Option κ)) :
    I.run s (none :: keys) = ((I.run s keys).1, none :: (I.run s keys).2) := rfl

theorem run_some (I : Interner σ κ α) (s : σ) (key : κ) (keys : List (Option κ)) :
    I.run s (some key :: keys) = ((I.run (I.resolve s key).1 keys).1,
      some (I.resolve s key).2 :: (I.run (I.resolve s key).1 keys).2) := rfl

/-- **No entry is changed.** -/
theorem prefix_run (I : Interner σ κ α) (s : σ) (keys : List (Option κ)) :
    I.table s <+: I.table (I.run s keys).1 := by
  induction keys generalizing s with
  | nil => exact List.prefix_rfl
  | cons asked keys ih =>
    rcases asked with _ | key
    · exact ih s
    · exact (prefix_resolve I s key).trans (ih _)

/-- **What is given for a key is the last table's first entry for it.** -/
theorem results_eq (I : Interner σ κ α) (s : σ) (keys : List (Option κ)) :
    (I.run s keys).2 = keys.map fun asked => asked.bind (lookup (I.table (I.run s keys).1)) := by
  induction keys generalizing s with
  | nil => rfl
  | cons asked keys ih =>
    rcases asked with _ | key
    · rw [run_none, List.map_cons, ← ih s]
      rfl
    · obtain ⟨more, hmore⟩ := prefix_run I (I.resolve s key).1 keys
      have hgiven : lookup (I.table (I.run (I.resolve s key).1 keys).1) key =
          some (I.resolve s key).2 := by
        rw [← hmore]
        exact lookup_append_of_some (lookup_resolve I s key) more
      rw [run_some, List.map_cons, ← ih, Option.bind_some, hgiven]

/-- **The new entries are of the keys asked for that had none, one of each.** -/
theorem exists_added (I : Interner σ κ α) (s : σ) (keys : List (Option κ)) :
    ∃ added, I.table (I.run s keys).1 = I.table s ++ added ∧ (added.map Prod.fst).Nodup ∧
      ∀ key, key ∈ added.map Prod.fst ↔ some key ∈ keys ∧ key ∉ (I.table s).map Prod.fst := by
  induction keys generalizing s with
  | nil => exact ⟨[], (List.append_nil _).symm, List.nodup_nil, by simp⟩
  | cons asked keys ih =>
    rcases asked with _ | key
    · obtain ⟨added, htable, hnodup, hmem⟩ := ih s
      refine ⟨added, htable, hnodup, fun k => ?_⟩
      rw [hmem, List.mem_cons, or_iff_right (by simp)]
    · obtain ⟨added, htable, hnodup, hmem⟩ := ih (I.resolve s key).1
      rcases resolve_cases I s key with ⟨hfound, hsame⟩ | ⟨hnew, heq⟩
      · refine ⟨added, ?_, hnodup, fun k => ?_⟩
        · rw [run_some, htable, hsame]
        · rw [hmem, hsame, List.mem_cons, Option.some.injEq]
          have hold : key ∈ (I.table s).map Prod.fst :=
            List.mem_map_of_mem (f := Prod.fst) (mem_of_lookup hfound)
          constructor
          · exact fun hk => ⟨Or.inr hk.1, hk.2⟩
          · rintro ⟨rfl | hk, hno⟩
            · exact absurd hold hno
            · exact ⟨hk, hno⟩
      · have hcreated : I.table (I.resolve s key).1 =
            I.table s ++ [(key, (I.create s key).2)] := by
          rw [heq, I.table_create]
        refine ⟨(key, (I.create s key).2) :: added, ?_, ?_, fun k => ?_⟩
        · rw [run_some, htable, hcreated, List.append_assoc, List.singleton_append]
        · rw [List.map_cons, List.nodup_cons]
          refine ⟨fun hin => ((hmem key).mp hin).2 ?_, hnodup⟩
          rw [hcreated, List.map_append]
          exact List.mem_append_right _ List.mem_cons_self
        · rw [List.map_cons, List.mem_cons, hmem, hcreated, List.map_append, List.map_cons,
            List.map_nil, List.mem_append, List.mem_singleton, List.mem_cons, Option.some.injEq]
          constructor
          · rintro (rfl | ⟨hk, hno⟩)
            · exact ⟨Or.inl rfl, hnew⟩
            · exact ⟨Or.inr hk, fun hold => hno (Or.inl hold)⟩
          · rintro ⟨rfl | hk, hno⟩
            · exact Or.inl rfl
            · by_cases hkey : k = key
              · exact Or.inl hkey
              · exact Or.inr ⟨hk, fun h => h.elim hno hkey⟩

/-- What making an entry keeps, a run keeps. -/
theorem run_invariant (I : Interner σ κ α) {P : σ → Prop}
    (hcreate : ∀ s key, P s → key ∉ (I.table s).map Prod.fst → P (I.create s key).1) {s : σ}
    (hs : P s) (keys : List (Option κ)) : P (I.run s keys).1 := by
  induction keys generalizing s with
  | nil => exact hs
  | cons asked keys ih =>
    rcases asked with _ | key
    · exact ih hs
    · rw [run_some]
      refine ih ?_
      rcases resolve_cases I s key with ⟨-, hsame⟩ | ⟨hnew, heq⟩
      · rw [hsame]
        exact hs
      · rw [heq]
        exact hcreate s key hs hnew

theorem length_run (I : Interner σ κ α) (s : σ) (keys : List (Option κ)) :
    (I.run s keys).2.length = keys.length := by
  rw [results_eq, List.length_map]

end Interner

/-! ## A free name -/

variable {β : Type} [DecidableEq β]

/-- The first of the names from the `n`th that is not taken, among the next `fuel`. -/
def firstFree (taken : List β) (name : Nat → β) : Nat → Nat → Option β
  | 0, _ => none
  | fuel + 1, n =>
    if name n ∈ taken then firstFree taken name fuel (n + 1) else some (name n)

theorem notMem_of_firstFree {taken : List β} {name : Nat → β} {fuel n : Nat} {b : β}
    (h : firstFree taken name fuel n = some b) : b ∉ taken ∧ ∃ m, n ≤ m ∧ b = name m := by
  induction fuel generalizing n with
  | zero => cases h
  | succ fuel ih =>
    rw [firstFree] at h
    split at h
    · obtain ⟨hfree, m, hm, heq⟩ := ih h
      exact ⟨hfree, m, by omega, heq⟩
    · next hfree =>
      cases h
      exact ⟨hfree, n, Nat.le_refl n, rfl⟩

/-- **A name more than are taken is enough.** -/
theorem exists_firstFree {taken : List β} {name : Nat → β} (hname : Function.Injective name)
    {fuel : Nat} (h : taken.length < fuel) (n : Nat) :
    ∃ b, firstFree taken name fuel n = some b := by
  by_contra hnone
  have hall : ∀ fuel n, firstFree taken name fuel n = none →
      ∀ m, n ≤ m → m < n + fuel → name m ∈ taken := by
    intro fuel
    induction fuel with
    | zero => intro n _ m hle hlt; omega
    | succ fuel ih =>
      intro n hfree m hle hlt
      rw [firstFree] at hfree
      split at hfree
      · next htaken =>
        by_cases heq : m = n
        · exact heq ▸ htaken
        · exact ih (n + 1) hfree m (by omega) (by omega)
      · cases hfree
  have htaken := hall fuel n (Option.eq_none_iff_forall_ne_some.mpr fun b hb => hnone ⟨b, hb⟩)
  -- `fuel` different names among fewer
  have hsub : (List.range' n fuel).map name ⊆ taken := by
    intro b hb
    obtain ⟨m, hm, rfl⟩ := List.mem_map.mp hb
    rw [List.mem_range'_1] at hm
    exact htaken m hm.1 hm.2
  have hnodup : ((List.range' n fuel).map name).Nodup :=
    (List.nodup_map_iff hname).mpr List.nodup_range'
  have hlength := (List.subperm_of_subset hnodup hsub).length_le
  rw [List.length_map, List.length_range'] at hlength
  omega

end NetRollout
