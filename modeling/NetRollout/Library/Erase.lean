import Mathlib.Data.List.Basic

/-!
# Erasing codes from a text that comes in pieces

`re.sub(pattern, "", s)` for a pattern whose matches do not depend on what follows them, and in
which no other match begins.  Erasing two pieces of a text one after the other erases the text,
if no code begins in the first and ends in the second (`erase_append`); of a code that does, the
first piece keeps what it has (`erase_of_splits`).
-/

namespace NetRollout

/-- The codes there are: the length of the one a text begins with. -/
structure Codes (α : Type*) where
  code : List α → Option ℕ
  bounds : ∀ {s k}, code s = some k → 0 < k ∧ k ≤ s.length
  append : ∀ {s k}, code s = some k → ∀ t, code (s ++ t) = some k
  take : ∀ {s k}, code s = some k → code (s.take k) = some k
  /-- No code begins within another one. -/
  within : ∀ {s k i}, code s = some k → 0 < i → i < k → ∀ t, code ((s.take k).drop i ++ t) = none

namespace Codes

variable {α : Type*} (C : Codes α)

/-- The text without its codes, with `n` letters still to be passed over. -/
def eraseFrom : ℕ → List α → List α
  | _, [] => []
  | n + 1, _ :: s => eraseFrom n s
  | 0, a :: s =>
    match C.code (a :: s) with
    | some k => eraseFrom (k - 1) s
    | none => a :: eraseFrom 0 s

def erase (s : List α) : List α := C.eraseFrom 0 s

/-- A code begins in `a` and ends in `b`. -/
def Splits (a b : List α) : Prop :=
  ∃ p t₁ t₂ q, a = p ++ t₁ ∧ b = t₂ ++ q ∧ t₁ ≠ [] ∧ t₂ ≠ [] ∧
    C.code (t₁ ++ t₂) = some (t₁ ++ t₂).length

variable {C} {a b s t : List α} {k : ℕ}

@[simp] theorem erase_nil : C.erase [] = [] := rfl

/-- A code of a longer text that ends in time is one of the text. -/
theorem code_of_append (h : C.code (s ++ t) = some k) (hk : k ≤ s.length) : C.code s = some k := by
  have htake := C.take h
  rw [List.take_append_of_le_length hk] at htake
  have hlonger := C.append htake (s.drop k)
  rwa [List.take_append_drop] at hlonger

/-- A code of a longer text is one of the text, or is split. -/
theorem code_append_cases (hs : s ≠ []) (h : C.code (s ++ t) = some k) :
    C.code s = some k ∨ C.Splits s t := by
  rcases Nat.lt_or_ge s.length k with hk | hk
  · have hlength := (C.bounds h).2
    rw [List.length_append] at hlength
    have htake : (s ++ t).take k = s ++ t.take (k - s.length) := by
      rw [List.take_append, List.take_of_length_le (Nat.le_of_lt hk)]
    refine .inr ⟨[], s, t.take (k - s.length), t.drop (k - s.length), rfl,
      (List.take_append_drop _ _).symm, hs, ?_, ?_⟩
    · rw [Ne, List.take_eq_nil_iff, not_or]
      refine ⟨by omega, fun ht => ?_⟩
      rw [ht, List.length_nil] at hlength
      omega
    · have hcode := C.take h
      rw [htake] at hcode
      rw [hcode, List.length_append, List.length_take]
      congr 1
      omega
  · exact .inl (code_of_append h hk)

theorem eraseFrom_append {n : ℕ} (hn : n ≤ a.length) (h : ¬ C.Splits a b) :
    C.eraseFrom n (a ++ b) = C.eraseFrom n a ++ C.erase b := by
  induction a generalizing n with
  | nil =>
    obtain rfl := Nat.le_zero.mp hn
    rfl
  | cons x a ih =>
    have hrest : ¬ C.Splits a b := by
      rintro ⟨p, t₁, t₂, q, rfl, hb, ht₁, ht₂, hcode⟩
      exact h ⟨x :: p, t₁, t₂, q, rfl, hb, ht₁, ht₂, hcode⟩
    cases n with
    | succ n => exact ih (Nat.le_of_succ_le_succ hn) hrest
    | zero =>
      rw [List.cons_append, eraseFrom, eraseFrom, ← List.cons_append]
      cases hcode : C.code (x :: a ++ b) with
      | some k =>
        have hfirst := (code_append_cases (List.cons_ne_nil x a) hcode).resolve_right h
        have hk := (C.bounds hfirst).2
        rw [List.length_cons] at hk
        rw [hfirst]
        exact ih (by omega) hrest
      | none =>
        have hfirst : C.code (x :: a) = none := by
          rw [Option.eq_none_iff_forall_ne_some]
          intro k hk
          rw [C.append hk] at hcode
          cases hcode
        rw [hfirst]
        exact congrArg (x :: ·) (ih (Nat.zero_le _) hrest)

theorem erase_append (h : ¬ C.Splits a b) : C.erase (a ++ b) = C.erase a ++ C.erase b :=
  eraseFrom_append (Nat.zero_le _) h

/-- Where no code begins, nothing is erased. -/
theorem erase_eq_self (h : ∀ i < s.length, C.code (s.drop i) = none) : C.erase s = s := by
  induction s with
  | nil => rfl
  | cons a s ih =>
    have hfirst := h 0 (Nat.succ_pos _)
    rw [List.drop_zero] at hfirst
    rw [erase, eraseFrom, hfirst]
    refine congrArg (a :: ·) (ih fun i hi => ?_)
    have hnext := h (i + 1) (Nat.succ_lt_succ hi)
    rwa [List.drop_succ_cons] at hnext

/-- What begins a code and does not end it has no code. -/
theorem erase_of_begins {t₁ t₂ : List α} (ht₂ : t₂ ≠ [])
    (h : C.code (t₁ ++ t₂) = some (t₁ ++ t₂).length) : C.erase t₁ = t₁ := by
  have hlt : t₁.length < (t₁ ++ t₂).length := by
    rw [List.length_append]
    exact Nat.lt_add_of_pos_right (List.length_pos_of_ne_nil ht₂)
  refine erase_eq_self fun i hi => ?_
  rw [Option.eq_none_iff_forall_ne_some]
  intro k hk
  have hlonger := C.append hk t₂
  rw [← List.drop_append_of_le_length (Nat.le_of_lt hi)] at hlonger
  cases i with
  | zero =>
    rw [List.drop_zero, h] at hlonger
    rw [List.drop_zero] at hk
    have hbound := (C.bounds hk).2
    have hlength := Option.some.inj hlonger
    omega
  | succ i =>
    have hnone := C.within h (Nat.succ_pos i) (Nat.lt_trans hi hlt) []
    rw [List.take_length, List.append_nil, hlonger] at hnone
    cases hnone

/-- Of a code that is split, the first piece keeps what it has. -/
theorem erase_of_splits (h : C.Splits a b) : ∃ p t₁ t₂, t₁ ≠ [] ∧ t₂ ≠ [] ∧
    C.code (t₁ ++ t₂) = some (t₁ ++ t₂).length ∧ C.erase a = C.erase p ++ t₁ := by
  obtain ⟨p, t₁, t₂, q, rfl, rfl, ht₁, ht₂, hcode⟩ := h
  have hwhole : ¬ C.Splits p t₁ := by
    rintro ⟨p', u₁, u₂, q', rfl, rfl, hu₁, hu₂, hother⟩
    have hnone := C.within hother (List.length_pos_of_ne_nil hu₁) (by
      rw [List.length_append]
      exact Nat.lt_add_of_pos_right (List.length_pos_of_ne_nil hu₂)) (q' ++ t₂)
    rw [List.take_length, List.drop_left, ← List.append_assoc, hcode] at hnone
    cases hnone
  exact ⟨p, t₁, t₂, ht₁, ht₂, hcode, by rw [erase_append hwhole, erase_of_begins ht₂ hcode]⟩

end Codes
end NetRollout
