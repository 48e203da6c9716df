import Mathlib.Algebra.Group.Defs
import Mathlib.Data.Option.Basic
import Mathlib.Logic.Basic

/-!
# Runs of a transition system

A system is a set of initial states and a partial step function: the step an
action names, where it is enabled.  A condition `allowed` on the steps, on the
state before and the action, singles out the runs whose steps all meet it; with
the condition that always holds, these are all runs.

`exec` runs a list of actions, so that a concrete run is a computation, and
`Reachable.invariant` is the rule every safety property rests on: what holds
initially and survives each allowed step holds in every state such a run reaches.
-/

namespace NetRollout

/-- Initial states, and the step of each action where it is enabled. -/
structure System (σ α : Type) where
  Init : σ → Prop
  step : σ → α → Option σ

namespace System

variable {σ α : Type} (S : System σ α)

/-- Runs the actions from a state, as far as each is allowed and enabled. -/
def exec (allowed : σ → α → Bool) : σ → List α → Option σ
  | s, [] => some s
  | s, a :: as => if allowed s a then (S.step s a).bind fun s' => exec allowed s' as else none

/-- Every step is allowed. -/
def always : σ → α → Bool := fun _ _ => true

/-- The states that runs reach whose steps are all allowed. -/
def Reachable (allowed : σ → α → Bool) (s : σ) : Prop :=
  ∃ s₀ as, S.Init s₀ ∧ S.exec allowed s₀ as = some s

variable {S} {allowed : σ → α → Bool}

theorem exec_cons {s s' : σ} {a : α} {as : List α} :
    S.exec allowed s (a :: as) = some s' ↔
      allowed s a = true ∧ ∃ t, S.step s a = some t ∧ S.exec allowed t as = some s' := by
  rw [exec]
  split
  · next h => simp only [h, true_and, Option.bind_eq_some_iff]
  · next h => simp only [h, reduceCtorEq, Bool.false_eq_true, false_and]

/-- Runs under a condition keep what their steps keep. -/
theorem exec_invariant {I : σ → Prop}
    (hstep : ∀ s a s', allowed s a = true → I s → S.step s a = some s' → I s') {s s' : σ}
    {as : List α} (hs : I s) (h : S.exec allowed s as = some s') : I s' := by
  induction as generalizing s with
  | nil =>
    rw [exec, Option.some.injEq] at h
    exact h ▸ hs
  | cons a as ih =>
    obtain ⟨hallowed, t, ht, hrest⟩ := exec_cons.mp h
    exact ih (hstep s a t hallowed hs ht) hrest

theorem exec_concat {s t s' : σ} {as : List α} {a : α} (hrun : S.exec allowed s as = some t)
    (hallowed : allowed t a = true) (hstep : S.step t a = some s') :
    S.exec allowed s (as ++ [a]) = some s' := by
  induction as generalizing s with
  | nil =>
    rw [exec, Option.some.injEq] at hrun
    subst hrun
    exact exec_cons.mpr ⟨hallowed, s', hstep, rfl⟩
  | cons b as ih =>
    obtain ⟨hb, u, hu, hrest⟩ := exec_cons.mp hrun
    exact exec_cons.mpr ⟨hb, u, hu, ih hrest⟩

/-- A run that is a computation, and what it ends in. -/
theorem exists_reachable {s₀ : σ} {as : List α} {p : σ → Bool} (hs₀ : S.Init s₀)
    (h : (S.exec allowed s₀ as).any p = true) : ∃ s, S.Reachable allowed s ∧ p s = true := by
  obtain ⟨s, hrun, hp⟩ := (Option.any_eq_true _ _).mp h
  exact ⟨s, ⟨s₀, as, hs₀, hrun⟩, hp⟩

theorem Reachable.step {s s' : σ} {a : α} (h : S.Reachable allowed s)
    (hallowed : allowed s a = true) (hstep : S.step s a = some s') : S.Reachable allowed s' := by
  obtain ⟨s₀, as, hs₀, hrun⟩ := h
  exact ⟨s₀, as ++ [a], hs₀, exec_concat hrun hallowed hstep⟩

/-- **The invariant rule.**  A step may be taken to start in a reachable state. -/
theorem Reachable.invariant {I : σ → Prop} (hinit : ∀ s, S.Init s → I s)
    (hstep : ∀ s a s', S.Reachable allowed s → allowed s a = true → I s →
      S.step s a = some s' → I s') {s : σ} (h : S.Reachable allowed s) : I s := by
  obtain ⟨s₀, as, hs₀, hrun⟩ := h
  have hboth : S.Reachable allowed s ∧ I s := by
    refine exec_invariant (fun s a s' hallowed hs hstep' => ?_)
      (I := fun s => S.Reachable allowed s ∧ I s) ⟨⟨s₀, [], hs₀, rfl⟩, hinit s₀ hs₀⟩ hrun
    exact ⟨hs.1.step hallowed hstep', hstep s a s' hs.1 hallowed hs.2 hstep'⟩
  exact hboth.2

/-! ## Counts along a run -/

section Count

variable {M : Type*} [AddMonoid M]

/-- What the steps of a run add up to. -/
def count (S : System σ α) (f : σ → α → M) : σ → List α → M
  | _, [] => 0
  | s, a :: as => f s a + ((S.step s a).map fun s' => S.count f s' as).getD 0

/-- **The rule for counts**: a relation between a count and the state that holds at first,
and that each step keeps as it adds to the count, holds at the end of every run. -/
theorem Reachable.count {f : σ → α → M} {I : M → σ → Prop} {s₀ s : σ} {as : List α}
    (hs₀ : S.Init s₀) (h₀ : I 0 s₀)
    (hstep : ∀ n s a s', S.Reachable allowed s → allowed s a = true → I n s →
      S.step s a = some s' → I (n + f s a) s')
    (h : S.exec allowed s₀ as = some s) : I (S.count f s₀ as) s := by
  suffices hgen : ∀ n t, S.Reachable allowed t → I n t → S.exec allowed t as = some s →
      I (n + S.count f t as) s by
    have hall := hgen 0 s₀ ⟨s₀, [], hs₀, rfl⟩ h₀ h
    rwa [zero_add] at hall
  clear h
  induction as with
  | nil =>
    intro n t _ hn hrun
    rw [exec, Option.some.injEq] at hrun
    subst hrun
    rwa [System.count, add_zero]
  | cons a as ih =>
    intro n t ht hn hrun
    obtain ⟨hallowed, u, hu, hrest⟩ := exec_cons.mp hrun
    have hnext := ih (n + f t a) u (ht.step hallowed hu) (hstep n t a u ht hallowed hn hu) hrest
    rw [System.count, hu, Option.map_some, Option.getD_some]
    rwa [add_assoc] at hnext

end Count

end System
end NetRollout
