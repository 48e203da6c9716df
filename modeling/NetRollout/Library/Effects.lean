import Mathlib.Logic.Function.Basic

/-!
# Programs that raise

A program over a state `σ` that may raise an `ε` is an `EStateM ε σ α`: a
function of the state that ends either with a value or with an exception, and in
either case leaves a state.  Nothing is undone by an exception.

This file adds to the monad what a language with `try`, `finally` and `with`
needs, and four ways of speaking of such a program without running it:

* what it *raises* has a property, and it is *total* when it raises nothing;
* it *keeps* a property of the state when the property survives it, raised or not;
* it *ends* from a property in another when it raises nothing there and leaves the other;
* it is *alike* under a relation of states when two runs from related states end
  the same way, in related states.

Each passes through sequencing, so that a long program has it as soon as its
primitive steps have.
-/

namespace NetRollout
namespace Effects

variable {ε ε' σ τ α β : Type}

/-- The state a run left. -/
def left : EStateM.Result ε σ α → σ
  | .ok _ s => s
  | .error _ s => s

/-- `try: x except e: handler e`.  The handler goes on from the state the
exception left. -/
def attempt (x : EStateM ε σ α) (handler : ε → EStateM ε' σ α) : EStateM ε' σ α := fun s =>
  match x s with
  | .ok a s' => .ok a s'
  | .error e s' => handler e s'

/-- `try: x finally: after`.  What `after` raises replaces the outcome of `x`. -/
def ensure (x : EStateM ε σ α) (after : EStateM ε σ Unit) : EStateM ε σ α := fun s =>
  match x s with
  | .ok a s' =>
    match after s' with
    | .ok _ s'' => .ok a s''
    | .error e s'' => .error e s''
  | .error e s' =>
    match after s' with
    | .ok _ s'' => .error e s''
    | .error e' s'' => .error e' s''

/-- `if c: x`. -/
def onlyIf (c : Bool) (x : EStateM ε σ Unit) : EStateM ε σ Unit := bif c then x else pure ()

/-- A program on a part of the state, and on what it raises under another name. -/
def zoom (part : τ → σ) (put : σ → τ → τ) (name : ε → ε') (x : EStateM ε σ α) :
    EStateM ε' τ α := fun t =>
  match x (part t) with
  | .ok a s => .ok a (put s t)
  | .error e s => .error (name e) (put s t)

/-! ## Running -/

theorem bind_of_ok {x : EStateM ε σ α} {f : α → EStateM ε σ β} {s s' : σ} {a : α}
    (h : x s = .ok a s') : (x >>= f) s = f a s' := by
  show EStateM.bind x f s = f a s'
  rw [EStateM.bind, h]

theorem bind_of_error {x : EStateM ε σ α} {f : α → EStateM ε σ β} {s s' : σ} {e : ε}
    (h : x s = .error e s') : (x >>= f) s = .error e s' := by
  show EStateM.bind x f s = .error e s'
  rw [EStateM.bind, h]

/-- What is read is the state gone on from. -/
theorem get_bind (f : σ → EStateM ε σ β) (s : σ) : (MonadState.get >>= f) s = f s s := rfl

theorem attempt_of_ok {x : EStateM ε σ α} {handler : ε → EStateM ε' σ α} {s s' : σ} {a : α}
    (h : x s = .ok a s') : attempt x handler s = .ok a s' := by
  rw [attempt, h]

theorem attempt_of_error {x : EStateM ε σ α} {handler : ε → EStateM ε' σ α} {s s' : σ} {e : ε}
    (h : x s = .error e s') : attempt x handler s = handler e s' := by
  rw [attempt, h]

/-! ## What a program raises -/

/-- Whatever `x` raises has the property. -/
def Raises (P : ε → Prop) (x : EStateM ε σ α) : Prop := ∀ s e s', x s = .error e s' → P e

variable {P : ε → Prop}

theorem Raises.pure (a : α) : Raises P (Pure.pure a : EStateM ε σ α) := by
  intro s e s' h
  cases h

theorem Raises.modify (f : σ → σ) : Raises P (modify f : EStateM ε σ Unit) := by
  intro s e s' h
  cases h

theorem Raises.raise {e : ε} (h : P e) : Raises P (throw e : EStateM ε σ α) := by
  intro s e' s' heq
  cases heq
  exact h

theorem Raises.bind {x : EStateM ε σ α} {f : α → EStateM ε σ β} (hx : Raises P x)
    (hf : ∀ a, Raises P (f a)) : Raises P (x >>= f) := by
  intro s e s' heq
  cases h : x s with
  | ok a t => exact hf a t e s' (by rwa [bind_of_ok h] at heq)
  | error e' t =>
    rw [bind_of_error h] at heq
    cases heq
    exact hx s _ _ h

theorem Raises.attempt {Q : ε' → Prop} {x : EStateM ε σ α} {handler : ε → EStateM ε' σ α}
    (hhandler : ∀ e, Raises Q (handler e)) : Raises Q (attempt x handler) := by
  intro s e s' heq
  cases h : x s with
  | ok a t =>
    rw [attempt_of_ok h] at heq
    cases heq
  | error e' t => exact hhandler e' t e s' (by rwa [attempt_of_error h] at heq)

/-- No state makes `x` raise. -/
def Total (x : EStateM ε σ α) : Prop := Raises (fun _ => False) x

theorem Total.exists_ok {x : EStateM ε σ α} (hx : Total x) (s : σ) : ∃ a s', x s = .ok a s' := by
  cases h : x s with
  | ok a s' => exact ⟨a, s', rfl⟩
  | error e s' => exact (hx s e s' h).elim

/-- A program whose end cannot raise ends as the program does. -/
theorem ensure_of_total {x : EStateM ε σ α} {after : EStateM ε σ Unit} (hafter : Total after)
    (s : σ) : ensure x after s = match x s with
      | .ok a t => .ok a (left (after t))
      | .error e t => .error e (left (after t)) := by
  cases h : x s with
  | ok a t =>
    obtain ⟨u, s', ha⟩ := hafter.exists_ok t
    simp only [ensure, h, ha, left]
  | error e t =>
    obtain ⟨u, s', ha⟩ := hafter.exists_ok t
    simp only [ensure, h, ha, left]

/-! ## Properties of the state that survive -/

/-- The property survives `x`, raised or not. -/
def Keeps (I : σ → Prop) (x : EStateM ε σ α) : Prop := ∀ s, I s → I (left (x s))

variable {I : σ → Prop}

theorem Keeps.pure (a : α) : Keeps I (Pure.pure a : EStateM ε σ α) := fun _ h => h

theorem Keeps.raise (e : ε) : Keeps I (throw e : EStateM ε σ α) := fun _ h => h

theorem Keeps.modify {f : σ → σ} (h : ∀ s, I s → I (f s)) :
    Keeps I (modify f : EStateM ε σ Unit) := h

theorem Keeps.bind {x : EStateM ε σ α} {f : α → EStateM ε σ β} (hx : Keeps I x)
    (hf : ∀ a, Keeps I (f a)) : Keeps I (x >>= f) := by
  intro s hs
  have hleft := hx s hs
  cases h : x s with
  | ok a s' =>
    rw [bind_of_ok h]
    rw [h] at hleft
    exact hf a s' hleft
  | error e s' =>
    rw [bind_of_error h]
    rwa [h] at hleft

theorem Keeps.attempt {x : EStateM ε σ α} {handler : ε → EStateM ε' σ α} (hx : Keeps I x)
    (hhandler : ∀ e, Keeps I (handler e)) : Keeps I (attempt x handler) := by
  intro s hs
  have hleft := hx s hs
  cases h : x s with
  | ok a s' =>
    rw [attempt_of_ok h]
    rwa [h] at hleft
  | error e s' =>
    rw [attempt_of_error h]
    rw [h] at hleft
    exact hhandler e s' hleft

theorem Keeps.ensure {x : EStateM ε σ α} {after : EStateM ε σ Unit} (hx : Keeps I x)
    (hafter : Keeps I after) : Keeps I (ensure x after) := by
  intro s hs
  have hleft := hx s hs
  cases h : x s with
  | ok a t =>
    rw [h] at hleft
    have hend := hafter t hleft
    cases ha : after t <;> simpa only [Effects.ensure, h, ha, left] using hend
  | error e t =>
    rw [h] at hleft
    have hend := hafter t hleft
    cases ha : after t <;> simpa only [Effects.ensure, h, ha, left] using hend

/-! ## Programs that end well -/

/-- The program raises nothing, and the property survives it. -/
structure Settles (I : σ → Prop) (x : EStateM ε σ α) : Prop where
  total : Total x
  keeps : Keeps I x

namespace Settles

theorem run {x : EStateM ε σ α} (h : Settles I x) {s : σ} (hs : I s) :
    ∃ a s', x s = .ok a s' ∧ I s' := by
  obtain ⟨a, s', hrun⟩ := h.total.exists_ok s
  have hleft := h.keeps s hs
  rw [hrun] at hleft
  exact ⟨a, s', hrun, hleft⟩

theorem pure (a : α) : Settles I (Pure.pure a : EStateM ε σ α) := ⟨.pure a, .pure a⟩

theorem modify {f : σ → σ} (h : ∀ s, I s → I (f s)) :
    Settles I (modify f : EStateM ε σ Unit) :=
  ⟨.modify f, .modify h⟩

theorem bind {x : EStateM ε σ α} {f : α → EStateM ε σ β} (hx : Settles I x)
    (hf : ∀ a, Settles I (f a)) : Settles I (x >>= f) :=
  ⟨hx.total.bind fun a => (hf a).total, hx.keeps.bind fun a => (hf a).keeps⟩

theorem onlyIf {x : EStateM ε σ Unit} (c : Bool) (hx : Settles I x) : Settles I (onlyIf c x) := by
  cases c
  · exact pure ()
  · exact hx

theorem ite {c : Prop} [Decidable c] {x y : EStateM ε σ α} (hx : Settles I x)
    (hy : Settles I y) : Settles I (if c then x else y) := by
  split
  · exact hx
  · exact hy

theorem attempt {x : EStateM ε σ α} {handler : ε → EStateM ε' σ α} (hx : Keeps I x)
    (hhandler : ∀ e, Settles I (handler e)) : Settles I (attempt x handler) :=
  ⟨.attempt fun e => (hhandler e).total, hx.attempt fun e => (hhandler e).keeps⟩

end Settles

/-! ## Where a program ends -/

/-- From a state with `I` the program ends with a value, in a state with what `J` says of it. -/
def Ends (I : σ → Prop) (x : EStateM ε σ α) (J : α → σ → Prop) : Prop :=
  ∀ s, I s → ∃ a s', x s = .ok a s' ∧ J a s'

namespace Ends

variable {J K : α → σ → Prop} {L : β → σ → Prop}

theorem pure {a : α} (h : ∀ s, I s → J a s) : Ends I (Pure.pure a : EStateM ε σ α) J :=
  fun s hs => ⟨a, s, rfl, h s hs⟩

theorem modify {f : σ → σ} {J : Unit → σ → Prop} (h : ∀ s, I s → J () (f s)) :
    Ends I (modify f : EStateM ε σ Unit) J :=
  fun s hs => ⟨(), f s, rfl, h s hs⟩

theorem bind {x : EStateM ε σ α} {f : α → EStateM ε σ β} (hx : Ends I x J)
    (hf : ∀ a, Ends (J a) (f a) L) : Ends I (x >>= f) L := by
  intro s hs
  obtain ⟨a, t, hrun, ht⟩ := hx s hs
  rw [bind_of_ok hrun]
  exact hf a t ht

/-- The state read is the one the rest goes on from. -/
theorem get {f : σ → EStateM ε σ β} (hf : ∀ t, I t → Ends (· = t) (f t) L) :
    Ends I (MonadState.get >>= f) L :=
  fun s hs => hf s hs s rfl

theorem mono {I' : σ → Prop} {x : EStateM ε σ α} (hx : Ends I x J) (hI : ∀ s, I' s → I s)
    (hJ : ∀ a s, J a s → K a s) : Ends I' x K := by
  intro s hs
  obtain ⟨a, t, hrun, ht⟩ := hx s (hI s hs)
  exact ⟨a, t, hrun, hJ a t ht⟩

/-- A loop keeps what each turn keeps. -/
theorem forM {f : α → EStateM ε σ Unit} {as : List α}
    (hf : ∀ a ∈ as, Ends I (f a) fun _ => I) : Ends I (as.forM f) fun _ => I := by
  induction as with
  | nil => exact pure fun _ hs => hs
  | cons a as ih =>
    show Ends I (f a >>= fun _ => as.forM f) _
    exact bind (hf a List.mem_cons_self) fun _ => ih fun b hb => hf b (List.mem_cons_of_mem a hb)

end Ends

theorem Keeps.trivial (x : EStateM ε σ α) : Keeps (fun _ => True) x := fun _ _ => True.intro

/-! ## Two runs -/

/-- Two runs ended the same way, in related states. -/
def SameEnd (R : σ → σ → Prop) : EStateM.Result ε σ α → EStateM.Result ε σ α → Prop
  | .ok a s, .ok b t => a = b ∧ R s t
  | .error e s, .error e' t => e = e' ∧ R s t
  | _, _ => False

/-- Runs of `x` from related states end the same way, in related states. -/
def Alike (R : σ → σ → Prop) (x : EStateM ε σ α) : Prop := ∀ s t, R s t → SameEnd R (x s) (x t)

variable {R : σ → σ → Prop}

theorem Alike.pure (a : α) : Alike R (Pure.pure a : EStateM ε σ α) := fun _ _ h => ⟨rfl, h⟩

theorem Alike.raise (e : ε) : Alike R (throw e : EStateM ε σ α) := fun _ _ h => ⟨rfl, h⟩

theorem Alike.modify {f : σ → σ} (h : ∀ s t, R s t → R (f s) (f t)) :
    Alike R (modify f : EStateM ε σ Unit) := fun s t hst => ⟨rfl, h s t hst⟩

theorem Alike.bind {x : EStateM ε σ α} {f : α → EStateM ε σ β} (hx : Alike R x)
    (hf : ∀ a, Alike R (f a)) : Alike R (x >>= f) := by
  intro s t hst
  have hend := hx s t hst
  cases h : x s with
  | ok a s' =>
    cases h' : x t with
    | ok b t' =>
      rw [h, h'] at hend
      obtain ⟨rfl, hst'⟩ := hend
      rw [bind_of_ok h, bind_of_ok h']
      exact hf a s' t' hst'
    | error e t' => simp only [h, h', SameEnd] at hend
  | error e s' =>
    cases h' : x t with
    | ok b t' => simp only [h, h', SameEnd] at hend
    | error e' t' =>
      rw [h, h'] at hend
      rw [bind_of_error h, bind_of_error h']
      exact hend

theorem Alike.attempt {x : EStateM ε σ α} {handler : ε → EStateM ε' σ α} (hx : Alike R x)
    (hhandler : ∀ e, Alike R (handler e)) : Alike R (attempt x handler) := by
  intro s t hst
  have hend := hx s t hst
  cases h : x s with
  | ok a s' =>
    cases h' : x t with
    | ok b t' =>
      rw [h, h'] at hend
      rw [attempt_of_ok h, attempt_of_ok h']
      exact hend
    | error e t' => simp only [h, h', SameEnd] at hend
  | error e s' =>
    cases h' : x t with
    | ok b t' => simp only [h, h', SameEnd] at hend
    | error e' t' =>
      rw [h, h'] at hend
      obtain ⟨rfl, hst'⟩ := hend
      rw [attempt_of_error h, attempt_of_error h']
      exact hhandler e s' t' hst'

end Effects
end NetRollout
