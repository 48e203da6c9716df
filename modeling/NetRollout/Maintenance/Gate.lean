import NetRollout.Jobs.Lifecycle

/-!
# Maintenance and its gate

`Maintenance` of `src/webapp/lifecycle.py`, and what it and the database's move ask of
the orchestrator: whether it is idle, what it counts, and what a `submit()` raises.

Each method of `Maintenance` is one block under its lock.  The orchestrator's `pause`
and `resume` at the end of `begin` and `end` take the orchestrator's own lock inside;
no one else looks at both in between, so they are part of the same step.
-/

namespace NetRollout

/-! ## What the orchestrator answers -/

namespace Jobs

/-- The exceptions a `submit()` raises before it makes a job. -/
inductive Refusal where
  | draining
  | paused
  | deviceBusy
  deriving DecidableEq

namespace State

variable {Target Device : Type} (s : State Target Device)

/-- `idle`. -/
def idle : Bool := s.jobs.all (fun job => !job.listed) && s.saving == 0

/-- `counts`: whether any job is queued or running. -/
def counted : Bool := s.jobs.any Job.listed

/-- `_refuse_if_closed`. -/
def refuseIfClosed : Option Refusal :=
  if s.draining then some .draining else if s.paused then some .paused else none

variable [DecidableEq Target]

/-- What `submit()` raises under the lock. -/
def refusal (devices : List Device) (target : Device → Target) : Option Refusal :=
  match s.refuseIfClosed with
  | some refusal => some refusal
  | none => if s.busy (devices.map target).dedup then some .deviceBusy else none

/-- A `submit()` that raises under the lock changes nothing. -/
theorem submit_of_refusal {devices : List Device} {target : Device → Target}
    (h : s.refusal devices target ≠ none) (commands : List PyText.Str) :
    s.submit devices target commands = s := by
  unfold submit
  dsimp only
  split
  · rfl
  · next hopen =>
    simp only [Bool.or_eq_true, not_or, Bool.not_eq_true] at hopen
    obtain ⟨⟨hdraining, hpaused⟩, hbusy⟩ := hopen
    refine absurd ?_ h
    simp [refusal, refuseIfClosed, hdraining, hpaused, hbusy]

/-- Paused, with no stop or restart begun. -/
theorem refusal_of_paused (hpaused : s.paused = true) (hdraining : s.draining = false)
    (devices : List Device) (target : Device → Target) :
    s.refusal devices target = some .paused := by
  simp [refusal, refuseIfClosed, hpaused, hdraining]

end State
end Jobs

/-! ## Maintenance -/

namespace Maintenance

/-- `MaintenanceState`. -/
inductive MaintenanceState where
  | idle
  | waiting
  | locked
  deriving DecidableEq

/-- `Maintenance`: its state, and the counted requests being answered. -/
structure Gate where
  state : MaintenanceState
  underWay : Nat
  deriving DecidableEq

namespace Gate

def init : Gate := ⟨.idle, 0⟩

variable (g : Gate)

/-- `active`. -/
def active : Bool := g.state ≠ .idle

/-- `writes_blocked`. -/
def writesBlocked : Bool := g.state = .locked

/-- `begin`: `none` when something is under way already. -/
def begin_ : Option Gate := if g.state ≠ .idle then none else some { g with state := .waiting }

/-- `lock`, asked while the orchestrator is idle or not: `none`, still waiting. -/
def lock (orchestratorIdle : Bool) : Option Gate :=
  if g.state ≠ .waiting then none
  else if g.underWay ≠ 0 || !orchestratorIdle then none
  else some { g with state := .locked }

/-- `enter`: `none`, refused. -/
def enter : Option Gate :=
  if g.state = .locked then none else some { g with underWay := g.underWay + 1 }

/-- `leave`. -/
def leave : Gate := { g with underWay := g.underWay - 1 }

/-- `end`. -/
def end_ : Gate := { g with state := .idle }

variable {g}

theorem begin_eq {g' : Gate} (h : g.begin_ = some g') :
    g.state = .idle ∧ g' = { g with state := .waiting } := by
  unfold begin_ at h
  split at h
  · cases h
  · next hidle => exact ⟨not_not.mp hidle, (Option.some.inj h).symm⟩

/-- **What a lock rests on.** -/
theorem lock_eq {orchestratorIdle : Bool} {g' : Gate} (h : g.lock orchestratorIdle = some g') :
    g.state = .waiting ∧ g.underWay = 0 ∧ orchestratorIdle = true ∧
      g' = { g with state := .locked } := by
  unfold lock at h
  split at h
  · cases h
  · next hwaiting =>
    split at h
    · cases h
    · next hquiet =>
      simp only [ne_eq, Bool.or_eq_true, decide_eq_true_eq, Bool.not_eq_true', not_or, not_not,
        Bool.not_eq_false] at hquiet
      exact ⟨not_not.mp hwaiting, hquiet.1, hquiet.2, (Option.some.inj h).symm⟩

theorem enter_eq {g' : Gate} (h : g.enter = some g') :
    g.state ≠ .locked ∧ g' = { g with underWay := g.underWay + 1 } := by
  unfold enter at h
  split at h
  · cases h
  · next hopen => exact ⟨hopen, (Option.some.inj h).symm⟩

end Gate
end Maintenance
end NetRollout
