import NetRollout.Library.ListUpdate
import NetRollout.Library.Transition
import NetRollout.Maintenance.Gate

/-!
# The database move

`DatabaseMove` of `src/webapp/db_move.py`: successive moves over the one status object and
the one cancel flag of the process.  `start()` and the worker's `_run` are followed line by
line, from `begin` returning true to the worker's last write; a `cancel()` is its look at the
status and, if that says waiting, the setting of the flag.  What the lock depends on besides
the gate --- whether the orchestrator is idle --- is the world's to say, as are the deadline,
the copy's outcome and the switch's.

Each move keeps, beside where it stands, whether a `cancel()` returned true for it, whether a
row was copied to its target, and whether the app was switched to it; the status keeps which
move's `start()` made it.  The move's texts are left out.

## What goes wrong, and when

The worker asks for the lock before it looks at the flag, so a cancel that comes before a
lock that succeeds, or between it and the status it is shown by, is accepted and not heard.
And a worker ends maintenance before it writes its outcome, by which time the status may be
the next move's.  `unhurried` is the condition on the steps under which neither happens.
-/

namespace NetRollout
namespace Maintenance

/-! ## A move -/

/-- `MoveState`. -/
inductive MoveState where
  | idle
  | waiting
  | copying
  | switching
  | done
  | failed
  | cancelled
  deriving DecidableEq

/-- Where a move's `start()`, and then its worker, stands. -/
inductive Stage where
  /-- `start()` after `begin`: before the flag is cleared, the new status, the audit row, and
  the worker's thread. -/
  | begun
  | cleared
  | announced
  | audited
  /-- The worker before `lock`; after one that failed, before the flag; and before the
  deadline. -/
  | trying
  | refused
  | waiting
  /-- Locked, before the status says so; in the copy; before the status says switching; and
  before the switch. -/
  | locked
  | copying
  | copied
  | switching
  /-- In the `finally`: before `end`, before the audit row, before the status. -/
  | ending (outcome : MoveState)
  | auditing (outcome : MoveState)
  | concluding (outcome : MoveState)
  | over
  deriving DecidableEq

/-- `_status`: which move's it is, its state and its target. -/
structure MoveStatus (Target : Type) where
  move : Option Nat
  state : MoveState
  target : Option Target

structure Move (Target : Type) where
  target : Target
  stage : Stage := .begun
  /-- A `cancel()` returned true for it. -/
  cancelled : Bool := false
  /-- A row was copied to its target. -/
  copied : Bool := false
  /-- The app was switched to its target. -/
  switched : Bool := false

/-- What the moves share. -/
structure Shared (Target : Type) where
  gate : Gate
  paused : Bool
  flag : Bool
  status : MoveStatus Target

/-- What a move does next. -/
inductive MoveEvent where
  /-- Its next line. -/
  | on
  /-- The worker asks for the lock, the orchestrator being idle or not. -/
  | lock (idle : Bool)
  /-- The deadline has passed. -/
  | giveUp
  /-- The copy copies a row, reports a step, and is done. -/
  | row
  | report
  | copied
  | switched
  /-- The copy or the switch raises. -/
  | fail

namespace Move

variable {Target : Type}

/-- A move's next line, which depends on nothing outside. -/
def next (m : Nat) (sh : Shared Target) (mv : Move Target) : Option (Move Target × Shared Target) :=
  match mv.stage with
  | .begun => some ({ mv with stage := .cleared }, { sh with flag := false })
  | .cleared =>
    some ({ mv with stage := .announced }, { sh with status := ⟨some m, .waiting, some mv.target⟩ })
  | .announced => some ({ mv with stage := .audited }, sh)
  | .audited => some ({ mv with stage := .trying }, sh)
  | .refused => some ({ mv with stage := if sh.flag then .ending .cancelled else .waiting }, sh)
  | .waiting => some ({ mv with stage := .trying }, sh)
  | .locked =>
    some ({ mv with stage := .copying }, { sh with status := { sh.status with state := .copying } })
  | .copied =>
    some ({ mv with stage := .switching },
      { sh with status := { sh.status with state := .switching } })
  | .ending outcome =>
    some ({ mv with stage := .auditing outcome }, { sh with gate := sh.gate.end_, paused := false })
  | .auditing outcome => some ({ mv with stage := .concluding outcome }, sh)
  | .concluding outcome =>
    some ({ mv with stage := .over }, { sh with status := { sh.status with state := outcome } })
  | _ => none

/-- The next step of a move. -/
def step (m : Nat) (sh : Shared Target) (mv : Move Target) :
    MoveEvent → Option (Move Target × Shared Target)
  | .on => mv.next m sh
  | .lock idle =>
    match mv.stage, sh.gate.lock idle with
    | .trying, some g => some ({ mv with stage := .locked }, { sh with gate := g })
    | .trying, none => some ({ mv with stage := .refused }, sh)
    | _, _ => none
  | .giveUp => if mv.stage = .waiting then some ({ mv with stage := .ending .failed }, sh) else none
  | .row => if mv.stage = .copying then some ({ mv with copied := true }, sh) else none
  | .report =>
    if mv.stage = .copying then
      some (mv, { sh with status := { sh.status with state := .copying } })
    else none
  | .copied => if mv.stage = .copying then some ({ mv with stage := .copied }, sh) else none
  | .switched =>
    if mv.stage = .switching then some ({ mv with stage := .ending .done, switched := true }, sh)
    else none
  | .fail =>
    if mv.stage = .copying ∨ mv.stage = .switching then
      some ({ mv with stage := .ending .failed }, sh)
    else none

end Move

/-! ## The moves of a process -/

structure Mover (Target : Type) where
  shared : Shared Target
  moves : List (Move Target)
  /-- The `cancel()` calls that found a status waiting, with its move, until they set the
  flag. -/
  cancels : List (Option Nat)

inductive MoverAction (Target : Type) where
  /-- A `start()` call up to `begin`, which returns true. -/
  | start (target : Target)
  | move (m : Nat) (e : MoveEvent)
  /-- A `cancel()` call looks at the status. -/
  | cancel
  /-- It sets the flag, and returns true. -/
  | set (c : Nat)
  /-- Requests come and go. -/
  | enter
  | leave

namespace Mover

variable {Target : Type}

def init : Mover Target := ⟨⟨.init, false, false, ⟨none, .idle, none⟩⟩, [], []⟩

/-- `start()`, when nothing is under way. -/
def start (s : Mover Target) (target : Target) : Option (Mover Target) :=
  s.shared.gate.begin_.map fun g =>
    { s with
      shared := { s.shared with gate := g, paused := true }
      moves := s.moves ++ [{ target }] }

/-- `cancel()` up to its look: not waiting, it returns false. -/
def cancel (s : Mover Target) : Mover Target :=
  if s.shared.status.state = .waiting then
    { s with cancels := s.cancels ++ [s.shared.status.move] }
  else s

/-- `cancel()` sets the flag. -/
def set (s : Mover Target) (c : Nat) : Option (Mover Target) :=
  match s.cancels[c]? with
  | some (some m) =>
    some { s with
      shared := { s.shared with flag := true }
      moves := s.moves.modify m fun mv => { mv with cancelled := true }
      cancels := s.cancels.set c none }
  | _ => none

def step (s : Mover Target) : MoverAction Target → Option (Mover Target)
  | .start target => s.start target
  | .move m e => do
    let mv ← s.moves[m]?
    let (mv', sh) ← mv.step m s.shared e
    some { s with shared := sh, moves := s.moves.set m mv' }
  | .cancel => some s.cancel
  | .set c => s.set c
  | .enter => s.shared.gate.enter.map fun g => { s with shared := { s.shared with gate := g } }
  | .leave => some { s with shared := { s.shared with gate := s.shared.gate.leave } }

end Mover

def mover (Target : Type) : System (Mover Target) (MoverAction Target) where
  Init s := s = .init
  step := Mover.step

/-! ## The stages of a move -/

namespace Stage

/-- Between `begin` and `end`. -/
def underWay : Stage → Bool
  | auditing _ | concluding _ | .over => false
  | _ => true

/-- Its worker runs, and has not ended maintenance. -/
def working : Stage → Bool
  | trying | refused | waiting | locked | copying | copied | switching | ending _ => true
  | _ => false

/-- Its status has been made, and maintenance is not ended. -/
def shown (st : Stage) : Bool := st.working || st = .announced || st = .audited

/-- What its status says at a stage. -/
def shows : Stage → MoveState → Bool
  | copying, state | copied, state => state = .copying
  | switching, state => state = .switching
  | ending _, state => state = .waiting || state = .copying || state = .switching
  | _, state => state = .waiting

/-- Before the copy. -/
def early : Stage → Bool
  | begun | cleared | announced | audited | trying | refused | waiting | locked => true
  | _ => false

/-- A flag that is set will be looked at. -/
def polls : Stage → Bool
  | announced | audited | trying | refused | waiting => true
  | _ => false

/-- The outcome its worker has come to. -/
def outcome : Stage → Option MoveState
  | ending outcome | auditing outcome | concluding outcome => some outcome
  | _ => none

/-- Past a lock, and not over. -/
def proceeds : Stage → Bool
  | locked | copying | copied | switching => true
  | _ => false

end Stage

/-! ## Cancels that are heard -/

section Moves

variable {Target : Type}

/-- **A cancelled move never happens, and the status is the move's own.** -/
structure MovesKept (s : Mover Target) : Prop where
  cancelled : ∀ (m : Nat) (mv : Move Target), s.moves[m]? = some mv → mv.cancelled = true →
    mv.copied = false ∧ mv.switched = false
  /-- Its worker will see the flag, and end. -/
  heard : ∀ (m : Nat) (mv : Move Target), s.moves[m]? = some mv → mv.cancelled = true →
    mv.stage.proceeds = false ∧ (mv.stage.polls = true → s.shared.flag = true)
  /-- After its end rollouts are accepted, unless another move holds them back. -/
  resumed : ∀ (m : Nat) (mv : Move Target), s.moves[m]? = some mv → mv.cancelled = true →
    mv.stage.underWay = false → s.shared.paused = true →
    ∃ (m' : Nat) (mv' : Move Target), m' ≠ m ∧ s.moves[m']? = some mv' ∧
      mv'.stage.underWay = true
  status : ∀ (m : Nat) (mv : Move Target), s.moves[m]? = some mv → mv.stage.working = true →
    s.shared.status.target = some mv.target ∧
      (s.shared.status.state = .waiting ∨ s.shared.status.state = .copying ∨
        s.shared.status.state = .switching)

/-- No lock succeeds for a move a `cancel()` has looked at and found waiting, no `cancel()`
looks between a lock and the status that tells of it, and no worker writes its outcome over
another move's status. -/
def unhurried (s : Mover Target) : MoverAction Target → Bool
  | .move m (.lock idle) =>
    (s.shared.gate.lock idle).isNone ||
      (!(s.moves[m]?).any Move.cancelled && decide (some m ∉ s.cancels))
  | .move m .on =>
    (s.moves[m]?).all fun mv => match mv.stage with
      | .concluding _ => s.shared.status.move = some m
      | _ => true
  | .cancel => !(s.shared.status.move.bind fun m => s.moves[m]?).any fun mv => mv.stage = .locked
  | _ => true

/-- What holds of one move, whose cancel may be pending. -/
structure MoveSound (m : Nat) (mv : Move Target) (sh : Shared Target) (pending : Prop) : Prop where
  own : mv.stage.shown = true → sh.status.move = some m ∧ sh.status.target = some mv.target ∧
    mv.stage.shows sh.status.state = true
  since : sh.status.move = some m → mv.stage ≠ .begun ∧ mv.stage ≠ .cleared
  fresh : sh.status.move = some m → sh.status.state = .waiting →
    mv.copied = false ∧ mv.switched = false
  early : mv.stage.early = true → mv.copied = false ∧ mv.switched = false
  asked : mv.cancelled = true ∨ pending → mv.stage.proceeds = false ∧ mv.stage ≠ .begun ∧
    mv.stage ≠ .cleared ∧ mv.copied = false ∧ mv.switched = false
  flagged : mv.cancelled = true → mv.stage.polls = true → sh.flag = true
  outcome : mv.stage.outcome ≠ some .waiting

/-- The invariant: of each move, and that at most one is under way, which holds rollouts
back. -/
structure MoverSound (s : Mover Target) : Prop where
  each : ∀ (m : Nat) (mv : Move Target), s.moves[m]? = some mv →
    MoveSound m mv s.shared (some m ∈ s.cancels)
  one : ∀ (m m' : Nat) (mv mv' : Move Target), s.moves[m]? = some mv → s.moves[m']? = some mv' →
    mv.stage.underWay = true → mv'.stage.underWay = true → m = m'
  active : ∀ (m : Nat) (mv : Move Target), s.moves[m]? = some mv → mv.stage.underWay = true →
    s.shared.gate.active = true
  paused : s.shared.paused = true →
    ∃ (m : Nat) (mv : Move Target), s.moves[m]? = some mv ∧ mv.stage.underWay = true
  /-- A status is a move's that was made, and a pending cancel is of such a move. -/
  made : ∀ m, s.shared.status.move = some m → m < s.moves.length
  pending : ∀ m, some m ∈ s.cancels → m < s.moves.length

namespace MoveSound

variable {m : Nat} {mv mv' : Move Target} {sh sh' : Shared Target} {pending : Prop}

/-- A stage that asks no more than the one before, with the status and the flag as they were. -/
theorem goto (h : MoveSound m mv sh pending) {st st' : Stage} (hst : mv.stage = st)
    (hstatus : sh'.status = sh.status) (hflag : sh'.flag = sh.flag)
    (hshown : st'.shown = true → st.shown = true ∧ ∀ state, st.shows state = true →
      st'.shows state = true)
    (hlater : (st'.early = true → st.early = true) ∧ (st'.proceeds = true → st.proceeds = true) ∧
      (st'.polls = true → st.polls = true))
    (hnew : st' ≠ .begun ∧ st' ≠ .cleared) (hout : st'.outcome ≠ some .waiting) :
    MoveSound m { mv with stage := st' } sh' pending := by
  subst hst
  constructor
  · intro hs
    obtain ⟨hbefore, hshows⟩ := hshown hs
    obtain ⟨hmove, htarget, hstate⟩ := h.own hbefore
    rw [hstatus]
    exact ⟨hmove, htarget, hshows _ hstate⟩
  · exact fun _ => hnew
  · rw [hstatus]
    exact h.fresh
  · exact fun hearly => h.early (hlater.1 hearly)
  · intro hasked
    obtain ⟨hproceeds, -, -, hcopied, hswitched⟩ := h.asked hasked
    refine ⟨?_, hnew.1, hnew.2, hcopied, hswitched⟩
    by_contra hon
    rw [hlater.2.1 (Bool.not_eq_false _ ▸ hon)] at hproceeds
    cases hproceeds
  · intro hcancelled hpolls
    rw [hflag]
    exact h.flagged hcancelled (hlater.2.2 hpolls)
  · exact hout

/-- The status says that the move goes on: it is no longer waiting. -/
theorem tell (h : MoveSound m mv sh pending) {st st' : Stage} (hst : mv.stage = st)
    {state : MoveState} (hshown : st.shown = true) (hproceeds : st.proceeds = true)
    (hshows : st'.shows state = true) (hstate : state ≠ .waiting)
    (hlater : st'.early = false ∧ st'.polls = false) (hnew : st' ≠ .begun ∧ st' ≠ .cleared)
    (hout : st'.outcome = none) :
    MoveSound m { mv with stage := st' }
      { sh with status := { sh.status with state := state } } pending := by
  subst hst
  obtain ⟨hmove, htarget, -⟩ := h.own hshown
  constructor
  · exact fun _ => ⟨hmove, htarget, hshows⟩
  · exact fun _ => hnew
  · exact fun _ hwaiting => absurd hwaiting hstate
  · intro hearly
    rw [hlater.1] at hearly
    cases hearly
  · intro hasked
    rw [(h.asked hasked).1] at hproceeds
    cases hproceeds
  · intro _ hpolls
    rw [hlater.2] at hpolls
    cases hpolls
  · rw [hout]
    nofun

/-- A move's next line. -/
theorem on (h : MoveSound m mv sh pending)
    (hstep : mv.next m sh = some (mv', sh')) : MoveSound m mv' sh' pending := by
  unfold Move.next at hstep
  cases hst : mv.stage <;> simp only [hst, reduceCtorEq] at hstep <;> cases hstep
  case begun =>
    have hearly := h.early (by rw [hst]; rfl)
    have hnone : ¬ (mv.cancelled = true ∨ pending) := fun hasked => (h.asked hasked).2.1 hst
    exact ⟨nofun, fun hmove => absurd hst (h.since hmove).1, fun _ _ => hearly, fun _ => hearly,
      fun hasked => absurd hasked hnone, nofun, nofun⟩
  case cleared =>
    have hearly := h.early (by rw [hst]; rfl)
    have hnone : ¬ (mv.cancelled = true ∨ pending) := fun hasked => (h.asked hasked).2.2.1 hst
    exact ⟨fun _ => ⟨rfl, rfl, rfl⟩, fun _ => ⟨nofun, nofun⟩, fun _ _ => hearly, fun _ => hearly,
      fun hasked => absurd hasked hnone,
      fun hcancelled => absurd (.inl hcancelled) hnone, nofun⟩
  case announced | audited | waiting =>
    exact h.goto hst rfl rfl (fun _ => ⟨rfl, fun _ hs => hs⟩) ⟨id, id, id⟩ ⟨nofun, nofun⟩ nofun
  case refused =>
    split
    · refine h.goto hst rfl rfl (fun _ => ⟨rfl, fun state hs => ?_⟩) ⟨nofun, nofun, nofun⟩
        ⟨nofun, nofun⟩ nofun
      simp only [Stage.shows, decide_eq_true_eq] at hs
      simp [Stage.shows, hs]
    · exact h.goto hst rfl rfl (fun _ => ⟨rfl, fun _ hs => hs⟩) ⟨id, id, id⟩ ⟨nofun, nofun⟩ nofun
  case locked => exact h.tell hst rfl rfl rfl nofun ⟨rfl, rfl⟩ ⟨nofun, nofun⟩ rfl
  case copied => exact h.tell hst rfl rfl rfl nofun ⟨rfl, rfl⟩ ⟨nofun, nofun⟩ rfl
  case ending outcome =>
    have hout := h.outcome
    rw [hst] at hout
    exact h.goto hst rfl rfl nofun ⟨nofun, nofun, nofun⟩ ⟨nofun, nofun⟩ hout
  case auditing outcome =>
    have hout := h.outcome
    rw [hst] at hout
    exact h.goto hst rfl rfl nofun ⟨nofun, nofun, nofun⟩ ⟨nofun, nofun⟩ hout
  case concluding outcome =>
    have hout := h.outcome
    rw [hst] at hout
    refine ⟨nofun, fun _ => ⟨nofun, nofun⟩, fun _ hwaiting => ?_, nofun, fun hasked => ?_, nofun,
      nofun⟩
    · exact absurd (congrArg some hwaiting) hout
    · exact ⟨rfl, nofun, nofun, (h.asked hasked).2.2.2⟩

/-- **A move's step**, where no lock succeeds once a cancel of it was accepted. -/
theorem step {e : MoveEvent} (h : MoveSound m mv sh pending)
    (hlock : ∀ idle g, e = .lock idle → sh.gate.lock idle = some g →
      mv.cancelled = false ∧ ¬ pending)
    (hstep : mv.step m sh e = some (mv', sh')) : MoveSound m mv' sh' pending := by
  cases e with
  | on => exact h.on hstep
  | lock idle =>
    simp only [Move.step] at hstep
    split at hstep <;> cases hstep
    · next g hst hgate =>
      obtain ⟨hcancelled, hpending⟩ := hlock idle g rfl hgate
      have hnone : ¬ (mv.cancelled = true ∨ pending) := by
        rintro (hasked | hasked)
        · cases hcancelled.symm.trans hasked
        · exact hpending hasked
      have hown := h.own (by rw [hst]; rfl)
      rw [hst] at hown
      exact ⟨fun _ => hown, fun _ => ⟨nofun, nofun⟩, h.fresh,
        fun _ => h.early (by rw [hst]; rfl), fun hasked => absurd hasked hnone, nofun, nofun⟩
    · next hst hgate =>
      exact h.goto hst rfl rfl (fun _ => ⟨rfl, fun _ hs => hs⟩) ⟨id, id, id⟩ ⟨nofun, nofun⟩ nofun
  | giveUp =>
    simp only [Move.step] at hstep
    split at hstep <;> cases hstep
    next hst =>
    refine h.goto hst rfl rfl (fun _ => ⟨rfl, fun state hs => ?_⟩) ⟨nofun, nofun, nofun⟩
      ⟨nofun, nofun⟩ nofun
    simp only [Stage.shows, decide_eq_true_eq] at hs
    simp [Stage.shows, hs]
  | row =>
    simp only [Move.step] at hstep
    split at hstep <;> cases hstep
    next hst =>
    have hown := h.own (by rw [hst]; rfl)
    rw [hst] at hown
    refine ⟨fun _ => h.own (by rw [hst]; rfl), h.since, fun _ hwaiting => ?_, ?_, ?_, h.flagged,
      h.outcome⟩
    · simp only [Stage.shows, hwaiting, decide_eq_true_eq, reduceCtorEq, and_false] at hown
    · intro hearly
      rw [hst] at hearly
      cases hearly
    · intro hasked
      have hproceeds := (h.asked hasked).1
      rw [hst] at hproceeds
      cases hproceeds
  | report =>
    simp only [Move.step] at hstep
    split at hstep <;> cases hstep
    next hst =>
    have htold : MoveSound m { mv with stage := .copying }
        { sh with status := { sh.status with state := .copying } } pending :=
      h.tell hst rfl rfl rfl nofun ⟨rfl, rfl⟩ ⟨nofun, nofun⟩ rfl
    rwa [← hst] at htold
  | copied =>
    simp only [Move.step] at hstep
    split at hstep <;> cases hstep
    next hst =>
    exact h.goto hst rfl rfl (fun _ => ⟨rfl, fun _ hs => hs⟩) ⟨nofun, fun _ => rfl, nofun⟩
      ⟨nofun, nofun⟩ nofun
  | switched =>
    simp only [Move.step] at hstep
    split at hstep <;> cases hstep
    next hst =>
    obtain ⟨hmove, htarget, hstate⟩ := h.own (by rw [hst]; rfl)
    simp only [hst, Stage.shows, decide_eq_true_eq] at hstate
    refine ⟨fun _ => ⟨hmove, htarget, by simp [Stage.shows, hstate]⟩, fun _ => ⟨nofun, nofun⟩,
      fun _ hwaiting => ?_, nofun, fun hasked => ?_, nofun, nofun⟩
    · cases hstate.symm.trans hwaiting
    · have hproceeds := (h.asked hasked).1
      rw [hst] at hproceeds
      cases hproceeds
  | fail =>
    simp only [Move.step] at hstep
    split at hstep <;> cases hstep
    next hst =>
    rcases hst with hst | hst
    · refine h.goto hst rfl rfl (fun _ => ⟨rfl, fun state hs => ?_⟩) ⟨nofun, nofun, nofun⟩
        ⟨nofun, nofun⟩ nofun
      simp only [Stage.shows, decide_eq_true_eq] at hs
      simp [Stage.shows, hs]
    · refine h.goto hst rfl rfl (fun _ => ⟨rfl, fun state hs => ?_⟩) ⟨nofun, nofun, nofun⟩
        ⟨nofun, nofun⟩ nofun
      simp only [Stage.shows, decide_eq_true_eq] at hs
      simp [Stage.shows, hs]

end MoveSound

/-- **What a move's step does to what the moves share**: it clears the flag, changes the
status, or ends maintenance only while it is under way, or else writes its own status. -/
structure Shares (m : Nat) (mv mv' : Move Target) (sh sh' : Shared Target) : Prop where
  flag : sh'.flag = sh.flag ∨ mv.stage.underWay = true
  status : sh'.status = sh.status ∨
    sh'.status.move = some m ∧ (mv.stage.underWay = true ∨ sh.status.move = some m)
  paused : sh'.paused = sh.paused ∧ sh'.gate.active = sh.gate.active ∧
      mv'.stage.underWay = mv.stage.underWay ∨
    sh'.paused = false ∧ mv'.stage.underWay = false ∧ mv.stage.underWay = true

theorem shares_of_next {m : Nat} {mv mv' : Move Target} {sh sh' : Shared Target}
    {pending : Prop} (h : MoveSound m mv sh pending)
    (hown : ∀ outcome, mv.stage = .concluding outcome → sh.status.move = some m)
    (hstep : mv.next m sh = some (mv', sh')) : Shares m mv mv' sh sh' := by
  have hstatus (hshown : mv.stage.shown = true) : sh.status.move = some m := (h.own hshown).1
  unfold Move.next at hstep
  cases hst : mv.stage <;> simp only [hst, reduceCtorEq] at hstep <;> cases hstep
  case begun =>
    exact ⟨.inr (by rw [hst]; rfl), .inl rfl, .inl ⟨rfl, rfl, by rw [hst]; rfl⟩⟩
  case cleared =>
    exact ⟨.inl rfl, .inr ⟨rfl, .inl (by rw [hst]; rfl)⟩, .inl ⟨rfl, rfl, by rw [hst]; rfl⟩⟩
  case announced | audited | waiting | auditing =>
    exact ⟨.inl rfl, .inl rfl, .inl ⟨rfl, rfl, by rw [hst]; rfl⟩⟩
  case refused =>
    refine ⟨.inl rfl, .inl rfl, .inl ⟨rfl, rfl, ?_⟩⟩
    rw [hst]
    dsimp only
    split <;> rfl
  case locked | copied =>
    have hmove := hstatus (by rw [hst]; rfl)
    exact ⟨.inl rfl, .inr ⟨hmove, .inr hmove⟩, .inl ⟨rfl, rfl, by rw [hst]; rfl⟩⟩
  case ending =>
    exact ⟨.inl rfl, .inl rfl, .inr ⟨rfl, rfl, by rw [hst]; rfl⟩⟩
  case concluding outcome =>
    have hmove := hown outcome hst
    exact ⟨.inl rfl, .inr ⟨hmove, .inr hmove⟩, .inl ⟨rfl, rfl, by rw [hst]; rfl⟩⟩

theorem shares_of_step {m : Nat} {mv mv' : Move Target} {sh sh' : Shared Target}
    {pending : Prop} {e : MoveEvent} (h : MoveSound m mv sh pending)
    (hown : e = .on → ∀ outcome, mv.stage = .concluding outcome → sh.status.move = some m)
    (hstep : mv.step m sh e = some (mv', sh')) : Shares m mv mv' sh sh' := by
  cases e with
  | on => exact shares_of_next h (hown rfl) hstep
  | lock idle =>
    simp only [Move.step] at hstep
    split at hstep <;> cases hstep
    · next g hst hgate =>
      obtain ⟨hwaiting, -, -, rfl⟩ := Gate.lock_eq hgate
      refine ⟨.inl rfl, .inl rfl, .inl ⟨rfl, ?_, by rw [hst]; rfl⟩⟩
      simp [Gate.active, hwaiting]
    · next hst hgate => exact ⟨.inl rfl, .inl rfl, .inl ⟨rfl, rfl, by rw [hst]; rfl⟩⟩
  | report =>
    simp only [Move.step] at hstep
    split at hstep <;> cases hstep
    next hst =>
    have hmove := (h.own (by rw [hst]; rfl)).1
    exact ⟨.inl rfl, .inr ⟨hmove, .inr hmove⟩, .inl ⟨rfl, rfl, rfl⟩⟩
  | row =>
    simp only [Move.step] at hstep
    split at hstep <;> cases hstep
    exact ⟨.inl rfl, .inl rfl, .inl ⟨rfl, rfl, rfl⟩⟩
  | fail =>
    simp only [Move.step] at hstep
    split at hstep <;> cases hstep
    next hst =>
    refine ⟨.inl rfl, .inl rfl, .inl ⟨rfl, rfl, ?_⟩⟩
    rcases hst with hst | hst <;> rw [hst] <;> rfl
  | giveUp | copied | switched =>
    simp only [Move.step] at hstep
    split at hstep <;> cases hstep
    next hst => exact ⟨.inl rfl, .inl rfl, .inl ⟨rfl, rfl, by rw [hst]; rfl⟩⟩

/-- It depends on the status and the flag only, and on no more cancels. -/
theorem MoveSound.mono {m : Nat} {mv : Move Target} {sh sh' : Shared Target}
    {pending pending' : Prop} (h : MoveSound m mv sh pending) (hstatus : sh'.status = sh.status)
    (hflag : sh.flag = true → sh'.flag = true) (hpending : pending' → pending) :
    MoveSound m mv sh' pending' where
  own hshown := hstatus ▸ h.own hshown
  since hmove := h.since (hstatus ▸ hmove)
  fresh hmove hstate := h.fresh (hstatus ▸ hmove) (hstatus ▸ hstate)
  early := h.early
  asked hasked := h.asked (hasked.imp_right hpending)
  flagged hcancelled hpolls := hflag (h.flagged hcancelled hpolls)
  outcome := h.outcome

theorem Stage.underWay_of_shown {st : Stage} (h : st.shown = true) : st.underWay = true := by
  cases st <;> first | rfl | cases h

theorem Stage.underWay_of_polls {st : Stage} (h : st.polls = true) : st.underWay = true := by
  cases st <;> first | rfl | cases h

theorem Stage.underWay_of_working {st : Stage} (h : st.working = true) : st.shown = true := by
  rw [Stage.shown, h]
  rfl

/-- Another move's step leaves what holds of a move. -/
theorem MoveSound.other {m m' : Nat} {mv mv₁ mv' : Move Target} {sh sh' : Shared Target}
    {pending : Prop} (h : MoveSound m' mv' sh pending) (hne : m' ≠ m)
    (hone : mv.stage.underWay = true → mv'.stage.underWay = true → m' = m)
    (hshares : Shares m mv mv₁ sh sh') : MoveSound m' mv' sh' pending := by
  have hstatus (hmove : sh'.status.move = some m') : sh'.status = sh.status := by
    rcases hshares.status with hsame | ⟨hm, -⟩
    · exact hsame
    · exact absurd (Option.some.inj (hmove.symm.trans hm)) hne
  constructor
  · intro hshown
    have hown := h.own hshown
    rcases hshares.status with hsame | ⟨-, hunder | hm⟩
    · rw [hsame]
      exact hown
    · exact absurd (hone hunder (Stage.underWay_of_shown hshown)) hne
    · exact absurd (Option.some.inj (hown.1.symm.trans hm)) hne
  · intro hmove
    exact h.since (by rw [← hstatus hmove]; exact hmove)
  · intro hmove hstate
    have hsame := hstatus hmove
    exact h.fresh (by rw [← hsame]; exact hmove) (by rw [← hsame]; exact hstate)
  · exact h.early
  · exact h.asked
  · intro hcancelled hpolls
    rcases hshares.flag with hsame | hunder
    · rw [hsame]
      exact h.flagged hcancelled hpolls
    · exact absurd (hone hunder (Stage.underWay_of_polls hpolls)) hne
  · exact h.outcome

section Steps

variable {s s' : Mover Target}

theorem moverSound_init : MoverSound (.init : Mover Target) where
  each m mv hm := by simp [Mover.init] at hm
  one m m' mv mv' hm := by simp [Mover.init] at hm
  active m mv hm := by simp [Mover.init] at hm
  paused h := by cases h
  made m h := by cases h
  pending m h := absurd h List.not_mem_nil

/-- A `start()`. -/
theorem MoverSound.start (h : MoverSound s) {target : Target} (hstep : s.start target = some s') :
    MoverSound s' := by
  obtain ⟨g, hg, rfl⟩ := Option.map_eq_some_iff.mp hstep
  obtain ⟨hidle, rfl⟩ := Gate.begin_eq hg
  have hnone (m : Nat) (mv : Move Target) (hm : s.moves[m]? = some mv) :
      mv.stage.underWay = false := by
    by_contra hunder
    rw [Bool.not_eq_false] at hunder
    have hactive := h.active m mv hm hunder
    simp [Gate.active, hidle] at hactive
  constructor
  · intro m mv hm
    rcases ListUpdate.getElem?_concat_cases hm with hm | ⟨rfl, rfl⟩
    · exact (h.each m mv hm).mono rfl id id
    · refine ⟨nofun, fun hmove => ?_, fun _ _ => ⟨rfl, rfl⟩, fun _ => ⟨rfl, rfl⟩, ?_, nofun, nofun⟩
      · exact absurd (h.made _ hmove) (lt_irrefl _)
      · rintro (hcancelled | hpending)
        · cases hcancelled
        · exact absurd (h.pending _ hpending) (lt_irrefl _)
  · intro m m' mv mv' hm hm' hunder hunder'
    rcases ListUpdate.getElem?_concat_cases hm with hm | ⟨rfl, rfl⟩
    · cases (hnone m mv hm).symm.trans hunder
    · rcases ListUpdate.getElem?_concat_cases hm' with hm' | ⟨rfl, -⟩
      · cases (hnone m' mv' hm').symm.trans hunder'
      · rfl
  · exact fun _ _ _ _ => rfl
  · exact fun _ => ⟨s.moves.length, _, List.getElem?_concat_length, rfl⟩
  · intro m hmove
    have hlt := h.made m hmove
    rw [List.length_append]
    omega
  · intro m hpending
    have hlt := h.pending m hpending
    rw [List.length_append]
    omega

/-- A `cancel()` that looks, at no status that a lock has overtaken. -/
theorem MoverSound.cancel (h : MoverSound s) (hallowed : unhurried s .cancel = true) :
    MoverSound s.cancel := by
  unfold Mover.cancel
  split
  · next hwaiting =>
    refine ⟨fun m mv hm => ?_, h.one, h.active, h.paused, h.made, ?_⟩
    · have hsound := h.each m mv hm
      refine ⟨hsound.own, hsound.since, hsound.fresh, hsound.early, fun hasked => ?_,
        hsound.flagged, hsound.outcome⟩
      rcases hasked with hcancelled | hpending
      · exact hsound.asked (.inl hcancelled)
      · rcases List.mem_append.mp hpending with hpending | hnew
        · exact hsound.asked (.inr hpending)
        · have hmove : s.shared.status.move = some m := (List.mem_singleton.mp hnew).symm
          obtain ⟨hbegun, hcleared⟩ := hsound.since hmove
          refine ⟨?_, hbegun, hcleared, hsound.fresh hmove hwaiting⟩
          simp only [unhurried, hmove, Option.bind_some, hm, Option.any_some, Bool.not_eq_true',
            decide_eq_false_iff_not] at hallowed
          -- past the lock the status no longer says waiting
          have hown := hsound.own
          cases hst : mv.stage with
          | locked => exact absurd hst hallowed
          | copying | copied | switching =>
            rw [hst] at hown
            have hshows := (hown rfl).2.2
            simp [Stage.shows, hwaiting] at hshows
          | _ => rfl
    · intro m hpending
      rcases List.mem_append.mp hpending with hpending | hnew
      · exact h.pending m hpending
      · exact h.made m (List.mem_singleton.mp hnew).symm
  · exact h

/-- A `cancel()` that sets the flag. -/
theorem MoverSound.set (h : MoverSound s) {c : Nat} (hstep : s.set c = some s') :
    MoverSound s' := by
  unfold Mover.set at hstep
  split at hstep <;> cases hstep
  next m hc =>
  have hmem := List.mem_of_getElem? hc
  have hpending (i : Nat) (hi : some i ∈ s.cancels.set c none) : some i ∈ s.cancels := by
    rcases List.mem_or_eq_of_mem_set hi with hi | hi
    · exact hi
    · cases hi
  have hstage (i : Nat) (mv' : Move Target)
      (hi : (s.moves.modify m fun mv => { mv with cancelled := true })[i]? = some mv') :
      ∃ mv, s.moves[i]? = some mv ∧ mv'.stage = mv.stage := by
    rw [List.getElem?_modify] at hi
    obtain ⟨mv, hmv, rfl⟩ := Option.map_eq_some_iff.mp hi
    refine ⟨mv, hmv, ?_⟩
    split <;> rfl
  constructor
  · intro i mv' hi
    rw [List.getElem?_modify] at hi
    obtain ⟨mv, hmv, rfl⟩ := Option.map_eq_some_iff.mp hi
    have hsound := h.each i mv hmv
    split
    · next heq =>
      subst heq
      exact ⟨hsound.own, hsound.since, hsound.fresh, hsound.early,
        fun _ => hsound.asked (.inr hmem), fun _ _ => rfl, hsound.outcome⟩
    · exact hsound.mono rfl (fun _ => rfl) (hpending i)
  · intro i i' mv mv' hi hi' hunder hunder'
    obtain ⟨mv₀, hmv₀, hsame⟩ := hstage i mv hi
    obtain ⟨mv₁, hmv₁, hsame'⟩ := hstage i' mv' hi'
    exact h.one i i' mv₀ mv₁ hmv₀ hmv₁ (hsame ▸ hunder) (hsame' ▸ hunder')
  · intro i mv hi hunder
    obtain ⟨mv₀, hmv₀, hsame⟩ := hstage i mv hi
    exact h.active i mv₀ hmv₀ (hsame ▸ hunder)
  · intro hpaused
    obtain ⟨i, mv, hmv, hunder⟩ := h.paused hpaused
    refine ⟨i, (if m = i then { mv with cancelled := true } else mv), ?_, ?_⟩
    · simp [List.getElem?_modify, hmv]
    · split <;> exact hunder
  · intro i hmove
    rw [List.length_modify]
    exact h.made i hmove
  · intro i hi
    rw [List.length_modify]
    exact h.pending i (hpending i hi)

/-- A move's step. -/
theorem MoverSound.move (h : MoverSound s) {m : Nat} {e : MoveEvent} {mv mv₁ : Move Target}
    {sh : Shared Target} (hallowed : unhurried s (.move m e) = true) (hm : s.moves[m]? = some mv)
    (hstep : mv.step m s.shared e = some (mv₁, sh)) :
    MoverSound { s with shared := sh, moves := s.moves.set m mv₁ } := by
  have hsound := h.each m mv hm
  have hown : e = .on → ∀ outcome, mv.stage = .concluding outcome →
      s.shared.status.move = some m := by
    rintro rfl outcome hst
    simpa only [unhurried, hm, Option.all_some, hst, decide_eq_true_eq] using hallowed
  have hlock : ∀ idle g, e = .lock idle → s.shared.gate.lock idle = some g →
      mv.cancelled = false ∧ ¬ some m ∈ s.cancels := by
    rintro idle g rfl hg
    simpa only [unhurried, hg, hm, Option.isNone_some, Option.any_some, Bool.false_or,
      Bool.and_eq_true, Bool.not_eq_true', decide_eq_true_eq] using hallowed
  have hshares := shares_of_step hsound hown hstep
  have hbefore (i : Nat) (mv' : Move Target) (hi : (s.moves.set m mv₁)[i]? = some mv')
      (hunder : mv'.stage.underWay = true) :
      ∃ mv₀, s.moves[i]? = some mv₀ ∧ mv₀.stage.underWay = true := by
    rcases ListUpdate.getElem?_set_cases hi with ⟨rfl, rfl⟩ | ⟨-, hi⟩
    · refine ⟨mv, hm, ?_⟩
      rcases hshares.paused with ⟨-, -, hsame⟩ | ⟨-, -, hunder'⟩
      · exact hsame ▸ hunder
      · exact hunder'
    · exact ⟨mv', hi, hunder⟩
  constructor
  · intro i mv' hi
    rcases ListUpdate.getElem?_set_cases hi with ⟨rfl, rfl⟩ | ⟨hne, hi⟩
    · exact hsound.step hlock hstep
    · exact (h.each i mv' hi).other hne
        (fun hunder hunder' => h.one i m mv' mv hi hm hunder' hunder) hshares
  · intro i i' mv' mv'' hi hi' hunder hunder'
    obtain ⟨mv₀, hi, hunder⟩ := hbefore i mv' hi hunder
    obtain ⟨mv₀', hi', hunder'⟩ := hbefore i' mv'' hi' hunder'
    exact h.one i i' mv₀ mv₀' hi hi' hunder hunder'
  · intro i mv' hi hunder
    obtain ⟨mv₀, hi₀, hunder₀⟩ := hbefore i mv' hi hunder
    rcases hshares.paused with ⟨-, hactive, -⟩ | ⟨-, hover, hwas⟩
    · exact hactive.trans (h.active i mv₀ hi₀ hunder₀)
    · -- the one move under way is the one that has ended
      obtain rfl := h.one i m mv₀ mv hi₀ hm hunder₀ hwas
      rw [List.getElem?_set_self (List.getElem?_eq_some_iff.mp hm).1] at hi
      cases hi
      cases hover.symm.trans hunder
  · intro hpaused
    rcases hshares.paused with ⟨hsame, -, hunder⟩ | ⟨hresumed, -⟩
    · obtain ⟨i, mv', hi, hunder'⟩ := h.paused (hsame ▸ hpaused)
      by_cases heq : m = i
      · subst heq
        rw [hm, Option.some.injEq] at hi
        subst hi
        exact ⟨m, mv₁, List.getElem?_set_self (List.getElem?_eq_some_iff.mp hm).1,
          hunder.trans hunder'⟩
      · exact ⟨i, mv', (List.getElem?_set_ne heq).trans hi, hunder'⟩
    · cases hresumed.symm.trans hpaused
  · intro i hmove
    rw [List.length_set]
    rcases hshares.status with hsame | ⟨hm', -⟩
    · exact h.made i (by rw [← hsame]; exact hmove)
    · obtain rfl := Option.some.inj (hmove.symm.trans hm')
      exact (List.getElem?_eq_some_iff.mp hm).1
  · intro i hi
    rw [List.length_set]
    exact h.pending i hi

/-- **The step lemma.** -/
theorem MoverSound.step {a : MoverAction Target} (h : MoverSound s)
    (hallowed : unhurried s a = true) (hstep : s.step a = some s') : MoverSound s' := by
  cases a with
  | start target => exact h.start hstep
  | move m e =>
    simp only [Mover.step, Option.bind_eq_bind, Option.bind_eq_some_iff] at hstep
    obtain ⟨mv, hm, ⟨mv₁, sh⟩, hmv, heq⟩ := hstep
    cases heq
    exact h.move hallowed hm hmv
  | cancel =>
    cases hstep
    exact h.cancel hallowed
  | set c => exact h.set hstep
  | enter =>
    obtain ⟨g, hg, rfl⟩ := Option.map_eq_some_iff.mp hstep
    obtain ⟨-, rfl⟩ := Gate.enter_eq hg
    exact ⟨fun m mv hm => (h.each m mv hm).mono rfl id id, h.one, h.active, h.paused, h.made,
      h.pending⟩
  | leave =>
    cases hstep
    exact ⟨fun m mv hm => (h.each m mv hm).mono rfl id id, h.one, h.active, h.paused, h.made,
      h.pending⟩

/-- **The run lemma.** -/
theorem moverSound_of_unhurried (h : (mover Target).Reachable unhurried s) : MoverSound s :=
  h.invariant (by rintro s rfl; exact moverSound_init)
    fun _ _ _ _ hallowed hs hstep => hs.step hallowed hstep

/-- **A cancelled move never happens, and the status is the move's own**, in every run in
which no cancel is overtaken by a lock and no outcome is written late. -/
theorem movesKept_of_unhurried (h : (mover Target).Reachable unhurried s) : MovesKept s := by
  have hsound := moverSound_of_unhurried h
  constructor
  · intro m mv hm hcancelled
    exact ((hsound.each m mv hm).asked (.inl hcancelled)).2.2.2
  · intro m mv hm hcancelled
    have heach := hsound.each m mv hm
    exact ⟨(heach.asked (.inl hcancelled)).1, heach.flagged hcancelled⟩
  · intro m mv hm _ hover hpaused
    obtain ⟨m', mv', hm', hunder⟩ := hsound.paused hpaused
    refine ⟨m', mv', ?_, hm', hunder⟩
    rintro rfl
    rw [hm, Option.some.injEq] at hm'
    subst hm'
    cases hover.symm.trans hunder
  · intro m mv hm hworking
    obtain ⟨-, htarget, hshows⟩ :=
      (hsound.each m mv hm).own (Stage.underWay_of_working hworking)
    refine ⟨htarget, ?_⟩
    cases hst : mv.stage with
    | ending outcome => simpa [hst, Stage.shows, or_assoc] using hshows
    | copying | copied => exact .inr (.inl (by simpa [hst, Stage.shows] using hshows))
    | switching => exact .inr (.inr (by simpa [hst, Stage.shows] using hshows))
    | _ => exact .inl (by simpa [hst, Stage.shows] using hshows)

end Steps

/-! ## A cancel that is not heard, an outcome written late -/

/-- A move up to its worker, waiting for the rollouts. -/
def begun (m : Nat) : List (MoverAction Nat) := List.replicate 4 (.move m .on)

/-- A cancelled move, and another after it that is under way. -/
theorem movesKept_cancelled :
    ∃ s, (mover Nat).Reachable unhurried s ∧ (s.moves.map Move.cancelled = [true, false] ∧
      s.moves.map Move.stage = [.over, .copying]) ∧ MovesKept s := by
  have hrun : ((mover Nat).exec unhurried .init
      (List.flatten [[.start 7], begun 0, [.move 0 (.lock false), .cancel, .set 0],
        List.replicate 4 (.move 0 .on), [.start 8], begun 1,
        [.move 1 (.lock true), .move 1 .on]])).any
      (fun s => s.moves.map Move.cancelled = [true, false] &&
        s.moves.map Move.stage = [.over, .copying]) = true := by decide
  obtain ⟨s, hs, hends⟩ := System.exists_reachable (by exact rfl) hrun
  rw [Bool.and_eq_true, decide_eq_true_eq, decide_eq_true_eq] at hends
  exact ⟨s, hs, hends, movesKept_of_unhurried hs⟩

/-- **A cancelled move that happens**: accepted between two tries for the lock, the cancel is
not looked at when the second succeeds.  **A status that is another's**: a worker writes its
outcome after the next move has begun. -/
theorem not_movesKept :
    (∃ s, (mover Nat).Reachable System.always s ∧ ¬ MovesKept s ∧ ∃ mv ∈ s.moves,
      mv.cancelled = true ∧ mv.copied = true ∧ mv.switched = true) ∧
    ∃ s, (mover Nat).Reachable System.always s ∧ ¬ MovesKept s ∧ ∃ mv ∈ s.moves,
      mv.stage.working = true ∧ s.shared.status.state = .failed := by
  constructor
  · have hrun : ((mover Nat).exec System.always .init
        (List.flatten [[.start 7], begun 0, [.move 0 (.lock false), .move 0 .on, .move 0 .on,
          .cancel, .set 0, .move 0 (.lock true), .move 0 .on, .move 0 .row, .move 0 .copied, .move 0 .on,
          .move 0 .switched]])).any
        (fun s => s.moves.any fun mv => mv.cancelled && (mv.copied && mv.switched)) = true := by
      decide
    obtain ⟨s, hs, hends⟩ := System.exists_reachable (by exact rfl) hrun
    obtain ⟨mv, hmv, hends⟩ := List.any_eq_true.mp hends
    rw [Bool.and_eq_true, Bool.and_eq_true] at hends
    refine ⟨s, hs, fun hkept => ?_, mv, hmv, hends⟩
    obtain ⟨m, hm⟩ := List.mem_iff_getElem?.mp hmv
    cases (hkept.cancelled m mv hm hends.1).1.symm.trans hends.2.1
  · have hrun : ((mover Nat).exec System.always .init
        (List.flatten [[.start 7], begun 0, [.move 0 (.lock false), .move 0 .on, .move 0 .giveUp,
          .move 0 .on, .move 0 .on, .start 8], begun 1, [.move 0 .on]])).any
        (fun s => s.moves.any fun mv => mv.stage.working && s.shared.status.state = .failed) =
          true := by decide
    obtain ⟨s, hs, hends⟩ := System.exists_reachable (by exact rfl) hrun
    obtain ⟨mv, hmv, hends⟩ := List.any_eq_true.mp hends
    rw [Bool.and_eq_true, decide_eq_true_eq] at hends
    refine ⟨s, hs, fun hkept => ?_, mv, hmv, hends⟩
    obtain ⟨m, hm⟩ := List.mem_iff_getElem?.mp hmv
    have hstate := (hkept.status m mv hm hends.1).2
    rw [hends.2] at hstate
    rcases hstate with hstate | hstate | hstate <;> cases hstate

end Moves

end Maintenance
end NetRollout
