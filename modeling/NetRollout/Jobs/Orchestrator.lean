import NetRollout.Jobs.Redis
import NetRollout.Library.Transition
import NetRollout.Session.Engine

/-!
# The orchestrator

`RolloutJob` and `RolloutOrchestrator` of `src/jobs.py` as a step system.  A step is
what one thread does between two points where another may come in: a block under
the orchestrator's lock, one call to Redis or Postgres, a line of the rollout's log,
a run of the engine, a save of the results.

The threads around one job are kept with the job: the `submit()` call that made it,
the thread that claimed it (the dispatcher, which starts its runner, or a cancel or
drain, which records it), and the cancels of it while it runs.  `_jobs` holds the
jobs with `listed` set; a job's id is its place in the list, since ids are never
used twice and jobs enter the table in the order they are made.

Thread creation succeeds.  What only the clock decides --- the drain's deadlines, the
dispatcher's back-off --- is left to the order of the steps.
-/

namespace NetRollout
namespace Jobs

open Session (DeviceStatus)

/-! ## A job -/

/-- Who claimed a job while it was queued. -/
inductive Claimant where
  | dispatcher
  | cancel
  | drain
  deriving DecidableEq

/-- Where the `submit()` call of a job stands, after the job entered the table. -/
inductive Submit where
  /-- In `JobStore.add`, these commands to go. -/
  | adding (rest : List Command)
  /-- Before the `JobMetadata` row. -/
  | recording
  | enqueuing
  | returned
  /-- `_withdraw`: before the lock, in the two undos, and done. -/
  | withdrawing (added : Bool)
  | unqueuing (added : Bool)
  | undoing (rest : List Command)
  | raised
  deriving DecidableEq

/-- Where the thread that claimed a job stands. -/
inductive Worker where
  | unclaimed
  /-- Claimed by the dispatcher, not started yet. -/
  | claimed
  /-- The runner: before the "Waited" line, in the engine, before `_finalize`. -/
  | telling
  | running
  | ended
  /-- `_cancel_queued`: before its log line, before `unqueue`, before `_finalize`,
  and in the `except` branch before the lock. -/
  | cancelling
  | unqueuing
  | concluding
  | dropping
  /-- `_finalize` after the lock: before the save, in `JobStore.finished`, before
  `log_cleanup`. -/
  | saving
  | clearing (rest : List Command)
  | closing
  /-- `_cleanup`: before the slot is released. -/
  | releasing
  | over
  deriving DecidableEq

/-- A result's device and status. -/
abbrev Results (Device : Type) := List (Device × DeviceStatus)

structure Job (Target Device : Type) where
  targets : List Target
  devices : List Device
  commands : List PyText.Str
  /-- Whether it is in `_jobs`. -/
  listed : Bool := true
  /-- `started_at is not None`, and who set it. -/
  claimant : Option Claimant := none
  cancelFlag : Bool := false
  submit : Submit
  worker : Worker := .unclaimed
  results : Results Device := []
  /-- What `ResultRecorder.save` was given, call by call. -/
  saved : List (Results Device) := []
  /-- How often `engine.run` was called. -/
  runs : Nat := 0
  /-- The cancels of a running job before the flag, and before the status. -/
  flagging : Nat := 0
  marking : Nat := 0

/-- What a job's thread does to what the jobs share. -/
structure Effects where
  redis : List Command := []
  /-- `_remove`: the job's targets are free. -/
  unhold : Bool := false
  /-- `ResultRecorder.begin`, and the end of a save. -/
  begin_ : Bool := false
  saved : Bool := false
  /-- A slot is released. -/
  freeSlot : Bool := false
  /-- The drain goes on to its next queued job. -/
  drained : Bool := false

/-- What a job's thread is told by the world around it. -/
inductive Event where
  /-- The `submit()` call's next step, with the reply of the call it makes. -/
  | submit (r : Reply)
  /-- A line of the rollout's log: written, or the write raised. -/
  | line (written : Bool)
  /-- `engine.run` returned a result for each device, or raised. -/
  | engine (statuses : Option (List DeviceStatus))
  /-- A Redis call of the thread that claimed it. -/
  | call (r : Reply)
  /-- Its block under the lock. -/
  | lock
  | save
  | free
  /-- A cancel sets the flag, then the status. -/
  | flag
  | mark (r : Reply)

namespace Job

variable {Target Device : Type}

/-- A job as it enters the table. -/
def new (j : JobId) (targets : List Target) (devices : List Device)
    (commands : List PyText.Str) : Job Target Device where
  targets := targets
  devices := devices
  commands := commands
  submit := .adding (JobStore.add j)

/-- In the table, and nobody's yet. -/
def queued (job : Job Target Device) : Bool := job.listed && job.claimant.isNone

/-- `claim`, of a job in the table. -/
def claim (who : Claimant) (job : Job Target Device) : Job Target Device :=
  { job with
    claimant := some who
    worker := if who = .dispatcher then .claimed else .cancelling }

/-- `engine.cancelled_results`. -/
def cancelledResults (job : Job Target Device) : Results Device :=
  job.devices.map fun d => (d, .cancelled)

/-- What `engine.run` returns, with a status for each device. -/
def engineResults (job : Job Target Device) (statuses : List DeviceStatus) : Results Device :=
  if job.devices.isEmpty || job.commands.isEmpty then [] else job.devices.zip statuses

/-- The next step of the `submit()` call. -/
def submitStep (j : JobId) (r : Reply) (job : Job Target Device) :
    Option (Job Target Device × Effects) :=
  match job.submit with
  | .adding [] => none
  | .adding (command :: rest) =>
    let next : Submit :=
      if !r.isDone then .withdrawing false else if rest = [] then .recording else .adding rest
    some ({ job with submit := next }, { redis := r.sent command })
  | .recording =>
    some ({ job with submit := if r.isDone then .enqueuing else .withdrawing true }, {})
  | .enqueuing =>
    some ({ job with submit := if r.isDone then .returned else .withdrawing true },
      { redis := r.sent (JobStore.enqueue j) })
  | .withdrawing added =>
    some ({ job with listed := false, submit := .unqueuing added }, { unhold := true })
  | .unqueuing added =>
    let undo := if added then JobStore.finished j false else JobStore.forget j
    some ({ job with submit := .undoing undo }, { redis := r.sent (JobStore.unqueue j) })
  | .undoing [] => some ({ job with submit := .raised }, {})
  | .undoing (command :: rest) =>
    some ({ job with submit := if r.isDone then .undoing rest else .raised },
      { redis := r.sent command })
  | .returned => none
  | .raised => none

/-- The thread that claimed the job is done with it: a runner still has its slot to
release, a drain goes on to its next job. -/
def finish (job : Job Target Device) (fx : Effects) : Job Target Device × Effects :=
  match job.claimant with
  | some .dispatcher => ({ job with worker := .releasing }, fx)
  | some .drain => ({ job with worker := .over }, { fx with drained := true })
  | _ => ({ job with worker := .over }, fx)

/-- An exception leaves `_finalize`: past `_cleanup`'s release, or into
`_cancel_queued`'s `except` branch. -/
def escape (job : Job Target Device) (fx : Effects) : Job Target Device × Effects :=
  match job.claimant with
  | some .dispatcher => ({ job with worker := .releasing }, fx)
  | _ => ({ job with worker := .dropping }, fx)

/-- `_finalize` under the lock. -/
def finalize (job : Job Target Device) : Job Target Device × Effects :=
  if job.listed then
    ({ job with listed := false, worker := .saving }, { unhold := true, begin_ := true })
  else job.finish {}

/-- The next step of the thread that claimed the job. -/
def workerStep (j : JobId) (job : Job Target Device) : Event → Option (Job Target Device × Effects)
  | .line written =>
    match job.worker with
    | .cancelling =>
      some (if written then { job with results := job.cancelledResults, worker := .unqueuing }
        else { job with worker := .dropping }, {})
    | .telling =>
      some (if written then { job with runs := job.runs + 1, worker := .running }
        else { job with worker := .ended }, {})
    | _ => none
  | .engine statuses =>
    match job.worker, statuses with
    | .running, some statuses =>
      if statuses.length = job.devices.length then
        some ({ job with results := job.engineResults statuses, worker := .ended }, {})
      else none
    | .running, none => some ({ job with worker := .ended }, {})
    | _, _ => none
  | .call r =>
    match job.worker with
    | .unqueuing =>
      some ({ job with worker := if r.survived then .concluding else .dropping },
        { redis := r.sent (JobStore.unqueue j) })
    | .clearing [] => some ({ job with worker := .closing }, {})
    | .clearing (command :: rest) =>
      let fx : Effects := { redis := r.sent command }
      some (if r.isDone then ({ job with worker := .clearing rest }, fx)
        else if r.survived then ({ job with worker := .closing }, fx) else job.escape fx)
    | .closing => some (if r.survived then job.finish {} else job.escape {})
    | _ => none
  | .lock =>
    match job.worker with
    | .concluding => some job.finalize
    | .ended => some job.finalize
    | .dropping =>
      some (({ job with listed := false } : Job Target Device).finish { unhold := true })
    | _ => none
  | .save =>
    match job.worker with
    | .saving =>
      let wasRunning := job.claimant = some .dispatcher
      some ({ job with saved := job.saved ++ [job.results]
                       worker := .clearing (JobStore.finished j wasRunning) }, { saved := true })
    | _ => none
  | .free =>
    match job.worker with
    | .releasing => some ({ job with worker := .over }, { freeSlot := true })
    | _ => none
  | _ => none

/-- The next step of a cancel of the job while it runs. -/
def cancelStep (j : JobId) (job : Job Target Device) : Event → Option (Job Target Device × Effects)
  | .flag =>
    if 0 < job.flagging then
      some ({ job with cancelFlag := true, flagging := job.flagging - 1, marking := job.marking + 1 },
        {})
    else none
  | .mark r =>
    if 0 < job.marking then
      some ({ job with marking := job.marking - 1 },
        { redis := r.sent (JobStore.setStatus j .cancelling) })
    else none
  | _ => none

/-- The next step of a thread around the job. -/
def step (j : JobId) (job : Job Target Device) (e : Event) :
    Option (Job Target Device × Effects) :=
  match e with
  | .submit r => job.submitStep j r
  | .flag => job.cancelStep j .flag
  | .mark r => job.cancelStep j (.mark r)
  | e => job.workerStep j e

end Job

/-! ## The orchestrator -/

/-- Where the dispatcher stands. -/
inductive Dispatcher where
  | waiting
  /-- An entry was read, the slot not yet acquired. -/
  | popped (j : JobId)
  /-- Before the lock. -/
  | slotted (j : JobId)
  /-- In `JobStore.started`, these commands to go, then `start`. -/
  | starting (j : JobId) (rest : List Command)
  deriving DecidableEq

structure State (Target Device : Type) where
  /-- Every job made, by its id. -/
  jobs : List (Job Target Device)
  held : Target → Option JobId
  draining : Bool
  paused : Bool
  slots : Nat
  /-- `ResultRecorder._saving`. -/
  saving : Nat
  redis : Redis
  dispatcher : Dispatcher
  /-- The queued jobs a drain claimed, to be recorded one after the other. -/
  drainList : List JobId

/-- What happens next, and to which thread. -/
inductive Action (Target Device : Type) where
  /-- A `submit()` call up to its block under the lock. -/
  | submit (devices : List Device) (target : Device → Target) (commands : List PyText.Str)
  | pause
  | resume
  /-- A `cancel()` call's block under the lock. -/
  | cancel (j : JobId)
  /-- A `drain()` call's block under the lock, and its cancel of what still runs. -/
  | drain
  | drainCancel
  /-- The dispatcher: `next_queued`, the slot, the block under the lock, the next
  command of `JobStore.started`, `start`. -/
  | pop (r : Reply)
  | acquire
  | take
  | mark (r : Reply)
  | start
  /-- A thread around a job. -/
  | thread (j : JobId) (e : Event)

namespace State

variable {Target Device : Type}

/-- An orchestrator as it starts: `reset_stale` has cleared Redis. -/
def init (maxConcurrent : Nat) : State Target Device where
  jobs := []
  held := fun _ => none
  draining := false
  paused := false
  slots := maxConcurrent
  saving := 0
  redis := .empty
  dispatcher := .waiting
  drainList := []

/-- The shared state after a step of a thread around job `j`. -/
def after (s : State Target Device) (j : JobId) (fx : Effects) : State Target Device :=
  { s with
    held := if fx.unhold then fun t => if s.held t = some j then none else s.held t else s.held
    slots := s.slots + fx.freeSlot.toNat
    saving := s.saving + fx.begin_.toNat - fx.saved.toNat
    redis := fx.redis.foldl Redis.exec s.redis
    drainList := if fx.drained then s.drainList.tail else s.drainList }

/-- A drain records the jobs it claimed one after the other. -/
def inTurn (s : State Target Device) (j : JobId) (job : Job Target Device) : Event → Bool
  | .submit _ => true
  | .flag => true
  | .mark _ => true
  | _ => job.claimant ≠ some .drain || s.drainList.head? = some j

/-- A step of a thread around job `j`. -/
def thread (s : State Target Device) (j : JobId) (e : Event) : Option (State Target Device) := do
  let job ← s.jobs[j]?
  if s.inTurn j job e then
    let (job', fx) ← job.step j e
    some { s.after j fx with jobs := s.jobs.set j job' }
  else none

/-- `cancel` under the lock. -/
def cancel (s : State Target Device) (j : JobId) : State Target Device :=
  match s.jobs[j]? with
  | none => s
  | some job =>
    if job.queued then { s with jobs := s.jobs.set j (job.claim .cancel) }
    else if job.listed then { s with jobs := s.jobs.set j { job with flagging := job.flagging + 1 } }
    else s

/-- `drain` under the lock. -/
def drain (s : State Target Device) : State Target Device :=
  { s with
    draining := true
    jobs := s.jobs.map fun job => if job.queued then job.claim .drain else job
    drainList := s.drainList ++ (List.range s.jobs.length).filter fun j =>
      (s.jobs[j]?).any Job.queued }

/-- A drain cancels every job that still runs. -/
def drainCancel (s : State Target Device) : Option (State Target Device) :=
  if s.draining then
    some { s with jobs := s.jobs.map fun job =>
      if job.listed then { job with flagging := job.flagging + 1 } else job }
  else none

/-- `next_queued`: a lost reply loses the entry read. -/
def pop (s : State Target Device) (r : Reply) : Option (State Target Device) :=
  match s.dispatcher, s.redis.queue with
  | .waiting, j :: rest =>
    some { s with
      redis := { s.redis with queue := if r.took then rest else j :: rest }
      dispatcher := if r.isDone then .popped j else .waiting }
  | .waiting, [] => some s
  | _, _ => none

def acquire (s : State Target Device) : Option (State Target Device) :=
  match s.dispatcher with
  | .popped j =>
    if 0 < s.slots then some { s with slots := s.slots - 1, dispatcher := .slotted j } else none
  | _ => none

/-- The dispatcher under the lock: the job claimed, or else its slot released. -/
def take (s : State Target Device) : Option (State Target Device) :=
  match s.dispatcher with
  | .slotted j =>
    match s.jobs[j]? with
    | some job =>
      if job.queued && !s.draining then
        some { s with jobs := s.jobs.set j (job.claim .dispatcher)
                      dispatcher := .starting j (JobStore.started j) }
      else some { s with slots := s.slots + 1, dispatcher := .waiting }
    | none => some { s with slots := s.slots + 1, dispatcher := .waiting }
  | _ => none

/-- The next command of `JobStore.started`: when it raises, the job starts anyway. -/
def mark (s : State Target Device) (r : Reply) : Option (State Target Device) :=
  match s.dispatcher with
  | .starting j (command :: rest) =>
    some { s with redis := (r.sent command).foldl Redis.exec s.redis
                  dispatcher := .starting j (if r.isDone then rest else []) }
  | _ => none

/-- `RolloutJob.start`. -/
def start (s : State Target Device) : Option (State Target Device) :=
  match s.dispatcher with
  | .starting j [] =>
    match s.jobs[j]? with
    | some job =>
      some { s with jobs := s.jobs.set j { job with worker := .telling }, dispatcher := .waiting }
    | none => none
  | _ => none

section Submit

variable [DecidableEq Target]

/-- `_conflicts`. -/
def busy (s : State Target Device) (targets : List Target) : Bool :=
  targets.any fun t => (s.held t).isSome

/-- `submit` under the lock: refused, or the job in the table and its targets held. -/
def submit (s : State Target Device) (devices : List Device) (target : Device → Target)
    (commands : List PyText.Str) : State Target Device :=
  let targets := (devices.map target).dedup
  if s.draining || s.paused || s.busy targets then s
  else
    { s with
      jobs := s.jobs ++ [Job.new s.jobs.length targets devices commands]
      held := fun t => if t ∈ targets then some s.jobs.length else s.held t }

def step (s : State Target Device) : Action Target Device → Option (State Target Device)
  | .submit devices target commands => some (s.submit devices target commands)
  | .pause => some { s with paused := true }
  | .resume => some { s with paused := false }
  | .cancel j => some (s.cancel j)
  | .drain => some s.drain
  | .drainCancel => s.drainCancel
  | .pop r => s.pop r
  | .acquire => s.acquire
  | .take => s.take
  | .mark r => s.mark r
  | .start => s.start
  | .thread j e => s.thread j e

end Submit

end State

/-- The orchestrator and its threads. -/
def orchestrator (Target Device : Type) [DecidableEq Target] :
    System (State Target Device) (Action Target Device) where
  Init s := ∃ maxConcurrent, s = .init maxConcurrent
  step := State.step

end Jobs
end NetRollout
