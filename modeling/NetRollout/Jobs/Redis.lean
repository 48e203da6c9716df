import Mathlib.Logic.Function.Basic

/-!
# The job state in Redis

`JobStore` of `src/jobs.py`: a hash and an entry in its user's set for each job,
the queue the dispatcher reads, and the pending and active counters.  A method of
the store is the list of commands it sends.  Each is one round trip, and one that
raises stops the method there: before the command took effect, or after, its reply
lost.

Job ids are unique, so a user's set is kept as the ids in it; of a job's hash only
the status is read by what is modelled here.
-/

namespace NetRollout
namespace Jobs

abbrev JobId := Nat

/-- `JobStatus`. -/
inductive JobStatus where
  | pending
  | active
  | cancelling
  deriving DecidableEq

/-- The two gauges. -/
inductive Counter where
  | pending
  | active
  deriving DecidableEq

/-- A command of the store. -/
inductive Command where
  | hset (job : JobId) (status : JobStatus)
  | sadd (job : JobId)
  | incr (counter : Counter)
  | decr (counter : Counter)
  | rpush (job : JobId)
  | lrem (job : JobId)
  | delete (job : JobId)
  | srem (job : JobId)
  /-- `_SET_IF_EXISTS`. -/
  | setIfExists (job : JobId) (status : JobStatus)
  deriving DecidableEq

structure Redis where
  queue : List JobId
  metas : JobId → Option JobStatus
  userJobs : JobId → Bool
  count : Counter → Int

namespace Redis

def empty : Redis := ⟨[], fun _ => none, fun _ => false, fun _ => 0⟩

/-- What a command does. -/
def exec (r : Redis) : Command → Redis
  | .hset job status => { r with metas := Function.update r.metas job (some status) }
  | .sadd job => { r with userJobs := Function.update r.userJobs job true }
  | .incr counter => { r with count := Function.update r.count counter (r.count counter + 1) }
  | .decr counter => { r with count := Function.update r.count counter (r.count counter - 1) }
  | .rpush job => { r with queue := r.queue ++ [job] }
  | .lrem job => { r with queue := r.queue.filter (· ≠ job) }
  | .delete job => { r with metas := Function.update r.metas job none }
  | .srem job => { r with userJobs := Function.update r.userJobs job false }
  | .setIfExists job status =>
    { r with metas := Function.update r.metas job ((r.metas job).map fun _ => status) }

end Redis

/-! ## The store's methods -/

namespace JobStore

def add (job : JobId) : List Command := [.hset job .pending, .sadd job, .incr .pending]

def enqueue (job : JobId) : Command := .rpush job

def unqueue (job : JobId) : Command := .lrem job

def setStatus (job : JobId) (status : JobStatus) : Command := .setIfExists job status

def started (job : JobId) : List Command :=
  [.hset job .active, .decr .pending, .incr .active]

def forget (job : JobId) : List Command := [.delete job, .srem job]

def finished (job : JobId) (wasRunning : Bool) : List Command :=
  forget job ++ [.decr (bif wasRunning then .active else .pending)]

end JobStore

/-! ## Replies -/

/-- How a command to a service ended for its caller. -/
inductive Reply where
  | done
  /-- It raised: after it took effect or before, one of `REDIS_UNAVAILABLE` or
  another exception. -/
  | lost (took unavailable : Bool)
  deriving DecidableEq

namespace Reply

def isDone : Reply → Bool
  | done => true
  | lost _ _ => false

/-- Whether the command took effect. -/
def took : Reply → Bool
  | done => true
  | lost took _ => took

/-- Whether `except REDIS_UNAVAILABLE: pass` goes on after it. -/
def survived : Reply → Bool
  | done => true
  | lost _ unavailable => unavailable

/-- The commands that reach Redis of one sent. -/
def sent (r : Reply) (command : Command) : List Command := bif r.took then [command] else []

end Reply

end Jobs
end NetRollout
