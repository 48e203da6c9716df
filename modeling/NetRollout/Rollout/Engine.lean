import Mathlib.Algebra.Order.BigOperators.Group.List
import Mathlib.Algebra.Order.Ring.Int
import NetRollout.Library.ListUpdate
import NetRollout.Library.Transition
import NetRollout.Logs.Redact
import NetRollout.Rollout.Substitution
import NetRollout.Session.Engine

/-!
# The engine

`RolloutEngine.run` of `src/rollout/engine.py`: `_push_device` for each device in a pool of
`max_workers` threads, the collection of their results in `_push_config`, and the rows that
`_results` makes of them.

A worker looks at the cancel flag when it begins, and a push may come to any result and name
any number of things that only a person can do.  The flag may be set at any time.  The
collection takes the finished futures in any order, and one `KeyboardInterrupt` may come at any
moment of it, between a result being read and its being kept as well.

A task's `flagged`, `pushed` and `said` are history that no step reads.
-/

namespace NetRollout
namespace Rollout

open PyText (Str Unicode)
open Evidence (Verdict Note Sign Outcome)
open Session (PushResult DeviceStatus classify)
open Logs (redact)

/-- `endpoint`. -/
def endpoint (ip : Str) (port : Int) : Str :=
  if ':' ∈ ip then '[' :: (ip ++ (']' :: ':' :: PyText.ofInt port))
  else ip ++ (':' :: PyText.ofInt port)

/-- A rollout target. -/
structure Target extends Device where
  ip : Str
  port : Int
  device_type : Str

def Target.endpoint (d : Target) : Str := Rollout.endpoint d.ip d.port

/-! ## What is stored of a device -/

structure StoredCommand where
  command : Str
  verdict : Verdict
  evidence : List Str
  note : Note
  reply : List Str

structure StoredChange where
  sign : Sign
  line : Str
  inSection : Str
  byCommands : List Nat
  review : List Nat
  device : Bool

structure Transcript where
  commands : List StoredCommand
  other_changes : List Str
  changes : List StoredChange

structure StoredReply where
  command : Str
  reply : List Str
  deriving DecidableEq

/-- `DeviceResultDict`.  The difference is kept as the two configurations it is between. -/
structure DeviceResultDict where
  device_ip : Str
  device_port : Int
  device_type : Str
  commands_sent : Nat
  commands_verified : Option Nat
  fetched_config : Option Str
  config_diff : Option (Str × Str)
  transcript : Option Transcript
  replies : Option (List StoredReply)
  status : DeviceStatus
  action_needed : Option Str

section Stored

variable [Unicode]

/-- `transcript`. -/
def transcript (outcome : Option Outcome) (replies : List (List Str)) : Option Transcript :=
  outcome.map fun outcome =>
    { commands := outcome.commands.mapIdx fun i j =>
        { command := redact j.command
          verdict := j.verdict
          evidence := j.evidence.map redact
          note := j.note
          reply := (replies[i]?.getD []).map redact }
      other_changes := outcome.otherChanges.map redact
      changes := outcome.changes.map fun c =>
        { sign := c.sign
          line := redact c.line
          inSection := redact c.inSection
          byCommands := c.byCommands
          review := c.review
          device := c.device } }

/-- `replied`. -/
def replied (push : PushResult) (commands : List Str) : Option (List StoredReply) :=
  if push.outcome.isSome then none
  else
    let answered := ((commands.zip push.replies).filter fun said => said.2 ≠ []).map fun said =>
      { command := redact said.1, reply := said.2.map redact : StoredReply }
    if answered = [] then none else some answered

variable [Printable]

/-- `_sent`. -/
def sent (d : Target) (commands : List Str) : Except Raised (List Str) :=
  match d.commands_for commands with
  | .error (.substitution _) => .ok []
  | other => other

/-- `"\n".join(actions) or None`. -/
def actions (said : List Str) : Option Str :=
  let text := ['\n'].intercalate said
  if text = [] then none else some text

/-- One turn of `_results`: a device's row, from its push and what was said about its
endpoint. -/
def row (d : Target) (commands : List Str) (push : Option PushResult) (said : List Str) :
    Except Raised DeviceResultDict := do
  let replies ← match push with
    | none => .ok none
    | some push =>
      if push.replies.any (· ≠ []) then (sent d commands).map (replied push) else .ok none
  .ok
    { device_ip := d.ip
      device_port := d.port
      device_type := d.device_type
      commands_sent := (classify push).sent
      commands_verified := (classify push).proven
      fetched_config := push.bind fun push =>
        if push.outcome.any fun outcome => outcome.needsReview || outcome.rejected then push.after
        else none
      config_diff := push.bind PushResult.diff
      transcript := push.bind fun push => transcript push.outcome push.replies
      replies
      status := (classify push).status
      action_needed := actions said }

/-- `_results`, from the device at `idx` on. -/
def resultsFrom (commands : List Str) (push_results : Nat → Option PushResult)
    (needs_action : Str → List Str) : Nat → List Target → Except Raised (List DeviceResultDict)
  | _, [] => .ok []
  | idx, d :: ds => do
    let r ← row d commands (push_results idx) (needs_action d.endpoint)
    let rs ← resultsFrom commands push_results needs_action (idx + 1) ds
    .ok (r :: rs)

end Stored

/-! ## A run -/

/-- Where a device's worker is. -/
inductive Phase where
  | waiting
  | pushing
  | done (push : Option PushResult)
  | raised

def Phase.isWaiting : Phase → Bool
  | waiting => true
  | _ => false

def Phase.isPushing : Phase → Bool
  | pushing => true
  | _ => false

structure Task where
  phase : Phase := .waiting
  /-- What the cancel flag was when the worker began. -/
  flagged : Option Bool := none
  /-- The commands the device was pushed, once a connection to it was to be opened. -/
  pushed : Option (List Str) := none
  /-- What the push said only a person can do. -/
  said : List Str := []

/-- Where the thread of `run` is: the futures still to come, the result that was read and is
not kept yet, and whether it was interrupted. -/
inductive Wait where
  | collecting (remaining : List Nat) (holding : Option (Nat × Option PushResult))
      (interrupted : Bool)
  | returned (results : List DeviceResultDict)
  | raised

structure State where
  flag : Bool
  tasks : List Task
  push_results : Nat → Option PushResult
  needs_action : Str → List Str
  wait : Wait

inductive Action where
  /-- The cancel flag is set. -/
  | cancel
  /-- A worker begins with a device. -/
  | begin (i : Nat)
  /-- A push says that something only a person can do is needed. -/
  | needed (i : Nat) (what : Str)
  | finish (i : Nat) (push : PushResult)
  /-- A push raises. -/
  | crash (i : Nat)
  /-- `future.result()`. -/
  | take (i : Nat)
  | store
  | interrupt
  | results

section Run

variable [Unicode] [Printable] (devices : List Target) (commands : List Str) (max_workers : Nat)

/-- `_push_device` up to the push. -/
def began (d : Target) (flag : Bool) (t : Task) : Task :=
  if flag then { t with phase := .done none, flagged := some true }
  else
    match d.commands_for commands with
    | .ok commands => { t with phase := .pushing, flagged := some false, pushed := some commands }
    | .error (.substitution _) =>
      { t with phase := .done (some { applied := false }), flagged := some false }
    | .error _ => { t with phase := .raised, flagged := some false }

namespace State

/-- How many workers are at work. -/
def running (s : State) : Nat := s.tasks.countP (·.phase.isPushing)

def setTask (s : State) (i : Nat) (t : Task) : State := { s with tasks := s.tasks.set i t }

end State

def step (s : State) : Action → Option State
  | .cancel => some { s with flag := true }
  | .begin i =>
    match devices[i]?, s.tasks[i]? with
    | some d, some t =>
      if t.phase.isWaiting ∧ s.running < max_workers then
        some (s.setTask i (began commands d s.flag t))
      else none
    | _, _ => none
  | .needed i what =>
    match devices[i]?, s.tasks[i]? with
    | some d, some t =>
      if t.phase.isPushing then
        some
          { s.setTask i { t with said := t.said ++ [redact what] } with
            needs_action := Function.update s.needs_action d.endpoint
              (s.needs_action d.endpoint ++ [redact what]) }
      else none
    | _, _ => none
  | .finish i push =>
    match s.tasks[i]? with
    | some t => if t.phase.isPushing then some (s.setTask i { t with phase := .done (some push) })
      else none
    | none => none
  | .crash i =>
    match s.tasks[i]? with
    | some t => if t.phase.isPushing then some (s.setTask i { t with phase := .raised }) else none
    | none => none
  | .take i =>
    match s.wait, s.tasks[i]? with
    | .collecting remaining none interrupted, some t =>
      if i ∈ remaining then
        match t.phase with
        | .done push =>
          some { s with wait := .collecting (remaining.erase i) (some (i, push)) interrupted }
        | .raised => some { s with wait := .raised }
        | _ => none
      else none
    | _, _ => none
  | .store =>
    match s.wait with
    | .collecting remaining (some (_, none)) interrupted =>
      some { s with wait := .collecting remaining none interrupted }
    | .collecting remaining (some (i, some push)) interrupted =>
      some
        { s with
          push_results := Function.update s.push_results i (some push)
          wait := .collecting remaining none interrupted }
    | _ => none
  | .interrupt =>
    match s.wait with
    | .collecting _ _ false =>
      some
        { s with
          flag := true
          wait := .collecting
            ((List.range devices.length).filter fun i => (s.push_results i).isNone) none true }
    | _ => none
  | .results =>
    match s.wait with
    | .collecting [] none _ =>
      match resultsFrom commands s.push_results s.needs_action 0 devices with
      | .ok results => some { s with wait := .returned results }
      | .error _ => some { s with wait := .raised }
    | _ => none

/-- `run`, up to the submission of the devices. -/
def start (flag : Bool) : State where
  flag
  tasks := devices.map fun _ => {}
  push_results _ := none
  needs_action _ := []
  wait := if devices.isEmpty || commands.isEmpty then .returned []
    else .collecting (List.range devices.length) none false

def engine : System State Action where
  Init s := ∃ flag, s = start devices commands flag
  step := step devices commands max_workers

/-- No push raises. -/
def noneRaises (s : State) : Action → Bool
  | .begin i =>
    s.flag ||
      match devices[i]? with
      | none => true
      | some d =>
        match d.commands_for commands with
        | .ok _ => true
        | .error (.substitution _) => true
        | .error _ => false
  | .crash _ => false
  | _ => true

end Run

end Rollout
end NetRollout
