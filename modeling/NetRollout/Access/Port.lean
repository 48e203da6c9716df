import NetRollout.Library.PyText
import NetRollout.Library.Transition

/-!
# The HTTPS port's change

The app asks for a port (`src/access/port.py`), and the host's helper tries it, keeps it or goes
back (`src/setup/port.py`, in the passes of `netrollout.sh apply`).  They share `site.env`, which
the app writes and the helper adds a key to, and `apply-status.json`, which the helper writes.

Each read and each write of these files is a step.  `site_env.update` reads, and replaces the
file, under a lock of its own process: another process may write in between.  Passes are one at a
time, by the helper's own lock.  A time is whatever the
clock of the one who reads it says.

`site.env` is the record of its port keys: what is written is read back
(`SiteEnv.lookup_read_render`).  The host's name in it, and the time of a status, are left out.
-/

namespace NetRollout
namespace Access
namespace Port

open PyText (Str Decimals ofInt toInt)

variable [Decimals]

/-! ## The files -/

/-- The port keys of `site.env`. -/
structure Site where
  in_use : Option Str := none
  request : Option Str := none
  request_id : Option Str := none
  requested_at : Option Str := none
  confirmed : Option Str := none
  deriving DecidableEq

inductive ApplyState where
  | trying
  | applied
  | rolled_back
  | failed
  | unknown
  deriving DecidableEq

/-- Why: a status' `message`. -/
inductive Message where
  /-- `""`. -/
  | none
  /-- "replaced by a newer request". -/
  | replaced
  /-- "not confirmed within 120 s - port … didn't open from a browser (a firewall?)". -/
  | timedOut (trial_port : Option Nat)
  /-- "… isn't a usable HTTPS port". -/
  | notUsable (raw : Option Str)
  /-- "port … is in use already". -/
  | inUse (port : Nat)
  /-- "port … is in use on this computer (by …)". -/
  | taken (port : Nat) (who : Str)
  /-- "port …: " and what the script says. -/
  | said (port : Nat) (why : Str)
  deriving DecidableEq

/-- `apply-status.json`. -/
structure ApplyStatus where
  id : Str := []
  state : Option ApplyState := none
  port : Option Nat := none
  trying : Option Nat := none
  deadline : Option Nat := none
  message : Message := .none
  deriving DecidableEq

def ApplyStatus.isTrying (status : ApplyStatus) : Bool := status.state == some .trying

/-- `_REQUEST_KEYS`, as they are. -/
structure Previous where
  request : Option Str
  request_id : Option Str
  requested_at : Option Str
  confirmed : Option Str
  deriving DecidableEq

def Site.previous (site : Site) : Previous :=
  ⟨site.request, site.request_id, site.requested_at, site.confirmed⟩

/-- `request.get(site_env.PORT_REQUEST_ID, "")`. -/
def Site.req_id (site : Site) : Str := site.request_id.getD []

/-! ## The helper's thinking -/

def TRIAL_SECONDS : Nat := 120

inductive Step where
  | none (message : Message)
  | wait (port : Option Nat) (id : Str)
  | tryPort (port : Nat) (id : Str)
  | keep (port : Option Nat) (id : Str)
  | rollback (id : Str) (message : Message)
  deriving DecidableEq

/-- `_wanted`. -/
def wanted (raw : Option Str) : Option Nat :=
  match raw.bind toInt with
  | some port => if 1 ≤ port ∧ port ≤ 65535 ∧ port ≠ 80 then some port.toNat else none
  | none => none

/-- `next_step`, and the status it writes. -/
def next_step (request : Site) (status : ApplyStatus) (current : Nat) (busy : List (Nat × Str))
    (now : Nat) : Step × Option ApplyStatus :=
  let req_id := request.req_id
  if status.isTrying then
    if status.id ≠ req_id then (.rollback status.id .replaced, none)
    else if request.confirmed = some req_id then (.keep status.trying req_id, none)
    else if now > status.deadline.getD 0 then (.rollback req_id (.timedOut status.trying), none)
    else (.wait status.trying req_id, none)
  else if req_id = [] ∨ status.id = req_id then (.none .none, none)
  else
    let failed (message : Message) : Step × Option ApplyStatus :=
      (.none message, some
        { id := req_id, state := some .failed, port := some current, message })
    match wanted request.request with
    | none => failed (.notUsable request.request)
    | some port =>
      if port = current then
        (.none (.inUse current), some
          { id := req_id, state := some .applied, port := some current })
      else
        match busy.lookup port with
        | some who => failed (.taken port who)
        | none => (.tryPort port req_id, none)

inductive Outcome where
  | keep
  | rollback
  | failed
  deriving DecidableEq

/-- `ends.get(outcome, ApplyState.FAILED)`. -/
def Outcome.state : Outcome → ApplyState
  | keep => .applied
  | rollback => .rolled_back
  | failed => .failed

/-- The arguments of `close`. -/
structure Close where
  outcome : Outcome
  id : Str
  message : Message := .none
  timed_out : Bool := false

/-- Where a pass stands: before what. -/
inductive Helper where
  /-- No pass, or the script's loop before its next `port-next`. -/
  | idle
  /-- `next_step`: `site.env` read. -/
  | deciding
  /-- The status read. -/
  | asked (request : Site)
  /-- `.env` read, and decided. -/
  | judging (request : Site) (status : ApplyStatus)
  /-- The status of a request that isn't tried written. -/
  | recording (status : ApplyStatus)
  /-- `open_trial`: its file written. -/
  | opening (port : Nat) (id : Str)
  /-- The file listed in `.env`. -/
  | listing (port : Nat) (id : Str)
  /-- nginx recreated. -/
  | recreating (port : Nat) (id : Str)
  /-- `trying`: the status written. -/
  | starting (port : Nat) (id : Str)
  /-- `wait_port_trial`. -/
  | waiting (id : Str)
  /-- `close`: the status read. -/
  | closing (close : Close)
  /-- `.env`'s HTTPS_PORT written. -/
  | keeping (close : Close) (new : Nat)
  /-- `site_env.update`: read. -/
  | reading (close : Close) (new : Nat)
  /-- Written. -/
  | writing (close : Close) (new : Nat) (site : Site)
  /-- The trial's file taken out of `.env`. -/
  | unlisting (close : Close)
  /-- The file removed. -/
  | unlinking (close : Close)
  /-- The status written. -/
  | ending (close : Close)

/-! ## The state -/

/-- What happened to a request id. -/
inductive Event where
  /-- `next_step` answered that its port is to be tried, with this port in use. -/
  | tried (id : Str) (port current : Nat)
  /-- It was recorded without a trial. -/
  | refused (id : Str)
  /-- `close` ended its trial, with this port in use. -/
  | closed (id : Str) (state : ApplyState) (port : Nat)

def Event.id : Event → Str
  | tried id _ _ | refused id | closed id _ _ => id

/-- A trial whose clock started. -/
structure Trial where
  id : Str
  port : Nat
  deadline : Nat
  deriving DecidableEq

/-- A `confirm` whose checks passed at this time, and the trial whose status it read. -/
structure Accepted where
  trial : Trial
  time : Nat
  deriving DecidableEq

/-- What a call of `site_env.update` is for. -/
inductive Change where
  | request (previous : Previous) (port : Nat) (id : Str) (time : Nat)
  | undo (previous : Previous)
  | confirm (accepted : Accepted)

/-- The values of the update. -/
def Change.set (site : Site) : Change → Site
  | request _ port id time =>
    { site with
      request := some (ofInt port)
      request_id := some id
      requested_at := some (ofInt time)
      confirmed := none }
  | undo previous =>
    { site with
      request := previous.request
      request_id := previous.request_id
      requested_at := previous.requested_at
      confirmed := previous.confirmed }
  | confirm accepted => { site with confirmed := some accepted.trial.id }

structure State where
  site : Site := {}
  status : Option ApplyStatus
  /-- `.env`'s HTTPS_PORT. -/
  https_port : Nat
  /-- Whether its COMPOSE_FILE lists the trial's file. -/
  listed : Bool := false
  /-- The port in the trial's file. -/
  trial_file : Option Nat := none
  helper : Helper := .idle
  /-- The calls of `request_port` that read what they would put back. -/
  asking : List Previous := []
  /-- The calls of `confirm` whose checks passed. -/
  accepting : List Accepted := []
  /-- The update of the one that has the app's lock: what it read. -/
  update : Option (Site × Change) := none
  /-- What `undo()` of each request puts back. -/
  undos : List Previous := []
  /-- The ids written into `site.env` by requests, the confirmations, the trials whose clock
  started, and what happened to the ids, the newest first. -/
  ids : List Str := []
  accepted : List Accepted := []
  trials : List Trial := []
  log : List Event := []

namespace State

variable (s : State)

/-- `read_status() or ApplyStatus()`. -/
def read_status : ApplyStatus := s.status.getD {}

/-! ## The app's steps -/

/-- `_port`. -/
def port? (value : Option Nat) : Option Nat := value.filter fun port => 1 ≤ port && port ≤ 65535

/-- The checks of `confirm`, and the trial of the status it reads. -/
def confirmable (apply_id : Str) (reached_port now : Nat) : Option Trial :=
  let status := s.read_status
  if !status.isTrying || apply_id.isEmpty || status.id ≠ apply_id then none
  else if port? status.trying ≠ some reached_port then none
  else if status.deadline.any fun deadline => deadline ≠ 0 && now > deadline then none
  else some ⟨apply_id, reached_port, status.deadline.getD 0⟩

/-- What is read is replaced, unless nothing in it changes. -/
def rewrite (read new : Site) : State := { s with site := if new = read then s.site else new }

/-- What a call leaves that wrote. -/
def changed : Change → State
  | .request previous _ id _ => { s with ids := id :: s.ids, undos := previous :: s.undos }
  | .undo _ => s
  | .confirm accepted => { s with accepted := accepted :: s.accepted }

/-! ## The helper's steps -/

/-- What is so at a step: the ports that are taken, the clock, whether what it does works, and
what is said where it doesn't. -/
structure Input where
  busy : List (Nat × Str) := []
  now : Nat := 0
  works : Bool := true
  why : Str := []

/-- The script does what `next_step` answers. -/
def follow : Step × Option ApplyStatus → State
  | (.none _, some status) =>
    { s with helper := .recording status, log := .refused status.id :: s.log }
  | (.none _, none) => { s with helper := .idle }
  | (.wait _ id, _) => { s with helper := .waiting id }
  | (.tryPort port id, _) =>
    { s with helper := .opening port id, log := .tried id port s.https_port :: s.log }
  | (.keep _ id, _) => { s with helper := .closing { outcome := .keep, id } }
  | (.rollback id message, _) =>
    { s with helper := .closing { outcome := .rollback, id, message } }

/-- `close`, its status read. -/
def closeAs (close : Close) : State :=
  let new := s.read_status.trying
  let close := if close.timed_out then { close with message := .timedOut new } else close
  match close.outcome, new with
  | .keep, some new => { s with helper := if new = 0 then .unlisting close else .keeping close new }
  | _, _ => { s with helper := .unlisting close }

def helperStep (i : Input) : State :=
  match s.helper with
  | .idle => { s with helper := .deciding }
  | .deciding => { s with helper := .asked s.site }
  | .asked request => { s with helper := .judging request s.read_status }
  | .judging request status => s.follow (next_step request status s.https_port i.busy i.now)
  | .recording status => { s with status := some status, helper := .idle }
  | .opening port id =>
    if i.works then { s with trial_file := some port, helper := .listing port id }
    else { s with helper := .closing { outcome := .failed, id, message := .said port i.why } }
  | .listing port id =>
    if i.works then { s with listed := true, helper := .recreating port id }
    else { s with helper := .closing { outcome := .failed, id, message := .said port i.why } }
  | .recreating port id =>
    if i.works then { s with helper := .starting port id }
    else { s with helper := .closing { outcome := .failed, id, message := .said port i.why } }
  | .starting port id =>
    if i.works then
      { s with
        status := some
          { id, state := some .trying, port := some s.https_port, trying := some port
            deadline := some (i.now + TRIAL_SECONDS) }
        trials := ⟨id, port, i.now + TRIAL_SECONDS⟩ :: s.trials
        helper := .idle }
    else { s with helper := .closing { outcome := .failed, id, message := .said port i.why } }
  | .waiting id =>
    if s.site.confirmed = some id then { s with helper := .idle } else s
  | .closing close => s.closeAs close
  | .keeping close new => { s with https_port := new, helper := .reading close new }
  | .reading close new => { s with helper := .writing close new s.site }
  | .writing close new site =>
    { s.rewrite site { site with in_use := some (ofInt new) } with helper := .unlisting close }
  | .unlisting close => { s with listed := false, helper := .unlinking close }
  | .unlinking close => { s with trial_file := none, helper := .ending close }
  | .ending close =>
    { s with
      status := some
        { id := close.id, state := some close.outcome.state, port := some s.https_port
          message := close.message }
      log := .closed close.id close.outcome.state s.https_port :: s.log
      helper := .idle }

end State

/-! ## Runs -/

inductive Action where
  /-- `request_port` reads what it would put back. -/
  | readPrevious
  /-- A call takes the app's lock and reads. -/
  | request (previous : Previous) (port : Nat) (id : Str) (now : Nat)
  | undo (previous : Previous)
  | confirm (accepted : Accepted)
  /-- It writes. -/
  | write
  /-- `confirm` reads the status. -/
  | check (apply_id : Str) (reached_port now : Nat)
  /-- The helper's next step. -/
  | helper (input : State.Input)
  /-- A trial's 120 seconds are over on the script's stopwatch. -/
  | timeUp
  /-- The pass ends while it waits: the helper died. -/
  | leave

namespace State

variable (s : State)

/-- A call takes the lock. -/
def take (enabled : Bool) (change : Change) : Option State :=
  if enabled && s.update.isNone then some { s with update := some (s.site, change) } else none

def step : Action → Option State
  | .readPrevious => some { s with asking := s.site.previous :: s.asking }
  | .request previous port id now =>
    -- `token_hex` gives an id that was never given
    s.take (decide (previous ∈ s.asking) && (1 ≤ port && port ≤ 65535) &&
      (!id.isEmpty && !s.ids.contains id)) (.request previous port id now)
  | .undo previous => s.take (decide (previous ∈ s.undos)) (.undo previous)
  | .confirm accepted => s.take (decide (accepted ∈ s.accepting)) (.confirm accepted)
  | .write =>
    s.update.map fun (read, change) =>
      { ((s.rewrite read (change.set read)).changed change) with update := none }
  | .check apply_id reached_port now =>
    (s.confirmable apply_id reached_port now).map fun trial =>
      { s with accepting := ⟨trial, now⟩ :: s.accepting }
  | .helper input => some (s.helperStep input)
  | .timeUp =>
    match s.helper with
    | .waiting id =>
      some { s with helper := .closing { outcome := .rollback, id, timed_out := true } }
    | _ => none
  | .leave =>
    match s.helper with
    | .waiting _ => some { s with helper := .idle }
    | _ => none

end State

/-- A start on a port: no status, or the one `ready` writes. -/
def protocol : System State Action where
  Init s := ∃ port, s = { status := none, https_port := port } ∨
    s = { status := some { state := some .applied, port := some port }, https_port := port }
  step := State.step

end Port
end Access
end NetRollout
