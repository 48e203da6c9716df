import NetRollout.Jobs.Tally
import NetRollout.Maintenance.Gate

/-!
# What a lock keeps out

The writers of Postgres around a database move.  Requests pass the gate of
`src/webapp/lifecycle.py`: each is counted from `enter` to `leave`, and does what it likes
in between --- rows of its own, and calls of the orchestrator, in which it stays until they
are over.  Beside them stand the orchestrator's own threads, and the components that only
look before they write: the end of a discovery and the host keys ask `writes_blocked`, the
nightly clean-up and the backup schedule ask `hold()`, which is `active`.

A request in a `submit()` call leaves only after it; the steps of a cancel's thread are its
job's.  A component that has looked writes any number of times and is done; each is a
thread of its own, since sign-ins come from many.

## What goes wrong, and when

A component looks before it writes, and `lock` counts requests and rollouts only: it may
come between the two.  It may also come while an engine still runs whose job its own
`submit()` withdrew, since such a job is in no table.  `looksDone` is the condition on the
steps under which neither happens.
-/

namespace NetRollout
namespace Maintenance

open Jobs (Job JobId Reply)

variable {Target Device : Type}

/-! ## Requests and components -/

/-- What a counted request is doing. -/
inductive Request where
  | answering
  /-- In the `submit()` call that made a job. -/
  | submitting (j : JobId)
  | ended
  deriving DecidableEq

/-- The components that look before they write. -/
inductive Kind where
  /-- `Discoveries._ended`. -/
  | discovery
  /-- `HostKeyPolicies._seen` and `_refused`. -/
  | hostKeys
  /-- `NightlyCleanUp.run_once`. -/
  | cleanUp
  /-- `BackupScheduler.run_once`. -/
  | backups
  deriving DecidableEq

/-- What a component asks before it writes: whether it has to leave it. -/
def Kind.heldBack (g : Gate) : Kind → Bool
  | discovery | hostKeys => g.writesBlocked
  | cleanUp | backups => g.active

/-- A component that looked and was not held back. -/
structure Component where
  kind : Kind
  writing : Bool := true
  deriving DecidableEq

/-- What a request does next. -/
inductive RequestEvent (Target Device : Type) where
  | submit (devices : List Device) (target : Device → Target) (commands : List PyText.Str)
  /-- Its `submit()` call has returned, or raised. -/
  | returned
  | cancel (j : JobId)
  /-- Settings, audit rows, and all else it writes to Postgres. -/
  | write
  /-- The steps of a Redis switch. -/
  | pause
  | resume
  | leave

/-! ## The server -/

structure Server (Target Device : Type) where
  rollouts : Jobs.State Target Device
  gate : Gate
  /-- Every request the gate has counted. -/
  requests : List Request
  components : List Component

inductive Step (Target Device : Type) where
  | enter
  | request (k : Nat) (e : RequestEvent Target Device)
  /-- A step of the orchestrator's threads, a drain included. -/
  | rollouts (a : Jobs.Action Target Device)
  /-- A component looks. -/
  | look (kind : Kind)
  | write (c : Nat)
  | done (c : Nat)
  | begin_
  | lock
  | end_

/-- The calls that only requests and maintenance make. -/
def Called : Jobs.Action Target Device → Bool
  | .submit .. | .cancel _ | .pause | .resume => true
  | _ => false

/-- The `submit()` call has returned or raised. -/
def CallOver (job : Job Target Device) : Prop :=
  job.submit = .returned ∨ job.submit = .raised

instance (job : Job Target Device) : Decidable (CallOver job) :=
  inferInstanceAs (Decidable (_ ∨ _))

namespace Server

/-- As the app starts. -/
def init (maxConcurrent : Nat) : Server Target Device := ⟨.init maxConcurrent, .init, [], []⟩

variable [DecidableEq Target] (s : Server Target Device)

/-- What a request being answered does. -/
def request (k : Nat) (r : Request) : RequestEvent Target Device → Option (Server Target Device)
  | .submit devices target commands =>
    match r with
    | .answering =>
      let rollouts := s.rollouts.submit devices target commands
      some { s with
        rollouts := rollouts
        requests := if rollouts.jobs.length = s.rollouts.jobs.length then s.requests
          else s.requests.set k (.submitting s.rollouts.jobs.length) }
    | _ => none
  | .returned =>
    match r with
    | .submitting j =>
      if (s.rollouts.jobs[j]?).any (fun job => CallOver job) then
        some { s with requests := s.requests.set k .answering }
      else none
    | _ => none
  | .cancel j => if r = .answering then some { s with rollouts := s.rollouts.cancel j } else none
  | .write => if r = .answering then some s else none
  | .pause =>
    if r = .answering then some { s with rollouts := { s.rollouts with paused := true } } else none
  | .resume =>
    if r = .answering then some { s with rollouts := { s.rollouts with paused := false } } else none
  | .leave =>
    if r = .answering then
      some { s with requests := s.requests.set k .ended, gate := s.gate.leave }
    else none

def step : Step Target Device → Option (Server Target Device)
  | .enter =>
    s.gate.enter.map fun g => { s with gate := g, requests := s.requests ++ [.answering] }
  | .request k e => (s.requests[k]?).bind fun r => s.request k r e
  | .rollouts a =>
    if Called a then none else (s.rollouts.step a).map fun r => { s with rollouts := r }
  | .look kind =>
    some (if kind.heldBack s.gate then s else { s with components := s.components ++ [{ kind }] })
  | .write c => if (s.components[c]?).any Component.writing then some s else none
  | .done c =>
    (s.components[c]?).map fun comp =>
      { s with components := s.components.set c { comp with writing := false } }
  | .begin_ =>
    s.gate.begin_.map fun g => { s with gate := g, rollouts := { s.rollouts with paused := true } }
  | .lock => (s.gate.lock s.rollouts.idle).map fun g => { s with gate := g }
  | .end_ =>
    if s.gate.active then
      some { s with gate := s.gate.end_, rollouts := { s.rollouts with paused := false } }
    else none

omit [DecidableEq Target] in
/-- The steps that write to Postgres: the `JobMetadata` row, the results of a job, a
request's rows, and a component's. -/
def writes : Step Target Device → Bool
  | .rollouts (.thread j (.submit _)) =>
    (s.rollouts.jobs[j]?).any fun job => job.submit = .recording
  | .rollouts (.thread _ .save) => true
  | .request _ .write => true
  | .write _ => true
  | _ => false

end Server

/-- The server and what writes to its database. -/
def server (Target Device : Type) [DecidableEq Target] :
    System (Server Target Device) (Step Target Device) where
  Init s := ∃ maxConcurrent, s = .init maxConcurrent
  step := Server.step

/-! ## A lock -/

/-- The dispatcher has claimed it, and its engine is not over. -/
def Running (job : Job Target Device) : Bool :=
  match job.worker with
  | .claimed | .telling | .running => true
  | _ => false

/-- No more than the end of a thread is left of a job. -/
structure Settled (job : Job Target Device) : Prop where
  listed : job.listed = false
  running : Running job = false
  saving : job.worker ≠ .saving

/-- **Nothing writes while maintenance is locked.** -/
structure Quiet [DecidableEq Target] (s : Server Target Device) : Prop where
  requests : ∀ r ∈ s.requests, r = .ended
  /-- No rollout is queued, running or saving. -/
  rollouts : ∀ job ∈ s.rollouts.jobs, Settled job
  /-- None can be submitted. -/
  submit : ∀ (k : Nat) (devices : List Device) (target : Device → Target)
    (commands : List PyText.Str), s.step (.request k (.submit devices target commands)) = none
  writes : ∀ a : Step Target Device, s.writes a = true → s.step a = none

/-- No lock comes while a component has looked and is not done, or while the engine of a
withdrawn job is still to end. -/
def looksDone (s : Server Target Device) : Step Target Device → Bool
  | .lock => s.components.all (fun c => !c.writing) &&
      s.rollouts.jobs.all fun job => job.listed || !Running job
  | _ => true

/-! ## The rollouts while locked -/

section Rollouts

variable [DecidableEq Target] {r r' : Jobs.State Target Device}

omit [DecidableEq Target] in
theorem settled_of_finish {job job' : Job Target Device} {fx fx' : Jobs.Effects}
    (hlisted : job.listed = false) (h : job.finish fx = (job', fx')) : Settled job' := by
  obtain ⟨w, rfl | rfl, rfl, -⟩ := job.eq_of_finish h
  · exact ⟨hlisted, rfl, nofun⟩
  · exact ⟨hlisted, rfl, nofun⟩

omit [DecidableEq Target] in
theorem settled_of_work {i : JobId} {e : Jobs.Event} {job job' : Job Target Device}
    {fx : Jobs.Effects} (h : job.Work i e job' fx) (hjob : Settled job) : Settled job' := by
  have hrunning := hjob.running
  cases h with
  | told hw => exact ⟨hjob.listed, rfl, nofun⟩
  | untold hw => exact ⟨hjob.listed, rfl, nofun⟩
  | waited hw => simp [Running, hw] at hrunning
  | unwaited hw => simp [Running, hw] at hrunning
  | ran hw => simp [Running, hw] at hrunning
  | aborted hw => simp [Running, hw] at hrunning
  | unqueued hw => exact ⟨hjob.listed, rfl, nofun⟩
  | stillQueued hw => exact ⟨hjob.listed, rfl, nofun⟩
  | finalize hw hlisted => cases hjob.listed.symm.trans hlisted
  | gone hw hlisted h => exact settled_of_finish hlisted h
  | dropped hw h => exact settled_of_finish rfl h
  | saved hw rest => exact absurd hw hjob.saving
  | cleared hw r next hnext redis =>
    rcases hnext with rfl | ⟨rest, rfl⟩
    · exact ⟨hjob.listed, rfl, nofun⟩
    · exact ⟨hjob.listed, rfl, nofun⟩
  | escaped hw r redis h =>
    obtain ⟨w, rfl | ⟨rfl, -⟩, rfl, -⟩ := job.eq_of_escape h
    · exact ⟨hjob.listed, rfl, nofun⟩
    · exact ⟨hjob.listed, rfl, nofun⟩
  | closed hw r h => exact settled_of_finish hjob.listed h
  | freed hw => exact ⟨hjob.listed, rfl, nofun⟩

omit [DecidableEq Target] in
/-- A call that is over takes no step. -/
theorem submitStep_of_callOver {j : JobId} {job : Job Target Device} (h : CallOver job)
    (reply : Reply) : job.submitStep j reply = none := by
  rcases h with h | h <;> simp [Job.submitStep, h]

/-- **A settled job stays settled.** -/
theorem settled_of_moves (hr : (Jobs.orchestrator Target Device).Reachable System.always r)
    {a : Jobs.Action Target Device} {i : JobId}
    {job job' : Job Target Device} (hi : r.jobs[i]? = some job) (hjob : Settled job)
    (hmoves : Jobs.Moves r a i job job') : Settled job' := by
  cases hmoves with
  | same => exact hjob
  | submits reply ha h =>
    cases h with
    | on next redis h => exact ⟨hjob.listed, hjob.running, hjob.saving⟩
    | withdraw added hsubmit => exact ⟨rfl, hjob.running, hjob.saving⟩
  | works e ha h => exact settled_of_work h hjob
  | claim who hqueued =>
    cases hjob.listed.symm.trans (Bool.and_eq_true_iff.mp hqueued).1
  | asked flag flagging marking => exact ⟨hjob.listed, hjob.running, hjob.saving⟩
  | start ha hstarting =>
    have hclaimed := Jobs.claimed_of_starting hr hstarting hi
    have hrunning := hjob.running
    simp [Running, hclaimed.1] at hrunning

/-- A call that is over stays over. -/
theorem callOver_of_step {a : Jobs.Action Target Device} (hstep : r.step a = some r') {i : JobId}
    {job job' : Job Target Device} (hi : r.jobs[i]? = some job) (hjob : CallOver job)
    (hmoves : Jobs.Moves r a i job job') : CallOver job' := by
  cases hmoves with
  | same => exact hjob
  | submits reply ha h =>
    subst ha
    obtain ⟨job₁, _, _, hjob₁, -, hsubmit, -⟩ := Jobs.thread_cases hstep
    obtain rfl : job = job₁ := Option.some.inj (hi.symm.trans hjob₁)
    cases (submitStep_of_callOver hjob reply).symm.trans hsubmit
  | works e ha h =>
    cases h with
    | gone hw hlisted h =>
      obtain ⟨w, -, rfl, -⟩ := job.eq_of_finish h
      exact hjob
    | dropped hw h =>
      obtain ⟨w, -, rfl, -⟩ := Job.eq_of_finish _ h
      exact hjob
    | escaped hw r redis h =>
      obtain ⟨w, -, rfl, -⟩ := job.eq_of_escape h
      exact hjob
    | closed hw r h =>
      obtain ⟨w, -, rfl, -⟩ := job.eq_of_finish h
      exact hjob
    | _ => exact hjob
  | claim who hqueued => exact hjob
  | asked flag flagging marking => exact hjob
  | start ha hstarting => exact hjob

/-- **What an idle orchestrator has left**, where no engine of a withdrawn job runs. -/
theorem settled_of_idle (hr : (Jobs.orchestrator Target Device).Reachable System.always r)
    (hidle : r.idle = true)
    (hrunning : (r.jobs.all fun job => job.listed || !Running job) = true) :
    ∀ job ∈ r.jobs, Settled job := by
  simp only [Jobs.State.idle, Bool.and_eq_true, List.all_eq_true, Bool.not_eq_true', beq_iff_eq]
    at hidle
  obtain ⟨hlisted, hsaving⟩ := hidle
  intro job hjob
  refine ⟨hlisted job hjob, ?_, fun hw => ?_⟩
  · have hrun := List.all_eq_true.mp hrunning job hjob
    simpa [hlisted job hjob] using hrun
  · obtain ⟨i, hi⟩ := List.mem_iff_getElem?.mp hjob
    have hle := Jobs.le_total Job.saves (fun job _ => Jobs.saves_nonneg job) hi
    rw [← Jobs.saving_eq hr, hsaving, Job.saves, if_pos hw] at hle
    omega

end Rollouts

/-! ## The invariant -/

section Invariant

variable [DecidableEq Target] {s s' : Server Target Device}

/-- What the server's books say in every run, and what a lock leaves in a run that waits for
the components. -/
structure Kept (s : Server Target Device) : Prop where
  rollouts : (Jobs.orchestrator Target Device).Reachable System.always s.rollouts
  count : s.gate.underWay = s.requests.countP (· ≠ .ended)
  calls : ∀ (j : JobId) (job : Job Target Device), s.rollouts.jobs[j]? = some job →
    ¬ CallOver job → ∃ r ∈ s.requests, r = .submitting j
  locked : s.gate.state = .locked → s.gate.underWay = 0 ∧
    (∀ job ∈ s.rollouts.jobs, Settled job) ∧ ∀ c ∈ s.components, c.writing = false

/-- While locked no request is being answered. -/
theorem Kept.ended (h : Kept s) (hlocked : s.gate.state = .locked) :
    ∀ r ∈ s.requests, r = .ended := by
  have hzero := h.count
  rw [(h.locked hlocked).1, eq_comm, List.countP_eq_zero] at hzero
  intro r hr
  simpa using hzero r hr

omit [DecidableEq Target] in
theorem kept_init (maxConcurrent : Nat) [DecidableEq Target] :
    Kept (.init maxConcurrent : Server Target Device) where
  rollouts := ⟨_, [], ⟨maxConcurrent, rfl⟩, rfl⟩
  count := rfl
  calls j job hj := by simp [Server.init, Jobs.State.init] at hj
  locked h := by cases h

/-- A step of the orchestrator that adds no call to be waited for. -/
theorem Kept.calls_of_step (h : Kept s) {r : Jobs.State Target Device}
    {a : Jobs.Action Target Device} (hr : s.rollouts.step a = some r)
    (ha : ∀ devices target commands, a ≠ .submit devices target commands) (j : JobId)
    (job : Job Target Device) (hj : r.jobs[j]? = some job) (hcall : ¬ CallOver job) :
    ∃ r ∈ s.requests, r = .submitting j := by
  rcases Jobs.step_jobs hr hj with ⟨job₀, hj₀, hmoves⟩ | ⟨_, _, _, rfl, -, -⟩
  · exact h.calls j job₀ hj₀ fun hover => hcall (callOver_of_step hr hj₀ hover hmoves)
  · exact absurd rfl (ha _ _ _)

/-- A request's call of the orchestrator, and whatever else it does that keeps it counted. -/
theorem Kept.called (h : Kept s) (hopen : s.gate.state ≠ .locked) {r : Jobs.State Target Device}
    {a : Jobs.Action Target Device} (hr : s.rollouts.step a = some r)
    (ha : ∀ devices target commands, a ≠ .submit devices target commands) :
    Kept { s with rollouts := r } where
  rollouts := h.rollouts.step rfl hr
  count := h.count
  calls := h.calls_of_step hr ha
  locked hlocked := absurd hlocked hopen

/-- A request moves on and stays counted. -/
theorem countP_set_counted {l : List Request} {k : Nat} {r r' : Request} (hk : l[k]? = some r)
    (hr : r ≠ .ended) (hr' : r' ≠ .ended) :
    (l.set k r').countP (· ≠ .ended) = l.countP (· ≠ .ended) := by
  obtain ⟨hlt, hget⟩ := List.getElem?_eq_some_iff.mp hk
  have hpos : 0 < l.countP (· ≠ .ended) :=
    List.countP_pos_iff.mpr ⟨r, List.mem_of_getElem? hk, by simpa using hr⟩
  rw [List.countP_set hlt, hget, if_pos (by simpa using hr), if_pos (by simpa using hr')]
  omega

theorem countP_set_ended {l : List Request} {k : Nat} {r : Request} (hk : l[k]? = some r)
    (hr : r ≠ .ended) :
    (l.set k .ended).countP (· ≠ .ended) = l.countP (· ≠ .ended) - 1 := by
  obtain ⟨hlt, hget⟩ := List.getElem?_eq_some_iff.mp hk
  rw [List.countP_set hlt, hget, if_pos (by simpa using hr), if_neg (by simp)]
  omega

/-- **The steps of a request.** -/
theorem Kept.request (h : Kept s) {k : Nat} {r : Request} (hk : s.requests[k]? = some r)
    {e : RequestEvent Target Device} (hstep : s.request k r e = some s') : Kept s' := by
  have hmem := List.mem_of_getElem? hk
  have hopen (hr : r ≠ .ended) : s.gate.state ≠ .locked := fun hlocked => hr (h.ended hlocked r hmem)
  cases e with
  | submit devices target commands =>
    simp only [Server.request] at hstep
    split at hstep <;> cases hstep
    have hrollouts : (Jobs.orchestrator Target Device).Reachable System.always
        (s.rollouts.submit devices target commands) :=
      h.rollouts.step (a := .submit devices target commands) rfl rfl
    rcases Jobs.submit_cases (s := s.rollouts) devices target commands with hsame | ⟨hjobs, -⟩
    · rw [hsame, if_pos rfl]
      exact h
    · have hlength : (s.rollouts.submit devices target commands).jobs.length ≠
          s.rollouts.jobs.length := by
        rw [hjobs, List.length_append]
        simp
      have hcount : (s.requests.set k (.submitting s.rollouts.jobs.length)).countP (· ≠ .ended) =
          s.requests.countP (· ≠ .ended) := countP_set_counted hk nofun nofun
      rw [if_neg hlength]
      refine ⟨hrollouts, h.count.trans hcount.symm, ?_,
        fun hlocked => absurd hlocked (hopen nofun)⟩
      intro i job hi hcall
      rw [hjobs] at hi
      rcases ListUpdate.getElem?_concat_cases hi with hi | ⟨rfl, rfl⟩
      · exact ListUpdate.exists_mem_set hk nofun (h.calls i job hi hcall)
      · exact ⟨_, List.mem_set (List.getElem?_eq_some_iff.mp hk).1 _, rfl⟩
  | returned =>
    simp only [Server.request] at hstep
    split at hstep
    · next j =>
      split at hstep <;> cases hstep
      next hover =>
      have hcount : (s.requests.set k .answering).countP (· ≠ .ended) =
          s.requests.countP (· ≠ .ended) := countP_set_counted hk nofun nofun
      refine ⟨h.rollouts, h.count.trans hcount.symm, ?_,
        fun hlocked => absurd hlocked (hopen nofun)⟩
      intro i job hi hcall
      refine ListUpdate.exists_mem_set hk (fun hsame => ?_) (h.calls i job hi hcall)
      cases hsame
      simp only [hi, Option.any_some, decide_eq_true_eq] at hover
      exact absurd hover hcall
    · cases hstep
  | cancel j =>
    simp only [Server.request] at hstep
    split at hstep <;> cases hstep
    next hr => exact h.called (hopen (by rw [hr]; nofun)) (a := .cancel j) rfl nofun
  | write =>
    simp only [Server.request] at hstep
    split at hstep <;> cases hstep
    exact h
  | pause =>
    simp only [Server.request] at hstep
    split at hstep <;> cases hstep
    next hr => exact h.called (hopen (by rw [hr]; nofun)) (a := .pause) rfl nofun
  | resume =>
    simp only [Server.request] at hstep
    split at hstep <;> cases hstep
    next hr => exact h.called (hopen (by rw [hr]; nofun)) (a := .resume) rfl nofun
  | leave =>
    simp only [Server.request] at hstep
    split at hstep <;> cases hstep
    next hr =>
    subst hr
    refine ⟨h.rollouts, ?_, ?_, fun hlocked => absurd hlocked (hopen nofun)⟩
    · show s.gate.underWay - 1 = _
      rw [countP_set_ended hk nofun, h.count]
    · intro i job hi hcall
      exact ListUpdate.exists_mem_set hk nofun (h.calls i job hi hcall)

/-- **The step lemma.** -/
theorem Kept.step (h : Kept s) {a : Step Target Device} (hallowed : looksDone s a = true)
    (hstep : s.step a = some s') : Kept s' := by
  cases a with
  | enter =>
    obtain ⟨g, hg, rfl⟩ := Option.map_eq_some_iff.mp hstep
    obtain ⟨hopen, rfl⟩ := Gate.enter_eq hg
    refine ⟨h.rollouts, ?_, ?_, fun hlocked => absurd hlocked hopen⟩
    · show s.gate.underWay + 1 = (s.requests ++ [Request.answering]).countP (· ≠ Request.ended)
      rw [List.countP_append, ← h.count]
      rfl
    · intro j job hj hcall
      obtain ⟨r, hr, rfl⟩ := h.calls j job hj hcall
      exact ⟨_, List.mem_append_left _ hr, rfl⟩
  | request k e =>
    obtain ⟨r, hk, hr⟩ := Option.bind_eq_some_iff.mp hstep
    exact h.request hk hr
  | rollouts a =>
    simp only [Server.step] at hstep
    split at hstep
    · cases hstep
    · next ha =>
      obtain ⟨r, hr, rfl⟩ := Option.map_eq_some_iff.mp hstep
      have hsubmit : ∀ devices target commands, a ≠ .submit devices target commands := by
        rintro devices target commands rfl
        exact ha rfl
      refine ⟨h.rollouts.step rfl hr, h.count, h.calls_of_step hr hsubmit, fun hlocked => ?_⟩
      obtain ⟨hzero, hsettled, hcomponents⟩ := h.locked hlocked
      refine ⟨hzero, fun job' hjob' => ?_, hcomponents⟩
      obtain ⟨i, hi⟩ := List.mem_iff_getElem?.mp hjob'
      rcases Jobs.step_jobs hr hi with ⟨job, hj, hmoves⟩ | ⟨_, _, _, rfl, -, -⟩
      · exact settled_of_moves h.rollouts hj (hsettled job (List.mem_of_getElem? hj)) hmoves
      · exact absurd rfl (hsubmit _ _ _)
  | look kind =>
    cases hstep
    split
    · exact h
    · next hfree =>
      refine ⟨h.rollouts, h.count, h.calls, fun hlocked => absurd ?_ hfree⟩
      have hstate : s.gate.state = .locked := hlocked
      cases kind <;> simp [Kind.heldBack, Gate.writesBlocked, Gate.active, hstate]
  | write c =>
    simp only [Server.step] at hstep
    split at hstep <;> cases hstep
    exact h
  | done c =>
    obtain ⟨comp, hc, rfl⟩ := Option.map_eq_some_iff.mp hstep
    refine ⟨h.rollouts, h.count, h.calls, fun hlocked => ?_⟩
    obtain ⟨hzero, hsettled, hcomponents⟩ := h.locked hlocked
    exact ⟨hzero, hsettled, ListUpdate.forall_mem_set hcomponents rfl⟩
  | begin_ =>
    obtain ⟨g, hg, rfl⟩ := Option.map_eq_some_iff.mp hstep
    obtain ⟨-, rfl⟩ := Gate.begin_eq hg
    refine ⟨h.rollouts.step (a := .pause) rfl rfl, h.count, h.calls, nofun⟩
  | lock =>
    obtain ⟨g, hg, rfl⟩ := Option.map_eq_some_iff.mp hstep
    obtain ⟨-, hzero, hidle, rfl⟩ := Gate.lock_eq hg
    obtain ⟨hcomponents, hrunning⟩ := Bool.and_eq_true_iff.mp hallowed
    refine ⟨h.rollouts, h.count, h.calls, fun _ =>
      ⟨hzero, settled_of_idle h.rollouts hidle hrunning, fun c hc => ?_⟩⟩
    simpa using List.all_eq_true.mp hcomponents c hc
  | end_ =>
    simp only [Server.step] at hstep
    split at hstep <;> cases hstep
    exact ⟨h.rollouts.step (a := .resume) rfl rfl, h.count, h.calls, nofun⟩

/-- **The run lemma.** -/
theorem kept_of_looksDone (h : (server Target Device).Reachable looksDone s) : Kept s :=
  h.invariant (by rintro s ⟨maxConcurrent, rfl⟩; exact kept_init maxConcurrent)
    fun _ _ _ _ hallowed hs hstep => hs.step hallowed hstep

/-! ## Nothing writes -/

/-- What an ended request does. -/
theorem request_ended (k : Nat) (e : RequestEvent Target Device) :
    s.request k .ended e = none := by
  cases e <;> rfl

/-- **While maintenance is locked nothing writes to Postgres but the move**, in every run in
which no lock comes between a component's look and its writes. -/
theorem quiet_of_looksDone (h : (server Target Device).Reachable looksDone s)
    (hlocked : s.gate.state = .locked) : Quiet s := by
  have hkept := kept_of_looksDone h
  obtain ⟨-, hsettled, hcomponents⟩ := hkept.locked hlocked
  have hended := hkept.ended hlocked
  have hrequest (k : Nat) (e : RequestEvent Target Device) : s.step (.request k e) = none := by
    cases hk : s.requests[k]? with
    | none => simp only [Server.step, hk, Option.bind_none]
    | some r =>
      obtain rfl := hended r (List.mem_of_getElem? hk)
      simp only [Server.step, hk, Option.bind_some, request_ended]
  refine ⟨hended, hsettled, fun k devices target commands => hrequest k _, fun a ha => ?_⟩
  cases a with
  | rollouts a =>
    cases a with
    | thread j e =>
      cases e with
      | submit reply =>
        obtain ⟨job, hj, hsubmit⟩ := (Option.any_eq_true _ _).mp ha
        rw [decide_eq_true_eq] at hsubmit
        have hcall : ¬ CallOver job := by
          rintro (hover | hover) <;> cases hsubmit.symm.trans hover
        obtain ⟨r, hr, rfl⟩ := hkept.calls j job hj hcall
        cases hended _ hr
      | save =>
        cases hthread : s.rollouts.thread j .save with
        | none => simp [Server.step, Called, Jobs.State.step, hthread]
        | some r =>
          obtain ⟨job, _, _, hj, -, hsave, -⟩ := Jobs.thread_cases hthread
          have hsaving := (hsettled job (List.mem_of_getElem? hj)).saving
          cases hw : job.worker <;>
            simp [Job.step, Job.workerStep, hw] at hsave hsaving
      | _ => cases ha
    | _ => cases ha
  | request k e => exact hrequest k e
  | write c =>
    cases hc : s.components[c]? with
    | none => simp only [Server.step, hc, Option.any_none, Bool.false_eq_true, if_false]
    | some comp =>
      simp only [Server.step, hc, Option.any_some,
        hcomponents comp (List.mem_of_getElem? hc), Bool.false_eq_true, if_false]
  | _ => cases ha

/-- A settings change, a rollout and a clean-up, all over before the lock. -/
theorem quiet_after_requests :
    ∃ s, (server Nat Nat).Reachable looksDone s ∧ s.gate.state = .locked ∧ Quiet s := by
  have hrun : ((server Nat Nat).exec looksDone (.init 4)
      (List.flatten [[.enter, .request 0 .write, .request 0 (.submit [22] id [['x']])],
        List.replicate 5 (.rollouts (.thread 0 (.submit .done))),
        [.request 0 .returned, .look .cleanUp, .write 0, .done 0, .request 0 (.cancel 0),
          .rollouts (.thread 0 (.line true)), .rollouts (.thread 0 (.call .done)), .begin_,
          .rollouts (.thread 0 .lock), .rollouts (.thread 0 .save), .request 0 .leave,
          .lock]])).any (fun s => s.gate.state = .locked) = true := by decide
  obtain ⟨s, hs, hends⟩ := System.exists_reachable (by exact ⟨4, rfl⟩) hrun
  rw [decide_eq_true_eq] at hends
  exact ⟨s, hs, hends, quiet_of_looksDone hs hends⟩

/-- **A row written under the lock**: the clean-up looks, the move begins and locks, the
clean-up deletes its rows. -/
theorem not_quiet :
    ∃ s, (server Nat Nat).Reachable System.always s ∧ s.gate.state = .locked ∧ ¬ Quiet s := by
  have hrun : ((server Nat Nat).exec System.always (.init 4)
      [.look .cleanUp, .begin_, .lock]).any
      (fun s => s.gate.state = .locked && (s.components[0]?).any Component.writing) = true := by
    decide
  obtain ⟨s, hs, hends⟩ := System.exists_reachable (by exact ⟨4, rfl⟩) hrun
  rw [Bool.and_eq_true, decide_eq_true_eq] at hends
  refine ⟨s, hs, hends.1, fun hquiet => ?_⟩
  have hnone := hquiet.writes (.write 0) rfl
  simp only [Server.step, hends.2, if_true, reduceCtorEq] at hnone

end Invariant

end Maintenance
end NetRollout
