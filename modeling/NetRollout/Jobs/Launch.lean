import Mathlib.Data.Char
import Mathlib.Data.List.Lex
import Mathlib.Data.List.Sort
import NetRollout.Jobs.Books
import NetRollout.Library.PyText

/-!
# A launch of several platforms

`submit_jobs` of `src/webapp/blueprints/rollout.py`: a job for each platform of the chosen
devices, queued one by one, and when one cannot be queued a cancel of each one before it.
Any number of launches are under way beside the orchestrator's dispatcher, its runners and
everything else it does.

The engine's devices are kept beside it: which of them are past the check of the cancel flag
(`reached`), and to which a command has been sent.

## What goes wrong, and when

A job is queued as soon as its own `submit()` returns, and the dispatcher may start it while
the launch queues the next one; the cancel that undoes it leaves the devices already reached.
And a cancel of a running job raises when Redis does, so the launch raises with the other
jobs not cancelled.  `inTime` is the condition on the steps under which neither happens.
-/

namespace NetRollout
namespace Jobs

open PyText (Str)

variable {Target Device : Type}

/-! ## The jobs of a launch -/

/-- `command_lines`. -/
def commandLines (text : Str) : List Str :=
  (PyText.splitlines text).filterMap fun raw =>
    let line := PyText.strip raw
    if line.isEmpty then none else some line

/-- The commands of the form: one list for all, or a text for each platform. -/
inductive Commands where
  | same (commands : List Str)
  | perPlatform (text : Str → Option Str)

/-- A job to be queued: its devices and their commands. -/
abbrev Group (Device : Type) := List Device × List Str

/-- What is queued, or the reason it is refused before the first job. -/
def groups (devices : List Device) (platform : Device → Str) :
    Commands → Except Str (List (Group Device))
  | .same commands => .ok [(devices, commands)]
  | .perPlatform text =>
    if (devices.map platform).dedup.length < 2 then
      .error "Expected multiple platforms but only one found.".toList
    else
      let sorted := devices.insertionSort fun a b => platform a ≤ platform b
      (sorted.splitBy fun a b => platform a == platform b).mapM fun group =>
        let name := ((group.head?).map platform).getD []
        let commands := commandLines ((text name).getD [])
        if commands.isEmpty then .error ("No commands provided for ".toList ++ name ++ ['.'])
        else .ok (group, commands)

/-! ## A launch -/

/-- Where a `submit_jobs` call stands. -/
inductive Stage where
  /-- Before the next `submit()`, and in it. -/
  | submitting
  | awaiting (j : JobId)
  /-- In the `except`: before the next `cancel()`. -/
  | undoing (rest : List JobId)
  /-- In that cancel: while the job is recorded as cancelled, before the flag, before the
  status. -/
  | recording (j : JobId) (rest : List JobId)
  | flagging (j : JobId) (rest : List JobId)
  | marking (j : JobId) (rest : List JobId)
  | returned
  | raised
  deriving DecidableEq

/-- In a cancel of `j`, after its look at the table. -/
def Stage.looked (j : JobId) (rest : List JobId) : Option (Job Target Device) → Stage
  | none => undoing rest
  | some job =>
    if job.queued then recording j rest else if job.listed then flagging j rest else undoing rest

structure Launch (Target Device : Type) where
  target : Device → Target
  /-- The jobs still to queue. -/
  groups : List (Group Device)
  queued : List JobId
  stage : Stage

/-- What the next step of a launch is told. -/
inductive LaunchEvent where
  /-- `submit()` up to its block under the lock; or it raised before. -/
  | submit
  | refuse
  /-- The call under way has ended. -/
  | answer
  | cancel
  | flag
  | mark (r : Reply)

namespace Launch

variable [DecidableEq Target]

/-- The next step of a launch. -/
def step (r : State Target Device) (launch : Launch Target Device) :
    LaunchEvent → Option (Launch Target Device × State Target Device)
  | .submit =>
    match launch.stage, launch.groups with
    | .submitting, (devices, commands) :: groups =>
      let targets := (devices.map launch.target).dedup
      some (if r.draining || r.paused || r.busy targets then
          { launch with stage := .undoing launch.queued }
        else { launch with groups := groups, stage := .awaiting r.jobs.length },
        r.submit devices launch.target commands)
    | _, _ => none
  | .refuse =>
    match launch.stage, launch.groups with
    | .submitting, _ :: _ => some ({ launch with stage := .undoing launch.queued }, r)
    | _, _ => none
  | .answer =>
    match launch.stage with
    | .submitting =>
      if launch.groups.isEmpty then some ({ launch with stage := .returned }, r) else none
    | .awaiting j =>
      match (r.jobs[j]?).map Job.submit with
      | some .returned =>
        some ({ launch with queued := launch.queued ++ [j], stage := .submitting }, r)
      | some .raised => some ({ launch with stage := .undoing launch.queued }, r)
      | _ => none
    | .recording j rest =>
      if (r.jobs[j]?).map Job.worker = some .over then
        some ({ launch with stage := .undoing rest }, r)
      else none
    | .undoing [] => some ({ launch with stage := .raised }, r)
    | _ => none
  | .cancel =>
    match launch.stage with
    | .undoing (j :: rest) => some ({ launch with stage := .looked j rest r.jobs[j]? }, r.cancel j)
    | _ => none
  | .flag =>
    match launch.stage with
    | .flagging j rest =>
      (r.thread j .flag).map fun r' => ({ launch with stage := .marking j rest }, r')
    | _ => none
  | .mark reply =>
    match launch.stage with
    | .marking j rest =>
      (r.thread j (.mark reply)).map fun r' =>
        ({ launch with stage := if reply.isDone then .undoing rest else .raised }, r')
    | _ => none

end Launch

/-! ## Launches beside the orchestrator -/

/-- The orchestrator, the launches made, and the devices its engines have come to. -/
structure Board (Target Device : Type) where
  rollouts : State Target Device
  launches : List (Launch Target Device)
  /-- A job's devices past the check of its cancel flag, by their place in the job. -/
  reached : List (JobId × Nat)
  sent : List (JobId × Nat)

inductive BoardAction (Target Device : Type) where
  | rollouts (a : Action Target Device)
  | launch (devices : List Device) (platform : Device → Str) (target : Device → Target)
    (commands : Commands)
  | on (l : Nat) (e : LaunchEvent)
  /-- `_push_device`: the check, and a command sent to the device. -/
  | reach (j : JobId) (i : Nat)
  | send (j : JobId) (i : Nat)

namespace Board

/-- As the app starts. -/
def init (maxConcurrent : Nat) : Board Target Device := ⟨.init maxConcurrent, [], [], []⟩

variable (s : Board Target Device)

/-- Whether the engine runs job `j`, and comes to its device `i`. -/
def runs (j : JobId) (i : Nat) : Bool :=
  (s.rollouts.jobs[j]?).any fun job =>
    job.worker = .running && (!job.commands.isEmpty && i < job.devices.length)

/-- Whether a cancel of job `j` has set its flag. -/
def flagged (j : JobId) : Bool := (s.rollouts.jobs[j]?).any Job.cancelFlag

variable [DecidableEq Target]

def step : BoardAction Target Device → Option (Board Target Device)
  | .rollouts a => (s.rollouts.step a).map fun r => { s with rollouts := r }
  | .launch devices platform target commands =>
    match groups devices platform commands with
    | .ok groups =>
      some { s with launches := s.launches ++ [⟨target, groups, [], .submitting⟩] }
    | .error _ => some { s with launches := s.launches ++ [⟨target, [], [], .raised⟩] }
  | .on l e => do
    let launch ← s.launches[l]?
    let (launch', r) ← launch.step s.rollouts e
    some { s with launches := s.launches.set l launch', rollouts := r }
  | .reach j i =>
    if s.runs j i && !s.flagged j && !s.reached.contains (j, i) then
      some { s with reached := (j, i) :: s.reached }
    else none
  | .send j i =>
    if s.runs j i && s.reached.contains (j, i) then some { s with sent := (j, i) :: s.sent }
    else none

end Board

/-- The app's launches. -/
def board (Target Device : Type) [DecidableEq Target] :
    System (Board Target Device) (BoardAction Target Device) where
  Init s := ∃ maxConcurrent, s = .init maxConcurrent
  step s := s.step

/-- **All or none**: of a launch that raised, no job it queued has sent a device a command. -/
def AllOrNone (s : Board Target Device) : Prop :=
  ∀ launch ∈ s.launches, launch.stage = .raised → ∀ j ∈ launch.queued, ∀ i, (j, i) ∉ s.sent

/-- No device of the job is past the check. -/
def Board.untouched (s : Board Target Device) (j : JobId) : Bool := s.reached.all (·.1 ≠ j)

/-- The undo comes in time: it stops each job before a device of it is reached, and it does
not end before it has come to each. -/
def inTime (s : Board Target Device) : BoardAction Target Device → Bool
  | .on l e => (s.launches[l]?).all fun launch => match launch.stage, e with
    | .undoing (j :: _), .cancel => (s.rollouts.jobs[j]?).any Job.listed || s.untouched j
    | .flagging j _, .flag => s.untouched j
    | .marking _ rest, .mark r => r.isDone || rest.isEmpty
    | _, _ => true
  | _ => true

/-! ## Jobs that are stopped -/

/-- The engine comes to no further device of the job: it never runs, it has run, or its flag
is set. -/
def Barred (job : Job Target Device) : Prop := job.cancelFlag = true ∨ job.worker.live = false

section Single

variable {s s' : State Target Device} {a : Action Target Device}

theorem cancelFlag_of_work {j : JobId} {e : Event} {job job' : Job Target Device} {fx : Effects}
    (h : job.Work j e job' fx) : job'.cancelFlag = job.cancelFlag := by
  cases h with
  | gone hw hlisted h =>
    obtain ⟨w, -, rfl, -⟩ := job.eq_of_finish h
    rfl
  | dropped hw h =>
    obtain ⟨w, -, rfl, -⟩ := Job.eq_of_finish _ h
    rfl
  | escaped hw r redis h =>
    obtain ⟨w, -, rfl, -⟩ := job.eq_of_escape h
    rfl
  | closed hw r h =>
    obtain ⟨w, -, rfl, -⟩ := job.eq_of_finish h
    rfl
  | _ => rfl

/-- A step of a job's threads keeps it barred. -/
theorem barred_of_step {j : JobId} {e : Event} {job job' : Job Target Device} {fx : Effects}
    (h : job.step j e = some (job', fx)) (hb : Barred job) : Barred job' := by
  rcases Job.step_cases h with ⟨r, -, hsubmits⟩ | ⟨rfl | ⟨r, rfl⟩, -⟩ | hwork
  · cases hsubmits <;> exact hb
  · simp only [Job.step, Job.cancelStep] at h
    split at h <;> cases h
    exact .inl rfl
  · simp only [Job.step, Job.cancelStep] at h
    split at h <;> cases h
    exact hb
  · rcases hb with hflag | hidle
    · exact .inl ((cancelFlag_of_work hwork).trans hflag)
    · refine .inr (Bool.eq_false_iff.mpr fun hlive => ?_)
      rw [(live_of_work hwork hlive).1] at hidle
      cases hidle

/-- So does every other step. -/
theorem barred_of_others {i : JobId} {job job' : Job Target Device} (hjob : Staged job)
    (hstarting : s.dispatcher = .starting i [] → Claimed job) (h : Others s i job job')
    (hb : Barred job) : Barred job' := by
  cases h with
  | same => exact hb
  | asked flagging => exact hb
  | claim who hqueued hwho =>
    rcases hb with hflag | hidle
    · exact .inl hflag
    · rw [hjob.of_queued hqueued] at hidle
      cases hidle
  | start hdispatcher =>
    rcases hb with hflag | hidle
    · exact .inl hflag
    · rw [(hstarting hdispatcher).1] at hidle
      cases hidle

/-- A move leaves no job where nobody had claimed it, unless it was there. -/
theorem unclaimed_of_moves {i : JobId} {job job' : Job Target Device} (h : Moves s a i job job')
    (hw : job'.worker = .unclaimed) : job.worker = .unclaimed := by
  cases h with
  | same => exact hw
  | asked flag flagging marking => exact hw
  | submits r ha h => cases h <;> exact hw
  | works e ha h =>
    obtain ⟨-, rfl⟩ := live_of_work h (by rw [hw]; rfl)
    cases hw
  | claim who hqueued => cases who <;> cases hw
  | start ha hstarting => cases hw

variable [DecidableEq Target]

/-- On the way to the engine or in it, a job is in the table unless its `submit()` took it
out. -/
theorem listed_of_live {allowed : State Target Device → Action Target Device → Bool}
    (h : (orchestrator Target Device).Reachable allowed s) : ∀ job ∈ s.jobs,
      job.worker.live = true → job.listed = true ∨ job.submit.withdrawn = true := by
  refine forall_jobs (P := fun job => job.worker.live = true →
    job.listed = true ∨ job.submit.withdrawn = true) (fun _ _ _ _ _ _ => .inl rfl) ?_ h
  intro s a i job job' hs _ hi hjob hmoves
  cases hmoves with
  | same => exact hjob
  | asked flag flagging marking => exact hjob
  | submits r ha h =>
    cases h with
    | on next redis hsame => exact fun hlive => (hjob hlive).imp id hsame.trans
    | withdraw added hsubmit => exact fun _ => .inr rfl
  | works e ha h =>
    intro hlive
    obtain ⟨hw, rfl⟩ := live_of_work h hlive
    exact hjob (by rw [hw]; rfl)
  | claim who hqueued => exact fun _ => .inl (Bool.and_eq_true_iff.mp hqueued).1
  | start ha hstarting =>
    have hclaimed := claimed_of_starting hs hstarting hi
    exact fun _ => hjob (by rw [hclaimed.1]; rfl)

/-- **What a step does to one job**, for what a launch rests on. -/
theorem kept_of_moves {allowed : State Target Device → Action Target Device → Bool}
    (h : (orchestrator Target Device).Reachable allowed s) (hstep : s.step a = some s') {j : JobId}
    {job : Job Target Device} (hj : s.jobs[j]? = some job) :
    ∃ job', s'.jobs[j]? = some job' ∧ (Barred job → Barred job') ∧
      (job.submit = .returned → job'.submit = .returned) ∧
      (job'.worker = .unclaimed → job.worker = .unclaimed) := by
  obtain ⟨job', hj', hmoves⟩ := moves_of_mem hstep hj
  suffices hboth : (Barred job → Barred job') ∧
      (job.submit = .returned → job'.submit = .returned) from
    ⟨job', hj', hboth.1, hboth.2, unclaimed_of_moves hmoves⟩
  have hstepped := stepped hstep
  by_cases ha : ∃ i e, a = .thread i e
  · obtain ⟨i, e, rfl⟩ := ha
    cases hstepped with
    | threaded i e job₀ job₁ fx hjob hturn hjobStep =>
      rcases ListUpdate.getElem?_set_cases hj' with ⟨rfl, rfl⟩ | ⟨-, hj'⟩
      · obtain rfl : job = job₀ := Option.some.inj (hj.symm.trans hjob)
        exact ⟨barred_of_step hjobStep, (kept_of_step hjobStep).2⟩
      · obtain rfl : job = job' := Option.some.inj (hj.symm.trans hj')
        exact ⟨fun hb => hb, fun hreturned => hreturned⟩
  · rcases others_of_stepped hstepped (fun i e hthread => ha ⟨i, e, hthread⟩) hj' with
      ⟨job₁, hjob₁, hothers⟩ | ⟨rfl, -⟩
    · obtain rfl : job = job₁ := Option.some.inj (hj.symm.trans hjob₁)
      have hstaged := staged_of_reachable h job (List.mem_of_getElem? hj)
      exact ⟨barred_of_others hstaged (fun hstarting => claimed_of_starting h hstarting hj) hothers,
        hothers.listed_eq.2.trans⟩
    · exact absurd (List.getElem?_eq_some_iff.mp hj).1 (lt_irrefl _)

end Single

/-! ## The invariant -/

/-- The jobs whose cancel is still to come, or has not set the flag. -/
def Stage.open_ (queued : List JobId) : Stage → List JobId
  | submitting | awaiting _ | returned => queued
  | undoing rest | recording _ rest | marking _ rest => rest
  | flagging j rest => j :: rest
  | raised => []

/-- A cancel leaves those after it. -/
theorem Stage.mem_open_looked (queued : List JobId) {i j : JobId} {rest : List JobId}
    (job : Option (Job Target Device)) (h : i ∈ rest) :
    i ∈ (Stage.looked j rest job).open_ queued := by
  unfold Stage.looked
  split
  · exact h
  · split
    · exact h
    · split
      · exact List.mem_cons_of_mem j h
      · exact h

def Launch.open_ (launch : Launch Target Device) : List JobId :=
  launch.stage.open_ launch.queued

namespace Board

variable {s s' : Board Target Device}

/-- No device of the job is reached, and none will be. -/
def Stopped (s : Board Target Device) (j : JobId) : Prop :=
  (∀ i, (j, i) ∉ s.reached) ∧ ∃ job, s.rollouts.jobs[j]? = some job ∧ Barred job

/-- What is known of a launch. -/
structure Known (s : Board Target Device) (launch : Launch Target Device) : Prop where
  returned : ∀ j ∈ launch.queued, ∃ job, s.rollouts.jobs[j]? = some job ∧ job.submit = .returned
  stopped : ∀ j ∈ launch.queued, j ∈ launch.open_ ∨ s.Stopped j

/-- The invariant. -/
structure Undone [DecidableEq Target] (s : Board Target Device) : Prop where
  reachable : (orchestrator Target Device).Reachable System.always s.rollouts
  reached : ∀ (j : JobId) (i : Nat), (j, i) ∈ s.reached →
    ∃ job, s.rollouts.jobs[j]? = some job ∧ job.worker ≠ .unclaimed
  sent : ∀ p ∈ s.sent, p ∈ s.reached
  launches : ∀ launch ∈ s.launches, s.Known launch

theorem undone_init [DecidableEq Target] (maxConcurrent : Nat) :
    Undone (.init maxConcurrent : Board Target Device) where
  reachable := ⟨_, [], ⟨maxConcurrent, rfl⟩, rfl⟩
  reached _ _ hreached := absurd hreached List.not_mem_nil
  sent _ hp := absurd hp List.not_mem_nil
  launches _ hlaunch := absurd hlaunch List.not_mem_nil

theorem not_mem_of_untouched {j : JobId} (h : s.untouched j = true) (i : Nat) :
    (j, i) ∉ s.reached := by
  intro hreached
  have hne := List.all_eq_true.mp h (j, i) hreached
  simp at hne

/-- The engine does not come to a stopped job. -/
theorem not_reach_of_stopped {j i : Nat} (h : s.Stopped j) (hruns : s.runs j i = true) :
    s.flagged j = true := by
  obtain ⟨-, job, hjob, hb⟩ := h
  simp only [runs, hjob, Option.any_some, Bool.and_eq_true, decide_eq_true_eq] at hruns
  rcases hb with hflag | hidle
  · simpa [flagged, hjob] using hflag
  · rw [hruns.1] at hidle
    cases hidle

variable [DecidableEq Target]

/-- A step of the orchestrator, whoever takes it. -/
theorem Undone.rollouts (h : Undone s) {a : Action Target Device} {r : State Target Device}
    (hstep : s.rollouts.step a = some r) : Undone { s with rollouts := r } where
  reachable := h.reachable.step rfl hstep
  reached j i hreached := by
    obtain ⟨job, hjob, hw⟩ := h.reached j i hreached
    obtain ⟨job', hjob', -, -, hsame⟩ := kept_of_moves h.reachable hstep hjob
    exact ⟨job', hjob', fun hw' => hw (hsame hw')⟩
  sent := h.sent
  launches launch hlaunch := by
    obtain ⟨hreturned, hstopped⟩ := h.launches launch hlaunch
    constructor
    · intro j hj
      obtain ⟨job, hjob, hsubmit⟩ := hreturned j hj
      obtain ⟨job', hjob', -, hsame, -⟩ := kept_of_moves h.reachable hstep hjob
      exact ⟨job', hjob', hsame hsubmit⟩
    · intro j hj
      rcases hstopped j hj with hopen | ⟨hnone, job, hjob, hb⟩
      · exact .inl hopen
      · obtain ⟨job', hjob', hsame, -⟩ := kept_of_moves h.reachable hstep hjob
        exact .inr ⟨hnone, job', hjob', hsame hb⟩

/-- A launch goes on. -/
theorem Undone.set (h : Undone s) (l : Nat) {launch : Launch Target Device}
    (hknown : s.Known launch) : Undone { s with launches := s.launches.set l launch } where
  reachable := h.reachable
  reached := h.reached
  sent := h.sent
  launches other hother := by
    rcases List.mem_or_eq_of_mem_set hother with hother | rfl
    · exact ⟨(h.launches other hother).returned, (h.launches other hother).stopped⟩
    · exact ⟨hknown.returned, hknown.stopped⟩

omit [DecidableEq Target] in
/-- Nothing is left out that was still to be cancelled. -/
theorem Known.next {launch launch' : Launch Target Device} (h : s.Known launch)
    (hqueued : launch'.queued = launch.queued)
    (hopen : ∀ j ∈ launch.queued, j ∈ launch.open_ → j ∈ launch'.open_ ∨ s.Stopped j) :
    s.Known launch' := by
  constructor
  · rw [hqueued]
    exact h.returned
  · rw [hqueued]
    intro j hj
    rcases h.stopped j hj with hstill | hstopped
    · exact hopen j hj hstill
    · exact .inr hstopped

omit [DecidableEq Target] in
/-- The launch queues its jobs, or begins to undo them all. -/
theorem Known.all {launch launch' : Launch Target Device} (h : s.Known launch)
    (hqueued : launch'.queued = launch.queued) (hall : launch'.open_ = launch'.queued) :
    s.Known launch' := by
  refine h.next hqueued fun j hj _ => .inl ?_
  rw [hall, hqueued]
  exact hj

/-- What a cancel's look at a job the launch queued comes to. -/
theorem cancel_stops (h : Undone s) {j : JobId} {job : Job Target Device}
    (hjob : s.rollouts.jobs[j]? = some job) (hreturned : job.submit = .returned)
    (htime : job.listed = true ∨ s.untouched j = true)
    (hend : job.queued = true ∨ job.listed = false) :
    Stopped { s with rollouts := s.rollouts.cancel j } j := by
  have hmem := List.mem_of_getElem? hjob
  by_cases hqueued : job.queued = true
  · -- taken before the dispatcher: it never runs
    constructor
    · intro i hreached
      obtain ⟨job₁, hjob₁, hw⟩ := h.reached j i hreached
      obtain rfl : job = job₁ := Option.some.inj (hjob.symm.trans hjob₁)
      exact hw ((staged_of_reachable h.reachable job hmem).of_queued hqueued)
    · refine ⟨job.claim .cancel, ?_, .inr rfl⟩
      show (s.rollouts.cancel j).jobs[j]? = _
      simp only [State.cancel, hjob, hqueued, if_true]
      exact List.getElem?_set_self (List.getElem?_eq_some_iff.mp hjob).1
  · have hleft := hend.resolve_left hqueued
    rw [Bool.not_eq_true] at hqueued
    have htouched := htime.resolve_left (by rw [hleft]; exact Bool.false_ne_true)
    refine ⟨not_mem_of_untouched htouched, job, ?_, .inr ?_⟩
    · show (s.rollouts.cancel j).jobs[j]? = _
      simp only [State.cancel, hjob, hqueued, hleft, Bool.false_eq_true, if_false]
    · rw [Bool.eq_false_iff]
      intro hlive
      rcases listed_of_live h.reachable job hmem hlive with hlisted | hwithdrawn
      · rw [hleft] at hlisted
        cases hlisted
      · rw [hreturned] at hwithdrawn
        cases hwithdrawn

omit [DecidableEq Target] in
/-- A cancel of a running job sets its flag. -/
theorem flag_stops {j : JobId} (h : s.untouched j = true) {r : State Target Device}
    (hstep : s.rollouts.thread j .flag = some r) : Stopped { s with rollouts := r } j := by
  obtain ⟨job, job', fx, hjob, -, hjobStep, rfl⟩ := thread_cases hstep
  refine ⟨not_mem_of_untouched h, job', ?_, .inl ?_⟩
  · exact List.getElem?_set_self (List.getElem?_eq_some_iff.mp hjob).1
  · simp only [Job.step, Job.cancelStep] at hjobStep
    split at hjobStep <;> cases hjobStep
    rfl

/-- A call's end: the job joins those to be cancelled should a later one fail. -/
theorem Undone.answer (h : Undone s) {l : Nat} {launch launch' : Launch Target Device}
    {r : State Target Device} (hl : s.launches[l]? = some launch)
    (hstep : launch.step s.rollouts .answer = some (launch', r)) :
    Undone { s with launches := s.launches.set l launch', rollouts := r } := by
  have hknown := h.launches launch (List.mem_of_getElem? hl)
  simp only [Launch.step] at hstep
  split at hstep
  · split at hstep <;> cases hstep
    exact h.set l (hknown.all rfl rfl)
  · next j hstage =>
    split at hstep <;> cases hstep
    · next hsubmit =>
      obtain ⟨job, hjob, hreturned⟩ := Option.map_eq_some_iff.mp hsubmit
      refine h.set l ⟨fun i hi => ?_, fun i hi => .inl hi⟩
      rcases List.mem_append.mp hi with hi | hi
      · exact hknown.returned i hi
      · rw [List.mem_singleton] at hi
        subst hi
        exact ⟨job, hjob, hreturned⟩
    · exact h.set l (hknown.all rfl rfl)
  · next j rest hstage =>
    split at hstep <;> cases hstep
    refine h.set l (hknown.next rfl fun i _ hi => .inl ?_)
    rwa [Launch.open_, hstage] at hi
  · next hstage =>
    cases hstep
    refine h.set l (hknown.next rfl fun i _ hi => .inl ?_)
    rwa [Launch.open_, hstage] at hi
  · cases hstep

/-- A cancel's look at the table: a queued job is claimed, a running one's flag comes next, and
one that has left the table is barred. -/
theorem Undone.cancel (h : Undone s) {l : Nat} {launch : Launch Target Device} {j : JobId}
    {rest : List JobId} (hl : s.launches[l]? = some launch)
    (hstage : launch.stage = .undoing (j :: rest))
    (htime : (s.rollouts.jobs[j]?).any Job.listed = true ∨ s.untouched j = true) :
    Undone { s with
      launches := s.launches.set l { launch with stage := .looked j rest s.rollouts.jobs[j]? }
      rollouts := s.rollouts.cancel j } := by
  have hmem := List.mem_of_getElem? hl
  have hafter := h.rollouts (a := .cancel j) rfl
  refine hafter.set l ((hafter.launches launch hmem).next rfl fun i hi hopen => ?_)
  rw [Launch.open_, hstage] at hopen
  obtain ⟨job, hjob, hreturned⟩ := (h.launches launch hmem).returned i hi
  rcases List.mem_cons.mp hopen with rfl | hopen
  · rw [hjob, Option.any_some] at htime
    rw [Launch.open_, hjob, Stage.looked]
    by_cases hqueued : job.queued = true
    · exact .inr (cancel_stops h hjob hreturned htime (.inl hqueued))
    · by_cases hlisted : job.listed = true
      · rw [if_neg hqueued, if_pos hlisted]
        exact .inl List.mem_cons_self
      · have hleft := Bool.eq_false_iff.mpr hlisted
        exact .inr (cancel_stops h hjob hreturned htime (.inr hleft))
  · exact .inl (Stage.mem_open_looked launch.queued _ hopen)

/-- **A step of a launch.** -/
theorem Undone.on (h : Undone s) {l : Nat} {e : LaunchEvent} {launch launch' : Launch Target Device}
    {r : State Target Device} (htime : inTime s (.on l e) = true)
    (hl : s.launches[l]? = some launch) (hstep : launch.step s.rollouts e = some (launch', r)) :
    Undone { s with launches := s.launches.set l launch', rollouts := r } := by
  have hmem := List.mem_of_getElem? hl
  have hknown := h.launches launch hmem
  simp only [inTime, hl, Option.all_some] at htime
  cases e with
  | submit =>
    simp only [Launch.step] at hstep
    split at hstep <;> cases hstep
    next devices commands groups hstage hgroups =>
    have hafter := h.rollouts (a := .submit devices launch.target commands) rfl
    refine hafter.set l ((hafter.launches launch hmem).all ?_ ?_)
    · split <;> rfl
    · split <;> rfl
  | refuse =>
    simp only [Launch.step] at hstep
    split at hstep <;> cases hstep
    exact h.set l (hknown.all rfl rfl)
  | answer => exact h.answer hl hstep
  | cancel =>
    simp only [Launch.step] at hstep
    split at hstep <;> cases hstep
    next j rest hstage =>
    simp only [hstage, Bool.or_eq_true] at htime
    exact h.cancel hl hstage htime
  | flag =>
    simp only [Launch.step] at hstep
    split at hstep
    · next j rest hstage =>
      obtain ⟨r', hthread, heq⟩ := Option.map_eq_some_iff.mp hstep
      cases heq
      simp only [hstage] at htime
      have hafter := h.rollouts (a := .thread j .flag) hthread
      refine hafter.set l ((hafter.launches launch hmem).next rfl fun i _ hopen => ?_)
      rw [Launch.open_, hstage] at hopen
      rcases List.mem_cons.mp hopen with rfl | hopen
      · exact .inr (flag_stops htime hthread)
      · exact .inl hopen
    · cases hstep
  | mark reply =>
    simp only [Launch.step] at hstep
    split at hstep
    · next j rest hstage =>
      obtain ⟨r', hthread, heq⟩ := Option.map_eq_some_iff.mp hstep
      cases heq
      simp only [hstage, Bool.or_eq_true, List.isEmpty_iff] at htime
      have hafter := h.rollouts (a := .thread j (.mark reply)) hthread
      refine hafter.set l ((hafter.launches launch hmem).next rfl fun i _ hopen => .inl ?_)
      rw [Launch.open_, hstage] at hopen
      rcases htime with hdone | hlast
      · rw [Launch.open_, if_pos hdone]
        exact hopen
      · rw [hlast] at hopen
        cases hopen
    · cases hstep

/-- **The step lemma.** -/
theorem Undone.step {a : BoardAction Target Device} (h : Undone s) (htime : inTime s a = true)
    (hstep : s.step a = some s') : Undone s' := by
  cases a with
  | rollouts a =>
    obtain ⟨r, hr, rfl⟩ := Option.map_eq_some_iff.mp hstep
    exact h.rollouts hr
  | launch devices platform target commands =>
    have hnew (launch : Launch Target Device) (hnone : launch.queued = []) :
        Undone { s with launches := s.launches ++ [launch] } := by
      refine ⟨h.reachable, h.reached, h.sent, ?_⟩
      refine ListUpdate.forall_mem_concat (fun other hother => ?_) ?_
      · exact ⟨(h.launches other hother).returned, (h.launches other hother).stopped⟩
      · constructor
        · rw [hnone]
          nofun
        · rw [hnone]
          nofun
    simp only [Board.step] at hstep
    split at hstep <;> cases hstep
    · exact hnew _ rfl
    · exact hnew _ rfl
  | on l e =>
    simp only [Board.step, Option.bind_eq_bind, Option.bind_eq_some_iff] at hstep
    obtain ⟨launch, hl, ⟨launch', r⟩, hlaunch, heq⟩ := hstep
    cases heq
    exact h.on htime hl hlaunch
  | reach j i =>
    simp only [Board.step] at hstep
    split at hstep <;> cases hstep
    next hreach =>
    simp only [Bool.and_eq_true, Bool.not_eq_true'] at hreach
    obtain ⟨⟨hruns, hflag⟩, -⟩ := hreach
    have hrunning := hruns
    simp only [runs, Option.any_eq_true, Bool.and_eq_true, decide_eq_true_eq] at hrunning
    obtain ⟨job, hjob, hw, -⟩ := hrunning
    refine ⟨h.reachable, ?_, ?_, ?_⟩
    · intro j' i' hreached
      rcases List.mem_cons.mp hreached with heq | hreached
      · cases heq
        exact ⟨job, hjob, by rw [hw]; nofun⟩
      · exact h.reached j' i' hreached
    · exact fun p hp => List.mem_cons_of_mem _ (h.sent p hp)
    · intro launch hlaunch
      have hknown := h.launches launch hlaunch
      refine ⟨hknown.returned, fun j' hj' => ?_⟩
      rcases hknown.stopped j' hj' with hopen | hstopped
      · exact .inl hopen
      · refine .inr ⟨fun i' hreached => ?_, hstopped.2⟩
        rcases List.mem_cons.mp hreached with heq | hreached
        · cases heq
          rw [not_reach_of_stopped hstopped hruns] at hflag
          cases hflag
        · exact hstopped.1 i' hreached
  | send j i =>
    simp only [Board.step] at hstep
    split at hstep <;> cases hstep
    next hsend =>
    simp only [Bool.and_eq_true, List.contains_iff_mem] at hsend
    refine ⟨h.reachable, h.reached, ?_, fun launch hlaunch => ?_⟩
    · intro p hp
      rcases List.mem_cons.mp hp with rfl | hp
      · exact hsend.2
      · exact h.sent p hp
    · exact ⟨(h.launches launch hlaunch).returned, (h.launches launch hlaunch).stopped⟩

end Board

/-! ## All or none -/

section Runs

variable [DecidableEq Target] {s : Board Target Device}

/-- **The run lemma.** -/
theorem undone_of_inTime (h : (board Target Device).Reachable inTime s) : s.Undone :=
  h.invariant (by rintro s ⟨maxConcurrent, rfl⟩; exact Board.undone_init maxConcurrent)
    fun _ _ _ _ htime hs hstep => hs.step htime hstep

/-- **A launch is all or none** in every run in which its undo comes in time. -/
theorem allOrNone_of_inTime (h : (board Target Device).Reachable inTime s) : AllOrNone s := by
  intro launch hlaunch hraised j hj i hsent
  have hundone := undone_of_inTime h
  rcases (hundone.launches launch hlaunch).stopped j hj with hopen | hstopped
  · rw [Launch.open_, hraised] at hopen
    cases hopen
  · exact hstopped.1 i (hundone.sent (j, i) hsent)

end Runs

/-! ## Runs -/

/-- Three platforms. -/
def platformOf (d : Nat) : Str := if d < 10 then ['a'] else if d < 20 then ['b'] else ['c']

def launched (devices : List Nat) : BoardAction Nat Nat :=
  .launch devices platformOf id (.perPlatform fun _ => some ['x'])

/-- The launch queues its next job. -/
def queueNext (j : JobId) : List (BoardAction Nat Nat) :=
  .on 0 .submit :: List.replicate 5 (.rollouts (.thread j (.submit .done))) ++ [.on 0 .answer]

/-- The dispatcher starts it, and its engine comes to a device and sends it a command. -/
def startNext (j : JobId) : List (BoardAction Nat Nat) :=
  [.rollouts (.pop .done), .rollouts .acquire, .rollouts .take, .rollouts (.mark (.lost true true)),
    .rollouts .start, .rollouts (.thread j (.line true)), .reach j 0]

/-- Rollouts are paused, and the next platform is refused. -/
def refused : List (BoardAction Nat Nat) := [.rollouts .pause, .on 0 .submit, .on 0 .cancel]

/-- A launch refused on its second platform while the first still waits for a slot. -/
theorem allOrNone_queued :
    ∃ s, (board Nat Nat).Reachable inTime s ∧
      (∃ launch ∈ s.launches, launch.stage = .raised ∧ launch.queued = [0]) ∧ AllOrNone s := by
  have hrun : ((board Nat Nat).exec inTime (.init 4)
      (List.flatten [launched [14, 3] :: queueNext 0, refused,
        [.rollouts (.thread 0 (.line true)), .rollouts (.thread 0 (.call .done)),
          .rollouts (.thread 0 .lock), .rollouts (.thread 0 .save)],
        List.replicate 5 (.rollouts (.thread 0 (.call .done))),
        [.on 0 .answer, .on 0 .answer]])).any
      (fun s => s.launches.any fun launch => launch.stage = .raised && launch.queued = [0]) =
        true := by decide
  obtain ⟨s, hs, hends⟩ := System.exists_reachable (by exact ⟨4, rfl⟩) hrun
  simp only [List.any_eq_true, Bool.and_eq_true, decide_eq_true_eq] at hends
  exact ⟨s, hs, hends, allOrNone_of_inTime hs⟩

theorem not_allOrNone_of_sent {s : Board Nat Nat} {j : JobId}
    (h : (s.launches.any fun launch => launch.stage = .raised && launch.queued.contains j) = true)
    (hsent : s.sent.contains (j, 0) = true) : ¬ AllOrNone s := by
  intro hnone
  simp only [List.any_eq_true, Bool.and_eq_true, decide_eq_true_eq, List.contains_iff_mem] at h hsent
  obtain ⟨launch, hlaunch, hraised, hj⟩ := h
  exact hnone launch hlaunch hraised j hj 0 hsent

/-- **A launch is not all or none**: the first platform's rollout has come to a device when
the second is refused; and when Redis fails under the cancel of a running job, the next one
is not cancelled, and runs. -/
theorem not_allOrNone :
    (∃ s, (board Nat Nat).Reachable System.always s ∧ ¬ AllOrNone s) ∧
    ∃ s, (board Nat Nat).Reachable System.always s ∧ ¬ AllOrNone s := by
  constructor
  · have hrun : ((board Nat Nat).exec System.always (.init 4)
        (launched [14, 3] :: queueNext 0 ++ startNext 0 ++ refused ++
          [.on 0 .flag, .on 0 (.mark .done), .on 0 .answer, .send 0 0])).any
        (fun s => (s.launches.any fun launch =>
          launch.stage = .raised && launch.queued.contains 0) && s.sent.contains (0, 0)) = true := by
      decide
    obtain ⟨s, hs, hends⟩ := System.exists_reachable (by exact ⟨4, rfl⟩) hrun
    obtain ⟨hraised, hsent⟩ := Bool.and_eq_true_iff.mp hends
    exact ⟨s, hs, not_allOrNone_of_sent hraised hsent⟩
  · have hrun : ((board Nat Nat).exec System.always (.init 4)
        (launched [14, 3, 25] :: queueNext 0 ++ startNext 0 ++ queueNext 1 ++ refused ++
          [.on 0 .flag, .on 0 (.mark (.lost false true))] ++ startNext 1 ++ [.send 1 0])).any
        (fun s => (s.launches.any fun launch =>
          launch.stage = .raised && launch.queued.contains 1) && s.sent.contains (1, 0)) = true := by
      decide
    obtain ⟨s, hs, hends⟩ := System.exists_reachable (by exact ⟨4, rfl⟩) hrun
    obtain ⟨hraised, hsent⟩ := Bool.and_eq_true_iff.mp hends
    exact ⟨s, hs, not_allOrNone_of_sent hraised hsent⟩

end Jobs
end NetRollout
