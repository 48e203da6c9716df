import NetRollout.Library.ListUpdate
import NetRollout.Jobs.Orchestrator

/-!
# The life of a job

What any step of the orchestrator does to one job: a thread around it moves, it is
claimed while queued, a cancel asks it to stop, or its runner starts; everything else
leaves it as it is (`Moves`, `passes_of_step`).  A property of single jobs that a new job
has and that these moves keep holds of every job of every reachable state
(`forall_jobs`).

What the thread that claimed a job can do is said once, case by case (`Work`); so is
what the `submit()` call can do (`Submits`).
-/

namespace NetRollout
namespace Jobs

open Session (DeviceStatus)

variable {Target Device : Type}

/-! ## The steps of the threads around a job -/

/-- The call has taken the job out of the table again: it raises. -/
def Submit.withdrawn : Submit → Bool
  | unqueuing _ | undoing _ | raised => true
  | _ => false

namespace Job

variable (j : JobId) (job : Job Target Device)

/-- The steps of the `submit()` call. -/
inductive Submits : Job Target Device → Effects → Prop where
  | on (next : Submit) (redis : List Command) (h : next.withdrawn = job.submit.withdrawn) :
    Submits { job with submit := next } { redis := redis }
  | withdraw (added : Bool) (h : job.submit = .withdrawing added) :
    Submits { job with listed := false, submit := .unqueuing added } { unhold := true }

theorem submits_of_submitStep {r : Reply} {job' : Job Target Device} {fx : Effects}
    (h : job.submitStep j r = some (job', fx)) : job.Submits job' fx := by
  unfold submitStep at h
  split at h
  case h_5 added hsubmit =>
    cases h
    exact .withdraw added hsubmit
  case h_2 hsubmit =>
    cases h
    refine .on _ _ ?_
    rw [hsubmit]
    split
    · rfl
    · split <;> rfl
  case h_3 hsubmit =>
    cases h
    refine .on _ [] ?_
    rw [hsubmit]
    split <;> rfl
  case h_4 hsubmit =>
    cases h
    refine .on _ _ ?_
    rw [hsubmit]
    split <;> rfl
  case h_6 hsubmit =>
    cases h
    refine .on _ _ ?_
    rw [hsubmit]
    rfl
  case h_7 hsubmit =>
    cases h
    refine .on _ [] ?_
    rw [hsubmit]
    rfl
  case h_8 hsubmit =>
    cases h
    refine .on _ _ ?_
    rw [hsubmit]
    split <;> rfl
  all_goals cases h

/-- The steps of the thread that claimed the job. -/
inductive Work : Event → Job Target Device → Effects → Prop where
  | told (hw : job.worker = .cancelling) :
    Work (.line true) { job with results := job.cancelledResults, worker := .unqueuing } {}
  | untold (hw : job.worker = .cancelling) : Work (.line false) { job with worker := .dropping } {}
  | waited (hw : job.worker = .telling) :
    Work (.line true) { job with runs := job.runs + 1, worker := .running } {}
  | unwaited (hw : job.worker = .telling) : Work (.line false) { job with worker := .ended } {}
  | ran (hw : job.worker = .running) (statuses : List DeviceStatus)
    (hlength : statuses.length = job.devices.length) :
    Work (.engine (some statuses))
      { job with results := job.engineResults statuses, worker := .ended } {}
  | aborted (hw : job.worker = .running) : Work (.engine none) { job with worker := .ended } {}
  | unqueued (hw : job.worker = .unqueuing) (r : Reply) (hr : r.survived = true) :
    Work (.call r) { job with worker := .concluding } { redis := r.sent (JobStore.unqueue j) }
  | stillQueued (hw : job.worker = .unqueuing) (r : Reply) (hr : r.survived = false) :
    Work (.call r) { job with worker := .dropping } { redis := r.sent (JobStore.unqueue j) }
  | finalize (hw : job.worker = .concluding ∨ job.worker = .ended) (hlisted : job.listed = true) :
    Work .lock { job with listed := false, worker := .saving } { unhold := true, begin_ := true }
  | gone (hw : job.worker = .concluding ∨ job.worker = .ended) (hlisted : job.listed = false)
    {job' : Job Target Device} {fx : Effects} (h : job.finish {} = (job', fx)) : Work .lock job' fx
  | dropped (hw : job.worker = .dropping) {job' : Job Target Device} {fx : Effects}
    (h : ({ job with listed := false } : Job Target Device).finish { unhold := true } = (job', fx)) :
    Work .lock job' fx
  | saved (hw : job.worker = .saving) (rest : List Command) :
    Work .save { job with saved := job.saved ++ [job.results], worker := .clearing rest }
      { saved := true }
  | cleared (hw : ∃ rest, job.worker = .clearing rest) (r : Reply) (next : Worker)
    (hnext : next = .closing ∨ ∃ rest, next = .clearing rest) (redis : List Command) :
    Work (.call r) { job with worker := next } { redis := redis }
  | escaped (hw : job.worker = .closing ∨ ∃ rest, job.worker = .clearing rest) (r : Reply)
    (redis : List Command) {job' : Job Target Device} {fx : Effects}
    (h : job.escape { redis := redis } = (job', fx)) : Work (.call r) job' fx
  | closed (hw : job.worker = .closing) (r : Reply) {job' : Job Target Device} {fx : Effects}
    (h : job.finish {} = (job', fx)) : Work (.call r) job' fx
  | freed (hw : job.worker = .releasing) :
    Work .free { job with worker := .over } { freeSlot := true }

theorem work_of_finalize (hw : job.worker = .concluding ∨ job.worker = .ended)
    {job' : Job Target Device} {fx : Effects} (h : job.finalize = (job', fx)) :
    job.Work j .lock job' fx := by
  unfold finalize at h
  split at h
  · next hlisted =>
    cases h
    exact .finalize hw hlisted
  · next hlisted => exact .gone hw (Bool.eq_false_iff.mpr hlisted) h

theorem work_of_workerStep {e : Event} {job' : Job Target Device} {fx : Effects}
    (h : job.workerStep j e = some (job', fx)) : job.Work j e job' fx := by
  cases e with
  | line written =>
    unfold workerStep at h
    cases hw : job.worker <;> simp only [hw, reduceCtorEq] at h
    · cases written <;> cases h
      · exact .unwaited hw
      · exact .waited hw
    · cases written <;> cases h
      · exact .untold hw
      · exact .told hw
  | engine statuses =>
    unfold workerStep at h
    cases hw : job.worker <;> simp only [hw, reduceCtorEq] at h
    cases statuses with
    | none =>
      cases h
      exact .aborted hw
    | some statuses =>
      simp only at h
      split at h
      · next hlength =>
        cases h
        exact .ran hw statuses hlength
      · cases h
  | call r =>
    unfold workerStep at h
    cases hw : job.worker <;> simp only [hw, reduceCtorEq] at h
    · cases hr : r.survived <;> simp only [hr] at h <;> cases h
      · exact .stillQueued hw r hr
      · exact .unqueued hw r hr
    · next rest =>
      cases rest with
      | nil =>
        cases h
        exact .cleared ⟨_, hw⟩ r _ (.inl rfl) []
      | cons command rest =>
        simp only at h
        split at h
        · cases h
          exact .cleared ⟨_, hw⟩ r _ (.inr ⟨rest, rfl⟩) _
        · split at h
          · cases h
            exact .cleared ⟨_, hw⟩ r _ (.inl rfl) _
          · exact .escaped (.inr ⟨_, hw⟩) r _ (Option.some.inj h)
    · split at h
      · exact .closed hw r (Option.some.inj h)
      · exact .escaped (.inl hw) r [] (Option.some.inj h)
  | lock =>
    unfold workerStep at h
    cases hw : job.worker <;> simp only [hw, reduceCtorEq] at h
    · exact job.work_of_finalize j (.inr hw) (Option.some.inj h)
    · exact job.work_of_finalize j (.inl hw) (Option.some.inj h)
    · exact .dropped hw (Option.some.inj h)
  | save =>
    unfold workerStep at h
    cases hw : job.worker <;> simp only [hw, reduceCtorEq] at h
    cases h
    exact .saved hw _
  | free =>
    unfold workerStep at h
    cases hw : job.worker <;> simp only [hw, reduceCtorEq] at h
    cases h
    exact .freed hw
  | submit r => cases h
  | flag => cases h
  | mark r => cases h

theorem eq_of_finish {fx fx' : Effects} {job' : Job Target Device}
    (h : job.finish fx = (job', fx')) :
    ∃ w, (w = .over ∨ w = .releasing) ∧ job' = { job with worker := w } ∧
      fx'.unhold = fx.unhold := by
  unfold finish at h
  split at h <;> cases h
  · exact ⟨_, .inr rfl, rfl, rfl⟩
  · exact ⟨_, .inl rfl, rfl, rfl⟩
  · exact ⟨_, .inl rfl, rfl, rfl⟩

theorem eq_of_escape {fx fx' : Effects} {job' : Job Target Device}
    (h : job.escape fx = (job', fx')) :
    ∃ w, (w = .releasing ∨ w = .dropping ∧ job.claimant ≠ some .dispatcher) ∧
      job' = { job with worker := w } ∧ fx' = fx := by
  unfold escape at h
  split at h
  · cases h
    exact ⟨_, .inl rfl, rfl, rfl⟩
  · next hne =>
    cases h
    exact ⟨_, .inr ⟨rfl, hne⟩, rfl, rfl⟩

end Job

/-! ## The steps of the orchestrator -/

/-- What a step can do to a job. -/
inductive Moves (s : State Target Device) (a : Action Target Device) (i : JobId)
    (job : Job Target Device) : Job Target Device → Prop where
  | same : Moves s a i job job
  | submits (r : Reply) (ha : a = .thread i (.submit r)) {job' : Job Target Device} {fx : Effects}
    (h : job.Submits job' fx) : Moves s a i job job'
  | works (e : Event) (ha : a = .thread i e) {job' : Job Target Device} {fx : Effects}
    (h : job.Work i e job' fx) : Moves s a i job job'
  | claim (who : Claimant) (h : job.queued = true) : Moves s a i job (job.claim who)
  | asked (flag : Bool) (flagging marking : Nat) :
    Moves s a i job { job with cancelFlag := flag, flagging := flagging, marking := marking }
  | start (ha : a = .start) (h : s.dispatcher = .starting i []) :
    Moves s a i job { job with worker := .telling }

section Steps

variable {s s' : State Target Device}

/-- A step of a thread around a job, taken apart. -/
theorem thread_cases {j : JobId} {e : Event} (h : s.thread j e = some s') :
    ∃ job job' fx, s.jobs[j]? = some job ∧ s.inTurn j job e = true ∧
      job.step j e = some (job', fx) ∧ s' = { s.after j fx with jobs := s.jobs.set j job' } := by
  simp only [State.thread, Option.bind_eq_bind, Option.bind_eq_some_iff] at h
  obtain ⟨job, hjob, h⟩ := h
  split at h
  · next hturn =>
    obtain ⟨⟨job', fx⟩, hstep, heq⟩ := Option.bind_eq_some_iff.mp h
    exact ⟨job, job', fx, hjob, hturn, hstep, (Option.some.inj heq).symm⟩
  · cases h

theorem moves_of_step {a : Action Target Device} {j : JobId} {e : Event}
    {job job' : Job Target Device} {fx : Effects} (ha : a = .thread j e)
    (h : job.step j e = some (job', fx)) : Moves s a j job job' := by
  cases e with
  | submit r => exact .submits r ha (job.submits_of_submitStep j h)
  | flag =>
    simp only [Job.step, Job.cancelStep] at h
    split at h <;> cases h
    exact .asked _ _ _
  | mark r =>
    simp only [Job.step, Job.cancelStep] at h
    split at h <;> cases h
    exact .asked _ _ _
  | line written => exact .works _ ha (job.work_of_workerStep j h)
  | engine statuses => exact .works _ ha (job.work_of_workerStep j h)
  | call r => exact .works _ ha (job.work_of_workerStep j h)
  | lock => exact .works _ ha (job.work_of_workerStep j h)
  | save => exact .works _ ha (job.work_of_workerStep j h)
  | free => exact .works _ ha (job.work_of_workerStep j h)

/-- The jobs after a step that makes none: as they were, one moved, or each moved. -/
inductive Moved (s : State Target Device) (a : Action Target Device) :
    List (Job Target Device) → Prop where
  | same : Moved s a s.jobs
  | set {j : JobId} {job job' : Job Target Device} (hjob : s.jobs[j]? = some job)
    (h : Moves s a j job job') : Moved s a (s.jobs.set j job')
  | map {f : Job Target Device → Job Target Device} (h : ∀ i job, Moves s a i job (f job)) :
    Moved s a (s.jobs.map f)

theorem Moved.length_eq {a : Action Target Device} {jobs : List (Job Target Device)}
    (h : Moved s a jobs) : jobs.length = s.jobs.length := by
  cases h with
  | same => rfl
  | set => exact List.length_set
  | map => exact List.length_map _

theorem Moved.moves {a : Action Target Device} {jobs : List (Job Target Device)}
    (h : Moved s a jobs) {i : JobId} {job' : Job Target Device} (hi : jobs[i]? = some job') :
    ∃ job, s.jobs[i]? = some job ∧ Moves s a i job job' := by
  cases h with
  | same => exact ⟨job', hi, .same⟩
  | @set j job _ hjob hmoves =>
    rcases ListUpdate.getElem?_set_cases hi with ⟨rfl, rfl⟩ | ⟨-, hi⟩
    · exact ⟨job, hjob, hmoves⟩
    · exact ⟨job', hi, .same⟩
  | map hmoves =>
    rw [List.getElem?_map] at hi
    obtain ⟨job, hjob, rfl⟩ := Option.map_eq_some_iff.mp hi
    exact ⟨job, hjob, hmoves i job⟩

/-- A job the dispatcher has claimed and not started. -/
def Claimed (job : Job Target Device) : Prop :=
  job.worker = .claimed ∧ job.claimant = some .dispatcher

/-- A step that makes no job: only the threads around a job change who holds what, and
only the dispatcher's own steps where it stands. -/
structure Passes (s : State Target Device) (a : Action Target Device)
    (s' : State Target Device) : Prop where
  jobs : Moved s a s'.jobs
  held : s'.held = s.held ∨ ∃ j e, a = .thread j e
  starting : ∀ (j : JobId) (rest : List Command), s'.dispatcher = .starting j rest →
    ((∃ rest, s.dispatcher = .starting j rest) ∧ a ≠ .start) ∨
      ∃ job, s'.jobs[j]? = some job ∧ Claimed job

/-- The dispatcher stands where it stood. -/
theorem Passes.beside {a : Action Target Device} (hjobs : Moved s a s'.jobs)
    (hheld : s'.held = s.held) (hdispatcher : s'.dispatcher = s.dispatcher) (ha : a ≠ .start) :
    Passes s a s' :=
  ⟨hjobs, .inl hheld, fun _ rest h => .inl ⟨⟨rest, hdispatcher ▸ h⟩, ha⟩⟩

variable [DecidableEq Target]

/-- **What a step does** that makes no job. -/
theorem passes_of_step {a : Action Target Device} (h : s.step a = some s')
    (hsubmit : ∀ devices target commands, a ≠ .submit devices target commands) :
    Passes s a s' := by
  cases a with
  | submit devices target commands => exact absurd rfl (hsubmit devices target commands)
  | pause =>
    cases h
    exact .beside .same rfl rfl nofun
  | resume =>
    cases h
    exact .beside .same rfl rfl nofun
  | cancel j =>
    cases h
    unfold State.cancel
    split
    · exact .beside .same rfl rfl nofun
    · next job hjob =>
      split
      · next hqueued => exact .beside (.set hjob (.claim .cancel hqueued)) rfl rfl nofun
      · split
        · exact .beside (.set hjob (.asked _ _ _)) rfl rfl nofun
        · exact .beside .same rfl rfl nofun
  | drain =>
    cases h
    refine .beside (.map fun i job => ?_) rfl rfl nofun
    split
    · next hqueued => exact .claim .drain hqueued
    · exact .same
  | drainCancel =>
    simp only [State.step, State.drainCancel] at h
    split at h <;> cases h
    refine .beside (.map fun i job => ?_) rfl rfl nofun
    split
    · exact .asked _ _ _
    · exact .same
  | pop r =>
    simp only [State.step, State.pop] at h
    split at h <;> cases h
    · refine ⟨.same, .inl rfl, fun j rest hstarting => ?_⟩
      dsimp only at hstarting
      split at hstarting <;> cases hstarting
    · exact .beside .same rfl rfl nofun
  | acquire =>
    simp only [State.step, State.acquire] at h
    split at h
    · split at h <;> cases h
      exact ⟨.same, .inl rfl, fun j rest hstarting => by cases hstarting⟩
    · cases h
  | take =>
    simp only [State.step, State.take] at h
    split at h
    · next k hdispatcher =>
      split at h
      · next job hjob =>
        split at h <;> cases h
        · next hqueued =>
          have hclaim : job.queued = true := (Bool.and_eq_true_iff.mp hqueued).1
          refine ⟨.set hjob (.claim .dispatcher hclaim), .inl rfl, fun j rest hstarting => ?_⟩
          cases hstarting
          exact .inr ⟨job.claim .dispatcher,
            List.getElem?_set_self (List.getElem?_eq_some_iff.mp hjob).1, rfl, rfl⟩
        · exact ⟨.same, .inl rfl, fun j rest hstarting => by cases hstarting⟩
      · cases h
        exact ⟨.same, .inl rfl, fun j rest hstarting => by cases hstarting⟩
    · cases h
  | mark r =>
    simp only [State.step, State.mark] at h
    split at h <;> cases h
    · next k command rest' hdispatcher =>
      refine ⟨.same, .inl rfl, fun j rest hstarting => ?_⟩
      cases hstarting
      exact .inl ⟨⟨_, hdispatcher⟩, nofun⟩
  | start =>
    simp only [State.step, State.start] at h
    split at h
    · next j hdispatcher =>
      split at h
      · next job hjob =>
        cases h
        exact ⟨.set hjob (.start rfl hdispatcher), .inl rfl,
          fun j rest hstarting => by cases hstarting⟩
      · cases h
    · cases h
  | thread j e =>
    obtain ⟨job, job', fx, hjob, -, hstep, rfl⟩ := thread_cases h
    exact ⟨.set hjob (moves_of_step rfl hstep), .inr ⟨j, e, rfl⟩,
      fun j rest hstarting => .inl ⟨⟨rest, hstarting⟩, nofun⟩⟩

/-- A `submit()` is refused, or a job is added. -/
theorem submit_cases (devices : List Device) (target : Device → Target)
    (commands : List PyText.Str) :
    s.submit devices target commands = s ∨
      ((s.submit devices target commands).jobs = s.jobs ++
          [Job.new s.jobs.length (devices.map target).dedup devices commands] ∧
        (s.submit devices target commands).dispatcher = s.dispatcher) := by
  unfold State.submit
  dsimp only
  split
  · exact .inl rfl
  · exact .inr ⟨rfl, rfl⟩

/-- **What a step does to the jobs**: each moves, or is the one a `submit()` made. -/
theorem step_jobs {a : Action Target Device} (h : s.step a = some s') {i : JobId}
    {job' : Job Target Device} (hi : s'.jobs[i]? = some job') :
    (∃ job, s.jobs[i]? = some job ∧ Moves s a i job job') ∨
      ∃ devices target commands, a = .submit devices target commands ∧ i = s.jobs.length ∧
        job' = Job.new i (devices.map target).dedup devices commands := by
  by_cases hsubmit : ∃ devices target commands, a = .submit devices target commands
  · obtain ⟨devices, target, commands, rfl⟩ := hsubmit
    obtain rfl := Option.some.inj h
    rcases submit_cases (s := s) devices target commands with hsame | ⟨hjobs, -⟩
    · rw [hsame] at hi
      exact .inl ⟨job', hi, .same⟩
    · rw [hjobs] at hi
      rcases ListUpdate.getElem?_concat_cases hi with hi | ⟨rfl, rfl⟩
      · exact .inl ⟨job', hi, .same⟩
      · exact .inr ⟨devices, target, commands, rfl, rfl, rfl⟩
  · have hpasses := passes_of_step h fun devices target commands ha => hsubmit ⟨_, _, _, ha⟩
    exact .inl (hpasses.jobs.moves hi)

/-- No job is forgotten. -/
theorem length_le_of_step {a : Action Target Device} (h : s.step a = some s') :
    s.jobs.length ≤ s'.jobs.length := by
  by_cases hsubmit : ∃ devices target commands, a = .submit devices target commands
  · obtain ⟨devices, target, commands, rfl⟩ := hsubmit
    obtain rfl := Option.some.inj h
    rcases submit_cases (s := s) devices target commands with hsame | ⟨hjobs, -⟩
    · rw [hsame]
    · rw [hjobs, List.length_append]
      exact Nat.le_add_right _ _
  · have hpasses := passes_of_step h fun devices target commands ha => hsubmit ⟨_, _, _, ha⟩
    exact hpasses.jobs.length_eq.ge

/-- A job there before a step is there after it, moved. -/
theorem moves_of_mem {a : Action Target Device} (h : s.step a = some s') {i : JobId}
    {job : Job Target Device} (hi : s.jobs[i]? = some job) :
    ∃ job', s'.jobs[i]? = some job' ∧ Moves s a i job job' := by
  have hlt : i < s'.jobs.length :=
    lt_of_lt_of_le (List.getElem?_eq_some_iff.mp hi).1 (length_le_of_step h)
  refine ⟨s'.jobs[i], List.getElem?_eq_getElem hlt, ?_⟩
  rcases step_jobs h (List.getElem?_eq_getElem hlt) with
    ⟨job₁, hjob₁, hmoves⟩ | ⟨devices, target, commands, rfl, rfl, -⟩
  · rw [hi] at hjob₁
    cases hjob₁
    exact hmoves
  · exact absurd (List.getElem?_eq_some_iff.mp hi).1 (lt_irrefl _)

omit [DecidableEq Target] in
theorem claimed_of_moves {a : Action Target Device} {i : JobId} {job job' : Job Target Device}
    (h : Moves s a i job job') (hjob : Claimed job) (ha : a ≠ .start) : Claimed job' := by
  cases h with
  | same => exact hjob
  | submits r ha h => cases h <;> exact hjob
  | works e ha h =>
    have hw := hjob.1
    cases h <;> simp_all
  | claim who h =>
    simp only [Job.queued, hjob.2, Option.isNone_some, Bool.and_false, Bool.false_eq_true] at h
  | asked flag flagging marking => exact hjob
  | start ha' h => exact absurd ha' ha

/-- Only the dispatcher's own steps change where it stands. -/
theorem starting_of_step {a : Action Target Device} (h : s.step a = some s') {j : JobId}
    {rest : List Command} (hstarting : s'.dispatcher = .starting j rest) :
    ((∃ rest, s.dispatcher = .starting j rest) ∧ a ≠ .start) ∨
      ∃ job, s'.jobs[j]? = some job ∧ Claimed job := by
  by_cases hsubmit : ∃ devices target commands, a = .submit devices target commands
  · obtain ⟨devices, target, commands, rfl⟩ := hsubmit
    obtain rfl := Option.some.inj h
    refine .inl ⟨⟨rest, ?_⟩, nofun⟩
    rcases submit_cases (s := s) devices target commands with hsame | ⟨-, hdispatcher⟩
    · exact hsame ▸ hstarting
    · exact hdispatcher ▸ hstarting
  · have hpasses := passes_of_step h fun devices target commands ha => hsubmit ⟨_, _, _, ha⟩
    exact hpasses.starting j rest hstarting

end Steps

/-! ## What holds of every job -/

section Invariants

variable [DecidableEq Target] {allowed : State Target Device → Action Target Device → Bool}

/-- **The rule for single jobs**: what a new job has, and no move of an allowed step
takes away. -/
theorem forall_jobs {P : Job Target Device → Prop}
    (hnew : ∀ s devices target commands, allowed s (.submit devices target commands) = true →
      P (Job.new s.jobs.length (devices.map target).dedup devices commands))
    (hmoves : ∀ s a i job job', (orchestrator Target Device).Reachable allowed s →
      allowed s a = true → s.jobs[i]? = some job → P job → Moves s a i job job' → P job')
    {s : State Target Device} (h : (orchestrator Target Device).Reachable allowed s) :
    ∀ job ∈ s.jobs, P job := by
  refine h.invariant (I := fun s => ∀ job ∈ s.jobs, P job) ?_ ?_
  · rintro s ⟨maxConcurrent, rfl⟩ job hjob
    cases hjob
  · intro s a s' hs hallowed hall hstep job' hjob'
    obtain ⟨i, hi⟩ := List.mem_iff_getElem?.mp hjob'
    rcases step_jobs hstep hi with ⟨job, hjob, hmove⟩ | ⟨devices, target, commands, rfl, rfl, rfl⟩
    · exact hmoves s a i job job' hs hallowed hjob (hall job (List.mem_of_getElem? hjob)) hmove
    · exact hnew s devices target commands hallowed

theorem claimed_of_step {s s' : State Target Device} {a : Action Target Device}
    (h : ∀ j rest, s.dispatcher = .starting j rest → ∃ job, s.jobs[j]? = some job ∧ Claimed job)
    (hstep : s.step a = some s') {j : JobId} {rest : List Command}
    (hstarting : s'.dispatcher = .starting j rest) :
    ∃ job, s'.jobs[j]? = some job ∧ Claimed job := by
  rcases starting_of_step hstep hstarting with ⟨⟨rest', hbefore⟩, ha⟩ | hnew
  · obtain ⟨job, hjob, hjobClaimed⟩ := h j rest' hbefore
    obtain ⟨job', hjob', hmoves⟩ := moves_of_mem hstep hjob
    exact ⟨job', hjob', claimed_of_moves hmoves hjobClaimed ha⟩
  · exact hnew

/-- **The job about to be started** is one the dispatcher has claimed. -/
theorem starting_claimed {s : State Target Device}
    (h : (orchestrator Target Device).Reachable allowed s) {j : JobId} {rest : List Command}
    (hstarting : s.dispatcher = .starting j rest) :
    ∃ job, s.jobs[j]? = some job ∧ Claimed job := by
  refine h.invariant (I := fun s => ∀ j rest, s.dispatcher = .starting j rest →
    ∃ job, s.jobs[j]? = some job ∧ Claimed job) ?_ ?_ j rest hstarting
  · rintro s ⟨maxConcurrent, rfl⟩ j rest hstarting
    cases hstarting
  · intro s a s' _ _ hclaimed hstep j rest hstarting
    exact claimed_of_step hclaimed hstep hstarting

theorem claimed_of_starting {s : State Target Device}
    (h : (orchestrator Target Device).Reachable allowed s) {j : JobId} {rest : List Command}
    (hstarting : s.dispatcher = .starting j rest) {job : Job Target Device}
    (hjob : s.jobs[j]? = some job) : Claimed job := by
  obtain ⟨job₁, hjob₁, hclaimed⟩ := starting_claimed h hstarting
  obtain rfl : job = job₁ := Option.some.inj (hjob.symm.trans hjob₁)
  exact hclaimed

end Invariants

end Jobs
end NetRollout
