import Mathlib.Algebra.Order.BigOperators.Group.List
import Mathlib.Algebra.Order.Ring.Int
import NetRollout.Jobs.Lifecycle

/-!
# Tallies over the jobs

The orchestrator keeps a few counts beside its jobs: free slots, saves under way, and in
Redis the queued and the running jobs.  Each is right because it is a sum over the jobs,
and each step changes the count as it changes the one job it moves.

`Staged` says which thread can have brought a job to the stage it is at, in any run.
`Tally` is what a sum over the jobs needs so that the steps that are no thread's leave it
alone; `saving_eq` is the first such count.
-/

namespace NetRollout
namespace Jobs

open Session (DeviceStatus)

variable {Target Device : Type}

/-! ## The stages of a job and who claimed it -/

/-- Who has claimed a job at a stage. -/
def Route (claimant : Option Claimant) : Worker → Prop
  | .unclaimed => claimant = none
  | .claimed | .telling | .running | .ended | .releasing => claimant = some .dispatcher
  | .cancelling | .unqueuing | .concluding | .dropping =>
    claimant = some .cancel ∨ claimant = some .drain
  | .saving | .clearing _ | .closing | .over => claimant ≠ none

/-- The stages after `_finalize` or the `except` branch took the job out of the table. -/
def Worker.left : Worker → Bool
  | saving | clearing _ | closing | releasing | .over => true
  | _ => false

/-- The stage of a job, who claimed it, and whether it is in the table. -/
structure Staged (job : Job Target Device) : Prop where
  route : Route job.claimant job.worker
  left : job.worker.left = true → job.listed = false

namespace Staged

variable {job job' : Job Target Device}

theorem at_ (h : Staged job) {w : Worker} (hw : job.worker = w) : Route job.claimant w :=
  hw ▸ h.route

theorem unclaimed (h : Staged job) (hclaimant : job.claimant = none) :
    job.worker = .unclaimed := by
  have hroute := h.route
  rw [hclaimant] at hroute
  cases hw : job.worker <;> simp [hw, Route] at hroute ⊢

/-- A job nobody has claimed is at its first stage. -/
theorem of_queued (h : Staged job) (hqueued : job.queued = true) : job.worker = .unclaimed := by
  obtain ⟨-, hclaimant⟩ := Bool.and_eq_true_iff.mp hqueued
  exact h.unclaimed (Option.isNone_iff_eq_none.mp hclaimant)

theorem claim (who : Claimant) : Staged (job.claim who) := by
  cases who with
  | dispatcher => exact ⟨rfl, nofun⟩
  | cancel => exact ⟨.inl rfl, nofun⟩
  | drain => exact ⟨.inr rfl, nofun⟩

theorem finish {fx fx' : Effects} (hclaimant : job.claimant ≠ none) (hlisted : job.listed = false)
    (h : job.finish fx = (job', fx')) : Staged job' := by
  unfold Job.finish at h
  split at h <;> cases h
  · next hdispatcher => exact ⟨hdispatcher, fun _ => hlisted⟩
  · exact ⟨hclaimant, fun _ => hlisted⟩
  · exact ⟨hclaimant, fun _ => hlisted⟩

theorem escape {fx fx' : Effects} (hclaimant : job.claimant ≠ none) (hlisted : job.listed = false)
    (h : job.escape fx = (job', fx')) : Staged job' := by
  unfold Job.escape at h
  split at h <;> cases h
  · next hdispatcher => exact ⟨hdispatcher, fun _ => hlisted⟩
  · next hne =>
    refine ⟨?_, nofun⟩
    cases hc : job.claimant with
    | none => exact absurd hc hclaimant
    | some who =>
      cases who with
      | dispatcher => exact absurd hc hne
      | cancel => exact .inl rfl
      | drain => exact .inr rfl

/-- A cancel's or a drain's stage: the job has been claimed. -/
theorem revoked_ne_none {claimant : Option Claimant}
    (h : claimant = some .cancel ∨ claimant = some .drain) : claimant ≠ none := by
  rcases h with rfl | rfl <;> nofun

/-- Whoever comes to `_finalize` has claimed the job. -/
theorem claimed_of_concluding (h : Staged job)
    (hw : job.worker = .concluding ∨ job.worker = .ended) : job.claimant ≠ none := by
  rcases hw with hw | hw
  · exact revoked_ne_none (h.at_ hw)
  · have hroute : job.claimant = some .dispatcher := h.at_ hw
    rw [hroute]
    nofun

/-- **Each step of the thread that claimed a job** keeps to its route. -/
theorem work {i : JobId} {e : Event} {fx : Effects} (h : job.Work i e job' fx)
    (hjob : Staged job) : Staged job' := by
  have hlater {w : Worker} (hw : job.worker = w) (hleft : w.left = true) : job.listed = false :=
    hjob.left (hw ▸ hleft)
  cases h with
  | told hw =>
    have hroute := hjob.at_ hw
    exact ⟨hroute, nofun⟩
  | untold hw =>
    have hroute := hjob.at_ hw
    exact ⟨hroute, nofun⟩
  | waited hw =>
    have hroute := hjob.at_ hw
    exact ⟨hroute, nofun⟩
  | unwaited hw =>
    have hroute := hjob.at_ hw
    exact ⟨hroute, nofun⟩
  | ran hw =>
    have hroute := hjob.at_ hw
    exact ⟨hroute, nofun⟩
  | aborted hw =>
    have hroute := hjob.at_ hw
    exact ⟨hroute, nofun⟩
  | unqueued hw =>
    have hroute := hjob.at_ hw
    exact ⟨hroute, nofun⟩
  | stillQueued hw =>
    have hroute := hjob.at_ hw
    exact ⟨hroute, nofun⟩
  | finalize hw _ =>
    have hclaimant := hjob.claimed_of_concluding hw
    exact ⟨hclaimant, fun _ => rfl⟩
  | gone hw hlisted h => exact finish (hjob.claimed_of_concluding hw) hlisted h
  | dropped hw h =>
    have hroute := hjob.at_ hw
    have hclaimant : { job with listed := false }.claimant ≠ none := revoked_ne_none hroute
    exact finish hclaimant rfl h
  | saved hw rest =>
    have hroute := hjob.at_ hw
    exact ⟨hroute, fun _ => hlater hw rfl⟩
  | cleared hw r next hnext redis =>
    obtain ⟨rest, hw⟩ := hw
    have hroute := hjob.at_ hw
    rcases hnext with rfl | ⟨rest', rfl⟩
    · exact ⟨hroute, fun _ => hlater hw rfl⟩
    · exact ⟨hroute, fun _ => hlater hw rfl⟩
  | escaped hw r redis h =>
    rcases hw with hw | ⟨rest, hw⟩
    · exact escape (hjob.at_ hw) (hlater hw rfl) h
    · exact escape (hjob.at_ hw) (hlater hw rfl) h
  | closed hw r h => exact finish (hjob.at_ hw) (hlater hw rfl) h
  | freed hw =>
    have hroute : job.claimant = some .dispatcher := hjob.at_ hw
    have hclaimant : job.claimant ≠ none := by rw [hroute]; nofun
    exact ⟨hclaimant, fun _ => hlater hw rfl⟩

end Staged

/-- The stages on the way to the engine, and in it. -/
def Worker.live : Worker → Bool
  | unclaimed | claimed | telling | running => true
  | _ => false

/-- The one step of its own thread that keeps a job on the way is the one into the engine. -/
theorem live_of_work {job job' : Job Target Device} {i : JobId} {e : Event} {fx : Effects}
    (h : job.Work i e job' fx) (hlive : job'.worker.live = true) :
    job.worker = .telling ∧ job' = { job with runs := job.runs + 1, worker := .running } := by
  cases h with
  | waited hw => exact ⟨hw, rfl⟩
  | gone hw hlisted h =>
    obtain ⟨w, rfl | rfl, rfl, -⟩ := job.eq_of_finish h <;> cases hlive
  | dropped hw h =>
    obtain ⟨w, rfl | rfl, rfl, -⟩ := Job.eq_of_finish _ h <;> cases hlive
  | cleared hw r next hnext redis =>
    rcases hnext with rfl | ⟨rest, rfl⟩ <;> cases hlive
  | escaped hw r redis h =>
    obtain ⟨w, rfl | ⟨rfl, -⟩, rfl, -⟩ := job.eq_of_escape h <;> cases hlive
  | closed hw r h =>
    obtain ⟨w, rfl | rfl, rfl, -⟩ := job.eq_of_finish h <;> cases hlive
  | _ => cases hlive

section Runs

variable {s : State Target Device}

/-- A move keeps a job staged; the dispatcher starts what it claimed. -/
theorem Staged.moves {a : Action Target Device} {i : JobId} {job job' : Job Target Device}
    (hjob : Staged job) (hstart : s.dispatcher = .starting i [] → Claimed job)
    (h : Moves s a i job job') : Staged job' := by
  cases h with
  | same => exact hjob
  | asked flag flagging marking => exact ⟨hjob.route, hjob.left⟩
  | claim who hqueued => exact .claim who
  | works e ha h => exact .work h hjob
  | start ha hstarting => exact ⟨(hstart hstarting).2, nofun⟩
  | submits r ha h =>
    cases h with
    | on next redis h => exact ⟨hjob.route, hjob.left⟩
    | withdraw added hsubmit => exact ⟨hjob.route, fun _ => rfl⟩

variable [DecidableEq Target] {allowed : State Target Device → Action Target Device → Bool}

/-- **Every job of every run is staged.** -/
theorem staged_of_reachable (h : (orchestrator Target Device).Reachable allowed s) :
    ∀ job ∈ s.jobs, Staged job := by
  refine forall_jobs (P := Staged) (fun _ _ _ _ _ => ⟨rfl, nofun⟩) ?_ h
  intro s a i job job' hs _ hi hjob hmoves
  refine hjob.moves (fun hstarting => ?_) hmoves
  have hclaimed := claimed_of_starting hs hstarting hi
  exact hclaimed

end Runs

/-! ## The steps, one by one -/

section Stepped

variable [DecidableEq Target]

/-- The outcomes of a step. -/
inductive Stepped (s : State Target Device) :
    Action Target Device → State Target Device → Prop where
  | refused (devices : List Device) (target : Device → Target) (commands : List PyText.Str) :
    Stepped s (.submit devices target commands) s
  | submitted (devices : List Device) (target : Device → Target) (commands : List PyText.Str)
    (held : Target → Option JobId) (hdraining : s.draining = false) (hpaused : s.paused = false) :
    Stepped s (.submit devices target commands)
      { s with
        jobs := s.jobs ++ [Job.new s.jobs.length (devices.map target).dedup devices commands]
        held := held }
  | pause : Stepped s .pause { s with paused := true }
  | resume : Stepped s .resume { s with paused := false }
  | cancelled (j : JobId) (jobs : List (Job Target Device))
    (h : s.cancel j = { s with jobs := jobs }) :
    Stepped s (.cancel j) { s with jobs := jobs }
  | drained (jobs : List (Job Target Device)) (drainList : List JobId)
    (h : s.drain = { s with draining := true, jobs := jobs, drainList := drainList }) :
    Stepped s .drain { s with draining := true, jobs := jobs, drainList := drainList }
  | drainCancelled (jobs : List (Job Target Device))
    (h : s.drainCancel = some { s with jobs := jobs }) :
    Stepped s .drainCancel { s with jobs := jobs }
  | nothing (r : Reply) (hdispatcher : s.dispatcher = .waiting) : Stepped s (.pop r) s
  | popped (r : Reply) (j : JobId) (rest : List JobId) (hdispatcher : s.dispatcher = .waiting)
    (hqueue : s.redis.queue = j :: rest) :
    Stepped s (.pop r)
      { s with
        redis := { s.redis with queue := if r.took then rest else j :: rest }
        dispatcher := if r.isDone then .popped j else .waiting }
  | acquired (j : JobId) (hdispatcher : s.dispatcher = .popped j) (hfree : 0 < s.slots) :
    Stepped s .acquire { s with slots := s.slots - 1, dispatcher := .slotted j }
  | claimed (j : JobId) (job : Job Target Device) (hdispatcher : s.dispatcher = .slotted j)
    (hjob : s.jobs[j]? = some job) (hqueued : job.queued = true) (hdraining : s.draining = false) :
    Stepped s .take
      { s with
        jobs := s.jobs.set j (job.claim .dispatcher)
        dispatcher := .starting j (JobStore.started j) }
  | skipped (j : JobId) (hdispatcher : s.dispatcher = .slotted j)
    (hskip : ∀ job, s.jobs[j]? = some job → (job.queued && !s.draining) = false) :
    Stepped s .take { s with slots := s.slots + 1, dispatcher := .waiting }
  | marked (r : Reply) (j : JobId) (command : Command) (rest : List Command)
    (hdispatcher : s.dispatcher = .starting j (command :: rest)) :
    Stepped s (.mark r)
      { s with
        redis := (r.sent command).foldl Redis.exec s.redis
        dispatcher := .starting j (if r.isDone then rest else []) }
  | started (j : JobId) (job : Job Target Device) (hdispatcher : s.dispatcher = .starting j [])
    (hjob : s.jobs[j]? = some job) :
    Stepped s .start
      { s with jobs := s.jobs.set j { job with worker := .telling }, dispatcher := .waiting }
  | threaded (j : JobId) (e : Event) (job job' : Job Target Device) (fx : Effects)
    (hjob : s.jobs[j]? = some job) (hturn : s.inTurn j job e = true)
    (hstep : job.step j e = some (job', fx)) :
    Stepped s (.thread j e) { s.after j fx with jobs := s.jobs.set j job' }

/-- **What each step does**, with what it rests on. -/
theorem stepped {s s' : State Target Device} {a : Action Target Device} (h : s.step a = some s') :
    Stepped s a s' := by
  cases a with
  | submit devices target commands =>
    obtain rfl := Option.some.inj h
    unfold State.submit
    dsimp only
    split
    · exact .refused devices target commands
    · next hopen =>
      simp only [Bool.or_eq_true, not_or, Bool.not_eq_true] at hopen
      exact .submitted devices target commands _ hopen.1.1 hopen.1.2
  | pause => cases h; exact .pause
  | resume => cases h; exact .resume
  | cancel j =>
    obtain rfl := Option.some.inj h
    have hcancel : s.cancel j = { s with jobs := (s.cancel j).jobs } := by
      unfold State.cancel
      split
      · rfl
      · split
        · rfl
        · split <;> rfl
    rw [hcancel]
    exact .cancelled j _ hcancel
  | drain =>
    obtain rfl := Option.some.inj h
    exact .drained _ _ rfl
  | drainCancel =>
    have hcancel := h
    simp only [State.step, State.drainCancel] at h
    split at h <;> cases h
    exact .drainCancelled _ hcancel
  | pop r =>
    simp only [State.step, State.pop] at h
    split at h <;> cases h
    · next j rest hdispatcher hqueue => exact .popped r j rest hdispatcher hqueue
    · next hdispatcher _ => exact .nothing r hdispatcher
  | acquire =>
    simp only [State.step, State.acquire] at h
    split at h
    · next j hdispatcher =>
      split at h <;> cases h
      next hfree => exact .acquired j hdispatcher hfree
    · cases h
  | take =>
    simp only [State.step, State.take] at h
    split at h
    · next j hdispatcher =>
      split at h
      · next job hjob =>
        split at h <;> cases h
        · next hqueued =>
          obtain ⟨hqueued, hdraining⟩ := Bool.and_eq_true_iff.mp hqueued
          exact .claimed j job hdispatcher hjob hqueued (Bool.not_eq_true' _ ▸ hdraining)
        · next hskip =>
          refine .skipped j hdispatcher fun job' hjob' => ?_
          rw [hjob, Option.some.injEq] at hjob'
          exact hjob' ▸ Bool.eq_false_iff.mpr hskip
      · next hnone =>
        cases h
        refine .skipped j hdispatcher fun job hjob => ?_
        rw [hnone] at hjob
        cases hjob
    · cases h
  | mark r =>
    simp only [State.step, State.mark] at h
    split at h <;> cases h
    next j command rest hdispatcher => exact .marked r j command rest hdispatcher
  | start =>
    simp only [State.step, State.start] at h
    split at h
    · next j hdispatcher =>
      split at h <;> cases h
      next job hjob => exact .started j job hdispatcher hjob
    · cases h
  | thread j e =>
    obtain ⟨job, job', fx, hjob, hturn, hstep, rfl⟩ := thread_cases h
    exact .threaded j e job job' fx hjob hturn hstep

end Stepped

/-! ## Sums over the jobs -/

/-- A value of single jobs that only the threads around them and the dispatcher's claim
change. -/
structure Tally (f : Job Target Device → Int) : Prop where
  asked : ∀ (job : Job Target Device) (flag : Bool) (flagging marking : Nat),
    f { job with cancelFlag := flag, flagging := flagging, marking := marking } = f job
  claim : ∀ (job : Job Target Device) (who : Claimant), Staged job → job.queued = true →
    who ≠ .dispatcher → f (job.claim who) = f job
  start : ∀ job : Job Target Device, Claimed job → f { job with worker := .telling } = f job

/-- The value summed over the jobs. -/
def State.total (s : State Target Device) (f : Job Target Device → Int) : Int :=
  (s.jobs.map f).sum

namespace Tally

variable {f : Job Target Device → Int} {s s' : State Target Device}

theorem total_map {g : Job Target Device → Job Target Device}
    (h : ∀ job ∈ s.jobs, f (g job) = f job) : ((s.jobs.map g).map f).sum = s.total f := by
  rw [List.map_map, State.total]
  exact congrArg List.sum (List.map_congr_left h)

theorem total_set {j : JobId} {job job' : Job Target Device} (hjob : s.jobs[j]? = some job)
    (h : f job' = f job) : ((s.jobs.set j job').map f).sum = s.total f := by
  rw [ListUpdate.sum_map_set f hjob, h, State.total]
  omega

variable (hf : Tally f)

include hf

theorem cancel (hstaged : ∀ job ∈ s.jobs, Staged job) (j : JobId) :
    (s.cancel j).total f = s.total f := by
  unfold State.cancel
  split
  · rfl
  · next job hjob =>
    split
    · next hqueued =>
      exact total_set hjob (hf.claim job _ (hstaged job (List.mem_of_getElem? hjob)) hqueued nofun)
    · split
      · exact total_set hjob (hf.asked job _ _ _)
      · rfl

theorem drain (hstaged : ∀ job ∈ s.jobs, Staged job) : s.drain.total f = s.total f := by
  refine total_map fun job hjob => ?_
  split
  · next hqueued => exact hf.claim job _ (hstaged job hjob) hqueued nofun
  · rfl

theorem drainCancel (h : s.drainCancel = some s') : s'.total f = s.total f := by
  unfold State.drainCancel at h
  split at h <;> cases h
  refine total_map fun job _ => ?_
  split
  · exact hf.asked job _ _ _
  · rfl

end Tally

section Total

variable {s s' : State Target Device} {f : Job Target Device → Int} {job job' : Job Target Device}

/-- A new job counts for what it is worth. -/
theorem total_of_concat (h : s'.jobs = s.jobs ++ [job]) : s'.total f = s.total f + f job := by
  rw [State.total, h, List.map_append, List.sum_append, State.total]
  simp

theorem total_of_set {j : JobId} (h : s'.jobs = s.jobs.set j job') (hjob : s.jobs[j]? = some job) :
    s'.total f = s.total f - f job + f job' := by
  rw [State.total, h, ListUpdate.sum_map_set f hjob, State.total]

theorem le_total (f : Job Target Device → Int) (hf : ∀ job ∈ s.jobs, 0 ≤ f job) {j : JobId}
    (hjob : s.jobs[j]? = some job) : f job ≤ s.total f := by
  refine List.single_le_sum ?_ _ (List.mem_map_of_mem (List.mem_of_getElem? hjob))
  intro x hx
  obtain ⟨job, hmem, rfl⟩ := List.mem_map.mp hx
  exact hf job hmem

end Total

/-! ## The saves under way -/

section Saves

/-- The results are being written. -/
def Job.saves (job : Job Target Device) : Int := if job.worker = .saving then 1 else 0

theorem tally_saves : Tally (Job.saves : Job Target Device → Int) where
  asked _ _ _ _ := rfl
  claim job who hstaged hqueued _ := by
    simp only [Job.saves, hstaged.of_queued hqueued, Job.claim]
    split <;> simp
  start job hclaimed := by simp only [Job.saves, hclaimed.1, reduceCtorEq]

variable {j : JobId} {e : Event} {job job' : Job Target Device} {fx : Effects}

/-- A step of a thread around a job: of the call that made it, of a cancel of it, or of
the thread that claimed it. -/
theorem Job.step_cases (h : job.step j e = some (job', fx)) :
    (∃ r, e = .submit r ∧ job.Submits job' fx) ∨
    ((e = .flag ∨ ∃ r, e = .mark r) ∧ ∃ flag flagging marking redis, fx = { redis := redis } ∧
      job' = { job with cancelFlag := flag, flagging := flagging, marking := marking }) ∨
    job.Work j e job' fx := by
  cases e with
  | submit r => exact .inl ⟨r, rfl, job.submits_of_submitStep j h⟩
  | flag =>
    simp only [Job.step, Job.cancelStep] at h
    split at h <;> cases h
    exact .inr (.inl ⟨.inl rfl, _, _, _, [], rfl, rfl⟩)
  | mark r =>
    simp only [Job.step, Job.cancelStep] at h
    split at h <;> cases h
    exact .inr (.inl ⟨.inr ⟨r, rfl⟩, _, _, _, _, rfl, rfl⟩)
  | line written => exact .inr (.inr (job.work_of_workerStep j h))
  | engine statuses => exact .inr (.inr (job.work_of_workerStep j h))
  | call r => exact .inr (.inr (job.work_of_workerStep j h))
  | lock => exact .inr (.inr (job.work_of_workerStep j h))
  | save => exact .inr (.inr (job.work_of_workerStep j h))
  | free => exact .inr (.inr (job.work_of_workerStep j h))

theorem saves_finish {fx' : Effects} (h : job.finish fx = (job', fx')) :
    job'.saves = 0 ∧ fx'.begin_ = fx.begin_ ∧ fx'.saved = fx.saved := by
  unfold Job.finish at h
  split at h <;> cases h <;> simp [Job.saves]

theorem saves_escape {fx' : Effects} (h : job.escape fx = (job', fx')) :
    job'.saves = 0 ∧ fx' = fx := by
  obtain ⟨w, rfl | ⟨rfl, -⟩, rfl, rfl⟩ := job.eq_of_escape h <;> simp [Job.saves]

theorem saves_of_worker {w : Worker} (hw : job.worker = w) (hne : w ≠ .saving) :
    job.saves = 0 := by
  rw [Job.saves, if_neg (hw ▸ hne)]

/-- **A step announces or ends a save** as it brings the job to the save or past it. -/
theorem saves_of_step (h : job.step j e = some (job', fx)) :
    job'.saves = job.saves + fx.begin_.toNat - fx.saved.toNat := by
  rcases Job.step_cases h with ⟨r, -, hsubmits⟩ | ⟨-, _, _, _, _, rfl, rfl⟩ | hwork
  · cases hsubmits <;> simp [Job.saves]
  · simp [Job.saves]
  · cases hwork with
    | finalize hw hlisted =>
      rcases hw with hw | hw <;> simp [Job.saves, hw]
    | gone hw hlisted h =>
      have hzero : job.saves = 0 := by
        rcases hw with hw | hw
        · exact saves_of_worker hw nofun
        · exact saves_of_worker hw nofun
      obtain ⟨hzero', hbegin, hsaved⟩ := saves_finish h
      simp [hzero, hzero', hbegin, hsaved]
    | dropped hw h =>
      obtain ⟨hzero', hbegin, hsaved⟩ := saves_finish h
      simp [saves_of_worker hw nofun, hzero', hbegin, hsaved]
    | saved hw rest => simp [Job.saves, hw]
    | cleared hw r next hnext redis =>
      obtain ⟨rest, hw⟩ := hw
      rcases hnext with rfl | ⟨rest', rfl⟩ <;> simp [Job.saves, hw]
    | escaped hw r redis h =>
      have hzero : job.saves = 0 := by
        rcases hw with hw | ⟨rest, hw⟩
        · exact saves_of_worker hw nofun
        · exact saves_of_worker hw nofun
      obtain ⟨hzero', rfl⟩ := saves_escape h
      simp [hzero, hzero']
    | closed hw r h =>
      obtain ⟨hzero', hbegin, hsaved⟩ := saves_finish h
      simp [saves_of_worker hw nofun, hzero', hbegin, hsaved]
    | freed hw => simp [Job.saves, hw]
    | told hw | untold hw | waited hw | unwaited hw | ran hw | aborted hw | unqueued hw
    | stillQueued hw => simp [Job.saves, hw]

theorem saves_nonneg (job : Job Target Device) : 0 ≤ job.saves := by
  unfold Job.saves
  split <;> omega

variable [DecidableEq Target] {allowed : State Target Device → Action Target Device → Bool}
  {s : State Target Device}

/-- **`ResultRecorder` counts the saves under way.** -/
theorem saving_eq (h : (orchestrator Target Device).Reachable allowed s) :
    (s.saving : Int) = s.total Job.saves := by
  refine h.invariant (I := fun s => (s.saving : Int) = s.total Job.saves) ?_ ?_
  · rintro s ⟨maxConcurrent, rfl⟩
    rfl
  · intro s a s' hs _ heq hstep
    have hstaged := staged_of_reachable hs
    cases stepped hstep with
    | submitted devices target commands held hdraining hpaused =>
      rw [total_of_concat rfl, ← heq]
      simp [Job.saves, Job.new]
    | cancelled j jobs h =>
      rw [← h, tally_saves.cancel hstaged, ← heq, h]
    | drained jobs drainList h =>
      rw [← h, tally_saves.drain hstaged, ← heq, h]
    | drainCancelled jobs h => exact heq.trans (tally_saves.drainCancel h).symm
    | claimed j job hdispatcher hjob hqueued hdraining =>
      have hunclaimed := (hstaged job (List.mem_of_getElem? hjob)).of_queued hqueued
      refine heq.trans (Tally.total_set hjob ?_).symm
      simp [Job.saves, Job.claim, hunclaimed]
    | started j job hdispatcher hjob =>
      have hclaimed := claimed_of_starting hs hdispatcher hjob
      exact heq.trans (Tally.total_set hjob (tally_saves.start job hclaimed)).symm
    | threaded j e job job' fx hjob hturn hjobStep =>
      have hmoved := saves_of_step hjobStep
      have hrest := le_total Job.saves (fun job _ => saves_nonneg job) hjob
      have hle := saves_nonneg job'
      rw [total_of_set rfl hjob]
      show ((s.saving + fx.begin_.toNat - fx.saved.toNat : Nat) : Int) = _
      omega
    | _ => exact heq

end Saves

end Jobs
end NetRollout
