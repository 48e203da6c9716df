import NetRollout.Jobs.Ledger

/-!
# The books of a run

What the orchestrator owes Redis in all: what its jobs are worth, less what the dispatcher
has still to send of `JobStore.started` (`books`).  In runs in which Redis answers and
nothing is taken back before it was sent, every step changes the counters as it changes the
books (`Booked.conserved`), so a Redis that agreed with them once agrees with them from then
on (`Exact`), and one that counted at least as much never counts less.
-/

namespace NetRollout
namespace Jobs

variable {Target Device : Type}

/-! ## What a whole orchestrator owes -/

namespace Dispatcher

def toCome : Dispatcher → List Command
  | starting _ rest => rest
  | _ => []

/-- The entry the dispatcher has read and not looked up yet. -/
def entry : Dispatcher → Option JobId
  | popped j | slotted j => some j
  | _ => none

end Dispatcher

namespace State

variable (s : State Target Device)

def books (k : Counter) : Int := s.total (Job.worth k) - delta k s.dispatcher.toCome

/-- Redis answers.  A read of the queue may be cut short before it takes an entry: a switch
closes the client it waits on. -/
def answered : Action Target Device → Bool
  | .pop r => r.isDone || !r.took
  | .mark r => r.isDone
  | .thread j e => (s.jobs[j]?).all fun job => job.answered e
  | _ => true

def inOrder : Action Target Device → Bool
  | .thread j e => (s.jobs[j]?).all fun job => job.inOrder j e
  | _ => true

end State

/-- The invariant of a run. -/
structure Booked (s : State Target Device) : Prop where
  staged : ∀ job ∈ s.jobs, Staged job
  shaped : ∀ (j : JobId) (job : Job Target Device), s.jobs[j]? = some job → Shaped j job
  starting : ∀ (j : JobId) (rest : List Command), s.dispatcher = .starting j rest →
    rest <:+ JobStore.started j ∧ ∃ job, s.jobs[j]? = some job ∧ Claimed job
  /-- What the dispatcher can come to read is a job whose `submit()` has returned. -/
  entries : ∀ j : JobId, (j ∈ s.redis.queue ∨ s.dispatcher.entry = some j) → j < s.jobs.length ∧
    ∀ job, s.jobs[j]? = some job → job.listed = true → job.submit = .returned

/-- Redis agrees with the books. -/
structure Exact (s : State Target Device) : Prop where
  count : ∀ k, s.redis.count k = s.books k
  keys : ∀ (j : JobId) (job : Job Target Device) (k : Key), s.jobs[j]? = some job →
    s.redis.has k j = job.keyed j k
  fresh : ∀ (j : JobId) (k : Key), s.jobs.length ≤ j → s.redis.has k j = false

/-! ## The steps that are no thread's -/

/-- What a step of the orchestrator other than a thread's does to a job. -/
inductive Others (s : State Target Device) (i : JobId) (job : Job Target Device) :
    Job Target Device → Prop where
  | same : Others s i job job
  | asked (flagging : Nat) : Others s i job { job with flagging := flagging }
  | claim (who : Claimant) (hqueued : job.queued = true)
    (hwho : who = .dispatcher → s.dispatcher = .slotted i) : Others s i job (job.claim who)
  | start (hstarting : s.dispatcher = .starting i []) :
    Others s i job { job with worker := .telling }

namespace Others

variable {s : State Target Device} {i : JobId} {job job' : Job Target Device}

theorem of_cancel {j : JobId} (h : (s.cancel j).jobs[i]? = some job') :
    ∃ job, s.jobs[i]? = some job ∧ Others s i job job' := by
  unfold State.cancel at h
  split at h
  · exact ⟨job', h, .same⟩
  · next job hj =>
    split at h
    · next hqueued =>
      rcases ListUpdate.getElem?_set_cases h with ⟨rfl, rfl⟩ | ⟨-, h⟩
      · exact ⟨job, hj, .claim .cancel hqueued nofun⟩
      · exact ⟨job', h, .same⟩
    · split at h
      · rcases ListUpdate.getElem?_set_cases h with ⟨rfl, rfl⟩ | ⟨-, h⟩
        · exact ⟨job, hj, .asked _⟩
        · exact ⟨job', h, .same⟩
      · exact ⟨job', h, .same⟩

theorem of_map {f : Job Target Device → Job Target Device} (hf : ∀ job, Others s i job (f job))
    (h : (s.jobs.map f)[i]? = some job') : ∃ job, s.jobs[i]? = some job ∧ Others s i job job' := by
  rw [List.getElem?_map] at h
  obtain ⟨job, hjob, rfl⟩ := Option.map_eq_some_iff.mp h
  exact ⟨job, hjob, hf job⟩

/-- It leaves what is told of the job in Redis. -/
theorem keyed_eq (hjob : Staged job) (hstarting : s.dispatcher = .starting i [] → Claimed job)
    (h : Others s i job job') (k : Key) : job'.keyed i k = job.keyed i k := by
  cases h with
  | same => rfl
  | asked flagging => rfl
  | claim who hqueued hwho =>
    have hworker := hjob.of_queued hqueued
    have hnone : ∀ b, (job.claim who).worker.toCome i b = [] := by
      intro b
      cases who <;> rfl
    simp only [Job.keyed, Job.toCome, hnone, hworker]
    rfl
  | start hdispatcher =>
    simp only [Job.keyed, Job.toCome, (hstarting hdispatcher).1]
    rfl

theorem listed_eq (h : Others s i job job') :
    job'.listed = job.listed ∧ job'.submit = job.submit := by
  cases h <;> exact ⟨rfl, rfl⟩

theorem shaped (hstarting : s.dispatcher = .starting i [] → Claimed job)
    (hentry : s.dispatcher = .slotted i → job.listed = true → job.submit = .returned)
    (hshaped : Shaped i job) (h : Others s i job job') : Shaped i job' := by
  cases h with
  | same => exact hshaped
  | asked flagging =>
    exact ⟨hshaped.adding, hshaped.undoing, hshaped.withdrawing, hshaped.clearing,
      hshaped.dropping, hshaped.runner, hshaped.alone, hshaped.order⟩
  | claim who hqueued hwho =>
    have hlisted : job.listed = true := (Bool.and_eq_true_iff.mp hqueued).1
    refine ⟨hshaped.adding, hshaped.undoing, hshaped.withdrawing, ?_, ?_, ?_, ?_, ?_⟩
    · intro rest hrest
      cases who <;> cases hrest
    · intro hdropping
      cases who <;> cases hdropping
    · intro hruns
      have hdispatcher : who = .dispatcher := by simpa [Job.ran, Job.claim] using hruns
      exact ⟨hentry (hwho hdispatcher) hlisted, fun _ => hlisted⟩
    · intro hwithdrawn
      rw [(hshaped.alone hwithdrawn).1] at hlisted
      cases hlisted
    · exact fun c _ _ => .inl hlisted
  | start hdispatcher =>
    have hw := (hstarting hdispatcher).1
    refine hshaped.onWork rfl rfl rfl ?_ ?_ (by rw [hw]; exact fun _ => rfl) (by rw [hw]; rfl)
    · intro rest hrest
      cases hrest
    · intro hdropping
      cases hdropping

end Others

/-- The jobs after a step that is no thread's. -/
theorem others_of_stepped [DecidableEq Target] {s s' : State Target Device}
    {a : Action Target Device} (h : Stepped s a s') (ha : ∀ j e, a ≠ .thread j e) {i : JobId}
    {job' : Job Target Device} (hi : s'.jobs[i]? = some job') :
    (∃ job, s.jobs[i]? = some job ∧ Others s i job job') ∨
      i = s.jobs.length ∧ ∃ targets devices commands, job' = Job.new i targets devices commands := by
  cases h with
  | submitted devices target commands held hdraining hpaused =>
    rcases ListUpdate.getElem?_concat_cases hi with hi | ⟨rfl, rfl⟩
    · exact .inl ⟨job', hi, .same⟩
    · exact .inr ⟨rfl, _, _, _, rfl⟩
  | cancelled j jobs h =>
    refine .inl (Others.of_cancel (j := j) ?_)
    rw [h]
    exact hi
  | drained jobs drainList h =>
    have hjobs : jobs = s.jobs.map fun job => if job.queued then job.claim .drain else job :=
      (congrArg State.jobs h).symm
    subst hjobs
    refine .inl (Others.of_map (fun job => ?_) hi)
    split
    · next hqueued => exact .claim .drain hqueued nofun
    · exact .same
  | drainCancelled jobs h =>
    unfold State.drainCancel at h
    split at h <;> cases h
    refine .inl (Others.of_map (fun job => ?_) hi)
    split
    · exact .asked _
    · exact .same
  | claimed j job hdispatcher hjob hqueued hdraining =>
    rcases ListUpdate.getElem?_set_cases hi with ⟨rfl, rfl⟩ | ⟨-, hi⟩
    · exact .inl ⟨job, hjob, .claim .dispatcher hqueued fun _ => hdispatcher⟩
    · exact .inl ⟨job', hi, .same⟩
  | started j job hdispatcher hjob =>
    rcases ListUpdate.getElem?_set_cases hi with ⟨rfl, rfl⟩ | ⟨-, hi⟩
    · exact .inl ⟨job, hjob, .start hdispatcher⟩
    · exact .inl ⟨job', hi, .same⟩
  | threaded j e job job' fx hjob hturn hstep => exact absurd rfl (ha j e)
  | _ => exact .inl ⟨job', hi, .same⟩

/-! ## The invariant along a run -/

theorem mem_queue_exec {r : Redis} {c : Command} {i : JobId} (h : i ∈ (r.exec c).queue) :
    i ∈ r.queue ∨ c = .rpush i := by
  cases c with
  | rpush j =>
    rcases List.mem_append.mp h with h | h
    · exact .inl h
    · rw [List.mem_singleton] at h
      exact .inr (congrArg Command.rpush h.symm)
  | lrem j => exact .inl (List.mem_filter.mp h).1
  | _ => exact .inl h

theorem mem_queue_foldl {r : Redis} {cs : List Command} {i : JobId}
    (h : i ∈ (cs.foldl Redis.exec r).queue) : i ∈ r.queue ∨ .rpush i ∈ cs := by
  induction cs generalizing r with
  | nil => exact .inl h
  | cons c cs ih =>
    rcases ih h with h | h
    · rcases mem_queue_exec h with h | rfl
      · exact .inl h
      · exact .inr List.mem_cons_self
    · exact .inr (List.mem_cons_of_mem c h)

/-- A step of a job's thread makes no job, does not list it again, and leaves a `submit()`
that has returned. -/
theorem kept_of_step {j : JobId} {e : Event} {job job' : Job Target Device} {fx : Effects}
    (h : job.step j e = some (job', fx)) :
    (job'.listed = true → job.listed = true) ∧
      (job.submit = .returned → job'.submit = .returned) := by
  rcases Job.step_cases h with ⟨r, rfl, -⟩ | ⟨-, _, _, _, _, -, rfl⟩ | hwork
  · simp only [Job.step, Job.submitStep] at h
    split at h <;> cases h
    all_goals next hsubmit => exact ⟨by simp, by simp [hsubmit]⟩
  · exact ⟨fun h => h, fun h => h⟩
  · cases hwork with
    | finalize hw hlisted => exact ⟨fun h => absurd h Bool.false_ne_true, fun h => h⟩
    | gone hw hlisted h =>
      obtain ⟨w, -, rfl, -⟩ := job.eq_of_finish h
      exact ⟨fun h => h, fun h => h⟩
    | dropped hw h =>
      obtain ⟨w, -, rfl, -⟩ := Job.eq_of_finish _ h
      exact ⟨fun h => absurd h Bool.false_ne_true, fun h => h⟩
    | escaped hw r redis h =>
      obtain ⟨w, -, rfl, -⟩ := job.eq_of_escape h
      exact ⟨fun h => h, fun h => h⟩
    | closed hw r h =>
      obtain ⟨w, -, rfl, -⟩ := job.eq_of_finish h
      exact ⟨fun h => h, fun h => h⟩
    | _ => exact ⟨fun h => h, fun h => h⟩

namespace Booked

variable {s s' : State Target Device} {a : Action Target Device}

theorem claimed (h : Booked s) {j : JobId} {rest : List Command} {job : Job Target Device}
    (hstarting : s.dispatcher = .starting j rest) (hjob : s.jobs[j]? = some job) : Claimed job := by
  obtain ⟨-, job₁, hjob₁, hclaimed⟩ := h.starting j rest hstarting
  obtain rfl : job = job₁ := Option.some.inj (hjob.symm.trans hjob₁)
  exact hclaimed

theorem init (maxConcurrent : Nat) : Booked (.init maxConcurrent : State Target Device) where
  staged job hjob := absurd hjob List.not_mem_nil
  shaped j job hjob := by simp [State.init] at hjob
  starting j rest hstarting := by cases hstarting
  entries j hentry := by
    rcases hentry with hentry | hentry
    · cases hentry
    · cases hentry

/-- What a thread's step does to the books of its job. -/
theorem booking (h : Booked s) {j : JobId} {e : Event} {job job' : Job Target Device} {fx : Effects}
    (hjob : s.jobs[j]? = some job) (hanswered : s.answered (.thread j e) = true)
    (horder : s.inOrder (.thread j e) = true) (hstep : job.step j e = some (job', fx)) :
    Booking j job job' fx.redis ∧ Shaped j job' := by
  refine (h.shaped j job hjob).step (h.staged job (List.mem_of_getElem? hjob)) ?_ ?_ hstep
  · simpa [State.answered, hjob] using hanswered
  · simpa [State.inOrder, hjob] using horder

variable [DecidableEq Target]

theorem shaped_of_step (h : Booked s) (hanswered : s.answered a = true)
    (horder : s.inOrder a = true) (hstep : s.step a = some s') {i : JobId}
    {job' : Job Target Device} (hi : s'.jobs[i]? = some job') : Shaped i job' := by
  have hstepped := stepped hstep
  by_cases ha : ∃ j e, a = .thread j e
  · obtain ⟨j, e, rfl⟩ := ha
    cases hstepped with
    | threaded j e job job₁ fx hjob hturn hjobStep =>
      rcases ListUpdate.getElem?_set_cases hi with ⟨rfl, rfl⟩ | ⟨-, hi⟩
      · exact (h.booking hjob hanswered horder hjobStep).2
      · exact h.shaped i job' hi
  · rcases others_of_stepped hstepped (fun j e hthread => ha ⟨j, e, hthread⟩) hi with
      ⟨job, hjob, hothers⟩ | ⟨rfl, targets, devices, commands, rfl⟩
    · refine hothers.shaped (fun hstarting => h.claimed hstarting hjob) ?_ (h.shaped i job hjob)
      exact fun hslotted => (h.entries i (.inr (by rw [hslotted]; rfl))).2 job hjob
    · exact .new targets devices commands

/-- An entry to be read was one before, or its `submit()` call has just returned. -/
theorem entries_of_step (h : Booked s) (hanswered : s.answered a = true)
    (horder : s.inOrder a = true) (hstep : Stepped s a s') {i : JobId}
    (hi : i ∈ s'.redis.queue ∨ s'.dispatcher.entry = some i) :
    (i ∈ s.redis.queue ∨ s.dispatcher.entry = some i) ∨
      ∃ job', s'.jobs[i]? = some job' ∧ job'.submit = .returned := by
  cases hstep with
  | popped r j rest hdispatcher hqueue =>
    rw [hqueue]
    rcases hi with hi | hi
    · dsimp only at hi
      split at hi
      · exact .inl (.inl (List.mem_cons_of_mem j hi))
      · exact .inl (.inl hi)
    · dsimp only at hi
      split at hi <;> cases hi
      exact .inl (.inl List.mem_cons_self)
  | acquired j hdispatcher hfree =>
    rcases hi with hi | hi
    · exact .inl (.inl hi)
    · cases hi
      exact .inl (.inr (by rw [hdispatcher]; rfl))
  | claimed j job hdispatcher hjob hqueued hdraining =>
    rcases hi with hi | hi
    · exact .inl (.inl hi)
    · cases hi
  | skipped j hdispatcher hskip =>
    rcases hi with hi | hi
    · exact .inl (.inl hi)
    · cases hi
  | marked r j command rest hdispatcher =>
    rcases hi with hi | hi
    · rcases mem_queue_foldl hi with hi | hi
      · exact .inl (.inl hi)
      · have hmem := (h.starting j _ hdispatcher).1.subset List.mem_cons_self
        rw [← mem_sent hi] at hmem
        simp [JobStore.started] at hmem
    · cases hi
  | started j job hdispatcher hjob =>
    rcases hi with hi | hi
    · exact .inl (.inl hi)
    · cases hi
  | threaded j e job job' fx hjob hturn hjobStep =>
    rcases hi with hi | hi
    · rcases mem_queue_foldl hi with hi | hi
      · exact .inl (.inl hi)
      · obtain ⟨rfl, hreturned⟩ := (h.booking hjob hanswered horder hjobStep).1.queue i hi
        refine .inr ⟨job', ?_, hreturned⟩
        exact List.getElem?_set_self (List.getElem?_eq_some_iff.mp hjob).1
    · exact .inl (.inr hi)
  | _ => exact .inl hi

theorem entries_step (h : Booked s) (hanswered : s.answered a = true) (horder : s.inOrder a = true)
    (hstep : s.step a = some s') {i : JobId}
    (hi : i ∈ s'.redis.queue ∨ s'.dispatcher.entry = some i) : i < s'.jobs.length ∧
      ∀ job', s'.jobs[i]? = some job' → job'.listed = true → job'.submit = .returned := by
  have hstepped := stepped hstep
  rcases h.entries_of_step hanswered horder hstepped hi with hold | ⟨job₁, hjob₁, hreturned⟩
  · obtain ⟨hlt, hsubmit⟩ := h.entries i hold
    refine ⟨lt_of_lt_of_le hlt (length_le_of_step hstep), fun job' hjob' hlisted => ?_⟩
    by_cases ha : ∃ j e, a = .thread j e
    · obtain ⟨j, e, rfl⟩ := ha
      cases hstepped with
      | threaded j e job job₁ fx hjob hturn hjobStep =>
        rcases ListUpdate.getElem?_set_cases hjob' with ⟨rfl, rfl⟩ | ⟨-, hjob'⟩
        · obtain ⟨hwas, hreturned⟩ := kept_of_step hjobStep
          exact hreturned (hsubmit job hjob (hwas hlisted))
        · exact hsubmit job' hjob' hlisted
    · rcases others_of_stepped hstepped (fun j e hthread => ha ⟨j, e, hthread⟩) hjob' with
        ⟨job, hjob, hothers⟩ | ⟨rfl, -⟩
      · obtain ⟨hlisted', hsame⟩ := hothers.listed_eq
        rw [hsame]
        exact hsubmit job hjob (hlisted' ▸ hlisted)
      · exact absurd hlt (lt_irrefl _)
  · refine ⟨(List.getElem?_eq_some_iff.mp hjob₁).1, fun job' hjob' _ => ?_⟩
    obtain rfl : job' = job₁ := Option.some.inj (hjob'.symm.trans hjob₁)
    exact hreturned

/-- **The step lemma.** -/
theorem step (h : Booked s) (hanswered : s.answered a = true) (horder : s.inOrder a = true)
    (hstep : s.step a = some s') : Booked s' := by
  constructor
  · intro job' hjob'
    obtain ⟨i, hi⟩ := List.mem_iff_getElem?.mp hjob'
    rcases step_jobs hstep hi with ⟨job, hjob, hmoves⟩ | ⟨devices, target, commands, -, -, rfl⟩
    · exact (h.staged job (List.mem_of_getElem? hjob)).moves
        (fun hstarting => h.claimed hstarting hjob) hmoves
    · exact ⟨rfl, nofun⟩
  · exact fun i job' hi => h.shaped_of_step hanswered horder hstep hi
  · intro j rest hstarting
    refine ⟨?_, claimed_of_step (fun j rest hdispatcher => (h.starting j rest hdispatcher).2)
      hstep hstarting⟩
    cases stepped hstep with
    | popped r j rest hdispatcher hqueue =>
      dsimp only at hstarting
      split at hstarting <;> cases hstarting
    | claimed j job hdispatcher hjob hqueued hdraining =>
      cases hstarting
      exact List.suffix_refl _
    | marked r j command rest hdispatcher =>
      cases hstarting
      split
      · exact (List.suffix_cons command rest).trans (h.starting j _ hdispatcher).1
      · exact List.nil_suffix
    | acquired j hdispatcher hfree => cases hstarting
    | skipped j hdispatcher hskip => cases hstarting
    | started j job hdispatcher hjob => cases hstarting
    | _ => exact (h.starting j rest hstarting).1
  · exact fun j hj => h.entries_step hanswered horder hstep hj

end Booked

/-! ## The counters -/

theorem tally_worth (k : Counter) : Tally (Job.worth k : Job Target Device → Int) where
  asked _ _ _ _ := rfl
  claim job who hstaged hqueued hwho := by
    have hworker := hstaged.of_queued hqueued
    obtain ⟨-, hclaimant⟩ := Bool.and_eq_true_iff.mp hqueued
    rw [Option.isNone_iff_eq_none] at hclaimant
    simp [Job.worth, Job.target, Job.toCome, Job.ran, Job.claim, hworker, hclaimant, hwho,
      Worker.toCome]
  start job hclaimed := by
    simp only [Job.worth, Job.toCome, hclaimed.1]
    rfl

theorem worth_new (k : Counter) (j : JobId) (targets : List Target) (devices : List Device)
    (commands : List PyText.Str) : (Job.new j targets devices commands).worth k = 0 := by
  cases k <;> rfl

/-- Claimed by the dispatcher, a queued job counts as running: what `started` tells Redis. -/
theorem worth_claim {job : Job Target Device} (hstaged : Staged job) (hqueued : job.queued = true)
    (hreturned : job.submit = .returned) (k : Counter) (j : JobId) :
    (job.claim .dispatcher).worth k = job.worth k + delta k (JobStore.started j) := by
  have hworker := hstaged.of_queued hqueued
  obtain ⟨hlisted, hclaimant⟩ := Bool.and_eq_true_iff.mp hqueued
  rw [Option.isNone_iff_eq_none] at hclaimant
  cases k <;>
    simp [Job.worth, Job.target, Job.toCome, Job.ran, Job.claim, hworker, hclaimant, hlisted,
      hreturned, Worker.toCome, Submit.toCome, JobStore.started, Command.delta]

namespace Booked

variable {s s' : State Target Device} {a : Action Target Device}

/-- **The counters change as the books do.** -/
theorem conserved [DecidableEq Target] (h : Booked s) (hanswered : s.answered a = true)
    (horder : s.inOrder a = true) (hstep : s.step a = some s') (k : Counter) :
    s'.redis.count k - s'.books k = s.redis.count k - s.books k := by
  cases stepped hstep with
  | submitted devices target commands held hdraining hpaused =>
    rw [State.books, State.books, total_of_concat rfl, worth_new, add_zero]
  | cancelled j jobs hcancel =>
    have htotal := (tally_worth k).cancel h.staged j
    rw [hcancel] at htotal
    rw [State.books, State.books, htotal]
  | drained jobs drainList hdrain =>
    have htotal := (tally_worth k).drain h.staged
    rw [hdrain] at htotal
    rw [State.books, State.books, htotal]
  | drainCancelled jobs hcancel =>
    rw [State.books, State.books, (tally_worth k).drainCancel hcancel]
  | popped r j rest hdispatcher hqueue =>
    have hnone (d : Dispatcher) (hd : d = .waiting ∨ ∃ j, d = .popped j) : d.toCome = [] := by
      rcases hd with rfl | ⟨j, rfl⟩ <;> rfl
    rw [State.books, State.books, hdispatcher, hnone .waiting (.inl rfl),
      hnone (if r.isDone then .popped j else .waiting)]
    · rfl
    · split
      · exact .inr ⟨j, rfl⟩
      · exact .inl rfl
  | acquired j hdispatcher hfree =>
    rw [State.books, State.books, hdispatcher]
    rfl
  | claimed j job hdispatcher hjob hqueued hdraining =>
    have hlisted := (Bool.and_eq_true_iff.mp hqueued).1
    have hreturned := (h.entries j (.inr (by rw [hdispatcher]; rfl))).2 job hjob hlisted
    have hworth := worth_claim (h.staged job (List.mem_of_getElem? hjob)) hqueued hreturned k j
    rw [State.books, State.books, total_of_set rfl hjob, hworth, hdispatcher]
    show s.redis.count k - (_ - delta k (JobStore.started j)) = s.redis.count k - (_ - delta k [])
    rw [delta_nil]
    omega
  | skipped j hdispatcher hskip =>
    rw [State.books, State.books, hdispatcher]
    rfl
  | marked r j command rest hdispatcher =>
    have hdone : r.isDone = true := hanswered
    rw [State.books, State.books, hdispatcher, sent_of_isDone hdone, if_pos hdone]
    show (Redis.exec s.redis command).count k - (s.total _ - delta k rest) =
      s.redis.count k - (s.total _ - delta k (command :: rest))
    rw [count_exec, delta_cons]
    omega
  | started j job hdispatcher hjob =>
    have hstart := (tally_worth k).start job (h.claimed hdispatcher hjob)
    rw [State.books, State.books, total_of_set rfl hjob, hstart, hdispatcher]
    show s.redis.count k - (_ - delta k []) = s.redis.count k - (_ - delta k [])
    omega
  | threaded j e job job' fx hjob hturn hjobStep =>
    have hworth := (h.booking hjob hanswered horder hjobStep).1.worth k
    rw [State.books, State.books, total_of_set rfl hjob, hworth]
    show (fx.redis.foldl Redis.exec s.redis).count k - (_ - delta k s.dispatcher.toCome) = _
    rw [count_foldl]
    omega
  | _ => rfl

/-- A job about to be started is worth one running job. -/
theorem worth_starting (h : Booked s) {j : JobId} {rest : List Command}
    (hstarting : s.dispatcher = .starting j rest) : 1 ≤ s.total (Job.worth .active) := by
  obtain ⟨-, job, hjob, hworker, hclaimant⟩ := h.starting j rest hstarting
  have hruns : job.ran = true := by rw [Job.ran, hclaimant, decide_eq_true rfl]
  obtain ⟨hreturned, hlisted⟩ := (h.shaped j job hjob).runner hruns
  have hworth : job.worth .active = 1 := by
    simp [Job.worth, Job.target, Job.toCome, hlisted (by rw [hworker]; rfl), hruns, hworker,
      hreturned, Worker.toCome, Submit.toCome]
  rw [← hworth]
  refine le_total (Job.worth .active) (fun job' hjob' => ?_) hjob
  obtain ⟨i, hi⟩ := List.mem_iff_getElem?.mp hjob'
  exact (h.shaped i job' hi).worth_nonneg (h.staged job' hjob') .active

/-- **The books are never negative.** -/
theorem books_nonneg (h : Booked s) (k : Counter) : 0 ≤ s.books k := by
  have htotal : 0 ≤ s.total (Job.worth k) := by
    refine List.sum_nonneg fun x hx => ?_
    obtain ⟨job, hjob, rfl⟩ := List.mem_map.mp hx
    obtain ⟨i, hi⟩ := List.mem_iff_getElem?.mp hjob
    exact (h.shaped i job hi).worth_nonneg (h.staged job hjob) k
  rw [State.books]
  cases hdispatcher : s.dispatcher with
  | starting j rest =>
    have hsuffix := (h.starting j rest hdispatcher).1
    have hactive := h.worth_starting hdispatcher
    show 0 ≤ _ - delta k rest
    simp only [JobStore.started, List.suffix_cons_iff, List.suffix_nil] at hsuffix
    rcases hsuffix with rfl | rfl | rfl | rfl <;> cases k <;> simp [Command.delta] <;> omega
  | _ =>
    show 0 ≤ _ - delta k []
    rw [delta_nil]
    omega

end Booked

/-! ## The keys -/

namespace Exact

variable {s s' : State Target Device} {a : Action Target Device}

theorem init (maxConcurrent : Nat) : Exact (.init maxConcurrent : State Target Device) where
  count k := by cases k <;> rfl
  keys j job k hjob := by simp [State.init] at hjob
  fresh j k _ := by cases k <;> rfl

variable [DecidableEq Target]

/-- Steps that send Redis nothing of a key. -/
theorem beside (h : Exact s) (hb : Booked s) (hstep : Stepped s a s')
    (ha : ∀ j e, a ≠ .thread j e) (hlength : s.jobs.length ≤ s'.jobs.length)
    (hcount : ∀ k, s'.redis.count k - s'.books k = s.redis.count k - s.books k)
    (hredis : ∀ (k : Key) (i : JobId), s'.redis.has k i = s.redis.has k i) : Exact s' where
  count k := by
    have hsame := hcount k
    have hexact := h.count k
    omega
  keys i job' k hi := by
    rw [hredis]
    rcases others_of_stepped hstep ha hi with
      ⟨job, hjob, hothers⟩ | ⟨rfl, targets, devices, commands, rfl⟩
    · rw [hothers.keyed_eq (hb.staged job (List.mem_of_getElem? hjob))
        fun hstarting => hb.claimed hstarting hjob]
      exact h.keys i job k hjob
    · rw [h.fresh _ k le_rfl]
      cases k <;> simp [Job.keyed, Job.toCome, Job.new, Submit.toCome, JobStore.add, Command.sets]
  fresh i k hi := by
    rw [hredis]
    exact h.fresh i k (hlength.trans hi)

/-- **The step lemma.** -/
theorem step (h : Exact s) (hb : Booked s) (hanswered : s.answered a = true)
    (horder : s.inOrder a = true) (hstep : s.step a = some s') : Exact s' := by
  have hcount := hb.conserved hanswered horder hstep
  have hlength := length_le_of_step hstep
  have hstepped := stepped hstep
  have hrest := fun ha hredis => h.beside hb hstepped ha hlength hcount hredis
  cases hstepped with
  | marked r j command rest hdispatcher =>
    obtain ⟨hsuffix, job, hjob, hclaimed⟩ := hb.starting j _ hdispatcher
    have hmem := hsuffix.subset List.mem_cons_self
    refine hrest (fun j e h => by cases h) fun k i => ?_
    rw [sent_of_isDone hanswered]
    show (Redis.exec s.redis command).has k i = _
    rw [has_exec]
    simp only [JobStore.started, List.mem_cons, List.not_mem_nil, or_false] at hmem
    rcases hmem with rfl | rfl | rfl
    · split
      · next hsets =>
        -- the hash is there already: the job is in the table, and its `add` is done
        simp only [Command.sets, Bool.and_eq_true, decide_eq_true_eq] at hsets
        obtain ⟨rfl, rfl⟩ := hsets
        have hruns : job.ran = true := by rw [Job.ran, hclaimed.2, decide_eq_true rfl]
        obtain ⟨hreturned, hlisted⟩ := (hb.shaped j job hjob).runner hruns
        rw [h.keys j job .hash hjob]
        simp [Job.keyed, Job.toCome, hreturned, hclaimed.1, Submit.toCome, Worker.toCome,
          hlisted (by rw [hclaimed.1]; rfl)]
      · rfl
    · rfl
    · rfl
  | threaded j e job job' fx hjob hturn hjobStep =>
    have hbooking := (hb.booking hjob hanswered horder hjobStep).1
    have hothers (i : JobId) (k : Key) (hne : i ≠ j) :
        (fx.redis.foldl Redis.exec s.redis).has k i = s.redis.has k i := by
      rw [has_foldl]
      exact marks_eq (fun c hc => hbooking.mine c hc k i hne) _
    constructor
    · intro k
      have hsame := hcount k
      have hexact := h.count k
      omega
    · intro i job₁ k hi
      show (fx.redis.foldl Redis.exec s.redis).has k i = _
      rcases ListUpdate.getElem?_set_cases hi with ⟨rfl, rfl⟩ | ⟨hne, hi⟩
      · rw [has_foldl, h.keys i job k hjob, hbooking.keyed k]
      · rw [hothers i k hne]
        exact h.keys i job₁ k hi
    · intro i k hi
      show (fx.redis.foldl Redis.exec s.redis).has k i = _
      have hle : s.jobs.length ≤ i := hlength.trans hi
      have hlt := (List.getElem?_eq_some_iff.mp hjob).1
      rw [hothers i k (lt_of_lt_of_le hlt hle).ne']
      exact h.fresh i k hle
  | popped r j rest hdispatcher hqueue =>
    exact hrest (fun j e h => by cases h) fun k i => by cases k <;> rfl
  | _ => exact hrest (fun j e h => by cases h) fun k i => rfl

end Exact

end Jobs
end NetRollout
