import NetRollout.Jobs.Lifecycle
import NetRollout.Library.Leases

/-!
# One rollout to a device at a time

The devices' targets are leased to the jobs in the table: `_held` says who has a
target, `_jobs` what each job has.  Every step of the orchestrator grants a new job its
free targets, releases a job's, or leaves the table as it is (`leased_of_step`), so the
two sides always agree and a target has one holder.

What the lease does not give is that a job *runs* only while it has it.  A `submit()`
whose last call raised after it took effect withdraws a job the dispatcher may have
claimed meanwhile: its targets are free while its engine pushes
(`not_exclusive_lostReply`).  In the runs without such a late withdrawal no device is
pushed by two rollouts at once (`exclusive_of_noLateWithdraw`), and the first one breaks
it (`not_exclusive_of_late`).
-/

namespace NetRollout
namespace Jobs

variable {Target Device : Type}

namespace Job

/-- The dispatcher has claimed it and it is not finalised yet. -/
def engaged (job : Job Target Device) : Bool :=
  match job.worker with
  | .claimed | .telling | .running | .ended => true
  | _ => false

/-- Queued or running. -/
def active (job : Job Target Device) : Bool := job.listed || job.engaged

/-- Its `submit()` is about to withdraw it while it runs. -/
def late (job : Job Target Device) : Bool :=
  match job.submit with
  | .withdrawing _ => job.engaged && !job.targets.isEmpty
  | _ => false

end Job

/-- No device is pushed by two rollouts at once. -/
structure Exclusive (s : State Target Device) : Prop where
  /-- No target belongs to two jobs that are queued or running. -/
  disjoint : ∀ (i j : JobId) (job job' : Job Target Device) (t : Target),
    s.jobs[i]? = some job → s.jobs[j]? = some job' → job.active = true → job'.active = true →
    t ∈ job.targets → t ∈ job'.targets → i = j
  /-- A job that runs holds each of its targets. -/
  held : ∀ (j : JobId) (job : Job Target Device), s.jobs[j]? = some job → job.engaged = true →
    ∀ t ∈ job.targets, s.held t = some j
  /-- Every holder is in the table. -/
  keys : ∀ (t : Target) (j : JobId), s.held t = some j →
    ∃ job, s.jobs[j]? = some job ∧ job.listed = true

/-- No `submit()` withdraws a job that runs. -/
def noLateWithdraw (s : State Target Device) : Action Target Device → Bool
  | .thread j (.submit _) => !(s.jobs[j]?).any Job.late
  | _ => true

/-! ## The leases -/

namespace State

/-- The targets a job in the table has. -/
def claims (s : State Target Device) (j : JobId) : Set Target :=
  { t | ∃ job, s.jobs[j]? = some job ∧ job.listed = true ∧ t ∈ job.targets }

/-- The state keeps these leases. -/
def Leased (s : State Target Device) (L : Leases Target JobId) : Prop :=
  s.held = L.holder ∧ s.claims = L.claims

end State

section Steps

variable {s s' : State Target Device}

/-- A step of a thread around a job frees its targets exactly when it takes it out of
the table. -/
theorem listed_of_jobStep {j : JobId} {e : Event} {job job' : Job Target Device} {fx : Effects}
    (h : job.step j e = some (job', fx)) :
    job'.targets = job.targets ∧ job'.listed = (job.listed && !fx.unhold) := by
  have hwork (hw : job.Work j e job' fx) :
      job'.targets = job.targets ∧ job'.listed = (job.listed && !fx.unhold) := by
    cases hw with
    | gone _ _ h =>
      obtain ⟨w, -, rfl, hunhold⟩ := job.eq_of_finish h
      exact ⟨rfl, by simp [hunhold]⟩
    | closed _ _ h =>
      obtain ⟨w, -, rfl, hunhold⟩ := job.eq_of_finish h
      exact ⟨rfl, by simp [hunhold]⟩
    | dropped _ h =>
      obtain ⟨w, -, rfl, hunhold⟩ := Job.eq_of_finish _ h
      exact ⟨rfl, by simp [hunhold]⟩
    | escaped _ _ _ h =>
      obtain ⟨w, -, rfl, rfl⟩ := job.eq_of_escape h
      exact ⟨rfl, by simp⟩
    | finalize _ _ => exact ⟨rfl, by simp⟩
    | _ => exact ⟨rfl, (Bool.and_true _).symm⟩
  cases e with
  | submit r =>
    cases job.submits_of_submitStep j h with
    | on next redis h => exact ⟨rfl, (Bool.and_true _).symm⟩
    | withdraw added h => exact ⟨rfl, (Bool.and_false _).symm⟩
  | flag =>
    simp only [Job.step, Job.cancelStep] at h
    split at h <;> cases h
    exact ⟨rfl, (Bool.and_true _).symm⟩
  | mark r =>
    simp only [Job.step, Job.cancelStep] at h
    split at h <;> cases h
    exact ⟨rfl, (Bool.and_true _).symm⟩
  | line written => exact hwork (job.work_of_workerStep j h)
  | engine statuses => exact hwork (job.work_of_workerStep j h)
  | call r => exact hwork (job.work_of_workerStep j h)
  | lock => exact hwork (job.work_of_workerStep j h)
  | save => exact hwork (job.work_of_workerStep j h)
  | free => exact hwork (job.work_of_workerStep j h)

/-- Only the threads around a job change its targets and whether it is in the table. -/
theorem listed_of_moves {a : Action Target Device} {i : JobId} {job job' : Job Target Device}
    (h : Moves s a i job job') (ha : ∀ e, a ≠ .thread i e) :
    job'.targets = job.targets ∧ job'.listed = job.listed := by
  cases h with
  | submits r h => exact absurd h (ha _)
  | works e h => exact absurd h (ha e)
  | _ => exact ⟨rfl, rfl⟩

variable [DecidableEq Target]

/-- The other steps keep the leases. -/
theorem claims_of_step {a : Action Target Device} (h : s.step a = some s')
    (hsubmit : ∀ devices target commands, a ≠ .submit devices target commands)
    (hthread : ∀ j e, a ≠ .thread j e) : s'.claims = s.claims := by
  ext j t
  constructor
  · rintro ⟨job', hj, hlisted, ht⟩
    rcases step_jobs h hj with ⟨job, hjob, hmoves⟩ | ⟨devices, target, commands, ha, -⟩
    · obtain ⟨htargets, hsame⟩ := listed_of_moves hmoves (hthread j)
      exact ⟨job, hjob, hsame ▸ hlisted, htargets ▸ ht⟩
    · exact absurd ha (hsubmit _ _ _)
  · rintro ⟨job, hj, hlisted, ht⟩
    obtain ⟨job', hjob', hmoves⟩ := moves_of_mem h hj
    obtain ⟨htargets, hsame⟩ := listed_of_moves hmoves (hthread j)
    exact ⟨job', hjob', hsame.trans hlisted, htargets ▸ ht⟩

omit [DecidableEq Target] in
/-- Where job `j` is replaced, only its claims can change. -/
theorem claims_set {j i : JobId} {job' : Job Target Device} (hjobs : s'.jobs = s.jobs.set j job')
    (hi : i ≠ j) : s'.claims i = s.claims i := by
  simp only [State.claims, hjobs, List.getElem?_set_ne hi.symm]

omit [DecidableEq Target] in
/-- A thread around a job releases its targets or leaves the table as it is. -/
theorem leased_of_thread {j : JobId} {e : Event} {L : Leases Target JobId}
    (h : s.thread j e = some s') (hL : s.Leased L) : ∃ L', L.Step L' ∧ s'.Leased L' := by
  obtain ⟨job, job', fx, hjob, -, hstep, rfl⟩ := thread_cases h
  obtain ⟨htargets, hlisted⟩ := listed_of_jobStep hstep
  have hself : (s.jobs.set j job')[j]? = some job' :=
    List.getElem?_set_self (List.getElem?_eq_some_iff.mp hjob).1
  cases hunhold : fx.unhold with
  | false =>
    have hclaims : State.claims { s.after j fx with jobs := s.jobs.set j job' } = s.claims := by
      ext i t
      by_cases hi : i = j
      · subst hi
        simp only [State.claims, hself, hjob, Option.some.injEq, exists_eq_left', Set.mem_ofPred_eq,
          htargets, hlisted, hunhold, Bool.not_false, Bool.and_true]
      · rw [claims_set rfl hi]
    refine ⟨L, .stay L, ?_, hclaims.trans hL.2⟩
    exact (if_neg (by rw [hunhold]; exact Bool.false_ne_true)).trans hL.1
  | true =>
    refine ⟨L.release j, .release L j, ?_, ?_⟩
    · ext t : 1
      simp only [State.after, hunhold, if_true, Leases.release_holder, hL.1]
    · ext i t
      by_cases hi : i = j
      · subst hi
        simp only [State.claims, hself, Option.some.injEq, exists_eq_left', Set.mem_ofPred_eq,
          hlisted, hunhold, Bool.not_true, Bool.and_false, Bool.false_eq_true, false_and,
          Leases.release_claims, Function.update_self, Set.mem_empty_iff_false]
      · rw [claims_set rfl hi, hL.2, Leases.release_claims, Function.update_of_ne hi]

/-- A `submit()` is refused, or its job is granted its targets. -/
theorem leased_of_submit (devices : List Device) (target : Device → Target)
    (commands : List PyText.Str) {L : Leases Target JobId} (hL : s.Leased L) :
    ∃ L', L.Step L' ∧ (s.submit devices target commands).Leased L' := by
  simp only [State.submit]
  split
  · exact ⟨L, .stay L, hL⟩
  · next hopen =>
    have hfree : ∀ t ∈ { t | t ∈ (devices.map target).dedup }, L.holder t = none := by
      intro t ht
      simp only [Bool.or_eq_true, not_or, Bool.not_eq_true, State.busy, List.any_eq_false] at hopen
      rw [← hL.1]
      exact Option.isSome_eq_false_iff.mp (hopen.2 t ht) |> Option.isNone_iff_eq_none.mp
    have hnew : L.claims s.jobs.length = ∅ := by
      rw [← hL.2, Set.eq_empty_iff_forall_notMem]
      rintro t ⟨job, hjob, -⟩
      exact absurd (List.getElem?_eq_some_iff.mp hjob).1 (lt_irrefl _)
    refine ⟨L.grant s.jobs.length { t | t ∈ (devices.map target).dedup } hfree hnew,
      .grant L _ _ hfree hnew, ?_, ?_⟩
    · ext t : 1
      simp only [Leases.grant_holder, Set.mem_ofPred_eq, hL.1]
    · ext i t
      simp only [Leases.grant_claims, Function.update_apply, ← hL.2]
      split
      · next hi =>
        subst hi
        simp only [State.claims, List.getElem?_concat_length, Option.some.injEq, exists_eq_left',
          Job.new, true_and]
      · next hi =>
        simp only [State.claims, Set.mem_ofPred_eq, List.getElem?_append]
        split
        · rfl
        · next hlt =>
          have hle : s.jobs.length ≤ i := not_lt.mp hlt
          have hbeyond : 1 ≤ i - s.jobs.length :=
            Nat.sub_pos_of_lt (lt_of_le_of_ne hle (Ne.symm hi))
          rw [List.getElem?_eq_none (l := [_]) hbeyond, List.getElem?_eq_none hle]

/-- **The orchestrator lends its targets.** -/
theorem leased_of_step {a : Action Target Device} {L : Leases Target JobId}
    (h : s.step a = some s') (hL : s.Leased L) : ∃ L', L.Step L' ∧ s'.Leased L' := by
  cases a with
  | submit devices target commands =>
    cases h
    exact leased_of_submit devices target commands hL
  | thread j e => exact leased_of_thread h hL
  | _ =>
    refine ⟨L, .stay L, ?_, (claims_of_step h nofun nofun).trans hL.2⟩
    rcases (passes_of_step h nofun).held with hheld | ⟨_, _, ha⟩
    · exact hheld.trans hL.1
    · cases ha

end Steps

/-! ## The runs without a late withdrawal -/

section Runs

variable [DecidableEq Target] {s : State Target Device}

/-- In every run the two sides of the table agree. -/
theorem exists_leased {allowed : State Target Device → Action Target Device → Bool}
    (h : (orchestrator Target Device).Reachable allowed s) : ∃ L, s.Leased L := by
  refine h.invariant (I := fun s => ∃ L, s.Leased L) ?_ ?_
  · rintro s ⟨maxConcurrent, rfl⟩
    refine ⟨.none, rfl, ?_⟩
    ext j t
    exact iff_of_false (fun ⟨job, hjob, _⟩ => by cases hjob) (Set.notMem_empty t)
  · intro s a s' _ _ ⟨L, hL⟩ hstep
    obtain ⟨L', -, hL'⟩ := leased_of_step hstep hL
    exact ⟨L', hL'⟩

/-- A job that runs is in the table, unless it has no targets. -/
def Job.Stays (job : Job Target Device) : Prop :=
  job.engaged = true → job.targets = [] ∨ job.listed = true

omit [DecidableEq Target] in
theorem stays_of_finish {job job' : Job Target Device} {fx fx' : Effects}
    (h : job.finish fx = (job', fx')) : job'.Stays := by
  obtain ⟨w, rfl | rfl, rfl, -⟩ := job.eq_of_finish h <;> intro hengaged <;> cases hengaged

omit [DecidableEq Target] in
theorem stays_of_work {i : JobId} {e : Event} {job job' : Job Target Device} {fx : Effects}
    (h : job.Work i e job' fx) (hjob : job.Stays) : job'.Stays := by
  cases h with
  | waited hw => exact fun _ => hjob (by simp only [Job.engaged, hw])
  | unwaited hw => exact fun _ => hjob (by simp only [Job.engaged, hw])
  | ran hw => exact fun _ => hjob (by simp only [Job.engaged, hw])
  | aborted hw => exact fun _ => hjob (by simp only [Job.engaged, hw])
  | gone _ _ h => exact stays_of_finish h
  | closed _ _ h => exact stays_of_finish h
  | dropped _ h => exact stays_of_finish h
  | escaped _ _ _ h =>
    obtain ⟨w, rfl | ⟨rfl, -⟩, rfl, -⟩ := job.eq_of_escape h <;> intro hengaged <;> cases hengaged
  | cleared _ _ next hnext =>
    rcases hnext with rfl | ⟨rest, rfl⟩ <;> intro hengaged <;> cases hengaged
  | _ => intro hengaged; cases hengaged

theorem stays_of_reachable (h : (orchestrator Target Device).Reachable noLateWithdraw s) :
    ∀ job ∈ s.jobs, job.Stays := by
  refine forall_jobs (P := Job.Stays) ?_ ?_ h
  · intro s devices target commands _ hengaged
    cases hengaged
  · intro s a i job job' hs hallowed hi hjob hmoves
    cases hmoves with
    | same => exact hjob
    | asked flag flagging marking => exact hjob
    | claim who hqueued => exact fun _ => .inr (Bool.and_eq_true_iff.mp hqueued).1
    | works e ha h => exact stays_of_work h hjob
    | start ha hstarting =>
      have hclaimed := claimed_of_starting hs hstarting hi
      exact fun _ => hjob (by simp only [Job.engaged, hclaimed.1])
    | submits r ha h =>
      subst ha
      cases h with
      | on next redis h => exact hjob
      | withdraw added hsubmit =>
        intro hengaged
        simp only [noLateWithdraw, hi, Option.any_some, Job.late, hsubmit, Bool.not_eq_true',
          Bool.and_eq_false_iff, Bool.not_eq_false', List.isEmpty_iff] at hallowed
        exact .inl (hallowed.resolve_left (by rw [show job.engaged = true from hengaged]; decide))

/-- **No device is pushed by two rollouts at once**, in the runs in which no `submit()`
withdraws a job that runs. -/
theorem exclusive_of_noLateWithdraw
    (h : (orchestrator Target Device).Reachable noLateWithdraw s) : Exclusive s := by
  obtain ⟨L, hheld, hclaims⟩ := exists_leased h
  have hlisted {j : JobId} {job : Job Target Device} {t : Target} (hj : s.jobs[j]? = some job)
      (hactive : job.active = true) (ht : t ∈ job.targets) : t ∈ L.claims j := by
    rw [← hclaims]
    refine ⟨job, hj, ?_, ht⟩
    rcases Bool.or_eq_true_iff.mp hactive with hlisted | hengaged
    · exact hlisted
    · exact (stays_of_reachable h job (List.mem_of_getElem? hj) hengaged).resolve_left
        (List.ne_nil_of_mem ht)
  constructor
  · intro i j job job' t hi hj hactive hactive' ht ht'
    exact L.exclusive (hlisted hi hactive ht) (hlisted hj hactive' ht')
  · intro j job hj hengaged t ht
    rw [hheld, L.sound]
    exact hlisted hj (by rw [Job.active, hengaged, Bool.or_true]) ht
  · intro t j ht
    rw [hheld, L.sound, ← hclaims] at ht
    obtain ⟨job, hj, hlisted, -⟩ := ht
    exact ⟨job, hj, hlisted⟩

omit [DecidableEq Target] in
/-- The first late withdrawal is the end of it. -/
theorem not_exclusive_of_late {s' : State Target Device} {j : JobId} {r : Reply}
    {job : Job Target Device} (hj : s.jobs[j]? = some job) (hlate : job.late = true)
    (h : s.thread j (.submit r) = some s') : ¬ Exclusive s' := by
  intro hexclusive
  obtain ⟨job₁, job', fx, hjob₁, -, hstep, rfl⟩ := thread_cases h
  obtain rfl : job = job₁ := Option.some.inj (hj.symm.trans hjob₁)
  cases hsubmit : job.submit <;> simp only [Job.late, hsubmit, Bool.false_eq_true] at hlate
  obtain ⟨hengaged, htargets⟩ := Bool.and_eq_true_iff.mp hlate
  obtain ⟨t, ht⟩ := List.exists_mem_of_ne_nil job.targets (by simpa using htargets)
  simp only [Job.step, Job.submitStep, hsubmit, Option.some.injEq, Prod.mk.injEq] at hstep
  obtain ⟨rfl, rfl⟩ := hstep
  have hheld := hexclusive.held j _ (List.getElem?_set_self (List.getElem?_eq_some_iff.mp hj).1)
    hengaged t ht
  simp only [State.after, if_true] at hheld
  split at hheld
  · cases hheld
  · next hne => exact hne hheld

end Runs

/-! ## A lost reply -/

/-- A rollout of port 22 submitted, the calls of its `submit()` answered but the last. -/
def submitted (j : JobId) : List (Action Nat Nat) :=
  .submit [22] id ["logging on".toList] :: List.replicate 4 (.thread j (.submit .done))

/-- The dispatcher starts the job, and its engine runs. -/
def startedNext (j : JobId) : List (Action Nat Nat) :=
  [.pop .done, .acquire, .take] ++ List.replicate 3 (.mark .done) ++
    [.start, .thread j (.line true)]

/-- The workers and targets of a state's jobs. -/
def pushes (s : State Nat Nat) : List (Worker × List Nat) :=
  s.jobs.map fun job => (job.worker, job.targets)

theorem engaged_of_pushes {s : State Nat Nat} {i : JobId}
    (h : (pushes s)[i]? = some (.running, [22])) :
    ∃ job, s.jobs[i]? = some job ∧ job.engaged = true ∧ 22 ∈ job.targets := by
  rw [pushes, List.getElem?_map] at h
  obtain ⟨job, hi, hjob⟩ := Option.map_eq_some_iff.mp h
  obtain ⟨hw, ht⟩ := Prod.mk.inj hjob
  exact ⟨job, hi, by simp only [Job.engaged, hw], by rw [ht]; exact List.mem_singleton_self 22⟩

/-- The reply of the first job's `rpush` is lost.  The dispatcher starts it, its `submit()`
withdraws it while its engine runs, and a second one takes the device. -/
def lostReply : List (Action Nat Nat) :=
  submitted 0 ++ [.thread 0 (.submit (.lost true false))] ++ startedNext 0 ++
    [.thread 0 (.submit .done)] ++ submitted 1 ++ [.thread 1 (.submit .done)] ++ startedNext 1

/-- **Two rollouts push one device**, in a run with a lost reply. -/
theorem not_exclusive_lostReply :
    ∃ s, (orchestrator Nat Nat).Reachable System.always s ∧
      pushes s = [(.running, [22]), (.running, [22])] ∧ ¬ Exclusive s := by
  have hrun : ((orchestrator Nat Nat).exec System.always (.init 2) lostReply).any
      (fun s => pushes s = [(.running, [22]), (.running, [22])]) = true := by decide
  obtain ⟨s, hs, hpush⟩ := System.exists_reachable (by exact ⟨2, rfl⟩) hrun
  replace hpush := of_decide_eq_true hpush
  refine ⟨s, hs, hpush, fun hexclusive => ?_⟩
  obtain ⟨job, hi, hengaged, ht⟩ := engaged_of_pushes (i := 0) (by rw [hpush]; rfl)
  obtain ⟨job', hj, hengaged', ht'⟩ := engaged_of_pushes (i := 1) (by rw [hpush]; rfl)
  refine Nat.zero_ne_one (hexclusive.disjoint 0 1 job job' 22 hi hj ?_ ?_ ht ht')
  · rw [Job.active, hengaged, Bool.or_true]
  · rw [Job.active, hengaged', Bool.or_true]

/-- The same two rollouts with every call answered: the second is refused. -/
theorem exclusive_answered :
    ∃ s, (orchestrator Nat Nat).Reachable noLateWithdraw s ∧
      pushes s = [(.running, [22])] ∧ Exclusive s := by
  have hrun : ((orchestrator Nat Nat).exec noLateWithdraw (.init 2) (submitted 0 ++
      [.thread 0 (.submit .done)] ++ startedNext 0 ++
        [.submit [22] id ["logging off".toList]])).any
          (fun s => pushes s = [(.running, [22])]) = true := by decide
  obtain ⟨s, hs, hpush⟩ := System.exists_reachable (by exact ⟨2, rfl⟩) hrun
  exact ⟨s, hs, of_decide_eq_true hpush, exclusive_of_noLateWithdraw hs⟩

end Jobs
end NetRollout
