import Mathlib.Algebra.Group.Prod
import NetRollout.Jobs.Tally

/-!
# Slots and the drain

The dispatcher of `src/jobs.py` acquires a slot for each entry it read, gives it back when
there is nothing to start, and hands it to the job's runner otherwise, which gives it back
last.  Free slots, the one the dispatcher holds and those of the runners are always
`max_concurrent` (`slots_eq`); along a run every acquired slot is released or held, and no
runner releases twice.

The dispatcher reads whatever Redis answers, a failure of any kind included, and always
has a next step, unless it waits for a slot (`Goes`).  An entry that is no job id is read
and skipped, like one whose reply was lost.

After a drain's block under the lock no job is added, and only the jobs the dispatcher had
claimed by then are ever started.
-/

namespace NetRollout
namespace Jobs

variable {Target Device : Type}

/-! ## Who holds a slot -/

/-- The dispatcher claimed it, and its slot is not released. -/
def Job.holdsSlot (job : Job Target Device) : Bool :=
  job.claimant = some .dispatcher && job.worker ≠ .over

/-- Its thread is there: the engine, or what follows it. -/
def Job.onThread (job : Job Target Device) : Bool := job.holdsSlot && job.worker ≠ .claimed

/-- Its slot was released. -/
def Job.releasedSlot (job : Job Target Device) : Bool :=
  job.claimant = some .dispatcher && !job.holdsSlot

def Job.slot (job : Job Target Device) : Int := job.holdsSlot.toNat

/-- The slot the dispatcher itself holds. -/
def Dispatcher.slot : Dispatcher → Nat
  | slotted _ => 1
  | _ => 0

theorem tally_slot : Tally (Job.slot : Job Target Device → Int) where
  asked _ _ _ _ := rfl
  claim job who hstaged hqueued hwho := by
    obtain ⟨-, hclaimant⟩ := Bool.and_eq_true_iff.mp hqueued
    rw [Option.isNone_iff_eq_none] at hclaimant
    simp [Job.slot, Job.holdsSlot, Job.claim, hclaimant, hwho]
  start job hclaimed := by simp [Job.slot, Job.holdsSlot, hclaimed.1]

section Step

variable {j : JobId} {e : Event} {job job' : Job Target Device} {fx : Effects}

theorem slot_finish {fx' : Effects} (hw : job.worker ≠ .over) (h : job.finish fx = (job', fx')) :
    job'.holdsSlot = job.holdsSlot ∧ job'.claimant = job.claimant ∧ fx'.freeSlot = fx.freeSlot := by
  unfold Job.finish at h
  split at h <;> cases h <;> simp_all [Job.holdsSlot]

theorem slot_escape {fx' : Effects} (hw : job.worker ≠ .over) (h : job.escape fx = (job', fx')) :
    job'.holdsSlot = job.holdsSlot ∧ job'.claimant = job.claimant ∧ fx'.freeSlot = fx.freeSlot := by
  unfold Job.escape at h
  split at h <;> cases h <;> simp_all [Job.holdsSlot]

/-- **What the thread that claimed a job does with its slot**: it keeps it, until the
runner's last step releases it. -/
theorem slot_of_work (hjob : Staged job) (h : job.Work j e job' fx) :
    job'.claimant = job.claimant ∧
      ((e = .free ∧ fx.freeSlot = true ∧ job.holdsSlot = true ∧ job'.holdsSlot = false) ∨
        (e ≠ .free ∧ fx.freeSlot = false ∧ job'.holdsSlot = job.holdsSlot)) := by
  cases h with
  | gone hw hlisted h =>
    have hne : job.worker ≠ .over := by rcases hw with hw | hw <;> rw [hw] <;> nofun
    obtain ⟨hslot, hclaimant, hfree⟩ := slot_finish hne h
    exact ⟨hclaimant, .inr ⟨nofun, hfree, hslot⟩⟩
  | dropped hw h =>
    have hne : ({ job with listed := false } : Job Target Device).worker ≠ .over := by
      rw [hw]
      nofun
    obtain ⟨hslot, hclaimant, hfree⟩ := slot_finish hne h
    exact ⟨hclaimant, .inr ⟨nofun, hfree, hslot⟩⟩
  | cleared hw r next hnext redis =>
    obtain ⟨rest, hw⟩ := hw
    rcases hnext with rfl | ⟨rest', rfl⟩ <;>
      exact ⟨rfl, .inr ⟨nofun, rfl, by simp [Job.holdsSlot, hw]⟩⟩
  | escaped hw r redis h =>
    have hne : job.worker ≠ .over := by rcases hw with hw | ⟨rest, hw⟩ <;> rw [hw] <;> nofun
    obtain ⟨hslot, hclaimant, hfree⟩ := slot_escape hne h
    exact ⟨hclaimant, .inr ⟨nofun, hfree, hslot⟩⟩
  | closed hw r h =>
    obtain ⟨hslot, hclaimant, hfree⟩ := slot_finish (by rw [hw]; nofun) h
    exact ⟨hclaimant, .inr ⟨nofun, hfree, hslot⟩⟩
  | freed hw =>
    have hclaimant : job.claimant = some .dispatcher := hjob.at_ hw
    exact ⟨rfl, .inl ⟨rfl, rfl, by simp [Job.holdsSlot, hclaimant, hw], by simp [Job.holdsSlot]⟩⟩
  | finalize hw hlisted =>
    refine ⟨rfl, .inr ⟨nofun, rfl, ?_⟩⟩
    rcases hw with hw | hw <;> simp [Job.holdsSlot, hw]
  | told hw | untold hw | waited hw | unwaited hw | ran hw | aborted hw | unqueued hw
  | stillQueued hw | saved hw =>
    exact ⟨rfl, .inr ⟨nofun, rfl, by simp [Job.holdsSlot, hw]⟩⟩

/-- A thread's step and the slots. -/
theorem slot_of_step (hjob : Staged job) (h : job.step j e = some (job', fx)) :
    (e = .free ∧ fx.freeSlot = true ∧ job.holdsSlot = true ∧ job'.holdsSlot = false) ∨
      (e ≠ .free ∧ fx.freeSlot = false ∧ job'.holdsSlot = job.holdsSlot) := by
  rcases Job.step_cases h with ⟨r, rfl, hsubmits⟩ | ⟨he, _, _, _, _, rfl, rfl⟩ | hwork
  · cases hsubmits with
    | on next redis h => exact .inr ⟨nofun, rfl, rfl⟩
    | withdraw added hsubmit => exact .inr ⟨nofun, rfl, rfl⟩
  · refine .inr ⟨?_, rfl, rfl⟩
    rintro rfl
    rcases he with he | ⟨r, he⟩ <;> cases he
  · exact (slot_of_work hjob hwork).2

/-- Its thread queues no job. -/
theorem queued_of_work (h : job.Work j e job' fx) (hqueued : job'.queued = true) :
    job.queued = true := by
  cases h with
  | finalize hw hlisted => cases hqueued
  | gone hw hlisted' h =>
    obtain ⟨w, -, rfl, -⟩ := job.eq_of_finish h
    exact hqueued
  | dropped hw h =>
    obtain ⟨w, -, rfl, -⟩ := Job.eq_of_finish _ h
    cases hqueued
  | escaped hw r redis h =>
    obtain ⟨w, -, rfl, -⟩ := job.eq_of_escape h
    exact hqueued
  | closed hw r h =>
    obtain ⟨w, -, rfl, -⟩ := job.eq_of_finish h
    exact hqueued
  | _ => exact hqueued

end Step

section Runs

variable [DecidableEq Target] {s s' : State Target Device}

/-! ## The slots -/

/-- The slots that are not free. -/
def State.heldSlots (s : State Target Device) : Int := s.dispatcher.slot + s.total Job.slot

/-- The dispatcher's claim fails: the entry is no job's, or it is claimed already, or a
drain has begun. -/
def State.skips (s : State Target Device) : Bool :=
  match s.dispatcher with
  | .slotted j => !(s.jobs[j]?).any fun job => job.queued && !s.draining
  | _ => false

/-- The slots a step acquires, and those it releases. -/
def State.slotCalls (s : State Target Device) : Action Target Device → Nat × Nat
  | .acquire => (1, 0)
  | .take => (0, s.skips.toNat)
  | .thread _ .free => (0, 1)
  | _ => (0, 0)

/-- What is free and what is held is `max_concurrent`, and what was acquired is released or
held. -/
def Balanced (maxConcurrent : Nat) (calls : Nat × Nat) (s : State Target Device) : Prop :=
  s.slots + s.heldSlots = maxConcurrent ∧ (calls.1 : Int) = calls.2 + s.heldSlots

theorem balanced_step {maxConcurrent : Nat} {n : Nat × Nat} {a : Action Target Device}
    (hs : (orchestrator Target Device).Reachable System.always s) (h : Balanced maxConcurrent n s)
    (hstep : s.step a = some s') : Balanced maxConcurrent (n + s.slotCalls a) s' := by
  have hstaged := staged_of_reachable hs
  unfold Balanced State.heldSlots at h ⊢
  cases stepped hstep with
  | submitted devices target commands held hdraining hpaused =>
    have hnew : (Job.new s.jobs.length (devices.map target).dedup devices commands).slot = 0 := rfl
    rw [total_of_concat rfl, hnew, add_zero]
    exact h
  | cancelled j jobs hcancel =>
    have hsum := tally_slot.cancel hstaged j
    rw [hcancel] at hsum
    rw [hsum]
    exact h
  | drained jobs drainList hdrain =>
    have hsum := tally_slot.drain hstaged
    rw [hdrain] at hsum
    rw [hsum]
    exact h
  | drainCancelled jobs hcancel =>
    rw [tally_slot.drainCancel hcancel]
    exact h
  | popped r j rest hdispatcher hqueue =>
    rw [hdispatcher] at h
    cases r <;> exact h
  | acquired j hdispatcher hfree =>
    rw [hdispatcher] at h
    simp only [Dispatcher.slot, State.slotCalls, Prod.fst_add, Prod.snd_add] at h ⊢
    have hsame : State.total { s with slots := s.slots - 1, dispatcher := .slotted j } Job.slot =
      s.total Job.slot := rfl
    rw [hsame]
    omega
  | claimed j job hdispatcher hjob hqueued hdraining =>
    have hskips : s.skips = false := by simp [State.skips, hdispatcher, hjob, hqueued, hdraining]
    have hslot : job.slot = 0 := by
      obtain ⟨-, hclaimant⟩ := Bool.and_eq_true_iff.mp hqueued
      rw [Option.isNone_iff_eq_none] at hclaimant
      simp [Job.slot, Job.holdsSlot, hclaimant]
    have hclaim : (job.claim .dispatcher).slot = 1 := rfl
    rw [total_of_set rfl hjob, hslot, hclaim]
    rw [hdispatcher] at h
    simp only [Dispatcher.slot, State.slotCalls, hskips, Prod.fst_add, Prod.snd_add,
      Bool.toNat_false] at h ⊢
    omega
  | skipped j hdispatcher hskip =>
    have hskips : s.skips = true := by
      cases hjob : s.jobs[j]? with
      | none => simp [State.skips, hdispatcher, hjob]
      | some job => simp only [State.skips, hdispatcher, hjob, Option.any_some, hskip job hjob,
          Bool.not_false]
    have hsame : State.total { s with slots := s.slots + 1, dispatcher := .waiting } Job.slot =
      s.total Job.slot := rfl
    rw [hsame]
    rw [hdispatcher] at h
    simp only [Dispatcher.slot, State.slotCalls, hskips, Prod.fst_add, Prod.snd_add,
      Bool.toNat_true] at h ⊢
    omega
  | marked r j command rest hdispatcher =>
    rw [hdispatcher] at h
    exact h
  | started j job hdispatcher hjob =>
    have hclaimed := claimed_of_starting hs hdispatcher hjob
    rw [total_of_set rfl hjob, tally_slot.start job hclaimed]
    rw [hdispatcher] at h
    simp only [Dispatcher.slot, State.slotCalls, Prod.fst_add, Prod.snd_add] at h ⊢
    omega
  | threaded j e job job' fx hjob hturn hjobStep =>
    rw [total_of_set rfl hjob]
    have hdispatcher : (s.after j fx).dispatcher = s.dispatcher := rfl
    rcases slot_of_step (hstaged job (List.mem_of_getElem? hjob)) hjobStep with
      ⟨rfl, hfree, hheld, hreleased⟩ | ⟨he, hfree, hheld⟩
    · have hslot : job.slot = 1 := by rw [Job.slot, hheld]; rfl
      have hslot' : job'.slot = 0 := by rw [Job.slot, hreleased]; rfl
      have hslots : (s.after j fx).slots = s.slots + 1 := by rw [State.after, hfree]; rfl
      rw [hslot, hslot']
      simp only [State.slotCalls, Prod.fst_add, Prod.snd_add, hslots, hdispatcher] at h ⊢
      omega
    · have hslot : job'.slot = job.slot := by rw [Job.slot, Job.slot, hheld]
      have hcalls : s.slotCalls (.thread j e) = (0, 0) := by
        cases e with
        | free => exact absurd rfl he
        | _ => rfl
      have hslots : (s.after j fx).slots = s.slots := by rw [State.after, hfree]; rfl
      rw [hslot, hcalls]
      simp only [Prod.fst_add, Prod.snd_add, hslots, hdispatcher] at h ⊢
      omega
  | _ => exact h

/-- The steps that release the slot of a job's runner. -/
def freesOf (j : JobId) : Action Target Device → Nat
  | .thread i .free => if i = j then 1 else 0
  | _ => 0

/-- A runner has released its slot as often as it should have. -/
def Freed (j : JobId) (n : Nat) (s : State Target Device) : Prop :=
  ((s.jobs[j]?).any Job.releasedSlot).toNat = n

/-- The other steps leave what is released. -/
theorem released_of_moves {j : JobId} {a : Action Target Device} {job job' : Job Target Device}
    (hs : (orchestrator Target Device).Reachable System.always s) (hj : s.jobs[j]? = some job)
    (ha : a ≠ .thread j .free) (h : Moves s a j job job') :
    job'.releasedSlot = job.releasedSlot := by
  have hstaged := staged_of_reachable hs job (List.mem_of_getElem? hj)
  cases h with
  | same => rfl
  | submits r ha h => cases h <;> rfl
  | works e he h =>
    obtain ⟨hclaimant, ⟨rfl, -⟩ | ⟨-, -, hheld⟩⟩ := slot_of_work hstaged h
    · exact absurd he ha
    · rw [Job.releasedSlot, Job.releasedSlot, hclaimant, hheld]
  | claim who hqueued =>
    obtain ⟨-, hclaimant⟩ := Bool.and_eq_true_iff.mp hqueued
    rw [Option.isNone_iff_eq_none] at hclaimant
    cases who <;> simp [Job.releasedSlot, Job.holdsSlot, Job.claim, hclaimant]
  | asked flag flagging marking => rfl
  | start _ hstarting =>
    have hclaimed := claimed_of_starting hs hstarting hj
    simp [Job.releasedSlot, Job.holdsSlot, hclaimed.1, hclaimed.2]

theorem freed_step {j : JobId} {n : Nat} {a : Action Target Device}
    (hs : (orchestrator Target Device).Reachable System.always s) (h : Freed j n s)
    (hstep : s.step a = some s') : Freed j (n + freesOf j a) s' := by
  unfold Freed at h ⊢
  by_cases ha : a = .thread j .free
  · subst ha
    obtain ⟨job, job', fx, hj, -, hjobStep, rfl⟩ := thread_cases hstep
    have hstaged := staged_of_reachable hs job (List.mem_of_getElem? hj)
    rw [hj, Option.any_some] at h
    rw [List.getElem?_set_self (List.getElem?_eq_some_iff.mp hj).1, Option.any_some, ← h]
    have hwork : job.workerStep j .free = some (job', fx) := hjobStep
    obtain ⟨hclaimant, ⟨-, -, hheld, hheld'⟩ | ⟨hne, -⟩⟩ :=
      slot_of_work hstaged (job.work_of_workerStep j hwork)
    · have hdispatcher : job.claimant = some .dispatcher := by
        simp only [Job.holdsSlot, Bool.and_eq_true, decide_eq_true_eq] at hheld
        exact hheld.1
      simp [Job.releasedSlot, hclaimant, hdispatcher, hheld, hheld', freesOf]
    · exact absurd rfl hne
  · have hzero : freesOf j a = 0 := by
      unfold freesOf
      split
      · next i => exact if_neg fun hij => ha (by rw [hij])
      · rfl
    rw [hzero, Nat.add_zero, ← h]
    cases hj' : s'.jobs[j]? with
    | none =>
      rw [List.getElem?_eq_none ((length_le_of_step hstep).trans (List.getElem?_eq_none_iff.mp hj'))]
    | some job' =>
      rcases step_jobs hstep hj' with ⟨job, hj, hmoves⟩ | ⟨_, _, _, -, rfl, rfl⟩
      · rw [hj, Option.any_some, Option.any_some, released_of_moves hs hj ha hmoves]
      · rw [List.getElem?_eq_none le_rfl]
        rfl

/-! ## The dispatcher goes on -/

/-- The dispatcher has a next step, whatever it is answered, unless it waits for a slot. -/
def Goes (s : State Target Device) : Prop :=
  match s.dispatcher with
  | .waiting => ∀ r, (s.pop r).isSome = true
  | .popped _ => 0 < s.slots → s.acquire.isSome = true
  | .slotted _ => s.take.isSome = true
  | .starting _ (_ :: _) => ∀ r, (s.mark r).isSome = true
  | .starting _ [] => s.start.isSome = true

theorem goes (h : (orchestrator Target Device).Reachable System.always s) : Goes s := by
  unfold Goes
  cases hd : s.dispatcher with
  | waiting =>
    intro r
    cases hqueue : s.redis.queue <;> simp [State.pop, hd, hqueue]
  | popped j =>
    intro hfree
    simp [State.acquire, hd, hfree]
  | slotted j =>
    simp only [State.take, hd]
    split
    · split <;> rfl
    · rfl
  | starting j rest =>
    cases rest with
    | nil =>
      obtain ⟨job, hjob, -⟩ := starting_claimed h hd
      simp [State.start, hd, hjob]
    | cons command rest =>
      intro r
      simp [State.mark, hd]

/-! ## The runner goes on -/

/-- How many steps of its own a job's runner is from its end, at most. -/
def Worker.toGo : Worker → Nat
  | .over => 0
  | releasing => 1
  | closing => 2
  | clearing rest => rest.length + 3
  | saving => 7
  | ended => 8
  | running => 9
  | telling => 10
  | _ => 11

/-- The events of the thread that claimed a job. -/
def Event.isWork : Event → Bool
  | submit _ | flag | mark _ => false
  | _ => true

omit [DecidableEq Target] in
theorem toGo_lt {j : JobId} {e : Event} {job job' : Job Target Device} {fx : Effects}
    (hstaged : Staged job) (hclaimant : job.claimant = some .dispatcher)
    (h : job.workerStep j e = some (job', fx)) : job'.worker.toGo < job.worker.toGo := by
  have hroute := hstaged.route
  rw [hclaimant] at hroute
  have hescape (fx fx' : Effects) {job'' : Job Target Device} (h : job.escape fx = (job'', fx')) :
      job''.worker = .releasing := by
    rw [Job.escape, hclaimant] at h
    cases h
    rfl
  have hfinish (fx fx' : Effects) {job'' : Job Target Device} (h : job.finish fx = (job'', fx')) :
      job''.worker = .releasing := by
    rw [Job.finish, hclaimant] at h
    cases h
    rfl
  cases e with
  | line written =>
    unfold Job.workerStep at h
    cases hw : job.worker <;> simp only [hw, reduceCtorEq] at h
    · cases written <;> cases h <;> simp [Worker.toGo]
    · rw [hw] at hroute
      rcases hroute with hroute | hroute <;> cases hroute
  | engine statuses =>
    unfold Job.workerStep at h
    cases hw : job.worker <;> simp only [hw, reduceCtorEq] at h
    cases statuses with
    | none =>
      cases h
      simp [Worker.toGo]
    | some statuses =>
      simp only at h
      split at h <;> cases h
      simp [Worker.toGo]
  | call r =>
    unfold Job.workerStep at h
    cases hw : job.worker <;> simp only [hw, reduceCtorEq] at h
    · rw [hw] at hroute
      rcases hroute with hroute | hroute <;> cases hroute
    · next rest =>
      cases rest with
      | nil =>
        cases h
        simp [Worker.toGo]
      | cons command rest =>
        simp only at h
        split at h
        · cases h
          simp [Worker.toGo]
        · split at h
          · cases h
            simp [Worker.toGo]
          · rw [hescape _ _ (Option.some.inj h)]
            simp [Worker.toGo]
    · split at h
      · rw [hfinish _ _ (Option.some.inj h)]
        simp [Worker.toGo]
      · rw [hescape _ _ (Option.some.inj h)]
        simp [Worker.toGo]
  | lock =>
    unfold Job.workerStep at h
    cases hw : job.worker <;> simp only [hw, reduceCtorEq] at h
    · unfold Job.finalize at h
      split at h
      · cases h
        simp [Worker.toGo]
      · rw [hfinish _ _ (Option.some.inj h)]
        simp [Worker.toGo]
    all_goals
      rw [hw] at hroute
      rcases hroute with hroute | hroute <;> cases hroute
  | save =>
    unfold Job.workerStep at h
    cases hw : job.worker <;> simp only [hw, reduceCtorEq] at h
    cases h
    simp [Worker.toGo, JobStore.finished, JobStore.forget]
  | free =>
    unfold Job.workerStep at h
    cases hw : job.worker <;> simp only [hw, reduceCtorEq] at h
    cases h
    simp [Worker.toGo]
  | submit r => cases h
  | flag => cases h
  | mark r => cases h

omit [DecidableEq Target] in
theorem Job.step_eq_workerStep {j : JobId} {e : Event} (job : Job Target Device)
    (he : e.isWork = true) : job.step j e = job.workerStep j e := by
  cases e with
  | submit r => cases he
  | flag => cases he
  | mark r => cases he
  | _ => rfl

omit [DecidableEq Target] in
/-- **A runner is never stuck**: until its slot is released it has a step, and each of its
steps brings it nearer to that. -/
theorem runner_goes {j : JobId} {job : Job Target Device} (hjob : s.jobs[j]? = some job)
    (hon : job.onThread = true) (hstaged : Staged job) :
    (∃ e s', e.isWork = true ∧ s.thread j e = some s') ∧
    ∀ e s' job', e.isWork = true → s.thread j e = some s' → s'.jobs[j]? = some job' →
      job'.worker.toGo < job.worker.toGo := by
  simp only [Job.onThread, Job.holdsSlot, Bool.and_eq_true, decide_eq_true_eq] at hon
  obtain ⟨⟨hclaimant, hover⟩, hclaimed⟩ := hon
  have hroute := hstaged.route
  rw [hclaimant] at hroute
  constructor
  · have hstep : ∃ e, e.isWork = true ∧ (job.step j e).isSome = true := by
      cases hw : job.worker with
      | telling => exact ⟨.line true, rfl, by simp [Job.step, Job.workerStep, hw]⟩
      | running => exact ⟨.engine none, rfl, by simp [Job.step, Job.workerStep, hw]⟩
      | ended => exact ⟨.lock, rfl, by simp [Job.step, Job.workerStep, hw]⟩
      | saving => exact ⟨.save, rfl, by simp [Job.step, Job.workerStep, hw]⟩
      | clearing rest =>
        refine ⟨.call .done, rfl, ?_⟩
        cases rest <;> simp [Job.step, Job.workerStep, hw]
      | closing => exact ⟨.call .done, rfl, by simp [Job.step, Job.workerStep, hw]⟩
      | releasing => exact ⟨.free, rfl, by simp [Job.step, Job.workerStep, hw]⟩
      | claimed => exact absurd hw hclaimed
      | unclaimed =>
        rw [hw] at hroute
        cases hroute
      | cancelling | unqueuing | concluding | dropping =>
        rw [hw] at hroute
        rcases hroute with hroute | hroute <;> cases hroute
      | _ => exact absurd hw hover
    obtain ⟨e, he, hsome⟩ := hstep
    obtain ⟨⟨job', fx⟩, hstep⟩ := Option.isSome_iff_exists.mp hsome
    refine ⟨e, { s.after j fx with jobs := s.jobs.set j job' }, he, ?_⟩
    have hturn : s.inTurn j job e = true := by
      unfold State.inTurn
      split <;> simp [hclaimant]
    simp only [State.thread, hjob, Option.bind_eq_bind, Option.bind_some, hturn, if_true, hstep]
  · intro e s' job' he hstep hjob'
    obtain ⟨job₁, job₂, fx, hjob₁, -, hjobStep, rfl⟩ := thread_cases hstep
    obtain rfl : job = job₁ := Option.some.inj (hjob.symm.trans hjob₁)
    obtain rfl : job₂ = job' := by
      rw [List.getElem?_set_self (List.getElem?_eq_some_iff.mp hjob).1] at hjob'
      exact Option.some.inj hjob'
    rw [job.step_eq_workerStep he] at hjobStep
    exact toGo_lt hstaged hclaimant hjobStep

/-! ## After a drain -/

/-- No job is queued once a drain has begun. -/
def Drained (s : State Target Device) : Prop :=
  s.draining = true → ∀ job ∈ s.jobs, job.queued = false

omit [DecidableEq Target] in
theorem queued_of_moves {j : JobId} {a : Action Target Device} {job job' : Job Target Device}
    (h : Moves s a j job job') (hqueued : job'.queued = true) : job.queued = true := by
  cases h with
  | same => exact hqueued
  | submits r ha h =>
    cases h with
    | on next redis h => exact hqueued
    | withdraw added hsubmit => cases hqueued
  | works e ha h => exact queued_of_work h hqueued
  | claim who hbefore => exact hbefore
  | asked flag flagging marking => exact hqueued
  | start ha hstarting => exact hqueued

/-- A step that makes no job leaves none queued where none was. -/
theorem notQueued_of_step {a : Action Target Device} (h : ∀ job ∈ s.jobs, job.queued = false)
    (hstep : s.step a = some s')
    (ha : ∀ devices target commands, a ≠ .submit devices target commands) :
    ∀ job ∈ s'.jobs, job.queued = false := by
  intro job' hjob'
  obtain ⟨i, hi⟩ := List.mem_iff_getElem?.mp hjob'
  rcases step_jobs hstep hi with ⟨job, hjob, hmoves⟩ | ⟨_, _, _, rfl, -, -⟩
  · by_contra hqueued
    rw [Bool.not_eq_false] at hqueued
    have hbefore := queued_of_moves hmoves hqueued
    rw [h job (List.mem_of_getElem? hjob)] at hbefore
    cases hbefore
  · exact absurd rfl (ha _ _ _)

theorem drained_of_reachable (h : (orchestrator Target Device).Reachable System.always s) :
    Drained s := by
  refine h.invariant (I := Drained) ?_ ?_
  · rintro s ⟨maxConcurrent, rfl⟩ hdraining
    cases hdraining
  · intro s a s' _ _ hs hstep hdraining
    replace hstep : s.step a = some s' := hstep
    cases stepped hstep with
    | refused => exact hs hdraining
    | submitted _ _ _ _ hopen => cases hopen.symm.trans hdraining
    | drained jobs drainList hdrain =>
      have hjobs : jobs = s.jobs.map fun job => if job.queued then job.claim .drain else job :=
        (congrArg State.jobs hdrain).symm
      intro job hjob
      simp only [hjobs, List.mem_map] at hjob
      obtain ⟨job, -, rfl⟩ := hjob
      split
      · simp [Job.queued, Job.claim]
      · next hnot => exact Bool.eq_false_iff.mpr hnot
    | nothing => exact hs hdraining
    | _ => exact notQueued_of_step (hs hdraining) hstep fun _ _ _ h => by cases h

/-- A job the dispatcher has not claimed is not started once a drain has begun. -/
theorem unstarted_of_moves {j : JobId} {a : Action Target Device} {job job' : Job Target Device}
    (hs : (orchestrator Target Device).Reachable System.always s) (hj : s.jobs[j]? = some job)
    (hdraining : s.draining = true) (hclaimant : job.claimant ≠ some .dispatcher)
    (h : Moves s a j job job') :
    job'.claimant ≠ some .dispatcher ∧ job'.runs = job.runs := by
  have hmem := List.mem_of_getElem? hj
  have hstaged := staged_of_reachable hs job hmem
  cases h with
  | same => exact ⟨hclaimant, rfl⟩
  | submits r ha h => cases h <;> exact ⟨hclaimant, rfl⟩
  | works e ha h =>
    refine ⟨by rw [(slot_of_work hstaged h).1]; exact hclaimant, ?_⟩
    cases h with
    | waited hw => exact absurd (hstaged.at_ hw) hclaimant
    | gone hw hlisted h =>
      obtain ⟨w, -, rfl, -⟩ := job.eq_of_finish h
      rfl
    | dropped hw h =>
      obtain ⟨w, -, rfl, -⟩ := Job.eq_of_finish _ h
      rfl
    | escaped hw r redis h =>
      obtain ⟨w, -, rfl, -⟩ := job.eq_of_escape h
      rfl
    | closed hw r h =>
      obtain ⟨w, -, rfl, -⟩ := job.eq_of_finish h
      rfl
    | _ => rfl
  | claim who hqueued =>
    rw [drained_of_reachable hs hdraining job hmem] at hqueued
    cases hqueued
  | asked flag flagging marking => exact ⟨hclaimant, rfl⟩
  | start ha hstarting =>
    have hclaimed := claimed_of_starting hs hstarting hj
    exact absurd hclaimed.2 hclaimant

/-- As many jobs, and of those not claimed by the dispatcher none started. -/
structure Unstarted (s s' : State Target Device) : Prop where
  draining : s'.draining = true
  length : s'.jobs.length = s.jobs.length
  jobs : ∀ (i : JobId) (job : Job Target Device), s.jobs[i]? = some job →
    job.claimant ≠ some .dispatcher → ∃ job' : Job Target Device, s'.jobs[i]? = some job' ∧
      job'.claimant ≠ some .dispatcher ∧ job'.runs = job.runs

theorem Unstarted.step {s₀ : State Target Device} {a : Action Target Device}
    (hs : (orchestrator Target Device).Reachable System.always s) (h : Unstarted s₀ s)
    (hstep : s.step a = some s') : Unstarted s₀ s' := by
  have hflag : s'.draining = true ∧ s'.jobs.length = s.jobs.length := by
    cases stepped hstep with
    | refused => exact ⟨h.draining, rfl⟩
    | submitted _ _ _ _ hopen => cases hopen.symm.trans h.draining
    | drained => exact ⟨rfl, (passes_of_step hstep nofun).jobs.length_eq⟩
    | nothing => exact ⟨h.draining, rfl⟩
    | _ => exact ⟨h.draining, (passes_of_step hstep nofun).jobs.length_eq⟩
  refine ⟨hflag.1, hflag.2.trans h.length, fun i job hi hclaimant => ?_⟩
  obtain ⟨job₁, hi₁, hclaimant₁, hruns₁⟩ := h.jobs i job hi hclaimant
  obtain ⟨job', hi', hmoves⟩ := moves_of_mem hstep hi₁
  obtain ⟨hclaimant', hruns'⟩ := unstarted_of_moves hs hi₁ h.draining hclaimant₁ hmoves
  exact ⟨job', hi', hclaimant', hruns'.trans hruns₁⟩

theorem unstarted_of_exec {more : List (Action Target Device)}
    (hs : (orchestrator Target Device).Reachable System.always s) (hdraining : s.draining = true)
    (h : (orchestrator Target Device).exec System.always s more = some s') : Unstarted s s' := by
  have hboth : (orchestrator Target Device).Reachable System.always s' ∧ Unstarted s s' := by
    refine System.exec_invariant (fun t a t' _ ht hstep => ?_)
      (I := fun t => (orchestrator Target Device).Reachable System.always t ∧ Unstarted s t)
      ⟨hs, hdraining, rfl, fun i job hi hclaimant => ⟨job, hi, hclaimant, rfl⟩⟩ h
    exact ⟨ht.1.step rfl hstep, ht.2.step ht.1 hstep⟩
  exact hboth.2

/-! ## Slots and drain -/

/-- Where the slots, the dispatcher and a drain stand after a run. -/
structure SlotsAndDrain (maxConcurrent : Nat) (as : List (Action Target Device))
    (s : State Target Device) : Prop where
  /-- Engine threads and free slots. -/
  bound : s.jobs.countP Job.onThread + s.slots ≤ maxConcurrent
  /-- What was acquired is released or held. -/
  balance :
    let calls := (orchestrator Target Device).count State.slotCalls (.init maxConcurrent) as
    (calls.1 : Int) = calls.2 + s.heldSlots
  /-- A runner has released its slot once if it is over, and not at all before. -/
  once : ∀ (j : JobId) (job : Job Target Device), s.jobs[j]? = some job →
    (orchestrator Target Device).count (fun _ => freesOf j) (.init maxConcurrent) as =
      job.releasedSlot.toNat
  /-- A job with a slot is about to be started, or its thread goes on to the release. -/
  comes : ∀ (j : JobId) (job : Job Target Device), s.jobs[j]? = some job →
    job.holdsSlot = true →
    (∃ rest, s.dispatcher = .starting j rest) ∨
      (∃ e s', e.isWork = true ∧ s.thread j e = some s') ∧
      ∀ e s' job', e.isWork = true → s.thread j e = some s' → s'.jobs[j]? = some job' →
        job'.worker.toGo < job.worker.toGo
  loop : Goes s
  drain : s.draining = true → ∀ (more : List (Action Target Device)) (s' : State Target Device),
    (orchestrator Target Device).exec System.always s more = some s' → Unstarted s s'

/-- The job the dispatcher has claimed and not started is the one it is starting. -/
def StartsNext (s : State Target Device) : Prop :=
  ∀ (j : JobId) (job : Job Target Device), s.jobs[j]? = some job → Claimed job →
    ∃ rest, s.dispatcher = .starting j rest

omit [DecidableEq Target] in
/-- A step beside the dispatcher: no job comes to be claimed by it. -/
theorem StartsNext.beside (h : StartsNext s) (hdispatcher : s'.dispatcher = s.dispatcher)
    (hjobs : ∀ (j : JobId) (job' : Job Target Device), s'.jobs[j]? = some job' → Claimed job' →
      ∃ job, s.jobs[j]? = some job ∧ Claimed job) : StartsNext s' := by
  intro j job' hj hclaimed
  obtain ⟨job, hjob, hbefore⟩ := hjobs j job' hj hclaimed
  rw [hdispatcher]
  exact h j job hjob hbefore

omit [DecidableEq Target] in
theorem claimed_of_work {j : JobId} {e : Event} {job job' : Job Target Device} {fx : Effects}
    (h : job.Work j e job' fx) : job'.worker ≠ .claimed := by
  intro hclaimed
  obtain ⟨-, heq⟩ := live_of_work h (by rw [hclaimed]; rfl)
  rw [heq] at hclaimed
  cases hclaimed

omit [DecidableEq Target] in
theorem claimed_of_cancel {i j : JobId} {job' : Job Target Device}
    (hi : (s.cancel j).jobs[i]? = some job') (h : Claimed job') :
    ∃ job, s.jobs[i]? = some job ∧ Claimed job := by
  unfold State.cancel at hi
  split at hi
  · exact ⟨job', hi, h⟩
  · next job hj =>
    split at hi
    · rcases ListUpdate.getElem?_set_cases hi with ⟨rfl, rfl⟩ | ⟨-, hi⟩
      · cases h.1
      · exact ⟨job', hi, h⟩
    · split at hi
      · rcases ListUpdate.getElem?_set_cases hi with ⟨rfl, rfl⟩ | ⟨-, hi⟩
        · exact ⟨job, hj, h⟩
        · exact ⟨job', hi, h⟩
      · exact ⟨job', hi, h⟩

omit [DecidableEq Target] in
theorem claimed_of_map {f : Job Target Device → Job Target Device}
    (hf : ∀ job, Claimed (f job) → Claimed job) {i : JobId} {job' : Job Target Device}
    (hi : (s.jobs.map f)[i]? = some job') (h : Claimed job') :
    ∃ job, s.jobs[i]? = some job ∧ Claimed job := by
  rw [List.getElem?_map] at hi
  obtain ⟨job, hjob, rfl⟩ := Option.map_eq_some_iff.mp hi
  exact ⟨job, hjob, hf job h⟩

theorem startsNext (h : (orchestrator Target Device).Reachable System.always s) :
    StartsNext s := by
  refine h.invariant (I := StartsNext) ?_ ?_
  · rintro s ⟨maxConcurrent, rfl⟩ j job hj
    simp [State.init] at hj
  · intro s a s' hs _ hnext hstep
    replace hstep : s.step a = some s' := hstep
    cases stepped hstep with
    | submitted devices target commands held hdraining hpaused =>
      refine hnext.beside rfl fun j job' hj hclaimed => ?_
      rcases ListUpdate.getElem?_concat_cases hj with hj | ⟨-, rfl⟩
      · exact ⟨job', hj, hclaimed⟩
      · cases hclaimed.1
    | cancelled j jobs hcancel =>
      refine hnext.beside rfl fun i job' hi hclaimed => claimed_of_cancel (j := j) ?_ hclaimed
      rw [hcancel]
      exact hi
    | drained jobs drainList hdrain =>
      have hjobs : jobs = s.jobs.map fun job => if job.queued then job.claim .drain else job :=
        (congrArg State.jobs hdrain).symm
      subst hjobs
      refine hnext.beside rfl fun i job' hi hclaimed =>
        claimed_of_map (fun job hnew => ?_) hi hclaimed
      split at hnew
      · cases hnew.1
      · exact hnew
    | drainCancelled jobs hcancel =>
      unfold State.drainCancel at hcancel
      split at hcancel <;> cases hcancel
      refine hnext.beside rfl fun i job' hi hclaimed =>
        claimed_of_map (fun job hnew => ?_) hi hclaimed
      split at hnew
      · exact hnew
      · exact hnew
    | acquired j hdispatcher hfree =>
      intro i job hi hclaimed
      obtain ⟨rest, hstarting⟩ := hnext i job hi hclaimed
      cases hdispatcher.symm.trans hstarting
    | popped r j rest hdispatcher hqueue =>
      intro i job hi hclaimed
      obtain ⟨rest, hstarting⟩ := hnext i job hi hclaimed
      cases hdispatcher.symm.trans hstarting
    | claimed j job hdispatcher hjob hqueued hdraining =>
      intro i job' hi hclaimed
      rcases ListUpdate.getElem?_set_cases hi with ⟨rfl, rfl⟩ | ⟨-, hi⟩
      · exact ⟨_, rfl⟩
      · obtain ⟨rest, hstarting⟩ := hnext i job' hi hclaimed
        cases hdispatcher.symm.trans hstarting
    | skipped j hdispatcher hskip =>
      intro i job hi hclaimed
      obtain ⟨rest, hstarting⟩ := hnext i job hi hclaimed
      cases hdispatcher.symm.trans hstarting
    | marked r j command rest hdispatcher =>
      intro i job hi hclaimed
      obtain ⟨rest, hstarting⟩ := hnext i job hi hclaimed
      cases hdispatcher.symm.trans hstarting
      exact ⟨_, rfl⟩
    | started j job hdispatcher hjob =>
      intro i job' hi hclaimed
      rcases ListUpdate.getElem?_set_cases hi with ⟨rfl, rfl⟩ | ⟨hne, hi⟩
      · cases hclaimed.1
      · obtain ⟨rest, hstarting⟩ := hnext i job' hi hclaimed
        cases hdispatcher.symm.trans hstarting
        exact absurd rfl hne
    | threaded j e job job' fx hjob hturn hjobStep =>
      refine hnext.beside rfl fun i job'' hi hclaimed => ?_
      rcases ListUpdate.getElem?_set_cases hi with ⟨rfl, rfl⟩ | ⟨-, hi⟩
      · refine ⟨job, hjob, ?_⟩
        rcases Job.step_cases hjobStep with ⟨r, -, hsubmits⟩ | ⟨-, _, _, _, _, -, rfl⟩ | hwork
        · cases hsubmits <;> exact hclaimed
        · exact hclaimed
        · exact absurd hclaimed.1 (claimed_of_work hwork)
      · exact ⟨job'', hi, hclaimed⟩
    | _ => exact hnext

/-- **Slots and drain**, in every run from the start of an orchestrator. -/
theorem slotsAndDrain_of_run (maxConcurrent : Nat) (as : List (Action Target Device))
    (s : State Target Device)
    (h : (orchestrator Target Device).exec System.always (.init maxConcurrent) as = some s) :
    SlotsAndDrain maxConcurrent as s := by
  have hs : (orchestrator Target Device).Reachable System.always s :=
    ⟨_, as, ⟨maxConcurrent, rfl⟩, h⟩
  have hstaged := staged_of_reachable hs
  have hbalanced : Balanced maxConcurrent
      ((orchestrator Target Device).count State.slotCalls (.init maxConcurrent) as) s := by
    refine System.Reachable.count ⟨maxConcurrent, rfl⟩ ⟨?_, ?_⟩ (fun n t a t' ht _ hn hstep => ?_) h
    · simp [State.heldSlots, State.init, State.total, Dispatcher.slot]
    · simp [State.heldSlots, State.init, State.total, Dispatcher.slot]
    · exact balanced_step ht hn hstep
  constructor
  · have hle : (s.jobs.countP Job.onThread : Int) ≤ s.total Job.slot := by
      refine ListUpdate.countP_le_sum_map (fun job => ?_) s.jobs
      unfold Job.onThread Job.slot
      cases job.holdsSlot <;> cases job.worker <;> simp
    have hfree := hbalanced.1
    unfold State.heldSlots at hfree
    omega
  · exact hbalanced.2
  · intro j job hj
    have hfreed : Freed j ((orchestrator Target Device).count (fun _ => freesOf j)
        (.init maxConcurrent) as) s :=
      System.Reachable.count ⟨maxConcurrent, rfl⟩ rfl
        (fun n t a t' ht _ hn hstep => freed_step ht hn hstep) h
    rw [Freed, hj, Option.any_some] at hfreed
    exact hfreed.symm
  · intro j job hj hholds
    by_cases hclaimed : job.worker = .claimed
    · have hclaimant : job.claimant = some .dispatcher := by
        simp only [Job.holdsSlot, Bool.and_eq_true, decide_eq_true_eq] at hholds
        exact hholds.1
      exact .inl (startsNext hs j job hj ⟨hclaimed, hclaimant⟩)
    · exact .inr (runner_goes hj (by simp [Job.onThread, hholds, hclaimed])
        (hstaged job (List.mem_of_getElem? hj)))
  · exact goes hs
  · intro hdraining more s' hmore
    exact unstarted_of_exec hs hdraining hmore

/-- A rollout that takes a slot and gives it back, and a drain after it. -/
def servedRun : List (Action Nat Nat) :=
  [.submit [22] id [['x']]] ++ List.replicate 5 (.thread 0 (.submit .done)) ++
    [.pop .done, .acquire, .take, .mark (.lost false true), .start, .thread 0 (.line true),
      .thread 0 (.engine none), .thread 0 .lock, .thread 0 .save] ++
    List.replicate 5 (.thread 0 (.call .done)) ++ [.thread 0 .free, .drain]

theorem slotsAndDrain_served :
    ∃ s, (orchestrator Nat Nat).exec System.always (.init 1) servedRun = some s ∧
      SlotsAndDrain 1 servedRun s := by
  have hrun : ((orchestrator Nat Nat).exec System.always (.init 1) servedRun).isSome = true := by
    decide
  obtain ⟨s, hs⟩ := Option.isSome_iff_exists.mp hrun
  exact ⟨s, hs, slotsAndDrain_of_run 1 servedRun s hs⟩

end Runs

end Jobs
end NetRollout
