import NetRollout.Jobs.Lifecycle

/-!
# Every rollout is recorded once

A job leaves the table finalised, dropped by `_cancel_queued`'s `except` branch, or
withdrawn by its own `submit()`.  What each stage of the thread that claimed it has
done so far is the invariant (`Job.Sound`): before the table is left nothing is saved,
after it the results are saved once, one for each device, by the route that claimed the
job.

Some steps lose results: a line of the rollout's log that cannot be written, before the
engine or at a cancel, an `unqueue` raising other than `REDIS_UNAVAILABLE`, an engine
raising, and a rollout of no commands, for which the engine returns nothing.  In the
runs without them every job is recorded once (`recorded_of_nothingLost`); with a log
line that fails one is dropped (`not_recorded_logFull`).
-/

namespace NetRollout
namespace Jobs

open Session (DeviceStatus)

variable {Target Device : Type}

namespace Job

/-- The results given to `ResultRecorder.save`, or about to be: between `begin` and the
save a job is neither in the table nor saved. -/
def recorded (job : Job Target Device) : List (Results Device) :=
  if job.worker = .saving then job.saved ++ [job.results] else job.saved

/-- A result for each device, by the route that claimed the job: the engine's one run, or
no run and every device cancelled. -/
def Full (job : Job Target Device) (rs : Results Device) : Prop :=
  rs.map Prod.fst = job.devices ∧
    match job.claimant with
    | none => False
    | some .dispatcher => job.runs = 1
    | some _ => job.runs = 0 ∧ ∀ r ∈ rs, r.2 = .cancelled

/-- **Recorded once**, with a result for each device. -/
def RecordedOnce (job : Job Target Device) : Prop :=
  ∃ rs, job.recorded = [rs] ∧ job.Full rs

/-- A step of a thread around the job that loses its results. -/
def loses (job : Job Target Device) : Event → Bool
  | .line written => !written
  | .engine none => !job.devices.isEmpty
  | .call r => job.worker = .unqueuing && !r.survived
  | _ => false

end Job

/-- No step loses results. -/
def nothingLost (s : State Target Device) : Action Target Device → Bool
  | .submit devices _ commands => devices.isEmpty || !commands.isEmpty
  | .thread j e => !(s.jobs[j]?).any fun job => job.loses e
  | _ => true

namespace Job

variable {job job' : Job Target Device}

/-! ## What each stage has done -/

/-- The stages before the table is left. -/
def early : Worker → Bool
  | .unclaimed | .claimed | .telling | .running | .ended => true
  | .cancelling | .unqueuing | .concluding => true
  | _ => false

/-- Nothing saved, and in the table unless its `submit()` took it out. -/
def Waiting (job : Job Target Device) : Prop :=
  job.saved = [] ∧ (job.listed = true ∨ job.submit.withdrawn = true)

/-- Out of the table, recorded once unless its `submit()` took it out. -/
def Gone (job : Job Target Device) : Prop :=
  job.listed = false ∧ (job.submit.withdrawn = true ∧ job.recorded = [] ∨ job.RecordedOnce)

/-- Claimed by a cancel or a drain. -/
def Revoked (job : Job Target Device) : Prop :=
  job.runs = 0 ∧ ∃ who, job.claimant = some who ∧ who ≠ .dispatcher

/-- What the thread that claimed the job has done by each of its stages. -/
def Progress (job : Job Target Device) : Worker → Prop
  | .unclaimed => job.claimant = none ∧ job.runs = 0 ∧ job.results = []
  | .claimed | .telling => job.claimant = some .dispatcher ∧ job.runs = 0 ∧ job.results = []
  | .running => job.claimant = some .dispatcher ∧ job.runs = 1 ∧ job.results = []
  | .cancelling => job.Revoked
  | .ended | .unqueuing | .concluding => job.Full job.results
  | _ => True

/-- The invariant of a job. -/
structure Sound (job : Job Target Device) : Prop where
  commands : job.devices = [] ∨ job.commands ≠ []
  place : if early job.worker then job.Waiting else job.Gone
  progress : job.Progress job.worker

theorem Sound.waiting (h : job.Sound) {w : Worker} (hw : job.worker = w)
    (hearly : early w = true) : job.Waiting := by
  have hplace := h.place
  rwa [hw, if_pos hearly] at hplace

theorem Sound.gone (h : job.Sound) {w : Worker} (hw : job.worker = w)
    (hlate : early w = false) : job.Gone := by
  have hplace := h.place
  rwa [hw, if_neg (by rw [hlate]; exact Bool.false_ne_true)] at hplace

theorem Sound.at (h : job.Sound) {w : Worker} (hw : job.worker = w) : job.Progress w :=
  hw ▸ h.progress

theorem full_cancelledResults (h : job.Revoked) : job.Full job.cancelledResults := by
  obtain ⟨hruns, who, hwho, hne⟩ := h
  constructor
  · rw [cancelledResults, List.map_map]
    exact List.map_id _
  · rw [hwho]
    cases who with
    | dispatcher => exact absurd rfl hne
    | cancel | drain =>
      refine ⟨hruns, fun r hr => ?_⟩
      obtain ⟨d, -, rfl⟩ := List.mem_map.mp hr
      rfl

theorem map_fst_engineResults {statuses : List DeviceStatus}
    (hcommands : job.devices = [] ∨ job.commands ≠ [])
    (hlength : statuses.length = job.devices.length) :
    (job.engineResults statuses).map Prod.fst = job.devices := by
  unfold engineResults
  split
  · next hempty =>
    rcases Bool.or_eq_true_iff.mp hempty with h | h
    · exact (List.isEmpty_iff.mp h).symm
    · exact (hcommands.resolve_right fun hne => hne (List.isEmpty_iff.mp h)).symm
  · exact List.map_fst_zip hlength.ge

/-- The `submit()` call changes whether the job is in the table, and no results. -/
theorem sound_of_submits {fx : Effects} (h : job.Submits job' fx) (hjob : job.Sound) :
    job'.Sound := by
  have hwaiting (hw : job.Waiting) : job'.Waiting := by
    cases h with
    | on next redis h => exact ⟨hw.1, hw.2.imp id fun hd => h.trans hd⟩
    | withdraw added h => exact ⟨hw.1, .inr rfl⟩
  have hgone (hg : job.Gone) : job'.Gone := by
    cases h with
    | on next redis h => exact ⟨hg.1, hg.2.imp (And.imp_left fun hd => h.trans hd) id⟩
    | withdraw added h => exact ⟨rfl, hg.2.imp (And.imp_left fun _ => rfl) id⟩
  have hworker : job'.worker = job.worker := by cases h <;> rfl
  refine ⟨?_, ?_, ?_⟩
  · cases h <;> exact hjob.commands
  · have hplace := hjob.place
    rw [hworker]
    split
    · next hearly => exact hwaiting (by rwa [if_pos hearly] at hplace)
    · next hlate => exact hgone (by rwa [if_neg hlate] at hplace)
  · have hprogress := hjob.progress
    cases h <;> exact hprogress

/-- The thread that claimed the job goes on after the table is left. -/
theorem Sound.move (hjob : job.Sound) (hgone : job.Gone) (hw : job.worker ≠ .saving) {w : Worker}
    (hlate : early w = false) (hw' : w ≠ .saving) : ({ job with worker := w } : Job _ _).Sound := by
  refine ⟨hjob.commands, ?_, ?_⟩
  · rw [if_neg (by rw [hlate]; exact Bool.false_ne_true)]
    simp only [Gone, RecordedOnce, recorded, if_neg hw] at hgone
    simp only [Gone, RecordedOnce, recorded, if_neg hw']
    exact hgone
  · cases w <;> first | exact trivial | cases hlate

theorem Sound.finish (hjob : job.Sound) (hgone : job.Gone) (hw : job.worker ≠ .saving)
    {fx fx' : Effects} (h : job.finish fx = (job', fx')) : job'.Sound := by
  obtain ⟨w, rfl | rfl, rfl, -⟩ := job.eq_of_finish h
  · exact hjob.move hgone hw rfl nofun
  · exact hjob.move hgone hw rfl nofun

/-- Withdrawn before it was finalised: nothing was saved, and nothing will be. -/
theorem Waiting.gone (h : job.Waiting) (hlisted : job.listed = false)
    (hw : job.worker ≠ .saving) : job.Gone := by
  refine ⟨hlisted, .inl ⟨h.2.resolve_left (by rw [hlisted]; exact Bool.false_ne_true), ?_⟩⟩
  rw [recorded, if_neg hw, h.1]

/-- **Each step of the thread that claimed the job** keeps the invariant, unless it loses
the results. -/
theorem sound_of_work {i : JobId} {e : Event} {fx : Effects} (h : job.Work i e job' fx)
    (hlose : job.loses e = false) (hjob : job.Sound) : job'.Sound := by
  cases h with
  | told hw =>
    exact ⟨hjob.commands, hjob.waiting hw rfl, full_cancelledResults (hjob.at hw)⟩
  | untold hw => cases hlose
  | waited hw =>
    obtain ⟨hclaimant, hruns, hresults⟩ := hjob.at hw
    exact ⟨hjob.commands, hjob.waiting hw rfl, hclaimant, congrArg (· + 1) hruns, hresults⟩
  | unwaited hw => cases hlose
  | ran hw statuses hlength =>
    obtain ⟨hclaimant, hruns, -⟩ := hjob.at hw
    refine ⟨hjob.commands, hjob.waiting hw rfl,
      map_fst_engineResults hjob.commands hlength, ?_⟩
    rw [hclaimant]
    exact hruns
  | aborted hw =>
    obtain ⟨hclaimant, hruns, hresults⟩ := hjob.at hw
    simp only [loses, Bool.not_eq_false', List.isEmpty_iff] at hlose
    refine ⟨hjob.commands, hjob.waiting hw rfl, ?_, ?_⟩
    · rw [hresults, hlose]
      rfl
    · rw [hclaimant]
      exact hruns
  | unqueued hw r hr => exact ⟨hjob.commands, hjob.waiting hw rfl, hjob.at hw⟩
  | stillQueued hw r hr =>
    simp only [loses, hw, hr, decide_true, Bool.not_false, Bool.and_self,
      Bool.true_eq_false] at hlose
  | finalize hw hlisted =>
    have hfull : job.Waiting ∧ job.Full job.results := by
      rcases hw with hw | hw
      · exact ⟨hjob.waiting hw rfl, hjob.at hw⟩
      · exact ⟨hjob.waiting hw rfl, hjob.at hw⟩
    refine ⟨hjob.commands, ⟨rfl, .inr ⟨job.results, ?_, hfull.2⟩⟩, trivial⟩
    simp only [recorded, if_true, hfull.1.1, List.nil_append]
  | gone hw hlisted h =>
    rcases hw with hw | hw
    · have hne : job.worker ≠ .saving := by rw [hw]; nofun
      exact hjob.finish ((hjob.waiting hw rfl).gone hlisted hne) hne h
    · have hne : job.worker ≠ .saving := by rw [hw]; nofun
      exact hjob.finish ((hjob.waiting hw rfl).gone hlisted hne) hne h
  | dropped hw h =>
    have hgone := hjob.gone hw rfl
    have hsame : ({ job with listed := false } : Job Target Device) = job := by
      rw [← hgone.1]
    rw [hsame] at h
    exact hjob.finish hgone (by rw [hw]; nofun) h
  | saved hw rest =>
    have hgone := hjob.gone hw rfl
    refine ⟨hjob.commands, ?_, trivial⟩
    simp only [Gone, RecordedOnce, recorded, hw, if_true] at hgone
    exact hgone
  | cleared hw r next hnext redis =>
    obtain ⟨rest, hw⟩ := hw
    have hne : job.worker ≠ .saving := by rw [hw]; nofun
    rcases hnext with rfl | ⟨rest', rfl⟩
    · exact hjob.move (hjob.gone hw rfl) hne rfl nofun
    · exact hjob.move (hjob.gone hw rfl) hne rfl nofun
  | escaped hw r redis h =>
    have hgone : job.Gone ∧ job.worker ≠ .saving := by
      rcases hw with hw | ⟨rest, hw⟩
      · exact ⟨hjob.gone hw rfl, by rw [hw]; nofun⟩
      · exact ⟨hjob.gone hw rfl, by rw [hw]; nofun⟩
    obtain ⟨w, rfl | ⟨rfl, -⟩, rfl, -⟩ := job.eq_of_escape h
    · exact hjob.move hgone.1 hgone.2 rfl nofun
    · exact hjob.move hgone.1 hgone.2 rfl nofun
  | closed hw r h => exact hjob.finish (hjob.gone hw rfl) (by rw [hw]; nofun) h
  | freed hw => exact hjob.move (hjob.gone hw rfl) (by rw [hw]; nofun) rfl nofun

/-- A queued job has not been claimed. -/
theorem Sound.unclaimed (hjob : job.Sound) (hqueued : job.queued = true) :
    job.worker = .unclaimed := by
  obtain ⟨hlisted, hclaimant⟩ := Bool.and_eq_true_iff.mp hqueued
  rw [Option.isNone_iff_eq_none] at hclaimant
  have hfull {rs : Results Device} (h : job.Full rs) : False := by
    have hroute := h.2
    rwa [hclaimant] at hroute
  have hprogress := hjob.progress
  cases hw : job.worker <;> rw [hw] at hprogress
  case claimed | telling | running => cases hclaimant.symm.trans hprogress.1
  case ended | unqueuing | concluding => exact (hfull hprogress).elim
  case cancelling =>
    obtain ⟨-, who, hwho, -⟩ := hprogress
    cases hclaimant.symm.trans hwho
  all_goals cases hlisted.symm.trans (hjob.gone hw rfl).1

theorem sound_claim (hjob : job.Sound) (hqueued : job.queued = true) (who : Claimant) :
    (job.claim who).Sound := by
  have hw := hjob.unclaimed hqueued
  obtain ⟨-, hruns, hresults⟩ := hjob.at hw
  cases who with
  | dispatcher => exact ⟨hjob.commands, hjob.waiting hw rfl, rfl, hruns, hresults⟩
  | cancel => exact ⟨hjob.commands, hjob.waiting hw rfl, hruns, _, rfl, nofun⟩
  | drain => exact ⟨hjob.commands, hjob.waiting hw rfl, hruns, _, rfl, nofun⟩

end Job

/-! ## The runs that lose nothing -/

section Runs

variable [DecidableEq Target] {s : State Target Device}

theorem sound_of_reachable (h : (orchestrator Target Device).Reachable nothingLost s) :
    ∀ job ∈ s.jobs, job.Sound := by
  refine forall_jobs (P := Job.Sound) ?_ ?_ h
  · intro s devices target commands hallowed
    refine ⟨?_, ⟨rfl, .inl rfl⟩, rfl, rfl, rfl⟩
    simpa [nothingLost, Job.new] using hallowed
  · intro s a i job job' hs hallowed hi hjob hmoves
    cases hmoves with
    | same => exact hjob
    | asked flag flagging marking => exact ⟨hjob.commands, hjob.place, hjob.progress⟩
    | claim who hqueued => exact Job.sound_claim hjob hqueued who
    | submits r ha h => exact Job.sound_of_submits h hjob
    | works e ha h =>
      subst ha
      simp only [nothingLost, hi, Option.any_some, Bool.not_eq_true'] at hallowed
      exact Job.sound_of_work h hallowed hjob
    | start ha hstarting =>
      have hclaimed := claimed_of_starting hs hstarting hi
      exact ⟨hjob.commands, hjob.waiting hclaimed.1 rfl, hjob.at hclaimed.1⟩

/-- **Every rollout is recorded once**, in the runs that lose nothing: a job whose
`submit()` returned and that has left the table was given to `ResultRecorder.save` once,
with a result for each of its devices, by the route that claimed it. -/
theorem recorded_of_nothingLost (h : (orchestrator Target Device).Reachable nothingLost s)
    {job : Job Target Device} (hmem : job ∈ s.jobs) (hreturned : job.submit = .returned)
    (hlisted : job.listed = false) : job.RecordedOnce := by
  have hsound := sound_of_reachable h job hmem
  have hkept : job.submit.withdrawn = false := by rw [hreturned]; rfl
  have hplace := hsound.place
  split at hplace
  · rcases hplace.2 with hin | hout
    · cases hlisted.symm.trans hin
    · cases hkept.symm.trans hout
  · rcases hplace.2 with ⟨hout, -⟩ | hrecorded
    · cases hkept.symm.trans hout
    · exact hrecorded

end Runs

/-! ## A log line that fails -/

/-- A rollout of port 22, every call of its `submit()` answered. -/
def submittedWhole : List (Action Nat Nat) :=
  .submit [22] id ["logging on".toList] :: List.replicate 5 (.thread 0 (.submit .done))

/-- A cancel of the queued job: its line in the rollout's log, and what follows. -/
def cancelled (rest : List Event) : List (Action Nat Nat) :=
  submittedWhole ++ .cancel 0 :: rest.map (.thread 0)

/-- Submitted, out of the table, and nobody's any more, with so many saves. -/
def left (saves : Nat) (job : Job Nat Nat) : Bool :=
  job.submit = .returned && !job.listed && job.worker = .over && job.recorded.length = saves

theorem left_iff {saves : Nat} {job : Job Nat Nat} : left saves job = true ↔
    ((job.submit = .returned ∧ job.listed = false) ∧ job.worker = .over) ∧
      job.recorded.length = saves := by
  simp only [left, Bool.and_eq_true, decide_eq_true_eq, Bool.not_eq_true']

/-- **A rollout that nobody records**: the log cannot be written when the queued job is
cancelled. -/
theorem not_recorded_logFull :
    ∃ s, (orchestrator Nat Nat).Reachable System.always s ∧ ∃ job ∈ s.jobs,
      job.submit = .returned ∧ job.listed = false ∧ ¬ job.RecordedOnce := by
  have hrun : ((orchestrator Nat Nat).exec System.always (.init 2)
      (cancelled [.line false, .lock])).any (fun s => s.jobs.any (left 0)) = true := by decide
  obtain ⟨s, hs, hp⟩ := System.exists_reachable (by exact ⟨2, rfl⟩) hrun
  obtain ⟨job, hjob, hleft⟩ := List.any_eq_true.mp hp
  obtain ⟨⟨⟨hsubmit, hlisted⟩, -⟩, hnone⟩ := left_iff.mp hleft
  refine ⟨s, hs, job, hjob, hsubmit, hlisted, ?_⟩
  rintro ⟨rs, hrs, -⟩
  rw [hrs] at hnone
  cases hnone

/-- The same cancel with the line written. -/
theorem recorded_cancelled :
    ∃ s, (orchestrator Nat Nat).Reachable nothingLost s ∧ ∃ job ∈ s.jobs,
      job.submit = .returned ∧ job.listed = false ∧ job.RecordedOnce := by
  have hrun : ((orchestrator Nat Nat).exec nothingLost (.init 2)
      (cancelled ([.line true, .call .done, .lock, .save] ++ List.replicate 5 (.call .done)))).any
        (fun s => s.jobs.any (left 1)) = true := by decide
  obtain ⟨s, hs, hp⟩ := System.exists_reachable (by exact ⟨2, rfl⟩) hrun
  obtain ⟨job, hjob, hleft⟩ := List.any_eq_true.mp hp
  obtain ⟨⟨⟨hsubmit, hlisted⟩, -⟩, -⟩ := left_iff.mp hleft
  exact ⟨s, hs, job, hjob, hsubmit, hlisted, recorded_of_nothingLost hs hjob hsubmit hlisted⟩

end Jobs
end NetRollout
