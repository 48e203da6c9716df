import NetRollout.Results.Status

/-!
# The nightly clean-up

`run_retention` of `src/db/retention.py`: four statements in one transaction.  Device results
go by when they were completed; a job's metadata by when the job was submitted, once no
result of it is left.

A job whose results are not written yet has none left either.  `treatsWhole_iff` says exactly
when every job is kept whole or removed whole; `inStep_iff_of_recorded` that of what the
program writes this fails only for a job that waits or runs for longer than the period.
-/

namespace NetRollout
namespace Results

open PyText (Str)

/-! ## The statements -/

/-- The periods in `system_settings`, in days; none where the row is missing. -/
structure Periods where
  job_retention_days : Option Int
  config_snapshot_retention_days : Option Int
  audit_retention_days : Option Int

namespace Periods

/-- `sql_value`: the setting, or its default. -/
def job (p : Periods) : Int := p.job_retention_days.getD 30

def config (p : Periods) : Int := p.config_snapshot_retention_days.getD 7

def audit (p : Periods) : Int := p.audit_retention_days.getD 90

end Periods

/-- A day, in microseconds. -/
def DAY : Int := 86400 * 1000000

/-- `_older_than`: a column's time is before `now` less a number of days. -/
def olderThan (now days time : Int) : Bool := time < now - days * DAY

/-- What the clean-up works on. -/
structure Content where
  device_results : List DeviceResult
  job_metadata : List JobMetadata
  audit_log : List Int

/-- `UPDATE device_results SET fetched_config = NULL, config_diff = NULL`. -/
def DeviceResult.cleared (r : DeviceResult) : DeviceResult :=
  { r with fetched_config := none, config_diff := none }

section Statements

variable (p : Periods) (now : Int)

/-- `device_result_retention`. -/
def expireResults (c : Content) : Content :=
  { c with device_results := c.device_results.filter fun r => !olderThan now p.job r.completed_at }

/-- `job_metadata_retention`. -/
def expireMetadata (c : Content) : Content :=
  { c with job_metadata := c.job_metadata.filter fun m =>
      !(olderThan now p.job m.created_at && !c.device_results.any fun r => r.job_id = m.job_id) }

/-- `device_result_config_retention`. -/
def expireConfigs (c : Content) : Content :=
  { c with device_results := c.device_results.map fun r =>
      if (r.fetched_config.isSome || r.config_diff.isSome) &&
        olderThan now p.config r.completed_at then r.cleared else r }

/-- `audit_log_retention`. -/
def expireAudit (c : Content) : Content :=
  { c with audit_log := c.audit_log.filter fun time => !olderThan now p.audit time }

/-- `run_retention`. -/
def runRetention (c : Content) : Content :=
  expireAudit p now (expireConfigs p now (expireMetadata p now (expireResults p now c)))

end Statements

namespace Content

/-- A job's device results. -/
def resultsOf (c : Content) (job : Nat) : List DeviceResult :=
  c.device_results.filter fun r => r.job_id = job

def metadataOf (c : Content) (job : Nat) : List JobMetadata :=
  c.job_metadata.filter fun m => m.job_id = job

/-- All of a job is still there, its snapshots aside. -/
def Keeps (c c' : Content) (job : Nat) : Prop :=
  (c'.resultsOf job).map DeviceResult.cleared = (c.resultsOf job).map DeviceResult.cleared ∧
    c'.metadataOf job = c.metadataOf job

/-- Nothing of a job is there. -/
def Gone (c : Content) (job : Nat) : Prop := c.resultsOf job = [] ∧ c.metadataOf job = []

/-- What a clean-up should do to the jobs: keep each whole or remove it whole, so that a job
still listed has the status it had; and let a job with a result keep its metadata, and one of
those queued or running. -/
structure TreatsWhole (waiting : List Nat) (c c' : Content) : Prop where
  whole : ∀ job, c.Keeps c' job ∨ c'.Gone job
  status : ∀ job, c'.resultsOf job ≠ [] → jobStatus (c'.resultsOf job) = jobStatus (c.resultsOf job)
  metadata : ∀ m ∈ c.job_metadata,
    c'.resultsOf m.job_id ≠ [] ∨ m.job_id ∈ waiting → m ∈ c'.job_metadata

/-- A job's rows expire in step: its results together, its metadata not after them, its
metadata together when it has no result, and not at all while it is queued or running. -/
structure InStep (p : Periods) (now : Int) (waiting : List Nat) (c : Content) : Prop where
  results : ∀ r ∈ c.device_results, ∀ r' ∈ c.device_results, r.job_id = r'.job_id →
    olderThan now p.job r.completed_at = true → olderThan now p.job r'.completed_at = true
  metadata : ∀ r ∈ c.device_results, ∀ m ∈ c.job_metadata, r.job_id = m.job_id →
    olderThan now p.job r.completed_at = true → olderThan now p.job m.created_at = true
  together : ∀ m ∈ c.job_metadata, ∀ m' ∈ c.job_metadata, m.job_id = m'.job_id →
    c.resultsOf m.job_id = [] →
    olderThan now p.job m.created_at = true → olderThan now p.job m'.created_at = true
  waiting : ∀ m ∈ c.job_metadata, m.job_id ∈ waiting →
    (∀ r ∈ c.device_results, r.job_id = m.job_id → olderThan now p.job r.completed_at = true) →
    olderThan now p.job m.created_at = false

end Content

/-! ## What the statements leave of a job -/

section Left

variable (p : Periods) (now : Int) (c : Content) (job : Nat)

/-- Whether a result stays. -/
def DeviceResult.fresh (r : DeviceResult) : Bool := !olderThan now p.job r.completed_at

/-- The last two statements leave the rows, up to the snapshots. -/
theorem map_cleared_runRetention :
    ((runRetention p now c).resultsOf job).map DeviceResult.cleared =
      ((c.resultsOf job).filter (DeviceResult.fresh p now)).map DeviceResult.cleared := by
  have hclear : ∀ (cond : DeviceResult → Bool) (rows : List DeviceResult),
      ((rows.map fun r => if cond r then r.cleared else r).filter fun r => r.job_id = job).map
          DeviceResult.cleared =
        (rows.filter fun r => r.job_id = job).map DeviceResult.cleared := by
    intro cond rows
    rw [List.filter_map, List.map_map]
    have hjob : ((fun r : DeviceResult => decide (r.job_id = job)) ∘
        fun r => if cond r then r.cleared else r) = fun r => decide (r.job_id = job) := by
      funext r
      show decide ((if cond r then r.cleared else r).job_id = job) = _
      split <;> rfl
    rw [hjob]
    refine List.map_congr_left fun r _ => ?_
    show (if cond r then r.cleared else r).cleared = r.cleared
    split <;> rfl
  show ((List.map _ (List.filter _ c.device_results)).filter _).map _ = _
  rw [hclear]
  show (List.filter _ (List.filter (DeviceResult.fresh p now) c.device_results)).map _ = _
  rw [Content.resultsOf, List.filter_filter, List.filter_filter]
  simp only [Bool.and_comm]

theorem metadataOf_runRetention : (runRetention p now c).metadataOf job =
    (c.metadataOf job).filter fun m => !(olderThan now p.job m.created_at &&
      !(c.resultsOf job).any (DeviceResult.fresh p now)) := by
  show List.filter _ (List.filter _ c.job_metadata) = _
  rw [Content.metadataOf, List.filter_filter, List.filter_filter]
  refine List.filter_congr fun m _ => ?_
  by_cases hjob : m.job_id = job
  · have hany : ((c.device_results.filter fun r => !olderThan now p.job r.completed_at).any
        fun r => decide (r.job_id = m.job_id)) = (c.resultsOf job).any (DeviceResult.fresh p now) := by
      rw [Content.resultsOf, List.any_filter, List.any_filter, hjob]
      refine congrArg (List.any c.device_results) (funext fun r => ?_)
      exact Bool.and_comm _ _
    rw [decide_eq_true hjob, Bool.true_and, Bool.and_true]
    show (!(_ && !(List.any (List.filter _ _) _))) = _
    rw [hany]
  · rw [decide_eq_false hjob, Bool.false_and, Bool.and_false]

end Left

section Whole

variable {p : Periods} {now : Int} {c : Content}

theorem jobStatus_map_cleared (rows : List DeviceResult) :
    jobStatus (rows.map DeviceResult.cleared) = jobStatus rows := by
  simp only [jobStatus, anyOf, allFailed, List.any_map, List.all_map]
  rfl

theorem resultsOf_runRetention_ne_nil {job : Nat} :
    (runRetention p now c).resultsOf job ≠ [] ↔
      (c.resultsOf job).any (DeviceResult.fresh p now) = true := by
  have hmap := map_cleared_runRetention p now c job
  rw [ne_eq, ← List.map_eq_nil_iff (f := DeviceResult.cleared), hmap, List.map_eq_nil_iff,
    List.filter_eq_nil_iff, List.any_eq_true]
  simp only [not_forall, exists_prop, not_not]

theorem mem_metadataOf {m : JobMetadata} {c : Content} :
    m ∈ c.metadataOf m.job_id ↔ m ∈ c.job_metadata := by
  rw [Content.metadataOf, List.mem_filter]
  exact and_iff_left (decide_eq_true rfl)

theorem mem_resultsOf {r : DeviceResult} {job : Nat} {c : Content} :
    r ∈ c.resultsOf job ↔ r ∈ c.device_results ∧ r.job_id = job := by
  rw [Content.resultsOf, List.mem_filter, decide_eq_true_iff]

/-- The clean-up keeps the metadata of a job with a fresh result, or that is not old itself. -/
theorem mem_job_metadata_runRetention {m : JobMetadata} :
    m ∈ (runRetention p now c).job_metadata ↔ m ∈ c.job_metadata ∧
      ((c.resultsOf m.job_id).any (DeviceResult.fresh p now) = true ∨
        olderThan now p.job m.created_at = false) := by
  rw [← mem_metadataOf, metadataOf_runRetention, List.mem_filter, mem_metadataOf]
  refine and_congr_right fun _ => ?_
  cases (c.resultsOf m.job_id).any (DeviceResult.fresh p now) <;>
    cases olderThan now p.job m.created_at <;> decide

/-- A job that is kept has only fresh results. -/
theorem fresh_of_keeps {job : Nat} (h : c.Keeps (runRetention p now c) job) :
    ∀ r ∈ c.resultsOf job, r.fresh p now = true := by
  have hresults := h.1
  rw [map_cleared_runRetention] at hresults
  have hlength := congrArg List.length hresults
  rw [List.length_map, List.length_map] at hlength
  exact List.filter_eq_self.mp (List.filter_sublist.eq_of_length hlength)

theorem keeps_of_fresh {job : Nat} (h : ∀ r ∈ c.resultsOf job, r.fresh p now = true)
    (hmetadata : ∀ m ∈ c.metadataOf job, m ∈ (runRetention p now c).metadataOf job) :
    c.Keeps (runRetention p now c) job := by
  refine ⟨?_, ?_⟩
  · rw [map_cleared_runRetention, List.filter_eq_self.mpr h]
  · rw [metadataOf_runRetention] at hmetadata ⊢
    exact List.filter_eq_self.mpr fun m hm => (List.mem_filter.mp (hmetadata m hm)).2

theorem fresh_iff {r : DeviceResult} : r.fresh p now = true ↔
    olderThan now p.job r.completed_at = false := by
  rw [DeviceResult.fresh, Bool.not_eq_true']

theorem any_fresh_eq_false {job : Nat} : (c.resultsOf job).any (DeviceResult.fresh p now) = false ↔
    ∀ r ∈ c.device_results, r.job_id = job → olderThan now p.job r.completed_at = true := by
  rw [List.any_eq_false]
  simp only [mem_resultsOf, fresh_iff, Bool.not_eq_false, and_imp]

/-- A job's results are all fresh once one is. -/
theorem Content.InStep.fresh {waiting : List Nat} (h : c.InStep p now waiting) {job : Nat}
    (hany : (c.resultsOf job).any (DeviceResult.fresh p now) = true) :
    ∀ r ∈ c.resultsOf job, r.fresh p now = true := by
  intro r hr
  obtain ⟨r', hr', hfresh⟩ := List.any_eq_true.mp hany
  rw [mem_resultsOf] at hr hr'
  rw [fresh_iff] at hfresh ⊢
  rw [Bool.eq_false_iff] at hfresh ⊢
  exact fun hold => hfresh (h.results r hr.1 r' hr'.1 (hr.2.trans hr'.2.symm) hold)

theorem Content.InStep.whole {waiting : List Nat} (h : c.InStep p now waiting) (job : Nat) :
    c.Keeps (runRetention p now c) job ∨ (runRetention p now c).Gone job := by
  by_cases hany : (c.resultsOf job).any (DeviceResult.fresh p now) = true
  · refine Or.inl (keeps_of_fresh (h.fresh hany) fun m hm => ?_)
    rw [metadataOf_runRetention, List.mem_filter]
    exact ⟨hm, by rw [hany, Bool.not_true, Bool.and_false]; rfl⟩
  · have hold := any_fresh_eq_false.mp (Bool.eq_false_iff.mpr hany)
    have hgone : (runRetention p now c).resultsOf job = [] := by
      by_contra hne
      exact hany (resultsOf_runRetention_ne_nil.mp hne)
    -- Whether the metadata goes: by the results if there are any, else by itself.
    by_cases hmetadata : ∃ m ∈ c.metadataOf job, olderThan now p.job m.created_at = false
    · obtain ⟨m, hm, hfresh⟩ := hmetadata
      obtain ⟨hmem, hjob⟩ := List.mem_filter.mp hm
      rw [decide_eq_true_iff] at hjob
      have hnone : c.resultsOf job = [] := by
        rw [List.eq_nil_iff_forall_not_mem]
        intro r hr
        obtain ⟨hrmem, hrjob⟩ := mem_resultsOf.mp hr
        have hmold := h.metadata r hrmem m hmem (hrjob.trans hjob.symm) (hold r hrmem hrjob)
        rw [hfresh] at hmold
        cases hmold
      refine Or.inl (keeps_of_fresh (hnone ▸ List.forall_mem_nil _) fun m' hm' => ?_)
      obtain ⟨hmem', hjob'⟩ := List.mem_filter.mp hm'
      rw [decide_eq_true_iff] at hjob'
      rw [← hjob', mem_metadataOf, mem_job_metadata_runRetention]
      refine ⟨hmem', Or.inr (Bool.eq_false_iff.mpr fun hold' => ?_)⟩
      have hmold := h.together m' hmem' m hmem (hjob'.trans hjob.symm) (hjob' ▸ hnone) hold'
      rw [hfresh] at hmold
      cases hmold
    · refine Or.inr ⟨hgone, ?_⟩
      rw [List.eq_nil_iff_forall_not_mem]
      intro m hm
      rw [metadataOf_runRetention, List.mem_filter, Bool.eq_false_iff.mpr hany] at hm
      have hmold : olderThan now p.job m.created_at = true := by
        by_contra hfresh
        exact hmetadata ⟨m, hm.1, Bool.eq_false_iff.mpr hfresh⟩
      rw [hmold] at hm
      exact absurd hm.2 (by decide)

/-- **A clean-up treats the jobs whole** exactly when the rows of each expire in step. -/
theorem treatsWhole_iff (p : Periods) (now : Int) (waiting : List Nat) (c : Content) :
    c.TreatsWhole waiting (runRetention p now c) ↔ c.InStep p now waiting := by
  constructor
  · intro h
    have hkeeps : ∀ {job : Nat}, ((runRetention p now c).resultsOf job ≠ [] ∨
        (runRetention p now c).metadataOf job ≠ []) → c.Keeps (runRetention p now c) job :=
      fun hleft => (h.whole _).resolve_right fun hgone =>
        hleft.elim (fun hne => hne hgone.1) fun hne => hne hgone.2
    refine ⟨?_, ?_, ?_, ?_⟩
    · intro r hr r' hr' hjob hold
      by_contra hfresh
      have hany : (c.resultsOf r.job_id).any (DeviceResult.fresh p now) = true :=
        List.any_eq_true.mpr ⟨r', mem_resultsOf.mpr ⟨hr', hjob.symm⟩,
          fresh_iff.mpr (Bool.eq_false_iff.mpr hfresh)⟩
      have hr := fresh_of_keeps (hkeeps (Or.inl (resultsOf_runRetention_ne_nil.mpr hany))) r
        (mem_resultsOf.mpr ⟨hr, rfl⟩)
      rw [fresh_iff, hold] at hr
      cases hr
    · intro r hr m hm hjob hold
      by_contra hfresh
      have hstays := mem_metadataOf.mpr (mem_job_metadata_runRetention.mpr
        ⟨hm, Or.inr (Bool.eq_false_iff.mpr hfresh)⟩)
      have hr := fresh_of_keeps (hkeeps (Or.inr (List.ne_nil_of_mem hstays))) r
        (mem_resultsOf.mpr ⟨hr, hjob⟩)
      rw [fresh_iff, hold] at hr
      cases hr
    · intro m hm m' hm' hjob hnone hold
      by_contra hfresh
      have hstays := mem_metadataOf.mpr (mem_job_metadata_runRetention.mpr
        ⟨hm', Or.inr (Bool.eq_false_iff.mpr hfresh)⟩)
      have hsame := (hkeeps (Or.inr (List.ne_nil_of_mem hstays))).2
      have hmstays : m ∈ (runRetention p now c).metadataOf m'.job_id := by
        rw [hsame, ← hjob]
        exact mem_metadataOf.mpr hm
      rw [← hjob, mem_metadataOf, mem_job_metadata_runRetention, hnone, hold] at hmstays
      rcases hmstays.2 with hfalse | hfalse <;> cases hfalse
    · intro m hm hwaiting hold
      have hstays := h.metadata m hm (Or.inr hwaiting)
      rw [mem_job_metadata_runRetention, any_fresh_eq_false.mpr hold] at hstays
      exact hstays.2.resolve_left Bool.false_ne_true
  · intro h
    refine ⟨h.whole, fun job hne => ?_, fun m hm hleft => ?_⟩
    · have hfresh := h.fresh (resultsOf_runRetention_ne_nil.mp hne)
      rw [← jobStatus_map_cleared, map_cleared_runRetention, List.filter_eq_self.mpr hfresh,
        jobStatus_map_cleared]
    · refine mem_job_metadata_runRetention.mpr ⟨hm, ?_⟩
      by_cases hany : (c.resultsOf m.job_id).any (DeviceResult.fresh p now) = true
      · exact Or.inl hany
      · refine Or.inr ?_
        rcases hleft with hne | hwaiting
        · exact absurd (resultsOf_runRetention_ne_nil.mp hne) hany
        · exact h.waiting m hm hwaiting (any_fresh_eq_false.mp (Bool.eq_false_iff.mpr hany))

end Whole

/-! ## What the program writes -/

/-- What `ResultRecorder` and the start of a rollout write: a job's results completed at one
time, not before its submission, and one row of metadata for a job. -/
structure Content.Recorded (c : Content) : Prop where
  results : ∀ r ∈ c.device_results, ∀ r' ∈ c.device_results, r.job_id = r'.job_id →
    r.completed_at = r'.completed_at
  metadata : ∀ r ∈ c.device_results, ∀ m ∈ c.job_metadata, r.job_id = m.job_id →
    m.created_at ≤ r.completed_at
  one : ∀ m ∈ c.job_metadata, ∀ m' ∈ c.job_metadata, m.job_id = m'.job_id → m = m'

theorem olderThan_mono {now days time time' : Int} (hle : time ≤ time')
    (h : olderThan now days time' = true) : olderThan now days time = true := by
  rw [olderThan, decide_eq_true_iff] at h ⊢
  omega

/-- **Of what the program writes** only a job queued or running for longer than the period is
out of step. -/
theorem inStep_iff_of_recorded {p : Periods} {now : Int} {waiting : List Nat} {c : Content}
    (h : c.Recorded) (hwaiting : ∀ r ∈ c.device_results, r.job_id ∉ waiting) :
    c.InStep p now waiting ↔ ∀ m ∈ c.job_metadata, m.job_id ∈ waiting →
      olderThan now p.job m.created_at = false := by
  constructor
  · intro hstep m hm hmwaiting
    refine hstep.waiting m hm hmwaiting fun r hr hjob => ?_
    exact absurd (hjob ▸ hmwaiting) (hwaiting r hr)
  · intro hyoung
    refine ⟨fun r hr r' hr' hjob => ?_, fun r hr m hm hjob => ?_, fun m hm m' hm' hjob _ => ?_,
      fun m hm hmwaiting _ => hyoung m hm hmwaiting⟩
    · rw [h.results r hr r' hr' hjob]
      exact id
    · exact olderThan_mono (h.metadata r hr m hm hjob)
    · rw [h.one m hm m' hm' hjob]
      exact id

/-- A rollout that waits or runs for 31 days, with a period of 30: its metadata goes. -/
theorem not_treatsWhole_longRollout :
    ¬ Content.TreatsWhole [1] ⟨[], [⟨0, 1, [], none, 0, 0⟩], []⟩
      (runRetention ⟨none, none, none⟩ (31 * DAY) ⟨[], [⟨0, 1, [], none, 0, 0⟩], []⟩) := by
  rw [treatsWhole_iff]
  intro h
  exact absurd (h.waiting ⟨0, 1, [], none, 0, 0⟩ (by simp) (by simp)
    fun r hr _ => absurd hr List.not_mem_nil) (by decide)

end Results
end NetRollout
