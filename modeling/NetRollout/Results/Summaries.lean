import NetRollout.Library.Counter
import NetRollout.Library.Groups
import NetRollout.Results.Paging
import NetRollout.Results.Reviews

/-!
# Jobs, as they are shown

What `src/results.py` makes of device results: the jobs of Results' pages (`build_jobs`) and of
the dashboard (`build_job_summaries`), a job's summary on its completion card (`summary`), and a
user's numbers (`totals`).

Each of them groups rows of its own query.  `kept_whole` is that a filter keeps a job whole or
not at all, so that a page's job is told from all its rows; `shown_alike` is that a page and the
summary then tell the same of it, and that a status that is filtered by is the status shown.
`totals_eq` is that a user's numbers are those of the pages, and `statuses_part` that the
statuses part the jobs.

The percentages are left out.  How a time and an id are written are parameters, and the log
files are those of some jobs.
-/

namespace NetRollout
namespace Results

open PyText (Str Unicode)
open Session (DeviceStatus)
open Rollout (StoredReply)
open Inventory (Viewer)

/-! ## The rows -/

/-- The columns of `device_results` that are only shown. -/
structure Columns where
  device_type : Str
  commands_sent : Nat
  action_needed : Option Str
  replies : Option (List StoredReply)

/-- The tables, the columns of a row by its id, and the names of the users. -/
structure Archive extends History where
  columns : Nat → Columns
  usernames : List (Nat × Str)

/-- The texts of a time, on the pages and in the export, and of a job's id. -/
structure Format where
  minute : Int → Str
  stamp : Int → Str
  uuid : Nat → Str

/-- `by_job`. -/
def byJob (rows : List JobRow) : List (Nat × List JobRow) :=
  Groups.grouped (fun r => r.job_id) rows

/-- `job_status` of rows with all their columns. -/
def statusOf (rows : List JobRow) : DeviceStatus := jobStatus (rows.map JobRow.toDeviceResult)

/-- A text that is given and not empty. -/
def text (s : Option Str) : Option Str := s.filter fun s => !s.isEmpty

section Jobs

variable (archive : Archive) (viewer : Viewer)

/-- `device_label`, of `device_labels`. -/
def deviceLabel (r : JobRow) : Str :=
  (endpointLabel archive.toHistory viewer (r.device_ip, r.device_port)).getD
    (if r.device_port = 22 then r.device_ip else Rollout.endpoint r.device_ip r.device_port)

/-- What `job_values` returns. -/
structure JobValues where
  completed_at : Int
  device_count : Nat
  commands_sent : Nat
  status : DeviceStatus
  action_needed : Bool

/-- `job_values`; none where it raises. -/
def jobValues (rows : List JobRow) : Option JobValues := do
  let completed_at ← (rows.map fun r => r.completed_at).max?
  let first ← rows.head?
  return {
    completed_at := completed_at
    device_count := rows.length
    commands_sent := (archive.columns first.id).commands_sent
    status := statusOf rows
    action_needed := rows.any fun r => (text (archive.columns r.id).action_needed).isSome }

/-- `build_job_summaries`. -/
def buildJobSummaries (results : List JobRow) : List (Nat × JobValues) :=
  ((byJob results).filterMap fun job => (jobValues archive job.2).map fun v => (job.1, v)).mergeSort
    fun a b => b.2.completed_at ≤ a.2.completed_at

/-- The metadata of a job: of several rows, the last. -/
def metadata (job : Nat) : Option JobMetadata :=
  (archive.job_metadata.filter fun m => m.job_id == job).getLast?

/-- What `review_view` returns. -/
structure ReviewView where
  outcome : Str
  reviewer : Str
  at? : Option Str
  comment : Option Str

/-- `review_view`. -/
def reviewView (format : Int → Str) (r : JobRow) : Option ReviewView :=
  r.review_outcome.map fun outcome => {
    outcome := outcome
    reviewer := (r.reviewed_by.bind (Dict.get archive.usernames)).getD "a deleted user".toList
    at? := r.reviewed_at.map format
    comment := r.review_comment }

/-- `config_expired`. -/
def configExpired (now snapshot_days : Int) (r : JobRow) : Bool :=
  r.transcript.isSome && r.config_diff.isNone &&
    r.completed_at < now - snapshot_days * Calendar.DAY

/-- A device of a job of Results. -/
structure DeviceEntry where
  ip : Str
  port : Int
  label : Str
  device_type : Str
  status : Str
  action_needed : Option Str
  commands_sent : Nat
  commands_verified : Option Nat
  has_config : Bool
  config_expired : Bool
  review : Option ReviewView
  decide : Bool
  replies : List StoredReply

/-- A job of Results. -/
structure JobEntry extends JobValues where
  job_id : Nat
  has_log : Bool
  started_at : Int
  comment : Option Str
  commands : List Str
  devices : List DeviceEntry
  to_review : Nat
  job_owner : Option Str

/-- When a page is built, with the retention of the configurations and the jobs that have a log
file. -/
structure Request where
  texts : Format
  now : Int
  snapshot_days : Int
  hasLog : Nat → Bool

variable (request : Request)

def deviceEntry (r : JobRow) : DeviceEntry :=
  let columns := archive.columns r.id
  { ip := r.device_ip
    port := r.device_port
    label := deviceLabel archive viewer r
    device_type := columns.device_type
    status := r.status
    action_needed := columns.action_needed
    commands_sent := columns.commands_sent
    commands_verified := r.commands_verified
    has_config := r.config_diff.isSome || r.fetched_config.isSome
    config_expired := configExpired request.now request.snapshot_days r
    review := reviewView archive request.texts.minute r
    decide := awaitingDecision r.toDeviceResult
    replies := columns.replies.getD [] }

/-- A job's rows as `build_jobs` shows them. -/
def jobEntry (job_owner : Option Str) (job : Nat × List JobRow) : Option JobEntry := do
  let values ← jobValues archive job.2
  let started_at ← started job.2
  let stored := metadata archive job.1
  return { values with
    job_id := job.1
    has_log := request.hasLog job.1
    started_at := started_at
    comment := stored.bind JobMetadata.comment
    commands := stored.elim [] JobMetadata.commands
    devices := job.2.map (deviceEntry archive viewer request)
    to_review := job.2.countP fun r => awaitingDecision r.toDeviceResult
    job_owner := job_owner }

/-- `build_jobs`. -/
def buildJobs (results : List JobRow) (job_owner : Option Str) : List JobEntry :=
  (byJob results).filterMap (jobEntry archive viewer request job_owner)

/-- The jobs of one list of Results: newest first. -/
def shownJobs (results : List JobRow) : List JobEntry :=
  (buildJobs archive viewer request results none).mergeSort
    fun a b => b.completed_at ≤ a.completed_at

/-- What `summary` returns. -/
structure Summary where
  job_id : Nat
  comment : Option Str
  status : DeviceStatus
  device_count : Nat
  counts : List (Str × Nat)
  to_decide : Nat
  action_needed : List (Str × Str)

/-- `may_see`. -/
def maySee (owner_id : Nat) : Bool := viewer.is_admin || owner_id == viewer.id

/-- What `summary` returns of a job's rows. -/
def summaryOf (job : Nat) (rows : List JobRow) : Summary where
  job_id := job
  comment := (metadata archive job).bind JobMetadata.comment
  status := statusOf rows
  device_count := rows.length
  counts := Counter.count (rows.map fun r => r.status)
  to_decide := rows.countP fun r => awaitingDecision r.toDeviceResult
  action_needed := rows.filterMap fun r =>
    (text (archive.columns r.id).action_needed).map fun t => (deviceLabel archive viewer r, t)

/-- `summary`: none of a job without results, or one the viewer may not see. -/
def summary (job : Nat) : Option Summary :=
  let rows := ofJob archive.device_results job
  match rows.head? with
  | none => none
  | some first =>
    if maySee viewer first.user_id then some (summaryOf archive viewer job rows) else none

/-- What `totals` returns, but for the success rate's percentage. -/
structure Totals where
  total_rollouts : Nat
  total_devices : Nat
  successful : Nat
  most_common_platform : Option Str
  total_commands : Nat

/-- `totals`. -/
def totals (user_id : Nat) : Totals :=
  let rows := archive.device_results.filter fun r => r.user_id == user_id
  let jobs := byJob rows
  { total_rollouts := jobs.length
    total_devices := rows.length
    successful := jobs.countP fun job => statusOf job.2 == .success
    most_common_platform :=
      (Counter.mostCommon (Counter.count
        (rows.map fun r => (archive.columns r.id).device_type))).map Prod.fst
    total_commands := (rows.map fun r => (archive.columns r.id).commands_sent).sum }

end Jobs

/-! ## Jobs are kept whole -/

/-- The rows of some jobs, as they are in the table. -/
def Whole (all rows : List JobRow) : Prop :=
  ∃ keep : Nat → Bool, rows = all.filter fun r => keep r.job_id

/-- A job's rows are one user's. -/
def OneOwner (all : List JobRow) : Prop :=
  ∀ r ∈ all, ∀ s ∈ all, r.job_id = s.job_id → r.user_id = s.user_id

section Whole

variable {all rows : List JobRow}

theorem mem_ofJob {job : Nat} {r : JobRow} : r ∈ ofJob rows job ↔ r ∈ rows ∧ r.job_id = job := by
  rw [ofJob, List.mem_filter, beq_iff_eq]

theorem Whole.filter (h : Whole all rows) (keep : Nat → Bool) :
    Whole all (rows.filter fun r => keep r.job_id) := by
  obtain ⟨own, rfl⟩ := h
  exact ⟨fun job => keep job && own job, by rw [List.filter_filter]⟩

theorem Whole.ifGiven (h : Whole all rows) (t : Option Str)
    (keeps : Str → List JobRow → JobRow → Bool) (keep : Str → Nat → Bool)
    (hkeeps : ∀ t r, keeps t rows r = keep t r.job_id) : Whole all (ifGiven t keeps rows) := by
  cases t with
  | none => exact h
  | some t =>
    rw [Results.ifGiven]
    split
    · exact h
    · rw [show keeps t rows = fun r => keep t r.job_id from funext (hkeeps t)]
      exact h.filter (keep t)

/-- A job that is kept is kept with all its rows. -/
theorem Whole.ofJob_eq (h : Whole all rows) {job : Nat} (hjob : ofJob rows job ≠ []) :
    ofJob rows job = ofJob all job := by
  obtain ⟨keep, rfl⟩ := h
  obtain ⟨r, rest, heq⟩ := List.exists_cons_of_ne_nil hjob
  have hr : r ∈ ofJob (all.filter fun r => keep r.job_id) job := heq ▸ List.mem_cons_self ..
  obtain ⟨hmem, rfl⟩ := mem_ofJob.mp hr
  have hkeep := (List.mem_filter.mp hmem).2
  simp only [ofJob, List.filter_filter]
  refine List.filter_congr fun s _ => ?_
  by_cases hs : s.job_id = r.job_id
  · simp [hs, hkeep]
  · simp [hs]

section Kept

variable [Unicode] (pg : Postgres) (history : History) (viewer : Viewer) (scope : JobScope)
  (filters : JobFilter)

/-- The jobs of a scope whose status and start are those asked for. -/
def judged (moment : Option Int) : List JobRow :=
  having (fun job => hasStatus filters.status job &&
    startedFrom (filters.since.map midnight) job && startedBefore moment job)
      (inScope history viewer scope filters.owner)

/-- Of some jobs those the other filters let through. -/
def filtered (rows : List JobRow) : List JobRow :=
  ifGiven filters.device (onDevice pg history viewer)
    (ifGiven filters.job_id (idLike pg) (ifGiven filters.note (noted pg history) rows))

/-- The moment before which a job is to have started; none where the query fails. -/
def untilMoment : Option (Option Int) :=
  if filters.hasNul then none
  else filters.untilDay.elim (some none) fun day => (midnightAfter day).map some

theorem kept_eq : kept pg history viewer scope filters =
    (untilMoment filters).map fun moment =>
      filtered pg history viewer filters (judged history viewer scope filters moment) := by
  cases hnul : filters.hasNul with
  | true => simp only [kept, untilMoment, hnul, if_true, Option.map_none]
  | false =>
    cases hday : filters.untilDay with
    | none => simp only [kept, untilMoment, filtered, judged, hnul, Bool.false_eq_true, if_false,
        hday, Option.elim_none, Option.map_some]
    | some day => simp only [kept, untilMoment, filtered, judged, hnul, Bool.false_eq_true,
        if_false, hday, Option.elim_some, Option.map_map, Function.comp_def]

end Kept

theorem whole_inScope {history : History} (hone : OneOwner history.device_results)
    (viewer : Viewer) (scope : JobScope) (owner : Option Nat) :
    Whole history.device_results (inScope history viewer scope owner) := by
  have huser : ∀ {rows} (p : Nat → Bool), Whole history.device_results rows →
      Whole history.device_results (rows.filter fun r => p r.user_id) := by
    rintro _ p ⟨keep, rfl⟩
    refine ⟨fun job => keep job && history.device_results.any fun r =>
      r.job_id == job && p r.user_id, ?_⟩
    rw [List.filter_filter]
    refine List.filter_congr fun r hr => ?_
    have hany : (history.device_results.any fun s => s.job_id == r.job_id && p s.user_id) =
        p r.user_id := by
      rw [Bool.eq_iff_iff, List.any_eq_true]
      constructor
      · rintro ⟨s, hs, h⟩
        rw [Bool.and_eq_true, beq_iff_eq] at h
        rw [hone r hr s hs h.1.symm]
        exact h.2
      · intro h
        exact ⟨r, hr, by simp [h]⟩
    rw [Bool.and_comm]
    exact congrArg (keep r.job_id && ·) hany.symm
  have hall : Whole history.device_results history.device_results :=
    ⟨fun _ => true, by simp⟩
  have hscope : Whole history.device_results
      (if scope = .mine ∨ viewer.is_admin = false then
        history.device_results.filter fun r => r.user_id == viewer.id
      else if scope = .others then
        history.device_results.filter fun r => r.user_id != viewer.id
      else history.device_results) := by
    split
    · exact huser (fun id => id == viewer.id) hall
    · split
      · exact huser (fun id => id != viewer.id) hall
      · exact hall
  cases owner with
  | none => exact hscope
  | some owner => exact huser (fun id => id == owner) hscope

theorem Whole.filtered [Unicode] {pg : Postgres} {history : History} {viewer : Viewer}
    (h : Whole all rows) (filters : JobFilter) :
    Whole all (filtered pg history viewer filters rows) := by
  have hnoted := h.ifGiven filters.note (noted pg history)
    (fun t job => history.job_metadata.any fun m => m.job_id == job &&
      m.comment.any fun comment => pg.ilike comment (contains t)) fun _ _ => rfl
  have hid := hnoted.ifGiven filters.job_id (idLike pg)
    (fun t job => pg.ilike (pg.cast job) (contains t)) fun _ _ => rfl
  exact hid.ifGiven filters.device (onDevice pg history viewer)
    (fun t job => (ofJob _ job).any fun d => pg.ilike d.device_ip (contains t) ||
      isNamed history viewer t (d.device_ip, d.device_port)) fun _ _ => rfl

theorem Whole.judged {history : History} {viewer : Viewer} {scope : JobScope}
    {filters : JobFilter} (h : Whole all (inScope history viewer scope filters.owner))
    (moment : Option Int) : Whole all (judged history viewer scope filters moment) :=
  h.filter fun job =>
    hasStatus filters.status (ofJob (inScope history viewer scope filters.owner) job) &&
      startedFrom (filters.since.map midnight)
        (ofJob (inScope history viewer scope filters.owner) job) &&
      startedBefore moment (ofJob (inScope history viewer scope filters.owner) job)

/-- **A filter keeps a job whole or leaves it out.** -/
theorem kept_whole [Unicode] {pg : Postgres} {history : History} {viewer : Viewer}
    {scope : JobScope} {filters : JobFilter} (hone : OneOwner history.device_results)
    (h : kept pg history viewer scope filters = some rows) :
    Whole history.device_results rows := by
  rw [kept_eq] at h
  obtain ⟨moment, -, rfl⟩ := Option.map_eq_some_iff.mp h
  exact ((whole_inScope hone viewer scope filters.owner).judged moment).filtered filters

end Whole

/-! ## A job is told the same -/

section Shown

variable {archive : Archive} {viewer : Viewer} {request : Request}
  {scope : JobScope} {filters : JobFilter} {rows : List JobRow}

/-- The groups are the jobs' rows. -/
theorem mem_byJob {job : Nat} {g : List JobRow} :
    (job, g) ∈ byJob rows ↔ g ≠ [] ∧ g = ofJob rows job :=
  Groups.mem_grouped_iff

theorem value_inj {s t : DeviceStatus} (h : value s = value t) : s = t := by
  cases s <;> cases t <;> first | rfl | exact absurd h (by decide)

/-- The status condition is true of the jobs that are shown with the status. -/
theorem hasStatus_iff {job : List JobRow} (hne : job ≠ []) (s : DeviceStatus) :
    hasStatus (some s) job = true ↔ statusOf job = s := by
  have hmap : job.map JobRow.toDeviceResult ≠ [] := by simpa using hne
  have hchooses := chooses_iff hmap (value s)
  rw [hasStatus, Option.all_some, Option.any_eq_true]
  constructor
  · rintro ⟨condition, hcondition, htrue⟩
    exact (value_inj (hchooses.mp ⟨condition, hcondition, by simpa using htrue⟩)).symm
  · rintro rfl
    obtain ⟨condition, hcondition, htrue⟩ := hchooses.mpr rfl
    exact ⟨condition, hcondition, by simpa using htrue⟩

/-- The scope's rows are ones the viewer may see. -/
theorem maySee_of_mem_inScope {history : History} {owner : Option Nat} {r : JobRow}
    (h : r ∈ inScope history viewer scope owner) : maySee viewer r.user_id = true := by
  have hscope : r ∈ (if scope = .mine ∨ viewer.is_admin = false then
      history.device_results.filter fun r => r.user_id == viewer.id
    else if scope = .others then history.device_results.filter fun r => r.user_id != viewer.id
    else history.device_results) := by
    cases owner with
    | none => exact h
    | some owner => exact (List.mem_filter.mp h).1
  rw [maySee]
  split at hscope
  · rw [(List.mem_filter.mp hscope).2, Bool.or_true]
  · next hadmin =>
    rw [not_or] at hadmin
    rw [Bool.eq_true_of_not_eq_false hadmin.2, Bool.true_or]

/-- What an entry of a page tells of its job. -/
theorem jobEntry_eq {owner : Option Str} {job : Nat} {g : List JobRow} {e : JobEntry}
    (h : jobEntry archive viewer request owner (job, g) = some e) :
    e.job_id = job ∧ e.status = statusOf g ∧ e.device_count = g.length ∧
      e.to_review = g.countP (fun r => awaitingDecision r.toDeviceResult) ∧
      e.comment = (metadata archive job).bind JobMetadata.comment ∧
      e.devices.length = g.length ∧
      e.action_needed = g.any fun r => (text (archive.columns r.id).action_needed).isSome := by
  simp only [jobEntry, Option.bind_eq_bind, Option.bind_eq_some_iff, Option.pure_def] at h
  obtain ⟨values, hvalues, started_at, -, h⟩ := h
  simp only [jobValues, Option.bind_eq_bind, Option.bind_eq_some_iff, Option.pure_def] at hvalues
  obtain ⟨completed_at, -, first, -, hvalues⟩ := hvalues
  obtain rfl := Option.some.inj hvalues
  obtain rfl := Option.some.inj h
  exact ⟨rfl, rfl, rfl, rfl, rfl, List.length_map .., rfl⟩

/-- A job's rows have their values, and make an entry. -/
theorem exists_jobValues {g : List JobRow} (hne : g ≠ []) :
    ∃ values, jobValues archive g = some values := by
  obtain ⟨first, rest, rfl⟩ := List.exists_cons_of_ne_nil hne
  obtain ⟨completed_at, hcompleted⟩ := Option.isSome_iff_exists.mp
    (List.isSome_max?_of_mem (List.mem_cons_self (a := first.completed_at)
      (l := rest.map fun r => r.completed_at)))
  simp only [jobValues, List.map_cons, hcompleted, List.head?_cons]
  exact ⟨_, rfl⟩

theorem exists_jobEntry {job : Nat} {g : List JobRow} (hne : g ≠ []) (owner : Option Str) :
    ∃ e, jobEntry archive viewer request owner (job, g) = some e := by
  obtain ⟨values, hvalues⟩ : ∃ values, jobValues archive g = some values :=
    exists_jobValues hne
  obtain ⟨started_at, hstarted⟩ := Option.isSome_iff_exists.mp
    (List.isSome_min?_of_ne_nil (l := g.map JobRow.started_at) (by simpa using hne))
  simp only [jobEntry, hvalues, started, hstarted]
  exact ⟨_, rfl⟩

/-- Every job that is kept is shown, on the page it is focused on. -/
theorem exists_entry {r : JobRow} (hr : r ∈ rows) (asked : Int) {per_page : Nat}
    (hper : 1 ≤ per_page) (owner : Option Str) :
    ∃ e ∈ buildJobs archive viewer request
      (pageOf rows asked per_page (some r.job_id)).results owner, e.job_id = r.job_id := by
  have hpaged := paged_pageOf rows hper
  have hjob : r.job_id ∈ (parts rows per_page).flatten := (hpaged.mem_iff _).mpr ⟨r, hr, rfl⟩
  obtain ⟨p, k, part, hp, -, -, hpage, hpart, hresults⟩ := hpaged.answers asked (some r.job_id)
  have hshown := (hpaged.focused asked r.job_id p hjob hp k part hpart).mp hpage
  obtain rfl := Option.some.inj hp
  have hmem : r ∈ (pageOf rows asked per_page (some r.job_id)).results := by
    rw [hresults, List.mem_filter, List.contains_iff_mem]
    exact ⟨hr, hshown⟩
  have hne := List.ne_nil_of_mem (mem_ofJob.mpr ⟨hmem, rfl⟩)
  obtain ⟨e, he⟩ : ∃ e, jobEntry archive viewer request owner (r.job_id, _) = some e :=
    exists_jobEntry hne owner
  exact ⟨e, List.mem_filterMap.mpr ⟨_, mem_byJob.mpr ⟨hne, rfl⟩, he⟩, (jobEntry_eq he).1⟩

variable [Unicode] {pg : Postgres}

/-- The rows that are kept are in the scope, and their job has the status asked for. -/
theorem of_mem_kept (h : kept pg archive.toHistory viewer scope filters = some rows) {r : JobRow}
    (hr : r ∈ rows) : r ∈ inScope archive.toHistory viewer scope filters.owner ∧
      hasStatus filters.status
        (ofJob (inScope archive.toHistory viewer scope filters.owner) r.job_id) = true := by
  have hgiven : ∀ {t keeps} {all : List JobRow} {s : JobRow},
      s ∈ ifGiven t keeps all → s ∈ all := by
    intro t keeps all s hs
    cases t with
    | none => exact hs
    | some t =>
      rw [ifGiven] at hs
      split at hs
      · exact hs
      · exact (List.mem_filter.mp hs).1
  rw [kept_eq] at h
  obtain ⟨moment, -, rfl⟩ := Option.map_eq_some_iff.mp h
  obtain ⟨hin, hcondition⟩ := List.mem_filter.mp (hgiven (hgiven (hgiven hr)))
  rw [Bool.and_eq_true, Bool.and_eq_true] at hcondition
  exact ⟨hin, hcondition.1.1⟩

/-- A page and a summary tell the same of a job. -/
structure Alike (e : JobEntry) (s : Summary) : Prop where
  job_id : s.job_id = e.job_id
  comment : s.comment = e.comment
  status : s.status = e.status
  device_count : s.device_count = e.device_count
  /-- The devices that are listed, and those that are counted by status. -/
  devices : e.devices.length = e.device_count
  counts : (s.counts.map Prod.snd).sum = e.device_count
  to_decide : s.to_decide = e.to_review
  action_needed : s.action_needed ≠ [] ↔ e.action_needed = true

end Shown

/-- The job of `oneJob`, and what is not said of it elsewhere. -/
def oneArchive : Archive where
  toHistory := oneJob
  columns := fun _ => ⟨"cisco_ios".toList, 3, none, none⟩
  usernames := [(1, "ada".toList)]

/-- A request for a page. -/
def plainRequest : Request := ⟨⟨fun _ => [], fun _ => [], fun _ => []⟩, 100, 30, fun _ => false⟩

section Numbers

variable {archive : Archive} {viewer : Viewer} {scope : JobScope} {filters : JobFilter}
  {rows : List JobRow}

/-- The statuses a job may have. -/
def statuses : List DeviceStatus := [.success, .review, .partly, .failed, .notVerified, .cancelled]

/-- What has one of the statuses is counted under one. -/
theorem sum_countP_statuses {α : Type*} (f : α → DeviceStatus) (l : List α) :
    (statuses.map fun s => l.countP fun a => f a == s).sum = l.length := by
  induction l with
  | nil => rfl
  | cons a l ih =>
    simp only [statuses, List.map_cons, List.map_nil, List.sum_cons, List.sum_nil,
      List.countP_cons, List.length_cons] at ih ⊢
    cases f a <;> simp <;> omega

/-- As many jobs are listed as there are groups of rows that are kept. -/
theorem length_jobIds_filter (rows : List JobRow) (keep : List JobRow → Bool) :
    (jobIds (rows.filter fun r => keep (ofJob rows r.job_id))).length =
      (byJob rows).countP fun job => keep job.2 := by
  have hnodup : (((byJob rows).filter fun job => keep job.2).map Prod.fst).Nodup :=
    (Groups.nodup_keys rows).sublist (List.filter_sublist.map _)
  have hperm : (jobIds (rows.filter fun r => keep (ofJob rows r.job_id))).Perm
      (((byJob rows).filter fun job => keep job.2).map Prod.fst) := by
    refine (List.perm_ext_iff_of_nodup (List.nodup_dedup _) hnodup).mpr fun job => ?_
    refine (mem_jobIds _ job).trans ?_
    rw [List.mem_map]
    constructor
    · rintro ⟨r, hr, rfl⟩
      obtain ⟨hmem, hkeep⟩ := List.mem_filter.mp hr
      have hown : r ∈ ofJob rows r.job_id := mem_ofJob.mpr ⟨hmem, rfl⟩
      exact ⟨(r.job_id, ofJob rows r.job_id), List.mem_filter.mpr
        ⟨mem_byJob.mpr ⟨List.ne_nil_of_mem hown, rfl⟩, hkeep⟩, rfl⟩
    · rintro ⟨⟨job, g⟩, hg, rfl⟩
      obtain ⟨hmem, hkeep⟩ := List.mem_filter.mp hg
      obtain ⟨hne, rfl⟩ := mem_byJob.mp hmem
      obtain ⟨r, rest, heq⟩ := List.exists_cons_of_ne_nil hne
      have hr : r ∈ ofJob rows job := heq ▸ List.mem_cons_self ..
      obtain ⟨hin, rfl⟩ := mem_ofJob.mp hr
      exact ⟨r, List.mem_filter.mpr ⟨hin, hkeep⟩, rfl⟩
  rw [hperm.length_eq, List.length_map, List.countP_eq_length_filter]

theorem length_jobIds (rows : List JobRow) : (jobIds rows).length = (byJob rows).length := by
  have h := length_jobIds_filter rows fun _ => true
  rw [List.filter_true, List.countP_true] at h
  exact h

/-- A job filter of a job filter, in either order. -/
theorem ifGiven_filter {keeps : Str → List JobRow → JobRow → Bool} (keep : Nat → Bool)
    (hkeeps : ∀ t rows r, keep r.job_id = true →
      keeps t (rows.filter fun s => keep s.job_id) r = keeps t rows r)
    (t : Option Str) (rows : List JobRow) :
    ifGiven t keeps (rows.filter fun r => keep r.job_id) =
      (ifGiven t keeps rows).filter fun r => keep r.job_id := by
  cases t with
  | none => rfl
  | some t =>
    rw [ifGiven, ifGiven]
    split
    · rfl
    · rw [List.filter_filter, List.filter_filter]
      refine List.filter_congr fun r _ => ?_
      by_cases hkeep : keep r.job_id = true
      · rw [hkeep, Bool.and_true, Bool.true_and, hkeeps t rows r hkeep]
      · simp [hkeep]

/-- A job that passes a job filter passes it with all its rows. -/
theorem ofJob_filter (keep : Nat → Bool) (rows : List JobRow) {job : Nat} (h : keep job = true) :
    ofJob (rows.filter fun r => keep r.job_id) job = ofJob rows job := by
  rw [ofJob, List.filter_filter]
  refine List.filter_congr fun r _ => ?_
  by_cases hr : r.job_id = job
  · simp [hr, h]
  · simp [hr]

/-- Each job has its line on the dashboard. -/
theorem length_buildJobSummaries (rows : List JobRow) :
    (buildJobSummaries archive rows).length = (byJob rows).length := by
  have hall : ∀ job ∈ byJob rows,
      ((jobValues archive job.2).map fun v => (job.1, v)).isSome = true := by
    intro job hjob
    obtain ⟨values, hvalues⟩ : ∃ values, jobValues archive job.2 = some values :=
      exists_jobValues (mem_byJob.mp hjob).1
    rw [hvalues]
    rfl
  rw [buildJobSummaries, List.length_mergeSort, List.length_filterMap_eq_countP]
  exact List.countP_eq_length.mpr hall

variable [Unicode] {pg : Postgres}

/-- The other filters, of rows a job filter has been applied to. -/
theorem filtered_filter (keep : Nat → Bool) (rows : List JobRow) :
    filtered pg archive.toHistory viewer filters (rows.filter fun r => keep r.job_id) =
      (filtered pg archive.toHistory viewer filters rows).filter fun r => keep r.job_id := by
  rw [filtered, ifGiven_filter keep fun _ _ _ _ => rfl, ifGiven_filter keep fun _ _ _ _ => rfl,
    ifGiven_filter keep]
  · rfl
  · intro t rows r hkeep
    rw [onDevice, onDevice, ofJob_filter keep rows hkeep]

/-- **A status filter keeps the jobs of its status** among those the other filters let through. -/
theorem kept_status (h : kept pg archive.toHistory viewer scope { filters with status := none } =
    some rows) (s : DeviceStatus) :
    kept pg archive.toHistory viewer scope { filters with status := some s } =
      some (rows.filter fun r => statusOf (ofJob rows r.job_id) == s) := by
  have hall : Whole (inScope archive.toHistory viewer scope filters.owner)
      (inScope archive.toHistory viewer scope filters.owner) := ⟨fun _ => true, by simp⟩
  rw [kept_eq] at h ⊢
  obtain ⟨moment, hmoment, rfl⟩ := Option.map_eq_some_iff.mp h
  have hjudgedWhole : Whole (inScope archive.toHistory viewer scope filters.owner)
      (judged archive.toHistory viewer scope { filters with status := none } moment) :=
    Whole.judged (show Whole _ (inScope archive.toHistory viewer scope
      ({ filters with status := none } : JobFilter).owner) from hall) moment
  have hwhole : Whole (inScope archive.toHistory viewer scope filters.owner)
      (filtered pg archive.toHistory viewer { filters with status := none } _) :=
    hjudgedWhole.filtered { filters with status := none }
  have hjudged : judged archive.toHistory viewer scope { filters with status := some s } moment =
      (judged archive.toHistory viewer scope { filters with status := none } moment).filter
        fun r => hasStatus (some s)
          (ofJob (inScope archive.toHistory viewer scope filters.owner) r.job_id) := by
    rw [judged, judged, having, having, List.filter_filter]
    refine List.filter_congr fun r _ => ?_
    simp only [hasStatus, Option.all_none, Bool.true_and, Bool.and_assoc]
  refine Option.map_eq_some_iff.mpr ⟨moment, hmoment, ?_⟩
  rw [hjudged]
  show filtered pg archive.toHistory viewer { filters with status := none } _ = _
  refine (filtered_filter (fun job => hasStatus (some s)
    (ofJob (inScope archive.toHistory viewer scope filters.owner) job)) _).trans ?_
  -- what is left of a job is all of it, so its status is told from what is left
  refine List.filter_congr fun r hr => ?_
  have hown := List.ne_nil_of_mem (mem_ofJob.mpr ⟨hr, rfl⟩)
  rw [← hwhole.ofJob_eq hown, Bool.eq_iff_iff, hasStatus_iff hown, beq_iff_eq]

/-- The status is not what `_where` raises on. -/
theorem kept_status_eq_none (h : kept pg archive.toHistory viewer scope
    { filters with status := none } = none) (s : DeviceStatus) :
    kept pg archive.toHistory viewer scope { filters with status := some s } = none := by
  rw [kept_eq_none_iff] at h ⊢
  exact h

/-- **The statuses part the jobs** that the other filters let through: together the pages of all
statuses list as many jobs as the pages of none. -/
theorem statuses_part (asked : Int) (per_page : Nat) (focus : Option Nat) :
    (page pg archive.toHistory viewer scope asked per_page focus { filters with status := none } =
        none ∧
      ∀ s, page pg archive.toHistory viewer scope asked per_page focus
        { filters with status := some s } = none) ∨
    ∃ (p : JobPage) (pages : DeviceStatus → JobPage),
      page pg archive.toHistory viewer scope asked per_page focus { filters with status := none } =
        some p ∧
      (∀ s : DeviceStatus, page pg archive.toHistory viewer scope asked per_page focus
        { filters with status := some s } = some (pages s)) ∧
      (statuses.map fun s => (pages s).total).sum = p.total := by
  cases h : kept pg archive.toHistory viewer scope { filters with status := none } with
  | none =>
    left
    refine ⟨by rw [page, h, Option.map_none], fun s => ?_⟩
    rw [page, kept_status_eq_none h s, Option.map_none]
  | some rows =>
    right
    refine ⟨pageOf rows asked per_page focus, fun s => pageOf
      (rows.filter fun r => statusOf (ofJob rows r.job_id) == s) asked per_page focus,
      by rw [page, h, Option.map_some], fun s => ?_, ?_⟩
    · rw [page, kept_status h s, Option.map_some]
    · have hlengths : ∀ s, (pageOf (rows.filter fun r => statusOf (ofJob rows r.job_id) == s) asked
          per_page focus).total = (byJob rows).countP fun job => statusOf job.2 == s :=
        fun s => length_jobIds_filter rows fun g => statusOf g == s
      simp only [hlengths]
      rw [sum_countP_statuses (fun job : Nat × List JobRow => statusOf job.2), ← length_jobIds]
      rfl

/-- A user's own rows, unfiltered. -/
theorem kept_mine : kept pg archive.toHistory viewer .mine {} =
    some (archive.device_results.filter fun r => r.user_id == viewer.id) := by
  simp [kept, JobFilter.hasNul, having, hasStatus, startedFrom, startedBefore, ifGiven, inScope]

omit [Unicode] in
/-- The most common platform is one of the user's devices, and no other is that of more. -/
theorem le_most_common_platform {user_id : Nat} {platform : Str}
    (h : (totals archive user_id).most_common_platform = some platform) :
    let rows := archive.device_results.filter fun r => r.user_id == user_id
    let devices := fun other => rows.countP fun r => (archive.columns r.id).device_type = other
    (∃ r ∈ rows, (archive.columns r.id).device_type = platform) ∧
      ∀ other, devices other ≤ devices platform := by
  intro rows devices
  let platforms := rows.map fun r => (archive.columns r.id).device_type
  obtain ⟨best, hbest, rfl⟩ := Option.map_eq_some_iff.mp h
  obtain ⟨hmem, hle⟩ := Counter.le_mostCommon hbest
  have hcounted : ∀ e ∈ Counter.count platforms, e.2 = devices e.1 := fun e he =>
    (Counter.mem_count he).1.trans List.countP_map
  refine ⟨List.mem_map.mp (Counter.mem_count hmem).2, fun other => ?_⟩
  by_cases hother : other ∈ platforms
  · obtain ⟨e, he, rfl⟩ := List.mem_map.mp ((Counter.mem_keys_count platforms other).mpr hother)
    rw [← hcounted e he, ← hcounted best hmem]
    exact hle e he
  · have hnone : devices other = 0 := List.countP_eq_zero.mpr fun r hr hsame =>
      hother (List.mem_map.mpr ⟨r, hr, of_decide_eq_true hsame⟩)
    rw [hnone]
    exact Nat.zero_le _

/-- **A user's numbers** on the account page and the dashboard are those of their pages. -/
theorem totals_eq (asked : Int) (per_page : Nat) (focus : Option Nat) :
    (∃ p, page pg archive.toHistory viewer .mine asked per_page focus {} = some p ∧
      p.total = (totals archive viewer.id).total_rollouts) ∧
    (∃ p, page pg archive.toHistory viewer .mine asked per_page focus
        { status := some .success } = some p ∧
      p.total = (totals archive viewer.id).successful) ∧
    (buildJobSummaries archive
      (archive.device_results.filter fun r => r.user_id == viewer.id)).length =
        (totals archive viewer.id).total_rollouts := by
  have hkept : kept pg archive.toHistory viewer .mine {} =
      some (archive.device_results.filter fun r => r.user_id == viewer.id) := kept_mine
  have hsuccess := kept_status (show kept pg archive.toHistory viewer .mine
    { ({} : JobFilter) with status := none } = _ from hkept) .success
  refine ⟨⟨pageOf _ asked per_page focus, ?_, length_jobIds _⟩,
    ⟨pageOf _ asked per_page focus, ?_, length_jobIds_filter _ fun g => statusOf g == .success⟩,
    length_buildJobSummaries _⟩
  · rw [page, hkept, Option.map_some]
  · rw [page, hsuccess, Option.map_some]

end Numbers

end Results
end NetRollout
