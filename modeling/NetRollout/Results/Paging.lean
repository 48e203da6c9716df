import NetRollout.Inventory.Tables
import NetRollout.Library.Calendar
import NetRollout.Library.Paging
import NetRollout.Results.Status

/-!
# Results' pages

`JobResults.page` of `src/results.py`: the jobs of a scope that the filters let through, newest
first, a page at a time.  The queries of a call see one set of rows.

PostgreSQL's `ILIKE` and its text of a UUID are parameters: they decide which jobs are listed,
and the pages are cut from whatever list they leave.  A time is in microseconds since the
calendar's start.

`_where` adds a day to the last day asked for, which Python refuses for 9999-12-31, and the
driver refuses a text with a NUL.  `losesNoJob_iff` is that only such calls show no page, and
that in all others the pages are the filtered jobs cut in one order.
-/

namespace NetRollout
namespace Results

open PyText (Str Unicode)
open Session (DeviceStatus)
open Inventory (Viewer Device)
open Calendar (Date)

/-! ## What is asked for -/

/-- A row of `device_results`, with when its device was begun. -/
structure JobRow extends DeviceResult where
  started_at : Int

/-- `JobScope`. -/
inductive JobScope where
  | mine
  | others
  | all
  deriving DecidableEq

/-- `JobFilter`. -/
structure JobFilter where
  status : Option DeviceStatus := none
  note : Option Str := none
  device : Option Str := none
  job_id : Option Str := none
  since : Option Date := none
  untilDay : Option Date := none
  owner : Option Nat := none

/-- A text that a query is to carry has a NUL: psycopg2 raises a `ValueError`. -/
def JobFilter.hasNul (filters : JobFilter) : Bool :=
  [filters.note, filters.job_id, filters.device].any fun text => text.any (·.contains '\x00')

/-- What the queries leave to PostgreSQL. -/
structure Postgres where
  /-- `text ILIKE pattern ESCAPE '\'`. -/
  ilike : Str → Str → Bool
  /-- `CAST(uuid AS VARCHAR)`. -/
  cast : Nat → Str

/-- The tables the queries read. -/
structure History where
  device_results : List JobRow
  job_metadata : List JobMetadata
  inventory : List Device

/-! ## The condition -/

/-- `contains`: a pattern for a text anywhere, its own `%` and `_` taken literally. -/
def contains (text : Str) : Str :=
  "%".toList ++ (text.flatMap fun c => if c = '\\' ∨ c = '%' ∨ c = '_' then ['\\', c] else [c]) ++
    "%".toList

/-- `datetime.combine(day, time())`. -/
def midnight (day : Date) : Int := (day.toOrdinal : Int) * Calendar.DAY

/-- `date.max`. -/
def lastDay : Date := ⟨9999, 12, 31, by decide, by decide, by decide, by decide, by decide,
  Nat.le_of_ble_eq_true rfl⟩

/-- `datetime.combine(day + timedelta(days=1), time())`; none where the sum is an
`OverflowError`. -/
def midnightAfter (day : Date) : Option Int :=
  if day.toOrdinal + 1 ≤ lastDay.toOrdinal then some (((day.toOrdinal + 1 : Nat) : Int) *
    Calendar.DAY)
  else none

section Where

variable [Unicode] (pg : Postgres) (history : History) (viewer : Viewer)

/-- `endpoint_labels`: the rows an endpoint's label is taken from, the last one's being kept. -/
def labelled (target : Str × Int) : List Device :=
  let rows := history.inventory.filter fun d => viewer.is_admin || viewer.sees d
  let rows :=
    if viewer.is_admin then rows
    else (rows.filter fun d => d.user_id != some viewer.id) ++
      rows.filter fun d => d.user_id == some viewer.id
  rows.filter fun d => (d.ip, (d.port : Int)) == target

/-- The label an endpoint is named by, if it is a device's. -/
def endpointLabel (target : Str × Int) : Option Str :=
  (labelled history viewer target).getLast?.map fun d =>
    if viewer.is_admin && d.label.isEmpty then d.ip else d.label

/-- Whether an endpoint is among `_endpoints_named(text)`. -/
def isNamed (text : Str) (target : Str × Int) : Bool :=
  (endpointLabel history viewer target).any fun label =>
    !label.isEmpty && Replace.contains id (Unicode.lower text) (Unicode.lower label)

/-- The rows of one job. -/
def ofJob (rows : List JobRow) (job : Nat) : List JobRow := rows.filter fun r => r.job_id == job

/-- `min(started_at)` of a job's rows. -/
def started (rows : List JobRow) : Option Int := (rows.map JobRow.started_at).min?

/-- The scope's rows, and an owner's of them. -/
def inScope (scope : JobScope) (owner : Option Nat) : List JobRow :=
  let rows :=
    if scope = .mine ∨ viewer.is_admin = false then
      history.device_results.filter fun r => r.user_id == viewer.id
    else if scope = .others then history.device_results.filter fun r => r.user_id != viewer.id
    else history.device_results
  match owner with
  | some owner => rows.filter fun r => r.user_id == owner
  | none => rows

/-- The jobs of which a condition over all their rows is true. -/
def having (condition : List JobRow → Bool) (rows : List JobRow) : List JobRow :=
  rows.filter fun r => condition (ofJob rows r.job_id)

/-- The status condition, if a status is asked for. -/
def hasStatus (status : Option DeviceStatus) (rows : List JobRow) : Bool :=
  status.all fun s => (jobStatusCondition (value s)).any fun condition =>
    condition.eval (rows.map JobRow.toDeviceResult) == some true

/-- Not begun before a moment, if there is one. -/
def startedFrom (moment : Option Int) (rows : List JobRow) : Bool :=
  moment.all fun m => (started rows).any fun s => m ≤ s

/-- Begun before a moment, if there is one. -/
def startedBefore (moment : Option Int) (rows : List JobRow) : Bool :=
  moment.all fun m => (started rows).any fun s => s < m

/-- A condition that is left out where its text is missing or empty. -/
def ifGiven (text : Option Str) (keeps : Str → List JobRow → JobRow → Bool)
    (rows : List JobRow) : List JobRow :=
  match text with
  | some text => if text.isEmpty then rows else rows.filter (keeps text rows)
  | none => rows

/-- Whether a job's note contains a text. -/
def noted (text : Str) (_ : List JobRow) (r : JobRow) : Bool :=
  history.job_metadata.any fun m => m.job_id == r.job_id &&
    m.comment.any fun comment => pg.ilike comment (contains text)

/-- Whether a job's id contains a text. -/
def idLike (text : Str) (_ : List JobRow) (r : JobRow) : Bool :=
  pg.ilike (pg.cast r.job_id) (contains text)

/-- Whether one of a job's devices has a text in its address or its name. -/
def onDevice (text : Str) (rows : List JobRow) (r : JobRow) : Bool :=
  (ofJob rows r.job_id).any fun d => pg.ilike d.device_ip (contains text) ||
    isNamed history viewer text (d.device_ip, d.device_port)

/-- `_where`: the rows of which the condition is true; none where it, or its query, raises. -/
def kept (scope : JobScope) (filters : JobFilter) : Option (List JobRow) :=
  let rows := inScope history viewer scope filters.owner
  let judged := fun moment : Option Int =>
    having (fun job => hasStatus filters.status job &&
      startedFrom (filters.since.map midnight) job && startedBefore moment job) rows
  let rest := fun rows : List JobRow =>
    ifGiven filters.device (onDevice pg history viewer)
      (ifGiven filters.job_id (idLike pg) (ifGiven filters.note (noted pg history) rows))
  if filters.hasNul then none
  else match filters.untilDay with
    | none => some (rest (judged none))
    | some day => (midnightAfter day).map fun moment => rest (judged (some moment))

end Where

/-! ## The page -/

/-- A job of the query that groups the rows. -/
structure Group where
  job_id : Nat
  done : Int
  deriving DecidableEq

/-- `max(completed_at)` of a job's rows. -/
def done (rows : List JobRow) (job : Nat) : Option Int :=
  ((ofJob rows job).map fun r => r.completed_at).max?

/-- The distinct jobs. -/
def jobIds (rows : List JobRow) : List Nat := (rows.map fun r => r.job_id).dedup

/-- `SELECT job_id, max(completed_at) … GROUP BY job_id`. -/
def grouped (rows : List JobRow) : List Group :=
  (jobIds rows).filterMap fun job => (done rows job).map fun d => ⟨job, d⟩

/-- `ORDER BY done DESC, job_id DESC`. -/
def Group.le (g h : Group) : Bool := h.done < g.done || (g.done == h.done && h.job_id ≤ g.job_id)

/-- The listing's order. -/
def listing (rows : List JobRow) : List Group := (grouped rows).mergeSort Group.le

/-- `jobs.c.done > focus_done OR jobs.c.done = focus_done AND jobs.c.job_id > focus`. -/
def Group.Before (g h : Group) : Prop :=
  g.done > h.done ∨ g.done = h.done ∧ g.job_id > h.job_id

instance : DecidableRel Group.Before :=
  fun g h => inferInstanceAs (Decidable (g.done > h.done ∨ g.done = h.done ∧ g.job_id > h.job_id))

/-- `JobPage`. -/
structure JobPage where
  results : List JobRow
  total : Nat
  page : Int
  pages : Int

/-- The page asked for, or the one a focus stands on if it is listed. -/
def asked (rows : List JobRow) (page : Int) (per_page : Nat) (focus : Option Nat) : Int :=
  match focus with
  | none => page
  | some job =>
    match done rows job with
    | none => page
    | some focus_done =>
      ((grouped rows).countP fun g => Group.Before g ⟨job, focus_done⟩) / per_page + 1

/-- `page`, of the rows that are kept. -/
def pageOf (rows : List JobRow) (page : Int) (per_page : Nat) (focus : Option Nat) : JobPage :=
  let total := (jobIds rows).length
  let pages := max 1 (-(-(total : Int) / per_page))
  let page := min (max (asked rows page per_page focus) 1) pages
  let job_ids :=
    (((listing rows).map Group.job_id).drop ((page - 1) * per_page).toNat).take per_page
  ⟨rows.filter fun r => job_ids.contains r.job_id, total, page, pages⟩

/-- `page`; none where it raises. -/
def page [Unicode] (pg : Postgres) (history : History) (viewer : Viewer) (scope : JobScope)
    (page : Int) (per_page : Nat) (focus : Option Nat) (filters : JobFilter) : Option JobPage :=
  (kept pg history viewer scope filters).map fun rows => pageOf rows page per_page focus

/-! ## The listing -/

theorem done_eq_none_iff (rows : List JobRow) (job : Nat) :
    done rows job = none ↔ ∀ r ∈ rows, r.job_id ≠ job := by
  rw [done, List.max?_eq_none_iff, List.map_eq_nil_iff, ofJob, List.filter_eq_nil_iff]
  simp only [beq_iff_eq, ne_eq]

theorem mem_jobIds (rows : List JobRow) (job : Nat) :
    job ∈ jobIds rows ↔ ∃ r ∈ rows, r.job_id = job := by
  rw [jobIds, List.mem_dedup, List.mem_map]

/-- A job that has rows has a time it was done at. -/
theorem exists_done {rows : List JobRow} {job : Nat} (h : job ∈ jobIds rows) :
    ∃ d, done rows job = some d := by
  cases hdone : done rows job with
  | some d => exact ⟨d, rfl⟩
  | none =>
    obtain ⟨r, hr, hjob⟩ := (mem_jobIds rows job).mp h
    exact absurd hjob ((done_eq_none_iff rows job).mp hdone r hr)

theorem map_job_id_filterMap {rows : List JobRow} {jobs : List Nat}
    (h : ∀ job ∈ jobs, job ∈ jobIds rows) :
    (jobs.filterMap fun job => (done rows job).map fun d => (⟨job, d⟩ : Group)).map
      Group.job_id = jobs := by
  induction jobs with
  | nil => rfl
  | cons job jobs ih =>
    obtain ⟨d, hd⟩ := exists_done (h job (List.mem_cons_self ..))
    rw [List.filterMap_cons_some (b := ⟨job, d⟩) (by rw [hd]; rfl), List.map_cons,
      ih fun j hj => h j (List.mem_cons_of_mem _ hj)]

theorem map_job_id_grouped (rows : List JobRow) :
    (grouped rows).map Group.job_id = jobIds rows :=
  map_job_id_filterMap fun _ h => h

theorem mem_grouped {rows : List JobRow} {g : Group} (h : g ∈ grouped rows) :
    done rows g.job_id = some g.done := by
  obtain ⟨job, -, hg⟩ := List.mem_filterMap.mp h
  obtain ⟨d, hd, rfl⟩ := Option.map_eq_some_iff.mp hg
  exact hd

theorem Group.le_iff (g h : Group) : g.le h = true ↔ g.Before h ∨ g.done = h.done ∧
    g.job_id = h.job_id := by
  simp only [Group.le, Group.Before, Bool.or_eq_true, Bool.and_eq_true, decide_eq_true_eq,
    beq_iff_eq]
  omega

theorem Group.before_asymm (g h : Group) (hgh : g.Before h) : ¬h.Before g := by
  simp only [Group.Before] at *
  omega

theorem listing_perm (rows : List JobRow) : (listing rows).Perm (grouped rows) :=
  List.mergeSort_perm ..

/-- The filtered jobs, as they are listed. -/
def jobs (rows : List JobRow) : List Nat := (listing rows).map Group.job_id

theorem jobs_perm (rows : List JobRow) : (jobs rows).Perm (jobIds rows) := by
  rw [← map_job_id_grouped]
  exact (listing_perm rows).map _

theorem nodup_jobs (rows : List JobRow) : (jobs rows).Nodup :=
  (jobs_perm rows).nodup_iff.mpr (List.nodup_dedup _)

theorem length_jobs (rows : List JobRow) : (jobs rows).length = (jobIds rows).length :=
  (jobs_perm rows).length_eq

theorem mem_jobs (rows : List JobRow) (job : Nat) :
    job ∈ jobs rows ↔ ∃ r ∈ rows, r.job_id = job := by
  rw [(jobs_perm rows).mem_iff, mem_jobIds]

/-- No two jobs of the listing are at one place of the order: the id breaks a tie. -/
theorem pairwise_listing (rows : List JobRow) : (listing rows).Pairwise Group.Before := by
  have hle : (listing rows).Pairwise fun g h => g.le h = true := by
    refine List.pairwise_mergeSort (fun a b c hab hbc => ?_) (fun a b => ?_) _
    · simp only [Group.le_iff, Group.Before] at *
      omega
    · rw [Bool.or_eq_true]
      simp only [Group.le_iff, Group.Before]
      omega
  have hne : (listing rows).Pairwise fun g h => g.job_id ≠ h.job_id :=
    List.pairwise_map.mp (nodup_jobs rows)
  refine hle.imp₂ (fun g h hgh hid => ?_) hne
  exact ((Group.le_iff g h).mp hgh).resolve_right fun heq => hid heq.2

/-- A job's place in the listing is the number of jobs the focus query counts. -/
theorem getElem?_jobs {rows : List JobRow} {i job : Nat} (h : (jobs rows)[i]? = some job) :
    ∃ d, done rows job = some d ∧
      (grouped rows).countP (fun g => Group.Before g ⟨job, d⟩) = i := by
  rw [jobs, List.getElem?_map] at h
  obtain ⟨g, hg, rfl⟩ := Option.map_eq_some_iff.mp h
  have hmem : g ∈ grouped rows := (listing_perm rows).mem_iff.mp (List.mem_of_getElem? hg)
  refine ⟨g.done, mem_grouped hmem, ?_⟩
  rw [← (listing_perm rows).countP_eq]
  exact Paging.countP_eq_of_pairwise Group.before_asymm (pairwise_listing rows) hg

/-! ## The pages -/

/-- As many pages as the listing needs, and one where it is empty. -/
def pageCount (rows : List JobRow) (per_page : Nat) : Nat :=
  max 1 (((jobs rows).length + per_page - 1) / per_page)

/-- Twice negated, a division rounds up. -/
theorem neg_neg_ediv (total : Nat) {n : Nat} (hn : 1 ≤ n) :
    -(-(total : Int) / n) = (((total + n - 1) / n : Nat) : Int) := by
  have hsum : n * ((total + n - 1) / n) + (total + n - 1) % n = total + n - 1 := Nat.div_add_mod ..
  have hlt : (total + n - 1) % n < n := Nat.mod_lt _ hn
  have hquot : -(total : Int) / n = -(((total + n - 1) / n : Nat) : Int) := by
    refine ((Int.ediv_emod_unique (r := ((n - 1 - (total + n - 1) % n : Nat) : Int))
      (show (0 : Int) < n by omega)).mpr ⟨?_, by omega, by omega⟩).1
    rw [Int.mul_neg, ← Int.natCast_mul]
    omega
  rw [hquot, Int.neg_neg]

theorem pages_eq (rows : List JobRow) {per_page : Nat} (hper : 1 ≤ per_page) :
    max 1 (-(-((jobIds rows).length : Int) / per_page)) = (pageCount rows per_page : Int) := by
  rw [neg_neg_ediv _ hper, pageCount, length_jobs]
  omega

theorem one_le_pageCount (rows : List JobRow) (per_page : Nat) : 1 ≤ pageCount rows per_page :=
  Nat.le_max_left ..

/-- The pages hold the whole listing. -/
theorem length_jobs_le (rows : List JobRow) {per_page : Nat} (hper : 1 ≤ per_page) :
    (jobs rows).length ≤ pageCount rows per_page * per_page := by
  have hsum := Nat.div_add_mod' ((jobs rows).length + per_page - 1) per_page
  have hlt := Nat.mod_lt ((jobs rows).length + per_page - 1) hper
  have hle := Nat.mul_le_mul_right per_page
    (Nat.le_max_right 1 (((jobs rows).length + per_page - 1) / per_page))
  rw [pageCount]
  omega

/-- What is before the last page fills its pages. -/
theorem succ_mul_le_length_jobs (rows : List JobRow) {per_page : Nat} (hper : 1 ≤ per_page)
    {k : Nat} (h : k + 1 < pageCount rows per_page) :
    (k + 1) * per_page ≤ (jobs rows).length := by
  have hle : k + 2 ≤ ((jobs rows).length + per_page - 1) / per_page := by
    rw [pageCount] at h
    omega
  have hmul := (Nat.le_div_iff_mul_le hper).mp hle
  rw [Nat.succ_mul] at hmul
  omega

/-- A listed job's page is one of the pages. -/
theorem div_lt_pageCount {rows : List JobRow} {per_page : Nat} (hper : 1 ≤ per_page) {i : Nat}
    (h : i < (jobs rows).length) : i / per_page < pageCount rows per_page :=
  Nat.div_lt_of_lt_mul (Nat.lt_of_lt_of_le h (by
    rw [Nat.mul_comm]
    exact length_jobs_le rows hper))

/-- The page a call shows. -/
theorem pageOf_page (rows : List JobRow) (page : Int) {per_page : Nat} (hper : 1 ≤ per_page)
    (focus : Option Nat) : (pageOf rows page per_page focus).page =
      min (max (asked rows page per_page focus) 1) (pageCount rows per_page : Int) := by
  rw [← pages_eq rows hper]
  rfl

theorem pageOf_pages (rows : List JobRow) (page : Int) {per_page : Nat} (hper : 1 ≤ per_page)
    (focus : Option Nat) : (pageOf rows page per_page focus).pages = pageCount rows per_page :=
  pages_eq rows hper

/-- The rows a call shows are those of the jobs on the page it shows. -/
theorem pageOf_results (rows : List JobRow) (page : Int) {per_page : Nat} (hper : 1 ≤ per_page)
    (focus : Option Nat) {k : Nat} (h : (pageOf rows page per_page focus).page = (k : Int) + 1) :
    (pageOf rows page per_page focus).results =
      rows.filter fun r => (Paging.page per_page (jobs rows) k).contains r.job_id := by
  rw [pageOf_page rows page hper] at h
  have hoffset : (((k : Int) + 1 - 1) * per_page).toNat = k * per_page := by
    rw [Int.add_sub_cancel, ← Int.natCast_mul, Int.toNat_natCast]
  simp only [pageOf, pages_eq rows hper, h, hoffset]
  rfl

/-- Without a row of it, a focus asks for nothing. -/
theorem asked_of_not_mem {rows : List JobRow} {job : Nat} (h : job ∉ jobs rows) (page : Int)
    (per_page : Nat) : asked rows page per_page (some job) = page := by
  have hdone : done rows job = none :=
    (done_eq_none_iff rows job).mpr fun r hr hjob => h ((mem_jobs rows job).mpr ⟨r, hr, hjob⟩)
  simp only [asked, hdone]

/-- A focus that is listed asks for the page of its place. -/
theorem asked_of_getElem? {rows : List JobRow} {i job : Nat} (h : (jobs rows)[i]? = some job)
    (page : Int) (per_page : Nat) :
    asked rows page per_page (some job) = ((i / per_page : Nat) : Int) + 1 := by
  obtain ⟨d, hdone, hcount⟩ := getElem?_jobs h
  simp only [asked, hdone, hcount]
  rfl

/-! ## No job is lost -/

/-- What the pages of a list of jobs are to be: `parts` are the jobs of the pages `1, 2, …`, and
`shown` what is answered to a page asked for and a focus. -/
structure Paged (rows : List JobRow) (per_page : Nat) (parts : List (List Nat))
    (shown : Int → Option Nat → Option JobPage) : Prop where
  /-- The pages part the filtered jobs. -/
  nodup : parts.flatten.Nodup
  mem_iff : ∀ job, job ∈ parts.flatten ↔ ∃ r ∈ rows, r.job_id = job
  /-- In one order: the job done last first, and of several the one with the largest id. -/
  ordered : parts.flatten.Pairwise fun job later => ∃ d e, done rows job = some d ∧
    done rows later = some e ∧ (e < d ∨ d = e ∧ later < job)
  /-- There is a page, and all but the last are full. -/
  pos : 1 ≤ parts.length
  full : ∀ (k : Nat) part, parts[k]? = some part → k + 1 < parts.length → part.length = per_page
  le_full : ∀ part ∈ parts, part.length ≤ per_page
  /-- Every call shows a page there is, with all the rows of the page's jobs. -/
  answers : ∀ page focus, ∃ p, ∃ k : Nat, ∃ part, shown page focus = some p ∧
    p.pages = parts.length ∧ p.total = parts.flatten.length ∧ p.page = (k : Int) + 1 ∧
    parts[k]? = some part ∧ p.results = rows.filter fun r => part.contains r.job_id
  /-- A page there is is shown, a number out of range shows the first or the last one. -/
  in_range : ∀ page p, shown page none = some p → 1 ≤ page → page ≤ parts.length → p.page = page
  below : ∀ page p, shown page none = some p → page < 1 → p.page = 1
  above : ∀ page p, shown page none = some p → (parts.length : Int) < page →
    p.page = parts.length
  /-- A focus that is listed shows its own page, and no other does. -/
  focused : ∀ page focus p, focus ∈ parts.flatten → shown page (some focus) = some p →
    ∀ (k : Nat) part, parts[k]? = some part → (p.page = (k : Int) + 1 ↔ focus ∈ part)
  /-- A focus that is not listed changes nothing. -/
  unfocused : ∀ page focus, focus ∉ parts.flatten → shown page (some focus) = shown page none

/-- The jobs of the pages. -/
def parts (rows : List JobRow) (per_page : Nat) : List (List Nat) :=
  (List.range (pageCount rows per_page)).map (Paging.page per_page (jobs rows))

@[simp] theorem length_parts (rows : List JobRow) (per_page : Nat) :
    (parts rows per_page).length = pageCount rows per_page := by
  rw [parts, List.length_map, List.length_range]

theorem flatten_parts (rows : List JobRow) {per_page : Nat} (hper : 1 ≤ per_page) :
    (parts rows per_page).flatten = jobs rows :=
  Paging.flatten_pages (length_jobs_le rows hper)

theorem getElem?_parts {rows : List JobRow} {per_page k : Nat} {part : List Nat} :
    (parts rows per_page)[k]? = some part ↔
      k < pageCount rows per_page ∧ Paging.page per_page (jobs rows) k = part := by
  rw [parts, List.getElem?_map, Option.map_eq_some_iff]
  constructor
  · rintro ⟨j, hj, rfl⟩
    obtain ⟨hk, rfl⟩ := List.getElem?_eq_some_iff.mp hj
    rw [List.length_range] at hk
    rw [List.getElem_range]
    exact ⟨hk, rfl⟩
  · rintro ⟨hk, rfl⟩
    exact ⟨k, List.getElem?_range hk, rfl⟩

/-- A page of the pages' number is one of them. -/
theorem exists_page (page : Int) {count : Nat} (hcount : 1 ≤ count) :
    ∃ k : Nat, min (max page 1) (count : Int) = (k : Int) + 1 ∧ k < count :=
  ⟨(min (max page 1) (count : Int) - 1).toNat, by omega, by omega⟩

/-- The pages of what is kept. -/
theorem paged_pageOf (rows : List JobRow) {per_page : Nat} (hper : 1 ≤ per_page) :
    Paged rows per_page (parts rows per_page)
      (fun page focus => some (pageOf rows page per_page focus)) where
  nodup := by
    rw [flatten_parts rows hper]
    exact nodup_jobs rows
  mem_iff job := by
    rw [flatten_parts rows hper]
    exact mem_jobs rows job
  ordered := by
    rw [flatten_parts rows hper, jobs, List.pairwise_map]
    refine (pairwise_listing rows).imp_of_mem fun {g h} hg hh hgh => ?_
    have hdone : ∀ {g}, g ∈ listing rows → done rows g.job_id = some g.done :=
      fun hmem => mem_grouped ((listing_perm rows).mem_iff.mp hmem)
    exact ⟨g.done, h.done, hdone hg, hdone hh, hgh⟩
  pos := by
    rw [length_parts]
    exact one_le_pageCount rows per_page
  full k part hpart hlast := by
    obtain ⟨-, rfl⟩ := getElem?_parts.mp hpart
    rw [length_parts] at hlast
    exact Paging.length_page (succ_mul_le_length_jobs rows hper hlast)
  le_full part hpart := by
    obtain ⟨k, hk⟩ := List.mem_iff_getElem?.mp hpart
    obtain ⟨-, rfl⟩ := getElem?_parts.mp hk
    exact Paging.length_page_le ..
  answers page focus := by
    obtain ⟨k, hk, hlt⟩ := exists_page (asked rows page per_page focus)
      (one_le_pageCount rows per_page)
    have hpage := (pageOf_page rows page hper focus).trans hk
    refine ⟨_, k, _, rfl, ?_, ?_, hpage, getElem?_parts.mpr ⟨hlt, rfl⟩,
      pageOf_results rows page hper focus hpage⟩
    · rw [pageOf_pages rows page hper, length_parts]
    · rw [flatten_parts rows hper, length_jobs]
      rfl
  in_range page p hp hpos hle := by
    obtain rfl := Option.some.inj hp
    rw [length_parts] at hle
    rw [pageOf_page rows page hper]
    simp only [asked]
    omega
  below page p hp hlt := by
    obtain rfl := Option.some.inj hp
    have hcount := one_le_pageCount rows per_page
    rw [pageOf_page rows page hper]
    simp only [asked]
    omega
  above page p hp hlt := by
    obtain rfl := Option.some.inj hp
    have hcount := one_le_pageCount rows per_page
    rw [length_parts] at *
    rw [pageOf_page rows page hper]
    simp only [asked]
    omega
  focused page focus p hmem hp k part hpart := by
    obtain rfl := Option.some.inj hp
    obtain ⟨-, rfl⟩ := getElem?_parts.mp hpart
    rw [flatten_parts rows hper] at hmem
    obtain ⟨i, hi⟩ := List.mem_iff_getElem?.mp hmem
    have hlt := div_lt_pageCount hper (List.getElem?_eq_some_iff.mp hi).1
    rw [Paging.mem_page_iff hper (nodup_jobs rows) hi, pageOf_page rows page hper,
      asked_of_getElem? hi]
    generalize i / per_page = place at *
    omega
  unfocused page focus hmem := by
    rw [flatten_parts rows hper] at hmem
    simp only [pageOf, asked_of_not_mem hmem]
    rfl

/-- Every day but the last has a day after it. -/
theorem toOrdinal_lt_lastDay {day : Date} (h : day ≠ lastDay) :
    day.toOrdinal < lastDay.toOrdinal := by
  apply Date.toOrdinal_lt
  have hyear := day.year_le
  have hmonth := day.month_le
  have hday := day.day_le.trans (Calendar.daysInMonth_le ..)
  by_contra hnot
  simp only [lastDay, not_or, not_and, not_lt] at hnot
  have hy : day.year = 9999 := by omega
  have hm : day.month = 12 := by omega
  have hd : day.day = 31 := by omega
  apply h
  cases day
  simp only at hy hm hd
  subst hy hm hd
  rfl

theorem midnightAfter_eq_none_iff (day : Date) : midnightAfter day = none ↔ day = lastDay := by
  by_cases h : day = lastDay
  · subst h
    simp [midnightAfter]
  · have hlt := toOrdinal_lt_lastDay h
    simp only [midnightAfter, if_pos (Nat.succ_le_of_lt hlt), h, reduceCtorEq]

section Loses

variable [Unicode] (pg : Postgres) (history : History) (viewer : Viewer) (scope : JobScope)

/-- The query fails for a text with a NUL and for the last day, and for nothing else. -/
theorem kept_eq_none_iff (filters : JobFilter) :
    kept pg history viewer scope filters = none ↔
      filters.untilDay = some lastDay ∨ filters.hasNul = true := by
  cases hnul : filters.hasNul with
  | true => simp [kept, hnul]
  | false =>
    cases hday : filters.untilDay with
    | none => simp [kept, hnul, hday]
    | some day => simp [kept, hnul, hday, midnightAfter_eq_none_iff]

/-- The pages of a call part the jobs that the filters let through. -/
def LosesNoJob (filters : JobFilter) (per_page : Nat) : Prop :=
  ∃ rows, kept pg history viewer scope filters = some rows ∧ ∃ parts,
    Paged rows per_page parts fun asked focus =>
      page pg history viewer scope asked per_page focus filters

/-- No job is lost, except that a filter up to 9999-12-31, or with a NUL, has no answer. -/
theorem losesNoJob_iff (filters : JobFilter) {per_page : Nat} (hper : 1 ≤ per_page) :
    LosesNoJob pg history viewer scope filters per_page ↔
      filters.untilDay ≠ some lastDay ∧ filters.hasNul = false := by
  have hnone := kept_eq_none_iff pg history viewer scope filters
  rw [← Bool.not_eq_true, ← not_or, ← hnone]
  constructor
  · rintro ⟨rows, hkept, -⟩ hno
    rw [hno] at hkept
    cases hkept
  · intro hsome
    cases hkept : kept pg history viewer scope filters with
    | none => exact absurd hkept hsome
    | some rows =>
      refine ⟨rows, hkept, parts rows per_page, ?_⟩
      simp only [page, hkept, Option.map_some]
      exact paged_pageOf rows hper

end Loses

/-- One finished job of the user 1. -/
def oneJob : History where
  device_results := [
    { id := 1, job_id := 7, completed_at := 20, device_ip := "10.0.0.1".toList, device_port := 22,
      commands_verified := none, fetched_config := none, config_diff := none, transcript := none,
      status := value .success, review_outcome := none, review_comment := none,
      reviewed_by := none, reviewed_at := none, user_id := 1, started_at := 10 }]
  job_metadata := []
  inventory := []

/-- A database that matches nothing. -/
def plainPostgres : Postgres := ⟨fun _ _ => false, fun _ => []⟩

theorem losesNoJob_oneJob :
    let _ := Unicode.ascii
    LosesNoJob plainPostgres oneJob ⟨1, false⟩ .mine {} 25 := by
  intro _
  exact (losesNoJob_iff plainPostgres oneJob ⟨1, false⟩ .mine {} (by decide)).mpr
    ⟨by simp, rfl⟩

/-- A filter whose query fails shows no page. -/
theorem not_losesNoJob_of_none [Unicode] {pg : Postgres} {history : History} {viewer : Viewer}
    {scope : JobScope} {filters : JobFilter}
    (h : kept pg history viewer scope filters = none) (per_page : Nat) :
    page pg history viewer scope 1 per_page none filters = none ∧
      ¬LosesNoJob pg history viewer scope filters per_page := by
  constructor
  · rw [page, h]
    rfl
  · rintro ⟨rows, hrows, -⟩
    rw [h] at hrows
    cases hrows

/-- Of the job's own pages, the one up to the last day fails, and so does the one of the notes
with a NUL. -/
theorem not_losesNoJob_lastDay :
    let _ := Unicode.ascii
    let nul : JobFilter := { note := some ['\x00'] }
    (page plainPostgres oneJob ⟨1, false⟩ .mine 1 25 none { untilDay := some lastDay } = none ∧
      ¬LosesNoJob plainPostgres oneJob ⟨1, false⟩ .mine { untilDay := some lastDay } 25) ∧
    page plainPostgres oneJob ⟨1, false⟩ .mine 1 25 none nul = none ∧
      ¬LosesNoJob plainPostgres oneJob ⟨1, false⟩ .mine nul 25 := by
  intro _ nul
  constructor
  · exact not_losesNoJob_of_none ((kept_eq_none_iff plainPostgres oneJob ⟨1, false⟩ .mine
      { untilDay := some lastDay }).mpr (.inl rfl)) 25
  · exact not_losesNoJob_of_none ((kept_eq_none_iff plainPostgres oneJob ⟨1, false⟩ .mine
      nul).mpr (.inr (by decide))) 25

end Results
end NetRollout
