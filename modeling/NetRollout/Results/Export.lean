import NetRollout.Library.Csv
import NetRollout.Results.Summaries

/-!
# The download of Results

`export` of `src/results.py` and `csv_download` of `src/webapp/csv_download.py`: the devices of
every job the filters let through, as a CSV file.

The pages are cut by the database, the export by Python.  `exported_eq` is that both have the
jobs in one order, and `read_download` that a reader of the file is given the rows as they were,
but for the cells a spreadsheet would run: none of them begins as a formula does.
-/

namespace NetRollout
namespace Results

open PyText (Str Unicode)
open Session (DeviceStatus)
open Inventory (Viewer)

/-! ## The file -/

/-- A value of a row. -/
inductive Value where
  | none
  | text (s : Str)
  | int (n : Int)

namespace Value

/-- `str(value)`, and nothing for `None`. -/
def str : Value → Str
  | none => []
  | text s => s
  | int n => PyText.ofInt n

end Value

/-- `FORMULA_STARTS`. -/
def FORMULA_STARTS : List Char := ['=', '+', '-', '@', '\t', '\r']

/-- Whether a spreadsheet runs a cell. -/
def isFormula (s : Str) : Bool := s.head?.any FORMULA_STARTS.contains

/-- `cell`. -/
def cell (v : Value) : Str := if isFormula v.str then '\'' :: v.str else v.str

/-- `BOM`. -/
def BOM : Char := Char.ofNat 0xFEFF

/-- The text of `csv_download`. -/
def csvDownload (header : List Str) (rows : List (List Value)) : Str :=
  BOM :: (Csv.row header ++ Csv.table (rows.map (List.map cell)))

/-- A file read as `utf-8-sig`, by a reader of rows. -/
def readDownload (limit : Nat) (file : Str) : Option (List (List Str)) :=
  Csv.read limit (if file.head? = some BOM then file.tail else file)

/-- No cell is run. -/
theorem not_isFormula_cell (v : Value) : isFormula (cell v) = false := by
  by_cases h : isFormula v.str = true
  · rw [cell, if_pos h]
    rfl
  · rw [cell, if_neg h]
    exact Bool.eq_false_of_not_eq_true h

/-- **The file is read back** as the cells that were written. -/
theorem readDownload_csvDownload {limit : Nat} {header : List Str} {rows : List (List Value)}
    (hheader : ∀ name ∈ header, name.length ≤ limit)
    (hrows : ∀ row ∈ rows, ∀ v ∈ row, (cell v).length ≤ limit) :
    readDownload limit (csvDownload header rows) = some (header :: rows.map (List.map cell)) := by
  have htable : Csv.row header ++ Csv.table (rows.map (List.map cell)) =
      Csv.table (header :: rows.map (List.map cell)) := by
    rw [Csv.table, Csv.table, List.flatMap_cons]
  rw [readDownload, csvDownload, if_pos List.head?_cons, List.tail_cons, htable]
  refine Csv.read_written fun fields hfields field hfield => ?_
  rcases List.mem_cons.mp hfields with rfl | hfields
  · exact hheader field hfield
  · obtain ⟨row, hrow, rfl⟩ := List.mem_map.mp hfields
    obtain ⟨v, hv, rfl⟩ := List.mem_map.mp hfield
    exact hrows row hrow v hv

/-! ## The rows -/

/-- `EXPORT_COLUMNS`. -/
def EXPORT_COLUMNS : List Str :=
  ["job_id", "note", "owner", "job_status", "started", "completed", "device", "ip", "port",
    "platform", "status", "commands_sent", "commands_verified", "replied", "action_needed",
    "review", "reviewed_by", "reviewed_at", "review_comment"].map String.toList

section Rows

variable (archive : Archive) (viewer : Viewer) (texts : Format)

/-- `_review_cells`. -/
def reviewCells (r : JobRow) : List Value :=
  match reviewView archive texts.stamp r with
  | none => List.replicate 4 (.text [])
  | some review => [.text review.outcome, .text review.reviewer, .text (review.at?.getD []),
      .text (review.comment.getD [])]

/-- A device's row. -/
def exportRow (job : Nat) (status : DeviceStatus) (r : JobRow) : List Value :=
  let columns := archive.columns r.id
  [ .text (texts.uuid job),
    .text (((metadata archive job).bind JobMetadata.comment).getD []),
    .text ((Dict.get archive.usernames r.user_id).getD []),
    .text (value status),
    .text (texts.stamp r.started_at),
    .text (texts.stamp r.completed_at),
    .text (deviceLabel archive viewer r),
    .text r.device_ip,
    .int r.device_port,
    .text columns.device_type,
    .text r.status,
    .int columns.commands_sent,
    r.commands_verified.elim (.text []) fun n => .int n,
    match columns.replies with
    | some replies => if replies.isEmpty then .text [] else .int replies.length
    | none => .text [],
    .text (columns.action_needed.getD []) ] ++ reviewCells archive texts r

/-- The jobs of the export, each with its rows: `sorted(by_job(rows), …, reverse=True)`. -/
def exportJobs (rows : List JobRow) : List (Group × List JobRow) :=
  ((byJob rows).filterMap fun job =>
    ((job.2.map fun r => r.completed_at).max?).map fun done => (⟨job.1, done⟩, job.2)).mergeSort
      fun a b => a.1.le b.1

/-- The order of a job's devices: by name, and by port. -/
def deviceLe (a b : JobRow) : Bool :=
  decide (deviceLabel archive viewer a < deviceLabel archive viewer b) ||
    (deviceLabel archive viewer a == deviceLabel archive viewer b &&
      decide (a.device_port ≤ b.device_port))

/-- The rows of `export`, of what is kept. -/
def exported (rows : List JobRow) : List (List Value) :=
  (exportJobs rows).flatMap fun job =>
    (job.2.mergeSort (deviceLe archive viewer)).map
      (exportRow archive viewer texts job.1.job_id (statusOf job.2))

/-- `export`; none where it raises. -/
def exportOf [Unicode] (pg : Postgres) (scope : JobScope) (filters : JobFilter) :
    Option (List (List Value)) :=
  (kept pg archive.toHistory viewer scope filters).map (exported archive viewer texts)

end Rows

/-! ## The export and the pages -/

section Agree

variable {archive : Archive} {viewer : Viewer} {texts : Format} {rows : List JobRow}

theorem Group.le_total (g h : Group) : (g.le h || h.le g) = true := by
  rw [Bool.or_eq_true, Group.le_iff, Group.le_iff]
  simp only [Group.Before]
  omega

theorem Group.le_trans (g h k : Group) (hgh : g.le h = true) (hhk : h.le k = true) :
    g.le k = true := by
  simp only [Group.le_iff, Group.Before] at *
  omega

theorem Group.le_antisymm {g h : Group} (hgh : g.le h = true) (hhg : h.le g = true) : g = h := by
  simp only [Group.le_iff, Group.Before] at *
  have hdone : g.done = h.done := by omega
  have hjob : g.job_id = h.job_id := by omega
  cases g
  cases h
  simp only at hdone hjob
  rw [hdone, hjob]

/-- Each job is exported once, with the time it was done at. -/
theorem grouped_perm (rows : List JobRow) :
    (((byJob rows).filterMap fun job => ((job.2.map fun r => r.completed_at).max?).map
      fun d => ((⟨job.1, d⟩ : Group), job.2)).map Prod.fst).Perm (grouped rows) := by
  have hkeys : ((byJob rows).map Prod.fst).Perm (jobIds rows) := by
    refine (List.perm_ext_iff_of_nodup (Groups.nodup_keys rows) (List.nodup_dedup _)).mpr
      fun job => ?_
    exact Groups.mem_keys_iff.trans (mem_jobIds rows job).symm
  have hdone : ∀ gs : List (Nat × List JobRow), (∀ job ∈ gs, job.2 = ofJob rows job.1) →
      (gs.filterMap fun job => ((job.2.map fun r => r.completed_at).max?).map
        fun d => ((⟨job.1, d⟩ : Group), job.2)).map Prod.fst =
      (gs.map Prod.fst).filterMap fun job => (done rows job).map fun d => (⟨job, d⟩ : Group) := by
    intro gs hgs
    rw [List.map_filterMap, List.filterMap_map]
    refine List.filterMap_congr fun job hjob => ?_
    rw [Function.comp_apply, Option.map_map, done, ← hgs job hjob]
    rfl
  rw [hdone _ fun job hjob => (mem_byJob.mp hjob).2]
  exact hkeys.filterMap _

/-- **The export has the jobs in the order of the pages.** -/
theorem map_exportJobs (rows : List JobRow) :
    (exportJobs rows).map Prod.fst = listing rows := by
  rw [exportJobs, List.map_mergeSort (s := Group.le) fun _ _ _ _ => rfl]
  have hsorted : ∀ l : List Group, (l.mergeSort Group.le).Pairwise fun g h => g.le h = true :=
    List.pairwise_mergeSort Group.le_trans Group.le_total
  exact ((List.mergeSort_perm ..).trans ((grouped_perm rows).trans
    (listing_perm rows).symm)).eq_of_pairwise (fun g h _ _ => Group.le_antisymm) (hsorted _)
      (hsorted _)

/-- A job is exported with all its rows that are kept. -/
theorem mem_exportJobs {g : Group} {devices : List JobRow} (h : (g, devices) ∈ exportJobs rows) :
    devices = ofJob rows g.job_id := by
  rw [exportJobs, List.mem_mergeSort] at h
  obtain ⟨job, hjob, heq⟩ := List.mem_filterMap.mp h
  obtain ⟨d, -, heq⟩ := Option.map_eq_some_iff.mp heq
  obtain ⟨rfl, rfl⟩ := Prod.mk.inj heq
  exact (mem_byJob.mp hjob).2

/-- A job's rows of the export. -/
def jobRows (archive : Archive) (viewer : Viewer) (texts : Format) (rows : List JobRow)
    (job : Nat) : List (List Value) :=
  ((ofJob rows job).mergeSort (deviceLe archive viewer)).map
    (exportRow archive viewer texts job (statusOf (ofJob rows job)))

/-- **The export is the pages' jobs**, one after the other, each with its devices. -/
theorem exported_eq (rows : List JobRow) {per_page : Nat} (hper : 1 ≤ per_page) :
    exported archive viewer texts rows =
      (parts rows per_page).flatten.flatMap (jobRows archive viewer texts rows) := by
  rw [flatten_parts rows hper, jobs, ← map_exportJobs, List.map_map, List.flatMap_map, exported]
  refine List.flatMap_congr fun job hjob => ?_
  rw [mem_exportJobs hjob]
  rfl

/-- No device of a job is exported twice or left out. -/
theorem length_exported (rows : List JobRow) :
    (exported archive viewer texts rows).length = rows.length := by
  have hflat : ∀ gs : List (Group × List JobRow),
      (gs.flatMap fun job => (job.2.mergeSort (deviceLe archive viewer)).map
        (exportRow archive viewer texts job.1.job_id (statusOf job.2))).length =
      (gs.flatMap Prod.snd).length := by
    intro gs
    rw [List.length_flatMap, List.length_flatMap]
    simp only [List.length_map, List.length_mergeSort]
  have hkeep : ∀ gs : List (Nat × List JobRow), (∀ job ∈ gs, job.2 ≠ []) →
      (gs.filterMap fun job => ((job.2.map fun r => r.completed_at).max?).map
        fun d => ((⟨job.1, d⟩ : Group), job.2)).flatMap Prod.snd = gs.flatMap Prod.snd := by
    intro gs hgs
    induction gs with
    | nil => rfl
    | cons job gs ih =>
      obtain ⟨d, hd⟩ := Option.isSome_iff_exists.mp (List.isSome_max?_of_ne_nil
        (l := job.2.map fun r => r.completed_at) (by simpa using hgs job (List.mem_cons_self ..)))
      rw [List.filterMap_cons_some (b := ((⟨job.1, d⟩ : Group), job.2)) (by rw [hd]; rfl),
        List.flatMap_cons, List.flatMap_cons, ih fun j hj => hgs j (List.mem_cons_of_mem _ hj)]
  rw [exported, hflat, exportJobs, ((List.mergeSort_perm ..).flatMap_right Prod.snd).length_eq,
    hkeep _ fun job hjob => (mem_byJob.mp hjob).1, byJob,
    (Groups.flatMap_grouped_perm (fun r : JobRow => r.job_id) rows).length_eq]

variable (archive viewer texts) in
/-- A reader of the downloaded file finds the rows of what the pages list. -/
structure Downloaded (rows : List JobRow) (out : List (List Value)) (file : List (List Str)) :
    Prop where
  header : file.head? = some EXPORT_COLUMNS
  /-- A line for each device, the jobs in the order of the pages, whatever their size. -/
  length : file.tail.length = rows.length
  pages : ∀ per_page, 1 ≤ per_page → out =
    (parts rows per_page).flatten.flatMap (jobRows archive viewer texts rows)
  cells : file.tail = out.map (List.map cell)
  /-- A cell that begins as a formula does is not one of them. -/
  safe : ∀ line ∈ file.tail, ∀ c ∈ line, isFormula c = false

variable [Unicode] {pg : Postgres} {scope : JobScope} {filters : JobFilter}

/-- **The download is read back** as the jobs of the pages, and nothing of it is run. -/
theorem read_download {limit : Nat} {out : List (List Value)}
    (h : exportOf archive viewer texts pg scope filters = some out)
    (hlimit : 17 ≤ limit) (hout : ∀ row ∈ out, ∀ v ∈ row, (cell v).length ≤ limit) :
    ∃ rows file, kept pg archive.toHistory viewer scope filters = some rows ∧
      readDownload limit (csvDownload EXPORT_COLUMNS out) = some file ∧
      Downloaded archive viewer texts rows out file := by
  obtain ⟨rows, hkept, rfl⟩ := Option.map_eq_some_iff.mp h
  have hheader : ∀ name ∈ EXPORT_COLUMNS, name.length ≤ limit := by
    have hnames : ∀ name ∈ EXPORT_COLUMNS, name.length ≤ 17 := by decide
    exact fun name hname => (hnames name hname).trans hlimit
  refine ⟨rows, _, hkept, readDownload_csvDownload hheader hout, rfl, ?_,
    fun per_page hper => exported_eq rows hper, rfl, ?_⟩
  · rw [List.tail_cons, List.length_map, length_exported]
  · intro line hline c hc
    obtain ⟨row, -, rfl⟩ := List.mem_map.mp hline
    obtain ⟨v, -, rfl⟩ := List.mem_map.mp hc
    exact not_isFormula_cell v

end Agree

/-- Texts that say nothing. -/
def plainTexts : Format := ⟨fun _ => "2026-01-01".toList, fun _ => "now".toList, fun _ => ['7']⟩

theorem exported_oneArchive : exported oneArchive ⟨1, false⟩ plainTexts oneJob.device_results =
    oneJob.device_results.map (exportRow oneArchive ⟨1, false⟩ plainTexts 7 .success) := by
  simp [exported, exportJobs, byJob, Groups.grouped, Groups.sorted, Groups.groupby, oneJob,
    statusOf]
  rfl

theorem read_download_oneArchive :
    let _ := Unicode.ascii
    ∃ out rows file, exportOf oneArchive ⟨1, false⟩ plainTexts plainPostgres .mine {} = some out ∧
      readDownload 20 (csvDownload EXPORT_COLUMNS out) = some file ∧
      Downloaded oneArchive ⟨1, false⟩ plainTexts rows out file := by
  intro _
  have hkept : kept plainPostgres oneArchive.toHistory ⟨1, false⟩ .mine {} =
      some oneJob.device_results := kept_mine
  have hexport : exportOf oneArchive ⟨1, false⟩ plainTexts plainPostgres .mine {} =
      some (oneJob.device_results.map (exportRow oneArchive ⟨1, false⟩ plainTexts 7 .success)) := by
    rw [exportOf, hkept, Option.map_some, exported_oneArchive]
  obtain ⟨rows, file, -, hread, hdown⟩ := read_download hexport (by decide : 17 ≤ 20)
    (by decide)
  exact ⟨_, rows, file, hexport, hread, hdown⟩

end Results
end NetRollout
