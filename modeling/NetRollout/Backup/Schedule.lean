import Mathlib.Data.Char
import Mathlib.Data.List.Lex
import Mathlib.Data.List.Sort
import NetRollout.Library.Calendar
import NetRollout.Library.Transition

/-!
# Scheduled backups

`src/backup/schedule.py`: the scheduled times of a plan, and the ticks that ask, each from the
backups folder and the status file, whether a backup is due, and make it.

A backup may fail before its file is made or after, with any number of old ones pruned, and its
status may not be written.  Between two ticks any time may pass.

## What a tick goes by

The newest scheduled backup is the one whose name sorts last, and a name is a time only where
`create` wrote it: of a name such as `…-20260231-020000-scheduled.zip` the ticks make no time at
all, and raise.  To list the backups `entries` reads the manifest of each, of every kind; what
`read_manifest` does not turn into a `BackupError` ends the tick as well.  `keeps_schedule` is
about the folders whose manifests are read or refused and whose scheduled backups have times in
their names, and a status file whose time can be read; one that is still to come holds the
backup back as one of the last hour does.
-/

namespace NetRollout
namespace Backup
namespace Schedule

open Calendar (Datetime strptime SECOND HOUR DAY)
open PyText (Str Decimals)

/-- `RETRY_SECONDS`. -/
def RETRY : Int := 3600 * SECOND

/-! ## When -/

/-- `BackupSchedule`. -/
inductive BackupSchedule where
  | off
  | daily
  | weekly
  deriving DecidableEq

/-- `backup_schedule`, `backup_time` and `backup_weekday`, as their settings admit them. -/
structure Plan where
  schedule : BackupSchedule
  hour : Nat
  minute : Nat
  /-- Monday is 0. -/
  weekday : Nat
  hour_lt : hour < 24
  minute_lt : minute < 60
  weekday_lt : weekday < 7

namespace Plan

variable (p : Plan)

/-- `_at`. -/
def atTime (now : Datetime) : Int := (now.replace p.hour p.minute p.hour_lt p.minute_lt).moment

/-- `last_slot`. -/
def lastSlot (now : Datetime) : Option Int :=
  match p.schedule with
  | .daily =>
    let slot := p.atTime now
    some (if slot ≤ now.moment then slot else slot - DAY)
  | .weekly =>
    let slot := p.atTime now - ((now.date.weekday : Int) - p.weekday) % 7 * DAY
    some (if slot ≤ now.moment then slot else slot - 7 * DAY)
  | .off => none

/-- `next_slot`. -/
def nextSlot (now : Datetime) : Option Int :=
  (p.lastSlot now).map fun slot => slot + (if p.schedule = .daily then 1 else 7) * DAY

/-- A scheduled time: the time of day, on some day or on some day of the week. -/
def IsSlot (x : Int) : Prop :=
  ∃ day : Int, x = day * DAY + p.hour * HOUR + p.minute * (60 * SECOND) ∧
    (p.schedule = .weekly → (day + 6) % 7 = p.weekday)

end Plan

/-! ## The folder -/

/-- A backup: its name, in its parts, and what is made of its manifest. -/
structure Entry where
  version : Str
  stamp : Str
  kind : Str
  /-- `read_manifest` reads it or raises a `BackupError`, and no other exception. -/
  opens : Bool
  deriving DecidableEq

/-- `BackupKind.SCHEDULED`. -/
def SCHEDULED : Str := "scheduled".toList

def Entry.scheduled (e : Entry) : Bool := e.kind == SCHEDULED

def Entry.sameName (e e' : Entry) : Bool :=
  e.version == e'.version && e.stamp == e'.stamp && e.kind == e'.kind

/-- The backups, newest first, by the time in the name. -/
def listed (folder : List Entry) : List Entry :=
  folder.mergeSort fun a b => !decide (a.stamp < b.stamp)

/-- `entries`; none where it raises, on the manifest of any backup. -/
def entries (folder : List Entry) : Option (List Entry) :=
  if folder.all Entry.opens then some (listed folder) else none

/-- The scheduled backups that `prune` deletes. -/
def gone (keep : Nat) (folder : List Entry) : List Entry :=
  ((listed folder).filter Entry.scheduled).drop keep

/-- `prune`; it may fail at some file, or as it lists them. -/
def prune (keep : Nat) (deleted : Option Nat) (folder : List Entry) : List Entry :=
  match entries folder with
  | none => folder
  | some _ =>
    let unlinked := deleted.elim (gone keep folder) fun n => (gone keep folder).take n
    folder.filter fun e => !unlinked.contains e

/-- The status file: the last run was `ok`, or it failed, with what `fromisoformat` makes of its
time; none where that raises. -/
inductive Status where
  | ok
  | failed (time : Option Int)
  /-- `read_json` raises on it: its JSON is nested too deep. -/
  | unread

section Due

variable [Decimals]

/-- `newest_scheduled`, which raises where `entries` does and where the name holds no time. -/
def newestScheduled (folder : List Entry) : Option (Option Int) :=
  (entries folder).bind fun listed =>
    match listed.find? Entry.scheduled with
    | none => some none
    | some e => (strptime e.stamp).map fun t => some t.moment

omit [Decimals] in
/-- `due`, which raises where it needs the status's time and there is none; the status is read
before. -/
def due (now : Datetime) (slot newest : Option Int) (status : Option Status) : Option Bool :=
  match slot, status with
  | _, some .unread => none
  | none, _ => some false
  | some slot, status =>
    if newest.any fun newest => slot ≤ newest then some false
    else match status with
      | some (.failed none) => none
      | some (.failed (some failed)) =>
        some !(decide (slot ≤ failed) && decide (now.moment - failed < RETRY))
      | _ => some true

/-! ## Ticks -/

/-- How a backup comes out. -/
structure Outcome where
  /-- `create` has made the file. -/
  made : Bool
  /-- `prune` has failed, with so many files deleted. -/
  deleted : Option Nat
  /-- All that follows up to the status went well. -/
  audited : Bool
  /-- The status has been written. -/
  written : Bool

/-- A backup that was attempted. -/
structure Run where
  now : Datetime
  made : Bool

structure State where
  folder : List Entry
  status : Option Status
  /-- The time of the last tick. -/
  clock : Int
  /-- The backups attempted so far, which no step reads. -/
  log : List Run

inductive Action where
  /-- A tick, with `backup_keep` as it is then. -/
  | tick (now : Datetime) (keep : Nat) (outcome : Outcome)

omit [Decimals] in
/-- The backup that `create` makes. -/
def newBackup (version : Str) (now : Datetime) : Entry := ⟨version, now.stamp, SCHEDULED, true⟩

omit [Decimals] in
/-- The folder with the new backup, in the place of one of its name. -/
def create (version : Str) (now : Datetime) (folder : List Entry) : List Entry :=
  folder.filter (fun e => !e.sameName (newBackup version now)) ++ [newBackup version now]

namespace State

variable (s : State)

omit [Decimals] in
/-- The status that `run_scheduled` writes. -/
def statusOf (version : Str) (now : Datetime) (o : Outcome) : Status :=
  if o.made && (entries (create version now s.folder)).isSome && o.deleted.isNone && o.audited then
    .ok
  else .failed (some now.whole.moment)

omit [Decimals] in
/-- `run_scheduled`. -/
def runScheduled (version : Str) (now : Datetime) (keep : Nat) (o : Outcome) : State :=
  { folder := if o.made then prune keep o.deleted (create version now s.folder) else s.folder
    status := if o.written then some (s.statusOf version now o) else s.status
    clock := now.moment
    log := s.log ++ [⟨now, o.made⟩] }

/-- Whether a tick makes a backup; none where it raises. -/
def asks (p : Plan) (now : Datetime) : Option Bool :=
  (newestScheduled s.folder).bind fun newest => due now (p.lastSlot now) newest s.status

/-- `tick`. -/
def tick (p : Plan) (version : Str) (now : Datetime) (keep : Nat) (o : Outcome) : State :=
  if s.asks p now = some true then s.runScheduled version now keep o
  else { s with clock := now.moment }

end State

/-- Ticks whose times do not decrease, on some content of the folder. -/
def backups (p : Plan) (version : Str) (content : State → Prop) : System State Action where
  Init s := s.log = [] ∧ content s
  step s
    | .tick now keep o => if s.clock ≤ now.moment then some (s.tick p version now keep o) else none

/-- `backup_keep` is within its bounds. -/
def inBounds (_ : State) : Action → Bool
  | .tick _ keep _ => 1 ≤ keep && keep ≤ 365

/-- Each scheduled backup has in its name a time, as `create` writes it. -/
def Named (folder : List Entry) : Prop :=
  ∀ e ∈ folder, e.scheduled = true → ∃ t : Datetime, e.stamp = t.stamp

/-- The manifest of each backup is read or refused, the names of the scheduled ones hold times,
and a failed run's time can be read. -/
structure Readable (s : State) : Prop where
  opens : ∀ e ∈ s.folder, e.opens = true
  named : Named s.folder
  read : s.status ≠ some .unread
  failed : ∀ f, s.status = some (.failed f) → ∃ m, f = some m

/-- The backup was made at a time or later, by its name. -/
def Entry.MadeSince (e : Entry) (slot : Int) : Prop :=
  e.scheduled = true ∧ ∃ t, strptime e.stamp = some t ∧ slot ≤ t.moment

/-- A backup is wanted: none was made since the last slot, and none failed for it within
`RETRY_SECONDS`. -/
def State.Wanted (s : State) (p : Plan) (now : Datetime) : Prop :=
  ∃ slot, p.lastSlot now = some slot ∧ (∀ e ∈ s.folder, ¬ e.MadeSince slot) ∧
    ¬ ∃ f, s.status = some (.failed (some f)) ∧ slot ≤ f ∧ now.moment - f < RETRY

/-- A tick has attempted a backup: it is in the folder if it was made, and its outcome in the
status file if that was written. -/
structure Attempted (version : Str) (now : Datetime) (o : Outcome) (s s' : State) : Prop where
  log : s'.log = s.log ++ [⟨now, o.made⟩]
  made : o.made = true → newBackup version now ∈ s'.folder
  failed : o.made = false → s'.folder = s.folder
  status : o.written = true → s'.status = some
    (if o.made && o.deleted.isNone && o.audited then .ok else .failed (some now.whole.moment))

/-- **Once for each slot, none missed.** -/
structure KeepsSchedule (p : Plan) (version : Str) (s : State) : Prop where
  slots : ∀ now : Datetime, ∃ slot next, p.lastSlot now = some slot ∧
    p.nextSlot now = some next ∧ slot ≤ now.moment ∧ now.moment < next ∧ p.IsSlot slot ∧
    ∀ x, p.IsSlot x → x ≤ now.moment → x ≤ slot
  once : s.log.Pairwise fun a b => a.made = true → b.made = true →
    p.lastSlot a.now ≠ p.lastSlot b.now
  /-- The next tick attempts a backup where one is wanted, and does nothing else. -/
  attempts : ∀ (now : Datetime) keep o s', 1 ≤ keep →
    (backups p version Readable).step s (.tick now keep o) = some s' →
      (s.Wanted p now → Attempted version now o s s') ∧
      (¬ s.Wanted p now → s'.folder = s.folder ∧ s'.status = s.status ∧ s'.log = s.log)

end Due

/-! ## The scheduled times -/

section Slots

variable {p : Plan} {now : Datetime}

/-- The time of day of a plan. -/
def Plan.clock (p : Plan) : Int := p.hour * HOUR + p.minute * (60 * SECOND)

/-- What passed of the day. -/
def sinceMidnight (now : Datetime) : Int :=
  now.hour * HOUR + now.minute * (60 * SECOND) + now.second * SECOND + now.microsecond

theorem Plan.clock_lt : 0 ≤ p.clock ∧ p.clock < DAY := by
  have hhour := p.hour_lt
  have hminute := p.minute_lt
  simp only [Plan.clock, DAY, HOUR, SECOND]
  omega

theorem sinceMidnight_lt (now : Datetime) : 0 ≤ sinceMidnight now ∧ sinceMidnight now < DAY := by
  have hhour := now.hour_lt
  have hminute := now.minute_lt
  have hsecond := now.second_lt
  have hmicrosecond := now.microsecond_lt
  simp only [sinceMidnight, DAY, HOUR, SECOND]
  omega

theorem moment_eq (now : Datetime) : now.moment = now.date.toOrdinal * DAY + sinceMidnight now := by
  simp only [Datetime.moment, Datetime.seconds, sinceMidnight, DAY, HOUR, SECOND]
  push_cast
  omega

theorem atTime_eq : p.atTime now = now.date.toOrdinal * DAY + p.clock := by
  simp only [Plan.atTime, Datetime.moment, Datetime.seconds, Datetime.replace, Plan.clock, DAY,
    HOUR, SECOND]
  push_cast
  omega

theorem isSlot_iff {x : Int} : p.IsSlot x ↔ ∃ day : Int, x = day * DAY + p.clock ∧
    (p.schedule = .weekly → (day + 6) % 7 = p.weekday) := by
  simp only [Plan.IsSlot, Plan.clock, add_assoc]

/-- The days of a plan: how far the last of them is behind today, when today's time has come and
when it has not. -/
theorem lastSlot_daily (h : p.schedule = .daily) (now : Datetime) : p.lastSlot now =
    some ((now.date.toOrdinal - if p.clock ≤ sinceMidnight now then 0 else 1) * DAY + p.clock) := by
  simp only [Plan.lastSlot, h, atTime_eq, moment_eq, add_le_add_iff_left, Option.some.injEq]
  split
  · rw [sub_zero]
  · rw [sub_mul, one_mul]
    omega

theorem lastSlot_weekly (h : p.schedule = .weekly) (now : Datetime) {e : Int}
    (he : e = ((now.date.weekday : Int) - p.weekday) % 7) : p.lastSlot now =
      some ((now.date.toOrdinal - e - if e = 0 ∧ sinceMidnight now < p.clock then 7 else 0) * DAY +
        p.clock) := by
  have hclock := p.clock_lt
  have hsince := sinceMidnight_lt now
  have hle : 0 ≤ e := by omega
  have hday : e ≠ 0 → DAY ≤ e * DAY := by
    intro hne
    have hone : 1 * DAY ≤ e * DAY := Int.mul_le_mul_of_nonneg_right (by omega) (by decide)
    omega
  simp only [Plan.lastSlot, h, atTime_eq, moment_eq, ← he, Option.some.injEq]
  have hcond : (now.date.toOrdinal * DAY + p.clock - e * DAY ≤
      now.date.toOrdinal * DAY + sinceMidnight now) ↔ ¬ (e = 0 ∧ sinceMidnight now < p.clock) := by
    by_cases hzero : e = 0
    · subst hzero
      omega
    · have := hday hzero
      omega
  by_cases htocome : e = 0 ∧ sinceMidnight now < p.clock
  · rw [if_neg (fun hle => hcond.mp hle htocome), if_pos htocome, sub_mul, sub_mul]
    omega
  · rw [if_pos (hcond.mpr htocome), if_neg htocome, sub_zero, sub_mul]
    omega

/-- The latest scheduled time: it is one, it has come, the next has not, and none is between. -/
theorem slots_of_on (hon : p.schedule ≠ .off) (now : Datetime) : ∃ slot next,
    p.lastSlot now = some slot ∧ p.nextSlot now = some next ∧ slot ≤ now.moment ∧
    now.moment < next ∧ p.IsSlot slot ∧ ∀ x, p.IsSlot x → x ≤ now.moment → x ≤ slot := by
  have hclock := p.clock_lt
  have hsince := sinceMidnight_lt now
  have hmoment := moment_eq now
  cases hschedule : p.schedule with
  | off => exact absurd hschedule hon
  | daily =>
    have hslot := lastSlot_daily hschedule now
    refine ⟨_, _, hslot, by rw [Plan.nextSlot, hslot, Option.map_some], ?_⟩
    rw [if_pos hschedule, hmoment]
    refine ⟨?_, ?_, isSlot_iff.mpr ⟨_, rfl, fun hweekly => ?_⟩, fun x hx hle => ?_⟩
    · split <;> simp only [DAY, HOUR, SECOND] at * <;> omega
    · split <;> simp only [DAY, HOUR, SECOND] at * <;> omega
    · rw [hschedule] at hweekly
      cases hweekly
    · obtain ⟨day, rfl, -⟩ := isSlot_iff.mp hx
      split <;> simp only [DAY, HOUR, SECOND] at * <;> omega
  | weekly =>
    obtain ⟨e, he⟩ : ∃ e, e = ((now.date.weekday : Int) - p.weekday) % 7 := ⟨_, rfl⟩
    have hslot := lastSlot_weekly hschedule now he
    have hdaily : ¬ p.schedule = .daily := by
      rw [hschedule]
      decide
    have hweekday : (now.date.weekday : Int) = ((now.date.toOrdinal : Int) + 6) % 7 := by
      rw [Calendar.Date.weekday]
      push_cast
      rfl
    have hlt := p.weekday_lt
    refine ⟨_, _, hslot, by rw [Plan.nextSlot, hslot, Option.map_some], ?_⟩
    rw [if_neg hdaily, hmoment]
    refine ⟨?_, ?_, isSlot_iff.mpr ⟨_, rfl, fun _ => ?_⟩, fun x hx hle => ?_⟩
    · split <;> simp only [DAY, HOUR, SECOND] at * <;> omega
    · split <;> simp only [DAY, HOUR, SECOND] at * <;> omega
    · split <;> omega
    · obtain ⟨day, rfl, hday⟩ := isSlot_iff.mp hx
      have hday := hday hschedule
      split <;> simp only [DAY, HOUR, SECOND] at * <;> omega

end Slots


/-! ## The newest backup -/

section Newest

variable {folder : List Entry} {e new : Entry} {t u : Datetime}

theorem mem_listed : e ∈ listed folder ↔ e ∈ folder := List.mem_mergeSort

theorem pairwise_listed (folder : List Entry) :
    (listed folder).Pairwise fun a b => ¬ a.stamp < b.stamp := by
  have hsorted : (listed folder).Pairwise fun a b => (!decide (a.stamp < b.stamp)) = true := by
    refine List.pairwise_mergeSort (fun a b c hab hbc => ?_) (fun a b => ?_) folder
    · simp only [Bool.not_eq_eq_eq_not, Bool.not_true, decide_eq_false_iff_not, not_lt] at *
      exact hbc.trans hab
    · simp only [Bool.or_eq_true, Bool.not_eq_eq_eq_not, Bool.not_true, decide_eq_false_iff_not,
        not_lt]
      exact le_total _ _
  exact hsorted.imp fun h => by simpa using h

theorem seconds_eq_of_stamp (h : t.stamp = u.stamp) : t.seconds = u.seconds := by
  rcases Nat.lt_trichotomy t.seconds u.seconds with hlt | heq | hlt
  · exact absurd h (ne_of_lt (Calendar.stamp_lt_stamp (Datetime.before_of_seconds_lt hlt)))
  · exact heq
  · exact absurd h.symm (ne_of_lt (Calendar.stamp_lt_stamp (Datetime.before_of_seconds_lt hlt)))

theorem entries_of_opens (h : ∀ e ∈ folder, e.opens = true) :
    entries folder = some (listed folder) :=
  if_pos (List.all_eq_true.mpr h)

variable [Decimals]

/-- What `newest_scheduled` answers: no scheduled backup, or the time of the latest. -/
theorem newestScheduled_cases (hopens : ∀ e ∈ folder, e.opens = true) (h : Named folder) :
    (newestScheduled folder = some none ∧ ∀ e ∈ folder, e.scheduled = false) ∨
      ∃ e ∈ folder, ∃ t : Datetime, e.scheduled = true ∧ e.stamp = t.stamp ∧
        newestScheduled folder = some (some t.whole.moment) ∧
        ∀ e' ∈ folder, ∀ u : Datetime, e'.scheduled = true → e'.stamp = u.stamp →
          u.seconds ≤ t.seconds := by
  rw [newestScheduled, entries_of_opens hopens, Option.bind_some]
  cases hfind : (listed folder).find? Entry.scheduled with
  | none =>
    refine .inl ⟨rfl, fun e he => ?_⟩
    exact Bool.eq_false_iff.mpr (List.find?_eq_none.mp hfind e (mem_listed.mpr he))
  | some e =>
    obtain ⟨hscheduled, before, after, hsplit, hbefore⟩ := List.find?_eq_some_iff_append.mp hfind
    have hmem : e ∈ folder := mem_listed.mp (List.mem_of_find?_eq_some hfind)
    obtain ⟨t, ht⟩ := h e hmem hscheduled
    refine .inr ⟨e, hmem, t, hscheduled, ht, ?_, fun e' he' u hscheduled' hu => ?_⟩
    · simp only [ht, Calendar.strptime_stamp, Option.map_some]
    · have hsorted := pairwise_listed folder
      rw [hsplit] at hsorted
      have hwhere := mem_listed.mpr he'
      rw [hsplit] at hwhere
      by_contra hlt
      have hstamp := Calendar.stamp_lt_stamp (Datetime.before_of_seconds_lt (Nat.lt_of_not_le hlt))
      rcases List.mem_append.mp hwhere with hwhere | hwhere
      · have hnot := hbefore e' hwhere
        rw [hscheduled'] at hnot
        cases hnot
      · rcases List.mem_cons.mp hwhere with rfl | hwhere
        · exact absurd (seconds_eq_of_stamp (hu.symm.trans ht)) (by omega)
        · have hnot := List.rel_of_pairwise_cons (List.pairwise_append.mp hsorted).2.1 hwhere
          rw [ht, hu] at hnot
          exact hnot hstamp

/-- Whether a backup was made since a time, as its name says. -/
theorem madeSince_iff (ht : e.stamp = t.stamp) {slot : Int} :
    e.MadeSince slot ↔ e.scheduled = true ∧ slot ≤ t.whole.moment := by
  simp only [Entry.MadeSince, ht, Calendar.strptime_stamp, Option.some.injEq, exists_eq_left']

theorem newest_lt_iff (hopens : ∀ e ∈ folder, e.opens = true) (h : Named folder)
    {newest : Option Int} (hnewest : newestScheduled folder = some newest) (slot : Int) :
    (newest.any fun newest => slot ≤ newest) = true ↔ ∃ e ∈ folder, e.MadeSince slot := by
  rcases newestScheduled_cases hopens h with
    ⟨hnone, hall⟩ | ⟨e, he, t, hscheduled, ht, hsome, hlatest⟩
  · obtain rfl := Option.some.inj (hnone.symm.trans hnewest)
    refine iff_of_false (by rw [Option.any_none]; exact Bool.false_ne_true) ?_
    rintro ⟨e, he, hscheduled, -⟩
    rw [hall e he] at hscheduled
    cases hscheduled
  · obtain rfl := Option.some.inj (hsome.symm.trans hnewest)
    rw [Option.any_some, decide_eq_true_eq]
    constructor
    · intro hle
      exact ⟨e, he, (madeSince_iff ht).mpr ⟨hscheduled, hle⟩⟩
    · rintro ⟨e', he', hmade⟩
      obtain ⟨u, hu⟩ := h e' he' hmade.1
      have hle := ((madeSince_iff hu).mp hmade).2
      have hseconds := hlatest e' he' u hmade.1 hu
      rw [Datetime.moment_whole] at hle ⊢
      simp only [SECOND] at *
      omega

end Newest

/-! ## Ticks -/

section Ticks

variable {p : Plan} {version : Str} {s s' : State} {now : Datetime} {keep : Nat} {o : Outcome}

section Asks

variable [Decimals]

omit [Decimals] in
theorem due_iff {slot : Int} {newest : Option Int} {status : Option Status}
    (hread : status ≠ some .unread)
    (hfailed : ∀ f, status = some (.failed f) → ∃ m, f = some m) :
    due now (some slot) newest status = some true ↔
      ¬ (newest.any fun newest => slot ≤ newest) = true ∧
      ¬ ∃ f, status = some (.failed (some f)) ∧ slot ≤ f ∧ now.moment - f < RETRY := by
  by_cases hnewest : (newest.any fun newest => slot ≤ newest) = true
  · refine iff_of_false ?_ fun h => h.1 hnewest
    match status with
    | none | some .ok | some (.failed _) => simp [due, hnewest]
    | some .unread => exact absurd rfl hread
  · rw [and_iff_right hnewest]
    match status with
    | none | some .ok => simp [due, hnewest]
    | some .unread => exact absurd rfl hread
    | some (.failed none) =>
      obtain ⟨m, hm⟩ := hfailed none rfl
      cases hm
    | some (.failed (some f)) =>
      simp only [due, if_neg hnewest, Option.some.injEq, Bool.not_eq_eq_eq_not, Bool.not_true,
        Bool.and_eq_false_iff, decide_eq_false_iff_not, Status.failed.injEq, exists_eq_left',
        not_and_or]

theorem asks_iff (h : Readable s) (hon : p.schedule ≠ .off) (now : Datetime) :
    s.asks p now = some true ↔ s.Wanted p now := by
  obtain ⟨slot, -, hslot, -⟩ := slots_of_on hon now
  obtain ⟨newest, hnewest⟩ : ∃ newest, newestScheduled s.folder = some newest := by
    rcases newestScheduled_cases h.opens h.named with ⟨hnone, -⟩ | ⟨_, -, _, -, -, hsome, -⟩
    · exact ⟨_, hnone⟩
    · exact ⟨_, hsome⟩
  rw [State.asks, hnewest, Option.bind_some, hslot, due_iff h.read h.failed,
    newest_lt_iff h.opens h.named hnewest]
  simp only [State.Wanted, hslot, Option.some.injEq, exists_eq_left', not_exists, not_and]

end Asks

/-! ## Retention -/

theorem opens_create (version : Str) (hopens : ∀ e ∈ s.folder, e.opens = true) :
    ∀ e ∈ create version now s.folder, e.opens = true := by
  intro e he
  rcases List.mem_append.mp he with he | he
  · exact hopens e (List.mem_filter.mp he).1
  · rw [List.mem_singleton.mp he]
    rfl

theorem mem_of_mem_prune {deleted : Option Nat} {folder : List Entry} {e : Entry}
    (h : e ∈ prune keep deleted folder) : e ∈ folder := by
  unfold prune at h
  split at h
  · exact h
  · exact (List.mem_filter.mp h).1

/-- What is not beyond those to keep is still there. -/
theorem mem_prune_of_not_gone {deleted : Option Nat} {folder : List Entry} {e : Entry}
    (he : e ∈ folder) (hnot : e ∉ gone keep folder) : e ∈ prune keep deleted folder := by
  unfold prune
  split
  · exact he
  · refine List.mem_filter.mpr ⟨he, ?_⟩
    rw [Bool.not_eq_true', ← Bool.not_eq_true]
    intro hcontains
    cases deleted with
    | none => exact hnot (List.contains_iff_mem.mp hcontains)
    | some n => exact hnot (List.mem_of_mem_take (List.contains_iff_mem.mp hcontains))

theorem count_newBackup_le (version : Str) (now : Datetime) (folder : List Entry) :
    (create version now folder).count (newBackup version now) ≤ 1 := by
  have hnone : (folder.filter fun e => !e.sameName (newBackup version now)).count
      (newBackup version now) = 0 := by
    refine List.count_eq_zero.mpr fun hfilter => ?_
    have hother := (List.mem_filter.mp hfilter).2
    simp [Entry.sameName] at hother
  rw [create, List.count_append, hnone, List.count_singleton_self]

/-- The new backup sorts before every other one, made earlier, so `prune` keeps it. -/
theorem mem_prune_create (version : Str) (hkeep : 1 ≤ keep) (hnamed : Named s.folder)
    (hbefore : ∀ e ∈ s.folder, ∀ t : Datetime, e.scheduled = true → e.stamp = t.stamp →
      t.seconds < now.seconds) (deleted : Option Nat) :
    newBackup version now ∈ prune keep deleted (create version now s.folder) := by
  have hone : ((listed (create version now s.folder)).filter Entry.scheduled).count
      (newBackup version now) ≤ 1 := by
    refine (List.filter_sublist.count_le _).trans ?_
    rw [listed, (List.mergeSort_perm _ _).count_eq]
    exact count_newBackup_le version now s.folder
  refine mem_prune_of_not_gone (List.mem_append_right _ (List.mem_singleton_self _)) ?_
  intro hgone
  have hsorted := (pairwise_listed (create version now s.folder)).filter Entry.scheduled
  obtain ⟨n, rfl⟩ := Nat.exists_eq_add_of_le' hkeep
  rw [gone] at hgone
  cases hlist : (listed (create version now s.folder)).filter Entry.scheduled with
  | nil =>
    rw [hlist, List.drop_nil] at hgone
    cases hgone
  | cons x rest =>
    rw [hlist, List.drop_succ_cons] at hgone
    rw [hlist] at hsorted hone
    have hrest : newBackup version now ∈ rest := List.mem_of_mem_drop hgone
    by_cases hsame : x = newBackup version now
    · -- it would be there twice
      rw [hsame, List.count_cons_self] at hone
      have hpos := List.count_pos_iff.mpr hrest
      omega
    · have hx : x ∈ (listed (create version now s.folder)).filter Entry.scheduled :=
        hlist ▸ List.mem_cons_self ..
      obtain ⟨hin, hscheduled⟩ := List.mem_filter.mp hx
      rcases List.mem_append.mp (mem_listed.mp hin) with hold | hold
      · have hfolder := (List.mem_filter.mp hold).1
        obtain ⟨t, ht⟩ := hnamed x hfolder hscheduled
        have hstamp := Calendar.stamp_lt_stamp
          (Datetime.before_of_seconds_lt (hbefore x hfolder t hscheduled ht))
        refine List.rel_of_pairwise_cons hsorted hrest ?_
        rw [ht]
        exact hstamp
      · exact hsame (List.mem_singleton.mp hold)

/-! ## The invariant -/

theorem statusOf_eq (hopens : ∀ e ∈ s.folder, e.opens = true) : s.statusOf version now o =
    if o.made && o.deleted.isNone && o.audited then .ok else .failed (some now.whole.moment) := by
  rw [State.statusOf, entries_of_opens (opens_create version hopens), Option.isSome_some,
    Bool.and_true]

theorem Readable.runScheduled (h : Readable s) :
    Readable (s.runScheduled version now keep o) := by
  have hstatus : s.statusOf version now o = .ok ∨
      s.statusOf version now o = .failed (some now.whole.moment) := by
    rw [State.statusOf]
    split
    · exact .inl rfl
    · exact .inr rfl
  constructor
  case opens =>
    intro e he
    simp only [State.runScheduled] at he
    split at he
    · exact opens_create version h.opens e (mem_of_mem_prune he)
    · exact h.opens e he
  case named =>
    intro e he hscheduled
    simp only [State.runScheduled] at he
    split at he
    · rcases List.mem_append.mp (mem_of_mem_prune he) with he | he
      · exact h.named e (List.mem_filter.mp he).1 hscheduled
      · obtain rfl := List.mem_singleton.mp he
        exact ⟨now, rfl⟩
    · exact h.named e he hscheduled
  case read =>
    simp only [State.runScheduled]
    split
    · rcases hstatus with hstatus | hstatus <;> simp [hstatus]
    · exact h.read
  case failed =>
    intro f hf
    simp only [State.runScheduled] at hf
    split at hf
    · rcases hstatus with hstatus | hstatus
      · rw [hstatus] at hf
        cases hf
      · rw [hstatus] at hf
        cases hf
        exact ⟨_, rfl⟩
    · exact h.failed f hf

/-- A backup that was made is followed, in the folder, by one with its time or a later one. -/
def Followed (s : State) (r : Run) : Prop :=
  ∃ e ∈ s.folder, e.scheduled = true ∧ ∃ t : Datetime, e.stamp = t.stamp ∧
    r.now.seconds ≤ t.seconds

variable [Decimals]

structure Kept (p : Plan) (s : State) : Prop extends Readable s where
  followed : ∀ r ∈ s.log, r.made = true → Followed s r
  once : s.log.Pairwise fun a b => a.made = true → b.made = true →
    p.lastSlot a.now ≠ p.lastSlot b.now

omit [Decimals] in
/-- A scheduled time is a whole minute. -/
theorem le_whole_of_slot (hon : p.schedule ≠ .off) {slot : Int}
    (h : p.lastSlot now = some slot) : slot ≤ now.whole.moment := by
  obtain ⟨slot', -, hslot, -, hle, -, hisSlot, -⟩ := slots_of_on hon now
  obtain rfl := Option.some.inj (hslot.symm.trans h)
  obtain ⟨day, rfl, -⟩ := hisSlot
  have hmicrosecond := now.microsecond_lt
  rw [Datetime.moment_whole]
  simp only [Datetime.moment, DAY, HOUR, SECOND] at *
  omega

namespace Kept

/-- What a backup is made on: all that was made has an earlier time. -/
theorem before_of_asks (h : Kept p s) (hon : p.schedule ≠ .off) (hasks : s.asks p now = some true)
    {e : Entry} (he : e ∈ s.folder) {t : Datetime} (hscheduled : e.scheduled = true)
    (ht : e.stamp = t.stamp) {slot : Int} (hslot : p.lastSlot now = some slot) :
    t.whole.moment < slot ∧ t.seconds < now.seconds := by
  obtain ⟨slot', hslot', hnone, -⟩ := (asks_iff h.toReadable hon now).mp hasks
  obtain rfl := Option.some.inj (hslot.symm.trans hslot')
  have hlt : t.whole.moment < slot := by
    by_contra hle
    exact hnone e he ((madeSince_iff ht).mpr ⟨hscheduled, Int.not_lt.mp hle⟩)
  refine ⟨hlt, ?_⟩
  have hle := le_whole_of_slot hon hslot
  rw [Datetime.moment_whole] at hle hlt
  simp only [SECOND] at *
  omega

theorem runScheduled (h : Kept p s) (hon : p.schedule ≠ .off) (hkeep : 1 ≤ keep)
    (hasks : s.asks p now = some true) : Kept p (s.runScheduled version now keep o) := by
  obtain ⟨slot, -, hslot, -⟩ := slots_of_on hon now
  have hbefore : ∀ e ∈ s.folder, ∀ t : Datetime, e.scheduled = true → e.stamp = t.stamp →
      t.seconds < now.seconds := fun e he t hscheduled ht =>
    (h.before_of_asks hon hasks he hscheduled ht hslot).2
  have hnew := mem_prune_create version hkeep h.named hbefore o.deleted
  constructor
  case toReadable => exact h.toReadable.runScheduled
  case followed =>
    intro r hr hmade
    rcases List.mem_append.mp hr with hr | hr
    · obtain ⟨e, he, hscheduled, t, ht, hle⟩ := h.followed r hr hmade
      unfold Followed
      simp only [State.runScheduled]
      split
      · exact ⟨_, hnew, rfl, now, rfl, hle.trans (hbefore e he t hscheduled ht).le⟩
      · exact ⟨e, he, hscheduled, t, ht, hle⟩
    · obtain rfl := List.mem_singleton.mp hr
      unfold Followed
      simp only [State.runScheduled]
      rw [if_pos hmade]
      exact ⟨_, hnew, rfl, now, rfl, le_refl _⟩
  case once =>
    refine List.pairwise_append.mpr ⟨h.once, List.pairwise_singleton _ _, fun r hr r' hr' => ?_⟩
    obtain rfl := List.mem_singleton.mp hr'
    -- what was made earlier was made before this slot
    intro hmade _ hsame
    obtain ⟨e, he, hscheduled, t, ht, hle⟩ := h.followed r hr hmade
    have hlt := (h.before_of_asks hon hasks he hscheduled ht hslot).1
    have hslot' := le_whole_of_slot hon (hsame.trans hslot)
    rw [Datetime.moment_whole] at hlt hslot'
    simp only [SECOND] at *
    omega

theorem tick (h : Kept p s) (hon : p.schedule ≠ .off) (hkeep : 1 ≤ keep) :
    Kept p (s.tick p version now keep o) := by
  unfold State.tick
  split
  · next hasks => exact h.runScheduled hon hkeep hasks
  · exact { h with failed := h.failed }

theorem attempted (h : Kept p s) (hon : p.schedule ≠ .off) (hkeep : 1 ≤ keep)
    (hasks : s.asks p now = some true) :
    Attempted version now o s (s.runScheduled version now keep o) := by
  obtain ⟨slot, -, hslot, -⟩ := slots_of_on hon now
  constructor
  case log => rfl
  case made =>
    intro hmade
    simp only [State.runScheduled, if_pos hmade]
    exact mem_prune_create version hkeep h.named (fun e he t hscheduled ht =>
      (h.before_of_asks hon hasks he hscheduled ht hslot).2) o.deleted
  case failed =>
    intro hmade
    simp only [State.runScheduled, hmade, Bool.false_eq_true, if_false]
  case status =>
    intro hwritten
    simp only [State.runScheduled, if_pos hwritten, statusOf_eq h.opens]

theorem keepsSchedule (h : Kept p s) (hon : p.schedule ≠ .off) : KeepsSchedule p version s where
  slots := slots_of_on hon
  once := h.once
  attempts now keep o s' hkeep hstep := by
    simp only [backups] at hstep
    split at hstep
    · cases hstep
      unfold State.tick
      split
      · next hasks =>
        have hwanted := (asks_iff h.toReadable hon now).mp hasks
        exact ⟨fun _ => h.attempted hon hkeep hasks, fun hnot => absurd hwanted hnot⟩
      · next hasks =>
        have hnot := fun hwanted => hasks ((asks_iff h.toReadable hon now).mpr hwanted)
        exact ⟨fun hwanted => absurd hwanted hnot, fun _ => ⟨rfl, rfl, rfl⟩⟩
    · cases hstep

end Kept

/-! ## Runs -/

/-- **Scheduled backups: once for each slot, none missed**, on any folder and status that can be
read. -/
theorem keeps_schedule (hon : p.schedule ≠ .off)
    (h : (backups p version Readable).Reachable inBounds s) : KeepsSchedule p version s := by
  have hkept : Kept p s := by
    refine h.invariant (I := Kept p) (fun s hs => ?_) fun s a s' _ hallowed hinv hstep => ?_
    · obtain ⟨hlog, hreadable⟩ := hs
      refine ⟨hreadable, ?_, ?_⟩
      · rw [hlog]
        exact List.forall_mem_nil _
      · rw [hlog]
        exact List.Pairwise.nil
    · obtain ⟨now, keep, o⟩ := a
      have hkeep : 1 ≤ keep := of_decide_eq_true (Bool.and_eq_true_iff.mp hallowed).1
      simp only [backups] at hstep
      split at hstep
      · cases hstep
        exact hinv.tick hon hkeep
      · cases hstep
  exact hkept.keepsSchedule hon

end Ticks

section Example

/-- Daily at two. -/
def dailyAtTwo : Plan :=
  ⟨.daily, 2, 0, 6, Nat.le_of_ble_eq_true rfl, Nat.le_of_ble_eq_true rfl,
    Nat.le_of_ble_eq_true rfl⟩

/-- The fifth of October 2026, at some minute past three. -/
def pastThree (minute : Nat) (h : minute < 60) : Datetime where
  date :=
    { year := 2026
      month := 10
      day := 5
      year_pos := Nat.le_of_ble_eq_true rfl
      year_le := Nat.le_of_ble_eq_true rfl
      month_pos := Nat.le_of_ble_eq_true rfl
      month_le := Nat.le_of_ble_eq_true rfl
      day_pos := Nat.le_of_ble_eq_true rfl
      day_le := Nat.le_of_ble_eq_true rfl }
  hour := 3
  minute := minute
  second := 0
  microsecond := 0
  hour_lt := Nat.le_of_ble_eq_true rfl
  minute_lt := h
  second_lt := Nat.le_of_ble_eq_true rfl
  microsecond_lt := Nat.le_of_ble_eq_true rfl

/-- One backup is made of two ticks after a slot. -/
theorem keeps_schedule_twoTicks : let := Decimals.ascii
    ∃ s, KeepsSchedule dailyAtTwo [] s ∧ s.log.map (fun r => r.made) = [true] ∧
      s.clock = (pastThree 1 (by decide)).moment := by
  intro _
  have hrun : ((backups dailyAtTwo [] Readable).exec inBounds ⟨[], none, 0, []⟩
      [.tick (pastThree 0 (by decide)) 14 ⟨true, none, true, true⟩,
        .tick (pastThree 1 (by decide)) 14 ⟨true, none, true, true⟩]).any (fun s =>
      s.log.map (fun r => r.made) == [true] &&
        decide (s.clock = (pastThree 1 (by decide)).moment)) = true := by
    decide +kernel
  have hinit : (backups dailyAtTwo [] Readable).Init ⟨[], none, 0, []⟩ :=
    ⟨rfl, List.forall_mem_nil _, List.forall_mem_nil _, (fun hunread => by cases hunread),
      fun _ hf => by cases hf⟩
  obtain ⟨s, hreach, hs⟩ := System.exists_reachable hinit hrun
  obtain ⟨hlog, hclock⟩ := Bool.and_eq_true_iff.mp hs
  exact ⟨s, keeps_schedule (by decide) hreach, beq_iff_eq.mp hlog, of_decide_eq_true hclock⟩

/-- A name with a day that there is not. -/
def noSuchDay : Entry := ⟨"1.0".toList, "20260231-020000".toList, SCHEDULED, true⟩

/-- With it in the folder no backup is ever attempted. -/
theorem not_keeps_schedule : let := Decimals.ascii
    ∃ s, (backups dailyAtTwo [] fun _ => True).Reachable inBounds s ∧
      ¬ KeepsSchedule dailyAtTwo [] s := by
  intro _
  refine ⟨⟨[noSuchDay], none, 0, []⟩, ⟨_, [], ⟨rfl, trivial⟩, rfl⟩, fun h => ?_⟩
  have hunread : strptime noSuchDay.stamp = none := by decide +kernel
  have hstep : (backups dailyAtTwo [] Readable).step ⟨[noSuchDay], none, 0, []⟩
      (.tick (pastThree 0 (by decide)) 14 ⟨true, none, true, true⟩) =
        some ⟨[noSuchDay], none, (pastThree 0 (by decide)).moment, []⟩ := by
    have hnewest : newestScheduled [noSuchDay] = none := by
      rw [newestScheduled, entries_of_opens (by decide), listed, List.mergeSort_singleton]
      show (strptime noSuchDay.stamp).map (fun t => some t.moment) = none
      rw [hunread, Option.map_none]
    have hasks : State.asks ⟨[noSuchDay], none, 0, []⟩ dailyAtTwo (pastThree 0 (by decide)) =
        none := by
      rw [State.asks, hnewest, Option.bind_none]
    simp only [backups, State.tick, hasks, reduceCtorEq, if_false]
    exact if_pos (by decide)
  have hattempted := (h.attempts _ _ _ _ (by decide) hstep).1 ?_
  · have hlog := hattempted.log
    simp only [List.nil_append, List.ne_cons_self] at hlog
  · obtain ⟨slot, -, hslot, -⟩ :=
      slots_of_on (p := dailyAtTwo) (by decide) (pastThree 0 (by decide))
    refine ⟨slot, hslot, fun e he hmade => ?_, fun ⟨f, hf, _⟩ => by cases hf⟩
    obtain rfl := List.mem_singleton.mp he
    obtain ⟨-, t, ht, -⟩ := hmade
    rw [hunread] at ht
    cases ht

end Example

end Schedule
end Backup
end NetRollout
