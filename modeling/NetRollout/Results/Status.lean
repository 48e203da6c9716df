import NetRollout.Rollout.Engine

/-!
# A job's status

`src/results.py` says a job's status twice: `job_status` from the device results it has read,
`job_status_condition` as an aggregate condition for PostgreSQL to filter jobs by.

The condition is an expression, with the truth values of SQL: an aggregate of no row at all is
unknown, and a row is chosen by what is true.  `chooses_iff` is that the two agree: of a job
with a device result, exactly one status's condition is true, the one `job_status` says.
-/

namespace NetRollout
namespace Results

open PyText (Str)
open Session (DeviceStatus)
open Rollout (Transcript)

/-! ## The tables -/

/-- A `DeviceStatus` as it is stored. -/
def value : DeviceStatus → Str
  | .success => "success".toList
  | .review => "review".toList
  | .partly => "partial".toList
  | .failed => "failed".toList
  | .notVerified => "not verified".toList
  | .cancelled => "cancelled".toList

/-- A row of `device_results`: what its results, its reviews and its retention read and write. -/
structure DeviceResult where
  id : Nat
  job_id : Nat
  completed_at : Int
  device_ip : Str
  device_port : Int
  commands_verified : Option Nat
  fetched_config : Option Str
  config_diff : Option Str
  transcript : Option Transcript
  status : Str
  review_outcome : Option Str
  review_comment : Option Str
  reviewed_by : Option Nat
  reviewed_at : Option Int
  user_id : Nat

/-- A row of `job_metadata`. -/
structure JobMetadata where
  id : Nat
  job_id : Nat
  commands : List Str
  comment : Option Str
  created_at : Int
  user_id : Nat
  deriving DecidableEq

namespace DeviceResult

/-- `r.status in (…)`. -/
def isOneOf (r : DeviceResult) (statuses : List DeviceStatus) : Bool :=
  (statuses.map value).contains r.status

end DeviceResult

/-! ## In Python -/

/-- Whether any device has one of the statuses. -/
def anyOf (statuses : List DeviceStatus) (rows : List DeviceResult) : Bool :=
  rows.any fun r => r.isOneOf statuses

/-- Whether all the devices failed. -/
def allFailed (rows : List DeviceResult) : Bool :=
  rows.all fun r => r.isOneOf [.failed]

/-- `job_status`. -/
def jobStatus (rows : List DeviceResult) : DeviceStatus :=
  if anyOf [.cancelled] rows then .cancelled
  else if allFailed rows then .failed
  else if anyOf [.failed, .partly] rows then .partly
  else if anyOf [.review] rows then .review
  else if anyOf [.notVerified] rows then .notVerified
  else .success

/-! ## In SQL -/

/-- A condition over the rows of a group. -/
inductive Having where
  /-- `bool_or(status IN (…))`. -/
  | anyDevice (statuses : List DeviceStatus)
  /-- `bool_and(status = 'failed')`. -/
  | allFailed
  | not (condition : Having)
  | and (left right : Having)

namespace Having

/-- `NOT`, `AND`, with unknown. -/
def sqlNot : Option Bool → Option Bool
  | some b => some (!b)
  | none => none

def sqlAnd : Option Bool → Option Bool → Option Bool
  | some false, _ => some false
  | _, some false => some false
  | some true, some true => some true
  | _, _ => none

/-- A condition's truth value over a group of rows. -/
def eval (rows : List DeviceResult) : Having → Option Bool
  | anyDevice statuses => if rows.isEmpty then none else some (anyOf statuses rows)
  | allFailed => if rows.isEmpty then none else some (Results.allFailed rows)
  | not condition => sqlNot (condition.eval rows)
  | and left right => sqlAnd (left.eval rows) (right.eval rows)

end Having

/-- `job_status_condition`; none for a status it raises on. -/
def jobStatusCondition (status : Str) : Option Having :=
  let settled : Having := .not (.anyDevice [.cancelled, .failed, .partly])
  if status = value .cancelled then some (.anyDevice [.cancelled])
  else if status = value .failed then some (.and (.not (.anyDevice [.cancelled])) .allFailed)
  else if status = value .partly then
    some (.and (.and (.not (.anyDevice [.cancelled])) (.not .allFailed))
      (.anyDevice [.failed, .partly]))
  else if status = value .review then some (.and settled (.anyDevice [.review]))
  else if status = value .notVerified then
    some (.and (.and settled (.not (.anyDevice [.review]))) (.anyDevice [.notVerified]))
  else if status = value .success then
    some (.not (.anyDevice [.cancelled, .failed, .partly, .review, .notVerified]))
  else none

/-- The condition of a status chooses the job these rows are of. -/
def Chooses (status : Str) (rows : List DeviceResult) : Prop :=
  ∃ condition, jobStatusCondition status = some condition ∧ condition.eval rows = some true

/-! ## The two agree -/

theorem anyOf_cons (status : DeviceStatus) (statuses : List DeviceStatus)
    (rows : List DeviceResult) :
    anyOf (status :: statuses) rows = (anyOf [status] rows || anyOf statuses rows) := by
  induction rows with
  | nil => rfl
  | cons r rows ih =>
    have hone : r.isOneOf (status :: statuses) = (r.isOneOf [status] || r.isOneOf statuses) := by
      simp [DeviceResult.isOneOf]
    simp only [anyOf, List.any_cons] at ih ⊢
    rw [ih, hone]
    cases r.isOneOf [status] <;> cases r.isOneOf statuses <;> simp

/-- Where all failed one did, there being one. -/
theorem anyOf_failed_of_allFailed {rows : List DeviceResult} (hne : rows ≠ [])
    (h : allFailed rows = true) : anyOf [.failed] rows = true := by
  obtain ⟨r, rest, rfl⟩ := List.exists_cons_of_ne_nil hne
  rw [allFailed, List.all_cons, Bool.and_eq_true] at h
  rw [anyOf, List.any_cons, h.1, Bool.true_or]

section Rows

variable {rows : List DeviceResult}

theorem sqlNot_some (b : Bool) : Having.sqlNot (some b) = some (!b) := rfl

theorem sqlAnd_some (a b : Bool) : Having.sqlAnd (some a) (some b) = some (a && b) := by
  cases a <;> cases b <;> rfl

/-- What a status's condition comes to over a job's rows. -/
def truth (rows : List DeviceResult) : DeviceStatus → Bool
  | .cancelled => anyOf [.cancelled] rows
  | .failed => !anyOf [.cancelled] rows && allFailed rows
  | .partly => !anyOf [.cancelled] rows && !allFailed rows && anyOf [.failed, .partly] rows
  | .review => !anyOf [.cancelled, .failed, .partly] rows && anyOf [.review] rows
  | .notVerified =>
    !anyOf [.cancelled, .failed, .partly] rows && !anyOf [.review] rows && anyOf [.notVerified] rows
  | .success => !anyOf [.cancelled, .failed, .partly, .review, .notVerified] rows

/-- **No condition is unknown over a job's rows.** -/
theorem exists_condition (hne : rows ≠ []) (status : DeviceStatus) :
    ∃ condition, jobStatusCondition (value status) = some condition ∧
      condition.eval rows = some (truth rows status) := by
  have hempty : rows.isEmpty = false := by simpa using hne
  cases status <;> refine ⟨_, rfl, ?_⟩ <;>
    simp only [Having.eval, hempty, Bool.false_eq_true, if_false, sqlNot_some, sqlAnd_some, truth]

/-- **The conditions are told apart as the statuses are.**  The cases are those of
`job_status`; where all failed one did, as there is one. -/
theorem truth_iff (hne : rows ≠ []) (status : DeviceStatus) :
    truth rows status = true ↔ status = jobStatus rows := by
  have hsettled : anyOf [.cancelled, .failed, .partly] rows =
      (anyOf [.cancelled] rows || anyOf [.failed, .partly] rows) := anyOf_cons _ _ rows
  have hunsettled : anyOf [.cancelled, .failed, .partly, .review, .notVerified] rows =
      (anyOf [.cancelled] rows || (anyOf [.failed, .partly] rows ||
        (anyOf [.review] rows || anyOf [.notVerified] rows))) := by
    rw [anyOf_cons, anyOf_cons .failed, anyOf_cons .partly, anyOf_cons .review,
      anyOf_cons .failed [.partly], Bool.or_assoc]
  have hfailed : allFailed rows = true → anyOf [.failed, .partly] rows = true := by
    intro h
    rw [anyOf_cons, anyOf_failed_of_allFailed hne h, Bool.true_or]
  unfold jobStatus
  by_cases hc : anyOf [.cancelled] rows = true
  · rw [if_pos hc]
    cases status <;> simp [truth, hc, hsettled, hunsettled]
  · rw [if_neg hc]
    by_cases ha : allFailed rows = true
    · rw [if_pos ha]
      cases status <;> simp [truth, hc, ha, hfailed ha, hsettled, hunsettled]
    · rw [if_neg ha]
      by_cases hf : anyOf [.failed, .partly] rows = true
      · rw [if_pos hf]
        cases status <;> simp [truth, hc, ha, hf, hsettled, hunsettled]
      · rw [if_neg hf]
        by_cases hr : anyOf [.review] rows = true
        · rw [if_pos hr]
          cases status <;> simp [truth, hc, ha, hf, hr, hsettled, hunsettled]
        · rw [if_neg hr]
          by_cases hn : anyOf [.notVerified] rows = true
          · rw [if_pos hn]
            cases status <;> simp [truth, hc, ha, hf, hr, hn, hsettled, hunsettled]
          · rw [if_neg hn]
            cases status <;> simp [truth, hc, ha, hf, hr, hn, hsettled, hunsettled]

/-- Only a status has a condition. -/
theorem exists_value_of_condition {status : Str} {condition : Having}
    (h : jobStatusCondition status = some condition) : ∃ s, status = value s := by
  unfold jobStatusCondition at h
  repeat' split at h
  · next heq => exact ⟨_, heq⟩
  · next heq => exact ⟨_, heq⟩
  · next heq => exact ⟨_, heq⟩
  · next heq => exact ⟨_, heq⟩
  · next heq => exact ⟨_, heq⟩
  · next heq => exact ⟨_, heq⟩
  · cases h

/-- **One status's condition chooses a job, and it is the job's status.** -/
theorem chooses_iff (hne : rows ≠ []) (status : Str) :
    Chooses status rows ↔ status = value (jobStatus rows) := by
  constructor
  · rintro ⟨condition, hcondition, htrue⟩
    obtain ⟨s, rfl⟩ := exists_value_of_condition hcondition
    obtain ⟨condition', hcondition', heval⟩ := exists_condition hne s
    rw [hcondition, Option.some_inj] at hcondition'
    rw [← hcondition', htrue, Option.some_inj] at heval
    rw [(truth_iff hne s).mp heval.symm]
  · rintro rfl
    obtain ⟨condition, hcondition, heval⟩ := exists_condition hne (jobStatus rows)
    exact ⟨condition, hcondition, heval.trans (congrArg some ((truth_iff hne _).mpr rfl))⟩

end Rows

/-- A device result of a status. -/
def resultOf (job_id : Nat) (completed_at : Int) (status : DeviceStatus) : DeviceResult where
  id := 0
  job_id := job_id
  completed_at := completed_at
  device_ip := []
  device_port := 22
  commands_verified := none
  fetched_config := none
  config_diff := none
  transcript := none
  status := value status
  review_outcome := none
  review_comment := none
  reviewed_by := none
  reviewed_at := none
  user_id := 0

/-- A job of a device that failed and one in review is a partial one, and no failed one. -/
theorem chooses_failedAndReview :
    Chooses (value .partly) [resultOf 1 0 .failed, resultOf 1 0 .review] ∧
      ¬ Chooses (value .failed) [resultOf 1 0 .failed, resultOf 1 0 .review] :=
  ⟨(chooses_iff (List.cons_ne_nil _ _) _).mpr (by decide),
    fun h => absurd ((chooses_iff (List.cons_ne_nil _ _) _).mp h) (by decide)⟩

end Results
end NetRollout
