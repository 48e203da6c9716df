import NetRollout.Session.Push

/-!
# What the engine records

`src/rollout/engine.py`: a device's outcome from its push (`classify`).
-/

namespace NetRollout
namespace Session

open Evidence

inductive DeviceStatus where
  | success
  | review
  | partly
  | failed
  | notVerified
  | cancelled
  deriving DecidableEq

/-- The verdicts the configuration proves. -/
def CERTAIN : List Verdict := [.tookEffect, .inPlace, .removed]

/-- A device's status, the commands sent, and those proven when it was judged. -/
structure Classified where
  status : DeviceStatus
  sent : Nat
  proven : Option Nat
  deriving DecidableEq

/-- `push.sent or sent`: the first unless it is missing or zero. -/
def sentOr : Option Nat → Nat → Nat
  | some (n + 1), _ => n + 1
  | _, sent => sent

/-- `classify`; none for a device that never started. -/
def classify : Option PushResult → Classified
  | none => ⟨.cancelled, 0, none⟩
  | some push =>
    if push.applied then
      let sent := push.replies.length
      if push.interrupted then ⟨.partly, sentOr push.sent sent, none⟩
      else
        match push.outcome with
        | none => ⟨.notVerified, sent, none⟩
        | some outcome =>
          let proven := outcome.commands.countP fun j => CERTAIN.contains j.verdict
          if outcome.rejected then ⟨if proven = 0 then .failed else .partly, sent, some proven⟩
          else ⟨if outcome.needsReview then .review else .success, sent, some proven⟩
    else ⟨.failed, 0, none⟩

end Session
end NetRollout
