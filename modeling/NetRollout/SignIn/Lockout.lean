import NetRollout.Library.Transition
import NetRollout.SignIn.Login

/-!
# The lockout of a local account

`lock_minutes_left`, `password_ok` and `password_failed` of `src/accounts/users.py` among the
attempts at a local account and the actions of administrators that give it access again
(`user_action_factory` and `admin_reset_password` of `src/webapp/blueprints/admin_users.py`).
Attempts come one at a time: nothing is between a right password and the code after it.  Times
are `datetime`s, in microseconds.

Every action that makes an account active starts its count again, so a run starts at a new
account.  Only the wrong passwords of an active account are counted: `not_noneChecked`.  On
these the lockout rests (`locksOut`).
-/

namespace NetRollout
namespace SignIn
namespace Local

open Accounts (MAX_FAILED_PASSWORDS DISABLE_AFTER)

/-- `timedelta(minutes=LOCK_MINUTES)`. -/
def LOCK : Int := LOCK_MINUTES * 60 * 1000000

/-- What a sign-in reads of a local account's row. -/
structure User where
  isFactoryAdmin : Bool
  isApproved : Bool
  isActive : Bool
  failedSignIns : Nat
  lockedUntil : Option Int
  deriving DecidableEq

/-- What a wrong password did to the account. -/
inductive Lockout where
  | counted
  | locked
  | disabled
  deriving DecidableEq

/-- What an attempt comes to. -/
inductive Outcome where
  | locked (minutes : Int)
  | invalidCredentials (outcome : Lockout)
  | pendingApproval
  | accountDisabled
  /-- `complete_login`, or `start_otp_flow`. -/
  | passed
  deriving DecidableEq

namespace User

/-- A new account, approved and active. -/
def new (isFactoryAdmin : Bool) : User := ⟨isFactoryAdmin, true, true, 0, none⟩

variable (u : User)

/-- `clear_lockout`. -/
def clearLockout : User := { u with failedSignIns := 0, lockedUntil := none }

def lifted : User := { u with lockedUntil := none }

/-- `lock_minutes_left`: a lock that has run out is lifted. -/
def lockMinutesLeft (now : Int) : User × Option Int :=
  match u.lockedUntil with
  | none => (u, none)
  | some expiry =>
    let left := expiry - now
    if left ≤ 0 then (u.lifted, none)
    else (u, some (-(-left / 60000000)))

/-- `password_ok`. -/
def passwordOk : User := if u.failedSignIns ≠ 0 then { u with failedSignIns := 0 } else u

/-- `password_failed`. -/
def passwordFailed (now : Int) : User × Lockout :=
  if !(u.isApproved && u.isActive) then (u, .counted)
  else
    let count := u.failedSignIns + 1
    let u := { u with failedSignIns := count }
    let locked := some (now + LOCK)
    if u.isFactoryAdmin then
      if count < MAX_FAILED_PASSWORDS then (u, .counted)
      else ({ u with failedSignIns := 0, lockedUntil := locked }, .locked)
    else if DISABLE_AFTER ≤ count then ({ u with isActive := false }, .disabled)
    else if count ≠ MAX_FAILED_PASSWORDS then (u, .counted)
    else ({ u with lockedUntil := locked }, .locked)

/-- `login_local`, of a right password or a wrong one. -/
def loginLocal (now : Int) (right : Bool) : User × Outcome :=
  match u.lockMinutesLeft now with
  | (u, some minutes) => (u, .locked minutes)
  | (u, none) =>
    if !right then
      let failed := u.passwordFailed now
      (failed.1, .invalidCredentials failed.2)
    else
      let u := u.passwordOk
      if !u.isApproved then (u, .pendingApproval)
      else if !u.isActive then (u, .accountDisabled)
      else (u, .passed)

/-- `user_action_factory`, of `enable`. -/
def enable : User := { u with isActive := true }.clearLockout

/-- `admin_reset_password`, refused for the factory admin. -/
def resetPassword : User := if u.isFactoryAdmin then u else u.clearLockout

/-- At this time a password is checked. -/
def Checked (now : Int) : Prop := (u.lockMinutesLeft now).2 = none

instance (now : Int) : Decidable (u.Checked now) := inferInstanceAs (Decidable (_ = _))

end User

/-! ## Runs -/

inductive Event where
  | attempt (now : Int) (right : Bool)
  | enable
  | resetPassword

structure State where
  user : User
  /-- The wrong passwords checked in a row, since the last right one or lift. -/
  row : Nat
  clock : Int
  deriving DecidableEq

namespace State

variable (s : State)

def attempt (now : Int) (right : Bool) : State where
  user := (s.user.loginLocal now right).1
  row := if s.user.Checked now then if right then 0 else s.row + 1 else s.row
  clock := now

/-- The action lifts a lock. -/
def lifts : Event → Bool
  | .attempt _ _ => false
  | .enable => true
  | .resetPassword => !s.user.isFactoryAdmin

def step : Event → Option State
  | .attempt now right => if s.clock ≤ now then some (s.attempt now right) else none
  | .enable => some { s with user := s.user.enable, row := 0 }
  | .resetPassword =>
    some { s with user := s.user.resetPassword, row := if s.user.isFactoryAdmin then s.row else 0 }

/-- The next wrong password is the fifth in a row, or for the factory admin a fifth one. -/
def AtFifth : Prop :=
  if s.user.isFactoryAdmin then (s.row + 1) % MAX_FAILED_PASSWORDS = 0
  else s.row + 1 = MAX_FAILED_PASSWORDS

end State

/-- The attempts at a new account, at non-decreasing times, and what administrators do. -/
def lockout : System State Event where
  Init s := s.user = User.new s.user.isFactoryAdmin ∧ s.row = 0
  step := State.step

/-- The states of a run. -/
abbrev Reached (s : State) : Prop := lockout.Reachable System.always s

/-- No password is checked for `LOCK_MINUTES` after a fifth wrong one in a row that is `given`,
unless the lock is lifted. -/
def NoneChecked (given : State → Prop) : Prop :=
  ∀ (s : State) (now : Int), Reached s → given s → s.AtFifth → s.user.Checked now →
    s.clock ≤ now → ∀ (between : List Event) (t : State) (later : Int),
      lockout.exec (fun s e => !s.lifts e) (s.attempt now false) between = some t →
        t.clock ≤ later → later < now + LOCK → ¬ t.user.Checked later

/-- What the lockout holds. -/
structure LocksOut : Prop where
  noneChecked : NoneChecked fun s => s.user.isActive = true
  /-- A right password starts again, as at a new account. -/
  starts_again : ∀ s now, Reached s → s.user.Checked now →
    (s.user.loginLocal now true).1 = { User.new s.user.isFactoryAdmin with
      isActive := s.user.isActive }
  /-- Nine wrong passwords in a row at most leave an account active. -/
  row_lt : ∀ s, Reached s → s.user.isFactoryAdmin = false → s.user.isActive = true →
    s.row < DISABLE_AFTER
  disabled_iff : ∀ s now, Reached s → s.user.isFactoryAdmin = false → s.user.isActive = true →
    s.user.Checked now →
      ((s.user.loginLocal now false).1.isActive = false ↔ s.row + 1 = DISABLE_AFTER)
  active_of_passed : ∀ s now right, Reached s → (s.user.loginLocal now right).2 = .passed →
    s.user.isActive = true
  factory_active : ∀ s, Reached s → s.user.isFactoryAdmin = true → s.user.isActive = true
  factory_locked : ∀ s now, Reached s → s.user.isFactoryAdmin = true → s.user.Checked now →
    (s.user.loginLocal now false).1.lockedUntil =
      if (s.row + 1) % MAX_FAILED_PASSWORDS = 0 then some (now + LOCK) else none

/-! ## One attempt -/

namespace User

variable {u : User} {now expiry : Int} {right : Bool}

theorem lockMinutesLeft_of_checked (h : u.Checked now) :
    u.lockMinutesLeft now = (u.lifted, none) := by
  unfold Checked at h
  obtain ⟨isFactoryAdmin, isApproved, isActive, failedSignIns, lockedUntil⟩ := u
  cases lockedUntil with
  | none => rfl
  | some expiry =>
    simp only [lockMinutesLeft] at h ⊢
    split
    · rfl
    · next hleft => simp only [hleft, if_false, reduceCtorEq] at h

theorem not_checked_of_lt (h : u.lockedUntil = some expiry) (hlt : now < expiry) :
    ¬ u.Checked now := by
  have hleft : ¬ expiry - now ≤ 0 := by omega
  simp only [Checked, lockMinutesLeft, h, hleft, if_false, reduceCtorEq, not_false_eq_true]

theorem lockMinutesLeft_of_not_checked (h : ¬ u.Checked now) :
    ∃ minutes, u.lockMinutesLeft now = (u, some minutes) := by
  unfold Checked at h
  cases hlocked : u.lockedUntil with
  | none => exact absurd (by simp only [lockMinutesLeft, hlocked]) h
  | some expiry =>
    by_cases hleft : expiry - now ≤ 0
    · exact absurd (by simp only [lockMinutesLeft, hlocked, hleft, if_true]) h
    · refine ⟨-(-(expiry - now) / 60000000), ?_⟩
      simp only [lockMinutesLeft, hlocked, hleft, if_false]

/-- While a lock holds, nothing is checked and nothing changes. -/
theorem loginLocal_of_not_checked (right : Bool) (h : ¬ u.Checked now) :
    ∃ minutes, u.loginLocal now right = (u, .locked minutes) := by
  obtain ⟨minutes, hlocked⟩ := lockMinutesLeft_of_not_checked h
  exact ⟨minutes, by rw [loginLocal, hlocked]⟩

theorem passwordOk_lifted : u.lifted.passwordOk = u.clearLockout := by
  unfold passwordOk
  split
  · rfl
  · next hzero =>
    have hcount : u.failedSignIns = 0 := not_not.mp hzero
    rw [clearLockout, lifted, ← hcount]

theorem loginLocal_right (h : u.Checked now) :
    u.loginLocal now true = (u.clearLockout, if !u.isApproved then .pendingApproval
      else if !u.isActive then .accountDisabled else .passed) := by
  rw [loginLocal, lockMinutesLeft_of_checked h]
  simp only [Bool.not_true, Bool.false_eq_true, if_false, passwordOk_lifted]
  rw [apply_ite (Prod.mk u.clearLockout), apply_ite (Prod.mk u.clearLockout)]
  rfl

theorem loginLocal_wrong (h : u.Checked now) :
    u.loginLocal now false = ((u.lifted.passwordFailed now).1,
      .invalidCredentials (u.lifted.passwordFailed now).2) := by
  rw [loginLocal, lockMinutesLeft_of_checked h]
  rfl

theorem active_of_passed (h : (u.loginLocal now right).2 = .passed) : u.isActive = true := by
  by_cases hchecked : u.Checked now
  · cases right with
    | true =>
      rw [loginLocal_right hchecked] at h
      cases hactive : u.isActive with
      | true => rfl
      | false => cases happroved : u.isApproved <;> simp [hactive, happroved] at h
    | false =>
      rw [loginLocal_wrong hchecked] at h
      cases h
  · obtain ⟨minutes, hlocked⟩ := loginLocal_of_not_checked right hchecked
    rw [hlocked] at h
    cases h

/-! What a wrong password does to the account. -/

theorem wrong_inactive (h : u.Checked now) (hactive : u.isActive = false) :
    (u.loginLocal now false).1 = u.lifted := by
  rw [loginLocal_wrong h]
  simp only [passwordFailed, lifted, hactive, Bool.and_false, Bool.not_false, if_true]

section Active

variable (h : u.Checked now) (happroved : u.isApproved = true) (hactive : u.isActive = true)
include h happroved hactive

theorem wrong_factory (hfactory : u.isFactoryAdmin = true) :
    (u.loginLocal now false).1 =
      if u.failedSignIns + 1 < MAX_FAILED_PASSWORDS then
        { u.lifted with failedSignIns := u.failedSignIns + 1 }
      else { u with failedSignIns := 0, lockedUntil := some (now + LOCK) } := by
  rw [loginLocal_wrong h]
  simp only [passwordFailed, lifted, happroved, hactive, hfactory, Bool.and_self, Bool.not_true,
    Bool.false_eq_true, if_false, if_true]
  split <;> rfl

theorem wrong_other (hfactory : u.isFactoryAdmin = false) :
    (u.loginLocal now false).1 = { u with
      failedSignIns := u.failedSignIns + 1
      isActive := decide (u.failedSignIns + 1 < DISABLE_AFTER)
      lockedUntil := if u.failedSignIns + 1 = MAX_FAILED_PASSWORDS then some (now + LOCK)
        else none } := by
  rw [loginLocal_wrong h]
  simp only [passwordFailed, lifted, happroved, hactive, hfactory, Bool.and_self, Bool.not_true,
    Bool.false_eq_true, if_false]
  split
  · next hcount =>
    have hne : u.failedSignIns + 1 ≠ MAX_FAILED_PASSWORDS := fun hmax => by
      rw [hmax] at hcount
      exact absurd hcount (by decide)
    simp only [not_lt.mpr hcount, decide_false, hne, if_false]
  · next hcount =>
    simp only [not_le.mp hcount, decide_true, ite_not]
    split <;> rfl

end Active

end User

/-! ## The invariant -/

/-- While the account is active, its count is that of the wrong passwords in a row, from fifth
to fifth for the factory admin. -/
structure Counted (s : State) : Prop where
  approved : s.user.isApproved = true
  count : s.user.isActive = true → s.user.failedSignIns =
    if s.user.isFactoryAdmin then s.row % MAX_FAILED_PASSWORDS else s.row
  row_lt : s.user.isFactoryAdmin = false → s.user.isActive = true → s.row < DISABLE_AFTER
  factory_active : s.user.isFactoryAdmin = true → s.user.isActive = true

namespace Counted

variable {s t : State} {now : Int} {right : Bool}

/-- Where the count starts again. -/
theorem of_clear {user : User} {clock : Int} (happroved : user.isApproved = true)
    (hcount : user.failedSignIns = 0)
    (hfactory : user.isFactoryAdmin = true → user.isActive = true) :
    Counted ⟨user, 0, clock⟩ where
  approved := happroved
  count _ := by simp only [hcount, Nat.zero_mod, ite_self]
  row_lt _ _ := Nat.le_of_ble_eq_true rfl
  factory_active := hfactory

theorem of_init (h : lockout.Init s) : Counted s := by
  obtain ⟨huser, hrow⟩ := h
  obtain ⟨user, row, clock⟩ := s
  simp only at huser hrow
  rw [huser, hrow]
  exact of_clear rfl rfl fun _ => rfl

theorem attempt_wrong (hchecked : s.user.Checked now) :
    s.attempt now false = ⟨(s.user.loginLocal now false).1, s.row + 1, now⟩ := by
  simp only [State.attempt, hchecked, if_true, Bool.false_eq_true, if_false]

theorem wrong (h : Counted s) (hchecked : s.user.Checked now) : Counted (s.attempt now false) := by
  rw [attempt_wrong hchecked]
  cases hactive : s.user.isActive with
  | false =>
    have hother : s.user.isFactoryAdmin ≠ true := fun hfactory => by
      rw [h.factory_active hfactory] at hactive
      cases hactive
    rw [User.wrong_inactive hchecked hactive]
    exact ⟨h.approved, fun hon => absurd (hactive.symm.trans hon) Bool.false_ne_true,
      fun _ hon => absurd (hactive.symm.trans hon) Bool.false_ne_true, fun hf => absurd hf hother⟩
  | true =>
    have hcount := h.count hactive
    cases hfactory : s.user.isFactoryAdmin with
    | true =>
      rw [hfactory, if_pos rfl] at hcount
      rw [User.wrong_factory hchecked h.approved hactive hfactory, hcount]
      split
      · next hlt =>
        refine ⟨h.approved, fun _ => ?_, fun hf => ?_, fun _ => hactive⟩
        · simp only [User.lifted, hfactory, if_true]
          simp only [MAX_FAILED_PASSWORDS] at hlt ⊢
          omega
        · exact absurd (hf.symm.trans hfactory) Bool.false_ne_true
      · next hlt =>
        refine ⟨h.approved, fun _ => ?_, fun hf => ?_, fun _ => hactive⟩
        · simp only [hfactory, if_true]
          simp only [MAX_FAILED_PASSWORDS] at hlt ⊢
          omega
        · exact absurd (hf.symm.trans hfactory) Bool.false_ne_true
    | false =>
      rw [hfactory, if_neg Bool.false_ne_true] at hcount
      rw [User.wrong_other hchecked h.approved hactive hfactory, hcount]
      refine ⟨h.approved, fun _ => ?_, fun _ hon => ?_, fun hf => ?_⟩
      · simp only [hfactory, Bool.false_eq_true, if_false]
      · exact of_decide_eq_true hon
      · exact absurd (hfactory.symm.trans hf) Bool.false_ne_true

theorem attempt (h : Counted s) : Counted (s.attempt now right) := by
  by_cases hchecked : s.user.Checked now
  · cases right with
    | false => exact h.wrong hchecked
    | true =>
      have hrow : s.attempt now true = ⟨s.user.clearLockout, 0, now⟩ := by
        simp only [State.attempt, hchecked, if_true, User.loginLocal_right hchecked]
      rw [hrow]
      exact of_clear h.approved rfl h.factory_active
  · obtain ⟨minutes, hlocked⟩ := User.loginLocal_of_not_checked right hchecked
    simp only [State.attempt, hchecked, if_false, hlocked]
    exact ⟨h.approved, h.count, h.row_lt, h.factory_active⟩

theorem step {e : Event} (h : Counted s) (hstep : s.step e = some t) : Counted t := by
  cases e with
  | attempt now right =>
    rw [State.step] at hstep
    split at hstep
    · exact Option.some.inj hstep ▸ h.attempt
    · cases hstep
  | enable =>
    rw [← Option.some.inj hstep]
    exact of_clear h.approved rfl fun _ => rfl
  | resetPassword =>
    rw [← Option.some.inj hstep, User.resetPassword]
    split
    · exact ⟨h.approved, h.count, h.row_lt, h.factory_active⟩
    · exact of_clear h.approved rfl h.factory_active

theorem of_reached (h : Reached s) : Counted s :=
  h.invariant (fun _ => of_init) fun _ _ _ _ _ hs => hs.step

end Counted

/-! ## The lock -/

section Lock

variable {s t : State} {now : Int}

/-- A fifth wrong password of an active account locks it. -/
theorem lockedUntil_of_fifth (h : Counted s) (hactive : s.user.isActive = true)
    (hfifth : s.AtFifth) (hchecked : s.user.Checked now) :
    (s.user.loginLocal now false).1.lockedUntil = some (now + LOCK) := by
  have hcount := h.count hactive
  unfold State.AtFifth at hfifth
  cases hfactory : s.user.isFactoryAdmin with
  | true =>
    rw [hfactory, if_pos rfl] at hcount hfifth
    have hlt : ¬ s.user.failedSignIns + 1 < MAX_FAILED_PASSWORDS := by
      simp only [MAX_FAILED_PASSWORDS] at hcount hfifth ⊢
      omega
    rw [User.wrong_factory hchecked h.approved hactive hfactory, if_neg hlt]
  | false =>
    rw [hfactory, if_neg Bool.false_ne_true] at hcount hfifth
    rw [User.wrong_other hchecked h.approved hactive hfactory, hcount]
    simp only [hfifth, if_true]

theorem step_clock_le {e : Event} (h : s.step e = some t) : s.clock ≤ t.clock := by
  cases e with
  | attempt now right =>
    rw [State.step] at h
    split at h
    · next hle => exact Option.some.inj h ▸ hle
    · cases h
  | enable => exact Option.some.inj h ▸ le_refl _
  | resetPassword => exact Option.some.inj h ▸ le_refl _

theorem exec_clock_le {allowed : State → Event → Bool} {events : List Event}
    (h : lockout.exec allowed s events = some t) : s.clock ≤ t.clock :=
  System.exec_invariant (I := fun u => s.clock ≤ u.clock)
    (fun _ _ _ _ hle hstep => hle.trans (step_clock_le hstep)) (le_refl _) h

/-- While a lock holds, a step that does not lift it leaves the account as it is. -/
theorem user_of_locked {expiry : Int} {e : Event} (hlocked : s.user.lockedUntil = some expiry)
    (hlifts : s.lifts e = false) (hstep : s.step e = some t) (hlt : t.clock < expiry) :
    t.user = s.user := by
  cases e with
  | attempt now right =>
    rw [State.step] at hstep
    split at hstep
    · rw [← Option.some.inj hstep] at hlt ⊢
      obtain ⟨minutes, hlogin⟩ := User.loginLocal_of_not_checked right
        (User.not_checked_of_lt hlocked hlt)
      exact congrArg Prod.fst hlogin
    · cases hstep
  | enable => cases hlifts
  | resetPassword =>
    have hfactory : s.user.isFactoryAdmin = true := by
      rw [State.lifts] at hlifts
      exact (Bool.not_eq_false' ..).mp hlifts
    rw [← Option.some.inj hstep]
    exact if_pos hfactory

/-- What is tried while a lock holds leaves it, if nothing lifts it. -/
theorem locked_through {expiry : Int} {between : List Event}
    (hlocked : s.user.lockedUntil = some expiry)
    (hrun : lockout.exec (fun s e => !s.lifts e) s between = some t) (hlt : t.clock < expiry) :
    t.user.lockedUntil = some expiry := by
  induction between generalizing s with
  | nil =>
    rw [System.exec, Option.some.injEq] at hrun
    exact hrun ▸ hlocked
  | cons e between ih =>
    obtain ⟨hlifts, u, hstep, hrest⟩ := System.exec_cons.mp hrun
    have hu : u.user = s.user := user_of_locked hlocked ((Bool.not_eq_true' _).mp hlifts) hstep
      ((exec_clock_le hrest).trans_lt hlt)
    exact ih (hu ▸ hlocked) hrest

theorem noneChecked : NoneChecked fun s => s.user.isActive = true := by
  intro s now hreached hactive hfifth hchecked _ between t later hrun hclock hlater
  have hlocked := lockedUntil_of_fifth (Counted.of_reached hreached) hactive hfifth hchecked
  have hthrough := locked_through (s := s.attempt now false) hlocked hrun (hclock.trans_lt hlater)
  exact User.not_checked_of_lt hthrough hlater

end Lock

theorem locksOut : LocksOut where
  noneChecked := noneChecked
  starts_again s now hreached hchecked := by
    have happroved := (Counted.of_reached hreached).approved
    rw [User.loginLocal_right hchecked, User.clearLockout, User.new, happroved]
  row_lt s hreached := (Counted.of_reached hreached).row_lt
  disabled_iff s now hreached hother hactive hchecked := by
    have h := Counted.of_reached hreached
    have hcount := h.count hactive
    have hlt := h.row_lt hother hactive
    rw [hother, if_neg Bool.false_ne_true] at hcount
    rw [User.wrong_other hchecked h.approved hactive hother, hcount, decide_eq_false_iff_not]
    omega
  active_of_passed s now right _ := User.active_of_passed
  factory_active s hreached := (Counted.of_reached hreached).factory_active
  factory_locked s now hreached hfactory hchecked := by
    have h := Counted.of_reached hreached
    have hactive := h.factory_active hfactory
    have hcount := h.count hactive
    rw [hfactory, if_pos rfl] at hcount
    rw [User.wrong_factory hchecked h.approved hactive hfactory, hcount]
    by_cases hfifth : (s.row + 1) % MAX_FAILED_PASSWORDS = 0
    · have hlt : ¬ s.row % MAX_FAILED_PASSWORDS + 1 < MAX_FAILED_PASSWORDS := by
        simp only [MAX_FAILED_PASSWORDS] at hfifth ⊢
        omega
      rw [if_pos hfifth, if_neg hlt]
    · have hlt : s.row % MAX_FAILED_PASSWORDS + 1 < MAX_FAILED_PASSWORDS := by
        simp only [MAX_FAILED_PASSWORDS] at hfifth ⊢
        omega
      rw [if_neg hfifth, if_pos hlt, User.lifted]

/-! ## A disabled account -/

/-- Ten wrong passwords in a row, five of them once the lock has run out. -/
def tenWrong : List Event :=
  List.replicate 5 (.attempt 0 false) ++ List.replicate 5 (.attempt LOCK false)

/-- The account is disabled, its password is reset, and four wrong ones are tried. -/
def resetDisabled : List Event :=
  tenWrong ++ .resetPassword :: List.replicate 4 (.attempt LOCK false)

/-- No lock follows the fifth wrong password in a row on a disabled account. -/
theorem not_noneChecked : ¬ NoneChecked fun _ => True := by
  intro h
  have hreached : Reached ⟨⟨false, true, false, 0, none⟩, 4, LOCK⟩ :=
    ⟨⟨User.new false, 0, 0⟩, resetDisabled, ⟨rfl, rfl⟩, by decide⟩
  have hfifth : 4 + 1 = MAX_FAILED_PASSWORDS := rfl
  exact h _ LOCK hreached trivial hfifth (by decide) (le_refl _) [] _ LOCK rfl (by decide)
    (by decide) (by decide)

/-! ## The account of the sign-in page -/

/-- The row, its times in microseconds. -/
def seen (u : Account) : User :=
  ⟨u.isFactoryAdmin, u.isApproved, u.isActive, u.failedSignIns,
    u.lockedUntil.map fun expiry : Nat => (expiry : Int) * 1000000⟩

variable {N : Env} {s : SignIn.State} {m : Moment} {u : Account} {user : Accounts.UserId}
  {password : PyText.Str}

theorem checked_seen : (seen u).Checked (m.now * 1000000) ↔ u.isLocked m.now = false := by
  cases hlocked : u.lockedUntil with
  | none => simp [User.Checked, User.lockMinutesLeft, seen, Account.isLocked, hlocked]
  | some expiry =>
    have hseen : (seen u).lockedUntil = some ((expiry : Int) * 1000000) := by
      rw [seen, hlocked, Option.map_some]
    rw [Account.isLocked, hlocked, Option.any_some, decide_eq_false_iff_not]
    constructor
    · intro h hlt
      exact User.not_checked_of_lt hseen (by omega) h
    · intro h
      by_contra hnot
      obtain ⟨minutes, hminutes⟩ := User.lockMinutesLeft_of_not_checked hnot
      have hleft : (expiry : Int) * 1000000 - m.now * 1000000 ≤ 0 := by omega
      simp only [User.lockMinutesLeft, hseen, hleft, if_true, Prod.mk.injEq, reduceCtorEq,
        and_false] at hminutes

theorem seen_passwordFailed (hlocal : u.authType = .LOCAL) :
    seen (u.passwordFailed m.now) = ((seen u).passwordFailed (m.now * 1000000)).1 := by
  have hlock : ((m.now + LOCK_MINUTES * 60 : Nat) : Int) * 1000000 = m.now * 1000000 + LOCK := by
    simp only [LOCK, LOCK_MINUTES]
    omega
  have hseen : (seen u).isFactoryAdmin = u.isFactoryAdmin ∧ (seen u).isApproved = u.isApproved ∧
      (seen u).isActive = u.isActive ∧ (seen u).failedSignIns = u.failedSignIns :=
    ⟨rfl, rfl, rfl, rfl⟩
  unfold Account.passwordFailed User.passwordFailed
  simp only [hlocal, ne_eq, not_true_eq_false, decide_false, Bool.false_or, hseen]
  repeat' split
  all_goals simp only [seen, Account.isFactoryAdmin, Option.map_some, hlock, hlocal]

theorem accounts_loginFail {username : PyText.Str} {reason : Reason} {message : Option PyText.Str} :
    (s.loginFail N m username reason message).1.accounts = s.accounts := by
  rw [State.loginFail]
  split <;> rfl

theorem accounts_cleared {name : PyText.Str} : (s.cleared N m name).accounts = s.accounts := by
  rw [State.cleared]
  split <;> rfl

theorem get?_setAccount {u' : Account} (hget : s.accounts.get? user = some u) :
    (s.setAccount user u').accounts.get? user = some u' :=
  Rows.get?_put_self hget

/-- What `login_local` leaves of the account on the page is what it leaves here. -/
theorem seen_loginLocal (hget : s.accounts.get? user = some u) (hlocal : u.authType = .LOCAL) :
    ((s.loginLocal N m user u password).1.accounts.get? user).map seen =
      some ((seen u).loginLocal (m.now * 1000000)
        (N.checkPasswordHash u.passwordHash password)).1 := by
  rw [State.loginLocal]
  cases hlocked : u.isLocked m.now with
  | true =>
    have hnot : ¬ (seen u).Checked (m.now * 1000000) := fun h =>
      Bool.false_ne_true ((checked_seen.mp h).symm.trans hlocked)
    obtain ⟨minutes, hlogin⟩ := User.loginLocal_of_not_checked _ hnot
    rw [if_pos rfl, accounts_loginFail, hget, hlogin, Option.map_some]
  | false =>
    have hchecked := checked_seen.mpr hlocked
    rw [if_neg Bool.false_ne_true]
    cases hright : N.checkPasswordHash u.passwordHash password with
    | false =>
      simp only [Bool.not_false, if_true, accounts_loginFail, get?_setAccount hget,
        User.loginLocal_wrong hchecked, Option.map_some]
      exact congrArg some (seen_passwordFailed (u := u.lifted) hlocal)
    | true =>
      have hstored : ((s.setAccount user { u.lifted with failedSignIns := 0 }).cleared N m
          u.username).accounts.get? user = some { u.lifted with failedSignIns := 0 } := by
        rw [accounts_cleared, get?_setAccount hget]
      simp only [User.loginLocal_right hchecked, Bool.not_true, Bool.false_eq_true, if_false]
      repeat' split
      all_goals simp only [accounts_loginFail, hstored, Option.map_some]; rfl

end Local
end SignIn
end NetRollout
