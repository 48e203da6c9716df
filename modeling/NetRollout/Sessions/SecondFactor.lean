import NetRollout.Accounts.Tables
import NetRollout.Library.ListUpdate
import NetRollout.Library.Transition
import NetRollout.Sessions.Store

/-!
# The second factor

`login`, `otp_enroll` and `otp_verify` of `src/webapp/blueprints/auth.py`, as requests
that load their session, hold a copy of it and store it whole.  What a half-done sign-in
keeps in the session (`_PENDING_2FA`) is all that is modelled of it.  A state records the
right passwords, the secrets generated, the codes checked, the secrets stored and the
sign-ins, the newest first.

`start_otp_flow` leaves `pending_totp_secret` where it finds it, the check of an enrolment
and its store are two database sessions, and a copy may miss what another request of its
session has counted: `not_kept` has a run of each.  In the runs without such steps no sign-in
goes around the second factor and no code is tried too often (`kept_of_undisturbed`).
-/

namespace NetRollout
namespace SecondFactor

open Accounts (UserId AuthType)
open Sessions (Sid Store)

variable {Secret Code : Type}

structure Account (Secret : Type) where
  authType : AuthType
  isApproved : Bool
  isActive : Bool
  /-- Its name is `FACTORY_USERNAME`. -/
  factory : Bool
  otpSecret : Option Secret
  deriving DecidableEq

/-- `needs_second_factor`. -/
def Account.needsSecondFactor (a : Account Secret) : Bool :=
  a.authType = .LOCAL && (!a.factory || a.otpSecret.isSome)

/-- `_PENDING_2FA`. -/
structure Session (Secret : Type) where
  preAuthUserId : Option UserId := none
  pendingTotpSecret : Option Secret := none
  otpWrongCodes : Nat := 0

def MAX_WRONG_CODES : Nat := 5

/-- What is recorded, in a session of this id. -/
inductive Event (Secret Code : Type) where
  | passwordOk (sid : Sid) (user : UserId)
  | generated (sid : Sid) (user : UserId) (secret : Secret)
  /-- A code of `secret`, when the account's own was `stored`. -/
  | codeRight (sid : Sid) (user : UserId) (stored : Option Secret) (secret : Secret) (code : Code)
  | codeWrong (sid : Sid)
  /-- An enrolment's secret, and what it was stored over. -/
  | enrolled (user : UserId) (old : Option Secret) (secret : Secret)
  /-- The account as it was read. -/
  | signedIn (sid : Sid) (user : UserId) (account : Account Secret)
  deriving DecidableEq

namespace Event

/-- A wrong code in a session. -/
def wrongIn (sid : Sid) : Event Secret Code → Bool
  | .codeWrong i => i = sid
  | _ => false

/-- A right password in a session. -/
def rightIn (sid : Sid) : Event Secret Code → Bool
  | .passwordOk i _ => i = sid
  | _ => false

end Event

/-- The wrong codes in a session since its last right password. -/
def wrongSince (sid : Sid) (history : List (Event Secret Code)) : Nat :=
  (history.takeWhile fun e => !e.rightIn sid).countP (Event.wrongIn sid)

/-- A request; without a code it is a `GET`. -/
inductive Route (Code : Type) where
  /-- The account found for the name, and whether the password is right. -/
  | login (user : Option UserId) (right : Bool)
  | otpEnroll (code : Option Code)
  | otpVerify (code : Option Code)
  /-- Any of them, in a session past its lifetime. -/
  | expired

inductive Stage (Secret Code : Type) where
  | opened (route : Route Code)
  /-- `new_ldap`. -/
  | creating
  /-- The code was right, its secret is to be stored. -/
  | enrolling (user : UserId) (account : Account Secret) (secret : Secret)
  /-- `_sign_in`. -/
  | signingIn (user : UserId) (account : Account Secret)
  /-- `save_session`. -/
  | saving
  | ended

structure Request (Secret Code : Type) where
  sid : Sid
  session : Session Secret
  changed : Bool
  stage : Stage Secret Code

structure State (Secret Code : Type) where
  accounts : Rows (Account Secret)
  sessions : Store (Session Secret) := {}
  requests : List (Request Secret Code) := []
  history : List (Event Secret Code) := []

/-- What a handler does to its copy, what comes next and what is recorded. -/
structure Reply (Secret Code : Type) where
  session : Session Secret
  changed : Bool := false
  stage : Stage Secret Code := .saving
  events : List (Event Secret Code) := []

namespace State

variable (s : State Secret Code)

/-- `_pending_user`. -/
def pendingUser (c : Session Secret) : Option (UserId × Account Secret) :=
  c.preAuthUserId.bind fun user => (s.accounts.get? user).map fun account => (user, account)

end State

namespace Reply

variable (verify : Secret → Code → Bool) (s : State Secret Code) (sid : Sid) (c : Session Secret)

def loginFail : Reply Secret Code where
  session := { c with preAuthUserId := none }
  changed := true

def startOtpFlow (user : UserId) : Reply Secret Code where
  session := { c with preAuthUserId := some user, otpWrongCodes := 0 }
  changed := true
  events := [.passwordOk sid user]

/-- `login`; a name without an account is right if the directory knows it. -/
def login (user : Option UserId) (right : Bool) : Reply Secret Code :=
  match user.bind fun user => (s.accounts.get? user).map fun account => (user, account) with
  | none => if right then { session := c, stage := .creating } else loginFail c
  | some (user, account) =>
    if !right || !account.isApproved || !account.isActive then loginFail c
    else if account.needsSecondFactor then startOtpFlow sid c user
    else { session := c, stage := .signingIn user account }

def wrongCode : Reply Secret Code where
  session :=
    if MAX_WRONG_CODES ≤ c.otpWrongCodes + 1 then {}
    else { c with otpWrongCodes := c.otpWrongCodes + 1 }
  changed := true
  events := [.codeWrong sid]

def otpEnroll (fresh : Secret) (code : Option Code) : Reply Secret Code :=
  match s.pendingUser c with
  | none => { session := c }
  | some (user, account) =>
    if account.otpSecret.isSome then
      { session := { c with pendingTotpSecret := none }, changed := c.pendingTotpSecret.isSome }
    else
      match code, c.pendingTotpSecret with
      | none, some _ => { session := c, changed := true }
      | none, none =>
        { session := { c with pendingTotpSecret := some fresh }
          changed := true
          events := [.generated sid user fresh] }
      | some _, none => { session := c }
      | some code, some secret =>
        if verify secret code then
          { session := c
            stage := .enrolling user account secret
            events := [.codeRight sid user account.otpSecret secret code] }
        else wrongCode sid c

def otpVerify (code : Option Code) : Reply Secret Code :=
  match code with
  | none => { session := c }
  | some code =>
    match s.pendingUser c with
    | none => { session := c }
    | some (user, account) =>
      match account.otpSecret with
      | none => { session := c }
      | some secret =>
        if verify secret code then
          { session := c
            stage := .signingIn user account
            events := [.codeRight sid user account.otpSecret secret code] }
        else wrongCode sid c

def handle (fresh : Secret) : Route Code → Reply Secret Code
  | .login user right => login s sid c user right
  | .otpEnroll code => otpEnroll verify s sid c fresh code
  | .otpVerify code => otpVerify verify s sid c code
  | .expired => { session := {}, changed := true }

end Reply

inductive Action (Secret Code : Type) where
  /-- A browser asks, with a cookie or without; `touched`: another key of the session
  changes on the way, or the store writes the copy back unchanged. -/
  | start (cookie : Option Sid) (touched : Bool) (route : Route Code)
  /-- A request goes on; `fresh` is what `random_base32` would give. -/
  | next (i : Nat) (fresh : Secret)
  /-- The administrator's 2FA reset. -/
  | reset (user : UserId)
  /-- Approved, enabled or disabled, or locked out. -/
  | edit (user : UserId) (isApproved isActive : Bool)
  | delete (user : UserId)
  /-- A stored session ends. -/
  | drop (sid : Sid)

namespace State

variable (s : State Secret Code)

def update (user : UserId) (f : Account Secret → Option (Account Secret)) : State Secret Code :=
  { s with accounts := s.accounts.put user ((s.accounts.get? user).bind f) }

def put (i : Nat) (r : Request Secret Code) : State Secret Code :=
  { s with requests := s.requests.set i r }

def record (events : List (Event Secret Code)) : State Secret Code :=
  { s with history := events ++ s.history }

/-- The next step of a request. -/
def proceed (verify : Secret → Code → Bool) (i : Nat) (fresh : Secret) (r : Request Secret Code) :
    State Secret Code :=
  match r.stage with
  | .opened route =>
    let reply := Reply.handle verify s r.sid r.session fresh route
    (s.record reply.events).put i
      ⟨r.sid, reply.session, r.changed || reply.changed, reply.stage⟩
  | .creating =>
    let account := ⟨.LDAP, true, true, false, none⟩
    { s with accounts := s.accounts.add (some account) }.put i
      { r with stage := .signingIn s.accounts.size account }
  | .enrolling user account secret =>
    match s.accounts.get? user with
    | none => s.put i { r with stage := .saving }
    | some stored =>
      ((s.update user fun a => some { a with otpSecret := some secret }).record
        [.enrolled user stored.otpSecret secret]).put i { r with stage := .signingIn user account }
  | .signingIn user account =>
    ({ s with sessions := (Store.regenerate s.sessions r.sid).2 }.record
      [.signedIn r.sid user account]).put i ⟨(Store.regenerate s.sessions r.sid).1, {}, true, .saving⟩
  | .saving =>
    { s with sessions := if r.changed then Store.save s.sessions r.sid r.session else s.sessions }.put i
      { r with stage := .ended }
  | .ended => s

def step (verify : Secret → Code → Bool) : Action Secret Code → Option (State Secret Code)
  | .start cookie touched route =>
    let opened := Store.openSession s.sessions cookie
    some { s with
      sessions := opened.2.2
      requests := s.requests ++ [⟨opened.1, opened.2.1.getD {}, touched, .opened route⟩] }
  | .next i fresh => s.requests[i]?.map fun r => s.proceed verify i fresh r
  | .reset user => some (s.update user fun a => some { a with otpSecret := none })
  | .edit user isApproved isActive =>
    some (s.update user fun a => some { a with isApproved := isApproved, isActive := isActive })
  | .delete user => some (s.update user fun _ => none)
  | .drop sid => some { s with sessions := Store.delete s.sessions sid }

end State

/-- Signing in, from any accounts and no sessions. -/
def signIn (verify : Secret → Code → Bool) : System (State Secret Code) (Action Secret Code) where
  Init s := s.sessions.rows = [] ∧ s.requests = [] ∧ s.history = []
  step s := s.step verify

/-- **The second factor is kept**: a sign-in of an account that needs one follows, in its
session, a right password and then a code of the stored secret, or of one shown after that
password where none was stored; no enrolment replaces a secret; and between two right
passwords at most `MAX_WRONG_CODES` wrong codes are checked. -/
structure Kept (verify : Secret → Code → Bool) (history : List (Event Secret Code)) : Prop where
  earned : ∀ sid user account older, .signedIn sid user account :: older <:+ history →
    account.needsSecondFactor = true →
    ∃ stored secret code before, .codeRight sid user stored secret code :: before <:+ older ∧
      verify secret code = true ∧
      (stored = some secret ∧ .passwordOk sid user ∈ before ∨
        stored = none ∧ ∃ past, .generated sid user secret :: past <:+ before ∧
          .passwordOk sid user ∈ past)
  kept : ∀ user old secret, .enrolled user old secret ∈ history → old = none ∨ old = some secret
  few : ∀ sid window, window <:+: history → (∀ user, .passwordOk sid user ∉ window) →
    window.countP (Event.wrongIn sid) ≤ MAX_WRONG_CODES

/-! ## The steps that go around it -/

namespace State

variable [DecidableEq Secret] [DecidableEq Code] (verify : Secret → Code → Bool)
  (s : State Secret Code)

/-- The secret that a code is checked against, where it is. -/
def checked (c : Session Secret) : Route Code → Option (Secret × Code)
  | .otpEnroll (some code) =>
    (s.pendingUser c).bind fun u =>
      if u.2.otpSecret.isSome then none
      else c.pendingTotpSecret.map fun secret => (secret, code)
  | .otpVerify (some code) =>
    (s.pendingUser c).bind fun u => u.2.otpSecret.map fun secret => (secret, code)
  | _ => none

/-- The password of an account that needs a second factor is right. -/
def starts (user : UserId) : Bool :=
  (s.accounts.get? user).any fun a => a.isApproved && a.isActive && a.needsSecondFactor

/-- No password starts the second factor in a session that keeps a secret generated for
another account, and no wrong code is checked against a copy that has not counted all of
its session since the last right password. -/
def spares (sid : Sid) (c : Session Secret) : Route Code → Bool
  | .login (some user) true =>
    !s.starts user || c.pendingTotpSecret.all fun secret => .generated sid user secret ∈ s.history
  | route =>
    (s.checked c route).all fun k => verify k.1 k.2 || wrongSince sid s.history ≤ c.otpWrongCodes

end State

/-- So of every handler; and no enrolment stores its secret while another one of that
account is about to store a different one. -/
def undisturbed [DecidableEq Secret] [DecidableEq Code] (verify : Secret → Code → Bool)
    (s : State Secret Code) : Action Secret Code → Bool
  | .next i _ =>
    match s.requests[i]? with
    | none => true
    | some r =>
      match r.stage with
      | .opened route => s.spares verify r.sid r.session route
      | .enrolling user _ secret =>
        (s.requests.eraseIdx i).all fun r' =>
          match r'.stage with
          | .enrolling user' _ secret' => user' ≠ user || secret' = secret
          | _ => true
      | _ => true
  | _ => true

/-! ## What is recorded -/

section History

variable (verify : Secret → Code → Bool)

/-- What an event says of those before it. -/
def Event.Follows (older : List (Event Secret Code)) : Event Secret Code → Prop
  | passwordOk .. => True
  | generated sid user _ => .passwordOk sid user ∈ older
  | codeRight sid user stored secret code => verify secret code = true ∧
      (stored = some secret ∧ .passwordOk sid user ∈ older ∨
        stored = none ∧ .generated sid user secret ∈ older)
  | codeWrong sid => wrongSince sid older < MAX_WRONG_CODES
  | enrolled _ old secret => old = none ∨ old = some secret
  | signedIn sid user account => account.needsSecondFactor = true →
      ∃ stored secret code, .codeRight sid user stored secret code ∈ older

/-- Every event follows from those before it. -/
def Sound : List (Event Secret Code) → Prop
  | [] => True
  | e :: older => e.Follows verify older ∧ Sound older

variable {verify} {history older window : List (Event Secret Code)} {e : Event Secret Code}
  {sid : Sid}

theorem Sound.of_suffix (h : Sound verify history) (hsuffix : e :: older <:+ history) :
    e.Follows verify older ∧ Sound verify older := by
  induction history with
  | nil => exact absurd (List.suffix_nil.mp hsuffix) (List.cons_ne_nil e older)
  | cons e' history ih =>
    rcases List.suffix_cons_iff.mp hsuffix with heq | hsuffix
    · obtain ⟨rfl, rfl⟩ := List.cons.inj heq
      exact h
    · exact ih h.2 hsuffix

theorem exists_suffix (h : e ∈ history) : ∃ older, e :: older <:+ history := by
  obtain ⟨newer, older, rfl⟩ := List.append_of_mem h
  exact ⟨older, newer, rfl⟩

theorem wrongSince_cons : wrongSince sid (e :: older) =
    if e.rightIn sid then 0 else wrongSince sid older + if e.wrongIn sid then 1 else 0 := by
  rw [wrongSince, List.takeWhile_cons]
  cases hright : e.rightIn sid with
  | true => rfl
  | false =>
    rw [Bool.not_false, if_pos rfl, List.countP_cons, if_neg Bool.false_ne_true, wrongSince]

/-- Between two right passwords no session has more wrong codes than that. -/
theorem Sound.wrongSince_le (h : Sound verify history) :
    wrongSince sid history ≤ MAX_WRONG_CODES := by
  induction history with
  | nil => exact Nat.zero_le _
  | cons e history ih =>
    have hle := ih h.2
    rw [wrongSince_cons]
    split
    · exact Nat.zero_le _
    · split
      · next hwrong =>
        cases e with
        | codeWrong i =>
          obtain rfl : i = sid := of_decide_eq_true hwrong
          exact h.1
        | passwordOk | generated | codeRight | enrolled | signedIn => cases hwrong
      · exact hle

theorem countP_le_wrongSince (h : ∀ user, .passwordOk sid user ∉ window) :
    window.countP (Event.wrongIn sid) ≤ wrongSince sid (window ++ older) := by
  have hnone : ∀ e ∈ window, (!e.rightIn sid) = true := by
    intro e he
    cases e with
    | passwordOk i user =>
      rw [Bool.not_eq_true', Event.rightIn, decide_eq_false_iff_not]
      rintro rfl
      exact h user he
    | generated | codeRight | codeWrong | enrolled | signedIn => rfl
  rw [wrongSince, List.takeWhile_append_of_pos hnone, List.countP_append]
  exact Nat.le_add_right _ _

theorem Sound.of_append {newer : List (Event Secret Code)} (h : Sound verify (newer ++ older)) :
    Sound verify older := by
  induction newer with
  | nil => exact h
  | cons e newer ih => exact ih h.2

/-- **What the events say**, each of those before it, keeps the second factor. -/
theorem Sound.kept (h : Sound verify history) : Kept verify history where
  earned sid user account older hsuffix hneeds := by
    obtain ⟨hfollows, hsound⟩ := h.of_suffix hsuffix
    obtain ⟨stored, secret, code, hcode⟩ := hfollows hneeds
    obtain ⟨before, hbefore⟩ := exists_suffix hcode
    obtain ⟨⟨hverify, hwhich⟩, hsound⟩ := hsound.of_suffix hbefore
    refine ⟨stored, secret, code, before, hbefore, hverify, hwhich.imp_right ?_⟩
    rintro ⟨hnone, hshown⟩
    obtain ⟨past, hpast⟩ := exists_suffix hshown
    exact ⟨hnone, past, hpast, (hsound.of_suffix hpast).1⟩
  kept user old secret he := by
    obtain ⟨older, hsuffix⟩ := exists_suffix he
    exact (h.of_suffix hsuffix).1
  few sid window hinfix hnone := by
    obtain ⟨newer, older, rfl⟩ := hinfix
    rw [List.append_assoc] at h
    exact (countP_le_wrongSince hnone).trans h.of_append.wrongSince_le

end History

/-! ## The invariant -/

/-- A copy of a session: what its keys rest on. -/
structure Copy (history : List (Event Secret Code)) (sid : Sid) (c : Session Secret) : Prop where
  proven : ∀ user, c.preAuthUserId = some user → .passwordOk sid user ∈ history
  shown : ∀ user secret, c.preAuthUserId = some user → c.pendingTotpSecret = some secret →
    .generated sid user secret ∈ history
  few : c.otpWrongCodes < MAX_WRONG_CODES

/-- A request past a check: the code that was right, and what an enrolment may find stored. -/
def Stage.Holds (accounts : Rows (Account Secret)) (history : List (Event Secret Code))
    (sid : Sid) : Stage Secret Code → Prop
  | enrolling user _ secret => (∃ stored code, .codeRight sid user stored secret code ∈ history) ∧
      ∀ a, accounts.get? user = some a → a.otpSecret = none ∨ a.otpSecret = some secret
  | signingIn user account => account.needsSecondFactor = true →
      ∃ stored secret code, .codeRight sid user stored secret code ∈ history
  | _ => True

structure Held (verify : Secret → Code → Bool) (s : State Secret Code) : Prop where
  sound : Sound verify s.history
  stored : ∀ sid c, s.sessions.get? sid = some c → Copy s.history sid c
  copy : ∀ r ∈ s.requests, Copy s.history r.sid r.session
  stage : ∀ r ∈ s.requests, r.stage.Holds s.accounts s.history r.sid

section Steps

variable {verify : Secret → Code → Bool} {s s' : State Secret Code} {sid : Sid}
  {c : Session Secret} {history : List (Event Secret Code)}

theorem Copy.empty : Copy history sid {} := ⟨nofun, nofun, Nat.zero_lt_succ 4⟩

theorem Copy.append (h : Copy history sid c) (newer : List (Event Secret Code)) :
    Copy (newer ++ history) sid c where
  proven user hu := List.mem_append_right _ (h.proven user hu)
  shown user secret hu hsecret := List.mem_append_right _ (h.shown user secret hu hsecret)
  few := h.few

theorem Stage.Holds.append {accounts : Rows (Account Secret)} {stage : Stage Secret Code}
    (h : stage.Holds accounts history sid) (newer : List (Event Secret Code)) :
    stage.Holds accounts (newer ++ history) sid := by
  cases stage with
  | enrolling user account secret =>
    obtain ⟨⟨stored, code, hcode⟩, hfound⟩ := h
    exact ⟨⟨stored, code, List.mem_append_right _ hcode⟩, hfound⟩
  | signingIn user account =>
    intro hneeds
    obtain ⟨stored, secret, code, hcode⟩ := h hneeds
    exact ⟨stored, secret, code, List.mem_append_right _ hcode⟩
  | opened | creating | saving | ended => trivial

/-- What a handler must keep. -/
structure Reply.Good (verify : Secret → Code → Bool) (s : State Secret Code) (sid : Sid)
    (reply : Reply Secret Code) : Prop where
  sound : Sound verify (reply.events ++ s.history)
  copy : Copy (reply.events ++ s.history) sid reply.session
  stage : reply.stage.Holds s.accounts (reply.events ++ s.history) sid

/-- An account looked up, taken apart. -/
theorem found_eq {A : Rows (Account Secret)} {named : Option UserId} {user : UserId}
    {account : Account Secret}
    (h : (named.bind fun user => (A.get? user).map fun account => (user, account)) =
      some (user, account)) : named = some user ∧ A.get? user = some account := by
  obtain ⟨user', hnamed, hmap⟩ := Option.bind_eq_some_iff.mp h
  obtain ⟨account', hget, heq⟩ := Option.map_eq_some_iff.mp hmap
  obtain ⟨rfl, rfl⟩ := Prod.mk.inj heq
  exact ⟨hnamed, hget⟩

theorem pendingUser_eq {user : UserId} {account : Account Secret}
    (h : s.pendingUser c = some (user, account)) :
    c.preAuthUserId = some user ∧ s.accounts.get? user = some account :=
  found_eq h

namespace Reply.Good

variable (hsound : Sound verify s.history) (hc : Copy s.history sid c)

include hsound hc

theorem keep {changed : Bool} :
    Reply.Good verify s sid { session := c, changed := changed } :=
  ⟨hsound, hc, trivial⟩

theorem loginFail : (Reply.loginFail c : Reply Secret Code).Good verify s sid :=
  ⟨hsound, ⟨nofun, nofun, hc.few⟩, trivial⟩

omit hc in
theorem startOtpFlow {user : UserId}
    (hpending : ∀ secret, c.pendingTotpSecret = some secret →
      .generated sid user secret ∈ s.history) :
    (Reply.startOtpFlow sid c user : Reply Secret Code).Good verify s sid := by
  refine ⟨⟨trivial, hsound⟩, ⟨?_, ?_, Nat.zero_lt_succ 4⟩, trivial⟩
  · intro user' hu
    obtain rfl := Option.some.inj hu
    exact List.mem_cons_self
  · intro user' secret hu hsecret
    obtain rfl := Option.some.inj hu
    exact List.mem_cons_of_mem _ (hpending secret hsecret)

theorem wrongCode (hcounted : wrongSince sid s.history ≤ c.otpWrongCodes) :
    (Reply.wrongCode sid c : Reply Secret Code).Good verify s sid := by
  refine ⟨⟨hcounted.trans_lt hc.few, hsound⟩, ?_, trivial⟩
  rw [Reply.wrongCode]
  dsimp only
  split
  · exact Copy.empty
  · next hfew =>
    have hc' := hc.append [.codeWrong sid]
    exact ⟨hc'.proven, hc'.shown, Nat.lt_of_not_le hfew⟩

theorem codeRight {user : UserId} {stored : Option Secret} {secret : Secret}
    {code : Code} {stage : Stage Secret Code} (hverify : verify secret code = true)
    (hwhich : stored = some secret ∧ .passwordOk sid user ∈ s.history ∨
      stored = none ∧ .generated sid user secret ∈ s.history)
    (hstage : stage.Holds s.accounts (.codeRight sid user stored secret code :: s.history) sid) :
    Reply.Good verify s sid
      { session := c, stage := stage, events := [.codeRight sid user stored secret code] } :=
  ⟨⟨⟨hverify, hwhich⟩, hsound⟩, hc.append [_], hstage⟩

variable [DecidableEq Secret] [DecidableEq Code]

theorem login {user : Option UserId} {right : Bool}
    (hspares : s.spares verify sid c (.login user right) = true) :
    (Reply.login s sid c user right).Good verify s sid := by
  rw [Reply.login]
  split
  · split
    · exact ⟨hsound, hc, trivial⟩
    · exact loginFail hsound hc
  · next user' account hfound =>
    obtain ⟨rfl, hget⟩ := found_eq hfound
    split
    · exact loginFail hsound hc
    · next hadmitted =>
      simp only [Bool.or_eq_true, Bool.not_eq_true', not_or, Bool.not_eq_false] at hadmitted
      obtain ⟨⟨rfl, happroved⟩, hactive⟩ := hadmitted
      split
      · next hneeds =>
        refine startOtpFlow hsound fun secret hsecret => ?_
        rw [State.spares, State.starts, hget, hsecret, Option.any_some, happroved, hactive,
          hneeds] at hspares
        exact of_decide_eq_true hspares
      · next hneeds => exact ⟨hsound, hc, fun h => absurd h hneeds⟩

theorem otpEnroll {fresh : Secret} {code : Option Code}
    (hspares : s.spares verify sid c (.otpEnroll code) = true) :
    (Reply.otpEnroll verify s sid c fresh code).Good verify s sid := by
  rw [Reply.otpEnroll]
  split
  · exact keep hsound hc
  · next user account hpending =>
    obtain ⟨hpre, hget⟩ := pendingUser_eq hpending
    split
    · exact ⟨hsound, ⟨hc.proven, nofun, hc.few⟩, trivial⟩
    · next hnone =>
      rw [Bool.not_eq_true, Option.isSome_eq_false_iff, Option.isNone_iff_eq_none] at hnone
      split
      · exact keep hsound hc
      · refine ⟨⟨hc.proven user hpre, hsound⟩, ⟨?_, ?_, hc.few⟩, trivial⟩
        · exact fun user' hu => List.mem_cons_of_mem _ (hc.proven user' hu)
        · intro user' secret hu hsecret
          obtain rfl := Option.some.inj (hpre.symm.trans hu)
          obtain rfl := Option.some.inj hsecret
          exact List.mem_cons_self
      · exact keep hsound hc
      · next code secret hsecret =>
        split
        · next hverify =>
          refine codeRight hsound hc hverify (.inr ⟨hnone, hc.shown user secret hpre hsecret⟩) ?_
          refine ⟨⟨_, code, List.mem_cons_self⟩, fun a ha => .inl ?_⟩
          obtain rfl := Option.some.inj (hget.symm.trans ha)
          exact hnone
        · next hverify =>
          refine wrongCode hsound hc ?_
          simpa [State.spares, State.checked, hpending, hnone, hsecret, hverify] using hspares

theorem otpVerify {code : Option Code}
    (hspares : s.spares verify sid c (.otpVerify code) = true) :
    (Reply.otpVerify verify s sid c code).Good verify s sid := by
  cases code with
  | none => exact keep hsound hc
  | some code =>
    rw [Reply.otpVerify]
    split
    · exact keep hsound hc
    · next user account hpending =>
      obtain ⟨hpre, hget⟩ := pendingUser_eq hpending
      split
      · exact keep hsound hc
      · next secret hsecret =>
        split
        · next hverify =>
          refine codeRight hsound hc hverify (.inl ⟨hsecret, hc.proven user hpre⟩) fun _ => ?_
          exact ⟨_, secret, code, List.mem_cons_self⟩
        · next hverify =>
          refine wrongCode hsound hc ?_
          simpa [State.spares, State.checked, hpending, hsecret, hverify] using hspares

/-- **A handler** keeps the invariant. -/
theorem handle {fresh : Secret} {route : Route Code}
    (hspares : s.spares verify sid c route = true) :
    (Reply.handle verify s sid c fresh route).Good verify s sid := by
  cases route with
  | login user right => exact login hsound hc hspares
  | otpEnroll code => exact otpEnroll hsound hc hspares
  | otpVerify code => exact otpVerify hsound hc hspares
  | expired => exact ⟨hsound, Copy.empty, trivial⟩

end Reply.Good

/-- Accounts change, but for an enrolment: their secrets stay, or are reset. -/
def Tame (A A' : Rows (Account Secret)) : Prop :=
  ∀ user a', A'.get? user = some a' →
    a'.otpSecret = none ∨ ∃ a, A.get? user = some a ∧ a'.otpSecret = a.otpSecret

theorem Stage.Holds.retable {A A' : Rows (Account Secret)} {stage : Stage Secret Code}
    (h : stage.Holds A history sid) (htame : Tame A A') : stage.Holds A' history sid := by
  cases stage with
  | enrolling user account secret =>
    refine ⟨h.1, fun a' ha' => ?_⟩
    rcases htame user a' ha' with hnone | ⟨a, ha, hsame⟩
    · exact .inl hnone
    · exact hsame ▸ h.2 a ha
  | opened | creating | signingIn | saving | ended => exact h

theorem tame_add {A : Rows (Account Secret)} {a : Account Secret} (ha : a.otpSecret = none) :
    Tame A (A.add (some a)) := by
  intro user a' ha'
  rcases Rows.get?_of_add ha' with ⟨-, heq⟩ | hold
  · exact .inl (Option.some.inj heq ▸ ha)
  · exact .inr ⟨a', hold, rfl⟩

namespace Held

theorem update {user : UserId} {f : Account Secret → Option (Account Secret)} (h : Held verify s)
    (hf : ∀ a a', f a = some a' → a'.otpSecret = none ∨ a'.otpSecret = a.otpSecret) :
    Held verify (s.update user f) := by
  refine ⟨h.sound, h.stored, h.copy, fun r hr => (h.stage r hr).retable fun i a' ha' => ?_⟩
  rcases Rows.get?_of_put ha' with ⟨rfl, hrow⟩ | ⟨-, hold⟩
  · obtain ⟨a, ha, hfa⟩ := Option.bind_eq_some_iff.mp hrow
    exact (hf a a' hfa).imp_right fun hsame => ⟨a, ha, hsame⟩
  · exact .inr ⟨a', hold, rfl⟩

/-- A request goes on with its own events. -/
theorem record {i : Nat} {r : Request Secret Code} (h : Held verify s)
    (newer : List (Event Secret Code)) (hsound : Sound verify (newer ++ s.history))
    (hcopy : Copy (newer ++ s.history) r.sid r.session)
    (hstage : r.stage.Holds s.accounts (newer ++ s.history) r.sid) :
    Held verify ((s.record newer).put i r) := by
  refine ⟨hsound, fun sid c hc => (h.stored sid c hc).append newer, ?_, ?_⟩
  · exact ListUpdate.forall_mem_set (fun r' hr' => (h.copy r' hr').append newer) hcopy
  · exact ListUpdate.forall_mem_set (fun r' hr' => (h.stage r' hr').append newer) hstage

theorem put {i : Nat} {r : Request Secret Code} (h : Held verify s)
    (hcopy : Copy s.history r.sid r.session) (hstage : r.stage.Holds s.accounts s.history r.sid) :
    Held verify (s.put i r) :=
  record h [] h.sound hcopy hstage

theorem sessions {S : Store (Session Secret)} (h : Held verify s)
    (hS : ∀ sid c, S.get? sid = some c → Copy s.history sid c) :
    Held verify { s with sessions := S } :=
  ⟨h.sound, hS, h.copy, h.stage⟩

end Held

variable [DecidableEq Secret] [DecidableEq Code]

/-- **An enrolment** stores its secret where none was stored, or the same one. -/
theorem held_enroll {i : Nat} {fresh secret : Secret} {user : UserId} {account : Account Secret}
    {changed : Bool} (h : Held verify s)
    (hi : s.requests[i]? = some ⟨sid, c, changed, .enrolling user account secret⟩)
    (hallowed : undisturbed verify s (.next i fresh) = true) :
    Held verify (s.proceed verify i fresh ⟨sid, c, changed, .enrolling user account secret⟩) := by
  have hcopy := h.copy _ (List.mem_of_getElem? hi)
  obtain ⟨⟨stored, code, hcode⟩, hfound⟩ := h.stage _ (List.mem_of_getElem? hi)
  rw [undisturbed, hi] at hallowed
  rw [State.proceed]
  dsimp only
  split
  · exact h.put hcopy trivial
  · next a ha =>
    have hfollows : Sound verify (.enrolled user a.otpSecret secret :: s.history) :=
      ⟨hfound a ha, h.sound⟩
    refine ⟨hfollows, fun sid c hc => (h.stored sid c hc).append [_], ?_, fun r hr => ?_⟩
    · exact ListUpdate.forall_mem_set (fun r hr => (h.copy r hr).append [_]) (hcopy.append [_])
    · rcases ListUpdate.mem_set_cases hr with rfl | hr
      · exact fun _ => ⟨stored, secret, code, List.mem_cons_of_mem _ hcode⟩
      · refine Stage.Holds.append ?_ [_]
        have hholds := h.stage r (List.mem_of_mem_eraseIdx hr)
        have hothers := List.all_eq_true.mp hallowed r hr
        obtain ⟨sid', c', changed', stage⟩ := r
        cases stage with
        | enrolling user' account' secret' =>
          refine ⟨hholds.1, fun a' ha' => ?_⟩
          rcases Rows.get?_of_put ha' with ⟨rfl, hrow⟩ | ⟨-, hold⟩
          · obtain ⟨a₀, -, heq⟩ := Option.bind_eq_some_iff.mp hrow
            obtain rfl : secret' = secret := by simpa using hothers
            exact .inr (Option.some.inj heq ▸ rfl)
          · exact hholds.2 a' hold
        | opened | creating | signingIn | saving | ended => exact hholds

theorem held_proceed {i : Nat} {fresh : Secret} {r : Request Secret Code} (h : Held verify s)
    (hi : s.requests[i]? = some r) (hallowed : undisturbed verify s (.next i fresh) = true) :
    Held verify (s.proceed verify i fresh r) := by
  have hcopy := h.copy r (List.mem_of_getElem? hi)
  have hstage := h.stage r (List.mem_of_getElem? hi)
  obtain ⟨sid, c, changed, stage⟩ := r
  cases stage with
  | opened route =>
    rw [undisturbed, hi] at hallowed
    have hgood : (Reply.handle verify s sid c fresh route).Good verify s sid :=
      Reply.Good.handle h.sound hcopy hallowed
    exact h.record _ hgood.sound hgood.copy hgood.stage
  | creating =>
    have hretabled : Held verify
        { s with accounts := s.accounts.add (some ⟨.LDAP, true, true, false, none⟩) } :=
      ⟨h.sound, h.stored, h.copy, fun r hr => (h.stage r hr).retable (tame_add rfl)⟩
    exact hretabled.put hcopy fun hneeds => nomatch hneeds
  | enrolling user account secret => exact held_enroll h hi hallowed
  | signingIn user account =>
    have hregenerated : Held verify
        { s with sessions := (Store.regenerate s.sessions sid).2 } :=
      h.sessions fun sid' c' hc' => h.stored sid' c' (Store.get?_of_regenerate hc').2
    exact hregenerated.record [.signedIn sid user account] ⟨hstage, h.sound⟩ Copy.empty trivial
  | saving =>
    refine (h.sessions fun sid' c' hc' => ?_).put hcopy trivial
    cases changed with
    | false => exact h.stored sid' c' hc'
    | true =>
      rcases Store.get?_of_save hc' with ⟨rfl, rfl⟩ | hold
      · exact hcopy
      · exact h.stored sid' c' hold
  | ended => exact h

theorem held_step {a : Action Secret Code} (hallowed : undisturbed verify s a = true)
    (h : Held verify s) (hstep : s.step verify a = some s') : Held verify s' := by
  cases a with
  | start cookie touched route =>
    have hopen : ∀ {S : Store (Session Secret)} {sid : Sid} {c : Session Secret},
        (∀ i d, S.get? i = some d → Copy s.history i d) → Copy s.history sid c →
        Held verify { s with
          sessions := S
          requests := s.requests ++ [⟨sid, c, touched, .opened route⟩] } := by
      intro S sid c hS hc
      exact ⟨h.sound, hS, ListUpdate.forall_mem_concat h.copy hc,
        ListUpdate.forall_mem_concat h.stage trivial⟩
    rcases Store.openSession_cases s.sessions cookie with
      ⟨sid, data, -, hdata, hopened⟩ | ⟨-, hopened⟩
    · rw [State.step, hopened] at hstep
      obtain rfl := Option.some.inj hstep
      exact hopen h.stored (h.stored sid data hdata)
    · rw [State.step, hopened] at hstep
      obtain rfl := Option.some.inj hstep
      refine hopen (fun i d hd => h.stored i d ?_) Copy.empty
      rwa [Rows.get?_add_none] at hd
  | next i fresh =>
    obtain ⟨r, hr, rfl⟩ := Option.map_eq_some_iff.mp hstep
    exact held_proceed h hr hallowed
  | reset user =>
    obtain rfl := Option.some.inj hstep
    exact h.update fun a a' ha' => .inl (Option.some.inj ha' ▸ rfl)
  | edit user isApproved isActive =>
    obtain rfl := Option.some.inj hstep
    exact h.update fun a a' ha' => .inr (Option.some.inj ha' ▸ rfl)
  | delete user =>
    obtain rfl := Option.some.inj hstep
    exact h.update fun a a' ha' => nomatch ha'
  | drop sid =>
    obtain rfl := Option.some.inj hstep
    exact h.sessions fun i c hc => h.stored i c (Store.get?_of_delete hc).2

/-- **The second factor is kept** in the undisturbed runs. -/
theorem kept_of_undisturbed (h : (signIn verify).Reachable (undisturbed verify) s) :
    Kept verify s.history := by
  have hheld : Held verify s := by
    refine h.invariant (fun s hs => ?_) fun s a s' _ hallowed hs hstep =>
      held_step hallowed hs hstep
    obtain ⟨hsessions, hrequests, hhistory⟩ := hs
    refine ⟨hhistory ▸ trivial, fun sid c hc => ?_, ?_, ?_⟩
    · rw [Rows.get?, hsessions] at hc
      cases hc
    · rw [hrequests]
      exact fun r hr => absurd hr List.not_mem_nil
    · rw [hrequests]
      exact fun r hr => absurd hr List.not_mem_nil
  exact hheld.sound.kept

end Steps

/-! ## Runs -/

/-- A local account. -/
def localAccount (otpSecret : Option Nat) : Account Nat := ⟨.LOCAL, true, true, false, otpSecret⟩

/-- Each secret has one code, itself. -/
def sameCode (secret code : Nat) : Bool := secret = code

/-- **The second factor is not kept**: one account's half-done enrolment leaves its secret to
the next sign-in in that browser; two enrolments at once store one secret over the other;
and six codes sent at once are all checked. -/
theorem not_kept :
    (∃ s, (signIn sameCode).Reachable System.always s ∧ s.history.length = 6 ∧
        ¬ Kept sameCode s.history) ∧
      (∃ s, (signIn sameCode).Reachable System.always s ∧ s.history.length = 8 ∧
        ¬ Kept sameCode s.history) ∧
      ∃ s, (signIn sameCode).Reachable System.always s ∧ s.history.length = 7 ∧
        ¬ Kept sameCode s.history := by
  have hleft : ((signIn sameCode).exec System.always
      { accounts := ⟨[some (localAccount none), some (localAccount none)]⟩ }
      [.start none false (.login (some 0) true), .next 0 7, .next 0 7,
        .start (some 0) false (.otpEnroll none), .next 1 7, .next 1 7,
        .start (some 0) false (.login (some 1) true), .next 2 7, .next 2 7,
        .start (some 0) false (.otpEnroll (some 7)), .next 3 7, .next 3 7, .next 3 7]).any
      (fun s => s.history = [.signedIn 0 1 (localAccount none), .enrolled 1 none 7,
        .codeRight 0 1 none 7 7, .passwordOk 0 1, .generated 0 0 7, .passwordOk 0 0]) = true := by
    decide
  have hboth : ((signIn sameCode).exec System.always { accounts := ⟨[some (localAccount none)]⟩ }
      [.start none false (.login (some 0) true), .next 0 7, .next 0 7,
        .start (some 0) false (.otpEnroll none), .next 1 7, .next 1 7,
        .start none false (.login (some 0) true), .next 2 8, .next 2 8,
        .start (some 1) false (.otpEnroll none), .next 3 8, .next 3 8,
        .start (some 0) false (.otpEnroll (some 7)), .next 4 7,
        .start (some 1) false (.otpEnroll (some 8)), .next 5 8, .next 4 7, .next 5 8]).any
      (fun s => s.history.length = 8 && .enrolled 0 (some 7) 8 ∈ s.history) = true := by decide
  have hsix : ((signIn sameCode).exec System.always
      { accounts := ⟨[some (localAccount (some 7))]⟩ }
      (List.flatten [[.start none false (.login (some 0) true), .next 0 7, .next 0 7],
        List.replicate 6 (.start (some 0) false (.otpVerify (some 9))),
        (List.range 6).map fun i => .next (i + 1) 7])).any
      (fun s => s.history = List.replicate 6 (.codeWrong 0) ++ [.passwordOk 0 0]) = true := by
    decide
  refine ⟨?_, ?_, ?_⟩
  · obtain ⟨s, hs, hp⟩ := System.exists_reachable (by exact ⟨rfl, rfl, rfl⟩) hleft
    have hp := of_decide_eq_true hp
    refine ⟨s, hs, by rw [hp]; rfl, fun hkept => ?_⟩
    obtain ⟨stored, secret, code, before, hcode, -, hwhich⟩ :=
      hkept.earned 0 1 (localAccount none) _ ⟨[], hp.symm⟩ rfl
    obtain ⟨rfl, -⟩ : stored = none ∧ _ := by simpa using hcode.subset List.mem_cons_self
    rcases hwhich with ⟨hsome, -⟩ | ⟨-, past, hpast, -⟩
    · cases hsome
    · have hshown := hcode.subset (List.mem_cons_of_mem _ (hpast.subset List.mem_cons_self))
      simp at hshown
  · obtain ⟨s, hs, hp⟩ := System.exists_reachable (by exact ⟨rfl, rfl, rfl⟩) hboth
    rw [Bool.and_eq_true, decide_eq_true_eq, decide_eq_true_eq] at hp
    refine ⟨s, hs, hp.1, fun hkept => ?_⟩
    have hsame := hkept.kept 0 (some 7) 8 hp.2
    revert hsame
    decide
  · obtain ⟨s, hs, hp⟩ := System.exists_reachable (by exact ⟨rfl, rfl, rfl⟩) hsix
    have hp := of_decide_eq_true hp
    refine ⟨s, hs, by rw [hp]; rfl, fun hkept => ?_⟩
    have hfew := hkept.few 0 (List.replicate 6 (.codeWrong 0)) ⟨[], [.passwordOk 0 0], hp.symm⟩
      fun user => by simp
    revert hfew
    decide

/-- An enrolment, with a wrong code on the way, and the next sign-in with a code of its
secret. -/
theorem kept_enrolment : ∃ s, (signIn sameCode).Reachable (undisturbed sameCode) s ∧
    (s.history = [.signedIn 2 0 (localAccount (some 7)), .codeRight 2 0 (some 7) 7 7,
      .passwordOk 2 0, .signedIn 0 0 (localAccount none), .enrolled 0 none 7,
      .codeRight 0 0 none 7 7, .codeWrong 0, .generated 0 0 7, .passwordOk 0 0]) ∧
    Kept sameCode s.history := by
  have hrun : ((signIn sameCode).exec (undisturbed sameCode)
      { accounts := ⟨[some (localAccount none)]⟩ }
      [.start none false (.login (some 0) true), .next 0 7, .next 0 7,
        .start (some 0) false (.otpEnroll none), .next 1 7, .next 1 7,
        .start (some 0) false (.otpEnroll (some 9)), .next 2 7, .next 2 7,
        .start (some 0) false (.otpEnroll (some 7)), .next 3 7, .next 3 7, .next 3 7, .next 3 7,
        .start none false (.login (some 0) true), .next 4 7, .next 4 7,
        .start (some 2) false (.otpVerify (some 7)), .next 5 7, .next 5 7]).any
      (fun s => s.history = [.signedIn 2 0 (localAccount (some 7)), .codeRight 2 0 (some 7) 7 7,
        .passwordOk 2 0, .signedIn 0 0 (localAccount none), .enrolled 0 none 7,
        .codeRight 0 0 none 7 7, .codeWrong 0, .generated 0 0 7, .passwordOk 0 0]) = true := by
    decide
  obtain ⟨s, hs, hp⟩ := System.exists_reachable (by exact ⟨rfl, rfl, rfl⟩) hrun
  exact ⟨s, hs, of_decide_eq_true hp, kept_of_undisturbed hs⟩

end SecondFactor
end NetRollout
