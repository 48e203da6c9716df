import NetRollout.Accounts.Tables
import NetRollout.Library.PyText
import NetRollout.Library.Rows

/-!
# The sign-in page

`login` of `src/webapp/blueprints/auth.py` with its four routes and what it answers, the
count of wrong passwords of a local account and `SignInThrottle` of
`src/accounts/users.py`.  A name's digest stands for the name as it is hashed.  Redis'
times are in milliseconds; a call of it is made at a time, or fails.

The audit, the roles, a new account's address and the open session are left out, and so are
the lock's minutes, which only the audit shows.
-/

namespace NetRollout
namespace SignIn

open Accounts (UserId ServerId AuthType MAX_FAILED_PASSWORDS DISABLE_AFTER)
open PyText (Str)

/-- What the program asks of the world. -/
structure Env where
  /-- `str.lower`. -/
  lower : Str → Str
  /-- The database's `lower`. -/
  dbLower : Str → Str
  checkPasswordHash : Str → Str → Bool

structure Account where
  username : Str
  authType : AuthType
  passwordHash : Str
  isApproved : Bool
  isActive : Bool
  failedSignIns : Nat
  /-- In seconds, as the application's clock. -/
  lockedUntil : Option Nat
  ldapServer : Option ServerId
  /-- It has an authenticator. -/
  enrolled : Bool

/-- A directory's answer to a bind. -/
inductive Bind where
  /-- Whether a mapped group has the user, if the groups can be read. -/
  | accepted (member : Option Bool)
  | rejected
  /-- `LdapUnavailable`. -/
  | unavailable
  deriving DecidableEq

structure LDAPServer where
  isActive : Bool
  hasServiceAccount : Bool
  /-- It has an active group rule. -/
  hasRules : Bool
  bind : Str → Str → Bind

/-! ## The throttle -/

def LOCK_MINUTES : Nat := 15

/-- A name's keys in Redis: its failures, and its stop, each until it expires. -/
structure Entry where
  fails : Option (Nat × Nat)
  locked : Option Nat
  deriving DecidableEq

namespace Entry

variable (e : Entry)

/-- `seconds_left`, of Redis' rounded `TTL`. -/
def secondsLeft (asked : Option Nat) : Option Nat :=
  asked.bind fun now => e.locked.bind fun expiry =>
    let left := (expiry - now + 500) / 1000
    if 0 < left then some left else none

/-- `failed`: the count, and at its end the stop. -/
def failed (counted stopped : Option Nat) : Entry × Option Nat :=
  match counted with
  | none => (e, none)
  | some now =>
    let before := e.fails.elim 0 fun f => if now < f.2 then f.1 else 0
    let e' := { e with fails := some (before + 1, now + LOCK_MINUTES * 60000) }
    if before + 1 < MAX_FAILED_PASSWORDS then (e', none)
    else
      match stopped with
      | none => (e', none)
      | some now =>
        ({ fails := none, locked := some (now + LOCK_MINUTES * 60000) }, some (LOCK_MINUTES * 60))

end Entry

/-- `SignInThrottle._keys`. -/
def key (N : Env) (name : Str) : Str := N.lower (PyText.strip name)

/-! ## What the page says -/

def RESERVED_USERNAME : Str :=
  "That username is reserved for NetRollout's own use - choose another.".toList

inductive Reason where
  | invalidCredentials
  | accountDisabled
  | pendingApproval
  | ldapBindFailed
  | ldapUnavailable
  | ldapServerInactive
  | ldapServerMissing
  | ldapGroupsUnavailable
  | reservedUsername
  | locked
  | tooManyAttempts
  deriving DecidableEq

namespace Reason

/-- `_LOGIN_FAIL_MESSAGES`. -/
def message : Reason → Str
  | accountDisabled => "User disabled, please check with administrator".toList
  | pendingApproval => "User still pending admin approval".toList
  | ldapGroupsUnavailable => "LDAP authentication service unavailable".toList
  | reservedUsername => RESERVED_USERNAME
  | tooManyAttempts => "Too many failed sign-ins - try again later.".toList
  | invalidCredentials | ldapBindFailed | ldapUnavailable | ldapServerInactive
  | ldapServerMissing | locked => "Invalid credentials".toList

/-- `_COUNTED_FAILURES`. -/
def counted : Reason → Bool
  | invalidCredentials | locked | ldapBindFailed | ldapUnavailable | ldapServerInactive
  | ldapServerMissing | reservedUsername => true
  | accountDisabled | pendingApproval | ldapGroupsUnavailable | tooManyAttempts => false

end Reason

/-- `:02d`. -/
def twoDigits (n : Nat) : Str := (if n < 10 then ['0'] else []) ++ Nat.toDigits 10 n

def lockMessage (seconds : Nat) : Str :=
  "Too many failed sign-ins. Try again in ".toList ++ twoDigits (seconds / 60) ++ ':' ::
    twoDigits (seconds % 60) ++ ['.']

inductive Location where
  | home
  | otpVerify
  | otpEnroll
  /-- `after_login`. -/
  | signedIn (user : UserId)
  /-- An exception: the server's error page. -/
  | error
  deriving DecidableEq

/-- What is flashed, and where the browser goes. -/
structure Answer where
  flash : Option Str
  location : Location
  deriving DecidableEq

/-! ## The routes -/

/-- When each call is made, and those of Redis if they are: `TTL`, `INCR` and the stop's. -/
structure Moment where
  /-- The `Origin` is another host. -/
  foreign : Bool
  now : Nat
  asked : Option Nat
  counted : Option Nat
  stopped : Option Nat

structure State where
  accounts : Rows Account
  servers : Rows LDAPServer
  throttle : Str → Entry

def FACTORY_USERNAME : Str := "admin".toList

def GRAFANA_ADMIN_USERNAME : Str := "netrollout-grafana-admin".toList

/-- `is_reserved`. -/
def isReserved (N : Env) (username : Str) : Bool :=
  N.lower (PyText.strip username) = GRAFANA_ADMIN_USERNAME

/-- A name the driver takes neither in `by_name` nor in an audit row: it has a NUL.  Nothing is
ever counted for it. -/
def refusesName (username : Str) : Bool := username.contains '\x00'

namespace Account

variable (u : Account)

def isFactoryAdmin : Bool := u.username = FACTORY_USERNAME && u.authType = .LOCAL

def needsSecondFactor : Bool := u.authType = .LOCAL && (!u.isFactoryAdmin || u.enrolled)

/-- `lock_minutes_left`, if any are. -/
def isLocked (now : Nat) : Bool := u.lockedUntil.any fun expiry => now < expiry

/-- A lock that has run out is lifted. -/
def lifted : Account := { u with lockedUntil := none }

/-- `password_failed`. -/
def passwordFailed (now : Nat) : Account :=
  if u.authType ≠ .LOCAL || !(u.isApproved && u.isActive) then u
  else
    let count := u.failedSignIns + 1
    if u.isFactoryAdmin then
      if count < MAX_FAILED_PASSWORDS then { u with failedSignIns := count }
      else { u with failedSignIns := 0, lockedUntil := some (now + LOCK_MINUTES * 60) }
    else if DISABLE_AFTER ≤ count then { u with failedSignIns := count, isActive := false }
    else if count ≠ MAX_FAILED_PASSWORDS then { u with failedSignIns := count }
    else { u with failedSignIns := count, lockedUntil := some (now + LOCK_MINUTES * 60) }

end Account

namespace LDAPServer

variable (srv : LDAPServer)

/-- `authenticate`. -/
def authenticate (username password : Str) : Bind :=
  if username = [] ∨ password = [] then .rejected else srv.bind username password

/-- `check_group_membership`: whether a mapped group has the user, once bound. -/
def checkGroupMembership (username password : Str) : Bind :=
  if srv.hasServiceAccount then
    match srv.authenticate username password with
    | .accepted none => .unavailable
    | .accepted (some false) => .rejected
    | answer => answer
  else .rejected

end LDAPServer

namespace State

variable (N : Env) (s : State) (m : Moment)

/-- `by_name`. -/
def byName (username : Str) : Option (UserId × Account) :=
  s.accounts.entries.find? fun u => u.2.username = username

/-- `by_name_ci`. -/
def byNameCi (username : Str) : List (UserId × Account) :=
  s.accounts.entries.filter fun u => N.dbLower u.2.username = N.lower username

def setEntry (name : Str) (e : Entry) : State :=
  { s with throttle := Function.update s.throttle (key N name) e }

def setAccount (user : UserId) (u : Account) : State :=
  { s with accounts := s.accounts.put user (some u) }

/-- `cleared`. -/
def cleared (name : Str) : State :=
  if m.counted.isSome then s.setEntry N name ⟨none, none⟩ else s

/-- `login_fail`. -/
def loginFail (username : Str) (reason : Reason) (message : Option Str) : State × Answer :=
  if reason.counted then
    let failed := (s.throttle (key N username)).failed m.counted m.stopped
    (s.setEntry N username failed.1,
      ⟨some (failed.2.elim (message.getD reason.message) lockMessage), .home⟩)
  else (s, ⟨some (message.getD reason.message), .home⟩)

/-- `login_local`. -/
def loginLocal (user : UserId) (u : Account) (password : Str) : State × Answer :=
  if u.isLocked m.now then s.loginFail N m u.username .locked none
  else if !N.checkPasswordHash u.passwordHash password then
    (s.setAccount user (u.lifted.passwordFailed m.now)).loginFail N m u.username
      .invalidCredentials none
  else
    let s' := (s.setAccount user { u.lifted with failedSignIns := 0 }).cleared N m u.username
    if !u.isApproved then s'.loginFail N m u.username .pendingApproval none
    else if !u.isActive then s'.loginFail N m u.username .accountDisabled none
    else if !u.needsSecondFactor then (s', ⟨none, .signedIn user⟩)
    else if u.enrolled then (s', ⟨none, .otpVerify⟩)
    else
      (s', ⟨some "To complete enrollment, you are referred to OTP set up portal".toList, .otpEnroll⟩)

/-- `login_ldap_existing`. -/
def loginLdapExisting (user : UserId) (u : Account) (password : Str) : State × Answer :=
  match u.ldapServer.bind s.servers.get? with
  | none => s.loginFail N m u.username .ldapServerMissing none
  | some srv =>
    if !srv.isActive then s.loginFail N m u.username .ldapServerInactive none
    else
      match srv.authenticate u.username password with
      | .unavailable => s.loginFail N m u.username .ldapUnavailable none
      | .rejected => s.loginFail N m u.username .ldapBindFailed none
      | .accepted member =>
        let s' := s.cleared N m u.username
        if !u.isApproved then s'.loginFail N m u.username .pendingApproval none
        else if !u.isActive then s'.loginFail N m u.username .accountDisabled none
        else if srv.hasServiceAccount && srv.hasRules && member.isNone then
          s'.loginFail N m u.username .ldapGroupsUnavailable none
        else (s', ⟨none, .signedIn user⟩)

/-- `login_ldap_group`. -/
def loginLdapGroup (username password : Str) : State × Answer :=
  if isReserved N username then s.loginFail N m username .reservedUsername none
  else
    match s.servers.entries.find? fun srv => srv.2.isActive with
    | none => s.loginFail N m username .invalidCredentials none
    | some (server, srv) =>
      if !srv.hasRules then s.loginFail N m username .invalidCredentials none
      else
        match srv.checkGroupMembership username password with
        | .unavailable => s.loginFail N m username .ldapUnavailable none
        | .rejected => s.loginFail N m username .invalidCredentials none
        | .accepted _ =>
          let u := ⟨username, .LDAP, [], true, true, 0, none, some server, false⟩
          ({ s.cleared N m username with accounts := s.accounts.add (some u) },
            ⟨none, .signedIn s.accounts.size⟩)

/-- `login`. -/
def login (username password : Str) : State × Answer :=
  if m.foreign then (s, ⟨none, .home⟩)
  else if refusesName username then (s, ⟨none, .error⟩)
  else
    match (s.throttle (key N username)).secondsLeft m.asked with
    | some seconds => s.loginFail N m username .tooManyAttempts (some (lockMessage seconds))
    | none =>
      match s.byName username with
      | some (user, u) =>
        match u.authType with
        | .LOCAL => s.loginLocal N m user u password
        | .LDAP => s.loginLdapExisting N m user u password
      | none =>
        let sameName := s.byNameCi N username
        let ldapUsers := sameName.filter fun u => u.2.authType = .LDAP
        match ldapUsers, sameName with
        | [(user, u)], [_] => s.loginLdapExisting N m user u password
        | _, [] => s.loginLdapGroup N m username password
        | _, _ => s.loginFail N m username .invalidCredentials none

/-- A sequence of attempts at a name, and what the page answers to each. -/
def attempts (username : Str) : State → List (Moment × Str) → State × List Answer
  | s, [] => (s, [])
  | s, (m, password) :: rest =>
    let first := s.login N m username password
    let last := attempts username first.1 rest
    (last.1, first.2 :: last.2)

end State

end SignIn
end NetRollout
