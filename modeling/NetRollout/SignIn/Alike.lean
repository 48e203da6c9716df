import NetRollout.SignIn.Login

/-!
# Every name alike

What a wrong password does to the keys of the typed name, and what the page answers, is a
function of those keys (`Entry.attempt`): it knows no account and no directory.  `login`
refines it on every route, as long as the account that `by_name_ci` finds has the keys of
the typed name (`refines_login`), so that any two names look alike (`alike_of_keyed`).
`login_fail` counts for the stored name, and the database's lower case is not Python's:
`not_alike`.  A name with a NUL is refused by the driver before anything is counted, and so
looks like no other.
-/

namespace NetRollout
namespace SignIn

open Accounts (UserId AuthType)
open PyText (Str)

/-! ## A name's keys alone -/

namespace Entry

/-- An attempt with a wrong password, at a name the driver refuses or not. -/
def attempt (refused : Bool) (m : Moment) (e : Entry) : Entry × Answer :=
  if m.foreign then (e, ⟨none, .home⟩)
  else if refused then (e, ⟨none, .error⟩)
  else
    match e.secondsLeft m.asked with
    | some seconds => (e, ⟨some (lockMessage seconds), .home⟩)
    | none =>
      let failed := e.failed m.counted m.stopped
      (failed.1, ⟨some (failed.2.elim Reason.invalidCredentials.message lockMessage), .home⟩)

def attempts (refused : Bool) : Entry → List Moment → Entry × List Answer
  | e, [] => (e, [])
  | e, m :: rest =>
    let last := attempts refused (e.attempt refused m).1 rest
    (last.1, (e.attempt refused m).2 :: last.2)

end Entry

/-! ## What a wrong password leaves -/

/-- The columns that no wrong password changes. -/
def Account.fixed (u : Account) : Account :=
  { u with isActive := false, failedSignIns := 0, lockedUntil := none }

theorem Account.eq_of_fixed {u u' : Account} (h : u.fixed = u'.fixed) :
    u.username = u'.username ∧ u.authType = u'.authType ∧ u.passwordHash = u'.passwordHash ∧
      u.ldapServer = u'.ldapServer := by
  obtain ⟨hname, htype, hhash, -, -, -, -, hserver, -⟩ := Account.mk.inj h
  exact ⟨hname, htype, hhash, hserver⟩

namespace State

variable (N : Env) (s : State)

def fixed : List (UserId × Account) := s.accounts.entries.map fun u => (u.1, u.2.fixed)

/-- The same accounts and directories, but for counts and locks. -/
structure Same (s s' : State) : Prop where
  accounts : s'.fixed = s.fixed
  servers : s'.servers = s.servers

/-- The password is wrong at the name: for a local account of that name; in its directory, for a
directory's account of that name, or the only one of it in another case; and where nobody has
the name, in the directory that is on. -/
structure Wrong (name password : Str) : Prop where
  hash : ∀ user u, s.accounts.get? user = some u → u.authType = .LOCAL → u.username = name →
    N.checkPasswordHash u.passwordHash password = false
  existing : ∀ user u, s.accounts.get? user = some u → u.authType = .LDAP →
    u.username = name ∨ s.byName name = none ∧ s.byNameCi N name = [(user, u)] →
      ∀ srv member, u.ldapServer.bind s.servers.get? = some srv →
        srv.bind u.username password ≠ .accepted member
  group : s.byName name = none → s.byNameCi N name = [] → ∀ server srv member,
    (s.servers.entries.find? fun srv => srv.2.isActive) = some (server, srv) →
      srv.bind name password ≠ .accepted member

/-- The directory account that `by_name_ci` finds has the keys of the typed name. -/
def Keyed (name : Str) : Prop :=
  s.byName name = none → ∀ user u, s.byNameCi N name = [(user, u)] → u.authType = .LDAP →
    key N u.username = key N name

end State

variable {N : Env} {s s' s'' : State} {m : Moment} {name username password : Str}
  {reason : Reason} {user : UserId} {u : Account}

namespace State

theorem Same.refl (s : State) : s.Same s := ⟨rfl, rfl⟩

theorem Same.trans (h : s.Same s') (h' : s'.Same s'') : s.Same s'' :=
  ⟨h'.accounts.trans h.accounts, h'.servers.trans h.servers⟩

/-- An account is the same as one of before. -/
theorem Same.get? (h : s.Same s') {u' : Account} (hu' : s'.accounts.get? user = some u') :
    ∃ u, s.accounts.get? user = some u ∧ u.fixed = u'.fixed := by
  have hmem : (user, u'.fixed) ∈ s.fixed := by
    rw [← h.accounts]
    exact List.mem_map.mpr ⟨(user, u'), Rows.mem_entries.mpr hu', rfl⟩
  obtain ⟨⟨_, u⟩, hu, heq⟩ := List.mem_map.mp hmem
  obtain ⟨rfl, hfixed⟩ := Prod.mk.inj heq
  exact ⟨u, Rows.mem_entries.mp hu, hfixed⟩

theorem Same.symm (h : s.Same s') : s'.Same s := ⟨h.accounts.symm, h.servers.symm⟩

theorem byName_eq_none : s.byName name = none ↔
    ∀ user u, s.accounts.get? user = some u → u.username ≠ name := by
  simp only [byName, List.find?_eq_none, Prod.forall, Rows.mem_entries, decide_eq_true_eq, ne_eq]

theorem Same.byName_eq_none (h : s.Same s') (hnone : s.byName name = none) :
    s'.byName name = none :=
  State.byName_eq_none.mpr fun user u' hu' hname => by
    obtain ⟨u, hu, hfixed⟩ := h.get? hu'
    exact State.byName_eq_none.mp hnone user u hu ((Account.eq_of_fixed hfixed).1.trans hname)

theorem map_fixed_byNameCi : (s.byNameCi N name).map (fun u => (u.1, u.2.fixed)) =
    s.fixed.filter fun u => N.dbLower u.2.username = N.lower name := by
  rw [byNameCi, fixed, List.filter_map]
  rfl

theorem Same.map_byNameCi (h : s.Same s') :
    (s'.byNameCi N name).map (fun u => (u.1, u.2.fixed)) =
      (s.byNameCi N name).map fun u => (u.1, u.2.fixed) := by
  rw [map_fixed_byNameCi, map_fixed_byNameCi, h.accounts]

theorem Same.byNameCi_singleton (h : s.Same s') {u' : Account}
    (hci : s'.byNameCi N name = [(user, u')]) :
    ∃ u, s.byNameCi N name = [(user, u)] ∧ u.fixed = u'.fixed := by
  have hmap : (s.byNameCi N name).map (fun u => (u.1, u.2.fixed)) = [(user, u'.fixed)] := by
    rw [← h.map_byNameCi, hci]
    rfl
  obtain ⟨⟨_, u⟩, hci', heq⟩ := List.map_eq_singleton_iff.mp hmap
  obtain ⟨rfl, hfixed⟩ := Prod.mk.inj heq
  exact ⟨u, hci', hfixed⟩

theorem get?_of_byNameCi (h : s.byNameCi N name = [(user, u)]) :
    s.accounts.get? user = some u := by
  have hmem : (user, u) ∈ s.byNameCi N name := h ▸ List.mem_singleton_self _
  exact Rows.mem_entries.mp (List.mem_filter.mp hmem).1

theorem Same.wrong (h : s.Same s') (hwrong : s.Wrong N name password) :
    s'.Wrong N name password := by
  refine ⟨fun user u' hu' hlocal hname => ?_, fun user u' hu' hldap hname => ?_,
    fun hnone hci => ?_⟩
  · obtain ⟨u, hu, hfixed⟩ := h.get? hu'
    obtain ⟨husername, htype, hhash, -⟩ := Account.eq_of_fixed hfixed
    rw [← hhash]
    exact hwrong.hash user u hu (htype.trans hlocal) (husername.trans hname)
  · obtain ⟨u, hu, hfixed, hname⟩ : ∃ u, s.accounts.get? user = some u ∧ u.fixed = u'.fixed ∧
        (u.username = name ∨ s.byName name = none ∧ s.byNameCi N name = [(user, u)]) := by
      rcases hname with hname | ⟨hnone, hci⟩
      · obtain ⟨u, hu, hfixed⟩ := h.get? hu'
        exact ⟨u, hu, hfixed, .inl ((Account.eq_of_fixed hfixed).1.trans hname)⟩
      · obtain ⟨u, hci', hfixed⟩ := h.byNameCi_singleton hci
        exact ⟨u, get?_of_byNameCi hci', hfixed, .inr ⟨h.symm.byName_eq_none hnone, hci'⟩⟩
    obtain ⟨husername, htype, -, hserver⟩ := Account.eq_of_fixed hfixed
    rw [← husername, ← hserver, h.servers]
    exact hwrong.existing user u hu (htype.trans hldap) hname
  · rw [h.servers]
    refine hwrong.group (h.symm.byName_eq_none hnone) ?_
    have hmap := h.map_byNameCi.symm.trans (congrArg _ hci)
    exact List.map_eq_nil_iff.mp hmap

theorem Same.keyed (h : s.Same s') (hkeyed : s.Keyed N name) : s'.Keyed N name := by
  intro hnone user u' hci hldap
  obtain ⟨u, hci', hfixed⟩ := h.byNameCi_singleton hci
  obtain ⟨hname, htype, -, -⟩ := Account.eq_of_fixed hfixed
  rw [← hname]
  exact hkeyed (h.symm.byName_eq_none hnone) user u hci' (htype.trans hldap)

/-- A wrong password is counted on its account. -/
theorem same_setAccount {u' : Account} (hu : s.accounts.get? user = some u)
    (hfixed : u'.fixed = u.fixed) : s.Same (s.setAccount user u') := by
  refine ⟨Rows.map_entries_put hu ?_, rfl⟩
  rw [hfixed]

end State

theorem Account.fixed_passwordFailed (u : Account) (now : Nat) :
    (u.passwordFailed now).fixed = u.fixed := by
  rw [passwordFailed]
  split
  · rfl
  · dsimp only
    split
    · split <;> rfl
    · split
      · rfl
      · split <;> rfl

/-! ## The routes -/

/-- An attempt does to the name's keys, and answers, what those keys alone say. -/
structure Refines (N : Env) (s : State) (m : Moment) (name : Str) (result : State × Answer) :
    Prop where
  answer : result.2 = ((s.throttle (key N name)).attempt (refusesName name) m).2
  entry : result.1.throttle (key N name) =
    ((s.throttle (key N name)).attempt (refusesName name) m).1
  same : s.Same result.1

/-- The attempt is looked at: it comes from the page, and the name is one the driver takes and
is not stopped. -/
structure Open (N : Env) (s : State) (m : Moment) (name : Str) : Prop where
  foreign : m.foreign = false
  refused : refusesName name = false
  secondsLeft : (s.throttle (key N name)).secondsLeft m.asked = none

/-- **A counted failure** reads as any other. -/
theorem refines_loginFail (hopen : Open N s m name) (hsame : s.Same s')
    (hthrottle : s'.throttle = s.throttle) (hkey : key N username = key N name)
    (hcounted : reason.counted = true)
    (hmessage : reason.message = Reason.invalidCredentials.message) :
    Refines N s m name (s'.loginFail N m username reason none) := by
  have hattempt : (s.throttle (key N name)).attempt (refusesName name) m =
      (((s.throttle (key N name)).failed m.counted m.stopped).1,
        ⟨some (((s.throttle (key N name)).failed m.counted m.stopped).2.elim
          Reason.invalidCredentials.message lockMessage), .home⟩) := by
    rw [Entry.attempt, hopen.foreign, hopen.refused, hopen.secondsLeft]
    rfl
  rw [State.loginFail, if_pos hcounted, hkey, hthrottle, Option.getD_none, hmessage]
  refine ⟨?_, ?_, hsame.accounts, hsame.servers⟩
  · rw [hattempt]
  · rw [hattempt]
    show Function.update s'.throttle (key N username) _ (key N name) = _
    rw [hkey, Function.update_self]

theorem refines_loginLocal (hopen : Open N s m name) (hwrong : s.Wrong N name password)
    (hu : s.accounts.get? user = some u) (hlocal : u.authType = .LOCAL)
    (hname : u.username = name) : Refines N s m name (s.loginLocal N m user u password) := by
  have hkey : key N u.username = key N name := by rw [hname]
  rw [State.loginLocal]
  split
  · exact refines_loginFail hopen (.refl s) rfl hkey rfl rfl
  · rw [hwrong.hash user u hu hlocal hname]
    have hfixed : (u.lifted.passwordFailed m.now).fixed = u.fixed :=
      Account.fixed_passwordFailed u.lifted m.now
    exact refines_loginFail hopen (State.same_setAccount hu hfixed) rfl hkey rfl rfl

/-- A directory that does not accept a password in a bind does not sign in with it. -/
theorem authenticate_ne {srv : LDAPServer} {member : Option Bool}
    (hbind : ∀ member, srv.bind username password ≠ .accepted member) :
    srv.authenticate username password ≠ .accepted member := by
  rw [LDAPServer.authenticate]
  split
  · nofun
  · exact hbind member

theorem refines_loginLdapExisting (hopen : Open N s m name) (hwrong : s.Wrong N name password)
    (hu : s.accounts.get? user = some u) (hldap : u.authType = .LDAP)
    (hname : u.username = name ∨ s.byName name = none ∧ s.byNameCi N name = [(user, u)])
    (hkey : key N u.username = key N name) :
    Refines N s m name (s.loginLdapExisting N m user u password) := by
  rw [State.loginLdapExisting]
  split
  · exact refines_loginFail hopen (.refl s) rfl hkey rfl rfl
  · next srv hserver =>
    split
    · exact refines_loginFail hopen (.refl s) rfl hkey rfl rfl
    · split
      · exact refines_loginFail hopen (.refl s) rfl hkey rfl rfl
      · exact refines_loginFail hopen (.refl s) rfl hkey rfl rfl
      · next member haccepted =>
        exact absurd haccepted (authenticate_ne fun member =>
          hwrong.existing user u hu hldap hname srv member hserver)

theorem refines_loginLdapGroup (hopen : Open N s m name) (hwrong : s.Wrong N name password)
    (hreserved : isReserved N name = false) (hnone : s.byName name = none)
    (hci : s.byNameCi N name = []) :
    Refines N s m name (s.loginLdapGroup N m name password) := by
  rw [State.loginLdapGroup, hreserved]
  split
  · next h => cases h
  · split
    · exact refines_loginFail hopen (.refl s) rfl rfl rfl rfl
    · next server srv hfind =>
      have hne : ∀ member, srv.authenticate name password ≠ .accepted member := fun member =>
        authenticate_ne fun member => hwrong.group hnone hci server srv member hfind
      split
      · exact refines_loginFail hopen (.refl s) rfl rfl rfl rfl
      · split
        · exact refines_loginFail hopen (.refl s) rfl rfl rfl rfl
        · exact refines_loginFail hopen (.refl s) rfl rfl rfl rfl
        · next member haccepted =>
          rw [LDAPServer.checkGroupMembership] at haccepted
          split at haccepted
          · split at haccepted
            · cases haccepted
            · cases haccepted
            · exact absurd haccepted (hne member)
          · cases haccepted

/-- A wrong password that is looked at. -/
theorem refines_login_open (hforeign : m.foreign = false) (hrefused : refusesName name = false)
    (hreserved : isReserved N name = false) (hkeyed : s.Keyed N name)
    (hwrong : s.Wrong N name password) : Refines N s m name (s.login N m name password) := by
  rw [State.login, hforeign, hrefused]
  simp only [Bool.false_eq_true, if_false]
  split
  · next seconds hseconds =>
    have hattempt : (s.throttle (key N name)).attempt (refusesName name) m =
        (s.throttle (key N name), ⟨some (lockMessage seconds), .home⟩) := by
      rw [Entry.attempt, hforeign, hrefused, hseconds]
      rfl
    exact ⟨by rw [hattempt]; rfl, by rw [hattempt]; rfl, .refl s⟩
  · next hseconds =>
    have hopen : Open N s m name := ⟨hforeign, hrefused, hseconds⟩
    split
    · next user u hfind =>
      obtain ⟨hu, hname⟩ := Rows.get?_of_find? hfind
      have hname : u.username = name := of_decide_eq_true hname
      split
      · next hlocal => exact refines_loginLocal hopen hwrong hu hlocal hname
      · next hldap =>
        exact refines_loginLdapExisting hopen hwrong hu hldap (.inl hname) (by rw [hname])
    · next hnone =>
      split
      · next user u found hldap hsame =>
        rw [hsame] at hldap
        obtain ⟨rfl, htype⟩ := ListUpdate.eq_of_filter_singleton hldap
        have hldap : u.authType = .LDAP := of_decide_eq_true htype
        exact refines_loginLdapExisting hopen hwrong (State.get?_of_byNameCi hsame) hldap
          (.inr ⟨hnone, hsame⟩) (hkeyed hnone user u hsame hldap)
      · next hci => exact refines_loginLdapGroup hopen hwrong hreserved hnone hci
      · exact refines_loginFail hopen (.refl s) rfl rfl rfl rfl

/-- **Every route** answers a wrong password alike. -/
theorem refines_login (hreserved : isReserved N name = false) (hkeyed : s.Keyed N name)
    (hwrong : s.Wrong N name password) : Refines N s m name (s.login N m name password) := by
  cases hforeign : m.foreign with
  | true =>
    have hattempt : (s.throttle (key N name)).attempt (refusesName name) m =
        (s.throttle (key N name), ⟨none, .home⟩) := by
      rw [Entry.attempt, hforeign]
      rfl
    rw [State.login, hforeign]
    exact ⟨by rw [hattempt]; rfl, by rw [hattempt]; rfl, .refl s⟩
  | false =>
    cases hrefused : refusesName name with
    | true =>
      have hattempt : (s.throttle (key N name)).attempt (refusesName name) m =
          (s.throttle (key N name), ⟨none, .error⟩) := by
        rw [Entry.attempt, hforeign, hrefused]
        rfl
      rw [State.login, hforeign, hrefused]
      exact ⟨by rw [hattempt]; rfl, by rw [hattempt]; rfl, .refl s⟩
    | false => exact refines_login_open hforeign hrefused hreserved hkeyed hwrong

/-! ## Two names -/

/-- **A sequence of attempts** with wrong passwords is one on the keys alone. -/
theorem refines_attempts {tries : List (Moment × Str)} (hreserved : isReserved N name = false)
    (hkeyed : s.Keyed N name) (hwrong : ∀ t ∈ tries, s.Wrong N name t.2) :
    (s.attempts N name tries).2 =
        ((s.throttle (key N name)).attempts (refusesName name) (tries.map Prod.fst)).2 ∧
      (s.attempts N name tries).1.throttle (key N name) =
        ((s.throttle (key N name)).attempts (refusesName name) (tries.map Prod.fst)).1 := by
  induction tries generalizing s with
  | nil => exact ⟨rfl, rfl⟩
  | cons t tries ih =>
    obtain ⟨m, password⟩ := t
    have hfirst : Refines N s m name (s.login N m name password) :=
      refines_login hreserved hkeyed (hwrong _ List.mem_cons_self)
    obtain ⟨hanswers, hentry⟩ := ih (hfirst.same.keyed hkeyed) fun t ht =>
      hfirst.same.wrong (hwrong t (List.mem_cons_of_mem _ ht))
    rw [hfirst.entry] at hanswers hentry
    refine ⟨?_, hentry⟩
    rw [State.attempts, List.map_cons, Entry.attempts, hfirst.answer, hanswers]

/-- **Every name alike**: wrong passwords at the same times are answered alike, and leave the
same keys, whatever accounts and directories the two names are tried on. -/
theorem alike_of_keyed {s₁ s₂ : State} {name₁ name₂ : Str} {tries₁ tries₂ : List (Moment × Str)}
    (hreserved₁ : isReserved N name₁ = false) (hreserved₂ : isReserved N name₂ = false)
    (hrefused : refusesName name₁ = refusesName name₂)
    (hkeyed₁ : s₁.Keyed N name₁) (hkeyed₂ : s₂.Keyed N name₂)
    (hwrong₁ : ∀ t ∈ tries₁, s₁.Wrong N name₁ t.2) (hwrong₂ : ∀ t ∈ tries₂, s₂.Wrong N name₂ t.2)
    (htimes : tries₁.map Prod.fst = tries₂.map Prod.fst)
    (hthrottle : s₁.throttle (key N name₁) = s₂.throttle (key N name₂)) :
    (s₁.attempts N name₁ tries₁).2 = (s₂.attempts N name₂ tries₂).2 ∧
      (s₁.attempts N name₁ tries₁).1.throttle (key N name₁) =
        (s₂.attempts N name₂ tries₂).1.throttle (key N name₂) := by
  obtain ⟨hanswers₁, hentry₁⟩ := refines_attempts hreserved₁ hkeyed₁ hwrong₁
  obtain ⟨hanswers₂, hentry₂⟩ := refines_attempts hreserved₂ hkeyed₂ hwrong₂
  rw [hanswers₁, hentry₁, hanswers₂, hentry₂, htimes, hthrottle, hrefused]
  exact ⟨rfl, rfl⟩

/-! ## The dotted capital -/

/-- The lower cases of ASCII and of the dotted capital I, which is one character to the
database and two to Python; every password is wrong. -/
def dotted : Env where
  lower := List.flatMap fun c => if c.toNat = 0x130 then ['i', Char.ofNat 0x307] else [c.toLower]
  dbLower := List.map fun c => if c.toNat = 0x130 then 'i' else c.toLower
  checkPasswordHash _ _ := false

/-- The account of a directory that rejects every password. -/
def directoryAccount (username : Str) : State where
  accounts := ⟨[some ⟨username, .LDAP, [], true, true, 0, none, some 0, false⟩]⟩
  servers := ⟨[some ⟨true, true, true, fun _ _ => .rejected⟩]⟩
  throttle _ := ⟨none, none⟩

/-- Six attempts in a second. -/
def sixTries : List (Moment × Str) :=
  List.replicate 6 (⟨false, 0, some 0, some 0, some 0⟩, ['x'])

theorem wrong_directoryAccount (username name password : Str) :
    (directoryAccount username).Wrong dotted name password := by
  have hbind : ∀ server srv member, (directoryAccount username).servers.get? server = some srv →
      ∀ typed, srv.bind typed password ≠ .accepted member := by
    intro server srv member hsrv
    cases server with
    | zero =>
      obtain rfl := Option.some.inj hsrv
      nofun
    | succ server => cases hsrv
  refine ⟨fun _ _ _ _ _ => rfl, fun _ u _ _ _ srv member hserver => ?_,
    fun _ _ server srv member hfind => hbind server srv member (Rows.get?_of_find? hfind).1 name⟩
  obtain ⟨server, -, hsrv⟩ := Option.bind_eq_some_iff.mp hserver
  exact hbind server srv member hsrv u.username

/-- **Not every name alike**: with an account `İnci` from the directory, the sixth wrong
password at `inci` is checked, and at a name that nobody has it is not. -/
theorem not_alike :
    let s := directoryAccount (Char.ofNat 0x130 :: "nci".toList)
    (∀ t ∈ sixTries, s.Wrong dotted "inci".toList t.2 ∧ s.Wrong dotted "nobody".toList t.2) ∧
      isReserved dotted "inci".toList = false ∧ isReserved dotted "nobody".toList = false ∧
      (s.attempts dotted "inci".toList sixTries).2 ≠
        (s.attempts dotted "nobody".toList sixTries).2 :=
  ⟨fun t _ => ⟨wrong_directoryAccount _ _ t.2, wrong_directoryAccount _ _ t.2⟩, by decide,
    by decide, by decide⟩

/-- With an account `inci` instead the two are answered alike, a stop at the end. -/
theorem alike_inci :
    ((directoryAccount "inci".toList).attempts dotted "Inci".toList sixTries).2 =
        ((directoryAccount "inci".toList).attempts dotted "nobody".toList sixTries).2 ∧
      ((directoryAccount "inci".toList).attempts dotted "Inci".toList sixTries).1.throttle
          (key dotted "Inci".toList) =
        ((directoryAccount "inci".toList).attempts dotted "nobody".toList sixTries).1.throttle
          (key dotted "nobody".toList) := by
  refine alike_of_keyed (by decide) (by decide) (by decide) ?_ ?_
    (fun t _ => wrong_directoryAccount _ _ t.2) (fun t _ => wrong_directoryAccount _ _ t.2) rfl rfl
  · intro _ user u hfound _
    have hkeys : ∀ x ∈ (directoryAccount "inci".toList).byNameCi dotted "Inci".toList,
        key dotted x.2.username = key dotted "Inci".toList := by decide
    exact hkeys (user, u) (hfound ▸ List.mem_singleton_self _)
  · intro _ user u hfound _
    have hkeys : ∀ x ∈ (directoryAccount "inci".toList).byNameCi dotted "nobody".toList,
        key dotted x.2.username = key dotted "nobody".toList := by decide
    exact hkeys (user, u) (hfound ▸ List.mem_singleton_self _)

end SignIn
end NetRollout
