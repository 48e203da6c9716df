import NetRollout.Accounts.Tables
import NetRollout.Library.ListUpdate
import NetRollout.Library.Transition

/-!
# Never without an administrator

The operations on accounts and directories as requests, each read of the database and each
commit a step: `admin_user_action` and `admin_bulk_action`, `admin_server_ldap_delete`,
`admin_server_ldap_save`, the role set at a directory sign-in, and the count of wrong
passwords.  The first, the second and a demotion at a sign-in call `check_admins_left`,
whose two counts are two reads, before they commit.

A lockout disables any account but the factory admin's, a directory is switched off
unchecked, and what a check counted may be gone at its commit (`not_guarded`).  In the runs
without such a step an administrator who can sign in is left at all times, and an operation
whose count finds none is refused and changes nothing (`guarded_of_spared`).  An account's
lock is left out: a wrong password may come at any time.
-/

namespace NetRollout
namespace Accounts

/-- An operation under way. -/
inductive Request where
  /-- The chosen users are read one by one. -/
  | choosing (admin : UserId) (action : UserAction) (rest : List UserId)
    (chosen : List (UserId × User))
  /-- The refusals before the check. -/
  | ruling (action : UserAction) (chosen : List (UserId × User))
  | opening (admin : UserId) (server : ServerId) (deleteUsers : Bool)
  | listing (admin : UserId) (server : ServerId) (deleteUsers : Bool)
  | saving (server : ServerId) (form : LDAPServer)
  /-- A directory's user, whose group rules give the role. -/
  | signingIn (user : UserId) (role : Role)
  | asking (user : UserId) (loaded : User) (role : Role)
  /-- A local account's password. -/
  | trying (user : UserId) (right : Bool)
  /-- `check_admins_left`: the count without the accounts, then with them. -/
  | counting (w : Write)
  | recounting (w : Write)
  | writing (w : Write)
  | refused
  | ended

namespace Request

/-- On to the check, or to the commit. -/
def check (w : Write) : Request := if w.checked then .counting w else .writing w

/-- One user more is chosen. -/
def choose (T : Tables) (admin : UserId) (action : UserAction) (id : UserId)
    (chosen : List (UserId × User)) : List (UserId × User) :=
  match T.user? id with
  | none => chosen
  | some u =>
    if u.isFactoryAdmin && action ∉ UserAction.FACTORY_ACTIONS then chosen
    else if action ∈ [.disable, .delete] ∧ id = admin then chosen
    else chosen ++ [(id, u)]

/-- What a read leads to. -/
def next (T : Tables) : Request → Request
  | choosing admin action (id :: rest) chosen =>
    .choosing admin action rest (choose T admin action id chosen)
  | choosing _ action [] chosen => .ruling action chosen
  | ruling action chosen =>
    if action ∈ UserAction.ROLE_ACTIONS ∧ chosen.any fun c => T.directorySetsRole c.2 then .refused
    else if action ∈ UserAction.GIVES_ACCESS ∧ chosen.any fun c => c.2.hasNoDirectory then .refused
    else check (.act action chosen)
  | opening admin server deleteUsers =>
    if (T.server? server).isSome then .listing admin server deleteUsers else .ended
  | listing admin server deleteUsers =>
    if (T.usersOf server).any fun c => c.1 = admin then .refused
    else check (.deleteDirectory server deleteUsers (T.usersOf server))
  | saving server form =>
    match T.server? server with
    | none => .ended
    | some loaded => check (.saveDirectory server loaded form)
  | signingIn user role =>
    match T.user? user with
    | some u => if u.authType = .LDAP then .asking user u role else .ended
    | none => .ended
  | asking user loaded role =>
    if (loaded.ldapServer.bind T.server?).any LDAPServer.isActive && loaded.isApproved &&
        loaded.isActive && T.directorySetsRole loaded && loaded.role ≠ role
    then check (.setRole user loaded role)
    else .ended
  | trying user right =>
    match T.user? user with
    | none => .ended
    | some u =>
      if u.authType ≠ .LOCAL then .ended
      else if right then if u.failedSignIns = 0 then .ended else check (.passwordOk user u)
      else if u.isApproved && u.isActive then check (.passwordFailed user u)
      else .ended
  | counting w => if T.adminsLeft w.removing = 0 then .recounting w else .writing w
  | recounting w => if 0 < T.adminsLeft [] then .refused else .writing w
  | r => r

end Request

structure State where
  tables : Tables
  requests : List Request := []

inductive Action where
  | act (admin : UserId) (action : UserAction) (ids : List UserId)
  | deleteDirectory (admin : UserId) (server : ServerId) (deleteUsers : Bool)
  | saveDirectory (admin : UserId) (server : ServerId) (form : LDAPServer)
  | signIn (user : UserId) (role : Role)
  | password (user : UserId) (right : Bool)
  /-- A request's next read, or its commit. -/
  | next (i : Nat)

namespace State

/-- `login_required` and `require_admin`. -/
def requireAdmin (s : State) (admin : UserId) (r : Request) : Option State :=
  if (s.tables.user? admin).any fun u => u.isActive && u.role = .admin then
    some { s with requests := s.requests ++ [r] }
  else none

def step (s : State) : Action → Option State
  | .act admin action ids => s.requireAdmin admin (.choosing admin action ids [])
  | .deleteDirectory admin server deleteUsers =>
    s.requireAdmin admin (.opening admin server deleteUsers)
  | .saveDirectory admin server form => s.requireAdmin admin (.saving server form)
  | .signIn user role => some { s with requests := s.requests ++ [.signingIn user role] }
  | .password user right => some { s with requests := s.requests ++ [.trying user right] }
  | .next i => s.requests[i]?.map fun
    | .writing w =>
      { tables := (w.run s.tables).getD s.tables, requests := s.requests.set i .ended }
    | r => { s with requests := s.requests.set i (r.next s.tables) }

end State

/-- The accounts, from any state with an administrator who can sign in. -/
def accounts : System State Action where
  Init s := s.requests = [] ∧ 0 < s.tables.adminsLeft []
  step := State.step

/-- **Guarded**: an administrator who can sign in is left, and an operation whose count
found none is refused and changes nothing. -/
structure Guarded (s : State) : Prop where
  left : 0 < s.tables.adminsLeft []
  refused : ∀ i w, s.requests[i]? = some (.recounting w) →
    s.step (.next i) = some { s with requests := s.requests.set i .refused }

/-! ## The steps that take the last administrator -/

/-- After its check an operation counts on an administrator outside the accounts taken. -/
def Request.leaves (T : Tables) (taken : List UserId) : Request → Bool
  | .writing w => !w.checked || 0 < T.adminsLeft (w.removing ++ taken)
  | _ => true

/-- A commit that was not checked leaves an administrator; and no commit takes the last one
that another operation, past its check, counts on. -/
def spared (s : State) : Action → Bool
  | .next i =>
    match s.requests[i]? with
    | some (.writing w) =>
      (w.checked || 0 < s.tables.adminsLeft (w.taking s.tables)) &&
        (s.requests.eraseIdx i).all (Request.leaves s.tables (w.taking s.tables))
    | _ => true
  | _ => true

/-! ## The invariant -/

namespace Request

/-- The commit that a check was made for, or is. -/
def write? : Request → Option Write
  | .counting w | .recounting w | .writing w => some w
  | _ => none

/-- What holds of a request: past its check it leaves an administrator, and the deletion of
a directory has listed all its users. -/
structure Sound (T : Tables) (r : Request) : Prop where
  passed : ∀ w, r = .writing w → w.checked = true → 0 < T.adminsLeft w.removing
  listed : ∀ server deleteUsers users, r.write? = some (.deleteDirectory server deleteUsers users) →
    ∀ i u, T.user? i = some u → u.ldapServer = some server → i ∈ users.map Prod.fst

variable {T T' : Tables} {r : Request}

/-- A request that has no commit yet, or none any more. -/
theorem sound_of_write? (h : r.write? = none) : r.Sound T := by
  refine ⟨?_, fun server deleteUsers users hw => ?_⟩
  · rintro w rfl
    cases h
  · rw [h] at hw
    cases hw

theorem sound_check {w : Write} (h : ∀ server deleteUsers users,
      w = .deleteDirectory server deleteUsers users →
        ∀ i u, T.user? i = some u → u.ldapServer = some server → i ∈ users.map Prod.fst) :
    (check w).Sound T := by
  unfold check
  split
  · exact ⟨nofun, fun server deleteUsers users hw =>
      h server deleteUsers users (Option.some.inj hw)⟩
  · next hunchecked =>
    refine ⟨fun w' hw' hchecked => ?_, fun server deleteUsers users hw =>
      h server deleteUsers users (Option.some.inj hw)⟩
    cases hw'
    exact absurd hchecked hunchecked

/-- **A read** keeps the invariant, as long as an administrator is left. -/
theorem sound_next (hleft : 0 < T.adminsLeft []) (hr : r.Sound T) : (r.next T).Sound T := by
  cases r with
  | choosing admin action rest chosen => cases rest <;> exact sound_of_write? rfl
  | ruling action chosen =>
    rw [next]
    split
    · exact sound_of_write? rfl
    · split
      · exact sound_of_write? rfl
      · exact sound_check nofun
  | opening admin server deleteUsers =>
    rw [next]
    split <;> exact sound_of_write? rfl
  | listing admin server deleteUsers =>
    rw [next]
    split
    · exact sound_of_write? rfl
    · refine sound_check fun server' deleteUsers' users hw i u hu hlink => ?_
      cases hw
      exact List.mem_map.mpr ⟨(i, u), Tables.mem_usersOf.mpr ⟨hu, hlink⟩, rfl⟩
  | saving server form =>
    rw [next]
    split
    · exact sound_of_write? rfl
    · exact sound_check nofun
  | signingIn user role =>
    rw [next]
    split
    · split <;> exact sound_of_write? rfl
    · exact sound_of_write? rfl
  | asking user loaded role =>
    rw [next]
    split
    · exact sound_check nofun
    · exact sound_of_write? rfl
  | trying user right =>
    rw [next]
    split
    · exact sound_of_write? rfl
    · repeat' split
      all_goals first | exact sound_of_write? rfl | exact sound_check nofun
  | counting w =>
    rw [next]
    split
    · exact ⟨nofun, hr.listed⟩
    · next hsome =>
      refine ⟨fun w' hw' _ => ?_, hr.listed⟩
      cases hw'
      exact Nat.pos_of_ne_zero hsome
  | recounting w =>
    rw [next, if_pos hleft]
    exact sound_of_write? rfl
  | writing w => exact hr
  | refused | ended => exact hr

/-- The tables change under a request. -/
theorem Sound.retable (h : r.Sound T) (hlinked : T.Linked T')
    (hpassed : ∀ w, r = .writing w → w.checked = true → 0 < T'.adminsLeft w.removing) :
    r.Sound T' := by
  refine ⟨hpassed, fun server deleteUsers users hw i u' hu' hlink' => ?_⟩
  obtain ⟨u, hu, hlink⟩ := hlinked i u' hu'
  refine h.listed server deleteUsers users hw i u hu ?_
  rcases hlink with hlink | hlink
  · rw [← hlink, hlink']
  · rw [hlink] at hlink'
    cases hlink'

/-- Past its check, a commit takes nobody that was not left out of the count. -/
theorem mem_removing_of_taking {w : Write} (h : (writing w).Sound T) (hchecked : w.checked = true)
    {i : UserId} (hi : i ∈ w.taking T) : i ∈ w.removing := by
  cases w with
  | act action chosen =>
    rw [Write.taking, if_pos (of_decide_eq_true hchecked)] at hi
    exact hi
  | deleteDirectory server deleteUsers users =>
    rcases List.mem_append.mp hi with hi | hi
    · exact hi
    · obtain ⟨⟨_, u⟩, hu, rfl⟩ := List.mem_map.mp hi
      obtain ⟨hu, hlink⟩ := Tables.mem_usersOf.mp hu
      exact h.listed server deleteUsers users rfl _ u hu hlink
  | setRole user loaded role =>
    rw [Write.taking] at hi
    split at hi
    · exact hi
    · cases hi
  | saveDirectory | passwordFailed | passwordOk => cases hchecked

end Request

namespace State

/-- The invariant. -/
structure Sound (s : State) : Prop where
  left : 0 < s.tables.adminsLeft []
  requests : ∀ r ∈ s.requests, r.Sound s.tables

variable {s s' : State}

theorem Sound.append {r : Request} (hs : s.Sound) (hr : r.write? = none) :
    ({ s with requests := s.requests ++ [r] } : State).Sound :=
  ⟨hs.left, ListUpdate.forall_mem_concat hs.requests (Request.sound_of_write? hr)⟩

theorem Sound.requireAdmin {admin : UserId} {r : Request} (hs : s.Sound) (hr : r.write? = none)
    (h : s.requireAdmin admin r = some s') : s'.Sound := by
  obtain ⟨-, h⟩ := Option.ite_none_right_eq_some.mp h
  exact Option.some.inj h ▸ hs.append hr

/-- **A commit that is spared** leaves an administrator, to every operation past its
check too. -/
theorem sound_of_writing {i : Nat} {w : Write} (hs : s.Sound)
    (hi : s.requests[i]? = some (.writing w)) (hallowed : spared s (.next i) = true) :
    ({ tables := (w.run s.tables).getD s.tables, requests := s.requests.set i .ended } :
      State).Sound := by
  rw [spared, hi] at hallowed
  obtain ⟨hown, hothers⟩ := Bool.and_eq_true_iff.mp hallowed
  have hw := hs.requests _ (List.mem_of_getElem? hi)
  cases hrun : w.run s.tables with
  | none =>
    exact ⟨hs.left, ListUpdate.forall_mem_set hs.requests (Request.sound_of_write? rfl)⟩
  | some T =>
    have hremain : ∀ {ids : List UserId}, 0 < s.tables.adminsLeft (ids ++ w.taking s.tables) →
        0 < T.adminsLeft ids := by
      intro ids hpos
      obtain ⟨k, hadmin, hnot⟩ := Tables.adminsLeft_pos.mp hpos
      rw [List.mem_append, not_or] at hnot
      exact Tables.adminsLeft_pos.mpr ⟨k, Write.isAdmin_of_run hrun hadmin hnot.2, hnot.1⟩
    refine ⟨hremain ?_, fun r hr => ?_⟩
    · rw [List.nil_append]
      rcases Bool.or_eq_true_iff.mp hown with hchecked | hpos
      · obtain ⟨k, hadmin, hnot⟩ := Tables.adminsLeft_pos.mp (hw.passed w rfl hchecked)
        refine Tables.adminsLeft_pos.mpr ⟨k, hadmin, fun htaken => hnot ?_⟩
        exact Request.mem_removing_of_taking hw hchecked htaken
      · exact of_decide_eq_true hpos
    · rcases ListUpdate.mem_set_cases hr with rfl | hr
      · exact Request.sound_of_write? rfl
      · refine (hs.requests r (List.mem_of_mem_eraseIdx hr)).retable (.run hrun) ?_
        rintro w' rfl hchecked
        have hleaves := List.all_eq_true.mp hothers _ hr
        rw [Request.leaves, hchecked] at hleaves
        exact hremain (of_decide_eq_true hleaves)

theorem sound_of_step {a : Action} (hallowed : spared s a = true) (hs : s.Sound)
    (h : s.step a = some s') : s'.Sound := by
  cases a with
  | act admin action ids => exact hs.requireAdmin rfl h
  | deleteDirectory admin server deleteUsers => exact hs.requireAdmin rfl h
  | saveDirectory admin server form => exact hs.requireAdmin rfl h
  | signIn user role => exact Option.some.inj h ▸ hs.append rfl
  | password user right => exact Option.some.inj h ▸ hs.append rfl
  | next i =>
    obtain ⟨r, hr, rfl⟩ := Option.map_eq_some_iff.mp h
    split
    next w => exact sound_of_writing hs hr hallowed
    next =>
      refine ⟨hs.left, ListUpdate.forall_mem_set hs.requests ?_⟩
      exact Request.sound_next hs.left (hs.requests r (List.mem_of_getElem? hr))

end State

/-- **Never without an administrator**, in the runs that spare the last one. -/
theorem guarded_of_spared {s : State} (h : accounts.Reachable spared s) : Guarded s := by
  have hsound : s.Sound := by
    refine h.invariant (fun s hs => ⟨hs.2, fun r hr => ?_⟩) fun s a s' _ hallowed hs hstep =>
      State.sound_of_step hallowed hs hstep
    rw [hs.1] at hr
    cases hr
  refine ⟨hsound.left, fun i w hi => ?_⟩
  simp only [State.step, hi, Option.map_some, Request.next, if_pos hsound.left]

/-! ## Runs -/

/-- An administrator, from a directory or local. -/
def administrator (directory : Option ServerId) : User where
  role := .admin
  isActive := true
  isApproved := true
  authType := if directory.isSome then .LDAP else .LOCAL
  ldapServer := directory
  factory := false
  failedSignIns := 0

/-- **No administrator is left** after the tenth wrong password of the last one; after the
last one's directory is switched off; and after two demote each other at once. -/
theorem not_guarded :
    (∃ s, accounts.Reachable System.always s ∧ s.tables.users.length = 1 ∧ ¬ Guarded s) ∧
      (∃ s, accounts.Reachable System.always s ∧ s.tables.servers.length = 1 ∧ ¬ Guarded s) ∧
        ∃ s, accounts.Reachable System.always s ∧ s.tables.users.length = 2 ∧ ¬ Guarded s := by
  have hwrong : (accounts.exec System.always ⟨⟨[some (administrator none)], []⟩, []⟩
      ((List.range 10).flatMap fun i => [.password 0 false, .next i, .next i])).any (fun s =>
        s.tables.users.length = 1 && s.tables.adminsLeft [] = 0) = true := by decide
  have hoff : (accounts.exec System.always
      ⟨⟨[some (administrator (some 0))], [some ⟨true, false⟩]⟩, []⟩
        [.saveDirectory 0 0 ⟨false, false⟩, .next 0, .next 0]).any (fun s =>
          s.tables.servers.length = 1 && s.tables.adminsLeft [] = 0) = true := by decide
  have hboth : (accounts.exec System.always
      ⟨⟨[some (administrator none), some (administrator none)], []⟩, []⟩
        ([.act 0 .demote [1], .act 1 .demote [0]] ++
          (List.replicate 5 [.next 0, .next 1]).flatten)).any (fun s =>
            s.tables.users.length = 2 && s.tables.adminsLeft [] = 0) = true := by decide
  have hnone : ∀ {s : State}, s.tables.adminsLeft [] = 0 → ¬ Guarded s := fun hzero hguarded =>
    hguarded.left.ne' hzero
  refine ⟨?_, ?_, ?_⟩
  · obtain ⟨s, hs, hp⟩ := System.exists_reachable (by exact ⟨rfl, by decide⟩) hwrong
    rw [Bool.and_eq_true, decide_eq_true_eq, decide_eq_true_eq] at hp
    exact ⟨s, hs, hp.1, hnone hp.2⟩
  · obtain ⟨s, hs, hp⟩ := System.exists_reachable (by exact ⟨rfl, by decide⟩) hoff
    rw [Bool.and_eq_true, decide_eq_true_eq, decide_eq_true_eq] at hp
    exact ⟨s, hs, hp.1, hnone hp.2⟩
  · obtain ⟨s, hs, hp⟩ := System.exists_reachable (by exact ⟨rfl, by decide⟩) hboth
    rw [Bool.and_eq_true, decide_eq_true_eq, decide_eq_true_eq] at hp
    exact ⟨s, hs, hp.1, hnone hp.2⟩

/-- The same two one after the other: once the second is demoted, the first may not demote
itself. -/
theorem guarded_demotion : ∃ s, accounts.Reachable spared s ∧ s.tables.adminsLeft [] = 1 ∧
    s.requests.length = 2 ∧ Guarded s := by
  have hrun : (accounts.exec spared
      ⟨⟨[some (administrator none), some (administrator none)], []⟩, []⟩
        (.act 0 .demote [1] :: List.replicate 5 (.next 0) ++
          .act 0 .demote [0] :: List.replicate 5 (.next 1))).any (fun s =>
            s.tables.adminsLeft [] = 1 && s.requests.length = 2) = true := by decide
  obtain ⟨s, hs, hp⟩ := System.exists_reachable (by exact ⟨rfl, by decide⟩) hrun
  rw [Bool.and_eq_true, decide_eq_true_eq, decide_eq_true_eq] at hp
  exact ⟨s, hs, hp.1, hp.2, guarded_of_spared hs⟩

end Accounts
end NetRollout
