import Mathlib.Data.List.Basic
import Mathlib.Data.List.Range
import NetRollout.Library.ListUpdate

/-!
# The accounts and their directories

The tables `users` and `ldap_servers`, as far as `admins_left` of
`src/accounts/users.py` and what changes its answer read them, and what is committed by
each operation: an action on one or many users, the deletion and the saving of a
directory, the role set at a directory sign-in, a wrong password and a right one.

A session writes the columns that differ from what it loaded, on the row as it is by
then; an update of a row that is gone undoes the whole commit.  `taking` is whom a write
may take from the administrators (`isAdmin_of_run`).
-/

namespace NetRollout
namespace Accounts

abbrev UserId := Nat
abbrev ServerId := Nat

/-- `Role`. -/
inductive Role where
  | admin
  | operator
  deriving DecidableEq

/-- `AuthType`. -/
inductive AuthType where
  | LOCAL
  | LDAP
  deriving DecidableEq

structure User where
  role : Role
  isActive : Bool
  isApproved : Bool
  authType : AuthType
  ldapServer : Option ServerId
  /-- Its name is `FACTORY_USERNAME`. -/
  factory : Bool
  failedSignIns : Nat
  deriving DecidableEq

structure LDAPServer where
  isActive : Bool
  /-- It has a service account and an active group rule. -/
  setsRoles : Bool
  deriving DecidableEq

/-- The rows by their ids; `none` is a deleted one. -/
structure Tables where
  users : List (Option User)
  servers : List (Option LDAPServer)

def MAX_FAILED_PASSWORDS : Nat := 5

def DISABLE_AFTER : Nat := 2 * MAX_FAILED_PASSWORDS

namespace User

variable (u : User)

/-- `is_factory_admin`. -/
def isFactoryAdmin : Bool := u.factory && u.authType = .LOCAL

/-- `has_no_directory`. -/
def hasNoDirectory : Bool := u.authType = .LDAP && u.ldapServer.isNone

/-- `clear_lockout`. -/
def clearLockout : User := { u with failedSignIns := 0 }

/-- What the session writes over a row: the columns in which `after` differs from what it
loaded. -/
def written (loaded after : User) : User where
  role := if after.role = loaded.role then u.role else after.role
  isActive := if after.isActive = loaded.isActive then u.isActive else after.isActive
  isApproved := if after.isApproved = loaded.isApproved then u.isApproved else after.isApproved
  authType := u.authType
  ldapServer := u.ldapServer
  factory := u.factory
  failedSignIns :=
    if after.failedSignIns = loaded.failedSignIns then u.failedSignIns else after.failedSignIns

end User

namespace Tables

variable (T : Tables)

def user? (i : UserId) : Option User := T.users[i]?.join

def server? (i : ServerId) : Option LDAPServer := T.servers[i]?.join

/-- The filter of `admins_left`. -/
def canSignIn (u : User) : Bool :=
  u.role = .admin && u.isActive && u.isApproved &&
    (u.authType = .LOCAL || (u.ldapServer.bind T.server?).any LDAPServer.isActive)

def isAdmin (i : UserId) : Bool := (T.user? i).any T.canSignIn

/-- `admins_left`. -/
def adminsLeft (without : List UserId) : Nat :=
  ((List.range T.users.length).filter fun i => T.isAdmin i && i ∉ without).length

/-- `directory_sets_role`. -/
def directorySetsRole (u : User) : Bool :=
  u.authType = .LDAP && (u.ldapServer.bind T.server?).any LDAPServer.setsRoles

/-- `LDAPServer.users`. -/
def usersOf (server : ServerId) : List (UserId × User) :=
  (List.range T.users.length).filterMap fun i =>
    (T.user? i).bind fun u => if u.ldapServer = some server then some (i, u) else none

/-- An `UPDATE` of a row, where there is anything to write. -/
def update (i : UserId) (loaded after : User) : Option Tables :=
  if after = loaded then some T
  else (T.user? i).map fun u => { T with users := T.users.set i (some (u.written loaded after)) }

def deleteUser (i : UserId) : Tables := { T with users := T.users.set i none }

/-- The row goes, and with it the accounts' links to it. -/
def deleteServer (server : ServerId) : Tables where
  users := T.users.map <| Option.map fun u =>
    if u.ldapServer = some server then { u with ldapServer := none } else u
  servers := T.servers.set server none

end Tables

/-! ## What is committed -/

/-- The actions of `user_action_factory` on what `admins_left` reads. -/
inductive UserAction where
  | approve
  | enable
  | disable
  | promote
  | demote
  | delete
  deriving DecidableEq

namespace UserAction

def FACTORY_ACTIONS : List UserAction := [.enable, .disable]

def REMOVES_ADMIN : List UserAction := [.disable, .demote, .delete]

def ROLE_ACTIONS : List UserAction := [.promote, .demote]

def GIVES_ACCESS : List UserAction := [.approve, .enable, .promote]

/-- `user_action_factory`, but for `delete`. -/
def apply (u : User) : UserAction → User
  | .approve => { u with isApproved := true, isActive := true }.clearLockout
  | .enable => { u with isActive := true }.clearLockout
  | .disable => { u with isActive := false }
  | .promote => { u with role := .admin, isApproved := true, isActive := true }.clearLockout
  | .demote => { u with role := .operator }
  | .delete => u

end UserAction

/-- What an operation is about to commit, with the rows as it loaded them. -/
inductive Write where
  | act (action : UserAction) (chosen : List (UserId × User))
  /-- `delete_directory`. -/
  | deleteDirectory (server : ServerId) (deleteUsers : Bool) (users : List (UserId × User))
  /-- `admin_server_ldap_save`. -/
  | saveDirectory (server : ServerId) (loaded form : LDAPServer)
  /-- `set_directory_role`. -/
  | setRole (user : UserId) (loaded : User) (role : Role)
  /-- `password_failed`, `password_ok`. -/
  | passwordFailed (user : UserId) (loaded : User)
  | passwordOk (user : UserId) (loaded : User)

namespace Write

/-- The accounts given to `check_admins_left`. -/
def removing : Write → List UserId
  | act _ chosen => chosen.map Prod.fst
  | deleteDirectory _ _ users => users.map Prod.fst
  | setRole user _ _ => [user]
  | _ => []

/-- `check_admins_left` is called before it. -/
def checked : Write → Bool
  | act action _ => action ∈ UserAction.REMOVES_ADMIN
  | deleteDirectory .. => true
  | setRole _ loaded _ => loaded.role = .admin
  | _ => false

/-- `password_failed`, of an approved and active local account. -/
def failOnce (T : Tables) (user : UserId) (u : User) : Tables :=
  let count := u.failedSignIns + 1
  let next :=
    if u.isFactoryAdmin then { u with failedSignIns := if count < MAX_FAILED_PASSWORDS then count else 0 }
    else if count < DISABLE_AFTER then { u with failedSignIns := count }
    else { u with failedSignIns := count, isActive := false }
  { T with users := T.users.set user (some next) }

/-- The commit; `none` undoes it. -/
def run (T : Tables) : Write → Option Tables
  | act .delete chosen => some (chosen.foldl (fun (T : Tables) c => T.deleteUser c.1) T)
  | act action chosen => chosen.foldlM (fun (T : Tables) c => T.update c.1 c.2 (action.apply c.2)) T
  | deleteDirectory server true users =>
    some ((users.foldl (fun (T : Tables) c => T.deleteUser c.1) T).deleteServer server)
  | deleteDirectory server false users =>
    if users.all fun c => (T.user? c.1).isSome then
      (users.foldlM (fun (T : Tables) c => T.update c.1 c.2 (UserAction.disable.apply c.2)) T).map
        fun T => T.deleteServer server
    else none
  | saveDirectory server loaded form =>
    if form = loaded then some T
    else (T.server? server).map fun srv =>
      let isActive := if form.isActive = loaded.isActive then srv.isActive else form.isActive
      let setsRoles := if form.setsRoles = loaded.setsRoles then srv.setsRoles else form.setsRoles
      { T with servers := T.servers.set server (some ⟨isActive, setsRoles⟩) }
  | setRole user loaded role => T.update user loaded { loaded with role := role }
  | passwordFailed user _ => (T.user? user).map (failOnce T user)
  | passwordOk user loaded => T.update user loaded { loaded with failedSignIns := 0 }

/-- Whom the commit may take from the administrators. -/
def taking (T : Tables) : Write → List UserId
  | act action chosen => if action ∈ UserAction.REMOVES_ADMIN then chosen.map Prod.fst else []
  | deleteDirectory server _ users => users.map Prod.fst ++ (T.usersOf server).map Prod.fst
  | saveDirectory server loaded form =>
    if loaded.isActive && !form.isActive then (T.usersOf server).map Prod.fst else []
  | setRole user _ role => if role = .operator then [user] else []
  | passwordFailed user _ =>
    if (T.user? user).any fun u => !u.isFactoryAdmin && DISABLE_AFTER ≤ u.failedSignIns + 1
    then [user] else []
  | passwordOk .. => []

end Write

/-! ## What a row becomes -/

namespace Tables

variable {T T' T'' : Tables} {i k : UserId}

theorem lt_of_user? {u : User} (hu : T.user? i = some u) : i < T.users.length :=
  ListUpdate.lt_length_of_join hu

/-- The administrators are counted where there is one. -/
theorem adminsLeft_pos {without : List UserId} :
    0 < T.adminsLeft without ↔ ∃ i, T.isAdmin i = true ∧ i ∉ without := by
  rw [adminsLeft, List.length_pos_iff_exists_mem]
  constructor
  · rintro ⟨i, hi⟩
    obtain ⟨-, hi⟩ := List.mem_filter.mp hi
    rw [Bool.and_eq_true, decide_eq_true_eq] at hi
    exact ⟨i, hi⟩
  · rintro ⟨i, hadmin, hnot⟩
    refine ⟨i, List.mem_filter.mpr ⟨List.mem_range.mpr ?_, ?_⟩⟩
    · obtain ⟨u, hu, -⟩ := (Option.any_eq_true _ _).mp hadmin
      exact lt_of_user? hu
    · rw [hadmin, decide_eq_true hnot]
      rfl

theorem mem_usersOf {server : ServerId} {u : User} :
    (i, u) ∈ T.usersOf server ↔ T.user? i = some u ∧ u.ldapServer = some server := by
  simp only [usersOf, List.mem_filterMap, List.mem_range, Option.bind_eq_some_iff]
  constructor
  · rintro ⟨j, -, u', hu', h⟩
    obtain ⟨hserver, h⟩ := Option.ite_none_right_eq_some.mp h
    obtain ⟨rfl, rfl⟩ := Prod.mk.inj (Option.some.inj h)
    exact ⟨hu', hserver⟩
  · rintro ⟨hu, hserver⟩
    exact ⟨i, lt_of_user? hu, u, hu, if_pos hserver⟩

theorem isAdmin_congr (hservers : T'.servers = T.servers) (huser : T'.user? i = T.user? i) :
    T'.isAdmin i = T.isAdmin i := by
  have hserver : T'.server? = T.server? := by
    funext j
    rw [server?, server?, hservers]
  have hcan : T'.canSignIn = T.canSignIn := by
    funext u
    simp only [canSignIn, hserver]
  rw [isAdmin, isAdmin, huser, hcan]

/-- A row set. -/
theorem user?_set_ne {row : Option User} (h : i ≠ k) :
    ({ T with users := T.users.set k row } : Tables).user? i = T.user? i := by
  rw [user?, user?, List.getElem?_set_ne h.symm]

theorem user?_set_self {row : Option User} {u : User} (hu : T.user? k = some u) :
    ({ T with users := T.users.set k row } : Tables).user? k = row := by
  rw [user?, List.getElem?_set_self (lt_of_user? hu)]
  rfl

theorem isAdmin_set_ne {row : Option User} (h : i ≠ k) :
    ({ T with users := T.users.set k row } : Tables).isAdmin i = T.isAdmin i :=
  isAdmin_congr rfl (user?_set_ne h)

/-- What an `UPDATE` does. -/
theorem update_cases {loaded after : User} (h : T.update k loaded after = some T') :
    T' = T ∨ ∃ u, T.user? k = some u ∧
      T' = { T with users := T.users.set k (some (u.written loaded after)) } := by
  unfold update at h
  split at h
  · exact .inl (Option.some.inj h).symm
  · obtain ⟨u, hu, rfl⟩ := Option.map_eq_some_iff.mp h
    exact .inr ⟨u, hu, rfl⟩

theorem servers_update {loaded after : User} (h : T.update k loaded after = some T') :
    T'.servers = T.servers := by
  rcases update_cases h with rfl | ⟨u, -, rfl⟩ <;> rfl

theorem user?_update_ne {loaded after : User} (h : T.update k loaded after = some T')
    (hne : i ≠ k) : T'.user? i = T.user? i := by
  rcases update_cases h with rfl | ⟨u, -, rfl⟩
  · rfl
  · exact user?_set_ne hne

/-- A column is written with a value that keeps an administrator. -/
theorem isAdmin_update {loaded after : User} (h : T.update k loaded after = some T')
    (hrole : after.role = loaded.role ∨ after.role = .admin)
    (hactive : after.isActive = loaded.isActive ∨ after.isActive = true)
    (happroved : after.isApproved = loaded.isApproved ∨ after.isApproved = true)
    (hi : T.isAdmin i = true) : T'.isAdmin i = true := by
  rcases update_cases h with rfl | ⟨u, hu, rfl⟩
  · exact hi
  · by_cases hik : i = k
    · subst hik
      rw [isAdmin, hu] at hi
      rw [isAdmin, user?_set_self hu]
      simp only [Option.any_some, canSignIn, Bool.and_eq_true, decide_eq_true_eq] at hi ⊢
      obtain ⟨⟨⟨hadmin, hon⟩, hok⟩, hway⟩ := hi
      refine ⟨⟨⟨?_, ?_⟩, ?_⟩, hway⟩
      · dsimp only [User.written]
        split
        · exact hadmin
        · next hne => exact hrole.resolve_left hne
      · dsimp only [User.written]
        split
        · exact hon
        · next hne => exact hactive.resolve_left hne
      · dsimp only [User.written]
        split
        · exact hok
        · next hne => exact happroved.resolve_left hne
    · exact (isAdmin_set_ne hik).trans hi

/-- The accounts outside a list stay as they are through a change of each account in it. -/
theorem foldlM_frame {chosen : List (UserId × User)} {f : UserId × User → User}
    (h : chosen.foldlM (fun (T : Tables) c => T.update c.1 c.2 (f c)) T = some T')
    (hi : i ∉ chosen.map Prod.fst) : T'.servers = T.servers ∧ T'.user? i = T.user? i := by
  induction chosen generalizing T with
  | nil =>
    obtain rfl := Option.some.inj h
    exact ⟨rfl, rfl⟩
  | cons c chosen ih =>
    obtain ⟨T₁, hupdate, hrest⟩ := Option.bind_eq_some_iff.mp h
    rw [List.map_cons, List.mem_cons, not_or] at hi
    obtain ⟨hservers, huser⟩ := ih hrest hi.2
    exact ⟨hservers.trans (servers_update hupdate),
      huser.trans (user?_update_ne hupdate hi.1)⟩

theorem foldl_frame {chosen : List (UserId × User)} (hi : i ∉ chosen.map Prod.fst) :
    (chosen.foldl (fun (T : Tables) c => T.deleteUser c.1) T).servers = T.servers ∧
      (chosen.foldl (fun (T : Tables) c => T.deleteUser c.1) T).user? i = T.user? i := by
  induction chosen generalizing T with
  | nil => exact ⟨rfl, rfl⟩
  | cons c chosen ih =>
    rw [List.map_cons, List.mem_cons, not_or] at hi
    obtain ⟨hservers, huser⟩ := ih (T := T.deleteUser c.1) hi.2
    exact ⟨hservers, huser.trans (user?_set_ne hi.1)⟩

/-- An account of another directory keeps its way in. -/
theorem isAdmin_deleteServer {server : ServerId} (hi : T.isAdmin i = true)
    (hnot : i ∉ (T.usersOf server).map Prod.fst) : (T.deleteServer server).isAdmin i = true := by
  obtain ⟨u, hu, hcan⟩ := Option.any_eq_true _ _ |>.mp hi
  have hserver : u.ldapServer ≠ some server := fun h =>
    hnot (List.mem_map.mpr ⟨(i, u), mem_usersOf.mpr ⟨hu, h⟩, rfl⟩)
  have huser : (T.deleteServer server).user? i = some u := by
    rw [user?, Option.join_eq_some_iff] at hu
    rw [user?, deleteServer, List.getElem?_map, hu]
    simp only [Option.map_some, if_neg hserver, Option.join_some]
  rw [isAdmin, huser, Option.any_some]
  simp only [canSignIn, Bool.and_eq_true, Bool.or_eq_true] at hcan ⊢
  refine ⟨hcan.1, hcan.2.imp_right fun hon => ?_⟩
  cases hlink : u.ldapServer with
  | none =>
    rw [hlink] at hon
    exact hon
  | some j =>
    rw [hlink] at hon hserver
    have hne : server ≠ j := fun h => hserver (h ▸ rfl)
    rwa [Option.bind_some, server?, deleteServer, List.getElem?_set_ne hne]

end Tables

namespace UserAction

/-- The actions that are not checked keep an administrator. -/
theorem apply_keeps {action : UserAction} (h : action ∉ REMOVES_ADMIN) (u : User) :
    ((action.apply u).role = u.role ∨ (action.apply u).role = .admin) ∧
      ((action.apply u).isActive = u.isActive ∨ (action.apply u).isActive = true) ∧
        ((action.apply u).isApproved = u.isApproved ∨ (action.apply u).isApproved = true) := by
  cases action with
  | approve => exact ⟨.inl rfl, .inr rfl, .inr rfl⟩
  | enable => exact ⟨.inl rfl, .inr rfl, .inl rfl⟩
  | promote => exact ⟨.inr rfl, .inr rfl, .inr rfl⟩
  | disable | demote | delete => exact absurd (by decide) h

end UserAction

namespace Write

variable {T T' : Tables} {i : UserId}

theorem isAdmin_of_act {action : UserAction} {chosen : List (UserId × User)}
    (h : (act action chosen).run T = some T') (hi : T.isAdmin i = true)
    (hnot : i ∉ (act action chosen).taking T) : T'.isAdmin i = true := by
  by_cases hremoves : action ∈ UserAction.REMOVES_ADMIN
  · -- a checked action changes the chosen accounts only
    rw [taking, if_pos hremoves] at hnot
    have hframe : T'.servers = T.servers ∧ T'.user? i = T.user? i := by
      cases action with
      | delete =>
        obtain rfl := Option.some.inj h
        exact Tables.foldl_frame hnot
      | approve | enable | disable | promote | demote => exact Tables.foldlM_frame h hnot
    exact (Tables.isAdmin_congr hframe.1 hframe.2).trans hi
  · have hne : action ≠ .delete := fun h => hremoves (h ▸ by decide)
    have hfold : chosen.foldlM
        (fun (T : Tables) c => T.update c.1 c.2 (action.apply c.2)) T = some T' := by
      cases action <;> first | exact h | exact absurd rfl hne
    clear h hnot
    induction chosen generalizing T with
    | nil =>
      obtain rfl := Option.some.inj hfold
      exact hi
    | cons c chosen ih =>
      obtain ⟨T₁, hupdate, hrest⟩ := Option.bind_eq_some_iff.mp hfold
      obtain ⟨hrole, hactive, happroved⟩ := UserAction.apply_keeps hremoves c.2
      exact ih (Tables.isAdmin_update hupdate hrole hactive happroved hi) hrest

theorem isAdmin_of_deleteDirectory {server : ServerId} {deleteUsers : Bool}
    {users : List (UserId × User)} (h : (deleteDirectory server deleteUsers users).run T = some T')
    (hi : T.isAdmin i = true) (hnot : i ∉ (deleteDirectory server deleteUsers users).taking T) :
    T'.isAdmin i = true := by
  rw [taking, List.mem_append, not_or] at hnot
  obtain ⟨hlisted, hlinked⟩ := hnot
  have hdelete : ∀ {T₁ : Tables}, T₁.servers = T.servers → T₁.user? i = T.user? i →
      (T₁.deleteServer server).isAdmin i = true := by
    intro T₁ hservers huser
    refine Tables.isAdmin_deleteServer ((Tables.isAdmin_congr hservers huser).trans hi) ?_
    rintro hmem
    obtain ⟨⟨_, u⟩, hu, rfl⟩ := List.mem_map.mp hmem
    rw [Tables.mem_usersOf, huser, ← Tables.mem_usersOf] at hu
    exact hlinked (List.mem_map_of_mem hu)
  cases deleteUsers with
  | true =>
    obtain rfl := Option.some.inj h
    obtain ⟨hservers, huser⟩ := Tables.foldl_frame (T := T) hlisted
    exact hdelete hservers huser
  | false =>
    obtain ⟨-, h⟩ := Option.ite_none_right_eq_some.mp h
    obtain ⟨T₁, hfold, rfl⟩ := Option.map_eq_some_iff.mp h
    obtain ⟨hservers, huser⟩ := Tables.foldlM_frame hfold hlisted
    exact hdelete hservers huser

theorem isAdmin_of_saveDirectory {server : ServerId} {loaded form : LDAPServer}
    (h : (saveDirectory server loaded form).run T = some T') (hi : T.isAdmin i = true)
    (hnot : i ∉ (saveDirectory server loaded form).taking T) : T'.isAdmin i = true := by
  rw [run] at h
  split at h
  · obtain rfl := Option.some.inj h
    exact hi
  · obtain ⟨srv, hsrv, rfl⟩ := Option.map_eq_some_iff.mp h
    obtain ⟨u, hu, hcan⟩ := Option.any_eq_true _ _ |>.mp hi
    simp only [Tables.isAdmin, Tables.user?] at hu ⊢
    rw [hu, Option.any_some]
    simp only [Tables.canSignIn, Bool.and_eq_true, Bool.or_eq_true] at hcan ⊢
    refine ⟨hcan.1, hcan.2.imp_right fun hon => ?_⟩
    cases hlink : u.ldapServer with
    | none =>
      rw [hlink] at hon
      cases hon
    | some j =>
      rw [hlink, Option.bind_some] at hon
      rw [Option.bind_some, Tables.server?]
      by_cases hj : server = j
      · subst hj
        have hlt : server < T.servers.length := ListUpdate.lt_length_of_join hsrv
        rw [hsrv, Option.any_some] at hon
        rw [List.getElem?_set_self hlt, Option.join_some, Option.any_some]
        -- it was on, and is not switched off
        dsimp only
        split
        · exact hon
        · next hchanged =>
          by_contra hoff
          rw [Bool.not_eq_true] at hoff
          have hwas : loaded.isActive = true := by
            cases hl : loaded.isActive
            · exact absurd (hoff.trans hl.symm) hchanged
            · rfl
          rw [taking, hwas, hoff] at hnot
          exact hnot (List.mem_map.mpr ⟨(i, u), Tables.mem_usersOf.mpr ⟨hu, hlink⟩, rfl⟩)
      · rwa [List.getElem?_set_ne hj]

theorem isAdmin_failOnce {user : UserId} {u : User} (hu : T.user? user = some u)
    (hi : T.isAdmin i = true) (hnot : i = user → u.isFactoryAdmin = true ∨
      u.failedSignIns + 1 < DISABLE_AFTER) : (failOnce T user u).isAdmin i = true := by
  by_cases hik : i = user
  · subst hik
    rw [Tables.isAdmin, hu, Option.any_some] at hi
    rw [failOnce, Tables.isAdmin, Tables.user?_set_self hu, Option.any_some]
    rcases hnot rfl with hfactory | hfew
    · rw [if_pos hfactory]
      exact hi
    · rw [if_pos hfew]
      split <;> exact hi
  · exact (Tables.isAdmin_set_ne hik).trans hi

/-- **A commit takes no one else**: an administrator it may not take is one after it. -/
theorem isAdmin_of_run {w : Write} (h : w.run T = some T') (hi : T.isAdmin i = true)
    (hnot : i ∉ w.taking T) : T'.isAdmin i = true := by
  cases w with
  | act action chosen => exact isAdmin_of_act h hi hnot
  | deleteDirectory server deleteUsers users => exact isAdmin_of_deleteDirectory h hi hnot
  | saveDirectory server loaded form => exact isAdmin_of_saveDirectory h hi hnot
  | setRole user loaded role =>
    by_cases hrole : role = .operator
    · rw [taking, if_pos hrole, List.mem_singleton] at hnot
      exact (Tables.isAdmin_congr (Tables.servers_update h)
        (Tables.user?_update_ne h hnot)).trans hi
    · have hadmin : role = .admin := by
        cases role with
        | admin => rfl
        | operator => exact absurd rfl hrole
      exact Tables.isAdmin_update h (.inr hadmin) (.inl rfl) (.inl rfl) hi
  | passwordFailed user loaded =>
    obtain ⟨u, hu, rfl⟩ := Option.map_eq_some_iff.mp h
    refine isAdmin_failOnce hu hi fun hik => ?_
    subst hik
    rw [taking, hu, Option.any_some] at hnot
    by_contra hboth
    rw [not_or, Nat.not_lt, Bool.not_eq_true] at hboth
    rw [hboth.1, decide_eq_true hboth.2] at hnot
    exact hnot (List.mem_singleton.mpr rfl)
  | passwordOk user loaded => exact Tables.isAdmin_update h (.inl rfl) (.inl rfl) (.inl rfl) hi

end Write

/-! ## Which directory an account has -/

/-- Accounts only go, or lose their directory. -/
def Tables.Linked (T T' : Tables) : Prop :=
  ∀ i u', T'.user? i = some u' → ∃ u, T.user? i = some u ∧
    (u'.ldapServer = u.ldapServer ∨ u'.ldapServer = none)

namespace Tables.Linked

variable {T T' T'' : Tables}

theorem refl (T : Tables) : T.Linked T := fun _ u hu => ⟨u, hu, .inl rfl⟩

theorem trans (h : T.Linked T') (h' : T'.Linked T'') : T.Linked T'' := by
  intro i u'' hu''
  obtain ⟨u', hu', hlink'⟩ := h' i u'' hu''
  obtain ⟨u, hu, hlink⟩ := h i u' hu'
  refine ⟨u, hu, ?_⟩
  rcases hlink' with hlink' | hlink'
  · rwa [hlink']
  · exact .inr hlink'

/-- A row set to one of the same directory, or deleted. -/
theorem set {k : UserId} {row : Option User}
    (h : ∀ u', row = some u' → ∃ u, T.user? k = some u ∧ u'.ldapServer = u.ldapServer) :
    T.Linked { T with users := T.users.set k row } := by
  intro i u' hu'
  replace hu' : (T.users.set k row)[i]? = some (some u') := Option.join_eq_some_iff.mp hu'
  rcases ListUpdate.getElem?_set_cases hu' with ⟨rfl, hrow⟩ | ⟨-, hold⟩
  · obtain ⟨u, hu, hlink⟩ := h u' hrow.symm
    exact ⟨u, hu, .inl hlink⟩
  · exact ⟨u', Option.join_eq_some_iff.mpr hold, .inl rfl⟩

theorem update {k : UserId} {loaded after : User} (h : T.update k loaded after = some T') :
    T.Linked T' := by
  rcases Tables.update_cases h with rfl | ⟨u, hu, rfl⟩
  · exact refl T'
  · refine set fun u' hu' => ⟨u, hu, ?_⟩
    rw [← Option.some.inj hu']
    rfl

theorem foldlM {chosen : List (UserId × User)} {f : UserId × User → User}
    (h : chosen.foldlM (fun (T : Tables) c => T.update c.1 c.2 (f c)) T = some T') :
    T.Linked T' := by
  induction chosen generalizing T with
  | nil => exact Option.some.inj h ▸ refl T
  | cons c chosen ih =>
    obtain ⟨T₁, hupdate, hrest⟩ := Option.bind_eq_some_iff.mp h
    exact (update hupdate).trans (ih hrest)

theorem foldl (chosen : List (UserId × User)) :
    T.Linked (chosen.foldl (fun (T : Tables) c => T.deleteUser c.1) T) := by
  induction chosen generalizing T with
  | nil => exact refl T
  | cons c chosen ih =>
    have hgone : T.Linked (T.deleteUser c.1) := set fun u' h => nomatch h
    exact hgone.trans ih

theorem deleteServer (server : ServerId) : T.Linked (T.deleteServer server) := by
  intro i u' hu'
  rw [Tables.user?, Tables.deleteServer, List.getElem?_map, Option.join_eq_some_iff] at hu'
  obtain ⟨row, hrow, hmap⟩ := Option.map_eq_some_iff.mp hu'
  obtain ⟨u, rfl, rfl⟩ := Option.map_eq_some_iff.mp hmap
  refine ⟨u, by rw [Tables.user?, hrow, Option.join_some], ?_⟩
  split
  · exact .inr rfl
  · exact .inl rfl

theorem run {w : Write} (h : w.run T = some T') : T.Linked T' := by
  cases w with
  | act action chosen =>
    cases action with
    | delete => exact Option.some.inj h ▸ foldl chosen
    | approve | enable | disable | promote | demote => exact foldlM h
  | deleteDirectory server deleteUsers users =>
    cases deleteUsers with
    | true => exact Option.some.inj h ▸ (foldl users).trans (deleteServer server)
    | false =>
      obtain ⟨-, h⟩ := Option.ite_none_right_eq_some.mp h
      obtain ⟨T₁, hfold, rfl⟩ := Option.map_eq_some_iff.mp h
      exact (foldlM hfold).trans (deleteServer server)
  | saveDirectory server loaded form =>
    rw [Write.run] at h
    split at h
    · exact Option.some.inj h ▸ refl T
    · obtain ⟨srv, -, rfl⟩ := Option.map_eq_some_iff.mp h
      exact fun i u hu => ⟨u, hu, .inl rfl⟩
  | setRole user loaded role => exact update h
  | passwordFailed user loaded =>
    obtain ⟨u, hu, rfl⟩ := Option.map_eq_some_iff.mp h
    refine set fun u' hu' => ⟨u, hu, ?_⟩
    rw [← Option.some.inj hu']
    split
    · rfl
    · split <;> rfl
  | passwordOk user loaded => exact update h

end Tables.Linked

end Accounts
end NetRollout
