import NetRollout.Accounts.Tables
import NetRollout.Library.ListUpdate
import NetRollout.Library.PyText
import NetRollout.Library.Rows
import NetRollout.Library.Transition

/-!
# One directory person, one account

`login` of `src/webapp/blueprints/auth.py` up to the account it signs in, among other
sign-ins and an administrator's changes: `by_name` and `by_name_ci` are two reads of the
database, the directory is asked after them, and `new_ldap` is committed last.  The passwords
are right, and the directory answers as it likes.

`by_name_ci` compares lower cases and the directory what its string preparation leaves of a
name, and the database has only the exact name and the address unique: `not_one`.
Where no lookup misses a person's account and no account of theirs is made behind another
sign-in's lookup, they keep one, and no sign-in goes around its being disabled
(`one_of_recognised`).
-/

namespace NetRollout
namespace OneAccount

open Accounts (UserId AuthType Role)
open PyText (Str)

/-- How names are compared. -/
structure Names where
  /-- `str.lower`. -/
  lower : Str → Str
  /-- The database's `lower`. -/
  dbLower : Str → Str
  /-- Two names of the same value are the same person to the directory. -/
  prep : Str → Str

structure Account where
  username : Str
  authType : AuthType
  role : Role
  isActive : Bool
  isApproved : Bool
  email : Option Str

/-- Where a sign-in stands. -/
inductive Stage where
  /-- `by_name` is next. -/
  | naming
  /-- `by_name_ci` is next. -/
  | folding
  /-- An account as it was found, and whether one of that person was disabled then. -/
  | existing (user : UserId) (account : Account) (disabled : Bool)
  /-- `login_ldap_group`. -/
  | grouping
  /-- `new_ldap`. -/
  | creating (role : Role) (email : Option Str)
  | ended

structure Attempt where
  username : Str
  stage : Stage

/-- A sign-in, and whether an account of that person was disabled at its lookup. -/
structure SignedIn where
  username : Str
  user : UserId
  disabled : Bool

structure State where
  accounts : Rows Account
  attempts : List Attempt := []
  signedIn : List SignedIn := []

/-- The directory lets the person in: the role of their group rules, where those set it, and
their address. -/
structure Answer where
  role : Option Role
  email : Option Str

inductive Action where
  | login (username : Str)
  | next (i : Nat) (answer : Option Answer)
  | setActive (user : UserId) (isActive : Bool)
  | setRole (user : UserId) (role : Role)

def LIMIT_USERNAME : Nat := 64

def GRAFANA_ADMIN_USERNAME : Str := "netrollout-grafana-admin".toList

/-- `is_reserved`. -/
def isReserved (N : Names) (username : Str) : Bool :=
  N.lower (PyText.strip username) = GRAFANA_ADMIN_USERNAME

namespace State

variable (N : Names) (s : State)

/-- `by_name`. -/
def byName (username : Str) : Option (UserId × Account) :=
  s.accounts.entries.find? fun u => u.2.username = username

/-- `by_name_ci`. -/
def byNameCi (username : Str) : List (UserId × Account) :=
  s.accounts.entries.filter fun u => N.dbLower u.2.username = N.lower username

/-- An account of that person is disabled. -/
def disabled (username : Str) : Bool :=
  s.accounts.entries.any fun u => N.prep u.2.username = N.prep username && !u.2.isActive

def put (i : Nat) (r : Attempt) : State := { s with attempts := s.attempts.set i r }

def update (user : UserId) (f : Account → Account) : State :=
  { s with accounts := s.accounts.put user ((s.accounts.get? user).map f) }

/-- `complete_login`. -/
def complete (username : Str) (user : UserId) (disabled : Bool) : State :=
  { s with signedIn := s.signedIn ++ [⟨username, user, disabled⟩] }

/-- The row fits, and no other has its name or its address. -/
def insertable (username : Str) (email : Option Str) : Bool :=
  username.length ≤ LIMIT_USERNAME && s.accounts.entries.all fun u =>
    u.2.username ≠ username && (email.isNone || u.2.email ≠ email)

/-- The next step of a sign-in. -/
def proceed (i : Nat) (answer : Option Answer) (r : Attempt) : State :=
  match r.stage with
  | .naming =>
    match s.byName r.username with
    | some (user, account) =>
      s.put i { r with stage := .existing user account (s.disabled N r.username) }
    | none => s.put i { r with stage := .folding }
  | .folding =>
    let sameName := s.byNameCi N r.username
    let ldapUsers := sameName.filter fun u => u.2.authType = .LDAP
    match ldapUsers, sameName with
    | [(user, account)], [_] =>
      s.put i { r with stage := .existing user account (s.disabled N r.username) }
    | _, [] => s.put i { r with stage := .grouping }
    | _, _ => s.put i { r with stage := .ended }
  | .existing user account disabled =>
    match answer with
    | some answer =>
      if account.isApproved && account.isActive then
        let role := if account.authType = .LDAP then answer.role else none
        ((s.update user fun a => { a with role := role.getD a.role }).complete r.username user
          disabled).put i { r with stage := .ended }
      else s.put i { r with stage := .ended }
    | none => s.put i { r with stage := .ended }
  | .grouping =>
    match answer.bind fun a => a.role.map fun role => (role, a.email) with
    | some (role, email) =>
      let stage := if isReserved N r.username then .ended else .creating role email
      s.put i { r with stage := stage }
    | none => s.put i { r with stage := .ended }
  | .creating role email =>
    if s.insertable r.username email then
      ({ s with accounts := s.accounts.add (some ⟨r.username, .LDAP, role, true, true, email⟩) }
        |>.complete r.username s.accounts.size (s.disabled N r.username)).put i
          { r with stage := .ended }
    else s.put i { r with stage := .ended }
  | .ended => s

def step : Action → Option State
  | .login username => some { s with attempts := s.attempts ++ [⟨username, .naming⟩] }
  | .next i answer => s.attempts[i]?.map fun r => s.proceed N i answer r
  | .setActive user isActive => some (s.update user fun a => { a with isActive := isActive })
  | .setRole user role => some (s.update user fun a => { a with role := role })

end State

/-- No two accounts are the same person's. -/
def Distinct (N : Names) (accounts : Rows Account) : Prop :=
  ∀ i j a b, accounts.get? i = some a → accounts.get? j = some b →
    N.prep a.username = N.prep b.username → i = j

/-- The sign-ins, from any accounts of different people. -/
def signIns (N : Names) : System State Action where
  Init s := Distinct N s.accounts ∧ s.attempts = [] ∧ s.signedIn = []
  step s := s.step N

/-- **One person, one account**, and nobody signs in past a disabled one. -/
structure One (N : Names) (s : State) : Prop where
  distinct : Distinct N s.accounts
  refused : ∀ e ∈ s.signedIn, e.disabled = false

/-! ## The steps that make a second one -/

/-- It has found no account, and has made none. -/
def Stage.isNew : Stage → Bool
  | grouping | creating .. => true
  | _ => false

/-- `by_name_ci` finds every account of the person; and no account is made while another
sign-in of that person, under another spelling, has found none. -/
def recognised (N : Names) (s : State) : Action → Bool
  | .next i _ =>
    match s.attempts[i]? with
    | some ⟨username, .folding⟩ => s.accounts.entries.all fun u =>
        N.prep u.2.username ≠ N.prep username || N.dbLower u.2.username = N.lower username
    | some ⟨username, .creating ..⟩ => (s.attempts.eraseIdx i).all fun r =>
        !r.stage.isNew || N.prep r.username ≠ N.prep username || r.username = username
    | _ => true
  | _ => true

/-! ## The invariant -/

/-- What a lookup has found, as far as it still holds. -/
structure Attempt.Holds (N : Names) (accounts : Rows Account) (r : Attempt) : Prop where
  found : ∀ user account disabled, r.stage = .existing user account disabled →
    account.isActive = true → disabled = false
  new : r.stage.isNew = true → ∀ i a, accounts.get? i = some a →
    N.prep a.username = N.prep r.username → a.username = r.username

structure Sound (N : Names) (s : State) : Prop where
  one : One N s
  attempts : ∀ r ∈ s.attempts, r.Holds N s.accounts

variable {N : Names} {s s' : State} {r r' : Attempt} {i : Nat} {username : Str}

theorem disabled_eq_true_iff : s.disabled N username = true ↔
    ∃ i a, s.accounts.get? i = some a ∧ N.prep a.username = N.prep username ∧
      a.isActive = false := by
  simp only [State.disabled, List.any_eq_true, Bool.and_eq_true, decide_eq_true_eq,
    Bool.not_eq_true', Prod.exists, Rows.mem_entries]

/-- The one account of the person is active. -/
theorem disabled_eq_false {account : Account}
    (hfound : ∀ i a, s.accounts.get? i = some a → N.prep a.username = N.prep username →
      a = account) (hactive : account.isActive = true) : s.disabled N username = false := by
  by_contra hdisabled
  rw [Bool.not_eq_false] at hdisabled
  obtain ⟨i, a, ha, hprep, hoff⟩ := disabled_eq_true_iff.mp hdisabled
  rw [hfound i a ha hprep, hactive] at hoff
  cases hoff

/-- A sign-in that has found nothing new. -/
theorem holds_of_stage {accounts : Rows Account} (hexisting : ∀ user account disabled,
    r.stage ≠ .existing user account disabled) (hnew : r.stage.isNew = false) :
    r.Holds N accounts where
  found user account disabled h := absurd h (hexisting user account disabled)
  new h := by
    rw [hnew] at h
    cases h

/-- The names stay through a change of other columns. -/
def Named (A A' : Rows Account) : Prop :=
  ∀ i a', A'.get? i = some a' → ∃ a, A.get? i = some a ∧ a.username = a'.username

theorem named_update {user : UserId} {f : Account → Account}
    (hf : ∀ a, (f a).username = a.username) : Named s.accounts (s.update user f).accounts := by
  intro i a' ha'
  rcases Rows.get?_of_put ha' with ⟨rfl, hrow⟩ | ⟨-, hold⟩
  · obtain ⟨a, ha, rfl⟩ := Option.map_eq_some_iff.mp hrow
    exact ⟨a, ha, (hf a).symm⟩
  · exact ⟨a', hold, rfl⟩

theorem Attempt.Holds.named {A A' : Rows Account} (h : r.Holds N A) (hnamed : Named A A') :
    r.Holds N A' := by
  refine ⟨h.found, fun hnew i a' ha' hprep => ?_⟩
  obtain ⟨a, ha, hname⟩ := hnamed i a' ha'
  rw [← hname] at hprep ⊢
  exact h.new hnew i a ha hprep

theorem Distinct.named {A A' : Rows Account} (h : Distinct N A) (hnamed : Named A A') :
    Distinct N A' := by
  intro i j a' b' ha' hb' hprep
  obtain ⟨a, ha, hname⟩ := hnamed i a' ha'
  obtain ⟨b, hb, hname'⟩ := hnamed j b' hb'
  rw [← hname, ← hname'] at hprep
  exact h i j a b ha hb hprep

namespace Sound

theorem put (h : Sound N s) (hr : r.Holds N s.accounts) : Sound N (s.put i r) :=
  ⟨⟨h.one.distinct, h.one.refused⟩, ListUpdate.forall_mem_set h.attempts hr⟩

theorem ended (h : Sound N s) : Sound N (s.put i ⟨username, .ended⟩) :=
  h.put (holds_of_stage nofun rfl)

theorem update (h : Sound N s) {user : UserId} {f : Account → Account}
    (hf : ∀ a, (f a).username = a.username) : Sound N (s.update user f) := by
  have hnamed : Named s.accounts (s.update user f).accounts := named_update hf
  exact ⟨⟨h.one.distinct.named hnamed, h.one.refused⟩,
    fun r hr => (h.attempts r hr).named hnamed⟩

theorem complete (h : Sound N s) (user : UserId) : Sound N (s.complete username user false) :=
  ⟨⟨h.one.distinct, ListUpdate.forall_mem_concat h.one.refused rfl⟩, h.attempts⟩

/-- **The lookup by the exact name** finds the person's account. -/
theorem naming (h : Sound N s) {answer : Option Answer}
    (hstep : s.proceed N i answer ⟨username, .naming⟩ = s') : Sound N s' := by
  subst hstep
  rw [State.proceed]
  dsimp only
  split
  · next user account hfind =>
    obtain ⟨hget, hname⟩ := Rows.get?_of_find? hfind
    replace hname : account.username = username := of_decide_eq_true hname
    refine h.put ⟨fun user' account' disabled heq hactive => ?_, nofun⟩
    obtain ⟨rfl, rfl, rfl⟩ := Stage.existing.inj heq
    refine disabled_eq_false (fun j a ha hprep => ?_) hactive
    rw [← hname] at hprep
    obtain rfl := h.one.distinct j user a account ha hget hprep
    exact Option.some.inj (ha.symm.trans hget)
  · exact h.put (holds_of_stage nofun rfl)

/-- **The lookup by the lower case** misses no account of the person. -/
theorem folding (h : Sound N s) {answer : Option Answer}
    (hi : s.attempts[i]? = some ⟨username, .folding⟩)
    (hallowed : recognised N s (.next i answer) = true) :
    Sound N (s.proceed N i answer ⟨username, .folding⟩) := by
  have hmissed : ∀ j a, s.accounts.get? j = some a → N.prep a.username = N.prep username →
      (j, a) ∈ s.byNameCi N username := by
    intro j a ha hprep
    rw [recognised, hi] at hallowed
    have hfound := List.all_eq_true.mp hallowed (j, a) (Rows.mem_entries.mpr ha)
    refine List.mem_filter.mpr ⟨Rows.mem_entries.mpr ha, ?_⟩
    simpa [hprep] using hfound
  rw [State.proceed]
  dsimp only
  split
  · next user account found hldap hsame =>
    obtain ⟨rfl, -⟩ : found = (user, account) ∧ _ :=
      ListUpdate.eq_of_filter_singleton (hsame ▸ hldap)
    refine h.put ⟨fun user' account' disabled heq hactive => ?_, nofun⟩
    obtain ⟨rfl, rfl, rfl⟩ := Stage.existing.inj heq
    refine disabled_eq_false (fun j a ha hprep => ?_) hactive
    have hmem := hmissed j a ha hprep
    rw [hsame] at hmem
    exact (Prod.mk.inj (List.mem_singleton.mp hmem)).2
  · next hnone =>
    refine h.put ⟨nofun, fun _ j a ha hprep => ?_⟩
    have hmem := hmissed j a ha hprep
    rw [hnone] at hmem
    cases hmem
  · exact h.ended

/-- **An account is made** for a person without one. -/
theorem creating (h : Sound N s) {answer : Option Answer} {role : Role} {email : Option Str}
    (hi : s.attempts[i]? = some ⟨username, .creating role email⟩)
    (hallowed : recognised N s (.next i answer) = true) :
    Sound N (s.proceed N i answer ⟨username, .creating role email⟩) := by
  rw [State.proceed]
  dsimp only
  split
  · next hinsertable =>
    have hnone : ∀ j a, s.accounts.get? j = some a → N.prep a.username ≠ N.prep username := by
      intro j a ha hprep
      have hsame := (h.attempts _ (List.mem_of_getElem? hi)).new rfl j a ha hprep
      have hfree := List.all_eq_true.mp (Bool.and_eq_true_iff.mp hinsertable).2 (j, a)
        (Rows.mem_entries.mpr ha)
      simp only [Bool.and_eq_true, decide_eq_true_eq] at hfree
      exact hfree.1 hsame
    have hactive : s.disabled N username = false := by
      by_contra hdisabled
      rw [Bool.not_eq_false] at hdisabled
      obtain ⟨j, a, ha, hprep, -⟩ := disabled_eq_true_iff.mp hdisabled
      exact hnone j a ha hprep
    have hothers : ∀ r ∈ s.attempts.eraseIdx i, r.stage.isNew = true →
        N.prep r.username = N.prep username → r.username = username := by
      intro r hr hnew hprep
      rw [recognised, hi] at hallowed
      simpa [hnew, hprep] using List.all_eq_true.mp hallowed r hr
    rw [hactive]
    refine ⟨⟨fun j k a b ha hb hprep => ?_, ?_⟩, fun r hr => ?_⟩
    · rcases Rows.get?_of_add ha with ⟨rfl, hrow⟩ | hold
      · rcases Rows.get?_of_add hb with ⟨rfl, -⟩ | hold
        · rfl
        · obtain rfl := Option.some.inj hrow
          exact absurd hprep.symm (hnone k b hold)
      · rcases Rows.get?_of_add hb with ⟨rfl, hrow⟩ | hold'
        · obtain rfl := Option.some.inj hrow
          exact absurd hprep (hnone j a hold)
        · exact h.one.distinct j k a b hold hold' hprep
    · exact (h.complete s.accounts.size).one.refused
    · rcases ListUpdate.mem_set_cases hr with rfl | hr
      · exact holds_of_stage nofun rfl
      · have hholds := h.attempts r (List.mem_of_mem_eraseIdx hr)
        refine ⟨hholds.found, fun hnew j a ha hprep => ?_⟩
        rcases Rows.get?_of_add ha with ⟨-, hrow⟩ | hold
        · obtain rfl := Option.some.inj hrow
          exact (hothers r hr hnew hprep.symm).symm
        · exact hholds.new hnew j a hold hprep
  · exact h.ended

theorem proceed (h : Sound N s) {answer : Option Answer} (hi : s.attempts[i]? = some r)
    (hallowed : recognised N s (.next i answer) = true) : Sound N (s.proceed N i answer r) := by
  have hholds := h.attempts r (List.mem_of_getElem? hi)
  obtain ⟨username, stage⟩ := r
  cases stage with
  | naming => exact h.naming rfl
  | folding => exact h.folding hi hallowed
  | existing user account disabled =>
    rw [State.proceed]
    dsimp only
    split
    · split
      · next hadmitted =>
        obtain ⟨-, hactive⟩ := Bool.and_eq_true_iff.mp hadmitted
        rw [hholds.found user account disabled rfl hactive]
        refine Sound.ended (Sound.complete (h.update fun a => ?_) user)
        rfl
      · exact h.ended
    · exact h.ended
  | grouping =>
    rw [State.proceed]
    dsimp only
    split
    · refine h.put ⟨fun user account disabled heq => ?_, fun _ => hholds.new rfl⟩
      dsimp only at heq
      split at heq <;> cases heq
    · exact h.ended
  | creating role email => exact h.creating hi hallowed
  | ended => exact h

end Sound

/-- **One directory person, one account**, where every account is recognised. -/
theorem one_of_recognised (h : (signIns N).Reachable (recognised N) s) : One N s := by
  have hsound : Sound N s := by
    refine h.invariant (fun s hs => ?_) fun s a s' _ hallowed hs hstep => ?_
    · obtain ⟨hdistinct, hattempts, hsigned⟩ := hs
      refine ⟨⟨hdistinct, ?_⟩, ?_⟩
      · rw [hsigned]
        exact nofun
      · rw [hattempts]
        exact nofun
    · cases a with
      | login username =>
        obtain rfl := Option.some.inj hstep
        refine ⟨⟨hs.one.distinct, hs.one.refused⟩, ?_⟩
        exact ListUpdate.forall_mem_concat hs.attempts (holds_of_stage nofun rfl)
      | next i answer =>
        obtain ⟨r, hr, rfl⟩ := Option.map_eq_some_iff.mp hstep
        exact hs.proceed hr hallowed
      | setActive user isActive =>
        obtain rfl := Option.some.inj hstep
        exact hs.update fun _ => rfl
      | setRole user role =>
        obtain rfl := Option.some.inj hstep
        exact hs.update fun _ => rfl
  exact hsound.one

/-! ## Runs -/

/-- Names in ASCII, in a directory that ignores their case and the blanks around and between
the words. -/
def asciiNames : Names where
  lower := List.map Char.toLower
  dbLower := List.map Char.toLower
  prep name := PyText.joinSpace (PyText.fields (· = ' ') (name.map Char.toLower))

/-- An account from the directory. -/
def ldapAccount (username : String) (isActive : Bool) : Account where
  username := username.toList
  authType := .LDAP
  role := .operator
  isActive := isActive
  isApproved := true
  email := none

theorem distinct_singleton (a : Account) : Distinct N ⟨[some a]⟩ := by
  have hzero : ∀ {i b}, Rows.get? ⟨[some a]⟩ i = some b → i = 0 := by
    intro i b h
    cases i with
    | zero => rfl
    | succ i => cases h
  intro i j b c hb hc _
  rw [hzero hb, hzero hc]

/-- **A second account is made**, and signed in, for a disabled person who types a blank after
the name; and for one who signs in at once as `alice` and as `Alice`, no address known. -/
theorem not_one :
    (∃ s, (signIns asciiNames).Reachable System.always s ∧ s.attempts.length = 1 ∧
        ¬ Distinct asciiNames s.accounts ∧ ¬ ∀ e ∈ s.signedIn, e.disabled = false) ∧
      ∃ s, (signIns asciiNames).Reachable System.always s ∧ s.attempts.length = 2 ∧
        ¬ One asciiNames s := by
  have hblank : ((signIns asciiNames).exec System.always
      { accounts := ⟨[some (ldapAccount "alice" false)]⟩ }
      (.login "alice ".toList :: List.replicate 4 (.next 0 (some ⟨some .operator, none⟩)))).any
      (fun s => s.attempts.length = 1 &&
        (((s.accounts.get? 0).map Account.username = some "alice".toList &&
          (s.accounts.get? 1).map Account.username = some "alice ".toList) &&
            s.signedIn.any fun e => e.disabled)) = true := by decide
  have hboth : ((signIns asciiNames).exec System.always { accounts := ⟨[]⟩ }
      ([.login "alice".toList, .login "Alice".toList] ++ (List.replicate 4
        [.next 0 (some ⟨some .operator, none⟩), .next 1 (some ⟨some .operator, none⟩)]).flatten)).any
      (fun s => s.attempts.length = 2 &&
        ((s.accounts.get? 0).map Account.username = some "alice".toList &&
          (s.accounts.get? 1).map Account.username = some "Alice".toList)) = true := by decide
  have htwo : ∀ {s : State} {name name' : Str},
      asciiNames.prep name = asciiNames.prep name' →
      ((s.accounts.get? 0).map Account.username = some name &&
        (s.accounts.get? 1).map Account.username = some name') = true →
      ¬ Distinct asciiNames s.accounts := by
    intro s name name' hprep hnames hdistinct
    rw [Bool.and_eq_true, decide_eq_true_eq, decide_eq_true_eq] at hnames
    obtain ⟨a, ha, rfl⟩ := Option.map_eq_some_iff.mp hnames.1
    obtain ⟨b, hb, rfl⟩ := Option.map_eq_some_iff.mp hnames.2
    exact absurd (hdistinct 0 1 a b ha hb hprep) (by decide)
  constructor
  · obtain ⟨s, hs, hp⟩ :=
      System.exists_reachable (by exact ⟨distinct_singleton _, rfl, rfl⟩) hblank
    rw [Bool.and_eq_true, decide_eq_true_eq, Bool.and_eq_true] at hp
    obtain ⟨hlength, hnames, hsigned⟩ := hp
    refine ⟨s, hs, hlength, htwo (by decide) hnames, fun hrefused => ?_⟩
    obtain ⟨e, he, hdisabled⟩ := List.any_eq_true.mp hsigned
    rw [hrefused e he] at hdisabled
    cases hdisabled
  · obtain ⟨s, hs, hp⟩ := System.exists_reachable (by exact ⟨nofun, rfl, rfl⟩) hboth
    rw [Bool.and_eq_true, decide_eq_true_eq] at hp
    exact ⟨s, hs, hp.1, fun hone => htwo (by decide) hp.2 hone.distinct⟩

/-- `bob` gets an account, and signs in again as `BOB`; `Alice`, disabled, does not. -/
theorem one_bob : ∃ s, (signIns asciiNames).Reachable (recognised asciiNames) s ∧
    s.signedIn.map SignedIn.user = [1, 1] ∧ One asciiNames s := by
  have hrun : ((signIns asciiNames).exec (recognised asciiNames)
      { accounts := ⟨[some (ldapAccount "alice" false)]⟩ }
      (List.flatten [
        .login "bob".toList :: List.replicate 4 (.next 0 (some ⟨some .operator, none⟩)),
        .login "BOB".toList :: List.replicate 3 (.next 1 (some ⟨some .operator, none⟩)),
        .login "Alice".toList :: List.replicate 3 (.next 2 (some ⟨some .operator, none⟩))])).any
      (fun s => s.signedIn.map SignedIn.user = [1, 1]) = true := by decide
  obtain ⟨s, hs, hp⟩ :=
    System.exists_reachable (by exact ⟨distinct_singleton _, rfl, rfl⟩) hrun
  exact ⟨s, hs, of_decide_eq_true hp, one_of_recognised hs⟩

end OneAccount
end NetRollout
