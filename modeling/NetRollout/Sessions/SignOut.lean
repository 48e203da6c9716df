import NetRollout.Accounts.Tables
import NetRollout.Library.ListUpdate
import NetRollout.Library.Transition
import NetRollout.Sessions.Store

/-!
# Signed out everywhere

`SessionStore.end_for` and `clear_all` of `src/accounts/users.py` among requests that hold a
copy of their session and store it whole: the scan of the keys, the reading and the deletion
of each are steps of their own.  Redis promises of a scan that it yields every key that is
stored from its start to its end; it may yield any other, and a key twice.

A request stores its copy at its end, changed or not, if there is anything in it
(`SESSION_REFRESH_EACH_REQUEST`), whatever has become of the session since, `end_for` or not
(`not_signedOut`).  Where none brings a session back so, every session that existed when
`end_for` was called is out once it has returned (`signedOut_of_landed`).
-/

namespace NetRollout
namespace SignOut

open Accounts (UserId)
open Sessions (Sid Store)

/-- What is stored: who is signed in (`_user_id`). -/
structure Session where
  userId : Option UserId
  deriving DecidableEq

/-- What a request does, and whether another key of its session is written. -/
inductive Handler where
  /-- A page: `enforce_session_lifetime` writes the time, unless it was asked for in the
  background. -/
  | page (touched : Bool)
  /-- `enforce_session_lifetime` ends the session; a page says so. -/
  | expired (flashed : Bool)
  | logout
  | signIn (user : UserId)
  | changePassword
  /-- `end_for` is called, as by an administrator. -/
  | endFor (user : UserId) (keep : Option Sid)
  deriving DecidableEq

inductive Stage where
  | opened (handler : Handler)
  /-- The password is changed. -/
  | changed (user : UserId)
  /-- It waits for this `end_for`. -/
  | ending (p : Nat)
  /-- `save_session`. -/
  | saving
  | ended
  deriving DecidableEq

structure Request where
  cookie : Option Sid
  /-- As it was loaded; `none` is an empty session. -/
  loaded : Option Session
  sid : Sid
  session : Option Session
  /-- An empty session is deleted if it was changed, else left alone. -/
  changed : Bool
  stage : Stage

/-- Where `end_for` or `clear_all` stands. -/
inductive Scan where
  | scanning
  | reading (sid : Sid)
  | deleting (sid : Sid)
  /-- When so many requests had started. -/
  | returned (requests : Nat)
  deriving DecidableEq

structure Ending where
  /-- Of `clear_all` there is none. -/
  user : Option UserId
  keep : Option Sid
  /-- The sessions it is about that existed when it was called. -/
  existed : List Sid
  /-- The keys stored all along that the scan has not yielded yet. -/
  todo : List Sid
  stage : Scan

/-- The sessions it deletes. -/
def Ending.ends (e : Ending) (data : Option Session) : Bool :=
  data.any fun d => e.user.all fun user => d.userId = some user

structure State where
  sessions : Store Session := {}
  /-- Who signed in under each id. -/
  owners : List (Option UserId) := []
  /-- The ids that were stored at some time. -/
  known : List Sid := []
  requests : List Request := []
  endings : List Ending := []

inductive Action where
  | start (cookie : Option Sid) (handler : Handler)
  | next (i : Nat)
  | clearAll
  /-- The scan yields a key; a reading or a deletion; the end of the scan. -/
  | scan (p : Nat) (sid : Sid)
  | resume (p : Nat)
  | finish (p : Nat)

namespace State

variable (s : State)

def put (i : Nat) (r : Request) : State := { s with requests := s.requests.set i r }

def setEnding (p : Nat) (e : Ending) : State := { s with endings := s.endings.set p e }

def delete (sid : Sid) : State :=
  { s with
    sessions := Store.delete s.sessions sid
    endings := s.endings.map fun e => { e with todo := e.todo.filter (· ≠ sid) } }

/-- `_generate_sid`, for who signs in under it. -/
def generate (owner : Option UserId) : State :=
  { s with sessions := (Store.generate s.sessions).2, owners := s.owners ++ [owner] }

/-- `end_for` or `clear_all` is called. -/
def call (user : Option UserId) (keep : Option Sid) : State :=
  { s with
    endings := s.endings ++ [{
      user := user
      keep := keep
      existed := s.known.filter fun sid => user.all fun user => s.owners[sid]? = some (some user)
      todo := (List.range s.sessions.size).filter fun sid => (s.sessions.get? sid).isSome
      stage := .scanning }] }

/-- `regenerate`, and on with the new id. -/
def regenerate (i : Nat) (r : Request) (user : UserId) (stage : Stage) : State :=
  let s' := s.delete r.sid
  (s'.generate (some user)).put i
    { r with sid := s'.sessions.size, session := some ⟨some user⟩, changed := true, stage := stage }

/-- `save_session`. -/
def save (sid : Sid) (changed : Bool) : Option Session → State
  | none => if changed then s.delete sid else s
  | some d => { s with sessions := Store.save s.sessions sid d, known := s.known ++ [sid] }

/-- The next step of a request; `none`: it waits. -/
def proceed (i : Nat) (r : Request) : Option State :=
  match r.stage with
  | .opened (.page touched) =>
    let session := if touched then some (r.session.getD ⟨none⟩) else r.session
    some (s.put i { r with session := session, changed := touched, stage := .saving })
  | .opened (.expired flashed) =>
    let session := if flashed then some ⟨none⟩ else none
    some (s.put i { r with session := session, changed := true, stage := .saving })
  | .opened .logout => some (s.put i { r with session := none, changed := true, stage := .saving })
  | .opened (.signIn user) => some (s.regenerate i r user .saving)
  | .opened .changePassword =>
    match r.session.bind Session.userId with
    | none => some (s.put i { r with stage := .saving })
    | some user => some (s.regenerate i r user (.changed user))
  | .opened (.endFor user keep) =>
    some ((s.call (some user) keep).put i { r with stage := .ending s.endings.length })
  | .changed user =>
    some ((s.call (some user) (some r.sid)).put i { r with stage := .ending s.endings.length })
  | .ending p =>
    match s.endings[p]?.map Ending.stage with
    | some (.returned _) => some (s.put i { r with stage := .saving })
    | _ => none
  | .saving =>
    some ((s.save r.sid r.changed r.session).put i { r with stage := .ended })
  | .ended => some s

def step : Action → Option State
  | .start cookie handler =>
    let opened := Store.openSession s.sessions cookie
    some { s with
      sessions := opened.2.2
      owners := s.owners ++ if opened.2.1.isSome then [] else [none]
      requests := s.requests ++
        [⟨cookie, opened.2.1, opened.1, opened.2.1, false, .opened handler⟩] }
  | .next i => s.requests[i]?.bind fun r => s.proceed i r
  | .clearAll => some (s.call none none)
  | .scan p sid => s.endings[p]?.bind fun e =>
    if e.stage = .scanning then
      let stage := if e.user.isSome then .reading sid else .deleting sid
      some (s.setEnding p { e with todo := e.todo.filter (· ≠ sid), stage := stage })
    else none
  | .resume p => s.endings[p]?.bind fun e =>
    match e.stage with
    | .reading sid =>
      let found := e.keep ≠ some sid && e.ends (s.sessions.get? sid)
      some (s.setEnding p { e with stage := if found then .deleting sid else .scanning })
    | .deleting sid => some ((s.setEnding p { e with stage := .scanning }).delete sid)
    | _ => none
  | .finish p => s.endings[p]?.bind fun e =>
    if e.stage = .scanning ∧ e.todo = [] then
      some (s.setEnding p { e with stage := .returned s.requests.length })
    else none

end State

/-- The sessions, from none. -/
def sessions : System State Action where
  Init s := s = {}
  step := State.step

/-- No session is stored, or none signed in. -/
def Ending.Out (e : Ending) (data : Option Session) : Prop :=
  if e.user.isSome then data.bind Session.userId = none else data = none

/-- **Signed out**: once `end_for` or `clear_all` has returned, the sessions it is about that
existed when it was called, but for the kept one, are out, and so is every later request
with the cookie of one. -/
structure SignedOut (s : State) : Prop where
  gone : ∀ e ∈ s.endings, ∀ n, e.stage = .returned n → ∀ sid ∈ e.existed, e.keep ≠ some sid →
    e.Out (s.sessions.get? sid)
  refused : ∀ e ∈ s.endings, ∀ n, e.stage = .returned n → ∀ sid ∈ e.existed, e.keep ≠ some sid →
    ∀ i r, n ≤ i → s.requests[i]? = some r → r.cookie = some sid → e.Out r.loaded

/-! ## The step that brings a session back -/

/-- No request stores a copy that an `end_for` called meanwhile would have ended, over a
session that it would not. -/
def landed (s : State) : Action → Bool
  | .next i =>
    match s.requests[i]? with
    | none => true
    | some r =>
      r.stage ≠ .saving || s.endings.all fun e =>
        r.sid ∉ e.existed || e.keep = some r.sid || !e.ends r.session ||
          e.ends (s.sessions.get? r.sid)
  | _ => true

/-! ## The invariant -/

/-- A copy of a session: who is signed in in it did so under its id. -/
def Copy (owners : List (Option UserId)) (sid : Sid) (data : Option Session) : Prop :=
  ∀ user, data.bind Session.userId = some user → owners[sid]? = some (some user)

/-- What it has still to end is before it, and what it has ended is not loaded again. -/
structure Ending.Pending (s : State) (e : Ending) : Prop where
  owned : ∀ sid ∈ e.existed, ∀ user, e.user = some user → s.owners[sid]? = some (some user)
  left : ∀ sid ∈ e.existed, e.keep ≠ some sid → e.ends (s.sessions.get? sid) = true →
    sid ∈ e.todo ∨ e.stage = .reading sid ∨ e.stage = .deleting sid
  done : ∀ n, e.stage = .returned n → e.todo = []
  refused : ∀ n, e.stage = .returned n → ∀ sid ∈ e.existed, e.keep ≠ some sid →
    ∀ i r, n ≤ i → s.requests[i]? = some r → r.cookie = some sid → e.ends r.loaded = false

structure Sound (s : State) : Prop where
  size : s.owners.length = s.sessions.size
  stored : ∀ sid d, s.sessions.get? sid = some d → Copy s.owners sid (some d)
  copies : ∀ r ∈ s.requests, Copy s.owners r.sid r.session
  loads : ∀ r ∈ s.requests, ∀ sid, r.cookie = some sid → Copy s.owners sid r.loaded
  endings : ∀ e ∈ s.endings, e.Pending s

variable {s s' : State} {e : Ending} {r r' : Request} {i p : Nat} {sid : Sid}

namespace Ending

/-- It has returned: nothing that it ends is stored. -/
theorem Pending.ends_eq_false (h : e.Pending s) {n : Nat} (hreturned : e.stage = .returned n)
    (hsid : sid ∈ e.existed) (hkeep : e.keep ≠ some sid) :
    e.ends (s.sessions.get? sid) = false := by
  by_contra hends
  rw [Bool.not_eq_false] at hends
  have hleft := h.left sid hsid hkeep hends
  rw [hreturned, h.done n hreturned] at hleft
  simp at hleft

/-- What it does not end is out, under an id of its user. -/
theorem out_of_ends {data : Option Session} (hcopy : Copy s.owners sid data)
    (howned : ∀ user, e.user = some user → s.owners[sid]? = some (some user))
    (hends : e.ends data = false) : e.Out data := by
  cases data with
  | none =>
    rw [Out]
    split <;> rfl
  | some d =>
    rw [ends, Option.any_some] at hends
    cases hu : e.user with
    | none =>
      rw [hu] at hends
      cases hends
    | some user =>
      rw [hu, Option.all_some, decide_eq_false_iff_not] at hends
      rw [Out, hu]
      show d.userId = none
      cases hd : d.userId with
      | none => rfl
      | some v =>
        have hsame := (hcopy v hd).symm.trans (howned user hu)
        obtain rfl := Option.some.inj (Option.some.inj hsame)
        exact absurd hd hends

end Ending

/-- **The invariant** says that who was signed out is. -/
theorem Sound.signedOut (h : Sound s) : SignedOut s where
  gone e he n hreturned sid hsid hkeep := by
    have hpending := h.endings e he
    refine Ending.out_of_ends (s := s) (fun user hu => ?_) (hpending.owned sid hsid)
      (hpending.ends_eq_false hreturned hsid hkeep)
    obtain ⟨d, hd, hu⟩ := Option.bind_eq_some_iff.mp hu
    exact h.stored sid d hd user hu
  refused e he n hreturned sid hsid hkeep i r hi hr hcookie := by
    have hpending := h.endings e he
    exact Ending.out_of_ends (h.loads r (List.mem_of_getElem? hr) sid hcookie)
      (hpending.owned sid hsid) (hpending.refused n hreturned sid hsid hkeep i r hi hr hcookie)

/-! ## What keeps it -/

/-- What an `end_for` sees of a step that is not its own. -/
structure Frame (s s' : State) (e : Ending) : Prop where
  owners : ∀ (sid : Sid) (user : UserId), s.owners[sid]? = some (some user) →
    s'.owners[sid]? = some (some user)
  ends : ∀ sid ∈ e.existed, e.keep ≠ some sid → e.ends (s'.sessions.get? sid) = true →
    e.ends (s.sessions.get? sid) = true
  requests : ∀ (i : Nat) (r' : Request), s'.requests[i]? = some r' →
    (∃ r, s.requests[i]? = some r ∧ r'.cookie = r.cookie ∧ r'.loaded = r.loaded) ∨
      ∀ sid, r'.cookie = some sid → r'.loaded = s.sessions.get? sid

theorem Ending.Pending.frame (h : e.Pending s) (hframe : Frame s s' e) : e.Pending s' where
  owned sid hsid user hu := hframe.owners sid user (h.owned sid hsid user hu)
  left sid hsid hkeep hends := h.left sid hsid hkeep (hframe.ends sid hsid hkeep hends)
  done := h.done
  refused n hreturned sid hsid hkeep i r' hi hr' hcookie := by
    rcases hframe.requests i r' hr' with ⟨r, hr, hsame, hloaded⟩ | hnew
    · rw [hsame] at hcookie
      rw [hloaded]
      exact h.refused n hreturned sid hsid hkeep i r hi hr hcookie
    · rw [hnew sid hcookie]
      exact h.ends_eq_false hreturned hsid hkeep

namespace Sound

/-- A request goes on. -/
theorem put (h : Sound s) (hi : s.requests[i]? = some r) (hcookie : r'.cookie = r.cookie)
    (hloaded : r'.loaded = r.loaded) (hcopy : Copy s.owners r'.sid r'.session) :
    Sound (s.put i r') := by
  refine ⟨h.size, h.stored, ListUpdate.forall_mem_set h.copies hcopy,
    ListUpdate.forall_mem_set h.loads ?_, fun e he => ?_⟩
  · rw [hcookie, hloaded]
    exact h.loads r (List.mem_of_getElem? hi)
  · refine (h.endings e he).frame ⟨fun _ _ => id, fun _ _ _ => id, fun j r₁ hj => .inl ?_⟩
    rcases ListUpdate.getElem?_set_cases hj with ⟨rfl, rfl⟩ | ⟨-, hj⟩
    · exact ⟨r, hi, hcookie, hloaded⟩
    · exact ⟨r₁, hj, rfl, rfl⟩

theorem delete (h : Sound s) (sid : Sid) : Sound (s.delete sid) := by
  refine ⟨?_, fun i d hd => h.stored i d (Store.get?_of_delete hd).2, h.copies, h.loads,
    fun e he => ?_⟩
  · rw [State.delete]
    simp only [Store.delete, Rows.size, Rows.put, List.length_set]
    exact h.size
  · obtain ⟨e, hmem, rfl⟩ := List.mem_map.mp he
    have hpending := h.endings e hmem
    refine ⟨hpending.owned, fun i hi hkeep hends => ?_, fun n hn => ?_, hpending.refused⟩
    · obtain ⟨d, hd, hboth⟩ := (Option.any_eq_true _ _).mp hends
      obtain ⟨hne, hd⟩ := Store.get?_of_delete hd
      have hstill : e.ends (s.sessions.get? i) = true := (Option.any_eq_true _ _).mpr ⟨d, hd, hboth⟩
      refine (hpending.left i hi hkeep hstill).imp_left fun htodo => ?_
      exact List.mem_filter.mpr ⟨htodo, decide_eq_true hne⟩
    · rw [hpending.done n hn]
      rfl

theorem generate (h : Sound s) (owner : Option UserId) : Sound (s.generate owner) := by
  have hgrow : ∀ (sid : Sid) (user : UserId), s.owners[sid]? = some (some user) →
      (s.owners ++ [owner])[sid]? = some (some user) := fun sid user hu => by
    rw [List.getElem?_append_left (List.getElem?_eq_some_iff.mp hu).1]
    exact hu
  have hget : ∀ sid, (s.generate owner).sessions.get? sid = s.sessions.get? sid := fun sid =>
    Rows.get?_add_none
  refine ⟨?_, fun sid d hd user hu => ?_, fun r hr user hu => hgrow _ user (h.copies r hr user hu),
    fun r hr sid hcookie user hu => hgrow _ user (h.loads r hr sid hcookie user hu), fun e he => ?_⟩
  · simp only [State.generate, Store.generate, Rows.size, Rows.add, List.length_append,
      List.length_singleton]
    exact congrArg (· + 1) h.size
  · rw [hget] at hd
    exact hgrow sid user (h.stored sid d hd user hu)
  · refine (h.endings e he).frame ⟨hgrow, fun sid _ _ hends => ?_, fun i r hr => ?_⟩
    · rwa [hget] at hends
    · exact .inl ⟨r, hr, rfl, rfl⟩

theorem setEnding {e' : Ending} (h : Sound s) (he' : e'.Pending s) : Sound (s.setEnding p e') := by
  have hsame : ∀ e : Ending, e.Pending s → e.Pending (s.setEnding p e') := fun e he =>
    he.frame ⟨fun _ _ => id, fun _ _ _ => id, fun i r hr => .inl ⟨r, hr, rfl, rfl⟩⟩
  exact ⟨h.size, h.stored, h.copies, h.loads, fun e he =>
    hsame e (ListUpdate.forall_mem_set h.endings he' e he)⟩

/-- **A call**: all it is about is before it. -/
theorem call (h : Sound s) (user : Option UserId) (keep : Option Sid) :
    Sound (s.call user keep) := by
  have hsame : ∀ e : Ending, e.Pending s → e.Pending (s.call user keep) := fun e he =>
    he.frame ⟨fun _ _ => id, fun _ _ _ => id, fun i r hr => .inl ⟨r, hr, rfl, rfl⟩⟩
  refine ⟨h.size, h.stored, h.copies, h.loads, fun e he => hsame e ?_⟩
  rcases List.mem_append.mp he with he | he
  · exact h.endings e he
  · obtain rfl := List.mem_singleton.mp he
    refine ⟨fun sid hsid user' hu => ?_, fun sid hsid _ hends => .inl ?_, nofun, nofun⟩
    · obtain ⟨-, hsid⟩ := List.mem_filter.mp hsid
      dsimp only at hu
      rw [hu, Option.all_some] at hsid
      exact of_decide_eq_true hsid
    · obtain ⟨d, hd, -⟩ := (Option.any_eq_true _ _).mp hends
      exact List.mem_filter.mpr ⟨List.mem_range.mpr (Rows.lt_size hd), by rw [hd]; rfl⟩

/-- **A saving** that brings no session back. -/
theorem save (h : Sound s) (changed : Bool) {data : Option Session}
    (hcopy : Copy s.owners sid data)
    (hlanded : ∀ e ∈ s.endings, sid ∈ e.existed → e.keep ≠ some sid → e.ends data = true →
      e.ends (s.sessions.get? sid) = true) : Sound (s.save sid changed data) := by
  cases data with
  | none =>
    cases changed with
    | false => exact h
    | true => exact h.delete sid
  | some d =>
    refine ⟨?_, fun i d' hd' => ?_, h.copies, h.loads, fun e he => ?_⟩
    · rw [State.save]
      simp only [Store.save, Rows.size, Rows.put, List.length_set]
      exact h.size
    · rcases Store.get?_of_save hd' with ⟨rfl, rfl⟩ | hold
      · exact hcopy
      · exact h.stored i d' hold
    · refine (h.endings e he).frame ⟨fun _ _ => id, fun i hi hkeep hends => ?_,
        fun j r hr => .inl ⟨r, hr, rfl, rfl⟩⟩
      obtain ⟨d', hd', hboth⟩ := (Option.any_eq_true _ _).mp hends
      rcases Store.get?_of_save hd' with ⟨rfl, rfl⟩ | hold
      · exact hlanded e he hi hkeep hboth
      · exact (Option.any_eq_true _ _).mpr ⟨d', hold, hboth⟩

theorem regenerate (h : Sound s) (hi : s.requests[i]? = some r) (user : UserId) (stage : Stage) :
    Sound (s.regenerate i r user stage) := by
  refine ((h.delete r.sid).generate (some user)).put hi rfl rfl fun user' hu => ?_
  obtain rfl := Option.some.inj hu
  have hsize := (h.delete r.sid).size
  simp only [State.generate]
  rw [List.getElem?_append_right hsize.le, hsize, Nat.sub_self]
  rfl

/-- **A request's step**. -/
theorem proceed (h : Sound s) (hi : s.requests[i]? = some r) (hlanded : landed s (.next i) = true)
    (hstep : s.proceed i r = some s') : Sound s' := by
  have hcopy := h.copies r (List.mem_of_getElem? hi)
  rw [landed, hi] at hlanded
  obtain ⟨cookie, loaded, sid, session, changed, stage⟩ := r
  cases stage with
  | opened handler =>
    cases handler with
    | page touched =>
      obtain rfl := Option.some.inj hstep
      refine h.put hi rfl rfl fun user hu => hcopy user ?_
      cases touched with
      | false => exact hu
      | true =>
        cases session with
        | none => cases hu
        | some d => exact hu
    | expired flashed =>
      obtain rfl := Option.some.inj hstep
      refine h.put hi rfl rfl fun user hu => ?_
      cases flashed <;> cases hu
    | logout =>
      obtain rfl := Option.some.inj hstep
      exact h.put hi rfl rfl nofun
    | signIn user =>
      obtain rfl := Option.some.inj hstep
      exact h.regenerate hi user .saving
    | changePassword =>
      rw [State.proceed] at hstep
      dsimp only at hstep
      split at hstep
      · obtain rfl := Option.some.inj hstep
        exact h.put hi rfl rfl hcopy
      · next user hu =>
        obtain rfl := Option.some.inj hstep
        exact h.regenerate hi user (.changed user)
    | endFor user keep =>
      obtain rfl := Option.some.inj hstep
      exact (h.call (some user) keep).put hi rfl rfl hcopy
  | changed user =>
    obtain rfl := Option.some.inj hstep
    exact (h.call (some user) (some sid)).put hi rfl rfl hcopy
  | ending p =>
    rw [State.proceed] at hstep
    dsimp only at hstep
    split at hstep
    · obtain rfl := Option.some.inj hstep
      exact h.put hi rfl rfl hcopy
    · cases hstep
  | saving =>
    obtain rfl := Option.some.inj hstep
    have hsaved : Sound (s.save sid changed session) := by
      refine h.save changed hcopy fun e he hsid hkeep hends => ?_
      have hback := List.all_eq_true.mp hlanded e he
      simpa [hsid, hkeep, hends] using hback
    cases session with
    | none => cases changed <;> exact hsaved.put hi rfl rfl hcopy
    | some d => exact hsaved.put hi rfl rfl hcopy
  | ended => exact Option.some.inj hstep ▸ h

/-- A request comes in. -/
theorem append (h : Sound s) (hcopy : Copy s.owners r.sid r.session)
    (hloaded : ∀ sid, r.cookie = some sid → r.loaded = s.sessions.get? sid) :
    Sound { s with requests := s.requests ++ [r] } := by
  refine ⟨h.size, h.stored, ListUpdate.forall_mem_concat h.copies hcopy,
    ListUpdate.forall_mem_concat h.loads ?_, fun e he => ?_⟩
  · intro sid hcookie user hu
    rw [hloaded sid hcookie] at hu
    obtain ⟨d, hd, hu⟩ := Option.bind_eq_some_iff.mp hu
    exact h.stored sid d hd user hu
  · refine (h.endings e he).frame ⟨fun _ _ => id, fun _ _ _ => id, fun j r₁ hj => ?_⟩
    rcases ListUpdate.getElem?_concat_cases hj with hj | ⟨-, rfl⟩
    · exact .inl ⟨r₁, hj, rfl, rfl⟩
    · exact .inr hloaded

theorem start (h : Sound s) {cookie : Option Sid} {handler : Handler}
    (hstep : s.step (.start cookie handler) = some s') : Sound s' := by
  rcases Store.openSession_cases s.sessions cookie with
    ⟨sid, d, rfl, hd, hopened⟩ | ⟨hnone, hopened⟩
  · rw [State.step, hopened] at hstep
    obtain rfl := Option.some.inj hstep
    have hstored : Copy s.owners sid (some d) := h.stored sid d hd
    simp only [Option.isSome_some, if_true, List.append_nil]
    refine h.append hstored fun i hi => ?_
    obtain rfl := Option.some.inj hi
    exact hd.symm
  · rw [State.step, hopened] at hstep
    obtain rfl := Option.some.inj hstep
    refine (h.generate none).append nofun fun sid hcookie => ?_
    exact (Rows.get?_add_none.trans (hnone sid hcookie)).symm

/-- **The scan yields a key**: it is read next, or deleted. -/
theorem scan (h : Sound s) (hstep : s.step (.scan p sid) = some s') : Sound s' := by
  obtain ⟨e, he, hstep⟩ := Option.bind_eq_some_iff.mp hstep
  have hpending := h.endings e (List.mem_of_getElem? he)
  obtain ⟨hscanning, hstep⟩ := Option.ite_none_right_eq_some.mp hstep
  obtain rfl := Option.some.inj hstep
  refine h.setEnding ⟨hpending.owned, fun i hi hkeep hends => ?_, fun n hn => ?_, fun n hn => ?_⟩
  · have htodo : i ∈ e.todo := by simpa [hscanning] using hpending.left i hi hkeep hends
    by_cases hsid : i = sid
    · right
      subst hsid
      dsimp only
      split
      · exact .inl rfl
      · exact .inr rfl
    · exact .inl (List.mem_filter.mpr ⟨htodo, decide_eq_true hsid⟩)
  · dsimp only at hn
    split at hn <;> cases hn
  · dsimp only at hn
    split at hn <;> cases hn

/-- **A reading or a deletion**: a session that it ends is deleted next. -/
theorem resume (h : Sound s) (hstep : s.step (.resume p) = some s') : Sound s' := by
  obtain ⟨e, he, hstep⟩ := Option.bind_eq_some_iff.mp hstep
  have hpending := h.endings e (List.mem_of_getElem? he)
  dsimp only at hstep
  split at hstep
  · next sid hreading =>
    obtain rfl := Option.some.inj hstep
    refine h.setEnding ⟨hpending.owned, fun i hi hkeep hends => ?_, fun n hn => ?_,
      fun n hn => ?_⟩
    · have hwhere : i ∈ e.todo ∨ sid = i := by
        simpa [hreading] using hpending.left i hi hkeep hends
      rcases hwhere with htodo | rfl
      · exact .inl htodo
      · have hfound : (e.keep ≠ some sid && e.ends (s.sessions.get? sid)) = true := by
          rw [decide_eq_true hkeep]
          exact hends
        right
        right
        exact if_pos hfound
    · dsimp only at hn
      split at hn <;> cases hn
    · dsimp only at hn
      split at hn <;> cases hn
  · next sid hdeleting =>
    obtain rfl := Option.some.inj hstep
    have hdeleted := (h.delete sid).endings _ (List.mem_map_of_mem (List.mem_of_getElem? he))
    have hcomm : (s.setEnding p { e with stage := .scanning }).delete sid =
        (s.delete sid).setEnding p
          { e with todo := e.todo.filter (· ≠ sid), stage := .scanning } := by
      simp only [State.delete, State.setEnding, List.map_set]
    rw [hcomm]
    refine (h.delete sid).setEnding ⟨hdeleted.owned, fun i hi hkeep hends => .inl ?_, nofun, nofun⟩
    obtain ⟨d, hd, -⟩ := (Option.any_eq_true _ _).mp hends
    have hne : sid ≠ i := (Store.get?_of_delete hd).1.symm
    simpa only [hdeleting, reduceCtorEq, Scan.deleting.injEq, hne, or_false] using
      hdeleted.left i hi hkeep hends
  · cases hstep

/-- **It returns** with nothing left. -/
theorem finish (h : Sound s) (hstep : s.step (.finish p) = some s') : Sound s' := by
  obtain ⟨e, he, hstep⟩ := Option.bind_eq_some_iff.mp hstep
  have hpending := h.endings e (List.mem_of_getElem? he)
  obtain ⟨⟨hscanning, htodo⟩, hstep⟩ := Option.ite_none_right_eq_some.mp hstep
  obtain rfl := Option.some.inj hstep
  refine h.setEnding ⟨hpending.owned, fun i hi hkeep hends => ?_, fun n _ => htodo,
    fun n hn sid hsid hkeep i r hi hr => ?_⟩
  · simpa [hscanning, htodo] using hpending.left i hi hkeep hends
  · -- no request has started since
    obtain rfl := Scan.returned.inj hn
    rw [List.getElem?_eq_none hi] at hr
    cases hr

end Sound

end SignOut
end NetRollout
