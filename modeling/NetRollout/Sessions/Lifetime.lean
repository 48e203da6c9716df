import NetRollout.Library.ListUpdate
import NetRollout.Library.Transition
import NetRollout.Sessions.Store

/-!
# How long a session lasts

`enforce_session_lifetime` of `src/webapp/hooks.py` and `seconds_left` of `src/accounts/users.py`,
among requests that hold a copy of their session and store it whole at their end, changed or not
(`SESSION_REFRESH_EACH_REQUEST`), in any order.
Sign-ins start both clocks (`mark_signed_in`); a request of a person's moves the second, one of a
page's own does not.

The state keeps, beside the sessions, when each was signed in, the times a person used it, and
the checks that were made of it.  A request that goes on does so within the idle limit of some
use of its session and within twelve hours of its sign-in, whatever the others have stored
meanwhile (`inTime_of_reachable`).  A request that stores an older copy may take a use back, so
that a session can end early; where no two requests of a session overlap, it ends only when the
newest use of it is past the limit, or the sign-in (`onTime_of_alone`).

A session from before the clocks, and the answers to a session that has ended, are left out.
-/

namespace NetRollout
namespace Lifetime

open Sessions (Sid Store)

/-- `ABSOLUTE_SESSION_HOURS`, in seconds. -/
def ABSOLUTE_SESSION_SECONDS : Int := 12 * 3600

/-- The clocks of a session, `SIGNED_IN_AT` and `LAST_ACTIVE`. -/
structure Clocks where
  signed_in_at : Option Int
  last_active : Option Int
  deriving DecidableEq

/-- `seconds_left`. -/
def seconds_left (data : Clocks) (now idle_limit : Int) : Int × Int :=
  (idle_limit - (now - data.last_active.getD now),
    ABSOLUTE_SESSION_SECONDS - (now - data.signed_in_at.getD now))

inductive Reason where
  | idle
  | absolute
  deriving DecidableEq

/-- The two `setdefault`s. -/
def Clocks.started (data : Clocks) (now : Int) : Clocks :=
  ⟨some (data.signed_in_at.getD now), some (data.last_active.getD now)⟩

/-- `enforce_session_lifetime` of a signed-in session: why it has ended, and what is left of it. -/
def enforce (background : Bool) (now idle_limit : Int) (data : Clocks) :
    Option Reason × Option Clocks :=
  let data := data.started now
  let (idle_left, absolute_left) := seconds_left data now idle_limit
  if 0 < idle_left ∧ 0 < absolute_left then
    (none, some (if background then data else { data with last_active := some now }))
  else (some (if idle_left ≤ 0 then .idle else .absolute), none)

/-! ## Requests -/

/-- A request, with its copy of its session. -/
structure Request where
  sid : Sid
  session : Option Clocks
  ended : Bool

/-- A check of a session, and the uses of it until then. -/
structure Check where
  sid : Sid
  time : Int
  idle_limit : Int
  reason : Option Reason
  uses : List Int

structure State where
  now : Int
  sessions : Store Clocks := {}
  /-- When each session was signed in. -/
  signIns : List Int := []
  /-- When a person used which. -/
  uses : List (Sid × Int) := []
  requests : List Request := []
  checks : List Check := []

inductive Action where
  | tick (seconds : Nat)
  /-- A sign-in, under a new id.  The session that it came with is deleted, a step of its own. -/
  | signIn
  /-- `regenerate`, of a request that changes the password. -/
  | regenerate (i : Nat)
  /-- A request with a session that is stored. -/
  | ask (sid : Sid) (background : Bool) (idle_limit : Int)
  /-- `save_session`. -/
  | finish (i : Nat)
  /-- A sign-out, of one session or everywhere, and a start of the app. -/
  | delete (sid : Sid)

namespace State

variable (s : State)

/-- The times a session was used. -/
def usesOf (sid : Sid) : List Int := (s.uses.filter fun use => use.1 == sid).map Prod.snd

/-- `mark_signed_in`. -/
def signedIn : State :=
  { s with
    sessions := (Store.generate s.sessions).2
    signIns := s.signIns ++ [s.now]
    uses := s.uses ++ [(s.sessions.size, s.now)]
    requests := s.requests ++ [⟨s.sessions.size, some ⟨some s.now, some s.now⟩, false⟩] }

/-- A request goes on under a new id, with its clocks as they are. -/
def regenerated (i : Nat) (r : Request) (began : Int) : State :=
  let sid := s.sessions.size
  { s with
    sessions := (Store.regenerate s.sessions r.sid).2
    signIns := s.signIns ++ [began]
    uses := s.uses ++ (s.usesOf r.sid).map fun t => (sid, t)
    requests := s.requests.set i { r with sid := sid } }

/-- A request is checked. -/
def asked (sid : Sid) (background : Bool) (idle_limit : Int) (data : Clocks) : State :=
  let (reason, session) := enforce background s.now idle_limit data
  { s with
    uses := if reason.isNone && !background then s.uses ++ [(sid, s.now)] else s.uses
    requests := s.requests ++ [⟨sid, session, false⟩]
    checks := s.checks ++ [⟨sid, s.now, idle_limit, reason, s.usesOf sid⟩] }

/-- A request stores its copy, changed or not; a session that was cleared is deleted. -/
def saved (i : Nat) (r : Request) : State :=
  { s with
    sessions :=
      match r.session with
      | some data => Store.save s.sessions r.sid data
      | none => Store.delete s.sessions r.sid
    requests := s.requests.set i { r with ended := true } }

def step : Action → Option State
  | .tick seconds => some { s with now := s.now + seconds }
  | .signIn => some s.signedIn
  | .regenerate i => s.requests[i]?.bind fun r => s.signIns[r.sid]?.bind fun began =>
    if r.ended || r.session.isNone then none else some (s.regenerated i r began)
  | .ask sid background idle_limit => (s.sessions.get? sid).map (s.asked sid background idle_limit)
  | .finish i => s.requests[i]?.bind fun r => if r.ended then none else some (s.saved i r)
  | .delete sid => some { s with sessions := Store.delete s.sessions sid }

end State

/-- The sessions, from none. -/
def sessions : System State Action where
  Init s := s = { now := s.now }
  step := State.step

/-! ## The invariant -/

/-- The clocks of a session: its sign-in, and one of its uses since. -/
structure Fits (s : State) (sid : Sid) (data : Clocks) (began active : Int) : Prop where
  clocks : data = ⟨some began, some active⟩
  signIn : s.signIns[sid]? = some began
  use : (sid, active) ∈ s.uses
  began_le : began ≤ active
  active_le : active ≤ s.now

/-- A check that is in time of a use of its session, and of the sign-in. -/
def InTime (s : State) (c : Check) : Prop :=
  ∃ began, s.signIns[c.sid]? = some began ∧ c.time < began + ABSOLUTE_SESSION_SECONDS ∧
    ∃ active ∈ c.uses, active ≤ c.time ∧ c.time < active + c.idle_limit

structure Sound (s : State) : Prop where
  size : s.signIns.length = s.sessions.size
  stored : ∀ sid data, s.sessions.get? sid = some data →
    ∃ began active, Fits s sid data began active
  copies : ∀ r ∈ s.requests, ∀ data, r.session = some data →
    ∃ began active, Fits s r.sid data began active
  checks : ∀ c ∈ s.checks, c.reason = none → InTime s c

variable {s s' : State}

theorem mem_usesOf {sid : Sid} {t : Int} : t ∈ s.usesOf sid ↔ (sid, t) ∈ s.uses := by
  simp only [State.usesOf, List.mem_map, List.mem_filter, beq_iff_eq]
  constructor
  · rintro ⟨⟨i, u⟩, ⟨hmem, rfl⟩, rfl⟩
    exact hmem
  · exact fun hmem => ⟨(sid, t), ⟨hmem, rfl⟩, rfl⟩

/-- What a step leaves: sign-ins and uses are only added, and time does not go back. -/
structure Later (s s' : State) : Prop where
  signIns : s.signIns <+: s'.signIns
  uses : s.uses ⊆ s'.uses
  now : s.now ≤ s'.now

theorem Later.signIn {sid : Sid} {began : Int} (h : Later s s')
    (hbegan : s.signIns[sid]? = some began) : s'.signIns[sid]? = some began := by
  obtain ⟨rest, hrest⟩ := h.signIns
  rw [← hrest, List.getElem?_append_left (List.getElem?_eq_some_iff.mp hbegan).1]
  exact hbegan

theorem Fits.later {sid : Sid} {data : Clocks} {began active : Int}
    (h : Fits s sid data began active) (hlater : Later s s') : Fits s' sid data began active :=
  ⟨h.clocks, hlater.signIn h.signIn, hlater.uses h.use, h.began_le, h.active_le.trans hlater.now⟩

theorem InTime.later {c : Check} (h : InTime s c) (hlater : Later s s') : InTime s' c := by
  obtain ⟨began, hsignIn, hrest⟩ := h
  exact ⟨began, hlater.signIn hsignIn, hrest⟩

/-- What a step adds has only to be shown of what it adds. -/
theorem Sound.later (h : Sound s) (hlater : Later s s')
    (hsize : s'.signIns.length = s'.sessions.size)
    (hstored : ∀ sid data, s'.sessions.get? sid = some data → s.sessions.get? sid = some data ∨
      ∃ began active, Fits s' sid data began active)
    (hcopies : ∀ r ∈ s'.requests, (∃ r₀ ∈ s.requests, r₀.sid = r.sid ∧ r₀.session = r.session) ∨
      ∀ data, r.session = some data → ∃ began active, Fits s' r.sid data began active)
    (hchecks : ∀ c ∈ s'.checks, c ∈ s.checks ∨ (c.reason = none → InTime s' c)) : Sound s' where
  size := hsize
  stored sid data hdata := by
    rcases hstored sid data hdata with hold | hnew
    · obtain ⟨began, active, hfits⟩ := h.stored sid data hold
      exact ⟨began, active, hfits.later hlater⟩
    · exact hnew
  copies r hr data hdata := by
    rcases hcopies r hr with ⟨r₀, hr₀, hsid, hsession⟩ | hnew
    · obtain ⟨began, active, hfits⟩ := h.copies r₀ hr₀ data (hsession.trans hdata)
      rw [hsid] at hfits
      exact ⟨began, active, hfits.later hlater⟩
    · exact hnew data hdata
  checks c hc := by
    rcases hchecks c hc with hold | hnew
    · exact fun hreason => (h.checks c hold hreason).later hlater
    · exact hnew

theorem size_generate (S : Store Clocks) : (Store.generate S).2.size = S.size + 1 := by
  simp only [Store.generate, Rows.size, Rows.add, List.length_append, List.length_singleton]

theorem size_put (S : Store Clocks) (sid : Sid) (data : Option Clocks) :
    (S.put sid data).size = S.size := by
  simp only [Rows.size, Rows.put, List.length_set]

/-- A sign-in starts both clocks. -/
theorem Sound.signedIn (h : Sound s) : Sound s.signedIn := by
  refine h.later ⟨List.prefix_append _ _, List.subset_append_left _ _, le_refl _⟩ ?_
    (fun sid data hdata => .inl ?_) (fun r hr => ?_) fun c hc => .inl hc
  · rw [State.signedIn, size_generate, List.length_append, h.size, List.length_singleton]
  · rwa [State.signedIn, Store.generate, Rows.get?_add_none] at hdata
  · rcases List.mem_append.mp hr with hr | hr
    · exact .inl ⟨r, hr, rfl, rfl⟩
    · obtain rfl := List.mem_singleton.mp hr
      refine .inr fun data hdata => ⟨s.now, s.now, (Option.some.inj hdata).symm, ?_, ?_, le_refl _,
        le_refl _⟩
      · show (s.signIns ++ [s.now])[s.sessions.size]? = some s.now
        rw [← h.size, List.getElem?_concat_length]
      · exact List.mem_append_right _ (List.mem_singleton.mpr rfl)

/-- A new id has the clocks, and the uses, of the old one. -/
theorem Sound.regenerated (h : Sound s) {i : Nat} {r : Request} {began : Int}
    (hr : s.requests[i]? = some r) (hbegan : s.signIns[r.sid]? = some began) :
    Sound (s.regenerated i r began) := by
  refine h.later ⟨List.prefix_append _ _, List.subset_append_left _ _, le_refl _⟩ ?_
    (fun sid data hdata => .inl ?_) (fun r' hr' => ?_) fun c hc => .inl hc
  · rw [State.regenerated, Store.regenerate, size_generate, Store.delete, size_put,
      List.length_append, h.size, List.length_singleton]
  · exact (Store.get?_of_regenerate hdata).2
  · rcases List.mem_or_eq_of_mem_set hr' with hr' | rfl
    · exact .inl ⟨r', hr', rfl, rfl⟩
    · refine .inr fun data hdata => ?_
      obtain ⟨began', active, hfits⟩ := h.copies r (List.mem_of_getElem? hr) data hdata
      have hsame := Option.some.inj (hbegan.symm.trans hfits.signIn)
      refine ⟨began', active, hfits.clocks, ?_, ?_, hfits.began_le, hfits.active_le⟩
      · show (s.signIns ++ [began])[s.sessions.size]? = some began'
        rw [← h.size, List.getElem?_concat_length, hsame]
      · exact List.mem_append_right _ (List.mem_map.mpr ⟨active, mem_usesOf.mpr hfits.use, rfl⟩)

/-- What is stored after a saving: the copy, or what was there. -/
theorem get?_of_saved {i : Nat} {r : Request} {sid : Sid} {data : Clocks}
    (h : (s.saved i r).sessions.get? sid = some data) :
    (sid ≠ r.sid ∧ s.sessions.get? sid = some data) ∨
      (sid = r.sid ∧ r.session = some data) := by
  simp only [State.saved] at h
  split at h
  · next copy hcopy =>
    rcases Rows.get?_of_put h with ⟨hsid, hdata⟩ | ⟨hne, hold⟩
    · exact .inr ⟨hsid, hcopy.trans hdata⟩
    · exact .inl ⟨hne, hold⟩
  · exact .inl (Store.get?_of_delete h)

theorem Sound.saved (h : Sound s) {i : Nat} {r : Request} (hr : s.requests[i]? = some r) :
    Sound (s.saved i r) := by
  have hlater : Later s (s.saved i r) := ⟨List.prefix_rfl, fun _ => id, le_refl _⟩
  refine h.later hlater ?_ (fun sid data hdata => ?_) (fun r' hr' => .inl ?_) fun c hc => .inl hc
  · rw [State.saved]
    simp only [Store.save, Store.delete]
    split
    · rw [size_put, h.size]
    · rw [size_put, h.size]
  · rcases get?_of_saved hdata with ⟨-, hold⟩ | ⟨rfl, hcopy⟩
    · exact .inl hold
    · obtain ⟨began, active, hfits⟩ := h.copies r (List.mem_of_getElem? hr) data hcopy
      exact .inr ⟨began, active, hfits.later hlater⟩
  · rcases List.mem_or_eq_of_mem_set hr' with hr' | rfl
    · exact ⟨r', hr', rfl, rfl⟩
    · exact ⟨r, List.mem_of_getElem? hr, rfl, rfl⟩

/-! ## A check -/

theorem enforce_clocks (background : Bool) (now idle_limit began active : Int) :
    enforce background now idle_limit ⟨some began, some active⟩ =
      if 0 < idle_limit - (now - active) ∧ 0 < ABSOLUTE_SESSION_SECONDS - (now - began) then
        (none, some ⟨some began, some (if background then active else now)⟩)
      else (some (if idle_limit - (now - active) ≤ 0 then .idle else .absolute), none) := by
  cases background <;> rfl

/-- A session goes on within both limits; a person's use moves its second clock. -/
theorem enforce_eq_none {background : Bool} {now idle_limit began active : Int}
    (h : (enforce background now idle_limit ⟨some began, some active⟩).1 = none) :
    now < active + idle_limit ∧ now < began + ABSOLUTE_SESSION_SECONDS ∧
      (enforce background now idle_limit ⟨some began, some active⟩).2 =
        some ⟨some began, some (if background then active else now)⟩ := by
  rw [enforce_clocks] at h ⊢
  split at h
  · next hleft => exact ⟨by omega, by omega, by rw [if_pos hleft]⟩
  · cases h

/-- A session ends past one of them. -/
theorem enforce_eq_some {background : Bool} {now idle_limit began active : Int} {reason : Reason}
    (h : (enforce background now idle_limit ⟨some began, some active⟩).1 = some reason) :
    (active + idle_limit ≤ now ∨ began + ABSOLUTE_SESSION_SECONDS ≤ now) ∧
      (enforce background now idle_limit ⟨some began, some active⟩).2 = none := by
  rw [enforce_clocks] at h ⊢
  split at h
  · cases h
  · next hleft => exact ⟨by omega, by rw [if_neg hleft]⟩

theorem later_asked (s : State) (sid : Sid) (background : Bool) (idle_limit : Int)
    (data : Clocks) : Later s (s.asked sid background idle_limit data) := by
  refine ⟨List.prefix_rfl, ?_, le_refl _⟩
  simp only [State.asked]
  split
  · exact List.subset_append_left _ _
  · exact fun _ => id

theorem Sound.asked (h : Sound s) {sid : Sid} {data : Clocks} {background : Bool}
    {idle_limit : Int} (hdata : s.sessions.get? sid = some data) :
    Sound (s.asked sid background idle_limit data) := by
  obtain ⟨began, active, hfits⟩ := h.stored sid data hdata
  obtain rfl := hfits.clocks
  have hlater := later_asked s sid background idle_limit ⟨some began, some active⟩
  refine h.later hlater h.size (fun _ _ => .inl) (fun r hr => ?_) fun c hc => ?_
  · rcases List.mem_append.mp hr with hr | hr
    · exact .inl ⟨r, hr, rfl, rfl⟩
    · obtain rfl := List.mem_singleton.mp hr
      refine .inr fun data hcopy => ?_
      have hfits' := hfits.later hlater
      cases hreason : (enforce background s.now idle_limit ⟨some began, some active⟩).1 with
      | some reason =>
        have hnone := (enforce_eq_some hreason).2.symm.trans hcopy
        cases hnone
      | none =>
        have hsome := (enforce_eq_none hreason).2.2.symm.trans hcopy
        obtain rfl := Option.some.inj hsome
        cases background with
        | true => exact ⟨began, active, hfits'⟩
        | false =>
          refine ⟨began, s.now, rfl, hfits'.signIn, ?_, hfits.began_le.trans hfits.active_le,
            le_refl _⟩
          simp only [State.asked, hreason]
          exact List.mem_append_right _ (List.mem_singleton.mpr rfl)
  · rcases List.mem_append.mp hc with hc | hc
    · exact .inl hc
    · obtain rfl := List.mem_singleton.mp hc
      refine .inr fun hreason => ?_
      obtain ⟨hidle, habsolute, -⟩ := enforce_eq_none hreason
      exact ⟨began, hlater.signIn hfits.signIn, habsolute, active, mem_usesOf.mpr hfits.use,
        hfits.active_le, hidle⟩

theorem Sound.step (h : Sound s) {a : Action} (hstep : s.step a = some s') : Sound s' := by
  cases a with
  | tick seconds =>
    cases hstep
    exact h.later ⟨List.prefix_rfl, fun _ => id, Int.le_add_of_nonneg_right (Int.natCast_nonneg _)⟩
      h.size (fun _ _ => .inl) (fun r hr => .inl ⟨r, hr, rfl, rfl⟩) fun c hc => .inl hc
  | signIn =>
    cases hstep
    exact h.signedIn
  | regenerate i =>
    obtain ⟨r, hr, hstep⟩ := Option.bind_eq_some_iff.mp hstep
    obtain ⟨began, hbegan, hstep⟩ := Option.bind_eq_some_iff.mp hstep
    split at hstep
    · cases hstep
    · cases hstep
      exact h.regenerated hr hbegan
  | ask sid background idle_limit =>
    obtain ⟨data, hdata, rfl⟩ := Option.map_eq_some_iff.mp hstep
    exact h.asked hdata
  | finish i =>
    obtain ⟨r, hr, hstep⟩ := Option.bind_eq_some_iff.mp hstep
    split at hstep
    · cases hstep
    · cases hstep
      exact h.saved hr
  | delete sid =>
    cases hstep
    exact h.later ⟨List.prefix_rfl, fun _ => id, le_refl _⟩ (by rw [Store.delete, size_put, h.size])
      (fun i data hdata => .inl (Store.get?_of_delete hdata).2)
      (fun r hr => .inl ⟨r, hr, rfl, rfl⟩) fun c hc => .inl hc

theorem sound_of_reachable {allowed : State → Action → Bool} (h : sessions.Reachable allowed s) :
    Sound s := by
  refine h.invariant (fun s hs => ?_) fun s a s' _ _ hs hstep => hs.step hstep
  obtain ⟨now, hnow⟩ : ∃ now, s = { now := now } := ⟨_, hs⟩
  subst hnow
  refine ⟨rfl, fun sid data hdata => ?_, by simp, by simp⟩
  simp [Rows.get?] at hdata

/-- **A request goes on only in time**: in every run, whatever requests store over one another, a
request that was let on came within the idle limit of a use of its session, and within twelve
hours of its sign-in. -/
theorem inTime_of_reachable (h : sessions.Reachable System.always s) {c : Check}
    (hc : c ∈ s.checks) (hreason : c.reason = none) : InTime s c :=
  (sound_of_reachable h).checks c hc hreason

/-- A sign-in, and a page a minute later. -/
def onePage : List Action := [.signIn, .finish 0, .tick 60, .ask 0 false 600]

theorem inTime_of_reachable_onePage : ∃ s c, c ∈ s.checks ∧ c.reason = none ∧ InTime s c :=
  ⟨_, _, List.mem_singleton.mpr rfl, rfl,
    inTime_of_reachable ⟨{ now := 0 }, onePage, rfl, rfl⟩ (List.mem_singleton.mpr rfl) rfl⟩

/-! ## Requests one at a time -/

/-- No request asks for a session that another still has. -/
def alone (s : State) : Action → Bool
  | .ask sid _ _ => s.requests.all fun r => r.ended || r.sid != sid
  | _ => true

/-- A request that has still to store its copy. -/
def Unsaved (sid : Sid) (r : Request) : Prop := r.ended = false ∧ r.sid = sid

/-- The second clock is no earlier than any use. -/
def Newest (s : State) (sid : Sid) (data : Clocks) : Prop :=
  ∀ t, (sid, t) ∈ s.uses → ∃ active, data.last_active = some active ∧ t ≤ active

/-- A check that is past the limit of every use of its session, or of the sign-in. -/
def Late (s : State) (c : Check) : Prop :=
  ∃ began, s.signIns[c.sid]? = some began ∧
    (began + ABSOLUTE_SESSION_SECONDS ≤ c.time ∨ ∀ t ∈ c.uses, t + c.idle_limit ≤ c.time)

structure Current (s : State) : Prop where
  uses : ∀ e ∈ s.uses, e.1 < s.sessions.size ∧ e.2 ≤ s.now
  stored : ∀ sid data, s.sessions.get? sid = some data → (¬ ∃ r ∈ s.requests, Unsaved sid r) →
    Newest s sid data
  copies : ∀ r ∈ s.requests, r.ended = false → ∀ data, r.session = some data →
    Newest s r.sid data
  checks : ∀ c ∈ s.checks, c.reason ≠ none → Late s c

theorem Late.later {c : Check} (h : Late s c) (hlater : Later s s') : Late s' c := by
  obtain ⟨began, hsignIn, hrest⟩ := h
  exact ⟨began, hlater.signIn hsignIn, hrest⟩

theorem Late.not_inTime {c : Check} (h : Late s c) : ¬ InTime s c := by
  rintro ⟨began, hbegan, habsolute, active, hmem, -, hidle⟩
  obtain ⟨began', hbegan', hlate⟩ := h
  have hsame := Option.some.inj (hbegan.symm.trans hbegan')
  rcases hlate with hlate | hlate
  · omega
  · exact absurd (hlate active hmem) (by omega)

/-- A session that has no new use. -/
theorem Newest.same {sid : Sid} {data : Clocks} (h : Newest s sid data)
    (huses : ∀ t, (sid, t) ∈ s'.uses → (sid, t) ∈ s.uses) : Newest s' sid data :=
  fun t ht => h t (huses t ht)

/-- A new id's uses are not another's. -/
theorem mem_uses_new (times : List Int) {sid new : Sid} {t : Int} (hne : sid ≠ new)
    (h : (sid, t) ∈ s.uses ++ times.map fun t => (new, t)) : (sid, t) ∈ s.uses := by
  rcases List.mem_append.mp h with h | h
  · exact h
  · obtain ⟨u, -, heq⟩ := List.mem_map.mp h
    exact absurd (congrArg Prod.fst heq).symm hne

/-- The id of a copy has been given. -/
theorem Sound.sid_lt (h : Sound s) {r : Request} (hr : r ∈ s.requests) {data : Clocks}
    (hdata : r.session = some data) : r.sid < s.sessions.size := by
  obtain ⟨began, active, hfits⟩ := h.copies r hr data hdata
  rw [← h.size]
  exact (List.getElem?_eq_some_iff.mp hfits.signIn).1

theorem Current.signedIn (h : Current s) (hs : Sound s) : Current s.signedIn := by
  have hsize : s.signedIn.sessions.size = s.sessions.size + 1 := size_generate s.sessions
  have hother : ∀ sid < s.sessions.size, ∀ t, (sid, t) ∈ s.signedIn.uses → (sid, t) ∈ s.uses :=
    fun sid hsid t ht => mem_uses_new [s.now] (Nat.ne_of_lt hsid) ht
  constructor
  · intro e he
    rw [hsize]
    rcases List.mem_append.mp he with he | he
    · exact ⟨Nat.lt_succ_of_lt (h.uses e he).1, (h.uses e he).2⟩
    · obtain rfl := List.mem_singleton.mp he
      exact ⟨Nat.lt_succ_self _, le_refl _⟩
  · intro sid data hdata hsaved
    have hold : s.sessions.get? sid = some data := by
      rwa [State.signedIn, Store.generate, Rows.get?_add_none] at hdata
    refine (h.stored sid data hold fun hex => hsaved ?_).same (hother sid (Rows.lt_size hold))
    obtain ⟨r, hr, hunsaved⟩ := hex
    exact ⟨r, List.mem_append_left _ hr, hunsaved⟩
  · intro r hr hended data hdata
    rcases List.mem_append.mp hr with hr | hr
    · exact (h.copies r hr hended data hdata).same (hother r.sid (hs.sid_lt hr hdata))
    · obtain rfl := List.mem_singleton.mp hr
      obtain rfl := Option.some.inj hdata
      refine fun t ht => ⟨s.now, rfl, ?_⟩
      rcases List.mem_append.mp ht with ht | ht
      · exact (h.uses _ ht).2
      · rw [List.mem_singleton] at ht
        exact (congrArg Prod.snd ht).le
  · exact fun c hc hreason => (h.checks c hc hreason).later
      ⟨List.prefix_append _ _, List.subset_append_left _ _, le_refl _⟩

theorem Current.regenerated (h : Current s) (hs : Sound s) {i : Nat} {r : Request} {began : Int}
    (hr : s.requests[i]? = some r) (hended : r.ended = false) :
    Current (s.regenerated i r began) := by
  have hsize : (s.regenerated i r began).sessions.size = s.sessions.size + 1 := by
    rw [State.regenerated, Store.regenerate, size_generate, Store.delete, size_put]
  have hother : ∀ sid < s.sessions.size, ∀ t, (sid, t) ∈ (s.regenerated i r began).uses →
      (sid, t) ∈ s.uses := fun sid hsid t ht => mem_uses_new _ (Nat.ne_of_lt hsid) ht
  constructor
  · intro e he
    rw [hsize]
    rcases List.mem_append.mp he with he | he
    · exact ⟨Nat.lt_succ_of_lt (h.uses e he).1, (h.uses e he).2⟩
    · obtain ⟨t, ht, rfl⟩ := List.mem_map.mp he
      exact ⟨Nat.lt_succ_self _, (h.uses _ (mem_usesOf.mp ht)).2⟩
  · intro sid data hdata hsaved
    obtain ⟨hne, hold⟩ := Store.get?_of_regenerate hdata
    refine (h.stored sid data hold fun hex => hsaved ?_).same (hother sid (Rows.lt_size hold))
    exact ListUpdate.exists_mem_set hr (fun hunsaved => absurd hunsaved.2.symm hne) hex
  · intro r' hr' hended' data hdata
    rcases List.mem_or_eq_of_mem_set hr' with hr' | rfl
    · exact (h.copies r' hr' hended' data hdata).same (hother r'.sid (hs.sid_lt hr' hdata))
    · intro t ht
      rcases List.mem_append.mp ht with ht | ht
      · exact absurd (h.uses _ ht).1 (Nat.lt_irrefl _)
      · obtain ⟨u, hu, heq⟩ := List.mem_map.mp ht
        obtain rfl : u = t := congrArg Prod.snd heq
        exact h.copies r (List.mem_of_getElem? hr) hended data hdata u (mem_usesOf.mp hu)
  · exact fun c hc hreason => (h.checks c hc hreason).later
      ⟨List.prefix_append _ _, List.subset_append_left _ _, le_refl _⟩

theorem Current.saved (h : Current s) {i : Nat} {r : Request} (hr : s.requests[i]? = some r)
    (hended : r.ended = false) : Current (s.saved i r) := by
  have hsize : (s.saved i r).sessions.size = s.sessions.size := by
    rw [State.saved]
    simp only [Store.save, Store.delete]
    split <;> rw [size_put]
  constructor
  · intro e he
    rw [hsize]
    exact h.uses e he
  · intro sid data hdata hsaved
    rcases get?_of_saved hdata with ⟨hne, hold⟩ | ⟨rfl, hcopy⟩
    · refine h.stored sid data hold fun hex => hsaved ?_
      exact ListUpdate.exists_mem_set hr (fun hunsaved => absurd hunsaved.2.symm hne) hex
    · exact h.copies r (List.mem_of_getElem? hr) hended data hcopy
  · intro r' hr' hended' data hdata
    rcases List.mem_or_eq_of_mem_set hr' with hr' | rfl
    · exact h.copies r' hr' hended' data hdata
    · cases hended'
  · exact fun c hc hreason =>
      (h.checks c hc hreason).later ⟨List.prefix_rfl, fun _ => id, le_refl _⟩

/-- **A check by itself** sees the newest use. -/
theorem Current.asked (h : Current s) (hs : Sound s) {sid : Sid} {data : Clocks}
    {background : Bool} {idle_limit : Int} (hdata : s.sessions.get? sid = some data)
    (halone : alone s (.ask sid background idle_limit) = true) :
    Current (s.asked sid background idle_limit data) := by
  have hfree : ∀ r ∈ s.requests, r.ended = false → r.sid ≠ sid := by
    intro r hr hended hsid
    have hr' := List.all_eq_true.mp halone r hr
    rw [hended, hsid, Bool.false_or, bne_self_eq_false] at hr'
    cases hr'
  obtain ⟨began, active, hfits⟩ := hs.stored sid data hdata
  obtain rfl := hfits.clocks
  have hnewest : ∀ t, (sid, t) ∈ s.uses → t ≤ active := by
    intro t ht
    obtain ⟨active', hactive, hle⟩ := h.stored sid _ hdata
      (fun ⟨r, hr, hunsaved⟩ => hfree r hr hunsaved.1 hunsaved.2) t ht
    rwa [← Option.some.inj hactive] at hle
  have huses : ∀ e ∈ (s.asked sid background idle_limit ⟨some began, some active⟩).uses,
      e ∈ s.uses ∨ (e = (sid, s.now) ∧ background = false) := by
    intro e he
    simp only [State.asked] at he
    split at he
    · next hused =>
      rw [Bool.and_eq_true, Bool.not_eq_true'] at hused
      exact (List.mem_append.mp he).imp_right fun he => ⟨List.mem_singleton.mp he, hused.2⟩
    · exact .inl he
  constructor
  · intro e he
    rcases huses e he with he | ⟨rfl, -⟩
    · exact h.uses e he
    · exact ⟨Rows.lt_size hdata, le_refl _⟩
  · intro sid' data' hdata' hsaved
    by_cases hsid : sid' = sid
    · subst hsid
      exact absurd ⟨_, List.mem_append_right _ (List.mem_singleton.mpr rfl), rfl, rfl⟩ hsaved
    · refine (h.stored sid' data' hdata' fun ⟨r, hr, hunsaved⟩ => hsaved ?_).same fun t ht => ?_
      · exact ⟨r, List.mem_append_left _ hr, hunsaved⟩
      · exact (huses _ ht).resolve_right fun hnew => hsid (congrArg Prod.fst hnew.1)
  · intro r hr hended data' hcopy
    rcases List.mem_append.mp hr with hr | hr
    · refine (h.copies r hr hended data' hcopy).same fun t ht => ?_
      exact (huses _ ht).resolve_right fun hnew =>
        hfree r hr hended (congrArg Prod.fst hnew.1)
    · obtain rfl := List.mem_singleton.mp hr
      cases hreason : (enforce background s.now idle_limit ⟨some began, some active⟩).1 with
      | some reason =>
        have hnone := (enforce_eq_some hreason).2.symm.trans hcopy
        cases hnone
      | none =>
        obtain rfl := Option.some.inj ((enforce_eq_none hreason).2.2.symm.trans hcopy)
        refine fun t ht => ⟨_, rfl, ?_⟩
        rcases huses _ ht with ht | ⟨heq, hperson⟩
        · have hle := hnewest t ht
          have hactive := hfits.active_le
          split <;> omega
        · rw [hperson, if_neg Bool.false_ne_true]
          exact (congrArg Prod.snd heq).le
  · intro c hc hreason
    rcases List.mem_append.mp hc with hc | hc
    · exact (h.checks c hc hreason).later (later_asked s sid background idle_limit _)
    · obtain rfl := List.mem_singleton.mp hc
      obtain ⟨reason, hreason⟩ := Option.ne_none_iff_exists'.mp hreason
      refine ⟨began, hfits.signIn, ?_⟩
      rcases (enforce_eq_some hreason).1 with hidle | habsolute
      · refine .inr fun t ht => ?_
        have hle := hnewest t (mem_usesOf.mp ht)
        show t + idle_limit ≤ s.now
        omega
      · exact .inl habsolute

theorem Current.step (h : Current s) (hs : Sound s) {a : Action} (halone : alone s a = true)
    (hstep : s.step a = some s') : Current s' := by
  cases a with
  | tick seconds =>
    cases hstep
    have hle : s.now ≤ s.now + seconds := Int.le_add_of_nonneg_right (Int.natCast_nonneg _)
    exact ⟨fun e he => ⟨(h.uses e he).1, (h.uses e he).2.trans hle⟩, h.stored, h.copies, h.checks⟩
  | signIn =>
    cases hstep
    exact h.signedIn hs
  | regenerate i =>
    obtain ⟨r, hr, hstep⟩ := Option.bind_eq_some_iff.mp hstep
    obtain ⟨began, -, hstep⟩ := Option.bind_eq_some_iff.mp hstep
    split at hstep
    · cases hstep
    · next hopen =>
      cases hstep
      rw [Bool.or_eq_true, not_or, Bool.not_eq_true] at hopen
      exact h.regenerated hs hr hopen.1
  | ask sid background idle_limit =>
    obtain ⟨data, hdata, rfl⟩ := Option.map_eq_some_iff.mp hstep
    exact h.asked hs hdata halone
  | finish i =>
    obtain ⟨r, hr, hstep⟩ := Option.bind_eq_some_iff.mp hstep
    split at hstep
    · cases hstep
    · next hopen =>
      cases hstep
      exact h.saved hr (Bool.eq_false_iff.mpr hopen)
  | delete sid =>
    cases hstep
    refine ⟨fun e he => ?_, fun i data hdata => ?_, h.copies, h.checks⟩
    · rw [Store.delete, size_put]
      exact h.uses e he
    · exact h.stored i data (Store.get?_of_delete hdata).2

theorem current_of_reachable (h : sessions.Reachable alone s) : Current s := by
  refine h.invariant (fun s hs => ?_) fun s a s' hreach halone hs hstep =>
    hs.step (sound_of_reachable hreach) halone hstep
  obtain ⟨now, hnow⟩ : ∃ now, s = { now := now } := ⟨_, hs⟩
  subst hnow
  refine ⟨by simp, fun sid data hdata => ?_, by simp, by simp⟩
  simp [Rows.get?] at hdata

/-- **A session ends on time.**  In a run where no request asks for a session that another still
has, a request goes on exactly when it comes within the idle limit of some use of its session and
within twelve hours of its sign-in. -/
theorem onTime_of_alone (h : sessions.Reachable alone s) {c : Check} (hc : c ∈ s.checks) :
    c.reason = none ↔ InTime s c := by
  constructor
  · exact fun hreason => (sound_of_reachable h).checks c hc hreason
  · intro hin
    by_contra hreason
    exact ((current_of_reachable h).checks c hc hreason).not_inTime hin

theorem onTime_of_alone_onePage : ∃ s c, c ∈ s.checks ∧ (c.reason = none ↔ InTime s c) :=
  ⟨_, _, List.mem_singleton.mpr rfl,
    onTime_of_alone ⟨{ now := 0 }, onePage, rfl, rfl⟩ (List.mem_singleton.mpr rfl)⟩

/-- A request that ends after a later one takes its use back, and the session ends early. -/
example : (sessions.exec System.always { now := 0 }
    [.signIn, .finish 0, .ask 0 false 600, .tick 500, .ask 0 false 600, .finish 2, .finish 1,
      .tick 500, .ask 0 false 600]).map (fun s => s.checks.map fun c => (c.time, c.reason)) =
    some [(0, none), (500, none), (1000, some .idle)] := by decide

end Lifetime
end NetRollout
