import NetRollout.Access.Certificates

/-!
# nginx's verdict on a change

`Nginx.apply` makes a change, waits for the first verdict of nginx's watcher that has its second
or a later one, and undoes the change when that is a rejection.  The watcher takes the files'
fingerprint, tests what it finds when that changed, and reports in `status.json`.  The steps of
both are taken in any order, and the clocks say anything.

What `stage_and_swap` and the reload make of the files is a function of the files that nginx
reads, any one.

`about_change`: where no verdict is there, or on its way, that isn't about the change, a change is
undone only if the watcher refuses it, and `applied` is said only of one it accepted.

## What goes wrong

The watcher tests between the writes of the key and of the certificate: they don't fit, and the
change is undone for it (`not_about_change`).  So it is for a verdict of the second it began in.
-/

namespace NetRollout
namespace Access
namespace Verdicts

open PyText (Str)
open Certificates (Bytes Kind)

/-! ## The files -/

inductive File where
  | key
  | cert
  | marker
  | old_names
  | site_env

/-- One file written, or removed. -/
structure Write where
  file : File
  data : Option Bytes

structure Disk where
  files : Certificates.Files
  site_env : Option Bytes

/-- What the watcher and nginx read of it. -/
structure View where
  site_env : Option Bytes
  cert : Option Bytes
  key : Option Bytes
  deriving DecidableEq

namespace Disk

def view (d : Disk) : View := ⟨d.site_env, d.files.cert, d.files.key⟩

def write (d : Disk) (w : Write) : Disk :=
  match w.file with
  | .key => { d with files := { d.files with key := w.data } }
  | .cert => { d with files := { d.files with cert := w.data } }
  | .marker => { d with files := { d.files with marker := w.data } }
  | .old_names => { d with files := { d.files with old_names := w.data } }
  | .site_env => { d with site_env := w.data }

/-- `_restore`. -/
def restore (d : Disk) : List Write :=
  [⟨.cert, d.files.cert⟩, ⟨.key, d.files.key⟩, ⟨.marker, d.files.marker⟩,
    ⟨.old_names, d.files.old_names⟩]

end Disk

/-- What `apply` is called with: the name it waits for, what the change writes, and what its
`undo()` writes. -/
structure Change where
  hostname : Option Str
  writes : List Write
  undo : List Write

/-- The module's `selfsigned`. -/
def selfsigned (cert key marker : Bytes) : List Write :=
  [⟨.key, some key⟩, ⟨.cert, some cert⟩, ⟨.marker, some marker⟩]

/-- The writes of `install`, `generate_selfsigned` and `change_hostname`, whose `site.env` this
is. -/
def writes (d : Disk) (site_env : Bytes) : Kind → List Write
  | .rename new _ issued =>
    (if new = [] ∨ d.files.cert = none ∨ d.files.marker = none then []
      else selfsigned issued.cert issued.key issued.marker ++ [⟨.old_names, issued.old_names⟩]) ++
      [⟨.site_env, some site_env⟩]
  | .install cert key =>
    [⟨.key, some key⟩, ⟨.cert, some cert⟩, ⟨.marker, none⟩, ⟨.old_names, none⟩]
  | .generate cert key marker => selfsigned cert key marker ++ [⟨.old_names, none⟩]

/-- Each of them, for `apply`; `back` is the `site.env` that `put_back` writes. -/
def change (d : Disk) (site_env back : Bytes) (kind : Kind) : Change where
  hostname := kind.values.bind (·.hostname)
  writes := writes d site_env kind
  undo := d.restore ++ if kind.values.isSome then [⟨.site_env, some back⟩] else []

/-- Together the writes are the change. -/
theorem files_writes (d : Disk) (site_env : Bytes) (kind : Kind) :
    ((writes d site_env kind).foldl Disk.write d).files = kind.files d.files := by
  cases kind with
  | rename new port issued =>
    rw [writes, Kind.files, Certificates.Files.renamed]
    split <;> rfl
  | install cert key => rfl
  | generate cert key marker => rfl

/-! ## The watcher -/

inductive VerdictState where
  | applied
  | rejected
  | not_managed
  | no_answer
  /-- Whatever else `status.json` says. -/
  | unknown
  deriving DecidableEq

/-- `status.json`; a time that can't be read is none. -/
structure Status where
  state : VerdictState
  message : Str
  time : Option Nat

structure Nginx where
  fingerprint : View → Bytes
  /-- `stage_and_swap` and the reload: the values used, or why it is refused. -/
  stage : View → Except Str Str

namespace Nginx

variable (N : Nginx)

def accepts (v : View) : Bool := (N.stage v).isOk

/-- What the watcher writes of files it tested, at its clock's second. -/
def status (v : View) (second : Nat) : Status :=
  match N.stage v with
  | .ok result => ⟨.applied, result, some second⟩
  | .error result => ⟨.rejected, result, some second⟩

end Nginx

/-- The watcher's pass. -/
inductive Pass where
  | asleep
  /-- The fingerprint is another one. -/
  | seen
  | tested (v : View)

/-! ## The app -/

/-- A call of `apply`. -/
structure Call where
  change : Change
  /-- The whole seconds of `started`. -/
  second : Nat
  managed : Bool
  /-- What nginx reads once the change is made. -/
  target : View

namespace Call

variable (c : Call) (status : Status)

/-- It is for the hostname waited for, or a rejection. -/
def heeds : Bool :=
  c.managed && c.change.hostname.all fun hostname =>
    decide (status.state = .rejected) ||
      decide ("hostname=".toList ++ (if hostname = [] then "(none)".toList else hostname) ++ [' ']
        <:+: status.message ++ [' '])

/-- `wait_for_status` returns it. -/
def takes : Bool := c.heeds status && status.time.any fun time => decide (c.second ≤ time)

end Call

inductive App where
  | idle
  | writing (c : Call) (left : List Write)
  | waiting (c : Call)
  | undoing (c : Call) (left : List Write)
  | answered (c : Call) (verdict : VerdictState)

namespace App

/-- The call whose verdict is to come. -/
def pending : App → Option Call
  | writing c _ | waiting c => some c
  | _ => none

theorem pending_eq_some {app : App} {c : Call} :
    app.pending = some c ↔ (∃ left, app = writing c left) ∨ app = waiting c := by
  cases app <;> simp [pending]

end App

structure State where
  disk : Disk
  status : Option Status
  /-- The watcher's last fingerprint. -/
  last : Bytes
  pass : Pass
  app : App
  /-- What the watcher tested since the last call. -/
  tests : List View

inductive Action where
  /-- `apply` is called, its clock in this second. -/
  | apply (change : Change) (second : Nat)
  /-- The next write of the change, or of its undo; or that was all. -/
  | write
  /-- `wait_for_status` reads `status.json`, for the last time or not. -/
  | poll (late : Bool)
  /-- The watcher's steps; its clock says this second. -/
  | look
  | test
  | report (second : Nat)

namespace State

def call (s : State) (change : Change) (second : Nat) : Call where
  change := change
  second := second
  managed := s.status.isSome
  target := (change.writes.foldl Disk.write s.disk).view

/-- `apply`, once it has a verdict. -/
def decided (s : State) (c : Call) (verdict : VerdictState) : State :=
  { s with app := if verdict = .rejected then .undoing c c.change.undo else .answered c verdict }

def write (s : State) : Option State :=
  match s.app with
  | .writing c [] => some { s with app := .waiting c }
  | .writing c (w :: left) => some { s with disk := s.disk.write w, app := .writing c left }
  | .undoing c [] => some { s with app := .answered c .rejected }
  | .undoing c (w :: left) => some { s with disk := s.disk.write w, app := .undoing c left }
  | _ => none

/-- `_verdict`, one round. -/
def poll (s : State) (late : Bool) : Option State :=
  match s.app with
  | .waiting c =>
    if c.managed = false then some (s.decided c .not_managed)
    else
      match s.status.filter c.takes with
      | some status => some (s.decided c status.state)
      | none => some (if late then s.decided c .no_answer else s)
  | _ => none

/-- One change at a time. -/
def apply (s : State) (change : Change) (second : Nat) : Option State :=
  match s.app with
  | .idle | .answered _ _ =>
    some { s with app := .writing (s.call change second) change.writes, tests := [] }
  | _ => none

def test (s : State) : Option State :=
  match s.pass with
  | .seen => some { s with pass := .tested s.disk.view, tests := s.disk.view :: s.tests }
  | _ => none

end State

namespace Nginx

variable (N : Nginx)

def look (s : State) : Option State :=
  match s.pass with
  | .asleep =>
    let now := N.fingerprint s.disk.view
    some (if now = s.last then s else { s with last := now, pass := .seen })
  | _ => none

def report (s : State) (second : Nat) : Option State :=
  match s.pass with
  | .tested v => some { s with status := some (N.status v second), pass := .asleep }
  | _ => none

def step (s : State) : Action → Option State
  | .apply change second => s.apply change second
  | .write => s.write
  | .poll late => s.poll late
  | .look => N.look s
  | .test => s.test
  | .report second => N.report s second

/-- After any history of the watcher's. -/
def watched : System State Action where
  Init s := s.app = .idle
  step := N.step

/-- A change begins where no verdict is there that it would take, nor one to be reported that it
would heed; the watcher tests it complete, or for a verdict that it wouldn't heed. -/
def allowed (s : State) : Action → Bool
  | .apply change second =>
    let c := s.call change second
    !s.status.any c.takes &&
      match s.pass with
      | .tested v => !c.heeds (N.status v second)
      | _ => true
  | .test =>
    match s.app with
    | .writing c _ => decide (s.disk.view = c.target) || !c.heeds (N.status s.disk.view c.second)
    | _ => true
  | _ => true

/-- The verdict is about the change. -/
structure About (s : State) : Prop where
  /-- The target is what the change is, complete. -/
  complete : ∀ c, s.app = .waiting c → s.disk.view = c.target
  /-- A change that the watcher accepts is never undone. -/
  undone : ∀ c, ((∃ left, s.app = .undoing c left) ∨ s.app = .answered c .rejected) →
    N.accepts c.target = false
  applied : ∀ c, s.app = .answered c .applied → c.target ∈ s.tests ∧ N.accepts c.target = true

/-! ## What every step keeps -/

/-- The verdicts that the call would take: the one that is there, and the one to be reported. -/
structure Decides (s : State) (c : Call) : Prop where
  status : ∀ status, s.status = some status → c.takes status = true →
    c.target ∈ s.tests ∧ (status.state = .applied → N.accepts c.target = true) ∧
      (status.state = .rejected → N.accepts c.target = false)
  pass : ∀ v second, s.pass = .tested v → c.heeds (N.status v second) = true →
    v = c.target ∧ v ∈ s.tests

structure Kept (s : State) : Prop extends N.About s where
  writing : ∀ c left, s.app = .writing c left →
    (left.foldl Disk.write s.disk).view = c.target
  decides : ∀ c, s.app.pending = some c → N.Decides s c

variable {N} {s s' : State} {c : Call}

theorem heeds_status (v : View) (second second' : Nat) :
    c.heeds (N.status v second) = c.heeds (N.status v second') := by
  rw [status, status]
  cases N.stage v <;> rfl

theorem of_state_status (v : View) (second : Nat) :
    ((N.status v second).state = .applied → N.accepts v = true) ∧
      ((N.status v second).state = .rejected → N.accepts v = false) := by
  rw [status, accepts]
  cases N.stage v with
  | ok result => exact ⟨fun _ => rfl, fun h => VerdictState.noConfusion h⟩
  | error result => exact ⟨fun h => VerdictState.noConfusion h, fun _ => rfl⟩

/-! The watcher's steps. -/

/-- They leave the app and the files as they are. -/
theorem Kept.of_watcher (h : N.Kept s) (happ : s'.app = s.app) (hdisk : s'.disk = s.disk)
    (htests : s.tests ⊆ s'.tests)
    (hdecides : ∀ c, s.app.pending = some c → N.Decides s c → N.Decides s' c) : N.Kept s' := by
  constructor
  · constructor
    · intro c hc
      rw [happ] at hc
      rw [hdisk]
      exact h.complete c hc
    · intro c hc
      rw [happ] at hc
      exact h.undone c hc
    · intro c hc
      rw [happ] at hc
      exact ⟨htests (h.applied c hc).1, (h.applied c hc).2⟩
  · intro c left hc
    rw [happ] at hc
    rw [hdisk]
    exact h.writing c left hc
  · intro c hc
    rw [happ] at hc
    exact hdecides c hc (h.decides c hc)

theorem Kept.look (h : N.Kept s) (hstep : N.look s = some s') : N.Kept s' := by
  rw [Nginx.look] at hstep
  split at hstep
  · next hpass =>
    obtain rfl := Option.some.inj hstep
    split
    · exact h
    · refine h.of_watcher rfl rfl (List.Subset.refl _) fun c _ hdecides => ?_
      constructor
      · exact hdecides.status
      · intro v second hv
        cases hv
  · cases hstep

theorem Kept.test (h : N.Kept s) (hallowed : N.allowed s .test = true)
    (hstep : s.test = some s') : N.Kept s' := by
  rw [State.test] at hstep
  split at hstep
  · obtain rfl := Option.some.inj hstep
    refine h.of_watcher rfl rfl (List.subset_cons_self _ _) fun c hc hdecides => ?_
    constructor
    · intro status hstatus htakes
      obtain ⟨hmem, hstate⟩ := hdecides.status status hstatus htakes
      exact ⟨List.mem_cons_of_mem _ hmem, hstate⟩
    · intro v second hv hheeds
      obtain rfl := Pass.tested.inj hv
      refine ⟨?_, List.mem_cons_self⟩
      -- the files are complete: the change is made, or the test is allowed
      rcases App.pending_eq_some.mp hc with ⟨left, happ⟩ | happ
      · rw [allowed, happ] at hallowed
        rcases Bool.or_eq_true_iff.mp hallowed with hcomplete | hunheeded
        · exact of_decide_eq_true hcomplete
        · rw [heeds_status _ _ second, hheeds] at hunheeded
          cases hunheeded
      · exact h.complete c happ
  · cases hstep

theorem Kept.report {second : Nat} (h : N.Kept s) (hstep : N.report s second = some s') :
    N.Kept s' := by
  rw [Nginx.report] at hstep
  split at hstep
  · next v hpass =>
    obtain rfl := Option.some.inj hstep
    refine h.of_watcher rfl rfl (List.Subset.refl _) fun c hc hdecides => ?_
    constructor
    · intro status hstatus htakes
      obtain rfl := Option.some.inj hstatus
      obtain ⟨hheeds, -⟩ := Bool.and_eq_true_iff.mp htakes
      obtain ⟨rfl, hmem⟩ := hdecides.pass v second hpass hheeds
      exact ⟨hmem, of_state_status _ second⟩
    · intro v second hv
      cases hv
  · cases hstep

/-! The app's. -/

theorem Kept.apply {change : Change} {second : Nat}
    (hallowed : N.allowed s (.apply change second) = true)
    (hstep : s.apply change second = some s') : N.Kept s' := by
  obtain rfl :
      { s with app := .writing (s.call change second) change.writes, tests := [] } = s' := by
    rw [State.apply] at hstep
    split at hstep
    · exact Option.some.inj hstep
    · exact Option.some.inj hstep
    · cases hstep
  rw [allowed, Bool.and_eq_true, Bool.not_eq_true'] at hallowed
  obtain ⟨hstatus, hpass⟩ := hallowed
  constructor
  · constructor
    · intro c hc
      cases hc
    · rintro c (⟨left, hc⟩ | hc)
      · cases hc
      · cases hc
    · intro c hc
      cases hc
  · intro c left hc
    cases hc
    rfl
  · intro c hc
    obtain rfl := Option.some.inj hc
    constructor
    · intro status hthere htakes
      rw [hthere, Option.any_some, htakes] at hstatus
      cases hstatus
    · intro v second' hv hheeds
      have hunheeded : (!(s.call change second).heeds (N.status v second)) = true := by
        rw [show s.pass = .tested v from hv] at hpass
        exact hpass
      rw [heeds_status _ _ second', hheeds] at hunheeded
      cases hunheeded

/-- The call is answered. -/
theorem kept_of_answered {verdict : VerdictState} (happ : s.app = .answered c verdict)
    (hrejected : verdict = .rejected → N.accepts c.target = false)
    (happlied : verdict = .applied → c.target ∈ s.tests ∧ N.accepts c.target = true) :
    N.Kept s := by
  constructor
  · constructor
    · intro c' hc
      cases happ.symm.trans hc
    · rintro c' (⟨left, hc⟩ | hc)
      · cases happ.symm.trans hc
      · obtain ⟨rfl, hverdict⟩ := App.answered.inj (happ.symm.trans hc)
        exact hrejected hverdict
    · intro c' hc
      obtain ⟨rfl, hverdict⟩ := App.answered.inj (happ.symm.trans hc)
      exact happlied hverdict
  · intro c' left hc
    cases happ.symm.trans hc
  · intro c' hc
    rw [happ] at hc
    cases hc

/-- The call is refused, its undo to come or done. -/
theorem kept_of_refused (happ : (∃ left, s.app = .undoing c left) ∨ s.app = .answered c .rejected)
    (hrefused : N.accepts c.target = false) : N.Kept s := by
  rcases happ with ⟨left, happ⟩ | happ
  · constructor
    · constructor
      · intro c' hc
        cases happ.symm.trans hc
      · rintro c' (⟨left', hc⟩ | hc)
        · obtain ⟨rfl, -⟩ := App.undoing.inj (happ.symm.trans hc)
          exact hrefused
        · cases happ.symm.trans hc
      · intro c' hc
        cases happ.symm.trans hc
    · intro c' left' hc
      cases happ.symm.trans hc
    · intro c' hc
      rw [happ] at hc
      cases hc
  · exact kept_of_answered happ (fun _ => hrefused) fun heq => VerdictState.noConfusion heq

theorem Decides.of_eq (h : N.Decides s c) (hstatus : s'.status = s.status)
    (hpass : s'.pass = s.pass) (htests : s'.tests = s.tests) : N.Decides s' c := by
  constructor
  · rw [hstatus, htests]
    exact h.status
  · rw [hpass, htests]
    exact h.pass

theorem Kept.write (h : N.Kept s) (hstep : s.write = some s') : N.Kept s' := by
  rw [State.write] at hstep
  split at hstep
  · next c happ =>
    obtain rfl := Option.some.inj hstep
    refine ⟨⟨?_, ?_, ?_⟩, ?_, ?_⟩
    · intro c' hc
      obtain rfl := App.waiting.inj hc
      exact h.writing c [] happ
    · rintro c' (⟨left, hc⟩ | hc) <;> cases hc
    · intro c' hc
      cases hc
    · intro c' left hc
      cases hc
    · intro c' hc
      obtain rfl := Option.some.inj hc
      exact (h.decides c (by rw [happ]; rfl)).of_eq rfl rfl rfl
  · next c w left happ =>
    obtain rfl := Option.some.inj hstep
    refine ⟨⟨?_, ?_, ?_⟩, ?_, ?_⟩
    · intro c' hc
      cases hc
    · rintro c' (⟨left, hc⟩ | hc) <;> cases hc
    · intro c' hc
      cases hc
    · intro c' left' hc
      obtain ⟨rfl, rfl⟩ := App.writing.inj hc
      exact h.writing c (w :: left) happ
    · intro c' hc
      obtain rfl := Option.some.inj hc
      exact (h.decides c (by rw [happ]; rfl)).of_eq rfl rfl rfl
  · next c happ =>
    obtain rfl := Option.some.inj hstep
    exact kept_of_refused (.inr rfl) (h.undone c (.inl ⟨[], happ⟩))
  · next c w left happ =>
    obtain rfl := Option.some.inj hstep
    exact kept_of_refused (.inl ⟨left, rfl⟩) (h.undone c (.inl ⟨w :: left, happ⟩))
  · cases hstep

theorem Kept.poll {late : Bool} (h : N.Kept s) (hstep : s.poll late = some s') : N.Kept s' := by
  rw [State.poll] at hstep
  split at hstep
  · next c happ =>
    split at hstep
    · obtain rfl := Option.some.inj hstep
      exact kept_of_answered rfl (fun heq => VerdictState.noConfusion heq) fun heq =>
        VerdictState.noConfusion heq
    · split at hstep
      · next status hstatus =>
        obtain rfl := Option.some.inj hstep
        obtain ⟨hthere, htakes⟩ := Option.filter_eq_some_iff.mp hstatus
        obtain ⟨hmem, happlied, hrejected⟩ :=
          (h.decides c (by rw [happ]; rfl)).status status hthere htakes
        rw [State.decided]
        split
        · next heq => exact kept_of_refused (.inl ⟨_, rfl⟩) (hrejected heq)
        · next hne =>
          exact kept_of_answered rfl (fun heq => (hne heq).elim) fun heq => ⟨hmem, happlied heq⟩
      · obtain rfl := Option.some.inj hstep
        split
        · exact kept_of_answered rfl (fun heq => VerdictState.noConfusion heq) fun heq =>
        VerdictState.noConfusion heq
        · exact h
  · cases hstep

theorem kept (h : N.watched.Reachable N.allowed s) : N.Kept s := by
  refine System.Reachable.invariant (fun s hinit => ?_) ?_ h
  · have hidle : s.app = .idle := hinit
    constructor
    · constructor
      · intro c hc
        cases hidle.symm.trans hc
      · rintro c (⟨left, hc⟩ | hc) <;> cases hidle.symm.trans hc
      · intro c hc
        cases hidle.symm.trans hc
    · intro c left hc
      cases hidle.symm.trans hc
    · intro c hc
      rw [hidle] at hc
      cases hc
  · intro s a s' _ hallowed hkept hstep
    cases a with
    | apply change second => exact Kept.apply hallowed hstep
    | write => exact hkept.write hstep
    | poll late => exact hkept.poll hstep
    | look => exact hkept.look hstep
    | test => exact hkept.test hallowed hstep
    | report second => exact hkept.report hstep

/-- **The verdict is about the change it decides**, in the runs that are allowed. -/
theorem about_change (h : N.watched.Reachable N.allowed s) : N.About s :=
  (kept h).toAbout

end Nginx

/-! ## Two runs -/

/-- A key fits the certificate that has its bytes. -/
def fitting : Nginx where
  fingerprint v := v.site_env.getD [] ++ v.cert.getD [] ++ v.key.getD []
  stage v :=
    if v.cert = v.key then .ok "hostname=a https_port=443 app=app:8080".toList
    else .error "key values mismatch".toList

/-- A certificate in use since second 10. -/
def serving : State where
  disk := ⟨⟨some [1], some [1], none, none⟩, some [0]⟩
  status := some ⟨.applied, "hostname=a https_port=443 app=app:8080".toList, some 10⟩
  last := [0, 1, 1]
  pass := .asleep
  app := .idle
  tests := []

/-- Another one for it. -/
def upload : Change := change serving.disk [0] [0] (.install [2] [2])

/-- The watcher comes when it is written. -/
def after : List Action :=
  [.apply upload 20, .write, .write, .write, .write, .write, .poll false, .look, .test, .report 22,
    .poll false]

theorem about_change_after :
    ∃ s, fitting.watched.Reachable fitting.allowed s ∧
      (match s.app with
        | .answered c verdict => decide (verdict = .applied) && decide (c.target ∈ s.tests)
        | _ => false) = true ∧ fitting.About s := by
  have hrun : (fitting.watched.exec fitting.allowed serving after).any (fun s =>
      match s.app with
      | .answered c verdict => decide (verdict = .applied) && decide (c.target ∈ s.tests)
      | _ => false) = true := by
    decide +kernel
  obtain ⟨s, hreach, happ⟩ := System.exists_reachable (S := fitting.watched) (by exact rfl) hrun
  exact ⟨s, hreach, happ, Nginx.about_change hreach⟩

/-- The watcher comes when only the key is written. -/
def between : List Action :=
  [.apply upload 20, .write, .look, .test, .report 22, .write, .write, .write, .write,
    .poll false]

/-- The certificate and its key fit, and are undone. -/
theorem not_about_change :
    ¬∀ s, fitting.watched.Reachable System.always s → fitting.About s := by
  intro hall
  have hrun : (fitting.watched.exec System.always serving between).any (fun s =>
      match s.app with
      | .undoing c _ => fitting.accepts c.target
      | _ => false) = true := by
    decide +kernel
  obtain ⟨s, hreach, happ⟩ := System.exists_reachable (S := fitting.watched) (by exact rfl) hrun
  split at happ
  · next c left hundoing =>
    have hrefused := (hall s hreach).undone c (.inl ⟨left, hundoing⟩)
    rw [happ] at hrefused
    cases hrefused
  · cases happ

end Verdicts
end Access
end NetRollout
