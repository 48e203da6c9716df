import Mathlib.Data.Rat.Defs
import Mathlib.Data.List.Count
import Mathlib.Algebra.Order.Ring.Rat
import NetRollout.Discovery.Targets
import NetRollout.Library.PyText
import NetRollout.Library.Transition

/-!
# A discovery

`DiscoveryScan` of `src/discovery/scan.py`: the port checks, the sign-in workers fed from a
priority queue, the turn they take for their starts, and what the page may ask.

Everything under `self._lock` is one step, and so is each call between two such parts: a
worker is at one of the stages of its loop, a port check at one of its own.  What a probe, the
skip rule, `stop_when` and a sign-in come to is the step's to say, an exception included.
Any number of port checks may be under way, which is more than the pool allows.  The clock's
readings are rational numbers and need not ascend.

`starts` and `wrong` are history that no step reads: when each sign-in started and under
which count of Continues, and that count for each one that came back with wrong credentials.
-/

namespace NetRollout
namespace Discovery

open PyText (Str)

/-- `SIGN_INS`: sign-ins at once. -/
def signIns : Nat := 4

/-- `SIGN_IN_GAP`: seconds between two sign-ins' starts, at least. -/
def signInGap : ℚ := 1 / 2

/-- `FAILURES_BEFORE_PAUSE`: failed sign-ins since the start or the last Continue. -/
def failuresBeforePause : Nat := 3

/-- Where a scan is. -/
inductive Phase where
  | running
  | paused
  | cancelling
  | done
  | cancelled
  deriving DecidableEq

/-- `ENDED`. -/
def Phase.ended : Phase → Bool
  | done | cancelled => true
  | running | paused | cancelling => false

/-- Why an address with SSH open gave no card. -/
inductive Reason where
  | wrongCredentials
  | timedOut
  | failed
  | notSupported
  | inInventory
  | inRollout
  | hostKeyChanged
  | notAsked
  deriving DecidableEq

/-- The profile's credentials, dropped when the scan ends. -/
structure Login where
  username : Str
  password : Str
  secret : Str
  deriving DecidableEq

/-- The skip rule's answer for an address it keeps from being signed in to. -/
structure Skip where
  reason : Reason
  detail : Str
  deriving DecidableEq

/-- An address with SSH open that gave no card. -/
structure Line where
  address : Address
  reason : Reason
  detail : Str
  deriving DecidableEq

/-- What `detect` found. -/
structure Detection where
  hostname : Option Str
  platform : Option Str
  detected : Option Str
  evidence : Option Str
  problem : Option Str
  deriving DecidableEq

/-- A device found. -/
structure Finding where
  id : Nat
  address : Address
  port : Nat
  banner : Str
  hostname : Option Str
  platform : Option Str
  detected : Option Str
  evidence : Option Str
  problem : Option Str
  hostKey : Option Str
  created : Bool
  deriving DecidableEq

/-- An exception: its class and its text. -/
structure Failure where
  name : Str
  text : Str
  deriving DecidableEq

/-- `_detail`: an error's first line, short enough for a line. -/
def Failure.detail (error : Failure) : Str :=
  ((PyText.splitlines (PyText.strip error.text)).head?.getD error.name).take 200

/-- `NEIGHBOUR_NAMES`. -/
def neighbourNames : List (Str × Str) :=
  [("cisco_aci".toList, "Cisco ACI".toList), ("cisco_asa".toList, "Cisco ASA".toList),
    ("cisco_ftd".toList, "Cisco Firepower Threat Defense".toList),
    ("huawei".toList, "Huawei VRP".toList), ("linux".toList, "a Linux shell".toList)]

/-! ## Its state -/

/-- An address whose port answered, as the queue holds it. -/
structure Opened where
  index : Nat
  address : Address
  banner : Str
  deriving DecidableEq

/-- An entry of the queue: an address, or the end for one worker. -/
inductive Entry where
  | answered (o : Opened)
  | last
  deriving DecidableEq

/-- The index it is queued under; `count` for the end. -/
def Entry.index (count : Nat) : Entry → Nat
  | answered o => o.index
  | last => count

/-- How the sign-in and detection end. -/
inductive Attempt where
  | hostKeyRefused
  | wrongCredentials
  | timedOut
  | raised (error : Failure)
  | detected (found : Detection) (hostKey : Option Str)
  deriving DecidableEq

/-- What an address came to. -/
inductive Outcome where
  | skipped (skip : Skip)
  | notAsked
  | attempted (generation : Nat) (attempt : Attempt)
  deriving DecidableEq

/-- Where a sign-in worker stands. -/
inductive Worker where
  /-- At `self._queue.get()`. -/
  | idle
  /-- Before `self._skip`. -/
  | asking (o : Opened)
  /-- At `with self._turn`. -/
  | waiting (o : Opened)
  /-- Its turn, before `self._stop_when`. -/
  | asked (o : Opened)
  /-- Its turn, at the look under the lock. -/
  | looking (o : Opened)
  /-- Its turn, in `self._sleep`. -/
  | sleeping (o : Opened)
  /-- Signing in, started under this count of Continues. -/
  | signing (o : Opened) (generation : Nat)
  /-- Before it records what the address came to. -/
  | ending (o : Opened) (outcome : Outcome)
  | over
  deriving DecidableEq

/-- It holds `_turn`. -/
def Worker.hasTurn : Worker → Bool
  | asked _ | looking _ | sleeping _ => true
  | _ => false

/-- Its sign-in has started and is not recorded. -/
def Worker.started : Worker → Bool
  | signing .. | ending _ (.attempted ..) => true
  | _ => false

/-- Where a port check stands; at the end, the banner it read. -/
inductive Knock where
  | queued
  | knocking
  | answered (banner : Str)
  | over (banner : Option Str)
  deriving DecidableEq

structure Check where
  address : Address
  stage : Knock
  deriving DecidableEq

/-- The port was counted open. -/
def Check.isOpen (c : Check) : Bool :=
  match c.stage with
  | .answered _ | .over (some _) => true
  | _ => false

/-- It is counted open and is not in the queue yet. -/
def Check.isAnswered (c : Check) : Bool :=
  match c.stage with
  | .answered _ => true
  | _ => false

def Check.isOver (c : Check) : Bool :=
  match c.stage with
  | .over _ => true
  | _ => false

/-- It has begun and is not over. -/
def Check.isUnderWay (c : Check) : Bool :=
  match c.stage with
  | .knocking | .answered _ => true
  | _ => false

/-- Where the scan's own thread stands. -/
inductive Main where
  | checking
  | marking (left : Nat)
  | joining
  | over
  deriving DecidableEq

/-- A sign-in's start: the clock's reading and the count of Continues. -/
structure Start where
  time : ℚ
  generation : Nat
  deriving DecidableEq

structure State where
  targets : Targets
  port : Nat
  login : Option Login
  checks : List Check
  queue : List Entry
  workers : List Worker
  main : Main
  findings : List Finding
  lines : List Line
  phase : Phase
  nextStart : ℚ
  continues : Nat
  failures : Nat
  checked : Nat
  opened : Nat
  signingIn : Int
  signedIn : Nat
  cancelledBy : Option Str
  ended : Option ℚ
  starts : List Start
  wrong : List Nat

namespace State

def init (targets : Targets) (port : Nat) (login : Login) : State where
  targets
  port
  login := some login
  checks := targets.addresses.map fun a => ⟨a, .queued⟩
  queue := []
  workers := List.replicate signIns .idle
  main := .checking
  findings := []
  lines := []
  phase := .running
  nextStart := 0
  continues := 0
  failures := 0
  checked := 0
  opened := 0
  signingIn := 0
  signedIn := 0
  cancelledBy := none
  ended := none
  starts := []
  wrong := []

variable (s : State)

/-! ## What the page and the routes ask -/

/-- `proceed`: Continue after a pause; the failures count from here. -/
def proceed : State :=
  if s.phase ≠ .paused then s
  else { s with continues := s.continues + 1, failures := 0, phase := .running }

/-- `cancel`: no new sign-in starts. -/
def cancel (who : Str) : State :=
  if s.phase ≠ .running ∧ s.phase ≠ .paused then s
  else { s with cancelledBy := some who, phase := .cancelling }

theorem proceed_frame : s.proceed = { s with
    continues := s.proceed.continues
    failures := s.proceed.failures
    phase := s.proceed.phase } := by
  rw [proceed]
  split <;> rfl

theorem cancel_frame (who : Str) : s.cancel who = { s with
    cancelledBy := (s.cancel who).cancelledBy
    phase := (s.cancel who).phase } := by
  rw [cancel]
  split <;> rfl

/-! ## The port checks -/

/-- The first line of `_check`. -/
def beginCheck (i : Nat) (c : Check) : State :=
  if s.phase = .cancelling then { s with checks := s.checks.set i { c with stage := .over none } }
  else { s with checks := s.checks.set i { c with stage := .knocking } }

/-- The knock and what is counted of it; `none` is a port not open, or an exception. -/
def knock (i : Nat) (c : Check) (banner : Option Str) : State :=
  match banner with
  | none =>
    { s with
      checks := s.checks.set i { c with stage := .over none }
      checked := s.checked + 1 }
  | some banner =>
    { s with
      checks := s.checks.set i { c with stage := .answered banner }
      checked := s.checked + 1
      opened := s.opened + 1 }

/-- The open address joins the queue. -/
def put (i : Nat) (c : Check) (banner : Str) : State :=
  { s with
    checks := s.checks.set i { c with stage := .over (some banner) }
    queue := s.queue ++ [.answered ⟨i, c.address, banner⟩] }

theorem beginCheck_frame (i : Nat) (c : Check) : s.beginCheck i c = { s with
    checks := (s.beginCheck i c).checks } := by
  rw [beginCheck]
  split <;> rfl

theorem knock_frame (i : Nat) (c : Check) (banner : Option Str) : s.knock i c banner = { s with
    checks := (s.knock i c banner).checks
    checked := (s.knock i c banner).checked
    opened := (s.knock i c banner).opened } := by
  cases banner <;> rfl

/-- The least entry of the queue. -/
def next : Option Entry :=
  s.queue.find? fun e =>
    s.queue.all fun f => e.index s.targets.count ≤ f.index s.targets.count

/-! ## What a worker records -/

/-- `_add_line`. -/
def addLine (line : Line) (ended signedIn : Bool) : State :=
  { s with
    signingIn := if ended then s.signingIn - 1 else s.signingIn
    signedIn := if signedIn then s.signedIn + 1 else s.signedIn
    lines := s.lines ++ [line] }

/-- `_failed`: wrong credentials, and the pause with the third since the last Continue. -/
def failed (address : Address) (generation : Nat) : State :=
  { s with
    signingIn := s.signingIn - 1
    lines := s.lines ++ [⟨address, .wrongCredentials, []⟩]
    failures := if generation = s.continues then s.failures + 1 else s.failures
    phase :=
      if generation = s.continues ∧ failuresBeforePause ≤ s.failures + 1 ∧ s.phase = .running then
        .paused
      else s.phase }

/-- `_detected`: a card, or a line for a neighbour that is not supported. -/
def detected (o : Opened) (found : Detection) (hostKey : Option Str) : State :=
  match found.platform, found.detected with
  | none, some name =>
    s.addLine ⟨o.address, .notSupported, (neighbourNames.lookup name).getD name⟩ true true
  | _, _ =>
    { s with
      signingIn := s.signingIn - 1
      signedIn := s.signedIn + 1
      findings := s.findings ++ [⟨s.findings.length + 1, o.address, s.port, o.banner,
        found.hostname, found.platform, found.detected, found.evidence, found.problem, hostKey,
        false⟩] }

/-- The end of `_sign_in`, for each way it ends. -/
def record (o : Opened) : Outcome → State
  | .skipped skip => s.addLine ⟨o.address, skip.reason, skip.detail⟩ false false
  | .notAsked => s.addLine ⟨o.address, .notAsked, []⟩ false false
  | .attempted _ .hostKeyRefused => s.addLine ⟨o.address, .hostKeyChanged, []⟩ true false
  | .attempted generation .wrongCredentials => s.failed o.address generation
  | .attempted _ .timedOut => s.addLine ⟨o.address, .timedOut, []⟩ true false
  | .attempted _ (.raised error) => s.addLine ⟨o.address, .failed, error.detail⟩ true false
  | .attempted _ (.detected found hostKey) => s.detected o found hostKey

/-! ## A worker's steps -/

/-- A worker moves on. -/
def move (i : Nat) (w : Worker) : State := { s with workers := s.workers.set i w }

/-- A sign-in starts. -/
def start (i : Nat) (o : Opened) (now : ℚ) : State :=
  { s with
    nextStart := now + signInGap
    signingIn := s.signingIn + 1
    workers := s.workers.set i (.signing o s.continues)
    starts := ⟨now, s.continues⟩ :: s.starts }

/-- A sign-in comes back. -/
def attempt (i : Nat) (o : Opened) (generation : Nat) (attempt : Attempt) : State :=
  { s with
    workers := s.workers.set i (.ending o (.attempted generation attempt))
    wrong := if attempt = .wrongCredentials then generation :: s.wrong else s.wrong }

/-- The look under the lock in `_wait_turn`; while paused, the worker waits there. -/
def look (i : Nat) (o : Opened) (now : ℚ) : Option State :=
  if s.phase = .paused then none
  else if s.phase ≠ .running ∨ s.login = none then some (s.move i (.ending o .notAsked))
  else if s.nextStart ≤ now then some (s.start i o now)
  else some (s.move i (.sleeping o))

end State

inductive WorkEvent where
  | get
  /-- The skip rule's answer, or its exception. -/
  | skip (answer : Except Failure (Option Skip))
  | turn
  /-- `stop_when`'s answer, and the cancel by it. -/
  | stopWhen (reason : Option Str)
  | look (now : ℚ)
  | wake
  | signIn (attempt : Attempt)
  | record
  deriving DecidableEq

/-- One step of worker `i`, which stands at `w`. -/
def State.work (s : State) (i : Nat) (w : Worker) (e : WorkEvent) : Option State :=
  match e, w with
  | .get, .idle =>
    match s.next with
    | some (.answered o) =>
      some ({ s with queue := s.queue.erase (.answered o) }.move i (.asking o))
    | some .last => some ({ s with queue := s.queue.erase .last }.move i .over)
    | none => none
  | .skip answer, .asking o =>
    match answer with
    | .ok none => some (s.move i (.waiting o))
    | .ok (some skip) => some (s.move i (.ending o (.skipped skip)))
    | .error error => some (s.move i (.ending o (.skipped ⟨.failed, error.detail⟩)))
  | .turn, .waiting o =>
    if s.workers.all fun w => !w.hasTurn then some (s.move i (.asked o)) else none
  | .stopWhen reason, .asked o =>
    match reason with
    | none => some (s.move i (.looking o))
    | some who => some ((s.cancel who).move i (.looking o))
  | .look now, .looking o => s.look i o now
  | .wake, .sleeping o => some (s.move i (.asked o))
  | .signIn attempt, .signing o generation => some (s.attempt i o generation attempt)
  | .record, .ending o outcome => some ((s.record o outcome).move i .idle)
  | _, _ => none

/-! ## The scan's own thread -/

namespace State

variable (s : State)

/-- The checks are over: `wait` has returned and the pool is shut down.  Where a submit
raised, those that have not begun are cancelled. -/
def shutdown (raised : Bool) : Option State :=
  if s.main = .checking ∧ s.checks.all (fun c => !c.isUnderWay) ∧
      (raised ∨ s.checks.all Check.isOver) then
    some { s with
      checks := s.checks.map fun c => if c.isOver then c else { c with stage := .over none }
      main := .marking signIns }
  else none

/-- One end is queued for each worker. -/
def mark : Option State :=
  match s.main with
  | .marking (left + 1) => some { s with queue := s.queue ++ [.last], main := .marking left }
  | .marking 0 => some { s with main := .joining }
  | _ => none

/-- The workers have been joined: the login is dropped and the phase is an ended one. -/
def finish (now : ℚ) : Option State :=
  if s.main = .joining ∧ s.workers.all (· = .over) then
    some { s with
      login := none
      ended := some now
      phase := if s.phase = .cancelling then .cancelled else .done
      main := .over }
  else none

end State

inductive CheckEvent where
  | start
  | knock (banner : Option Str)
  | put
  deriving DecidableEq

/-- One step of the check of address `i`. -/
def State.check (s : State) (i : Nat) (c : Check) (e : CheckEvent) : Option State :=
  match e, c.stage with
  | .start, .queued => some (s.beginCheck i c)
  | .knock banner, .knocking => some (s.knock i c banner)
  | .put, .answered banner => some (s.put i c banner)
  | _, _ => none

inductive Action where
  | proceed
  | cancel (who : Str)
  | check (i : Nat) (e : CheckEvent)
  | work (i : Nat) (e : WorkEvent)
  | shutdown (raised : Bool)
  | mark
  | finish (now : ℚ)
  deriving DecidableEq

def State.step (s : State) : Action → Option State
  | .proceed => some s.proceed
  | .cancel who => some (s.cancel who)
  | .check i e => s.checks[i]?.bind fun c => s.check i c e
  | .work i e => s.workers[i]?.bind fun w => s.work i w e
  | .shutdown raised => s.shutdown raised
  | .mark => s.mark
  | .finish now => s.finish now

def scan : System State Action where
  Init s := ∃ targets port login, s = .init targets port login
  step := State.step

/-! ## What a worker's step can do -/

/-- The moves of a worker that change nothing but where it stands. -/
inductive Onward : Worker → Worker → Prop
  | passed (o : Opened) : Onward (.asking o) (.waiting o)
  | skipped (o : Opened) (skip : Skip) : Onward (.asking o) (.ending o (.skipped skip))
  | turned (o : Opened) : Onward (.waiting o) (.asked o)
  | told (o : Opened) : Onward (.asked o) (.looking o)
  | refused (o : Opened) : Onward (.looking o) (.ending o .notAsked)
  | early (o : Opened) : Onward (.looking o) (.sleeping o)
  | woken (o : Opened) : Onward (.sleeping o) (.asked o)

/-- What a step of worker `i` does, by where it stands. -/
inductive Worked (s : State) (i : Nat) : Worker → State → Prop
  | got {o : Opened} (h : s.next = some (.answered o)) :
    Worked s i .idle ({ s with queue := s.queue.erase (.answered o) }.move i (.asking o))
  | left (h : s.next = some .last) :
    Worked s i .idle ({ s with queue := s.queue.erase .last }.move i .over)
  | onward {w w' : Worker} (h : Onward w w') : Worked s i w (s.move i w')
  | stopped (o : Opened) (who : Str) : Worked s i (.asked o) ((s.cancel who).move i (.looking o))
  | started (o : Opened) {now : ℚ} (hphase : s.phase = .running) (hnow : s.nextStart ≤ now) :
    Worked s i (.looking o) (s.start i o now)
  | attempted (o : Opened) (generation : Nat) (attempt : Attempt) :
    Worked s i (.signing o generation) (s.attempt i o generation attempt)
  | recorded (o : Opened) (outcome : Outcome) :
    Worked s i (.ending o outcome) ((s.record o outcome).move i .idle)

variable {s s' : State} {i : Nat}

theorem worked {w : Worker} {e : WorkEvent} (h : s.work i w e = some s') : Worked s i w s' := by
  cases e with
  | get =>
    cases w <;> simp only [State.work, reduceCtorEq] at h
    split at h <;> cases h
    · next hnext => exact .got hnext
    · next hnext => exact .left hnext
  | skip answer =>
    cases w <;> simp only [State.work, reduceCtorEq] at h
    split at h <;> cases h
    · exact .onward (.passed _)
    · exact .onward (.skipped _ _)
    · exact .onward (.skipped _ _)
  | turn =>
    cases w <;> simp only [State.work, reduceCtorEq] at h
    split at h <;> cases h
    exact .onward (.turned _)
  | stopWhen reason =>
    cases w <;> simp only [State.work, reduceCtorEq] at h
    split at h <;> cases h
    · exact .onward (.told _)
    · exact .stopped _ _
  | look now =>
    cases w <;> simp only [State.work, reduceCtorEq] at h
    rw [State.look] at h
    split at h
    · cases h
    · split at h
      · cases h
        exact .onward (.refused _)
      · next hopen =>
        rw [not_or, not_not] at hopen
        split at h <;> cases h
        · next hnow => exact .started _ hopen.1 hnow
        · exact .onward (.early _)
  | wake =>
    cases w <;> simp only [State.work, reduceCtorEq] at h
    cases h
    exact .onward (.woken _)
  | signIn attempt =>
    cases w <;> simp only [State.work, reduceCtorEq] at h
    cases h
    exact .attempted _ _ _
  | record =>
    cases w <;> simp only [State.work, reduceCtorEq] at h
    cases h
    exact .recorded _ _

/-- What a step of the check `c` of address `i` does. -/
inductive Checked (s : State) (i : Nat) (c : Check) : State → Prop
  | began (h : c.stage = .queued) : Checked s i c (s.beginCheck i c)
  | knocked (h : c.stage = .knocking) (banner : Option Str) : Checked s i c (s.knock i c banner)
  | put {banner : Str} (h : c.stage = .answered banner) : Checked s i c (s.put i c banner)

theorem checked {c : Check} {e : CheckEvent} (h : s.check i c e = some s') : Checked s i c s' := by
  cases e with
  | start =>
    cases hstage : c.stage <;> simp only [State.check, hstage, reduceCtorEq] at h
    cases h
    exact .began hstage
  | knock banner =>
    cases hstage : c.stage <;> simp only [State.check, hstage, reduceCtorEq] at h
    cases h
    exact .knocked hstage banner
  | put =>
    cases hstage : c.stage <;> simp only [State.check, hstage, reduceCtorEq] at h
    cases h
    exact .put hstage

/-! ## What a record changes -/

/-- A failure under the present count of Continues. -/
def State.blames (s : State) : Outcome → Bool
  | .attempted g .wrongCredentials => g = s.continues
  | _ => false

/-- The record of one outcome, seen by what it may change. -/
structure Recorded (s : State) (o : Opened) (outcome : Outcome) (s' : State) : Prop where
  frame : s' = { s with
    phase := s'.phase
    failures := s'.failures
    signingIn := s'.signingIn
    signedIn := s'.signedIn
    lines := s'.lines
    findings := s'.findings }
  failures : s'.failures = s.failures + (s.blames outcome).toNat
  phase : s'.phase = s.phase ∨ s.phase = .running ∧ s'.phase = .paused
  pauses : s'.phase = .running → s.blames outcome = true → s'.failures < failuresBeforePause
  signingIn : s'.signingIn = s.signingIn - (Worker.ending o outcome).started.toNat
  once : ∀ p : Address → Bool,
    s'.findings.countP (fun f => p f.address) + s'.lines.countP (fun l => p l.address) =
      s.findings.countP (fun f => p f.address) + s.lines.countP (fun l => p l.address) +
        (p o.address).toNat

namespace Recorded

variable {o : Opened} {outcome : Outcome}

section Frame

variable (h : Recorded s o outcome s')

include h

theorem checks : s'.checks = s.checks := by rw [h.frame]

theorem queue : s'.queue = s.queue := by rw [h.frame]

theorem workers : s'.workers = s.workers := by rw [h.frame]

theorem main : s'.main = s.main := by rw [h.frame]

theorem starts : s'.starts = s.starts := by rw [h.frame]

theorem nextStart : s'.nextStart = s.nextStart := by rw [h.frame]

theorem cancelledBy : s'.cancelledBy = s.cancelledBy := by rw [h.frame]

theorem ended : s'.ended = s.ended := by rw [h.frame]

end Frame

theorem countP_concat {α : Type} (p : α → Bool) (l : List α) (a : α) :
    (l ++ [a]).countP p = l.countP p + (p a).toNat := by
  rw [List.countP_append, List.countP_singleton]
  cases p a <;> rfl

theorem addLine {line : Line} {ended signedIn : Bool} (haddress : line.address = o.address)
    (hblames : s.blames outcome = false) (hended : (Worker.ending o outcome).started = ended) :
    Recorded s o outcome (s.addLine line ended signedIn) where
  frame := rfl
  failures := by rw [hblames]; rfl
  phase := .inl rfl
  pauses _ h := by rw [hblames] at h; cases h
  signingIn := by
    rw [hended]
    cases ended
    · exact (sub_zero _).symm
    · rfl
  once p := by
    show _ + (s.lines ++ [line]).countP _ = _
    rw [countP_concat, haddress, ← add_assoc]
    rfl

theorem failed (g : Nat) :
    Recorded s o (.attempted g .wrongCredentials) (s.failed o.address g) where
  frame := rfl
  failures := by
    show (if g = s.continues then s.failures + 1 else s.failures) =
      s.failures + (decide (g = s.continues)).toNat
    by_cases hg : g = s.continues <;> simp [hg]
  phase := by
    rw [State.failed]
    split
    · next hpause => exact .inr ⟨hpause.2.2, rfl⟩
    · exact .inl rfl
  pauses hphase hblames := by
    have hg : g = s.continues := of_decide_eq_true hblames
    rw [State.failed] at hphase ⊢
    simp only [hg, true_and, if_true] at hphase ⊢
    split at hphase
    · cases hphase
    · next hnot => exact not_le.mp fun hle => hnot ⟨hle, hphase⟩
  signingIn := rfl
  once p := by
    show _ + (s.lines ++ [_]).countP _ = _
    rw [countP_concat]
    exact (add_assoc ..).symm

theorem detected (g : Nat) (found : Detection) (hostKey : Option Str) :
    Recorded s o (.attempted g (.detected found hostKey)) (s.detected o found hostKey) := by
  rw [State.detected]
  split
  · exact addLine rfl rfl rfl
  · refine ⟨rfl, rfl, .inl rfl, fun _ h => absurd h Bool.false_ne_true, rfl, fun p => ?_⟩
    show (s.findings ++ [_]).countP _ + _ = _
    rw [countP_concat]
    exact Nat.add_right_comm ..

end Recorded

/-- **Every outcome is recorded once.** -/
theorem recorded (s : State) (o : Opened) (outcome : Outcome) :
    Recorded s o outcome (s.record o outcome) := by
  cases outcome with
  | skipped skip => exact .addLine rfl rfl rfl
  | notAsked => exact .addLine rfl rfl rfl
  | attempted g attempt =>
    cases attempt with
    | hostKeyRefused => exact .addLine rfl rfl rfl
    | wrongCredentials => exact .failed g
    | timedOut => exact .addLine rfl rfl rfl
    | raised error => exact .addLine rfl rfl rfl
    | detected found hostKey => exact .detected g found hostKey

/-- The targets are given once, and the end is for good. -/
theorem kept_of_step {a : Action} (h : s.step a = some s') :
    s'.targets = s.targets ∧ (s.main = .over → s'.main = .over) := by
  cases a with
  | proceed =>
    cases h
    rw [s.proceed_frame]
    exact ⟨rfl, fun hover => hover⟩
  | cancel who =>
    cases h
    rw [s.cancel_frame who]
    exact ⟨rfl, fun hover => hover⟩
  | check i e =>
    obtain ⟨c, -, hcheck⟩ := Option.bind_eq_some_iff.mp h
    cases checked hcheck with
    | began hstage =>
      rw [State.beginCheck_frame]
      exact ⟨rfl, fun hover => hover⟩
    | knocked hstage banner =>
      rw [State.knock_frame]
      exact ⟨rfl, fun hover => hover⟩
    | put hstage => exact ⟨rfl, fun hover => hover⟩
  | work i e =>
    obtain ⟨w, -, hw⟩ := Option.bind_eq_some_iff.mp h
    cases worked hw with
    | stopped o who =>
      rw [s.cancel_frame who]
      exact ⟨rfl, fun hover => hover⟩
    | recorded o outcome =>
      rw [(recorded s o outcome).frame]
      exact ⟨rfl, fun hover => hover⟩
    | _ => exact ⟨rfl, fun hover => hover⟩
  | shutdown raised =>
    simp only [State.step, State.shutdown] at h
    split at h <;> cases h
    next hdone => exact ⟨rfl, fun hover => by cases hdone.1.symm.trans hover⟩
  | mark =>
    simp only [State.step, State.mark] at h
    split at h <;> cases h <;>
      next hmain => exact ⟨rfl, fun hover => by cases hmain.symm.trans hover⟩
  | finish now =>
    simp only [State.step, State.finish] at h
    split at h <;> cases h
    exact ⟨rfl, fun _ => rfl⟩

end Discovery
end NetRollout
