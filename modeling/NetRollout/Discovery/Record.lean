import NetRollout.Discovery.Outcomes

/-!
# The one discovery, and its record

`Discoveries` of `src/webapp/discoveries.py`: one discovery at a time, the last one kept for
an hour, and the audit row when it ends.  Its scans are those of `Discovery.Scan`, each with
its own thread; under the lock of the `Discoveries` one step is one action.

The scan's thread sets an ended phase and then calls `_ended`, which looks the discovery up in
the place of the current one.  In between, another may have been started, or the keep time may
have run out: then the record is lost.  `Timely` are the runs where neither happens, and in
these every discovery is recorded once.
-/

namespace NetRollout
namespace Discovery

open PyText (Str)

/-- `KEEP_FOR`: seconds the findings are kept after the end. -/
def keepFor : ℚ := 3600

/-- The admin who started a discovery. -/
structure Starter where
  userId : Nat
  username : Str
  ip : Option Str
  deriving DecidableEq

/-- What `start` is given. -/
structure Request where
  targets : Targets
  port : Nat
  login : Login
  starter : Starter
  profileId : Nat
  profileLabel : Str
  sources : List Str

/-- Where a scan's thread stands with `on_end`. -/
inductive Ending where
  /-- It has not looked for its discovery. -/
  | before
  /-- It is the current one. -/
  | found
  | returned
  deriving DecidableEq

/-- A scan and what it was started with. -/
structure Run where
  scan : State
  starter : Starter
  profileId : Nat
  profileLabel : Str
  sources : List Str
  ending : Ending

/-- Every reason, in the order of its class. -/
def Reason.all : List Reason :=
  [.wrongCredentials, .timedOut, .failed, .notSupported, .inInventory, .inRollout, .hostKeyChanged,
    .notAsked]

/-- `_counts`. -/
structure Counts where
  addresses : Nat
  checked : Nat
  opened : Nat
  signingIn : Int
  signedIn : Nat
  found : Nat
  reasons : List (Reason × Nat)
  continues : Nat
  deriving DecidableEq

def State.counts (s : State) : Counts where
  addresses := s.targets.count
  checked := s.checked
  opened := s.opened
  signingIn := s.signingIn
  signedIn := s.signedIn
  found := s.findings.length
  reasons := Reason.all.map fun r => (r, s.lines.countP fun l => l.reason = r)
  continues := s.continues

/-- The audit row `inventory.discover`: its actor, its label and its detail. -/
structure Row where
  actor : Starter
  label : Str
  entries : List Str
  addresses : Nat
  port : Nat
  profile : Str
  counts : Counts
  cancelled : Bool
  cancelledBy : Option Str
  continues : Nat
  sources : List Str
  deriving DecidableEq

/-- A row, or the line printed while a database move has the database locked. -/
inductive Record where
  | row (row : Row)
  | printed (username : Str)
  deriving DecidableEq

/-- The row `_ended` writes. -/
def Run.row (run : Run) : Row where
  actor := run.starter
  label := ((", ".toList).intercalate run.scan.targets.entries).take 255
  entries := run.scan.targets.entries
  addresses := run.scan.targets.count
  port := run.scan.port
  profile := run.profileLabel
  counts := run.scan.counts
  cancelled := run.scan.phase = .cancelled
  cancelledBy := run.scan.cancelledBy
  continues := run.scan.counts.continues
  sources := run.sources

/-- The discoveries started, the current one by its place, and the records, each with the place
of the discovery whose thread made it. -/
structure Discoveries where
  runs : List Run
  current : Option Nat
  records : List (Nat × Record)

/-- `DiscoveryRefused`. -/
inductive Refused where
  | unavailable (reason : Str)
  | running (username : Str)
  deriving DecidableEq

/-- Its HTTP status. -/
def Refused.code : Refused → Nat
  | unavailable _ => 503
  | running _ => 409

/-- The discovery as it begins. -/
def Request.run (r : Request) : Run :=
  ⟨.init r.targets r.port r.login, r.starter, r.profileId, r.profileLabel, r.sources, .before⟩

namespace Discoveries

variable (s : Discoveries)

/-- `self._current`. -/
def held : Option Run := s.current.bind fun i => s.runs[i]?

/-- `start`: refused while another runs, NetRollout stops or its database moves. -/
def start (refusal : Option Str) (r : Request) : Except Refused Discoveries :=
  match refusal with
  | some reason => .error (.unavailable reason)
  | none =>
    match s.held with
    | some running =>
      if !running.scan.phase.ended then .error (.running running.starter.username)
      else .ok { s with runs := s.runs ++ [r.run], current := some s.runs.length }
    | none => .ok { s with runs := s.runs ++ [r.run], current := some s.runs.length }

/-- The discovery has ended and its keep time has passed. -/
def expired (now : ℚ) : Bool :=
  s.held.any fun run => run.scan.ended.any fun ended => keepFor < now - ended

/-- `current`: the last one is dropped when its keep time has passed. -/
def getCurrent (now : ℚ) : Discoveries := if s.expired now then { s with current := none } else s

/-- A thread of a scan, and what the page asks of it, `cancel` included. -/
def onScan (i : Nat) (run : Run) (a : Action) : Option Discoveries :=
  (scan.step run.scan a).map fun scan => { s with runs := s.runs.set i { run with scan } }

/-- `_ended` looks for its scan in the place of the current one. -/
def lookup (i : Nat) (run : Run) : Option Discoveries :=
  if run.scan.main = .over ∧ run.ending = .before then
    some { s with
      runs := s.runs.set i { run with ending := if s.current = some i then .found else .returned } }
  else none

/-- The rest of `_ended`: `blocked` is `writes_blocked`, and a row not `written` raises. -/
def tell (i : Nat) (run : Run) (blocked written : Bool) : Option Discoveries :=
  if run.ending = .found then
    some { s with
      runs := s.runs.set i { run with ending := .returned }
      records :=
        if blocked then s.records ++ [(i, .printed run.starter.username)]
        else if written then s.records ++ [(i, .row run.row)] else s.records }
  else none

end Discoveries

inductive Act where
  | start (refusal : Option Str) (r : Request)
  /-- `current`, which `cancel` asks first. -/
  | current (now : ℚ)
  | scan (i : Nat) (a : Action)
  | lookup (i : Nat)
  | tell (i : Nat) (blocked written : Bool)

def Discoveries.step (s : Discoveries) : Act → Option Discoveries
  | .start refusal r =>
    match s.start refusal r with
    | .ok s' => some s'
    | .error _ => some s
  | .current now => some (s.getCurrent now)
  | .scan i a => s.runs[i]?.bind fun run => s.onScan i run a
  | .lookup i => s.runs[i]?.bind fun run => s.lookup i run
  | .tell i blocked written => s.runs[i]?.bind fun run => s.tell i run blocked written

def discoveries : System Discoveries Act where
  Init s := s = ⟨[], none, []⟩
  step := Discoveries.step

/-- It has ended, and its thread has not looked for it. -/
def Run.pending (run : Run) : Bool := run.scan.phase.ended && run.ending = .before

/-- The current discovery keeps its place until its thread has looked for it, and a row that
may be written is. -/
def timely (s : Discoveries) : Act → Bool
  | .start refusal _ => refusal.isSome || !s.held.any Run.pending
  | .current now => !s.expired now || !s.held.any Run.pending
  | .tell _ blocked written => blocked || written
  | .scan .. | .lookup _ => true

/-! ## One at a time -/

/-- What a step of the scans' threads and of the callers can do. -/
inductive Stepped (s : Discoveries) : Act → Discoveries → Prop
  | refused (r : Request) (refusal : Option Str) : Stepped s (.start refusal r) s
  | started (r : Request) (h : ∀ run, s.held = some run → run.scan.phase.ended = true) :
    Stepped s (.start none r)
      { s with runs := s.runs ++ [r.run], current := some s.runs.length }
  | kept (now : ℚ) : Stepped s (.current now) s
  | dropped {now : ℚ} (h : s.expired now = true) :
    Stepped s (.current now) { s with current := none }
  | scanned {i : Nat} {a : Action} {run : Run} {scan' : State} (hi : s.runs[i]? = some run)
    (h : scan.step run.scan a = some scan') :
    Stepped s (.scan i a) { s with runs := s.runs.set i { run with scan := scan' } }
  | looked {i : Nat} {run : Run} (hi : s.runs[i]? = some run) (hover : run.scan.main = .over)
    (hbefore : run.ending = .before) :
    Stepped s (.lookup i) { s with
      runs := s.runs.set i { run with ending := if s.current = some i then .found else .returned } }
  | told {i : Nat} {run : Run} (hi : s.runs[i]? = some run) (hfound : run.ending = .found)
    (blocked written : Bool) :
    Stepped s (.tell i blocked written) { s with
      runs := s.runs.set i { run with ending := .returned }
      records :=
        if blocked then s.records ++ [(i, .printed run.starter.username)]
        else if written then s.records ++ [(i, .row run.row)] else s.records }

variable {s s' : Discoveries} {a : Act}

theorem stepped (h : s.step a = some s') : Stepped s a s' := by
  cases a with
  | start refusal r =>
    simp only [Discoveries.step] at h
    split at h <;> cases h
    · next hstart =>
      cases refusal with
      | some reason => cases hstart
      | none =>
        simp only [Discoveries.start] at hstart
        split at hstart
        · next running hheld =>
          split at hstart <;> cases hstart
          next hended =>
          rw [Bool.not_eq_true', Bool.not_eq_false] at hended
          refine .started r fun run hrun => ?_
          rw [hheld, Option.some.injEq] at hrun
          exact hrun ▸ hended
        · next hheld =>
          cases hstart
          refine .started r fun run hrun => ?_
          rw [hheld] at hrun
          cases hrun
    · exact .refused r refusal
  | current now =>
    cases h
    rw [Discoveries.getCurrent]
    split
    · next hexpired => exact .dropped hexpired
    · exact .kept now
  | scan i a =>
    obtain ⟨run, hi, hscan⟩ := Option.bind_eq_some_iff.mp h
    obtain ⟨scan', hstep, rfl⟩ := Option.map_eq_some_iff.mp hscan
    exact .scanned hi hstep
  | lookup i =>
    obtain ⟨run, hi, hlookup⟩ := Option.bind_eq_some_iff.mp h
    rw [Discoveries.lookup] at hlookup
    split at hlookup <;> cases hlookup
    next hboth => exact .looked hi hboth.1 hboth.2
  | tell i blocked written =>
    obtain ⟨run, hi, htell⟩ := Option.bind_eq_some_iff.mp h
    rw [Discoveries.tell] at htell
    split at htell <;> cases htell
    next hfound => exact .told hi hfound blocked written

theorem held_of_current {i : Nat} (h : s.current = some i) : s.held = s.runs[i]? := by
  rw [Discoveries.held, h, Option.bind_some]

/-- The scans are scans, and the one that runs is the current one. -/
structure Alone (s : Discoveries) : Prop where
  scans : ∀ run ∈ s.runs, scan.Reachable System.always run.scan
  current : ∀ i run, s.runs[i]? = some run → run.scan.phase.ended = false → s.current = some i

/-- A scan that has its end's time has ended. -/
theorem Alone.ended (h : Alone s) {run : Run} (hrun : run ∈ s.runs) {ended : ℚ}
    (hended : run.scan.ended = some ended) : run.scan.phase.ended = true := by
  have hphased := (paced_of_reachable (h.scans run hrun)).phased
  exact hphased.ended.mpr (hphased.stamped.mp (by rw [hended]; rfl))

/-- A discovery goes on, its phase not less ended than before. -/
theorem Alone.set {i : Nat} {run : Run} (h : Alone s) (hi : s.runs[i]? = some run) (run' : Run)
    (hscan : scan.Reachable System.always run'.scan)
    (hended : run.scan.phase.ended = true → run'.scan.phase.ended = true)
    (hruns : s'.runs = s.runs.set i run') (hcurrent : s'.current = s.current) : Alone s' := by
  constructor
  · rw [hruns]
    exact ListUpdate.forall_mem_set h.scans hscan
  · intro j r hj hrunning
    rw [hruns] at hj
    rw [hcurrent]
    rcases ListUpdate.getElem?_set_cases hj with ⟨rfl, rfl⟩ | ⟨-, hj⟩
    · refine h.current j run hi ?_
      rw [Bool.eq_false_iff] at hrunning ⊢
      exact fun hbefore => hrunning (hended hbefore)
    · exact h.current j r hj hrunning

/-- An ended phase is for good. -/
theorem ended_of_step {t t' : State} {b : Action} (ht : scan.Reachable System.always t)
    (hstep : scan.step t b = some t') (hended : t.phase.ended = true) : t'.phase.ended = true := by
  have hbefore := (paced_of_reachable ht).phased
  have hafter := (paced_of_reachable (ht.step rfl hstep)).phased
  exact hafter.ended.mpr ((kept_of_step hstep).2 (hbefore.ended.mp hended))

/-- **The step lemma**, for every step. -/
theorem Alone.step (h : Alone s) (hstep : s.step a = some s') : Alone s' := by
  cases stepped hstep with
  | refused r refusal => exact h
  | kept now => exact h
  | started r hended =>
    constructor
    · exact ListUpdate.forall_mem_concat h.scans ⟨_, [], ⟨_, _, _, rfl⟩, rfl⟩
    · intro i run hi hrunning
      rcases ListUpdate.getElem?_concat_cases hi with hi | ⟨rfl, -⟩
      · have hcurrent := h.current i run hi hrunning
        rw [hended run ((held_of_current hcurrent).trans hi)] at hrunning
        cases hrunning
      · rfl
  | @dropped now hexpired =>
    refine ⟨h.scans, fun i run hi hrunning => ?_⟩
    have hheld := (held_of_current (h.current i run hi hrunning)).trans hi
    rw [Discoveries.expired, hheld, Option.any_some] at hexpired
    obtain ⟨ended, hended, -⟩ := (Option.any_eq_true _ _).mp hexpired
    rw [h.ended (List.mem_of_getElem? hi) hended] at hrunning
    cases hrunning
  | scanned hi hscan =>
    have hrun := h.scans _ (List.mem_of_getElem? hi)
    exact h.set hi _ (hrun.step rfl hscan) (ended_of_step hrun hscan) rfl rfl
  | @looked i run hi hover hbefore =>
    have hscan := h.scans run (List.mem_of_getElem? hi)
    exact h.set hi { run with ending := if s.current = some i then .found else .returned }
      hscan (fun hended => hended) rfl rfl
  | @told i run hi hfound blocked written =>
    have hscan := h.scans run (List.mem_of_getElem? hi)
    exact h.set hi { run with ending := .returned } hscan (fun hended => hended) rfl rfl

theorem alone_of_reachable {allowed : Discoveries → Act → Bool}
    (h : discoveries.Reachable allowed s) : Alone s := by
  refine h.invariant (I := Alone) ?_ fun s a s' _ _ hs hstep => Alone.step hs hstep
  rintro s rfl
  exact ⟨fun _ hrun => absurd hrun List.not_mem_nil, fun i run hi => by cases hi⟩

/-- At most one discovery runs at a time. -/
theorem Alone.countP_le (h : Alone s) : s.runs.countP (fun run => !run.scan.phase.ended) ≤ 1 := by
  refine ListUpdate.countP_le_one fun i j run run' hi hj hrun hrun' => ?_
  have hcurrent := h.current i run hi (Bool.not_eq_true' _ ▸ hrun)
  have hcurrent' := h.current j run' hj (Bool.not_eq_true' _ ▸ hrun')
  exact Option.some.inj (hcurrent.symm.trans hcurrent')

/-! ## Recorded once -/

/-- It is about this discovery: the row names its starter and its targets, the line its
starter. -/
def Record.names (run : Run) (r : Record) : Prop :=
  match r with
  | .row written => written.actor = run.starter ∧
      written.entries = run.scan.targets.entries ∧ written.addresses = run.scan.targets.count
  | .printed username => username = run.starter.username

/-- The records its thread made. -/
def Discoveries.recordsOf (s : Discoveries) (i : Nat) : List Record :=
  (s.records.filter fun entry => entry.1 = i).map Prod.snd

/-- What the records hold of a discovery, by where its thread stands. -/
def Discoveries.Keeps (s : Discoveries) (i : Nat) (run : Run) : Prop :=
  match run.ending with
  | .before => s.current = some i ∧ s.recordsOf i = []
  | .found => s.recordsOf i = []
  | .returned => ∃ r, s.recordsOf i = [r] ∧ r.names run

/-- Every discovery's records are as its thread stands, and there are no others. -/
structure Recording (s : Discoveries) : Prop where
  keeps : ∀ i run, s.runs[i]? = some run → s.Keeps i run
  known : ∀ entry ∈ s.records, entry.1 < s.runs.length

namespace Recording

/-- A discovery goes on; the records of the others stay, and so does the current one. -/
theorem set {i : Nat} {run run' : Run} (h : Recording s) (hi : s.runs[i]? = some run)
    (hruns : s'.runs = s.runs.set i run') (hcurrent : s'.current = s.current)
    (hothers : ∀ j, j ≠ i → s'.recordsOf j = s.recordsOf j) (hkeeps : s'.Keeps i run')
    (hknown : ∀ entry ∈ s'.records, entry ∈ s.records ∨ entry.1 = i) : Recording s' := by
  have hlt := (List.getElem?_eq_some_iff.mp hi).1
  constructor
  · intro j r hj
    rw [hruns] at hj
    rcases ListUpdate.getElem?_set_cases hj with ⟨rfl, rfl⟩ | ⟨hne, hj⟩
    · exact hkeeps
    · have hold := h.keeps j r hj
      rw [Discoveries.Keeps] at hold ⊢
      rw [hcurrent, hothers j hne]
      exact hold
  · intro entry hentry
    rw [hruns, List.length_set]
    rcases hknown entry hentry with hbefore | rfl
    · exact h.known entry hbefore
    · exact hlt

/-- A new discovery takes a place that was not waited for. -/
theorem start (h : Recording s) (r : Request)
    (hnone : ∀ (i : Nat) (run : Run), s.runs[i]? = some run → run.ending ≠ .before) :
    Recording { s with runs := s.runs ++ [r.run], current := some s.runs.length } := by
  have hsame (i : Nat) : Discoveries.recordsOf { s with
      runs := s.runs ++ [r.run], current := some s.runs.length } i = s.recordsOf i := rfl
  constructor
  · intro i run hi
    rcases ListUpdate.getElem?_concat_cases hi with hi | ⟨rfl, rfl⟩
    · have hold := h.keeps i run hi
      have hbefore := hnone i run hi
      rw [Discoveries.Keeps] at hold ⊢
      rw [hsame]
      split at hold
      · next heq => exact absurd heq hbefore
      · exact hold
      · exact hold
    · refine ⟨rfl, ?_⟩
      rw [hsame, Discoveries.recordsOf, List.map_eq_nil_iff, List.filter_eq_nil_iff]
      intro entry hentry heq
      exact absurd (of_decide_eq_true heq) (h.known entry hentry).ne
  · intro entry hentry
    have hlt := h.known entry hentry
    rw [List.length_append]
    exact Nat.lt_add_right _ hlt

/-- **The step lemma**, for the steps that are in time. -/
theorem step (h : Recording s) (halone : Alone s) (htimely : timely s a = true)
    (hstep : s.step a = some s') : Recording s' := by
  cases stepped hstep with
  | refused r refusal => exact h
  | kept now => exact h
  | started r hended =>
    refine h.start r fun i run hi hbefore => ?_
    have hkeeps := h.keeps i run hi
    rw [Discoveries.Keeps, hbefore] at hkeeps
    have hheld := (held_of_current hkeeps.1).trans hi
    -- the current one has ended, so its thread has looked for it
    simp only [timely, Option.isSome_none, Bool.false_or, hheld, Option.any_some, Run.pending,
      hended run hheld, hbefore, decide_true, Bool.and_self, Bool.not_true, reduceCtorEq] at htimely
  | @dropped now hexpired =>
    constructor
    · intro i run hi
      have hkeeps := h.keeps i run hi
      rw [Discoveries.Keeps] at hkeeps ⊢
      split at hkeeps
      · next hbefore =>
        have hheld := (held_of_current hkeeps.1).trans hi
        have hpending : run.pending = true := by
          rw [Discoveries.expired, hheld, Option.any_some] at hexpired
          obtain ⟨ended, hended, -⟩ := (Option.any_eq_true _ _).mp hexpired
          rw [Run.pending, halone.ended (List.mem_of_getElem? hi) hended, hbefore]
          rfl
        simp only [timely, hexpired, hheld, Option.any_some, hpending, Bool.not_true, Bool.or_self,
          Bool.false_eq_true] at htimely
      · exact hkeeps
      · exact hkeeps
    · exact h.known
  | @scanned i b run scan' hi hscan =>
    refine h.set hi rfl rfl (fun j _ => rfl) ?_ fun entry hentry => .inl hentry
    have hkeeps := h.keeps i run hi
    have htargets := (kept_of_step hscan).1
    cases hending : run.ending <;> simp only [Discoveries.Keeps, hending] at hkeeps ⊢
    · exact hkeeps
    · exact hkeeps
    · obtain ⟨r, hr, hnames⟩ := hkeeps
      refine ⟨r, hr, ?_⟩
      cases r with
      | row written =>
        show _ ∧ written.entries = scan'.targets.entries ∧ written.addresses = scan'.targets.count
        rw [htargets]
        exact hnames
      | printed username => exact hnames
  | @looked i run hi hover hbefore =>
    have hkeeps := h.keeps i run hi
    rw [Discoveries.Keeps, hbefore] at hkeeps
    refine h.set hi rfl rfl (fun j _ => rfl) ?_ fun entry hentry => .inl hentry
    rw [Discoveries.Keeps, if_pos hkeeps.1]
    exact hkeeps.2
  | @told i run hi hfound blocked written =>
    have hkeeps := h.keeps i run hi
    rw [Discoveries.Keeps, hfound] at hkeeps
    obtain ⟨r, hnames, hrecords⟩ : ∃ r : Record, r.names run ∧
        (if blocked then s.records ++ [(i, .printed run.starter.username)]
          else if written then s.records ++ [(i, .row run.row)] else s.records) =
            s.records ++ [(i, r)] := by
      cases blocked with
      | true => exact ⟨.printed run.starter.username, rfl, rfl⟩
      | false =>
        cases written with
        | true => exact ⟨.row run.row, ⟨rfl, rfl, rfl⟩, rfl⟩
        | false => cases htimely
    rw [hrecords]
    refine h.set hi rfl rfl (fun j hj => ?_) ⟨r, ?_, hnames⟩ fun entry hentry => ?_
    · show ((s.records ++ [(i, r)]).filter _).map _ = _
      rw [List.filter_append, List.filter_singleton, decide_eq_false (Ne.symm hj)]
      exact congrArg (List.map Prod.snd) (List.append_nil _)
    · show ((s.records ++ [(i, r)]).filter _).map _ = _
      rw [List.filter_append, List.filter_singleton, decide_eq_true rfl, List.map_append]
      exact congrArg (· ++ [r]) hkeeps
    · rcases List.mem_append.mp hentry with hbefore | hnew
      · exact .inl hbefore
      · exact .inr (congrArg Prod.fst (List.mem_singleton.mp hnew))

end Recording

theorem recording_of_reachable (h : discoveries.Reachable timely s) : Recording s := by
  refine h.invariant (I := Recording) ?_
    fun s a s' hreachable htimely hs hstep => hs.step (alone_of_reachable hreachable) htimely hstep
  rintro s rfl
  constructor
  · intro i run hi
    cases hi
  · exact fun _ hentry => absurd hentry List.not_mem_nil

/-- **Every discovery is recorded once**, as long as the current one keeps its place until its
thread has looked for it. -/
theorem recorded_once (h : discoveries.Reachable timely s) :
    s.runs.countP (fun run => !run.scan.phase.ended) ≤ 1 ∧
      ∀ i run, s.runs[i]? = some run → run.ending = .returned →
        ∃ r, s.recordsOf i = [r] ∧ r.names run := by
  refine ⟨(alone_of_reachable h).countP_le, fun i run hi hreturned => ?_⟩
  have hkeeps := (recording_of_reachable h).keeps i run hi
  rw [Discoveries.Keeps, hreturned] at hkeeps
  exact hkeeps

/-- A discovery of no address. -/
def nobody : Request :=
  ⟨⟨[], [], 0, .nil, rfl⟩, 22, ⟨[], [], []⟩, ⟨0, "ann".toList, none⟩, 0, [], []⟩

/-- It ends. -/
def endsAt (i : Nat) : List Act :=
  ([.shutdown false, .mark, .mark, .mark, .mark, .mark, .work 0 .get, .work 1 .get, .work 2 .get,
    .work 3 .get, .finish 9] : List Action).map (.scan i)

theorem recorded_once_row : ∃ s run r, discoveries.Reachable timely s ∧ s.runs[0]? = some run ∧
    s.recordsOf 0 = [r] ∧ r.names run := by
  have hrun : (discoveries.exec timely ⟨[], none, []⟩
      (.start none nobody :: endsAt 0 ++ [.lookup 0, .tell 0 false true])).any (fun s =>
        s.runs[0]?.any fun run => run.ending = .returned) = true := by
    decide +kernel
  obtain ⟨s, hs, hp⟩ := System.exists_reachable (by exact rfl) hrun
  obtain ⟨run, hi, hreturned⟩ := (Option.any_eq_true _ _).mp hp
  obtain ⟨r, hr, hnames⟩ := (recorded_once hs).2 0 run hi (of_decide_eq_true hreturned)
  exact ⟨s, run, r, hs, hi, hr, hnames⟩

/-- Another discovery started between the ended phase and `_ended`: no record of the first. -/
theorem not_recorded_replaced : ¬ ∀ s, discoveries.Reachable System.always s →
    ∀ i run, s.runs[i]? = some run → run.ending = .returned →
      ∃ r, s.recordsOf i = [r] ∧ r.names run := by
  intro hall
  have hrun : (discoveries.exec System.always ⟨[], none, []⟩
      (.start none nobody :: endsAt 0 ++ [.start none nobody, .lookup 0])).any (fun s =>
        (s.runs[0]?.any fun run => run.ending = .returned) && s.records.isEmpty) = true := by
    decide +kernel
  obtain ⟨s, hs, hp⟩ := System.exists_reachable (by exact rfl) hrun
  rw [Bool.and_eq_true, List.isEmpty_iff] at hp
  obtain ⟨run, hi, hreturned⟩ := (Option.any_eq_true _ _).mp hp.1
  obtain ⟨r, hr, -⟩ := hall s hs 0 run hi (of_decide_eq_true hreturned)
  rw [Discoveries.recordsOf, hp.2] at hr
  cases hr

end Discovery
end NetRollout
