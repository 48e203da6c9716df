import NetRollout.Inventory.Tables
import NetRollout.Results.Status

/-!
# Decisions on a device's result

`ResultReviews` of `src/results.py`, as the review route calls it: `decide`, and on request
`decide_alike`, each call in a transaction of its own.

PostgreSQL runs a transaction READ COMMITTED.  A statement sees the rows as they are committed
when it begins.  An UPDATE takes its row's lock, or waits for it, and goes to the row as it is
by then; the lock is held until the transaction ends.  SQLAlchemy sends its UPDATEs with the
next query or with the commit, and an UPDATE sets the columns that were given another value
than the one read, those and no others.

A decision reads its row without locking it, so a second one may read the row undecided as
well and have its UPDATE wait for the first (`not_decided_once`).  And two calls that decide
each other's rows as well wait for each other: the one PostgreSQL ends is answered an error,
not that its row was decided (`not_decided_once_deadlock`).  `decided_once` is what holds
where neither happens.
-/

namespace NetRollout
namespace Results

open PyText (Str strip)
open Session (DeviceStatus)
open Evidence (Verdict)
open Rollout (Transcript)
open Inventory (Viewer)

/-- `ReviewOutcome`. -/
inductive ReviewOutcome where
  | confirmed
  | rejected
  deriving DecidableEq

/-- A `ReviewOutcome` as it is stored. -/
def ReviewOutcome.value : ReviewOutcome → Str
  | confirmed => "confirmed".toList
  | rejected => "rejected".toList

/-! ## What is to decide -/

/-- The verdicts a person may overturn or must decide. -/
def undecidedVerdicts : List Verdict := [.review, .rejected]

/-- `needs_decision`. -/
def needsDecision (transcript : Option Transcript) : Bool :=
  transcript.any fun t => t.commands.any fun c => undecidedVerdicts.contains c.verdict

/-- `awaiting_decision`. -/
def awaitingDecision (row : DeviceResult) : Bool :=
  row.review_outcome.isNone && needsDecision row.transcript

/-- `decision_signature`. -/
def decisionSignature (row : DeviceResult) : List (Str × Verdict × List Str) :=
  ((row.transcript.elim [] Transcript.commands).filter fun c =>
    undecidedVerdicts.contains c.verdict).map fun c => (c.command, c.verdict, c.reply)

def REVIEW_COMMENT_MAX : Nat := 2000

/-- What the route was asked for, and by whom. -/
structure Review where
  viewer : Viewer
  job_id : Nat
  ip : Str
  port : Option Int
  outcome : ReviewOutcome
  comment : Str
  /-- The job's other devices with the same signature as well. -/
  alike : Bool

namespace Review

variable (q : Review)

/-- The filters of `decide`. -/
def fits (row : DeviceResult) : Bool :=
  row.job_id == q.job_id && row.device_ip == q.ip && q.port.all fun port => row.device_port == port

/-- `may_see`. -/
def maySee (row : DeviceResult) : Bool :=
  q.viewer.is_admin || row.user_id == q.viewer.id

/-- The `ReviewRefused` that `decide` raises about a row, if any. -/
def refusal (row : DeviceResult) : Option Str :=
  match row.review_outcome with
  | some outcome => some ("This device was already ".toList ++ outcome ++ ".".toList)
  | none =>
    if needsDecision row.transcript = false then
      some ("This device has nothing to decide (it's ".toList ++ row.status ++ ").".toList)
    else if REVIEW_COMMENT_MAX < (strip q.comment).length then
      some ("The comment is too long (at most ".toList ++ PyText.ofInt REVIEW_COMMENT_MAX ++
        " characters).".toList)
    else none

/-- The status a decision gives. -/
def status (row : DeviceResult) : DeviceStatus :=
  match q.outcome with
  | .confirmed => .success
  | .rejected => if row.commands_verified.getD 0 = 0 then .failed else .partly

/-- `_settle`, at a time. -/
def settle (now : Int) (row : DeviceResult) : DeviceResult :=
  { row with
    status := value (q.status row)
    review_outcome := some q.outcome.value
    review_comment := if strip q.comment = [] then none else some (strip q.comment)
    reviewed_by := some q.viewer.id
    reviewed_at := some now }

end Review

/-- `alike`, its order left out: it is that of the answer alone. -/
def alike (rows : List DeviceResult) (row : DeviceResult) : List DeviceResult :=
  if needsDecision row.transcript then
    (rows.filter fun r => r.job_id == row.job_id && r.id != row.id).filter fun r =>
      awaitingDecision r && decisionSignature r == decisionSignature row
  else []

/-! ## The table and the calls -/

/-- A row as a call has read it, and as it has set it. -/
structure Change where
  loaded : DeviceResult
  made : DeviceResult

/-- The UPDATE: a column is set if its value is another one than was read. -/
def Change.update (c : Change) (r : DeviceResult) : DeviceResult :=
  { r with
    status := if c.made.status = c.loaded.status then r.status else c.made.status
    review_outcome := if c.made.review_outcome = c.loaded.review_outcome then r.review_outcome
      else c.made.review_outcome
    review_comment := if c.made.review_comment = c.loaded.review_comment then r.review_comment
      else c.made.review_comment
    reviewed_by := if c.made.reviewed_by = c.loaded.reviewed_by then r.reviewed_by
      else c.made.reviewed_by
    reviewed_at := if c.made.reviewed_at = c.loaded.reviewed_at then r.reviewed_at
      else c.made.reviewed_at }

/-- The rows with the changes of a transaction. -/
def write (changes : List Change) (rows : List DeviceResult) : List DeviceResult :=
  rows.map fun r => (changes.find? fun c => c.loaded.id == r.id).elim r fun c => c.update r

/-- How far a call has come. -/
inductive Stage where
  | asked
  /-- `decide` has read its row and set it, and `decide_alike` the `others`, once it has read
  them.  The rows of `locked` have had their UPDATE. -/
  | deciding (own : Change) (others : Option (List Change)) (locked : List Nat)
  /-- Committed. -/
  | decided (own : Change) (others : List Change)
  /-- `LookupError`. -/
  | notFound
  /-- `ReviewRefused`, about the row with this id. -/
  | refused (id : Nat) (message : Str)
  /-- Rolled back on any other error: a deadlock, a lost connection. -/
  | failed (id : Option Nat)

namespace Stage

/-- What the call has set. -/
def changes : Stage → List Change
  | deciding own others _ => own :: others.getD []
  | decided own others => own :: others
  | _ => []

/-- The rows whose lock the call holds. -/
def locked : Stage → List Nat
  | deciding _ _ locked => locked
  | _ => []

/-- What the call has committed. -/
def written : Stage → List Change
  | decided own others => own :: others
  | _ => []

/-- The device results that the call has decided. -/
def decides (stage : Stage) : List Nat := stage.written.map fun c => c.loaded.id

/-- The result that `decide` found for the call to decide. -/
def picked : Stage → Option Nat
  | deciding own _ _ => some own.loaded.id
  | decided own _ => some own.loaded.id
  | refused id _ => some id
  | failed id => id
  | _ => none

/-- The call read its row undecided, and another error ended it. -/
def failedOn (id : Nat) : Stage → Bool
  | failed other => other == some id
  | _ => false

/-- The request has ended. -/
def ended : Stage → Bool
  | asked => false
  | deciding .. => false
  | _ => true

end Stage

structure Call where
  request : Review
  stage : Stage

structure State where
  rows : List DeviceResult
  calls : List Call

/-- A call's next statement. -/
inductive Move where
  /-- `decide`: `first()` answers with the `k`-th of the rows that fit. -/
  | decide (k : Nat) (now : Int)
  /-- An UPDATE, once it has its row's lock. -/
  | flush (id : Nat)
  /-- `decide_alike`, at each device's time. -/
  | decideAlike (now : Nat → Int)
  | commit
  | fail

inductive Action where
  | call (q : Review)
  | act (i : Nat) (move : Move)

namespace Review

/-- `decide`. -/
def decide (q : Review) (rows : List DeviceResult) (k : Nat) (now : Int) : Option Stage :=
  match (rows.filter q.fits)[k]? with
  | none => if (rows.filter q.fits).isEmpty then some .notFound else none
  | some row =>
    if q.maySee row then
      match q.refusal row with
      | some message => some (.refused row.id message)
      | none => some (.deciding ⟨row, q.settle now row⟩ (if q.alike then none else some []) [])
    else some .notFound

/-- `decide_alike`. -/
def decideAlike (q : Review) (rows : List DeviceResult) (row : DeviceResult)
    (now : Nat → Int) : List Change :=
  (Results.alike rows row).map fun other => ⟨other, q.settle (now other.id) other⟩

end Review

namespace State

variable (s : State)

/-- No transaction holds the row's lock. -/
def free (id : Nat) : Bool := s.calls.all fun c => !c.stage.locked.contains id

/-- What a call is after its next statement, where it can take it. -/
def next (q : Review) : Stage → Move → Option Stage
  | .asked, .decide k now => q.decide s.rows k now
  | .deciding own others locked, .flush id =>
    if ((own :: others.getD []).any fun c => c.loaded.id == id) && s.free id then
      some (.deciding own others (id :: locked))
    else none
  | .deciding own none locked, .decideAlike now =>
    -- the query sends the row's own UPDATE first
    if locked.contains own.loaded.id then
      some (.deciding own (some (q.decideAlike s.rows own.made now)) locked)
    else none
  | .deciding own (some others) locked, .commit =>
    if (own :: others).all fun c => locked.contains c.loaded.id then some (.decided own others)
    else none
  | .asked, .fail => some (.failed none)
  | .deciding own _ _, .fail => some (.failed (some own.loaded.id))
  | _, _ => none

def step : Action → Option State
  | .call q => some { s with calls := s.calls ++ [⟨q, .asked⟩] }
  | .act i move =>
    s.calls[i]?.bind fun c => (s.next c.request c.stage move).map fun stage =>
      { rows := write stage.written s.rows, calls := s.calls.set i { c with stage := stage } }

end State

/-- Any calls, on the device results there are. -/
def reviews (first : List DeviceResult) : System State Action where
  Init s := s = ⟨first, []⟩
  step := State.step

/-- An UPDATE finds its row undecided. -/
def undecided (s : State) : Action → Bool
  | .act _ (.flush id) => s.rows.all fun r => r.id != id || r.review_outcome.isNone
  | _ => true

/-- A call that read its row undecided is not ended by another error where another call has
decided that row, or comes to decide it. -/
def answered (s : State) : Action → Bool
  | .act i .fail =>
    match s.calls[i]?.map Call.stage with
    | some (.deciding own _ _) => s.calls.all fun c => !c.stage.decides.contains own.loaded.id
    | _ => true
  | .act i .commit =>
    s.calls[i]?.all fun c => c.stage.changes.all fun x =>
      s.calls.all fun d => !d.stage.failedOn x.loaded.id
  | _ => true

/-- Neither happens in a step. -/
def apart (s : State) (a : Action) : Bool := undecided s a && answered s a

/-! ## Each result decided once -/

/-- What a call has set of a row: its own decision, of a row that was undecided at first. -/
def Reads (first : List DeviceResult) (q : Review) (x : Change) : Prop :=
  x.loaded ∈ first ∧ x.loaded.review_outcome = none ∧ ∃ now, x.made = q.settle now x.loaded

/-- **Each device result is decided once.** -/
structure DecidedOnce (first : List DeviceResult) (s : State) : Prop where
  once : ∀ {i j : Nat} {c d : Call} {id : Nat}, s.calls[i]? = some c → s.calls[j]? = some d →
    id ∈ c.stage.decides → id ∈ d.stage.decides → i = j
  recorded : ∀ c ∈ s.calls, ∀ x ∈ c.stage.written, Reads first c.request x ∧ x.made ∈ s.rows
  refused : ∀ {i j : Nat} {c d : Call} {id : Nat}, s.calls[i]? = some c → s.calls[j]? = some d →
    i ≠ j → id ∈ c.stage.decides → d.stage.picked = some id → d.stage.ended = true →
    ∃ message, d.stage = .refused id message
  untouched : ∀ r ∈ s.rows, (∀ c ∈ s.calls, r.id ∉ c.stage.decides) → r ∈ first
  ids : s.rows.map (·.id) = first.map (·.id)

/-! ## Changes and rows -/

variable {first rows : List DeviceResult} {changes : List Change} {q : Review} {x : Change}
  {r t : DeviceResult} {s s' : State} {c : Call} {i : Nat}

/-- A row has an id of its own. -/
theorem eq_of_id (hnodup : (rows.map (·.id)).Nodup) (hr : r ∈ rows) (ht : t ∈ rows)
    (hid : r.id = t.id) : r = t :=
  List.inj_on_of_nodup_map hnodup hr ht hid

theorem Reads.id (h : Reads first q x) : x.made.id = x.loaded.id := by
  obtain ⟨-, -, now, hmade⟩ := h
  rw [hmade]
  rfl

theorem Reads.made (h : Reads first q x) : x.made.review_outcome ≠ none := by
  obtain ⟨-, -, now, hmade⟩ := h
  rw [hmade]
  exact Option.some_ne_none _

theorem kept_or_set {α : Type} [DecidableEq α] (a b : α) : (if a = b then b else a) = a := by
  split
  · next h => exact h.symm
  · rfl

/-- An UPDATE that finds its row as it was read makes it what it was set to. -/
theorem Reads.update (h : Reads first q x) : x.update x.loaded = x.made := by
  obtain ⟨-, -, now, hmade⟩ := h
  simp only [Change.update, kept_or_set]
  rw [hmade]
  rfl

theorem map_id_write : (write changes rows).map (·.id) = rows.map (·.id) := by
  rw [write, List.map_map]
  refine List.map_congr_left fun r _ => ?_
  show ((changes.find? _).elim r _).id = r.id
  cases changes.find? fun c => c.loaded.id == r.id with
  | none => rfl
  | some c => rfl

theorem write_nil : write [] rows = rows := List.map_id _

/-- A row after a transaction: as before, or with the one change of it. -/
theorem mem_write_cases (h : r ∈ write changes rows) :
    (r ∈ rows ∧ r.id ∉ changes.map fun c => c.loaded.id) ∨
      ∃ x ∈ changes, ∃ t ∈ rows, x.loaded.id = t.id ∧ r = x.update t := by
  obtain ⟨t, ht, rfl⟩ := List.mem_map.mp h
  cases hfind : changes.find? fun c => c.loaded.id == t.id with
  | none =>
    refine .inl ⟨ht, fun hmem => ?_⟩
    obtain ⟨c, hc, hid⟩ := List.mem_map.mp hmem
    exact List.find?_eq_none.mp hfind c hc (beq_iff_eq.mpr hid)
  | some x =>
    have hid := List.find?_some hfind
    exact .inr ⟨x, List.mem_of_find?_eq_some hfind, t, ht, beq_iff_eq.mp hid, rfl⟩

theorem mem_write_of_notMem (h : r ∈ rows) (hid : r.id ∉ changes.map fun c => c.loaded.id) :
    r ∈ write changes rows := by
  refine List.mem_map.mpr ⟨r, h, ?_⟩
  have hfind : (changes.find? fun c => c.loaded.id == r.id) = none := by
    refine List.find?_eq_none.mpr fun c hc heq => hid ?_
    exact List.mem_map.mpr ⟨c, hc, beq_iff_eq.mp heq⟩
  rw [hfind]
  rfl

theorem mem_write_of_mem (hnodup : (changes.map fun c => c.loaded.id).Nodup)
    (h : Reads first q x) (hx : x ∈ changes) (hrow : x.loaded ∈ rows) :
    x.made ∈ write changes rows := by
  refine List.mem_map.mpr ⟨x.loaded, hrow, ?_⟩
  have hfind : (changes.find? fun c => c.loaded.id == x.loaded.id) = some x := by
    have hsome : (changes.find? fun c => c.loaded.id == x.loaded.id).isSome :=
      List.find?_isSome.mpr ⟨x, hx, beq_self_eq_true x.loaded.id⟩
    obtain ⟨y, hy⟩ := Option.isSome_iff_exists.mp hsome
    have hid := List.find?_some hy
    rw [hy, List.inj_on_of_nodup_map hnodup (List.mem_of_find?_eq_some hy) hx (beq_iff_eq.mp hid)]
  rw [hfind]
  exact h.update

/-! ## The invariant -/

/-- A call's changes, of rows that differ. -/
structure CallOk (first : List DeviceResult) (c : Call) : Prop where
  reads : ∀ x ∈ c.stage.changes, Reads first c.request x
  nodup : (c.stage.changes.map fun x => x.loaded.id).Nodup

theorem Stage.written_subset {stage : Stage} (h : x ∈ stage.written) : x ∈ stage.changes := by
  cases stage with
  | decided own others => exact h
  | _ => cases h

/-- A row is as at first, or some call has decided it; a row whose lock is held is undecided,
and one call at most holds it. -/
structure Orderly (first : List DeviceResult) (s : State) : Prop where
  ids : s.rows.map (·.id) = first.map (·.id)
  calls : ∀ c ∈ s.calls, CallOk first c
  rows : ∀ r ∈ s.rows, r ∈ first ∨ ∃ c ∈ s.calls, ∃ x ∈ c.stage.written, x.made = r
  written : ∀ c ∈ s.calls, ∀ x ∈ c.stage.written, x.made ∈ s.rows
  once : ∀ {i j : Nat} {c d : Call} {id : Nat}, s.calls[i]? = some c → s.calls[j]? = some d →
    id ∈ c.stage.decides → id ∈ d.stage.decides → i = j
  locks : ∀ c ∈ s.calls, ∀ id ∈ c.stage.locked, ∀ r ∈ s.rows, r.id = id →
    r.review_outcome = none
  exclusive : ∀ {i j : Nat} {c d : Call} {id : Nat}, s.calls[i]? = some c →
    s.calls[j]? = some d → id ∈ c.stage.locked → id ∈ d.stage.locked → i = j

namespace Orderly

variable (h : Orderly first s) (hfirst : (first.map (·.id)).Nodup)

include h

/-- An undecided row is as at first. -/
theorem mem_first (hr : r ∈ s.rows) (hundecided : r.review_outcome = none) : r ∈ first := by
  rcases h.rows r hr with hr | ⟨c, hc, x, hx, rfl⟩
  · exact hr
  · exact absurd hundecided ((h.calls c hc).reads x (Stage.written_subset hx)).made

/-- No call has decided a row that is locked. -/
theorem undecided_of_locked (hc : c ∈ s.calls) {id : Nat} (hlocked : id ∈ c.stage.locked)
    {d : Call} (hd : d ∈ s.calls) : id ∉ d.stage.decides := by
  intro hid
  obtain ⟨y, hy, rfl⟩ := List.mem_map.mp hid
  have hreads := (h.calls d hd).reads y (Stage.written_subset hy)
  exact hreads.made (h.locks c hc _ hlocked y.made (h.written d hd y hy) hreads.id)

include hfirst

theorem nodup : (s.rows.map (·.id)).Nodup := h.ids ▸ hfirst

/-- A row that is locked for a change is still as the change has read it. -/
theorem current (hc : c ∈ s.calls) (hx : x ∈ c.stage.changes)
    (hlocked : x.loaded.id ∈ c.stage.locked) : x.loaded ∈ s.rows := by
  have hreads := (h.calls c hc).reads x hx
  have hid : x.loaded.id ∈ s.rows.map (·.id) := h.ids ▸ List.mem_map_of_mem hreads.1
  obtain ⟨t, ht, hidt⟩ := List.mem_map.mp hid
  have hundecided := h.locks c hc _ hlocked t ht hidt
  have heq : t = x.loaded := eq_of_id hfirst (h.mem_first ht hundecided) hreads.1 hidt
  exact heq ▸ ht

omit hfirst in
/-- A call that leaves the table as it is: what it has set is its own decision, and a lock is
one that it had or that was free, of an undecided row. -/
theorem set (hc : s.calls[i]? = some c) {stage : Stage} (hok : CallOk first ⟨c.request, stage⟩)
    (hbefore : c.stage.written = []) (hafter : stage.written = [])
    (hlocked : ∀ id ∈ stage.locked, id ∈ c.stage.locked ∨
      (s.free id = true ∧ ∀ r ∈ s.rows, r.id = id → r.review_outcome = none)) :
    Orderly first { s with calls := s.calls.set i ⟨c.request, stage⟩ } where
  ids := h.ids
  calls := ListUpdate.forall_mem_set h.calls hok
  rows r hr := by
    refine (h.rows r hr).imp id (ListUpdate.exists_mem_set hc fun hx => ?_)
    rw [hbefore] at hx
    obtain ⟨x, hx, -⟩ := hx
    cases hx
  written := by
    refine ListUpdate.forall_mem_set h.written fun x hx => ?_
    rw [hafter] at hx
    cases hx
  once := by
    intro j k d e id hd he hidd hide
    refine ListUpdate.unique_set (P := fun c : Call => id ∈ c.stage.decides) h.once ?_ hd he hidd
      hide
    intro k e hid
    rw [Stage.decides, hafter] at hid
    cases hid
  locks := by
    refine ListUpdate.forall_mem_set h.locks fun id hid r hr heq => ?_
    rcases hlocked id hid with hid | ⟨-, hundecided⟩
    · exact h.locks c (List.mem_of_getElem? hc) id hid r hr heq
    · exact hundecided r hr heq
  exclusive := by
    -- a lock that is taken was free
    have hother : ∀ {k : Nat} {e : Call} {id : Nat}, s.calls[k]? = some e → id ∈ stage.locked →
        id ∈ e.stage.locked → i = k := by
      intro k e id he hid hide
      rcases hlocked id hid with hid | ⟨hfree, -⟩
      · exact h.exclusive hc he hid hide
      · have hnot := List.all_eq_true.mp hfree e (List.mem_of_getElem? he)
        rw [List.contains_iff_mem.mpr hide] at hnot
        cases hnot
    intro j k d e id hd he hidd hide
    refine ListUpdate.unique_set (P := fun c : Call => id ∈ c.stage.locked) h.exclusive ?_ hd he
      hidd hide
    exact fun hid he hide => hother he hid hide

/-- A commit: each row that it changes is locked. -/
theorem commit (hc : s.calls[i]? = some c) {stage : Stage}
    (hsame : stage.changes = c.stage.changes) (hbefore : c.stage.written = [])
    (hwritten : stage.written = c.stage.changes) (hunlocked : stage.locked = [])
    (hlocked : ∀ x ∈ c.stage.changes, x.loaded.id ∈ c.stage.locked) :
    Orderly first { rows := write stage.written s.rows,
                    calls := s.calls.set i ⟨c.request, stage⟩ } where
  ids := map_id_write.trans h.ids
  calls := by
    refine ListUpdate.forall_mem_set h.calls ?_
    have hok := h.calls c (List.mem_of_getElem? hc)
    exact ⟨hsame ▸ hok.reads, hsame ▸ hok.nodup⟩
  rows r hr := by
    have hmem := List.mem_of_getElem? hc
    rcases mem_write_cases hr with ⟨hr, -⟩ | ⟨x, hx, t, ht, hid, rfl⟩
    · refine (h.rows r hr).imp id (ListUpdate.exists_mem_set hc fun hx => ?_)
      rw [hbefore] at hx
      obtain ⟨x, hx, -⟩ := hx
      cases hx
    · have hset := List.mem_set (List.getElem?_eq_some_iff.mp hc).1 (Call.mk c.request stage)
      refine .inr ⟨_, hset, x, hx, ?_⟩
      rw [hwritten] at hx
      have hcurrent := h.current hfirst hmem hx (hlocked x hx)
      rw [← eq_of_id (h.nodup hfirst) hcurrent ht hid]
      exact ((h.calls c hmem).reads x hx).update.symm
  written := by
    have hmem := List.mem_of_getElem? hc
    have hok := h.calls c hmem
    rw [hwritten]
    refine ListUpdate.forall_mem_set (fun d hd y hy => ?_) fun x hx => ?_
    · refine mem_write_of_notMem (h.written d hd y hy) fun hid => ?_
      obtain ⟨x, hx, hid⟩ := List.mem_map.mp hid
      have hreads := (h.calls d hd).reads y (Stage.written_subset hy)
      refine h.undecided_of_locked hmem (hlocked x hx) hd ?_
      exact List.mem_map.mpr ⟨y, hy, hreads.id.symm.trans hid.symm⟩
    · have hx : x ∈ c.stage.changes := hwritten ▸ hx
      exact mem_write_of_mem hok.nodup (hok.reads x hx) hx
        (h.current hfirst hmem hx (hlocked x hx))
  once := by
    have hmem := List.mem_of_getElem? hc
    have hother : ∀ {k : Nat} {e : Call} {id : Nat}, s.calls[k]? = some e → id ∈ stage.decides →
        id ∉ e.stage.decides := by
      intro k e id he hid
      rw [Stage.decides, hwritten] at hid
      obtain ⟨x, hx, rfl⟩ := List.mem_map.mp hid
      exact h.undecided_of_locked hmem (hlocked x hx) (List.mem_of_getElem? he)
    intro j k d e id hd he hidd hide
    refine ListUpdate.unique_set (P := fun c : Call => id ∈ c.stage.decides) h.once ?_ hd he hidd
      hide
    exact fun hid he hide => absurd hide (hother he hid)
  locks d hd id hid r hr heq := by
    obtain ⟨j, hd⟩ := List.getElem?_of_mem hd
    rcases ListUpdate.getElem?_set_cases hd with ⟨rfl, rfl⟩ | ⟨hj, hd⟩
    · rw [hunlocked] at hid
      cases hid
    · rcases mem_write_cases hr with ⟨hr, -⟩ | ⟨x, hx, t, ht, hidt, rfl⟩
      · exact h.locks d (List.mem_of_getElem? hd) id hid r hr heq
      · -- the row is locked by another call
        rw [hwritten] at hx
        have hsame : x.loaded.id = id := hidt.trans heq
        exact absurd (h.exclusive hd hc hid (hsame ▸ hlocked x hx)) hj
  exclusive := by
    intro j k d e id hd he hidd hide
    refine ListUpdate.unique_set (P := fun c : Call => id ∈ c.stage.locked) h.exclusive ?_ hd he
      hidd hide
    intro k e hid
    rw [hunlocked] at hid
    cases hid

omit hfirst in
theorem call (q : Review) : Orderly first { s with calls := s.calls ++ [⟨q, .asked⟩] } where
  ids := h.ids
  calls := ListUpdate.forall_mem_concat h.calls ⟨List.forall_mem_nil _, List.nodup_nil⟩
  rows r hr := by
    refine (h.rows r hr).imp id ?_
    rintro ⟨c, hc, hx⟩
    exact ⟨c, List.mem_append_left _ hc, hx⟩
  written := ListUpdate.forall_mem_concat h.written (List.forall_mem_nil _)
  once := by
    intro j k d e id
    exact ListUpdate.unique_concat (P := fun c : Call => id ∈ c.stage.decides) h.once
      List.not_mem_nil
  locks := ListUpdate.forall_mem_concat h.locks (List.forall_mem_nil _)
  exclusive := by
    intro j k d e id
    exact ListUpdate.unique_concat (P := fun c : Call => id ∈ c.stage.locked) h.exclusive
      List.not_mem_nil

end Orderly

/-! ## The steps -/

theorem refusal_eq_none (h : q.refusal r = none) : r.review_outcome = none := by
  unfold Review.refusal at h
  split at h
  · cases h
  · assumption

/-- What `decide` comes to: an answer that sets nothing, or its row set. -/
theorem decide_cases {k : Nat} {now : Int} {stage : Stage}
    (h : q.decide rows k now = some stage) :
    (stage.changes = [] ∧ stage.locked = [] ∧ stage.written = []) ∨
      ∃ row ∈ rows, row.review_outcome = none ∧ stage =
        .deciding ⟨row, q.settle now row⟩ (if q.alike then none else some []) [] := by
  unfold Review.decide at h
  split at h
  · split at h
    · cases h
      exact .inl ⟨rfl, rfl, rfl⟩
    · cases h
  · next row hrow =>
    split at h
    · split at h
      · cases h
        exact .inl ⟨rfl, rfl, rfl⟩
      · next hnone =>
        cases h
        have hmem := (List.mem_filter.mp (List.mem_of_getElem? hrow)).1
        exact .inr ⟨row, hmem, refusal_eq_none hnone, rfl⟩
    · cases h
      exact .inl ⟨rfl, rfl, rfl⟩

/-- The others are undecided rows, each once, and not the row itself. -/
theorem mem_alike (h : t ∈ alike rows r) :
    t ∈ rows ∧ t.id ≠ r.id ∧ t.review_outcome = none := by
  unfold alike at h
  split at h
  · obtain ⟨h, hawaiting⟩ := List.mem_filter.mp h
    obtain ⟨hmem, hother⟩ := List.mem_filter.mp h
    refine ⟨hmem, bne_iff_ne.mp (Bool.and_eq_true_iff.mp hother).2, ?_⟩
    have hundecided := (Bool.and_eq_true_iff.mp (Bool.and_eq_true_iff.mp hawaiting).1).1
    exact Option.isNone_iff_eq_none.mp hundecided
  · cases h

theorem nodup_alike (h : (rows.map (·.id)).Nodup) : ((alike rows r).map (·.id)).Nodup := by
  unfold alike
  split
  · exact h.sublist ((List.filter_sublist.trans List.filter_sublist).map _)
  · exact List.nodup_nil

theorem map_decideAlike {now : Nat → Int} :
    (q.decideAlike rows r now).map (fun x => x.loaded.id) = (alike rows r).map (·.id) := by
  rw [Review.decideAlike, List.map_map]
  rfl

/-- What a statement makes of a call, where no UPDATE finds its row decided. -/
inductive Next (s : State) (q : Review) : Stage → Stage → Prop where
  | answered {before stage : Stage} (hbefore : before.written = []) (hchanges : stage.changes = [])
    (hlocked : stage.locked = []) (hwritten : stage.written = []) : Next s q before stage
  | read {row : DeviceResult} (hrow : row ∈ s.rows) (hundecided : row.review_outcome = none)
    (now : Int) : Next s q .asked
      (.deciding ⟨row, q.settle now row⟩ (if q.alike then none else some []) [])
  | flush {id : Nat} (hfree : s.free id = true)
    (hundecided : ∀ r ∈ s.rows, r.id = id → r.review_outcome = none) (own : Change)
    (others : Option (List Change)) (locked : List Nat) :
    Next s q (.deciding own others locked) (.deciding own others (id :: locked))
  | decideAlike (own : Change) (locked : List Nat) (now : Nat → Int) :
    Next s q (.deciding own none locked)
      (.deciding own (some (q.decideAlike s.rows own.made now)) locked)
  | commit {own : Change} {others : List Change} {locked : List Nat}
    (hlocked : ∀ x ∈ own :: others, x.loaded.id ∈ locked) :
    Next s q (.deciding own (some others) locked) (.decided own others)

theorem undecided_flush {id : Nat} (h : undecided s (.act i (.flush id)) = true) :
    ∀ r ∈ s.rows, r.id = id → r.review_outcome = none := by
  intro r hr heq
  have hrow := List.all_eq_true.mp h r hr
  rcases Bool.or_eq_true_iff.mp hrow with hne | hnone
  · exact absurd heq (bne_iff_ne.mp hne)
  · exact Option.isNone_iff_eq_none.mp hnone

theorem next_of_next {before stage : Stage} {move : Move}
    (hallowed : undecided s (.act i move) = true) (h : s.next q before move = some stage) :
    Next s q before stage := by
  unfold State.next at h
  split at h
  · rcases decide_cases h with ⟨hchanges, hlocked, hwritten⟩ | ⟨row, hrow, hundecided, rfl⟩
    · exact .answered rfl hchanges hlocked hwritten
    · exact .read hrow hundecided _
  · split at h
    · next hcond =>
      cases h
      have hfree := (Bool.and_eq_true_iff.mp hcond).2
      exact .flush hfree (undecided_flush hallowed) _ _ _
    · cases h
  · split at h
    · cases h
      exact .decideAlike _ _ _
    · cases h
  · split at h
    · next hcond =>
      cases h
      refine .commit fun x hx => ?_
      exact List.contains_iff_mem.mp (List.all_eq_true.mp hcond x hx)
    · cases h
  · cases h
    exact .answered rfl rfl rfl rfl
  · cases h
    exact .answered rfl rfl rfl rfl
  · cases h

namespace Orderly

/-- A statement that writes nothing. -/
theorem keep (h : Orderly first s) (hc : s.calls[i]? = some c) {stage : Stage}
    (hok : CallOk first ⟨c.request, stage⟩) (hbefore : c.stage.written = [])
    (hafter : stage.written = []) (hlocked : ∀ id ∈ stage.locked, id ∈ c.stage.locked ∨
      (s.free id = true ∧ ∀ r ∈ s.rows, r.id = id → r.review_outcome = none)) :
    Orderly first { rows := write stage.written s.rows,
                    calls := s.calls.set i ⟨c.request, stage⟩ } := by
  rw [hafter, write_nil]
  exact h.set hc hok hbefore hafter hlocked

theorem act (h : Orderly first s) (hfirst : (first.map (·.id)).Nodup)
    (hc : s.calls[i]? = some c) {stage : Stage} (hnext : Next s c.request c.stage stage) :
    Orderly first { rows := write stage.written s.rows,
                    calls := s.calls.set i ⟨c.request, stage⟩ } := by
  have hok := h.calls c (List.mem_of_getElem? hc)
  obtain ⟨q, before⟩ := c
  cases hnext with
  | answered hbefore hchanges hlocked hwritten =>
    refine h.keep hc ⟨?_, ?_⟩ hbefore hwritten fun id hid => ?_
    · intro x hx
      rw [hchanges] at hx
      cases hx
    · rw [hchanges]
      exact List.nodup_nil
    · rw [hlocked] at hid
      cases hid
  | @read row hrow hundecided now =>
    have hchanges : Stage.changes (.deciding ⟨row, q.settle now row⟩
        (if q.alike then none else some []) []) = [⟨row, q.settle now row⟩] := by
      cases q.alike <;> rfl
    refine h.keep hc ⟨?_, ?_⟩ rfl rfl (List.forall_mem_nil _)
    · show ∀ x ∈ Stage.changes _, _
      rw [hchanges]
      intro x hx
      obtain rfl := List.mem_singleton.mp hx
      exact ⟨h.mem_first hrow hundecided, hundecided, now, rfl⟩
    · show ((Stage.changes _).map _).Nodup
      rw [hchanges]
      exact List.nodup_singleton _
  | @flush id hfree hundecided own others locked =>
    refine h.keep hc ⟨hok.reads, hok.nodup⟩ rfl rfl fun j hj => ?_
    rcases List.mem_cons.mp hj with rfl | hj
    · exact .inr ⟨hfree, hundecided⟩
    · exact .inl hj
  | decideAlike own locked now =>
    have hown := hok.reads own (List.mem_cons_self ..)
    refine h.keep hc ⟨?_, ?_⟩ rfl rfl fun id hid => .inl hid
    · intro x hx
      rcases List.mem_cons.mp hx with rfl | hx
      · exact hown
      · obtain ⟨other, hother, rfl⟩ := List.mem_map.mp hx
        obtain ⟨hmem, -, hundecided⟩ := mem_alike hother
        exact ⟨h.mem_first hmem hundecided, hundecided, now other.id, rfl⟩
    · show (own.loaded.id :: (q.decideAlike s.rows own.made now).map _).Nodup
      rw [map_decideAlike]
      refine List.nodup_cons.mpr ⟨fun hid => ?_, nodup_alike (h.nodup hfirst)⟩
      obtain ⟨other, hother, hsame⟩ := List.mem_map.mp hid
      exact (mem_alike hother).2.1 (hsame.trans hown.id.symm)
  | commit hlocked => exact h.commit hfirst hc rfl rfl rfl rfl hlocked

theorem step (h : Orderly first s) (hfirst : (first.map (·.id)).Nodup) {a : Action}
    (hallowed : undecided s a = true) (hstep : s.step a = some s') : Orderly first s' := by
  cases a with
  | call q =>
    obtain rfl := Option.some.inj hstep
    exact h.call q
  | act i move =>
    obtain ⟨c, hc, hnext⟩ := Option.bind_eq_some_iff.mp hstep
    obtain ⟨stage, hstage, rfl⟩ := Option.map_eq_some_iff.mp hnext
    exact h.act hfirst hc (next_of_next hallowed hstage)

theorem init (first : List DeviceResult) : Orderly first ⟨first, []⟩ where
  ids := rfl
  calls := List.forall_mem_nil _
  rows _ hr := .inl hr
  written := List.forall_mem_nil _
  once hc := by cases hc
  locks := List.forall_mem_nil _
  exclusive hc := by cases hc

end Orderly

/-! ## Calls that another error ends -/

/-- No call has failed on a row that a call has decided. -/
def NoneFailed (s : State) : Prop :=
  ∀ c ∈ s.calls, ∀ d ∈ s.calls, ∀ id ∈ c.stage.decides, d.stage.failedOn id = false

/-- What `decide` answers has neither decided a row nor failed on one. -/
theorem decide_ends {k : Nat} {now : Int} {stage : Stage} (h : q.decide rows k now = some stage) :
    stage.decides = [] ∧ ∀ id, stage.failedOn id = false := by
  unfold Review.decide at h
  split at h
  · split at h
    · cases h
      exact ⟨rfl, fun _ => rfl⟩
    · cases h
  · split at h
    · split at h
      · cases h
        exact ⟨rfl, fun _ => rfl⟩
      · cases h
        exact ⟨rfl, fun _ => rfl⟩
    · cases h
      exact ⟨rfl, fun _ => rfl⟩

/-- Rows are decided by a commit. -/
theorem decides_of_next {before stage : Stage} {move : Move} {id : Nat}
    (h : s.next q before move = some stage) (hid : id ∈ stage.decides) :
    move = .commit ∧ ∃ x ∈ before.changes, x.loaded.id = id := by
  unfold State.next at h
  split at h
  · rw [(decide_ends h).1] at hid
    cases hid
  · split at h
    · cases h
      cases hid
    · cases h
  · split at h
    · cases h
      cases hid
    · cases h
  · split at h
    · cases h
      obtain ⟨x, hx, rfl⟩ := List.mem_map.mp hid
      exact ⟨rfl, x, hx, rfl⟩
    · cases h
  · cases h
    cases hid
  · cases h
    cases hid
  · cases h

/-- A call fails on the row it has read. -/
theorem failedOn_of_next {before stage : Stage} {move : Move} {id : Nat}
    (h : s.next q before move = some stage) (hid : stage.failedOn id = true) :
    move = .fail ∧ ∃ own others locked, before = .deciding own others locked ∧
      own.loaded.id = id := by
  unfold State.next at h
  split at h
  · rw [(decide_ends h).2] at hid
    cases hid
  · split at h
    · cases h
      cases hid
    · cases h
  · split at h
    · cases h
      cases hid
    · cases h
  · split at h
    · cases h
      cases hid
    · cases h
  · cases h
    cases hid
  · cases h
    exact ⟨rfl, _, _, _, rfl, Option.some.inj (beq_iff_eq.mp hid)⟩
  · cases h

theorem NoneFailed.step (h : NoneFailed s) {a : Action} (hallowed : answered s a = true)
    (hstep : s.step a = some s') : NoneFailed s' := by
  cases a with
  | call q =>
    obtain rfl := Option.some.inj hstep
    intro c hc d hd id hid
    rcases List.mem_append.mp hc with hc | hc
    · rcases List.mem_append.mp hd with hd | hd
      · exact h c hc d hd id hid
      · obtain rfl := List.mem_singleton.mp hd
        rfl
    · obtain rfl := List.mem_singleton.mp hc
      cases hid
  | act i move =>
    obtain ⟨c₀, hc₀, hnext⟩ := Option.bind_eq_some_iff.mp hstep
    obtain ⟨stage, hstage, rfl⟩ := Option.map_eq_some_iff.mp hnext
    intro c hc d hd id hid
    refine Bool.eq_false_iff.mpr fun hfailed => ?_
    rcases List.mem_or_eq_of_mem_set hc with hc | rfl
    · rcases List.mem_or_eq_of_mem_set hd with hd | rfl
      · rw [h c hc d hd id hid] at hfailed
        cases hfailed
      · -- the call fails on a row that was decided
        obtain ⟨rfl, own, others, locked, hbefore, rfl⟩ := failedOn_of_next hstage hfailed
        simp only [answered, hc₀, Option.map_some, hbefore] at hallowed
        have hnot := List.all_eq_true.mp hallowed c hc
        rw [Bool.not_eq_true', ← Bool.not_eq_true, List.contains_iff_mem] at hnot
        exact hnot hid
    · obtain ⟨rfl, x, hx, rfl⟩ := decides_of_next hstage hid
      rcases List.mem_or_eq_of_mem_set hd with hd | rfl
      · -- the call decides a row that one has failed on
        simp only [answered, hc₀, Option.all_some] at hallowed
        have hnot := List.all_eq_true.mp (List.all_eq_true.mp hallowed x hx) d hd
        rw [hfailed] at hnot
        cases hnot
      · obtain ⟨hmove, -⟩ := failedOn_of_next hstage hfailed
        cases hmove

namespace Orderly

/-- What the invariants say of the calls that have ended. -/
theorem decidedOnce (h : Orderly first s) (hnone : NoneFailed s) : DecidedOnce first s where
  once := h.once
  recorded c hc x hx :=
    ⟨(h.calls c hc).reads x (Stage.written_subset hx), h.written c hc x hx⟩
  refused := by
    intro i j c d id hc hd hne hid hpicked hended
    cases hstage : d.stage with
    | asked =>
      rw [hstage] at hended
      cases hended
    | deciding own others locked =>
      rw [hstage] at hended
      cases hended
    | decided own others =>
      -- two calls would have decided the row
      rw [hstage] at hpicked
      obtain rfl := Option.some.inj hpicked
      refine absurd (h.once hc hd hid ?_) hne
      rw [hstage]
      exact List.mem_cons_self ..
    | notFound =>
      rw [hstage] at hpicked
      cases hpicked
    | refused other message =>
      rw [hstage] at hpicked
      obtain rfl := Option.some.inj hpicked
      exact ⟨message, rfl⟩
    | failed other =>
      rw [hstage] at hpicked
      have hfailed := hnone c (List.mem_of_getElem? hc) d (List.mem_of_getElem? hd) id hid
      rw [hstage, Stage.failedOn, show other = some id from hpicked, beq_self_eq_true] at hfailed
      cases hfailed
  untouched r hr hother := by
    rcases h.rows r hr with hfirst | ⟨c, hc, x, hx, rfl⟩
    · exact hfirst
    · refine absurd (List.mem_map.mpr ⟨x, hx, ?_⟩) (hother c hc)
      exact ((h.calls c hc).reads x (Stage.written_subset hx)).id.symm
  ids := h.ids

end Orderly

/-! ## Runs -/

/-- **Each device result is decided once**, in every run in which no UPDATE finds its row
decided and no call on a row that another decides ends on another error. -/
theorem decided_once (hfirst : (first.map (·.id)).Nodup)
    (h : (reviews first).Reachable apart s) : DecidedOnce first s := by
  have hboth : Orderly first s ∧ NoneFailed s := by
    refine h.invariant (I := fun s => Orderly first s ∧ NoneFailed s) ?_
      fun s a s' _ hallowed hinv hstep => ?_
    · rintro s rfl
      exact ⟨.init first, fun c hc => by cases hc⟩
    · obtain ⟨hundecided, hanswered⟩ := Bool.and_eq_true_iff.mp hallowed
      exact ⟨hinv.1.step hfirst hundecided hstep, hinv.2.step hanswered hstep⟩
  exact hboth.1.decidedOnce hboth.2

section Run

/-- A device that failed on a command it rejected. -/
def rejectedResult : DeviceResult :=
  { resultOf 1 0 .failed with
    commands_verified := some 0
    transcript := some ⟨[⟨"snmp-server".toList, .rejected, [], .none, []⟩], [], []⟩ }

/-- The owner of the job, and an admin. -/
def ownersReview : Review := ⟨⟨0, false⟩, 1, [], none, .rejected, [], false⟩

def adminsReview : Review := ⟨⟨1, true⟩, 1, [], none, .confirmed, "on the device".toList, false⟩

/-- The second of two calls is refused. -/
theorem decided_once_second : ∃ s, DecidedOnce [rejectedResult] s ∧
    (s.rows.all fun r => r.reviewed_by == some 1 && r.status == value .success) = true ∧
    s.calls.map (fun c => c.stage.decides) = [[0], []] := by
  have hrun : ((reviews [rejectedResult]).exec apart ⟨[rejectedResult], []⟩
      [.call adminsReview, .call ownersReview, .act 0 (.decide 0 10), .act 0 (.flush 0),
        .act 0 .commit, .act 1 (.decide 0 11)]).any (fun s =>
      (s.rows.all fun r => r.reviewed_by == some 1 && r.status == value .success) &&
        s.calls.map (fun c => c.stage.decides) == [[0], []]) = true := by
    decide +kernel
  obtain ⟨s, hreach, hs⟩ :=
    System.exists_reachable (S := reviews [rejectedResult]) (by exact rfl) hrun
  obtain ⟨hrows, hcalls⟩ := Bool.and_eq_true_iff.mp hs
  exact ⟨s, decided_once (List.nodup_singleton _) hreach, hrows, beq_iff_eq.mp hcalls⟩

/-- Both calls read the row undecided.  The row says that the owner rejected the device, which
is a success, for the admin's reason. -/
theorem not_decided_once : ∃ s, (reviews [rejectedResult]).Reachable System.always s ∧
    ¬ DecidedOnce [rejectedResult] s ∧
    s.rows.map (fun r => (r.status, r.review_outcome, r.review_comment, r.reviewed_by)) =
      [(value .success, some "rejected".toList, some "on the device".toList, some 0)] := by
  have hrun : ((reviews [rejectedResult]).exec System.always ⟨[rejectedResult], []⟩
      [.call adminsReview, .call ownersReview, .act 0 (.decide 0 10), .act 1 (.decide 0 11),
        .act 0 (.flush 0), .act 0 .commit, .act 1 (.flush 0), .act 1 .commit]).any (fun s =>
      (s.calls.map (fun c => c.stage.decides) == [[0], [0]]) &&
      s.rows.map (fun r => (r.status, r.review_outcome, r.review_comment, r.reviewed_by)) ==
        [(value .success, some "rejected".toList, some "on the device".toList, some 0)]) =
      true := by
    decide +kernel
  obtain ⟨s, hreach, hs⟩ :=
    System.exists_reachable (S := reviews [rejectedResult]) (by exact rfl) hrun
  obtain ⟨hcalls, hrows⟩ := Bool.and_eq_true_iff.mp hs
  refine ⟨s, hreach, fun honce => ?_, beq_iff_eq.mp hrows⟩
  have hdecides := beq_iff_eq.mp hcalls
  obtain ⟨c, d, hboth, hc, hd⟩ : ∃ c d, s.calls = [c, d] ∧ c.stage.decides = [0] ∧
      d.stage.decides = [0] := by
    obtain ⟨c, l, hl, hc, hrest⟩ := List.map_eq_cons_iff.mp hdecides
    obtain ⟨d, l', rfl, hd, hnil⟩ := List.map_eq_cons_iff.mp hrest
    obtain rfl := List.map_eq_nil_iff.mp hnil
    exact ⟨c, d, hl, hc, hd⟩
  have hfirst : s.calls[0]? = some c := by rw [hboth]; rfl
  have hsecond : s.calls[1]? = some d := by rw [hboth]; rfl
  have hsame := honce.once hfirst hsecond (hc ▸ List.mem_singleton_self 0)
    (hd ▸ List.mem_singleton_self 0)
  cases hsame

/-- Two devices of a job that failed alike. -/
def alikeResults : List DeviceResult :=
  [rejectedResult, { rejectedResult with id := 1, device_ip := ['1'] }]

def ownersAlike : Review := { ownersReview with alike := true }

def adminsAlike : Review := { adminsReview with ip := ['1'], alike := true }

/-- Each of two calls has the lock the other waits for.  PostgreSQL ends the admin's, on a
device the owner's then decides: it has failed, and was not refused. -/
theorem not_decided_once_deadlock : ∃ s, (reviews alikeResults).Reachable undecided s ∧
    ¬ DecidedOnce alikeResults s := by
  have hrun : ((reviews alikeResults).exec undecided ⟨alikeResults, []⟩
      [.call ownersAlike, .call adminsAlike, .act 0 (.decide 0 10), .act 1 (.decide 0 11),
        .act 0 (.flush 0), .act 1 (.flush 1), .act 0 (.decideAlike fun _ => 12),
        .act 1 (.decideAlike fun _ => 13), .act 1 .fail, .act 0 (.flush 1),
        .act 0 .commit]).any (fun s =>
      s.calls[0]?.any (fun c => c.stage.decides.contains 1) &&
        s.calls[1]?.any fun c => c.stage.failedOn 1) = true := by
    decide +kernel
  obtain ⟨s, hreach, hs⟩ := System.exists_reachable (S := reviews alikeResults) (by exact rfl) hrun
  obtain ⟨hdecides, hfailed⟩ := Bool.and_eq_true_iff.mp hs
  obtain ⟨c, hc, hdecides⟩ := (Option.any_eq_true _ _).mp hdecides
  obtain ⟨d, hd, hfailed⟩ := (Option.any_eq_true _ _).mp hfailed
  refine ⟨s, hreach, fun honce => ?_⟩
  have hstage : d.stage = .failed (some 1) := by
    cases hstage : d.stage with
    | failed other =>
      rw [hstage] at hfailed
      rw [beq_iff_eq.mp hfailed]
    | _ =>
      rw [hstage] at hfailed
      cases hfailed
  obtain ⟨message, hrefused⟩ := honce.refused hc hd Nat.zero_ne_one
    (List.contains_iff_mem.mp hdecides) (by rw [hstage]; rfl) (by rw [hstage]; rfl)
  rw [hstage] at hrefused
  cases hrefused

end Run

end Results
end NetRollout
