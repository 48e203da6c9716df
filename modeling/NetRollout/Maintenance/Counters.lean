import NetRollout.Jobs.Books
import NetRollout.Maintenance.Pause

/-!
# Redis and the orchestrator

The counters, hashes and listings in the Redis in use, against the jobs in the table, while
submits, cancels, drains, the dispatcher, ends of jobs and `switch_redis()` calls go on at
once and no Redis fails.

## What goes wrong, and when

`JobStore.add` is called after the job entered the table, outside the lock: a drain or a
cancel can record the job, and tell Redis that it is gone, before `add` has told Redis that
it is there.  A switch looks at the table: a job that left it, and whose end is still being
saved, then takes its count from the Redis switched to.

`orderly` is the condition on the steps under which none of this happens: nothing is taken
back before it was sent, a queued job whose end is recorded is taken out of Redis too, and
the client is replaced, and the server cleared, only while nothing is owed to Redis.
-/

namespace NetRollout
namespace Maintenance

open Jobs (Counter Key JobId Job Redis)

variable {Target Device : Type}

/-! ## The conditions -/

/-- The client is replaced, and what its server held is not cleared. -/
def Switch.uncleared : Switch → Bool
  | swapped _ | switched _ | signedOut _ => true
  | _ => false

/-- No job is in the table, and no thread has commands for one that left it. -/
def settled (rollouts : Jobs.State Target Device) : Bool :=
  rollouts.jobs.all fun job => !job.listed && (job.toCome 0).isEmpty

/-- No Redis fails.  Ids are never used twice: no server holds that of a job to come. -/
def answered (s : Site Target Device) : Action Target Device → Bool
  | .rollouts a => s.rollouts.answered a
  | .on k e => match s.switches[k]?, e with
    | some (.switched _), .raise => false
    | some (.signedOut _), .raise => false
    | _, .swap server => server.queue.all (· < s.rollouts.jobs.length)
    | _, _ => true
  | _ => true

/-- Nothing is taken back before it was sent, and Redis is switched while nothing is owed. -/
def inOrder (s : Site Target Device) : Action Target Device → Bool
  | .rollouts a => s.rollouts.inOrder a
  | .on k e => match s.switches[k]?, e with
    | some (.swapped _), .raise => false
    | _, .swap server =>
      settled s.rollouts && (0 ≤ server.count .pending && 0 ≤ server.count .active)
    | _, .clear => settled s.rollouts
    | _, _ => true
  | _ => true

def orderly (s : Site Target Device) (a : Action Target Device) : Bool :=
  answered s a && inOrder s a

/-! ## What Redis and the table agree on -/

/-- No call about the job is under way. -/
def atRest (job : Job Target Device) : Bool :=
  (job.submit = .returned || job.submit = .raised) &&
    (job.worker = .unclaimed || job.worker = .telling || job.worker = .running ||
      job.worker = .over)

/-- In the table and started: what `counts` has running. -/
def started (job : Job Target Device) : Bool := job.listed && job.claimant.isSome

namespace Site

variable (s : Site Target Device)

/-- No operation is in progress. -/
def quiescent : Bool :=
  s.rollouts.jobs.all atRest && s.rollouts.dispatcher.toCome.isEmpty &&
    s.switches.all (· = .over)

/-- **Redis and the table agree.** -/
structure Agrees : Prop where
  nonneg : ∀ k, 0 ≤ s.rollouts.redis.count k
  pending : s.quiescent = true → s.rollouts.redis.count .pending = s.rollouts.jobs.countP Job.queued
  active : s.quiescent = true → s.rollouts.redis.count .active = s.rollouts.jobs.countP started
  keys : s.quiescent = true → ∀ (j : JobId) (k : Key), s.rollouts.redis.has k j = true ↔
    ∃ job, s.rollouts.jobs[j]? = some job ∧ job.listed = true

end Site

/-! ## The invariant -/

/-- The books of the orchestrator, and what the Redis in use makes of them: it counts as
much, and holds nothing else once it is cleared. -/
structure Ledgers (s : Site Target Device) : Prop where
  booked : Jobs.Booked s.rollouts
  counts : ∀ k, s.rollouts.books k ≤ s.rollouts.redis.count k
  cleared : (∀ sw ∈ s.switches, sw.uncleared = false) → Jobs.Exact s.rollouts

section Settled

variable {r : Jobs.State Target Device}

theorem settled_of_mem (h : settled r = true) {job : Job Target Device} (hjob : job ∈ r.jobs) :
    job.listed = false ∧ job.toCome 0 = [] := by
  have hall := List.all_eq_true.mp h job hjob
  simpa using hall

/-- Nothing is owed. -/
theorem books_of_settled (hb : Jobs.Booked r) (h : settled r = true) (k : Counter) :
    r.books k = 0 := by
  have htotal : r.total (Job.worth k) = 0 := by
    refine List.sum_eq_zero fun x hx => ?_
    obtain ⟨job, hjob, rfl⟩ := List.mem_map.mp hx
    obtain ⟨hlisted, htoCome⟩ := settled_of_mem h hjob
    rw [Job.worth, Job.target, hlisted, htoCome]
    rfl
  have hdispatcher : r.dispatcher.toCome = [] := by
    cases hstarting : r.dispatcher with
    | starting j rest =>
      -- a job about to be started is in the table
      obtain ⟨-, job, hjob, hworker, hclaimant⟩ := hb.starting j rest hstarting
      have hruns : job.ran = true := by rw [Job.ran, hclaimant, decide_eq_true rfl]
      have hlisted := ((hb.shaped j job hjob).runner hruns).2 (by rw [hworker]; rfl)
      rw [(settled_of_mem h (List.mem_of_getElem? hjob)).1] at hlisted
      cases hlisted
    | _ => rfl
  rw [Jobs.State.books, htotal, hdispatcher]
  rfl

/-- The client replaced by one to another server, while nothing is owed. -/
theorem booked_swap (hb : Jobs.Booked r) (h : settled r = true) {server : Redis}
    (hqueue : ∀ j ∈ server.queue, j < r.jobs.length) : Jobs.Booked { r with redis := server } where
  staged := hb.staged
  shaped := hb.shaped
  starting := hb.starting
  entries j hj := by
    have hnone (job : Job Target Device) (hjob : r.jobs[j]? = some job)
        (hlisted : job.listed = true) : job.submit = .returned := by
      rw [(settled_of_mem h (List.mem_of_getElem? hjob)).1] at hlisted
      cases hlisted
    rcases hj with hj | hj
    · exact ⟨hqueue j hj, hnone⟩
    · exact ⟨(hb.entries j (.inr hj)).1, hnone⟩

theorem exact_clear (hb : Jobs.Booked r) (h : settled r = true) :
    Jobs.Exact { r with redis := .empty } where
  count k := (books_of_settled hb h k).symm
  keys j job k hjob := by
    obtain ⟨hlisted, htoCome⟩ := settled_of_mem h (List.mem_of_getElem? hjob)
    rw [Job.keyed, hlisted, Job.toCome_eq_nil htoCome j]
    cases k <;> rfl
  fresh j k _ := by cases k <;> rfl

end Settled

/-! ## The step lemma -/

section Steps

variable {s s' : Site Target Device}

/-- **What a step of a switch does to the orchestrator**: another Redis comes into use, it is
cleared, or the flag is set, cleared, or left. -/
theorem switch_effect {sw sw' : Switch} {e : SwitchEvent} {r r' : Jobs.State Target Device}
    (h : sw.step r e = some (sw', r')) :
    (∃ server, e = .swap server ∧ sw'.uncleared = true ∧ r' = { r with redis := server }) ∨
    (e = .clear ∧ r' = { r with redis := .empty }) ∨
    ((∃ paused, r' = { r with paused := paused }) ∧
      (sw.uncleared = true → e = .raise ∨ sw'.uncleared = true)) := by
  unfold Switch.step at h
  split at h <;> cases h
  case h_3 was server => exact .inl ⟨server, rfl, rfl, rfl⟩
  case h_6 was => exact .inr (.inl ⟨rfl, rfl⟩)
  case h_11 was =>
    refine .inr (.inr ⟨?_, nofun⟩)
    cases was
    · exact ⟨false, rfl⟩
    · exact ⟨r.paused, rfl⟩
  case h_1 was => exact .inr (.inr ⟨⟨true, rfl⟩, nofun⟩)
  case h_2 was => exact .inr (.inr ⟨⟨r.paused, rfl⟩, nofun⟩)
  case h_4 was => exact .inr (.inr ⟨⟨r.paused, rfl⟩, fun _ => .inr rfl⟩)
  case h_5 was => exact .inr (.inr ⟨⟨r.paused, rfl⟩, fun _ => .inr rfl⟩)
  all_goals exact .inr (.inr ⟨⟨r.paused, rfl⟩, fun _ => .inl rfl⟩)

theorem ledgers_init (maxConcurrent : Nat) :
    Ledgers (.init maxConcurrent : Site Target Device) where
  booked := .init maxConcurrent
  counts k := by cases k <;> exact le_refl 0
  cleared _ := .init maxConcurrent

/-- A step that touches neither the jobs nor Redis. -/
theorem Ledgers.beside (h : Ledgers s) (paused : Bool)
    (hrollouts : s'.rollouts = { s.rollouts with paused := paused })
    (hswitches : (∀ sw ∈ s'.switches, sw.uncleared = false) →
      ∀ sw ∈ s.switches, sw.uncleared = false) : Ledgers s' := by
  constructor
  · rw [hrollouts]
    exact ⟨h.booked.staged, h.booked.shaped, h.booked.starting, h.booked.entries⟩
  · rw [hrollouts]
    exact h.counts
  · intro hcleared
    rw [hrollouts]
    have hexact := h.cleared (hswitches hcleared)
    exact ⟨hexact.count, hexact.keys, hexact.fresh⟩

/-- A step of a `switch_redis()` call. -/
theorem Ledgers.on {k : Nat} {e : SwitchEvent} {sw sw' : Switch} {r : Jobs.State Target Device}
    (h : Ledgers s) (hanswered : answered s (.on k e) = true) (horder : inOrder s (.on k e) = true)
    (hk : s.switches[k]? = some sw) (hstep : sw.step s.rollouts e = some (sw', r)) :
    Ledgers { s with switches := s.switches.set k sw', rollouts := r } := by
  have hself : sw' ∈ s.switches.set k sw' := List.mem_set (List.getElem?_eq_some_iff.mp hk).1 _
  rcases switch_effect hstep with
    ⟨server, rfl, huncleared, rfl⟩ | ⟨rfl, rfl⟩ | ⟨⟨paused, rfl⟩, hstays⟩
  · simp only [answered, inOrder] at hanswered horder
    have hqueue : ∀ j ∈ server.queue, j < s.rollouts.jobs.length := by
      simpa [hk] using hanswered
    obtain ⟨hsettled, hpending, hactive⟩ :
        settled s.rollouts = true ∧ 0 ≤ server.count .pending ∧ 0 ≤ server.count .active := by
      simpa [hk] using horder
    constructor
    · exact booked_swap h.booked hsettled hqueue
    · intro c
      show s.rollouts.books c ≤ server.count c
      rw [books_of_settled h.booked hsettled]
      cases c
      · exact hpending
      · exact hactive
    · intro hcleared
      rw [hcleared sw' hself] at huncleared
      cases huncleared
  · have hsettled : settled s.rollouts = true := by simpa [inOrder, hk] using horder
    constructor
    · have hempty : ∀ j ∈ Redis.empty.queue, j < s.rollouts.jobs.length := nofun
      exact booked_swap h.booked hsettled hempty
    · exact fun c => (books_of_settled h.booked hsettled c).le
    · exact fun _ => exact_clear h.booked hsettled
  · have hremains : sw.uncleared = true → sw'.uncleared = true := by
      intro huncleared
      rcases hstays huncleared with rfl | hstays
      · -- an uncleared server is not left behind
        cases sw with
        | swapped was => simp [inOrder, hk] at horder
        | switched was => simp [answered, hk] at hanswered
        | signedOut was => simp [answered, hk] at hanswered
        | _ => cases huncleared
      · exact hstays
    refine h.beside paused rfl fun hcleared other hother => ?_
    by_contra huncleared
    rw [Bool.not_eq_false] at huncleared
    obtain ⟨c, hc, hstill⟩ := ListUpdate.exists_mem_set (P := fun sw => sw.uncleared = true) hk
      hremains ⟨other, hother, huncleared⟩
    rw [hcleared c hc] at hstill
    cases hstill

variable [DecidableEq Target]

/-- **The step lemma.** -/
theorem Ledgers.step {a : Action Target Device} (h : Ledgers s) (hallowed : orderly s a = true)
    (hstep : s.step a = some s') : Ledgers s' := by
  obtain ⟨hanswered, horder⟩ := Bool.and_eq_true_iff.mp hallowed
  cases a with
  | rollouts a =>
    simp only [Site.step] at hstep
    split at hstep
    · cases hstep
    · obtain ⟨r, hr, rfl⟩ := Option.map_eq_some_iff.mp hstep
      constructor
      · exact h.booked.step hanswered horder hr
      · intro k
        have hconserved := h.booked.conserved hanswered horder hr k
        have hcounts := h.counts k
        show r.books k ≤ r.redis.count k
        omega
      · exact fun hcleared => (h.cleared hcleared).step h.booked hanswered horder hr
  | enter =>
    obtain ⟨g, hg, rfl⟩ := Option.map_eq_some_iff.mp hstep
    exact h.beside s.rollouts.paused rfl fun hcleared => hcleared
  | leave =>
    simp only [Site.step] at hstep
    split at hstep <;> cases hstep
    exact h.beside s.rollouts.paused rfl fun hcleared => hcleared
  | begin_ =>
    obtain ⟨g, hg, rfl⟩ := Option.map_eq_some_iff.mp hstep
    exact h.beside true rfl fun hcleared => hcleared
  | lock =>
    obtain ⟨g, hg, rfl⟩ := Option.map_eq_some_iff.mp hstep
    exact h.beside s.rollouts.paused rfl fun hcleared => hcleared
  | end_ =>
    simp only [Site.step] at hstep
    split at hstep <;> cases hstep
    exact h.beside false rfl fun hcleared => hcleared
  | switch =>
    cases hstep
    refine h.beside s.rollouts.paused rfl fun hcleared sw hsw => ?_
    exact hcleared sw (List.mem_append_left _ hsw)
  | on k e =>
    simp only [Site.step, Option.bind_eq_bind, Option.bind_eq_some_iff] at hstep
    obtain ⟨sw, hk, ⟨sw', r⟩, hsw, heq⟩ := hstep
    cases heq
    exact h.on hanswered horder hk hsw

/-- **The run lemma.** -/
theorem ledgers_of_orderly (h : (site Target Device).Reachable orderly s) : Ledgers s :=
  h.invariant (by rintro s ⟨maxConcurrent, rfl⟩; exact ledgers_init maxConcurrent)
    fun _ _ _ _ hallowed hs hstep => hs.step hallowed hstep

omit [DecidableEq Target] in
/-- At rest, a job has nothing to come, and it has been started by the dispatcher or not at
all. -/
theorem toCome_of_atRest {job : Job Target Device} (hjob : Jobs.Staged job)
    (h : atRest job = true) (j : JobId) :
    job.toCome j = [] ∧ (job.listed = true → job.ran = job.claimant.isSome) := by
  simp only [atRest, Bool.and_eq_true, Bool.or_eq_true, decide_eq_true_eq] at h
  obtain ⟨hsubmit, hworker⟩ := h
  have hroute := hjob.route
  have hleft := hjob.left
  constructor
  · rcases hsubmit with hsubmit | hsubmit <;>
      rcases hworker with ((hw | hw) | hw) | hw <;>
      rw [Job.toCome, hsubmit, hw] <;> rfl
  · intro hlisted
    rw [hlisted] at hleft
    rcases hworker with ((hw | hw) | hw) | hw
    · rw [hw] at hroute
      have hnone : job.claimant = none := hroute
      rw [Job.ran, hnone]
      rfl
    · rw [hw] at hroute
      have hsome : job.claimant = some .dispatcher := hroute
      rw [Job.ran, hsome, decide_eq_true rfl]
      rfl
    · rw [hw] at hroute
      have hsome : job.claimant = some .dispatcher := hroute
      rw [Job.ran, hsome, decide_eq_true rfl]
      rfl
    · rw [hw] at hleft
      cases hleft rfl

omit [DecidableEq Target] in
/-- With nothing in progress, the books are the table's counts. -/
theorem books_of_quiescent (h : Jobs.Booked s.rollouts) (hquiescent : s.quiescent = true) :
    s.rollouts.books .pending = s.rollouts.jobs.countP Job.queued ∧
      s.rollouts.books .active = s.rollouts.jobs.countP started := by
  simp only [Site.quiescent, Bool.and_eq_true, List.all_eq_true, List.isEmpty_iff] at hquiescent
  obtain ⟨⟨hjobs, hdispatcher⟩, -⟩ := hquiescent
  have hworth (job : Job Target Device) (hjob : job ∈ s.rollouts.jobs) (k : Counter) :
      job.worth k = job.target k ∧ (job.listed = true → job.ran = job.claimant.isSome) := by
    obtain ⟨hnone, hran⟩ := toCome_of_atRest (h.staged job hjob) (hjobs job hjob) 0
    rw [Job.worth, hnone, Jobs.delta_nil, sub_zero]
    exact ⟨rfl, hran⟩
  rw [Jobs.State.books, Jobs.State.books, hdispatcher, Jobs.delta_nil, Jobs.delta_nil, sub_zero,
    sub_zero]
  constructor
  · refine ListUpdate.sum_map_eq_countP fun job hjob => ?_
    obtain ⟨hsame, hran⟩ := hworth job hjob .pending
    rw [hsame, Job.target, Job.queued]
    cases hlisted : job.listed
    · rfl
    · rw [hran hlisted]
      cases job.claimant <;> rfl
  · refine ListUpdate.sum_map_eq_countP fun job hjob => ?_
    obtain ⟨hsame, hran⟩ := hworth job hjob .active
    rw [hsame, Job.target, started]
    cases hlisted : job.listed
    · rfl
    · rw [hran hlisted]
      cases job.claimant <;> rfl

/-- **Redis and the table agree in every orderly run.** -/
theorem agrees_of_orderly (h : (site Target Device).Reachable orderly s) : s.Agrees := by
  have hledgers := ledgers_of_orderly h
  have hcleared (hquiescent : s.quiescent = true) : Jobs.Exact s.rollouts := by
    refine hledgers.cleared fun sw hsw => ?_
    obtain ⟨-, hover⟩ := Bool.and_eq_true_iff.mp hquiescent
    have hsw := List.all_eq_true.mp hover sw hsw
    rw [decide_eq_true_eq] at hsw
    rw [hsw]
    rfl
  constructor
  · intro k
    exact (hledgers.booked.books_nonneg k).trans (hledgers.counts k)
  · intro hquiescent
    rw [(hcleared hquiescent).count]
    exact (books_of_quiescent hledgers.booked hquiescent).1
  · intro hquiescent
    rw [(hcleared hquiescent).count]
    exact (books_of_quiescent hledgers.booked hquiescent).2
  · intro hquiescent j k
    have hexact := hcleared hquiescent
    simp only [Site.quiescent, Bool.and_eq_true, List.all_eq_true] at hquiescent
    cases hjob : s.rollouts.jobs[j]? with
    | none =>
      rw [hexact.fresh j k (List.getElem?_eq_none_iff.mp hjob)]
      simp
    | some job =>
      have hmem := List.mem_of_getElem? hjob
      have hnone := (toCome_of_atRest (hledgers.booked.staged job hmem)
        (hquiescent.1.1 job hmem) j).1
      rw [hexact.keys j job k hjob, Job.keyed, hnone]
      simp

/-! ## Runs -/

/-- A `submit()` call, from the table to its return. -/
def submitted : List (Action Nat Nat) :=
  .rollouts (.submit [22] id [['x']]) :: List.replicate 5 (.rollouts (.thread 0 (.submit .done)))

/-- A rollout that runs and leaves the table; its results are not saved yet. -/
def ran : List (Action Nat Nat) :=
  submitted ++ [.rollouts (.pop .done), .rollouts .acquire, .rollouts .take] ++
    List.replicate 3 (.rollouts (.mark .done)) ++
    [.rollouts .start, .rollouts (.thread 0 (.line true)), .rollouts (.thread 0 (.engine none)),
      .rollouts (.thread 0 .lock)]

/-- A whole `switch_redis()` call. -/
def switched : List (Action Nat Nat) :=
  [.switch, .on 0 .pause, .on 0 .check, .on 0 (.swap .empty), .on 0 .keep, .on 0 .signOut,
    .on 0 .clear, .on 0 .finish]

/-- The results saved, and the end told to Redis. -/
def told : List (Action Nat Nat) :=
  .rollouts (.thread 0 .save) :: List.replicate 3 (.rollouts (.thread 0 (.call .done)))

/-- A rollout, told of to the end, and then a switch. -/
theorem agrees_after_a_rollout :
    ∃ s, (site Nat Nat).Reachable orderly s ∧ s.switches = [.over] ∧ s.Agrees := by
  have hrun : ((site Nat Nat).exec orderly (.init 4) (ran ++ told ++ switched)).any
      (fun s => s.switches = [.over]) = true := by decide
  obtain ⟨s, hs, hends⟩ := System.exists_reachable (by exact ⟨4, rfl⟩) hrun
  exact ⟨s, hs, of_decide_eq_true hends, agrees_of_orderly hs⟩

/-- A drain that records a job whose `add` has not begun. -/
def drained : List (Action Nat Nat) :=
  [.rollouts (.submit [22] id [['x']]), .rollouts .drain, .rollouts (.thread 0 (.line true)),
    .rollouts (.thread 0 (.call .done)), .rollouts (.thread 0 .lock)] ++ told

/-- **Redis and the table do not agree**: a drain records a job before its `add`, which then
tells Redis of a job that is no more; and a switch comes while a job that left the table is
being saved. -/
theorem not_agrees :
    (∃ s, (site Nat Nat).Reachable answered s ∧ s.rollouts.redis.count .pending < 0 ∧ ¬ s.Agrees) ∧
    (∃ s, (site Nat Nat).Reachable answered s ∧
      (s.rollouts.redis.has .hash 0 = true ∧ s.rollouts.jobs.all (fun job => !job.listed)) ∧
      ¬ s.Agrees) ∧
    ∃ s, (site Nat Nat).Reachable answered s ∧
      (s.switches = [.over] ∧ s.rollouts.redis.count .active < 0) ∧ ¬ s.Agrees := by
  refine ⟨?_, ?_, ?_⟩
  · have hrun : ((site Nat Nat).exec answered (.init 4) drained).any
        (fun s => s.rollouts.redis.count .pending < 0) = true := by decide
    obtain ⟨s, hs, hends⟩ := System.exists_reachable (by exact ⟨4, rfl⟩) hrun
    have hnegative := of_decide_eq_true hends
    exact ⟨s, hs, hnegative, fun hagrees => absurd (hagrees.nonneg .pending) (by omega)⟩
  · have hrun : ((site Nat Nat).exec answered (.init 4)
        (drained ++ List.replicate 5 (.rollouts (.thread 0 (.submit .done))) ++
          List.replicate 2 (.rollouts (.thread 0 (.call .done))))).any
        (fun s => s.quiescent && (s.rollouts.redis.has .hash 0 &&
          s.rollouts.jobs.all fun job => !job.listed)) = true := by decide
    obtain ⟨s, hs, hends⟩ := System.exists_reachable (by exact ⟨4, rfl⟩) hrun
    simp only [Bool.and_eq_true] at hends
    obtain ⟨hquiescent, hthere, hnone⟩ := hends
    refine ⟨s, hs, ⟨hthere, hnone⟩, fun hagrees => ?_⟩
    obtain ⟨job, hjob, hlisted⟩ := (hagrees.keys hquiescent 0 .hash).mp hthere
    have hgone := List.all_eq_true.mp hnone job (List.mem_of_getElem? hjob)
    rw [hlisted] at hgone
    cases hgone
  · have hrun : ((site Nat Nat).exec answered (.init 4) (ran ++ switched ++ told)).any
        (fun s => s.switches = [.over] && s.rollouts.redis.count .active < 0) = true := by decide
    obtain ⟨s, hs, hends⟩ := System.exists_reachable (by exact ⟨4, rfl⟩) hrun
    simp only [Bool.and_eq_true, decide_eq_true_eq] at hends
    refine ⟨s, hs, hends, fun hagrees => absurd (hagrees.nonneg .active) ?_⟩
    omega

end Steps

end Maintenance
end NetRollout
