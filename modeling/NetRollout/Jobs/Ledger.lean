import NetRollout.Jobs.Tally

/-!
# What a job owes Redis

The commands the threads around a job have still to send (`toCome`): those of its `submit()`
call, and those of the thread that finalises it.  What a job is worth to a counter is what
the table says of it less what is still to come (`worth`), and whether its hash and its
listing are there is told by the table and what is to come (`keyed`).

`Shaped` says where the threads' commands can stand, in runs in which Redis answers and
nothing is taken back before it was sent; then a step of a thread changes what the job is
worth, and its keys, as the commands it sends change Redis (`Booking`).
-/

namespace NetRollout
namespace Jobs

variable {Target Device : Type}

/-! ## Commands -/

/-- What a command adds to a counter. -/
def Command.delta (k : Counter) : Command → Int
  | .incr k' => if k' = k then 1 else 0
  | .decr k' => if k' = k then -1 else 0
  | _ => 0

def delta (k : Counter) (cs : List Command) : Int := (cs.map (Command.delta k)).sum

/-- A job's keys in Redis: its hash, and its entry in its user's set. -/
inductive Key where
  | hash
  | listing
  deriving DecidableEq

/-- Whether a job's key is there. -/
def Redis.has (r : Redis) : Key → JobId → Bool
  | .hash, j => (r.metas j).isSome
  | .listing, j => r.userJobs j

/-- A command that makes a job's key. -/
def Command.sets (k : Key) (j : JobId) : Command → Bool
  | .hset i _ => k = .hash && i = j
  | .sadd i => k = .listing && i = j
  | _ => false

/-- A command that removes a job's key. -/
def Command.clears (k : Key) (j : JobId) : Command → Bool
  | .delete i => k = .hash && i = j
  | .srem i => k = .listing && i = j
  | _ => false

/-- A command that touches no counter and no key. -/
def Command.Quiet (c : Command) : Prop :=
  (∀ k, c.delta k = 0) ∧ ∀ (k : Key) (j : JobId), c.sets k j = false ∧ c.clears k j = false

theorem count_exec (r : Redis) (c : Command) (k : Counter) :
    (r.exec c).count k = r.count k + c.delta k := by
  cases c with
  | incr k' =>
    by_cases h : k = k'
    · subst h
      simp [Redis.exec, Command.delta]
    · simp [Redis.exec, Command.delta, Function.update_of_ne h, Ne.symm h]
  | decr k' =>
    by_cases h : k = k'
    · subst h
      simp [Redis.exec, Command.delta]
      omega
    · simp [Redis.exec, Command.delta, Function.update_of_ne h, Ne.symm h]
  | _ => simp [Redis.exec, Command.delta]

theorem has_exec (r : Redis) (c : Command) (k : Key) (j : JobId) :
    (r.exec c).has k j = if c.sets k j then true else if c.clears k j then false else r.has k j := by
  cases k <;> cases c <;>
    simp only [Redis.has, Redis.exec, Command.sets, Command.clears, Bool.false_eq_true, if_false,
      decide_true, decide_false, Bool.true_and, Bool.false_and, decide_eq_true_eq, reduceCtorEq,
      Function.update_apply]
  case hash.hset i status => by_cases h : j = i <;> simp [h, eq_comm]
  case hash.delete i => by_cases h : j = i <;> simp [h, eq_comm]
  case hash.setIfExists i status => by_cases h : j = i <;> simp [h]
  case listing.sadd i => by_cases h : j = i <;> simp [h, eq_comm]
  case listing.srem i => by_cases h : j = i <;> simp [h, eq_comm]

/-! ## What is still to come -/

/-- Of the `submit()` call. -/
def Submit.toCome (j : JobId) : Submit → List Command
  | .adding rest => rest
  | .unqueuing added => if added then JobStore.finished j false else JobStore.forget j
  | .undoing rest => rest
  | _ => []

/-- Of the thread that claimed the job, a runner's or not. -/
def Worker.toCome (j : JobId) (wasRunning : Bool) : Worker → List Command
  | .saving => JobStore.finished j wasRunning
  | .clearing rest => rest
  | _ => []

namespace Job

/-- Claimed by the dispatcher: `counts` has it running. -/
def ran (job : Job Target Device) : Bool := job.claimant = some .dispatcher

def toCome (j : JobId) (job : Job Target Device) : List Command :=
  job.submit.toCome j ++ job.worker.toCome j job.ran

/-- What the table says a counter should count of the job. -/
def target (k : Counter) (job : Job Target Device) : Int :=
  if job.listed && (job.ran == decide (k = .active)) then 1 else 0

/-- What a job is worth to a counter: its commands count alike whatever its id. -/
def worth (k : Counter) (job : Job Target Device) : Int :=
  job.target k - delta k (job.toCome 0)

/-- Whether a job's key is there. -/
def keyed (j : JobId) (job : Job Target Device) (k : Key) : Bool :=
  !(job.toCome j).any (Command.sets k j) &&
    (job.listed || (job.toCome j).any (Command.clears k j))

/-- Redis answers the call a step makes; Postgres may not. -/
def answered (job : Job Target Device) : Event → Bool
  | .submit r => r.isDone || job.submit = .recording
  | .call r => r.isDone
  | .mark r => r.isDone
  | _ => true

end Job

/-- A command that takes back what another one does. -/
def Command.undoes : Command → Command → Bool
  | .delete i, .hset i' _ => i = i'
  | .srem i, .sadd i' => i = i'
  | .decr k, .incr k' => k = k'
  | _, _ => false

/-- The steps in order: no job is withdrawn once it left the table, the line that a queued
job is cancelled is written, and nothing is taken back before the job's `add` has sent it. -/
def Job.inOrder (j : JobId) (job : Job Target Device) : Event → Bool
  | .submit _ => match job.submit with
    | .withdrawing _ => job.listed
    | _ => true
  | .line written => written || job.worker ≠ .cancelling
  | .call _ => match job.worker with
    | .clearing (c :: _) => !(job.submit.toCome j).any c.undoes
    | _ => true
  | _ => true

/-! ## Effects on Redis -/

/-- What commands do to whether a key is there. -/
def marks (k : Key) (j : JobId) (cs : List Command) (b : Bool) : Bool :=
  cs.foldl (fun b c => if c.sets k j then true else if c.clears k j then false else b) b

section Exec

variable (k : Counter) (c : Command) (cs ds : List Command)

@[simp] theorem delta_nil : delta k [] = 0 := rfl

@[simp] theorem delta_cons : delta k (c :: cs) = c.delta k + delta k cs := by
  simp [delta]

@[simp] theorem delta_append : delta k (cs ++ ds) = delta k cs + delta k ds := by
  simp [delta]

theorem count_foldl (r : Redis) : (cs.foldl Redis.exec r).count k = r.count k + delta k cs := by
  induction cs generalizing r with
  | nil => simp
  | cons c cs ih =>
    rw [List.foldl_cons, ih, count_exec, delta_cons]
    omega

theorem marks_eq {k : Key} {j : JobId} {cs : List Command}
    (h : ∀ c ∈ cs, c.sets k j = false ∧ c.clears k j = false) (b : Bool) : marks k j cs b = b := by
  induction cs generalizing b with
  | nil => rfl
  | cons c cs ih =>
    obtain ⟨hsets, hclears⟩ := h c List.mem_cons_self
    rw [marks, List.foldl_cons, hsets, hclears]
    exact ih (fun d hd => h d (List.mem_cons_of_mem c hd)) b

theorem has_foldl (r : Redis) (key : Key) (j : JobId) :
    (cs.foldl Redis.exec r).has key j = marks key j cs (r.has key j) := by
  induction cs generalizing r with
  | nil => rfl
  | cons c cs ih =>
    rw [List.foldl_cons, ih, has_exec]
    rfl

end Exec

/-! ## Commands sent -/

theorem mem_sent {r : Reply} {c d : Command} (h : d ∈ r.sent c) : d = c := by
  unfold Reply.sent at h
  cases htook : r.took <;> simp only [htook, cond_true, cond_false] at h
  · cases h
  · exact List.mem_singleton.mp h

theorem quiet_enqueue (i : JobId) : (JobStore.enqueue i).Quiet :=
  ⟨fun _ => rfl, fun _ _ => ⟨rfl, rfl⟩⟩

/-- What a cancel sends touches no counter and no key. -/
theorem quiet_cancel (r : Reply) (i : JobId) {c d : Command} (hd : d ∈ r.sent c)
    (hc : c = JobStore.unqueue i ∨ c = JobStore.setStatus i .cancelling) :
    d.Quiet ∧ ∀ j, d ≠ .rpush j := by
  obtain rfl := mem_sent hd
  rcases hc with rfl | rfl <;> exact ⟨⟨fun _ => rfl, fun _ _ => ⟨rfl, rfl⟩⟩, nofun⟩

theorem sent_of_isDone {r : Reply} (h : r.isDone = true) (c : Command) : r.sent c = [c] := by
  cases r with
  | done => rfl
  | lost took unavailable => cases h

/-! ## The shape of what is to come -/

/-- Where the commands of a job's threads stand. -/
structure Shaped (j : JobId) (job : Job Target Device) : Prop where
  adding : ∀ rest, job.submit = .adding rest → rest <:+ JobStore.add j
  undoing : ∀ rest, job.submit = .undoing rest → rest <:+ JobStore.finished j false
  withdrawing : ∀ added, job.submit = .withdrawing added ∨ job.submit = .unqueuing added →
    added = true
  clearing : ∀ rest, job.worker = .clearing rest → rest <:+ JobStore.finished j job.ran
  dropping : job.worker ≠ .dropping
  runner : job.ran = true → job.submit = .returned ∧ (job.worker.left = false → job.listed = true)
  /-- Withdrawn, it is no longer finalised. -/
  alone : job.submit.withdrawn = true → job.listed = false ∧ job.worker.toCome j job.ran = []
  /-- What takes back a command of `add` that is still to come is still to come itself. -/
  order : ∀ c ∈ JobStore.finished j false, (job.submit.toCome j).any c.undoes = true →
    job.listed = true ∨ c ∈ job.worker.toCome j job.ran

/-- A step of a thread around a job changes its books as it changes Redis. -/
structure Booking (j : JobId) (job job' : Job Target Device) (redis : List Command) : Prop where
  worth : ∀ k, job'.worth k = job.worth k + delta k redis
  keyed : ∀ k, job'.keyed j k = marks k j redis (job.keyed j k)
  mine : ∀ c ∈ redis, ∀ (k : Key) (i : JobId), i ≠ j → c.sets k i = false ∧ c.clears k i = false
  queue : ∀ i, .rpush i ∈ redis → i = j ∧ job'.submit = .returned


section Booking

variable {j : JobId} {job job' : Job Target Device} {b : Bool}

theorem delta_finished (k : Counter) (j : JobId) (b : Bool) :
    delta k (JobStore.finished j b) = if b == decide (k = .active) then -1 else 0 := by
  cases k <;> cases b <;> rfl

/-- A job's commands count alike under any id. -/
theorem delta_toCome (k : Counter) (i j : JobId) (job : Job Target Device) :
    delta k (job.toCome i) = delta k (job.toCome j) := by
  have hsubmit : delta k (job.submit.toCome i) = delta k (job.submit.toCome j) := by
    cases job.submit with
    | unqueuing added =>
      cases added with
      | false => rfl
      | true => simp only [Submit.toCome, if_true, delta_finished]
    | _ => rfl
  have hworker : delta k (job.worker.toCome i job.ran) = delta k (job.worker.toCome j job.ran) := by
    cases job.worker with
    | saving => simp only [Worker.toCome, delta_finished]
    | _ => rfl
  simp only [Job.toCome, delta_append, hsubmit, hworker]

theorem Job.toCome_eq_nil {i : JobId} (h : job.toCome i = []) (j : JobId) : job.toCome j = [] := by
  rw [Job.toCome, List.append_eq_nil_iff] at h ⊢
  constructor
  · cases hsubmit : job.submit with
    | unqueuing added =>
      rw [hsubmit] at h
      cases added <;> cases h.1
    | _ =>
      rw [hsubmit] at h
      exact h.1
  · cases hworker : job.worker with
    | saving =>
      rw [hworker] at h
      cases h.2
    | _ =>
      rw [hworker] at h
      exact h.2

theorem Job.worth_eq (k : Counter) (j : JobId) (job : Job Target Device) :
    job.worth k = job.target k - delta k (job.toCome j) := by
  rw [Job.worth, delta_toCome k 0 j]

/-- The commands of a job's own threads name no other job. -/
theorem mine_of_mem {c : Command} (h : c ∈ JobStore.add j ∨ c ∈ JobStore.finished j b) (k : Key)
    {i : JobId} (hne : i ≠ j) : c.sets k i = false ∧ c.clears k i = false := by
  have hne' : j ≠ i := Ne.symm hne
  rcases h with h | h <;>
    simp only [JobStore.add, JobStore.finished, JobStore.forget, List.cons_append, List.nil_append,
      List.mem_cons, List.not_mem_nil, or_false] at h <;>
    rcases h with rfl | rfl | rfl <;> simp [Command.sets, Command.clears, hne']

/-- Commands that touch no counter and no key are sent, or none. -/
theorem Booking.beside {redis : List Command}
    (htable : job'.listed = job.listed ∧ job'.ran = job.ran)
    (htoCome : job'.toCome j = job.toCome j) (hredis : ∀ c ∈ redis, c.Quiet)
    (hqueue : ∀ i, .rpush i ∈ redis → i = j ∧ job'.submit = .returned) :
    Booking j job job' redis where
  worth k := by
    have hdelta : delta k redis = 0 := by
      refine List.sum_eq_zero fun x hx => ?_
      obtain ⟨c, hc, rfl⟩ := List.mem_map.mp hx
      exact (hredis c hc).1 k
    rw [job'.worth_eq k j, job.worth_eq k j, htoCome, hdelta, Job.target, Job.target, htable.1,
      htable.2, add_zero]
  keyed k := by
    rw [marks_eq fun c hc => (hredis c hc).2 k j, Job.keyed, Job.keyed, htoCome, htable.1]
  mine c hc k i _ := (hredis c hc).2 k i
  queue := hqueue

/-- The next command is sent, of the `submit()` call or of the other thread. -/
theorem Booking.sends {c : Command} {pre post : List Command}
    (htable : job'.listed = job.listed ∧ job'.ran = job.ran)
    (hbefore : job.toCome j = pre ++ c :: post) (hafter : job'.toCome j = pre ++ post)
    (hmine : c ∈ JobStore.add j ∨ c ∈ JobStore.finished j b)
    (hsets : ∀ k, c.sets k j = true → (pre ++ post).any (Command.sets k j) = false ∧
      (job.listed || (pre ++ post).any (Command.clears k j)) = true)
    (hclears : ∀ k, c.clears k j = true → job.listed = false ∧
      (pre ++ post).any (Command.clears k j) = false) :
    Booking j job job' [c] where
  worth k := by
    rw [job'.worth_eq k j, job.worth_eq k j, hbefore, hafter, Job.target, Job.target, htable.1,
      htable.2]
    simp only [delta_append, delta_cons, delta_nil]
    omega
  keyed k := by
    rw [Job.keyed, Job.keyed, hbefore, hafter, htable.1, marks, List.foldl_cons, List.foldl_nil]
    split
    · next hset =>
      obtain ⟨hnone, hcomes⟩ := hsets k hset
      rw [hnone, hcomes]
      rfl
    · next hset =>
      split
      · next hclear =>
        obtain ⟨hleft, hnone⟩ := hclears k hclear
        rw [hleft, hnone]
        simp
      · next hclear =>
        rw [Bool.not_eq_true] at hset hclear
        simp [hset, hclear]
  mine d hd k i hne := by
    rw [List.mem_singleton] at hd
    subst hd
    exact mine_of_mem hmine k hne
  queue i hi := by
    rw [List.mem_singleton] at hi
    subst hi
    simp [JobStore.add, JobStore.finished, JobStore.forget] at hmine

/-- The job leaves the table, and its end is to be told. -/
theorem Booking.leaves (hbefore : job.listed = true) (hafter : job'.listed = false)
    (htoCome : job'.toCome j = job.toCome j ++ JobStore.finished j job.ran) :
    Booking j job job' [] where
  worth k := by
    rw [job'.worth_eq k j, job.worth_eq k j, htoCome, Job.target, Job.target, hbefore, hafter]
    simp only [delta_append, delta_finished, Bool.true_and, Bool.false_and, delta_nil,
      Bool.false_eq_true, if_false]
    split <;> omega
  keyed k := by
    have hfinished : (JobStore.finished j job.ran).any (Command.sets k j) = false ∧
        (JobStore.finished j job.ran).any (Command.clears k j) = true := by
      cases k <;> simp [JobStore.finished, JobStore.forget, Command.sets, Command.clears]
    rw [Job.keyed, Job.keyed, htoCome, hbefore, hafter, List.any_append, List.any_append,
      hfinished.1, hfinished.2]
    simp [marks]
  mine c hc := absurd hc List.not_mem_nil
  queue i hi := absurd hi List.not_mem_nil

end Booking

namespace Shaped

variable {j : JobId} {job job' : Job Target Device} {fx : Effects}

theorem new (targets : List Target) (devices : List Device) (commands : List PyText.Str) :
    Shaped j (Job.new j targets devices commands) := by
  refine ⟨?_, nofun, ?_, nofun, nofun, nofun, nofun, fun _ _ _ => .inl rfl⟩
  · rintro rest h
    cases h
    exact List.suffix_refl _
  · rintro added (h | h) <;> cases h

/-- The suffixes of `add`, command by command. -/
theorem suffix_add {c : Command} {rest : List Command} (h : c :: rest <:+ JobStore.add j) :
    (c = .hset j .pending ∧ rest = [.sadd j, .incr .pending]) ∨
    (c = .sadd j ∧ rest = [.incr .pending]) ∨ (c = .incr .pending ∧ rest = []) := by
  simpa [JobStore.add, List.suffix_cons_iff] using h

theorem suffix_finished {b : Bool} {c : Command} {rest : List Command}
    (h : c :: rest <:+ JobStore.finished j b) :
    (c = .delete j ∧ rest = [.srem j, .decr (bif b then .active else .pending)]) ∨
    (c = .srem j ∧ rest = [.decr (bif b then .active else .pending)]) ∨
    (c = .decr (bif b then .active else .pending) ∧ rest = []) := by
  simpa [JobStore.finished, JobStore.forget, List.suffix_cons_iff] using h

/-- The other thread sends the rest of `finished`, or nothing. -/
theorem worker_suffix (h : Shaped j job) :
    job.worker.toCome j job.ran <:+ JobStore.finished j job.ran := by
  cases hw : job.worker with
  | saving => exact List.suffix_refl _
  | clearing rest => exact h.clearing rest hw
  | _ => exact List.nil_suffix

/-- A job in the table has nothing to be told of its end. -/
theorem toCome_of_listed (hjob : Staged job) (hlisted : job.listed = true) :
    job.worker.toCome j job.ran = [] := by
  have hleft := hjob.left
  rw [hlisted] at hleft
  cases hw : job.worker with
  | saving => exact absurd (hleft (by rw [hw]; rfl)) nofun
  | clearing rest => exact absurd (hleft (by rw [hw]; rfl)) nofun
  | _ => rfl

theorem ran_eq_false (h : Shaped j job) (hsubmit : job.submit ≠ .returned) : job.ran = false := by
  by_contra hran
  exact hsubmit (h.runner (Bool.not_eq_false _ ▸ hran)).1

/-- The `submit()` call goes on, with no command more than it had. -/
theorem onSubmit {next : Submit} (h : Shaped j job) (hsubmit : job.submit ≠ .returned)
    (hadding : ∀ rest, next = .adding rest → rest <:+ JobStore.add j)
    (hundoing : ∀ rest, next = .undoing rest → rest <:+ JobStore.finished j false)
    (hwithdrawing : ∀ added, next = .withdrawing added ∨ next = .unqueuing added → added = true)
    (halone : next.withdrawn = true → job.submit.withdrawn = true)
    (hsubset : next.toCome j ⊆ job.submit.toCome j) :
    Shaped j { job with submit := next } where
  adding := hadding
  undoing := hundoing
  withdrawing := hwithdrawing
  clearing := h.clearing
  dropping := h.dropping
  runner hran := by
    have hnot := h.ran_eq_false hsubmit
    rw [show job.ran = true from hran] at hnot
    cases hnot
  alone hwithdrawn := h.alone (halone hwithdrawn)
  order c hc hany := by
    refine h.order c hc ?_
    obtain ⟨d, hd, hundoes⟩ := List.any_eq_true.mp hany
    exact List.any_eq_true.mpr ⟨d, hsubset hd, hundoes⟩

/-- The thread that claimed the job goes on, with the same commands to come. -/
theorem onWork (h : Shaped j job) (hlisted : job'.listed = job.listed)
    (hclaimant : job'.claimant = job.claimant) (hsubmit : job'.submit = job.submit)
    (hclearing : ∀ rest, job'.worker = .clearing rest → rest <:+ JobStore.finished j job.ran)
    (hdropping : job'.worker ≠ .dropping)
    (hleft : job'.worker.left = false → job.worker.left = false)
    (hsame : job'.worker.toCome j job.ran = job.worker.toCome j job.ran) : Shaped j job' := by
  have hran : job'.ran = job.ran := by rw [Job.ran, hclaimant, Job.ran]
  constructor
  · rw [hsubmit]
    exact h.adding
  · rw [hsubmit]
    exact h.undoing
  · rw [hsubmit]
    exact h.withdrawing
  · rw [hran]
    exact hclearing
  · exact hdropping
  · rw [hran, hsubmit, hlisted]
    intro hruns
    exact ⟨(h.runner hruns).1, fun hnot => (h.runner hruns).2 (hleft hnot)⟩
  · rw [hsubmit, hlisted, hran, hsame]
    exact h.alone
  · rw [hsubmit, hlisted, hran, hsame]
    exact h.order

/-- Of the commands of `finished`, none makes a key. -/
theorem sets_of_suffix {b : Bool} {cs : List Command} (h : cs <:+ JobStore.finished j b) (k : Key) :
    cs.any (Command.sets k j) = false := by
  rw [List.any_eq_false]
  intro c hc
  have hmem := h.subset hc
  simp only [JobStore.finished, JobStore.forget, List.cons_append, List.nil_append, List.mem_cons,
    List.not_mem_nil, or_false] at hmem
  rcases hmem with rfl | rfl | rfl <;> simp [Command.sets]

/-- Of the commands of `add`, none removes one. -/
theorem clears_of_suffix {cs : List Command} (h : cs <:+ JobStore.add j) (k : Key) :
    cs.any (Command.clears k j) = false := by
  rw [List.any_eq_false]
  intro c hc
  have hmem := h.subset hc
  simp only [JobStore.add, List.mem_cons, List.not_mem_nil, or_false] at hmem
  rcases hmem with rfl | rfl | rfl <;> simp [Command.clears]

/-- The next command of `add` is sent. -/
theorem add_sent (h : Shaped j job) {c : Command} {rest : List Command} {next : Submit}
    (hsubmit : job.submit = .adding (c :: rest)) (hnext : next.toCome j = rest) :
    Booking j job { job with submit := next } [c] := by
  have hsuffix := h.adding _ hsubmit
  have hbefore : job.toCome j = [] ++ c :: (rest ++ job.worker.toCome j job.ran) := by
    rw [Job.toCome, hsubmit]
    rfl
  have hafter : ({ job with submit := next } : Job Target Device).toCome j =
      [] ++ (rest ++ job.worker.toCome j job.ran) := by
    rw [Job.toCome, hnext]
    rfl
  refine Booking.sends (b := false) ⟨rfl, rfl⟩ hbefore hafter
    (.inl (hsuffix.subset List.mem_cons_self)) (fun k hsets => ?_) (fun k hclears => ?_)
  · have hworker := sets_of_suffix h.worker_suffix k
    have hcomes (u : Command) (hu : u ∈ JobStore.finished j false) (hundoes : u.undoes c = true)
        (hclears : u.clears k j = true) :
        (job.listed || (job.worker.toCome j job.ran).any (Command.clears k j)) = true := by
      have hany : (job.submit.toCome j).any u.undoes = true := by
        rw [hsubmit]
        exact List.any_eq_true.mpr ⟨c, List.mem_cons_self, hundoes⟩
      rcases h.order u hu hany with hlisted | hmem
      · rw [hlisted, Bool.true_or]
      · rw [List.any_eq_true.mpr ⟨u, hmem, hclears⟩, Bool.or_true]
    rw [List.nil_append, List.any_append, List.any_append, hworker]
    rcases suffix_add hsuffix with ⟨rfl, rfl⟩ | ⟨rfl, rfl⟩ | ⟨rfl, rfl⟩
    · cases k with
      | hash =>
        have hdelete := hcomes (.delete j) (by simp [JobStore.finished, JobStore.forget])
          (by simp [Command.undoes]) (by simp [Command.clears])
        simpa [Command.sets, Command.clears] using hdelete
      | listing => cases hsets
    · cases k with
      | hash => cases hsets
      | listing =>
        have hsrem := hcomes (.srem j) (by simp [JobStore.finished, JobStore.forget])
          (by simp [Command.undoes]) (by simp [Command.clears])
        simpa [Command.sets, Command.clears] using hsrem
    · cases hsets
  · have hnone := clears_of_suffix hsuffix k
    rw [List.any_cons, hclears] at hnone
    cases hnone

/-- The next command of `finished` is sent, by the other thread or by `_withdraw`. -/
theorem finished_sent {b : Bool} {c : Command} {pre rest : List Command}
    (hsuffix : c :: rest <:+ JobStore.finished j b)
    (htable : job'.listed = job.listed ∧ job'.ran = job.ran) (hlisted : job.listed = false)
    (hbefore : job.toCome j = pre ++ c :: rest) (hafter : job'.toCome j = pre ++ rest)
    (hpre : ∀ k, pre.any (Command.clears k j) = false) : Booking j job job' [c] := by
  refine Booking.sends (b := b) htable hbefore hafter (.inr (hsuffix.subset List.mem_cons_self))
    (fun k hsets => ?_) (fun k hclears => ⟨hlisted, ?_⟩)
  · have hnone := sets_of_suffix hsuffix k
    rw [List.any_cons, hsets] at hnone
    cases hnone
  · rw [List.any_append, hpre, Bool.false_or]
    rcases suffix_finished hsuffix with ⟨rfl, rfl⟩ | ⟨rfl, rfl⟩ | ⟨rfl, rfl⟩
    · cases k with
      | hash => simp [Command.clears]
      | listing => cases hclears
    · cases k with
      | hash => cases hclears
      | listing => simp [Command.clears]
    · rfl

/-! ## The step lemma -/

/-- What `_withdraw` does under the lock. -/
theorem withdraw (hjob : Staged job) (h : Shaped j job) (hsubmit : job.submit = .withdrawing true)
    (hlisted : job.listed = true) :
    Booking j job { job with listed := false, submit := .unqueuing true } [] ∧
      Shaped j { job with listed := false, submit := .unqueuing true } := by
  have hran := h.ran_eq_false (by rw [hsubmit]; nofun)
  have hworker := toCome_of_listed (j := j) hjob hlisted
  constructor
  · refine Booking.leaves hlisted rfl ?_
    rw [Job.toCome, Job.toCome, hworker, hsubmit, hran]
    show JobStore.finished j false ++ job.worker.toCome j job.ran = _
    rw [hworker]
    rfl
  · refine ⟨nofun, nofun, ?_, h.clearing, h.dropping, ?_, fun _ => ⟨rfl, hworker⟩, ?_⟩
    · rintro added (hnext | hnext) <;> cases hnext
      rfl
    · intro hruns
      rw [show job.ran = true from hruns] at hran
      cases hran
    · intro c hc hany
      simp only [JobStore.finished, JobStore.forget, List.cons_append, List.nil_append,
        List.mem_cons, List.not_mem_nil, or_false] at hc
      rcases hc with rfl | rfl | rfl <;> cases hany

/-- The `submit()` call goes on, and touches no counter and no key. -/
theorem submitted (h : Shaped j job) {next : Submit} {redis : List Command}
    (hsubmit : job.submit ≠ .returned)
    (hadding : ∀ rest, next = .adding rest → rest <:+ JobStore.add j)
    (hundoing : ∀ rest, next = .undoing rest → rest <:+ JobStore.finished j false)
    (hwithdrawing : ∀ added, next = .withdrawing added ∨ next = .unqueuing added → added = true)
    (halone : next.withdrawn = true → job.submit.withdrawn = true)
    (hsame : next.toCome j = job.submit.toCome j) (hredis : ∀ c ∈ redis, c.Quiet)
    (hqueue : ∀ i, .rpush i ∈ redis → i = j ∧ next = .returned) :
    Booking j job { job with submit := next } redis ∧ Shaped j { job with submit := next } := by
  constructor
  · refine Booking.beside ⟨rfl, rfl⟩ ?_ hredis hqueue
    rw [Job.toCome, Job.toCome, hsame]
    rfl
  · refine h.onSubmit hsubmit hadding hundoing hwithdrawing halone ?_
    rw [hsame]
    exact List.Subset.refl _

/-- The next command of `add` is sent. -/
theorem add_next (h : Shaped j job) {c : Command} {rest : List Command}
    (hsubmit : job.submit = .adding (c :: rest)) :
    Booking j job { job with submit := if rest = [] then .recording else .adding rest } [c] ∧
      Shaped j { job with submit := if rest = [] then .recording else .adding rest } := by
  have hsuffix := h.adding _ hsubmit
  have hnext : (if rest = [] then Submit.recording else .adding rest).toCome j = rest := by
    split
    · next hnil => exact hnil.symm
    · rfl
  refine ⟨h.add_sent hsubmit hnext, h.onSubmit (by rw [hsubmit]; nofun) ?_ ?_ ?_ ?_ ?_⟩
  · intro rest' hrest
    split at hrest <;> cases hrest
    exact (List.suffix_cons c rest).trans hsuffix
  · intro rest' hrest
    split at hrest <;> cases hrest
  · rintro added (hrest | hrest) <;> split at hrest <;> cases hrest
  · split <;> nofun
  · rw [hnext, hsubmit]
    exact List.subset_cons_self c rest

/-- The row is saved, or the job is withdrawn: `add` has completed. -/
theorem record (h : Shaped j job) (hsubmit : job.submit = .recording) (saved : Bool) :
    Booking j job { job with submit := if saved then .enqueuing else .withdrawing true } [] ∧
      Shaped j { job with submit := if saved then .enqueuing else .withdrawing true } := by
  refine h.submitted (by rw [hsubmit]; nofun) ?_ ?_ ?_ ?_ ?_ nofun nofun
  · intro rest hrest
    split at hrest <;> cases hrest
  · intro rest hrest
    split at hrest <;> cases hrest
  · rintro added (hrest | hrest) <;> split at hrest <;> cases hrest
    rfl
  · split <;> nofun
  · rw [hsubmit]
    split <;> rfl

theorem enqueue (h : Shaped j job) (hsubmit : job.submit = .enqueuing) (r : Reply) :
    Booking j job { job with submit := .returned } (r.sent (JobStore.enqueue j)) ∧
      Shaped j { job with submit := .returned } := by
  refine h.submitted (by rw [hsubmit]; nofun) nofun nofun ?_ nofun ?_ ?_ ?_
  · rintro added (hrest | hrest) <;> cases hrest
  · rw [hsubmit]
    rfl
  · intro c hc
    obtain rfl := mem_sent hc
    exact quiet_enqueue j
  · intro i hi
    cases mem_sent hi
    exact ⟨rfl, rfl⟩

/-- `_withdraw` takes the job off the queue, and goes on to what it takes back. -/
theorem unqueue (h : Shaped j job) (hsubmit : job.submit = .unqueuing true) (r : Reply) :
    Booking j job { job with submit := .undoing (JobStore.finished j false) }
        (r.sent (JobStore.unqueue j)) ∧
      Shaped j { job with submit := .undoing (JobStore.finished j false) } := by
  have hredis (c : Command) (hc : c ∈ r.sent (JobStore.unqueue j)) := quiet_cancel r j hc (.inl rfl)
  refine h.submitted (by rw [hsubmit]; nofun) nofun ?_ ?_ ?_ ?_ (fun c hc => (hredis c hc).1)
    fun i hi => absurd rfl ((hredis _ hi).2 i)
  · intro rest hrest
    cases hrest
    exact List.suffix_refl _
  · rintro added (hrest | hrest) <;> cases hrest
  · intro _
    rw [hsubmit]
    rfl
  · rw [hsubmit]
    rfl

/-- The next command of what `_withdraw` takes back is sent: no finalising thread sends it. -/
theorem undo_next (h : Shaped j job) {c : Command} {rest : List Command}
    (hsubmit : job.submit = .undoing (c :: rest)) :
    Booking j job { job with submit := .undoing rest } [c] ∧
      Shaped j { job with submit := .undoing rest } := by
  have hsuffix := h.undoing _ hsubmit
  obtain ⟨hlisted, hworker⟩ := h.alone (by rw [hsubmit]; rfl)
  have hcome : job.toCome j = [] ++ c :: rest := by
    rw [Job.toCome, hworker, hsubmit]
    simp [Submit.toCome]
  constructor
  · refine finished_sent hsuffix ⟨rfl, rfl⟩ hlisted hcome ?_ fun k => rfl
    rw [Job.toCome]
    show rest ++ job.worker.toCome j job.ran = _
    rw [hworker]
    simp
  · refine h.onSubmit (by rw [hsubmit]; nofun) nofun ?_ ?_ ?_ ?_
    · intro rest' hrest
      cases hrest
      exact (List.suffix_cons c rest).trans hsuffix
    · rintro added (hrest | hrest) <;> cases hrest
    · intro _
      rw [hsubmit]
      rfl
    · rw [hsubmit]
      exact List.subset_cons_self c rest

/-- **A step of the `submit()` call.** -/
theorem submitStep {r : Reply} (hjob : Staged job) (h : Shaped j job)
    (hanswered : job.answered (.submit r) = true) (horder : job.inOrder j (.submit r) = true)
    (hstep : job.submitStep j r = some (job', fx)) :
    Booking j job job' fx.redis ∧ Shaped j job' := by
  unfold Job.submitStep at hstep
  split at hstep
  case h_1 hsubmit => cases hstep
  case h_2 command rest hsubmit =>
    cases hstep
    have hdone : r.isDone = true := by simpa [Job.answered, hsubmit] using hanswered
    simp only [hdone, Bool.not_true, Bool.false_eq_true, if_false, sent_of_isDone hdone]
    exact h.add_next hsubmit
  case h_3 hsubmit =>
    cases hstep
    exact h.record hsubmit r.isDone
  case h_4 hsubmit =>
    cases hstep
    have hdone : r.isDone = true := by simpa [Job.answered, hsubmit] using hanswered
    simp only [hdone, if_true]
    exact h.enqueue hsubmit r
  case h_5 added hsubmit =>
    cases hstep
    obtain rfl := h.withdrawing added (.inl hsubmit)
    have hlisted : job.listed = true := by simpa [Job.inOrder, hsubmit] using horder
    exact withdraw hjob h hsubmit hlisted
  case h_6 added hsubmit =>
    cases hstep
    obtain rfl := h.withdrawing added (.inr hsubmit)
    exact h.unqueue hsubmit r
  case h_7 hsubmit =>
    -- nothing is left to take back
    cases hstep
    refine h.submitted (by rw [hsubmit]; nofun) nofun nofun ?_ ?_ ?_ nofun nofun
    · rintro added (hrest | hrest) <;> cases hrest
    · intro _
      rw [hsubmit]
      rfl
    · rw [hsubmit]
      rfl
  case h_8 command rest hsubmit =>
    cases hstep
    have hdone : r.isDone = true := by simpa [Job.answered, hsubmit] using hanswered
    simp only [hdone, if_true, sent_of_isDone hdone]
    exact h.undo_next hsubmit
  case h_9 hsubmit => cases hstep
  case h_10 hsubmit => cases hstep

/-- The thread that claimed the job goes on, and touches no counter and no key. -/
theorem worked (h : Shaped j job) {redis : List Command} (hlisted : job'.listed = job.listed)
    (hclaimant : job'.claimant = job.claimant) (hsubmit : job'.submit = job.submit)
    (hclearing : ∀ rest, job'.worker = .clearing rest → rest <:+ JobStore.finished j job.ran)
    (hdropping : job'.worker ≠ .dropping)
    (hleft : job'.worker.left = false → job.worker.left = false)
    (hsame : job'.worker.toCome j job.ran = job.worker.toCome j job.ran)
    (hredis : ∀ c ∈ redis, c.Quiet ∧ ∀ i, c ≠ .rpush i) :
    Booking j job job' redis ∧ Shaped j job' := by
  have hran : job'.ran = job.ran := by rw [Job.ran, hclaimant, Job.ran]
  constructor
  · refine Booking.beside ⟨hlisted, hran⟩ ?_ (fun c hc => (hredis c hc).1)
      fun i hi => absurd rfl ((hredis _ hi).2 i)
    rw [Job.toCome, Job.toCome, hsubmit, hran, hsame]
  · exact h.onWork hlisted hclaimant hsubmit hclearing hdropping hleft hsame

/-- Before the table is left, the thread has nothing to send of the job's end. -/
theorem onward (h : Shaped j job) {redis : List Command} (hlisted : job'.listed = job.listed)
    (hclaimant : job'.claimant = job.claimant) (hsubmit : job'.submit = job.submit)
    (hfrom : job.worker.left = false) (hto : job'.worker.left = false)
    (hdropping : job'.worker ≠ .dropping)
    (hredis : ∀ c ∈ redis, c.Quiet ∧ ∀ i, c ≠ .rpush i) :
    Booking j job job' redis ∧ Shaped j job' := by
  have hnone (w : Worker) (hw : w.left = false) : w.toCome j job.ran = [] := by
    cases w with
    | saving => cases hw
    | clearing rest => cases hw
    | _ => rfl
  refine h.worked hlisted hclaimant hsubmit (fun rest hrest => ?_) hdropping (fun _ => hfrom) ?_
    hredis
  · rw [hrest] at hto
    cases hto
  · rw [hnone _ hto, hnone _ hfrom]

theorem finish (h : Shaped j job) (hsame : job.worker.toCome j job.ran = [])
    (hstep : job.finish {} = (job', fx)) :
    Booking j job job' fx.redis ∧ Shaped j job' := by
  have hredis : fx.redis = [] := by
    unfold Job.finish at hstep
    split at hstep <;> cases hstep <;> rfl
  have hrunner (w : Worker) (hw : w = .over ∨ w = .releasing) :
      w.left = true ∧ w ≠ .dropping ∧ w.toCome j job.ran = [] ∧ ∀ rest, w ≠ .clearing rest := by
    rcases hw with rfl | rfl <;> exact ⟨rfl, nofun, rfl, nofun⟩
  obtain ⟨w, hw, rfl, -⟩ := job.eq_of_finish hstep
  obtain ⟨hw, hdropping, hnone, hclearing⟩ := hrunner w hw
  rw [hredis]
  refine h.worked rfl rfl rfl (fun rest hrest => absurd hrest (hclearing rest)) hdropping
    (fun hnot => ?_) (hnone.trans hsame.symm) nofun
  rw [show w.left = false from hnot] at hw
  cases hw

/-- `_finalize` takes the job out of the table. -/
theorem finalize (hjob : Staged job) (h : Shaped j job) (hlisted : job.listed = true) :
    Booking j job { job with listed := false, worker := .saving } [] ∧
      Shaped j { job with listed := false, worker := .saving } := by
  have hworker := toCome_of_listed (j := j) hjob hlisted
  constructor
  · refine Booking.leaves hlisted rfl ?_
    rw [Job.toCome, Job.toCome, hworker, List.append_nil]
    rfl
  · refine ⟨h.adding, h.undoing, h.withdrawing, nofun, nofun, ?_, ?_, ?_⟩
    · exact fun hruns => ⟨(h.runner hruns).1, nofun⟩
    · intro hwithdrawn
      rw [(h.alone hwithdrawn).1] at hlisted
      cases hlisted
    · intro c hc hany
      refine .inr ?_
      by_cases hruns : job.ran = true
      · -- a runner's job has no command of `add` to come
        have hnone : (job.submit.toCome j).any c.undoes = true := hany
        rw [(h.runner hruns).1] at hnone
        cases hnone
      · rw [Bool.not_eq_true] at hruns
        show c ∈ JobStore.finished j job.ran
        rw [hruns]
        exact hc

/-- The next command of `finished` is sent by the thread that finalises the job. -/
theorem clear_sent (hjob : Staged job) (h : Shaped j job) {c : Command} {rest : List Command}
    (hw : job.worker = .clearing (c :: rest))
    (horder : (job.submit.toCome j).any c.undoes = false) :
    Booking j job { job with worker := .clearing rest } [c] ∧
      Shaped j { job with worker := .clearing rest } := by
  have hsuffix := h.clearing _ hw
  have hlisted : job.listed = false := hjob.left (by rw [hw]; rfl)
  have hstays : job.submit.withdrawn = false := by
    by_contra hwithdrawn
    have hnone := (h.alone (Bool.not_eq_false _ ▸ hwithdrawn)).2
    rw [hw] at hnone
    cases hnone
  have hpre (k : Key) : (job.submit.toCome j).any (Command.clears k j) = false := by
    cases hsubmit : job.submit with
    | adding rest => exact clears_of_suffix (h.adding rest hsubmit) k
    | unqueuing added => rw [hsubmit] at hstays; cases hstays
    | undoing rest => rw [hsubmit] at hstays; cases hstays
    | _ => rfl
  constructor
  · have hcome : job.toCome j = job.submit.toCome j ++ c :: rest := by
      rw [Job.toCome, hw]
      rfl
    exact finished_sent hsuffix ⟨rfl, rfl⟩ hlisted hcome rfl hpre
  · refine ⟨h.adding, h.undoing, h.withdrawing, ?_, nofun, ?_, ?_, ?_⟩
    · intro rest' hrest
      cases hrest
      exact (List.suffix_cons c rest).trans hsuffix
    · exact fun hruns => ⟨(h.runner hruns).1, nofun⟩
    · intro hwithdrawn
      rw [show job.submit.withdrawn = true from hwithdrawn] at hstays
      cases hstays
    · intro d hd hany
      rcases h.order d hd hany with hstill | hmem
      · rw [hlisted] at hstill
        cases hstill
      · rw [hw] at hmem
        rcases List.mem_cons.mp hmem with rfl | hmem
        · rw [show (job.submit.toCome j).any d.undoes = true from hany] at horder
          cases horder
        · exact .inr hmem

/-- **A step of the thread that claimed the job.** -/
theorem workerStep {e : Event} (hjob : Staged job) (h : Shaped j job)
    (hanswered : job.answered e = true) (horder : job.inOrder j e = true)
    (hstep : job.workerStep j e = some (job', fx)) :
    Booking j job job' fx.redis ∧ Shaped j job' := by
  unfold Job.workerStep at hstep
  cases e with
  | submit r => cases hstep
  | flag => cases hstep
  | mark r => cases hstep
  | line written =>
    cases hw : job.worker <;> simp only [hw, reduceCtorEq] at hstep
    case telling =>
      cases hstep
      split
      · exact h.onward rfl rfl rfl (by rw [hw]; rfl) rfl nofun nofun
      · exact h.onward rfl rfl rfl (by rw [hw]; rfl) rfl nofun nofun
    case cancelling =>
      have hwritten : written = true := by simpa [Job.inOrder, hw] using horder
      subst hwritten
      cases hstep
      exact h.onward rfl rfl rfl (by rw [hw]; rfl) rfl nofun nofun
  | engine statuses =>
    cases hw : job.worker <;> simp only [hw, reduceCtorEq] at hstep
    have hdone (results : Results Device) :
        Booking j job { job with results := results, worker := .ended } [] ∧
          Shaped j { job with results := results, worker := .ended } :=
      h.onward rfl rfl rfl (by rw [hw]; rfl) rfl nofun nofun
    cases statuses with
    | none =>
      cases hstep
      exact hdone job.results
    | some statuses =>
      simp only at hstep
      split at hstep <;> cases hstep
      exact hdone _
  | call r =>
    have hdone : r.isDone = true := hanswered
    cases hw : job.worker <;> simp only [hw, reduceCtorEq] at hstep
    case unqueuing =>
      cases hstep
      have hsurvived : r.survived = true := by cases r <;> simp_all [Reply.isDone, Reply.survived]
      simp only [hsurvived, if_true]
      exact h.onward rfl rfl rfl (by rw [hw]; rfl) rfl nofun
        fun c hc => quiet_cancel r j hc (.inl rfl)
    case clearing rest =>
      cases rest with
      | nil =>
        cases hstep
        exact h.worked rfl rfl rfl nofun nofun nofun (by rw [hw]; rfl) nofun
      | cons command rest =>
        simp only [hdone, if_true, Option.some.injEq, Prod.mk.injEq] at hstep
        obtain ⟨rfl, rfl⟩ := hstep
        rw [sent_of_isDone hdone]
        refine clear_sent hjob h hw ?_
        simpa [Job.inOrder, hw] using horder
    case closing =>
      have hsurvived : r.survived = true := by cases r <;> simp_all [Reply.isDone, Reply.survived]
      simp only [hsurvived, if_true, Option.some.injEq] at hstep
      exact h.finish (by rw [hw]; rfl) hstep
  | lock =>
    have hfinalize (hw : job.worker.toCome j job.ran = []) (hstep : job.finalize = (job', fx)) :
        Booking j job job' fx.redis ∧ Shaped j job' := by
      unfold Job.finalize at hstep
      split at hstep
      · next hlisted =>
        cases hstep
        exact finalize hjob h hlisted
      · exact h.finish hw hstep
    cases hw : job.worker <;> simp only [hw, reduceCtorEq, Option.some.injEq] at hstep
    case ended => exact hfinalize (by rw [hw]; rfl) hstep
    case concluding => exact hfinalize (by rw [hw]; rfl) hstep
    case dropping => exact absurd hw h.dropping
  | save =>
    cases hw : job.worker <;> simp only [hw, reduceCtorEq] at hstep
    cases hstep
    refine h.worked rfl rfl rfl ?_ nofun nofun (by rw [hw]; rfl) nofun
    intro rest hrest
    cases hrest
    exact List.suffix_refl _
  | free =>
    cases hw : job.worker <;> simp only [hw, reduceCtorEq] at hstep
    cases hstep
    exact h.worked rfl rfl rfl nofun nofun nofun (by rw [hw]; rfl) nofun

/-- **A step of a thread around the job.** -/
theorem step {e : Event} (hjob : Staged job) (h : Shaped j job) (hanswered : job.answered e = true)
    (horder : job.inOrder j e = true) (hstep : job.step j e = some (job', fx)) :
    Booking j job job' fx.redis ∧ Shaped j job' := by
  cases e with
  | submit r => exact h.submitStep hjob hanswered horder hstep
  | flag =>
    simp only [Job.step, Job.cancelStep] at hstep
    split at hstep <;> cases hstep
    exact h.worked rfl rfl rfl h.clearing h.dropping (fun hnot => hnot) rfl (List.forall_mem_nil _)
  | mark r =>
    simp only [Job.step, Job.cancelStep] at hstep
    split at hstep <;> cases hstep
    exact h.worked rfl rfl rfl h.clearing h.dropping (fun hnot => hnot) rfl
      fun c hc => quiet_cancel r j hc (.inr rfl)
  | line written => exact h.workerStep hjob hanswered horder hstep
  | engine statuses => exact h.workerStep hjob hanswered horder hstep
  | call r => exact h.workerStep hjob hanswered horder hstep
  | lock => exact h.workerStep hjob hanswered horder hstep
  | save => exact h.workerStep hjob hanswered horder hstep
  | free => exact h.workerStep hjob hanswered horder hstep

/-! ## What a job is worth -/

theorem delta_of_suffix {b : Bool} {cs : List Command} (h : cs <:+ JobStore.finished j b)
    (k : Counter) : delta k cs ≤ 0 := by
  cases cs with
  | nil => simp
  | cons c rest =>
    rcases suffix_finished h with ⟨rfl, rfl⟩ | ⟨rfl, rfl⟩ | ⟨rfl, rfl⟩ <;>
      cases k <;> cases b <;> simp [Command.delta]

/-- While the `incr` of `add` is to come, the job is queued, or a `decr` is to come too. -/
theorem delta_adding (hjob : Staged job) (h : Shaped j job) {rest : List Command}
    (hsubmit : job.submit = .adding rest) (k : Counter) : delta k (job.toCome j) ≤ job.target k := by
  have hran := h.ran_eq_false (by rw [hsubmit]; nofun)
  have htarget : 0 ≤ job.target k := by
    unfold Job.target
    split <;> omega
  have hworker := delta_of_suffix h.worker_suffix k
  rw [Job.toCome, delta_append, hsubmit]
  show delta k rest + _ ≤ _
  cases rest with
  | nil =>
    rw [delta_nil]
    omega
  | cons c rest =>
    have hincr : Command.incr .pending ∈ c :: rest ∧
        delta k (c :: rest) = if k = .pending then 1 else 0 := by
      rcases suffix_add (h.adding _ hsubmit) with ⟨rfl, rfl⟩ | ⟨rfl, rfl⟩ | ⟨rfl, rfl⟩ <;>
        cases k <;> simp [Command.delta]
    have hany : (job.submit.toCome j).any (Command.decr .pending).undoes = true := by
      rw [hsubmit]
      exact List.any_eq_true.mpr ⟨_, hincr.1, rfl⟩
    rw [hincr.2]
    rcases h.order (.decr .pending) (by simp [JobStore.finished]) hany with hlisted | hdecr
    · rw [toCome_of_listed hjob hlisted, delta_nil]
      cases k <;> simp [Job.target, hlisted, hran]
    · have hsuffix := h.worker_suffix
      rw [hran] at hsuffix hdecr hworker ⊢
      cases hcs : job.worker.toCome j false with
      | nil =>
        rw [hcs] at hdecr
        cases hdecr
      | cons d ds =>
        rw [hcs] at hsuffix
        rcases suffix_finished hsuffix with ⟨rfl, rfl⟩ | ⟨rfl, rfl⟩ | ⟨rfl, rfl⟩ <;>
          cases k <;> simp [Command.delta] <;> omega

/-- **No job is worth less than nothing.** -/
theorem worth_nonneg (hjob : Staged job) (h : Shaped j job) (k : Counter) : 0 ≤ job.worth k := by
  suffices hle : delta k (job.toCome j) ≤ job.target k by
    rw [job.worth_eq k j]
    omega
  have htarget : 0 ≤ job.target k := by
    unfold Job.target
    split <;> omega
  have hworker := delta_of_suffix h.worker_suffix k
  have hnone (hsubmit : delta k (job.submit.toCome j) ≤ 0) :
      delta k (job.toCome j) ≤ job.target k := by
    rw [Job.toCome, delta_append]
    omega
  cases hsubmit : job.submit with
  | adding rest => exact h.delta_adding hjob hsubmit k
  | unqueuing added =>
    obtain rfl := h.withdrawing added (.inr hsubmit)
    exact hnone (hsubmit ▸ delta_of_suffix (List.suffix_refl (JobStore.finished j false)) k)
  | undoing rest => exact hnone (hsubmit ▸ delta_of_suffix (h.undoing rest hsubmit) k)
  | _ => exact hnone (hsubmit ▸ le_refl 0)

end Shaped

end Jobs
end NetRollout
