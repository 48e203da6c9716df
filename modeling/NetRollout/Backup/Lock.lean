import NetRollout.Library.ListUpdate
import NetRollout.Library.Transition

/-!
# The backup lock

`BackupLock` of `src/backup/archive.py`, between any number of processes, each at some file
system call of its `__enter__` or `__exit__`, with the heartbeat thread of a holder beside
it.  A file keeps its content and its time when its name is given to another one, so a
holder writes its token into the file it created, whatever the name stands for by then.

Time passes so that a live holder's lock is never stale (`refreshed`); a process may be
killed at any point, and its lock then stays as it is.

## What goes wrong, and when

`_take_over_stale` checks twice that the lock is the stale one and then removes it by its
name.  Two processes may both have checked; the second removes the lock the first has
created since.  And a process on its way out no longer refreshes its lock, which may be
taken over between its own check and its removal.

`sound` is the condition on the steps under which the lock excludes: a take-over removes a
stale lock only, and a process that leaves has removed its lock before it is stale.
-/

namespace NetRollout
namespace Backup

/-- `STALE_LOCK_SECONDS`. -/
def staleLockSeconds : Nat := 5 * 60

/-- What a lock file holds. -/
inductive Content where
  | empty
  /-- An older version's, or a token no process has now. -/
  | other (bytes : Nat)
  | token (process since : Nat)
  deriving DecidableEq

/-- A file, with the time it was last written or touched. -/
structure File where
  content : Content
  mtime : Nat

/-- Where a process stands; `f` is the file it created. -/
inductive Phase where
  /-- In `_take_over_stale`: before the first `stat`, with what it has read so far, and before
  `unlink`. -/
  | entering
  | aged (before : Nat)
  | readOnce (before : Nat) (content : Content)
  | unrefreshed (content : Content)
  | unlinking
  /-- Before the `.partial` files go. -/
  | cleaning
  /-- Before the exclusive create, and before the token is written. -/
  | creating
  | opened (f : Nat)
  | held (f : Nat)
  /-- In `__exit__`: before the heartbeat is joined, before `_ours`, before `unlink`. -/
  | leaving (f : Nat)
  | checking (f : Nat)
  | removing (f : Nat)
  /-- Refused, or out again. -/
  | out
  deriving DecidableEq

/-- The heartbeat thread: waiting, or before `utime`, or ended. -/
inductive Beat where
  | waiting
  | refreshing
  | ended
  deriving DecidableEq

/-- A process. -/
structure Process where
  phase : Phase
  beat : Beat
  live : Bool
  deriving DecidableEq

/-- The backups folder: the file the lock's name stands for, and the processes. -/
structure BackupFolder where
  now : Nat
  files : List File
  path : Option Nat
  processes : List Process

/-- What a step does in the folder. -/
inductive Effect where
  | none
  | unlink
  | create
  | write (f : Nat) (content : Content)
  | touch (f : Nat)

/-- What happens next. -/
inductive Action where
  /-- A process comes. -/
  | enter
  | go (i : Nat)
  | beat (i : Nat)
  /-- The call under way raises. -/
  | raise (i : Nat)
  | kill (i : Nat)
  | tick (seconds : Nat)

namespace BackupFolder

variable (s : BackupFolder)

/-- The lock file. -/
def lock : Option File := s.path.bind fun f => s.files[f]?

/-- Not refreshed for `STALE_LOCK_SECONDS`. -/
def stale (mtime : Nat) : Bool := mtime + staleLockSeconds < s.now

/-- `_ours`. -/
def ours (i : Nat) : Bool := match s.lock with
  | some ⟨.token j _, _⟩ => j = i
  | _ => false

/-- The next call of a process. -/
def next (i : Nat) (beat : Beat) : Phase → Option (Phase × Effect)
  | .entering => some (match s.lock with
    | some file => if s.stale file.mtime then .aged file.mtime else .creating
    | none => .creating, .none)
  | .aged before => some (match s.lock with
    | some file => .readOnce before file.content
    | none => .creating, .none)
  | .readOnce before content => some (match s.lock with
    | some file => if file.mtime = before then .unrefreshed content else .cleaning
    | none => .creating, .none)
  | .unrefreshed content => some (match s.lock with
    | some file => if file.content = content then .unlinking else .cleaning
    | none => .creating, .none)
  | .unlinking => if s.path.isSome then some (.cleaning, .unlink) else some (.creating, .none)
  | .cleaning => some (.creating, .none)
  | .creating =>
    if s.path.isSome then some (.out, .none) else some (.opened s.files.length, .create)
  | .opened f => some (.held f, .write f (.token i s.now))
  | .held f => some (.leaving f, .none)
  | .leaving f => if beat = .refreshing then none else some (.checking f, .none)
  | .checking f => some (if s.ours i then .removing f else .out, .none)
  | .removing _ => some (.out, .unlink)
  | .out => none

/-- The heartbeat's next call, until `_done` is set. -/
def heartbeat (i : Nat) (phase : Phase) : Beat → Option (Beat × Effect)
  | .waiting => match phase with
    | .held _ => some (if s.ours i then .refreshing else .ended, .none)
    | _ => none
  | .refreshing => match s.path with
    | some f => some (.waiting, .touch f)
    | none => some (.ended, .none)
  | .ended => none

/-- A step's effect. -/
def apply : Effect → BackupFolder
  | .none => s
  | .unlink => { s with path := none }
  | .create => { s with files := s.files ++ [⟨.empty, s.now⟩], path := some s.files.length }
  | .write f content => { s with files := s.files.modify f fun _ => ⟨content, s.now⟩ }
  | .touch f => { s with files := s.files.modify f fun file => { file with mtime := s.now } }

/-- A process where it stands now. -/
def setProcess (i : Nat) (p : Process) : BackupFolder := { s with processes := s.processes.set i p }

def step : Action → Option BackupFolder
  | .enter => some { s with processes := s.processes ++ [⟨.entering, .waiting, true⟩] }
  | .go i => do
    let p ← s.processes[i]?
    if p.live then
      let (phase, effect) ← s.next i p.beat p.phase
      some ((s.apply effect).setProcess i { p with phase := phase })
    else none
  | .beat i => do
    let p ← s.processes[i]?
    if p.live then
      let (beat, effect) ← s.heartbeat i p.phase p.beat
      some ((s.apply effect).setProcess i { p with beat := beat })
    else none
  | .raise i => do
    let p ← s.processes[i]?
    match p.phase with
    | .held _ | .leaving _ | .out => none
    | _ => if p.live then some (s.setProcess i { p with phase := .out }) else none
  | .kill i => do
    let p ← s.processes[i]?
    some (s.setProcess i { p with live := false })
  | .tick seconds => some { s with now := s.now + seconds }

end BackupFolder

/-- The folder, with a lock an earlier process may have left. -/
def backups : System BackupFolder Action where
  Init s := s.processes = [] ∧ (s.path = none ∨ s.path = some 0 ∧ ∃ file, s.files = [file])
  step := BackupFolder.step

/-! ## Mutual exclusion -/

/-- The file a process created and has not removed yet. -/
def Phase.own : Phase → Option Nat
  | .opened f | .held f | .leaving f | .checking f | .removing f => some f
  | _ => none

/-- The lock of a holder, and of a process that leaves. -/
def Phase.holds : Phase → Option Nat
  | .opened f | .held f => some f
  | _ => none

def Phase.leaves : Phase → Option Nat
  | .leaving f | .checking f | .removing f => some f
  | _ => none

/-- No lock of these is stale when the time has passed. -/
def timely (whose : Phase → Option Nat) (s : BackupFolder) (seconds : Nat) : Bool :=
  s.processes.all fun p => !p.live || match whose p.phase with
    | some f => s.path ≠ some f ||
      (s.files[f]?).all fun file => s.now + seconds ≤ file.mtime + staleLockSeconds
    | none => true

/-- A live holder refreshes its lock in time. -/
def refreshed (s : BackupFolder) : Action → Bool
  | .tick seconds => timely Phase.holds s seconds
  | _ => true

/-- A take-over removes a stale lock only, and a process that leaves is out in time. -/
def sound (s : BackupFolder) : Action → Bool
  | .tick seconds => timely Phase.leaves s seconds
  | .go i => (s.processes[i]?).map Process.phase ≠ some .unlinking ||
    s.lock.all fun file => s.stale file.mtime
  | _ => true

/-- Between a successful enter and its exit. -/
def Process.inside (p : Process) : Prop := p.live = true ∧ ∃ f, p.phase = .held f

/-- **The lock excludes**: one live process at a time is inside, and what a process removes
on its way out is no other live process's lock. -/
structure Exclusive (s : BackupFolder) : Prop where
  one : ∀ (i j : Nat) (p q : Process), s.processes[i]? = some p → s.processes[j]? = some q →
    p.inside → q.inside → i = j
  exit : ∀ (i j : Nat) (p q : Process) (f g : Nat), s.processes[i]? = some p →
    s.processes[j]? = some q → p.live = true → p.phase = .removing f → q.live = true →
    q.phase.own = some g → s.path = some g → i = j

/-- A file in place, and not stale. -/
def Fresh (s : BackupFolder) (f : Nat) : Prop :=
  s.path = some f ∧ ∃ file, s.files[f]? = some file ∧ s.now ≤ file.mtime + staleLockSeconds

/-- What carries it: one live process has a lock, and it is in place and fresh. -/
structure Alone (s : BackupFolder) : Prop where
  one : ∀ (i j : Nat) (p q : Process) (f g : Nat), s.processes[i]? = some p →
    s.processes[j]? = some q → p.live = true → q.live = true → p.phase.own = some f →
    q.phase.own = some g → i = j
  fresh : ∀ p ∈ s.processes, ∀ f, p.live = true → p.phase.own = some f → Fresh s f

theorem own_cases {phase : Phase} {f : Nat} (h : phase.own = some f) :
    phase.holds = some f ∨ phase.leaves = some f := by
  cases phase <;> simp only [Phase.own, reduceCtorEq] at h <;>
    simp only [Phase.holds, Phase.leaves, h, or_true, true_or]

/-- **What a call of a process does**: its lock stays as it is, or is given up; or the lock
is removed by a take-over, created, written, or removed on the way out. -/
theorem next_cases {s : BackupFolder} {i : Nat} {beat : Beat} {phase phase' : Phase}
    {effect : Effect}
    (h : s.next i beat phase = some (phase', effect)) :
    (effect = .none ∧ ∀ f, phase'.own = some f → phase.own = some f) ∨
    (phase = .unlinking ∧ effect = .unlink ∧ phase'.own = none) ∨
    (effect = .create ∧ s.path = none ∧ phase'.own = some s.files.length) ∨
    (∃ f content, phase.own = some f ∧ effect = .write f content ∧ phase'.own = some f) ∨
    (∃ f, phase.own = some f ∧ effect = .unlink ∧ phase'.own = none) := by
  unfold BackupFolder.next at h
  split at h
  case h_5 =>
    split at h <;> cases h
    · exact .inr (.inl ⟨rfl, rfl, rfl⟩)
    · exact .inl ⟨rfl, nofun⟩
  case h_7 =>
    split at h <;> cases h
    · exact .inl ⟨rfl, nofun⟩
    · next hpath => exact .inr (.inr (.inl ⟨rfl, by simpa using hpath, rfl⟩))
  case h_8 f =>
    cases h
    exact .inr (.inr (.inr (.inl ⟨f, _, rfl, rfl, rfl⟩)))
  case h_10 =>
    split at h <;> cases h
    exact .inl ⟨rfl, fun _ hf => hf⟩
  case h_11 =>
    cases h
    refine .inl ⟨rfl, fun g hg => ?_⟩
    split at hg
    · exact hg
    · cases hg
  case h_12 f =>
    cases h
    exact .inr (.inr (.inr (.inr ⟨f, rfl, rfl, rfl⟩)))
  case h_13 => cases h
  case h_9 => cases h; exact .inl ⟨rfl, fun _ hf => hf⟩
  case h_6 => cases h; exact .inl ⟨rfl, nofun⟩
  all_goals
    cases h
    refine .inl ⟨rfl, fun f hf => ?_⟩
    cases hlock : s.lock <;> simp only [hlock] at hf
    · cases hf
    · try split at hf
      all_goals cases hf

/-- A write, and a touch, make a file no older. -/
theorem Fresh.modify {s : BackupFolder} {f g : Nat} {change : File → File} (h : Fresh s f)
    (hchange : ∀ file, (change file).mtime = s.now) :
    Fresh { s with files := s.files.modify g change } f := by
  obtain ⟨hpath, file, hfile, hfresh⟩ := h
  refine ⟨hpath, if g = f then change file else file, ?_, ?_⟩
  · rw [List.getElem?_modify, hfile]
    split <;> rfl
  · split
    · rw [hchange]
      exact Nat.le_add_right _ _
    · exact hfresh

namespace Alone

variable {s t : BackupFolder} {i : Nat} {p p' : Process}

/-- A process goes on, and has a lock only if it had it before. -/
theorem setProcess (h : Alone s) (hi : s.processes[i]? = some p) (ht : t.processes = s.processes)
    (hfresh : ∀ f, Fresh s f → Fresh t f)
    (hp : ∀ f, p'.live = true → p'.phase.own = some f → p.live = true ∧ p.phase.own = some f) :
    Alone (t.setProcess i p') := by
  have hback : ∀ (j : Nat) (q : Process) (f : Nat), (t.processes.set i p')[j]? = some q →
      q.live = true → q.phase.own = some f →
      ∃ q', s.processes[j]? = some q' ∧ q'.live = true ∧ q'.phase.own = some f := by
    intro j q f hj hlive hown
    rcases ListUpdate.getElem?_set_cases hj with ⟨rfl, rfl⟩ | ⟨-, hj⟩
    · exact ⟨p, hi, hp f hlive hown⟩
    · exact ⟨q, ht ▸ hj, hlive, hown⟩
  constructor
  · intro j k q r f g hj hk hq hr hf hg
    obtain ⟨q', hj', hq', hf'⟩ := hback j q f hj hq hf
    obtain ⟨r', hk', hr', hg'⟩ := hback k r g hk hr hg
    exact h.one j k q' r' f g hj' hk' hq' hr' hf' hg'
  · intro q hq f hlive hown
    obtain ⟨j, hj⟩ := List.mem_iff_getElem?.mp hq
    obtain ⟨q', hj', hlive', hown'⟩ := hback j q f hj hlive hown
    exact hfresh f (h.fresh q' (List.mem_of_getElem? hj') f hlive' hown')

/-- No other live process has a lock, and this one's is fresh. -/
theorem of_only (ht : t.processes = s.processes)
    (hothers : ∀ j q, j ≠ i → s.processes[j]? = some q → q.live = true → q.phase.own = none)
    (hp : ∀ f, p'.phase.own = some f → Fresh t f) : Alone (t.setProcess i p') := by
  have hown : ∀ (j : Nat) (q : Process) (f : Nat), (t.processes.set i p')[j]? = some q →
      q.live = true → q.phase.own = some f → j = i ∧ q = p' := by
    intro j q f hj hlive hf
    rcases ListUpdate.getElem?_set_cases hj with ⟨rfl, rfl⟩ | ⟨hne, hj⟩
    · exact ⟨rfl, rfl⟩
    · rw [hothers j q hne (ht ▸ hj) hlive] at hf
      cases hf
  constructor
  · intro j k q r f g hj hk hq hr hf hg
    exact (hown j q f hj hq hf).1.trans (hown k r g hk hr hg).1.symm
  · intro q hq f hlive hf
    obtain ⟨j, hj⟩ := List.mem_iff_getElem?.mp hq
    obtain ⟨-, rfl⟩ := hown j q f hj hlive hf
    exact hp f hf

/-- A call of a process. -/
theorem go {phase : Phase} {effect : Effect} (h : Alone s) (hsound : sound s (.go i) = true)
    (hi : s.processes[i]? = some p) (hlive : p.live = true)
    (hnext : s.next i p.beat p.phase = some (phase, effect)) :
    Alone ((s.apply effect).setProcess i { p with phase := phase }) := by
  have hkeep : ∀ f, p.phase.own = some f → ∀ j q, j ≠ i → s.processes[j]? = some q →
      q.live = true → q.phase.own = none := by
    intro f hf j q hne hj hq
    by_contra hsome
    obtain ⟨g, hg⟩ := Option.ne_none_iff_exists'.mp hsome
    exact hne (h.one j i q p g f hj hi hq hlive hg hf)
  rcases next_cases hnext with ⟨rfl, hown⟩ | ⟨hphase, rfl, hown⟩ | ⟨rfl, hpath, hown⟩ |
    ⟨f, content, hf, rfl, hown⟩ | ⟨f, hf, rfl, hown⟩
  · exact h.setProcess hi rfl (fun _ hf => hf) fun f _ hf => ⟨hlive, hown f hf⟩
  · -- what a take-over removes is stale, and so no live process's
    refine of_only rfl (fun j q _ hj hq => ?_) fun f hf => by rw [hown] at hf; cases hf
    by_contra hsome
    obtain ⟨f, hf⟩ := Option.ne_none_iff_exists'.mp hsome
    obtain ⟨hpath, file, hfile, hfresh⟩ := h.fresh q (List.mem_of_getElem? hj) f hq hf
    have hlock : s.lock = some file := by rw [BackupFolder.lock, hpath, Option.bind_some, hfile]
    simp only [sound, hi, Option.map_some, hphase, hlock, Option.all_some, BackupFolder.stale, ne_eq,
      not_true_eq_false, decide_false, Bool.false_or, decide_eq_true_eq] at hsound
    omega
  · refine of_only rfl (fun j q _ hj hq => ?_) fun f hf => ?_
    · by_contra hsome
      obtain ⟨f, hf⟩ := Option.ne_none_iff_exists'.mp hsome
      have hplace := (h.fresh q (List.mem_of_getElem? hj) f hq hf).1
      rw [hpath] at hplace
      cases hplace
    · rw [hown, Option.some.injEq] at hf
      subst hf
      exact ⟨rfl, _, List.getElem?_concat_length, Nat.le_add_right _ _⟩
  · refine h.setProcess hi rfl (fun g hg => hg.modify fun _ => rfl) fun g _ hg => ⟨hlive, ?_⟩
    rw [hf]
    exact hown.symm.trans hg
  · exact of_only rfl (hkeep f hf) fun g hg => by rw [hown] at hg; cases hg

/-- A step of a heartbeat. -/
theorem beat {b : Beat} {effect : Effect} (h : Alone s) (hi : s.processes[i]? = some p)
    (hbeat : s.heartbeat i p.phase p.beat = some (b, effect)) :
    Alone ((s.apply effect).setProcess i { p with beat := b }) := by
  have hsame : ∀ f, p.live = true → p.phase.own = some f → p.live = true ∧ p.phase.own = some f :=
    fun _ hl hf => ⟨hl, hf⟩
  unfold BackupFolder.heartbeat at hbeat
  split at hbeat
  · split at hbeat <;> cases hbeat
    exact h.setProcess hi rfl (fun _ hf => hf) hsame
  · split at hbeat <;> cases hbeat
    · exact h.setProcess hi rfl (fun _ hf => hf.modify fun _ => rfl) hsame
    · exact h.setProcess hi rfl (fun _ hf => hf) hsame
  · cases hbeat

/-- Time passes, and no live process's lock is stale. -/
theorem tick {seconds : Nat} (h : Alone s) (hholds : timely Phase.holds s seconds = true)
    (hleaves : timely Phase.leaves s seconds = true) :
    Alone { s with now := s.now + seconds } := by
  refine ⟨h.one, fun q hq f hlive hf => ?_⟩
  obtain ⟨hpath, file, hfile, -⟩ := h.fresh q hq f hlive hf
  refine ⟨hpath, file, hfile, ?_⟩
  have hin : ∀ whose : Phase → Option Nat, timely whose s seconds = true →
      whose q.phase = some f → s.now + seconds ≤ file.mtime + staleLockSeconds := by
    intro whose htimely hwhose
    have hq' := List.all_eq_true.mp htimely q hq
    simpa [hlive, hwhose, hpath, hfile] using hq'
  rcases own_cases hf with hholder | hleaver
  · exact hin _ hholds hholder
  · exact hin _ hleaves hleaver

/-- **The step lemma.** -/
theorem step {a : Action} {s' : BackupFolder} (h : Alone s)
    (hallowed : (refreshed s a && sound s a) = true) (hstep : s.step a = some s') : Alone s' := by
  rw [Bool.and_eq_true] at hallowed
  obtain ⟨hrefreshed, hsound⟩ := hallowed
  cases a with
  | enter =>
    cases hstep
    refine ⟨?_, ListUpdate.forall_mem_concat h.fresh nofun⟩
    intro j k q r f g hj hk hq hr hf hg
    rcases ListUpdate.getElem?_concat_cases hj with hj | ⟨-, rfl⟩
    · rcases ListUpdate.getElem?_concat_cases hk with hk | ⟨-, rfl⟩
      · exact h.one j k q r f g hj hk hq hr hf hg
      · cases hg
    · cases hf
  | go i =>
    simp only [BackupFolder.step, Option.bind_eq_bind, Option.bind_eq_some_iff] at hstep
    obtain ⟨p, hi, hstep⟩ := hstep
    split at hstep
    · next hlive =>
      obtain ⟨⟨phase, effect⟩, hnext, hstep⟩ := Option.bind_eq_some_iff.mp hstep
      cases hstep
      exact h.go hsound hi hlive hnext
    · cases hstep
  | beat i =>
    simp only [BackupFolder.step, Option.bind_eq_bind, Option.bind_eq_some_iff] at hstep
    obtain ⟨p, hi, hstep⟩ := hstep
    split at hstep
    · obtain ⟨⟨b, effect⟩, hbeat, hstep⟩ := Option.bind_eq_some_iff.mp hstep
      cases hstep
      exact h.beat hi hbeat
    · cases hstep
  | raise i =>
    simp only [BackupFolder.step, Option.bind_eq_bind, Option.bind_eq_some_iff] at hstep
    obtain ⟨p, hi, hstep⟩ := hstep
    split at hstep
    case h_4 =>
      split at hstep <;> cases hstep
      exact h.setProcess hi rfl (fun _ hf => hf) nofun
    all_goals cases hstep
  | kill i =>
    simp only [BackupFolder.step, Option.bind_eq_bind, Option.bind_eq_some_iff] at hstep
    obtain ⟨p, hi, hstep⟩ := hstep
    cases hstep
    exact h.setProcess hi rfl (fun _ hf => hf) nofun
  | tick seconds =>
    cases hstep
    exact h.tick hrefreshed hsound

end Alone

/-- **The lock excludes in every run whose steps are sound**, where live holders refresh it. -/
theorem exclusive_of_sound {s : BackupFolder}
    (h : backups.Reachable (fun s a => refreshed s a && sound s a) s) : Exclusive s := by
  have hinit : ∀ s : BackupFolder, backups.Init s → Alone s := by
    rintro s ⟨hnone, -⟩
    constructor
    · intro i j p q f g hi
      rw [hnone] at hi
      cases hi
    · intro p hp
      rw [hnone] at hp
      exact absurd hp List.not_mem_nil
  have halone : Alone s := h.invariant hinit fun _ _ _ _ hallowed hs hstep => hs.step hallowed hstep
  constructor
  · rintro i j p q hi hj ⟨hp, f, hf⟩ ⟨hq, g, hg⟩
    exact halone.one i j p q f g hi hj hp hq (by rw [hf]; rfl) (by rw [hg]; rfl)
  · intro i j p q f g hi hj hp hf hq hg _
    exact halone.one i j p q f g hi hj hp hq (by rw [hf]; rfl) hg

/-- The folder as the first backup finds it. -/
def BackupFolder.fresh : BackupFolder := ⟨0, [], none, []⟩

/-- A killed holder's lock is taken over, kept fresh, and given back. -/
theorem exclusive_after_a_kill :
    ∃ s, backups.Reachable (fun s a => refreshed s a && sound s a) s ∧
      s.processes.map Process.phase = [.held 0, .out, .held 1] ∧ Exclusive s := by
  have hrun : (backups.exec (fun s a => refreshed s a && sound s a) .fresh
      [.enter, .go 0, .go 0, .go 0, .enter, .go 1, .go 1, .kill 0, .tick 301, .enter, .go 2, .go 2,
        .go 2, .go 2, .go 2, .go 2, .go 2, .go 2, .tick 60, .beat 2, .beat 2, .tick 300]).any
      (fun s => s.processes.map Process.phase = [.held 0, .out, .held 1]) = true := by decide
  obtain ⟨s, hs, hends⟩ := System.exists_reachable (by exact ⟨rfl, .inl rfl⟩) hrun
  exact ⟨s, hs, of_decide_eq_true hends, exclusive_of_sound hs⟩

/-- **The lock does not exclude**: two processes find a killed holder's lock stale, the first
takes it over, and the second removes the first's lock and takes it too; and a process that
stops between its last check and its removal removes the lock of the one that took it over. -/
theorem not_exclusive :
    (∃ s p q, backups.Reachable refreshed s ∧ s.processes[1]? = some p ∧
      s.processes[2]? = some q ∧ p.inside ∧ q.inside) ∧
    ∃ s p q, backups.Reachable refreshed s ∧ s.processes[0]? = some p ∧
      s.processes[1]? = some q ∧ p.live = true ∧ p.phase = .removing 0 ∧ q.inside ∧
      s.path = q.phase.own := by
  constructor
  · have hrun : (backups.exec refreshed .fresh
        [.enter, .go 0, .go 0, .go 0, .kill 0, .tick 301, .enter, .go 1, .go 1, .go 1, .go 1, .enter,
          .go 2, .go 2, .go 2, .go 2, .go 1, .go 1, .go 1, .go 1, .go 2, .go 2, .go 2, .go 2]).any
        (fun s => s.processes[1]? = some ⟨.held 1, .waiting, true⟩ &&
          s.processes[2]? = some ⟨.held 2, .waiting, true⟩) = true := by decide
    obtain ⟨s, hs, hends⟩ := System.exists_reachable (by exact ⟨rfl, .inl rfl⟩) hrun
    rw [Bool.and_eq_true, decide_eq_true_eq, decide_eq_true_eq] at hends
    exact ⟨s, _, _, hs, hends.1, hends.2, ⟨rfl, 1, rfl⟩, ⟨rfl, 2, rfl⟩⟩
  · have hrun : (backups.exec refreshed .fresh
        [.enter, .go 0, .go 0, .go 0, .go 0, .go 0, .go 0, .tick 301, .enter, .go 1, .go 1, .go 1,
          .go 1, .go 1, .go 1, .go 1, .go 1]).any
        (fun s => s.processes[0]? = some ⟨.removing 0, .waiting, true⟩ &&
          (s.processes[1]? = some ⟨.held 1, .waiting, true⟩ && s.path = some 1)) = true := by decide
    obtain ⟨s, hs, hends⟩ := System.exists_reachable (by exact ⟨rfl, .inl rfl⟩) hrun
    simp only [Bool.and_eq_true, decide_eq_true_eq] at hends
    exact ⟨s, _, _, hs, hends.1, hends.2.1, rfl, rfl, ⟨rfl, 1, rfl⟩, hends.2.2⟩

end Backup
end NetRollout
