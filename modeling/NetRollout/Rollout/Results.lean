import NetRollout.Rollout.Engine

/-!
# One result for each device

`one_result_each`: however the pushes come to their ends, whenever the cancel flag is set and
with an interrupt at any moment, `run` returns each device's own result, in the devices' order,
and it does return.

`TaskOk` is what a device's task can be, and `Collected` what the collection knows: a device
whose future is not to come any more has its result kept, or none when it was cancelled.
-/

namespace NetRollout
namespace Rollout

open PyText (Str Unicode)
open Session (PushResult DeviceStatus classify)

variable [Unicode] [Printable] {devices : List Target} {commands : List Str} {max_workers : Nat}
  {s s' : State} {d : Target} {t t' : Task} {i : Nat} {push : Option PushResult}

/-! ## Rows -/

/-- A device's own row: its task has ended, and the row is made of its push, its commands and
what was said about it. -/
structure Own (commands : List Str) (d : Target) (t : Task) (r : DeviceResultDict) : Prop where
  built : ∃ push, t.phase = .done push ∧ row d commands push t.said = .ok r
  pushed : ∀ cs, t.pushed = some cs → d.commands_for commands = .ok cs
  began : t.flagged.isSome
  cancelled : r.status = .cancelled ↔ t.flagged = some true
  unreached : r.status = .cancelled → t.pushed = none
  skipped : t.flagged = some false → t.pushed = none →
    ∃ why, d.commands_for commands = .error (.substitution why)

/-- What a device's task can be when no push raises. -/
inductive TaskOk (commands : List Str) (d : Target) : Task → Prop where
  | waiting : TaskOk commands d {}
  | cancelled : TaskOk commands d { phase := .done none, flagged := some true }
  | skipped {why : Str} (h : d.commands_for commands = .error (.substitution why)) :
      TaskOk commands d { phase := .done (some { applied := false }), flagged := some false }
  | pushing {cs said : List Str} (h : d.commands_for commands = .ok cs) :
      TaskOk commands d ⟨.pushing, some false, some cs, said⟩
  | pushed {cs said : List Str} (h : d.commands_for commands = .ok cs) (push : PushResult) :
      TaskOk commands d ⟨.done (some push), some false, some cs, said⟩

omit [Unicode] [Printable] in
theorem classify_eq_cancelled : (classify push).status = .cancelled ↔ push = none := by
  cases push with
  | none => exact iff_of_true rfl rfl
  | some push =>
    refine iff_of_false ?_ (by simp)
    simp only [classify]
    repeat' split
    all_goals simp

theorem row_status {r : DeviceResultDict} {said : List Str} (h : row d commands push said = .ok r) :
    r.status = (classify push).status := by
  simp only [row] at h
  split at h
  · obtain rfl := Except.ok.inj h
    rfl
  · split at h
    · cases hsent : sent d commands with
      | error e =>
        rw [hsent] at h
        cases h
      | ok cs =>
        rw [hsent] at h
        obtain rfl := Except.ok.inj h
        rfl
    · obtain rfl := Except.ok.inj h
      rfl

/-- An ended task has a row, its own. -/
theorem TaskOk.exists_row (h : TaskOk commands d t) (hdone : t.phase = .done push) :
    ∃ r, row d commands push t.said = .ok r := by
  cases h with
  | waiting => cases hdone
  | pushing => cases hdone
  | cancelled =>
    obtain rfl := Phase.done.inj hdone
    exact ⟨_, rfl⟩
  | skipped =>
    obtain rfl := Phase.done.inj hdone
    exact ⟨_, rfl⟩
  | @pushed cs _ hcs push =>
    obtain rfl := Phase.done.inj hdone
    have hsent : sent d commands = .ok cs := by
      rw [sent, hcs]
    by_cases hany : push.replies.any (· ≠ []) = true
    · simp only [row, if_pos hany, hsent]
      exact ⟨_, rfl⟩
    · simp only [row, if_neg hany]
      exact ⟨_, rfl⟩

theorem TaskOk.own {r : DeviceResultDict} (h : TaskOk commands d t) (hdone : t.phase = .done push)
    (hrow : row d commands push t.said = .ok r) : Own commands d t r := by
  have hstatus := row_status hrow
  cases h with
  | waiting => cases hdone
  | pushing => cases hdone
  | cancelled =>
    obtain rfl := Phase.done.inj hdone
    exact ⟨⟨_, rfl, hrow⟩, fun _ h => (by cases h), rfl, iff_of_true hstatus rfl, fun _ => rfl,
      fun h => (by cases h)⟩
  | skipped hwhy =>
    obtain rfl := Phase.done.inj hdone
    refine ⟨⟨_, rfl, hrow⟩, fun _ h => (by cases h), rfl, iff_of_false ?_ (by simp), fun _ => rfl,
      fun _ _ => ⟨_, hwhy⟩⟩
    rw [hstatus, classify_eq_cancelled]
    exact Option.some_ne_none _
  | pushed hcs push =>
    obtain rfl := Phase.done.inj hdone
    have hne : r.status ≠ .cancelled := by
      rw [hstatus, Ne, classify_eq_cancelled]
      exact Option.some_ne_none _
    refine ⟨⟨_, rfl, hrow⟩, fun cs h => ?_, rfl, iff_of_false hne (by simp), fun h => absurd h hne,
      fun _ h => (by cases h)⟩
    obtain rfl := Option.some.inj h
    exact hcs

/-! ## The collection -/

/-- A device's worker has ended, with this. -/
def State.Finished (s : State) (i : Nat) (push : Option PushResult) : Prop :=
  ∃ t, s.tasks[i]? = some t ∧ t.phase = .done push

/-- What the thread of `run` knows. -/
def Collected (devices : List Target) (commands : List Str) (s : State) : Wait → Prop
  | .collecting remaining holding _ =>
    (∀ i ∈ remaining, i < devices.length) ∧
      (∀ i push, holding = some (i, push) → s.Finished i push) ∧
      ∀ i < devices.length,
        i ∈ remaining ∨ (∃ push, holding = some (i, push)) ∨ s.Finished i (s.push_results i)
  | .returned results =>
    results.length = devices.length ∧
      ∀ (i : Nat) d r, devices[i]? = some d → results[i]? = some r →
        ∃ t push, s.tasks[i]? = some t ∧ t.phase = .done push ∧ row d commands push t.said = .ok r
  | .raised => False

structure Inv (devices : List Target) (commands : List Str) (s : State) : Prop where
  length : s.tasks.length = devices.length
  tasks : ∀ (i : Nat) d t, devices[i]? = some d → s.tasks[i]? = some t → TaskOk commands d t
  said : ∀ (i : Nat) d t, devices[i]? = some d → s.tasks[i]? = some t →
    s.needs_action d.endpoint = t.said
  stored : ∀ i push, s.push_results i = some push → s.Finished i (some push)
  collected : Collected devices commands s s.wait

omit [Unicode] [Printable] in
theorem State.Finished.of_set {t' : Task} (h : s.Finished i push) {j : Nat}
    (htasks : s'.tasks = s.tasks.set j t') (ht : s.tasks[j]? = some t)
    (hopen : ∀ push, t.phase ≠ .done push) : s'.Finished i push := by
  obtain ⟨u, hu, hdone⟩ := h
  have hne : j ≠ i := by
    rintro rfl
    obtain rfl := Option.some.inj (ht.symm.trans hu)
    exact hopen _ hdone
  exact ⟨u, by rw [htasks, List.getElem?_set_ne hne, hu], hdone⟩

/-- A task that has not ended goes on. -/
theorem Inv.of_set (h : Inv devices commands s) (hi : s.tasks[i]? = some t)
    (hopen : ∀ push, t.phase ≠ .done push) (htasks : s'.tasks = s.tasks.set i t')
    (hresults : s'.push_results = s.push_results) (hwait : s'.wait = s.wait)
    (hok : ∀ d, devices[i]? = some d → TaskOk commands d t')
    (hsaid : ∀ (j : Nat) d t, devices[j]? = some d → s'.tasks[j]? = some t →
      s'.needs_action d.endpoint = t.said) : Inv devices commands s' where
  length := by rw [htasks, List.length_set, h.length]
  tasks := by
    intro j d u hd hu
    rw [htasks] at hu
    rcases ListUpdate.getElem?_set_cases hu with ⟨rfl, rfl⟩ | ⟨-, hu⟩
    · exact hok d hd
    · exact h.tasks j d u hd hu
  said := hsaid
  stored := by
    intro j push hpush
    rw [hresults] at hpush
    exact (h.stored j push hpush).of_set htasks hi hopen
  collected := by
    have hc := h.collected
    rw [hwait]
    cases hw : s.wait with
    | raised =>
      rw [hw] at hc
      exact hc
    | collecting remaining holding interrupted =>
      rw [hw] at hc
      obtain ⟨hrange, hholding, hall⟩ := hc
      refine ⟨hrange, fun j push hj => (hholding j push hj).of_set htasks hi hopen,
        fun j hj => ?_⟩
      rcases hall j hj with hmem | hheld | hfinished
      · exact .inl hmem
      · exact .inr (.inl hheld)
      · exact .inr (.inr (hresults ▸ hfinished.of_set htasks hi hopen))
    | returned results =>
      rw [hw] at hc
      refine ⟨hc.1, fun j d r hd hr => ?_⟩
      obtain ⟨u, push, hu, hdone, hrow⟩ := hc.2 j d r hd hr
      have hne : i ≠ j := by
        rintro rfl
        obtain rfl := Option.some.inj (hi.symm.trans hu)
        exact hopen _ hdone
      exact ⟨u, push, by rw [htasks, List.getElem?_set_ne hne, hu], hdone, hrow⟩

/-! ## What a step keeps -/

omit [Unicode] in
theorem TaskOk.of_waiting (h : TaskOk commands d t) (ht : t.phase.isWaiting = true) : t = {} := by
  cases h with
  | waiting => rfl
  | cancelled => cases ht
  | skipped => cases ht
  | pushing => cases ht
  | pushed => cases ht

omit [Unicode] in
theorem TaskOk.of_pushing (h : TaskOk commands d t) (ht : t.phase.isPushing = true) :
    ∃ cs said, d.commands_for commands = .ok cs ∧ t = ⟨.pushing, some false, some cs, said⟩ := by
  cases h with
  | waiting => cases ht
  | cancelled => cases ht
  | skipped => cases ht
  | pushing hcs => exact ⟨_, _, hcs, rfl⟩
  | pushed => cases ht

omit [Unicode] [Printable] in
theorem not_done_of_pushing (ht : t.phase.isPushing = true) (push : Option PushResult) :
    t.phase ≠ .done push := fun h => by
  rw [h] at ht
  cases ht

/-- What is said about the others stays, and what is said about the device is its own. -/
theorem Inv.said_of_set (h : Inv devices commands s) (hi : s.tasks[i]? = some t)
    (htasks : s'.tasks = s.tasks.set i t') (hneeds : s'.needs_action = s.needs_action)
    (hsaid : t'.said = t.said) :
    ∀ (j : Nat) d u, devices[j]? = some d → s'.tasks[j]? = some u →
      s'.needs_action d.endpoint = u.said := by
  intro j d u hd hu
  rw [htasks] at hu
  rw [hneeds]
  rcases ListUpdate.getElem?_set_cases hu with ⟨rfl, rfl⟩ | ⟨-, hu⟩
  · rw [hsaid]
    exact h.said j d t hd hi
  · exact h.said j d u hd hu

theorem inv_start (flag : Bool) (hdevices : devices ≠ []) (hcommands : commands ≠ []) :
    Inv devices commands (start devices commands flag) := by
  have hnew : ∀ {i : Nat} {t : Task},
      (start devices commands flag).tasks[i]? = some t → t = {} := by
    intro i t ht
    simp only [start, List.getElem?_map, Option.map_eq_some_iff] at ht
    obtain ⟨_, -, rfl⟩ := ht
    rfl
  have hwait : (start devices commands flag).wait =
      .collecting (List.range devices.length) none false := by
    simp [start, hdevices, hcommands]
  constructor
  · exact List.length_map _
  · intro i d t _ ht
    rw [hnew ht]
    exact .waiting
  · intro i d t _ ht
    rw [hnew ht]
    rfl
  · intro i push h
    cases h
  · rw [hwait]
    exact ⟨fun i hi => List.mem_range.mp hi, fun i push h => (by cases h),
      fun i hi => .inl (List.mem_range.mpr hi)⟩

/-- Every device's row can be made, and is its own. -/
theorem exists_resultsFrom {needs_action : Str → List Str}
    {push_results : Nat → Option PushResult} {ds : List Target} {idx : Nat}
    (hrow : ∀ (j : Nat) d, ds[j]? = some d →
      ∃ r, row d commands (push_results (idx + j)) (needs_action d.endpoint) = .ok r) :
    ∃ results, resultsFrom commands push_results needs_action idx ds = .ok results ∧
      results.length = ds.length ∧
      ∀ (j : Nat) d r, ds[j]? = some d → results[j]? = some r →
        row d commands (push_results (idx + j)) (needs_action d.endpoint) = .ok r := by
  induction ds generalizing idx with
  | nil => exact ⟨[], rfl, rfl, fun j d r hd => by cases hd⟩
  | cons d ds ih =>
    obtain ⟨r, hr⟩ := hrow 0 d rfl
    rw [Nat.add_zero] at hr
    have hrest : ∀ (j : Nat) d, ds[j]? = some d →
        ∃ r, row d commands (push_results (idx + 1 + j)) (needs_action d.endpoint) = .ok r := by
      intro j d hd
      rw [Nat.add_assoc, Nat.add_comm 1 j]
      exact hrow (j + 1) d hd
    obtain ⟨rs, hrs, hlen, hown⟩ := ih hrest
    refine ⟨r :: rs, ?_, congrArg (· + 1) hlen, fun j d' r' hd hr' => ?_⟩
    · rw [resultsFrom, hr]
      show (resultsFrom commands push_results needs_action (idx + 1) ds >>= _) = _
      rw [hrs]
      rfl
    · cases j with
      | zero =>
        obtain rfl := Option.some.inj hd
        obtain rfl := Option.some.inj hr'
        exact hr
      | succ j =>
        rw [Nat.add_comm j 1, ← Nat.add_assoc]
        exact hown j d' r' hd hr'

/-! ## What a step does -/

/-- The steps of the engine, each with what it needs and the state after it. -/
inductive Stepped (devices : List Target) (commands : List Str) (max_workers : Nat) (s : State) :
    Action → State → Prop
  | cancel : Stepped devices commands max_workers s .cancel { s with flag := true }
  | begin {i : Nat} {d : Target} {t : Task} (hd : devices[i]? = some d) (ht : s.tasks[i]? = some t)
    (hwaiting : t.phase.isWaiting = true) (hfree : s.running < max_workers) :
    Stepped devices commands max_workers s (.begin i) (s.setTask i (began commands d s.flag t))
  | needed {i : Nat} {d : Target} {t : Task} {what : Str} (hd : devices[i]? = some d)
    (ht : s.tasks[i]? = some t) (hpushing : t.phase.isPushing = true) :
    Stepped devices commands max_workers s (.needed i what)
      { s.setTask i { t with said := t.said ++ [Logs.redact what] } with
        needs_action := Function.update s.needs_action d.endpoint
          (s.needs_action d.endpoint ++ [Logs.redact what]) }
  | finish {i : Nat} {t : Task} {push : PushResult} (ht : s.tasks[i]? = some t)
    (hpushing : t.phase.isPushing = true) :
    Stepped devices commands max_workers s (.finish i push)
      (s.setTask i { t with phase := .done (some push) })
  | crash {i : Nat} {t : Task} (ht : s.tasks[i]? = some t) (hpushing : t.phase.isPushing = true) :
    Stepped devices commands max_workers s (.crash i) (s.setTask i { t with phase := .raised })
  | take {i : Nat} {t : Task} {push : Option PushResult} {remaining : List Nat} {interrupted : Bool}
    (hwait : s.wait = .collecting remaining none interrupted) (ht : s.tasks[i]? = some t)
    (hmem : i ∈ remaining) (hdone : t.phase = .done push) :
    Stepped devices commands max_workers s (.take i)
      { s with wait := .collecting (remaining.erase i) (some (i, push)) interrupted }
  | takeRaised {i : Nat} {t : Task} {remaining : List Nat} {interrupted : Bool}
    (hwait : s.wait = .collecting remaining none interrupted) (ht : s.tasks[i]? = some t)
    (hmem : i ∈ remaining) (hraised : t.phase = .raised) :
    Stepped devices commands max_workers s (.take i) { s with wait := .raised }
  | storeNone {i : Nat} {remaining : List Nat} {interrupted : Bool}
    (hwait : s.wait = .collecting remaining (some (i, none)) interrupted) :
    Stepped devices commands max_workers s .store
      { s with wait := .collecting remaining none interrupted }
  | store {i : Nat} {push : PushResult} {remaining : List Nat} {interrupted : Bool}
    (hwait : s.wait = .collecting remaining (some (i, some push)) interrupted) :
    Stepped devices commands max_workers s .store
      { s with
        push_results := Function.update s.push_results i (some push)
        wait := .collecting remaining none interrupted }
  | interrupt {remaining : List Nat} {holding : Option (Nat × Option PushResult)}
    (hwait : s.wait = .collecting remaining holding false) :
    Stepped devices commands max_workers s .interrupt
      { s with
        flag := true
        wait := .collecting
          ((List.range devices.length).filter fun i => (s.push_results i).isNone) none true }
  | results {interrupted : Bool} {results : List DeviceResultDict}
    (hwait : s.wait = .collecting [] none interrupted)
    (hresults : resultsFrom commands s.push_results s.needs_action 0 devices = .ok results) :
    Stepped devices commands max_workers s .results { s with wait := .returned results }
  | resultsRaised {interrupted : Bool} {e : Raised}
    (hwait : s.wait = .collecting [] none interrupted)
    (hresults : resultsFrom commands s.push_results s.needs_action 0 devices = .error e) :
    Stepped devices commands max_workers s .results { s with wait := .raised }

theorem stepped_of_step {a : Action} (h : step devices commands max_workers s a = some s') :
    Stepped devices commands max_workers s a s' := by
  cases a with
  | cancel =>
    obtain rfl := Option.some.inj h
    exact .cancel
  | begin i =>
    simp only [step] at h
    split at h
    · next d t hd ht =>
      obtain ⟨hwaiting, h⟩ := Option.ite_none_right_eq_some.mp h
      obtain rfl := Option.some.inj h
      exact .begin hd ht hwaiting.1 hwaiting.2
    · cases h
  | needed i what =>
    simp only [step] at h
    split at h
    · next d t hd ht =>
      obtain ⟨hpushing, h⟩ := Option.ite_none_right_eq_some.mp h
      obtain rfl := Option.some.inj h
      exact .needed hd ht hpushing
    · cases h
  | finish i push =>
    simp only [step] at h
    split at h
    · next t ht =>
      obtain ⟨hpushing, h⟩ := Option.ite_none_right_eq_some.mp h
      obtain rfl := Option.some.inj h
      exact .finish ht hpushing
    · cases h
  | crash i =>
    simp only [step] at h
    split at h
    · next t ht =>
      obtain ⟨hpushing, h⟩ := Option.ite_none_right_eq_some.mp h
      obtain rfl := Option.some.inj h
      exact .crash ht hpushing
    · cases h
  | take i =>
    simp only [step] at h
    split at h
    · next remaining interrupted t hwait ht =>
      obtain ⟨hmem, h⟩ := Option.ite_none_right_eq_some.mp h
      split at h
      · next push hdone =>
        obtain rfl := Option.some.inj h
        exact .take hwait ht hmem hdone
      · next hraised =>
        obtain rfl := Option.some.inj h
        exact .takeRaised hwait ht hmem hraised
      · cases h
    · cases h
  | store =>
    simp only [step] at h
    split at h
    · next hwait =>
      obtain rfl := Option.some.inj h
      exact .storeNone hwait
    · next hwait =>
      obtain rfl := Option.some.inj h
      exact .store hwait
    · cases h
  | interrupt =>
    simp only [step] at h
    split at h
    · next hwait =>
      obtain rfl := Option.some.inj h
      exact .interrupt hwait
    · cases h
  | results =>
    simp only [step] at h
    split at h
    · next hwait =>
      split at h
      · next hresults =>
        obtain rfl := Option.some.inj h
        exact .results hwait hresults
      · next hresults =>
        obtain rfl := Option.some.inj h
        exact .resultsRaised hwait hresults
    · cases h

/-! ## What a step keeps -/

section Steps

variable (h : Inv devices commands s)
include h

theorem Inv.begin {d : Target} {t : Task}
    (hallowed : noneRaises devices commands s (.begin i) = true) (hd : devices[i]? = some d)
    (ht : s.tasks[i]? = some t) (hwaiting : t.phase.isWaiting = true) :
    Inv devices commands (s.setTask i (began commands d s.flag t)) := by
  obtain rfl := (h.tasks i d t hd ht).of_waiting hwaiting
  have hok : TaskOk commands d (began commands d s.flag {}) ∧
      (began commands d s.flag {}).said = [] := by
    rw [began]
    split
    · exact ⟨.cancelled, rfl⟩
    · next hflag =>
      split
      · next hcs => exact ⟨.pushing hcs, rfl⟩
      · next hwhy => exact ⟨.skipped hwhy, rfl⟩
      · next e hne herr =>
        simp only [noneRaises, hflag, hd, herr] at hallowed
        cases e with
        | substitution why => exact absurd rfl (hne why)
        | key => cases hallowed
        | index => cases hallowed
  refine h.of_set ht (fun _ hdone => by cases hdone) rfl rfl rfl (fun d' hd' => ?_)
    (h.said_of_set ht rfl rfl hok.2)
  obtain rfl := Option.some.inj (hd.symm.trans hd')
  exact hok.1

theorem Inv.finish {t : Task} (ht : s.tasks[i]? = some t) (hpushing : t.phase.isPushing = true)
    (push : PushResult) :
    Inv devices commands (s.setTask i { t with phase := .done (some push) }) := by
  refine h.of_set ht (not_done_of_pushing hpushing) rfl rfl rfl (fun d hd => ?_)
    (h.said_of_set ht rfl rfl rfl)
  obtain ⟨cs, said, hcs, rfl⟩ := (h.tasks i d t hd ht).of_pushing hpushing
  exact .pushed hcs push

theorem Inv.needed {d : Target} {t : Task} {what : Str}
    (hdistinct : (devices.map Target.endpoint).Nodup) (hd : devices[i]? = some d)
    (ht : s.tasks[i]? = some t) (hpushing : t.phase.isPushing = true) :
    Inv devices commands { s.setTask i { t with said := t.said ++ [Logs.redact what] } with
      needs_action := Function.update s.needs_action d.endpoint
        (s.needs_action d.endpoint ++ [Logs.redact what]) } := by
  refine h.of_set ht (not_done_of_pushing hpushing) rfl rfl rfl (fun d' hd' => ?_) ?_
  · obtain ⟨cs, said, hcs, rfl⟩ := (h.tasks i d' t hd' ht).of_pushing hpushing
    exact .pushing hcs
  · intro j d' u hd' hu
    rcases ListUpdate.getElem?_set_cases hu with ⟨rfl, rfl⟩ | ⟨hne, hu⟩
    · obtain rfl := Option.some.inj (hd.symm.trans hd')
      show Function.update _ d.endpoint _ d.endpoint = _
      rw [Function.update_self, h.said j d t hd ht]
    · have hother : d'.endpoint ≠ d.endpoint := by
        intro heq
        refine hne ((List.getElem?_inj ?_ hdistinct).mp ?_)
        · rw [List.length_map]
          exact (List.getElem?_eq_some_iff.mp hd').1
        · rw [List.getElem?_map, List.getElem?_map, hd, hd', Option.map_some,
            Option.map_some, heq]
      show Function.update _ d.endpoint _ d'.endpoint = _
      rw [Function.update_of_ne hother]
      exact h.said j d' u hd' hu

section Collecting

variable {remaining : List Nat} {interrupted : Bool}

theorem Inv.take {t : Task} (hwait : s.wait = .collecting remaining none interrupted)
    (ht : s.tasks[i]? = some t) (hdone : t.phase = .done push) :
    Inv devices commands
      { s with wait := .collecting (remaining.erase i) (some (i, push)) interrupted } := by
  have hc := h.collected
  rw [hwait] at hc
  obtain ⟨hrange, -, hall⟩ := hc
  refine ⟨h.length, h.tasks, h.said, h.stored,
    fun j hj => hrange j (List.mem_of_mem_erase hj), ?_, fun j hj => ?_⟩
  · intro j push' heq
    cases heq
    exact ⟨t, ht, hdone⟩
  · by_cases hji : j = i
    · exact .inr (.inl ⟨push, by rw [hji]⟩)
    · rcases hall j hj with hmem | ⟨_, hheld⟩ | hfinished
      · exact .inl ((List.mem_erase_of_ne hji).mpr hmem)
      · cases hheld
      · exact .inr (.inr hfinished)

/-- No worker of a device that is still to come has raised. -/
theorem Inv.not_raised {t : Task} (hwait : s.wait = .collecting remaining none interrupted)
    (ht : s.tasks[i]? = some t) (hmem : i ∈ remaining) : t.phase ≠ .raised := by
  intro hraised
  have hc := h.collected
  rw [hwait] at hc
  have hok := h.tasks i _ t (List.getElem?_eq_getElem (hc.1 i hmem)) ht
  cases hok <;> cases hraised

theorem Inv.storeNone (hwait : s.wait = .collecting remaining (some (i, none)) interrupted) :
    Inv devices commands { s with wait := .collecting remaining none interrupted } := by
  have hc := h.collected
  rw [hwait] at hc
  obtain ⟨hrange, hholding, hall⟩ := hc
  refine ⟨h.length, h.tasks, h.said, h.stored, hrange, fun j push heq => (by cases heq),
    fun j hj => ?_⟩
  rcases hall j hj with hmem | ⟨push, hheld⟩ | hfin
  · exact .inl hmem
  · cases hheld
    refine .inr (.inr ?_)
    cases hstored : s.push_results i with
    | none => exact hholding i none rfl
    | some push => exact h.stored i push hstored
  · exact .inr (.inr hfin)

theorem Inv.store {push : PushResult}
    (hwait : s.wait = .collecting remaining (some (i, some push)) interrupted) :
    Inv devices commands
      { s with
        push_results := Function.update s.push_results i (some push)
        wait := .collecting remaining none interrupted } := by
  have hc := h.collected
  rw [hwait] at hc
  obtain ⟨hrange, hholding, hall⟩ := hc
  have hfinished := hholding i (some push) rfl
  have hself : Function.update s.push_results i (some push) i = some push :=
    Function.update_self ..
  have hother : ∀ j, j ≠ i →
      Function.update s.push_results i (some push) j = s.push_results j :=
    fun j hji => Function.update_of_ne hji ..
  refine ⟨h.length, h.tasks, h.said, fun j push' heq => ?_, hrange,
    fun j push' heq => (by cases heq), fun j hj => ?_⟩
  · have heq' : Function.update s.push_results i (some push) j = some push' := heq
    by_cases hji : j = i
    · subst hji
      obtain rfl := Option.some.inj (hself.symm.trans heq')
      exact hfinished
    · exact h.stored j push' ((hother j hji).symm.trans heq')
  · by_cases hji : j = i
    · subst hji
      have hkept : s.Finished j (Function.update s.push_results j (some push) j) := by
        rw [hself]
        exact hfinished
      exact .inr (.inr hkept)
    · rcases hall j hj with hmem | ⟨push', hheld⟩ | hfin
      · exact .inl hmem
      · cases hheld
        exact absurd rfl hji
      · have hkept : s.Finished j (Function.update s.push_results i (some push) j) := by
          rw [hother j hji]
          exact hfin
        exact .inr (.inr hkept)

theorem Inv.interrupt :
    Inv devices commands
      { s with
        flag := true
        wait := .collecting
          ((List.range devices.length).filter fun i => (s.push_results i).isNone) none true } := by
  refine ⟨h.length, h.tasks, h.said, h.stored, fun j hj => ?_, fun j push heq => (by cases heq),
    fun j hj => ?_⟩
  · exact List.mem_range.mp (List.mem_of_mem_filter hj)
  · cases hstored : s.push_results j with
    | none =>
      exact .inl (List.mem_filter.mpr ⟨List.mem_range.mpr hj, by rw [hstored]; rfl⟩)
    | some push =>
      exact .inr (.inr (hstored ▸ h.stored j push hstored))

/-- Once every device has come, every worker has ended, and what it came to is kept. -/
theorem Inv.exists_results (hwait : s.wait = .collecting [] none interrupted) :
    ∃ results, resultsFrom commands s.push_results s.needs_action 0 devices = .ok results ∧
      Inv devices commands { s with wait := .returned results } := by
  have hc := h.collected
  rw [hwait] at hc
  obtain ⟨-, -, hall⟩ := hc
  have hdone : ∀ (j : Nat) d, devices[j]? = some d → ∃ t, s.tasks[j]? = some t ∧
      t.phase = .done (s.push_results j) ∧ s.needs_action d.endpoint = t.said := by
    intro j d hd
    rcases hall j (List.getElem?_eq_some_iff.mp hd).1 with hmem | ⟨_, hheld⟩ | ⟨t, ht, hphase⟩
    · cases hmem
    · cases hheld
    · exact ⟨t, ht, hphase, h.said j d t hd ht⟩
  have hrow : ∀ (j : Nat) d, devices[j]? = some d →
      ∃ r, row d commands (s.push_results (0 + j)) (s.needs_action d.endpoint) = .ok r := by
    intro j d hd
    obtain ⟨t, ht, hphase, hsaid⟩ := hdone j d hd
    rw [Nat.zero_add, hsaid]
    exact (h.tasks j d t hd ht).exists_row hphase
  obtain ⟨results, hresults, hlen, hown⟩ := exists_resultsFrom hrow
  refine ⟨results, hresults, h.length, h.tasks, h.said, h.stored, hlen, fun j d r hd hr => ?_⟩
  obtain ⟨t, ht, hphase, hsaid⟩ := hdone j d hd
  have hrow := hown j d r hd hr
  rw [Nat.zero_add, hsaid] at hrow
  exact ⟨t, _, ht, hphase, hrow⟩

end Collecting

/-- A step in which no push raises keeps the invariant. -/
theorem Inv.stepped {a : Action} (hdistinct : (devices.map Target.endpoint).Nodup)
    (hallowed : noneRaises devices commands s a = true)
    (hstepped : Stepped devices commands max_workers s a s') : Inv devices commands s' := by
  cases hstepped with
  | cancel => exact ⟨h.length, h.tasks, h.said, h.stored, h.collected⟩
  | begin hd ht hwaiting => exact h.begin hallowed hd ht hwaiting
  | needed hd ht hpushing => exact h.needed hdistinct hd ht hpushing
  | finish ht hpushing => exact h.finish ht hpushing _
  | crash => cases hallowed
  | take hwait ht hmem hdone => exact h.take hwait ht hdone
  | takeRaised hwait ht hmem hraised => exact absurd hraised (h.not_raised hwait ht hmem)
  | storeNone hwait => exact h.storeNone hwait
  | store hwait => exact h.store hwait
  | interrupt => exact h.interrupt
  | results hwait hresults =>
    obtain ⟨results, hok, hinv⟩ := h.exists_results hwait
    rw [hresults] at hok
    cases hok
    exact hinv
  | resultsRaised hwait hresults =>
    obtain ⟨results, hok, -⟩ := h.exists_results hwait
    rw [hresults] at hok
    cases hok

end Steps

theorem inv_of_run (hdevices : devices ≠ []) (hcommands : commands ≠ [])
    (hdistinct : (devices.map Target.endpoint).Nodup)
    (h : (engine devices commands max_workers).Reachable (noneRaises devices commands) s) :
    Inv devices commands s := by
  refine h.invariant ?_ ?_
  · rintro _ ⟨flag, rfl⟩
    exact inv_start flag hdevices hcommands
  · intro s a s' _ hallowed hinv hstep
    exact hinv.stepped hdistinct hallowed (stepped_of_step hstep)

/-! ## It returns -/

/-- What the thread of `run` has still to do with `n` devices. -/
def Wait.left (n : Nat) : Wait → Nat
  | collecting remaining holding interrupted =>
    2 * remaining.length + holding.toList.length + 1 + if interrupted then 0 else 2 * n + 2
  | returned _ => 0
  | raised => 0

/-- What a run has still to do. -/
def State.left (s : State) (n : Nat) : Nat :=
  2 * s.tasks.countP (·.phase.isWaiting) + s.running + s.wait.left n

/-- Not a step of the engine's own: the flag is set, a push says something or raises, an
interrupt comes. -/
def Action.isOutside : Action → Bool
  | cancel => true
  | needed _ _ => true
  | crash _ => true
  | interrupt => true
  | _ => false

omit [Unicode] [Printable] in
/-- A task that goes on takes something off. -/
theorem left_setTask {n : Nat} (hi : s.tasks[i]? = some t)
    (h : t.phase.isWaiting = true ∧ t'.phase.isWaiting = false ∨
      t.phase.isPushing = true ∧ t'.phase.isWaiting = false ∧ t'.phase.isPushing = false) :
    (s.setTask i t').left n < s.left n := by
  have hwaiting := ListUpdate.countP_set_add (a := t') (·.phase.isWaiting) hi
  have hrunning := ListUpdate.countP_set_add (a := t') (·.phase.isPushing) hi
  simp only [State.left, State.running, State.setTask]
  rcases h with ⟨ht, ht'⟩ | ⟨ht, ht', ht''⟩
  · have hone : t.phase.isPushing = false := by
      cases hp : t.phase <;> simp only [hp, Phase.isWaiting] at ht <;>
        first | rfl | cases ht
    simp only [ht, ht', hone] at hwaiting hrunning
    cases hp : t'.phase.isPushing <;> simp only [hp] at hrunning <;> simp at hwaiting hrunning <;>
      omega
  · have hone : t.phase.isWaiting = false := by
      cases hp : t.phase <;> simp only [hp, Phase.isPushing] at ht <;>
        first | rfl | cases ht
    simp only [ht, ht', ht'', hone] at hwaiting hrunning
    simp at hwaiting hrunning
    omega

omit [Unicode] [Printable] in
theorem left_setTask_of_phase {n : Nat} (hi : s.tasks[i]? = some t) (h : t'.phase = t.phase) :
    (s.setTask i t').left n = s.left n := by
  have hwaiting := ListUpdate.countP_set_add (a := t') (·.phase.isWaiting) hi
  have hrunning := ListUpdate.countP_set_add (a := t') (·.phase.isPushing) hi
  rw [h] at hwaiting hrunning
  simp only [State.left, State.running, State.setTask]
  omega

omit [Unicode] in
theorem began_not_waiting (flag : Bool) : (began commands d flag t).phase.isWaiting = false := by
  rw [began]
  split
  · rfl
  · split <;> rfl

/-- Every step of the engine's own takes something off what it has to do. -/
theorem left_of_step {a : Action} (hstep : step devices commands max_workers s a = some s') :
    s'.left devices.length ≤ s.left devices.length ∧
      (a.isOutside = false → s'.left devices.length < s.left devices.length) := by
  have hless : s'.left devices.length < s.left devices.length →
      s'.left devices.length ≤ s.left devices.length ∧
        (a.isOutside = false → s'.left devices.length < s.left devices.length) :=
    fun h => ⟨h.le, fun _ => h⟩
  cases stepped_of_step hstep with
  | cancel => exact ⟨le_refl _, fun h => by cases h⟩
  | begin hd ht hwaiting => exact hless (left_setTask ht (.inl ⟨hwaiting, began_not_waiting _⟩))
  | @needed i d t what hd ht =>
    have hsame : (s.setTask i { t with said := t.said ++ [Logs.redact what] }).left
        devices.length = s.left devices.length := left_setTask_of_phase ht rfl
    exact ⟨hsame.le, fun h => by cases h⟩
  | finish ht hpushing => exact hless (left_setTask ht (.inr ⟨hpushing, rfl, rfl⟩))
  | crash ht hpushing => exact hless (left_setTask ht (.inr ⟨hpushing, rfl, rfl⟩))
  | take hwait ht hmem =>
    have hlen := List.length_erase_of_mem hmem
    have hpos := List.length_pos_of_mem hmem
    refine hless ?_
    simp only [State.left, State.running, hwait, Wait.left, Option.toList_some,
      Option.toList_none, List.length_singleton, List.length_nil, hlen]
    omega
  | takeRaised hwait =>
    refine hless ?_
    simp only [State.left, State.running, hwait, Wait.left]
    omega
  | storeNone hwait =>
    refine hless ?_
    simp only [State.left, State.running, hwait, Wait.left, Option.toList_some,
      Option.toList_none, List.length_singleton, List.length_nil]
    omega
  | store hwait =>
    refine hless ?_
    simp only [State.left, State.running, hwait, Wait.left, Option.toList_some,
      Option.toList_none, List.length_singleton, List.length_nil]
    omega
  | interrupt hwait =>
    have hlen := List.length_filter_le (fun i => (s.push_results i).isNone)
      (List.range devices.length)
    rw [List.length_range] at hlen
    refine hless ?_
    simp only [State.left, State.running, hwait, Wait.left, Option.toList_none,
      List.length_nil, if_true, Bool.false_eq_true, if_false]
    omega
  | results hwait =>
    refine hless ?_
    simp only [State.left, State.running, hwait, Wait.left]
    omega
  | resultsRaised hwait =>
    refine hless ?_
    simp only [State.left, State.running, hwait, Wait.left]
    omega

/-- Until it returns, a step of the engine's own is enabled. -/
theorem Inv.exists_step (h : Inv devices commands s) (hworkers : 0 < max_workers)
    (hopen : ∀ results, s.wait ≠ .returned results) :
    ∃ a s', a.isOutside = false ∧ step devices commands max_workers s a = some s' := by
  have hc := h.collected
  cases hwait : s.wait with
  | raised =>
    rw [hwait] at hc
    exact hc.elim
  | returned results => exact absurd hwait (hopen results)
  | collecting remaining holding interrupted =>
    rw [hwait] at hc
    obtain ⟨hrange, -, -⟩ := hc
    rcases holding with _ | ⟨i, push⟩
    · rcases remaining with _ | ⟨i, remaining⟩
      · cases hresults : resultsFrom commands s.push_results s.needs_action 0 devices with
        | ok results => exact ⟨.results, _, rfl, by simp only [step, hwait, hresults]; rfl⟩
        | error e => exact ⟨.results, _, rfl, by simp only [step, hwait, hresults]; rfl⟩
      · -- the next device still to come: its worker has ended, is at work, or is to begin
        have hi := hrange i List.mem_cons_self
        have hd := List.getElem?_eq_getElem hi
        obtain ⟨t, ht⟩ : ∃ t, s.tasks[i]? = some t :=
          ⟨_, List.getElem?_eq_getElem (h.length ▸ hi)⟩
        by_cases hbusy : ∃ u ∈ s.tasks, u.phase.isPushing = true
        · obtain ⟨u, hu, hpushing⟩ := hbusy
          obtain ⟨j, hj⟩ := List.getElem?_of_mem hu
          exact ⟨.finish j { applied := true }, _, rfl, by
            simp only [step, hj, if_pos hpushing]
            rfl⟩
        · have hidle : s.running = 0 := List.countP_eq_zero.mpr fun u hu hpushing =>
            hbusy ⟨u, hu, hpushing⟩
          cases hphase : t.phase with
          | waiting =>
            have hfree : t.phase.isWaiting = true ∧ s.running < max_workers :=
              ⟨by rw [hphase]; rfl, hidle ▸ hworkers⟩
            exact ⟨.begin i, _, rfl, by simp only [step, hd, ht, if_pos hfree]; rfl⟩
          | pushing =>
            exact absurd ⟨t, List.mem_of_getElem? ht, by rw [hphase]; rfl⟩ hbusy
          | done push =>
            exact ⟨.take i, _, rfl, by
              simp only [step, hwait, ht, if_pos List.mem_cons_self, hphase]
              rfl⟩
          | raised =>
            exact ⟨.take i, _, rfl, by
              simp only [step, hwait, ht, if_pos List.mem_cons_self, hphase]
              rfl⟩
    · cases push with
      | none => exact ⟨.store, _, rfl, by simp only [step, hwait]; rfl⟩
      | some push => exact ⟨.store, _, rfl, by simp only [step, hwait]; rfl⟩

/-- **One result for each device**, its own, and `run` returns it. -/
theorem one_result_each (hdevices : devices ≠ []) (hcommands : commands ≠ [])
    (hdistinct : (devices.map Target.endpoint).Nodup) (hworkers : 0 < max_workers)
    (h : (engine devices commands max_workers).Reachable (noneRaises devices commands) s) :
    (∀ results, s.wait = .returned results →
      results.length = devices.length ∧
        ∀ (i : Nat) d r, devices[i]? = some d → results[i]? = some r →
          ∃ t, s.tasks[i]? = some t ∧ Own commands d t r) ∧
      s.wait ≠ .raised ∧
      ((∀ results, s.wait ≠ .returned results) →
        ∃ a s', a.isOutside = false ∧ step devices commands max_workers s a = some s') ∧
      ∀ a s', step devices commands max_workers s a = some s' →
        s'.left devices.length ≤ s.left devices.length ∧
          (a.isOutside = false → s'.left devices.length < s.left devices.length) := by
  have hinv := inv_of_run hdevices hcommands hdistinct h
  have hc := hinv.collected
  refine ⟨fun results hwait => ?_, fun hwait => ?_, hinv.exists_step hworkers,
    fun a s' => left_of_step⟩
  · rw [hwait] at hc
    refine ⟨hc.1, fun i d r hd hr => ?_⟩
    obtain ⟨t, push, ht, hdone, hrow⟩ := hc.2 i d r hd hr
    exact ⟨t, ht, (hinv.tasks i d t hd ht).own hdone hrow⟩
  · rw [hwait] at hc
    exact hc

/-! ## A run that is interrupted -/

def twoTargets : List Target :=
  [{ var_map_subs := ∅, extra := ∅, ip := "192.0.2.1".toList, port := 22, device_type := [] },
    { var_map_subs := ∅, extra := ∅, ip := "192.0.2.2".toList, port := 22, device_type := [] }]

/-- Interrupted while the first of two devices is at work: it ends, the second is skipped. -/
def interruptedRun : List Action :=
  [.begin 0, .needed 0 "reload".toList, .interrupt, .finish 0 { applied := true }, .begin 1,
    .take 1, .store, .take 0, .store, .results]

omit [Unicode] [Printable] in
theorem one_result_each_interrupted :
    letI := Unicode.ascii
    letI := Printable.ascii
    ∃ s results, (engine twoTargets [['x']] 1).Reachable (noneRaises twoTargets [['x']]) s ∧
      s.wait = .returned results ∧ results.map (·.status) = [.notVerified, .cancelled] ∧
      results.length = twoTargets.length ∧
      ∀ (i : Nat) d r, twoTargets[i]? = some d → results[i]? = some r →
        ∃ t, s.tasks[i]? = some t ∧ Own [['x']] d t r := by
  let _ := Unicode.ascii
  let _ := Printable.ascii
  have hrun : ((engine twoTargets [['x']] 1).exec (noneRaises twoTargets [['x']])
      (start twoTargets [['x']] false) interruptedRun).any (fun s =>
        match s.wait with
        | .returned results => decide (results.map (·.status) = [.notVerified, .cancelled])
        | _ => false) = true := by decide +kernel
  obtain ⟨s, hreach, hend⟩ := System.exists_reachable (by exact ⟨false, rfl⟩) hrun
  have hall := one_result_each (by decide) (by decide) (by decide +kernel) (by decide) hreach
  cases hwait : s.wait with
  | raised => exact absurd hwait hall.2.1
  | collecting remaining holding interrupted =>
    rw [hwait] at hend
    cases hend
  | returned results =>
    rw [hwait] at hend
    exact ⟨s, results, hreach, hwait, of_decide_eq_true hend, hall.1 results hwait⟩

end Rollout
end NetRollout
