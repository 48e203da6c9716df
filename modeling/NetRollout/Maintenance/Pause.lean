import NetRollout.Maintenance.Gate

/-!
# One pause, two operations

`pause` and `resume` of the orchestrator set one flag, and two operations rest on it: a
database move, from `begin` to `end`, and `switch_redis` of `src/webapp/db_move.py`, which
remembers in `was_paused` whether rollouts were paused when it came.

A `switch_redis()` call is followed line by line: the read of the flag, the pause, the
check of the counts, the client's replacement, `runtime.env`, the two clean-ups, and the
`finally`.  Any number of calls are under way, beside a move and the orchestrator.

## What goes wrong, and when

`resume` clears the flag for everyone.  A call that found the flag clear resumes at its
end, though a move may have begun since, and a move's end resumes while a call that came
during it still relies on the pause; a call that found the flag set and pauses after it was
cleared leaves it set for good.

`apart` is the condition on the steps under which none of this happens: nothing resumes
while a move is under way, or while another call has paused and not yet switched, or has
found the flag set and not yet paused.
-/

namespace NetRollout
namespace Maintenance

open Jobs (Redis)

variable {Target Device : Type}

/-! ## The Redis switch -/

/-- Where a `switch_redis()` call stands, with its `was_paused`. -/
inductive Switch where
  /-- Before its own `pause()`. -/
  | read (was : Bool)
  /-- Before the check. -/
  | paused (was : Bool)
  /-- Checked, before the client's replacement. -/
  | checked (was : Bool)
  /-- Before `runtime.env` is written. -/
  | swapped (was : Bool)
  /-- Before `sessions.clear_all()`, and before `clear_stale_jobs()`. -/
  | switched (was : Bool)
  | signedOut (was : Bool)
  /-- Before the `finally`. -/
  | ending (was : Bool)
  | over
  deriving DecidableEq

/-- The next line of a `switch_redis()` call. -/
inductive SwitchEvent where
  | pause
  | check
  /-- The client replaced by one to another server, with what it holds. -/
  | swap (server : Redis)
  | keep
  | signOut
  | clear
  /-- The line under way raises. -/
  | raise
  | finish

namespace Switch

/-- The next step of a `switch_redis()` call. -/
def step (rollouts : Jobs.State Target Device) :
    Switch → SwitchEvent → Option (Switch × Jobs.State Target Device)
  | .read was, .pause => some (.paused was, { rollouts with paused := true })
  | .paused was, .check => some (if rollouts.counted then .ending was else .checked was, rollouts)
  | .checked was, .swap server => some (.swapped was, { rollouts with redis := server })
  | .swapped was, .keep => some (.switched was, rollouts)
  | .switched was, .signOut => some (.signedOut was, rollouts)
  | .signedOut was, .clear => some (.ending was, { rollouts with redis := .empty })
  | .checked was, .raise => some (.ending was, rollouts)
  | .swapped was, .raise => some (.ending was, rollouts)
  | .switched was, .raise => some (.ending was, rollouts)
  | .signedOut was, .raise => some (.ending was, rollouts)
  | .ending was, .finish =>
    some (.over, if was then rollouts else { rollouts with paused := false })
  | _, _ => none

/-- Between the check and the switch. -/
def isChecked : Switch → Bool
  | checked _ => true
  | _ => false

/-- It rests on the pause staying: the flag was found set and will be set again, or it has
been set and the switch is still to come. -/
def relies : Switch → Bool
  | read was => was
  | paused _ | checked _ => true
  | _ => false

/-- It has paused, and its `finally` resumes. -/
def restores : Switch → Bool
  | paused was | checked was | swapped was | switched was | signedOut was | ending was => !was
  | _ => false

end Switch

/-! ## The site -/

/-- The orchestrator, maintenance, and every `switch_redis()` call made. -/
structure Site (Target Device : Type) where
  rollouts : Jobs.State Target Device
  gate : Gate
  switches : List Switch

/-- What happens next. -/
inductive Action (Target Device : Type) where
  /-- A step of the orchestrator, other than `pause` and `resume`. -/
  | rollouts (a : Jobs.Action Target Device)
  | enter
  | leave
  | begin_
  | lock
  | end_
  /-- A `switch_redis()` call comes, and reads the flag. -/
  | switch
  | on (k : Nat) (e : SwitchEvent)

/-- The two steps that only maintenance and the switches take. -/
def Pauses : Jobs.Action Target Device → Bool
  | .pause | .resume => true
  | _ => false

namespace Site

/-- As the app starts. -/
def init (maxConcurrent : Nat) : Site Target Device := ⟨.init maxConcurrent, .init, []⟩

variable [DecidableEq Target] (s : Site Target Device)

/-- A step.  `end` is the worker's of the move that began. -/
def step : Action Target Device → Option (Site Target Device)
  | .rollouts a =>
    if Pauses a then none else (s.rollouts.step a).map fun r => { s with rollouts := r }
  | .enter => s.gate.enter.map fun g => { s with gate := g }
  | .leave => if 0 < s.gate.underWay then some { s with gate := s.gate.leave } else none
  | .begin_ =>
    s.gate.begin_.map fun g => { s with gate := g, rollouts := { s.rollouts with paused := true } }
  | .lock => (s.gate.lock s.rollouts.idle).map fun g => { s with gate := g }
  | .end_ =>
    if s.gate.active then
      some { s with gate := s.gate.end_, rollouts := { s.rollouts with paused := false } }
    else none
  | .switch => some { s with switches := s.switches ++ [.read s.rollouts.paused] }
  | .on k e => do
    let sw ← s.switches[k]?
    let (sw', r) ← sw.step s.rollouts e
    some { s with switches := s.switches.set k sw', rollouts := r }

/-- Every `submit()` raises `Paused`, unless a stop or restart has begun. -/
def Refuses (s : Site Target Device) : Prop :=
  s.rollouts.draining = false → ∀ (devices : List Device) (target : Device → Target),
    s.rollouts.refusal devices target = some .paused

end Site

/-- The app's rollouts, moves and Redis switches. -/
def site (Target Device : Type) [DecidableEq Target] :
    System (Site Target Device) (Action Target Device) where
  Init s := ∃ maxConcurrent, s = .init maxConcurrent
  step := Site.step

/-! ## Pauses that nest -/

section Nesting

variable [DecidableEq Target]

/-- **Pauses nest**: a move and a switch keep new rollouts out as long as they are under
way, and no longer. -/
structure PausesNest (s : Site Target Device) : Prop where
  move : s.gate.active = true → s.Refuses
  switch : (∃ sw ∈ s.switches, sw.isChecked = true) → s.Refuses
  resumed : s.gate.active = false → (∀ sw ∈ s.switches, sw = .over) → s.rollouts.paused = false

omit [DecidableEq Target] in
/-- No step resumes while another operation relies on the pause. -/
def apart (s : Site Target Device) : Action Target Device → Bool
  | .end_ => !s.switches.any Switch.relies
  | .on k .finish =>
    s.switches[k]? ≠ some (.ending false) || (!s.gate.active && !s.switches.any Switch.relies)
  | _ => true

/-- The flag is set while something relies on it, and while it is set something will
clear it. -/
structure Nested (s : Site Target Device) : Prop where
  move : s.gate.active = true → s.rollouts.paused = true
  switch : ∀ sw ∈ s.switches, sw.relies = true → s.rollouts.paused = true
  owner : s.rollouts.paused = true →
    s.gate.active = true ∨ ∃ sw ∈ s.switches, sw.restores = true

variable {s s' : Site Target Device}

/-- The orchestrator's other steps leave the flag alone. -/
theorem paused_of_step {r r' : Jobs.State Target Device} {a : Jobs.Action Target Device}
    (ha : Pauses a = false) (h : r.step a = some r') : r'.paused = r.paused := by
  cases a with
  | pause => cases ha
  | resume => cases ha
  | submit devices target commands =>
    cases h
    unfold Jobs.State.submit
    dsimp only
    split <;> rfl
  | cancel j =>
    cases h
    unfold Jobs.State.cancel
    split
    · rfl
    · split
      · rfl
      · split <;> rfl
  | drain => cases h; rfl
  | drainCancel =>
    simp only [Jobs.State.step, Jobs.State.drainCancel] at h
    split at h <;> cases h
    rfl
  | pop reply =>
    simp only [Jobs.State.step, Jobs.State.pop] at h
    split at h <;> cases h <;> rfl
  | acquire =>
    simp only [Jobs.State.step, Jobs.State.acquire] at h
    split at h
    · split at h <;> cases h
      rfl
    · cases h
  | take =>
    simp only [Jobs.State.step, Jobs.State.take] at h
    split at h
    · split at h
      · split at h <;> cases h <;> rfl
      · cases h
        rfl
    · cases h
  | mark reply =>
    simp only [Jobs.State.step, Jobs.State.mark] at h
    split at h <;> cases h
    rfl
  | start =>
    simp only [Jobs.State.step, Jobs.State.start] at h
    split at h
    · split at h <;> cases h
      rfl
    · cases h
  | thread j e =>
    obtain ⟨job, job', fx, -, -, -, rfl⟩ := Jobs.thread_cases h
    rfl

omit [DecidableEq Target] in
/-- **What a step of a switch does to the flag**: it sets it, clears it, or leaves it. -/
theorem switch_cases {sw sw' : Switch} {e : SwitchEvent} {r r' : Jobs.State Target Device}
    (h : sw.step r e = some (sw', r')) :
    (∃ was, sw = .read was ∧ sw' = .paused was ∧ r'.paused = true) ∨
    (sw = .ending false ∧ e = .finish ∧ sw' = .over ∧ r'.paused = false) ∨
    (r'.paused = r.paused ∧ (sw'.relies = true → sw.relies = true) ∧
      sw'.restores = sw.restores) := by
  unfold Switch.step at h
  split at h <;> cases h
  case h_1 was => exact .inl ⟨was, rfl, rfl, rfl⟩
  case h_2 was =>
    refine .inr (.inr ⟨rfl, fun _ => rfl, ?_⟩)
    split <;> rfl
  case h_11 was =>
    cases was with
    | false => exact .inr (.inl ⟨rfl, rfl, rfl, rfl⟩)
    | true => exact .inr (.inr ⟨rfl, nofun, rfl⟩)
  all_goals exact .inr (.inr ⟨rfl, by simp [Switch.relies], rfl⟩)

omit [DecidableEq Target] in
theorem nested_init (maxConcurrent : Nat) : Nested (.init maxConcurrent : Site Target Device) where
  move h := by cases h
  switch sw hsw := absurd hsw List.not_mem_nil
  owner h := by cases h

omit [DecidableEq Target] in
/-- A step that leaves the flag, the switches and whether a move is under way. -/
theorem Nested.beside (h : Nested s) (hpaused : s'.rollouts.paused = s.rollouts.paused)
    (hactive : s'.gate.active = s.gate.active) (hswitches : s'.switches = s.switches) :
    Nested s' where
  move hs := by
    rw [hactive] at hs
    rw [hpaused]
    exact h.move hs
  switch sw hsw hrelies := by
    rw [hswitches] at hsw
    rw [hpaused]
    exact h.switch sw hsw hrelies
  owner hs := by
    rw [hpaused] at hs
    rw [hactive, hswitches]
    exact h.owner hs

omit [DecidableEq Target] in
/-- A call's step, by what it does to the flag. -/
theorem Nested.on {k : Nat} {e : SwitchEvent} {sw sw' : Switch} {r : Jobs.State Target Device}
    (h : Nested s) (hapart : apart s (.on k e) = true) (hk : s.switches[k]? = some sw)
    (hstep : sw.step s.rollouts e = some (sw', r)) :
    Nested { s with switches := s.switches.set k sw', rollouts := r } := by
  rcases switch_cases hstep with
    ⟨was, rfl, rfl, hpaused⟩ | ⟨rfl, rfl, rfl, hpaused⟩ | ⟨hpaused, hrelies, hrestores⟩
  · refine ⟨fun _ => hpaused, fun _ _ _ => hpaused, fun _ => ?_⟩
    cases was with
    | false => exact .inr ⟨_, List.mem_set (List.getElem?_eq_some_iff.mp hk).1 _, rfl⟩
    | true =>
      -- the flag was set when the call came, so someone else clears it
      rcases h.owner (h.switch _ (List.mem_of_getElem? hk) rfl) with hmove | hother
      · exact .inl hmove
      · exact .inr (ListUpdate.exists_mem_set hk nofun hother)
  · -- the flag is cleared: no one is left who relies on it
    simp only [apart, hk, ne_eq, not_true_eq_false, decide_false, Bool.false_or,
      Bool.and_eq_true, Bool.not_eq_true', List.any_eq_false] at hapart
    obtain ⟨hidle, hnone⟩ := hapart
    constructor
    · intro hmove
      rw [hidle] at hmove
      cases hmove
    · intro other hother hrel
      rcases List.mem_or_eq_of_mem_set hother with hother | rfl
      · exact absurd hrel (hnone other hother)
      · cases hrel
    · intro hset
      rw [hpaused] at hset
      cases hset
  · constructor
    · intro hmove
      rw [hpaused]
      exact h.move hmove
    · intro other hother hrel
      rw [hpaused]
      rcases List.mem_or_eq_of_mem_set hother with hother | rfl
      · exact h.switch other hother hrel
      · exact h.switch sw (List.mem_of_getElem? hk) (hrelies hrel)
    · intro hset
      rw [hpaused] at hset
      rcases h.owner hset with hmove | hother
      · exact .inl hmove
      · exact .inr (ListUpdate.exists_mem_set hk (fun hres => hrestores.trans hres) hother)

/-- **The step lemma.** -/
theorem Nested.step {a : Action Target Device} (h : Nested s) (hapart : apart s a = true)
    (hstep : s.step a = some s') : Nested s' := by
  cases a with
  | rollouts a =>
    simp only [Site.step] at hstep
    split at hstep
    · cases hstep
    · next ha =>
      obtain ⟨r, hr, rfl⟩ := Option.map_eq_some_iff.mp hstep
      exact h.beside (paused_of_step (Bool.eq_false_iff.mpr ha) hr) rfl rfl
  | enter =>
    obtain ⟨g, hg, rfl⟩ := Option.map_eq_some_iff.mp hstep
    obtain ⟨-, rfl⟩ := Gate.enter_eq hg
    exact h.beside rfl rfl rfl
  | leave =>
    simp only [Site.step] at hstep
    split at hstep <;> cases hstep
    exact h.beside rfl rfl rfl
  | begin_ =>
    obtain ⟨g, hg, rfl⟩ := Option.map_eq_some_iff.mp hstep
    obtain ⟨-, rfl⟩ := Gate.begin_eq hg
    exact ⟨fun _ => rfl, fun _ _ _ => rfl, fun _ => .inl rfl⟩
  | lock =>
    obtain ⟨g, hg, rfl⟩ := Option.map_eq_some_iff.mp hstep
    obtain ⟨hwaiting, -, -, rfl⟩ := Gate.lock_eq hg
    exact h.beside rfl (by simp [Gate.active, hwaiting]) rfl
  | end_ =>
    simp only [Site.step] at hstep
    split at hstep <;> cases hstep
    simp only [apart, Bool.not_eq_true', List.any_eq_false] at hapart
    exact ⟨nofun, fun sw hsw hrelies => absurd hrelies (hapart sw hsw), nofun⟩
  | switch =>
    cases hstep
    constructor
    · exact h.move
    · intro sw hsw hrelies
      rcases List.mem_append.mp hsw with hsw | hsw
      · exact h.switch sw hsw hrelies
      · rw [List.mem_singleton] at hsw
        subst hsw
        exact hrelies
    · intro hset
      rcases h.owner hset with hmove | ⟨sw, hsw, hrestores⟩
      · exact .inl hmove
      · exact .inr ⟨sw, List.mem_append_left _ hsw, hrestores⟩
  | on k e =>
    simp only [Site.step, Option.bind_eq_bind, Option.bind_eq_some_iff] at hstep
    obtain ⟨sw, hk, ⟨sw', r⟩, hsw, heq⟩ := hstep
    cases heq
    exact h.on hapart hk hsw

/-- **The run lemma.** -/
theorem nested_of_apart (h : (site Target Device).Reachable apart s) : Nested s :=
  h.invariant (by rintro s ⟨maxConcurrent, rfl⟩; exact nested_init maxConcurrent)
    fun _ _ _ _ hapart hs hstep => hs.step hapart hstep

omit [DecidableEq Target] in
theorem Switch.relies_of_isChecked {sw : Switch} (h : sw.isChecked = true) : sw.relies = true := by
  cases sw with
  | checked was => rfl
  | _ => cases h

/-- **Pauses nest in every run that keeps the operations apart.** -/
theorem pausesNest_of_apart (h : (site Target Device).Reachable apart s) : PausesNest s := by
  have hnested := nested_of_apart h
  constructor
  · intro hmove hdraining devices target
    exact s.rollouts.refusal_of_paused (hnested.move hmove) hdraining devices target
  · rintro ⟨sw, hsw, hchecked⟩ hdraining devices target
    have hpaused := hnested.switch sw hsw (Switch.relies_of_isChecked hchecked)
    exact s.rollouts.refusal_of_paused hpaused hdraining devices target
  · intro hidle hover
    by_contra hset
    rw [Bool.not_eq_false] at hset
    rcases hnested.owner hset with hmove | ⟨sw, hsw, hrestores⟩
    · rw [hidle] at hmove
      cases hmove
    · rw [hover sw hsw] at hrestores
      cases hrestores

/-- A switch alone, then a move, each with the rollouts held back while it lasts. -/
theorem pausesNest_after_a_switch :
    ∃ s, (site Nat Nat).Reachable apart s ∧ (s.gate.active = true ∧ s.switches = [.over]) ∧
      PausesNest s := by
  have hrun : ((site Nat Nat).exec apart (.init 4)
      [.switch, .on 0 .pause, .on 0 .check, .on 0 (.swap .empty), .on 0 .keep, .on 0 .signOut,
        .on 0 .clear, .on 0 .finish, .begin_, .lock]).any
      (fun s => s.gate.active && s.switches = [.over]) = true := by decide
  obtain ⟨s, hs, hends⟩ := System.exists_reachable (by exact ⟨4, rfl⟩) hrun
  rw [Bool.and_eq_true, decide_eq_true_eq] at hends
  exact ⟨s, hs, hends, pausesNest_of_apart hs⟩

theorem not_refuses {s : Site Nat Nat} (hpaused : s.rollouts.paused = false)
    (hdraining : s.rollouts.draining = false) : ¬ s.Refuses := by
  intro h
  have hrefused := h hdraining [] id
  simp [Jobs.State.refusal, Jobs.State.refuseIfClosed, Jobs.State.busy, hpaused,
    hdraining] at hrefused

/-- **Pauses do not nest**: a switch that came before a move resumes during it; a move that
began before a switch resumes between its check and its replacement of the client; and a
switch that found the flag set, and pauses after the move's end, leaves it set. -/
theorem not_pausesNest :
    (∃ s, (site Nat Nat).Reachable System.always s ∧ s.gate.active = true ∧ ¬ s.Refuses) ∧
    (∃ s, (site Nat Nat).Reachable System.always s ∧
      (∃ sw ∈ s.switches, sw.isChecked = true) ∧ ¬ s.Refuses) ∧
    ∃ s, (site Nat Nat).Reachable System.always s ∧ s.gate.active = false ∧
      (∀ sw ∈ s.switches, sw = .over) ∧ s.rollouts.paused = true := by
  constructor
  · have hrun : ((site Nat Nat).exec System.always (.init 4)
        [.switch, .on 0 .pause, .begin_, .on 0 .check, .on 0 .raise, .on 0 .finish]).any
        (fun s => s.gate.active && (!s.rollouts.paused && !s.rollouts.draining)) = true := by
      decide
    obtain ⟨s, hs, hends⟩ := System.exists_reachable (by exact ⟨4, rfl⟩) hrun
    simp only [Bool.and_eq_true, Bool.not_eq_true'] at hends
    exact ⟨s, hs, hends.1, not_refuses hends.2.1 hends.2.2⟩
  constructor
  · have hrun : ((site Nat Nat).exec System.always (.init 4)
        [.begin_, .switch, .on 0 .pause, .on 0 .check, .end_]).any
        (fun s => s.switches.any Switch.isChecked &&
          (!s.rollouts.paused && !s.rollouts.draining)) = true := by decide
    obtain ⟨s, hs, hends⟩ := System.exists_reachable (by exact ⟨4, rfl⟩) hrun
    simp only [Bool.and_eq_true, Bool.not_eq_true', List.any_eq_true] at hends
    exact ⟨s, hs, hends.1, not_refuses hends.2.1 hends.2.2⟩
  · have hrun : ((site Nat Nat).exec System.always (.init 4)
        [.begin_, .switch, .end_, .on 0 .pause, .on 0 .check, .on 0 .raise, .on 0 .finish]).any
        (fun s => !s.gate.active && (s.switches.all (· = .over) && s.rollouts.paused)) = true := by
      decide
    obtain ⟨s, hs, hends⟩ := System.exists_reachable (by exact ⟨4, rfl⟩) hrun
    simp only [Bool.and_eq_true, Bool.not_eq_true', List.all_eq_true, decide_eq_true_eq] at hends
    exact ⟨s, hs, hends.1, hends.2.1, hends.2.2⟩

end Nesting

end Maintenance
end NetRollout
