import NetRollout.Discovery.Scan
import NetRollout.Library.ListUpdate

/-!
# The sign-ins' limits

A discovery signs in with one account to many devices, and wrong credentials lock accounts
out.  `Counted` is what keeps the damage small: the failures counted under the present count
of Continues are the sign-ins started under it that failed and were recorded, and no sign-in
starts with three of them counted.  What may still fail is under way, one for each worker.
-/

namespace NetRollout
namespace Discovery

open PyText (Str)

namespace Worker

/-- It is signing in, started under this count of Continues. -/
def signsIn (generation : Nat) : Worker → Bool
  | signing _ g => g = generation
  | _ => false

/-- Its sign-in, started under this count of Continues, failed for wrong credentials and is
not recorded. -/
def owes (generation : Nat) : Worker → Bool
  | ending _ (.attempted g .wrongCredentials) => g = generation
  | _ => false

theorem not_owes_of_signsIn {w : Worker} {g : Nat} (h : w.signsIn g = true) : w.owes g = false := by
  cases w with
  | signing o generation => rfl
  | _ => cases h

end Worker

theorem pausing : 0 < failuresBeforePause := by decide

/-- The failures counted, and those that may still be. -/
structure Counted (s : State) : Prop where
  workers : s.workers.length = signIns
  counted : s.failures + s.workers.countP (Worker.owes s.continues) = s.wrong.count s.continues
  owed : ∀ g, s.workers.countP (Worker.owes g) ≤ s.wrong.count g
  bound : ∀ g, s.wrong.count g + s.workers.countP (Worker.signsIn g) ≤
    failuresBeforePause + signIns - 1
  future : ∀ g, s.continues < g → s.wrong.count g + s.workers.countP (Worker.signsIn g) = 0
  few : s.phase = .running → s.failures < failuresBeforePause

/-- The starts so far are spaced, and the next one will be. -/
structure Spaced (s : State) : Prop where
  next : ∀ t ∈ s.starts, t.time + signInGap ≤ s.nextStart
  gaps : s.starts.Pairwise fun later earlier => earlier.time + signInGap ≤ later.time

/-- Cancelled, and the sign-ins under way finish or have. -/
def Phase.cancels : Phase → Bool
  | cancelling | cancelled => true
  | running | paused | done => false

/-- An ended phase is the end of the run, and cancelled is for good. -/
structure Phased (s : State) : Prop where
  ended : s.phase.ended = true ↔ s.main = .over
  stamped : s.ended.isSome = true ↔ s.main = .over
  cancelled : s.cancelledBy.isSome = s.phase.cancels

namespace Counted

variable {s s' : State} {i : Nat} {w w' : Worker} {o : Opened}

theorem congr (h : Counted s) (hworkers : s'.workers = s.workers) (hwrong : s'.wrong = s.wrong)
    (hcontinues : s'.continues = s.continues) (hfailures : s'.failures = s.failures)
    (hphase : s'.phase = .running → s.phase = .running) : Counted s' := by
  constructor
  · rw [hworkers]
    exact h.workers
  · rw [hworkers, hwrong, hcontinues, hfailures]
    exact h.counted
  · rw [hworkers, hwrong]
    exact h.owed
  · rw [hworkers, hwrong]
    exact h.bound
  · rw [hworkers, hwrong, hcontinues]
    exact h.future
  · rw [hfailures]
    exact fun hrunning => h.few (hphase hrunning)

theorem init (targets : Targets) (port : Nat) (login : Login) :
    Counted (.init targets port login) where
  workers := List.length_replicate ..
  counted := rfl
  owed _ := le_rfl
  bound _ := Nat.zero_le _
  future _ _ := rfl
  few _ := pausing

/-- A worker that stops signing in, or does neither before nor after. -/
theorem move (h : Counted s) (hi : s.workers[i]? = some w) (howes : ∀ g, w'.owes g = w.owes g)
    (hsigns : ∀ g, w'.signsIn g = true → w.signsIn g = true) : Counted (s.move i w') := by
  have hcount (p : Worker → Bool) := ListUpdate.countP_set_add p hi (a := w')
  have hsame (g : Nat) : (s.move i w').workers.countP (Worker.owes g) =
      s.workers.countP (Worker.owes g) := by
    have hset := hcount (Worker.owes g)
    rw [howes g] at hset
    exact Nat.add_right_cancel hset
  have hle (g : Nat) : (s.move i w').workers.countP (Worker.signsIn g) ≤
      s.workers.countP (Worker.signsIn g) := by
    have hset : (s.move i w').workers.countP _ + _ = _ := hcount (Worker.signsIn g)
    have hbool := Bool.toNat_le_toNat (hsigns g)
    omega
  constructor
  · exact (List.length_set ..).trans h.workers
  · show s.failures + (s.move i w').workers.countP (Worker.owes s.continues) = _
    rw [hsame]
    exact h.counted
  · intro g
    rw [hsame]
    exact h.owed g
  · intro g
    exact (Nat.add_le_add_left (hle g) _).trans (h.bound g)
  · intro g hg
    have hfuture := h.future g hg
    have hlt := hle g
    show s.wrong.count g + _ = 0
    omega
  · exact h.few

/-- Continue: nothing has failed under the new count. -/
theorem proceed (h : Counted s) : Counted s.proceed := by
  rw [State.proceed]
  split
  · exact h
  · have hnext := h.future (s.continues + 1) (Nat.lt_succ_self _)
    have howed := h.owed (s.continues + 1)
    refine ⟨h.workers, ?_, h.owed, h.bound, fun g hg => ?_, fun _ => pausing⟩
    · show 0 + s.workers.countP (Worker.owes (s.continues + 1)) = s.wrong.count (s.continues + 1)
      omega
    · exact h.future g (Nat.lt_of_succ_lt hg)

theorem cancel (h : Counted s) (who : Str) : Counted (s.cancel who) := by
  rw [State.cancel]
  split
  · exact h
  · exact h.congr rfl rfl rfl rfl fun hrunning => by cases hrunning

/-- A sign-in starts with fewer failures counted than pause the scan: those that may still
fail are at most the workers. -/
theorem start (h : Counted s) (hi : s.workers[i]? = some (.looking o)) (hphase : s.phase = .running)
    (now : ℚ) : Counted (s.start i o now) := by
  have howes (g : Nat) : (s.start i o now).workers.countP (Worker.owes g) =
      s.workers.countP (Worker.owes g) := ListUpdate.countP_set_add (Worker.owes g) hi
  have hsigns (g : Nat) : (s.start i o now).workers.countP (Worker.signsIn g) =
      s.workers.countP (Worker.signsIn g) + (decide (s.continues = g)).toNat :=
    ListUpdate.countP_set_add (Worker.signsIn g) hi
  have hlength : (s.start i o now).workers.length = signIns := (List.length_set ..).trans h.workers
  have hfew := h.few hphase
  constructor
  · exact hlength
  · show s.failures + (s.start i o now).workers.countP (Worker.owes s.continues) = _
    rw [howes]
    exact h.counted
  · intro g
    rw [howes]
    exact h.owed g
  · intro g
    by_cases hg : s.continues = g
    · subst hg
      have hdisjoint : (s.start i o now).workers.countP (Worker.signsIn s.continues) +
          (s.start i o now).workers.countP (Worker.owes s.continues) ≤ _ :=
        ListUpdate.countP_add_le fun w _ hw => Worker.not_owes_of_signsIn hw
      have hcounted := h.counted
      rw [howes, hlength] at hdisjoint
      show s.wrong.count s.continues + _ ≤ _
      omega
    · rw [hsigns, decide_eq_false hg]
      exact h.bound g
  · intro g hg
    have hfuture := h.future g hg
    have hne : decide (s.continues = g) = false := decide_eq_false (Nat.ne_of_lt hg)
    rw [hsigns, hne]
    exact hfuture
  · exact h.few

/-- A sign-in comes back. -/
theorem attempt {g : Nat} (h : Counted s) (hi : s.workers[i]? = some (.signing o g))
    (attempt : Attempt) : Counted (s.attempt i o g attempt) := by
  have hends (g' : Nat) : (Worker.ending o (.attempted g attempt)).owes g' =
      decide (attempt = .wrongCredentials ∧ g = g') := by
    cases attempt <;> simp [Worker.owes]
  have howes (g' : Nat) : (s.attempt i o g attempt).workers.countP (Worker.owes g') =
      s.workers.countP (Worker.owes g') +
        (decide (attempt = .wrongCredentials ∧ g = g')).toNat := by
    rw [← hends g']
    exact ListUpdate.countP_set_add (Worker.owes g') hi
  have hsigns (g' : Nat) : (s.attempt i o g attempt).workers.countP (Worker.signsIn g') +
      (decide (g = g')).toNat = s.workers.countP (Worker.signsIn g') :=
    ListUpdate.countP_set_add (Worker.signsIn g') hi
  have hwrong (g' : Nat) : (s.attempt i o g attempt).wrong.count g' =
      s.wrong.count g' + (decide (attempt = .wrongCredentials ∧ g = g')).toNat := by
    rw [State.attempt]
    split
    · next heq =>
      rw [List.count_cons]
      by_cases hg : g = g' <;> simp [hg, heq]
    · next hne => simp [hne]
  have hle (g' : Nat) : (decide (attempt = .wrongCredentials ∧ g = g')).toNat ≤
      (decide (g = g')).toNat := by
    refine Bool.toNat_le_toNat fun hboth => ?_
    exact decide_eq_true (of_decide_eq_true hboth).2
  refine ⟨(List.length_set ..).trans h.workers, ?_, fun g' => ?_, fun g' => ?_, fun g' hg' => ?_,
    h.few⟩
  · have hcounted := h.counted
    show s.failures + (s.attempt i o g attempt).workers.countP (Worker.owes s.continues) =
      (s.attempt i o g attempt).wrong.count s.continues
    rw [howes, hwrong]
    omega
  · rw [howes, hwrong]
    exact Nat.add_le_add_right (h.owed g') _
  · have hbound := h.bound g'
    have hset := hsigns g'
    have hmay := hle g'
    rw [hwrong]
    omega
  · have hfuture := h.future g' hg'
    have hset := hsigns g'
    have hmay := hle g'
    rw [hwrong]
    omega

/-- What the record of an outcome counts: a failure under the present count of Continues, and
the pause with the third. -/
theorem record {outcome : Outcome} (h : Counted s) (hi : s.workers[i]? = some (.ending o outcome)) :
    Counted ((s.record o outcome).move i .idle) := by
  have hrecorded := recorded s o outcome
  generalize s.record o outcome = r at hrecorded ⊢
  have hblames : (Worker.ending o outcome).owes s.continues = s.blames outcome := by
    cases outcome with
    | attempted g attempt => cases attempt <;> rfl
    | _ => rfl
  have howes (g : Nat) : (s.workers.set i .idle).countP (Worker.owes g) +
      ((Worker.ending o outcome).owes g).toNat = s.workers.countP (Worker.owes g) :=
    ListUpdate.countP_set_add (Worker.owes g) hi
  have hsigns (g : Nat) : (s.workers.set i .idle).countP (Worker.signsIn g) =
      s.workers.countP (Worker.signsIn g) := ListUpdate.countP_set_add (Worker.signsIn g) hi
  have hfailures := hrecorded.failures
  rw [hrecorded.frame]
  refine ⟨(List.length_set ..).trans h.workers, ?_, fun g => ?_, fun g => ?_, fun g hg => ?_,
    fun hrunning => ?_⟩
  · have hset := howes s.continues
    rw [hblames] at hset
    have hcounted := h.counted
    show r.failures + (s.workers.set i .idle).countP (Worker.owes s.continues) =
      s.wrong.count s.continues
    omega
  · have hset := howes g
    have howed := h.owed g
    show (s.workers.set i .idle).countP _ ≤ s.wrong.count g
    omega
  · show s.wrong.count g + (s.workers.set i .idle).countP _ ≤ _
    rw [hsigns]
    exact h.bound g
  · show s.wrong.count g + (s.workers.set i .idle).countP _ = 0
    rw [hsigns]
    exact h.future g hg
  · show r.failures < failuresBeforePause
    cases hb : s.blames outcome with
    | true => exact hrecorded.pauses hrunning hb
    | false =>
      have hphase : s.phase = .running := by
        rcases hrecorded.phase with hsame | ⟨hphase, -⟩
        · exact hsame ▸ hrunning
        · exact hphase
      rw [hfailures, hb]
      exact h.few hphase

/-- **What a worker's step keeps.** -/
theorem work (h : Counted s) (hi : s.workers[i]? = some w) (hw : Worked s i w s') : Counted s' := by
  cases hw with
  | got hnext =>
    exact move (h.congr rfl rfl rfl rfl fun hrunning => hrunning) hi (fun g => rfl)
      fun g hg => absurd hg Bool.false_ne_true
  | left hnext =>
    exact move (h.congr rfl rfl rfl rfl fun hrunning => hrunning) hi (fun g => rfl)
      fun g hg => absurd hg Bool.false_ne_true
  | onward honward =>
    refine h.move hi (fun g => ?_) fun g hg => ?_
    · cases honward <;> rfl
    · cases honward <;> cases hg
  | stopped o who =>
    have hsame : (s.cancel who).workers[i]? = some (.asked o) := by
      rw [s.cancel_frame who]
      exact hi
    exact (h.cancel who).move hsame (fun g => rfl) fun g hg => absurd hg Bool.false_ne_true
  | started o hphase hnow => exact h.start hi hphase _
  | attempted o g attempt => exact h.attempt hi attempt
  | recorded o outcome => exact h.record hi

end Counted

/-! ## Spaced starts -/

namespace Spaced

variable {s s' : State} {i : Nat} {w : Worker}

theorem congr (h : Spaced s) (hstarts : s'.starts = s.starts) (hnext : s'.nextStart = s.nextStart) :
    Spaced s' := by
  constructor
  · rw [hstarts, hnext]
    exact h.next
  · rw [hstarts]
    exact h.gaps

theorem start (h : Spaced s) {o : Opened} {now : ℚ} (hnow : s.nextStart ≤ now) :
    Spaced (s.start i o now) := by
  have hbefore : ∀ t ∈ s.starts, t.time + signInGap ≤ now := fun t ht => (h.next t ht).trans hnow
  have hgap : (0 : ℚ) ≤ signInGap := by decide +kernel
  constructor
  · intro t ht
    show t.time + signInGap ≤ now + signInGap
    rcases List.mem_cons.mp ht with rfl | ht
    · exact le_rfl
    · exact (hbefore t ht).trans (le_add_of_nonneg_right hgap)
  · exact List.pairwise_cons.mpr ⟨hbefore, h.gaps⟩

theorem work (h : Spaced s) (hw : Worked s i w s') : Spaced s' := by
  cases hw with
  | started o hphase hnow => exact h.start hnow
  | stopped o who =>
    rw [s.cancel_frame who]
    exact h.congr rfl rfl
  | recorded o outcome =>
    exact h.congr (recorded s o outcome).starts (recorded s o outcome).nextStart
  | _ => exact h.congr rfl rfl

end Spaced

/-! ## Phases -/

namespace Phased

variable {s s' : State} {i : Nat} {w : Worker}

theorem congr (h : Phased s) (hended : s'.phase.ended = s.phase.ended)
    (hcancels : s'.phase.cancels = s.phase.cancels) (hmain : s'.main = .over ↔ s.main = .over)
    (hby : s'.cancelledBy = s.cancelledBy) (hstamp : s'.ended = s.ended) : Phased s' := by
  constructor
  · rw [hended, hmain]
    exact h.ended
  · rw [hstamp, hmain]
    exact h.stamped
  · rw [hby, hcancels]
    exact h.cancelled

theorem proceed (h : Phased s) : Phased s.proceed := by
  rw [State.proceed]
  split
  · exact h
  · next hpaused =>
    rw [not_not] at hpaused
    refine h.congr ?_ ?_ Iff.rfl rfl rfl
    · rw [hpaused]
      rfl
    · rw [hpaused]
      rfl

theorem cancel (h : Phased s) (who : Str) : Phased (s.cancel who) := by
  rw [State.cancel]
  split
  · exact h
  · next hopen =>
    have hphase : s.phase.ended = false := by
      rw [not_and_or, not_not, not_not] at hopen
      rcases hopen with hphase | hphase <;> rw [hphase] <;> rfl
    refine ⟨?_, h.stamped, rfl⟩
    rw [← h.ended, hphase]
    rfl

theorem finish {now : ℚ} (h : Phased s) (hfinish : s.finish now = some s') : Phased s' := by
  rw [State.finish] at hfinish
  split at hfinish <;> cases hfinish
  next hover =>
  have hended : s.phase.ended = false := by
    rw [Bool.eq_false_iff, ne_eq, h.ended, hover.1]
    simp
  have hcancelled := h.cancelled
  constructor
  · split <;> simp [Phase.ended]
  · simp
  · rw [hcancelled]
    cases hphase : s.phase <;> rw [hphase] at hended <;> first | rfl | cases hended

theorem work (h : Phased s) (hw : Worked s i w s') : Phased s' := by
  cases hw with
  | stopped o who => exact (h.cancel who).congr rfl rfl Iff.rfl rfl rfl
  | recorded o outcome =>
    have hrecorded := recorded s o outcome
    have hphase : (s.record o outcome).phase.ended = s.phase.ended ∧
        (s.record o outcome).phase.cancels = s.phase.cancels := by
      rcases hrecorded.phase with hsame | ⟨hrunning, hpaused⟩
      · rw [hsame]
        exact ⟨rfl, rfl⟩
      · rw [hrunning, hpaused]
        exact ⟨rfl, rfl⟩
    refine h.congr hphase.1 hphase.2 ?_ hrecorded.cancelledBy hrecorded.ended
    show (s.record o outcome).main = .over ↔ s.main = .over
    rw [hrecorded.main]
  | _ => exact h.congr rfl rfl Iff.rfl rfl rfl

end Phased

/-! ## A whole run -/

/-- What every state of a run keeps. -/
structure Paced (s : State) : Prop where
  counted : Counted s
  spaced : Spaced s
  phased : Phased s

variable {s s' : State}

theorem paced_init (targets : Targets) (port : Nat) (login : Login) :
    Paced (.init targets port login) where
  counted := .init targets port login
  spaced := ⟨fun _ ht => absurd ht List.not_mem_nil, .nil⟩
  phased := ⟨by simp [State.init, Phase.ended], by simp [State.init], rfl⟩

theorem Paced.congr (h : Paced s) (hworkers : s'.workers = s.workers) (hwrong : s'.wrong = s.wrong)
    (hcontinues : s'.continues = s.continues) (hfailures : s'.failures = s.failures)
    (hphase : s'.phase = s.phase) (hstarts : s'.starts = s.starts)
    (hnext : s'.nextStart = s.nextStart) (hby : s'.cancelledBy = s.cancelledBy)
    (hstamp : s'.ended = s.ended) (hmain : s'.main = .over ↔ s.main = .over) : Paced s' where
  counted := h.counted.congr hworkers hwrong hcontinues hfailures fun hrunning => hphase ▸ hrunning
  spaced := h.spaced.congr hstarts hnext
  phased := h.phased.congr (by rw [hphase]) (by rw [hphase]) hmain hby hstamp

/-- The port checks start no sign-in and end none. -/
theorem Paced.check {i : Nat} {c : Check} (h : Paced s) (hc : Checked s i c s') : Paced s' := by
  cases hc with
  | began hstage =>
    rw [State.beginCheck_frame]
    exact h.congr rfl rfl rfl rfl rfl rfl rfl rfl rfl Iff.rfl
  | knocked hstage banner =>
    rw [State.knock_frame]
    exact h.congr rfl rfl rfl rfl rfl rfl rfl rfl rfl Iff.rfl
  | put hstage => exact h.congr rfl rfl rfl rfl rfl rfl rfl rfl rfl Iff.rfl

/-- **The step lemma.** -/
theorem Paced.step {a : Action} (h : Paced s) (hstep : s.step a = some s') : Paced s' := by
  cases a with
  | proceed =>
    cases hstep
    refine ⟨h.counted.proceed, ?_, h.phased.proceed⟩
    rw [s.proceed_frame]
    exact h.spaced.congr rfl rfl
  | cancel who =>
    cases hstep
    refine ⟨h.counted.cancel who, ?_, h.phased.cancel who⟩
    rw [s.cancel_frame who]
    exact h.spaced.congr rfl rfl
  | check i e =>
    obtain ⟨c, -, hcheck⟩ := Option.bind_eq_some_iff.mp hstep
    exact h.check (checked hcheck)
  | work i e =>
    obtain ⟨w, hi, hw⟩ := Option.bind_eq_some_iff.mp hstep
    exact ⟨h.counted.work hi (worked hw), h.spaced.work (worked hw), h.phased.work (worked hw)⟩
  | shutdown raised =>
    simp only [State.step, State.shutdown] at hstep
    split at hstep <;> cases hstep
    next hdone =>
    refine h.congr rfl rfl rfl rfl rfl rfl rfl rfl rfl ?_
    simp [hdone.1]
  | mark =>
    simp only [State.step, State.mark] at hstep
    split at hstep <;> cases hstep <;> next hmain =>
      refine h.congr rfl rfl rfl rfl rfl rfl rfl rfl rfl ?_
      simp [hmain]
  | finish now =>
    refine ⟨?_, ?_, h.phased.finish hstep⟩
    · simp only [State.step, State.finish] at hstep
      split at hstep <;> cases hstep
      refine h.counted.congr rfl rfl rfl rfl fun hrunning => ?_
      split at hrunning <;> cases hrunning
    · simp only [State.step, State.finish] at hstep
      split at hstep <;> cases hstep
      exact h.spaced.congr rfl rfl

/-- **The run lemma.** -/
theorem paced_of_reachable (h : scan.Reachable System.always s) : Paced s := by
  refine h.invariant (I := Paced) ?_ fun s a s' _ _ hs hstep => Paced.step hs hstep
  rintro s ⟨targets, port, login, rfl⟩
  exact paced_init targets port login

/-- A sign-in starts only while the scan runs. -/
theorem start_of_step {a : Action} (hstep : s.step a = some s') :
    s'.starts = s.starts ∨ s.phase = .running := by
  cases a with
  | proceed =>
    cases hstep
    exact .inl (by rw [State.proceed_frame])
  | cancel who =>
    cases hstep
    exact .inl (by rw [State.cancel_frame])
  | check i e =>
    obtain ⟨c, -, hcheck⟩ := Option.bind_eq_some_iff.mp hstep
    cases checked hcheck with
    | began hstage => exact .inl (by rw [State.beginCheck_frame])
    | knocked hstage banner => exact .inl (by rw [State.knock_frame])
    | put hstage => exact .inl rfl
  | work i e =>
    obtain ⟨w, -, hw⟩ := Option.bind_eq_some_iff.mp hstep
    cases worked hw with
    | started o hphase hnow => exact .inr hphase
    | stopped o who => exact .inl (congrArg State.starts (s.cancel_frame who) :)
    | recorded o outcome => exact .inl (recorded s o outcome).starts
    | _ => exact .inl rfl
  | shutdown raised =>
    simp only [State.step, State.shutdown] at hstep
    split at hstep <;> cases hstep
    exact .inl rfl
  | mark =>
    simp only [State.step, State.mark] at hstep
    split at hstep <;> cases hstep <;> exact .inl rfl
  | finish now =>
    simp only [State.step, State.finish] at hstep
    split at hstep <;> cases hstep
    exact .inl rfl

/-- **What a discovery may do to an account.**  Of the sign-ins started under one count of
Continues, those that failed for wrong credentials are few; no sign-in starts while the scan is
paused, nor after it was cancelled; two starts are spaced; and no more are under way than
there are workers. -/
theorem signIns_limited (h : scan.Reachable System.always s) :
    (∀ g, s.wrong.count g ≤ failuresBeforePause + signIns - 1) ∧
      (∀ a s', s.step a = some s' → s'.starts ≠ s.starts →
        s.phase = .running ∧ s.cancelledBy = none) ∧
      (s.starts.Pairwise fun later earlier => earlier.time + signInGap ≤ later.time) ∧
      s.workers.countP Worker.started ≤ signIns := by
  have hpaced := paced_of_reachable h
  refine ⟨fun g => ?_, fun a s' hstep hstarts => ?_, hpaced.spaced.gaps, ?_⟩
  · exact (Nat.le_add_right ..).trans (hpaced.counted.bound g)
  · have hphase := (start_of_step hstep).resolve_left hstarts
    have hcancelled := hpaced.phased.cancelled
    rw [hphase, Phase.cancels, Option.isSome_eq_false_iff, Option.isNone_iff_eq_none] at hcancelled
    exact ⟨hphase, hcancelled⟩
  · exact List.countP_le_length.trans_eq hpaced.counted.workers

/-- A discovery of four addresses. -/
def fourAddresses : State :=
  .init ⟨[], [⟨.v4, 7, 10, by decide⟩], 4, List.pairwise_singleton _ _, rfl⟩ 22 ⟨[], [], []⟩

/-- The check of an address whose port is open. -/
def openPort (i : Nat) : List Action :=
  [.check i .start, .check i (.knock (some [])), .check i .put]

/-- A sign-in up to its start, and its refusal. -/
def untilStart (now : ℚ) : List Action :=
  [.work 0 .get, .work 0 (.skip (.ok none)), .work 0 .turn, .work 0 (.stopWhen none),
    .work 0 (.look now)]

def refusal : List Action := [.work 0 (.signIn .wrongCredentials), .work 0 .record]

/-- Three sign-ins of four are refused. -/
def pausedRun : List Action :=
  (List.range 4).flatMap openPort ++ (untilStart 0 ++ refusal) ++
    (untilStart (1 / 2) ++ refusal) ++ (untilStart 1 ++ refusal)

/-- The third refusal pauses the scan, and nothing starts; after Continue the fourth sign-in
does, and is refused too. -/
theorem signIns_limited_refused :
    (∃ s, scan.Reachable System.always s ∧ (s.phase = .paused ∧ s.wrong = [0, 0, 0]) ∧
      ∀ a s', s.step a = some s' → s'.starts = s.starts) ∧
    ∃ s, scan.Reachable System.always s ∧ (s.phase = .running ∧ s.wrong = [1, 0, 0, 0]) ∧
      (∀ g, s.wrong.count g ≤ failuresBeforePause + signIns - 1) ∧
      s.starts.Pairwise (fun later earlier => earlier.time + signInGap ≤ later.time) ∧
        s.workers.countP Worker.started ≤ signIns := by
  have hpaused : (scan.exec System.always fourAddresses pausedRun).any (fun s =>
      s.phase = .paused && s.wrong = [0, 0, 0]) = true := by
    decide +kernel
  have hcontinued : (scan.exec System.always fourAddresses
      (pausedRun ++ .proceed :: untilStart 2 ++ refusal)).any (fun s =>
        s.phase = .running && s.wrong = [1, 0, 0, 0]) = true := by
    decide +kernel
  constructor
  · obtain ⟨s, hs, hp⟩ := System.exists_reachable (by exact ⟨_, _, _, rfl⟩) hpaused
    rw [Bool.and_eq_true, decide_eq_true_eq, decide_eq_true_eq] at hp
    refine ⟨s, hs, hp, fun a s' hstep => ?_⟩
    by_contra hstarts
    have hrunning := ((signIns_limited hs).2.1 a s' hstep hstarts).1
    rw [hp.1] at hrunning
    cases hrunning
  · obtain ⟨s, hs, hp⟩ := System.exists_reachable (by exact ⟨_, _, _, rfl⟩) hcontinued
    rw [Bool.and_eq_true, decide_eq_true_eq, decide_eq_true_eq] at hp
    obtain ⟨hfew, -, hgaps, hstarted⟩ := signIns_limited hs
    exact ⟨s, hs, hp, hfew, hgaps, hstarted⟩

end Discovery
end NetRollout
