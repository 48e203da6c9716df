import NetRollout.Discovery.Limits

/-!
# Every open address has one outcome

An address whose port was found open is carried from its check to the queue, from there to a
worker, and from the worker to a finding or a line.  `Accounted` says that it is at one of
these places: the ones found open are those not in the queue yet, those in it, those in a
worker's hands and those recorded, counted by any test on the address.  `Ordered` says why none
is left behind: the end follows every address in the queue, so that a worker that has left it
leaves no address in it.
-/

namespace NetRollout
namespace Discovery

open PyText (Str)

/-- It holds an address that passes the test. -/
def Entry.holds (p : Address → Bool) : Entry → Bool
  | answered o => p o.address
  | last => false

namespace Worker

/-- The address it is about. -/
def address : Worker → Option Address
  | .idle | .over => none
  | .asking o | .waiting o | .asked o | .looking o | .sleeping o | .signing o _ | .ending o _ =>
    some o.address

/-- It is about an address that passes the test. -/
def holds (p : Address → Bool) (w : Worker) : Bool := w.address.any p

end Worker

namespace State

variable (s : State) (p : Address → Bool)

/-- The addresses found open that pass the test. -/
def foundOpen : Nat := s.checks.countP fun c => c.isOpen && p c.address

/-- Those not in the queue yet. -/
def unqueued : Nat := s.checks.countP fun c => c.isAnswered && p c.address

/-- Those recorded. -/
def recordedOf : Nat :=
  s.findings.countP (fun f => p f.address) + s.lines.countP (fun l => p l.address)

end State

/-- Each address found open is at one place. -/
structure Accounted (s : State) : Prop where
  addresses : s.checks.map Check.address = s.targets.addresses
  balance : ∀ p : Address → Bool, s.unqueued p + s.queue.countP (Entry.holds p) +
    s.workers.countP (Worker.holds p) + s.recordedOf p = s.foundOpen p
  opened : s.opened = s.checks.countP Check.isOpen
  signingIn : s.signingIn = s.workers.countP Worker.started

/-- The ends follow the addresses. -/
structure Ordered (s : State) : Prop where
  length : s.checks.length = s.targets.count
  index : ∀ o, Entry.answered o ∈ s.queue → o.index < s.targets.count
  closed : s.main ≠ .checking → ∀ c ∈ s.checks, c.isOver = true
  marked : Entry.last ∈ s.queue → s.main ≠ .checking
  left : Worker.over ∈ s.workers → s.main ≠ .checking ∧ ∀ o, Entry.answered o ∉ s.queue
  ended : s.main = .over → ∀ w ∈ s.workers, w = .over

variable {s s' : State} {i : Nat} {w w' : Worker}

namespace Accounted

theorem init (targets : Targets) (port : Nat) (login : Login) :
    Accounted (.init targets port login) where
  addresses := by
    show (targets.addresses.map fun a => Check.mk a .queued).map Check.address = _
    rw [List.map_map]
    exact List.map_id _
  balance p := by
    have hnone (q : Check → Bool) (hq : ∀ a, q ⟨a, .queued⟩ = false) :
        (targets.addresses.map fun a => Check.mk a .queued).countP q = 0 := by
      rw [List.countP_map, List.countP_eq_zero]
      intro a _
      rw [Function.comp_apply, hq]
      exact Bool.false_ne_true
    rw [State.unqueued, State.foundOpen, State.init, hnone _ fun a => rfl, hnone _ fun a => rfl]
    rfl
  opened := by
    symm
    show (targets.addresses.map fun a => Check.mk a .queued).countP _ = 0
    rw [List.countP_map, List.countP_eq_zero]
    intro a _ hopen
    cases hopen
  signingIn := rfl

/-- A worker that stays with its address, its sign-in started or not. -/
theorem move (h : Accounted s) (hi : s.workers[i]? = some w) (haddress : w'.address = w.address)
    (hstarted : w'.started = w.started) : Accounted (s.move i w') := by
  have hsame (p : Worker → Bool) (hp : p w' = p w) :
      (s.move i w').workers.countP p = s.workers.countP p := by
    have hset := ListUpdate.countP_set_add p hi (a := w')
    rw [hp] at hset
    exact Nat.add_right_cancel hset
  refine ⟨h.addresses, fun p => ?_, h.opened, ?_⟩
  · rw [hsame _ (by rw [Worker.holds, haddress, Worker.holds])]
    exact h.balance p
  · rw [hsame _ hstarted]
    exact h.signingIn

theorem congr (h : Accounted s) (htargets : s'.targets = s.targets) (hchecks : s'.checks = s.checks)
    (hqueue : s'.queue = s.queue) (hworkers : s'.workers = s.workers)
    (hfindings : s'.findings = s.findings) (hlines : s'.lines = s.lines)
    (hopened : s'.opened = s.opened) (hsigningIn : s'.signingIn = s.signingIn) : Accounted s' := by
  constructor
  · rw [hchecks, htargets]
    exact h.addresses
  · intro p
    rw [State.unqueued, State.recordedOf, State.foundOpen, hchecks, hqueue, hworkers, hfindings,
      hlines]
    exact h.balance p
  · rw [hopened, hchecks]
    exact h.opened
  · rw [hsigningIn, hworkers]
    exact h.signingIn

/-- An entry leaves the queue, an address into the worker's hands. -/
theorem take {e : Entry} (h : Accounted s) (hi : s.workers[i]? = some .idle) (he : e ∈ s.queue)
    (hw : w'.started = false) (hholds : ∀ p, e.holds p = w'.holds p) :
    Accounted ({ s with queue := s.queue.erase e }.move i w') := by
  refine ⟨h.addresses, fun p => ?_, h.opened, ?_⟩
  · have hqueue := ListUpdate.countP_erase_add (Entry.holds p) he
    have hworkers : (s.workers.set i w').countP (Worker.holds p) + 0 =
        s.workers.countP (Worker.holds p) + (w'.holds p).toNat :=
      ListUpdate.countP_set_add (Worker.holds p) hi
    have hbalance := h.balance p
    have hsame := hholds p
    show s.unqueued p + (s.queue.erase e).countP (Entry.holds p) +
      (s.workers.set i w').countP (Worker.holds p) + s.recordedOf p = s.foundOpen p
    rw [hsame] at hqueue
    omega
  · have hstarted : (s.workers.set i w').countP Worker.started + 0 =
        s.workers.countP Worker.started + w'.started.toNat :=
      ListUpdate.countP_set_add Worker.started hi
    rw [hw] at hstarted
    exact h.signingIn.trans (congrArg Nat.cast hstarted.symm)

theorem start {o : Opened} (h : Accounted s) (hi : s.workers[i]? = some (.looking o)) (now : ℚ) :
    Accounted (s.start i o now) := by
  refine ⟨h.addresses, fun p => ?_, h.opened, ?_⟩
  · have hworkers := ListUpdate.countP_set_add (Worker.holds p) hi (a := .signing o s.continues)
    have hsame : (s.workers.set i (.signing o s.continues)).countP (Worker.holds p) =
        s.workers.countP (Worker.holds p) := Nat.add_right_cancel hworkers
    show s.unqueued p + _ + (s.workers.set i _).countP (Worker.holds p) + s.recordedOf p = _
    rw [hsame]
    exact h.balance p
  · have hstarted : (s.workers.set i (.signing o s.continues)).countP Worker.started =
        s.workers.countP Worker.started + 1 := ListUpdate.countP_set_add Worker.started hi
    show s.signingIn + 1 = ((s.workers.set i (.signing o s.continues)).countP Worker.started : Int)
    rw [hstarted, h.signingIn]
    rfl

/-- The record: one outcome more, and no sign-in of this worker's under way. -/
theorem record {o : Opened} {outcome : Outcome} (h : Accounted s)
    (hi : s.workers[i]? = some (.ending o outcome)) :
    Accounted ((s.record o outcome).move i .idle) := by
  have hrecorded := recorded s o outcome
  generalize s.record o outcome = r at hrecorded ⊢
  rw [hrecorded.frame]
  refine ⟨h.addresses, fun p => ?_, h.opened, ?_⟩
  · have hworkers : (s.workers.set i .idle).countP (Worker.holds p) + (p o.address).toNat =
        s.workers.countP (Worker.holds p) := ListUpdate.countP_set_add (Worker.holds p) hi
    have hbalance := h.balance p
    have honce : r.recordedOf p = s.recordedOf p + (p o.address).toNat := hrecorded.once p
    show s.unqueued p + s.queue.countP (Entry.holds p) +
      (s.workers.set i .idle).countP (Worker.holds p) + r.recordedOf p = s.foundOpen p
    omega
  · have hstarted : (s.workers.set i .idle).countP Worker.started +
        (Worker.ending o outcome).started.toNat = s.workers.countP Worker.started :=
      ListUpdate.countP_set_add Worker.started hi
    have hsigningIn := hrecorded.signingIn
    have hbefore := h.signingIn
    show r.signingIn = ((s.workers.set i .idle).countP Worker.started : Int)
    omega

/-- **What a worker's step keeps.** -/
theorem work (h : Accounted s) (hi : s.workers[i]? = some w) (hw : Worked s i w s') :
    Accounted s' := by
  cases hw with
  | got hnext => exact h.take hi (List.mem_of_find?_eq_some hnext) rfl fun p => rfl
  | left hnext => exact h.take hi (List.mem_of_find?_eq_some hnext) rfl fun p => rfl
  | onward honward =>
    refine h.move hi ?_ ?_
    · cases honward <;> rfl
    · cases honward <;> rfl
  | stopped o who =>
    rw [s.cancel_frame who]
    exact move (h.congr rfl rfl rfl rfl rfl rfl rfl rfl) hi rfl rfl
  | started o hphase hnow => exact h.start hi _
  | attempted o g attempt =>
    have hmove : Accounted (s.move i (.ending o (.attempted g attempt))) := h.move hi rfl rfl
    exact hmove.congr rfl rfl rfl rfl rfl rfl rfl rfl
  | recorded o outcome => exact h.record hi

/-! ### The port checks -/

/-- A check moves on, what it found open counted. -/
theorem moveCheck {c : Check} (h : Accounted s) (hi : s.checks[i]? = some c) (c' : Check)
    (haddress : c'.address = c.address) (hchecks : s'.checks = s.checks.set i c')
    (htargets : s'.targets = s.targets) (hworkers : s'.workers = s.workers)
    (hfindings : s'.findings = s.findings) (hlines : s'.lines = s.lines)
    (hsigningIn : s'.signingIn = s.signingIn)
    (hopened : s'.opened + c.isOpen.toNat = s.opened + c'.isOpen.toNat)
    (hqueue : ∀ p : Address → Bool, s'.queue.countP (Entry.holds p) +
      (c'.isAnswered && p c.address).toNat + (c.isOpen && p c.address).toNat =
        s.queue.countP (Entry.holds p) + (c.isAnswered && p c.address).toNat +
          (c'.isOpen && p c.address).toNat) : Accounted s' := by
  have hcount (q : Check → Bool) := ListUpdate.countP_set_add q hi (a := c')
  constructor
  · obtain ⟨hlt, rfl⟩ := List.getElem?_eq_some_iff.mp hi
    rw [hchecks, htargets, List.map_set, haddress, ← List.map_set, List.set_getElem_self]
    exact h.addresses
  · intro p
    have hfound := hcount fun c => c.isOpen && p c.address
    have hunqueued := hcount fun c => c.isAnswered && p c.address
    have hbalance := h.balance p
    have hmoved := hqueue p
    rw [haddress] at hfound hunqueued
    rw [State.unqueued, State.foundOpen] at hbalance ⊢
    rw [State.recordedOf, hchecks, hworkers, hfindings, hlines]
    rw [State.recordedOf] at hbalance
    omega
  · have hset := hcount Check.isOpen
    have hbefore := h.opened
    rw [hchecks]
    omega
  · rw [hsigningIn, hworkers]
    exact h.signingIn

theorem check {c : Check} (h : Accounted s) (hi : s.checks[i]? = some c) (hc : Checked s i c s') :
    Accounted s' := by
  cases hc with
  | began hstage =>
    rw [State.beginCheck]
    split
    · exact h.moveCheck hi { c with stage := .over none } rfl rfl rfl rfl rfl rfl rfl
        (by simp [Check.isOpen, hstage]) fun p => by simp [Check.isOpen, Check.isAnswered, hstage]
    · exact h.moveCheck hi { c with stage := .knocking } rfl rfl rfl rfl rfl rfl rfl
        (by simp [Check.isOpen, hstage]) fun p => by simp [Check.isOpen, Check.isAnswered, hstage]
  | knocked hstage banner =>
    cases banner with
    | none =>
      exact h.moveCheck hi { c with stage := .over none } rfl rfl rfl rfl rfl rfl rfl
        (by simp [State.knock, Check.isOpen, hstage])
        fun p => by simp [State.knock, Check.isOpen, Check.isAnswered, hstage]
    | some banner =>
      exact h.moveCheck hi { c with stage := .answered banner } rfl rfl rfl rfl rfl rfl rfl
        (by simp [State.knock, Check.isOpen, hstage])
        fun p => by simp [State.knock, Check.isOpen, Check.isAnswered, hstage]
  | @put banner hstage =>
    refine h.moveCheck hi { c with stage := .over (some banner) } rfl rfl rfl rfl rfl rfl rfl
      (by simp [State.put, Check.isOpen, hstage]) fun p => ?_
    show (s.queue ++ [_]).countP _ + _ + _ = _
    rw [Recorded.countP_concat]
    simp [Check.isOpen, Check.isAnswered, hstage, Entry.holds]

/-- The checks that have not begun are dropped: none of them had answered. -/
theorem shutdown {raised : Bool} (h : Accounted s) (hstep : s.shutdown raised = some s') :
    Accounted s' := by
  rw [State.shutdown] at hstep
  split at hstep <;> cases hstep
  next hdone =>
  have hnone := List.all_eq_true.mp hdone.2.1
  let drop (c : Check) : Check := if c.isOver then c else { c with stage := .over none }
  have hdrop : ∀ c ∈ s.checks, (drop c).address = c.address ∧ (drop c).isOpen = c.isOpen ∧
      (drop c).isAnswered = c.isAnswered := by
    intro c hc
    have hunder := hnone c hc
    cases hstage : c.stage <;>
      simp_all [drop, Check.isOver, Check.isUnderWay, Check.isOpen, Check.isAnswered]
  have hcount (q : Check → Bool) (hq : ∀ c ∈ s.checks, q (drop c) = q c) :
      (s.checks.map drop).countP q = s.checks.countP q := by
    rw [List.countP_map]
    exact List.countP_congr fun c hc => by rw [Function.comp_apply, hq c hc]
  refine ⟨?_, fun p => ?_, ?_, h.signingIn⟩
  · show (s.checks.map drop).map Check.address = _
    rw [List.map_map, ← h.addresses]
    exact List.map_congr_left fun c hc => (hdrop c hc).1
  · have hunqueued := hcount (fun c => c.isAnswered && p c.address) fun c hc => by
      rw [(hdrop c hc).1, (hdrop c hc).2.2]
    have hfound := hcount (fun c => c.isOpen && p c.address) fun c hc => by
      rw [(hdrop c hc).1, (hdrop c hc).2.1]
    show (s.checks.map drop).countP _ + _ + _ + _ = (s.checks.map drop).countP _
    rw [hunqueued, hfound]
    exact h.balance p
  · show s.opened = (s.checks.map drop).countP _
    rw [hcount Check.isOpen fun c hc => (hdrop c hc).2.1]
    exact h.opened

end Accounted
namespace Ordered

theorem init (targets : Targets) (port : Nat) (login : Login) :
    Ordered (.init targets port login) where
  length := (List.length_map ..).trans targets.length_addresses
  index _ ho := absurd ho List.not_mem_nil
  closed hmain := absurd rfl hmain
  marked hlast := absurd hlast List.not_mem_nil
  left hover := by cases List.eq_of_mem_replicate hover
  ended hmain := by cases hmain

theorem congr (h : Ordered s) (htargets : s'.targets = s.targets) (hchecks : s'.checks = s.checks)
    (hqueue : s'.queue = s.queue) (hworkers : s'.workers = s.workers) (hmain : s'.main = s.main) :
    Ordered s' := by
  constructor
  · rw [hchecks, htargets]
    exact h.length
  · rw [hqueue, htargets]
    exact h.index
  · rw [hchecks, hmain]
    exact h.closed
  · rw [hqueue, hmain]
    exact h.marked
  · rw [hworkers, hmain, hqueue]
    exact h.left
  · rw [hworkers, hmain]
    exact h.ended

/-- A worker that has not left moves on. -/
theorem move (h : Ordered s) (hi : s.workers[i]? = some w) (hw : w ≠ .over) (hw' : w' ≠ .over) :
    Ordered (s.move i w') where
  length := h.length
  index := h.index
  closed := h.closed
  marked := h.marked
  left hover := by
    rcases List.mem_or_eq_of_mem_set hover with hover | heq
    · exact h.left hover
    · exact absurd heq.symm hw'
  ended hmain := absurd (h.ended hmain w (List.mem_of_getElem? hi)) hw

/-- The queue with an entry taken out. -/
theorem erase (h : Ordered s) (e : Entry) : Ordered { s with queue := s.queue.erase e } where
  length := h.length
  index o ho := h.index o (List.mem_of_mem_erase ho)
  closed := h.closed
  marked hlast := h.marked (List.mem_of_mem_erase hlast)
  left hover := ⟨(h.left hover).1, fun o ho => (h.left hover).2 o (List.mem_of_mem_erase ho)⟩
  ended := h.ended

/-- A worker leaves: the end it got is the least entry, so no address is left in the queue. -/
theorem leave (h : Ordered s) (hi : s.workers[i]? = some .idle) (hnext : s.next = some .last) :
    Ordered ({ s with queue := s.queue.erase .last }.move i .over) := by
  have hmarked := h.marked (List.mem_of_find?_eq_some hnext)
  have hleast := List.find?_some hnext
  have hnone : ∀ o, Entry.answered o ∉ s.queue := by
    intro o ho
    have hle : s.targets.count ≤ o.index := of_decide_eq_true (List.all_eq_true.mp hleast _ ho)
    exact absurd (h.index o ho) (not_lt.mpr hle)
  refine ⟨h.length, (h.erase .last).index, h.closed, (h.erase .last).marked, fun _ => ?_,
    fun hmain => ?_⟩
  · exact ⟨hmarked, fun o ho => hnone o (List.mem_of_mem_erase ho)⟩
  · cases h.ended hmain .idle (List.mem_of_getElem? hi)

/-- **What a worker's step keeps.** -/
theorem work (h : Ordered s) (hi : s.workers[i]? = some w) (hw : Worked s i w s') : Ordered s' := by
  cases hw with
  | got hnext => exact (h.erase _).move hi Worker.noConfusion Worker.noConfusion
  | left hnext => exact h.leave hi hnext
  | onward honward =>
    refine h.move hi ?_ ?_
    · rintro rfl
      cases honward
    · rintro rfl
      cases honward
  | stopped o who =>
    rw [s.cancel_frame who]
    exact move (h.congr rfl rfl rfl rfl rfl) hi Worker.noConfusion Worker.noConfusion
  | started o hphase hnow =>
    have hmove : Ordered (s.move i (.signing o s.continues)) :=
      h.move hi Worker.noConfusion Worker.noConfusion
    exact hmove.congr rfl rfl rfl rfl rfl
  | attempted o g attempt =>
    have hmove : Ordered (s.move i (.ending o (.attempted g attempt))) :=
      h.move hi Worker.noConfusion Worker.noConfusion
    exact hmove.congr rfl rfl rfl rfl rfl
  | recorded o outcome =>
    rw [(recorded s o outcome).frame]
    exact move (h.congr rfl rfl rfl rfl rfl) hi Worker.noConfusion Worker.noConfusion

/-- A check that is not over moves on, while the ends are not queued. -/
theorem moveCheck {c c' : Check} (h : Ordered s) (hi : s.checks[i]? = some c)
    (hc : c.isOver = false) (hchecks : s'.checks = s.checks.set i c')
    (htargets : s'.targets = s.targets) (hworkers : s'.workers = s.workers)
    (hmain : s'.main = s.main) (hqueue : ∀ e ∈ s'.queue, e ∈ s.queue ∨
      ∃ banner, e = .answered ⟨i, c.address, banner⟩) : Ordered s' := by
  have hchecking : s.main = .checking := by
    by_contra hne
    rw [h.closed hne c (List.mem_of_getElem? hi)] at hc
    cases hc
  constructor
  · rw [hchecks, htargets, List.length_set]
    exact h.length
  · intro o ho
    rw [htargets]
    rcases hqueue _ ho with ho | ⟨banner, heq⟩
    · exact h.index o ho
    · cases heq
      exact h.length ▸ (List.getElem?_eq_some_iff.mp hi).1
  · intro hne
    exact absurd (hmain.trans hchecking) hne
  · intro hlast
    rcases hqueue _ hlast with hlast | ⟨banner, heq⟩
    · rw [hmain]
      exact h.marked hlast
    · cases heq
  · intro hover
    rw [hworkers] at hover
    exact absurd hchecking (h.left hover).1
  · intro hover
    rw [hmain, hchecking] at hover
    cases hover

theorem check {c : Check} (h : Ordered s) (hi : s.checks[i]? = some c) (hc : Checked s i c s') :
    Ordered s' := by
  cases hc with
  | began hstage =>
    have hover : c.isOver = false := by rw [Check.isOver, hstage]
    rw [State.beginCheck]
    split
    · exact h.moveCheck hi hover rfl rfl rfl rfl fun e he => .inl he
    · exact h.moveCheck hi hover rfl rfl rfl rfl fun e he => .inl he
  | knocked hstage banner =>
    have hover : c.isOver = false := by rw [Check.isOver, hstage]
    cases banner with
    | none => exact h.moveCheck hi hover rfl rfl rfl rfl fun e he => .inl he
    | some banner => exact h.moveCheck hi hover rfl rfl rfl rfl fun e he => .inl he
  | put hstage =>
    have hover : c.isOver = false := by rw [Check.isOver, hstage]
    refine h.moveCheck hi hover rfl rfl rfl rfl fun e he => ?_
    rcases List.mem_append.mp he with he | he
    · exact .inl he
    · exact .inr ⟨_, List.mem_singleton.mp he⟩

theorem shutdown {raised : Bool} (h : Ordered s) (hstep : s.shutdown raised = some s') :
    Ordered s' := by
  rw [State.shutdown] at hstep
  split at hstep <;> cases hstep
  refine ⟨(List.length_map ..).trans h.length, h.index, fun _ c hc => ?_, fun _ hmain => ?_,
    fun hover => ⟨fun hmain => ?_, (h.left hover).2⟩, fun hmain => ?_⟩
  · obtain ⟨c, -, rfl⟩ := List.mem_map.mp hc
    split
    · next hover => exact hover
    · rfl
  · cases hmain
  · cases hmain
  · cases hmain

theorem mark (h : Ordered s) (hstep : s.mark = some s') : Ordered s' := by
  rw [State.mark] at hstep
  split at hstep <;> cases hstep
  · next left hmain =>
    have hclosed : s.main ≠ .checking := by
      rw [hmain]
      exact Main.noConfusion
    refine ⟨h.length, fun o ho => ?_, fun _ => h.closed hclosed, fun _ => Main.noConfusion,
      fun hover => ⟨Main.noConfusion, fun o ho => ?_⟩, fun hover => ?_⟩
    · rcases List.mem_append.mp ho with ho | ho
      · exact h.index o ho
      · cases List.mem_singleton.mp ho
    · rcases List.mem_append.mp ho with ho | ho
      · exact (h.left hover).2 o ho
      · cases List.mem_singleton.mp ho
    · cases hover
  · next hmain =>
    have hclosed : s.main ≠ .checking := by
      rw [hmain]
      exact Main.noConfusion
    refine ⟨h.length, h.index, fun _ => h.closed hclosed, fun _ => Main.noConfusion,
      fun hover => ⟨Main.noConfusion, (h.left hover).2⟩, fun hover => ?_⟩
    cases hover

theorem finish {now : ℚ} (h : Ordered s) (hstep : s.finish now = some s') : Ordered s' := by
  rw [State.finish] at hstep
  split at hstep <;> cases hstep
  next hover =>
  have hclosed : s.main ≠ .checking := by
    rw [hover.1]
    exact Main.noConfusion
  refine ⟨h.length, h.index, fun _ => h.closed hclosed, fun _ => Main.noConfusion,
    fun hmem => ⟨Main.noConfusion, (h.left hmem).2⟩, fun _ w hw => ?_⟩
  exact of_decide_eq_true (List.all_eq_true.mp hover.2 w hw)

end Ordered

/-! ## A whole run -/

/-- **The step lemma.** -/
theorem accounted_of_step {a : Action} (h : Accounted s ∧ Ordered s) (hstep : s.step a = some s') :
    Accounted s' ∧ Ordered s' := by
  cases a with
  | proceed =>
    cases hstep
    rw [s.proceed_frame]
    exact ⟨h.1.congr rfl rfl rfl rfl rfl rfl rfl rfl, h.2.congr rfl rfl rfl rfl rfl⟩
  | cancel who =>
    cases hstep
    rw [s.cancel_frame who]
    exact ⟨h.1.congr rfl rfl rfl rfl rfl rfl rfl rfl, h.2.congr rfl rfl rfl rfl rfl⟩
  | check i e =>
    obtain ⟨c, hi, hcheck⟩ := Option.bind_eq_some_iff.mp hstep
    exact ⟨h.1.check hi (checked hcheck), h.2.check hi (checked hcheck)⟩
  | work i e =>
    obtain ⟨w, hi, hw⟩ := Option.bind_eq_some_iff.mp hstep
    exact ⟨h.1.work hi (worked hw), h.2.work hi (worked hw)⟩
  | shutdown raised => exact ⟨h.1.shutdown hstep, h.2.shutdown hstep⟩
  | mark =>
    refine ⟨?_, h.2.mark hstep⟩
    simp only [State.step, State.mark] at hstep
    split at hstep <;> cases hstep
    · refine ⟨h.1.addresses, fun p => ?_, h.1.opened, h.1.signingIn⟩
      have hbalance := h.1.balance p
      show s.unqueued p + (s.queue ++ [Entry.last]).countP (Entry.holds p) + _ + _ = _
      rw [Recorded.countP_concat]
      exact hbalance
    · exact h.1.congr rfl rfl rfl rfl rfl rfl rfl rfl
  | finish now =>
    refine ⟨?_, h.2.finish hstep⟩
    simp only [State.step, State.finish] at hstep
    split at hstep <;> cases hstep
    exact h.1.congr rfl rfl rfl rfl rfl rfl rfl rfl

/-- **The run lemma.** -/
theorem accounted_of_reachable (h : scan.Reachable System.always s) : Accounted s ∧ Ordered s := by
  refine h.invariant (I := fun s => Accounted s ∧ Ordered s) ?_
    fun s a s' _ _ hs hstep => accounted_of_step hs hstep
  rintro s ⟨targets, port, login, rfl⟩
  exact ⟨.init targets port login, .init targets port login⟩

/-- At the end of the run every address found open has been recorded. -/
theorem recorded_of_over (haccounted : Accounted s) (hordered : Ordered s)
    (hworkers : s.workers.length = signIns) (hover : s.main = .over) (p : Address → Bool) :
    s.recordedOf p = s.foundOpen p := by
  have hclosed : s.main ≠ .checking := by
    rw [hover]
    exact Main.noConfusion
  have hunqueued : s.unqueued p = 0 := by
    refine List.countP_eq_zero.mpr fun c hc hanswered => ?_
    have hstage := hordered.closed hclosed c hc
    cases heq : c.stage <;>
      simp only [Check.isOver, Check.isAnswered, heq, Bool.false_and, reduceCtorEq] at hstage hanswered
  have hall := hordered.ended hover
  have hholds : s.workers.countP (Worker.holds p) = 0 := by
    refine List.countP_eq_zero.mpr fun w hw hholds => ?_
    rw [hall w hw] at hholds
    cases hholds
  have hmem : Worker.over ∈ s.workers := by
    have hpos : 0 < s.workers.length := hworkers ▸ (by decide : 0 < signIns)
    have hget := List.getElem_mem hpos
    rwa [hall _ hget] at hget
  have hqueue : s.queue.countP (Entry.holds p) = 0 := by
    refine List.countP_eq_zero.mpr fun e he hholds => ?_
    cases e with
    | answered o => exact (hordered.left hmem).2 o he
    | last => cases hholds
  have hbalance := haccounted.balance p
  omega

/-- The addresses whose port was found open. -/
def State.openAddresses (s : State) : List Address :=
  (s.checks.filter Check.isOpen).map Check.address

/-- The outcomes an address has: findings and lines. -/
def State.outcomesOf (s : State) (a : Address) : Nat :=
  s.findings.countP (fun f => f.address = a) + s.lines.countP (fun l => l.address = a)

/-- An address is checked once, so found open once at most. -/
theorem foundOpen_eq (h : Accounted s) (a : Address) :
    s.foundOpen (fun b => decide (b = a)) = if a ∈ s.openAddresses then 1 else 0 := by
  have hnodup : s.openAddresses.Nodup := by
    refine List.Nodup.sublist (List.Sublist.map _ List.filter_sublist) ?_
    rw [h.addresses]
    exact s.targets.nodup_addresses
  have hcount : s.foundOpen (fun b => decide (b = a)) = s.openAddresses.count a := by
    rw [State.foundOpen, State.openAddresses, List.count, List.countP_map, List.countP_filter]
    refine List.countP_congr fun c _ => ?_
    rw [Bool.and_comm]
    rfl
  rw [hcount]
  split
  · next hmem => exact List.count_eq_one_of_mem hnodup hmem
  · next hnot => exact List.count_eq_zero_of_not_mem hnot

/-- **Every address found open has exactly one outcome** when the scan has ended. -/
theorem outcomes_of_over (h : scan.Reachable System.always s) (hover : s.main = .over) :
    (s.phase = .done ∨ s.phase = .cancelled) ∧ s.signingIn = 0 ∧
      (∀ a, s.outcomesOf a = if a ∈ s.openAddresses then 1 else 0) ∧
      s.findings.length + s.lines.length = s.openAddresses.length ∧
      s.opened = s.openAddresses.length := by
  obtain ⟨haccounted, hordered⟩ := accounted_of_reachable h
  have hpaced := paced_of_reachable h
  have hrecorded := recorded_of_over haccounted hordered hpaced.counted.workers hover
  have hlength : s.openAddresses.length = s.checks.countP Check.isOpen := by
    rw [State.openAddresses, List.length_map, List.countP_eq_length_filter]
  refine ⟨?_, ?_, fun a => ?_, ?_, ?_⟩
  · have hended := hpaced.phased.ended.mpr hover
    cases hphase : s.phase with
    | done => exact .inl rfl
    | cancelled => exact .inr rfl
    | _ =>
      rw [hphase] at hended
      cases hended
  · have hnone : s.workers.countP Worker.started = 0 := by
      refine List.countP_eq_zero.mpr fun w hw hstarted => ?_
      rw [hordered.ended hover w hw] at hstarted
      cases hstarted
    rw [haccounted.signingIn, hnone]
    rfl
  · exact (hrecorded fun b => decide (b = a)).trans (foundOpen_eq haccounted a)
  · have hall := hrecorded fun _ => true
    simp only [State.recordedOf, State.foundOpen, Bool.and_true, List.countP_true] at hall
    rw [hall, hlength]
  · rw [haccounted.opened, hlength]

/-- A discovery of two addresses. -/
def twoAddresses : State :=
  .init ⟨[], [⟨.v4, 7, 8, by decide⟩], 2, List.pairwise_singleton _ _, rfl⟩ 22 ⟨[], [], []⟩

/-- One of them is open, and the sign-in to it is refused. -/
def refusedRun : List Action :=
  [.check 0 .start, .check 1 .start, .check 1 (.knock none), .check 0 (.knock (some [])),
    .check 0 .put, .work 2 .get, .work 2 (.skip (.ok none)), .work 2 .turn,
    .work 2 (.stopWhen none), .work 2 (.look 0), .shutdown false,
    .work 2 (.signIn .wrongCredentials), .work 2 .record, .mark, .mark, .mark, .mark, .mark,
    .work 0 .get, .work 1 .get, .work 2 .get, .work 3 .get, .finish 9]

/-- The refused sign-in is one line. -/
theorem outcomes_of_over_refused : ∃ s, scan.Reachable System.always s ∧
    s.openAddresses = [⟨.v4, 7⟩] ∧ s.outcomesOf ⟨.v4, 7⟩ = 1 ∧ s.outcomesOf ⟨.v4, 8⟩ = 0 := by
  have hrun : (scan.exec System.always twoAddresses refusedRun).any (fun s =>
      s.main = .over ∧ s.openAddresses = [⟨.v4, 7⟩]) = true := by
    decide +kernel
  obtain ⟨s, hs, hp⟩ := System.exists_reachable (by exact ⟨_, _, _, rfl⟩) hrun
  obtain ⟨hover, hopen⟩ := of_decide_eq_true hp
  have hall := (outcomes_of_over hs hover).2.2.1
  rw [hopen] at hall
  exact ⟨s, hs, hopen, hall _, hall _⟩

end Discovery
end NetRollout
