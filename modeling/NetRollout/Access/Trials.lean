import NetRollout.Access.Port

/-!
# One trial for each request

`port_contract`: each request id is handled once, at most one trial is open, HTTPS_PORT becomes
the port of a trial that was confirmed before its deadline, and any other trial ends with the
port that was in use before it.

## What goes wrong, and when

The helper remembers the last id it handled, in its status, and no other.  An `undo()` that puts
back an older request, one rolled back before, makes the helper try it again: `not_tried_once`.

`safe` is the condition on what the app writes under which each id is handled once: the id in
`site.env` is then one the helper hasn't handled, or the last one it has, and no pass is about to
take up another.
-/

namespace NetRollout
namespace Access
namespace Port

open PyText (Str Decimals)

/-! ## What happened to the ids -/

/-- The trial that is open, when the last that happened is that it was tried: with the port in
use then. -/
def open? : List Event → Option (Str × Nat × Nat)
  | .tried id port current :: _ => some (id, port, current)
  | _ => none

/-- The ids of the trials that were begun and not ended. -/
def openTrials : List Event → List Str
  | [] => []
  | .tried id _ _ :: log => id :: openTrials log
  | .closed id _ _ :: log => (openTrials log).erase id
  | .refused _ :: log => openTrials log

/-- The ids that were tried. -/
def triedIds : List Event → List Str
  | [] => []
  | .tried id _ _ :: log => id :: triedIds log
  | _ :: log => triedIds log

/-- Ids are taken up one after the other, each once; a trial ends with the port that was in use
when it began, or, confirmed as `A` says, with its own. -/
def WellFormed (A : Str → Nat → Prop) : List Event → Prop
  | [] => True
  | .tried id _ _ :: log | .refused id :: log =>
    open? log = none ∧ (∀ e ∈ log, e.id ≠ id) ∧ WellFormed A log
  | .closed id state port :: log =>
    (∃ wanted current, open? log = some (id, wanted, current) ∧
      (port = current ∨ port = wanted ∧ state = .applied ∧ A id wanted)) ∧ WellFormed A log

variable {A B : Str → Nat → Prop} {log : List Event} {id : Str} {port current : Nat}

theorem exists_cons_of_open? (h : open? log = some (id, port, current)) :
    ∃ older, log = .tried id port current :: older := by
  match log, h with
  | .tried _ _ _ :: older, h =>
    cases h
    exact ⟨older, rfl⟩

namespace WellFormed

theorem mono (hAB : ∀ id port, A id port → B id port) (h : WellFormed A log) :
    WellFormed B log := by
  induction log with
  | nil => trivial
  | cons e log ih =>
    cases e with
    | tried id port current => exact ⟨h.1, h.2.1, ih h.2.2⟩
    | refused id => exact ⟨h.1, h.2.1, ih h.2.2⟩
    | closed id state port =>
      obtain ⟨⟨wanted, current, hopen, hport⟩, hlog⟩ := h
      exact ⟨⟨wanted, current, hopen, hport.imp_right fun ⟨heq, hstate, hA⟩ =>
        ⟨heq, hstate, hAB id wanted hA⟩⟩, ih hlog⟩

/-- What had happened before. -/
theorem of_append {newer older : List Event} (h : WellFormed A (newer ++ older)) :
    WellFormed A older := by
  induction newer with
  | nil => exact h
  | cons e newer ih =>
    cases e with
    | tried id port current => exact ih h.2.2
    | refused id => exact ih h.2.2
    | closed id state port => exact ih h.2

theorem openTrials_eq (h : WellFormed A log) :
    openTrials log = ((open? log).map (·.1)).toList := by
  induction log with
  | nil => rfl
  | cons e log ih =>
    cases e with
    | tried id port current =>
      rw [openTrials, ih h.2.2, h.1]
      rfl
    | refused id =>
      rw [openTrials, ih h.2.2, h.1]
      rfl
    | closed id state port =>
      obtain ⟨⟨wanted, current, hopen, -⟩, hlog⟩ := h
      rw [openTrials, ih hlog, hopen]
      simp [open?]

theorem mem_of_mem_triedIds (h : id ∈ triedIds log) : ∃ port current, .tried id port current ∈ log := by
  induction log with
  | nil => cases h
  | cons e log ih =>
    have hrest : id ∈ triedIds log → ∃ port current, .tried id port current ∈ e :: log :=
      fun hmem => (ih hmem).imp fun port => Exists.imp fun current => List.mem_cons_of_mem e
    cases e with
    | tried id' port current =>
      rcases List.mem_cons.mp h with rfl | h
      · exact ⟨port, current, List.mem_cons_self⟩
      · exact hrest h
    | refused _ => exact hrest h
    | closed _ _ _ => exact hrest h

theorem nodup_triedIds (h : WellFormed A log) : (triedIds log).Nodup := by
  induction log with
  | nil => exact List.nodup_nil
  | cons e log ih =>
    cases e with
    | tried id port current =>
      refine List.nodup_cons.mpr ⟨fun hmem => ?_, ih h.2.2⟩
      obtain ⟨port', current', htried⟩ := mem_of_mem_triedIds hmem
      exact h.2.1 _ htried rfl
    | refused id => exact ih h.2.2
    | closed id state port => exact ih h.2

/-- An id's trials are of one port. -/
theorem port_unique {port' current' : Nat} (h : WellFormed A log)
    (h₁ : .tried id port current ∈ log) (h₂ : .tried id port' current' ∈ log) : port = port' := by
  induction log with
  | nil => cases h₁
  | cons e log ih =>
    have hlog : WellFormed A log := WellFormed.of_append (show WellFormed A ([e] ++ log) from h)
    rcases List.mem_cons.mp h₁ with heq₁ | hlog₁
    · subst heq₁
      rcases List.mem_cons.mp h₂ with heq₂ | hlog₂
      · cases heq₂
        rfl
      · exact (h.2.1 _ hlog₂ rfl).elim
    · rcases List.mem_cons.mp h₂ with heq₂ | hlog₂
      · subst heq₂
        exact (h.2.1 _ hlog₁ rfl).elim
      · exact ih hlog hlog₁ hlog₂

end WellFormed

/-! ## What the helper decides -/

/-- A request that is taken up once it is decided about: not in a trial, and not the id of the
status. -/
def isNewTo (request : Site) (status : ApplyStatus) : Bool :=
  !status.isTrying && !request.req_id.isEmpty && status.id != request.req_id

variable [Decimals] {request : Site} {status : ApplyStatus} {busy : List (Nat × Str)} {now : Nat}

/-- A trial goes back, is kept when the request that is its own was confirmed, or waits. -/
theorem next_step_of_trying (h : status.isTrying = true) :
    (∃ message, next_step request status current busy now = (.rollback status.id message, none)) ∨
      (next_step request status current busy now = (.keep status.trying status.id, none) ∧
        request.confirmed = some status.id) ∨
      next_step request status current busy now = (.wait status.trying status.id, none) := by
  rw [next_step, if_pos h]
  split
  · exact .inl ⟨_, rfl⟩
  · rename_i hid
    rw [ne_eq, not_not] at hid
    rw [← hid]
    split
    · rename_i hconfirmed
      exact .inr (.inl ⟨rfl, hconfirmed⟩)
    · split
      · exact .inl ⟨_, rfl⟩
      · exact .inr (.inr rfl)

/-- A request that is new is recorded, or tried; any other is left. -/
theorem next_step_of_not_trying (h : status.isTrying = false) :
    next_step request status current busy now = (.none .none, none) ∨
      isNewTo request status = true ∧
        ((∃ message recorded, next_step request status current busy now =
            (.none message, some recorded) ∧ recorded.id = request.req_id ∧
              recorded.isTrying = false) ∨
          ∃ port, next_step request status current busy now =
            (.tryPort port request.req_id, none)) := by
  rw [next_step, if_neg (by rw [h]; exact Bool.false_ne_true)]
  split
  · exact .inl rfl
  · rename_i hnew
    rw [not_or] at hnew
    refine .inr ⟨by simp [isNewTo, h, hnew.1, hnew.2], ?_⟩
    dsimp only
    split
    · exact .inl ⟨_, _, rfl, rfl, rfl⟩
    · split
      · exact .inl ⟨_, _, rfl, rfl, rfl⟩
      · split
        · exact .inl ⟨_, _, rfl, rfl, rfl⟩
        · exact .inr ⟨_, rfl⟩

/-- The trial's file is out of `.env` already, its end not recorded. -/
def Helper.unlisted : Helper → Bool
  | .unlinking _ | .ending _ => true
  | _ => false

/-! ## The condition -/

namespace State

variable (s : State)

def handled (id : Str) : Bool := s.log.any fun e => e.id == id

/-- The last id handled: the one of the pass that took one up, else the status'. -/
def last : Str :=
  match s.helper with
  | .recording status => status.id
  | .opening _ id | .listing _ id | .recreating _ id | .starting _ id => id
  | .closing close | .keeping close _ | .reading close _ | .writing close _ _ | .unlisting close
  | .unlinking close | .ending close => close.id
  | _ => s.read_status.id

/-- The pass has read a request it takes up. -/
def takesUp : Bool :=
  match s.helper with
  | .asked request => isNewTo request s.read_status
  | .judging request status => isNewTo request status
  | _ => false

/-- The helper doesn't handle the id again that stands in the file. -/
def safe (id : Str) : Bool := id.isEmpty || !s.handled id || (id == s.last && !s.takesUp)

/-- What an undo, or a confirmation, writes is safe; a request's id is new. -/
def allowed (s : State) : Action → Bool
  | .write =>
    match s.update with
    | none | some (_, .request _ _ _ _) => true
    | some (read, change) => change.set read == read || s.safe (change.set read).req_id
  | _ => true

/-! ## What holds in every run -/

/-- A trial of this id and port was confirmed, before its deadline. -/
def Confirmed (id : Str) (port : Nat) : Prop :=
  ∃ a ∈ s.accepted, a.trial.id = id ∧ a.trial.port = port ∧ a.trial ∈ s.trials ∧
    a.time ≤ a.trial.deadline

/-- The ids here were written by requests, and confirmed by confirmations. -/
def Sound (p : Previous) : Prop :=
  (∀ id, p.request_id = some id → id ∈ s.ids) ∧
    ∀ id, p.confirmed = some id → ∃ a ∈ s.accepted, a.trial.id = id

/-- A status that is trying is of a trial whose clock started. -/
def Tells : Prop :=
  s.read_status.isTrying = true → ∃ port deadline, s.read_status.trying = some port ∧
    s.read_status.deadline = some deadline ∧ ⟨s.read_status.id, port, deadline⟩ ∈ s.trials

/-- Where no trial is being opened or ended: the open one is the status'. -/
def Between : Prop :=
  if s.read_status.isTrying then
    ∃ port, s.read_status.trying = some port ∧
      open? s.log = some (s.read_status.id, port, s.https_port)
  else open? s.log = none

/-- What a pass does agrees with what happened. -/
def Agrees : Helper → Prop
  | .idle | .deciding | .asked _ => s.Between
  | .judging _ status => s.Between ∧ status = s.read_status
  | .recording status =>
    open? s.log = none ∧ s.read_status.isTrying = false ∧ status.isTrying = false
  | .opening port id | .listing port id | .recreating port id | .starting port id =>
    open? s.log = some (id, port, s.https_port) ∧ s.read_status.isTrying = false
  | .waiting id => s.Between ∧ s.read_status.isTrying = true ∧ s.read_status.id = id
  | .closing close =>
    ∃ port, open? s.log = some (close.id, port, s.https_port) ∧
      (close.outcome = .keep → s.read_status.trying = some port ∧ s.Confirmed close.id port)
  | .keeping close new =>
    open? s.log = some (close.id, new, s.https_port) ∧ close.outcome = .keep ∧
      s.Confirmed close.id new
  | .reading close new | .writing close new _ =>
    (∃ current, open? s.log = some (close.id, new, current)) ∧ s.https_port = new ∧
      close.outcome = .keep ∧ s.Confirmed close.id new
  | .unlisting close | .unlinking close | .ending close =>
    ∃ port current, open? s.log = some (close.id, port, current) ∧
      (s.https_port = current ∨
        s.https_port = port ∧ close.outcome = .keep ∧ s.Confirmed close.id port)

/-- The helper doesn't handle the id again. -/
def Settled (id : Str) : Prop := id = [] ∨ (∀ e ∈ s.log, e.id ≠ id) ∨ id = s.last

/-- What a pass has read of `site.env`. -/
def Holds : Helper → Prop
  | .asked request =>
    s.Sound request.previous ∧ s.Settled request.req_id ∧
      (isNewTo request s.read_status = true →
        s.site.req_id = [] ∨ ∀ e ∈ s.log, e.id ≠ s.site.req_id)
  | .judging request status =>
    s.Sound request.previous ∧ s.Settled request.req_id ∧
      (isNewTo request status = true →
        s.site.req_id = [] ∨ ∀ e ∈ s.log, e.id ≠ s.site.req_id)
  | .writing _ _ site => s.Sound site.previous ∧ s.Settled site.req_id
  | _ => True

/-- What an update read and sets. -/
def Updates : Site × Change → Prop
  | (read, .request previous _ id _) =>
    s.Sound read.previous ∧ s.Sound previous ∧ id ≠ [] ∧ id ∉ s.ids
  | (read, .undo previous) => s.Sound read.previous ∧ s.Sound previous
  | (read, .confirm a) =>
    s.Sound read.previous ∧ a.trial ∈ s.trials ∧ a.time ≤ a.trial.deadline

structure Inv : Prop where
  log : WellFormed s.Confirmed s.log
  log_ids : ∀ e ∈ s.log, e.id ∈ s.ids
  ids : [] ∉ s.ids
  trials : ∀ t ∈ s.trials, t.deadline ≠ 0 ∧ ∃ current, .tried t.id t.port current ∈ s.log
  tells : s.Tells
  accepted : ∀ a ∈ s.accepted, a.trial ∈ s.trials ∧ a.time ≤ a.trial.deadline
  accepting : ∀ a ∈ s.accepting, a.trial ∈ s.trials ∧ a.time ≤ a.trial.deadline
  site : s.Sound s.site.previous
  settled : s.Settled s.site.req_id
  asking : ∀ p ∈ s.asking, s.Sound p
  undos : ∀ p ∈ s.undos, s.Sound p
  update : ∀ u, s.update = some u → s.Updates u
  agrees : s.Agrees s.helper
  holds : s.Holds s.helper
  listed : s.listed = true → (open? s.log).isSome = true ∧ s.helper.unlisted = false

end State
end Port
end Access
end NetRollout
