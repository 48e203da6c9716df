import NetRollout.HostKeys.Policy
import NetRollout.Library.ListUpdate
import NetRollout.Library.Transition

/-!
# Trust on first use

Policies, connections and an administrator's changes, with checking on.  An agent is one
device with its policy and its connections, one after the other (`_connect` of
`src/rollout/session.py`), or a key that Discover stores.  A call of Netmiko's
`ConnectHandler` is two steps: the connection starts, and the device shows a key, to which
the password is sent if the check lets it through.  `_seen` is a step up to its reading of
the accepted keys, and one for each statement of `learn`.

A state records every password sent and every key learned.  A policy is read when it is
made, so a connection of it may start after the table has changed, and a key may be
learned after another one was: `not_trusted_snapshot` has both.  In the runs without such
steps no password goes to a key that is not accepted, and a key is learned only where no
key is accepted (`trusted_of_undisturbed`).
-/

namespace NetRollout
namespace HostKeys

variable {Target : Type}

/-- Where an agent stands. -/
inductive Stage where
  | idle
  /-- `ConnectHandler` is to be called, after a `ReadTimeout` or not. -/
  | connecting (check : HostKeyCheck) (again : Bool)
  /-- The connection has started, with keys of the target accepted or none. -/
  | started (check : HostKeyCheck) (again guarded : Bool)
  /-- `policy.seen` is to be called. -/
  | seen (key : Key)
  /-- `policy.refused` is to be called. -/
  | refused (key : Key)
  /-- `_seen` has read no accepted key: `learn` is to accept a refused row, or to add one.
  The keys of the target that were learned since. -/
  | accepting (key : Key) (rivals : List Key)
  | adding (key : Key) (rivals : List Key)

structure Agent (Target : Type) where
  target : Target
  policy : HostKeyPolicy
  /-- Discover's `store` connects to nothing. -/
  connects : Bool
  stage : Stage

namespace Agent

/-- `_seen` has returned. -/
def settle (a : Agent Target) (key : Key) : Agent Target :=
  { a with
    policy := if a.policy.learn then a.policy.pinned key else a.policy
    stage := .idle }

/-- The key `learn` is about to store. -/
def pending (a : Agent Target) : Option Key :=
  match a.stage with
  | .accepting key _ | .adding key _ => some key
  | _ => none

/-- The keys of its target learned since `_seen` read that there was none. -/
def rivals (a : Agent Target) : List Key :=
  match a.stage with
  | .accepting _ rivals | .adding _ rivals => rivals
  | _ => []

/-- A connection that started with keys of the target accepted. -/
def guarded (a : Agent Target) : Bool :=
  match a.stage with
  | .started _ _ guarded => guarded
  | _ => false

/-- The next statement of `learn`, and the key it stores. -/
def write [DecidableEq Target] (T : KeyTable Target) (a : Agent Target) :
    Option (KeyTable Target × Key) :=
  match a.stage with
  | .accepting key _ => (T.acceptRefused a.target key).map fun T' => (T', key)
  | .adding key _ => (T.insert a.target key).map fun T' => (T', key)
  | _ => none

/-- Another agent has learned a key. -/
def noteRival [DecidableEq Target] (target : Target) (key : Key) (a : Agent Target) : Agent Target :=
  if a.target = target then
    match a.stage with
    | .accepting k rivals => { a with stage := .accepting k (rivals ++ [key]) }
    | .adding k rivals => { a with stage := .adding k (rivals ++ [key]) }
    | _ => a
  else a

end Agent

/-- A password sent to a device that showed a key. -/
structure Sent (Target : Type) where
  target : Target
  key : Key
  /-- The target had an accepted key when the connection started. -/
  guarded : Bool
  /-- The key was accepted when it was shown. -/
  accepted : Bool

/-- A key that `learn` stored. -/
structure Learned (Target : Type) where
  target : Target
  key : Key
  /-- The target's accepted keys before. -/
  others : List Key
  /-- The keys learned since `_seen` read that there was none. -/
  rivals : List Key

structure State (Target : Type) where
  table : KeyTable Target := .empty
  agents : List (Agent Target) := []
  sent : List (Sent Target) := []
  learned : List (Learned Target) := []

/-- What follows once the password is sent. -/
inductive Answer where
  | connected
  | readTimeout
  | failed
  deriving DecidableEq

inductive Action (Target : Type) where
  /-- A policy made for a device. -/
  | build (target : Target) (learn : Bool)
  /-- Discover's `store`. -/
  | store (target : Target) (key : Key)
  /-- `_connect`, a call of `ConnectHandler`, and the key the device shows. -/
  | connect (i : Nat)
  | start (i : Nat)
  | present (i : Nat) (key : Key) (answer : Answer)
  /-- No key was shown. -/
  | fail (i : Nat)
  /-- `_seen` or `_refused`, which a database move skips and an error ends. -/
  | record (i : Nat) (skipped : Bool)
  /-- The next statement of `learn`, which an error ends. -/
  | write (i : Nat) (failed : Bool)
  /-- The administrator. -/
  | accept (target : Target) (key : Key) (keepOthers : Bool)
  | remove (target : Target) (key : Key)
  | reset (target : Target)

namespace State

variable [DecidableEq Target]

def update (s : State Target) (i : Nat) (a : Agent Target) : State Target :=
  { s with agents := s.agents.set i a }

/-- The end of a call of `ConnectHandler`. -/
def present (s : State Target) (i : Nat) (a : Agent Target) (key : Key) (answer : Answer) :
    Option (State Target) :=
  match a.stage with
  | .started check again guarded =>
    if check.lets a.policy key then
      let sent := s.sent ++ [⟨a.target, key, guarded, (s.table.accepted a.target).contains key⟩]
      let stage := match answer with
        | .connected => if a.policy.checks then .seen key else .idle
        | .readTimeout => if again then .idle else .connecting check true
        | .failed => .idle
      some { s.update i { a with stage := stage } with sent := sent }
    else
      match check.alternative a.policy key with
      | some check' => some (s.update i { a with stage := .connecting check' false })
      | none =>
        -- an accepted key, each tried: the units took turns
        if key ∈ a.policy.known then some (s.update i { a with stage := .idle })
        else some (s.update i { a with stage := .refused key })
  | _ => none

def record (s : State Target) (i : Nat) (a : Agent Target) (skipped : Bool) :
    Option (State Target) :=
  match a.stage with
  | .seen key =>
    if !skipped && a.policy.learned && (s.table.accepted a.target).isEmpty then
      some (s.update i { a with stage := .accepting key [] })
    else some (s.update i (a.settle key))
  | .refused key =>
    let table := if skipped then s.table else s.table.refuse a.target key
    some { s.update i { a with stage := .idle } with table := table }
  | _ => none

/-- A statement of `learn`: what it stores is recorded, and noted by the others. -/
def write (s : State Target) (i : Nat) (a : Agent Target) (failed : Bool) :
    Option (State Target) :=
  a.pending.map fun key =>
    if failed then s.update i (a.settle key)
    else
      match a.write s.table with
      | some (table, _) =>
        { table := table
          agents := (s.agents.map (Agent.noteRival a.target key)).set i (a.settle key)
          sent := s.sent
          learned := s.learned ++ [⟨a.target, key, s.table.accepted a.target, a.rivals⟩] }
      | none =>
        match a.stage with
        | .accepting key rivals => s.update i { a with stage := .adding key rivals }
        | _ => s.update i (a.settle key)

def step (s : State Target) : Action Target → Option (State Target)
  | .build target learn =>
    let a := ⟨target, policy .trustFirstUse (s.table.accepted target) learn, true, .idle⟩
    some { s with agents := s.agents ++ [a] }
  | .store target key =>
    some { s with agents := s.agents ++ [⟨target, { learned := true }, false, .seen key⟩] }
  | .connect i => s.agents[i]?.bind fun a =>
    match a.stage, a.connects with
    | .idle, true => some (s.update i { a with stage := .connecting (.enter a.policy) false })
    | _, _ => none
  | .start i => s.agents[i]?.bind fun a =>
    match a.stage with
    | .connecting check again =>
      let guarded := !(s.table.accepted a.target).isEmpty
      some (s.update i { a with stage := .started check again guarded })
    | _ => none
  | .present i key answer => s.agents[i]?.bind fun a => s.present i a key answer
  | .fail i => s.agents[i]?.bind fun a =>
    match a.stage with
    | .started .. => some (s.update i { a with stage := .idle })
    | _ => none
  | .record i skipped => s.agents[i]?.bind fun a => s.record i a skipped
  | .write i failed => s.agents[i]?.bind fun a => s.write i a failed
  | .accept target key keepOthers =>
    (s.table.accept target key keepOthers).map fun table => { s with table := table }
  | .remove target key => some { s with table := s.table.remove target key }
  | .reset target => some { s with table := s.table.reset target }

end State

/-- Host keys checked, from an empty table. -/
def firstUse (Target : Type) [DecidableEq Target] : System (State Target) (Action Target) where
  Init s := s = {}
  step := State.step

/-- **Trusted**: no password of a connection that started with keys of its target accepted
was sent to another key, and no key was learned beside another. -/
structure Trusted (s : State Target) : Prop where
  sent : ∀ e ∈ s.sent, e.guarded = true → e.accepted = true
  learned : ∀ e ∈ s.learned, e.others = [] ∧ ∀ k ∈ e.rivals, k = e.key

/-! ## The steps that disturb -/

section Undisturbed

variable [DecidableEq Target]

/-- The policy's keys are still the target's. -/
def Agent.fresh (T : KeyTable Target) (a : Agent Target) : Bool :=
  !a.policy.known.isEmpty && a.policy.known.all fun k => (T.accepted a.target).contains k

/-- Every connection under way is still checked against accepted keys. -/
def State.keeps (s : State Target) (T : KeyTable Target) : Bool :=
  s.agents.all fun a => !a.guarded || a.fresh T

/-- No other key of the target is about to be learned. -/
def State.unrivalled (s : State Target) (target : Target) (key : Key) : Bool :=
  s.agents.all fun a => a.target ≠ target || a.pending.all fun k => k = key

/-- A connection of a target with accepted keys starts with a policy that has keys, all
still accepted; no key that a connection under way is checked against is taken from the
accepted ones; and no key is accepted while `_seen` is about to learn another one of its
target. -/
def undisturbed (s : State Target) : Action Target → Bool
  | .start i => (s.agents[i]?).all fun a => (s.table.accepted a.target).isEmpty || a.fresh s.table
  | .write i failed => failed || (s.agents[i]?).all fun a =>
    (a.write s.table).all fun w => s.unrivalled a.target w.2
  | .accept target key keepOthers =>
    s.unrivalled target key && (s.table.accept target key keepOthers).all s.keeps
  | .remove target key => s.keeps (s.table.remove target key)
  | .reset target => s.keeps (s.table.reset target)
  | _ => true

end Undisturbed

/-! ## The invariant -/

namespace Agent

/-- The check a connection has loaded. -/
def check? (a : Agent Target) : Option HostKeyCheck :=
  match a.stage with
  | .connecting check _ | .started check _ _ => some check
  | _ => none

variable [DecidableEq Target]

/-- What holds of an agent: its check has known keys only, a guarded connection is checked
against accepted keys, and no key but its own is accepted while it is learning. -/
structure Sound (T : KeyTable Target) (a : Agent Target) : Prop where
  loaded : ∀ check, a.check? = some check → ∀ k ∈ check.loaded, k ∈ a.policy.known
  guarded : a.guarded = true → a.fresh T = true
  pending : ∀ k, a.pending = some k →
    (∀ k' ∈ T.accepted a.target, k' = k) ∧ ∀ k' ∈ a.rivals, k' = k

variable {T T' : KeyTable Target} {a : Agent Target}

theorem fresh_iff : a.fresh T = true ↔
    a.policy.known ≠ [] ∧ ∀ k ∈ a.policy.known, k ∈ T.accepted a.target := by
  unfold fresh
  rw [Bool.and_eq_true, Bool.not_eq_true', List.isEmpty_eq_false_iff, List.all_eq_true]
  simp only [List.contains_iff_mem]

/-- An agent between its connections, or about to report one. -/
theorem sound_of_stage (hcheck : a.check? = none) (hguarded : a.guarded = false)
    (hpending : a.pending = none) : a.Sound T := by
  refine ⟨fun check h => ?_, fun h => ?_, fun k h => ?_⟩
  · rw [hcheck] at h
    cases h
  · rw [hguarded] at h
    cases h
  · rw [hpending] at h
    cases h

theorem sound_settle (key : Key) : (a.settle key).Sound T := sound_of_stage rfl rfl rfl

/-- A statement of `learn` that stores something. -/
theorem write_spec {key : Key} (h : a.write T = some (T', key)) :
    a.pending = some key ∧ key ∉ T.accepted a.target ∧
      ∀ t k, k ∈ T'.accepted t ↔ k ∈ T.accepted t ∨ t = a.target ∧ k = key := by
  unfold write at h
  split at h
  next k rivals hstage =>
    obtain ⟨T'', hstored, heq⟩ := Option.map_eq_some_iff.mp h
    obtain ⟨rfl, rfl⟩ := Prod.mk.inj heq
    exact ⟨by rw [pending, hstage], (KeyTable.mem_accepted_acceptRefused (k := k) (t := a.target)
      hstored).1, fun t k' => (KeyTable.mem_accepted_acceptRefused hstored).2⟩
  next k rivals hstage =>
    obtain ⟨T'', hstored, heq⟩ := Option.map_eq_some_iff.mp h
    obtain ⟨rfl, rfl⟩ := Prod.mk.inj heq
    exact ⟨by rw [pending, hstage], (KeyTable.mem_accepted_insert (k := k) (t := a.target)
      hstored).1, fun t k' => (KeyTable.mem_accepted_insert hstored).2⟩
  next => cases h

/-- The table changes around an agent. -/
theorem Sound.retable (h : a.Sound T) (hguarded : a.guarded = true → a.fresh T' = true)
    (hpending : ∀ k, a.pending = some k →
      ∀ k' ∈ T'.accepted a.target, k' ∈ T.accepted a.target ∨ k' = k) : a.Sound T' := by
  refine ⟨h.loaded, hguarded, fun k hk => ⟨fun k' hk' => ?_, (h.pending k hk).2⟩⟩
  exact (hpending k hk k' hk').elim ((h.pending k hk).1 k') id

theorem fresh_mono (hsub : ∀ k ∈ T.accepted a.target, k ∈ T'.accepted a.target)
    (h : a.fresh T = true) : a.fresh T' = true := by
  rw [fresh_iff] at h ⊢
  exact ⟨h.1, fun k hk => hsub k (h.2 k hk)⟩

theorem sound_noteRival {target : Target} {key : Key} (h : a.Sound T)
    (hown : a.target = target → ∀ k, a.pending = some k → key = k) :
    (a.noteRival target key).Sound T := by
  unfold noteRival
  by_cases ht : a.target = target
  · rw [if_pos ht]
    split
    all_goals
      first
      | exact h
      | next k rivals hstage =>
        have hpending : a.pending = some k := by rw [pending, hstage]
        have hrivals : a.rivals = rivals := by rw [Agent.rivals, hstage]
        refine ⟨nofun, nofun, fun k' hk' => ?_⟩
        obtain rfl : k = k' := Option.some.inj hk'
        obtain ⟨haccepted, hall⟩ := h.pending k hpending
        refine ⟨haccepted, ListUpdate.forall_mem_concat (fun r hr => ?_) (hown ht k hpending)⟩
        exact hall r (hrivals ▸ hr)
  · rw [if_neg ht]
    exact h

end Agent

namespace State

variable [DecidableEq Target]

/-- The invariant. -/
structure Sound (s : State Target) : Prop where
  agents : ∀ a ∈ s.agents, a.Sound s.table
  trusted : Trusted s

variable {s s' : State Target}

theorem Sound.update {i : Nat} {a : Agent Target} (hs : s.Sound) (ha : a.Sound s.table) :
    (s.update i a).Sound :=
  ⟨ListUpdate.forall_mem_set hs.agents ha, hs.trusted.sent, hs.trusted.learned⟩

theorem Sound.append {a : Agent Target} (hs : s.Sound) (ha : a.Sound s.table) :
    ({ s with agents := s.agents ++ [a] } : State Target).Sound :=
  ⟨ListUpdate.forall_mem_concat hs.agents ha, hs.trusted.sent, hs.trusted.learned⟩

/-- Accepted keys are added or taken away under the agents. -/
theorem Sound.retable {T : KeyTable Target} (hs : s.Sound) (hkeeps : s.keeps T = true)
    (hpending : ∀ a ∈ s.agents, ∀ k, a.pending = some k →
      ∀ k' ∈ T.accepted a.target, k' ∈ s.table.accepted a.target ∨ k' = k) :
    ({ s with table := T } : State Target).Sound := by
  refine ⟨fun a ha => (hs.agents a ha).retable (fun hguarded => ?_) (hpending a ha),
    hs.trusted.sent, hs.trusted.learned⟩
  have hkept := List.all_eq_true.mp hkeeps a ha
  rwa [hguarded, Bool.not_true, Bool.false_or] at hkept

theorem eq_of_unrivalled {target : Target} {key k : Key} {a : Agent Target}
    (h : s.unrivalled target key = true) (ha : a ∈ s.agents) (ht : a.target = target)
    (hk : a.pending = some k) : k = key := by
  have hall := List.all_eq_true.mp h a ha
  rw [hk, Option.all_some, ht, Bool.or_eq_true] at hall
  exact of_decide_eq_true (hall.resolve_left (by simp))

/-! ## The steps -/

theorem sound_of_present {i : Nat} {a : Agent Target} {key : Key} {answer : Answer}
    (hs : s.Sound) (ha : a ∈ s.agents) (h : s.present i a key answer = some s') : s'.Sound := by
  unfold present at h
  split at h
  next check again guarded hstage =>
    have hsound := hs.agents a ha
    have hloaded : ∀ k ∈ check.loaded, k ∈ a.policy.known :=
      hsound.loaded check (by rw [Agent.check?, hstage])
    split at h
    next hlets =>
      cases h
      have hnext : (s.update i { a with stage := match answer with
          | .connected => if a.policy.checks then .seen key else .idle
          | .readTimeout => if again then .idle else .connecting check true
          | .failed => .idle }).Sound := by
        refine hs.update ?_
        cases answer with
        | connected => cases a.policy.checks <;> exact Agent.sound_of_stage rfl rfl rfl
        | failed => exact Agent.sound_of_stage rfl rfl rfl
        | readTimeout =>
          cases again with
          | true => exact Agent.sound_of_stage rfl rfl rfl
          | false =>
            refine ⟨fun check' hcheck' => ?_, nofun, nofun⟩
            obtain rfl := Option.some.inj hcheck'
            exact hloaded
      refine ⟨hnext.agents, ListUpdate.forall_mem_concat hs.trusted.sent fun hguarded => ?_,
        hs.trusted.learned⟩
      -- what is let through is loaded, what is loaded is known, what is known is accepted
      obtain ⟨hne, hknown⟩ := Agent.fresh_iff.mp
        (hsound.guarded (by rw [Agent.guarded, hstage]; exact hguarded))
      exact List.contains_iff_mem.mpr
        (hknown key (HostKeyCheck.mem_known_of_lets hloaded hne hlets))
    next =>
      split at h
      next check' halternative =>
        cases h
        refine hs.update ⟨fun c hc => ?_, nofun, nofun⟩
        obtain rfl := Option.some.inj hc
        exact fun k hk => HostKeyCheck.mem_known_of_alternative hloaded halternative hk
      next =>
        split at h <;> cases h <;> exact hs.update (Agent.sound_of_stage rfl rfl rfl)
  next => cases h

theorem sound_of_record {i : Nat} {a : Agent Target} {skipped : Bool} (hs : s.Sound)
    (h : s.record i a skipped = some s') : s'.Sound := by
  unfold record at h
  split at h
  next key hstage =>
    split at h
    next hreads =>
      cases h
      have hnone : s.table.accepted a.target = [] :=
        List.isEmpty_iff.mp (Bool.and_eq_true_iff.mp hreads).2
      refine hs.update ⟨nofun, nofun, fun k hk => ⟨fun k' hk' => ?_, nofun⟩⟩
      exact absurd (hnone ▸ hk') List.not_mem_nil
    next =>
      cases h
      exact hs.update (Agent.sound_settle key)
  next key hstage =>
    cases h
    cases skipped with
    | true => exact hs.update (Agent.sound_of_stage rfl rfl rfl)
    | false =>
      have hnext : ({ s with table := s.table.refuse a.target key } : State Target).Sound := by
        refine ⟨fun b hb => ?_, hs.trusted.sent, hs.trusted.learned⟩
        refine (hs.agents b hb).retable (fun hguarded => ?_) fun _ _ k' hk' => ?_
        · refine Agent.fresh_mono (fun k hk => ?_) ((hs.agents b hb).guarded hguarded)
          exact KeyTable.accepted_refuse.mpr hk
        · exact .inl (KeyTable.accepted_refuse.mp hk')
      exact hnext.update (Agent.sound_of_stage rfl rfl rfl)
  next => cases h

/-- A key stored where `_seen` read that there was none. -/
theorem sound_of_learned {i : Nat} {a : Agent Target} {key : Key} {T : KeyTable Target}
    (hs : s.Sound) (ha : a ∈ s.agents) (hwrite : a.write s.table = some (T, key))
    (hallowed : s.unrivalled a.target key = true) :
    ({ table := T
       agents := (s.agents.map (Agent.noteRival a.target key)).set i (a.settle key)
       sent := s.sent
       learned := s.learned ++ [⟨a.target, key, s.table.accepted a.target, a.rivals⟩] } :
      State Target).Sound := by
  obtain ⟨hpending, hnew, hmem⟩ := Agent.write_spec hwrite
  obtain ⟨haccepted, hrivals⟩ := (hs.agents a ha).pending key hpending
  refine ⟨ListUpdate.forall_mem_set (fun b hb => ?_) (Agent.sound_settle key), hs.trusted.sent,
    ListUpdate.forall_mem_concat hs.trusted.learned ⟨?_, hrivals⟩⟩
  · obtain ⟨c, hc, rfl⟩ := List.mem_map.mp hb
    have hown : c.target = a.target → ∀ k, c.pending = some k → key = k := fun ht k hk =>
      (eq_of_unrivalled hallowed hc ht hk).symm
    refine Agent.sound_noteRival ((hs.agents c hc).retable (fun hguarded => ?_) ?_) hown
    · refine Agent.fresh_mono (fun k hk => ?_) ((hs.agents c hc).guarded hguarded)
      exact (hmem c.target k).mpr (.inl hk)
    · intro k hk k' hk'
      refine ((hmem c.target k').mp hk').imp_right fun hthis => ?_
      exact hthis.2.trans (hown hthis.1 k hk)
  · exact List.eq_nil_iff_forall_not_mem.mpr fun k hk => hnew (haccepted k hk ▸ hk)

theorem sound_of_write {i : Nat} {a : Agent Target} {failed : Bool} (hs : s.Sound)
    (ha : a ∈ s.agents)
    (hallowed : failed = false →
      (a.write s.table).all (fun w => s.unrivalled a.target w.2) = true)
    (h : s.write i a failed = some s') : s'.Sound := by
  obtain ⟨key, hpending, rfl⟩ := Option.map_eq_some_iff.mp h
  have hsettle : (s.update i (a.settle key)).Sound := hs.update (Agent.sound_settle key)
  split
  next => exact hsettle
  next hdone =>
    have hallowed := hallowed (Bool.eq_false_iff.mpr hdone)
    split
    next table key' hwrite =>
      obtain rfl : key = key' :=
        Option.some.inj (hpending.symm.trans (Agent.write_spec hwrite).1)
      rw [hwrite, Option.all_some] at hallowed
      exact sound_of_learned hs ha hwrite hallowed
    next =>
      split
      next key' rivals hstage =>
        -- no row was refused: the second statement is to come
        refine hs.update ⟨nofun, nofun, fun k hk => ?_⟩
        have hsound := (hs.agents a ha).pending k (by rw [← hk, Agent.pending, hstage]; rfl)
        rw [Agent.rivals, hstage] at hsound
        exact hsound
      next => exact hsettle

/-- **A step that disturbs nothing** keeps the invariant. -/
theorem sound_of_step {x : Action Target} (hallowed : undisturbed s x = true) (hs : s.Sound)
    (h : s.step x = some s') : s'.Sound := by
  cases x with
  | build target learn =>
    exact Option.some.inj h ▸ hs.append (Agent.sound_of_stage rfl rfl rfl)
  | store target key => exact Option.some.inj h ▸ hs.append (Agent.sound_of_stage rfl rfl rfl)
  | connect i =>
    obtain ⟨a, ha, h⟩ := Option.bind_eq_some_iff.mp h
    split at h
    · obtain rfl := Option.some.inj h
      refine hs.update ⟨fun check hcheck => ?_, nofun, nofun⟩
      obtain rfl := Option.some.inj hcheck
      exact fun k => HostKeyCheck.mem_known_of_mem_enter
    · cases h
  | start i =>
    obtain ⟨a, ha, h⟩ := Option.bind_eq_some_iff.mp h
    split at h
    next check again hstage =>
      obtain rfl := Option.some.inj h
      have hsound := hs.agents a (List.mem_of_getElem? ha)
      refine hs.update ⟨fun c hc => ?_, fun hguarded => ?_, nofun⟩
      · refine hsound.loaded c ?_
        rw [← hc, Agent.check?, hstage]
        rfl
      · rw [undisturbed, ha, Option.all_some, Bool.or_eq_true] at hallowed
        refine hallowed.resolve_left fun hnone => ?_
        rw [Agent.guarded, hnone] at hguarded
        cases hguarded
    next => cases h
  | present i key answer =>
    obtain ⟨a, ha, h⟩ := Option.bind_eq_some_iff.mp h
    exact sound_of_present hs (List.mem_of_getElem? ha) h
  | fail i =>
    obtain ⟨a, ha, h⟩ := Option.bind_eq_some_iff.mp h
    split at h
    · exact Option.some.inj h ▸ hs.update (Agent.sound_of_stage rfl rfl rfl)
    · cases h
  | record i skipped =>
    obtain ⟨a, ha, h⟩ := Option.bind_eq_some_iff.mp h
    exact sound_of_record hs h
  | write i failed =>
    obtain ⟨a, ha, h⟩ := Option.bind_eq_some_iff.mp h
    rw [undisturbed, ha, Option.all_some, Bool.or_eq_true] at hallowed
    refine sound_of_write hs (List.mem_of_getElem? ha) (fun hfailed => ?_) h
    exact hallowed.resolve_left (by rw [hfailed]; exact Bool.false_ne_true)
  | accept target key keepOthers =>
    obtain ⟨T, hT, rfl⟩ := Option.map_eq_some_iff.mp h
    obtain ⟨halone, hkeeps⟩ := Bool.and_eq_true_iff.mp hallowed
    rw [hT, Option.all_some] at hkeeps
    refine hs.retable hkeeps fun a ha k hk k' hk' => ?_
    refine (KeyTable.mem_accepted_of_accept hT hk').imp_right fun hthis => ?_
    exact hthis.2.trans (eq_of_unrivalled halone ha hthis.1 hk).symm
  | remove target key =>
    refine Option.some.inj h ▸ hs.retable hallowed fun a ha k hk k' hk' => ?_
    exact .inl (KeyTable.mem_accepted_of_remove hk')
  | reset target =>
    refine Option.some.inj h ▸ hs.retable hallowed fun a ha k hk k' hk' => ?_
    exact .inl (KeyTable.mem_accepted_of_reset hk')

end State

/-- **Only accepted keys see a password**, and one key of a target is learned, in the runs
that nothing disturbs. -/
theorem trusted_of_undisturbed [DecidableEq Target] {s : State Target}
    (h : (firstUse Target).Reachable undisturbed s) : Trusted s := by
  refine (h.invariant (fun s hs => ?_) fun s x s' _ hallowed hs hstep =>
    State.sound_of_step hallowed hs hstep : s.Sound).trusted
  obtain rfl : s = {} := hs
  exact ⟨nofun, nofun, nofun⟩

/-! ## Runs -/

/-- A connection that shows a key, up to what it reports. -/
def shows (i : Nat) (key : Key) : List (Action Nat) :=
  [.connect i, .start i, .present i key .connected]

/-- **An old policy trusts any key**, and two connections learn a key each. -/
theorem not_trusted_snapshot :
    ∃ s, (firstUse Nat).Reachable System.always s ∧
      (∃ e ∈ s.sent, e.guarded = true ∧ e.accepted = false) ∧
        (∃ e ∈ s.learned, e.others ≠ []) ∧ ¬ Trusted s := by
  have hrun : ((firstUse Nat).exec System.always {} (List.flatten [[.build 22 true, .build 22 true,
      .build 22 true], shows 0 ⟨['r'], ['a']⟩, shows 1 ⟨['r'], ['b']⟩, [.record 0 false,
        .record 1 false, .write 0 false, .write 1 false, .write 0 false, .write 1 false],
          shows 2 ⟨['r'], ['c']⟩])).any (fun s => s.sent.any (fun e => e.guarded && !e.accepted) &&
            s.learned.any fun e => !e.others.isEmpty) = true := by decide
  obtain ⟨s, hs, hp⟩ := System.exists_reachable rfl hrun
  obtain ⟨hsent, hlearned⟩ := Bool.and_eq_true_iff.mp hp
  obtain ⟨e, he, hbad⟩ := List.any_eq_true.mp hsent
  obtain ⟨hguarded, hnot⟩ := Bool.and_eq_true_iff.mp hbad
  obtain ⟨e', he', hothers⟩ := List.any_eq_true.mp hlearned
  rw [Bool.not_eq_true'] at hnot hothers
  refine ⟨s, hs, ⟨e, he, hguarded, hnot⟩, ⟨e', he', List.isEmpty_eq_false_iff.mp hothers⟩, ?_⟩
  intro htrusted
  rw [htrusted.sent e he hguarded] at hnot
  cases hnot

/-- A key learned, and a later connection checked against it. -/
theorem trusted_learned :
    ∃ s, (firstUse Nat).Reachable undisturbed s ∧
      (∃ e ∈ s.sent, e.guarded = true) ∧ s.learned ≠ [] ∧ Trusted s := by
  have hrun : ((firstUse Nat).exec undisturbed {} (List.flatten [[.build 22 true],
      shows 0 ⟨['r'], ['a']⟩, [.record 0 false, .write 0 false, .write 0 false, .build 22 true],
        shows 1 ⟨['r'], ['a']⟩])).any (fun s => s.sent.any (fun e => e.guarded) &&
          !s.learned.isEmpty) = true := by decide
  obtain ⟨s, hs, hp⟩ := System.exists_reachable rfl hrun
  obtain ⟨hsent, hlearned⟩ := Bool.and_eq_true_iff.mp hp
  rw [Bool.not_eq_true'] at hlearned
  exact ⟨s, hs, List.any_eq_true.mp hsent, List.isEmpty_eq_false_iff.mp hlearned,
    trusted_of_undisturbed hs⟩

end HostKeys
end NetRollout
