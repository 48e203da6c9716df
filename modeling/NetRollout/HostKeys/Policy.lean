import Mathlib.Data.List.Nodup
import NetRollout.Library.PyText

/-!
# Host keys, stored and checked

`HostKeys`, `HostKeyPolicies.policy` of `src/host_keys.py`; `HostKeyPolicy`,
`HostKeyCheck` of `src/rollout/host_keys.py`.  The table keeps a key once for each target
(its unique index), accepted or refused, oldest first.  A policy is what one device's
connections are checked against: a list of keys read from the table when it is made.

A connection loads at most one key of a type; when the device shows another one that is
known and not tried yet, that one is loaded instead.  The SSH library lets a key through
if it is loaded, or if none are.
-/

namespace NetRollout
namespace HostKeys

open PyText

/-- A key as a `known_hosts` file writes it. -/
structure Key where
  type : Str
  base64 : Str
  deriving DecidableEq

/-- `HostKeyState`. -/
inductive HostKeyState where
  | accepted
  | refused
  deriving DecidableEq

/-- `HostKeyMode`. -/
inductive HostKeyMode where
  | off
  | trustFirstUse
  deriving DecidableEq

structure Row (Target : Type) where
  target : Target
  key : Key
  state : HostKeyState
  deriving DecidableEq

variable {Target : Type}

/-- What the table's unique index is on. -/
def Row.index (r : Row Target) : Target × Key := (r.target, r.key)

/-- The table `host_keys`, oldest first. -/
structure KeyTable (Target : Type) where
  rows : List (Row Target)
  unique : (rows.map Row.index).Nodup

namespace KeyTable

def empty : KeyTable Target := ⟨[], List.nodup_nil⟩

variable (T : KeyTable Target)

/-- Rows given another state keep the index. -/
def restate (f : Row Target → HostKeyState) : KeyTable Target where
  rows := T.rows.map fun r => { r with state := f r }
  unique := by
    rw [List.map_map]
    exact T.unique

def delete (p : Row Target → Bool) : KeyTable Target where
  rows := T.rows.filter fun r => !p r
  unique := T.unique.sublist (List.filter_sublist.map _)

variable [DecidableEq Target]

/-- A row that is not there yet. -/
def add (r : Row Target) : Option (KeyTable Target) :=
  if h : r.index ∈ T.rows.map Row.index then none
  else
    some
      { rows := T.rows ++ [r]
        unique := by
          rw [List.map_append]
          refine List.nodup_append.mpr ⟨T.unique, List.nodup_singleton _, fun a ha b hb hab => h ?_⟩
          obtain rfl := List.mem_singleton.mp hb
          exact hab ▸ ha }

def accepted (target : Target) : List Key :=
  (T.rows.filter fun r => r.target = target && r.state = .accepted).map Row.key

/-- `learn`, its `UPDATE`: a key refused earlier is accepted now; `none` where there is no
such row. -/
def acceptRefused (target : Target) (key : Key) : Option (KeyTable Target) :=
  if ⟨target, key, .refused⟩ ∈ T.rows then
    some (T.restate fun r => if r.target = target ∧ r.key = key then .accepted else r.state)
  else none

/-- `learn`, its `INSERT … ON CONFLICT DO NOTHING`. -/
def insert (target : Target) (key : Key) : Option (KeyTable Target) :=
  T.add ⟨target, key, .accepted⟩

def refuse (target : Target) (key : Key) : KeyTable Target :=
  (T.add ⟨target, key, .refused⟩).getD T

/-- `accept` of a refused row; without `keepOthers` the target's accepted keys of its type
go. -/
def accept (target : Target) (key : Key) (keepOthers : Bool) : Option (KeyTable Target) :=
  if ⟨target, key, .refused⟩ ∈ T.rows then
    let kept := if keepOthers then T
      else T.delete fun r => r.target = target && r.key.type = key.type && r.key ≠ key &&
        r.state = .accepted
    some (kept.restate fun r => if r.target = target ∧ r.key = key then .accepted else r.state)
  else none

def remove (target : Target) (key : Key) : KeyTable Target :=
  T.delete fun r => r.target = target && r.key = key

def reset (target : Target) : KeyTable Target := T.delete fun r => r.target = target

/-! ### What is accepted after each -/

variable {T} {target t : Target} {key k : Key}

theorem mem_accepted : k ∈ T.accepted t ↔ ⟨t, k, .accepted⟩ ∈ T.rows := by
  simp only [accepted, List.mem_map, List.mem_filter, Bool.and_eq_true, decide_eq_true_eq]
  constructor
  · rintro ⟨⟨_, _, _⟩, ⟨hr, rfl, rfl⟩, rfl⟩
    exact hr
  · intro hr
    exact ⟨_, ⟨hr, rfl, rfl⟩, rfl⟩

/-- A key is refused or accepted, not both. -/
theorem not_mem_accepted_of_refused (h : ⟨t, k, .refused⟩ ∈ T.rows) : k ∉ T.accepted t := by
  intro hk
  have hrow := mem_accepted.mp hk
  have hindex : (⟨t, k, .refused⟩ : Row Target) = ⟨t, k, .accepted⟩ :=
    List.inj_on_of_nodup_map T.unique h hrow rfl
  exact nomatch congrArg Row.state hindex

theorem mem_accepted_delete {p : Row Target → Bool} :
    k ∈ (T.delete p).accepted t ↔ k ∈ T.accepted t ∧ p ⟨t, k, .accepted⟩ = false := by
  rw [mem_accepted, mem_accepted, delete, List.mem_filter, Bool.not_eq_true']

/-- The key's row made accepted. -/
theorem mem_accepted_restate (h : ⟨target, key, .refused⟩ ∈ T.rows) :
    k ∈ (T.restate fun r =>
      if r.target = target ∧ r.key = key then .accepted else r.state).accepted t ↔
        k ∈ T.accepted t ∨ t = target ∧ k = key := by
  rw [mem_accepted, mem_accepted, restate, List.mem_map]
  constructor
  · rintro ⟨r, hr, heq⟩
    obtain ⟨rt, rk, rs⟩ := r
    obtain ⟨rfl, rfl, hstate⟩ := Row.mk.inj heq
    by_cases hthis : rt = target ∧ rk = key
    · exact .inr hthis
    · rw [if_neg hthis] at hstate
      subst hstate
      exact .inl hr
  · rintro (hr | ⟨rfl, rfl⟩)
    · refine ⟨_, hr, ?_⟩
      simp only [ite_self]
    · exact ⟨_, h, by simp only [and_self, ↓reduceIte]⟩

theorem mem_accepted_add {r : Row Target} {T' : KeyTable Target} (h : T.add r = some T') :
    r.index ∉ T.rows.map Row.index ∧
      (k ∈ T'.accepted t ↔ k ∈ T.accepted t ∨ r = ⟨t, k, .accepted⟩) := by
  unfold add at h
  split at h
  · cases h
  · next hnew =>
    cases h
    refine ⟨hnew, ?_⟩
    rw [mem_accepted, mem_accepted, List.mem_append, List.mem_singleton, eq_comm]

theorem mem_accepted_acceptRefused {T' : KeyTable Target}
    (h : T.acceptRefused target key = some T') :
    key ∉ T.accepted target ∧ (k ∈ T'.accepted t ↔ k ∈ T.accepted t ∨ t = target ∧ k = key) := by
  obtain ⟨hrow, h⟩ := Option.ite_none_right_eq_some.mp h
  cases h
  exact ⟨not_mem_accepted_of_refused hrow, mem_accepted_restate hrow⟩

theorem mem_accepted_insert {T' : KeyTable Target} (h : T.insert target key = some T') :
    key ∉ T.accepted target ∧ (k ∈ T'.accepted t ↔ k ∈ T.accepted t ∨ t = target ∧ k = key) := by
  obtain ⟨hnew, hmem⟩ := mem_accepted_add h
  refine ⟨fun hkey => hnew ?_, hmem.trans (or_congr_right ?_)⟩
  · exact List.mem_map_of_mem (f := Row.index) (mem_accepted.mp hkey)
  · rw [Row.mk.injEq, eq_comm (a := target), eq_comm (a := key)]
    exact and_congr_right fun _ => and_iff_left rfl

@[simp] theorem accepted_refuse : k ∈ (T.refuse target key).accepted t ↔ k ∈ T.accepted t := by
  unfold refuse
  cases hadd : T.add ⟨target, key, .refused⟩ with
  | none => exact Iff.rfl
  | some T' =>
    refine (mem_accepted_add hadd).2.trans (or_iff_left fun h => ?_)
    exact nomatch congrArg Row.state h

/-- An administrator's accept accepts no other key. -/
theorem mem_accepted_of_accept {T' : KeyTable Target} {keepOthers : Bool}
    (h : T.accept target key keepOthers = some T') (hk : k ∈ T'.accepted t) :
    k ∈ T.accepted t ∨ t = target ∧ k = key := by
  obtain ⟨hrow, h⟩ := Option.ite_none_right_eq_some.mp h
  cases h
  cases keepOthers with
  | true => exact (mem_accepted_restate hrow).mp hk
  | false =>
    refine ((mem_accepted_restate ?_).mp hk).imp_left fun h => (mem_accepted_delete.mp h).1
    exact List.mem_filter.mpr ⟨hrow, by simp⟩

theorem mem_accepted_of_remove (h : k ∈ (T.remove target key).accepted t) : k ∈ T.accepted t :=
  (mem_accepted_delete.mp h).1

theorem mem_accepted_of_reset (h : k ∈ (T.reset target).accepted t) : k ∈ T.accepted t :=
  (mem_accepted_delete.mp h).1

end KeyTable

/-! ## Policies -/

/-- A `HostKeyPolicy`.  `learned` is what its `seen` tells `_seen`. -/
structure HostKeyPolicy where
  known : List Key := []
  learn : Bool := false
  learned : Bool := false

namespace HostKeyPolicy

def OFF : HostKeyPolicy := {}

def checks (p : HostKeyPolicy) : Bool := !p.known.isEmpty || p.learn

def pinned (p : HostKeyPolicy) (key : Key) : HostKeyPolicy :=
  { p with known := [key], learn := false }

end HostKeyPolicy

/-- `HostKeyPolicies.policy`, from the target's accepted keys. -/
def policy (mode : HostKeyMode) (known : List Key) (learn : Bool) : HostKeyPolicy :=
  if mode = .off then .OFF
  else { known := known, learn := learn && known.isEmpty, learned := known.isEmpty }

/-! ## One connection's check -/

/-- A `HostKeyCheck`: the keys in its file, and those loaded so far. -/
structure HostKeyCheck where
  loaded : List Key
  tried : List Key

namespace HostKeyCheck

/-- The first known key of each type. -/
def firsts : List Key → List Key :=
  List.foldl (fun loaded key => if loaded.any fun k => k.type = key.type then loaded
    else loaded ++ [key]) []

def enter (p : HostKeyPolicy) : HostKeyCheck := ⟨firsts p.known, firsts p.known⟩

/-- The SSH library lets the key through to authentication. -/
def lets (check : HostKeyCheck) (p : HostKeyPolicy) (key : Key) : Bool :=
  p.known.isEmpty || check.loaded.contains key

/-- The key a device was refused for is loaded instead; `none` when it is not to be tried. -/
def alternative (check : HostKeyCheck) (p : HostKeyPolicy) (offered : Key) : Option HostKeyCheck :=
  if offered ∉ p.known ∨ offered ∈ check.tried then none
  else some
    { loaded := check.loaded.map fun k => if k.type = offered.type then offered else k
      tried := check.tried ++ [offered] }

variable {p : HostKeyPolicy} {check : HostKeyCheck}

theorem mem_known_of_mem_enter {k : Key} (h : k ∈ (enter p).loaded) : k ∈ p.known := by
  have hfold : ∀ (known loaded : List Key), k ∈ known.foldl (fun loaded key =>
      if loaded.any fun k => k.type = key.type then loaded else loaded ++ [key]) loaded →
        k ∈ loaded ∨ k ∈ known := by
    intro known
    induction known with
    | nil => exact fun _ h => .inl h
    | cons key known ih =>
      intro loaded h
      rw [List.foldl_cons] at h
      rcases ih _ h with h | h
      · split at h
        · exact .inl h
        · rcases List.mem_append.mp h with h | h
          · exact .inl h
          · exact .inr (List.mem_cons.mpr (.inl (List.mem_singleton.mp h)))
      · exact .inr (List.mem_cons_of_mem _ h)
  exact (hfold p.known [] h).resolve_left List.not_mem_nil

theorem mem_known_of_alternative {offered k : Key} {check' : HostKeyCheck}
    (hloaded : ∀ k ∈ check.loaded, k ∈ p.known) (h : check.alternative p offered = some check')
    (hk : k ∈ check'.loaded) : k ∈ p.known := by
  obtain ⟨hoffered, h⟩ := Option.ite_none_left_eq_some.mp h
  cases h
  obtain ⟨k', hk', rfl⟩ := List.mem_map.mp hk
  split
  · exact not_not.mp (not_or.mp hoffered).1
  · exact hloaded k' hk'

/-- With keys known, only a known one is let through. -/
theorem mem_known_of_lets {k : Key} (hloaded : ∀ k ∈ check.loaded, k ∈ p.known)
    (hknown : p.known ≠ []) (h : check.lets p k = true) : k ∈ p.known := by
  rcases Bool.or_eq_true_iff.mp h with h | h
  · exact absurd (List.isEmpty_iff.mp h) hknown
  · exact hloaded k (List.contains_iff_mem.mp h)

end HostKeyCheck
end HostKeys
end NetRollout
