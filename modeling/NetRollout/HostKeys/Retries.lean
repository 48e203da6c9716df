import Mathlib.Data.List.Dedup
import NetRollout.HostKeys.Policy

/-!
# The retries of one connection

The loop of `_connect` of `src/rollout/session.py`: a device that shows a known key other than
the loaded one is connected to again, with that one loaded.  What the device does is any
sequence of contacts, one for each call of `ConnectHandler`; what the SSH library makes of a key
is a parameter, of which only one thing is used: with keys loaded, it lets no other key through.

Each retry takes a known key that was not tried, so the loop ends (`connect_spec`).
-/

namespace NetRollout
namespace HostKeys

/-! ## What a call meets -/

/-- What the SSH library makes of a key. -/
inductive Verdict where
  | lets
  /-- `BadHostKeyException`. -/
  | bad
  /-- Another error, as where no key is loaded. -/
  | error
  deriving DecidableEq

/-- The SSH library: what it makes of a key, with the keys loaded, if keys are to be checked. -/
structure Ssh where
  check : Option (List Key) → Key → Verdict
  mem_of_lets : ∀ loaded key, check (some loaded) key = .lets → key ∈ loaded

/-- How a call ends once the key is let through. -/
inductive Fate where
  | connected
  | readTimeout
  | failed
  deriving DecidableEq

/-- What one call of `ConnectHandler` meets: the key that is shown, if any. -/
structure Contact where
  key : Option Key
  fate : Fate

/-- How one call of `ConnectHandler` ends. -/
inductive Call where
  | session (shown : Key)
  /-- A chain of errors with `BadHostKeyException`. -/
  | refused (offered : Key)
  | readTimeout
  | failed
  deriving DecidableEq

/-- `ConnectHandler`. -/
def call (ssh : Ssh) (given : Option (List Key)) (c : Contact) : Call :=
  match c.key with
  | none => .failed
  | some key =>
    match ssh.check given key with
    | .bad => .refused key
    | .error => .failed
    | .lets =>
      match c.fate with
      | .connected => .session key
      | .readTimeout => .readTimeout
      | .failed => .failed

/-! ## The loop -/

/-- `args`: the keys of the file; none when nothing is known. -/
def HostKeyCheck.args (check : HostKeyCheck) (p : HostKeyPolicy) : Option (List Key) :=
  if p.known.isEmpty then none else some check.loaded

/-- A round: the keys that were given to the SSH library, and how its call ended. -/
structure Round where
  given : Option (List Key)
  call : Call
  deriving DecidableEq

/-- How `_connect` ends. -/
inductive Ending where
  | session (shown : Key)
  /-- `HostKeyRefused`. -/
  | refused (offered : Key)
  /-- `ConnectionError`: the units took turns. -/
  | unsettled
  /-- Any other error. -/
  | raised
  deriving DecidableEq

section Loop

variable (ssh : Ssh) (p : HostKeyPolicy) (device : ℕ → Contact)

/-- One round, from the `n`-th call on: a second call after a `ReadTimeout`, and the calls that
were made. -/
def turn (check : HostKeyCheck) (n : ℕ) : Call × ℕ :=
  match call ssh (check.args p) (device n) with
  | .readTimeout => (call ssh (check.args p) (device (n + 1)), n + 2)
  | c => (c, n + 1)

/-- `_connect`, its rounds and its end; none where the fuel does not last. -/
def loop : ℕ → HostKeyCheck → ℕ → Option (List Round × Ending)
  | 0, _, _ => none
  | fuel + 1, check, n =>
    let r := turn ssh p device check n
    let here : Round := ⟨check.args p, r.1⟩
    match r.1 with
    | .session shown => some ([here], .session shown)
    | .refused offered =>
      match check.alternative p offered with
      | some check' => (loop fuel check' r.2).map fun e => (here :: e.1, e.2)
      | none =>
        if offered ∈ p.known then some ([here], .unsettled) else some ([here], .refused offered)
    | .readTimeout | .failed => some ([here], .raised)

def connect (fuel : ℕ) : Option (List Round × Ending) := loop ssh p device fuel (.enter p) 0

end Loop

/-! ## The measure -/

/-- The known keys that were not tried. -/
def HostKeyCheck.untried (check : HostKeyCheck) (p : HostKeyPolicy) : List Key :=
  p.known.dedup.filter fun k => k ∉ check.tried

/-- A retry takes one of them. -/
theorem length_untried_alternative {p : HostKeyPolicy} {check check' : HostKeyCheck} {offered : Key}
    (h : check.alternative p offered = some check') :
    (check'.untried p).length + 1 = (check.untried p).length := by
  obtain ⟨hnot, h⟩ := Option.ite_none_left_eq_some.mp h
  rw [not_or, not_not] at hnot
  have hmem : offered ∈ check.untried p := by
    rw [HostKeyCheck.untried, List.mem_filter, List.mem_dedup, decide_eq_true_eq]
    exact hnot
  have hnodup : (check.untried p).Nodup := (List.nodup_dedup p.known).filter _
  have herase : check'.untried p = (check.untried p).erase offered := by
    rw [hnodup.erase_eq_filter, ← Option.some.inj h, HostKeyCheck.untried, HostKeyCheck.untried,
      List.filter_filter]
    refine List.filter_congr fun k _ => ?_
    rw [Bool.eq_iff_iff]
    simp only [List.mem_append, List.mem_singleton, not_or, decide_eq_true_eq, Bool.and_eq_true,
      bne_iff_ne, ne_eq, and_comm]
  have hpos := List.length_pos_of_mem hmem
  rw [herase, List.length_erase_of_mem hmem]
  omega

theorem length_untried_enter_le (p : HostKeyPolicy) :
    ((HostKeyCheck.enter p).untried p).length ≤ p.known.dedup.length :=
  List.length_filter_le ..

/-- A round ended in a refusal. -/
def Round.isRefused (r : Round) : Bool :=
  match r.call with
  | .refused _ => true
  | _ => false

section Spec

variable {ssh : Ssh} {p : HostKeyPolicy} {device : ℕ → Contact} {check : HostKeyCheck} {n : ℕ}

/-- What holds of the rounds and the end. -/
structure Ended (p : HostKeyPolicy) (rounds : List Round) (ending : Ending) : Prop where
  /-- Only known keys were given to the SSH library. -/
  known : ∀ r ∈ rounds, ∀ loaded, r.given = some loaded → ∀ k ∈ loaded, k ∈ p.known
  refused : ∀ k, ending = .refused k → k ∉ p.known
  session : ∀ k, ending = .session k → p.checks = true → k ∈ p.known ∨ p.learn = true

theorem lets_of_session {given : Option (List Key)} {c : Contact} {k : Key}
    (h : call ssh given c = .session k) : ssh.check given k = .lets := by
  rw [call] at h
  split at h
  · cases h
  · next key _ =>
    split at h
    · cases h
    · cases h
    · next hcheck =>
      split at h <;> cases h
      exact hcheck

/-- A session's key was let through, by the first call or by the second. -/
theorem lets_of_turn {k : Key} (h : (turn ssh p device check n).1 = .session k) :
    ssh.check (check.args p) k = .lets := by
  rw [turn] at h
  split at h <;> exact lets_of_session h

/-- A checked session is one of a known key, unless the policy learns. -/
theorem mem_known_of_turn (hloaded : ∀ k ∈ check.loaded, k ∈ p.known) {k : Key}
    (h : (turn ssh p device check n).1 = .session k) (hchecks : p.checks = true) :
    k ∈ p.known ∨ p.learn = true := by
  have hlets := lets_of_turn h
  rw [HostKeyCheck.args] at hlets
  split at hlets
  · next hnone =>
    rw [HostKeyPolicy.checks, hnone] at hchecks
    exact .inr hchecks
  · exact .inl (hloaded k (ssh.mem_of_lets _ k hlets))

/-- What a round was given is known. -/
theorem mem_known_of_args (hloaded : ∀ k ∈ check.loaded, k ∈ p.known) {loaded : List Key}
    (h : check.args p = some loaded) : ∀ k ∈ loaded, k ∈ p.known := by
  rw [HostKeyCheck.args] at h
  split at h
  · cases h
  · cases h
    exact hloaded

/-- This round of the loop. -/
def here (ssh : Ssh) (p : HostKeyPolicy) (device : ℕ → Contact) (check : HostKeyCheck) (n : ℕ) :
    Round := ⟨check.args p, (turn ssh p device check n).1⟩

/-- The loop ends from the `n`-th call on, with at most `m + 1` refused rounds and as much fuel. -/
def EndsWithin (ssh : Ssh) (p : HostKeyPolicy) (device : ℕ → Contact) (check : HostKeyCheck)
    (n m : ℕ) : Prop :=
  ∃ rounds ending,
    (∀ fuel, m + 1 ≤ fuel → loop ssh p device fuel check n = some (rounds, ending)) ∧
    rounds.countP Round.isRefused ≤ m + 1 ∧ Ended p rounds ending

/-- A last round. -/
theorem EndsWithin.of_last {m : ℕ} (ending : Ending) (hloaded : ∀ k ∈ check.loaded, k ∈ p.known)
    (h : ∀ fuel, loop ssh p device (fuel + 1) check n = some ([here ssh p device check n], ending))
    (hrefused : ∀ k, ending = .refused k → k ∉ p.known)
    (hsession : ∀ k, ending = .session k → p.checks = true → k ∈ p.known ∨ p.learn = true) :
    EndsWithin ssh p device check n m := by
  refine ⟨[here ssh p device check n], ending, fun fuel hfuel => ?_, ?_, ?_, hrefused, hsession⟩
  · obtain ⟨fuel, rfl⟩ := Nat.exists_eq_add_of_le' (Nat.le_trans (Nat.le_add_left 1 m) hfuel)
    exact h fuel
  · exact Nat.le_trans List.countP_le_length (Nat.le_add_left 1 m)
  · intro r hr loaded hgiven
    rw [List.mem_singleton.mp hr] at hgiven
    exact mem_known_of_args hloaded hgiven

/-- A round before others. -/
theorem EndsWithin.cons {check' : HostKeyCheck} {n' m : ℕ}
    (hloaded : ∀ k ∈ check.loaded, k ∈ p.known)
    (h : ∀ fuel, loop ssh p device (fuel + 1) check n =
      (loop ssh p device fuel check' n').map fun e => (here ssh p device check n :: e.1, e.2))
    (hrest : EndsWithin ssh p device check' n' m) :
    EndsWithin ssh p device check n (m + 1) := by
  obtain ⟨rounds, ending, hloop, hcount, hended⟩ := hrest
  refine ⟨here ssh p device check n :: rounds, ending, fun fuel hfuel => ?_, ?_, ?_,
    hended.refused, hended.session⟩
  · obtain ⟨fuel, rfl⟩ := Nat.exists_eq_add_of_le' (Nat.le_trans (Nat.le_add_left 1 _) hfuel)
    rw [h, hloop fuel (by omega), Option.map_some]
  · have hone := List.countP_cons (p := Round.isRefused) (a := here ssh p device check n)
      (l := rounds)
    rw [hone]
    split <;> omega
  · intro r hr loaded hgiven
    rcases List.mem_cons.mp hr with rfl | hr
    · exact mem_known_of_args hloaded hgiven
    · exact hended.known r hr loaded hgiven

/-- The loop from any round on: it ends, as many refusals later as keys were not tried, and
one. -/
theorem loop_spec {m : ℕ} (hm : (check.untried p).length = m)
    (hloaded : ∀ k ∈ check.loaded, k ∈ p.known) : EndsWithin ssh p device check n m := by
  induction m using Nat.strong_induction_on generalizing check n with
  | _ m ih =>
    cases hturn : (turn ssh p device check n).1 with
    | session shown =>
      refine .of_last (.session shown) hloaded (fun fuel => ?_) (fun k h => by cases h)
        fun k h hchecks => ?_
      · rw [loop]
        simp only [hturn, here]
      · cases h
        exact mem_known_of_turn hloaded hturn hchecks
    | readTimeout =>
      refine .of_last .raised hloaded (fun fuel => ?_) (fun k h => by cases h)
        (fun k h => by cases h)
      rw [loop]
      simp only [hturn, here]
    | failed =>
      refine .of_last .raised hloaded (fun fuel => ?_) (fun k h => by cases h)
        (fun k h => by cases h)
      rw [loop]
      simp only [hturn, here]
    | refused offered =>
      cases halternative : check.alternative p offered with
      | none =>
        by_cases hknown : offered ∈ p.known
        · refine .of_last .unsettled hloaded (fun fuel => ?_) (fun k h => by cases h)
            (fun k h => by cases h)
          rw [loop]
          simp only [hturn, here, halternative, if_pos hknown]
        · refine .of_last (.refused offered) hloaded (fun fuel => ?_) (fun k h => ?_)
            (fun k h => by cases h)
          · rw [loop]
            simp only [hturn, here, halternative, if_neg hknown]
          · cases h
            exact hknown
      | some check' =>
        have hless := length_untried_alternative halternative
        have hrest : EndsWithin ssh p device check' (turn ssh p device check n).2
            (check'.untried p).length :=
          ih _ (by omega) rfl fun k hk =>
            HostKeyCheck.mem_known_of_alternative hloaded halternative hk
        rw [← hm, ← hless]
        refine .cons hloaded (fun fuel => ?_) hrest
        rw [loop]
        simp only [hturn, here, halternative]

end Spec

/-- **The retries end, and never widen trust**: there are no more refused rounds than known keys,
and one; with fuel for as many, what comes of them does not depend on the fuel. -/
theorem connect_spec (ssh : Ssh) (p : HostKeyPolicy) (device : ℕ → Contact) :
    ∃ rounds ending,
      (∀ fuel, p.known.dedup.length + 1 ≤ fuel →
        connect ssh p device fuel = some (rounds, ending)) ∧
      rounds.countP Round.isRefused ≤ p.known.dedup.length + 1 ∧ Ended p rounds ending := by
  have hentered : ∀ k ∈ (HostKeyCheck.enter p).loaded, k ∈ p.known :=
    fun k hk => HostKeyCheck.mem_known_of_mem_enter hk
  obtain ⟨rounds, ending, hloop, hcount, hended⟩ := @loop_spec ssh p device _ 0 _ rfl hentered
  have hle := length_untried_enter_le p
  exact ⟨rounds, ending, fun fuel hfuel => hloop fuel (by omega), by omega, hended⟩

/-- paramiko: a key is compared with the loaded one of its type, or refused if there are only
others. -/
def paramiko : Ssh where
  check
    | none, _ => .lets
    | some loaded, key =>
      match loaded.find? fun k => k.type = key.type with
      | none => if loaded = [] then .error else .bad
      | some k => if k = key then .lets else .bad
  mem_of_lets loaded key h := by
    dsimp only at h
    split at h
    · split at h <;> cases h
    · next k hfind =>
      split at h
      · next heq => exact heq ▸ List.mem_of_find?_eq_some hfind
      · cases h

/-- An HA pair, with a key for each unit, that takes turns. -/
example : (connect paramiko { known := [⟨['r'], ['1']⟩, ⟨['r'], ['2']⟩] }
    (fun n => ⟨some ⟨['r'], if n % 2 = 0 then ['2'] else ['1']⟩, .connected⟩) 3).map
      (fun e => (e.1.length, e.2)) = some (2, .unsettled) := by decide

end HostKeys
end NetRollout
