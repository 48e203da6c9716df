import NetRollout.Library.Calendar
import NetRollout.Library.Counter
import NetRollout.Library.Interning

/-!
# An import's security profiles

`_ProfileResolver` of `src/inventory.py`: the credential columns of a devices CSV become
security profiles of the importing user.

A row is given the user's profile with exactly its credentials, the one it has or one that is
made for it and that the later rows with them share (`exact_profiles`).  Nothing is changed of
the profiles there were, and a new one has a name of its own (`Own`).

A stored secret is some token of which `decrypt` makes the text again.
-/

namespace NetRollout
namespace Inventory
namespace Resolver

open PyText (Str)

/-- `encrypt` and `decrypt` of `src/encryption.py`, under one key. -/
structure Fernet (T : Type) where
  encrypt : Str → T
  decrypt : T → Str
  decrypt_encrypt : ∀ s, decrypt (encrypt s) = s

/-- A row of `security_profiles` of the user, with its secrets as they are stored. -/
structure Profile (T : Type) where
  id : Nat
  label : Option Str
  username : Str
  password_secret : T
  enable_secret : Option T

/-- A username, a password and an enable secret. -/
abbrev Credentials := Str × Str × Str

/-- `_ProfileResolver`, but for the count of what it has given. -/
structure State (T : Type) where
  known : List (Credentials × Profile T)
  labels : List Str
  created : List (Profile T)
  warnings : List Str

variable {T : Type} (fernet : Fernet T)

/-- `_name`. -/
def Profile.name (p : Profile T) : Str :=
  match p.label with
  | some label => if label = [] then p.username else label
  | none => p.username

/-- The credentials a profile holds, decrypted. -/
def Profile.credentials (p : Profile T) : Credentials :=
  (p.username, fernet.decrypt p.password_secret, (p.enable_secret.map fernet.decrypt).getD [])

/-- `_ProfileResolver.__init__`: the user's profiles, as the database answers. -/
def start (profiles : List (Profile T)) : State T where
  known := profiles.map fun p => (p.credentials fernet, p)
  labels := (profiles.filterMap (·.label)).filter (· ≠ [])
  created := []
  warnings := []

/-! ## A new label -/

/-- `strftime("%b")` in the C locale. -/
def monthNames : List Str :=
  ["Jan", "Feb", "Mar", "Apr", "May", "Jun", "Jul", "Aug", "Sep", "Oct", "Nov", "Dec"].map
    String.toList

/-- `f"{username[:36]} · CSV import {today.day} {today:%b}"`. -/
def baseLabel (today : Calendar.Date) (username : Str) : Str :=
  username.take 36 ++ " · CSV import ".toList ++ PyText.ofInt today.day ++
    ' ' :: (monthNames[today.month - 1]?).getD []

/-- The labels tried: the first, and those numbered from 2 on. -/
def numbered (base : Str) : Nat → Str
  | 0 => base
  | n + 1 => base ++ " (".toList ++ PyText.ofInt (n + 2 : Nat) ++ [')']

/-- `_unique_label`. -/
def uniqueLabel (today : Calendar.Date) (labels : List Str) (username : Str) : Str :=
  (firstFree labels (numbered (baseLabel today username)) (labels.length + 1) 0).getD []

/-! ## One profile -/

/-- The warning that another of the user's profiles has the username of a new one. -/
def warning (label username password : Str) (other : Credentials × Profile T) : Str :=
  let what := if other.1.2.1 ≠ password then "password" else "enable secret"
  "Created profile '".toList ++ label ++ "' - your profile '".toList ++ other.2.name ++
    "' also uses username ".toList ++ username ++ ", with a different ".toList ++ what.toList ++
    ". If the CSV has a typo or an old password, fix the row or move the devices to '".toList ++
    other.2.name ++ "'.".toList

/-- `_create`, the new row's id being `id`. -/
def create (today : Calendar.Date) (fresh : Nat → Nat) (s : State T) (credentials : Credentials) :
    State T × Profile T :=
  let (username, password, secret) := credentials
  let label := uniqueLabel today s.labels username
  let profile : Profile T :=
    { id := fresh s.created.length
      label := some label
      username
      password_secret := fernet.encrypt password
      enable_secret := if secret = [] then none else some (fernet.encrypt secret) }
  ({ known := s.known ++ [(credentials, profile)]
     labels := s.labels ++ [label]
     created := s.created ++ [profile]
     warnings := s.warnings ++
      ((s.known.find? fun other => other.1.1 = username).map
        (warning label username password)).toList },
    profile)

/-- `_known`, and how a profile is added to it. -/
def profiles (today : Calendar.Date) (fresh : Nat → Nat) :
    Interner (State T) Credentials (Profile T) where
  table := State.known
  create := create fernet today fresh
  table_create := fun _ _ => rfl

/-- `resolve` of several rows, one after the other; no profile for a row without credentials. -/
def resolve (today : Calendar.Date) (fresh : Nat → Nat) (s : State T)
    (rows : List (Option Credentials)) : State T × List (Option (Profile T)) :=
  (profiles fernet today fresh).run s rows

/-- `created`. -/
def created (s : State T) : List (Nat × Str) := s.created.map fun p => (p.id, p.name)

/-- A line of `summary`. -/
def summaryLine (s : State T) (given : List (Profile T)) (entry : Nat × Nat) :
    Str × Str :=
  let devices := PyText.ofInt entry.2 ++
    (if entry.2 = 1 then " device".toList else " devices".toList)
  let name := ((given.find? fun p => p.id = entry.1).map Profile.name).getD []
  if s.created.any fun p => p.id = entry.1 then
    ("success".toList, devices ++ " assigned to new profile '".toList ++ name ++ ['\''])
  else ("info".toList, devices ++ " assigned to existing profile '".toList ++ name ++ ['\''])

/-- `summary`, the profiles counted in the order they were first given in. -/
def summary (s : State T) (given : List (Profile T)) : List (Str × Str) :=
  (Counter.count (given.map (·.id))).map (summaryLine s given) ++
    s.warnings.map fun warning => ("warning".toList, warning)

/-! ## A new label is free -/

theorem toDigits_injective {m n : Nat} (h : Nat.toDigits 10 m = Nat.toDigits 10 n) : m = n := by
  have hvalue := congrArg (fun digits => Nat.ofDigitChars 10 digits 0) h
  simpa only [Nat.ofDigitChars_ten_toDigits] using hvalue

theorem numbered_injective (base : Str) : Function.Injective (numbered base) := by
  have hlong : ∀ n, base ≠ numbered base (n + 1) := by
    intro n heq
    have hlength := congrArg List.length heq
    simp only [numbered, List.length_append, List.length_singleton] at hlength
    omega
  intro m n h
  cases m with
  | zero =>
    cases n with
    | zero => rfl
    | succ n => exact absurd h (hlong n)
  | succ m =>
    cases n with
    | zero => exact absurd h.symm (hlong m)
    | succ n =>
      have hnumber := List.append_cancel_left (List.append_cancel_right h)
      have hdigits : Nat.toDigits 10 (m + 2) = Nat.toDigits 10 (n + 2) := by
        rw [PyText.ofInt, if_neg (by omega), PyText.ofInt, if_neg (by omega)] at hnumber
        exact hnumber
      have heq := toDigits_injective hdigits
      omega

/-- **A new label is not taken**, and is the first or a numbered one. -/
theorem uniqueLabel_spec (today : Calendar.Date) (labels : List Str) (username : Str) :
    uniqueLabel today labels username ∉ labels ∧
      ∃ n, uniqueLabel today labels username = numbered (baseLabel today username) n := by
  obtain ⟨label, hlabel⟩ := exists_firstFree (numbered_injective (baseLabel today username))
    (Nat.lt_succ_self labels.length) 0
  have hfree := notMem_of_firstFree hlabel
  rw [uniqueLabel, hlabel, Option.getD_some]
  exact ⟨hfree.1, hfree.2.elim fun n hn => ⟨n, hn.2⟩⟩

theorem numbered_ne_nil (today : Calendar.Date) (username : Str) (n : Nat) :
    numbered (baseLabel today username) n ≠ [] := by
  cases n <;> simp [numbered, baseLabel]

/-! ## What an import makes -/

/-- The labels that the user's profiles have. -/
def labelsOf (before : List (Profile T)) : List Str :=
  (before.filterMap (·.label)).filter (· ≠ [])

/-- What the profiles made so far are: beside those there were, and of a name of their own. -/
structure Own (fresh : Nat → Nat) (before : List (Profile T)) (s : State T) : Prop where
  known : s.known = (before ++ s.created).map fun p => (p.credentials fernet, p)
  labels : s.labels = labelsOf before ++ s.created.filterMap (·.label)
  labelled : ∀ p ∈ s.created, ∃ label, p.label = some label ∧ label ≠ []
  nodup : (s.created.filterMap (·.label)).Nodup
  apart : ∀ label ∈ s.created.filterMap (·.label), label ∉ labelsOf before
  ids : s.created.map (·.id) = (List.range s.created.length).map fresh

variable {fernet} {today : Calendar.Date} {fresh : Nat → Nat} {before : List (Profile T)}

theorem own_start : Own fernet fresh before (start fernet before) := by
  constructor
  · rw [start, List.append_nil]
  · show labelsOf before = labelsOf before ++ []
    rw [List.append_nil]
  · exact fun p hp => absurd hp List.not_mem_nil
  · exact List.nodup_nil
  · exact fun label hlabel => absurd hlabel List.not_mem_nil
  · rfl

/-- A profile holds the credentials it was made for. -/
theorem credentials_create (s : State T) (c : Credentials) :
    (create fernet today fresh s c).2.credentials fernet = c := by
  obtain ⟨username, password, secret⟩ := c
  show (username, fernet.decrypt (fernet.encrypt password), ((if secret = [] then none
    else some (fernet.encrypt secret) : Option T).map fernet.decrypt).getD []) = _
  rw [fernet.decrypt_encrypt]
  split
  · next hnil =>
    rw [hnil]
    rfl
  · rw [Option.map_some, fernet.decrypt_encrypt]
    rfl

theorem Own.create {s : State T} (h : Own fernet fresh before s) (c : Credentials) :
    Own fernet fresh before (create fernet today fresh s c).1 := by
  have hlabel := uniqueLabel_spec today s.labels c.1
  obtain ⟨label, hlabelEq⟩ : ∃ label, label = uniqueLabel today s.labels c.1 := ⟨_, rfl⟩
  rw [← hlabelEq] at hlabel
  have hcreated : (Resolver.create fernet today fresh s c).1.created =
      s.created ++ [(Resolver.create fernet today fresh s c).2] := rfl
  have hnew : (Resolver.create fernet today fresh s c).2.label = some label := by
    rw [hlabelEq]
    rfl
  have hlabels : (s.created ++ [(Resolver.create fernet today fresh s c).2]).filterMap (·.label) =
      s.created.filterMap (·.label) ++ [label] := by
    rw [List.filterMap_append, List.filterMap_cons_some hnew, List.filterMap_nil]
  rw [h.labels, List.mem_append, not_or] at hlabel
  constructor
  · rw [hcreated, ← List.append_assoc, List.map_append, ← h.known, List.map_singleton,
      credentials_create]
    rfl
  · rw [hcreated, hlabels, ← List.append_assoc, ← h.labels, hlabelEq]
    rfl
  · rw [hcreated]
    intro p hp
    rcases List.mem_append.mp hp with hp | hp
    · exact h.labelled p hp
    · obtain rfl := List.mem_singleton.mp hp
      obtain ⟨n, hn⟩ := hlabel.2
      exact ⟨label, hnew, hn ▸ numbered_ne_nil today c.1 n⟩
  · rw [hcreated, hlabels, List.nodup_append]
    refine ⟨h.nodup, List.nodup_singleton _, fun a ha b hb => ?_⟩
    rw [List.mem_singleton.mp hb]
    rintro rfl
    exact hlabel.1.2 ha
  · rw [hcreated, hlabels]
    intro l hl
    rcases List.mem_append.mp hl with hl | hl
    · exact h.apart l hl
    · rw [List.mem_singleton.mp hl]
      exact hlabel.1.1
  · rw [hcreated, List.map_append, h.ids, List.length_append, List.length_singleton,
      List.range_succ, List.map_append]
    rfl

theorem own_resolve (rows : List (Option Credentials)) :
    Own fernet fresh before (resolve fernet today fresh (start fernet before) rows).1 :=
  Interner.run_invariant (profiles fernet today fresh) (fun _ c hs _ => hs.create c) own_start rows

/-- What an import's rows are given of the user's profiles, those there were and those made. -/
structure Exact (fernet : Fernet T) (before made : List (Profile T))
    (rows : List (Option Credentials)) (given : List (Option (Profile T))) : Prop where
  /-- A row is given a profile with its very credentials, and none without any. -/
  exact : List.Forall₂ (fun row p => p.map (·.credentials fernet) = row) rows given
  mem : ∀ p, some p ∈ given → p ∈ before ++ made
  /-- Two rows share a profile if their credentials are the same. -/
  shared : ∀ p q, some p ∈ given → some q ∈ given →
    (p = q ↔ p.credentials fernet = q.credentials fernet)
  /-- One is made for each credentials that no profile of the user has. -/
  once : (made.map (·.credentials fernet)).Nodup
  needed : ∀ c, c ∈ made.map (·.credentials fernet) ↔
    some c ∈ rows ∧ c ∉ before.map (·.credentials fernet)
  /-- A new profile has a label that no other profile of the user has. -/
  labelled : ∀ p ∈ made, ∃ label, p.label = some label ∧ label ≠ [] ∧
    ∀ q ∈ before, q.label ≠ some label
  nodup : (made.filterMap (·.label)).Nodup

theorem mem_known {s : State T} (h : Own fernet fresh before s) {c : Credentials} {p : Profile T}
    (hp : (c, p) ∈ s.known) : p ∈ before ++ s.created ∧ p.credentials fernet = c := by
  rw [h.known] at hp
  obtain ⟨q, hq, heq⟩ := List.mem_map.mp hp
  cases heq
  exact ⟨hq, rfl⟩

/-- What is given for credentials that the known profiles have. -/
theorem exists_lookup {s : State T} (h : Own fernet fresh before s) {c : Credentials}
    (hc : c ∈ (before ++ s.created).map (·.credentials fernet)) :
    ∃ p, Interner.lookup s.known c = some p ∧ p ∈ before ++ s.created ∧
      p.credentials fernet = c := by
  cases hlookup : Interner.lookup s.known c with
  | some p => exact ⟨p, rfl, mem_known h (Interner.mem_of_lookup hlookup)⟩
  | none =>
    refine absurd ?_ (Interner.lookup_eq_none_iff.mp hlookup)
    rw [h.known, List.map_map]
    exact hc

/-- **Every row is given a profile with exactly its credentials**: one the user has, or one that
is made for it and shared with the rows of the same credentials. -/
theorem exact_profiles (fernet : Fernet T) (today : Calendar.Date) (fresh : Nat → Nat)
    (before : List (Profile T)) (rows : List (Option Credentials)) :
    Exact fernet before (resolve fernet today fresh (start fernet before) rows).1.created rows
      (resolve fernet today fresh (start fernet before) rows).2 := by
  have hown : Own fernet fresh before (resolve fernet today fresh (start fernet before) rows).1 :=
    own_resolve rows
  have hgiven : (resolve fernet today fresh (start fernet before) rows).2 = rows.map fun asked =>
      asked.bind (Interner.lookup
        (resolve fernet today fresh (start fernet before) rows).1.known) :=
    Interner.results_eq (profiles fernet today fresh) (start fernet before) rows
  obtain ⟨added, htable, hnodup, hadded⟩ :=
    Interner.exists_added (profiles fernet today fresh) (start fernet before) rows
  change (resolve fernet today fresh (start fernet before) rows).1.known =
    (start fernet before).known ++ added at htable
  generalize resolve fernet today fresh (start fernet before) rows = out at *
  have hkeys : added.map Prod.fst = out.1.created.map (·.credentials fernet) := by
    have hmade : added = out.1.created.map fun p => (p.credentials fernet, p) := by
      refine List.append_cancel_left (htable.symm.trans ?_)
      rw [hown.known, List.map_append]
      rfl
    rw [hmade, List.map_map]
    rfl
  have hbefore : (start fernet before).known.map Prod.fst =
      before.map (·.credentials fernet) := by
    rw [start, List.map_map]
    rfl
  have hneeded : ∀ c, c ∈ out.1.created.map (·.credentials fernet) ↔
      some c ∈ rows ∧ c ∉ before.map (·.credentials fernet) := by
    intro c
    rw [← hkeys, hadded c]
    exact and_congr_right fun _ => by rw [← hbefore]; rfl
  have hasked : ∀ c, some c ∈ rows → ∃ p, Interner.lookup out.1.known c = some p ∧
      p ∈ before ++ out.1.created ∧ p.credentials fernet = c := by
    intro c hc
    refine exists_lookup hown ?_
    rw [List.map_append, List.mem_append]
    by_cases hold : c ∈ before.map (·.credentials fernet)
    · exact Or.inl hold
    · exact Or.inr ((hneeded c).mpr ⟨hc, hold⟩)
  have hlookup : ∀ p, some p ∈ out.2 → Interner.lookup out.1.known (p.credentials fernet) = some p ∧
      p ∈ before ++ out.1.created := by
    intro p hp
    rw [hgiven, List.mem_map] at hp
    obtain ⟨asked, hrow, heq⟩ := hp
    obtain ⟨c, rfl, hc⟩ := Option.bind_eq_some_iff.mp heq
    obtain ⟨q, hq, hmem, hcred⟩ := hasked c hrow
    obtain rfl := Option.some.inj (hq.symm.trans hc)
    rw [hcred]
    exact ⟨hq, hmem⟩
  constructor
  · rw [hgiven, List.forall₂_map_right_iff]
    refine List.forall₂_same.mpr fun asked hrow => ?_
    rcases asked with _ | c
    · rfl
    · obtain ⟨p, hp, -, hcred⟩ := hasked c hrow
      rw [Option.bind_some, hp, Option.map_some, hcred]
  · exact fun p hp => (hlookup p hp).2
  · intro p q hp hq
    refine ⟨fun heq => heq ▸ rfl, fun hsame => ?_⟩
    have hfirst := (hlookup p hp).1
    rw [hsame, (hlookup q hq).1] at hfirst
    exact (Option.some.inj hfirst).symm
  · rw [← hkeys]
    exact hnodup
  · exact hneeded
  · intro p hp
    obtain ⟨label, hlabel, hne⟩ := hown.labelled p hp
    refine ⟨label, hlabel, hne, fun q hq heq => ?_⟩
    refine hown.apart label (List.mem_filterMap.mpr ⟨p, hp, hlabel⟩) ?_
    exact List.mem_filter.mpr ⟨List.mem_filterMap.mpr ⟨q, hq, heq⟩, by simpa using hne⟩
  · exact hown.nodup

end Resolver
end Inventory
end NetRollout
