import NetRollout.Library.ListUpdate
import NetRollout.Library.Patch
import NetRollout.Library.Transition
import NetRollout.Settings.Registry

/-!
# Settings, read and changed

`SettingsStore` of `src/db/settings.py` and the calls of its `update` and `reset` by any
number of administrators.  A call reads every row in one query, checks the rules against
what it read, and saves its changes in a transaction of its own.

The transaction is READ COMMITTED, and takes one row after the other: it loads the row as it is
committed then, and SQLAlchemy sends, before the next row is loaded or with the commit, an
UPDATE of the columns that are given another value than the one loaded, or none where both
stay.  The UPDATE takes the row's lock, which is held until the transaction ends.

## What goes wrong, and when

The rules relate two settings, and the check of a call and its transaction are apart.  Two
calls that each keep a rule by what they read break it together: one shortens how long log
files are kept, the other lengthens how long job records are.  And a value that is already
there when its row is loaded is not sent, so that it can have changed again by the commit.

`undisturbed` is the condition on the steps under which every rule holds: when a call commits,
the other setting of each rule of a setting it sets has the value it checked the rule with, or
is set with it.  And no reply to a commit is lost after it took effect, or the call raises with
its changes saved.
-/

namespace NetRollout
namespace Settings

open PyText

variable [Unicode] [Decimals]

/-- A row of `system_settings`. -/
structure Row where
  value : Raw
  /-- None is the system. -/
  updated_by : Option Nat

/-- The rows, by their keys. -/
abbrev Table := Key → Option Row

/-- Every setting's value: a missing row's is the default. -/
def values (table : Table) (k : Key) : Value :=
  match table k with
  | some row => (setting k).coerce row.value
  | none => (setting k).default

/-- What is wrong, by key; no key for a rule. -/
abbrev Errors := List (Option String × String)

/-- `{**current, **changes}`. -/
def merged (current : Key → Value) (changes : List (Key × Value)) : Key → Value :=
  Patch.apply changes current

/-- `_check_rules`: the rules that would break, for the settings being changed only.  One key
stands for all of them, and the last message under it. -/
def checkRules (values : Key → Value) (touched : List Key) : Option String :=
  ((rules.filter fun r =>
    (touched.contains r.left || touched.contains r.right) && !r.holds values).map
      Rule.message).getLast?

/-- One key of an `update`. -/
def parseOne (name : String) (raw : Raw) : Except String (Key × Value) :=
  match Key.ofName name with
  | some k =>
    if (setting k).editable then match (setting k).kind.parse raw with
      | .ok value => .ok (k, value)
      | .error e => .error ((setting k).label ++ ": " ++ e)
    else .error "not an editable setting"
  | none => .error "not an editable setting"

/-- Every key of an `update`: what is wrong, and what was parsed. -/
def parseAll : List (String × Raw) → Errors × List (Key × Value)
  | [] => ([], [])
  | (name, raw) :: rest =>
    let (errors, parsed) := parseAll rest
    match parseOne name raw with
    | .ok entry => (errors, entry :: parsed)
    | .error e => ((some name, e) :: errors, parsed)

/-- `plan`: what `update` would change, given the rows. -/
def plan (table : Table) (raw : List (String × Raw)) : Except Errors (List (Key × Value)) :=
  let (errors, parsed) := parseAll raw
  if errors ≠ [] then .error errors
  else
    let current := values table
    match checkRules (merged current parsed) (parsed.map Prod.fst) with
    | some message => .error [(none, message)]
    | none => .ok (parsed.filter fun change => change.2 ≠ current change.1)

/-- `reset`, up to its transaction. -/
def planReset (table : Table) (k : Key) : Except Errors (List (Key × Value)) :=
  let current := values table
  if current k = (setting k).default then .ok []
  else match checkRules (merged current [(k, (setting k).default)]) [k] with
    | some message => .error [(none, message)]
    | none => .ok [(k, (setting k).default)]

/-! ## The transaction -/

/-- An INSERT or UPDATE of a row: the columns it sets. -/
structure Statement where
  key : Key
  value : Option Raw
  updated_by : Option (Option Nat)

/-- The row afterwards. -/
def Statement.on (x : Statement) : Option Row → Option Row
  | some row => some ⟨x.value.getD row.value, x.updated_by.getD row.updated_by⟩
  | none => x.value.map fun value => ⟨value, x.updated_by.getD none⟩

/-- A row that was loaded, and the value it is given. -/
structure Loaded where
  key : Key
  value : Value
  row : Option Row

/-- What is sent of it: a row that was missing, or the columns that differ. -/
def Loaded.statement (x : Loaded) (user : Option Nat) : Option Statement :=
  match x.row with
  | none => some ⟨x.key, some x.value.raw, some user⟩
  | some row =>
    if row.value = x.value.raw ∧ row.updated_by = user then none
    else some ⟨x.key, if row.value = x.value.raw then none else some x.value.raw,
      if row.updated_by = user then none else some user⟩

/-- A transaction of `_write`, and what it was planned by. -/
structure Transaction where
  changes : List (Key × Value)
  /-- The values the call read for its check. -/
  read : Key → Value
  user : Option Nat
  /-- The rows that are still to be loaded. -/
  left : List (Key × Value)
  loaded : Option Loaded
  sent : List Statement

/-- The rows once a transaction has committed. -/
def write (table : Table) (sent : List Statement) : Table := fun k =>
  match sent.find? fun x => x.key == k with
  | some x => x.on (table k)
  | none => table k

namespace Transaction

variable (t : Transaction)

/-- The value it sets a setting to, if it does. -/
def sets (k : Key) : Option Raw := (t.sent.find? fun x => x.key == k).bind Statement.value

/-- The values it checked the rules with. -/
def checked : Key → Value := merged t.read t.changes

end Transaction

/-! ## Calls -/

/-- A call; the keys of an `update` are those of a dict. -/
inductive Request where
  | update (raw : List (String × Raw)) (hkeys : (raw.map Prod.fst).Nodup)
  | reset (k : Key)

/-- Where a call stands. -/
inductive Call where
  | coming (request : Request) (user : Option Nat)
  /-- Checked against what it read, in its transaction. -/
  | saving (t : Transaction)
  /-- Returned. -/
  | done
  | raised

/-- A row's lock is the call's. -/
def Call.locks (k : Key) : Call → Bool
  | saving t => t.sent.any fun x => x.key == k
  | _ => false

/-- The committed rows, and the calls made. -/
structure Store where
  table : Table
  calls : List Call

/-- What happens next. -/
inductive Action where
  | call (request : Request) (user : Option Nat)
  | go (i : Nat)
  /-- A query or a statement raises, a deadlock's too; the transaction is rolled back. -/
  | fail (i : Nat)
  /-- The transaction commits, and its reply is lost. -/
  | lose (i : Nat)

def Request.plan (table : Table) : Request → Except Errors (List (Key × Value))
  | update raw _ => Settings.plan table raw
  | reset k => planReset table k

namespace Store

variable (s : Store)

/-- Another call has the row's lock. -/
def locked (i : Nat) (k : Key) : Bool := (s.calls.eraseIdx i).any fun c => c.locks k

/-- The next step of a transaction, up to its commit; an UPDATE waits for its row's lock, and
raises where the row has come or gone since it was loaded. -/
def proceed (i : Nat) (t : Transaction) : Option Call :=
  match t.loaded, t.left with
  | some x, _ => match x.statement t.user with
    | none => some (.saving { t with loaded := none })
    | some statement =>
      if s.locked i x.key then none
      else if (s.table x.key).isSome = x.row.isSome then
        some (.saving { t with loaded := none, sent := t.sent ++ [statement] })
      else some .raised
  | none, (k, v) :: left => some (.saving { t with left := left, loaded := some ⟨k, v, s.table k⟩ })
  | none, [] => none

def step : Action → Option Store
  | .call request user => some { s with calls := s.calls ++ [.coming request user] }
  | .go i => do
    match ← s.calls[i]? with
    | .coming request user => match request.plan s.table with
      | .error _ => some { s with calls := s.calls.set i .raised }
      | .ok [] => some { s with calls := s.calls.set i .done }
      | .ok changes =>
        some { s with
          calls := s.calls.set i (.saving ⟨changes, values s.table, user, changes, none, []⟩) }
    | .saving t =>
      if t.loaded.isNone && t.left.isEmpty then some ⟨write s.table t.sent, s.calls.set i .done⟩
      else (s.proceed i t).map fun call => { s with calls := s.calls.set i call }
    | _ => none
  | .fail i => do
    match ← s.calls[i]? with
    | .coming _ _ | .saving _ => some { s with calls := s.calls.set i .raised }
    | _ => none
  | .lose i => do
    match ← s.calls[i]? with
    | .saving t =>
      if t.loaded.isNone && t.left.isEmpty then some ⟨write s.table t.sent, s.calls.set i .raised⟩
      else none
    | _ => none

end Store

/-! ## What is stored -/

/-- Each stored setting is valid for its type and bounds, and every rule holds. -/
structure Kept (table : Table) : Prop where
  valid : ∀ k row, table k = some row →
    ∃ v : Value, row.value = v.raw ∧ (setting k).kind.valid v = true
  rules : ∀ r ∈ rules, r.holds (values table) = true

/-- The store of administrators' calls, from settings that are as they should be. -/
def settings : System Store Action where
  Init s := Kept s.table ∧ s.calls = []
  step := Store.step

/-- **The settings hold**: what is stored is as it should be, and what a step changes of it
is saved by a call that returns. -/
structure SettingsHold (allowed : Store → Action → Bool) (s : Store) : Prop where
  kept : Kept s.table
  raised : ∀ a s', allowed s a = true → s.step a = some s' → s'.table ≠ s.table →
    ∃ (i : Nat) (t : Transaction), s.calls[i]? = some (.saving t) ∧ s'.calls[i]? = some .done

/-- For each rule of a setting a transaction sets: each of its two settings, if the transaction
does not set it, has the value the rule was checked with, or the rule holds of the two as they
come to be. -/
def current (s : Store) (t : Transaction) : Bool :=
  rules.all fun r =>
    let asChecked := fun k => (t.sets k).isSome || values s.table k = t.checked k
    !((t.sets r.left).isSome || (t.sets r.right).isSome) ||
      (asChecked r.left && asChecked r.right) ||
      r.holds (values (write s.table t.sent))

/-- No call commits after the other setting of a rule has changed against it, and no reply to a
commit is lost. -/
def undisturbed (s : Store) : Action → Bool
  | .go i => match s.calls[i]? with
    | some (.saving t) => !(t.loaded.isNone && t.left.isEmpty) || current s t
    | _ => true
  | .lose _ => false
  | _ => true

/-! ## What a plan promises -/

omit [Unicode] [Decimals] in
theorem holds_of_checkRules {values : Key → Value} {touched : List Key}
    (h : checkRules values touched = none) {r : Rule} (hr : r ∈ rules)
    (htouched : r.left ∈ touched ∨ r.right ∈ touched) : r.holds values = true := by
  rw [checkRules, List.getLast?_eq_none_iff, List.map_eq_nil_iff, List.filter_eq_nil_iff] at h
  simpa [htouched] using h r hr

/-- What a call may save: valid values, each key once, with every rule of them. -/
structure Planned (changes : List (Key × Value)) (read : Key → Value) : Prop where
  valid : ∀ change ∈ changes, (setting change.1).kind.valid change.2 = true
  keys : (changes.map Prod.fst).Nodup
  rules : ∀ r ∈ rules, r.left ∈ changes.map Prod.fst ∨ r.right ∈ changes.map Prod.fst →
    r.holds (merged read changes) = true

omit [Unicode] [Decimals] in
theorem Key.name_of_ofName {name : String} {k : Key} (h : Key.ofName name = some k) :
    k.name = name := by
  simpa using List.find?_some h

theorem parseOne_eq_ok {name : String} {raw : Raw} {k : Key} {v : Value}
    (h : parseOne name raw = .ok (k, v)) : k.name = name ∧ (setting k).kind.valid v = true := by
  unfold parseOne at h
  split at h
  · next k' hk =>
    split at h
    · split at h <;> cases h
      next hparse => exact ⟨Key.name_of_ofName hk, valid_of_parse hparse⟩
    · cases h
  · cases h

/-- What was parsed is valid, and under the keys that were given. -/
theorem of_mem_parseAll {raw : List (String × Raw)} {change : Key × Value}
    (h : change ∈ (parseAll raw).2) :
    change.1.name ∈ raw.map Prod.fst ∧ (setting change.1).kind.valid change.2 = true := by
  induction raw with
  | nil => exact absurd h List.not_mem_nil
  | cons first raw ih =>
    obtain ⟨name, value⟩ := first
    rw [List.map_cons, List.mem_cons]
    simp only [parseAll] at h
    split at h
    · next entry hentry =>
      rcases List.mem_cons.mp h with rfl | h
      · obtain ⟨hname, hvalid⟩ := parseOne_eq_ok hentry
        exact ⟨.inl hname, hvalid⟩
      · exact ⟨.inr (ih h).1, (ih h).2⟩
    · exact ⟨.inr (ih h).1, (ih h).2⟩

theorem nodup_parseAll {raw : List (String × Raw)} (h : (raw.map Prod.fst).Nodup) :
    ((parseAll raw).2.map Prod.fst).Nodup := by
  induction raw with
  | nil => exact List.nodup_nil
  | cons first raw ih =>
    obtain ⟨name, value⟩ := first
    rw [List.map_cons, List.nodup_cons] at h
    simp only [parseAll]
    split
    · next entry hentry =>
      refine List.nodup_cons.mpr ⟨fun hmem => h.1 ?_, ih h.2⟩
      obtain ⟨change, hchange, heq⟩ := List.mem_map.mp hmem
      rw [← (parseOne_eq_ok hentry).1, ← heq]
      exact (of_mem_parseAll hchange).1
    · exact ih h.2

/-- **What a call may save keeps the rules, by what it read.** -/
theorem planned_of_plan {table : Table} {request : Request} {changes : List (Key × Value)}
    (h : request.plan table = .ok changes) : Planned changes (values table) := by
  cases request with
  | update raw hkeys =>
    simp only [Request.plan, plan] at h
    split at h
    · cases h
    · split at h <;> cases h
      next hcheck =>
      have hnodup := nodup_parseAll hkeys
      have hsub : ∀ k, k ∈ (((parseAll raw).2.filter fun change =>
          change.2 ≠ values table change.1).map Prod.fst) → k ∈ (parseAll raw).2.map Prod.fst :=
        fun _ hk => (List.filter_sublist.map Prod.fst).subset hk
      constructor
      case valid => exact fun change hchange => (of_mem_parseAll (List.mem_of_mem_filter hchange)).2
      case keys => exact hnodup.sublist (List.filter_sublist.map Prod.fst)
      case rules =>
        intro r hr htouched
        rw [merged, Patch.apply_filter hnodup]
        exact holds_of_checkRules hcheck hr (htouched.imp (hsub _) (hsub _))
  | reset k =>
    simp only [Request.plan, planReset] at h
    split at h
    · cases h
      exact ⟨List.forall_mem_nil _, List.nodup_nil, fun r _ htouched => by simp at htouched⟩
    · split at h <;> cases h
      next hcheck =>
      constructor
      case valid =>
        intro change hchange
        rw [List.mem_singleton.mp hchange]
        exact valid_default k
      case keys => exact List.nodup_singleton _
      case rules =>
        intro r hr htouched
        exact holds_of_checkRules hcheck hr htouched

/-! ## Saving -/

variable {s s' : Store} {t t' : Transaction}

/-- A transaction sends what it loaded of its changes, and no other value. -/
structure Transaction.Sound (t : Transaction) : Prop where
  planned : Planned t.changes t.read
  left : ∀ change ∈ t.left, change ∈ t.changes
  loaded : ∀ x, t.loaded = some x → (x.key, x.value) ∈ t.changes
  sent : ∀ x ∈ t.sent, ∀ raw, x.value = some raw → ∃ v : Value, (x.key, v) ∈ t.changes ∧ raw = v.raw

omit [Unicode] [Decimals] in
/-- What is sent of a row is its own value, if any. -/
theorem Loaded.statement_cases {x : Loaded} {user : Option Nat} {statement : Statement}
    (h : x.statement user = some statement) : statement.key = x.key ∧
      ∀ raw, statement.value = some raw → raw = x.value.raw := by
  unfold Loaded.statement at h
  split at h
  · cases h
    exact ⟨rfl, fun raw hraw => (Option.some.inj hraw).symm⟩
  · split at h
    · cases h
    · cases h
      refine ⟨rfl, fun raw hraw => ?_⟩
      dsimp only at hraw
      split at hraw
      · cases hraw
      · exact (Option.some.inj hraw).symm

namespace Transaction.Sound

omit [Decimals] in
theorem begin {changes : List (Key × Value)} {read : Key → Value} (h : Planned changes read)
    (user : Option Nat) : Transaction.Sound ⟨changes, read, user, changes, none, []⟩ where
  planned := h
  left := fun _ hchange => hchange
  loaded := fun _ hx => by cases hx
  sent := List.forall_mem_nil _

omit [Decimals] in
/-- A transaction stays within its changes. -/
theorem proceed {i : Nat} (h : t.Sound) (hproceed : s.proceed i t = some (.saving t')) :
    t'.Sound := by
  unfold Store.proceed at hproceed
  split at hproceed
  · next _ x hloaded =>
    split at hproceed
    · cases hproceed
      exact { h with loaded := fun _ hx => by cases hx }
    · next statement hstatement =>
      split at hproceed
      · cases hproceed
      · split at hproceed <;> cases hproceed
        obtain ⟨hkey, hvalue⟩ := Loaded.statement_cases hstatement
        constructor
        case planned => exact h.planned
        case left => exact h.left
        case loaded => exact fun _ hx => by cases hx
        case sent =>
          refine ListUpdate.forall_mem_concat h.sent fun raw hraw => ⟨x.value, ?_, hvalue raw hraw⟩
          rw [hkey]
          exact h.loaded x hloaded
  · next k v left _ hleft =>
    cases hproceed
    have hall := h.left
    rw [hleft, List.forall_mem_cons] at hall
    constructor
    case planned => exact h.planned
    case left => exact hall.2
    case loaded =>
      rintro _ ⟨⟩
      exact hall.1
    case sent => exact h.sent
  · cases hproceed

omit [Decimals] in
/-- What a transaction sets is what it checked the rules with. -/
theorem value_of_sets (h : t.Sound) {k : Key} {raw : Raw} (hsets : t.sets k = some raw) :
    k ∈ t.changes.map Prod.fst ∧ raw = (t.checked k).raw ∧
      (setting k).kind.valid (t.checked k) = true := by
  obtain ⟨x, hfind, hraw⟩ := Option.bind_eq_some_iff.mp hsets
  obtain rfl : x.key = k := beq_iff_eq.mp (List.find?_some hfind :)
  obtain ⟨v, hmem, rfl⟩ := h.sent x (List.mem_of_find?_eq_some hfind) raw hraw
  have hchecked : t.checked x.key = v := Patch.apply_of_mem h.planned.keys hmem
  rw [hchecked]
  exact ⟨List.mem_map_of_mem hmem, rfl, h.planned.valid _ hmem⟩

end Transaction.Sound

/-- What is read after a commit: what was set, and what was there. -/
theorem values_write (h : t.Sound) (table : Table) (k : Key) :
    values (write table t.sent) k = if (t.sets k).isSome then t.checked k else values table k := by
  have hread : values (write table t.sent) k =
      ((t.sets k).map (setting k).coerce).getD (values table k) := by
    simp only [values, write, Transaction.sets]
    cases t.sent.find? fun x => x.key == k with
    | none => rfl
    | some x =>
      cases hrow : table k with
      | none => cases hvalue : x.value <;> simp [Statement.on, hvalue]
      | some row => cases hvalue : x.value <;> simp [Statement.on, hvalue]
  rw [hread]
  cases hsets : t.sets k with
  | none => rfl
  | some raw =>
    obtain ⟨-, rfl, hvalid⟩ := h.value_of_sets hsets
    exact coerce_of_valid hvalid

/-- **A commit keeps the rules**, where the settings beside those it sets are as they were
checked. -/
theorem Kept.write (h : Kept s.table) (ht : t.Sound) (hcurrent : current s t = true) :
    Kept (write s.table t.sent) := by
  constructor
  · intro k row hrow
    simp only [Settings.write] at hrow
    split at hrow
    · next x hfind =>
      obtain rfl : x.key = k := beq_iff_eq.mp (List.find?_some hfind :)
      have hset : ∀ raw, x.value = some raw →
          ∃ v : Value, raw = v.raw ∧ (setting x.key).kind.valid v = true := by
        intro raw hraw
        obtain ⟨v, hmem, hv⟩ := ht.sent x (List.mem_of_find?_eq_some hfind) raw hraw
        exact ⟨v, hv, ht.planned.valid _ hmem⟩
      unfold Statement.on at hrow
      split at hrow
      · next old hold =>
        cases hrow
        cases hvalue : x.value with
        | none => exact h.valid x.key old hold
        | some raw => exact hset raw hvalue
      · obtain ⟨raw, hraw, rfl⟩ := Option.map_eq_some_iff.mp hrow
        exact hset raw hraw
    · exact h.valid k row hrow
  · intro r hr
    have hrule := List.all_eq_true.mp hcurrent r hr
    simp only [Bool.or_eq_true, Bool.and_eq_true, decide_eq_true_eq, Bool.not_eq_true',
      Bool.or_eq_false_iff] at hrule
    by_cases hset : (t.sets r.left).isSome = true ∨ (t.sets r.right).isSome = true
    · rcases hrule with (hnone | ⟨hleft, hright⟩) | hholds
      · rcases hset with hset | hset
        · exact absurd (hset.symm.trans hnone.1) Bool.noConfusion
        · exact absurd (hset.symm.trans hnone.2) Bool.noConfusion
      · have hside : ∀ k, ((t.sets k).isSome = true ∨ values s.table k = t.checked k) →
            values (Settings.write s.table t.sent) k = t.checked k := by
          intro k hk
          rw [values_write ht]
          split
          · rfl
          · next hnot => exact hk.resolve_left hnot
        rw [Rule.holds_congr (hside _ hleft) (hside _ hright)]
        refine ht.planned.rules r hr (hset.imp ?_ ?_) <;>
        · intro hisSome
          obtain ⟨raw, hraw⟩ := Option.isSome_iff_exists.mp hisSome
          exact (ht.value_of_sets hraw).1
      · exact hholds
    · rw [not_or] at hset
      have hside : ∀ k, ¬ (t.sets k).isSome = true →
          values (Settings.write s.table t.sent) k = values s.table k := by
        intro k hk
        rw [values_write ht, if_neg hk]
      rw [Rule.holds_congr (hside _ hset.1) (hside _ hset.2)]
      exact h.rules r hr

/-! ## Runs -/

/-- What is stored is as it should be, and so is what the calls are about to save. -/
structure Sound (s : Store) : Prop where
  kept : Kept s.table
  saving : ∀ call ∈ s.calls, ∀ t, call = .saving t → t.Sound

/-- **What a step does**: a call comes, plans, goes on or ends, and the table stays; or a call
commits, and returns unless its reply is lost. -/
theorem Sound.step_cases {a : Action} (h : Sound s) (hstep : s.step a = some s') :
    (s'.table = s.table ∧ ∃ call, (∀ t, call = .saving t → t.Sound) ∧
      (s'.calls = s.calls ++ [call] ∨ ∃ i, s'.calls = s.calls.set i call)) ∨
    ∃ i t, s.calls[i]? = some (.saving t) ∧ (t.loaded.isNone && t.left.isEmpty) = true ∧
      s'.table = write s.table t.sent ∧ (a = .go i ∧ s'.calls = s.calls.set i .done ∨
        a = .lose i ∧ s'.calls = s.calls.set i .raised) := by
  have hends : ∀ {call : Call}, (∀ t, call ≠ .saving t) → ∀ t, call = .saving t → t.Sound :=
    fun hne t ht => absurd ht (hne t)
  cases a with
  | call request user =>
    cases hstep
    exact .inl ⟨rfl, .coming request user, hends (by simp), .inl rfl⟩
  | go i =>
    simp only [Store.step, Option.bind_eq_bind, Option.bind_eq_some_iff] at hstep
    obtain ⟨call, hcall, hstep⟩ := hstep
    split at hstep
    · split at hstep <;> cases hstep
      · exact .inl ⟨rfl, .raised, hends (by simp), .inr ⟨i, rfl⟩⟩
      · exact .inl ⟨rfl, .done, hends (by simp), .inr ⟨i, rfl⟩⟩
      · next user _ changes _ hplan =>
        refine .inl ⟨rfl, _, ?_, .inr ⟨i, rfl⟩⟩
        rintro _ ⟨⟩
        exact .begin (planned_of_plan hplan) user
    · next t =>
      split at hstep
      · next hcommits =>
        cases hstep
        exact .inr ⟨i, t, hcall, hcommits, rfl, .inl ⟨rfl, rfl⟩⟩
      · obtain ⟨call, hproceed, rfl⟩ := Option.map_eq_some_iff.mp hstep
        refine .inl ⟨rfl, call, ?_, .inr ⟨i, rfl⟩⟩
        rintro t' rfl
        exact (h.saving _ (List.mem_of_getElem? hcall) t rfl).proceed hproceed
    · cases hstep
  | fail i =>
    simp only [Store.step, Option.bind_eq_bind, Option.bind_eq_some_iff] at hstep
    obtain ⟨call, hcall, hstep⟩ := hstep
    split at hstep <;> cases hstep <;> exact .inl ⟨rfl, .raised, hends (by simp), .inr ⟨i, rfl⟩⟩
  | lose i =>
    simp only [Store.step, Option.bind_eq_bind, Option.bind_eq_some_iff] at hstep
    obtain ⟨call, hcall, hstep⟩ := hstep
    split at hstep
    · next t =>
      split at hstep <;> cases hstep
      next hcommits => exact .inr ⟨i, t, hcall, hcommits, rfl, .inr ⟨rfl, rfl⟩⟩
    · cases hstep

/-- **The step lemma.** -/
theorem Sound.step {a : Action} (h : Sound s) (hallowed : undisturbed s a = true)
    (hstep : s.step a = some s') : Sound s' := by
  rcases h.step_cases hstep with
    ⟨htable, call, hcall, hcalls⟩ | ⟨i, t, hi, hcommits, htable, hends⟩
  · refine ⟨htable ▸ h.kept, ?_⟩
    rcases hcalls with hcalls | ⟨i, hcalls⟩ <;> rw [hcalls]
    · exact ListUpdate.forall_mem_concat h.saving hcall
    · exact ListUpdate.forall_mem_set h.saving hcall
  · rcases hends with ⟨rfl, hcalls⟩ | ⟨rfl, -⟩
    · simp only [undisturbed, hi, hcommits, Bool.not_true, Bool.false_or] at hallowed
      have ht := h.saving _ (List.mem_of_getElem? hi) t rfl
      refine ⟨htable ▸ h.kept.write ht hallowed, ?_⟩
      rw [hcalls]
      exact ListUpdate.forall_mem_set h.saving fun t ht => by cases ht
    · cases hallowed

/-- The condition is exact: a commit that does not meet it breaks a rule. -/
theorem not_kept_of_disturbed (hstale : current s t = false) :
    ¬ Kept (write s.table t.sent) := by
  intro h
  obtain ⟨r, hr, hrule⟩ := List.all_eq_false.mp hstale
  refine hrule ?_
  rw [Bool.or_eq_true]
  exact .inr (h.rules r hr)

omit [Unicode] [Decimals]

/-- A new install's rows. -/
def seeded : Table := fun k => some ⟨(setting k).default.raw, none⟩

theorem kept_seeded [Unicode] [Decimals] : Kept seeded := by
  have hvalues : values seeded = fun k => (setting k).default := by
    ext k
    exact coerce_of_valid (valid_default k)
  constructor
  · rintro k row ⟨⟩
    exact ⟨_, rfl, valid_default k⟩
  · rw [hvalues]
    decide

/-- Saves from the page. -/
def keepLogs (days : Str) : Request := .update [("log_retention_days", .text days)] (by simp)

def keepJobs (days : Str) : Request := .update [("job_retention_days", .text days)] (by simp)

def keepBoth (logs jobs : Str) : Request :=
  .update [("log_retention_days", .text logs), ("job_retention_days", .text jobs)] (by simp)

/-- What is kept how long. -/
def Store.keeps (s : Store) (logs jobs : Int) : Bool :=
  (s.table .logRetentionDays).any (fun row => row.value == .int logs) &&
    (s.table .jobRetentionDays).any fun row => row.value == .int jobs

/-- A call of one setting: its check, its row, the UPDATE and the commit. -/
def fourSteps (i : Nat) : List Action := [.go i, .go i, .go i, .go i]

/-- A state in which log files go before the job records. -/
theorem not_kept_of_keeps [Unicode] [Decimals] {s : Store}
    (h : (!rules.all fun r => r.holds (values s.table)) = true) : ¬ Kept s.table := by
  intro hkept
  rw [Bool.not_eq_true', List.all_eq_false] at h
  obtain ⟨r, hr, hbroken⟩ := h
  exact hbroken (hkept.rules r hr)

/-- A value that is there when its row is loaded is not sent.  The first of three
administrators gives both settings, the second the same one, and the third changes it again:
what the first commits is not what it checked. -/
theorem not_settingsHold_unsent :
    ∃ s, (@settings Unicode.ascii Decimals.ascii).Reachable System.always s ∧
      s.keeps 32 35 = true ∧ ¬ @Kept Unicode.ascii Decimals.ascii s.table := by
  let := Unicode.ascii
  let := Decimals.ascii
  have hrun : (settings.exec System.always ⟨seeded, []⟩
      ([.call (keepBoth "40".toList "35".toList) none, .go 0] ++
        .call (keepLogs "40".toList) none :: fourSteps 1 ++ [.go 0, .go 0] ++
        .call (keepLogs "32".toList) none :: fourSteps 2 ++ [.go 0, .go 0, .go 0])).any
      (fun s => s.keeps 32 35 && !rules.all fun r => r.holds (values s.table)) = true := by
    decide +kernel
  obtain ⟨s, hs, hends⟩ := System.exists_reachable (by exact ⟨kept_seeded, rfl⟩) hrun
  obtain ⟨hkeeps, hbroken⟩ := Bool.and_eq_true_iff.mp hends
  exact ⟨s, hs, hkeeps, not_kept_of_keeps hbroken⟩

end Settings
end NetRollout
