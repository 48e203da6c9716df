import NetRollout.Access.SiteEnv
import NetRollout.Library.ListUpdate
import NetRollout.Library.Transition

/-!
# Updates of `site.env`

`update` and `put_back` of `src/access/site_env.py`, called by the threads of any number of
processes: the app's, the port helper's, the setup's.  A call takes the lock of its own
process, reads the file, works out the new values, and replaces the file; `put_back` reads
once before and once after, and may remove the file.

## What goes wrong, and when

The lock is no lock between two processes.  A file replaced since a call of the other
process read it is replaced by what that call read, its own keys apart: what was written in
between is lost.

`undisturbed` is the condition on the steps under which nothing is: when a call replaces the
file, the keys it does not set are as it read them; when one removes the file, no key stands
in it.
-/

namespace NetRollout
namespace Access

open PyText SiteEnv

/-- A call of `update`, or of `put_back`. -/
inductive Request where
  | update (values : Values)
  | putBack (previous written : Env) (existed : Bool) (guard : Key)

/-- Where a call stands. -/
inductive Call where
  /-- Before the lock. -/
  | waiting (request : Request)
  /-- In `put_back`, before its first read. -/
  | guarding (previous written : Env) (existed : Bool) (guard : Key)
  /-- In `_update`, before its read; `sweep` where the file may go afterwards. -/
  | reading (values : Values) (sweep : Bool)
  /-- Before `is_file`: the values are in the file. -/
  | unchanged (values : Values) (current : Env) (sweep : Bool)
  /-- Before the file is replaced. -/
  | writing (values : Values) (current : Env) (sweep : Bool)
  /-- In `put_back`, before its last read, and before the file is removed. -/
  | sweeping (values : Values)
  | unlinking (values : Values)
  /-- Returned, with what it updated, or raised. -/
  | over (wrote : Option Values)

namespace Call

/-- Inside `with _lock`. -/
def holds : Call → Bool
  | waiting _ | .over _ => false
  | _ => true

/-- What `put_back` puts back: the keys that still hold the value written. -/
def restored (current previous written : Env) : Values :=
  written.entries.foldl (fun values entry =>
    if current.lookup entry.1 = some entry.2 then values.insert entry.1 (previous.lookup entry.1)
    else values) ∅

/-- After `_update`. -/
def after (values : Values) (sweep : Bool) : Call :=
  if sweep then sweeping values else .over (some values)

/-- The next step of a call that has the lock, or takes it: where it stands then, the file,
and the values that are in the file from here on. -/
def go (file : Option Str) : Call → Option (Call × Option Str × List Values)
  | waiting (.update values) => some (reading values false, file, [])
  | waiting (.putBack previous written existed guard) =>
    some (guarding previous written existed guard, file, [])
  | guarding previous written existed guard =>
    let current := read file
    match written.lookup guard with
    | some value =>
      if current.lookup guard = some value then
        some (reading (restored current previous written) (!existed), file, [])
      else some (.over none, file, [])
    | none => some (.over none, file, [])  -- KeyError
  | reading values sweep =>
    let current := read file
    if same (updated current values) current then
      some (unchanged values current sweep, file, [values])
    else some (writing values current sweep, file, [])
  | unchanged values current sweep =>
    if file.isSome then some (after values sweep, file, [])
    else some (writing values current sweep, file, [])
  | writing values current sweep =>
    some (after values sweep, some (render (updated current values)), [values])
  | sweeping values =>
    if (read file).keys = [] then some (unlinking values, file, [])
    else some (.over (some values), file, [])
  | unlinking values => some (.over (some values), none, [])
  | .over _ => none

/-- The values it has put into the file, or found there. -/
def made : Call → Option Values
  | unchanged values _ _ | sweeping values | unlinking values | .over (some values) => some values
  | _ => none

end Call

/-- The file, the calls with the process of each, and the updates that took effect, in
order. -/
structure Files where
  file : Option Str
  calls : List (Nat × Call)
  landed : List Values

/-- What happens next. -/
inductive Action where
  /-- A thread of a process calls. -/
  | call (process : Nat) (request : Request)
  | go (i : Nat)
  /-- The file cannot be read or written: `OSError`. -/
  | raise (i : Nat)

namespace Files

variable (s : Files)

/-- No thread of the process holds its lock. -/
def lockFree (process : Nat) : Bool := s.calls.all fun c => c.1 ≠ process || !c.2.holds

def step : Action → Option Files
  | .call process request =>
    some { s with calls := s.calls ++ [(process, .waiting request)] }
  | .go i => do
    let (process, call) ← s.calls[i]?
    if call.holds || s.lockFree process then
      let (call', file, landed) ← call.go s.file
      some ⟨file, s.calls.set i (process, call'), s.landed ++ landed⟩
    else none
  | .raise i => do
    let (process, call) ← s.calls[i]?
    if call.holds then some { s with calls := s.calls.set i (process, .over none) } else none

end Files

/-- The processes around the file, which holds a text at first, or is not there. -/
def updates (text : Option Str) : System Files Action where
  Init s := s = ⟨text, [], []⟩
  step := Files.step

/-! ## Nothing is lost -/

/-- What the last update of a key that took effect set it to. -/
def lastWritten (landed : List Values) (key : Key) : Option (Option Value) :=
  (landed.filterMap fun values => values.lookup key).getLast?

/-- **Nothing is lost**: a key is as the last update that names it left it, a key no update
names is as it was at first, and what an update that returned has set took effect. -/
structure NothingLost (text : Option Str) (s : Files) : Prop where
  kept : ∀ key, (read s.file).lookup key =
    (lastWritten s.landed key).getD ((read text).lookup key)
  made : ∀ call ∈ s.calls, ∀ values, call.2.made = some values → values ∈ s.landed

/-- The keys a call does not set are in the file as it read them. -/
def asRead (values : Values) (current now : Env) : Bool :=
  (current.keys ++ now.keys).all fun key => key ∈ values || current.lookup key = now.lookup key

/-- No call replaces the file after another key than its own has changed since its read, and
none removes a file in which a key stands. -/
def undisturbed (s : Files) : Action → Bool
  | .go i => match s.calls[i]? with
    | some (_, .writing values current _) => asRead values current (read s.file)
    | some (_, .unlinking _) => (read s.file).keys = []
    | _ => true
  | _ => true

theorem lastWritten_concat (landed : List Values) (values : Values) (key : Key) :
    lastWritten (landed ++ [values]) key = (values.lookup key).or (lastWritten landed key) := by
  rw [lastWritten, List.filterMap_append]
  cases h : values.lookup key <;> simp [h, lastWritten]

theorem asRead_iff {values : Values} {current now : Env} :
    asRead values current now = true ↔
      ∀ key, values.lookup key = none → current.lookup key = now.lookup key := by
  simp only [asRead, List.all_eq_true, Bool.or_eq_true, decide_eq_true_eq, List.mem_append,
    AList.lookup_eq_none, ← AList.mem_keys]
  constructor
  · intro h key hkey
    by_cases hmem : key ∈ current ∨ key ∈ now
    · exact (h key hmem).resolve_left hkey
    · rw [not_or] at hmem
      rw [AList.lookup_eq_none.mpr hmem.1, AList.lookup_eq_none.mpr hmem.2]
  · intro h key _
    by_cases hkey : key ∈ values
    · exact .inl hkey
    · exact .inr (h key hkey)

theorem lookup_of_keys_eq_nil {env : Env} (h : env.keys = []) (key : Key) :
    env.lookup key = none := by
  rw [AList.lookup_eq_none, AList.mem_keys, h]
  exact List.not_mem_nil

/-- **What a step of a call does to the file**: nothing, its values being in it or not; it
writes them over what it read; or it removes the file. -/
theorem go_cases {file file' : Option Str} {call call' : Call} {landed : List Values}
    (h : call.go file = some (call', file', landed)) :
    (file' = file ∧ landed = [] ∧ ∀ values, call'.made = some values → call.made = some values) ∨
    (∃ values, file' = file ∧ landed = [values] ∧ call'.made = some values ∧
      same (updated (read file) values) (read file) = true) ∨
    (∃ values current sweep, call = .writing values current sweep ∧ landed = [values] ∧
      file' = some (render (updated current values)) ∧ call'.made = some values) ∨
    (∃ values, call = .unlinking values ∧ landed = [] ∧ file' = none ∧
      call'.made = some values) := by
  have hafter : ∀ values sweep, (Call.after values sweep).made = some values := by
    rintro values (_ | _) <;> rfl
  unfold Call.go at h
  split at h
  case h_1 => cases h; exact .inl ⟨rfl, rfl, nofun⟩
  case h_2 => cases h; exact .inl ⟨rfl, rfl, nofun⟩
  case h_3 =>
    dsimp only at h
    split at h
    · split at h <;> cases h <;> exact .inl ⟨rfl, rfl, nofun⟩
    · cases h
      exact .inl ⟨rfl, rfl, nofun⟩
  case h_4 values sweep =>
    dsimp only at h
    split at h
    · next hsame =>
      cases h
      exact .inr (.inl ⟨values, rfl, rfl, rfl, hsame⟩)
    · cases h
      exact .inl ⟨rfl, rfl, nofun⟩
  case h_5 values current sweep =>
    split at h <;> cases h
    · refine .inl ⟨rfl, rfl, fun values' hmade => ?_⟩
      rwa [hafter] at hmade
    · exact .inl ⟨rfl, rfl, nofun⟩
  case h_6 values current sweep =>
    cases h
    exact .inr (.inr (.inl ⟨values, current, sweep, rfl, rfl, rfl, hafter values sweep⟩))
  case h_7 => split at h <;> cases h <;> exact .inl ⟨rfl, rfl, fun _ hmade => hmade⟩
  case h_8 values =>
    cases h
    exact .inr (.inr (.inr ⟨values, rfl, rfl, rfl, rfl⟩))
  case h_9 => cases h

namespace NothingLost

variable {text : Option Str} {s : Files}

theorem init (text : Option Str) : NothingLost text ⟨text, [], []⟩ where
  kept _ := rfl
  made _ h := absurd h List.not_mem_nil

/-- A call's place, where it has made what it has. -/
theorem made_set {calls : List (Nat × Call)} {landed : List Values} {i process : Nat} {call : Call}
    (h : ∀ c ∈ calls, ∀ values, c.2.made = some values → values ∈ landed)
    (hcall : ∀ values, call.made = some values → values ∈ landed) :
    ∀ c ∈ calls.set i (process, call), ∀ values, c.2.made = some values → values ∈ landed :=
  ListUpdate.forall_mem_set h hcall

/-- A step of a call, by what it does to the file. -/
theorem go {i process : Nat} {call call' : Call} {file : Option Str} {landed : List Values}
    (h : NothingLost text s) (hundisturbed : undisturbed s (.go i) = true)
    (hi : s.calls[i]? = some (process, call)) (hgo : call.go s.file = some (call', file, landed)) :
    NothingLost text ⟨file, s.calls.set i (process, call'), s.landed ++ landed⟩ := by
  have hall : ∀ c ∈ s.calls, ∀ values, c.2.made = some values → values ∈ s.landed ++ landed :=
    fun c hc values hmade => List.mem_append_left _ (h.made c hc values hmade)
  rcases go_cases hgo with ⟨rfl, rfl, hmade⟩ | ⟨values, rfl, rfl, hmade, hsame⟩ |
    ⟨values, current, sweep, rfl, rfl, rfl, hmade⟩ | ⟨values, rfl, rfl, rfl, hmade⟩
  · constructor
    · rw [List.append_nil]
      exact h.kept
    · exact made_set hall fun values hcall =>
        hall _ (List.mem_of_getElem? hi) values (hmade values hcall)
  · constructor
    · intro key
      have hlookup := lookup_of_same hsame key
      rw [lookup_updated] at hlookup
      rw [lastWritten_concat]
      cases hkey : values.lookup key with
      | none => exact h.kept key
      | some value =>
        rw [hkey] at hlookup
        exact hlookup.symm
    · refine made_set hall fun values' hcall => ?_
      rw [hmade, Option.some.injEq] at hcall
      exact hcall ▸ List.mem_append_right _ (List.mem_singleton_self _)
  · simp only [undisturbed, hi, asRead_iff] at hundisturbed
    constructor
    · intro key
      rw [lookup_read_render, lookup_updated, lastWritten_concat]
      cases hkey : values.lookup key with
      | none =>
        -- not its own: as it read it, and so as it is
        exact (hundisturbed key hkey).trans (h.kept key)
      | some value => rfl
    · refine made_set hall fun values' hcall => ?_
      rw [hmade, Option.some.injEq] at hcall
      exact hcall ▸ List.mem_append_right _ (List.mem_singleton_self _)
  · simp only [undisturbed, hi, decide_eq_true_eq] at hundisturbed
    constructor
    · intro key
      rw [List.append_nil, ← h.kept, lookup_of_keys_eq_nil hundisturbed]
      rfl
    · refine made_set hall fun values' hcall => hall _ (List.mem_of_getElem? hi) values' ?_
      rw [← hcall, hmade]
      rfl

/-- **The step lemma.** -/
theorem step {a : Action} {s' : Files} (h : NothingLost text s)
    (hundisturbed : undisturbed s a = true) (hstep : s.step a = some s') : NothingLost text s' := by
  cases a with
  | call process request =>
    cases hstep
    exact ⟨h.kept, ListUpdate.forall_mem_concat h.made nofun⟩
  | go i =>
    simp only [Files.step, Option.bind_eq_bind, Option.bind_eq_some_iff] at hstep
    obtain ⟨⟨process, call⟩, hi, hstep⟩ := hstep
    split at hstep
    · simp only [Option.bind_eq_some_iff] at hstep
      obtain ⟨⟨call', file, landed⟩, hgo, hstep⟩ := hstep
      cases hstep
      exact h.go hundisturbed hi hgo
    · cases hstep
  | raise i =>
    simp only [Files.step, Option.bind_eq_bind, Option.bind_eq_some_iff] at hstep
    obtain ⟨⟨process, call⟩, hi, hstep⟩ := hstep
    split at hstep <;> cases hstep
    exact ⟨h.kept, made_set h.made nofun⟩

end NothingLost

/-- **No update is lost in any run that leaves the calls undisturbed.** -/
theorem nothingLost_of_undisturbed {text : Option Str} {s : Files}
    (h : (updates text).Reachable undisturbed s) : NothingLost text s :=
  h.invariant (by rintro s rfl; exact .init text) fun _ _ _ _ hallowed hs hstep =>
    hs.step hallowed hstep

/-- The condition is exact: the first step that does not meet it loses something. -/
theorem not_nothingLost_of_disturbed {text : Option Str} {s s' : Files} {a : Action}
    (h : NothingLost text s) (hdisturbed : undisturbed s a = false) (hstep : s.step a = some s') :
    ¬ NothingLost text s' := by
  intro h'
  unfold undisturbed at hdisturbed
  split at hdisturbed
  case h_2 => cases hdisturbed
  next i =>
  simp only [Files.step, Option.bind_eq_bind, Option.bind_eq_some_iff] at hstep
  obtain ⟨⟨process, call⟩, hi, hstep⟩ := hstep
  rw [hi] at hdisturbed
  split at hstep
  case isFalse => cases hstep
  obtain ⟨⟨call', file, landed⟩, hgo, hstep⟩ := Option.bind_eq_some_iff.mp hstep
  cases hstep
  split at hdisturbed
  · next values current sweep heq =>
    cases heq
    cases hgo
    refine Bool.eq_false_iff.mp hdisturbed (asRead_iff.mpr fun key hkey => ?_)
    have hkept := h'.kept key
    rw [lookup_read_render, lookup_updated, lastWritten_concat, hkey] at hkept
    exact hkept.trans (h.kept key).symm
  · next values heq =>
    cases heq
    cases hgo
    refine of_decide_eq_false hdisturbed (List.eq_nil_iff_forall_not_mem.mpr fun key hmem => ?_)
    have hkept := h'.kept key
    rw [List.append_nil, ← h.kept] at hkept
    exact AList.lookup_eq_none.mp hkept.symm hmem
  · cases hdisturbed

/-- What the helper's `close("keep")` sets, and a request of the app's. -/
def opened : Values := .singleton portInUse (some ⟨"8443".toList, by decide⟩)
def requested : Values := .singleton portRequestId (some ⟨"ab12".toList, by decide⟩)

/-- One after the other, both are kept. -/
theorem nothingLost_in_turn :
    ∃ s, (updates (some "NETROLLOUT_HTTPS_PORT=443\n".toList)).Reachable undisturbed s ∧
      s.landed.length = 2 ∧ NothingLost (some "NETROLLOUT_HTTPS_PORT=443\n".toList) s := by
  have hrun : ((updates (some "NETROLLOUT_HTTPS_PORT=443\n".toList)).exec undisturbed
      ⟨some "NETROLLOUT_HTTPS_PORT=443\n".toList, [], []⟩
      [.call 0 (.update requested), .call 1 (.update opened), .go 0, .go 0, .go 0, .go 1, .go 1,
        .go 1]).any (fun s => s.landed.length = 2) = true := by decide
  obtain ⟨s, hs, hends⟩ := System.exists_reachable (by exact rfl) hrun
  exact ⟨s, hs, of_decide_eq_true hends, nothingLost_of_undisturbed hs⟩

/-- **An update is lost**: the port helper reads the file, the app writes a request into it,
and the helper replaces it by what it read with the port in use. -/
theorem not_nothingLost :
    ∃ text s, (updates text).Reachable System.always s ∧
      (∀ call ∈ s.calls, call.2.holds = false ∧ call.2.made.isSome = true) ∧
      ¬ NothingLost text s := by
  have hrun : ((updates (some "NETROLLOUT_HTTPS_PORT=443\n".toList)).exec System.always
      ⟨some "NETROLLOUT_HTTPS_PORT=443\n".toList, [], []⟩
      [.call 0 (.update requested), .call 1 (.update opened), .go 0, .go 1, .go 1, .go 0, .go 0,
        .go 1]).any (fun s => s.calls.all (fun call => !call.2.holds && call.2.made.isSome) &&
        decide ((read s.file).lookup portRequestId ≠
          (lastWritten s.landed portRequestId).getD none)) = true := by decide
  obtain ⟨s, hs, hends⟩ := System.exists_reachable (by exact rfl) hrun
  simp only [Bool.and_eq_true, List.all_eq_true, Bool.not_eq_true', decide_eq_true_eq] at hends
  refine ⟨_, s, hs, hends.1, fun h => hends.2 ?_⟩
  exact h.kept portRequestId

end Access
end NetRollout
