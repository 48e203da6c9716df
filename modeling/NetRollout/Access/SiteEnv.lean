import Mathlib.Data.List.AList
import Mathlib.Data.Char
import Mathlib.Data.List.Lex
import Mathlib.Data.List.Sort
import NetRollout.Library.PyText

/-!
# The file `site.env`

What `src/access/site_env.py` reads of a text and writes into one.  A key and a value are
what `read` can read: stripped, on one row, and a key has no `=` and is not empty; every
caller of `update` hands over such keys and values.

`lookup_read_render`: what was written is read back.
-/

namespace NetRollout
namespace Access

open PyText

/-- What stands on one row, without white space around it. -/
def isPlain (s : Str) : Bool := strip s = s && s.all fun c => !isLineBreak c

/-- A value of the file. -/
abbrev Value := {s : Str // isPlain s = true}

/-- A key of the file. -/
abbrev Key := {s : Str // (isPlain s && (!s.isEmpty && !s.contains '=')) = true}

/-- `dict[str, str]`. -/
abbrev Env := AList fun _ : Key => Value

/-- What an update sets, a key removed by `None`. -/
abbrev Values := AList fun _ : Key => Option Value

/-- A row of a text. -/
abbrev Row := {s : Str // ∀ c ∈ s, isLineBreak c = false}

namespace SiteEnv

def hostname : Key := ⟨"NETROLLOUT_HOSTNAME".toList, by decide⟩
def portInUse : Key := ⟨"NETROLLOUT_HTTPS_PORT".toList, by decide⟩
def portRequest : Key := ⟨"NETROLLOUT_PORT_REQUEST".toList, by decide⟩
def portRequestId : Key := ⟨"NETROLLOUT_PORT_REQUEST_ID".toList, by decide⟩
def portRequestedAt : Key := ⟨"NETROLLOUT_PORT_REQUESTED_AT".toList, by decide⟩
def portConfirmed : Key := ⟨"NETROLLOUT_PORT_CONFIRMED".toList, by decide⟩

/-- Written in this order, the rest after them. -/
def order : List Key :=
  [hostname, portInUse, portRequest, portRequestId, portRequestedAt, portConfirmed]

/-! ## Reading -/

theorem isPlain_strip {s : Str} (h : ∀ c ∈ s, isLineBreak c = false) :
    isPlain (strip s) = true := by
  rw [isPlain, Bool.and_eq_true, decide_eq_true_eq, List.all_eq_true]
  refine ⟨strip_strip s, fun c hc => ?_⟩
  rw [h c (mem_of_mem_strip hc), Bool.not_false]

theorem isKey_strip {s : Str} (h : ∀ c ∈ s, isLineBreak c = false)
    (hkey : strip (s.takeWhile (· != '=')) ≠ []) :
    (isPlain (strip (s.takeWhile (· != '='))) && (!(strip (s.takeWhile (· != '='))).isEmpty &&
      !(strip (s.takeWhile (· != '='))).contains '=')) = true := by
  have hplain : isPlain (strip (s.takeWhile (· != '='))) = true :=
    isPlain_strip fun c hc => h c ((List.takeWhile_prefix _).subset hc)
  have hsign : '=' ∉ strip (s.takeWhile (· != '=')) := by
    intro hc
    simpa using List.mem_takeWhile_imp (mem_of_mem_strip hc)
  simpa [hplain, hsign] using hkey

/-- `line.partition("=")`, both sides stripped, where there is a key. -/
def entry (row : Row) : Option (Key × Value) :=
  let before := row.val.takeWhile (· != '=')
  let after := row.val.dropWhile (· != '=')
  if h : after ≠ [] ∧ strip before ≠ [] then
    some (⟨strip before, isKey_strip row.property h.2⟩,
      ⟨strip after.tail, isPlain_strip fun c hc =>
        row.property c ((List.dropWhile_suffix _).subset (List.mem_of_mem_tail hc))⟩)
  else none

/-- `text.splitlines()`. -/
def rows (text : Str) : List Row :=
  (splitlines text).pmap Subtype.mk fun _ => of_mem_splitlines

/-- A row's entry joins the others: a key's last value wins. -/
def enter (values : Env) (row : Row) : Env :=
  match entry row with
  | some (key, value) => values.insert key value
  | none => values

/-- Every key of the file; none when there is no file. -/
def read : Option Str → Env
  | none => ∅
  | some text => (rows text).foldl enter ∅

/-! ## Writing -/

/-- `sorted` goes by the code points. -/
def sorted (keys : List Key) : List Key := keys.insertionSort fun a b => a.val ≤ b.val

/-- The keys as they are written. -/
def keys (new : Env) : List Key :=
  order.filter (· ∈ new) ++ sorted (new.keys.filter (· ∉ order))

theorem isLineBreak_of_isPlain {s : Str} (h : isPlain s = true) :
    ∀ c ∈ s, isLineBreak c = false := by
  rw [isPlain, Bool.and_eq_true, List.all_eq_true] at h
  intro c hc
  simpa using h.2 c hc

/-- `key=value`. -/
def line (key : Key) (value : Value) : Row :=
  ⟨key.val ++ '=' :: value.val, by
    have hkey := (Bool.and_eq_true _ _ ▸ key.property).1
    intro c hc
    rcases List.mem_append.mp hc with hc | hc
    · exact isLineBreak_of_isPlain hkey c hc
    · rcases List.mem_cons.mp hc with rfl | hc
      · decide
      · exact isLineBreak_of_isPlain value.property c hc⟩

/-- What `_update` writes. -/
def render (new : Env) : Str :=
  unlines (((keys new).filterMap fun key => (new.lookup key).map (line key)).map Subtype.val)

/-- One key of an update. -/
def set (new : Env) (key : Key) : Option Value → Env
  | none => new.erase key
  | some value => new.insert key value

/-- The values after an update. -/
def updated (current : Env) (values : Values) : Env :=
  values.entries.foldl (fun new entry => set new entry.1 entry.2) current

/-- `new == current`. -/
def same (new current : Env) : Bool := decide (new.entries.Perm current.entries)

/-! ## What was written is read back -/

theorem lookup_of_same {new current : Env} (h : same new current = true) (key : Key) :
    new.lookup key = current.lookup key :=
  AList.perm_lookup (of_decide_eq_true h)

theorem lookup_set (new : Env) (key key' : Key) (value : Option Value) :
    (set new key value).lookup key' = if key' = key then value else new.lookup key' := by
  by_cases h : key' = key
  · subst h
    cases value <;> simp [set]
  · cases value with
    | none => simp [set, h, AList.lookup_erase_ne h]
    | some value => simp [set, h, AList.lookup_insert_ne h]

/-- An update changes its own keys, and no other. -/
theorem lookup_updated (current : Env) (values : Values) (key : Key) :
    (updated current values).lookup key = (values.lookup key).getD (current.lookup key) := by
  obtain ⟨entries, hnodup⟩ := values
  show ((entries.foldl (fun new entry => set new entry.1 entry.2) current).lookup key) =
    (entries.dlookup key).getD (current.lookup key)
  induction entries generalizing current with
  | nil => rfl
  | cons first entries ih =>
    obtain ⟨key', value⟩ := first
    obtain ⟨hfresh, hnodup⟩ := List.nodupKeys_cons.mp hnodup
    rw [List.foldl_cons, ih _ hnodup, lookup_set]
    by_cases h : key = key'
    · subst h
      rw [List.dlookup_cons_eq, List.dlookup_eq_none.mpr hfresh, if_pos rfl]
      rfl
    · rw [List.dlookup_cons_ne _ _ h, if_neg h]

theorem mem_keys {new : Env} {key : Key} : key ∈ keys new ↔ key ∈ new := by
  rw [keys, sorted, List.mem_append, (List.perm_insertionSort _ _).mem_iff]
  simp only [List.mem_filter, decide_eq_true_eq, ← AList.mem_keys]
  by_cases h : key ∈ order <;> simp [h]

theorem entry_line (key : Key) (value : Value) : entry (line key value) = some (key, value) := by
  obtain ⟨k, hk⟩ := key
  obtain ⟨v, hv⟩ := value
  have hv' := hv
  simp only [isPlain, Bool.and_eq_true, decide_eq_true_eq, Bool.not_eq_true',
    List.isEmpty_eq_false_iff,
    List.contains_eq_mem, decide_eq_false_iff_not] at hk hv'
  have hsign : ∀ c ∈ k, (c != '=') = true := by
    intro c hc
    rw [bne_iff_ne]
    rintro rfl
    exact hk.2.2 hc
  have hbefore : (k ++ '=' :: v).takeWhile (· != '=') = k := by
    rw [List.takeWhile_append_of_pos hsign]
    simp
  have hafter : (k ++ '=' :: v).dropWhile (· != '=') = '=' :: v := by
    rw [List.dropWhile_append_of_pos hsign]
    simp
  simp only [entry, line, hbefore, hafter, List.tail_cons]
  rw [dif_pos ⟨List.cons_ne_nil _ _, by rw [hk.1.1]; exact hk.2.1⟩]
  simp only [hk.1.1, hv'.1]

theorem rows_unlines (l : List Row) : rows (unlines (l.map Subtype.val)) = l := by
  have hbreaks : ∀ row ∈ l.map Subtype.val, ∀ c ∈ row, isLineBreak c = false := by
    intro row hrow
    obtain ⟨r, -, rfl⟩ := List.mem_map.mp hrow
    exact r.property
  refine List.map_injective_iff.mpr Subtype.val_injective ?_
  rw [rows, List.map_pmap, List.pmap_eq_map, List.map_id', splitlines_unlines hbreaks]

/-- Entries in any order, each key with its own value. -/
theorem lookup_foldl_enter (new values : Env) (written : List Key) (key : Key) :
    ((written.filterMap fun key => (new.lookup key).map (line key)).foldl enter values).lookup key =
      if key ∈ written ∧ key ∈ new then new.lookup key else values.lookup key := by
  induction written generalizing values with
  | nil => simp
  | cons first written ih =>
    rw [List.filterMap_cons]
    cases hfirst : new.lookup first with
    | none =>
      have hnot : first ∉ new := AList.lookup_eq_none.mp hfirst
      rw [Option.map_none]
      dsimp only
      rw [ih]
      by_cases h : key = first
      · subst h
        simp [hnot]
      · simp [h]
    | some value =>
      rw [Option.map_some]
      dsimp only
      rw [List.foldl_cons, ih]
      simp only [enter, entry_line]
      by_cases h : key = first
      · subst h
        have hmem : key ∈ new := AList.lookup_isSome.mp (by rw [hfirst]; rfl)
        simp [hfirst, hmem]
      · simp [h, AList.lookup_insert_ne h]

/-- **What was written is read back.** -/
theorem lookup_read_render (new : Env) (key : Key) :
    (read (some (render new))).lookup key = new.lookup key := by
  rw [read, render, rows_unlines, lookup_foldl_enter]
  simp only [mem_keys, and_self]
  split
  · rfl
  · next h => rw [AList.lookup_eq_none.mpr h, AList.lookup_empty]

/-- A text by hand, and what is left of it: the last of two values, without the blanks. -/
example : (read (some "A = 1\n# none\nB=x=y\nA=2".toList)).entries.map (fun e => (e.1.val, e.2.val)) =
    [(['A'], ['2']), (['B'], ['x', '=', 'y'])] := by decide

end SiteEnv
end Access
end NetRollout
