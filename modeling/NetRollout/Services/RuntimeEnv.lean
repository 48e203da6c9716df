import NetRollout.Library.Dotenv

/-!
# runtime.env

`RuntimeEnv` of `src/db/connections.py`: the file is read by python-dotenv, the updates are
merged into what was read, and all of it is written again, every value single-quoted.

python-dotenv is a parameter, with how far it takes a single-quoted value to go.  By the grammar
of the version that is pinned, in which a backslash goes with the backslash or quote after it,
every merge of every history is read back as it was merged (`roundTrips`).  By an older one a
value that ends in a backslash is not: it is written `…\\'`, its closing quote is taken for an
escaped one, and the value goes on into the next line, which is lost (`not_roundTrips_backslash`).
-/

namespace NetRollout
namespace Services

open PyText (Str)
open Dotenv (Readable quoted)

/-- `text.replace(c, with)`, of a character. -/
def replaceChar (c : Char) (new text : Str) : Str :=
  text.flatMap fun d => if d = c then new else [d]

/-- `_escaped`. -/
def escaped (value : Str) : Str :=
  replaceChar '\'' ['\\', '\''] (replaceChar '\\' ['\\', '\\'] value)

theorem escaped_eq (value : Str) : escaped value = Dotenv.escaped value := by
  rw [escaped, replaceChar, replaceChar, List.flatMap_assoc, Dotenv.escaped]
  congr 1
  funext c
  by_cases hbackslash : c = '\\'
  · subst hbackslash
    rfl
  · by_cases hquote : c = '\''
    · subst hquote
      rfl
    · simp [Dotenv.escapedChar, hbackslash, hquote]

/-- The keys of runtime.env and their values. -/
abbrev Settings := List (Str × Str)

namespace RuntimeEnv

variable {scan : Str → Option (Str × Str)} (dotenv : Dotenv scan)

/-- `values`: nothing where there is no file. -/
def values : Option Str → List (Str × Option Str)
  | some text => Dict.update [] (dotenv.bindings text)
  | none => []

/-- The line `merge` writes for a key. -/
def line (item : Str × Option Str) : Str :=
  item.1 ++ "='".toList ++ escaped (item.2.getD []) ++ "'\n".toList

/-- `merge`: the file it leaves. -/
def merge (file : Option Str) (updates : Settings) : Str :=
  (Dict.update (values dotenv file) (updates.map fun e => (e.1, some e.2))).flatMap line

/-- What is read back is the old values overridden by the update, and nothing more. -/
def RoundTrips (file : Option Str) (updates : Settings) : Prop :=
  ∀ key, Dict.get (values dotenv (some (merge dotenv file updates))) key =
    Dict.get (Dict.update (values dotenv file) (updates.map fun e => (e.1, some e.2))) key

/-- The file after merges, there being none before. -/
def written (history : List Settings) : Option Str :=
  history.foldl (fun file updates => some (merge dotenv file updates)) none

/-- What merges come to, as a dict. -/
def merged (history : List Settings) : Settings := history.foldl Dict.update []

variable {dotenv}

theorem written_concat (history : List Settings) (updates : Settings) :
    written dotenv (history ++ [updates]) =
      some (merge dotenv (written dotenv history) updates) := by
  rw [written, List.foldl_append]
  rfl

theorem merged_concat (history : List Settings) (updates : Settings) :
    merged (history ++ [updates]) = Dict.update (merged history) updates := by
  rw [merged, List.foldl_append]
  rfl

theorem line_some (e : Str × Str) : line (e.1, some e.2) = Dotenv.line e.1 e.2 := by
  simp [line, Dotenv.line, escaped_eq]

theorem flatMap_line (items : Settings) :
    (items.map fun e => (e.1, some e.2)).flatMap line = Dotenv.file items := by
  rw [List.flatMap_map]
  exact List.flatMap_congr fun e _ => line_some e

/-- A dict's values, given or not. -/
theorem put_map_some (d : Settings) (e : Str × Str) :
    Dict.put (d.map fun e => (e.1, some e.2)) (e.1, some e.2) =
      (Dict.put d e).map fun e => (e.1, some e.2) := by
  induction d with
  | nil => rfl
  | cons a d ih =>
    rw [List.map_cons, Dict.put, Dict.put]
    by_cases h : a.1 = e.1
    · rw [if_pos h, if_pos h]
      rfl
    · rw [if_neg h, if_neg h, ih]
      rfl

theorem update_map_some (d updates : Settings) :
    Dict.update (d.map fun e => (e.1, some e.2)) (updates.map fun e => (e.1, some e.2)) =
      (Dict.update d updates).map fun e => (e.1, some e.2) := by
  induction updates generalizing d with
  | nil => rfl
  | cons e updates ih =>
    show Dict.update (Dict.put _ _) _ = _
    rw [put_map_some]
    exact ih (Dict.put d e)

section Step

variable {file : Option Str} {d updates : Settings}

/-- The file a merge leaves, where what was there is read as it is. -/
theorem merge_eq (hfile : values dotenv file = d.map fun e => (e.1, some e.2)) :
    merge dotenv file updates = Dotenv.file (Dict.update d updates) := by
  rw [merge, hfile, update_map_some, flatMap_line]

/-- A file is read as it was written. -/
theorem values_file {dotenv : Dotenv quoted} {items : Settings} (h : ∀ e ∈ items, Readable e)
    (hnodup : (items.map Prod.fst).Nodup) :
    values dotenv (some (Dotenv.file items)) = items.map fun e => (e.1, some e.2) := by
  rw [values, Dotenv.bindings_file dotenv h, Dict.update_nil]
  rw [List.map_map]
  exact hnodup

theorem get_map_some (d : Settings) (key : Str) :
    Dict.get (d.map fun e => (e.1, some e.2)) key = (Dict.get d key).map some := by
  induction d with
  | nil => rfl
  | cons e d ih =>
    rw [List.map_cons, Dict.get, Dict.get, ih]
    by_cases h : e.1 = key
    · rw [if_pos h, if_pos h]
      rfl
    · rw [if_neg h, if_neg h]

/-- One merge into a file that is read as it is. -/
theorem roundTrips_of_values {dotenv : Dotenv quoted}
    (hfile : values dotenv file = d.map fun e => (e.1, some e.2))
    (h : ∀ e ∈ Dict.update d updates, Readable e)
    (hnodup : ((Dict.update d updates).map Prod.fst).Nodup) : RoundTrips dotenv file updates := by
  intro key
  rw [merge_eq hfile, values_file h hnodup, hfile, update_map_some]

end Step

section History

variable {history : List Settings}

theorem readable_merged (h : ∀ updates ∈ history, ∀ e ∈ updates, Readable e) :
    ∀ e ∈ merged history, Readable e := by
  induction history using List.reverseRec with
  | nil => exact List.forall_mem_nil _
  | append_singleton history updates ih =>
    rw [merged_concat]
    refine Dict.forall_mem_update (ih fun u hu => h u (List.mem_append_left _ hu)) ?_
    exact h updates (List.mem_append_right _ (List.mem_singleton_self _))

theorem nodup_merged (history : List Settings) : ((merged history).map Prod.fst).Nodup := by
  induction history using List.reverseRec with
  | nil => exact List.nodup_nil
  | append_singleton history updates ih =>
    rw [merged_concat]
    exact Dict.nodup_update ih updates

/-- The file is read as what was merged. -/
theorem values_written {dotenv : Dotenv quoted}
    (h : ∀ updates ∈ history, ∀ e ∈ updates, Readable e) :
    values dotenv (written dotenv history) = (merged history).map fun e => (e.1, some e.2) := by
  induction history using List.reverseRec with
  | nil => rfl
  | append_singleton history updates ih =>
    have hbefore := ih fun u hu => h u (List.mem_append_left _ hu)
    have hreadable := readable_merged h
    have hnodup := nodup_merged (history ++ [updates])
    rw [merged_concat] at hreadable hnodup ⊢
    rw [written_concat, merge_eq hbefore, values_file hreadable hnodup]

/-- **Every merge of every history is read back.** -/
theorem roundTrips (dotenv : Dotenv quoted)
    (h : ∀ updates ∈ history, ∀ e ∈ updates, Readable e) (n : ℕ) (updates : Settings)
    (hn : history[n]? = some updates) :
    RoundTrips dotenv (written dotenv (history.take n)) updates := by
  have hbefore : ∀ u ∈ history.take n, ∀ e ∈ u, Readable e := fun u hu =>
    h u (List.mem_of_mem_take hu)
  have hlast := h updates (List.mem_of_getElem? hn)
  exact roundTrips_of_values (values_written hbefore)
    (Dict.forall_mem_update (readable_merged hbefore) hlast)
    (Dict.nodup_update (nodup_merged _) updates)

end History

/-- A merge with quotes, and a value that ends in a backslash before another line. -/
def quotedMerge : Settings :=
  [("PG_USER".toList, "o'hara\\".toList), ("PG_PASSWORD".toList, "a\\'#$ b".toList)]

/-- A second one, over the first. -/
def secondMerge : Settings := [("PG_PASSWORD".toList, "b\\".toList), ("PG_SCHEMA".toList, [])]

theorem roundTrips_quotedMerges :
    RoundTrips (.plain Dotenv.shortens_quoted) (written (.plain Dotenv.shortens_quoted) [])
        quotedMerge ∧
      RoundTrips (.plain Dotenv.shortens_quoted)
        (written (.plain Dotenv.shortens_quoted) [quotedMerge]) secondMerge := by
  have hreadable : ∀ updates ∈ [quotedMerge, secondMerge], ∀ e ∈ updates, Readable e := by decide
  have hall := roundTrips (.plain Dotenv.shortens_quoted) hreadable
  exact ⟨hall 0 quotedMerge rfl, hall 1 secondMerge rfl⟩

/-- By the older grammar a password that ends in a backslash is lost, and so is the key after
it. -/
theorem not_roundTrips_backslash :
    values (.plain Dotenv.shortens_looselyQuoted) (written (.plain Dotenv.shortens_looselyQuoted)
        [[("PG_PASSWORD".toList, "a\\".toList), ("PG_SCHEMA".toList, "net".toList)]]) = [] ∧
      ¬RoundTrips (.plain Dotenv.shortens_looselyQuoted)
        (written (.plain Dotenv.shortens_looselyQuoted) [])
        [("PG_PASSWORD".toList, "a\\".toList), ("PG_SCHEMA".toList, "net".toList)] := by
  have hread : values (.plain Dotenv.shortens_looselyQuoted)
      (written (.plain Dotenv.shortens_looselyQuoted)
        [[("PG_PASSWORD".toList, "a\\".toList), ("PG_SCHEMA".toList, "net".toList)]]) = [] := by
    decide +kernel
  refine ⟨hread, fun hround => ?_⟩
  have hkey := hround "PG_PASSWORD".toList
  have hmerge : values (.plain Dotenv.shortens_looselyQuoted)
      (some (merge (.plain Dotenv.shortens_looselyQuoted)
        (written (.plain Dotenv.shortens_looselyQuoted) [])
        [("PG_PASSWORD".toList, "a\\".toList), ("PG_SCHEMA".toList, "net".toList)])) = [] := hread
  rw [hmerge] at hkey
  cases hkey

end RuntimeEnv
end Services
end NetRollout
