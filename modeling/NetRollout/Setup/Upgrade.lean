import NetRollout.Library.Calendar
import NetRollout.Setup.Env

/-!
# .env at an upgrade

`upgrade` of `src/setup/update.py`: once a new version's files are in place, `.env` gets the keys
it has not, and a line that says when it was upgraded.

What a key was given it still is, and a key that was missing is given its default; a key that
cannot be made up again stops the upgrade, and nothing is written then.  What an upgrade leaves,
the next one leaves but for that line.  All of this is `upgrade_kept`.
-/

namespace NetRollout
namespace Setup

open PyText (Str splitlines isLineBreak isSpace)

/-! ## What an upgrade adds -/

/-- What a missing key is given: a new secret, or a value. -/
inductive Maker where
  | secret
  | value (v : Str)

/-- `UPGRADE_DEFAULTS`; None for a key that the data depends on. -/
def UPGRADE_DEFAULTS : List (Str × Option Maker) :=
  [("POSTGRES_PASSWORD".toList, none), ("NETROLLOUT_DB_PASSWORD".toList, none),
    ("GRAFANA_DB_PASSWORD".toList, none), ("REDIS_PASSWORD".toList, none),
    ("GRAFANA_ADMIN_PASSWORD".toList, none), ("SECRET_KEY".toList, some .secret),
    ("NETROLLOUT_ENCRYPTION_KEY".toList, none), ("HTTPS_PORT".toList, some (.value "443".toList)),
    ("TZ".toList, some (.value "UTC".toList)), ("NETROLLOUT_SERVER_IPS".toList, some (.value [])),
    ("COMPOSE_PROFILES".toList, some (.value [])),
    ("COMPOSE_PATH_SEPARATOR".toList, some (.value [','])),
    ("COMPOSE_FILE".toList, some (.value "compose.yaml".toList))]

/-- A text on one line. -/
abbrev Line := {s : Str // ∀ c ∈ s, isLineBreak c = false}

/-- A new secret: `secrets.token_hex`. -/
abbrev Secret := {s : Str // ∀ c ∈ s, isSpace c = false}

/-- The value made. -/
def Maker.made (secret : Secret) : Maker → Str
  | .secret => secret.1
  | .value v => v

/-! ## The lines -/

/-- `"# Upgraded to NetRollout "`. -/
def STAMP : Str := "# Upgraded to NetRollout ".toList

/-- `line.startswith("# Upgraded to NetRollout ")`. -/
def isStamp (line : Str) : Bool := STAMP.isPrefixOf line

/-- `f"{now:%Y-%m-%d %H:%M}"`. -/
def minuteText (now : Calendar.Datetime) : Str :=
  Calendar.padded 4 now.date.year ++ '-' :: (Calendar.padded 2 now.date.month ++
    '-' :: (Calendar.padded 2 now.date.day ++ ' ' :: (Calendar.padded 2 now.hour ++
      ':' :: Calendar.padded 2 now.minute)))

/-- The line that says when it was upgraded. -/
def stampLine (version : Line) (now : Calendar.Datetime) : Str :=
  STAMP ++ (version.1 ++ (" on ".toList ++ (minuteText now ++ " UTC.".toList)))

/-- `lines[stamped[0]] = stamp`, of lines that have one. -/
def restamped (stamp : Str) : List Str → List Str
  | [] => []
  | line :: lines => if isStamp line then stamp :: lines else line :: restamped stamp lines

/-- `lines.insert(1 if lines and lines[0].startswith("#") else 0, stamp)`. -/
def inserted (stamp : Str) : List Str → List Str
  | [] => [stamp]
  | line :: lines =>
    if line.head? = some '#' then line :: stamp :: lines else stamp :: line :: lines

/-- The lines with the stamp. -/
def stamped (stamp : Str) (lines : List Str) : List Str :=
  if lines.any isStamp then restamped stamp lines else inserted stamp lines

/-- The keys that `.env` has not. -/
def missing (text : Str) : List (Str × Option Maker) :=
  UPGRADE_DEFAULTS.filter fun e => (Dict.get (envRead text) e.1).isNone

/-- The missing keys that cannot be made up again. -/
def lost (text : Str) : List Str := ((missing text).filter fun e => e.2.isNone).map Prod.fst

/-- The missing keys, with what they are given. -/
def makes (secret : Secret) (text : Str) : List (Str × Str) :=
  (missing text).filterMap fun e => e.2.map fun maker => (e.1, maker.made secret)

/-- The lines that are added. -/
def addition (version : Line) (secret : Secret) (text : Str) : List Str :=
  if missing text = [] then []
  else [[], "# Added by the upgrade to NetRollout ".toList ++ version.1] ++
    (makes secret text).map assign

/-- The lines that are written. -/
def newLines (version : Line) (now : Calendar.Datetime) (secret : Secret) (text : Str) : List Str :=
  stamped (stampLine version now) (lines text) ++ addition version secret text

/-- `", ".join(keys)`. -/
def listed (keys : List Str) : Str := [',', ' '].intercalate keys

/-- Why nothing is upgraded. -/
def refusal (path : Str) (lost : List Str) : Str :=
  let it := if lost.length = 1 then "it".toList else "them".toList
  path ++ " is missing ".toList ++ listed lost ++ " - the data depends on ".toList ++ it ++
    ", so NetRollout can't be upgraded or started. Put ".toList ++ it ++
    " back (a copy of .env), then upgrade again.".toList

/-- `upgrade`: the text that is written and what to say, or why nothing is written. -/
def upgrade (path : Str) (version : Line) (now : Calendar.Datetime) (secret : Secret) (text : Str) :
    Except Str (Str × List Str) :=
  if lost text ≠ [] then .error (refusal path (lost text))
  else .ok (joined (newLines version now secret text),
    if missing text = [] then []
    else [".env: added ".toList ++ listed ((missing text).map Prod.fst)])

/-! ## Comments -/

/-- A comment gives no key a value. -/
theorem gives_comment (k rest : Str) : gives k ('#' :: rest) = none := by
  have hbefore : (before ('#' :: rest)).head? = some '#' := by
    rw [before, List.takeWhile_cons_of_pos (by decide)]
    rfl
  have hitem : item ('#' :: rest) = none := by
    rw [item]
    split
    · rfl
    · rw [if_pos (Or.inr hbefore)]
  rw [gives, hitem]
  rfl

theorem exists_of_isStamp {line : Str} (h : isStamp line = true) : ∃ rest, line = '#' :: rest := by
  obtain ⟨rest, rfl⟩ := List.isPrefixOf_iff_prefix.mp h
  exact ⟨_, rfl⟩

theorem gives_of_isStamp {line : Str} (h : isStamp line = true) (k : Str) :
    gives k line = none := by
  obtain ⟨rest, rfl⟩ := exists_of_isStamp h
  exact gives_comment k rest

variable {stamp : Str} (hstamp : isStamp stamp = true)
include hstamp

theorem assigned_restamped (k : Str) (lines : List Str) :
    assigned k (restamped stamp lines) = assigned k lines := by
  induction lines with
  | nil => rfl
  | cons line lines ih =>
    rw [restamped]
    split
    · next hline => rw [assigned, assigned, gives_of_isStamp hstamp, gives_of_isStamp hline]
    · rw [assigned, assigned, ih]

/-- The stamp gives no key a value. -/
theorem assigned_stamped (k : Str) (lines : List Str) :
    assigned k (stamped stamp lines) = assigned k lines := by
  rw [stamped]
  split
  · exact assigned_restamped hstamp k lines
  · cases lines with
    | nil =>
      show (assigned k []).or (gives k stamp) = none
      rw [gives_of_isStamp hstamp]
      rfl
    | cons line rest =>
      rw [inserted]
      split
      · rw [assigned, assigned, gives_of_isStamp hstamp, Option.or_none]
        rfl
      · rw [assigned, gives_of_isStamp hstamp, Option.or_none]

theorem any_restamped {lines : List Str} (h : lines.any isStamp = true) :
    (restamped stamp lines).any isStamp = true := by
  induction lines with
  | nil => cases h
  | cons line lines ih =>
    rw [restamped]
    split
    · rw [List.any_cons, hstamp, Bool.true_or]
    · next hline =>
      rw [List.any_cons, Bool.or_eq_true] at h ⊢
      exact Or.inr (ih (h.resolve_left hline))

theorem any_stamped (lines : List Str) : (stamped stamp lines).any isStamp = true := by
  rw [stamped]
  split
  · next h => exact any_restamped hstamp h
  · cases lines with
    | nil => rw [inserted, List.any_cons, hstamp, Bool.true_or]
    | cons line rest =>
      rw [inserted]
      split <;> simp [hstamp]

omit hstamp

/-- **Every other line is kept.** -/
theorem sublist_stamped (stamp : Str) (lines : List Str) :
    (lines.filter fun line => !isStamp line).Sublist (stamped stamp lines) := by
  have hrestamped : ∀ lines : List Str,
      (lines.filter fun line => !isStamp line).Sublist (restamped stamp lines) := by
    intro lines
    induction lines with
    | nil => exact List.Sublist.refl _
    | cons line lines ih =>
      rw [restamped, List.filter_cons]
      by_cases hline : isStamp line = true
      · rw [hline]
        exact List.filter_sublist.trans (List.sublist_cons_self _ _)
      · rw [Bool.not_eq_true] at hline
        rw [hline]
        exact ih.cons_cons line
  rw [stamped]
  split
  · exact hrestamped lines
  · cases lines with
    | nil => exact List.nil_sublist _
    | cons line rest =>
      rw [inserted]
      split
      · exact List.filter_sublist.trans ((List.sublist_cons_self _ _).cons_cons _)
      · exact List.filter_sublist.trans (List.sublist_cons_self _ _)

theorem areRows_stamped {stamp : Str} (hrow : ∀ c ∈ stamp, isLineBreak c = false) {lines : List Str}
    (h : AreRows lines) : AreRows (stamped stamp lines) := by
  have hrestamped : ∀ lines : List Str, AreRows lines → AreRows (restamped stamp lines) := by
    intro lines
    induction lines with
    | nil => exact fun h => h
    | cons line lines ih =>
      intro h
      rw [restamped]
      split
      · exact List.forall_mem_cons.mpr ⟨hrow, (List.forall_mem_cons.mp h).2⟩
      · exact List.forall_mem_cons.mpr ⟨(List.forall_mem_cons.mp h).1,
          ih (List.forall_mem_cons.mp h).2⟩
  rw [stamped]
  split
  · exact hrestamped lines h
  · cases lines with
    | nil => exact List.forall_mem_singleton.mpr hrow
    | cons line rest =>
      rw [inserted]
      split
      · exact List.forall_mem_cons.mpr ⟨(List.forall_mem_cons.mp h).1,
          List.forall_mem_cons.mpr ⟨hrow, (List.forall_mem_cons.mp h).2⟩⟩
      · exact List.forall_mem_cons.mpr ⟨hrow, h⟩

/-! ## The text -/

variable (path : Str) (version : Line) (now : Calendar.Datetime) (secret : Secret) (text : Str)

theorem isStamp_stampLine : isStamp (stampLine version now) = true := by
  rw [isStamp, stampLine]
  exact List.isPrefixOf_iff_prefix.mpr (List.prefix_append _ _)

theorem isDigit_of_mem_padded {width n : Nat} {c : Char} (h : c ∈ Calendar.padded width n) :
    c.isDigit = true := by
  induction width generalizing n with
  | zero => cases h
  | succ width ih =>
    rw [Calendar.padded, List.mem_append, List.mem_singleton] at h
    rcases h with h | rfl
    · exact ih h
    · exact (Calendar.isDigit_digit _ (Nat.mod_lt _ (by decide))).1

theorem isLineBreak_of_mem_padded {width n : Nat} {c : Char} (h : c ∈ Calendar.padded width n) :
    isLineBreak c = false :=
  isLineBreak_of_isSpace (PyText.isSpace_of_isDigit (isDigit_of_mem_padded h))

theorem row_minuteText : ∀ c ∈ minuteText now, isLineBreak c = false := by
  intro c hc
  simp only [minuteText, List.mem_append, List.mem_cons] at hc
  rcases hc with hc | rfl | hc | rfl | hc | rfl | hc | rfl | hc
  · exact isLineBreak_of_mem_padded hc
  · rfl
  · exact isLineBreak_of_mem_padded hc
  · rfl
  · exact isLineBreak_of_mem_padded hc
  · rfl
  · exact isLineBreak_of_mem_padded hc
  · rfl
  · exact isLineBreak_of_mem_padded hc

/-- A text written out here is of one row. -/
theorem row_of_all {s : Str} (h : s.all (fun c => !isLineBreak c) = true) :
    ∀ c ∈ s, isLineBreak c = false := by
  intro c hc
  simpa using List.all_eq_true.mp h c hc

theorem row_stampLine : ∀ c ∈ stampLine version now, isLineBreak c = false := by
  refine List.forall_mem_append.mpr
    ⟨row_of_all (by decide +kernel), List.forall_mem_append.mpr ⟨version.2, ?_⟩⟩
  refine List.forall_mem_append.mpr ⟨row_of_all (by decide +kernel), ?_⟩
  exact List.forall_mem_append.mpr ⟨row_minuteText now, row_of_all (by decide +kernel)⟩

theorem isName_defaults : ∀ e ∈ UPGRADE_DEFAULTS, isName e.1 = true := by decide +kernel

theorem nodup_defaults : (UPGRADE_DEFAULTS.map Prod.fst).Nodup := by decide +kernel

/-- A value of the table is of one row, and no blank stands around it. -/
def Maker.isPlain : Maker → Bool
  | .secret => true
  | .value v => decide (PyText.strip v = v) && v.all fun c => !isLineBreak c

theorem plain_defaults : ∀ e ∈ UPGRADE_DEFAULTS, ∀ maker ∈ e.2, ∀ secret,
    PyText.strip (maker.made secret) = maker.made secret ∧
      ∀ c ∈ maker.made secret, isLineBreak c = false := by
  have hvalues : ∀ e ∈ UPGRADE_DEFAULTS, e.2.all Maker.isPlain = true := by decide +kernel
  intro e he maker hmaker secret
  cases maker with
  | secret =>
    exact ⟨PyText.strip_of_plain secret.2, fun c hc => isLineBreak_of_isSpace (secret.2 c hc)⟩
  | value v =>
    have hv := hvalues e he
    rw [Option.mem_def.mp hmaker, Option.all_some] at hv
    obtain ⟨hstrip, hrow⟩ := (Bool.and_eq_true _ _).mp hv
    refine ⟨of_decide_eq_true hstrip, fun c hc => ?_⟩
    have hc' := List.all_eq_true.mp hrow c hc
    rwa [Bool.not_eq_true'] at hc'

/-- The keys that are made up are plain. -/
theorem pending_makes : Pending (makes secret text) := by
  constructor
  · have hkeys : ((makes secret text).map Prod.fst).Sublist (UPGRADE_DEFAULTS.map Prod.fst) := by
      have hsub : ∀ l : List (Str × Option Maker), ((l.filterMap fun e => e.2.map fun maker =>
          (e.1, maker.made secret)).map Prod.fst).Sublist (l.map Prod.fst) := by
        intro l
        induction l with
        | nil => exact List.Sublist.refl _
        | cons e l ih =>
          rw [List.filterMap_cons]
          cases e.2 with
          | none => exact ih.trans (List.sublist_cons_self _ _)
          | some maker => exact ih.cons_cons _
      exact (hsub _).trans (List.filter_sublist.map _)
    exact hkeys.nodup nodup_defaults
  · intro e he
    obtain ⟨d, hd, hmade⟩ := List.mem_filterMap.mp he
    obtain ⟨maker, hmaker, rfl⟩ := Option.map_eq_some_iff.mp hmade
    have hdefault := List.mem_of_mem_filter hd
    have hplain := plain_defaults d hdefault maker hmaker secret
    exact ⟨isName_defaults d hdefault, hplain.1, hplain.2⟩

/-- What is made up of a missing key: its default, if it has one. -/
theorem get_makes {e : Str × Option Maker} (he : e ∈ UPGRADE_DEFAULTS)
    (hmissing : Dict.get (envRead text) e.1 = none) :
    Dict.get (makes secret text) e.1 = e.2.map (Maker.made secret) := by
  have hmem : e ∈ missing text := by
    refine List.mem_filter.mpr ⟨he, ?_⟩
    rw [hmissing]
    rfl
  cases hmaker : e.2 with
  | some maker =>
    refine Dict.get_of_mem (pending_makes secret text).nodup (e := (e.1, maker.made secret)) ?_
    exact List.mem_filterMap.mpr ⟨e, hmem, by rw [hmaker, Option.map_some]⟩
  | none =>
    rw [Option.map_none, Dict.get_eq_none_iff]
    intro hkey
    obtain ⟨made, hmade, hsame⟩ := List.mem_map.mp hkey
    obtain ⟨d, hd, hd'⟩ := List.mem_filterMap.mp hmade
    obtain ⟨maker, hmaker', rfl⟩ := Option.map_eq_some_iff.mp hd'
    have heq := List.inj_on_of_nodup_map nodup_defaults (List.mem_of_mem_filter hd) he hsame
    rw [heq, hmaker] at hmaker'
    cases hmaker'

/-- Only the missing keys are made up. -/
theorem get_makes_of_some {k v : Str} (h : Dict.get (envRead text) k = some v) :
    Dict.get (makes secret text) k = none := by
  rw [Dict.get_eq_none_iff]
  intro hkey
  obtain ⟨made, hmade, rfl⟩ := List.mem_map.mp hkey
  obtain ⟨d, hd, hd'⟩ := List.mem_filterMap.mp hmade
  obtain ⟨maker, -, rfl⟩ := Option.map_eq_some_iff.mp hd'
  have hnone := (List.mem_filter.mp hd).2
  rw [h] at hnone
  cases hnone

theorem assigned_addition (k : Str) :
    assigned k (addition version secret text) = Dict.get (makes secret text) k := by
  rw [addition]
  split
  · next hnone =>
    rw [makes, hnone]
    rfl
  · have hcomment : gives k ("# Added by the upgrade to NetRollout ".toList ++ version.1) = none :=
      gives_comment k _
    have hblank : gives k [] = none := rfl
    rw [assigned_append, assigned_map_assign (pending_makes secret text), assigned, assigned,
      hcomment, hblank]
    exact Option.or_none

theorem areRows_addition : AreRows (addition version secret text) := by
  rw [addition]
  split
  · exact fun row hrow => absurd hrow List.not_mem_nil
  · refine List.forall_mem_append.mpr ⟨?_, ?_⟩
    · refine List.forall_mem_cons.mpr ⟨fun c hc => absurd hc List.not_mem_nil, ?_⟩
      refine List.forall_mem_singleton.mpr ?_
      exact List.forall_mem_append.mpr ⟨row_of_all (by decide +kernel), version.2⟩
    · intro row hrow
      obtain ⟨e, he, rfl⟩ := List.mem_map.mp hrow
      exact row_assign ((pending_makes secret text).plain e he)

theorem lines_newLines : lines (joined (newLines version now secret text)) =
    newLines version now secret text := by
  have hrows : AreRows (newLines version now secret text) := by
    refine List.forall_mem_append.mpr ⟨?_, areRows_addition version secret text⟩
    exact areRows_stamped (row_stampLine version now) fun _ hrow =>
      PyText.of_mem_splitlines hrow
  have hne : newLines version now secret text ≠ [] := by
    intro hnil
    have hany := any_stamped (isStamp_stampLine version now) (lines text)
    rw [(List.append_eq_nil_iff.mp hnil).1] at hany
    cases hany
  rw [lines, readText_of_notMem (notMem_joined hrows), splitlines_joined hrows, rows, if_neg hne]

/-- **What a key was given it still is**, and a missing one is given what was made up. -/
theorem get_envRead_newLines (k : Str) :
    Dict.get (envRead (joined (newLines version now secret text))) k =
      (Dict.get (envRead text) k).or (Dict.get (makes secret text) k) := by
  rw [get_envRead, lines_newLines, newLines, assigned_append, assigned_addition,
    assigned_stamped (isStamp_stampLine version now), get_envRead]
  cases hold : assigned k (lines text) with
  | none => exact Option.or_none.trans (Option.none_or ..).symm
  | some v => rw [get_makes_of_some secret text ((get_envRead text k).trans hold), Option.none_or,
      Option.some_or]

/-- Nothing that is needed is missing afterwards. -/
theorem missing_newLines (h : lost text = []) :
    missing (joined (newLines version now secret text)) = [] := by
  refine List.filter_eq_nil_iff.mpr fun e he hnone => ?_
  rw [get_envRead_newLines, Option.isNone_iff_eq_none, Option.or_eq_none_iff] at hnone
  rw [get_makes secret text he hnone.1, Option.map_eq_none_iff] at hnone
  have hmem : e.1 ∈ lost text := by
    refine List.mem_map_of_mem (List.mem_filter.mpr ⟨List.mem_filter.mpr ⟨he, ?_⟩, ?_⟩)
    · rw [hnone.1]
      rfl
    · rw [hnone.2]
      rfl
  rw [h] at hmem
  cases hmem

/-! ## Upgrades -/

/-- A file that has every key and the line: the line is written again. -/
theorem upgrade_of_stamped (hmissing : missing text = [])
    (hany : (lines text).any isStamp = true) : upgrade path version now secret text =
      .ok (joined (restamped (stampLine version now) (lines text)), []) := by
  have hlost : lost text = [] := by
    rw [lost, hmissing]
    rfl
  rw [upgrade, if_neg (not_not.mpr hlost), if_pos hmissing, newLines, addition, if_pos hmissing,
    stamped, if_pos hany, List.append_nil]

/-- **An upgrade refuses, or it keeps all that is there and adds what is missing.** -/
theorem upgrade_kept :
    (lost text ≠ [] ∧ upgrade path version now secret text = .error (refusal path (lost text))) ∨
    (lost text = [] ∧ ∃ new said, upgrade path version now secret text = .ok (new, said) ∧
      (∀ k, Dict.get (envRead new) k =
        (Dict.get (envRead text) k).or (Dict.get (makes secret text) k)) ∧
      (∀ e ∈ UPGRADE_DEFAULTS, (Dict.get (envRead new) e.1).isSome = true) ∧
      ((lines text).filter fun line => !isStamp line).Sublist (lines new) ∧
      -- the next upgrade changes its line and nothing else
      ∀ version' now' secret', upgrade path version' now' secret' new =
        .ok (joined (restamped (stampLine version' now') (lines new)), [])) := by
  by_cases hlost : lost text = []
  · refine Or.inr ⟨hlost, _, _, if_neg (not_not.mpr hlost), ?_, ?_, ?_, ?_⟩
    · exact get_envRead_newLines version now secret text
    · intro e he
      have hnone := List.filter_eq_nil_iff.mp (missing_newLines version now secret text hlost)
        e he
      rw [Option.isSome_iff_ne_none]
      intro heq
      exact hnone (by rw [heq]; rfl)
    · rw [lines_newLines]
      exact (sublist_stamped _ _).trans (List.sublist_append_left _ _)
    · intro version' now' secret'
      refine upgrade_of_stamped path version' now' secret' _
        (missing_newLines version now secret text hlost) ?_
      rw [lines_newLines, newLines, List.any_append, any_stamped (isStamp_stampLine version now),
        Bool.true_or]
  · exact Or.inl ⟨hlost, if_pos hlost⟩

end Setup
end NetRollout
