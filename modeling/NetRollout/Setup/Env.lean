import NetRollout.Library.Dict
import NetRollout.Library.PyText

/-!
# Editing .env

`env_read` and `env_write` of `src/setup/env.py`.  The reader takes the last line that gives a
key a value, the writer edits the first line whose text before `=` is the key, whether it has a
`=` or not.

`edits_iff` is that an update is read back, with every other line kept, just when for each key of
it the first such line gives a value and no later line gives another one.
-/

namespace NetRollout
namespace Setup

open PyText

/-! ## Reading -/

/-- `read_text`, with line ends as line feeds. -/
def readText : Str → Str
  | [] => []
  | '\r' :: '\n' :: text => '\n' :: readText text
  | c :: text => (if c = '\r' then '\n' else c) :: readText text

/-- The lines of a text. -/
def lines (text : Str) : List Str := splitlines (readText text)

/-- `line.partition("=")[0]`. -/
def before (line : Str) : Str := line.takeWhile (· ≠ '=')

/-- What a line gives a value, and the value. -/
def item (line : Str) : Option (Str × Str) :=
  match line.dropWhile (· ≠ '=') with
  | [] => none
  | _ :: value =>
    if before line = [] ∨ (before line).head? = some '#' then none
    else some (strip (before line), strip value)

/-- `env_read`. -/
def envRead (text : Str) : List (Str × Str) := Dict.update [] ((lines text).filterMap item)

/-! ## Writing -/

/-- `line.partition("=")[0].strip()`. -/
def key (line : Str) : Str := strip (before line)

/-- `line.lstrip().startswith("#")`. -/
def isComment (line : Str) : Bool := (lstrip line).head? == some '#'

/-- `f"{key}={value}"`. -/
def assign (e : Str × Str) : Str := e.1 ++ '=' :: e.2

/-- `pending` without a key. -/
def pop (pending : List (Str × Str)) (k : Str) : List (Str × Str) := pending.filter fun e => e.1 ≠ k

/-- The loop of `env_write`: the lines it leaves, and what is still pending. -/
def edit : List (Str × Str) → List Str → List Str × List (Str × Str)
  | pending, [] => ([], pending)
  | pending, line :: lines =>
    match Dict.get pending (key line) with
    | some value =>
      if isComment line then
        (line :: (edit pending lines).1, (edit pending lines).2)
      else
        (assign (key line, value) :: (edit (pop pending (key line)) lines).1,
          (edit (pop pending (key line)) lines).2)
    | none => (line :: (edit pending lines).1, (edit pending lines).2)

/-- The lines that are written. -/
def written (updates : List (Str × Str)) (lines : List Str) : List Str :=
  (edit updates lines).1 ++ (edit updates lines).2.map assign

/-- `env_write`: the text it leaves. -/
def envWrite (text : Str) (updates : List (Str × Str)) : Str :=
  let new := ['\n'].intercalate (written updates (lines text)) ++ ['\n']
  if new = readText text then text else new

/-! ## Updates -/

/-- A plain name. -/
def isName (k : Str) : Bool :=
  !k.isEmpty && k.head? != some '#' && k.all fun c => !isSpace c && c != '='

/-- A plain name, and a value without line breaks or white space around it. -/
structure Plain (e : Str × Str) : Prop where
  name : isName e.1 = true
  stripped : strip e.2 = e.2
  row : ∀ c ∈ e.2, isLineBreak c = false

/-- An update. -/
structure Update where
  items : List (Str × Str)
  nodup : (items.map Prod.fst).Nodup
  plain : ∀ e ∈ items, Plain e

/-! ## Lines and their keys -/

theorem isSpace_of_isName {k : Str} (h : isName k = true) : ∀ c ∈ k, isSpace c = false := by
  rw [isName, Bool.and_eq_true, List.all_eq_true] at h
  intro c hc
  have hall := h.2 c hc
  rw [Bool.and_eq_true] at hall
  simpa using hall.1

/-- A line ends at white space. -/
theorem isLineBreak_of_isSpace {c : Char} (h : isSpace c = false) : isLineBreak c = false := by
  simp only [isSpace, isLineBreak, Bool.or_eq_false_iff, Bool.and_eq_false_iff,
    decide_eq_false_iff_not, beq_eq_false_iff_ne] at h ⊢
  omega

theorem notMem_of_isName {k : Str} (h : isName k = true) : '=' ∉ k := by
  rw [isName, Bool.and_eq_true, List.all_eq_true] at h
  intro hmem
  simpa using h.2 _ hmem

theorem head?_of_isName {k : Str} (h : isName k = true) : k.head? ≠ some '#' := by
  rw [isName, Bool.and_eq_true, Bool.and_eq_true] at h
  simpa using h.1.2

/-- What begins with a visible character is not stripped of it. -/
theorem head?_strip_cons {c : Char} (h : isSpace c = false) (s : Str) :
    (strip (c :: s)).head? = some c := by
  have hl : lstrip (c :: s) = c :: s := by
    rw [lstrip, List.dropWhile_cons_of_neg (by simp [h])]
  rw [strip, hl]
  have hne : (c :: s).rdropWhile isSpace ≠ [] := by
    intro hnil
    rw [List.rdropWhile_eq_nil_iff] at hnil
    rw [hnil c List.mem_cons_self] at h
    cases h
  obtain ⟨d, t, hdt⟩ := List.exists_cons_of_ne_nil hne
  have hstart : d :: t <+: c :: s := hdt ▸ List.rdropWhile_prefix isSpace (c :: s)
  rw [hdt, List.head?_cons, (List.cons_prefix_cons.mp hstart).1]

theorem before_assign {k : Str} (h : '=' ∉ k) (value : Str) : before (k ++ '=' :: value) = k := by
  rw [before, List.takeWhile_append_of_pos fun c hc => by
    rw [decide_eq_true_eq]
    rintro rfl
    exact h hc]
  simp

/-- A comment's key is no name. -/
theorem isComment_of_isName {line : Str} (h : isName (key line) = true) :
    isComment line = false := by
  by_contra hnot
  rw [Bool.not_eq_false, isComment, beq_iff_eq] at hnot
  refine head?_of_isName h ?_
  obtain ⟨rest, hrest⟩ : ∃ rest, lstrip line = '#' :: rest := by
    cases hl : lstrip line with
    | nil =>
      rw [hl] at hnot
      cases hnot
    | cons c rest =>
      rw [hl] at hnot
      exact ⟨rest, by rw [Option.some.inj hnot]⟩
  obtain ⟨blanks, hblanks, rfl⟩ : ∃ blanks, (∀ c ∈ blanks, isSpace c = true) ∧
      line = blanks ++ '#' :: rest :=
    ⟨line.takeWhile isSpace, fun c hc => List.mem_takeWhile_imp hc, by
      rw [← hrest, lstrip, List.takeWhile_append_dropWhile]⟩
  have hbefore : before (blanks ++ '#' :: rest) = blanks ++ '#' :: rest.takeWhile (· ≠ '=') := by
    rw [before, List.takeWhile_append_of_pos fun c hc => by
      rw [decide_eq_true_eq]
      rintro rfl
      exact absurd (hblanks '=' hc) (by decide)]
    simp
  have hstrip : lstrip (before (blanks ++ '#' :: rest)) = '#' :: rest.takeWhile (· ≠ '=') := by
    rw [hbefore, lstrip, List.dropWhile_append_of_pos hblanks]
    simp [isSpace]
  have hkey : key (blanks ++ '#' :: rest) = strip ('#' :: rest.takeWhile (· ≠ '=')) := by
    have hl : lstrip ('#' :: rest.takeWhile (· ≠ '=')) = '#' :: rest.takeWhile (· ≠ '=') := by
      rw [← hstrip, lstrip, lstrip, List.dropWhile_idempotent]
    rw [key, strip, strip, hstrip, hl]
  rw [hkey]
  exact head?_strip_cons (by decide) _

/-- The item of a line has the line's key. -/
theorem eq_key_of_item {line : Str} {e : Str × Str} (h : item line = some e) : e.1 = key line := by
  rw [item] at h
  split at h
  · cases h
  · split at h
    · cases h
    · cases h
      rfl

/-- A line whose key is a name gives it a value, just when it has a `=`. -/
theorem item_isSome_iff {line : Str} (h : isName (key line) = true) :
    (item line).isSome = true ↔ '=' ∈ line := by
  have hne : before line ≠ [] := by
    intro hnil
    rw [key, hnil] at h
    cases h
  have hhead : (before line).head? ≠ some '#' := by
    intro hhash
    obtain ⟨rest, hrest⟩ := List.head?_eq_some_iff.mp hhash
    refine head?_of_isName h ?_
    rw [key, hrest]
    exact head?_strip_cons (by decide) rest
  have hdrop : line.dropWhile (· ≠ '=') = [] ↔ '=' ∉ line := by
    rw [List.dropWhile_eq_nil_iff]
    constructor
    · intro hall hmem
      simpa using hall _ hmem
    · intro hmem c hc
      rw [decide_eq_true_eq]
      rintro rfl
      exact hmem hc
  rw [item]
  split
  · next hnil => simp [hdrop.mp hnil]
  · next hcons =>
    rw [if_neg (not_or.mpr ⟨hne, hhead⟩)]
    have hmem : '=' ∈ line := by
      by_contra hnot
      rw [hdrop.mpr hnot] at hcons
      cases hcons
    simp [hmem]

section Assign

variable {e : Str × Str} (h : Plain e)
include h

theorem key_assign : key (assign e) = e.1 := by
  rw [key, assign, before_assign (notMem_of_isName h.name)]
  exact strip_of_plain (isSpace_of_isName h.name)

theorem item_assign : item (assign e) = some e := by
  have hname : isName (key (assign e)) = true := (key_assign h).symm ▸ h.name
  have hdrop : (assign e).dropWhile (· ≠ '=') = '=' :: e.2 := by
    rw [assign, List.dropWhile_append_of_pos fun c hc => by
      rw [decide_eq_true_eq]
      rintro rfl
      exact notMem_of_isName h.name hc]
    simp
  have hsome := (item_isSome_iff hname).mpr (List.mem_append_right _ List.mem_cons_self)
  rw [item, hdrop] at hsome ⊢
  dsimp only at hsome ⊢
  split at hsome
  · cases hsome
  · next hnot =>
    have hkey : strip (before (assign e)) = e.1 := key_assign h
    rw [if_neg hnot, hkey, h.stripped]

theorem row_assign : ∀ c ∈ assign e, isLineBreak c = false := by
  intro c hc
  rcases List.mem_append.mp hc with hc | hc
  · exact isLineBreak_of_isSpace (isSpace_of_isName h.name c hc)
  · rcases List.mem_cons.mp hc with rfl | hc
    · rfl
    · exact h.row c hc

end Assign

/-! ## What a key is given -/

/-- The value a line gives a key. -/
def gives (k line : Str) : Option Str := ((item line).filter fun e => e.1 = k).map Prod.snd

/-- The value the last of the lines gives a key. -/
def assigned (k : Str) : List Str → Option Str
  | [] => none
  | line :: lines => (assigned k lines).or (gives k line)

theorem gives_eq_none {k line : Str} (h : key line ≠ k) : gives k line = none := by
  cases hitem : item line with
  | none => rw [gives, hitem]; rfl
  | some e =>
    have hne : e.1 ≠ k := eq_key_of_item hitem ▸ h
    rw [gives, hitem, Option.filter_some_neg (by simpa using hne)]
    rfl

theorem gives_assign {e : Str × Str} (h : Plain e) : gives e.1 (assign e) = some e.2 := by
  rw [gives, item_assign h]
  simp

theorem assigned_append (k : Str) (front back : List Str) :
    assigned k (front ++ back) = (assigned k back).or (assigned k front) := by
  induction front with
  | nil => exact (Option.or_none).symm
  | cons line front ih => rw [List.cons_append, assigned, ih, assigned, Option.or_assoc]

/-- The reader takes the last value. -/
theorem get_update_item (d : List (Str × Str)) (k : Str) (lines : List Str) :
    Dict.get (Dict.update d (lines.filterMap item)) k = (assigned k lines).or (Dict.get d k) := by
  induction lines generalizing d with
  | nil => rfl
  | cons line lines ih =>
    cases hitem : item line with
    | none =>
      rw [List.filterMap_cons_none hitem, ih, assigned, gives, hitem]
      simp
    | some e =>
      rw [List.filterMap_cons_some hitem]
      show Dict.get (Dict.update (Dict.put d e) (lines.filterMap item)) k = _
      rw [ih, Dict.get_put, assigned, gives, hitem, Option.or_assoc]
      by_cases h : e.1 = k <;> simp [h, Option.filter]

theorem get_envRead (text k : Str) : Dict.get (envRead text) k = assigned k (lines text) := by
  rw [envRead, get_update_item]
  exact Option.or_none

/-! ## The loop -/

/-- A dict of plain names and values. -/
structure Pending (pending : List (Str × Str)) : Prop where
  nodup : (pending.map Prod.fst).Nodup
  plain : ∀ e ∈ pending, Plain e

/-- The lines from the first one of a key. -/
def fromKey (k : Str) (lines : List Str) : List Str := lines.dropWhile fun line => key line ≠ k

theorem fromKey_cons_of_eq {k line : Str} (h : key line = k) (lines : List Str) :
    fromKey k (line :: lines) = line :: lines :=
  List.dropWhile_cons_of_neg (by simpa using h)

theorem fromKey_cons_of_ne {k line : Str} (h : key line ≠ k) (lines : List Str) :
    fromKey k (line :: lines) = fromKey k lines :=
  List.dropWhile_cons_of_pos (by simpa using h)

theorem key_of_head? {k line : Str} {lines : List Str}
    (h : (fromKey k lines).head? = some line) : key line = k := by
  induction lines with
  | nil => cases h
  | cons first lines ih =>
    by_cases heq : key first = k
    · rw [fromKey_cons_of_eq heq] at h
      obtain rfl : first = line := Option.some.inj h
      exact heq
    · rw [fromKey_cons_of_ne heq] at h
      exact ih h

theorem get_pop (pending : List (Str × Str)) (k k' : Str) :
    Dict.get (pop pending k) k' = if k = k' then none else Dict.get pending k' := by
  induction pending with
  | nil => exact (ite_self none).symm
  | cons e pending ih =>
    by_cases he : e.1 = k
    · have hpop : pop (e :: pending) k = pop pending k :=
        List.filter_cons_of_neg (by simpa using he)
      rw [hpop, ih, Dict.get, he]
      split <;> rfl
    · have hpop : pop (e :: pending) k = e :: pop pending k :=
        List.filter_cons_of_pos (by simpa using he)
      rw [hpop, Dict.get, ih, Dict.get]
      by_cases hk : k = k'
      · rw [if_pos hk, if_neg fun heq => he (heq.trans hk.symm), if_pos hk]
      · rw [if_neg hk, if_neg hk]

section Loop

variable {pending : List (Str × Str)}

theorem Pending.pop (h : Pending pending) (k : Str) : Pending (pop pending k) where
  nodup := h.nodup.sublist (List.filter_sublist.map _)
  plain e he := h.plain e (List.mem_of_mem_filter he)

/-- A key that is not pending leaves what is. -/
theorem pop_of_none {k : Str} (hk : Dict.get pending k = none) : pop pending k = pending := by
  rw [Setup.pop, List.filter_eq_self]
  intro e he
  rw [decide_eq_true_eq]
  intro heq
  exact Dict.get_eq_none_iff.mp hk (heq ▸ List.mem_map_of_mem he)

/-- A line, or what is written for it where its key is pending. -/
def edited (pending : List (Str × Str)) (line : Str) : Str :=
  ((Dict.get pending (key line)).map fun value => assign (key line, value)).getD line

theorem edited_of_none {line : Str} (hget : Dict.get pending (key line) = none) :
    edited pending line = line := by
  rw [edited, hget]
  rfl

theorem edited_of_some {line value : Str} (hget : Dict.get pending (key line) = some value) :
    edited pending line = assign (key line, value) := by
  rw [edited, hget]
  rfl

section Edited

variable (h : Pending pending)
include h

/-- One turn of the loop. -/
theorem edit_cons (line : Str) (lines : List Str) :
    edit pending (line :: lines) =
      (edited pending line :: (edit (pop pending (key line)) lines).1,
        (edit (pop pending (key line)) lines).2) := by
  cases hget : Dict.get pending (key line) with
  | none =>
    rw [edit, hget, edited_of_none hget, pop_of_none hget]
  | some value =>
    have hplain := h.plain _ (Dict.mem_of_get hget)
    rw [edit, hget, edited_of_some hget]
    dsimp only
    rw [isComment_of_isName hplain.name]
    rfl

theorem key_edited (line : Str) : key (edited pending line) = key line := by
  cases hget : Dict.get pending (key line) with
  | none => rw [edited_of_none hget]
  | some value =>
    rw [edited_of_some hget]
    exact key_assign (h.plain _ (Dict.mem_of_get hget))

theorem edited_edited (line : Str) :
    edited pending (edited pending line) = edited pending line := by
  cases hget : Dict.get pending (key line) with
  | none => rw [edited_of_none hget, edited_of_none hget]
  | some value =>
    have hkey := key_edited h line
    rw [edited_of_some (hkey ▸ hget), hkey, edited_of_some hget]

theorem gives_edited_of_ne {k line : Str} (hne : key line ≠ k) :
    gives k (edited pending line) = none :=
  gives_eq_none ((key_edited h line).symm ▸ hne)

theorem gives_edited_of_none {k : Str} (hk : Dict.get pending k = none) (line : Str) :
    gives k (edited pending line) = gives k line := by
  by_cases heq : key line = k
  · subst heq
    rw [edited_of_none hk]
  · rw [gives_edited_of_ne h heq, gives_eq_none heq]

theorem gives_edited_of_some {line value : Str} (hget : Dict.get pending (key line) = some value) :
    gives (key line) (edited pending line) = some value := by
  rw [edited_of_some hget]
  exact gives_assign (h.plain _ (Dict.mem_of_get hget))

end Edited

/-- A key that is not pending keeps its value. -/
theorem assigned_edit_of_none (h : Pending pending) {k : Str} (hk : Dict.get pending k = none)
    (lines : List Str) : assigned k (edit pending lines).1 = assigned k lines := by
  induction lines generalizing pending with
  | nil => rfl
  | cons line lines ih =>
    have hpop : Dict.get (Setup.pop pending (key line)) k = none := by
      rw [get_pop, hk, ite_self]
    rw [edit_cons h, assigned, assigned, ih (h.pop _) hpop, gives_edited_of_none h hk]

/-- A pending key has the value of the lines after its first one, or else the one it is given. -/
theorem assigned_edit_of_some (h : Pending pending) {k value : Str}
    (hk : Dict.get pending k = some value) (lines : List Str) :
    assigned k (edit pending lines).1 =
      if fromKey k lines = [] then none
      else (assigned k (fromKey k lines).tail).or (some value) := by
  induction lines generalizing pending with
  | nil => rfl
  | cons line lines ih =>
    rw [edit_cons h, assigned]
    by_cases heq : key line = k
    · subst heq
      have hpop : Dict.get (Setup.pop pending (key line)) (key line) = none := by
        rw [get_pop, if_pos rfl]
      rw [assigned_edit_of_none (h.pop _) hpop, gives_edited_of_some h hk, fromKey_cons_of_eq rfl,
        if_neg (List.cons_ne_nil _ _)]
      rfl
    · have hpop : Dict.get (Setup.pop pending (key line)) k = some value := by
        rw [get_pop, if_neg heq, hk]
      rw [fromKey_cons_of_ne heq, ih (h.pop _) hpop, gives_edited_of_ne h heq, Option.or_none]

/-- What is still pending has no line. -/
theorem get_edit (h : Pending pending) (k : Str) (lines : List Str) :
    Dict.get (edit pending lines).2 k =
      if fromKey k lines = [] then Dict.get pending k else none := by
  induction lines generalizing pending with
  | nil => rfl
  | cons line lines ih =>
    rw [edit_cons h, ih (h.pop _), get_pop]
    by_cases heq : key line = k
    · rw [fromKey_cons_of_eq heq, if_neg (List.cons_ne_nil line lines), if_pos heq, ite_self]
    · rw [fromKey_cons_of_ne heq, if_neg heq]

theorem Pending.edit (h : Pending pending) (lines : List Str) : Pending (edit pending lines).2 := by
  induction lines generalizing pending with
  | nil => exact h
  | cons line lines ih =>
    rw [edit_cons h]
    exact ih (h.pop _)

/-- The lines at the end give what is pending. -/
theorem assigned_map_assign (h : Pending pending) (k : Str) :
    assigned k (pending.map assign) = Dict.get pending k := by
  induction pending with
  | nil => rfl
  | cons e pending ih =>
    have hnodup := h.nodup
    rw [List.map_cons, List.nodup_cons] at hnodup
    have hplain := h.plain e List.mem_cons_self
    have hrest : Pending pending := ⟨hnodup.2, fun a ha => h.plain a (List.mem_cons_of_mem e ha)⟩
    rw [List.map_cons, assigned, ih hrest, Dict.get]
    by_cases heq : e.1 = k
    · subst heq
      rw [Dict.get_eq_none_iff.mpr hnodup.1, gives_assign hplain, if_pos rfl]
      rfl
    · rw [gives_eq_none ((key_assign hplain).symm ▸ heq), Option.or_none, if_neg heq]

/-- What is edited again is as it was. -/
theorem edit_edit (h : Pending pending) (lines : List Str) :
    edit pending (edit pending lines).1 = edit pending lines := by
  induction lines generalizing pending with
  | nil => rfl
  | cons line lines ih =>
    rw [edit_cons h, edit_cons h, key_edited h, edited_edited h, ih (h.pop _)]

theorem edit_append (h : Pending pending) (front back : List Str) :
    edit pending (front ++ back) =
      ((edit pending front).1 ++ (edit (edit pending front).2 back).1,
        (edit (edit pending front).2 back).2) := by
  induction front generalizing pending with
  | nil => rfl
  | cons line front ih =>
    rw [List.cons_append, edit_cons h, edit_cons h, ih (h.pop _)]
    rfl

theorem pop_cons {e : Str × Str} (h : Pending (e :: pending)) :
    Setup.pop (e :: pending) e.1 = pending := by
  have hnodup := h.nodup
  rw [List.map_cons, List.nodup_cons] at hnodup
  have hpop : Setup.pop (e :: pending) e.1 = Setup.pop pending e.1 :=
    List.filter_cons_of_neg (by simp)
  rw [hpop, Setup.pop, List.filter_eq_self]
  intro a ha
  rw [decide_eq_true_eq]
  rintro heq
  exact hnodup.1 (heq ▸ List.mem_map_of_mem ha)

theorem edit_map_assign (h : Pending pending) :
    edit pending (pending.map assign) = (pending.map assign, []) := by
  induction pending with
  | nil => rfl
  | cons e pending ih =>
    have hkey := key_assign (h.plain e List.mem_cons_self)
    have hget : Dict.get (e :: pending) (key (assign e)) = some e.2 := by
      rw [hkey]
      exact if_pos rfl
    have hrest : Pending pending := by
      have hpop := h.pop e.1
      rwa [pop_cons h] at hpop
    rw [List.map_cons, edit_cons h, edited_of_some hget, hkey, pop_cons h, ih hrest]

/-- What is written is written again. -/
theorem written_written (h : Pending pending) (lines : List Str) :
    written pending (written pending lines) = written pending lines := by
  have hmap : edit pending (written pending lines) =
      ((edit pending lines).1 ++ (edit pending lines).2.map assign, []) := by
    rw [written, edit_append h, edit_edit h, edit_map_assign (h.edit lines)]
  rw [written, hmap, List.map_nil, List.append_nil]
  rfl

/-- The value of a key in what is written. -/
theorem assigned_written (h : Pending pending) (k : Str) (lines : List Str) :
    assigned k (written pending lines) =
      match Dict.get pending k with
      | none => assigned k lines
      | some value => (assigned k (fromKey k lines).tail).or (some value) := by
  rw [written, assigned_append, assigned_map_assign (h.edit lines), get_edit h]
  cases hk : Dict.get pending k with
  | none => rw [ite_self, assigned_edit_of_none h hk]; rfl
  | some value =>
    rw [assigned_edit_of_some h hk]
    by_cases hnil : fromKey k lines = []
    · rw [if_pos hnil, if_pos hnil, hnil]
      rfl
    · rw [if_neg hnil, if_neg hnil]
      rfl

/-! ## The other lines -/

/-- A line gives one of the keys a value. -/
def Assigns (keys : List (Str × Str)) (line : Str) : Prop :=
  ∃ e ∈ keys, ∃ value, item line = some (e.1, value)

/-- The first line of each key gives it a value. -/
def Firsts (pending : List (Str × Str)) (lines : List Str) : Prop :=
  ∀ e ∈ pending, ∀ line ∈ (fromKey e.1 lines).head?, '=' ∈ line

theorem length_edit (h : Pending pending) (lines : List Str) :
    (edit pending lines).1.length = lines.length := by
  induction lines generalizing pending with
  | nil => rfl
  | cons line lines ih => rw [edit_cons h, List.length_cons, ih (h.pop _), List.length_cons]

/-- A line with a value is edited only if it gives a pending key one. -/
theorem edited_of_not_assigns (h : Pending pending) {line : Str} (hsign : ∀ value,
    Dict.get pending (key line) = some value → '=' ∈ line) (hnot : ¬Assigns pending line) :
    edited pending line = line := by
  cases hget : Dict.get pending (key line) with
  | none => exact edited_of_none hget
  | some value =>
    have hmem := Dict.mem_of_get hget
    obtain ⟨e, hitem⟩ := Option.isSome_iff_exists.mp
      ((item_isSome_iff (h.plain _ hmem).name).mpr (hsign value hget))
    exact absurd ⟨_, hmem, e.2, by rw [hitem, ← eq_key_of_item hitem]⟩ hnot

/-- A line that is not kept gives a pending key a value, if the first lines do. -/
theorem getElem?_edit (h : Pending pending) {lines : List Str} (hfirsts : Firsts pending lines)
    {i : Nat} {line : Str} (hi : lines[i]? = some line) (hnot : ¬Assigns pending line) :
    (edit pending lines).1[i]? = some line := by
  induction lines generalizing pending i with
  | nil => cases hi
  | cons first lines ih =>
    rw [edit_cons h]
    cases i with
    | zero =>
      obtain rfl : first = line := Option.some.inj hi
      refine congrArg some (edited_of_not_assigns h (fun value hget => ?_) hnot)
      refine hfirsts _ (Dict.mem_of_get hget) first ?_
      rw [fromKey_cons_of_eq rfl]
      rfl
    | succ i =>
      have hnext : Firsts (Setup.pop pending (key first)) lines := by
        intro e he l hl
        obtain ⟨hmem, hne⟩ := List.mem_filter.mp he
        have hkey : key first ≠ e.1 := fun heq => by simp [heq] at hne
        refine hfirsts e hmem l ?_
        rwa [fromKey_cons_of_ne hkey]
      refine ih (h.pop _) hnext hi ?_
      rintro ⟨e, he, v, hitem⟩
      exact hnot ⟨e, List.mem_of_mem_filter he, v, hitem⟩

/-- A first line that gives no value is lost. -/
theorem exists_lost (h : Pending pending) {k value line : Str} {lines : List Str}
    (hk : Dict.get pending k = some value) (hfirst : (fromKey k lines).head? = some line)
    (hsign : '=' ∉ line) :
    ∃ i : Nat, lines[i]? = some line ∧ (edit pending lines).1[i]? ≠ some line := by
  induction lines generalizing pending with
  | nil => cases hfirst
  | cons first lines ih =>
    rw [edit_cons h]
    by_cases heq : key first = k
    · subst heq
      rw [fromKey_cons_of_eq rfl] at hfirst
      obtain rfl : first = line := Option.some.inj hfirst
      refine ⟨0, rfl, ?_⟩
      rw [edited_of_some hk]
      intro hsame
      have hassign : assign (key first, value) = first := Option.some.inj hsame
      rw [← hassign] at hsign
      exact hsign (List.mem_append_right _ List.mem_cons_self)
    · rw [fromKey_cons_of_ne heq] at hfirst
      have hpop : Dict.get (Setup.pop pending (key first)) k = some value := by
        rw [get_pop, if_neg heq, hk]
      obtain ⟨i, hi, hne⟩ := ih (h.pop _) hpop hfirst
      exact ⟨i + 1, hi, hne⟩

end Loop

/-! ## The text -/

theorem readText_of_notMem {text : Str} (h : '\r' ∉ text) : readText text = text := by
  induction text with
  | nil => rfl
  | cons c text ih =>
    rw [List.mem_cons, not_or] at h
    have hc : c ≠ '\r' := Ne.symm h.1
    rw [readText, if_neg hc, ih h.2]
    exact fun t heq => absurd heq hc

/-- Lines without line boundaries. -/
def AreRows (rows : List Str) : Prop := ∀ row ∈ rows, ∀ c ∈ row, isLineBreak c = false

/-- The lines as a text. -/
def joined (rows : List Str) : Str := ['\n'].intercalate rows ++ ['\n']

theorem joined_eq {rows : List Str} (h : rows ≠ []) : joined rows = unlines rows := by
  induction rows with
  | nil => exact absurd rfl h
  | cons row rows ih =>
    cases rows with
    | nil => simp [joined, unlines]
    | cons next rows =>
      rw [unlines, ← ih (List.cons_ne_nil _ _)]
      simp [joined, List.intercalate, List.intersperse]

theorem notMem_joined {rows : List Str} (h : AreRows rows) : '\r' ∉ joined rows := by
  intro hmem
  rcases List.mem_append.mp hmem with hmem | hmem
  · rcases mem_intercalate hmem with heq | ⟨row, hrow, hc⟩
    · cases heq
    · exact absurd (h row hrow _ hc) (by decide)
  · exact absurd (List.mem_singleton.mp hmem) (by decide)

/-- A text has a line, if only an empty one. -/
def rows (written : List Str) : List Str := if written = [] then [[]] else written

theorem splitlines_joined {written : List Str} (h : AreRows written) :
    splitlines (joined written) = rows written := by
  by_cases hnil : written = []
  · subst hnil
    rfl
  · rw [joined_eq hnil, splitlines_unlines h, rows, if_neg hnil]

section Write

variable {pending : List (Str × Str)} (h : Pending pending)
include h

theorem areRows_edit {lines : List Str} (hlines : AreRows lines) :
    AreRows (edit pending lines).1 := by
  induction lines generalizing pending with
  | nil => exact hlines
  | cons line lines ih =>
    rw [edit_cons h]
    intro row hrow
    rcases List.mem_cons.mp hrow with rfl | hrow
    · cases hget : Dict.get pending (key line) with
      | none =>
        rw [edited_of_none hget]
        exact hlines line List.mem_cons_self
      | some value =>
        rw [edited_of_some hget]
        exact row_assign (h.plain _ (Dict.mem_of_get hget))
    · exact ih (h.pop _) (fun row hrow => hlines row (List.mem_cons_of_mem line hrow)) row hrow

theorem areRows_written {lines : List Str} (hlines : AreRows lines) :
    AreRows (written pending lines) := by
  intro row hrow
  rcases List.mem_append.mp hrow with hrow | hrow
  · exact areRows_edit h hlines row hrow
  · obtain ⟨e, he, rfl⟩ := List.mem_map.mp hrow
    exact row_assign ((h.edit lines).plain e he)

/-- The text that is left, with its line ends as line feeds. -/
theorem readText_envWrite (text : Str) :
    readText (envWrite text pending) = joined (written pending (lines text)) := by
  have hrows : AreRows (written pending (lines text)) :=
    areRows_written h fun _ hrow => of_mem_splitlines hrow
  show readText (if joined (written pending (lines text)) = readText text then text else _) = _
  split
  · next hsame => exact hsame.symm
  · exact readText_of_notMem (notMem_joined hrows)

theorem lines_envWrite (text : Str) :
    lines (envWrite text pending) = rows (written pending (lines text)) := by
  rw [lines, readText_envWrite h, splitlines_joined]
  exact areRows_written h fun _ hrow => of_mem_splitlines hrow

theorem written_rows (lines : List Str) :
    joined (written pending (rows (written pending lines))) = joined (written pending lines) := by
  by_cases hnil : written pending lines = []
  · rw [written, List.append_eq_nil_iff] at hnil
    have hlines : lines = [] := List.length_eq_zero_iff.mp (by rw [← length_edit h, hnil.1]; rfl)
    subst hlines
    obtain rfl : pending = [] := List.map_eq_nil_iff.mp hnil.2
    rfl
  · rw [rows, if_neg hnil, written_written h]

/-- Written a second time, the text is left as it is. -/
theorem envWrite_envWrite (text : Str) :
    envWrite (envWrite text pending) pending = envWrite text pending := by
  have hsame : joined (written pending (lines (envWrite text pending))) =
      readText (envWrite text pending) := by
    rw [lines_envWrite h, written_rows h, readText_envWrite h]
  exact if_pos hsame

theorem get_envRead_envWrite (text k : Str) :
    Dict.get (envRead (envWrite text pending)) k =
      assigned k (written pending (lines text)) := by
  rw [get_envRead, lines_envWrite h]
  by_cases hnil : written pending (lines text) = []
  · rw [rows, if_pos hnil, hnil]
    rfl
  · rw [rows, if_neg hnil]

/-- A line stands where its line stood. -/
theorem getElem?_lines_envWrite {text line : Str} {i : Nat} (hi : (lines text)[i]? = some line) :
    (lines (envWrite text pending))[i]? = (edit pending (lines text)).1[i]? := by
  have hlt : i < (edit pending (lines text)).1.length := by
    rw [length_edit h]
    exact (List.getElem?_eq_some_iff.mp hi).1
  have hne : written pending (lines text) ≠ [] := by
    intro hnil
    rw [(List.append_eq_nil_iff.mp hnil).1] at hlt
    exact absurd hlt (Nat.not_lt_zero i)
  rw [lines_envWrite h, rows, if_neg hne, written, List.getElem?_append_left hlt]

end Write

/-! ## What an update comes to -/

/-- An update is read back, every line that gives none of its keys a value is kept in its place,
and a second time changes nothing. -/
structure Edits (u : Update) (text : Str) : Prop where
  read : ∀ k, Dict.get (envRead (envWrite text u.items)) k =
    Dict.get (Dict.update (envRead text) u.items) k
  kept : ∀ (i : Nat) line, (lines text)[i]? = some line → ¬Assigns u.items line →
    (lines (envWrite text u.items))[i]? = some line
  again : envWrite (envWrite text u.items) u.items = envWrite text u.items

theorem Update.pending (u : Update) : Pending u.items := ⟨u.nodup, u.plain⟩

/-- **An update is what it should be**, just when the first line of each of its keys gives a
value, and no line after it another one than the update. -/
theorem edits_iff (u : Update) (text : Str) :
    Edits u text ↔ ∀ e ∈ u.items, (∀ line ∈ (fromKey e.1 (lines text)).head?, '=' ∈ line) ∧
      ∀ value ∈ assigned e.1 (fromKey e.1 (lines text)).tail, value = e.2 := by
  have h := u.pending
  constructor
  · intro hedits e he
    have hget : Dict.get u.items e.1 = some e.2 := Dict.get_of_mem u.nodup he
    constructor
    · intro line hfirst
      by_contra hsign
      obtain ⟨i, hi, hlost⟩ := exists_lost h hget hfirst hsign
      have hname : isName (key line) = true := (key_of_head? hfirst).symm ▸ (u.plain e he).name
      have hkept := hedits.kept i line hi (by
        rintro ⟨a, -, value, hitem⟩
        exact hsign ((item_isSome_iff hname).mp (by rw [hitem]; rfl)))
      rw [getElem?_lines_envWrite h hi] at hkept
      exact hlost hkept
    · intro value hvalue
      have hread := hedits.read e.1
      rw [get_envRead_envWrite h, assigned_written h, hget, Dict.get_update u.nodup, hget] at hread
      dsimp only at hread
      rw [hvalue] at hread
      exact Option.some.inj hread
  · intro hall
    refine ⟨fun k => ?_, fun i line hi hnot => ?_, envWrite_envWrite h text⟩
    · rw [get_envRead_envWrite h, assigned_written h, Dict.get_update u.nodup, get_envRead]
      cases hget : Dict.get u.items k with
      | none => rfl
      | some value =>
        dsimp only
        have hlater := (hall _ (Dict.mem_of_get hget)).2
        cases hassigned : assigned k (fromKey k (lines text)).tail with
        | none => rfl
        | some v => rw [hlater v hassigned]; rfl
    · rw [getElem?_lines_envWrite h hi]
      exact getElem?_edit h (fun e he => (hall e he).1) hi hnot

/-- The key `A` twice. -/
def twice : Str := "A=1\nA=2\n".toList

theorem plain_third : Plain ("A".toList, "3".toList) where
  name := by decide
  stripped := by decide
  row := List.forall_mem_singleton.mpr rfl

/-- An update of the key `A`. -/
def third : Update where
  items := [("A".toList, "3".toList)]
  nodup := List.nodup_singleton _
  plain := List.forall_mem_singleton.mpr plain_third

/-- The first line is edited, and the second one read. -/
theorem not_edits_twice :
    envWrite twice third.items = "A=3\nA=2\n".toList ∧
      Dict.get (envRead (envWrite twice third.items)) "A".toList = some "2".toList ∧
      ¬Edits third twice := by
  have hread : Dict.get (envRead (envWrite twice third.items)) "A".toList = some "2".toList := by
    decide +kernel
  refine ⟨by decide +kernel, hread, fun hedits => ?_⟩
  have hsame := hedits.read "A".toList
  rw [hread] at hsame
  exact absurd hsame (by decide +kernel)

end Setup
end NetRollout
