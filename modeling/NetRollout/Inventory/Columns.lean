import NetRollout.Inventory.Tables
import NetRollout.Library.Csv
import NetRollout.Rollout.Inputs

/-!
# An import's columns

What the columns of a devices CSV become in the inventory (`_classify_columns` and `_cell_values`
of `src/inventory.py`): a header is a core column, one of the credentials, one of the user's
properties by its name or label, or it is ignored and said to be (`classified`).

A property is given the last cell of its columns that is not blank (`lookup_cellValues`).
-/

namespace NetRollout
namespace Inventory
namespace Columns

open PyText (Str strip Unicode)
open Rollout (Value)
open Inputs (Row CORE_KEYS CREDENTIAL_KEYS)

/-! ## The file -/

/-- The end of a line in a text that was opened with `newline=None`. -/
def universal : Str → Str
  | [] => []
  | '\r' :: '\n' :: text => '\n' :: universal text
  | '\r' :: text => '\n' :: universal text
  | c :: text => c :: universal text

/-- `csv.field_size_limit()`. -/
def FIELD_LIMIT : Nat := 131072

/-- A row of `DictReader`: None for the cells it has not. -/
def dictRow (fieldnames row : List Str) : Row :=
  Dict.update [] (fieldnames.zip
    (row.map some ++ List.replicate (fieldnames.length - row.length) none))

/-- `fieldnames`: the first row, the rest not read yet; none where it raises. -/
def firstRow (r : Csv.Reader) : Str → Option (List Str)
  | [] => some (r.stop.head?.getD [])
  | c :: text => do
    let r ← r.next FIELD_LIMIT c
    match r.rows with
    | row :: _ => some row
    | [] => firstRow r text

/-- `reader.fieldnames or []`. -/
def fieldnames (text : Str) : Option (List Str) := firstRow .start (universal text)

/-- `list(reader)`: the rows after the first that are not blank; none where it raises. -/
def dictRows (text : Str) (fieldnames : List Str) : Option (List Row) :=
  (Csv.read FIELD_LIMIT (universal text)).map fun rows =>
    (rows.tail.filter (· ≠ [])).map (dictRow fieldnames)

/-! ## Headers -/

/-- `PropertyDef`. -/
structure PropertyDef where
  name : Str
  label : Str
  is_list : Bool
  deriving DecidableEq

/-- `_Columns`. -/
structure Sorted where
  props : List (Str × PropertyDef)
  credentials : List Str
  ignored : List Str

/-- The core columns that are no credentials. -/
def core : List Str := CORE_KEYS.filter fun key => !CREDENTIAL_KEYS.contains key

section Classify

variable [Unicode]

/-- `norm`. -/
def norm (name : Str) : Str :=
  (Unicode.lower (strip name)).map fun c => if c = ' ' then '_' else c

/-- One property in `lookup`: by its name, and by its label. -/
def named (lookup : List (Str × PropertyDef)) (prop : PropertyDef) : List (Str × PropertyDef) :=
  let lookup := Dict.setdefault lookup (norm prop.name, prop)
  if prop.label = [] then lookup else Dict.setdefault lookup (norm prop.label, prop)

/-- `lookup`. -/
def lookupOf (properties : List PropertyDef) : List (Str × PropertyDef) :=
  properties.foldl named []

/-- One header in `_classify_columns`. -/
def sorted (lookup : List (Str × PropertyDef)) (columns : Sorted) (header : Str) : Sorted :=
  if header ∈ core then columns
  else if header ∈ CREDENTIAL_KEYS then
    { columns with credentials := columns.credentials ++ [header] }
  else
    match Dict.get lookup (norm header) with
    | some prop => { columns with props := Dict.put columns.props (header, prop) }
    | none => { columns with ignored := columns.ignored ++ [header] }

/-- `_classify_columns`. -/
def classifyColumns (headers : List Str) (properties : List PropertyDef) : Sorted :=
  headers.foldl (sorted (lookupOf properties)) ⟨[], [], []⟩

end Classify

/-! ## Values -/

/-- The items of a list as they are typed, the blank ones dropped. -/
def itemsOf (parts : List Str) : List Str := (parts.map strip).filter fun item => !item.isEmpty

/-- `raw if isinstance(raw, list) else raw.split(",")`. -/
def partsOf : Value → List Str
  | .list parts => parts
  | .text s => s.splitOn ','

/-- `raw if isinstance(raw, str) else ", ".join(raw)`. -/
def textOf : Value → Str
  | .list parts => [',', ' '].intercalate parts
  | .text s => s

/-- `parse_value`. -/
def parseValue (raw : Value) (is_list : Bool) : Option Value :=
  if is_list then
    if itemsOf (partsOf raw) = [] then none else some (.list (itemsOf (partsOf raw)))
  else if strip (textOf raw) = [] then none
  else some (.text (strip (textOf raw)))

/-- A row's cell of a column, as its property's value. -/
def cell (extra : List (Str × Value)) (column : Str × PropertyDef) : Option Value :=
  parseValue ((given (Dict.get extra column.1)).getD (.text [])) column.2.is_list

/-- `_cell_values`. -/
def cellValues (extra : List (Str × Value)) (columns : Sorted) :
    AList fun _ : Str => Option Value :=
  columns.props.foldl
    (fun values column =>
      match cell extra column with
      | some value => values.insert column.2.name (some value)
      | none => values) ∅

/-! ## Where a header goes -/

section Headers

variable [Unicode] {properties : List PropertyDef} {headers : List Str} {header : Str}

/-- A header's property: the first that it names, by name or by label. -/
def Names (prop : PropertyDef) (header : Str) : Prop :=
  norm header = norm prop.name ∨ prop.label ≠ [] ∧ norm header = norm prop.label

instance (prop : PropertyDef) (header : Str) : Decidable (Names prop header) :=
  inferInstanceAs (Decidable (_ ∨ _))

theorem get_named (lookup : List (Str × PropertyDef)) (prop : PropertyDef) (header : Str) :
    Dict.get (named lookup prop) (norm header) =
      (Dict.get lookup (norm header)).or (if Names prop header then some prop else none) := by
  rw [named]
  by_cases hlabel : prop.label = []
  · have hnames : Names prop header ↔ norm prop.name = norm header :=
      (or_iff_left fun h => h.1 hlabel).trans eq_comm
    rw [if_pos hlabel, Dict.get_setdefault]
    simp only [hnames]
  · rw [if_neg hlabel, Dict.get_setdefault, Dict.get_setdefault, Option.or_assoc]
    congr 1
    by_cases hname : norm prop.name = norm header
    · rw [if_pos hname, if_pos (show Names prop header from Or.inl hname.symm), Option.some_or]
    · have hnames : Names prop header ↔ norm prop.label = norm header := by
        constructor
        · rintro (h | h)
          · exact absurd h.symm hname
          · exact h.2.symm
        · exact fun h => Or.inr ⟨hlabel, h.symm⟩
      rw [if_neg hname, Option.none_or]
      simp only [hnames]

/-- What is looked up under a header: the first property it names. -/
theorem get_lookupOf (properties : List PropertyDef) (header : Str) :
    Dict.get (lookupOf properties) (norm header) =
      properties.find? fun prop => Names prop header := by
  have hfold : ∀ lookup, Dict.get (properties.foldl named lookup) (norm header) =
      (Dict.get lookup (norm header)).or (properties.find? fun prop => Names prop header) := by
    induction properties with
    | nil => exact fun lookup => (Option.or_none ..).symm
    | cons prop properties ih =>
      intro lookup
      rw [List.foldl_cons, ih, get_named, Option.or_assoc, List.find?_cons]
      congr 1
      by_cases h : Names prop header
      · rw [if_pos h, decide_eq_true h]
        rfl
      · rw [if_neg h, decide_eq_false h]
        rfl
  exact (hfold []).trans (Option.none_or ..)

/-- The headers that may name a property. -/
def IsFree (header : Str) : Prop := header ∉ core ∧ header ∉ CREDENTIAL_KEYS

/-- Where the headers are that have been sorted. -/
structure Placed (properties : List PropertyDef) (headers : List Str) (columns : Sorted) :
    Prop where
  credentials : ∀ header, header ∈ columns.credentials ↔
    header ∈ headers ∧ header ∉ core ∧ header ∈ CREDENTIAL_KEYS
  props : ∀ header prop, Dict.get columns.props header = some prop ↔
    header ∈ headers ∧ IsFree header ∧
      (properties.find? fun prop => Names prop header) = some prop
  ignored : ∀ header, header ∈ columns.ignored ↔
    header ∈ headers ∧ IsFree header ∧ ∀ prop ∈ properties, ¬Names prop header
  nodup : (columns.props.map Prod.fst).Nodup

omit [Unicode] in
/-- What is kept of the headers so far is kept with one more that it says nothing of. -/
theorem skip_iff {p q : Prop} {other : Str} (h : p ↔ other ∈ headers ∧ q)
    (hno : other = header → ¬q) : p ↔ other ∈ headers ++ [header] ∧ q := by
  rw [h, List.mem_append, List.mem_singleton]
  constructor
  · exact fun hboth => ⟨Or.inl hboth.1, hboth.2⟩
  · rintro ⟨hin | heq, hq⟩
    · exact ⟨hin, hq⟩
    · exact absurd hq (hno heq)

omit [Unicode] in
/-- And with one that it is said of. -/
theorem take_iff {p q : Prop} {other : Str} (h : p ↔ other ∈ headers ∧ q)
    (hq : other = header → q) : p ∨ other = header ↔ other ∈ headers ++ [header] ∧ q := by
  rw [h, List.mem_append, List.mem_singleton]
  constructor
  · rintro (⟨hin, hq'⟩ | heq)
    · exact ⟨Or.inl hin, hq'⟩
    · exact ⟨Or.inr heq, hq heq⟩
  · rintro ⟨hin | heq, hq'⟩
    · exact Or.inl ⟨hin, hq'⟩
    · exact Or.inr heq

theorem Placed.sorted {columns : Sorted} (h : Placed properties headers columns) (header : Str) :
    Placed properties (headers ++ [header]) (sorted (lookupOf properties) columns header) := by
  rw [Columns.sorted]
  split
  · next hcore =>
    constructor
    · exact fun other => skip_iff (h.credentials other) fun heq hq => hq.1 (heq ▸ hcore)
    · exact fun other prop => skip_iff (h.props other prop) fun heq hq => hq.1.1 (heq ▸ hcore)
    · exact fun other => skip_iff (h.ignored other) fun heq hq => hq.1.1 (heq ▸ hcore)
    · exact h.nodup
  · next hcore =>
    split
    · next hcred =>
      constructor
      · intro other
        rw [List.mem_append, List.mem_singleton]
        exact take_iff (h.credentials other) fun heq => heq ▸ ⟨hcore, hcred⟩
      · exact fun other prop => skip_iff (h.props other prop) fun heq hq => hq.1.2 (heq ▸ hcred)
      · exact fun other => skip_iff (h.ignored other) fun heq hq => hq.1.2 (heq ▸ hcred)
      · exact h.nodup
    · next hcred =>
      rw [get_lookupOf]
      have hnone : ∀ other, other = header → ¬(other ∉ core ∧ other ∈ CREDENTIAL_KEYS) :=
        fun other heq hq => hcred (heq ▸ hq.2)
      split
      · next prop hprop =>
        constructor
        · exact fun other => skip_iff (h.credentials other) (hnone other)
        · intro other p
          show Dict.get (Dict.put columns.props (header, prop)) other = some p ↔ _
          rw [Dict.get_put]
          by_cases heq : header = other
          · subst heq
            rw [if_pos rfl, List.mem_append, List.mem_singleton, hprop]
            exact ⟨fun hp => ⟨Or.inr rfl, ⟨hcore, hcred⟩, hp⟩, fun hp => hp.2.2⟩
          · rw [if_neg heq]
            exact skip_iff (h.props other p) fun hsame => absurd hsame.symm heq
        · refine fun other => skip_iff (h.ignored other) fun heq hq => ?_
          subst heq
          exact hq.2 prop (List.mem_of_find?_eq_some hprop)
            (of_decide_eq_true (by simpa using List.find?_some hprop))
        · exact Dict.nodup_put h.nodup (header, prop)
      · next hprop =>
        rw [List.find?_eq_none] at hprop
        have hno : ∀ prop ∈ properties, ¬Names prop header := fun prop hmem hnames =>
          hprop prop hmem (decide_eq_true hnames)
        constructor
        · exact fun other => skip_iff (h.credentials other) (hnone other)
        · refine fun other p => skip_iff (h.props other p) fun heq hq => ?_
          subst heq
          exact hno p (List.mem_of_find?_eq_some hq.2)
            (of_decide_eq_true (by simpa using List.find?_some hq.2))
        · intro other
          rw [List.mem_append, List.mem_singleton]
          exact take_iff (h.ignored other) fun heq => heq ▸ ⟨⟨hcore, hcred⟩, hno⟩
        · exact h.nodup

/-- **Every header goes to one place**: it is a core column, one of the credentials, the first
property that it names, or ignored. -/
theorem classified (headers : List Str) (properties : List PropertyDef) :
    Placed properties headers (classifyColumns headers properties) := by
  have hfold : ∀ (rest before : List Str) (columns : Sorted), Placed properties before columns →
      Placed properties (before ++ rest) (rest.foldl (sorted (lookupOf properties)) columns) := by
    intro rest
    induction rest with
    | nil => exact fun before columns h => (List.append_nil before).symm ▸ h
    | cons header rest ih =>
      intro before columns h
      have hnext := ih _ _ (h.sorted header)
      rwa [List.append_assoc, List.singleton_append] at hnext
  refine hfold headers [] _ ?_
  constructor
  · simp
  · simp [Dict.get]
  · simp
  · exact List.nodup_nil

end Headers

/-! ## What a property is given -/

variable {extra : List (Str × Value)} {columns : Sorted} {name : Str}

/-- The cells of a property that are not blank, in the columns' order. -/
def cellsOf (extra : List (Str × Value)) (props : List (Str × PropertyDef)) (name : Str) :
    List Value :=
  (props.filter fun column => column.2.name = name).filterMap (cell extra)

theorem given_of_parseValue {raw value : Value} {is_list : Bool}
    (h : parseValue raw is_list = some value) : given (some value) = some value := by
  rw [parseValue] at h
  split at h
  · split at h
    · cases h
    · next hne =>
      cases h
      exact if_neg (by simpa [Value.isEmpty] using hne)
  · split at h
    · cases h
    · next hne =>
      cases h
      exact if_neg (by simpa [Value.isEmpty] using hne)

/-- One column more. -/
theorem cellsOf_cons (column : Str × PropertyDef) (props : List (Str × PropertyDef)) :
    cellsOf extra (column :: props) name =
      (if column.2.name = name then (cell extra column).toList else []) ++
        cellsOf extra props name := by
  rw [cellsOf, List.filter_cons]
  by_cases h : column.2.name = name
  · rw [if_pos (decide_eq_true h), if_pos h, List.filterMap_cons]
    cases cell extra column <;> rfl
  · rw [if_neg (by simpa using h), if_neg h]
    rfl

/-- **A property is given the last of its cells that is not blank.** -/
theorem lookup_cellValues (extra : List (Str × Value)) (columns : Sorted) (name : Str) :
    (cellValues extra columns).lookup name =
      ((cellsOf extra columns.props name).getLast?).map some := by
  have hfold : ∀ (props : List (Str × PropertyDef)) (values : AList fun _ : Str => Option Value),
      (props.foldl (fun values column =>
        match cell extra column with
        | some value => values.insert column.2.name (some value)
        | none => values) values).lookup name =
      (((cellsOf extra props name).getLast?).map some).or (values.lookup name) := by
    intro props
    induction props with
    | nil => exact fun values => (Option.none_or ..).symm
    | cons column props ih =>
      intro values
      rw [List.foldl_cons, ih, cellsOf_cons, List.getLast?_append, Option.map_or, Option.or_assoc]
      congr 1
      cases hcell : cell extra column with
      | none => rw [Option.toList_none, ite_self, List.getLast?_nil, Option.map_none,
          Option.none_or]
      | some value =>
        by_cases hname : column.2.name = name
        · rw [if_pos hname, ← hname]
          exact AList.lookup_insert values
        · rw [if_neg hname]
          exact AList.lookup_insert_ne (Ne.symm hname)
  rw [cellValues, hfold, AList.lookup_empty, Option.or_none]

end Columns
end Inventory
end NetRollout
