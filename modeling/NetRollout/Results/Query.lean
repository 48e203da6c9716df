import NetRollout.Library.Condition
import NetRollout.Library.Dict
import NetRollout.Results.Paging

/-!
# The query builder

`compile_query_rules` of `src/webapp/blueprints/analytics.py`: the tree of rules that the browser
sends, as a condition of SQL; and the two queries of it, over a user's device results and over the
audit log.

The rules are any JSON.  `compiled` is that they are refused unless each group has its rules and
each rule a field and an operator that are allowed, that the condition then selects the rows that
the rules describe, a missing value matching nothing, and that it reads no column but the allowed
ones.  `answered` is what the two queries answer: the newest of the rows that match.

SQLAlchemy and PostgreSQL are parameters where a value is not of its column's type: whether the
comparison can be made, whether the database takes it, and which of three values it has.  How a
value other than a text is written, and how a row is written as JSON, is left out.
-/

namespace NetRollout
namespace Results
namespace Query

open PyText (Str Decimals Unicode)
open Calendar (directive yearDirective ofFields)
open Inventory (Viewer)

/-! ## What is sent -/

/-- A JSON value, its numbers in `ν`.  Of an object, the keys that a rule has, and the others'
names. -/
inductive Json (ν : Type) where
  | null
  | bool (b : Bool)
  | number (n : ν)
  | text (s : Str)
  | list (items : List (Json ν))
  | dict (condition rules field operator value : Option (Json ν)) (others : List Str)

variable {ν ρ : Type}

/-- Whether a value may be looked up. -/
def Json.hashable : Json ν → Bool
  | .list _ => false
  | .dict .. => false
  | _ => true

/-- Whether a text or an object is empty. -/
def Json.isEmpty : Json ν → Bool
  | .text s => s.isEmpty
  | .dict none none none none none others => others.isEmpty
  | _ => false

/-! ## Columns and their tests -/

inductive ColumnType where
  | dateTime
  | boolean
  | other
  deriving DecidableEq

structure Column where
  name : Str
  type : ColumnType
  deriving DecidableEq

/-- What a column is compared with. -/
inductive Operand (ν : Type) where
  | json (v : Json ν)
  | time (t : Int)

/-- What the lambdas of `QUERY_OPS` make. -/
inductive Test (ν : Type) where
  | equal (y : Operand ν)
  | not_equal (y : Operand ν)
  | greater_or_equal (y : Operand ν)
  | less_or_equal (y : Operand ν)
  | ilike (pattern : Str)

/-- What is left to SQLAlchemy and PostgreSQL, on rows `ρ`. -/
structure Sql (ν ρ : Type) where
  /-- `str()` of a value that is no text. -/
  str : Json ν → Str
  /-- `str()` of a time. -/
  strTime : Int → Str
  /-- Whether SQLAlchemy makes the comparison. -/
  builds : Column → Test ν → Bool
  /-- Whether the driver and PostgreSQL take it. -/
  takes : Column → Test ν → Bool
  /-- Its value on a row. -/
  truth : ρ → Column × Test ν → Option Bool

variable (sql : Sql ν ρ)

/-- `f"{v}"`. -/
def Sql.show : Json ν → Str
  | .text s => s
  | v => sql.str v

def Sql.operandText : Operand ν → Str
  | .json v => sql.show v
  | .time t => sql.strTime t

/-- `QUERY_OPS`. -/
def QUERY_OPS : List (Str × (Operand ν → Test ν)) :=
  [("equal".toList, .equal), ("not_equal".toList, .not_equal),
    ("greater_or_equal".toList, .greater_or_equal), ("less_or_equal".toList, .less_or_equal),
    ("contains".toList, fun y => .ilike ('%' :: (sql.operandText y ++ ['%']))),
    ("begins_with".toList, fun y => .ilike (sql.operandText y ++ ['%'])),
    ("ends_with".toList, fun y => .ilike ('%' :: sql.operandText y))]

/-- The fields that may be filtered on: each its column and the operators allowed on it. -/
abbrev Fields := List (Str × Column × List Str)

/-- `QUERY_DEVICE_RESULT_FIELDS`. -/
def QUERY_DEVICE_RESULT_FIELDS : Fields :=
  [("started_at".toList, ⟨"started_at".toList, .dateTime⟩,
      ["equal".toList, "less_or_equal".toList, "greater_or_equal".toList]),
    ("device_type".toList, ⟨"device_type".toList, .other⟩,
      ["equal".toList, "not_equal".toList]),
    ("status".toList, ⟨"status".toList, .other⟩, ["equal".toList, "not_equal".toList]),
    ("commands_sent".toList, ⟨"commands_sent".toList, .other⟩,
      ["equal".toList, "not_equal".toList, "greater_or_equal".toList, "less_or_equal".toList]),
    ("device_port".toList, ⟨"device_port".toList, .other⟩,
      ["equal".toList, "not_equal".toList]),
    ("device_ip".toList, ⟨"device_ip".toList, .other⟩,
      ["equal".toList, "contains".toList, "begins_with".toList])]

/-- `QUERY_AUDIT_LOG_FIELDS`. -/
def QUERY_AUDIT_LOG_FIELDS : Fields :=
  [("timestamp".toList, ⟨"timestamp".toList, .dateTime⟩,
      ["equal".toList, "less_or_equal".toList, "greater_or_equal".toList]),
    ("actor_username".toList, ⟨"actor_username".toList, .other⟩,
      ["equal".toList, "not_equal".toList, "contains".toList, "begins_with".toList]),
    ("action".toList, ⟨"action".toList, .other⟩,
      ["equal".toList, "not_equal".toList, "contains".toList, "begins_with".toList]),
    ("object_type".toList, ⟨"object_type".toList, .other⟩,
      ["equal".toList, "not_equal".toList]),
    ("success".toList, ⟨"success".toList, .boolean⟩, ["equal".toList]),
    ("ip_address".toList, ⟨"ip_address".toList, .other⟩,
      ["equal".toList, "contains".toList, "begins_with".toList])]

/-! ## Compiling -/

/-- What ends the compiling.  `other` is what SQLAlchemy raises. -/
inductive Raised where
  | value (words : Str)
  | key (name : Str)
  | type
  | other
  deriving DecidableEq

/-- `node[name]`. -/
def item (name : Str) : Option (Json ν) → Except Raised (Json ν)
  | some v => .ok v
  | none => .error (.key name)

/-- `dict.get` of a value that may not be hashable, or no text. -/
def lookup {β : Type} (table : List (Str × β)) (v : Json ν) : Except Raised (Option β) :=
  if v.hashable then
    match v with
    | .text s => .ok (Dict.get table s)
    | _ => .ok none
  else .error .type

section Compile

variable [Decimals]

/-- A day or a month of one digit. -/
def oneDigit (c : Char) : Option Nat :=
  if '1' ≤ c ∧ c ≤ '9' then some (c.toNat - '0'.toNat) else none

def monthText : Str → Option Nat
  | [c] => oneDigit c
  | [c, d] => directive 1 12 c d
  | _ => none

def dayText : Str → Option Nat
  | [c] => oneDigit c
  | [' ', c] => oneDigit c
  | [c, d] => directive 1 31 c d
  | _ => none

/-- `datetime.strptime(s, "%Y-%m-%d")`. -/
def strptime : Str → Option Int
  | a :: b :: c :: d :: '-' :: rest =>
    match rest.splitOn '-' with
    | [month, day] =>
      (yearDirective a b c d).bind fun year =>
      (monthText month).bind fun month =>
      (dayText day).bind fun day =>
      (ofFields year month day 0 0 0).map Calendar.Datetime.moment
    | _ => none
  | _ => none

variable [Unicode]

/-- What a rule's value is compared as. -/
def operand (type : ColumnType) (v : Json ν) : Except Raised (Operand ν) :=
  match type, v with
  | .dateTime, .text s =>
    match strptime s with
    | some t => .ok (.time t)
    | none => .error (.value ("Invalid date: ".toList ++ s))
  | .dateTime, v => .error (.value ("Invalid date: ".toList ++ sql.show v))
  | .boolean, .text s => .ok (.json (.bool (Unicode.lower s = "true".toList)))
  | _, v => .ok (.json v)

variable (allowed_fields : Fields)

/-- One rule: its column, and the test of it. -/
def rule (field operator value : Option (Json ν)) : Except Raised (Column × Test ν) := do
  let field_name ← item "field".toList field
  let operator ← item "operator".toList operator
  let value ← item "value".toList value
  match ← lookup allowed_fields field_name with
  | none => .error (.value ("Field not allowed: ".toList ++ sql.show field_name))
  | some (column, allowed_ops) =>
    match ← lookup (allowed_ops.map fun op => (op, op)) operator with
    | none => .error (.value ("Operator ".toList ++ (sql.show operator ++
        (" not allowed for field ".toList ++ sql.show field_name))))
    | some op =>
      let y ← operand sql column.type value
      match Dict.get (QUERY_OPS sql) op with
      | none => .error (.key op)
      | some make =>
        if sql.builds column (make y) then .ok (column, make y) else .error .other

/-- `node["condition"] == "AND"`. -/
def Json.isAnd : Json ν → Bool
  | .text s => s = "AND".toList
  | _ => false

/-- A group of conditions. -/
def group {α : Type} (condition : Json ν) (children : List (Condition α)) : Condition α :=
  if condition.isAnd then .all children else .any children

mutual

/-- `compile_query_rules`. -/
def compile : Json ν → Except Raised (Condition (Column × Test ν))
  | .dict (some condition) (some (.list rules)) _ _ _ _ => do
    let children ← compileAll rules
    .ok (group condition children)
  | .dict (some condition) (some rules) _ _ _ _ =>
    -- a text's characters and an object's keys are no rules
    if rules.isEmpty then .ok (group condition []) else .error .type
  | .dict (some _) none _ _ _ _ => .error (.key "rules".toList)
  | .dict none _ field operator value _ => (rule sql allowed_fields field operator value).map .test
  | _ => .error .type

def compileAll : List (Json ν) → Except Raised (List (Condition (Column × Test ν)))
  | [] => .ok []
  | node :: nodes => do
    let child ← compile node
    let children ← compileAll nodes
    .ok (child :: children)

end

/-! ## What rules describe -/

/-- What a value is compared as: a day in a column of times, a word in one of truth values, and
itself in the others. -/
inductive Compared : ColumnType → Json ν → Operand ν → Prop
  | time {s : Str} {t : Int} (h : strptime s = some t) : Compared .dateTime (.text s) (.time t)
  | bool {s : Str} : Compared .boolean (.text s) (.json (.bool (Unicode.lower s = "true".toList)))
  | itself {type : ColumnType} {v : Json ν} (htype : type ≠ .dateTime)
    (hv : type = .boolean → ∀ s, v ≠ .text s) : Compared type v (.json v)

/-- A rule that is allowed: its column, and the test that its operator makes of its value. -/
inductive IsRule : Option (Json ν) → Option (Json ν) → Option (Json ν) → Column → Test ν → Prop
  | intro {name op : Str} {column : Column} {ops : List Str} {v : Json ν} {y : Operand ν}
    {make : Operand ν → Test ν} (hfield : Dict.get allowed_fields name = some (column, ops))
    (hop : op ∈ ops) (hy : Compared column.type v y)
    (hmake : Dict.get (QUERY_OPS sql) op = some make)
    (hbuilds : sql.builds column (make y) = true) :
    IsRule (some (.text name)) (some (.text op)) (some v) column (make y)

/-- Rules that are allowed, in groups that have them. -/
inductive Accepted : Json ν → Prop
  | group {condition : Json ν} {rules : List (Json ν)} {field operator value : Option (Json ν)}
    {others : List Str} (h : ∀ r ∈ rules, Accepted r) :
    Accepted (.dict (some condition) (some (.list rules)) field operator value others)
  | empty {condition rules : Json ν} {field operator value : Option (Json ν)}
    {others : List Str} (h : rules.isEmpty = true) :
    Accepted (.dict (some condition) (some rules) field operator value others)
  | rule {rules field operator value : Option (Json ν)} {others : List Str} {column : Column}
    {test : Test ν} (h : IsRule sql allowed_fields field operator value column test) :
    Accepted (.dict none rules field operator value others)

/-- The rows that rules describe: in an `"AND"` group those of all of its rules, in any other
those of one of them, and of a rule those on which its test is true. -/
inductive Selects (row : ρ) : Json ν → Prop
  | all {condition : Json ν} {rules : List (Json ν)} {field operator value : Option (Json ν)}
    {others : List Str} (hand : condition.isAnd = true) (h : ∀ r ∈ rules, Selects row r) :
    Selects row (.dict (some condition) (some (.list rules)) field operator value others)
  | allEmpty {condition rules : Json ν} {field operator value : Option (Json ν)}
    {others : List Str} (hand : condition.isAnd = true) (h : rules.isEmpty = true) :
    Selects row (.dict (some condition) (some rules) field operator value others)
  | any {condition r : Json ν} {rules : List (Json ν)} {field operator value : Option (Json ν)}
    {others : List Str} (hor : condition.isAnd = false) (hr : r ∈ rules) (h : Selects row r) :
    Selects row (.dict (some condition) (some (.list rules)) field operator value others)
  | rule {rules field operator value : Option (Json ν)} {others : List Str} {column : Column}
    {test : Test ν} (h : IsRule sql allowed_fields field operator value column test)
    (htrue : sql.truth row (column, test) = some true) :
    Selects row (.dict none rules field operator value others)

/-! ## A rule -/

variable {sql allowed_fields}

omit [Decimals] [Unicode] in
theorem lookup_eq_some {β : Type} {table : List (Str × β)} {v : Json ν} {e : β} :
    lookup table v = .ok (some e) ↔ ∃ s, v = .text s ∧ Dict.get table s = some e := by
  cases v with
  | text s => simp [lookup, Json.hashable]
  | _ => simp [lookup, Json.hashable]

omit [Decimals] [Unicode] in
theorem get_self {ops : List Str} {op e : Str} :
    Dict.get (ops.map fun op => (op, op)) op = some e ↔ op ∈ ops ∧ e = op := by
  induction ops with
  | nil => simp [Dict.get]
  | cons o ops ih =>
    rw [List.map_cons, Dict.get]
    by_cases h : o = op
    · simp [h, eq_comm]
    · rw [if_neg h, ih, List.mem_cons, or_iff_right (Ne.symm h)]

theorem operand_eq_ok {type : ColumnType} {v : Json ν} {y : Operand ν} :
    operand sql type v = .ok y ↔ Compared type v y := by
  constructor
  · intro h
    cases type with
    | dateTime =>
      cases v with
      | text s =>
        rw [operand] at h
        cases ht : strptime s with
        | none =>
          rw [ht] at h
          cases h
        | some t =>
          rw [ht] at h
          cases h
          exact .time ht
      | _ => cases h
    | boolean =>
      cases v with
      | text s =>
        cases h
        exact .bool
      | _ =>
        cases h
        exact .itself (by decide) fun _ s heq => by cases heq
    | other =>
      cases h
      exact .itself (by decide) fun h => absurd h (by decide)
  · intro h
    cases h with
    | time ht => rw [operand, ht]
    | bool => rfl
    | itself htype hv =>
      cases type with
      | dateTime => exact absurd rfl htype
      | other => rfl
      | boolean =>
        cases v with
        | text s => exact absurd rfl (hv rfl s)
        | _ => rfl

omit [Decimals] [Unicode] in
/-- A computation that succeeds succeeded at each step. -/
theorem of_bind_ok {ε α β : Type} {x : Except ε α} {f : α → Except ε β} {b : β}
    (h : x >>= f = .ok b) : ∃ a, x = .ok a ∧ f a = .ok b := by
  cases x with
  | error e => cases h
  | ok a => exact ⟨a, rfl, h⟩

omit [Decimals] [Unicode] in
theorem item_eq_ok {name : Str} {v : Option (Json ν)} {w : Json ν} :
    item name v = .ok w ↔ v = some w := by
  cases v with
  | none => simp [item]
  | some v => simp [item]

theorem isRule_of_ok {field operator value : Option (Json ν)} {a : Column × Test ν}
    (h : rule sql allowed_fields field operator value = .ok a) :
    IsRule sql allowed_fields field operator value a.1 a.2 := by
  obtain ⟨field_name, hfield, h⟩ := of_bind_ok h
  obtain ⟨op_name, hop, h⟩ := of_bind_ok h
  obtain ⟨v, hv, h⟩ := of_bind_ok h
  obtain ⟨found, hfound, h⟩ := of_bind_ok h
  rw [item_eq_ok] at hfield hop hv
  subst hfield hop hv
  cases found with
  | none => cases h
  | some entry =>
    obtain ⟨column, ops⟩ := entry
    obtain ⟨name, rfl, hname⟩ := lookup_eq_some.mp hfound
    obtain ⟨known, hknown, h⟩ := of_bind_ok h
    cases known with
    | none => cases h
    | some op =>
      obtain ⟨s, rfl, hs⟩ := lookup_eq_some.mp hknown
      obtain ⟨hmem, rfl⟩ := get_self.mp hs
      obtain ⟨y, hy, h⟩ := of_bind_ok h
      cases hmake : Dict.get (QUERY_OPS sql) op with
      | none =>
        rw [hmake] at h
        cases h
      | some make =>
        simp only [hmake] at h
        split at h
        · next hbuilds =>
          cases h
          exact .intro hname hmem (operand_eq_ok.mp hy) hmake hbuilds
        · cases h

theorem rule_of_isRule {field operator value : Option (Json ν)} {column : Column} {test : Test ν}
    (h : IsRule sql allowed_fields field operator value column test) :
    rule sql allowed_fields field operator value = .ok (column, test) := by
  cases h with
  | @intro name op _ ops v y make hfield hop hy hmake hbuilds =>
    have hname : lookup allowed_fields (.text name : Json ν) = .ok (some (column, ops)) :=
      lookup_eq_some.mpr ⟨name, rfl, hfield⟩
    have hknown : lookup (ops.map fun op => (op, op)) (.text op : Json ν) = .ok (some op) :=
      lookup_eq_some.mpr ⟨op, rfl, get_self.mpr ⟨hop, rfl⟩⟩
    have hoperand : operand sql column.type v = .ok y := operand_eq_ok.mpr hy
    simp only [rule, item, hname, hknown, hoperand, hmake, hbuilds, bind, Except.bind, if_true]

/-! ## The tree -/

variable (sql allowed_fields) in
/-- A condition that says what the rules do, of the allowed columns. -/
structure Compiled (node : Json ν) (c : Condition (Column × Test ν)) : Prop where
  accepted : Accepted sql allowed_fields node
  holds : ∀ row, c.Holds (sql.truth row) ↔ Selects sql allowed_fields row node
  columns : ∀ a ∈ c.tests, ∃ name ops, Dict.get allowed_fields name = some (a.1, ops)

omit [Decimals] [Unicode] in
theorem holds_group {α : Type} {v : α → Option Bool} {condition : Json ν}
    {children : List (Condition α)} : (group condition children).Holds v ↔
      if condition.isAnd then ∀ c ∈ children, c.Holds v else ∃ c ∈ children, c.Holds v := by
  cases h : condition.isAnd with
  | true => rw [group, h, if_pos rfl, if_pos rfl, Condition.holds_all]
  | false => rw [group, h, if_neg (by decide), if_neg (by decide), Condition.holds_any]

omit [Decimals] [Unicode] in
theorem mem_tests_group {α : Type} {condition : Json ν} {children : List (Condition α)} {a : α}
    (h : a ∈ (group condition children).tests) : ∃ c ∈ children, a ∈ c.tests := by
  rw [group] at h
  split at h
  · exact Condition.mem_tests_all h
  · exact Condition.mem_tests_any h

variable (sql allowed_fields) in
/-- The rules of a group and their conditions, in pairs. -/
structure Paired (rules : List (Json ν)) (children : List (Condition (Column × Test ν))) :
    Prop where
  child : ∀ r ∈ rules, ∃ c ∈ children, Compiled sql allowed_fields r c
  rule : ∀ c ∈ children, ∃ r ∈ rules, Compiled sql allowed_fields r c

theorem Compiled.group {condition : Json ν} {rules : List (Json ν)}
    {children : List (Condition (Column × Test ν))} {field operator value : Option (Json ν)}
    {others : List Str} (h : Paired sql allowed_fields rules children) :
    Compiled sql allowed_fields
      (.dict (some condition) (some (.list rules)) field operator value others)
      (Query.group condition children) where
  accepted := .group fun r hr => by
    obtain ⟨c, -, hc⟩ := h.child r hr
    exact hc.accepted
  holds row := by
    rw [holds_group]
    cases hand : condition.isAnd with
    | true =>
      rw [if_pos rfl]
      constructor
      · refine fun hall => .all hand fun r hr => ?_
        obtain ⟨c, hmem, hc⟩ := h.child r hr
        exact (hc.holds row).mp (hall c hmem)
      · intro hselects c hmem
        obtain ⟨r, hr, hc⟩ := h.rule c hmem
        cases hselects with
        | all _ hall => exact (hc.holds row).mpr (hall r hr)
        | allEmpty _ hempty => cases hempty
        | any hor => rw [hand] at hor; cases hor
    | false =>
      rw [if_neg (by decide)]
      constructor
      · rintro ⟨c, hmem, hholds⟩
        obtain ⟨r, hr, hc⟩ := h.rule c hmem
        exact .any hand hr ((hc.holds row).mp hholds)
      · intro hselects
        cases hselects with
        | all hand' => rw [hand] at hand'; cases hand'
        | allEmpty hand' => rw [hand] at hand'; cases hand'
        | any _ hr hselects =>
          obtain ⟨c, hmem, hc⟩ := h.child _ hr
          exact ⟨c, hmem, (hc.holds row).mpr hselects⟩
  columns a ha := by
    obtain ⟨c, hmem, ha⟩ := mem_tests_group ha
    obtain ⟨r, -, hc⟩ := h.rule c hmem
    exact hc.columns a ha

/-- A group of no rules. -/
theorem Compiled.empty {condition rules : Json ν} {field operator value : Option (Json ν)}
    {others : List Str} (h : rules.isEmpty = true) :
    Compiled sql allowed_fields
      (.dict (some condition) (some rules) field operator value others)
      (Query.group condition []) where
  accepted := .empty h
  holds row := by
    rw [holds_group]
    constructor
    · intro hholds
      cases hand : condition.isAnd with
      | true => exact .allEmpty hand h
      | false =>
        rw [hand, if_neg (by decide)] at hholds
        obtain ⟨c, hc, -⟩ := hholds
        exact absurd hc List.not_mem_nil
    · intro hselects
      cases hselects with
      | allEmpty hand => simp [hand]
      | all hand => simp [hand]
      | any => simp [Json.isEmpty] at h
  columns a ha := by
    obtain ⟨c, hc, -⟩ := mem_tests_group ha
    exact absurd hc List.not_mem_nil

theorem Compiled.rule {rules field operator value : Option (Json ν)} {others : List Str}
    {a : Column × Test ν} (h : IsRule sql allowed_fields field operator value a.1 a.2) :
    Compiled sql allowed_fields (.dict none rules field operator value others) (.test a) where
  accepted := .rule h
  holds row := by
    constructor
    · exact fun htrue => .rule h htrue
    · intro hselects
      cases hselects with
      | rule h' htrue =>
        have hsame := (rule_of_isRule h).symm.trans (rule_of_isRule h')
        rwa [← Except.ok.inj hsame] at htrue
  columns b hb := by
    obtain ⟨column, test⟩ := a
    rw [List.mem_singleton.mp hb]
    cases h with
    | intro hfield => exact ⟨_, _, hfield⟩

theorem Paired.cons {node : Json ν} {nodes : List (Json ν)} {c : Condition (Column × Test ν)}
    {cs : List (Condition (Column × Test ν))} (h : Paired sql allowed_fields nodes cs)
    (hc : Compiled sql allowed_fields node c) :
    Paired sql allowed_fields (node :: nodes) (c :: cs) where
  child r hr := by
    rcases List.mem_cons.mp hr with rfl | hr
    · exact ⟨c, List.mem_cons_self, hc⟩
    · obtain ⟨d, hd, hcompiled⟩ := h.child r hr
      exact ⟨d, List.mem_cons_of_mem c hd, hcompiled⟩
  rule d hd := by
    rcases List.mem_cons.mp hd with rfl | hd
    · exact ⟨node, List.mem_cons_self, hc⟩
    · obtain ⟨r, hr, hcompiled⟩ := h.rule d hd
      exact ⟨r, List.mem_cons_of_mem node hr, hcompiled⟩

theorem compiled_of_empty {condition rules : Json ν} {field operator value : Option (Json ν)}
    {others : List Str} {c : Condition (Column × Test ν)}
    (h : (if rules.isEmpty then .ok (group condition []) else .error .type :
      Except Raised (Condition (Column × Test ν))) = .ok c) :
    Compiled sql allowed_fields
      (.dict (some condition) (some rules) field operator value others) c := by
  cases hempty : rules.isEmpty with
  | true =>
    rw [hempty] at h
    cases h
    exact .empty hempty
  | false =>
    rw [hempty] at h
    cases h

mutual

theorem compiled_of_ok : ∀ {node : Json ν} {c : Condition (Column × Test ν)},
    compile sql allowed_fields node = .ok c → Compiled sql allowed_fields node c
  | .dict (some condition) (some rules) _ _ _ _, c, h => by
    cases rules with
    | list rules =>
      obtain ⟨children, hchildren, h⟩ := of_bind_ok h
      cases h
      exact .group (paired_of_ok hchildren)
    | text s => exact compiled_of_empty h
    | dict => exact compiled_of_empty h
    | null => cases h
    | bool => cases h
    | number => cases h
  | .dict (some condition) none _ _ _ _, c, h => by cases h
  | .dict none _ field operator value _, c, h => by
    cases hrule : Query.rule sql allowed_fields field operator value with
    | error e =>
      rw [compile, hrule] at h
      cases h
    | ok a =>
      rw [compile, hrule] at h
      cases h
      exact .rule (isRule_of_ok hrule)
  | .null, c, h => by cases h
  | .bool _, c, h => by cases h
  | .number _, c, h => by cases h
  | .text _, c, h => by cases h
  | .list _, c, h => by cases h

theorem paired_of_ok : ∀ {nodes : List (Json ν)} {cs : List (Condition (Column × Test ν))},
    compileAll sql allowed_fields nodes = .ok cs → Paired sql allowed_fields nodes cs
  | [], cs, h => by
    cases h
    exact ⟨by simp, by simp⟩
  | node :: nodes, cs, h => by
    obtain ⟨child, hchild, h⟩ := of_bind_ok h
    obtain ⟨children, hchildren, h⟩ := of_bind_ok h
    cases h
    exact (paired_of_ok hchildren).cons (compiled_of_ok hchild)

end

theorem exists_compileAll {nodes : List (Json ν)}
    (h : ∀ r ∈ nodes, ∃ c, compile sql allowed_fields r = .ok c) :
    ∃ cs, compileAll sql allowed_fields nodes = .ok cs := by
  induction nodes with
  | nil => exact ⟨[], by rw [compileAll]⟩
  | cons node nodes ih =>
    obtain ⟨c, hc⟩ := h node List.mem_cons_self
    obtain ⟨cs, hcs⟩ := ih fun r hr => h r (List.mem_cons_of_mem node hr)
    exact ⟨c :: cs, by rw [compileAll, hc, hcs]; rfl⟩

/-- Rules that are allowed are compiled. -/
theorem ok_of_accepted {node : Json ν} (h : Accepted sql allowed_fields node) :
    ∃ c, compile sql allowed_fields node = .ok c := by
  induction h with
  | @group condition rules _ _ _ _ _ ih =>
    obtain ⟨cs, hcs⟩ := exists_compileAll ih
    exact ⟨group condition cs, by rw [compile, hcs]; rfl⟩
  | @empty condition rules _ _ _ _ h =>
    refine ⟨group condition [], ?_⟩
    cases rules with
    | text s => rw [compile, if_pos h]; exact fun _ heq => by cases heq
    | dict => rw [compile, if_pos h]; exact fun _ heq => by cases heq
    | _ => cases h
  | rule h =>
    rw [compile, rule_of_isRule h]
    exact ⟨_, rfl⟩

variable (sql allowed_fields) in
/-- **What the query builder makes of rules.**  Any JSON is either refused, and then it is not
rules that are allowed; or it is, and the condition is true on the rows that the rules describe,
the tests that are neither true nor false matching nothing, and reads the allowed columns only. -/
theorem compiled (node : Json ν) :
    match compile sql allowed_fields node with
    | .error _ => ¬ Accepted sql allowed_fields node
    | .ok c => Accepted sql allowed_fields node ∧
        (∀ row, c.truth (sql.truth row) = some true ↔ Selects sql allowed_fields row node) ∧
        ∀ a ∈ c.tests, ∃ name ops, Dict.get allowed_fields name = some (a.1, ops) := by
  cases hc : compile sql allowed_fields node with
  | error e =>
    intro h
    obtain ⟨c, hok⟩ := ok_of_accepted h
    rw [hc] at hok
    cases hok
  | ok c =>
    have hcompiled := compiled_of_ok hc
    refine ⟨hcompiled.accepted, fun row => ?_, hcompiled.columns⟩
    rw [Condition.truth_eq_true_iff, hcompiled.holds row]

end Compile

/-! ## The queries -/

/-- `QUERY_LIMIT`. -/
def QUERY_LIMIT : Nat := 200

/-- The newest of the rows that are kept, 200 at most. -/
def matching (time : ρ → Int) (keep : ρ → Bool) (rows : List ρ) : List ρ :=
  ((rows.filter keep).mergeSort fun a b => time b ≤ time a).take QUERY_LIMIT

/-- The newest of the rows of a kind, `limit` of them or all. -/
structure Newest (time : ρ → Int) (limit : Nat) (P : ρ → Prop) (rows l : List ρ) : Prop where
  subperm : l.Subperm rows
  kind : ∀ r ∈ l, P r
  sorted : l.Pairwise fun a b => time b ≤ time a
  length_le : l.length ≤ limit
  newest : ∀ r ∈ rows, P r → r ∉ l → l.length = limit ∧ ∀ a ∈ l, time r ≤ time a

/-- The first rows of a kind, sorted, are the newest. -/
theorem newest_take {time : ρ → Int} {P : ρ → Prop} {keep : ρ → Bool} {rows s : List ρ}
    (hkeep : ∀ r, keep r = true ↔ P r) (hperm : s.Perm (rows.filter keep))
    (hsorted : s.Pairwise fun a b => time b ≤ time a) (limit : Nat) :
    Newest time limit P rows (s.take limit) where
  subperm := (List.take_sublist _ _).subperm.trans (hperm.subperm.trans List.filter_sublist.subperm)
  kind r hr := by
    have hmem := hperm.mem_iff.mp (List.mem_of_mem_take hr)
    exact (hkeep r).mp (List.mem_filter.mp hmem).2
  sorted := hsorted.sublist (List.take_sublist _ _)
  length_le := List.length_take_le _ _
  newest r hr hP hno := by
    have hmem := hperm.mem_iff.mpr (List.mem_filter.mpr ⟨hr, (hkeep r).mpr hP⟩)
    rw [← List.take_append_drop limit s] at hmem hsorted
    have hdrop := (List.mem_append.mp hmem).resolve_left hno
    have hlong := List.length_pos_of_mem hdrop
    rw [List.length_drop] at hlong
    refine ⟨by rw [List.length_take]; omega, fun a ha => ?_⟩
    exact (List.pairwise_append.mp hsorted).2.2 a ha r hdrop

theorem newest_matching {time : ρ → Int} {keep : ρ → Bool} {P : ρ → Prop}
    (hkeep : ∀ r, keep r = true ↔ P r) (rows : List ρ) :
    Newest time QUERY_LIMIT P rows (matching time keep rows) := by
  refine newest_take hkeep (List.mergeSort_perm ..) ?_ QUERY_LIMIT
  refine (List.pairwise_mergeSort (fun a b c hab hbc => ?_) (fun a b => ?_) _).imp
    of_decide_eq_true
  · simp only [decide_eq_true_eq] at hab hbc ⊢
    omega
  · simp only [Bool.or_eq_true, decide_eq_true_eq]
    omega

/-- What a query answers: a refusal in words, an error of the server's, or rows. -/
inductive Reply (ρ : Type) where
  | refused (words : Str)
  | failed
  | rows (rows : List ρ)

section Queries

variable [Decimals] [Unicode]

/-- The rules compiled, and the rows that are kept of those in scope. -/
def answer (allowed_fields : Fields) (time : ρ → Int) (scope : ρ → Bool) (rows : List ρ)
    (rules : Option (Json ν)) : Reply ρ :=
  match rules with
  | some (.dict condition rules field operator value others) =>
    match compile sql allowed_fields (.dict condition rules field operator value others) with
    | .error (.value words) => .refused words
    | .error (.key name) => .refused ('\'' :: (name ++ ['\'']))
    | .error .type => .refused "Invalid query: a rule is malformed".toList
    | .error .other => .failed
    | .ok filters =>
      if filters.tests.all fun a => sql.takes a.1 a.2 then
        .rows (matching time (fun r => scope r && filters.truth (sql.truth r) = some true) rows)
      else .failed
  | _ => .refused "Invalid query: the rules are missing or incomplete".toList

/-- `JobResults.scope_user`. -/
def scopeUser (uuid : Str → Option Nat) (viewer : Viewer) (raw : Str) : Nat :=
  let param := PyText.strip (if raw = [] then "me".toList else raw)
  if viewer.is_admin = true ∧ param ≠ "me".toList then (uuid param).getD viewer.id else viewer.id

/-- `analytics_query`, over `device_results`. -/
def analytics_query (sql : Sql ν JobRow) (uuid : Str → Option Nat) (viewer : Viewer)
    (device_results : List JobRow) (rules user : Option (Json ν)) : Reply JobRow :=
  let scope_user_id := scopeUser uuid viewer (sql.show (user.getD (.text "me".toList)))
  answer sql QUERY_DEVICE_RESULT_FIELDS (fun r => r.started_at)
    (fun r => r.user_id == scope_user_id) device_results rules

/-- `admin_analytics_query`, over `audit_log`. -/
def admin_analytics_query (timestamp : ρ → Int) (audit_log : List ρ) (rules : Option (Json ν)) :
    Reply ρ :=
  answer sql QUERY_AUDIT_LOG_FIELDS timestamp (fun _ => true) audit_log rules

variable {sql}

theorem rows_of_answer {allowed_fields : Fields} {time : ρ → Int} {scope : ρ → Bool}
    {rows l : List ρ} {rules : Option (Json ν)}
    (h : answer sql allowed_fields time scope rows rules = .rows l) :
    ∃ node, rules = some node ∧ Accepted sql allowed_fields node ∧ Newest time QUERY_LIMIT
      (fun r => scope r = true ∧ Selects sql allowed_fields r node) rows l := by
  unfold answer at h
  split at h
  · next condition rules field operator value others =>
    refine ⟨_, rfl, ?_⟩
    have hcompiled := compiled sql allowed_fields
      (.dict condition rules field operator value others)
    split at h
    · cases h
    · cases h
    · cases h
    · cases h
    · next filters hfilters =>
      simp only [hfilters] at hcompiled
      split at h
      · cases h
        refine ⟨hcompiled.1, newest_matching (fun r => ?_) _⟩
        rw [Bool.and_eq_true, decide_eq_true_eq, hcompiled.2.1 r]
      · cases h
  · cases h

/-- **What the query builder answers a user**: when it answers rows, the rules are allowed, and the
rows are the newest, 200 at most, of the device results in scope that the rules describe; and those
in scope are the user's own, unless the user is an administrator. -/
theorem analytics_query_rows (sql : Sql ν JobRow) (uuid : Str → Option Nat) (viewer : Viewer)
    (device_results l : List JobRow) (rules user : Option (Json ν))
    (h : analytics_query sql uuid viewer device_results rules user = .rows l) :
    (∃ node, rules = some node ∧ Accepted sql QUERY_DEVICE_RESULT_FIELDS node ∧
      Newest (fun r => r.started_at) 200 (fun r =>
        r.user_id = scopeUser uuid viewer (sql.show (user.getD (.text "me".toList))) ∧
          Selects sql QUERY_DEVICE_RESULT_FIELDS r node) device_results l) ∧
      (viewer.is_admin = false → ∀ r ∈ l, r.user_id = viewer.id) := by
  obtain ⟨node, hnode, haccepted, hnewest⟩ := rows_of_answer h
  simp only [beq_iff_eq] at hnewest
  refine ⟨⟨node, hnode, haccepted, hnewest⟩, fun hadmin r hr => ?_⟩
  rw [(hnewest.kind r hr).1, scopeUser]
  simp [hadmin]

end Queries

/-- A database of the one comparison `status = …`. -/
def statusSql : Sql Unit JobRow where
  str _ := []
  strTime _ := []
  builds _ _ := true
  takes _ _ := true
  truth r a := match a.2 with
    | .equal (.json (.text s)) => some (r.status = s)
    | _ => none

theorem analytics_query_rows_succeeded :
    let _ := Decimals.ascii
    let _ := Unicode.ascii
    ∃ node, ∀ r ∈ oneJob.device_results, Selects statusSql QUERY_DEVICE_RESULT_FIELDS r node := by
  intro _ _
  have hone : ∀ keep : JobRow → Bool, oneJob.device_results.filter keep = oneJob.device_results →
      matching (fun r => r.started_at) keep oneJob.device_results = oneJob.device_results := by
    intro keep hkeep
    rw [matching, hkeep, oneJob, List.mergeSort_singleton]
    rfl
  obtain ⟨⟨node, -, -, hnewest⟩, -⟩ := analytics_query_rows statusSql (fun _ => none) ⟨1, false⟩
    oneJob.device_results oneJob.device_results
    (some (.dict none none (some (.text "status".toList)) (some (.text "equal".toList))
      (some (.text "success".toList)) [])) none
    (congrArg Reply.rows (hone _ rfl))
  exact ⟨node, fun r hr => (hnewest.kind r hr).2⟩

end Query
end Results
end NetRollout
