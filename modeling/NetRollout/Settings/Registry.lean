import NetRollout.Library.PyText

/-!
# The settings there are

The registry of `src/db/settings.py`: each System Setting with its kind, and the rules that
relate two of them.  `parse` makes an input a valid value, `coerce` a stored one.

* `valid_of_parse`, `parse_of_valid`: what `parse` accepts is valid, and a valid value is
  accepted as it is.
* `coerce_of_valid`: a valid value is stored and read back.
* `valid_default`: every default passes its own check.
-/

namespace NetRollout
namespace Settings

open PyText

/-- Raw input, of a form, of JSON, or of a stored row. -/
inductive Raw where
  | none
  | bool (b : Bool)
  | int (n : Int)
  | text (s : Str)
  /-- Any other object, by its `str()`. -/
  | other (s : Str)
  deriving DecidableEq

/-- `str(raw)`. -/
def Raw.str : Raw → Str
  | none => "None".toList
  | bool true => "True".toList
  | bool false => "False".toList
  | int n => ofInt n
  | text s => s
  | other s => s

/-- A setting's value. -/
inductive Value where
  | int (n : Int)
  | text (s : Str)
  deriving DecidableEq

def Value.raw : Value → Raw
  | int n => .int n
  | text s => .text s

/-! ## Kinds -/

/-- A text's format: what `re.fullmatch` accepts, white space never being a part of it. -/
structure Format where
  accepts : Str → Bool
  plain : ∀ s, accepts s = true → ∀ c ∈ s, isSpace c = false

structure IntSetting where
  minimum : Option Int
  maximum : Option Int

/-- Text, trimmed.  Only a text of a format is kept lowercase. -/
structure TextSetting where
  format : Option Format
  hint : String
  maxLength : Option Nat
  required : Bool
  lowercase : Bool
  lowercase_format : lowercase = true → format.isSome = true

/-- One of a list of values, with what the page shows for each. -/
structure ChoiceSetting where
  choices : List (Str × String)
  stripped : ∀ c ∈ choices, strip c.1 = c.1

inductive Kind where
  | int (setting : IntSetting)
  | text (setting : TextSetting)
  | choice (setting : ChoiceSetting)

/-- A System Setting. -/
structure Setting where
  label : String
  default : Value
  kind : Kind
  editable : Bool := true

section Parsing

variable [Unicode] [Decimals]

def IntSetting.parse (s : IntSetting) (raw : Raw) : Except String Value :=
  match raw with
  | .bool _ => .error "must be a whole number"
  | raw => match toInt (strip raw.str) with
    | none => .error "must be a whole number"
    | some number => match s.minimum, s.maximum with
      | some minimum, some maximum =>
        if number < minimum then .error s!"must be at least {minimum}"
        else if maximum < number then .error s!"must be at most {maximum}"
        else .ok (.int number)
      | some minimum, none =>
        if number < minimum then .error s!"must be at least {minimum}" else .ok (.int number)
      | none, some maximum =>
        if maximum < number then .error s!"must be at most {maximum}" else .ok (.int number)
      | none, none => .ok (.int number)

/-- `"" if raw is None else str(raw).strip()`. -/
def Raw.stripped : Raw → Str
  | none => []
  | raw => strip raw.str

/-- The text typed, as it is kept. -/
def TextSetting.kept (s : TextSetting) (raw : Raw) : Str :=
  if s.lowercase then Unicode.lower raw.stripped else raw.stripped

def TextSetting.parse (s : TextSetting) (raw : Raw) : Except String Value :=
  let text := s.kept raw
  if s.required && text.isEmpty then .error "is required"
  else if s.maxLength.any fun n => n < text.length then
    .error s!"must be at most {s.maxLength.getD 0} characters"
  else if !text.isEmpty && s.format.any fun f => !f.accepts text then
    .error (if s.hint.isEmpty then "has an invalid format" else s.hint)
  else .ok (.text text)

def ChoiceSetting.parse (s : ChoiceSetting) (raw : Raw) : Except String Value :=
  let choice := raw.stripped
  if choice ∉ s.choices.map Prod.fst then
    .error ("must be one of: " ++ ", ".intercalate (s.choices.map Prod.snd))
  else .ok (.text choice)

def Kind.parse : Kind → Raw → Except String Value
  | int s => s.parse
  | text s => s.parse
  | choice s => s.parse

/-- A stored value made usable: a number out of range becomes the nearest valid one, what
cannot be read the default. -/
def Setting.coerce (s : Setting) (stored : Raw) : Value :=
  match s.kind.parse stored with
  | .ok value => value
  | .error _ => match s.kind with
    | .int k => match toInt (strip stored.str) with
      | some n =>
        let lo := k.minimum.getD n
        let hi := k.maximum.getD n
        .int (min (max n lo) hi)
      | none => s.default
    | _ => s.default

/-- Valid for the type and the bounds. -/
def Kind.valid : Kind → Value → Bool
  | int s, .int n => s.minimum.all (· ≤ n) && s.maximum.all (n ≤ ·)
  | text s, .text t =>
    strip t = t && (!s.lowercase || Unicode.lower t = t) && !(s.required && t.isEmpty) &&
      s.maxLength.all (t.length ≤ ·) && (t.isEmpty || s.format.all fun f => f.accepts t)
  | choice s, .text c => c ∈ s.choices.map Prod.fst
  | _, _ => false

/-! ## What is accepted is valid -/

omit [Unicode] in
theorem IntSetting.parse_eq_ok {s : IntSetting} {raw : Raw} {v : Value} (h : s.parse raw = .ok v) :
    ∃ n, v = .int n ∧ s.minimum.all (· ≤ n) = true ∧ s.maximum.all (n ≤ ·) = true := by
  unfold IntSetting.parse at h
  split at h
  · cases h
  · split at h
    · cases h
    · next n _ =>
      split at h
      · next lo hi hlo hhi =>
        split at h
        · cases h
        · split at h <;> cases h
          next hle hge => exact ⟨n, rfl, by simp [hlo]; omega, by simp [hhi]; omega⟩
      · next lo hlo hhi =>
        split at h <;> cases h
        next hle => exact ⟨n, rfl, by simp [hlo]; omega, by simp [hhi]⟩
      · next hi hlo hhi =>
        split at h <;> cases h
        next hge => exact ⟨n, rfl, by simp [hlo], by simp [hhi]; omega⟩
      · next hlo hhi =>
        cases h
        exact ⟨n, rfl, by simp [hlo], by simp [hhi]⟩

omit [Unicode] [Decimals] in
theorem strip_stripped (raw : Raw) : strip raw.stripped = raw.stripped := by
  unfold Raw.stripped
  split
  · rfl
  · exact strip_strip _

omit [Decimals] in
theorem TextSetting.parse_eq_ok {s : TextSetting} {raw : Raw} {v : Value}
    (h : s.parse raw = .ok v) :
    v = .text (s.kept raw) ∧ (s.required && (s.kept raw).isEmpty) = false ∧
      s.maxLength.all ((s.kept raw).length ≤ ·) = true ∧
      ((s.kept raw).isEmpty || s.format.all fun f => f.accepts (s.kept raw)) = true := by
  unfold TextSetting.parse at h
  generalize s.kept raw = text at h
  dsimp only at h
  split at h
  · cases h
  split at h
  · cases h
  split at h <;> cases h
  next hrequired hlength hformat =>
  refine ⟨rfl, Bool.eq_false_iff.mpr hrequired, ?_, ?_⟩
  · cases hlen : s.maxLength with
    | none => rfl
    | some n => simpa [hlen] using hlength
  · cases hfmt : s.format with
    | none => simp
    | some f =>
      cases hempty : text.isEmpty with
      | true => rfl
      | false => simpa [hfmt, hempty] using hformat

theorem valid_of_parse {k : Kind} {raw : Raw} {v : Value} (h : k.parse raw = .ok v) :
    k.valid v = true := by
  cases k with
  | int s =>
    obtain ⟨n, rfl, hlo, hhi⟩ := IntSetting.parse_eq_ok h
    rw [Kind.valid, hlo, hhi, Bool.and_self]
  | choice s =>
    simp only [Kind.parse, ChoiceSetting.parse] at h
    split at h <;> cases h
    next hmem => exact decide_eq_true (not_not.mp hmem)
  | text s =>
    obtain ⟨rfl, hrequired, hlength, hformat⟩ := TextSetting.parse_eq_ok h
    simp only [Kind.valid, Bool.and_eq_true, decide_eq_true_eq, hrequired, hlength, hformat,
      Bool.not_false, and_true]
    cases hlower : s.lowercase with
    | false => exact ⟨by simp only [TextSetting.kept, hlower]; exact strip_stripped raw, rfl⟩
    | true =>
      refine ⟨?_, by simp [TextSetting.kept, hlower, Unicode.lower_lower]⟩
      -- a text of a format has no white space to strip
      obtain ⟨f, hf⟩ := Option.isSome_iff_exists.mp (s.lowercase_format hlower)
      rw [hf, Option.all_some, Bool.or_eq_true, List.isEmpty_iff] at hformat
      rcases hformat with hempty | haccepts
      · rw [hempty]
        rfl
      · exact strip_of_plain (f.plain _ haccepts)

/-- A valid value is accepted as it is. -/
theorem parse_of_valid {k : Kind} {v : Value} (h : k.valid v = true) : k.parse v.raw = .ok v := by
  cases k with
  | int s =>
    cases v with
    | text t => cases h
    | int n =>
      rw [Kind.valid, Bool.and_eq_true] at h
      obtain ⟨hlo, hhi⟩ := h
      have hread : toInt (strip (Raw.int n).str) = some n := by
        rw [Raw.str, strip_ofInt, toInt_ofInt]
      simp only [Kind.parse, IntSetting.parse, Value.raw, hread]
      cases hmin : s.minimum <;> cases hmax : s.maximum <;>
        simp only [hmin, hmax, Option.all_some, decide_eq_true_eq] at hlo hhi ⊢
      · rw [if_neg (by omega)]
      · rw [if_neg (by omega)]
      · rw [if_neg (by omega), if_neg (by omega)]
  | choice s =>
    cases v with
    | int n => cases h
    | text c =>
      have hmem : c ∈ s.choices.map Prod.fst := of_decide_eq_true h
      obtain ⟨choice, hchoice, rfl⟩ := List.mem_map.mp hmem
      have hstrip : (Raw.text choice.1).stripped = choice.1 := s.stripped choice hchoice
      simp only [Kind.parse, ChoiceSetting.parse, Value.raw, hstrip]
      rw [if_neg (not_not.mpr hmem)]
  | text s =>
    cases v with
    | int n => cases h
    | text t =>
      simp only [Kind.valid, Bool.and_eq_true, decide_eq_true_eq, Bool.not_eq_true'] at h
      obtain ⟨⟨⟨⟨hstrip, hlower⟩, hrequired⟩, hlength⟩, hformat⟩ := h
      have hkept : s.kept (Value.text t).raw = t := by
        have hraw : (Value.text t).raw.stripped = t := hstrip
        rw [TextSetting.kept, hraw]
        cases hcase : s.lowercase with
        | false => rfl
        | true => simpa [hcase] using hlower
      have hshort : (s.maxLength.any fun n => n < t.length) = false := by
        cases hlen : s.maxLength with
        | none => rfl
        | some n => simpa [hlen] using hlength
      have hmatch : (!t.isEmpty && s.format.any fun f => !f.accepts t) = false := by
        cases hfmt : s.format with
        | none => simp
        | some f =>
          cases hempty : t.isEmpty with
          | true => rfl
          | false => simpa [hfmt, hempty] using hformat
      simp only [Kind.parse, TextSetting.parse, hkept, hrequired, hshort, hmatch,
        Bool.false_eq_true, if_false]

/-- **A valid value is read back as it was stored.** -/
theorem coerce_of_valid {s : Setting} {v : Value} (h : s.kind.valid v = true) :
    s.coerce v.raw = v := by
  rw [Setting.coerce, parse_of_valid h]

end Parsing

/-! ## The registry -/

/-- The settings, in registry order. -/
inductive Key where
  | jobRetentionDays
  | configSnapshotRetentionDays
  | auditRetentionDays
  | logRetentionDays
  | orchestratorWorkers
  | deviceParallelism
  | reachabilityCacheSeconds
  | hostKeyMode
  | dnsSuffix
  | publicHostname
  | sessionIdleMinutes
  | backupSchedule
  | backupTime
  | backupWeekday
  | backupKeep
  | httpsPort
  deriving DecidableEq

namespace Key

def all : List Key :=
  [jobRetentionDays, configSnapshotRetentionDays, auditRetentionDays, logRetentionDays,
    orchestratorWorkers, deviceParallelism, reachabilityCacheSeconds, hostKeyMode, dnsSuffix,
    publicHostname, sessionIdleMinutes, backupSchedule, backupTime, backupWeekday, backupKeep,
    httpsPort]

def name : Key → String
  | jobRetentionDays => "job_retention_days"
  | configSnapshotRetentionDays => "config_snapshot_retention_days"
  | auditRetentionDays => "audit_retention_days"
  | logRetentionDays => "log_retention_days"
  | orchestratorWorkers => "orchestrator_workers"
  | deviceParallelism => "device_parallelism"
  | reachabilityCacheSeconds => "reachability_cache_seconds"
  | hostKeyMode => "host_key_mode"
  | dnsSuffix => "dns_suffix"
  | publicHostname => "public_hostname"
  | sessionIdleMinutes => "session_idle_minutes"
  | backupSchedule => "backup_schedule"
  | backupTime => "backup_time"
  | backupWeekday => "backup_weekday"
  | backupKeep => "backup_keep"
  | httpsPort => "https_port"

/-- `SETTINGS.get(key)`. -/
def ofName (name : String) : Option Key := all.find? fun k => k.name = name

end Key

/-- `[A-Za-z0-9]`. -/
def isAlnum (c : Char) : Bool :=
  ('a' ≤ c && c ≤ 'z') || ('A' ≤ c && c ≤ 'Z') || ('0' ≤ c && c ≤ '9')

/-- `[A-Za-z0-9]([A-Za-z0-9-]{0,61}[A-Za-z0-9])?`. -/
def isLabel (s : Str) : Bool :=
  s.head?.any isAlnum && s.getLast?.any isAlnum && s.length ≤ 63 &&
    s.all fun c => isAlnum c || c = '-'

theorem isSpace_of_isAlnum {c : Char} (h : isAlnum c = true) : isSpace c = false := by
  simp only [isAlnum, Bool.or_eq_true, Bool.and_eq_true, decide_eq_true_eq, Char.le_def,
    UInt32.le_iff_toNat_le] at h
  have hn : c.toNat = c.val.toNat := rfl
  have hbounds : (48 ≤ c.val.toNat ∧ c.val.toNat ≤ 57) ∨ (65 ≤ c.val.toNat ∧ c.val.toNat ≤ 90) ∨
      (97 ≤ c.val.toNat ∧ c.val.toNat ≤ 122) := by
    rcases h with (h | h) | h
    · exact .inr (.inr h)
    · exact .inr (.inl h)
    · exact .inl h
  simp only [isSpace, Bool.or_eq_false_iff, Bool.and_eq_false_iff, decide_eq_false_iff_not,
    beq_eq_false_iff_ne]
  omega

/-- A DNS name: labels between dots. -/
def domain : Format where
  accepts s := (s.splitOn '.').all isLabel
  plain s h c hc := by
    rw [List.all_eq_true] at h
    have hjoined : ['.'].intercalate (s.splitOn '.') = s := List.intercalate_splitOn '.'
    rw [← hjoined] at hc
    rcases mem_intercalate hc with rfl | ⟨label, hlabel, hc⟩
    · decide
    · have hchars := h label hlabel
      simp only [isLabel, Bool.and_eq_true, List.all_eq_true] at hchars
      have hchar := hchars.2 c hc
      rw [Bool.or_eq_true, decide_eq_true_eq] at hchar
      rcases hchar with halnum | rfl
      · exact isSpace_of_isAlnum halnum
      · decide

/-- `([01][0-9]|2[0-3]):[0-5][0-9]`. -/
def isTime : Str → Bool
  | [a, b, ':', c, d] =>
    (((a = '0' || a = '1') && b.isDigit) || (a = '2' && ('0' ≤ b && b ≤ '3'))) &&
      ('0' ≤ c && c ≤ '5') && d.isDigit
  | _ => false

theorem isAlnum_of_digits {c : Char} {hi : Char} (hhi : hi ≤ '9') (h : '0' ≤ c ∧ c ≤ hi) :
    isAlnum c = true := by
  have hle : c ≤ '9' := Char.le_trans h.2 hhi
  simp only [isAlnum, h.1, hle, decide_true, Bool.and_self, Bool.or_true]

def time : Format where
  accepts := isTime
  plain s h x hx := by
    unfold isTime at h
    split at h
    · next a b c d =>
      simp only [Bool.and_eq_true, Bool.or_eq_true, decide_eq_true_eq] at h
      obtain ⟨⟨hhour, hc⟩, hd⟩ := h
      simp only [List.mem_cons, List.not_mem_nil, or_false] at hx
      rcases hx with rfl | rfl | rfl | rfl | rfl
      · rcases hhour with ⟨rfl | rfl, -⟩ | ⟨rfl, -⟩ <;> decide
      · rcases hhour with ⟨-, hb⟩ | ⟨-, hb⟩
        · exact isSpace_of_isDigit hb
        · exact isSpace_of_isAlnum (isAlnum_of_digits (by decide) hb)
      · decide
      · exact isSpace_of_isAlnum (isAlnum_of_digits (by decide) hc)
      · exact isSpace_of_isDigit hd
    · cases h

/-- `SETTINGS`. -/
def setting : Key → Setting
  | .jobRetentionDays =>
    { label := "Keep job records for", default := .int 30, kind := .int ⟨some 1, some 3650⟩ }
  | .configSnapshotRetentionDays =>
    { label := "Keep config snapshots for", default := .int 7, kind := .int ⟨some 1, some 3650⟩ }
  | .auditRetentionDays =>
    { label := "Keep the audit log for", default := .int 90, kind := .int ⟨some 7, some 3650⟩ }
  | .logRetentionDays =>
    { label := "Keep log files for", default := .int 60, kind := .int ⟨some 1, some 3650⟩ }
  | .orchestratorWorkers =>
    { label := "Rollouts at the same time", default := .int 4, kind := .int ⟨some 1, some 32⟩ }
  | .deviceParallelism =>
    { label := "Devices at the same time, per rollout", default := .int 10,
      kind := .int ⟨some 1, some 64⟩ }
  | .reachabilityCacheSeconds =>
    { label := "Reuse a device's up/down status for", default := .int 60,
      kind := .int ⟨some 10, some 3600⟩ }
  | .hostKeyMode =>
    { label := "Check device host keys", default := .text "off".toList,
      kind := .choice ⟨[("off".toList, "Off"), ("trust_first_use".toList, "Trust on first use")],
        by decide⟩ }
  | .dnsSuffix =>
    { label := "Device DNS suffix", default := .text [], kind := .text
        ⟨some domain, "must be a domain such as corp.local - no leading dot", some 200, false, true,
          fun _ => rfl⟩ }
  | .publicHostname =>
    { label := "Hostname", default := .text [], kind := .text
        ⟨some domain, "must be a hostname or IP address only - no https://, port or path",
          some 253, false, true, fun _ => rfl⟩ }
  | .sessionIdleMinutes =>
    { label := "Sign out after inactivity", default := .int 15, kind := .int ⟨some 5, some 480⟩ }
  | .backupSchedule =>
    { label := "Scheduled backup", default := .text "daily".toList,
      kind := .choice ⟨[("off".toList, "Off"), ("daily".toList, "Daily"),
        ("weekly".toList, "Weekly")], by decide⟩ }
  | .backupTime =>
    { label := "Time", default := .text "02:00".toList, kind := .text
        ⟨some time, "must be a time like 02:00 (24-hour)", some 5, true, false, nofun⟩ }
  | .backupWeekday =>
    { label := "Day (weekly backups)", default := .text "sun".toList,
      kind := .choice ⟨[("mon".toList, "Monday"), ("tue".toList, "Tuesday"),
        ("wed".toList, "Wednesday"), ("thu".toList, "Thursday"), ("fri".toList, "Friday"),
        ("sat".toList, "Saturday"), ("sun".toList, "Sunday")], by decide⟩ }
  | .backupKeep =>
    { label := "Scheduled backups to keep", default := .int 14, kind := .int ⟨some 1, some 365⟩ }
  | .httpsPort =>
    { label := "HTTPS port", default := .int 443, kind := .int ⟨some 1, some 65535⟩ }

/-- Every default passes its own check. -/
theorem valid_default [Unicode] (k : Key) : (setting k).kind.valid (setting k).default = true := by
  have hempty : Unicode.lower [] = [] := (Unicode.lower_eq_nil []).mpr rfl
  cases k <;> simp only [setting, Kind.valid, hempty, Bool.not_false, Bool.true_or] <;> decide

/-! ## The rules -/

inductive Op where
  | ge
  | le

/-- `SETTINGS[left] <op> SETTINGS[right]`. -/
structure Rule where
  left : Key
  op : Op
  right : Key
  message : String

/-- Its two settings are numbers. -/
def Rule.holds (r : Rule) (values : Key → Value) : Bool :=
  match values r.left, values r.right with
  | .int left, .int right => match r.op with
    | .ge => right ≤ left
    | .le => left ≤ right
  | _, _ => false

/-- `RULES`. -/
def rules : List Rule :=
  [⟨.logRetentionDays, .ge, .jobRetentionDays,
      "Log files must be kept at least as long as job records - Download Log needs the file " ++
        "while the job exists."⟩,
    ⟨.configSnapshotRetentionDays, .le, .jobRetentionDays,
      "Config snapshots can't be kept longer than their job record."⟩]

/-- A rule looks at its own two settings. -/
theorem Rule.holds_congr {r : Rule} {values values' : Key → Value}
    (hleft : values r.left = values' r.left) (hright : values r.right = values' r.right) :
    r.holds values = r.holds values' := by
  rw [Rule.holds, Rule.holds, hleft, hright]

end Settings
end NetRollout
