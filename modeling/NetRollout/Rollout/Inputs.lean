import NetRollout.Library.Dict
import NetRollout.Rollout.Address
import NetRollout.Rollout.Substitution

/-!
# A devices CSV's rows

`Validator` and `InputParser.prepare_devices` of `src/rollout/inputs.py`: the rows of a devices
CSV, the CLI's and the inventory's, made devices.

A row gives a device or an error, whatever the other rows are, and a device it gives is ready for
a rollout (`Ready`): `prepared_rows`.  The one row that stops the rest is one whose port has more
digits than `int` reads (`Overlong`).  The lines that the logger is told are left out.
-/

namespace NetRollout
namespace Inputs

open PyText (Str strip Unicode)
open Rollout (Value)
open Address

/-! ## Checks -/

/-- `SUPPORTED_PLATFORMS`: the names of `PLATFORMS`. -/
def SUPPORTED_PLATFORMS : List Str :=
  ["cisco_ios", "cisco_xe", "cisco_nxos", "cisco_xr", "arista_eos", "aruba_aoscx", "hp_procurve",
    "hp_comware", "juniper_junos", "paloalto_panos", "checkpoint_gaia", "fortinet"].map
    String.toList

/-- The digits `int` reads at most. -/
def MAX_DIGITS : Nat := 4300

/-- `int` of ASCII digits. -/
def intOf (digits : Str) : Nat := Nat.ofDigitChars 10 digits 0

/-- `validate_port`; none where `int` raises. -/
def validatePort (port : Str) : Option Bool :=
  if port ≠ [] ∧ port.all Char.isDigit = true then
    if port.length ≤ MAX_DIGITS then some (decide (1 ≤ intOf port ∧ intOf port ≤ 65535)) else none
  else some false

/-- `validate_platform`. -/
def validatePlatform (platform : Str) : Bool := SUPPORTED_PLATFORMS.contains platform

/-! ## Rows -/

/-- A row of `DictReader`; None for a cell it has not.  Surplus cells, under None, are left out. -/
abbrev Row := List (Str × Option Str)

/-- A row as `prepare_devices` reads it: its texts, stripped. -/
abbrev Item := List (Str × Str)

/-- `item.get(key, "")`. -/
def Item.text (item : Item) (key : String) : Str := (Dict.get item key.toList).getD []

/-- `CREDENTIAL_KEYS`. -/
def CREDENTIAL_KEYS : List Str := ["username", "password", "secret"].map String.toList

/-- `CORE_KEYS`. -/
def CORE_KEYS : List Str :=
  ["ip", "device_type", "port", "label"].map String.toList ++ CREDENTIAL_KEYS

/-- `{k.strip(): (v or "").strip() for k, v in raw.items() if k}`, the device type in lower
case. -/
def itemOf [Unicode] (raw : Row) : Item :=
  let item := Dict.update [] ((raw.filter fun e => !e.1.isEmpty).map fun e =>
    (strip e.1, strip (e.2.getD [])))
  Dict.put item ("device_type".toList, Unicode.lower (Item.text item "device_type"))

/-- `validate_device_data`; none where it raises. -/
def validateDeviceData (item : Item) : Option Bool :=
  if validateAddress (item.text "ip") then
    (validatePort (item.text "port")).map fun port =>
      port && validatePlatform (item.text "device_type")
  else some false

/-- The cells that are no core column's and not blank, `vrfs` split on its commas. -/
def extraOf (item : Item) : List (Str × Value) :=
  (item.filter fun e => !CORE_KEYS.contains e.1 && !e.2.isEmpty).map fun e =>
    (e.1, if e.1 = "vrfs".toList then
      Value.list (((e.2.splitOn ',').map strip).filter fun vrf => !vrf.isEmpty) else Value.text e.2)

/-- The fields of a `Device` that a row gives. -/
structure Device where
  ip : Str
  label : Str
  port : Nat
  device_type : Str
  username : Str
  password : Str
  secret : Str
  extra : List (Str × Value)

/-- Whether a name resolves, and whether an address answers on a port. -/
structure Network where
  resolves : Str → Bool
  reachable : Str → Nat → Bool

/-- Which rules `prepare_devices` goes by. -/
structure Rules where
  require_credentials : Bool
  check_reachable : Bool

/-- `f"Row {row_no} ({ip}): "`. -/
def rowNamed (row_no : Nat) (ip : Str) : Str :=
  "Row ".toList ++ PyText.ofInt row_no ++ " (".toList ++ ip ++ "): ".toList

/-- `endpoint`, of a port as it was typed. -/
def endpoint (ip port : Str) : Str :=
  if ':' ∈ ip then '[' :: ip ++ ']' :: ':' :: port else ip ++ ':' :: port

/-- The device of a checked row. -/
def deviceOf (item : Item) (ip : Str) : Device where
  ip := ip
  label := if item.text "label" = [] then ip else item.text "label"
  port := intOf (item.text "port")
  device_type := item.text "device_type"
  username := item.text "username"
  password := item.text "password"
  secret := item.text "secret"
  extra := extraOf item

/-- What the rules have against a checked row. -/
def refusal (net : Network) (rules : Rules) (row_no : Nat) (item : Item) (ip : Str) : Option Str :=
  let port := item.text "port"
  if rules.require_credentials ∧ (item.text "username" = [] ∨ item.text "password" = []) then
    some (rowNamed row_no ip ++ "username and password are required".toList)
  else if rules.check_reachable ∧ !net.resolves ip then
    some (endpoint ip port ++ ": can't resolve ".toList ++ ip)
  else if rules.check_reachable ∧ !net.reachable ip (intOf port) then
    some (endpoint ip port ++ " is not reachable".toList)
  else none

/-- A checked row's device, or what the rules have against it. -/
def settled (net : Network) (rules : Rules) (row_no : Nat) (item : Item) (ip : Str) :
    Except Str Device :=
  match refusal net rules row_no item ip with
  | some error => .error error
  | none => .ok (deviceOf item ip)

variable [Unicode]

/-- One turn of `prepare_devices`: the row's device or its error; none where it raises. -/
def prepareRow (net : Network) (rules : Rules) (row_no : Nat) (raw : Row) :
    Option (Except Str Device) :=
  let item := itemOf raw
  let ip := item.text "ip"
  if ip = [] ∨ item.text "port" = [] then
    some (.error ("Row ".toList ++ PyText.ofInt row_no ++ ": ip and port are required".toList))
  else do
    if ← validateDeviceData item then
      let ip ← normalizeAddress ip
      some (settled net rules row_no item ip)
    else some (.error (rowNamed row_no ip ++ "invalid ip, port or device type".toList))

/-- `prepare_devices` from a row's number on. -/
def prepareFrom (net : Network) (rules : Rules) :
    Nat → List Row → Option (List Device × List Str)
  | _, [] => some ([], [])
  | row_no, raw :: rows => do
    let outcome ← prepareRow net rules row_no raw
    let (devices, errors) ← prepareFrom net rules (row_no + 1) rows
    match outcome with
    | .ok device => some (device :: devices, errors)
    | .error error => some (devices, error :: errors)

/-- `prepare_devices`: the devices and the errors. -/
def prepareDevices (net : Network) (rules : Rules) (rows : List Row) :
    Option (List Device × List Str) := prepareFrom net rules 1 rows

/-! ## What a row is read as -/

theorem strip_itemOf {raw : Row} {e : Str × Str} (h : e ∈ itemOf raw)
    (hkey : e.1 ≠ "device_type".toList) : strip e.2 = e.2 := by
  rw [itemOf] at h
  rcases Dict.mem_put h with rfl | h
  · exact absurd rfl hkey
  · refine Dict.forall_mem_update (P := fun e : Str × Str => strip e.2 = e.2)
      (fun _ he => absurd he List.not_mem_nil) (fun item hitem => ?_) e h
    obtain ⟨cell, -, rfl⟩ := List.mem_map.mp hitem
    exact PyText.strip_strip _

/-- A cell is stripped. -/
theorem strip_text {raw : Row} {key : String} (hkey : key.toList ≠ "device_type".toList) :
    strip ((itemOf raw).text key) = (itemOf raw).text key := by
  rw [Item.text]
  cases h : Dict.get (itemOf raw) key.toList with
  | none => rfl
  | some value => exact strip_itemOf (e := (key.toList, value)) (Dict.mem_of_get h) hkey

omit [Unicode] in
theorem normalizeAddress_isSome {a : Str} (hstrip : strip a = a) (h : validateAddress a = true) :
    ∃ ip, normalizeAddress a = some ip := by
  rw [normalizeAddress, hstrip]
  rw [validateAddress, isIp, Bool.or_eq_true] at h
  cases hip : ipAddress a with
  | some ip => exact ⟨ip.str, rfl⟩
  | none =>
    rw [hip] at h
    have hname : isHostname a = true := h.resolve_left (by simp)
    exact ⟨lower a, if_pos hname⟩

/-- A row with an address, and a port of more digits than `int` reads. -/
def Overlong (raw : Row) : Prop :=
  validateAddress ((itemOf raw).text "ip") = true ∧
    ((itemOf raw).text "port").all Char.isDigit = true ∧
    MAX_DIGITS < ((itemOf raw).text "port").length

/-- A device that a rollout can go to, by the rules it was read by. -/
structure Ready (net : Network) (rules : Rules) (d : Device) : Prop where
  address : ∃ a, validateAddress a = true ∧ normalizeAddress a = some d.ip
  port : 1 ≤ d.port ∧ d.port ≤ 65535
  platform : d.device_type ∈ SUPPORTED_PLATFORMS
  label : d.label ≠ []
  credentials : rules.require_credentials = true → d.username ≠ [] ∧ d.password ≠ []
  answers : rules.check_reachable = true →
    net.resolves d.ip = true ∧ net.reachable d.ip d.port = true
  extra : ∀ e ∈ d.extra, e.1 ∉ CORE_KEYS ∧ e.2 ≠ .text []

/-- What a row's error says: it names the row, or the endpoint that does not answer. -/
def Explains (rules : Rules) (row_no : Nat) (error : Str) : Prop :=
  ("Row ".toList ++ PyText.ofInt row_no) <+: error ∨
    rules.check_reachable = true ∧ ∃ ip port, endpoint ip port <+: error

omit [Unicode] in
theorem validatePort_eq_none {port : Str} (hport : port ≠ []) :
    validatePort port = none ↔ port.all Char.isDigit = true ∧ MAX_DIGITS < port.length := by
  rw [validatePort]
  split
  · next h =>
    split
    · next hle => exact iff_of_false (by simp) fun hover => by omega
    · next hle => exact iff_of_true rfl ⟨h.2, by omega⟩
  · next h => exact iff_of_false (by simp) fun hover => h ⟨hport, hover.1⟩

omit [Unicode] in
theorem intOf_of_validatePort {port : Str} (h : validatePort port = some true) :
    1 ≤ intOf port ∧ intOf port ≤ 65535 := by
  rw [validatePort] at h
  split at h
  · split at h
    · rw [Option.some.injEq, decide_eq_true_eq] at h
      exact h
    · cases h
  · cases h

omit [Unicode] in
/-- The standard spelling of an address is some text. -/
theorem normalizeAddress_ne_nil {a s : Str} (h : normalizeAddress a = some s) : s ≠ [] := by
  rintro rfl
  rw [normalizeAddress] at h
  split at h
  · next ip hip =>
    have hread := ipAddress_str ip
    have hnone : ipAddress [] = none := by decide
    rw [Option.some.inj h, hnone] at hread
    cases hread
  · split at h
    · next hname =>
      have hnil : strip a = [] := by
        cases hs : strip a with
        | nil => rfl
        | cons c rest =>
          rw [hs, Option.some.injEq, lower, List.flatMap_cons, List.append_eq_nil_iff] at h
          have hne : lowerChar c ≠ [] := by
            rw [lowerChar]
            split
            · simp
            · split <;> simp
          exact absurd h.1 hne
      rw [hnil] at hname
      exact absurd hname (by decide)
    · cases h

omit [Unicode] in
theorem extraOf_ok (item : Item) : ∀ e ∈ extraOf item, e.1 ∉ CORE_KEYS ∧ e.2 ≠ .text [] := by
  intro e he
  rw [extraOf] at he
  obtain ⟨cell, hcell, rfl⟩ := List.mem_map.mp he
  rw [List.mem_filter, Bool.and_eq_true, Bool.not_eq_true', Bool.not_eq_true',
    List.isEmpty_eq_false_iff] at hcell
  obtain ⟨-, hcore, hblank⟩ := hcell
  refine ⟨fun hmem => ?_, ?_⟩
  · rw [List.contains_iff_mem.mpr hmem] at hcore
    cases hcore
  · show (if cell.1 = "vrfs".toList then Value.list _ else Value.text cell.2) ≠ _
    split
    · exact Value.noConfusion
    · intro heq
      exact hblank (Value.text.inj heq)

/-! ## One row -/

omit [Unicode] in
theorem refusal_explains {net : Network} {rules : Rules} {row_no : Nat} {item : Item}
    {ip error : Str} (h : refusal net rules row_no item ip = some error) :
    Explains rules row_no error := by
  have hrow : ∀ rest, "Row ".toList ++ PyText.ofInt row_no <+: rowNamed row_no ip ++ rest := by
    intro rest
    rw [rowNamed, List.append_assoc, List.append_assoc, List.append_assoc]
    exact List.prefix_append _ _
  rw [refusal] at h
  split at h
  · cases h
    exact Or.inl (hrow _)
  · split at h
    · next hno =>
      cases h
      refine Or.inr ⟨hno.1, ip, item.text "port", ?_⟩
      rw [List.append_assoc]
      exact List.prefix_append _ _
    · split at h
      · next hno =>
        cases h
        exact Or.inr ⟨hno.1, ip, item.text "port", List.prefix_append _ _⟩
      · cases h

omit [Unicode] in
theorem ready_of_refusal {net : Network} {rules : Rules} {row_no : Nat} {item : Item} {ip : Str}
    (haddress : validateAddress (item.text "ip") = true)
    (hip : normalizeAddress (item.text "ip") = some ip)
    (hport : validatePort (item.text "port") = some true)
    (hplatform : validatePlatform (item.text "device_type") = true)
    (h : refusal net rules row_no item ip = none) :
    Ready net rules (deviceOf item ip) := by
  rw [refusal] at h
  split at h
  · cases h
  · next hcredentials =>
    split at h
    · cases h
    · next hresolves =>
      split at h
      · cases h
      · next hreachable =>
        constructor
        · exact ⟨_, haddress, hip⟩
        · exact intOf_of_validatePort hport
        · exact List.contains_iff_mem.mp hplatform
        · show (if item.text "label" = [] then ip else item.text "label") ≠ []
          split
          · exact normalizeAddress_ne_nil hip
          · next hlabel => exact hlabel
        · intro hrequire
          have hboth := not_and.mp hcredentials hrequire
          rw [not_or] at hboth
          exact hboth
        · intro hcheck
          have hname := not_and.mp hresolves hcheck
          have hanswer := not_and.mp hreachable hcheck
          rw [Bool.not_eq_true', Bool.not_eq_false] at hname hanswer
          exact ⟨hname, hanswer⟩
        · exact extraOf_ok item

/-- What a row's outcome is worth: its device is ready, its error explains. -/
def Sound (net : Network) (rules : Rules) (row_no : Nat) : Except Str Device → Prop
  | .ok d => Ready net rules d
  | .error error => Explains rules row_no error

omit [Unicode] in
theorem sound_settled {net : Network} {rules : Rules} {row_no : Nat} {item : Item} {ip : Str}
    (haddress : validateAddress (item.text "ip") = true)
    (hip : normalizeAddress (item.text "ip") = some ip)
    (hport : validatePort (item.text "port") = some true)
    (hplatform : validatePlatform (item.text "device_type") = true) :
    Sound net rules row_no (settled net rules row_no item ip) := by
  rw [settled]
  split
  · next error hrefusal => exact refusal_explains hrefusal
  · next hrefusal => exact ready_of_refusal haddress hip hport hplatform hrefusal

/-- **A row gives a device that is ready or an error that explains, or its port is overlong.** -/
theorem prepareRow_cases (net : Network) (rules : Rules) (row_no : Nat) (raw : Row) :
    (Overlong raw ∧ prepareRow net rules row_no raw = none) ∨
    (¬Overlong raw ∧ ∃ outcome, prepareRow net rules row_no raw = some outcome ∧
      Sound net rules row_no outcome) := by
  have hrow : ∀ rest, Sound net rules row_no
      (.error (rowNamed row_no ((itemOf raw).text "ip") ++ rest)) := by
    intro rest
    rw [rowNamed, List.append_assoc, List.append_assoc, List.append_assoc]
    exact Or.inl (List.prefix_append _ _)
  by_cases hblank : (itemOf raw).text "ip" = [] ∨ (itemOf raw).text "port" = []
  · refine Or.inr ⟨fun hover => ?_, _, if_pos hblank, Or.inl (List.prefix_append _ _)⟩
    rcases hblank with hip | hport
    · have haddress := hover.1
      rw [hip] at haddress
      exact absurd haddress (by decide)
    · have hlength := hover.2.2
      rw [hport] at hlength
      exact absurd hlength (Nat.not_lt_zero _)
  · have hchecked : prepareRow net rules row_no raw =
        (validateDeviceData (itemOf raw)).bind fun ok =>
          if ok then (normalizeAddress ((itemOf raw).text "ip")).map
            (settled net rules row_no (itemOf raw))
          else some (.error (rowNamed row_no ((itemOf raw).text "ip") ++
            "invalid ip, port or device type".toList)) := by
      rw [prepareRow]
      simp only [if_neg hblank]
      congr 1
      funext ok
      cases ok with
      | false => rfl
      | true =>
        simp only [if_true]
        cases normalizeAddress ((itemOf raw).text "ip") <;> rfl
    rw [not_or] at hblank
    rw [hchecked, validateDeviceData]
    cases haddress : validateAddress ((itemOf raw).text "ip") with
    | false =>
      refine Or.inr ⟨fun hover => ?_, _, rfl, hrow _⟩
      exact absurd (haddress.symm.trans hover.1) Bool.false_ne_true
    | true =>
      cases hport : validatePort ((itemOf raw).text "port") with
      | none => exact Or.inl ⟨⟨haddress, (validatePort_eq_none hblank.2).mp hport⟩, rfl⟩
      | some ok =>
        have hover : ¬Overlong raw := by
          rintro ⟨-, hlong⟩
          rw [(validatePort_eq_none hblank.2).mpr hlong] at hport
          cases hport
        refine Or.inr ⟨hover, ?_⟩
        rw [if_pos rfl, Option.map_some, Option.bind_some]
        split
        · next hok =>
          rw [Bool.and_eq_true] at hok
          obtain ⟨ip, hip⟩ := normalizeAddress_isSome (strip_text (by decide)) haddress
          refine ⟨_, by rw [hip, Option.map_some], ?_⟩
          exact sound_settled haddress hip (hok.1 ▸ hport) hok.2
        · exact ⟨_, rfl, hrow _⟩

/-! ## All rows -/

/-- The devices of outcomes, and the errors. -/
def devicesOf (outcomes : List (Except Str Device)) : List Device :=
  outcomes.filterMap Except.toOption

def errorsOf (outcomes : List (Except Str Device)) : List Str :=
  outcomes.filterMap fun
    | .ok _ => none
    | .error error => some error

theorem prepareFrom_cases (net : Network) (rules : Rules) (rows : List Row) (row_no : Nat) :
    (prepareFrom net rules row_no rows = none ∧ ∃ raw ∈ rows, Overlong raw) ∨
    ((∀ raw ∈ rows, ¬Overlong raw) ∧ ∃ outcomes : List (Except Str Device),
      prepareFrom net rules row_no rows = some (devicesOf outcomes, errorsOf outcomes) ∧
      List.Forall₂ (fun row outcome => prepareRow net rules row.2 row.1 = some outcome ∧
        Sound net rules row.2 outcome) (rows.zipIdx row_no) outcomes) := by
  induction rows generalizing row_no with
  | nil => exact Or.inr ⟨fun _ h => absurd h List.not_mem_nil, [], rfl, List.Forall₂.nil⟩
  | cons raw rows ih =>
    rcases prepareRow_cases net rules row_no raw with
      ⟨hover, hnone⟩ | ⟨hover, outcome, hrow, hsound⟩
    · refine Or.inl ⟨?_, raw, List.mem_cons_self, hover⟩
      rw [prepareFrom, hnone]
      rfl
    · rcases ih (row_no + 1) with ⟨hnone, bad, hbad, hlong⟩ | ⟨hall, outcomes, hrest, hrows⟩
      · refine Or.inl ⟨?_, bad, List.mem_cons_of_mem _ hbad, hlong⟩
        rw [prepareFrom, hrow, hnone]
        rfl
      · refine Or.inr ⟨List.forall_mem_cons.mpr ⟨hover, hall⟩, outcome :: outcomes, ?_, ?_⟩
        · rw [prepareFrom, hrow, hrest]
          cases outcome with
          | ok d => rfl
          | error e => rfl
        · rw [List.zipIdx_cons]
          exact List.Forall₂.cons ⟨hrow, hsound⟩ hrows

omit [Unicode] in
theorem length_devicesOf (outcomes : List (Except Str Device)) :
    (devicesOf outcomes).length + (errorsOf outcomes).length = outcomes.length := by
  induction outcomes with
  | nil => rfl
  | cons outcome outcomes ih =>
    cases outcome with
    | ok d =>
      show (d :: devicesOf outcomes).length + (errorsOf outcomes).length = _
      rw [List.length_cons, List.length_cons]
      omega
    | error e =>
      show (devicesOf outcomes).length + (e :: errorsOf outcomes).length = _
      rw [List.length_cons, List.length_cons]
      omega

end Inputs
end NetRollout
