import Mathlib.Data.Char
import Mathlib.Data.List.Lex
import Mathlib.Data.List.Sort
import NetRollout.Library.Effects
import NetRollout.Rollout.Substitution

/-!
# The inventory's tables

The tables that hang off a device (`src/db/tables.py`), and what `InventoryView` of
`src/inventory.py` does to them: `link_profile`, `set_custom_values`, `bind_mappings`,
`drop_other_users` and `save_device`.

A method raises `RuleRefused` or goes on; what it had changed when it raises stays in the state
it leaves.  A row's id is a number.  The addresses a name resolves to, and the warning that
other devices are at the same address, are left out: no rule depends on them.
-/

namespace NetRollout
namespace Inventory

open PyText (Str)
open Rollout (Value Place mapping_resolvable)

/-! ## Rows -/

/-- A signed-in user, and whether they are an admin. -/
structure Viewer where
  id : Nat
  is_admin : Bool

abbrev Values := AList fun _ : Str => Value

/-- A row of `inventory`. -/
structure Device where
  id : Nat
  label : Str
  ip : Str
  port : Nat
  device_type : Str
  var_maps : Values
  is_global : Bool
  user_id : Option Nat

/-- A row of `security_profiles`: whose it is. -/
structure SecurityProfile where
  id : Nat
  user_id : Nat
  deriving DecidableEq

/-- A row of `device_credentials`: a user's profile for a device. -/
structure DeviceCredential where
  device_id : Nat
  user_id : Nat
  profile_id : Nat
  deriving DecidableEq

/-- A row of `device_attributes`: a user's value of a custom property on a device. -/
structure DeviceAttribute where
  device_id : Nat
  user_id : Nat
  name : Str
  value : Value
  deriving DecidableEq

/-- A row of `variable_mappings`. -/
structure VariableMapping where
  id : Nat
  token : Str
  property_name : Str
  index : Option Int
  user_id : Nat
  deriving DecidableEq

/-- A row of `var_mapping_to_devices`. -/
structure Binding where
  mapping_id : Nat
  device_id : Nat
  deriving DecidableEq

structure Tables where
  users : List Nat := []
  devices : List Device := []
  profiles : List SecurityProfile := []
  credentials : List DeviceCredential := []
  attributes : List DeviceAttribute := []
  mappings : List VariableMapping := []
  bindings : List Binding := []

/-- `RuleRefused("Security profile not found.")`. -/
inductive RuleRefused where
  | profileNotFound
  deriving DecidableEq

/-- A method in the caller's session. -/
abbrev Session := EStateM RuleRefused Tables

/-! ## Values -/

/-- `SYSTEM_NAMES`. -/
def SYSTEM_NAMES : List Str :=
  ["hostname", "loopback_ip", "asn", "mgmt_vrf", "mgmt_interface", "site", "domain", "timezone",
    "vrfs"].map String.toList

/-- `system_values`. -/
def system_values (device : Device) : Values :=
  device.var_maps.entries.foldr
    (fun e values => if e.1 ∈ SYSTEM_NAMES then values.insert e.1 e.2 else values) ∅

/-- A value that is neither missing nor empty. -/
def given : Option Value → Option Value
  | some value => if value.isEmpty then none else some value
  | none => none

/-- `set_system_values`. -/
def set_system_values (device : Device) (values : AList fun _ : Str => Option Value) : Device :=
  { device with
    var_maps := values.entries.foldl
      (fun var_maps e =>
        if e.1 ∈ SYSTEM_NAMES then
          match given e.2 with
          | some value => var_maps.insert e.1 value
          | none => var_maps.erase e.1
        else var_maps)
      (system_values device) }

/-! ## Which devices -/

/-- `visible_devices_clause`. -/
def Viewer.sees (v : Viewer) (d : Device) : Bool :=
  d.is_global || d.user_id == some v.id

/-- `can_edit`. -/
def Viewer.can_edit (v : Viewer) (d : Device) : Bool :=
  d.user_id == some v.id || (d.is_global && v.is_admin)

namespace Tables

variable (s : Tables)

def get_visible (v : Viewer) (id : Nat) : Option Device :=
  s.devices.find? fun d => d.id == id && v.sees d

def get_editable (v : Viewer) (id : Nat) : Option Device :=
  s.devices.find? fun d => d.id == id && v.can_edit d

/-- One device's row is changed. -/
def change (id : Nat) (f : Device → Device) : Tables :=
  { s with devices := s.devices.map fun d => if d.id = id then f d else d }

/-! ## Links -/

/-- `SecurityProfiles.owned`: whether it is the viewer's. -/
def owned (v : Viewer) (profile_id : Nat) : Bool :=
  s.profiles.any fun p => p.id == profile_id && p.user_id == v.id

def profile_allowed (v : Viewer) (profile_id : Option Nat) : Bool :=
  profile_id.all (s.owned v)

/-- The viewer's link to a device. -/
def isLink (v : Viewer) (device_id : Nat) (c : DeviceCredential) : Bool :=
  c.device_id == device_id && c.user_id == v.id

/-- The viewer's link to a device becomes one to a profile. -/
def link (v : Viewer) (device_id : Nat) : Option Nat → Tables
  | none => { s with credentials := s.credentials.filter fun c => !isLink v device_id c }
  | some profile_id =>
    if s.credentials.any (isLink v device_id) then
      { s with
        credentials := s.credentials.map fun c =>
          if isLink v device_id c then { c with profile_id } else c }
    else { s with credentials := s.credentials ++ [⟨device_id, v.id, profile_id⟩] }

/-! ## Attribute values -/

/-- The viewer's value of a custom property on a device. -/
def isValue (v : Viewer) (device_id : Nat) (name : Str) (a : DeviceAttribute) : Bool :=
  a.device_id == device_id && a.user_id == v.id && a.name == name

/-- One turn of `set_custom_values`. -/
def setValue (v : Viewer) (device_id : Nat) (name : Str) (value : Option Value) : Tables :=
  match given value with
  | none => { s with attributes := s.attributes.filter fun a => !isValue v device_id name a }
  | some value =>
    if s.attributes.any (isValue v device_id name) then
      { s with
        attributes := s.attributes.map fun a =>
          if isValue v device_id name a then { a with value } else a }
    else { s with attributes := s.attributes ++ [⟨device_id, v.id, name, value⟩] }

/-- The viewer's custom values as asked; a name that is not the viewer's own is ignored. -/
def valued (v : Viewer) (device_id : Nat) (values : AList fun _ : Str => Option Value)
    (own : List Str) : Tables :=
  values.entries.foldl
    (fun s e => if e.1 ∈ own then s.setValue v device_id e.1 e.2 else s) s

/-- `attributes` of one device. -/
def attributesOf (v : Viewer) (device : Device) : Values :=
  (s.attributes.filter fun a => a.device_id == device.id && a.user_id == v.id).foldl
    (fun values a => values.insert a.name a.value) (system_values device)

/-! ## Bindings -/

/-- A binding to a mapping of this user. -/
def isOf (user_id : Nat) (b : Binding) : Bool :=
  s.mappings.any fun m => m.id == b.mapping_id && m.user_id == user_id

/-- The viewer's mappings among these, and whether each resolves on the device. -/
def selected (v : Viewer) (device_id : Nat) (mapping_ids : List Nat) :
    List (VariableMapping × Bool) :=
  (s.mappings.filter fun m => decide (m.id ∈ mapping_ids) && m.user_id == v.id).map fun m =>
    (m, (s.devices.find? fun d => d.id == device_id).any fun d =>
      mapping_resolvable (s.attributesOf v d) ⟨m.property_name, m.index⟩)

/-- The device's bindings when the viewer's become those that resolve. -/
def bound (v : Viewer) (device_id : Nat) (mapping_ids : List Nat) : Tables :=
  { s with
    bindings := (s.bindings.filter fun b => !(b.device_id == device_id && s.isOf v.id b)) ++
      ((s.selected v device_id mapping_ids).filter Prod.snd).map fun m => ⟨m.1.id, device_id⟩ }

/-- The tokens of those that do not, sorted. -/
def unbound (v : Viewer) (device_id : Nat) (mapping_ids : List Nat) : List Str :=
  (((s.selected v device_id mapping_ids).filter fun m => !m.2).map fun m =>
    m.1.token).insertionSort fun a b => a ≤ b

/-! ## Others' rows -/

/-- A binding on the device that is none of the owner's. -/
def isOthers (device_id : Nat) (owner : Option Nat) (b : Binding) : Bool :=
  b.device_id == device_id &&
    s.mappings.any fun m => m.id == b.mapping_id && some m.user_id != owner

/-- Only the owner's rows are left on the device. -/
def ownersOnly (device_id : Nat) (owner : Option Nat) : Tables :=
  { s with
    bindings := s.bindings.filter fun b => !s.isOthers device_id owner b
    attributes := s.attributes.filter fun a =>
      !(a.device_id == device_id && some a.user_id != owner)
    credentials := s.credentials.filter fun c =>
      !(c.device_id == device_id && some c.user_id != owner) }

end Tables

/-! ## Methods -/

/-- `link_profile`. -/
def link_profile (v : Viewer) (device_id : Nat) (profile_id : Option Nat) : Session Unit := do
  let s ← get
  if s.profile_allowed v profile_id then set (s.link v device_id profile_id)
  else throw .profileNotFound

/-- `set_custom_values`. -/
def set_custom_values (v : Viewer) (device_id : Nat) (values : AList fun _ : Str => Option Value)
    (own : List Str) : Session Unit :=
  modify fun s => s.valued v device_id values own

/-- `bind_mappings`. -/
def bind_mappings (v : Viewer) (device_id : Nat) (mapping_ids : List Nat) :
    Session (List Str) := do
  let s ← get
  set (s.bound v device_id mapping_ids)
  return s.unbound v device_id mapping_ids

/-- `RemovedFromOthers`. -/
structure RemovedFromOthers where
  users : Nat
  profile_links : Nat
  attribute_values : Nat
  mapping_bindings : Nat
  deriving DecidableEq

/-- `drop_other_users`. -/
def drop_other_users (device_id : Nat) : Session RemovedFromOthers := do
  let s ← get
  let owner := (s.devices.find? fun d => d.id == device_id).bind (·.user_id)
  let bindings := s.bindings.filter (s.isOthers device_id owner)
  let values := s.attributes.filter fun a => a.device_id == device_id && some a.user_id != owner
  let links := s.credentials.filter fun c => c.device_id == device_id && some c.user_id != owner
  let users := (s.mappings.filter fun m => bindings.any fun b => b.mapping_id == m.id).map
      (·.user_id) ++ values.map (·.user_id) ++ links.map (·.user_id)
  set (s.ownersOnly device_id owner)
  return {
    users := users.dedup.length
    profile_links := links.length
    attribute_values := values.length
    mapping_bindings := bindings.length }

/-- `DeviceFields`. -/
structure DeviceFields where
  ip : Str
  port : Nat
  device_type : Str
  label : Str
  profile_id : Option Nat
  make_global : Bool

/-- `SavedDevice`. -/
structure SavedDevice where
  label : Str
  is_global : Bool
  was_global : Bool
  unbound : List Str
  removed : Option RemovedFromOthers
  deriving DecidableEq

/-- The device's row with the fields saved, a new one added under `id`. -/
def Tables.saveRow (s : Tables) (v : Viewer) (device : Option Device) (id : Nat)
    (fields : DeviceFields) (is_global : Bool) : Tables :=
  match device with
  | none =>
    { s with
      devices := s.devices ++
        [{ id, label := fields.label, ip := fields.ip, port := fields.port
           device_type := fields.device_type, var_maps := ∅, is_global
           user_id := some v.id }] }
  | some _ =>
    s.change id fun d =>
      { d with
        label := fields.label
        ip := fields.ip
        port := fields.port
        device_type := fields.device_type
        is_global }

/-- `save_device`.  `id` is the device's; a new one's row is added under it. -/
def save_device (v : Viewer) (device : Option Device) (id : Nat) (fields : DeviceFields)
    (values : Option (AList fun _ : Str => Option Value)) (own : List Str)
    (mapping_ids : Option (List Nat)) : Session SavedDevice := do
  let was_global := device.any (·.is_global)
  let is_global := if v.is_admin then fields.make_global else was_global
  let s ← get
  if s.profile_allowed v fields.profile_id then
    set (s.saveRow v device id fields is_global)
    link_profile v id fields.profile_id
    match values with
    | none => pure ()
    | some values =>
      modify fun s => s.change id (set_system_values · values)
      set_custom_values v id values own
    let unbound ← match mapping_ids with
      | none => pure []
      | some mapping_ids => bind_mappings v id mapping_ids
    if was_global && !is_global then
      modify fun s => s.change id fun d => { d with user_id := some v.id }
      let removed ← drop_other_users id
      return ⟨fields.label, is_global, was_global, unbound, some removed⟩
    else return ⟨fields.label, is_global, was_global, unbound, none⟩
  else throw .profileNotFound

end Inventory
end NetRollout
