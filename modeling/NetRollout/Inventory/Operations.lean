import NetRollout.Inventory.Tables
import NetRollout.Library.Transition

/-!
# What users do to the inventory

The routes that write a device's rows, each by a signed-in user: the pages of
`src/webapp/blueprints/inventory.py`, `mappings.py` and `security.py`, the CSV import, the links
of a rollback (`rollout.py`), and the end of an account (`delete_user`).

Each is one operation.  What it raises leaves what it had changed: nothing is rolled back here.
The database deletes what hangs off a row with it, and clears the creator of a global device.
-/

namespace NetRollout
namespace Inventory

open PyText (Str)
open Rollout (Value mapping_resolvable)

namespace Tables

variable (s : Tables)

/-- `delete`, of a device. -/
def deleteDevice (id : Nat) : Tables :=
  { s with
    devices := s.devices.filter fun d => d.id != id
    credentials := s.credentials.filter fun c => c.device_id != id
    attributes := s.attributes.filter fun a => a.device_id != id
    bindings := s.bindings.filter fun b => b.device_id != id }

/-- `delete`, of a security profile. -/
def deleteProfile (id : Nat) : Tables :=
  { s with
    profiles := s.profiles.filter fun p => p.id != id
    credentials := s.credentials.filter fun c => c.profile_id != id }

/-- `delete`, of a variable mapping. -/
def deleteMapping (id : Nat) : Tables :=
  { s with
    mappings := s.mappings.filter fun m => m.id != id
    bindings := s.bindings.filter fun b => b.mapping_id != id }

/-- `delete_property_values`. -/
def deleteValues (v : Viewer) (name : Str) : Tables :=
  { s with attributes := s.attributes.filter fun a => !(a.user_id == v.id && a.name == name) }

/-- A user's private device. -/
def isPrivateOf (user_id : Nat) (d : Device) : Bool :=
  !d.is_global && d.user_id == some user_id

/-- `delete_user`: the private devices, then the account with what is only theirs. -/
def deleteUser (id : Nat) : Tables :=
  let s := (s.devices.filter (isPrivateOf id)).foldl (fun s d => s.deleteDevice d.id) s
  { users := s.users.filter (· != id)
    devices := s.devices.map fun d => if d.user_id = some id then { d with user_id := none } else d
    profiles := s.profiles.filter fun p => p.user_id != id
    credentials := s.credentials.filter fun c => c.user_id != id
    attributes := s.attributes.filter fun a => a.user_id != id
    mappings := s.mappings.filter fun m => m.user_id != id
    bindings := s.bindings.filter fun b => !s.isOf id b }

end Tables

inductive Operation where
  | addUser (id : Nat)
  | deleteUser (id : Nat)
  | createProfile (v : Viewer) (id : Nat)
  | deleteProfile (v : Viewer) (id : Nat)
  | createMapping (v : Viewer) (id : Nat) (token property_name : Str) (index : Option Int)
  | editMapping (v : Viewer) (id : Nat) (token property_name : Str) (index : Option Int)
  | deleteMapping (v : Viewer) (id : Nat)
  | deleteProperty (v : Viewer) (name : Str)
  /-- `save_device` of a new device. -/
  | add (v : Viewer) (id : Nat) (fields : DeviceFields)
      (values : Option (AList fun _ : Str => Option Value)) (own : List Str)
      (mapping_ids : Option (List Nat))
  /-- `save_device` of one the viewer may edit. -/
  | edit (v : Viewer) (id : Nat) (fields : DeviceFields)
      (values : Option (AList fun _ : Str => Option Value)) (own : List Str)
      (mapping_ids : Option (List Nat))
  /-- `link_profile` on a visible device. -/
  | link (v : Viewer) (id : Nat) (profile_id : Option Nat)
  /-- `set_custom_values` on a visible device. -/
  | setValues (v : Viewer) (id : Nat) (values : AList fun _ : Str => Option Value) (own : List Str)
  /-- `bind_mappings` on a visible device. -/
  | bind (v : Viewer) (id : Nat) (mapping_ids : List Nat)
  /-- `inventory_attributes`. -/
  | attributes (v : Viewer) (id : Nat) (profile_id : Option (Option Nat))
      (values : AList fun _ : Str => Option Value) (own : List Str) (mapping_ids : List Nat)
  /-- `inventory_bulk_assign`. -/
  | bulkAssign (v : Viewer) (profile_id : Option Nat) (ids : List Nat)
  /-- `mappings_bulk_assign`. -/
  | assignMapping (v : Viewer) (mapping_id : Nat) (ids remove_ids : List Nat)
  /-- A rollback's links: the job's owner, and the devices it goes to. -/
  | rollback (v owner : Viewer) (profile_id : Nat) (ids : List Nat)
  /-- `inventory_delete`. -/
  | delete (v : Viewer) (id : Nat)
  /-- One row of a CSV, with the profile its credentials come to. -/
  | importRow (v : Viewer) (id : Nat) (fields : DeviceFields)
      (values : AList fun _ : Str => Option Value) (own : List Str) (profile_id : Option Nat)

/-- One turn of `mappings_bulk_assign`. -/
def assign (v : Viewer) (m : VariableMapping) (assigned : List Nat) (s : Tables) (id : Nat) :
    Tables :=
  match s.get_visible v id with
  | none => s
  | some d =>
    if mapping_resolvable (s.attributesOf v d) ⟨m.property_name, m.index⟩ && !assigned.contains id
    then { s with bindings := s.bindings ++ [⟨m.id, id⟩] }
    else s

/-- One turn of a rollback's loop: the viewer has no link to the device, which the owner sees. -/
def rollbackLink (v owner : Viewer) (profile_id id : Nat) : Session Unit := do
  let s ← get
  match s.get_visible owner id with
  | none => pure ()
  | some d =>
    if !s.credentials.any (Tables.isLink v id) && (d.is_global || d.user_id == some v.id) then
      link_profile v id (some profile_id)

def perform : Operation → Session Unit
  | .addUser id => modify fun s => { s with users := s.users ++ [id] }
  | .deleteUser id => modify (·.deleteUser id)
  | .createProfile v id => modify fun s => { s with profiles := s.profiles ++ [⟨id, v.id⟩] }
  | .deleteProfile v id => modify fun s => if s.owned v id then s.deleteProfile id else s
  | .createMapping v id token property_name index =>
    modify fun s => { s with mappings := s.mappings ++ [⟨id, token, property_name, index, v.id⟩] }
  | .editMapping v id token property_name index =>
    modify fun s =>
      { s with
        mappings := s.mappings.map fun m =>
          if m.id = id ∧ m.user_id = v.id then { m with token, property_name, index } else m }
  | .deleteMapping v id =>
    modify fun s =>
      if s.mappings.any fun m => m.id == id && m.user_id == v.id then s.deleteMapping id else s
  | .deleteProperty v name => modify (·.deleteValues v name)
  | .add v id fields values own mapping_ids => do
    let _ ← save_device v none id fields values own mapping_ids
  | .edit v id fields values own mapping_ids => do
    match (← get).get_editable v id with
    | none => pure ()
    | some d =>
      let _ ← save_device v (some d) id fields values own mapping_ids
  | .link v id profile_id => do
    match (← get).get_visible v id with
    | none => pure ()
    | some _ => link_profile v id profile_id
  | .setValues v id values own => do
    match (← get).get_visible v id with
    | none => pure ()
    | some _ => set_custom_values v id values own
  | .bind v id mapping_ids => do
    match (← get).get_visible v id with
    | none => pure ()
    | some _ =>
      let _ ← bind_mappings v id mapping_ids
  | .attributes v id profile_id values own mapping_ids => do
    match (← get).get_visible v id with
    | none => pure ()
    | some _ =>
      match profile_id with
      | none => pure ()
      | some profile_id => link_profile v id profile_id
      set_custom_values v id values own
      let _ ← bind_mappings v id mapping_ids
  | .bulkAssign v profile_id ids => do
    if (← get).profile_allowed v profile_id then
      ids.forM fun id => do
        match (← get).get_visible v id with
        | none => pure ()
        | some _ => link_profile v id profile_id
  | .assignMapping v mapping_id ids remove_ids =>
    modify fun s =>
      match s.mappings.find? fun m => m.id == mapping_id && m.user_id == v.id with
      | none => s
      | some m =>
        let assigned := (s.bindings.filter fun b => b.mapping_id == m.id).map (·.device_id)
        ids.foldl (assign v m assigned)
          { s with
            bindings := s.bindings.filter fun b =>
              !(b.mapping_id == m.id && remove_ids.contains b.device_id) }
  | .rollback v owner profile_id ids => do
    if (← get).owned v profile_id then ids.forM (rollbackLink v owner profile_id)
  | .delete v id =>
    modify fun s =>
      match s.get_editable v id with
      | none => s
      | some _ => s.deleteDevice id
  | .importRow v id fields values own profile_id =>
    modify fun s =>
      let s := s.saveRow v none id fields false
      let s := (s.change id (set_system_values · values)).valued v id values own
      match profile_id with
      | none => s
      | some profile_id =>
        let s := if s.owned v profile_id then s
          else { s with profiles := s.profiles ++ [⟨profile_id, v.id⟩] }
        s.link v id (some profile_id)

/-! ## Runs -/

namespace Tables

variable (s : Tables)

def newDevice (id : Nat) : Bool := s.devices.all fun d => d.id != id

def newProfile (id : Nat) : Bool := s.profiles.all fun p => p.id != id

def newMapping (id : Nat) : Bool := s.mappings.all fun m => m.id != id

end Tables

/-- Who acts is signed in, and a new row's id is new.  A device named twice for a mapping is
refused by the database. -/
def enabled (s : Tables) : Operation → Bool
  | .addUser id => !s.users.contains id
  | .deleteUser id => s.users.contains id
  | .createProfile v id => s.users.contains v.id && s.newProfile id
  | .createMapping v id _ _ _ => s.users.contains v.id && s.newMapping id
  | .add v id _ _ _ _ => s.users.contains v.id && s.newDevice id
  | .importRow v id _ _ _ profile_id =>
    s.users.contains v.id && s.newDevice id &&
      profile_id.all fun p => s.owned v p || s.newProfile p
  | .assignMapping v _ ids _ => s.users.contains v.id && decide ids.Nodup
  | .deleteProfile v _ => s.users.contains v.id
  | .editMapping v _ _ _ _ => s.users.contains v.id
  | .deleteMapping v _ => s.users.contains v.id
  | .deleteProperty v _ => s.users.contains v.id
  | .edit v _ _ _ _ _ => s.users.contains v.id
  | .link v _ _ => s.users.contains v.id
  | .setValues v _ _ _ => s.users.contains v.id
  | .bind v _ _ => s.users.contains v.id
  | .attributes v _ _ _ _ _ => s.users.contains v.id
  | .bulkAssign v _ _ => s.users.contains v.id
  | .rollback v _ _ _ => s.users.contains v.id
  | .delete v _ => s.users.contains v.id

def inventory : System Tables Operation where
  Init s := s = {}
  step s op := if enabled s op then some (Effects.left (perform op s)) else none

end Inventory
end NetRollout
