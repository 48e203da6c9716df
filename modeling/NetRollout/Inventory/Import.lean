import NetRollout.Inventory.Columns
import NetRollout.Inventory.Private
import NetRollout.Inventory.Resolver

/-!
# A devices CSV imported

`import_csv` of `src/inventory.py`.

What the import does to the inventory is the rows' operations (`operations`), and they only add
(`import_adds`): a device for each row that is one, the importing user's values and links on it,
and the profiles that were made.  So an import is a run of the inventory, and keeps what its runs
keep.
-/

namespace NetRollout
namespace Inventory
namespace Import

open PyText (Str strip Unicode)
open Rollout (Value)
open Address (isIp qualify)
open Columns
open Resolver (Fernet Profile Credentials)

variable {T : Type}

/-! ## What an import is given -/

/-- The uploaded file: the text in it, or why there is none. -/
inductive Upload where
  | notCsv
  | notUtf8
  | unreadable
  | text (s : Str)

/-- `import_csv`'s arguments. -/
structure Options where
  label : Option Str
  properties : List PropertyDef
  create_profiles : Bool
  dns_suffix : Str

/-- What an import takes from outside: the key of the secrets, the day, the ids that new profiles
get, `resolve_many`'s answers, and what `prepare_devices` could ask the network. -/
structure World (T : Type) where
  fernet : Fernet T
  today : Calendar.Date
  fresh : Nat → Nat
  found : Str → Option (List Str)
  network : Inputs.Network

/-- `primary`. -/
def primary (addresses : List Str) : Option Str :=
  (addresses.find? fun a => !a.contains ':').or addresses.head?

/-! ## What it gives -/

/-- A device's row as an import adds it, with its values and its profile. -/
structure Imported (T : Type) where
  ip : Str
  port : Nat
  resolved_ip : Option Str
  device_type : Str
  label : Str
  values : AList fun _ : Str => Option Value
  profile : Option (Profile T)

/-- `ImportReport`. -/
structure ImportReport where
  devices : List Inputs.Device := []
  errors : List Str := []
  notices : List (Str × Str) := []
  created_profiles : List (Nat × Str) := []
  resolved : List (Str × Str) := []

/-- `", ".join(items)`. -/
def commas (items : List Str) : Str := [',', ' '].intercalate items

/-- The first five, and that there are more. -/
def shown (items : List Str) : Str :=
  commas (items.take 5) ++ if 5 < items.length then ", …".toList else []

/-- `"s" if n != 1 else ""`. -/
def plural (n : Nat) : Str := if n = 1 then [] else ['s']

/-- The credentials a device is linked by: both a username and a password. -/
def credentialsOf (d : Inputs.Device) : Option Credentials :=
  if d.username ≠ [] ∧ d.password ≠ [] then some (d.username, d.password, d.secret) else none

/-- A device that has one of the two. -/
def isHalf (d : Inputs.Device) : Bool :=
  (credentialsOf d).isNone && !(d.username ++ d.password).isEmpty

/-- `label or device.label`. -/
def labelOf (options : Options) (d : Inputs.Device) : Str :=
  match options.label with
  | some label => if label = [] then d.label else label
  | none => d.label

/-- The hostnames, each with the name it is looked up by. -/
def namesOf (options : Options) (devices : List Inputs.Device) : List (Str × Str) :=
  Dict.update [] ((devices.filter fun d => !isIp d.ip).map fun d =>
    (d.ip, qualify d.ip options.dns_suffix))

/-- `resolved`. -/
def resolvedOf (world : World T) (names : List (Str × Str)) : List (Str × Str) :=
  names.filterMap fun e => (primary ((world.found e.2).getD [])).map fun kept => (e.1, kept)

/-- A device's row. -/
def importedOf (options : Options) (columns : Sorted) (resolved : List (Str × Str))
    (d : Inputs.Device) (profile : Option (Profile T)) : Imported T where
  ip := d.ip
  port := d.port
  resolved_ip := Dict.get resolved d.ip
  device_type := d.device_type
  label := labelOf options d
  values := cellValues d.extra columns
  profile := profile

/-- The notices on the columns. -/
def columnNotices (options : Options) (columns : Sorted) : List (Str × Str) :=
  (if columns.ignored ≠ [] then [("warning".toList, "Ignored columns: ".toList ++
    commas columns.ignored ++ " - not a property; create it under Properties first".toList)]
  else []) ++
  (if columns.credentials ≠ [] ∧ !options.create_profiles then [("info".toList,
    ("Credential columns were not imported (profile creation was off) - assign a security " ++
      "profile to the devices").toList)]
  else [])

/-- The notice on the names that do not resolve. -/
def nameNotices (unresolved : List Str) : List (Str × Str) :=
  if unresolved = [] then []
  else [("warning".toList, PyText.ofInt unresolved.length ++ " hostname".toList ++
    plural unresolved.length ++
    (" didn't resolve from this server (imported anyway; a rollout to them fails until they " ++
      "do): ").toList ++ shown unresolved)]

/-- The notice on the devices with half their credentials. -/
def halfNotices (half : List Str) : List (Str × Str) :=
  if half = [] then []
  else [("warning".toList, PyText.ofInt half.length ++ " device".toList ++ plural half.length ++
    " imported without a profile (username and password are both needed): ".toList ++ shown half)]

/-- The required columns that the header has not. -/
def missingOf (headers : List Str) : List Str :=
  (["ip", "device_type", "port"].map String.toList).filter fun key => !headers.contains key

/-- The header's columns. -/
def headersOf (fieldnames : List Str) : List Str := (fieldnames.filter (· ≠ [])).map strip

/-- What the devices ask for: their credentials, where profiles are made of them. -/
def asked (creating : Bool) (devices : List Inputs.Device) : List (Option Credentials) :=
  devices.map fun d => if creating then credentialsOf d else none

/-- The rows once they are devices: their rows in the inventory, and the rest of the report. -/
def settle (world : World T) (options : Options) (before : List (Profile T)) (columns : Sorted)
    (devices : List Inputs.Device) (errors : List Str) : ImportReport × List (Imported T) :=
  let names := namesOf options devices
  let unresolved := (names.filter fun e => (world.found e.2).isNone).map Prod.fst
  let resolved := resolvedOf world names
  let creating := options.create_profiles && !columns.credentials.isEmpty
  let given := Resolver.resolve world.fernet world.today world.fresh
    (Resolver.start world.fernet before) (asked creating devices)
  let half := if creating then (devices.filter isHalf).map (labelOf options) else []
  ({ devices, errors, resolved
     created_profiles := if creating then Resolver.created given.1 else []
     notices := columnNotices options columns ++ nameNotices unresolved ++ halfNotices half ++
       if creating then Resolver.summary given.1 (given.2.filterMap id) else [] },
    devices.zipWith (importedOf options columns resolved) given.2)

/-- `import_csv`, of the user whose profiles are `before`: the report, and the rows it adds; none
where it raises. -/
def importCsv [Unicode] (world : World T) (options : Options) (before : List (Profile T)) :
    Upload → Option (ImportReport × List (Imported T))
  | .notCsv => some ({ errors := ["File must be a .csv".toList] }, [])
  | .notUtf8 => some ({ errors := ["The CSV must be UTF-8 text".toList] }, [])
  | .unreadable => some ({ errors := ["The CSV file could not be read".toList] }, [])
  | .text s => do
    let names ← fieldnames s
    if missingOf (headersOf names) ≠ [] then
      some ({ errors := ["Missing required columns: ".toList ++
        commas (missingOf (headersOf names))] }, [])
    else
      let rows ← dictRows s names
      let (devices, errors) ← Inputs.prepareDevices world.network ⟨false, false⟩ rows
      some (settle world options before (classifyColumns (headersOf names) options.properties)
        devices errors)

/-! ## What it does to the inventory -/

/-- A row's device, saved. -/
def deviceRow (v : Viewer) (id : Nat) (row : Imported T) : Device :=
  set_system_values
    { id, label := row.label, ip := row.ip, port := row.port, device_type := row.device_type
      var_maps := ∅, is_global := false, user_id := some v.id } row.values

/-- A row's custom values. -/
def attributeRows (v : Viewer) (own : List Str) (id : Nat) (row : Imported T) :
    List DeviceAttribute :=
  (row.values.entries.filter fun e => e.1 ∈ own).filterMap fun e =>
    (given e.2).map fun value => ⟨id, v.id, e.1, value⟩

/-- A row's link. -/
def linkRows (v : Viewer) (id : Nat) (row : Imported T) : List DeviceCredential :=
  row.profile.toList.map fun p => ⟨id, v.id, p.id⟩

/-- The profile of a row, where it is new. -/
def profileRows (s : Tables) (v : Viewer) (row : Imported T) : List SecurityProfile :=
  (row.profile.toList.filter fun p => !s.owned v p.id).map fun p => ⟨p.id, v.id⟩

/-- A row's operation. -/
def operation (v : Viewer) (own : List Str) (id : Nat) (row : Imported T) : Operation :=
  .importRow v id ⟨row.ip, row.port, row.device_type, row.label, none, false⟩ row.values own
    (row.profile.map (·.id))

/-- The rows' operations, the devices' ids being `ids`. -/
def operations (v : Viewer) (own : List Str) (ids : Nat → Nat) (rows : List (Imported T)) :
    List Operation :=
  rows.zipIdx.map fun p => operation v own (ids p.2) p.1

/-- The names of the user's own properties. -/
def ownOf (options : Options) : List Str :=
  (options.properties.map (·.name)).filter fun name => !SYSTEM_NAMES.contains name

variable {s : Tables} {v : Viewer} {id : Nat} {own : List Str} {row : Imported T}

theorem isValue_iff {name : Str} {a : DeviceAttribute} :
    Tables.isValue v id name a = true ↔ a.device_id = id ∧ a.user_id = v.id ∧ a.name = name := by
  simp [Tables.isValue, and_assoc]

/-- A value of a property the user has none of on the device. -/
theorem setValue_new {name : Str} {value : Option Value}
    (hno : ∀ a ∈ s.attributes, ¬(a.device_id = id ∧ a.user_id = v.id ∧ a.name = name)) :
    s.setValue v id name value =
      { s with
        attributes := s.attributes ++ ((given value).map fun value =>
          (⟨id, v.id, name, value⟩ : DeviceAttribute)).toList } := by
  rw [Tables.setValue]
  cases given value with
  | none =>
    have hsame : s.attributes.filter (fun a => !Tables.isValue v id name a) = s.attributes := by
      refine List.filter_eq_self.mpr fun a ha => ?_
      rw [Bool.not_eq_true', ← Bool.not_eq_true, isValue_iff]
      exact hno a ha
    rw [hsame]
    exact congrArg (fun attributes => { s with attributes }) (List.append_nil _).symm
  | some value =>
    have hany : s.attributes.any (Tables.isValue v id name) = false := by
      refine List.any_eq_false.mpr fun a ha => ?_
      rw [isValue_iff]
      exact hno a ha
    rw [hany]
    rfl

/-- The values of a new device are added. -/
theorem valued_new (values : AList fun _ : Str => Option Value)
    (hno : ∀ a ∈ s.attributes, a.device_id ≠ id) :
    s.valued v id values own =
      { s with
        attributes := s.attributes ++
          (values.entries.filter fun e => e.1 ∈ own).filterMap fun e =>
            (given e.2).map fun value => ⟨id, v.id, e.1, value⟩ } := by
  rw [Tables.valued]
  have hnodup := values.nodupKeys
  have hfree : ∀ e ∈ values.entries, ∀ a ∈ s.attributes,
      ¬(a.device_id = id ∧ a.user_id = v.id ∧ a.name = e.1) := fun _ _ a ha h => hno a ha h.1
  generalize values.entries = entries at hnodup hfree
  clear hno
  induction entries generalizing s with
  | nil => simp
  | cons e entries ih =>
    rw [List.nodupKeys_cons] at hnodup
    rw [List.foldl_cons, List.filter_cons]
    by_cases hown : e.1 ∈ own
    · rw [if_pos hown, if_pos (decide_eq_true hown), setValue_new (hfree e List.mem_cons_self)]
      rw [ih hnodup.2 fun e' he' a ha h => ?_]
      · show { s with attributes := (s.attributes ++ _) ++ _ } = _
        rw [List.append_assoc, List.filterMap_cons]
        cases given e.2 <;> rfl
      · rcases List.mem_append.mp ha with ha | ha
        · exact hfree e' (List.mem_cons_of_mem _ he') a ha h
        · obtain ⟨value, -, rfl⟩ := Option.map_eq_some_iff.mp (Option.mem_toList.mp ha)
          have hname : e.1 = e'.1 := h.2.2
          exact hnodup.1 (hname ▸ List.mem_keys_of_mem he')
    · rw [if_neg hown, if_neg (by simpa using hown)]
      exact ih hnodup.2 fun e' he' => hfree e' (List.mem_cons_of_mem _ he')

theorem ne_of_newDevice (hnew : s.newDevice id = true) : ∀ d ∈ s.devices, d.id ≠ id := by
  intro d hd
  have hne := List.all_eq_true.mp hnew d hd
  rwa [bne_iff_ne] at hne

/-- No row hangs off a device that is not there. -/
theorem no_rows_of_newDevice (h : Inv Allows s) (hnew : s.newDevice id = true) :
    (∀ a ∈ s.attributes, a.device_id ≠ id) ∧ ∀ c ∈ s.credentials, c.device_id ≠ id := by
  have hhas : ∀ {device_id user_id : Nat}, Has Allows s device_id user_id → device_id ≠ id := by
    rintro device_id user_id ⟨d, hd, hid, -⟩
    exact hid ▸ ne_of_newDevice hnew d hd
  exact ⟨fun a ha => hhas (h.attributes a ha), fun c hc => hhas (h.credentials c hc).1⟩

/-- The device of a row, added and given its system values. -/
theorem change_saveRow (hnew : s.newDevice id = true) :
    ((s.saveRow v none id ⟨row.ip, row.port, row.device_type, row.label, none, false⟩
      false).change id (set_system_values · row.values)) =
      { s with devices := s.devices ++ [deviceRow v id row] } := by
  have hsame : s.devices.map (fun d => if d.id = id then set_system_values d row.values else d) =
      s.devices := by
    refine (List.map_congr_left fun d hd => ?_).trans (List.map_id _)
    exact if_neg (ne_of_newDevice hnew d hd)
  show { s with devices := (s.devices ++ [_]).map _ } = _
  rw [List.map_append, hsame, List.map_singleton, if_pos rfl]
  rfl

/-- **A row only adds.** -/
theorem perform_operation (h : Inv Allows s) (hnew : s.newDevice id = true) :
    perform (operation v own id row) s = .ok ()
      { s with
        devices := s.devices ++ [deviceRow v id row]
        profiles := s.profiles ++ profileRows s v row
        credentials := s.credentials ++ linkRows v id row
        attributes := s.attributes ++ attributeRows v own id row } := by
  obtain ⟨hattributes, hcredentials⟩ := no_rows_of_newDevice h hnew
  have hvalued : (((s.saveRow v none id ⟨row.ip, row.port, row.device_type, row.label, none, false⟩
      false).change id (set_system_values · row.values)).valued v id row.values own) =
      { s with
        devices := s.devices ++ [deviceRow v id row]
        attributes := s.attributes ++ attributeRows v own id row } := by
    rw [change_saveRow hnew]
    exact valued_new row.values hattributes
  rw [operation, linkRows, profileRows]
  cases hprofile : row.profile with
  | none =>
    show EStateM.Result.ok () (((s.saveRow v none id _ false).change id _).valued v id row.values
      own) = _
    rw [hvalued]
    simp
  | some p =>
    have howned : Tables.owned { s with
        devices := s.devices ++ [deviceRow v id row]
        attributes := s.attributes ++ attributeRows v own id row } v p.id = s.owned v p.id := rfl
    have hlink : ∀ t : Tables, t.credentials = s.credentials →
        t.link v id (some p.id) =
          { t with credentials := t.credentials ++ [⟨id, v.id, p.id⟩] } := by
      intro t ht
      rw [Tables.link, if_neg]
      rw [Bool.not_eq_true, List.any_eq_false, ht]
      intro c hc hlink
      exact hcredentials c hc (isLink_iff.mp hlink).1
    show EStateM.Result.ok () (Tables.link (if Tables.owned (Tables.valued _ v id row.values own) v
      p.id = true then _ else _) v id (some p.id)) = _
    rw [hvalued, howned]
    split
    · next hown =>
      refine congrArg (EStateM.Result.ok ()) ((hlink _ (by rfl)).trans ?_)
      simp [hown]
    · next hown =>
      refine congrArg (EStateM.Result.ok ()) ((hlink _ (by rfl)).trans ?_)
      simp [hown]

/-- The tables that an import leaves: those of before, and what it has added. -/
def added (v : Viewer) (own : List Str) (ids : Nat → Nat) (rows : List (Imported T × Nat))
    (made : List Nat) (s : Tables) : Tables :=
  { s with
    devices := s.devices ++ rows.map fun p => deviceRow v (ids p.2) p.1
    profiles := s.profiles ++ made.map fun id => ⟨id, v.id⟩
    credentials := s.credentials ++ rows.flatMap fun p => linkRows v (ids p.2) p.1
    attributes := s.attributes ++ rows.flatMap fun p => attributeRows v own (ids p.2) p.1 }

variable {fernet : Fernet T} {today : Calendar.Date} {fresh ids : Nat → Nat}

theorem newProfile_append {made : List Nat} {p : Nat} (h : s.newProfile p = true)
    (hp : p ∉ made) :
    Tables.newProfile { s with profiles := s.profiles ++ made.map fun id => ⟨id, v.id⟩ } p =
      true := by
  rw [Tables.newProfile, List.all_append, Bool.and_eq_true]
  refine ⟨h, List.all_eq_true.mpr fun q hq => ?_⟩
  obtain ⟨id, hid, rfl⟩ := List.mem_map.mp hq
  rw [bne_iff_ne]
  rintro rfl
  exact hp hid

theorem owned_eq_false {p : Nat} (h : s.newProfile p = true) : s.owned v p = false := by
  refine List.any_eq_false.mpr fun q hq => ?_
  have hne := List.all_eq_true.mp h q hq
  rw [bne_iff_ne] at hne
  simp [hne]

/-- What a resolver's state and the tables have to do with each other while rows are added: the
known profiles are the user's, and the ids to come are new. -/
structure Fits (v : Viewer) (fresh ids : Nat → Nat) (r : Resolver.State T) (k : Nat) (s : Tables) :
    Prop where
  inv : Inv Allows s
  user : s.users.contains v.id = true
  known : ∀ e ∈ r.known, s.owned v e.2.id = true
  profiles : ∀ j, r.created.length ≤ j → s.newProfile (fresh j) = true
  devices : ∀ i, k ≤ i → s.newDevice (ids i) = true

/-- A row more, with the profiles that were made for it. -/
theorem Fits.add {r r' : Resolver.State T} {k : Nat} (h : Fits v fresh ids r k s)
    (hids : Function.Injective ids) (hfresh : Function.Injective fresh) (made : List (Profile T))
    (hcreated : r'.created = r.created ++ made)
    (hnew : ∀ p ∈ made, p.id = fresh r.created.length)
    (hrow : profileRows s v row = made.map fun p => ⟨p.id, v.id⟩)
    (hprofile : ∀ p ∈ row.profile, s.owned v p.id = true ∨ p ∈ made)
    (hknown : ∀ e ∈ r'.known, e ∈ r.known ∨ e.2 ∈ made) :
    inventory.step s (operation v own (ids k) row) =
        some (added v own ids [(row, k)] (made.map (·.id)) s) ∧
      Fits v fresh ids r' (k + 1) (added v own ids [(row, k)] (made.map (·.id)) s) := by
  have hdevice : s.newDevice (ids k) = true := h.devices k (Nat.le_refl k)
  have hallowed : (row.profile.map (·.id)).all (fun p => s.owned v p || s.newProfile p) = true := by
    cases hp : row.profile with
    | none => rfl
    | some p =>
      rw [Option.map_some, Option.all_some, Bool.or_eq_true]
      rcases hprofile p (hp ▸ rfl) with howned | hmade
      · exact Or.inl howned
      · rw [hnew p hmade]
        exact Or.inr (h.profiles _ (Nat.le_refl _))
  have hadded : perform (operation v own (ids k) row) s =
      .ok () (added v own ids [(row, k)] (made.map (·.id)) s) := by
    rw [perform_operation h.inv hdevice, hrow, added, List.map_singleton, List.flatMap_singleton,
      List.flatMap_singleton, List.map_map]
    rfl
  have hstep : inventory.step s (operation v own (ids k) row) =
      some (added v own ids [(row, k)] (made.map (·.id)) s) := by
    have henabled : enabled s (operation v own (ids k) row) = true := by
      show (s.users.contains v.id && s.newDevice (ids k) && _) = true
      rw [h.user, hdevice, hallowed]
      rfl
    show (if enabled s (operation v own (ids k) row) then _ else none) = _
    rw [if_pos henabled, hadded]
    rfl
  refine ⟨hstep, ?_, h.user, ?_, ?_, ?_⟩
  · obtain ⟨t, ht, hinv⟩ : ∃ t, perform (operation v own (ids k) row) s = .ok () t ∧
        Inv Allows t := Inv.importRow h.inv hdevice hallowed
    have hsame := hadded.symm.trans ht
    cases hsame
    exact hinv
  · intro e he
    rcases hknown e he with hold | hmade
    · obtain ⟨q, hq, hmine⟩ := List.any_eq_true.mp (h.known e hold)
      exact List.any_eq_true.mpr ⟨q, List.mem_append_left _ hq, hmine⟩
    · refine List.any_eq_true.mpr ⟨⟨e.2.id, v.id⟩, List.mem_append_right _ ?_, by simp⟩
      exact List.mem_map_of_mem (List.mem_map_of_mem hmade)
  · intro j hj
    rw [hcreated, List.length_append] at hj
    refine newProfile_append (h.profiles j (by omega)) fun hmem => ?_
    obtain ⟨p, hp, heq⟩ := List.mem_map.mp hmem
    have hlength := List.length_pos_of_mem hp
    rw [hnew p hp] at heq
    have := hfresh heq
    omega
  · intro i hi
    show (s.devices ++ [deviceRow v (ids k) row]).all _ = true
    rw [List.all_append, Bool.and_eq_true]
    refine ⟨h.devices i (by omega), ?_⟩
    rw [List.all_cons, List.all_nil, Bool.and_true, bne_iff_ne]
    intro heq
    have := hids (show ids k = ids i from heq)
    omega

/-- A row is done with what its credentials were given. -/
theorem Fits.given {r : Resolver.State T} {k : Nat} (h : Fits v fresh ids r k s)
    (hids : Function.Injective ids) (hfresh : Function.Injective fresh) (c : Credentials)
    (hrow : row.profile = some ((Resolver.profiles fernet today fresh).resolve r c).2) :
    ∃ made, ((Resolver.profiles fernet today fresh).resolve r c).1.created = r.created ++ made ∧
      inventory.step s (operation v own (ids k) row) =
        some (added v own ids [(row, k)] (made.map (·.id)) s) ∧
      Fits v fresh ids ((Resolver.profiles fernet today fresh).resolve r c).1 (k + 1)
        (added v own ids [(row, k)] (made.map (·.id)) s) := by
  rcases Interner.resolve_cases (Resolver.profiles fernet today fresh) r c with
    ⟨hfound, hsame⟩ | ⟨-, hcreate⟩
  · have howned := h.known _ (Interner.mem_of_lookup hfound)
    rw [hsame]
    refine ⟨[], (List.append_nil _).symm, h.add hids hfresh [] (List.append_nil _).symm
      (fun p hp => absurd hp List.not_mem_nil) ?_ ?_ fun e he => Or.inl he⟩
    · rw [profileRows, hrow]
      simp [howned]
    · rw [hrow]
      rintro p hp
      cases hp
      exact Or.inl howned
  · have hnot : s.owned v (fresh r.created.length) = false :=
      owned_eq_false (h.profiles _ (Nat.le_refl _))
    rw [hcreate] at hrow ⊢
    refine ⟨[(Resolver.create fernet today fresh r c).2], rfl,
      h.add hids hfresh [(Resolver.create fernet today fresh r c).2] rfl ?_ ?_ ?_ ?_⟩
    · intro p hp
      rw [List.mem_singleton.mp hp]
      rfl
    · have hid : ((Resolver.profiles fernet today fresh).create r c).2.id =
          fresh r.created.length := rfl
      rw [profileRows, hrow, Option.toList_some, List.filter_singleton, hid, hnot]
      rfl
    · rw [hrow]
      rintro p hp
      cases hp
      exact Or.inr List.mem_cons_self
    · intro e he
      rcases List.mem_append.mp (show e ∈ r.known ++ [_] from he) with hold | hmade
      · exact Or.inl hold
      · rw [List.mem_singleton.mp hmade]
        exact Or.inr List.mem_cons_self

/-- **The rows of an import are a run of the inventory, and only add to it.** -/
theorem exec_operations (own : List Str) (hids : Function.Injective ids)
    (hfresh : Function.Injective fresh)
    (keys : List (Option Credentials)) {r : Resolver.State T} {rows : List (Imported T)} {k : Nat}
    (h : Fits v fresh ids r k s)
    (hrows : rows.map (·.profile) = (Resolver.resolve fernet today fresh r keys).2) :
    ∃ made, (Resolver.resolve fernet today fresh r keys).1.created = r.created ++ made ∧
      inventory.exec System.always s
        ((rows.zipIdx k).map fun p => operation v own (ids p.2) p.1) =
          some (added v own ids (rows.zipIdx k) (made.map (·.id)) s) := by
  induction keys generalizing r rows k s with
  | nil =>
    obtain rfl := List.map_eq_nil_iff.mp hrows
    refine ⟨[], (List.append_nil _).symm, ?_⟩
    simp [added, System.exec]
  | cons asked keys ih =>
    cases rows with
    | nil => rcases asked with _ | c <;> cases hrows
    | cons row rows =>
      have hstep : ∃ made r', r'.created = r.created ++ made ∧
          (Resolver.resolve fernet today fresh r (asked :: keys)).1 =
            (Resolver.resolve fernet today fresh r' keys).1 ∧
          rows.map (·.profile) = (Resolver.resolve fernet today fresh r' keys).2 ∧
          inventory.step s (operation v own (ids k) row) =
            some (added v own ids [(row, k)] (made.map (·.id)) s) ∧
          Fits v fresh ids r' (k + 1) (added v own ids [(row, k)] (made.map (·.id)) s) := by
        rcases asked with _ | c
        · obtain ⟨hprofile, hrest⟩ : row.profile = none ∧ _ := List.cons.inj hrows
          refine ⟨[], r, (List.append_nil _).symm, rfl, hrest, h.add hids hfresh []
            (List.append_nil _).symm (fun p hp => absurd hp List.not_mem_nil) ?_ ?_
            fun e he => Or.inl he⟩
          · rw [profileRows, hprofile]
            rfl
          · rw [hprofile]
            exact fun p hp => absurd hp (by simp)
        · obtain ⟨hprofile, hrest⟩ := List.cons.inj hrows
          obtain ⟨made, hcreated, hadded, hfits⟩ := h.given hids hfresh c hprofile
          exact ⟨made, _, hcreated, rfl, hrest, hadded, hfits⟩
      obtain ⟨made, r', hcreated, hsame, hrest, hadded, hfits⟩ := hstep
      obtain ⟨more, hmore, hexec⟩ := ih hfits hrest
      refine ⟨made ++ more, ?_, ?_⟩
      · rw [hsame, hmore, hcreated, List.append_assoc]
      · rw [List.zipIdx_cons, List.map_cons]
        refine System.exec_cons.mpr ⟨rfl, _, hadded, hexec.trans ?_⟩
        simp [added]

/-! ## What an import adds -/

theorem resolve_none (fernet : Fernet T) (today : Calendar.Date) (fresh : Nat → Nat)
    (r : Resolver.State T) (devices : List Inputs.Device) :
    (Resolver.resolve fernet today fresh r (asked false devices)).1 = r := by
  induction devices with
  | nil => rfl
  | cons d devices ih => exact ih

theorem map_profile_zipWith (options : Options) (columns : Sorted) (resolved : List (Str × Str))
    {devices : List Inputs.Device} {given : List (Option (Profile T))}
    (h : devices.length = given.length) :
    (devices.zipWith (importedOf options columns resolved) given).map (·.profile) = given := by
  induction devices generalizing given with
  | nil => exact (List.eq_nil_of_length_eq_zero h.symm).symm
  | cons d devices ih =>
    cases given with
    | nil => cases h
    | cons profile given => exact congrArg (profile :: ·) (ih (Nat.succ.inj h))

/-- What the report and the rows of an import have to do with the profiles given. -/
theorem exists_resolved [Unicode] {world : World T} {options : Options} {before : List (Profile T)}
    {upload : Upload} {report : ImportReport} {rows : List (Imported T)}
    (h : importCsv world options before upload = some (report, rows)) :
    ∃ creating, rows.map (·.profile) = (Resolver.resolve world.fernet world.today world.fresh
        (Resolver.start world.fernet before) (asked creating report.devices)).2 ∧
      report.created_profiles = Resolver.created (Resolver.resolve world.fernet world.today
        world.fresh (Resolver.start world.fernet before) (asked creating report.devices)).1 := by
  have hsettle : ∀ (columns : Sorted) (devices : List Inputs.Device) (errors : List Str),
      some (settle world options before columns devices errors) = some (report, rows) →
      ∃ creating, rows.map (·.profile) = (Resolver.resolve world.fernet world.today world.fresh
          (Resolver.start world.fernet before) (asked creating report.devices)).2 ∧
        report.created_profiles = Resolver.created (Resolver.resolve world.fernet world.today
          world.fresh (Resolver.start world.fernet before) (asked creating report.devices)).1 := by
    intro columns devices errors heq
    cases heq
    refine ⟨options.create_profiles && !columns.credentials.isEmpty, ?_, ?_⟩
    · refine map_profile_zipWith options columns _ ?_
      exact ((Interner.length_run _ _ _).trans (List.length_map ..)).symm
    · split
      · rfl
      · next hoff =>
        rw [Bool.not_eq_true] at hoff
        rw [hoff, resolve_none]
        rfl
  cases upload with
  | notCsv =>
    cases h
    exact ⟨false, rfl, rfl⟩
  | notUtf8 =>
    cases h
    exact ⟨false, rfl, rfl⟩
  | unreadable =>
    cases h
    exact ⟨false, rfl, rfl⟩
  | text s =>
    rw [importCsv] at h
    obtain ⟨names, -, h⟩ := Option.bind_eq_some_iff.mp h
    split at h
    · cases h
      exact ⟨false, rfl, rfl⟩
    · obtain ⟨raws, -, h⟩ := Option.bind_eq_some_iff.mp h
      obtain ⟨⟨devices, errors⟩, -, h⟩ := Option.bind_eq_some_iff.mp h
      exact hsettle _ devices errors h

end Import
end Inventory
end NetRollout
