import NetRollout.Inventory.Operations

/-!
# Whose rows are on a device

The invariant of the inventory is that the user of every row may have rows on its device
(`Allows`), and that a link is to one of the user's own profiles.  While a save makes a device
private this fails of that device alone, until the others' rows are dropped; so `Inv` takes the
relation of a device and a user as a parameter.

Here is what one change of the tables keeps of it.
-/

namespace NetRollout
namespace Inventory

open PyText (Str)
open Rollout (Value mapping_resolvable)

variable {P Q : Device → Nat → Prop} {s : Tables} {v : Viewer} {id : Nat}

/-- A user may have rows on a device: it is global, or theirs. -/
def Allows (d : Device) (user_id : Nat) : Prop :=
  d.is_global = true ∨ d.user_id = some user_id

/-- There is a device of this id, and `P` holds of it and the user. -/
def Has (P : Device → Nat → Prop) (s : Tables) (device_id user_id : Nat) : Prop :=
  ∃ d ∈ s.devices, d.id = device_id ∧ P d user_id

structure Inv (P : Device → Nat → Prop) (s : Tables) : Prop where
  devices : (s.devices.map (·.id)).Nodup
  profiles : (s.profiles.map (·.id)).Nodup
  mappings : (s.mappings.map (·.id)).Nodup
  credentials : ∀ c ∈ s.credentials,
    Has P s c.device_id c.user_id ∧ ⟨c.profile_id, c.user_id⟩ ∈ s.profiles
  attributes : ∀ a ∈ s.attributes, Has P s a.device_id a.user_id
  bindings : ∀ b ∈ s.bindings, ∃ m ∈ s.mappings, m.id = b.mapping_id ∧ Has P s b.device_id m.user_id

/-! ## One change -/

theorem mem_profiles_of_owned {profile_id : Nat} (h : s.owned v profile_id = true) :
    ⟨profile_id, v.id⟩ ∈ s.profiles := by
  obtain ⟨p, hp, heq⟩ := List.any_eq_true.mp h
  simp only [Bool.and_eq_true, beq_iff_eq] at heq
  obtain ⟨rfl, huser⟩ := heq
  rw [← huser]
  exact hp

theorem isLink_iff {c : DeviceCredential} :
    Tables.isLink v id c = true ↔ c.device_id = id ∧ c.user_id = v.id := by
  simp [Tables.isLink]

theorem isOf_iff {user_id : Nat} {b : Binding} :
    s.isOf user_id b = true ↔ ∃ m ∈ s.mappings, m.id = b.mapping_id ∧ m.user_id = user_id := by
  simp [Tables.isOf]

theorem Has.of_devices {s' : Tables} {device_id user_id : Nat} (h : Has P s device_id user_id)
    (hdevices : s'.devices = s.devices) : Has P s' device_id user_id := by
  obtain ⟨d, hd, hrest⟩ := h
  exact ⟨d, hdevices ▸ hd, hrest⟩

@[simp] theorem setValue_devices {name : Str} {value : Option Value} :
    (s.setValue v id name value).devices = s.devices := by
  rw [Tables.setValue]
  split
  · rfl
  · split <;> rfl

@[simp] theorem setValue_profiles {name : Str} {value : Option Value} :
    (s.setValue v id name value).profiles = s.profiles := by
  rw [Tables.setValue]
  split
  · rfl
  · split <;> rfl

@[simp] theorem link_devices {profile_id : Option Nat} :
    (s.link v id profile_id).devices = s.devices := by
  cases profile_id with
  | none => rfl
  | some p =>
    rw [Tables.link]
    split <;> rfl

@[simp] theorem link_profiles {profile_id : Option Nat} :
    (s.link v id profile_id).profiles = s.profiles := by
  cases profile_id with
  | none => rfl
  | some p =>
    rw [Tables.link]
    split <;> rfl

/-- The devices and profiles are as they were when values are set. -/
theorem valued_rows {values : AList fun _ : Str => Option Value} {own : List Str} :
    (s.valued v id values own).devices = s.devices ∧
      (s.valued v id values own).profiles = s.profiles := by
  rw [Tables.valued]
  generalize values.entries = entries
  induction entries generalizing s with
  | nil => exact ⟨rfl, rfl⟩
  | cons e entries ih =>
    rw [List.foldl_cons]
    split
    · rw [ih.1, ih.2, setValue_devices, setValue_profiles]
      exact ⟨rfl, rfl⟩
    · exact ih

@[simp] theorem valued_devices {values : AList fun _ : Str => Option Value} {own : List Str} :
    (s.valued v id values own).devices = s.devices := valued_rows.1

@[simp] theorem valued_profiles {values : AList fun _ : Str => Option Value} {own : List Str} :
    (s.valued v id values own).profiles = s.profiles := valued_rows.2

/-- What is changed of a device keeps what there is. -/
theorem Has.change {f : Device → Device} {device_id user_id : Nat}
    (h : Has P s device_id user_id) (hid : ∀ d, (f d).id = d.id)
    (hPQ : ∀ d ∈ s.devices, ∀ u, P d u → Q (if d.id = id then f d else d) u) :
    Has Q (s.change id f) device_id user_id := by
  obtain ⟨d, hd, rfl, hP⟩ := h
  refine ⟨_, List.mem_map_of_mem hd, ?_, hPQ d hd _ hP⟩
  split
  · exact hid d
  · rfl

namespace Inv

theorem mono (h : Inv P s) (hPQ : ∀ d u, P d u → Q d u) : Inv Q s := by
  have hhas : ∀ {device_id user_id}, Has P s device_id user_id → Has Q s device_id user_id := by
    rintro device_id user_id ⟨d, hd, heq, hP⟩
    exact ⟨d, hd, heq, hPQ d user_id hP⟩
  constructor
  · exact h.devices
  · exact h.profiles
  · exact h.mappings
  · exact fun c hc => ⟨hhas (h.credentials c hc).1, (h.credentials c hc).2⟩
  · exact fun a ha => hhas (h.attributes a ha)
  · intro b hb
    obtain ⟨m, hm, heq, hrow⟩ := h.bindings b hb
    exact ⟨m, hm, heq, hhas hrow⟩

/-- Rows that were there, and rows that may be. -/
theorem of_rows {s' : Tables} (h : Inv P s) (hdevices : s'.devices = s.devices)
    (hprofiles : s'.profiles = s.profiles) (hmappings : s'.mappings = s.mappings)
    (hcredentials : ∀ c ∈ s'.credentials, c ∈ s.credentials ∨
      Has P s c.device_id c.user_id ∧ ⟨c.profile_id, c.user_id⟩ ∈ s.profiles)
    (hattributes : ∀ a ∈ s'.attributes, a ∈ s.attributes ∨ Has P s a.device_id a.user_id)
    (hbindings : ∀ b ∈ s'.bindings, b ∈ s.bindings ∨
      ∃ m ∈ s.mappings, m.id = b.mapping_id ∧ Has P s b.device_id m.user_id) : Inv P s' := by
  constructor
  · rw [hdevices]
    exact h.devices
  · rw [hprofiles]
    exact h.profiles
  · rw [hmappings]
    exact h.mappings
  · intro c hc
    have hrow := (hcredentials c hc).elim (h.credentials c) id
    rw [hprofiles]
    exact ⟨hrow.1.of_devices hdevices, hrow.2⟩
  · intro a ha
    exact ((hattributes a ha).elim (h.attributes a) id).of_devices hdevices
  · intro b hb
    obtain ⟨m, hm, hid, hhas⟩ := (hbindings b hb).elim (h.bindings b) id
    rw [hmappings]
    exact ⟨m, hm, hid, hhas.of_devices hdevices⟩

/-- A link of a user to a device they may have rows on. -/
theorem link {profile_id : Option Nat} (h : Inv P s) (hv : Has P s id v.id)
    (hallowed : s.profile_allowed v profile_id = true) : Inv P (s.link v id profile_id) := by
  cases profile_id with
  | none =>
    exact h.of_rows rfl rfl rfl (fun c hc => .inl (List.mem_of_mem_filter hc)) (fun _ => .inl)
      (fun _ => .inl)
  | some p =>
    have hprofile : ⟨p, v.id⟩ ∈ s.profiles := mem_profiles_of_owned hallowed
    rw [Tables.link]
    split
    · refine h.of_rows rfl rfl rfl (fun c hc => ?_) (fun _ => .inl) (fun _ => .inl)
      obtain ⟨c', hc', rfl⟩ := List.mem_map.mp hc
      split
      · rename_i hlink
        obtain ⟨hdevice, huser⟩ := isLink_iff.mp hlink
        rw [hdevice, huser]
        exact .inr ⟨hv, hprofile⟩
      · exact .inl hc'
    · refine h.of_rows rfl rfl rfl (fun c hc => ?_) (fun _ => .inl) (fun _ => .inl)
      rcases List.mem_append.mp hc with hc | hc
      · exact .inl hc
      · rw [List.mem_singleton.mp hc]
        exact .inr ⟨hv, hprofile⟩

theorem setValue {name : Str} {value : Option Value} (h : Inv P s) (hv : Has P s id v.id) :
    Inv P (s.setValue v id name value) := by
  rw [Tables.setValue]
  split
  · exact h.of_rows rfl rfl rfl (fun _ => .inl) (fun a ha => .inl (List.mem_of_mem_filter ha))
      (fun _ => .inl)
  · split
    · refine h.of_rows rfl rfl rfl (fun _ => .inl) (fun a ha => .inr ?_) (fun _ => .inl)
      obtain ⟨a', ha', rfl⟩ := List.mem_map.mp ha
      split
      · exact h.attributes a' ha'
      · exact h.attributes a' ha'
    · refine h.of_rows rfl rfl rfl (fun _ => .inl) (fun a ha => ?_) (fun _ => .inl)
      rcases List.mem_append.mp ha with ha | ha
      · exact .inl ha
      · rw [List.mem_singleton.mp ha]
        exact .inr hv

theorem valued {values : AList fun _ : Str => Option Value} {own : List Str} (h : Inv P s)
    (hv : Has P s id v.id) : Inv P (s.valued v id values own) := by
  rw [Tables.valued]
  generalize values.entries = entries
  induction entries generalizing s with
  | nil => exact h
  | cons e entries ih =>
    rw [List.foldl_cons]
    split
    · exact ih (h.setValue hv) (hv.of_devices setValue_devices)
    · exact ih h hv

theorem bound {mapping_ids : List Nat} (h : Inv P s) (hv : Has P s id v.id) :
    Inv P (s.bound v id mapping_ids) := by
  refine h.of_rows rfl rfl rfl (fun _ => .inl) (fun _ => .inl) (fun b hb => ?_)
  rcases List.mem_append.mp hb with hb | hb
  · exact .inl (List.mem_of_mem_filter hb)
  · obtain ⟨m, hm, rfl⟩ := List.mem_map.mp hb
    obtain ⟨m', hm', rfl⟩ := List.mem_map.mp (List.mem_of_mem_filter hm)
    obtain ⟨hmem, hsel⟩ := List.mem_filter.mp hm'
    have huser : m'.user_id = v.id := by
      simp only [Bool.and_eq_true, beq_iff_eq] at hsel
      exact hsel.2
    exact .inr ⟨m', hmem, rfl, by rw [huser]; exact hv⟩

/-- A device's row is changed. -/
theorem change {f : Device → Device} (h : Inv P s) (hid : ∀ d, (f d).id = d.id)
    (hPQ : ∀ d ∈ s.devices, ∀ u, P d u → Q (if d.id = id then f d else d) u) :
    Inv Q (s.change id f) := by
  have hhas : ∀ {device_id user_id}, Has P s device_id user_id →
      Has Q (s.change id f) device_id user_id := fun h => h.change hid hPQ
  constructor
  · have hids : ((s.change id f).devices.map (·.id)) = s.devices.map (·.id) := by
      rw [Tables.change, List.map_map]
      refine List.map_congr_left fun d _ => ?_
      show (if d.id = id then f d else d).id = d.id
      split
      · exact hid d
      · rfl
    rw [hids]
    exact h.devices
  · exact h.profiles
  · exact h.mappings
  · exact fun c hc => ⟨hhas (h.credentials c hc).1, (h.credentials c hc).2⟩
  · exact fun a ha => hhas (h.attributes a ha)
  · intro b hb
    obtain ⟨m, hm, heq, hrow⟩ := h.bindings b hb
    exact ⟨m, hm, heq, hhas hrow⟩

/-- A device more. -/
theorem addDevice {d : Device} (h : Inv P s) (hnew : s.newDevice d.id = true) :
    Inv P { s with devices := s.devices ++ [d] } := by
  have hhas : ∀ {device_id user_id}, Has P s device_id user_id →
      Has P { s with devices := s.devices ++ [d] } device_id user_id := by
    rintro device_id user_id ⟨e, he, hrest⟩
    exact ⟨e, List.mem_append_left _ he, hrest⟩
  constructor
  · have hfresh : d.id ∉ s.devices.map (·.id) := by
      intro hmem
      obtain ⟨e, he, heq⟩ := List.mem_map.mp hmem
      have hne := List.all_eq_true.mp hnew e he
      simp [heq] at hne
    rw [List.map_append, List.map_singleton]
    exact List.nodup_append.mpr ⟨h.devices, List.nodup_singleton _, fun a ha b hb heq =>
      hfresh (List.mem_singleton.mp hb ▸ heq ▸ ha)⟩
  · exact h.profiles
  · exact h.mappings
  · exact fun c hc => ⟨hhas (h.credentials c hc).1, (h.credentials c hc).2⟩
  · exact fun a ha => hhas (h.attributes a ha)
  · intro b hb
    obtain ⟨m, hm, heq, hrow⟩ := h.bindings b hb
    exact ⟨m, hm, heq, hhas hrow⟩

/-- The others' rows are dropped from the one device they may not be on. -/
theorem ownersOnly {owner : Option Nat} (h : Inv (fun d u => d.id = id ∨ Allows d u) s)
    (howner : ∀ d ∈ s.devices, d.id = id → d.user_id = owner) :
    Inv Allows (s.ownersOnly id owner) := by
  have hhas : ∀ {device_id user_id}, Has (fun d u => d.id = id ∨ Allows d u) s device_id user_id →
      (device_id = id → some user_id = owner) →
        Has Allows (s.ownersOnly id owner) device_id user_id := by
    rintro device_id user_id ⟨d, hd, rfl, hP⟩ hown
    refine ⟨d, hd, rfl, ?_⟩
    rcases hP with hid | hP
    · exact .inr ((howner d hd hid).trans (hown hid).symm)
    · exact hP
  constructor
  · exact h.devices
  · exact h.profiles
  · exact h.mappings
  · intro c hc
    obtain ⟨hmem, hleft⟩ := List.mem_filter.mp hc
    refine ⟨hhas (h.credentials c hmem).1 fun hid => ?_, (h.credentials c hmem).2⟩
    simpa [hid] using hleft
  · intro a ha
    obtain ⟨hmem, hleft⟩ := List.mem_filter.mp ha
    refine hhas (h.attributes a hmem) fun hid => ?_
    simpa [hid] using hleft
  · intro b hb
    obtain ⟨hmem, hleft⟩ := List.mem_filter.mp hb
    obtain ⟨m, hm, heq, hrow⟩ := h.bindings b hmem
    refine ⟨m, hm, heq, hhas hrow fun hid => ?_⟩
    by_contra hne
    have hothers : s.isOthers id owner b = true := by
      rw [Tables.isOthers, Bool.and_eq_true]
      exact ⟨beq_iff_eq.mpr hid, List.any_eq_true.mpr ⟨m, hm, by simp [heq, hne]⟩⟩
    rw [hothers] at hleft
    cases hleft

/-! ### Rows deleted -/

/-- Rows are deleted, and with a row what names it. -/
theorem of_left {s' : Tables} (h : Inv P s) (hdevices : s'.devices.Sublist s.devices)
    (hprofiles : s'.profiles.Sublist s.profiles) (hmappings : s'.mappings.Sublist s.mappings)
    (hcredentials : ∀ c ∈ s'.credentials, c ∈ s.credentials ∧
      (∀ d ∈ s.devices, d.id = c.device_id → d ∈ s'.devices) ∧
        (⟨c.profile_id, c.user_id⟩ ∈ s.profiles → ⟨c.profile_id, c.user_id⟩ ∈ s'.profiles))
    (hattributes : ∀ a ∈ s'.attributes, a ∈ s.attributes ∧
      ∀ d ∈ s.devices, d.id = a.device_id → d ∈ s'.devices)
    (hbindings : ∀ b ∈ s'.bindings, b ∈ s.bindings ∧
      (∀ d ∈ s.devices, d.id = b.device_id → d ∈ s'.devices) ∧
        ∀ m ∈ s.mappings, m.id = b.mapping_id → m ∈ s'.mappings) : Inv P s' := by
  have hhas : ∀ {device_id user_id}, Has P s device_id user_id →
      (∀ d ∈ s.devices, d.id = device_id → d ∈ s'.devices) → Has P s' device_id user_id := by
    rintro device_id user_id ⟨d, hd, heq, hP⟩ hleft
    exact ⟨d, hleft d hd heq, heq, hP⟩
  constructor
  · exact h.devices.sublist (hdevices.map _)
  · exact h.profiles.sublist (hprofiles.map _)
  · exact h.mappings.sublist (hmappings.map _)
  · intro c hc
    obtain ⟨hmem, hdevice, hprofile⟩ := hcredentials c hc
    exact ⟨hhas (h.credentials c hmem).1 hdevice, hprofile (h.credentials c hmem).2⟩
  · intro a ha
    obtain ⟨hmem, hdevice⟩ := hattributes a ha
    exact hhas (h.attributes a hmem) hdevice
  · intro b hb
    obtain ⟨hmem, hdevice, hmapping⟩ := hbindings b hb
    obtain ⟨m, hm, heq, hrow⟩ := h.bindings b hmem
    exact ⟨m, hmapping m hm heq, heq, hhas hrow hdevice⟩

theorem deleteDevice (h : Inv P s) (id : Nat) : Inv P (s.deleteDevice id) := by
  have hleft : ∀ {device_id}, device_id ≠ id → ∀ d ∈ s.devices, d.id = device_id →
      d ∈ (s.deleteDevice id).devices := by
    rintro device_id hne d hd rfl
    exact List.mem_filter.mpr ⟨hd, bne_iff_ne.mpr hne⟩
  refine h.of_left List.filter_sublist (List.Sublist.refl _) (List.Sublist.refl _)
    (fun c hc => ?_) (fun a ha => ?_) (fun b hb => ?_)
  · obtain ⟨hmem, hne⟩ := List.mem_filter.mp hc
    exact ⟨hmem, hleft (bne_iff_ne.mp hne), fun hp => hp⟩
  · obtain ⟨hmem, hne⟩ := List.mem_filter.mp ha
    exact ⟨hmem, hleft (bne_iff_ne.mp hne)⟩
  · obtain ⟨hmem, hne⟩ := List.mem_filter.mp hb
    exact ⟨hmem, hleft (bne_iff_ne.mp hne), fun m hm _ => hm⟩

theorem deleteProfile (h : Inv P s) (id : Nat) : Inv P (s.deleteProfile id) := by
  refine h.of_left (List.Sublist.refl _) List.filter_sublist (List.Sublist.refl _)
    (fun c hc => ?_) (fun a ha => ⟨ha, fun d hd _ => hd⟩)
    (fun b hb => ⟨hb, fun d hd _ => hd, fun m hm _ => hm⟩)
  obtain ⟨hmem, hne⟩ := List.mem_filter.mp hc
  exact ⟨hmem, fun d hd _ => hd, fun hp => List.mem_filter.mpr ⟨hp, hne⟩⟩

theorem deleteMapping (h : Inv P s) (id : Nat) : Inv P (s.deleteMapping id) := by
  refine h.of_left (List.Sublist.refl _) (List.Sublist.refl _) List.filter_sublist
    (fun c hc => ⟨hc, fun d hd _ => hd, fun hp => hp⟩) (fun a ha => ⟨ha, fun d hd _ => hd⟩)
    (fun b hb => ?_)
  obtain ⟨hmem, hne⟩ := List.mem_filter.mp hb
  refine ⟨hmem, fun d hd _ => hd, fun m hm heq => List.mem_filter.mpr ⟨hm, ?_⟩⟩
  rw [heq]
  exact hne

theorem deleteValues (h : Inv P s) (name : Str) : Inv P (s.deleteValues v name) :=
  h.of_rows rfl rfl rfl (fun _ => .inl) (fun _ ha => .inl (List.mem_of_mem_filter ha))
    (fun _ => .inl)

/-- Nothing is left that names a user deleted, so their devices may lose their creator. -/
theorem deleteUser (h : Inv Allows s) (id : Nat) : Inv Allows (s.deleteUser id) := by
  have hprivate : Inv Allows
      ((s.devices.filter (Tables.isPrivateOf id)).foldl (fun s d => s.deleteDevice d.id) s) := by
    generalize s.devices.filter (Tables.isPrivateOf id) = devices
    induction devices generalizing s with
    | nil => exact h
    | cons d devices ih => exact ih (h.deleteDevice d.id)
  rw [Tables.deleteUser]
  generalize (s.devices.filter (Tables.isPrivateOf id)).foldl (fun s d => s.deleteDevice d.id) s
    = t at hprivate
  have hhas : ∀ {device_id user_id}, user_id ≠ id → Has Allows t device_id user_id →
      ∃ d ∈ t.devices.map fun d => if d.user_id = some id then { d with user_id := none } else d,
        d.id = device_id ∧ Allows d user_id := by
    rintro device_id user_id hne ⟨d, hd, rfl, hallows⟩
    refine ⟨_, List.mem_map_of_mem hd, ?_⟩
    split
    · rename_i howner
      refine ⟨rfl, .inl (hallows.resolve_right fun hown => hne ?_)⟩
      exact Option.some.inj (hown.symm.trans howner)
    · exact ⟨rfl, hallows⟩
  constructor
  · rw [List.map_map, List.map_congr_left (g := (·.id))]
    · exact hprivate.devices
    · intro d _
      show (if d.user_id = some id then { d with user_id := none } else d).id = d.id
      split <;> rfl
  · exact hprivate.profiles.sublist (List.filter_sublist.map _)
  · exact hprivate.mappings.sublist (List.filter_sublist.map _)
  · intro c hc
    obtain ⟨hmem, hne⟩ := List.mem_filter.mp hc
    obtain ⟨hrow, hprofile⟩ := hprivate.credentials c hmem
    exact ⟨hhas (bne_iff_ne.mp hne) hrow, List.mem_filter.mpr ⟨hprofile, hne⟩⟩
  · intro a ha
    obtain ⟨hmem, hne⟩ := List.mem_filter.mp ha
    exact hhas (bne_iff_ne.mp hne) (hprivate.attributes a hmem)
  · intro b hb
    obtain ⟨hmem, hother⟩ := List.mem_filter.mp hb
    obtain ⟨m, hm, heq, hrow⟩ := hprivate.bindings b hmem
    have hne : m.user_id ≠ id := by
      intro huser
      rw [isOf_iff.mpr ⟨m, hm, heq, huser⟩] at hother
      cases hother
    exact ⟨m, List.mem_filter.mpr ⟨hm, bne_iff_ne.mpr hne⟩, heq, hhas hne hrow⟩

/-! ### Rows added and edited -/

theorem addProfile {profile_id : Nat} (h : Inv P s) (hnew : s.newProfile profile_id = true) :
    Inv P { s with profiles := s.profiles ++ [⟨profile_id, v.id⟩] } := by
  refine { h with profiles := ?_, credentials := ?_ }
  · rw [List.map_append, List.map_singleton]
    refine List.nodup_append.mpr ⟨h.profiles, List.nodup_singleton _, fun a ha b hb heq => ?_⟩
    obtain ⟨p, hp, rfl⟩ := List.mem_map.mp ha
    exact bne_iff_ne.mp (List.all_eq_true.mp hnew p hp) (heq.trans (List.mem_singleton.mp hb))
  · intro c hc
    exact ⟨(h.credentials c hc).1, List.mem_append_left _ (h.credentials c hc).2⟩

theorem addMapping {m : VariableMapping} (h : Inv P s) (hnew : s.newMapping m.id = true) :
    Inv P { s with mappings := s.mappings ++ [m] } := by
  refine { h with mappings := ?_, bindings := ?_ }
  · rw [List.map_append, List.map_singleton]
    refine List.nodup_append.mpr ⟨h.mappings, List.nodup_singleton _, fun a ha b hb heq => ?_⟩
    obtain ⟨n, hn, rfl⟩ := List.mem_map.mp ha
    exact bne_iff_ne.mp (List.all_eq_true.mp hnew n hn) (heq.trans (List.mem_singleton.mp hb))
  · intro b hb
    obtain ⟨n, hn, hrow⟩ := h.bindings b hb
    exact ⟨n, List.mem_append_left _ hn, hrow⟩

/-- A mapping's fields are edited, not whose it is. -/
theorem editMappings {f : VariableMapping → VariableMapping} (h : Inv P s)
    (hf : ∀ m, (f m).id = m.id ∧ (f m).user_id = m.user_id) :
    Inv P { s with mappings := s.mappings.map f } := by
  refine { h with mappings := ?_, bindings := ?_ }
  · have hids : s.mappings.map ((·.id) ∘ f) = s.mappings.map (·.id) :=
      List.map_congr_left fun m _ => (hf m).1
    rw [List.map_map, hids]
    exact h.mappings
  · intro b hb
    obtain ⟨m, hm, heq, hrow⟩ := h.bindings b hb
    refine ⟨f m, List.mem_map_of_mem hm, (hf m).1.trans heq, ?_⟩
    rw [(hf m).2]
    exact hrow

end Inv
end Inventory
end NetRollout
