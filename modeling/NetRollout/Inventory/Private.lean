import NetRollout.Inventory.Invariant

/-!
# Private devices stay private

`private_kept`: whatever users do, a private device has rows of its owner only, every link names
a profile of its own user, and what `RuleRefused` ends changes nothing.

Each method ends in a state of the invariant from one whose device the viewer may have rows on;
`save_device` is followed through the weaker invariant where it makes the device private.
-/

namespace NetRollout
namespace Inventory

open PyText (Str)
open Rollout (Value mapping_resolvable)
open Effects (Ends)

variable {P : Device → Nat → Prop} {s : Tables} {v : Viewer} {id : Nat}

/-! ## Methods -/

/-- The invariant, and a device the viewer may have rows on. -/
def On (P : Device → Nat → Prop) (v : Viewer) (id : Nat) (s : Tables) : Prop :=
  Inv P s ∧ Has P s id v.id

theorem profile_allowed_congr {s' : Tables} {profile_id : Option Nat}
    (h : s'.profiles = s.profiles) :
    s'.profile_allowed v profile_id = s.profile_allowed v profile_id := by
  cases profile_id with
  | none => rfl
  | some p =>
    show s'.profiles.any _ = s.profiles.any _
    rw [h]

theorem link_profile_ends {profile_id : Option Nat} :
    Ends (fun s => On P v id s ∧ s.profile_allowed v profile_id = true)
      (link_profile v id profile_id)
      fun _ s => On P v id s ∧ s.profile_allowed v profile_id = true := by
  rintro s ⟨⟨hinv, hhas⟩, hallowed⟩
  refine ⟨(), s.link v id profile_id, ?_, ⟨hinv.link hhas hallowed, hhas.of_devices link_devices⟩,
    (profile_allowed_congr link_profiles).trans hallowed⟩
  rw [link_profile, Effects.get_bind, if_pos hallowed]
  rfl

theorem On.mono {Q : Device → Nat → Prop} (h : On P v id s) (hPQ : ∀ d u, P d u → Q d u) :
    On Q v id s := by
  obtain ⟨hinv, d, hd, heq, hP⟩ := h
  exact ⟨hinv.mono hPQ, d, hd, heq, hPQ d v.id hP⟩

theorem On.valued {values : AList fun _ : Str => Option Value} {own : List Str}
    (h : On P v id s) : On P v id (s.valued v id values own) :=
  ⟨h.1.valued h.2, h.2.of_devices valued_devices⟩

theorem set_custom_values_ends {values : AList fun _ : Str => Option Value} {own : List Str} :
    Ends (On P v id) (set_custom_values v id values own) fun _ => On P v id :=
  Ends.modify fun _ => On.valued

theorem bind_mappings_ends {mapping_ids : List Nat} :
    Ends (On P v id) (bind_mappings v id mapping_ids) fun _ => On P v id :=
  fun s hs => ⟨_, s.bound v id mapping_ids, rfl, hs.1.bound hs.2, hs.2.of_devices rfl⟩

/-- While it is saved a device that is made private may have rows of anyone. -/
def Saving (id : Nat) (made_private : Bool) (d : Device) (user_id : Nat) : Prop :=
  (made_private = true ∧ d.id = id) ∨ Allows d user_id

theorem On.setSystemValues {made_private : Bool} {values : AList fun _ : Str => Option Value}
    (h : On (Saving id made_private) v id s) :
    On (Saving id made_private) v id (s.change id (set_system_values · values)) := by
  have hkept : ∀ d ∈ s.devices, ∀ u, Saving id made_private d u →
      Saving id made_private (if d.id = id then set_system_values d values else d) u := by
    intro d _ u hd
    split
    · exact hd
    · exact hd
  exact ⟨h.1.change (fun _ => rfl) hkept, h.2.change (fun _ => rfl) hkept⟩

/-- The device's row is saved: it is a new one, or one the viewer may edit. -/
theorem On.saveRow {device : Option Device} {fields : DeviceFields} {is_global : Bool}
    (h : Inv Allows s)
    (hdevice : match device with
      | none => s.newDevice id = true
      | some d => d ∈ s.devices ∧ d.id = id ∧ v.can_edit d = true) :
    On (Saving id (device.any (·.is_global) && !is_global)) v id
      (s.saveRow v device id fields is_global) := by
  cases device with
  | none =>
    have hadded := (h.mono (Q := Saving id false) fun _ _ => .inr).addDevice
      (d := ⟨id, fields.label, fields.ip, fields.port, fields.device_type, ∅, is_global, some v.id⟩)
      hdevice
    exact ⟨hadded, _, List.mem_append_right _ List.mem_cons_self, rfl, .inr (.inr rfl)⟩
  | some d =>
    obtain ⟨hd, hid, hedit⟩ := hdevice
    have hkept : ∀ e ∈ s.devices, ∀ u, Allows e u →
        Saving id (d.is_global && !is_global)
          (if e.id = id then
            { e with
              label := fields.label
              ip := fields.ip
              port := fields.port
              device_type := fields.device_type
              is_global }
          else e) u := by
      intro e he u hallows
      split
      · rename_i heq
        have hsame : e = d := List.inj_on_of_nodup_map h.devices he hd (heq.trans hid.symm)
        subst hsame
        rcases hallows with hglobal | hown
        · cases hnow : is_global with
          | true => exact .inr (.inl rfl)
          | false => exact .inl ⟨by rw [hglobal]; rfl, heq⟩
        · exact .inr (.inr hown)
      · exact .inr hallows
    have hviewer : Allows d v.id := by
      rw [Viewer.can_edit, Bool.or_eq_true, Bool.and_eq_true, beq_iff_eq] at hedit
      exact hedit.symm.imp_left And.left
    exact ⟨h.change (fun _ => rfl) hkept,
      Has.change ⟨d, hd, hid, hviewer⟩ (fun _ => rfl) hkept⟩

/-- The device becomes the viewer's own, and the others' rows are dropped. -/
theorem Inv.makePrivate (h : Inv (Saving id true) s) :
    Inv Allows ((s.change id fun d => { d with user_id := some v.id }).ownersOnly id
      (((s.change id fun d => { d with user_id := some v.id }).devices.find? fun d =>
        d.id == id).bind (·.user_id))) := by
  have hchanged : Inv (fun d u => d.id = id ∨ Allows d u)
      (s.change id fun d => { d with user_id := some v.id }) := by
    refine h.change (fun _ => rfl) fun d _ u hd => ?_
    rcases hd with ⟨_, heq⟩ | hallows
    · rw [if_pos heq]
      exact .inl heq
    · split
      · rename_i heq
        exact .inl heq
      · exact .inr hallows
  have howner : ∀ d ∈ (s.change id fun d => { d with user_id := some v.id }).devices,
      d.id = id → d.user_id = some v.id := by
    intro d hd hid
    obtain ⟨e, -, rfl⟩ := List.mem_map.mp hd
    split at hid
    · rw [if_pos hid]
    · exact absurd hid ‹_›
  refine hchanged.ownersOnly fun d hd hid => ?_
  cases hfind : (s.change id fun d => { d with user_id := some v.id }).devices.find?
      fun d => d.id == id with
  | none => exact absurd (beq_iff_eq.mpr hid) (List.find?_eq_none.mp hfind d hd)
  | some e =>
    have heid : (e.id == id) = true := List.find?_some (p := fun e : Device => e.id == id) hfind
    rw [howner d hd hid, Option.bind_some,
      howner e (List.mem_of_find?_eq_some hfind) (beq_iff_eq.mp heid)]

/-- `save_device` ends where the profile is the viewer's. -/
theorem save_device_ends {device : Option Device} {fields : DeviceFields}
    {values : Option (AList fun _ : Str => Option Value)} {own : List Str}
    {mapping_ids : Option (List Nat)} (h : Inv Allows s)
    (hdevice : match device with
      | none => s.newDevice id = true
      | some d => d ∈ s.devices ∧ d.id = id ∧ v.can_edit d = true)
    (hallowed : s.profile_allowed v fields.profile_id = true) :
    Ends (· = s) (save_device v device id fields values own mapping_ids)
      fun _ => Inv Allows := by
  rw [save_device]
  refine Ends.get fun t ht => ?_
  subst ht
  rw [if_pos hallowed]
  set is_global := if v.is_admin = true then fields.make_global else device.any (·.is_global)
    with hglobal
  have hsave : Ends (· = t) (set (t.saveRow v device id fields is_global) : Session Unit) fun _ s =>
      On (Saving id (device.any (·.is_global) && !is_global)) v id s ∧
        s.profile_allowed v fields.profile_id = true := by
    rintro s rfl
    refine ⟨(), _, rfl, On.saveRow h hdevice, (profile_allowed_congr ?_).trans hallowed⟩
    cases device <;> rfl
  have hprivate : ∀ unbound : List Str,
      Ends (On (Saving id (device.any (·.is_global) && !is_global)) v id)
        (if (device.any (·.is_global) && !is_global) = true then do
          modify fun s => s.change id fun d => { d with user_id := some v.id }
          let removed ← drop_other_users id
          return ⟨fields.label, is_global, device.any (·.is_global), unbound, some removed⟩
        else return ⟨fields.label, is_global, device.any (·.is_global), unbound, none⟩ :
          Session SavedDevice)
        fun _ => Inv Allows := by
    intro unbound
    cases device.any (·.is_global) && !is_global with
    | false => exact Ends.pure fun s hs => hs.1.mono fun d u hd => hd.resolve_left (by simp)
    | true => exact fun s hs => ⟨_, _, rfl, hs.1.makePrivate⟩
  refine hsave.bind fun _ => link_profile_ends.bind fun _ => Ends.mono ?_ (fun _ => And.left)
    fun _ _ hs => hs
  cases values with
  | none =>
    cases mapping_ids with
    | none => exact hprivate []
    | some mapping_ids => exact bind_mappings_ends.bind hprivate
  | some values =>
    refine Ends.bind (J := fun _ => On _ v id) (Ends.modify fun _ => On.setSystemValues) fun _ =>
      set_custom_values_ends.bind fun _ => ?_
    cases mapping_ids with
    | none => exact hprivate []
    | some mapping_ids => exact bind_mappings_ends.bind hprivate

/-! ## Operations -/

/-- The operation ends in a state of the invariant, or is refused and changes nothing. -/
def EndsOrRefused (x : Session Unit) (s : Tables) : Prop :=
  (∃ s', x s = .ok () s' ∧ Inv Allows s') ∨ x s = .error .profileNotFound s

theorem endsOrRefused_of_ends {I : Tables → Prop} {x : Session Unit}
    (hx : Ends I x fun _ => Inv Allows) (hs : I s) : EndsOrRefused x s := by
  obtain ⟨u, s', hrun, hs'⟩ := hx s hs
  exact .inl ⟨s', hrun, hs'⟩

theorem on_of_get_visible {d : Device} (h : Inv Allows s) (hget : s.get_visible v id = some d) :
    On Allows v id s := by
  have hseen := List.find?_some hget
  simp only [Viewer.sees, Bool.and_eq_true, beq_iff_eq, Bool.or_eq_true] at hseen
  exact ⟨h, d, List.mem_of_find?_eq_some hget, hseen.1, hseen.2⟩

theorem of_get_editable {d : Device} (hget : s.get_editable v id = some d) :
    d ∈ s.devices ∧ d.id = id ∧ v.can_edit d = true := by
  have hseen := List.find?_some hget
  simp only [Bool.and_eq_true, beq_iff_eq] at hseen
  exact ⟨List.mem_of_find?_eq_some hget, hseen⟩

theorem link_profile_refused {profile_id : Option Nat}
    (h : s.profile_allowed v profile_id ≠ true) :
    link_profile v id profile_id s = .error .profileNotFound s := by
  rw [link_profile, Effects.get_bind, if_neg h]
  rfl

/-- A link is made to a profile of the viewer's, or refused. -/
theorem link_profile_endsOrRefused {profile_id : Option Nat} (h : On Allows v id s) :
    EndsOrRefused (link_profile v id profile_id) s := by
  by_cases hallowed : s.profile_allowed v profile_id = true
  · exact endsOrRefused_of_ends (link_profile_ends.mono (fun _ hs => hs) fun _ _ hs => hs.1.1)
      ⟨h, hallowed⟩
  · exact .inr (link_profile_refused hallowed)

/-- The link is refused before anything else is done. -/
theorem link_profile_then {profile_id : Option Nat} {rest : Unit → Session Unit}
    (h : On Allows v id s) (hrest : ∀ u, Ends (On Allows v id) (rest u) fun _ => Inv Allows) :
    EndsOrRefused (link_profile v id profile_id >>= rest) s := by
  by_cases hallowed : s.profile_allowed v profile_id = true
  · exact endsOrRefused_of_ends (link_profile_ends.bind fun u => (hrest u).mono (fun _ => And.left)
      fun _ _ hs => hs) ⟨h, hallowed⟩
  · exact .inr (Effects.bind_of_error (link_profile_refused hallowed))

/-- A save is refused before anything is saved. -/
theorem save_device_endsOrRefused {device : Option Device} {fields : DeviceFields}
    {values : Option (AList fun _ : Str => Option Value)} {own : List Str}
    {mapping_ids : Option (List Nat)} (h : Inv Allows s)
    (hdevice : match device with
      | none => s.newDevice id = true
      | some d => d ∈ s.devices ∧ d.id = id ∧ v.can_edit d = true) :
    EndsOrRefused (do let _ ← save_device v device id fields values own mapping_ids) s := by
  by_cases hallowed : s.profile_allowed v fields.profile_id = true
  · exact endsOrRefused_of_ends
      ((save_device_ends h hdevice hallowed).bind fun _ => Ends.pure fun _ hs => hs) rfl
  · refine .inr (Effects.bind_of_error ?_)
    rw [save_device, Effects.get_bind, if_neg hallowed]
    rfl

/-- A link to a device the viewer may have rows on, where the profile is the viewer's. -/
theorem linked_of_allowed {profile_id : Option Nat} (hallowed : s.profile_allowed v profile_id = true)
    (h : On Allows v id s) :
    Ends (· = s) (link_profile v id profile_id) fun _ s =>
      Inv Allows s ∧ s.profile_allowed v profile_id = true := by
  refine link_profile_ends.mono ?_ fun _ _ hs => ⟨hs.1.1, hs.2⟩
  rintro t rfl
  exact ⟨h, hallowed⟩

/-- A turn of a rollback's loop raises nothing. -/
theorem rollbackLink_ends {owner : Viewer} {profile_id : Nat} :
    Ends (fun s => Inv Allows s ∧ s.profile_allowed v (some profile_id) = true)
      (rollbackLink v owner profile_id id)
      fun _ s => Inv Allows s ∧ s.profile_allowed v (some profile_id) = true := by
  refine Ends.get fun t ht => ?_
  have hsame : ∀ s, s = t → Inv Allows s ∧ s.profile_allowed v (some profile_id) = true := by
    rintro s rfl
    exact ht
  cases hget : t.get_visible owner id with
  | none => exact Ends.pure hsame
  | some d =>
    show Ends (· = t) (if !t.credentials.any (Tables.isLink v id) &&
      (d.is_global || d.user_id == some v.id) then link_profile v id (some profile_id)
        else pure ()) _
    split
    · rename_i hlink
      have hseen := List.find?_some hget
      simp only [Bool.and_eq_true, Bool.or_eq_true, beq_iff_eq] at hlink hseen
      exact linked_of_allowed ht.2
        ⟨ht.1, d, List.mem_of_find?_eq_some hget, hseen.1, hlink.2⟩
    · exact Ends.pure hsame

theorem Inv.assign {m : VariableMapping} {assigned ids : List Nat} (h : Inv Allows s)
    (hm : m ∈ s.mappings) (huser : m.user_id = v.id) :
    Inv Allows (ids.foldl (assign v m assigned) s) := by
  induction ids generalizing s with
  | nil => exact h
  | cons id ids ih =>
    rw [List.foldl_cons, Inventory.assign]
    cases hget : s.get_visible v id with
    | none => exact ih h hm
    | some d =>
      dsimp only
      split
      · refine ih (h.of_rows rfl rfl rfl (fun _ => .inl) (fun _ => .inl) fun b hb => ?_) hm
        rcases List.mem_append.mp hb with hb | hb
        · exact .inl hb
        · rw [List.mem_singleton.mp hb]
          refine .inr ⟨m, hm, rfl, ?_⟩
          rw [huser]
          exact (on_of_get_visible h hget).2
      · exact ih h hm

/-- A row of an import: the device, its values and its link. -/
theorem Inv.importRow {fields : DeviceFields} {values : AList fun _ : Str => Option Value}
    {own : List Str} {profile_id : Option Nat} (h : Inv Allows s) (hnew : s.newDevice id = true)
    (hprofile : profile_id.all (fun p => s.owned v p || s.newProfile p) = true) :
    ∃ s', perform (.importRow v id fields values own profile_id) s = .ok () s' ∧
      Inv Allows s' := by
  have hrow : On (Saving id ((none : Option Device).any (·.is_global) && !false)) v id
      (s.saveRow v none id fields false) := On.saveRow h hnew
  obtain ⟨t, ht⟩ : ∃ t, t = ((s.saveRow v none id fields false).change id
    (set_system_values · values)).valued v id values own := ⟨_, rfl⟩
  have hon : On Allows v id t := by
    rw [ht]
    exact hrow.setSystemValues.valued.mono fun d u hd => hd.resolve_left (by simp)
  have hprofiles : t.profiles = s.profiles := by
    rw [ht]
    exact valued_profiles
  cases profile_id with
  | none =>
    refine ⟨t, ?_, hon.1⟩
    rw [ht]
    rfl
  | some p =>
    have howned : t.owned v p = s.owned v p := by
      rw [Tables.owned, hprofiles]
      rfl
    refine ⟨(if t.owned v p then t
      else { t with profiles := t.profiles ++ [⟨p, v.id⟩] }).link v id (some p), ?_, ?_⟩
    · rw [ht]
      rfl
    · split
      · rename_i hown
        exact hon.1.link hon.2 hown
      · rename_i hown
        have hnewProfile : t.newProfile p = true := by
          simp only [Option.all_some, Bool.or_eq_true] at hprofile
          rw [Tables.newProfile, hprofiles]
          exact hprofile.resolve_left fun hs => hown (howned.trans hs)
        refine (hon.1.addProfile hnewProfile).link (hon.2.of_devices rfl) ?_
        exact List.any_eq_true.mpr ⟨⟨p, v.id⟩, List.mem_append_right _ List.mem_cons_self, by simp⟩

/-- What one operation does to the invariant. -/
theorem perform_endsOrRefused (h : Inv Allows s) {op : Operation} (henabled : enabled s op = true) :
    EndsOrRefused (perform op) s := by
  cases op with
  | addUser id =>
    exact .inl ⟨_, rfl, h.of_rows rfl rfl rfl (fun _ => .inl) (fun _ => .inl) fun _ => .inl⟩
  | deleteUser id => exact .inl ⟨_, rfl, h.deleteUser id⟩
  | createProfile v id =>
    exact .inl ⟨_, rfl, h.addProfile (Bool.and_eq_true_iff.mp henabled).2⟩
  | deleteProfile v id =>
    refine .inl ⟨_, rfl, ?_⟩
    dsimp only
    split
    · exact h.deleteProfile id
    · exact h
  | createMapping v id token property_name index =>
    exact .inl ⟨_, rfl, h.addMapping (Bool.and_eq_true_iff.mp henabled).2⟩
  | editMapping v id token property_name index =>
    refine .inl ⟨_, rfl, h.editMappings fun m => ?_⟩
    split
    · exact ⟨rfl, rfl⟩
    · exact ⟨rfl, rfl⟩
  | deleteMapping v id =>
    refine .inl ⟨_, rfl, ?_⟩
    dsimp only
    split
    · exact h.deleteMapping id
    · exact h
  | deleteProperty v name => exact .inl ⟨_, rfl, h.deleteValues name⟩
  | add v id fields values own mapping_ids =>
    show EndsOrRefused (do let _ ← save_device v none id fields values own mapping_ids) s
    exact save_device_endsOrRefused h (Bool.and_eq_true_iff.mp henabled).2
  | edit v id fields values own mapping_ids =>
    rw [EndsOrRefused, perform, Effects.get_bind]
    cases hget : s.get_editable v id with
    | none => exact .inl ⟨s, rfl, h⟩
    | some d =>
      show EndsOrRefused (do let _ ← save_device v (some d) id fields values own mapping_ids) s
      exact save_device_endsOrRefused h (of_get_editable hget)
  | link v id profile_id =>
    rw [EndsOrRefused, perform, Effects.get_bind]
    cases hget : s.get_visible v id with
    | none => exact .inl ⟨s, rfl, h⟩
    | some d => exact link_profile_endsOrRefused (on_of_get_visible h hget)
  | setValues v id values own =>
    rw [EndsOrRefused, perform, Effects.get_bind]
    cases hget : s.get_visible v id with
    | none => exact .inl ⟨s, rfl, h⟩
    | some d =>
      exact endsOrRefused_of_ends (set_custom_values_ends.mono (fun _ hs => hs) fun _ _ => And.left)
        (on_of_get_visible h hget)
  | bind v id mapping_ids =>
    rw [EndsOrRefused, perform, Effects.get_bind]
    cases hget : s.get_visible v id with
    | none => exact .inl ⟨s, rfl, h⟩
    | some d =>
      exact endsOrRefused_of_ends (bind_mappings_ends.bind fun _ => Ends.pure fun _ => And.left)
        (on_of_get_visible h hget)
  | attributes v id profile_id values own mapping_ids =>
    have hrest : Ends (On Allows v id) (do
        set_custom_values v id values own
        let _ ← bind_mappings v id mapping_ids) fun _ => Inv Allows :=
      set_custom_values_ends.bind fun _ => bind_mappings_ends.bind fun _ => Ends.pure fun _ => And.left
    rw [EndsOrRefused, perform, Effects.get_bind]
    cases hget : s.get_visible v id with
    | none => exact .inl ⟨s, rfl, h⟩
    | some d =>
      cases profile_id with
      | none => exact endsOrRefused_of_ends hrest (on_of_get_visible h hget)
      | some profile_id => exact link_profile_then (on_of_get_visible h hget) fun _ => hrest
  | bulkAssign v profile_id ids =>
    rw [EndsOrRefused, perform, Effects.get_bind]
    split
    · rename_i hallowed
      refine endsOrRefused_of_ends (I := fun s => Inv Allows s ∧ s.profile_allowed v profile_id = true)
        (Ends.mono (Ends.forM fun id _ => Ends.get fun t ht => ?_) (fun _ hs => hs)
          fun _ _ => And.left) ⟨h, hallowed⟩
      cases hget : t.get_visible v id with
      | none =>
        refine Ends.pure ?_
        rintro s rfl
        exact ht
      | some d => exact linked_of_allowed ht.2 (on_of_get_visible ht.1 hget)
    · exact .inl ⟨s, rfl, h⟩
  | assignMapping v mapping_id ids remove_ids =>
    refine .inl ⟨_, rfl, ?_⟩
    dsimp only
    cases hfind : s.mappings.find? fun m => m.id == mapping_id && m.user_id == v.id with
    | none => exact h
    | some m =>
      have hmine := List.find?_some hfind
      simp only [Bool.and_eq_true, beq_iff_eq] at hmine
      have hleft : Inv Allows { s with
          bindings := s.bindings.filter fun b =>
            !(b.mapping_id == m.id && remove_ids.contains b.device_id) } :=
        h.of_rows rfl rfl rfl (fun _ => .inl) (fun _ => .inl) fun b hb =>
          .inl (List.mem_of_mem_filter hb)
      exact hleft.assign (List.mem_of_find?_eq_some hfind) hmine.2
  | rollback v owner profile_id ids =>
    rw [EndsOrRefused, perform, Effects.get_bind]
    split
    · rename_i howned
      exact endsOrRefused_of_ends ((Ends.forM fun id _ => rollbackLink_ends).mono (fun _ hs => hs)
        fun _ _ => And.left) ⟨h, howned⟩
    · exact .inl ⟨s, rfl, h⟩
  | delete v id =>
    refine .inl ⟨_, rfl, ?_⟩
    dsimp only
    split
    · exact h
    · exact h.deleteDevice id
  | importRow v id fields values own profile_id =>
    obtain ⟨hdevice, hprofile⟩ := Bool.and_eq_true_iff.mp henabled
    exact .inl (h.importRow (Bool.and_eq_true_iff.mp hdevice).2 hprofile)

/-! ## Runs -/

/-- A private device has rows of its owner only, and a link is to a profile of its user. -/
structure PrivateKept (s : Tables) : Prop where
  credentials : ∀ d ∈ s.devices, d.is_global = false → ∀ c ∈ s.credentials, c.device_id = d.id →
    d.user_id = some c.user_id
  attributes : ∀ d ∈ s.devices, d.is_global = false → ∀ a ∈ s.attributes, a.device_id = d.id →
    d.user_id = some a.user_id
  bindings : ∀ d ∈ s.devices, d.is_global = false → ∀ b ∈ s.bindings, b.device_id = d.id →
    (∃ m ∈ s.mappings, m.id = b.mapping_id) ∧
      ∀ m ∈ s.mappings, m.id = b.mapping_id → d.user_id = some m.user_id
  links : ∀ c ∈ s.credentials, ⟨c.profile_id, c.user_id⟩ ∈ s.profiles

theorem Inv.privateKept (h : Inv Allows s) : PrivateKept s := by
  have howner : ∀ {device_id user_id}, Has Allows s device_id user_id → ∀ d ∈ s.devices,
      d.is_global = false → device_id = d.id → d.user_id = some user_id := by
    rintro device_id user_id ⟨e, he, rfl, hallows⟩ d hd hprivate heq
    have hsame : e = d := List.inj_on_of_nodup_map h.devices he hd heq
    subst hsame
    refine hallows.resolve_left fun hglobal => ?_
    rw [hprivate] at hglobal
    cases hglobal
  constructor
  · exact fun d hd hprivate c hc => howner (h.credentials c hc).1 d hd hprivate
  · exact fun d hd hprivate a ha => howner (h.attributes a ha) d hd hprivate
  · intro d hd hprivate b hb heq
    obtain ⟨m, hm, hid, hrow⟩ := h.bindings b hb
    refine ⟨⟨m, hm, hid⟩, fun n hn hnid => ?_⟩
    have hsame : n = m := List.inj_on_of_nodup_map h.mappings hn hm (hnid.trans hid.symm)
    rw [hsame]
    exact howner hrow d hd hprivate heq
  · exact fun c hc => (h.credentials c hc).2

theorem inv_of_reachable (h : inventory.Reachable System.always s) : Inv Allows s := by
  refine h.invariant ?_ fun s op s' _ _ hinv hstep => ?_
  · rintro s rfl
    exact ⟨List.nodup_nil, List.nodup_nil, List.nodup_nil, fun c hc => (List.not_mem_nil hc).elim,
      fun a ha => (List.not_mem_nil ha).elim, fun b hb => (List.not_mem_nil hb).elim⟩
  · simp only [inventory, Option.ite_none_right_eq_some, Option.some.injEq] at hstep
    obtain ⟨henabled, rfl⟩ := hstep
    rcases perform_endsOrRefused hinv henabled with ⟨s', hrun, hs'⟩ | hrun
    · rw [hrun]
      exact hs'
    · rw [hrun]
      exact hinv

/-- **Private devices stay private**, and what is refused changes nothing. -/
theorem private_kept {s : Tables} (h : inventory.Reachable System.always s) :
    PrivateKept s ∧ ∀ op e s', enabled s op = true → perform op s = .error e s' → s' = s := by
  refine ⟨(inv_of_reachable h).privateKept, fun op e s' henabled hrefused => ?_⟩
  rcases perform_endsOrRefused (inv_of_reachable h) henabled with ⟨t, hrun, -⟩ | hrun
  · rw [hrun] at hrefused
    cases hrefused
  · rw [hrun] at hrefused
    cases hrefused
    rfl

/-- An admin's shared device has another user's link, value and binding.  Made private it has the
admin's link alone, and the other user's next link is to nothing they see. -/
theorem private_kept_made_private : ∃ s, inventory.Reachable System.always s ∧ PrivateKept s ∧
    (s.devices.any (fun d => !d.is_global && d.user_id == some 1) &&
      s.credentials == [⟨7, 1, 3⟩] && s.attributes == [] && s.bindings == []) = true ∧
    perform (.add ⟨2, false⟩ 8 ⟨"b".toList, 22, [], [], some 3, false⟩ none [] none) s =
      .error .profileNotFound s := by
  have hrun : (inventory.exec System.always {} [
      .addUser 1, .addUser 2, .createProfile ⟨1, true⟩ 3, .createProfile ⟨2, false⟩ 4,
      .createMapping ⟨2, false⟩ 5 "T".toList "rack".toList none,
      .add ⟨1, true⟩ 7 ⟨"a".toList, 22, [], [], none, true⟩ none [] none,
      .attributes ⟨2, false⟩ 7 (some (some 4))
        (AList.singleton "rack".toList (some (.text "r1".toList))) ["rack".toList] [5],
      .edit ⟨1, true⟩ 7 ⟨"a".toList, 22, [], [], some 3, false⟩ none [] none,
      .link ⟨2, false⟩ 7 (some 4)]).any (fun s =>
        s.devices.any (fun d => !d.is_global && d.user_id == some 1) &&
          s.credentials == [⟨7, 1, 3⟩] && s.attributes == [] && s.bindings == [] &&
            !s.owned ⟨2, false⟩ 3) = true := by decide +kernel
  obtain ⟨s, hreach, hend⟩ := System.exists_reachable (by exact rfl) hrun
  obtain ⟨hrows, howned⟩ := Bool.and_eq_true_iff.mp hend
  refine ⟨s, hreach, (private_kept hreach).1, hrows, ?_⟩
  refine Effects.bind_of_error ?_
  rw [save_device, Effects.get_bind, if_neg]
  · rfl
  · show ¬s.owned ⟨2, false⟩ 3 = true
    simpa using howned

end Inventory
end NetRollout
