import NetRollout.Inventory.Import

/-!
# What an import gives a device

What is read on an imported device, by the user who imported it and by others: `import_values`.
-/

namespace NetRollout
namespace Inventory
namespace Import

open PyText (Str Unicode)
open Rollout (Value)
open Columns
open Resolver (Fernet Profile)

variable {T : Type} {s : Tables} {v : Viewer} {id : Nat} {own : List Str} {ids : Nat → Nat}

/-! ## What is read on an imported device -/

theorem lookup_system_values (d : Device) (name : Str) :
    (system_values d).lookup name =
      if name ∈ SYSTEM_NAMES then d.var_maps.lookup name else none := by
  suffices h : ∀ entries : List (Sigma fun _ : Str => Value),
      (entries.foldr (fun e values => if e.1 ∈ SYSTEM_NAMES then values.insert e.1 e.2 else values)
        (∅ : Values)).lookup name = if name ∈ SYSTEM_NAMES then entries.dlookup name else none from
    h d.var_maps.entries
  intro entries
  induction entries with
  | nil => exact (ite_self _).symm
  | cons e entries ih =>
    obtain ⟨key, value⟩ := e
    rw [List.foldr_cons]
    by_cases hname : name = key
    · subst hname
      rw [List.dlookup_cons_eq]
      split
      · exact AList.lookup_insert _
      · next hno => rw [ih, if_neg hno]
    · rw [List.dlookup_cons_ne _ _ hname, ← ih]
      split
      · exact AList.lookup_insert_ne hname
      · rfl

/-- A system property after its values are set, each name once. -/
theorem lookup_foldl_system {entries : List (Sigma fun _ : Str => Option Value)}
    (hnodup : entries.NodupKeys) (start : Values) (name : Str) :
    (entries.foldl (fun var_maps e =>
      if e.1 ∈ SYSTEM_NAMES then
        match given e.2 with
        | some value => var_maps.insert e.1 value
        | none => var_maps.erase e.1
      else var_maps) start).lookup name =
    if name ∈ SYSTEM_NAMES then ((entries.dlookup name).map given).getD (start.lookup name)
    else start.lookup name := by
  induction entries generalizing start with
  | nil => exact (ite_self _).symm
  | cons e entries ih =>
    obtain ⟨key, value⟩ := e
    rw [List.nodupKeys_cons] at hnodup
    rw [List.foldl_cons, ih hnodup.2]
    by_cases hname : name = key
    · subst hname
      rw [List.dlookup_eq_none.mpr hnodup.1, List.dlookup_cons_eq]
      split
      · show AList.lookup name (match given value with
          | some v => start.insert name v
          | none => start.erase name) = given value
        cases given value with
        | none => exact AList.lookup_erase ..
        | some v => exact AList.lookup_insert ..
      · rfl
    · rw [List.dlookup_cons_ne _ _ hname]
      have hsame : AList.lookup name (if key ∈ SYSTEM_NAMES then
          match given value with
          | some v => start.insert key v
          | none => start.erase key
        else start) = start.lookup name := by
        split
        · cases given value with
          | none => exact AList.lookup_erase_ne hname
          | some v => exact AList.lookup_insert_ne hname
        · rfl
      rw [hsame]

/-- A row's system values. -/
theorem lookup_deviceRow (v : Viewer) (id : Nat) (row : Imported T) (name : Str) :
    (system_values (deviceRow v id row)).lookup name =
      if name ∈ SYSTEM_NAMES then (row.values.lookup name).bind given else none := by
  rw [lookup_system_values]
  split
  · next hname =>
    refine (lookup_foldl_system row.values.nodupKeys _ name).trans ?_
    rw [if_pos hname, lookup_system_values, AList.lookup_empty, ite_self]
    show _ = (row.values.entries.dlookup name).bind given
    cases row.values.entries.dlookup name <;> rfl
  · rfl

/-- A user's custom values on top of others, each name once. -/
theorem lookup_foldl_attributes {entries : List (Sigma fun _ : Str => Option Value)}
    (hnodup : entries.NodupKeys) (start : Values) (name : Str) :
    (((entries.filter fun e => e.1 ∈ own).filterMap fun e => (given e.2).map fun value =>
      (⟨id, v.id, e.1, value⟩ : DeviceAttribute)).foldl
        (fun values a => values.insert a.name a.value) start).lookup name =
    if name ∈ own then ((entries.dlookup name).bind given).or (start.lookup name)
    else start.lookup name := by
  induction entries generalizing start with
  | nil => exact (ite_self _).symm
  | cons e entries ih =>
    obtain ⟨key, value⟩ := e
    rw [List.nodupKeys_cons] at hnodup
    rw [List.filter_cons]
    by_cases hown : key ∈ own
    · rw [if_pos (decide_eq_true hown), List.filterMap_cons]
      by_cases hname : name = key
      · subst hname
        rw [List.dlookup_cons_eq, if_pos hown, Option.bind_some]
        cases hgiven : given value with
        | none =>
          have hrest := ih hnodup.2 start
          rw [List.dlookup_eq_none.mpr hnodup.1, if_pos hown] at hrest
          exact hrest
        | some w =>
          have hrest := ih hnodup.2 (start.insert name w)
          rw [List.dlookup_eq_none.mpr hnodup.1, if_pos hown, AList.lookup_insert] at hrest
          exact hrest
      · rw [List.dlookup_cons_ne _ _ hname]
        cases hgiven : given value with
        | none => exact ih hnodup.2 start
        | some w =>
          have hrest := ih hnodup.2 (start.insert key w)
          rw [AList.lookup_insert_ne hname] at hrest
          exact hrest
    · rw [if_neg (by simpa using hown), ih hnodup.2]
      by_cases hname : name = key
      · rw [hname, if_neg hown, if_neg hown]
      · rw [List.dlookup_cons_ne _ _ hname]

theorem flatMap_eq_of_mem {β γ : Type} {l : List β} {f : β → List γ} {b : β} (hnodup : l.Nodup)
    (hb : b ∈ l) (hother : ∀ c ∈ l, c ≠ b → f c = []) : l.flatMap f = f b := by
  induction l with
  | nil => cases hb
  | cons c l ih =>
    rw [List.nodup_cons] at hnodup
    rw [List.flatMap_cons]
    rcases List.mem_cons.mp hb with rfl | hb
    · have hrest : l.flatMap f = [] := by
        refine List.flatMap_eq_nil_iff.mpr fun c hc => hother c (List.mem_cons_of_mem _ hc) ?_
        rintro rfl
        exact hnodup.1 hc
      rw [hrest, List.append_nil]
    · have hne : c ≠ b := by
        rintro rfl
        exact hnodup.1 hb
      rw [hother c List.mem_cons_self hne, List.nil_append]
      exact ih hnodup.2 hb fun d hd => hother d (List.mem_cons_of_mem _ hd)

/-- A user's values on an imported device. -/
theorem filter_added (hinv : Inv Allows s) (hids : Function.Injective ids)
    (hdevices : ∀ i, s.newDevice (ids i) = true) {rows : List (Imported T)} (made : List Nat)
    {p : Imported T × Nat} (hp : p ∈ rows.zipIdx) (u : Viewer) :
    (added v own ids rows.zipIdx made s).attributes.filter
        (fun a => a.device_id == ids p.2 && a.user_id == u.id) =
      if u.id = v.id then attributeRows v own (ids p.2) p.1 else [] := by
  have hrow : ∀ (q : Imported T × Nat), ∀ a ∈ attributeRows v own (ids q.2) q.1,
      a.device_id = ids q.2 ∧ a.user_id = v.id := by
    intro q a ha
    obtain ⟨e, -, he⟩ := List.mem_filterMap.mp ha
    obtain ⟨value, -, rfl⟩ := Option.map_eq_some_iff.mp he
    exact ⟨rfl, rfl⟩
  have hold : s.attributes.filter (fun a => a.device_id == ids p.2 && a.user_id == u.id) = [] := by
    refine List.filter_eq_nil_iff.mpr fun a ha hboth => ?_
    rw [Bool.and_eq_true, beq_iff_eq] at hboth
    exact (no_rows_of_newDevice hinv (hdevices p.2)).1 a ha hboth.1
  have hindices : (rows.zipIdx.map Prod.snd).Nodup := by
    rw [List.zipIdx_map_snd]
    exact List.nodup_range'
  rw [added, List.filter_append, hold, List.nil_append, List.filter_flatMap]
  rw [flatMap_eq_of_mem (List.Nodup.of_map _ hindices) hp fun q hq hne => ?_]
  · split
    · next huser =>
      refine List.filter_eq_self.mpr fun a ha => ?_
      rw [(hrow p a ha).1, (hrow p a ha).2, huser, beq_self_eq_true, beq_self_eq_true]
      rfl
    · next huser =>
      refine List.filter_eq_nil_iff.mpr fun a ha hboth => ?_
      rw [Bool.and_eq_true, beq_iff_eq, beq_iff_eq] at hboth
      exact huser (hboth.2.symm.trans (hrow p a ha).2)
  · refine List.filter_eq_nil_iff.mpr fun a ha hboth => hne ?_
    rw [Bool.and_eq_true, beq_iff_eq, (hrow q a ha).1] at hboth
    exact List.inj_on_of_nodup_map hindices hq hp (hids hboth.1)

/-- What a user reads on an imported device: the row's system values, and the importing user the
values of their own properties too. -/
theorem lookup_attributesOf (hinv : Inv Allows s) (hids : Function.Injective ids)
    (hdevices : ∀ i, s.newDevice (ids i) = true) (hown : ∀ name ∈ own, name ∉ SYSTEM_NAMES)
    {rows : List (Imported T)} (made : List Nat) {p : Imported T × Nat} (hp : p ∈ rows.zipIdx)
    (u : Viewer) (name : Str) :
    ((added v own ids rows.zipIdx made s).attributesOf u (deviceRow v (ids p.2) p.1)).lookup name =
      if name ∈ SYSTEM_NAMES ∨ u.id = v.id ∧ name ∈ own then (p.1.values.lookup name).bind given
      else none := by
  have hid : (deviceRow v (ids p.2) p.1).id = ids p.2 := rfl
  rw [Tables.attributesOf, hid, filter_added hinv hids hdevices made hp]
  by_cases huser : u.id = v.id
  · rw [if_pos huser, attributeRows, lookup_foldl_attributes p.1.values.nodupKeys, lookup_deviceRow]
    show (if name ∈ own then ((p.1.values.lookup name).bind given).or _ else _) = _
    by_cases hname : name ∈ own
    · rw [if_pos hname, if_neg (hown name hname), Option.or_none, if_pos (Or.inr ⟨huser, hname⟩)]
    · simp only [hname, and_false, or_false, if_false]
  · rw [if_neg huser, List.foldl_nil, lookup_deviceRow]
    simp only [huser, false_and, or_false]

/-- A cell's property is one of the user's. -/
theorem mem_own_of_cellsOf [Unicode] {options : Options} {headers : List Str}
    {extra : List (Str × Value)} {name : Str}
    (h : cellsOf extra (classifyColumns headers options.properties).props name ≠ [])
    (hname : name ∉ SYSTEM_NAMES) : name ∈ ownOf options := by
  obtain ⟨value, hvalue⟩ := List.exists_mem_of_ne_nil _ h
  obtain ⟨column, hcolumn, -⟩ := List.mem_filterMap.mp hvalue
  obtain ⟨hmem, hprop⟩ := List.mem_filter.mp hcolumn
  have hplaced := classified headers options.properties
  obtain ⟨-, -, hfound⟩ := (hplaced.props column.1 column.2).mp (Dict.get_of_mem hplaced.nodup hmem)
  rw [ownOf, List.mem_filter, Bool.not_eq_true', List.contains_eq_mem, decide_eq_false_iff_not]
  refine ⟨List.mem_map.mpr ⟨column.2, List.mem_of_find?_eq_some hfound, ?_⟩, hname⟩
  exact of_decide_eq_true hprop

theorem bind_given_cellValues (extra : List (Str × Value)) (columns : Sorted) (name : Str) :
    ((cellValues extra columns).lookup name).bind given =
      (cellsOf extra columns.props name).getLast? := by
  rw [lookup_cellValues]
  cases h : (cellsOf extra columns.props name).getLast? with
  | none => rfl
  | some value =>
    obtain ⟨column, -, hcell⟩ := List.mem_filterMap.mp (List.mem_of_getLast? h)
    exact given_of_parseValue hcell

/-- The rows of an import are those of its devices, in order. -/
theorem exists_columns [Unicode] {world : World T} {options : Options} {before : List (Profile T)}
    {text : Str} {report : ImportReport} {rows : List (Imported T)}
    (h : importCsv world options before (.text text) = some (report, rows)) :
    ∃ names resolved, fieldnames text = some names ∧
      ∀ p ∈ rows.zipIdx, ∃ d profile, report.devices[p.2]? = some d ∧
        p.1 = importedOf options (classifyColumns (headersOf names) options.properties) resolved d
          profile := by
  rw [importCsv] at h
  obtain ⟨names, hnames, h⟩ := Option.bind_eq_some_iff.mp h
  split at h
  · cases h
    exact ⟨names, [], hnames, fun p hp => absurd hp (by simp)⟩
  · obtain ⟨raws, -, h⟩ := Option.bind_eq_some_iff.mp h
    obtain ⟨⟨devices, errors⟩, -, h⟩ := Option.bind_eq_some_iff.mp h
    cases h
    refine ⟨names, resolvedOf world (namesOf options devices), hnames, fun p hp => ?_⟩
    have hget := List.mk_mem_zipIdx_iff_getElem?.mp hp
    rw [List.getElem?_zipWith] at hget
    split at hget
    · next d profile hd _ => exact ⟨d, profile, hd, (Option.some.inj hget).symm⟩
    · cases hget

end Import
end Inventory
end NetRollout
