import NetRollout.Evidence.Compare
import NetRollout.Evidence.Soundness
import NetRollout.Session.Live

/-!
# The check of a save

`_check_saved` looks the lines the commands rest on up in the saved configuration: those the
push added are to be there, those it removed are not.  It asks whether a line is there, where
the judgment counted how often.

So a change that was not saved is always told (`saveProblems_ne_nil_of_missing`), and a change
that was saved is told to be unsaved exactly when a line it removed is still there once more
(`checksSave_iff`).
-/

namespace NetRollout
namespace Evidence
namespace Judge

open PyText

variable [Unicode]

/-- The lines the commands of a run claim are lines that changed. -/
theorem exists_line_of_claimed (J : Judge) {commands : List Typed} {key : Sign × Nat}
    (h : claimsOf (J.finalState commands) key ≠ []) :
    ∃ line, (J.changed key.1)[key.2]? = some line := by
  rw [claimsOf_finalState] at h
  obtain ⟨c, hc⟩ := List.exists_mem_of_ne_nil _ h
  obtain ⟨entry, hentry, hclaim⟩ := mem_claimsOn.mp hc
  obtain ⟨command, hcommand⟩ := J.exists_command hentry
  obtain ⟨st, -, hfacts⟩ := J.exists_facts hcommand hentry
  obtain ⟨line, hline, -⟩ := exists_line_of_claim hfacts hclaim command.sent none
  exact ⟨line, hline⟩

theorem mem_keys_of_mem_claimed (J : Judge) {commands : List Typed} (sign : Sign)
    {claims : Multimap Nat Nat}
    (hclaims : ∀ i, claims.get i = claimsOf (J.finalState commands) (sign, i))
    {key : Path × Str}
    (h : key ∈ claims.keys.map fun i =>
      (((J.changed sign)[i]?).map Line.key).getD ([], [])) :
    key ∈ keys (J.changed sign) := by
  obtain ⟨i, hi, rfl⟩ := List.mem_map.mp h
  have hne := (claims.mem_keys_iff i).mp hi
  rw [hclaims i] at hne
  obtain ⟨line, hline⟩ := J.exists_line_of_claimed hne
  have hmem := List.mem_of_getElem? hline
  rw [hline]
  exact List.mem_map_of_mem hmem

end Judge

section Claimed

open PyText

variable [Unicode] (G : Grammar) (commands : List Str) (before after : Str) (again : Option Str)
  (replied : List Bool) (defaults : Option Str)

/-- The lines an outcome says were added, the second snapshot added. -/
theorem key_mem_of_mem_added {key : Path × Str}
    (h : key ∈ (judge G commands before after again replied defaults).added) :
    key ∈ keys (compare (G.lines before) (G.lines after)).added := by
  rw [judge, Judge.run_eq] at h
  have hmem := Judge.mem_keys_of_mem_claimed _ .plus (fun _ => rfl) h
  obtain ⟨line, hline, rfl⟩ := List.mem_map.mp hmem
  exact List.mem_map_of_mem (List.mem_filter.mp hline).1

end Claimed
end Evidence

namespace Session

open PyText Effects Evidence

section Problems

variable {saved : List (Path × Str)} {outcome : Outcome}

/-- What the check finds: a line added that is not saved, or a line removed that is. -/
theorem saveProblems_eq_nil_iff : saveProblems saved outcome = [] ↔
    (∀ key ∈ outcome.added, key ∈ saved) ∧ ∀ key ∈ outcome.removed, key ∉ saved := by
  have htake : ∀ (p : Path × Str → Bool) (l : List (Path × Str)),
      (l.filter p).take 5 = [] ↔ ∀ key ∈ l, p key = false := by
    intro p l
    rw [List.take_eq_nil_iff, or_iff_right (by decide), List.filter_eq_nil_iff]
    simp only [Bool.not_eq_true]
  rw [saveProblems, List.append_eq_nil_iff, List.map_eq_nil_iff, List.map_eq_nil_iff, htake, htake]
  simp only [Bool.not_eq_false', List.contains_eq_mem, decide_eq_true_eq, decide_eq_false_iff_not]

theorem saveProblems_ne_nil_of_missing {key : Path × Str} (hadded : key ∈ outcome.added)
    (hmissing : key ∉ saved) : saveProblems saved outcome ≠ [] := fun hnil =>
  hmissing ((saveProblems_eq_nil_iff.mp hnil).1 key hadded)

end Problems

section Check

variable [Unicode] (platform : Platform) (outcome : Outcome)

/-- **The check of a save that could be read** tells nothing, or once that the change is not
saved. -/
theorem checkSaved_of_read (device : Device) {σ : Type} {net : Netmiko σ} {conn : Conn}
    {w : World σ} {saved : Str} {s : σ} (hshow : platform.showSaved ≠ [])
    (hread : platform.readSaved net conn w.outside = .ok saved s) :
    ∃ w', checkSaved net platform device conn outcome w = .ok () w' ∧
      (saveProblems (keys (platform.grammar.lines saved)) outcome = [] → w'.told = w.told) ∧
      (saveProblems (keys (platform.grammar.lines saved)) outcome ≠ [] →
        ∃ what, w'.told = w.told ++ [.actionNeeded what]) := by
  have hshown : platform.showSaved.isEmpty = false := by
    rw [List.isEmpty_eq_false_iff]
    exact hshow
  have hcall : call (platform.readSaved net conn) w = .ok saved { w with outside := s } := by
    show zoom World.outside (fun s w => { w with outside := s }) Raised.fault
      (platform.readSaved net conn) w = _
    rw [zoom, hread]
  unfold checkSaved
  split
  · next hnone =>
    have hnothing : outcome.added = [] ∧ outcome.removed = [] := by
      simpa [hshown] using hnone
    refine ⟨w, rfl, fun _ => rfl, fun hne => absurd ?_ hne⟩
    rw [saveProblems_eq_nil_iff, hnothing.1, hnothing.2]
    exact ⟨List.forall_mem_nil _, List.forall_mem_nil _⟩
  · by_cases hproblems : saveProblems (keys (platform.grammar.lines saved)) outcome = []
    · refine ⟨{ w with outside := s }, attempt_of_ok ?_, fun _ => rfl, fun hne => absurd hproblems hne⟩
      rw [bind_of_ok hcall]
      dsimp only
      rw [hproblems]
      rfl
    · refine ⟨{ w with outside := s, told := w.told ++ [.actionNeeded ?what] }, attempt_of_ok ?_,
        fun hnil => absurd hnil hproblems, fun _ => ⟨_, rfl⟩⟩
      swap
      rw [bind_of_ok hcall]
      dsimp only
      rw [if_neg (by simpa using hproblems)]
      rfl

/-- What the check is for: a saved configuration that is the one judged is not reported, and
one without a line the push added is. -/
structure ChecksSave (after : Str) : Prop where
  silent : ∀ {σ : Type} (net : Netmiko σ) (device : Device) (conn : Conn) (w : World σ)
    (saved : Str) (s : σ), platform.readSaved net conn w.outside = .ok saved s →
    (keys (platform.grammar.lines saved)).Perm (keys (platform.grammar.lines after)) →
    ∃ w', checkSaved net platform device conn outcome w = .ok () w' ∧ w'.told = w.told
  reported : ∀ {σ : Type} (net : Netmiko σ) (device : Device) (conn : Conn) (w : World σ)
    (saved : Str) (s : σ), platform.readSaved net conn w.outside = .ok saved s →
    platform.showSaved ≠ [] →
    ∀ key ∈ outcome.added, key ∉ keys (platform.grammar.lines saved) →
    ∃ w' what, checkSaved net platform device conn outcome w = .ok () w' ∧
      w'.told = w.told ++ [.actionNeeded what]

/-- A device that shows a text for every command. -/
def showing (text : Str) : Netmiko (List (Except Fault Str)) :=
  { scripted with sendCommand := fun _ _ => pure text }

omit [Unicode] in
theorem readSaved_showing (text : Str) (conn : Conn) (s : List (Except Fault Str)) :
    platform.readSaved (showing text) conn s = .ok text s := rfl

end Check

section Judged

variable [Unicode] (platform : Platform) (commands : List Str) (before after : Str)
  (again : Option Str) (replied : List Bool) (defaults : Option Str)

/-- The check of a platform that shows no saved configuration tells nothing. -/
theorem checkSaved_of_not_shown {platform : Platform} (hshow : platform.showSaved = [])
    {σ : Type} (net : Netmiko σ) (device : Device) (conn : Conn) (outcome : Outcome)
    (w : World σ) : checkSaved net platform device conn outcome w = .ok () w := by
  unfold checkSaved
  rw [if_pos (Or.inl (by rw [hshow]; rfl))]
  rfl

/-- **A saved change is not reported exactly when no line it removed is still there.** -/
theorem checksSave_iff :
    ChecksSave platform (judge platform.grammar commands before after again replied defaults)
        after ↔
      platform.showSaved = [] ∨
        ∀ key ∈ (judge platform.grammar commands before after again replied defaults).removed,
          key ∉ keys (platform.grammar.lines after) := by
  constructor
  · intro hchecks
    by_cases hshow : platform.showSaved = []
    · exact Or.inl hshow
    · refine Or.inr fun key hkey hstill => ?_
      have hread := readSaved_showing platform after 0 []
      obtain ⟨w', hrun, htold⟩ := hchecks.silent (showing after) router 0 ⟨[], [], {}⟩ after []
        hread (List.Perm.refl _)
      obtain ⟨w'', hrun', -, hreport⟩ := checkSaved_of_read platform
        (judge platform.grammar commands before after again replied defaults) router (w := ⟨[], [], {}⟩)
        hshow hread
      rw [hrun] at hrun'
      cases hrun'
      obtain ⟨what, hwhat⟩ :=
        hreport fun hnil => (saveProblems_eq_nil_iff.mp hnil).2 key hkey hstill
      rw [htold] at hwhat
      cases hwhat
  · intro hwhen
    refine ⟨fun net device conn w saved s hread hperm => ?_,
      fun net device conn w saved s hread hshow key hkey hmissing => ?_⟩
    · by_cases hshow : platform.showSaved = []
      · exact ⟨w, checkSaved_of_not_shown hshow net device conn _ w, rfl⟩
      · have hgone := hwhen.resolve_left hshow
        obtain ⟨w', hrun, hsilent, -⟩ := checkSaved_of_read platform
          (judge platform.grammar commands before after again replied defaults)
          device hshow hread
        refine ⟨w', hrun, hsilent (saveProblems_eq_nil_iff.mpr ?_)⟩
        refine ⟨fun key hkey => hperm.mem_iff.mpr ?_, fun key hkey hstill => ?_⟩
        · have hadded := key_mem_of_mem_added _ _ _ _ _ _ _ hkey
          obtain ⟨line, hline, rfl⟩ := List.mem_map.mp hadded
          exact List.mem_map_of_mem (mem_after_of_mem_added hline)
        · exact hgone key hkey (hperm.mem_iff.mp hstill)
    · obtain ⟨w', hrun, -, hreport⟩ := checkSaved_of_read platform
        (judge platform.grammar commands before after again replied defaults)
        device hshow hread
      obtain ⟨what, hwhat⟩ := hreport (saveProblems_ne_nil_of_missing hkey hmissing)
      exact ⟨w', what, hrun, hwhat⟩

end Judged

/-- One of two equal lines removed and saved, and reported as not saved. -/
theorem not_checksSave_repeated : let := Unicode.ascii
    ¬ ChecksSave (ciscoIos (fun _ => false) fun _ => false)
      (judge Grammar.ciscoIos ["no ntp server 192.0.2.9".toList]
        "ntp server 192.0.2.9\nntp server 192.0.2.9".toList "ntp server 192.0.2.9".toList none
        [false] none)
      "ntp server 192.0.2.9".toList := by
  intro _ hchecks
  have hwhen := (@checksSave_iff Unicode.ascii (ciscoIos (fun _ => false) fun _ => false)
    ["no ntp server 192.0.2.9".toList] "ntp server 192.0.2.9\nntp server 192.0.2.9".toList
    "ntp server 192.0.2.9".toList none [false] none).mp hchecks
  rcases hwhen with hshow | hgone
  · cases hshow
  · exact hgone ([], "ntp server 192.0.2.9".toList) (by decide +kernel) (by decide +kernel)

end Session
end NetRollout
