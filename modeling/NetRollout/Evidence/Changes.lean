import NetRollout.Evidence.Passes

/-!
# Every changed line is accounted for

`changes` lists the lines the push changed: the added ones, the removed ones, and
last the device's own churn.  Each carries the commands it belongs to (`by`) and
the commands in review it is evidence for.

* `exists_change_of_claim`: a line that commands claim lists them.
* `accounted_run` puts the accounting together: no changed line is lost, shown
  twice or shown as churn that is not, and every position it names is a command's,
  in review where it says so.
-/

namespace NetRollout
namespace Evidence

open PyText

/-- A changed line as an outcome shows it: its sign, its text, its section. -/
def shownLine (sign : Sign) (line : Line) : Sign × Str × Str := (sign, line.raw, Judge.where_ line)

/-- What a change shows of its line. -/
def Change.shown (c : Change) : Sign × Str × Str := (c.sign, c.line, c.inSection)

theorem mem_sortedSet {l : List Nat} {c : Nat} : c ∈ Judge.sortedSet l ↔ c ∈ l := by
  rw [Judge.sortedSet, List.mem_mergeSort, List.mem_dedup]

/-- A sorted set is strictly increasing. -/
theorem pairwise_sortedSet (l : List Nat) : (Judge.sortedSet l).Pairwise (· < ·) := by
  have hle : (Judge.sortedSet l).Pairwise (· ≤ ·) := by
    have h : (Judge.sortedSet l).Pairwise fun a b => decide (a ≤ b) = true :=
      List.pairwise_mergeSort (fun a b c => by simpa using Nat.le_trans)
        (fun a b => by simpa using Nat.le_total a b) l.dedup
    exact h.imp fun hab => by simpa using hab
  have hnodup : (Judge.sortedSet l).Nodup :=
    (List.mergeSort_perm l.dedup _).nodup_iff.mpr l.nodup_dedup
  exact (hle.and hnodup).imp fun h => Nat.lt_of_le_of_ne h.1 h.2

/-- The first set that is not empty has its elements from one of the sets. -/
theorem exists_of_mem_firstNonempty {sets : List (List Nat)} {c : Nat}
    (h : c ∈ Judge.firstNonempty sets) : ∃ set ∈ sets, c ∈ set := by
  induction sets with
  | nil => exact absurd h (by simp [Judge.firstNonempty])
  | cons set sets ih =>
    unfold Judge.firstNonempty at h
    split at h
    · obtain ⟨s, hs, hc⟩ := ih h
      exact ⟨s, List.mem_cons_of_mem _ hs, hc⟩
    · exact ⟨set, List.mem_cons_self .., h⟩

namespace Judge

/-! ## A change and its commands -/

section Owners

/-- All the commands a state's claims name. -/
def Claimed (st : State) (c : Nat) : Prop := ∃ key, c ∈ claimsOf st key

theorem claimed_of_mem_claimsAdded {st : State} {item : Nat × List Nat}
    (hitem : item ∈ st.claimsAdded.items) {c : Nat} (hc : c ∈ item.2) : Claimed st c := by
  refine ⟨(.plus, item.1), ?_⟩
  rwa [← ((st.claimsAdded.mem_items_iff item.1 item.2).mp hitem).1] at hc

theorem claimed_of_mem_claimsRemoved {st : State} {item : Nat × List Nat}
    (hitem : item ∈ st.claimsRemoved.items) {c : Nat} (hc : c ∈ item.2) : Claimed st c := by
  refine ⟨(.minus, item.1), ?_⟩
  rwa [← ((st.claimsRemoved.mem_items_iff item.1 item.2).mp hitem).1] at hc

theorem claimed_of_mem_byBlock {J : Judge} {st : State} {line : Line} {c : Nat}
    (h : c ∈ J.byBlock st line) : Claimed st c := by
  unfold byBlock at h
  obtain ⟨set, hset, hc⟩ := List.mem_flatten.mp h
  obtain ⟨entry, hentry, rfl⟩ := List.mem_map.mp hset
  have hsecond : c ∈ entry.2 := by
    split at hc
    · exact absurd hc (by simp)
    · split at hc
      · exact hc
      · exact absurd hc (by simp)
  rcases List.mem_append.mp hentry with hentry | hentry
  · obtain ⟨item, hitem, rfl⟩ := List.mem_map.mp hentry
    exact claimed_of_mem_claimsAdded hitem hsecond
  · obtain ⟨item, hitem, rfl⟩ := List.mem_map.mp hentry
    exact claimed_of_mem_claimsRemoved hitem hsecond

variable [Unicode]

theorem claimed_of_mem_replacedBy {J : Judge} {st : State} {gone : Line} {c : Nat}
    (h : c ∈ J.replacedBy st gone) : Claimed st c := by
  unfold replacedBy at h
  obtain ⟨set, hset, hc⟩ := List.mem_flatten.mp h
  obtain ⟨item, hitem, rfl⟩ := List.mem_map.mp hset
  split at hc
  · exact absurd hc (by simp)
  · dsimp only at hc
    split at hc
    · exact claimed_of_mem_claimsAdded hitem hc
    · exact absurd hc (by simp)

omit [Unicode] in
theorem mem_reviews_of_mem_evidenceAdded {J : Judge} {st : State} {index c : Nat}
    (h : c ∈ J.evidenceAdded st index) : ∃ path, (c, path) ∈ st.reviews := by
  obtain ⟨entry, hentry, rfl⟩ := List.mem_map.mp h
  exact ⟨entry.2, (List.mem_filter.mp hentry).1⟩

theorem mem_reviews_of_mem_evidenceRemoved {J : Judge} {st : State} {index c : Nat}
    (h : c ∈ J.evidenceRemoved st index) : ∃ path, (c, path) ∈ st.reviews := by
  obtain ⟨entry, hentry, rfl⟩ := List.mem_map.mp h
  exact ⟨entry.2, (List.mem_filter.mp hentry).1⟩

/-- What is true of every change: churn is nobody's, the commands it belongs to
are some claims' and in order, and the ones it is evidence for are in review. -/
structure Owned (st : State) (change : Change) : Prop where
  device : change.device = true → change.byCommands = []
  claimed : ∀ c ∈ change.byCommands, Claimed st c
  sorted : change.byCommands.Pairwise (· < ·)
  review : ∀ c ∈ change.review, ∃ path, (c, path) ∈ st.reviews

theorem owned_of_mem_changes {J : Judge} {st : State} {change : Change}
    (h : change ∈ J.changes st) : Owned st change := by
  unfold changes at h
  rcases List.mem_append.mp h with h | h
  · rcases List.mem_append.mp h with h | h
    · obtain ⟨p, -, rfl⟩ := List.mem_map.mp h
      refine ⟨fun hd => absurd hd (by simp), fun c hc => ?_, pairwise_sortedSet _,
        fun c hc => mem_reviews_of_mem_evidenceAdded hc⟩
      obtain ⟨set, hset, hcs⟩ := exists_of_mem_firstNonempty (mem_sortedSet.mp hc)
      simp only [List.mem_cons, List.not_mem_nil, or_false] at hset
      rcases hset with rfl | rfl
      · exact ⟨(.plus, p.2), hcs⟩
      · exact claimed_of_mem_byBlock hcs
    · obtain ⟨p, -, rfl⟩ := List.mem_map.mp h
      refine ⟨fun hd => absurd hd (by simp), fun c hc => ?_, pairwise_sortedSet _,
        fun c hc => mem_reviews_of_mem_evidenceRemoved hc⟩
      obtain ⟨set, hset, hcs⟩ := exists_of_mem_firstNonempty (mem_sortedSet.mp hc)
      simp only [List.mem_cons, List.not_mem_nil, or_false] at hset
      rcases hset with rfl | rfl | rfl
      · exact ⟨(.minus, p.2), hcs⟩
      · exact claimed_of_mem_byBlock hcs
      · exact claimed_of_mem_replacedBy hcs
  · obtain ⟨p, -, rfl⟩ := List.mem_map.mp h
    exact ⟨fun _ => rfl, by simp, List.Pairwise.nil, by simp⟩

/-! ## The lines shown -/

/-- Where the change of a changed line stands in `changes`. -/
def changeAt (J : Judge) : Sign × Nat → Nat
  | (.plus, index) => index
  | (.minus, index) => J.added.length + index

/-- **A line that commands claim lists them.** -/
theorem exists_change_of_claim (J : Judge) (st : State) {key : Sign × Nat} {line : Line}
    (hline : (J.changed key.1)[key.2]? = some line) {c : Nat} (hc : c ∈ claimsOf st key) :
    ∃ change, (J.changes st)[J.changeAt key]? = some change ∧
      change.shown = shownLine key.1 line ∧ change.device = false ∧ c ∈ change.byCommands := by
  have hfirst : ∀ sets : List (List Nat), c ∈ firstNonempty (claimsOf st key :: sets) := by
    intro sets
    rwa [firstNonempty, if_neg (List.ne_nil_of_mem hc)]
  obtain ⟨sign, index⟩ := key
  cases sign with
  | plus =>
    have hadded : J.added[index]? = some line := hline
    have hlt : index < J.added.length := (List.getElem?_eq_some_iff.mp hadded).1
    have hz : J.added.zipIdx[index]? = some (line, index) := by
      rw [List.getElem?_zipIdx, hadded]
      simp
    refine ⟨{ sign := .plus, line := line.raw, inSection := where_ line
              byCommands := sortedSet (firstNonempty [st.claimsAdded.get index, J.byBlock st line])
              review := J.evidenceAdded st index }, ?_, rfl, rfl, mem_sortedSet.mpr (hfirst _)⟩
    unfold changes changeAt
    rw [List.getElem?_append_left (by simpa using Nat.lt_add_right _ hlt),
      List.getElem?_append_left (by simpa using hlt), List.getElem?_map, hz]
    rfl
  | minus =>
    have hremoved : J.removed[index]? = some line := hline
    have hlt : index < J.removed.length := (List.getElem?_eq_some_iff.mp hremoved).1
    have hz : J.removed.zipIdx[index]? = some (line, index) := by
      rw [List.getElem?_zipIdx, hremoved]
      simp
    refine ⟨{ sign := .minus, line := line.raw, inSection := where_ line
              byCommands := sortedSet (firstNonempty
                [st.claimsRemoved.get index, J.byBlock st line, J.replacedBy st line])
              review := J.evidenceRemoved st index }, ?_, rfl, rfl, mem_sortedSet.mpr (hfirst _)⟩
    unfold changes changeAt
    rw [List.getElem?_append_left (by simpa using hlt),
      List.getElem?_append_right (by simp), List.length_map, List.length_zipIdx,
      Nat.add_sub_cancel_left, List.getElem?_map, hz]
    rfl

/-- Where commands claim every changed line, every change that is no churn has
owners. -/
theorem byCommands_ne_nil_of_claimed {J : Judge} {st : State}
    (hadded : ∀ index < J.added.length, st.claimsAdded.get index ≠ [])
    (hremoved : ∀ index < J.removed.length, st.claimsRemoved.get index ≠ []) :
    ∀ change ∈ J.changes st, change.device = true ∨ change.byCommands ≠ [] := by
  have hne : ∀ (set : List Nat) (sets : List (List Nat)), set ≠ [] →
      sortedSet (firstNonempty (set :: sets)) ≠ [] := by
    intro set sets hset
    obtain ⟨c, rest, rfl⟩ := List.exists_cons_of_ne_nil hset
    rw [firstNonempty, if_neg hset]
    exact List.ne_nil_of_mem (mem_sortedSet.mpr (List.mem_cons_self ..))
  intro change hmem
  unfold changes at hmem
  rcases List.mem_append.mp hmem with hmem | hmem
  · rcases List.mem_append.mp hmem with hmem | hmem
    · obtain ⟨p, hp, rfl⟩ := List.mem_map.mp hmem
      have hlt := (List.getElem?_eq_some_iff.mp (List.mem_zipIdx_iff_getElem?.mp hp)).1
      exact Or.inr (hne _ _ (hadded p.2 hlt))
    · obtain ⟨p, hp, rfl⟩ := List.mem_map.mp hmem
      have hlt := (List.getElem?_eq_some_iff.mp (List.mem_zipIdx_iff_getElem?.mp hp)).1
      exact Or.inr (hne _ _ (hremoved p.2 hlt))
  · obtain ⟨p, -, rfl⟩ := List.mem_map.mp hmem
    exact Or.inl rfl

/-- The lines of an outcome are the judged lines, then the churn. -/
theorem map_shown_changes (J : Judge) (st : State) :
    (J.changes st).map Change.shown =
      J.added.map (shownLine .plus) ++ J.removed.map (shownLine .minus) ++
        J.churned.map fun p => shownLine p.1 p.2 := by
  have hzip : ∀ (lines : List Line) (sign : Sign),
      lines.zipIdx.map (fun p => shownLine sign p.1) = lines.map (shownLine sign) := by
    intro lines sign
    conv_rhs => rw [← List.zipIdx_map_fst 0 lines, List.map_map]
    rfl
  unfold changes
  rw [List.map_append, List.map_append, List.map_map, List.map_map, List.map_map, ← hzip, ← hzip]
  rfl

/-- The changes shown as churn are the churn. -/
theorem filter_device_changes (J : Judge) (st : State) :
    ((J.changes st).filter (·.device)).map Change.shown =
      J.churned.map fun p => shownLine p.1 p.2 := by
  unfold changes
  rw [List.filter_append, List.filter_append, List.filter_map, List.filter_map, List.filter_map]
  have hnone : ∀ l : List (Line × Nat), l.filter (fun _ => false) = [] := fun l => by simp
  have hall : ∀ l : List (Sign × Line), l.filter (fun _ => true) = l := fun l => by simp
  simp only [Function.comp_def, hnone, hall, List.map_nil, List.nil_append, List.map_map]
  rfl

omit [Unicode] in
/-- A list is its two halves by a test, in some order. -/
theorem perm_filter_map (p : Line → Bool) (f : Line → Sign × Str × Str) (lines : List Line) :
    ((lines.filter fun line => !p line).map f ++ (lines.filter p).map f).Perm (lines.map f) := by
  have h : ((lines.filter fun line => !p line) ++ lines.filter p).Perm lines :=
    List.perm_append_comm.trans (List.filter_append_perm p lines)
  have h' := h.map f
  rwa [List.map_append] at h'

/-! ## The accounting of a run -/

/-- What an outcome owes of the lines two snapshots differ in. -/
structure Accounted (diff : Diff) (churn : Noise) (n : Nat) (outcome : Outcome) : Prop where
  /-- The lines shown are the changed lines. -/
  lines : (outcome.changes.map Change.shown).Perm
    (diff.added.map (shownLine .plus) ++ diff.removed.map (shownLine .minus))
  /-- The ones shown as the device's are its churn. -/
  device : (outcome.changes.filter (·.device)).map Change.shown =
    (diff.added.filter fun line => isNoise line churn).map (shownLine .plus) ++
      (diff.removed.filter fun line => isNoise line churn).map (shownLine .minus)
  /-- The device's churn is nobody's. -/
  nobody : ∀ change ∈ outcome.changes, change.device = true → change.byCommands = []
  /-- The others' changes are exactly those no command accounts for. -/
  other : outcome.otherChanges =
    (outcome.changes.filter fun c => c.byCommands.isEmpty && !c.device).map otherText
  /-- Owners are commands, each listed once, in order. -/
  owners : ∀ change ∈ outcome.changes,
    (∀ c ∈ change.byCommands, c < n) ∧ change.byCommands.Pairwise (· < ·)
  /-- A change is evidence for unproven commands only. -/
  evidence : ∀ change ∈ outcome.changes, ∀ c ∈ change.review, c < n ∧
    ∃ j, outcome.commands[c]? = some j ∧ (j.verdict = .review ∨ j.verdict = .rejected ∨
      (j.verdict = .inPlace ∧ j.note = .shownWithDefaults))

theorem claimsOf_finalState (J : Judge) (commands : List Typed) (key : Sign × Nat) :
    claimsOf (J.finalState commands) key = J.claimsOn commands key :=
  J.claimsOf_loop commands key

/-- A claim is some command's. -/
theorem lt_of_claimed {J : Judge} {commands : List Typed} {c : Nat}
    (h : Claimed (J.finalState commands) c) : c < commands.length := by
  obtain ⟨key, hkey⟩ := h
  rw [claimsOf_finalState, mem_claimsOn] at hkey
  obtain ⟨entry, hentry, -⟩ := hkey
  obtain ⟨command, hcmd⟩ := J.exists_command hentry
  exact (List.getElem?_eq_some_iff.mp hcmd).1

/-- What is in review after the view ends in review or rejected. -/
theorem verdict_of_mem_reviews {J : Judge} {commands : List Typed} {c : Nat} {path : Option Path}
    (h : (c, path) ∈ (J.finalState commands).reviews) :
    c < commands.length ∧ ∃ j, (J.run commands).commands[c]? = some j ∧
      (j.verdict = .review ∨ j.verdict = .rejected) := by
  obtain ⟨hentry, hline⟩ := mem_reviews.mp h
  obtain ⟨command, hcmd⟩ := J.exists_command hentry
  obtain ⟨j, hj, hrej⟩ := J.exists_run_commands hcmd hentry
  have hwords : wordsAt commands c = command.words := by simp [wordsAt, hcmd]
  refine ⟨(List.getElem?_eq_some_iff.mp hcmd).1, j, hj, hrej.verdict_of_review ?_⟩
  unfold settled
  rw [if_pos rfl, ← hwords, hline]
  rfl

/-- **The accounting of a run**, for a judge set up from two snapshots. -/
theorem accounted_run {before after : List Line} {churn : Noise} {blocks : Bool}
    {replied : List Bool} {view : List Line} {negation : List Str} (commands : List Typed) :
    Accounted (compare before after) churn commands.length
      ((init before after churn blocks replied view negation).run commands) := by
  let J := init before after churn blocks replied view negation
  have hchurned : (J.churned.map fun p => shownLine p.1 p.2) =
      ((compare before after).added.filter fun line => isNoise line churn).map (shownLine .plus) ++
        ((compare before after).removed.filter fun line => isNoise line churn).map
          (shownLine .minus) := by
    show ((_ ++ _ : List (Sign × Line)).map fun p => shownLine p.1 p.2) = _
    rw [List.map_append, List.map_map, List.map_map]
    rfl
  have hchanges : (J.run commands).changes = J.changes (J.finalState commands) := by
    rw [run_eq]
  refine ⟨?_, ?_, ?_, ?_, ?_, ?_⟩
  · rw [hchanges, map_shown_changes, hchurned]
    have hadded := perm_filter_map (fun line => isNoise line churn) (shownLine .plus)
      (compare before after).added
    have hremoved := perm_filter_map (fun line => isNoise line churn) (shownLine .minus)
      (compare before after).removed
    refine List.Perm.trans ?_ (hadded.append hremoved)
    show (((compare before after).added.filter fun line => !isNoise line churn).map _ ++
      ((compare before after).removed.filter fun line => !isNoise line churn).map _ ++ _).Perm _
    rw [List.append_assoc, List.append_assoc]
    refine List.Perm.append_left _ ?_
    rw [← List.append_assoc, ← List.append_assoc]
    exact List.Perm.append_right _ List.perm_append_comm
  · rw [hchanges, filter_device_changes, hchurned]
  · intro change hmem
    rw [hchanges] at hmem
    exact (owned_of_mem_changes hmem).device
  · rfl
  · intro change hmem
    rw [hchanges] at hmem
    have howned := owned_of_mem_changes hmem
    exact ⟨fun c hc => lt_of_claimed (howned.claimed c hc), howned.sorted⟩
  · intro change hmem c hc
    rw [hchanges] at hmem
    obtain ⟨path, hpath⟩ := (owned_of_mem_changes hmem).review c hc
    obtain ⟨hlt, j, hj, hv⟩ := verdict_of_mem_reviews hpath
    refine ⟨hlt, j, hj, ?_⟩
    rcases hv with hv | hv
    · exact Or.inl hv
    · exact Or.inr (Or.inl hv)

end Owners
end Judge

section Top

variable [Unicode]

/-- **Every changed line is accounted for exactly once**, and without a second
snapshot nothing is the device's churn. -/
theorem accounted_judge (G : Grammar) (commands : List Str) (before after : Str)
    (again : Option Str) (replied : List Bool) (defaults : Option Str) :
    Judge.Accounted (compare (G.lines before) (G.lines after)) (G.churn after again)
        commands.length (judge G commands before after again replied defaults) ∧
      (judge G commands before after none replied defaults).changes.filter (·.device) = [] := by
  have h : ∀ again, Judge.Accounted (compare (G.lines before) (G.lines after))
      (G.churn after again) commands.length
      (judge G commands before after again replied defaults) := by
    intro again
    rw [← length_typed G commands]
    exact Judge.accounted_run (typed G commands)
  refine ⟨h again, ?_⟩
  have hnone := (h none).device
  rw [Grammar.churn] at hnone
  simpa using hnone

end Top
end Evidence
end NetRollout
