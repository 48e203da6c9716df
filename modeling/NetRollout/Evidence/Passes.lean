import NetRollout.Evidence.Trace
import NetRollout.Library.ListUpdate

/-!
# What the passes make of a verdict

After the loop, `run` sends its verdicts through four passes.  Each of them goes
over the whole list, and each of them changes a command's verdict by what is
known of that command alone: whether the changed line it rests on is *contested*,
whether its section of the defaults view has it as a line, which unclaimed
changes its section holds, and whether the device replied.

`settled` is the verdict of one command after the first three passes, written
down from its finding.  `exists_run_commands` says that `run` ends with it, up to
the fourth pass, which can only turn a review into a rejection (`Rejects`).
-/

namespace NetRollout
namespace Evidence

open PyText ListUpdate

/-- What the fourth pass can do to a verdict: nothing, or a review is
rejected. -/
inductive Rejects (j : Judgment) : Judgment → Prop where
  | refl : Rejects j j
  | reject (note : Note) (h : j.verdict = .review) :
      Rejects j { j with verdict := .rejected, note := note }

namespace Rejects

theorem evidence_eq {j k : Judgment} (h : Rejects j k) : k.evidence = j.evidence := by
  cases h <;> rfl

theorem eq_of_ne_review {j k : Judgment} (h : Rejects j k) (hj : j.verdict ≠ .review) : k = j := by
  cases h with
  | refl => rfl
  | reject note hreview => exact absurd hreview hj

theorem verdict_of_review {j k : Judgment} (h : Rejects j k) (hj : j.verdict = .review) :
    k.verdict = .review ∨ k.verdict = .rejected := by
  cases h with
  | refl => exact Or.inl hj
  | reject note _ => exact Or.inr rfl

/-- A verdict that is neither a review nor a rejection was so before. -/
theorem eq_of_verdict {j k : Judgment} (h : Rejects j k) (hreview : k.verdict ≠ .review)
    (hrejected : k.verdict ≠ .rejected) : k = j := by
  cases h with
  | refl => rfl
  | reject note _ => exact absurd rfl hrejected

theorem trans {i j k : Judgment} (hij : Rejects i j) (hjk : Rejects j k) : Rejects i k := by
  cases hjk with
  | refl => exact hij
  | reject note h =>
    cases hij with
    | refl => exact .reject note h
    | reject _ _ => exact absurd h (by simp)

end Rejects

namespace Judge

section Conflicts

variable [Unicode]

/-! ## Conflicts -/

/-- Whether the commands at some positions were sent with different texts. -/
def contested (commands : List Typed) (positions : List Nat) : Bool :=
  1 < (positions.map fun c => (commands[c]?).map fun t => normalize t.sent).dedup.length

/-- The text of a changed line as the device printed it. -/
def rawOf (lines : List Line) (index : Nat) : Str := ((lines[index]?).map Line.raw).getD []

omit [Unicode] in
@[simp] theorem toConflict_toConflict (sign : Sign) (raw : Str) (j : Judgment) :
    toConflict sign raw (toConflict sign raw j) = toConflict sign raw j := rfl

/-- The verdicts still belong to the commands in order. -/
def Matched (commands : List Typed) (results : List Judgment) : Prop :=
  ∀ c : Nat, (results[c]?).map Judgment.command = (commands[c]?).map Typed.sent

theorem conflictEntry_getElem? (lines : List Line) (sign : Sign) {commands : List Typed}
    {results : List Judgment} (hm : Matched commands results) (entry : Nat × List Nat) (c : Nat) :
    (conflictEntry lines sign results entry)[c]? =
      if c ∈ entry.2 ∧ contested commands entry.2 = true then
        (results[c]?).map (toConflict sign (rawOf lines entry.1))
      else results[c]? := by
  have htexts : (entry.2.map fun c => (results[c]?).map fun j => normalize j.command) =
      entry.2.map fun c => (commands[c]?).map fun t => normalize t.sent := by
    refine List.map_congr_left fun c _ => ?_
    have h := congrArg (Option.map normalize) (hm c)
    rwa [Option.map_map, Option.map_map] at h
  unfold conflictEntry contested
  rw [htexts]
  dsimp only
  split
  · next h =>
    rw [getElem?_foldl_modify (toConflict_toConflict sign _)]
    simp [h, rawOf]
  · next h => simp [h]

theorem matched_conflictEntry (lines : List Line) (sign : Sign) {commands : List Typed}
    {results : List Judgment} (hm : Matched commands results) (entry : Nat × List Nat) :
    Matched commands (conflictEntry lines sign results entry) := by
  intro c
  rw [conflictEntry_getElem? lines sign hm, ← hm c]
  split
  · rw [Option.map_map]
    rfl
  · rfl

theorem matched_foldl_conflictEntry (lines : List Line) (sign : Sign) {commands : List Typed}
    (items : List (Nat × List Nat)) {results : List Judgment} (hm : Matched commands results) :
    Matched commands (items.foldl (conflictEntry lines sign) results) := by
  induction items generalizing results with
  | nil => exact hm
  | cons item items ih => exact ih (matched_conflictEntry lines sign hm item)

/-- A command that claims none of the lines keeps its verdict. -/
theorem foldl_conflictEntry_of_notMem (lines : List Line) (sign : Sign) {commands : List Typed}
    {items : List (Nat × List Nat)} {c : Nat} (hc : ∀ item ∈ items, c ∉ item.2)
    {results : List Judgment} (hm : Matched commands results) :
    (items.foldl (conflictEntry lines sign) results)[c]? = results[c]? := by
  induction items generalizing results with
  | nil => rfl
  | cons item items ih =>
    rw [List.foldl_cons, ih (fun x hx => hc x (List.mem_cons_of_mem _ hx))
      (matched_conflictEntry lines sign hm item), conflictEntry_getElem? lines sign hm, if_neg]
    exact fun h => hc item (List.mem_cons_self ..) h.1

/-- A command that claims one of the lines is in conflict when that line is
contested. -/
theorem foldl_conflictEntry_of_mem (lines : List Line) (sign : Sign) {commands : List Typed}
    {items : List (Nat × List Nat)} (hnodup : items.Nodup) {entry : Nat × List Nat} {c : Nat}
    (hentry : entry ∈ items) (hc : c ∈ entry.2) (honly : ∀ item ∈ items, c ∈ item.2 → item = entry)
    {results : List Judgment} (hm : Matched commands results) :
    (items.foldl (conflictEntry lines sign) results)[c]? =
      if contested commands entry.2 = true then
        (results[c]?).map (toConflict sign (rawOf lines entry.1))
      else results[c]? := by
  induction items generalizing results with
  | nil => exact absurd hentry (by simp)
  | cons item items ih =>
    rw [List.nodup_cons] at hnodup
    have hm' := matched_conflictEntry lines sign hm item
    rw [List.foldl_cons]
    rcases List.mem_cons.mp hentry with rfl | hentry
    · have hrest : ∀ x ∈ items, c ∉ x.2 := by
        intro x hx hcx
        exact hnodup.1 (honly x (List.mem_cons_of_mem _ hx) hcx ▸ hx)
      rw [foldl_conflictEntry_of_notMem lines sign hrest hm', conflictEntry_getElem? lines sign hm]
      simp [hc]
    · have hitem : c ∉ item.2 := by
        intro hci
        exact hnodup.1 (honly item (List.mem_cons_self ..) hci ▸ hentry)
      have hsame : (conflictEntry lines sign results item)[c]? = results[c]? := by
        rw [conflictEntry_getElem? lines sign hm, if_neg fun h => hitem h.1]
      rw [ih hnodup.2 hentry (fun x hx => honly x (List.mem_cons_of_mem _ hx)) hm', hsame]

@[simp] theorem length_conflictsIn (claims : Multimap Nat Nat) (lines : List Line) (sign : Sign)
    (results : List Judgment) : (conflictsIn claims lines sign results).length = results.length := by
  unfold conflictsIn
  induction claims.items generalizing results with
  | nil => rfl
  | cons item items ih =>
    rw [List.foldl_cons, ih]
    unfold conflictEntry
    dsimp only
    split
    · exact length_foldl_modify id _ item.2 results
    · rfl

theorem conflictsIn_of_notMem {claims : Multimap Nat Nat} {c : Nat} (hc : ∀ k, c ∉ claims.get k)
    (lines : List Line) (sign : Sign) {commands : List Typed} {results : List Judgment}
    (hm : Matched commands results) :
    (conflictsIn claims lines sign results)[c]? = results[c]? := by
  refine foldl_conflictEntry_of_notMem lines sign (fun item hitem => ?_) hm
  rw [← ((claims.mem_items_iff item.1 item.2).mp hitem).1]
  exact hc item.1

theorem conflictsIn_of_mem {claims : Multimap Nat Nat} {c k : Nat} (hc : c ∈ claims.get k)
    (honly : ∀ k', c ∈ claims.get k' → k' = k) (lines : List Line) (sign : Sign)
    {commands : List Typed} {results : List Judgment} (hm : Matched commands results) :
    (conflictsIn claims lines sign results)[c]? =
      if contested commands (claims.get k) = true then
        (results[c]?).map (toConflict sign (rawOf lines k))
      else results[c]? := by
  have hentry : (k, claims.get k) ∈ claims.items :=
    (claims.mem_items_iff k _).mpr ⟨rfl, List.ne_nil_of_mem hc⟩
  refine foldl_conflictEntry_of_mem lines sign (claims.nodup_keys.of_map _) hentry hc ?_ hm
  rintro ⟨k', vs⟩ hitem hcv
  obtain ⟨rfl, -⟩ := (claims.mem_items_iff k' vs).mp hitem
  rw [honly k' hcv]

end Conflicts

/-! ## The run's loop, named -/

section Loop

variable [Unicode]

/-- The findings of a run, each with the section it was made in. -/
def findings (J : Judge) (commands : List Typed) : List (Finding × Option Path) :=
  J.trace 0 commands State.init

/-- The claims of a run on a changed line: the commands that rest on it. -/
def claimsOn (J : Judge) (commands : List Typed) (key : Sign × Nat) : List Nat :=
  claimants key 0 (J.findings commands)

/-- The changed lines of a sign. -/
def changed (J : Judge) : Sign → List Line
  | .plus => J.added
  | .minus => J.removed

theorem claimsOf_loop (J : Judge) (commands : List Typed) (key : Sign × Nat) :
    claimsOf (J.runLoop 0 commands State.init).2 key = J.claimsOn commands key := by
  have hinit : claimsOf State.init key = [] := by
    unfold claimsOf
    split <;> rfl
  rw [claimsOf_runLoop, hinit, List.nil_append]
  rfl

theorem claimsAdded_loop (J : Judge) (commands : List Typed) (index : Nat) :
    (J.runLoop 0 commands State.init).2.claimsAdded.get index =
      J.claimsOn commands (.plus, index) :=
  J.claimsOf_loop commands (.plus, index)

theorem claimsRemoved_loop (J : Judge) (commands : List Typed) (index : Nat) :
    (J.runLoop 0 commands State.init).2.claimsRemoved.get index =
      J.claimsOn commands (.minus, index) :=
  J.claimsOf_loop commands (.minus, index)

theorem mem_claimsOn {J : Judge} {commands : List Typed} {key : Sign × Nat} {c : Nat} :
    c ∈ J.claimsOn commands key ↔
      ∃ entry, (J.findings commands)[c]? = some entry ∧ entry.1.claim = some key :=
  mem_claimants

/-- A command claims the one line its finding rests on. -/
theorem mem_claimsOn_iff {J : Judge} {commands : List Typed} {key : Sign × Nat} {c : Nat}
    {entry : Finding × Option Path} (h : (J.findings commands)[c]? = some entry) :
    c ∈ J.claimsOn commands key ↔ entry.1.claim = some key := by
  rw [mem_claimsOn]
  constructor
  · rintro ⟨e, he, hclaim⟩
    rw [h, Option.some_inj] at he
    rwa [he]
  · exact fun hclaim => ⟨entry, h, hclaim⟩

theorem reviews_loop (J : Judge) (commands : List Typed) :
    (J.runLoop 0 commands State.init).2.reviews = unprovenOf 0 (J.findings commands) :=
  J.reviews_runLoop 0 commands State.init

theorem length_findings (J : Judge) (commands : List Typed) :
    (J.findings commands).length = commands.length :=
  J.length_trace 0 commands State.init

/-- Each command has a finding. -/
theorem exists_finding (J : Judge) {commands : List Typed} {c : Nat} {command : Typed}
    (h : commands[c]? = some command) : ∃ entry, (J.findings commands)[c]? = some entry := by
  have hlt : c < (J.findings commands).length := by
    rw [length_findings]
    exact (List.getElem?_eq_some_iff.mp h).1
  exact ⟨_, List.getElem?_eq_getElem hlt⟩

/-- Each finding is about a command. -/
theorem exists_command (J : Judge) {commands : List Typed} {c : Nat} {entry : Finding × Option Path}
    (h : (J.findings commands)[c]? = some entry) : ∃ command, commands[c]? = some command := by
  have hlt : c < commands.length := by
    rw [← length_findings J commands]
    exact (List.getElem?_eq_some_iff.mp h).1
  exact ⟨_, List.getElem?_eq_getElem hlt⟩

/-- **A finding of a run is true of its command.** -/
theorem exists_facts (J : Judge) {commands : List Typed} {c : Nat} {command : Typed}
    {entry : Finding × Option Path} (hcmd : commands[c]? = some command)
    (hentry : (J.findings commands)[c]? = some entry) :
    ∃ st : State, st.context = entry.2 ∧ J.Facts c command st entry.1 := by
  obtain ⟨command', st, hcmd', hctx, hfind⟩ := J.exists_state_of_trace hentry
  rw [hcmd, Option.some_inj] at hcmd'
  subst hcmd'
  refine ⟨st, hctx.symm, ?_⟩
  rw [hfind, Nat.zero_add]
  exact J.facts_find c command _ st

/-- The verdict of a command by its finding alone. -/
def found (J : Judge) (command : Typed) (entry : Finding × Option Path) : Judgment :=
  entry.1.judgment command.sent (J.headers entry.2)

theorem loop_getElem? (J : Judge) {commands : List Typed} {c : Nat} {command : Typed}
    {entry : Finding × Option Path} (hcmd : commands[c]? = some command)
    (hentry : (J.findings commands)[c]? = some entry) :
    (J.runLoop 0 commands State.init).1[c]? = some (J.found command entry) :=
  J.runLoop_getElem? 0 commands State.init hcmd hentry

theorem matched_loop (J : Judge) (commands : List Typed) :
    Matched commands (J.runLoop 0 commands State.init).1 := by
  intro c
  cases hcmd : commands[c]? with
  | none =>
    have hlen := List.getElem?_eq_none_iff.mp hcmd
    rw [List.getElem?_eq_none (by simpa using hlen)]
    rfl
  | some command =>
    obtain ⟨entry, hentry⟩ := J.exists_finding hcmd
    rw [J.loop_getElem? hcmd hentry]
    simp [found]

/-- The verdict of a command after `conflicts`. -/
def afterConflicts (J : Judge) (commands : List Typed) (command : Typed)
    (entry : Finding × Option Path) : Judgment :=
  match entry.1.claim with
  | none => J.found command entry
  | some key =>
    if contested commands (J.claimsOn commands key) then
      toConflict key.1 (rawOf (J.changed key.1) key.2) (J.found command entry)
    else J.found command entry

/-- **The first pass, command by command.** -/
theorem conflicts_getElem? (J : Judge) {commands : List Typed} {c : Nat} {command : Typed}
    {entry : Finding × Option Path} (hcmd : commands[c]? = some command)
    (hentry : (J.findings commands)[c]? = some entry) :
    (J.conflicts (J.runLoop 0 commands State.init).2 (J.runLoop 0 commands State.init).1)[c]? =
      some (J.afterConflicts commands command entry) := by
  have hm := J.matched_loop commands
  have hfirst : Matched commands (conflictsIn (J.runLoop 0 commands State.init).2.claimsAdded
      J.added .plus (J.runLoop 0 commands State.init).1) :=
    matched_foldl_conflictEntry J.added .plus _ hm
  have hloop := J.loop_getElem? hcmd hentry
  have hadded : ∀ k, c ∈ (J.runLoop 0 commands State.init).2.claimsAdded.get k ↔
      entry.1.claim = some (.plus, k) := fun k => by
    rw [J.claimsAdded_loop, mem_claimsOn_iff hentry]
  have hremoved : ∀ k, c ∈ (J.runLoop 0 commands State.init).2.claimsRemoved.get k ↔
      entry.1.claim = some (.minus, k) := fun k => by
    rw [J.claimsRemoved_loop, mem_claimsOn_iff hentry]
  unfold conflicts afterConflicts
  rcases hclaim : entry.1.claim with _ | ⟨sign, k⟩
  · have hnot : ∀ key, entry.1.claim ≠ some key := fun key => by rw [hclaim]; simp
    rw [conflictsIn_of_notMem (fun k h => hnot _ ((hremoved k).mp h)) _ _ hfirst,
      conflictsIn_of_notMem (fun k h => hnot _ ((hadded k).mp h)) _ _ hm, hloop]
  · cases sign with
    | plus =>
      have hnot : ∀ k', c ∉ (J.runLoop 0 commands State.init).2.claimsRemoved.get k' := by
        intro k' h
        have := (hremoved k').mp h
        rw [hclaim] at this
        simp at this
      have honly : ∀ k', c ∈ (J.runLoop 0 commands State.init).2.claimsAdded.get k' → k' = k := by
        intro k' h
        have := (hadded k').mp h
        rw [hclaim] at this
        simpa using this.symm
      rw [conflictsIn_of_notMem hnot _ _ hfirst,
        conflictsIn_of_mem ((hadded k).mpr hclaim) honly _ _ hm, J.claimsAdded_loop, hloop]
      dsimp only [changed]
      split <;> rfl
    | minus =>
      have hnot : ∀ k', c ∉ (J.runLoop 0 commands State.init).2.claimsAdded.get k' := fun k' h => by
        have := (hadded k').mp h
        rw [hclaim] at this
        simp at this
      have honly : ∀ k', c ∈ (J.runLoop 0 commands State.init).2.claimsRemoved.get k' → k' = k := by
        intro k' h
        have := (hremoved k').mp h
        rw [hclaim] at this
        simpa using this.symm
      rw [conflictsIn_of_mem ((hremoved k).mpr hclaim) honly _ _ hfirst,
        conflictsIn_of_notMem hnot _ _ hm, J.claimsRemoved_loop, hloop]
      dsimp only [changed]
      split <;> rfl

end Loop

/-! ## The defaults view -/

section Defaults

variable [Unicode]

/-- The line of its section of the view that is the command. -/
def viewLine (J : Judge) (words : List Str) (context : Option Path) : Option Line :=
  context.bind fun path => J.view.find? fun line => line.path == path && matchesLine words line.words

/-- The words of the command at a position. -/
def wordsAt (commands : List Typed) (c : Nat) : List Str :=
  ((commands[c]?).map Typed.words).getD []

/-- The commands in review that the view does not prove. -/
def unsettled (J : Judge) (commands : List Typed) (reviews : List (Nat × Option Path)) :
    List (Nat × Option Path) :=
  reviews.filter fun entry => (J.viewLine (wordsAt commands entry.1) entry.2).isNone

/-- What the view makes of one verdict in review. -/
def byView (J : Judge) (commands : List Typed) (entry : Nat × Option Path) (j : Judgment) :
    Judgment :=
  match J.viewLine (wordsAt commands entry.1) entry.2 with
  | none => j
  | some line => toInPlace line j

theorem defaultLine_eq (J : Judge) (commands : List Typed) {results : List Judgment}
    {entry : Nat × Option Path} (h : (results[entry.1]?).map Judgment.note ≠ some .conflict) :
    J.defaultLine commands results entry = J.viewLine (wordsAt commands entry.1) entry.2 := by
  unfold defaultLine viewLine wordsAt
  cases entry.2 with
  | none => rfl
  | some path =>
    dsimp only [Option.bind_some]
    rw [if_neg h]

/-- The view's pass over reviews that are no conflicts: it proves each of them by
itself, and leaves the rest in review. -/
theorem foldl_defaults (J : Judge) (commands : List Typed) (reviews : List (Nat × Option Path))
    (results : List Judgment) (kept : List (Nat × Option Path))
    (hnote : ∀ entry ∈ reviews, (results[entry.1]?).map Judgment.note ≠ some .conflict) :
    reviews.foldl
        (fun acc entry =>
          match J.defaultLine commands acc.1 entry with
          | none => (acc.1, acc.2 ++ [entry])
          | some line => (acc.1.modify entry.1 (toInPlace line), acc.2))
        (results, kept) =
      (reviews.foldl (fun results entry => results.modify entry.1 (J.byView commands entry)) results,
        kept ++ J.unsettled commands reviews) := by
  induction reviews generalizing results kept with
  | nil => simp [unsettled]
  | cons entry reviews ih =>
    have hhead := J.defaultLine_eq commands (hnote entry (List.mem_cons_self ..))
    have htail : ∀ f : Judgment → Judgment, (∀ j, (f j).note = .conflict → j.note = .conflict) →
        ∀ e ∈ reviews, ((results.modify entry.1 f)[e.1]?).map Judgment.note ≠ some .conflict := by
      intro f hf e he
      have h := hnote e (List.mem_cons_of_mem _ he)
      rw [List.getElem?_modify]
      cases hj : results[e.1]? with
      | none => simp
      | some j =>
        rw [hj] at h
        by_cases heq : entry.1 = e.1
        · simpa [heq] using fun hc => h (by simpa using hf j hc)
        · simpa [heq] using h
    rw [List.foldl_cons, List.foldl_cons, hhead]
    unfold unsettled byView
    cases hline : J.viewLine (wordsAt commands entry.1) entry.2 with
    | none =>
      have hid : results.modify entry.1 (fun j => j) = results := List.modify_id _ _
      dsimp only
      rw [ih results _ fun e he => hnote e (List.mem_cons_of_mem _ he), hid,
        List.filter_cons_of_pos (by simp [hline]), List.append_assoc]
      rfl
    | some line =>
      dsimp only
      rw [ih _ _ (htail (toInPlace line) fun j hj => by simp [toInPlace] at hj),
        List.filter_cons_of_neg (by simp [hline])]
      rfl

theorem byView_of_view_eq_nil {J : Judge} (h : J.view = []) (commands : List Typed)
    (entry : Nat × Option Path) : J.byView commands entry = id := by
  have hline : J.viewLine (wordsAt commands entry.1) entry.2 = none := by
    unfold viewLine
    cases entry.2 with
    | none => rfl
    | some path => simp [h]
  funext j
  simp [byView, hline]

/-- The state `run` ends in: its loop's claims, and the reviews the view left. -/
def finalState (J : Judge) (commands : List Typed) : State :=
  { (J.runLoop 0 commands State.init).2 with
    reviews := J.unsettled commands (unprovenOf 0 (J.findings commands)) }

/-- The verdicts `run` has before the evidence of the reviews. -/
def shownResults (J : Judge) (commands : List Typed) : List Judgment :=
  (unprovenOf 0 (J.findings commands)).foldl
    (fun results entry => results.modify entry.1 (J.byView commands entry))
    (J.conflicts (J.runLoop 0 commands State.init).2 (J.runLoop 0 commands State.init).1)

/-- **The second pass, fetched view or not.** -/
theorem shown_eq (J : Judge) (commands : List Typed) :
    (if J.view = [] then
        (J.conflicts (J.runLoop 0 commands State.init).2 (J.runLoop 0 commands State.init).1,
          (J.runLoop 0 commands State.init).2)
      else
        J.defaults commands (J.runLoop 0 commands State.init).2
          (J.conflicts (J.runLoop 0 commands State.init).2 (J.runLoop 0 commands State.init).1)) =
      (J.shownResults commands, J.finalState commands) := by
  split
  · next hview =>
    have hid : ∀ (results : List Judgment) (reviews : List (Nat × Option Path)),
        reviews.foldl (fun results entry => results.modify entry.1 (J.byView commands entry))
          results = results := by
      intro results reviews
      induction reviews generalizing results with
      | nil => rfl
      | cons entry reviews ih =>
        rw [List.foldl_cons, byView_of_view_eq_nil hview, List.modify_id, ih]
    have hkeep : J.unsettled commands (unprovenOf 0 (J.findings commands)) =
        (J.runLoop 0 commands State.init).2.reviews := by
      rw [reviews_loop]
      refine List.filter_eq_self.mpr fun entry _ => ?_
      cases h : entry.2 with
      | none => simp [viewLine]
      | some path => simp [viewLine, hview]
    rw [shownResults, hid, finalState, hkeep]
  · have hnote : ∀ entry ∈ unprovenOf 0 (J.findings commands),
        ((J.conflicts (J.runLoop 0 commands State.init).2
          (J.runLoop 0 commands State.init).1)[entry.1]?).map Judgment.note ≠ some .conflict := by
      intro entry hentry
      have hfinding := mem_unprovenOf.mp hentry
      obtain ⟨command, hcmd⟩ := J.exists_command hfinding
      rw [J.conflicts_getElem? hcmd hfinding]
      simp [afterConflicts, found, Finding.claim, Finding.judgment]
    have hfold := J.foldl_defaults commands _ _ [] hnote
    unfold defaults
    rw [reviews_loop]
    exact congrArg (fun acc : List Judgment × List (Nat × Option Path) =>
      (acc.1, { (J.runLoop 0 commands State.init).2 with reviews := acc.2 })) hfold

omit [Unicode] in
/-- The positions of the reviews are listed once each. -/
theorem nodup_unprovenOf (i : Nat) (entries : List (Finding × Option Path)) :
    ((unprovenOf i entries).map Prod.fst).Nodup := by
  have hsub : ((unprovenOf i entries).map Prod.fst).Sublist (List.range' i entries.length) := by
    induction entries generalizing i with
    | nil => exact List.Sublist.slnil
    | cons entry entries ih =>
      have h : ((unprovenOf (i + 1) entries).map Prod.fst).Sublist
          (List.range' (i + 1) entries.length) := ih (i + 1)
      rw [List.length_cons, List.range'_succ]
      by_cases hun : entry.1 = .unproven
      · have hcons : unprovenOf i (entry :: entries) =
            (i, entry.2) :: unprovenOf (i + 1) entries := by
          simp [unprovenOf, hun]
        rw [hcons]
        exact h.cons_cons i
      · have hcons : unprovenOf i (entry :: entries) = unprovenOf (i + 1) entries := by
          simp [unprovenOf, hun]
        rw [hcons]
        exact h.cons i
  exact hsub.nodup List.nodup_range'

theorem nodup_reviews (J : Judge) (commands : List Typed) :
    ((J.finalState commands).reviews.map Prod.fst).Nodup :=
  (List.filter_sublist.map Prod.fst).nodup (nodup_unprovenOf 0 (J.findings commands))

theorem mem_reviews {J : Judge} {commands : List Typed} {p : Nat × Option Path} :
    p ∈ (J.finalState commands).reviews ↔
      (J.findings commands)[p.1]? = some (.unproven, p.2) ∧
        J.viewLine (wordsAt commands p.1) p.2 = none := by
  unfold finalState unsettled
  rw [List.mem_filter, mem_unprovenOf, Option.isNone_iff_eq_none]

end Defaults

/-! ## The verdict a run ends with -/

section Settled

variable [Unicode]

/-- The verdict of a command after the first three passes. -/
def settled (J : Judge) (commands : List Typed) (command : Typed)
    (entry : Finding × Option Path) : Judgment :=
  if entry.1 = .unproven then
    match J.viewLine command.words entry.2 with
    | none => toReview (J.evidenceOf (J.finalState commands) entry.2) (J.found command entry)
    | some line => toInPlace line (J.found command entry)
  else J.afterConflicts commands command entry

/-- What `reviewEvidence` makes of the verdicts is what is settled. -/
theorem reviewEvidence_getElem? (J : Judge) {commands : List Typed} {c : Nat} {command : Typed}
    {entry : Finding × Option Path} (hcmd : commands[c]? = some command)
    (hentry : (J.findings commands)[c]? = some entry) :
    (J.reviewEvidence (J.finalState commands) (J.shownResults commands))[c]? =
      some (J.settled commands command entry) := by
  have hconf := J.conflicts_getElem? hcmd hentry
  have hwords : wordsAt commands c = command.words := by simp [wordsAt, hcmd]
  unfold reviewEvidence settled
  obtain ⟨finding, here⟩ := entry
  dsimp only
  split
  · next hun =>
    subst hun
    have hmem : (c, here) ∈ unprovenOf 0 (J.findings commands) := mem_unprovenOf.mpr hentry
    have hshown : (J.shownResults commands)[c]? =
        some (J.byView commands (c, here) (J.found command (.unproven, here))) := by
      unfold shownResults
      rw [getElem?_foldl_modify_of_mem Prod.fst (J.byView commands) (nodup_unprovenOf 0 _) _ hmem,
        hconf]
      rfl
    cases hline : J.viewLine command.words here with
    | none =>
      have hreview : (c, here) ∈ (J.finalState commands).reviews :=
        mem_reviews.mpr ⟨hentry, by rw [hwords]; exact hline⟩
      rw [getElem?_foldl_modify_of_mem Prod.fst
          (fun entry => toReview (J.evidenceOf (J.finalState commands) entry.2))
          (J.nodup_reviews commands) _ hreview, hshown]
      simp [byView, hwords, hline]
    | some line =>
      have hne : ∀ e ∈ (J.finalState commands).reviews, e.1 ≠ c := by
        intro e he heq
        obtain ⟨hfind, hnone⟩ := mem_reviews.mp he
        rw [heq, hentry, Option.some_inj] at hfind
        rw [heq, hwords, ← (Prod.mk.inj hfind).2, hline] at hnone
        exact absurd hnone (by simp)
      rw [getElem?_foldl_modify_of_ne Prod.fst _ _ _ hne, hshown]
      simp [byView, hwords, hline]
  · next hun =>
    have hne : ∀ e : Nat × Option Path, (J.findings commands)[e.1]? = some (.unproven, e.2) →
        e.1 ≠ c := by
      intro e hfind heq
      rw [heq, hentry, Option.some_inj] at hfind
      exact hun (Prod.mk.inj hfind).1
    rw [getElem?_foldl_modify_of_ne Prod.fst _ _ _ fun e he => hne e (mem_reviews.mp he).1,
      shownResults, getElem?_foldl_modify_of_ne Prod.fst _ _ _ fun e he =>
        hne e (mem_unprovenOf.mp he), hconf]

end Settled

/-! ## Replies -/

theorem rejects_reject (note : Note) (j : Judgment) : Rejects j (reject note j) := by
  unfold reject
  split
  · next h => exact .reject note h
  · exact .refl

theorem rejects_repliedOwn (J : Judge) (results : List Judgment) :
    List.Forall₂ Rejects results (J.repliedOwn results) := by
  have h : ∀ start, List.Forall₂ Rejects results
      ((results.zipIdx start).map fun p => if J.said p.2 then reject .unproven p.1 else p.1) := by
    induction results with
    | nil => exact fun _ => .nil
    | cons j results ih =>
      intro start
      rw [List.zipIdx_cons, List.map_cons]
      refine .cons ?_ (ih (start + 1))
      dsimp only
      split
      · exact rejects_reject _ j
      · exact .refl
  exact h 0

theorem rejects_repliedBlocks (J : Judge) (start k : Nat) (commands : List Typed)
    (results : List Judgment) :
    List.Forall₂ Rejects results (J.repliedBlocks start k commands results) := by
  have htrans : ∀ a b c, Rejects a b → Rejects b c → Rejects a c := fun _ _ _ h₁ h₂ => h₁.trans h₂
  induction commands generalizing start k results with
  | nil => exact List.forall₂_same.mpr fun _ _ => .refl
  | cons command commands ih =>
    unfold repliedBlocks
    split
    · dsimp only
      split
      · exact forall₂_trans htrans
          (forall₂_foldl_modify (fun _ => .refl) htrans (rejects_reject _) _ results) (ih _ _ _)
      · exact ih _ _ _
    · exact ih _ _ _

/-- **The fourth pass only rejects reviews.** -/
theorem rejects_repliedPass (J : Judge) (commands : List Typed) (results : List Judgment) :
    List.Forall₂ Rejects results (J.repliedPass commands results) :=
  forall₂_trans (fun _ _ _ h₁ h₂ => h₁.trans h₂) (J.rejects_repliedOwn results)
    (J.rejects_repliedBlocks 0 0 commands _)

section Run

variable [Unicode]

/-- The run, its passes named. -/
theorem run_eq (J : Judge) (commands : List Typed) :
    J.run commands =
      { commands := J.repliedPass commands
          (J.reviewEvidence (J.finalState commands) (J.shownResults commands))
        otherChanges := ((J.changes (J.finalState commands)).filter fun c =>
          c.byCommands.isEmpty && !c.device).map otherText
        added := (J.finalState commands).claimsAdded.keys.map fun i =>
          ((J.added[i]?).map Line.key).getD ([], [])
        removed := (J.finalState commands).claimsRemoved.keys.map fun i =>
          ((J.removed[i]?).map Line.key).getD ([], [])
        changes := J.changes (J.finalState commands) } := by
  unfold run
  dsimp only
  rw [J.shown_eq commands]

/-- **A command's verdict is what is settled of it, or a review rejected.** -/
theorem exists_run_commands (J : Judge) {commands : List Typed} {c : Nat} {command : Typed}
    {entry : Finding × Option Path} (hcmd : commands[c]? = some command)
    (hentry : (J.findings commands)[c]? = some entry) :
    ∃ j, (J.run commands).commands[c]? = some j ∧ Rejects (J.settled commands command entry) j := by
  rw [run_eq]
  exact exists_of_forall₂ (J.rejects_repliedPass commands _) (J.reviewEvidence_getElem? hcmd hentry)

/-- Each command has one verdict. -/
@[simp] theorem length_run_commands (J : Judge) (commands : List Typed) :
    (J.run commands).commands.length = commands.length := by
  rw [run_eq]
  dsimp only
  rw [← (J.rejects_repliedPass commands _).length_eq, reviewEvidence, shownResults, conflicts,
    length_foldl_modify, length_foldl_modify, length_conflictsIn, length_conflictsIn,
    length_runLoop]

/-- A verdict of a run is some command's, with its finding. -/
theorem exists_of_run_commands (J : Judge) {commands : List Typed} {c : Nat} {j : Judgment}
    (h : (J.run commands).commands[c]? = some j) :
    ∃ command entry, commands[c]? = some command ∧ (J.findings commands)[c]? = some entry ∧
      Rejects (J.settled commands command entry) j := by
  have hlt : c < commands.length := by
    rw [← length_run_commands J commands]
    exact (List.getElem?_eq_some_iff.mp h).1
  have hcmd := List.getElem?_eq_getElem hlt
  obtain ⟨entry, hentry⟩ := J.exists_finding hcmd
  obtain ⟨j', hj', hrej⟩ := J.exists_run_commands hcmd hentry
  rw [h, Option.some_inj] at hj'
  exact ⟨_, entry, hcmd, hentry, hj' ▸ hrej⟩

end Run

end Judge
end Evidence
end NetRollout
