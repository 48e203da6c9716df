import NetRollout.Evidence.Changes

/-!
# The same push judged twice

Two judges of one diff that differ in what they are told beside it: which
commands the device replied to, the view with the defaults, and the sections
known.  `reread` is the second judge.

As long as both take the same changed and unchanged lines for headers, they go
through the commands in step: the same sections, the same claims, and findings
that differ only where a removal found nothing and the replies decide whether
that is certain (`Reread`).  `agree_loop` is the induction, and the rest of the
file says what it leaves equal: who owns each change, and what is other people's.
-/

namespace NetRollout
namespace Evidence

open PyText

/-- The states have the same section and the same claims. -/
structure State.Agree (st st' : State) : Prop where
  context : st'.context = st.context
  claimsAdded : st'.claimsAdded = st.claimsAdded
  claimsRemoved : st'.claimsRemoved = st.claimsRemoved

namespace State.Agree

theorem refl (st : State) : st.Agree st := ⟨rfl, rfl, rfl⟩

/-- States that agree differ in their reviews only. -/
theorem eq {st st' : State} (h : st.Agree st') : st' = { st with reviews := st'.reviews } := by
  obtain ⟨hcontext, hadded, hremoved⟩ := h
  cases st
  cases st'
  simp only at hcontext hadded hremoved
  subst hcontext hadded hremoved
  rfl

theorem claimsOf_eq {st st' : State} (h : st.Agree st') (key : Sign × Nat) :
    Judge.claimsOf st' key = Judge.claimsOf st key := by
  unfold Judge.claimsOf
  rw [h.claimsAdded, h.claimsRemoved]

end State.Agree

/-- A change without the commands it is evidence for. -/
def Change.ownership (c : Change) : Change := { c with review := [] }

namespace Judge

/-- The judge of the same diff, told of other replies, another view and other
sections. -/
def reread (J : Judge) (replied : List Bool) (view : List Line) (sections : List Path) : Judge :=
  { J with replied := replied, view := view, sections := sections }

section Step

variable [Unicode]

/-- How the findings of two judges can differ: a removal found nothing, and the
device was silent for one of them. -/
inductive Reread (J : Judge) (replied : List Bool) (command : Typed) (context : Option Path) :
    Finding → Finding → Prop where
  | same (f : Finding) : Reread J replied command context f f
  | answered (hreplied : replied ≠ J.replied) (hremoval : J.isRemoval command = true)
      (hnothing : J.nothingThere (command.words.drop 1) context = true) :
      Reread J replied command context .absent .unproven
  | silent (hreplied : replied ≠ J.replied) (hremoval : J.isRemoval command = true)
      (hnothing : J.nothingThere (command.words.drop 1) context = true) :
      Reread J replied command context .unproven .absent

theorem claim_eq_of_reread {J : Judge} {replied : List Bool} {command : Typed}
    {context : Option Path} {f f' : Finding} (h : Reread J replied command context f f') :
    f'.claim = f.claim := by
  cases h <;> rfl

/-- Both judges take the lines a command can match for headers alike. -/
def SameHeaders (J : Judge) (sections : List Path) : Prop :=
  ∀ line, line ∈ J.added ∨ line ∈ J.unchanged →
    sections.contains line.inside = J.isHeader line

theorem findRemoval_reread (J : Judge) (replied : List Bool) (view : List Line)
    (sections : List Path) (i : Nat) (command : Typed) (hremoval : J.isRemoval command = true)
    (st : State) :
    Reread J replied command st.context (J.findRemoval i command st)
      ((J.reread replied view sections).findRemoval i command st) := by
  have hremoved : (J.reread replied view sections).removedAt = J.removedAt := rfl
  have hfound : (J.reread replied view sections).foundAt = J.foundAt := rfl
  have hthere : (J.reread replied view sections).nothingThere = J.nothingThere := rfl
  unfold findRemoval
  rw [hremoved, hfound, hthere]
  cases (levels st.context).findSome? (J.removedAt (command.words.drop 1)) with
  | some p => exact .same _
  | none =>
    cases (levels st.context).findSome? (J.foundAt command.words) with
    | some found => cases found <;> exact .same _
    | none =>
      by_cases hr : replied = J.replied
      · have hsaid : (J.reread replied view sections).said i = J.said i := by rw [hr]; rfl
        dsimp only
        rw [hsaid]
        exact .same _
      · dsimp only
        split
        · next h =>
          split
          · exact .same _
          · exact .answered hr hremoval h.2.2
        · split
          · next h => exact .silent hr hremoval h.2.2
          · exact .same _

/-- A line found is an added or an unchanged one. -/
theorem mem_of_foundAt {J : Judge} {typed : List Str} {path : Option Path} {found : Found}
    (h : J.foundAt typed path = some found) :
    match found with
    | .added line _ => line ∈ J.added
    | .unchanged line => line ∈ J.unchanged := by
  have hfacts := facts_of_foundAt h
  cases found with
  | added line index => exact List.mem_of_getElem? hfacts.1
  | unchanged line => exact hfacts.1

theorem findSetting_reread {J : Judge} (replied : List Bool) (view : List Line)
    {sections : List Path} (hheaders : J.SameHeaders sections) (command : Typed)
    (next : Option (List Str)) (st : State) :
    (J.reread replied view sections).findSetting command next st =
      J.findSetting command next st := by
  have hfound : (J.reread replied view sections).foundAt = J.foundAt := rfl
  have hnegation : (J.reread replied view sections).negationAt = J.negationAt := rfl
  have henter : ∀ line path, line ∈ J.added ∨ line ∈ J.unchanged →
      (J.reread replied view sections).enter line path = J.enter line path := by
    intro line path hline
    have h : (J.reread replied view sections).isHeader line = J.isHeader line := hheaders line hline
    unfold enter
    rw [h]
  have hopened : (J.reread replied view sections).openedBlock next st = J.openedBlock next st := by
    unfold openedBlock
    split
    · rfl
    · rfl
    · rw [← List.head?_filter, ← List.head?_filter]
      refine congrArg List.head? (List.filter_congr fun p hp => ?_)
      have hline : p.1 ∈ J.added :=
        List.mem_of_getElem? (List.mem_zipIdx_iff_getElem?.mp hp)
      have h : (J.reread replied view sections).isHeader p.1 = J.isHeader p.1 :=
        hheaders p.1 (Or.inl hline)
      rw [h]
      rfl
  unfold findSetting
  rw [hfound, hnegation, hopened]
  cases hfind : (levels st.context).findSome? fun path =>
      (J.foundAt command.words path).map fun found => (found, path) with
  | none => rfl
  | some p =>
    obtain ⟨path, -, hp⟩ := List.exists_of_findSome?_eq_some hfind
    obtain ⟨found, hf, rfl⟩ := Option.map_eq_some_iff.mp hp
    have hmem := mem_of_foundAt hf
    cases found with
    | added line index =>
      dsimp only
      rw [henter line path (Or.inl hmem)]
    | unchanged line =>
      dsimp only
      rw [henter line path (Or.inr hmem)]

/-- **One command, judged twice**: the same section after it, and the same
finding up to a removal that found nothing. -/
theorem find_reread {J : Judge} (replied : List Bool) (view : List Line) {sections : List Path}
    (hheaders : J.SameHeaders sections) (i : Nat) (command : Typed) (next : Option (List Str))
    {st st' : State} (hst : st.Agree st') :
    Reread J replied command st.context (J.find i command next st).1
        ((J.reread replied view sections).find i command next st').1 ∧
      ((J.reread replied view sections).find i command next st').2 =
        (J.find i command next st).2 := by
  -- nothing but the section and the claims of a state is looked at
  have hfind : (J.reread replied view sections).find i command next st' =
      (J.reread replied view sections).find i command next st := by
    rw [hst.eq]
    rfl
  rw [hfind]
  have hrem : (J.reread replied view sections).isRemoval = J.isRemoval := rfl
  have hnav : (J.reread replied view sections).navigate = J.navigate := rfl
  unfold find
  rw [hrem, hnav]
  split
  · exact ⟨.same _, rfl⟩
  · split
    · exact ⟨.same _, rfl⟩
    · split
      · next h => exact ⟨findRemoval_reread J replied view sections i command h st, rfl⟩
      · rw [findSetting_reread replied view hheaders]
        exact ⟨.same _, rfl⟩

end Step

/-! ## The two runs -/

section Runs

variable [Unicode]

omit [Unicode] in
theorem agree_apply {st st' : State} (hst : st.Agree st') (i : Nat) {f f' : Finding}
    (hclaim : f'.claim = f.claim) (context : Option Path) :
    (st.apply i f context).Agree (st'.apply i f' context) := by
  refine ⟨rfl, ?_, ?_⟩
  · simp only [State.apply, hclaim, hst.claimsAdded]
  · simp only [State.apply, hclaim, hst.claimsRemoved]

/-- **The two loops in step**, from states that agree. -/
theorem agree_loop {J : Judge} (replied : List Bool) (view : List Line) {sections : List Path}
    (hheaders : J.SameHeaders sections) (i : Nat) (commands : List Typed) {st st' : State}
    (hst : st.Agree st') :
    (J.runLoop i commands st).2.Agree ((J.reread replied view sections).runLoop i commands st').2 := by
  induction commands generalizing i st st' with
  | nil => exact hst
  | cons command commands ih =>
    obtain ⟨hfinding, hcontext⟩ :=
      find_reread replied view hheaders i command (following commands) hst
    simp only [runLoop, judgeOne_eq]
    rw [hcontext]
    exact ih (i + 1) (agree_apply hst i (claim_eq_of_reread hfinding) _)

/-- The two traces in step. -/
theorem agree_trace {J : Judge} (replied : List Bool) (view : List Line) {sections : List Path}
    (hheaders : J.SameHeaders sections) {i : Nat} {commands : List Typed} {st st' : State}
    (hst : st.Agree st') {c : Nat} {command : Typed} (hcmd : commands[c]? = some command)
    {entry entry' : Finding × Option Path} (hentry : (J.trace i commands st)[c]? = some entry)
    (hentry' : ((J.reread replied view sections).trace i commands st')[c]? = some entry') :
    entry'.2 = entry.2 ∧ Reread J replied command entry.2 entry.1 entry'.1 := by
  induction commands generalizing i st st' c with
  | nil => simp at hcmd
  | cons first commands ih =>
    obtain ⟨hfinding, hcontext⟩ :=
      find_reread replied view hheaders i first (following commands) hst
    cases c with
    | zero =>
      rw [trace, List.getElem?_cons_zero, Option.some_inj] at hentry hentry'
      rw [List.getElem?_cons_zero, Option.some_inj] at hcmd
      rw [← hentry, ← hentry', ← hcmd]
      exact ⟨hst.context, hfinding⟩
    | succ c =>
      rw [trace, List.getElem?_cons_succ] at hentry hentry'
      rw [hcontext] at hentry'
      exact ih (agree_apply hst i (claim_eq_of_reread hfinding) _) hcmd hentry hentry'

theorem agree_findings {J : Judge} (replied : List Bool) (view : List Line) {sections : List Path}
    (hheaders : J.SameHeaders sections) {commands : List Typed} {c : Nat} {command : Typed}
    (hcmd : commands[c]? = some command) {entry entry' : Finding × Option Path}
    (hentry : (J.findings commands)[c]? = some entry)
    (hentry' : ((J.reread replied view sections).findings commands)[c]? = some entry') :
    entry'.2 = entry.2 ∧ Reread J replied command entry.2 entry.1 entry'.1 :=
  agree_trace replied view hheaders (State.Agree.refl _) hcmd hentry hentry'

/-- The states the two runs end in agree, but for the reviews. -/
theorem agree_finalState {J : Judge} (replied : List Bool) (view : List Line)
    {sections : List Path} (hheaders : J.SameHeaders sections) (commands : List Typed) :
    (J.finalState commands).Agree ((J.reread replied view sections).finalState commands) := by
  obtain ⟨hcontext, hadded, hremoved⟩ :=
    agree_loop replied view hheaders 0 commands (State.Agree.refl State.init)
  exact ⟨hcontext, hadded, hremoved⟩

theorem claimsOn_reread {J : Judge} (replied : List Bool) (view : List Line) {sections : List Path}
    (hheaders : J.SameHeaders sections) (commands : List Typed) (key : Sign × Nat) :
    (J.reread replied view sections).claimsOn commands key = J.claimsOn commands key := by
  rw [← claimsOf_finalState, ← claimsOf_finalState]
  exact (agree_finalState replied view hheaders commands).claimsOf_eq key

/-- What `conflicts` makes of the same finding is the same. -/
theorem afterConflicts_reread {J : Judge} (replied : List Bool) (view : List Line)
    {sections : List Path} (hheaders : J.SameHeaders sections) (commands : List Typed)
    (command : Typed) (entry : Finding × Option Path) :
    (J.reread replied view sections).afterConflicts commands command entry =
      J.afterConflicts commands command entry := by
  unfold afterConflicts
  cases entry.1.claim with
  | none => rfl
  | some key =>
    dsimp only
    rw [claimsOn_reread replied view hheaders]
    rfl

/-- The evidence of a section is the same. -/
theorem evidenceOf_reread (J : Judge) (replied : List Bool) (view : List Line)
    (sections : List Path) {st st' : State} (hst : st.Agree st') (path : Option Path) :
    (J.reread replied view sections).evidenceOf st' path = J.evidenceOf st path := by
  rw [hst.eq]
  rfl

/-! ## What both runs say of the changes -/

/-- Who owns each change is read off the claims. -/
theorem ownership_changes (J : Judge) (replied : List Bool) (view : List Line)
    (sections : List Path) {st st' : State} (hadded : st'.claimsAdded = st.claimsAdded)
    (hremoved : st'.claimsRemoved = st.claimsRemoved) :
    ((J.reread replied view sections).changes st').map Change.ownership =
      (J.changes st).map Change.ownership := by
  obtain ⟨context, claimsAdded, claimsRemoved, reviews⟩ := st'
  dsimp only at hadded hremoved
  subst hadded hremoved
  unfold changes
  simp only [List.map_append, List.map_map]
  rfl

/-- Two outcomes that say the same of the changes: the lines that commands
claim, who owns each change, and what is other people's. -/
structure SameChanges (outcome outcome' : Outcome) : Prop where
  added : outcome'.added = outcome.added
  removed : outcome'.removed = outcome.removed
  other : outcome'.otherChanges = outcome.otherChanges
  changes : outcome'.changes.map Change.ownership = outcome.changes.map Change.ownership

omit [Unicode] in
/-- What is other people's is read off the ownership. -/
theorem otherTexts_eq (changes : List Change) :
    (changes.filter fun c => c.byCommands.isEmpty && !c.device).map otherText =
      ((changes.map Change.ownership).filter fun c => c.byCommands.isEmpty && !c.device).map
        otherText := by
  rw [List.filter_map, List.map_map]
  rfl

/-- Runs that end with the same claims say the same of the changes. -/
theorem sameChanges_of_claims {J : Judge} (replied : List Bool) (view : List Line)
    (sections : List Path) (commands : List Typed)
    (hadded : ((J.reread replied view sections).finalState commands).claimsAdded =
      (J.finalState commands).claimsAdded)
    (hremoved : ((J.reread replied view sections).finalState commands).claimsRemoved =
      (J.finalState commands).claimsRemoved) :
    SameChanges (J.run commands) ((J.reread replied view sections).run commands) := by
  have hchanges := J.ownership_changes replied view sections hadded hremoved
  rw [run_eq, run_eq]
  refine ⟨?_, ?_, ?_, hchanges⟩
  · dsimp only
    rw [hadded]
    rfl
  · dsimp only
    rw [hremoved]
    rfl
  · dsimp only
    rw [otherTexts_eq, hchanges, ← otherTexts_eq]

/-- **Two runs in step say the same of the changes.** -/
theorem sameChanges_reread {J : Judge} (replied : List Bool) (view : List Line)
    {sections : List Path} (hheaders : J.SameHeaders sections) (commands : List Typed) :
    SameChanges (J.run commands) ((J.reread replied view sections).run commands) := by
  have hst := agree_finalState replied view hheaders commands
  exact sameChanges_of_claims replied view sections commands hst.claimsAdded hst.claimsRemoved

end Runs
end Judge
end Evidence
end NetRollout
