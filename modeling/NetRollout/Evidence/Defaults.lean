import NetRollout.Evidence.Replies

/-!
# What the defaults view changes

The push is judged once more when a view of the configuration with its defaults
was fetched.  The view is looked at for the commands in review, and its sections
count as sections: a line that opens one there is a header.

By the first of these the view only settles what was unproven.  By the second the
judge can be in a section that only the view opens (`onlyInView`), one below the
section it is in without the view (`Near`).  Nothing changed there, so as long as
it stays there it finds the same.  It goes on elsewhere in two ways: a command
leaves that section for the one around it (`not_onlyUpgrades_bgp`), or one that
rests on no line has opened a block of the section around it, named by the device
(`not_onlyUpgrades_named`).  Where no command does either, the view leaves every
proven verdict and every change alone (`onlyUpgrades_judge`).
-/

namespace NetRollout
namespace Evidence

open PyText

namespace Judge

/-! ## Sections that only the view opens -/

/-- The view has lines in a section, and neither snapshot has. -/
def onlyInView (J : Judge) (path : Path) : Bool :=
  (J.view.map Line.path).contains path && !(J.both.map Line.path).contains path

section Strays

variable [Unicode]

/-- A command that is judged in a section only the view opens goes on where the
judge without the view is not: it leaves for the section around, below the top; or
it rests on no line, and the section around has a new block, claimed by no command,
that holds the next command's line. -/
def strays (J : Judge) (i : Nat) (command : Typed) (next : Option (List Str)) (st : State) : Bool :=
  match st.context with
  | none => false
  | some here =>
    J.onlyInView here && !command.exec &&
      if command.navigation then
        J.navigate command (some here) == some here.dropLast && !here.dropLast.isEmpty
      else
        !J.isRemoval command && (J.find i command next st).1 == .unproven &&
          (J.openedBlock next { st with context := some here.dropLast }).isSome

/-- No command of a run does. -/
def neverStrays (J : Judge) : Nat → List Typed → State → Bool
  | _, [], _ => true
  | i, command :: commands, st =>
    !J.strays i command (following commands) st &&
      J.neverStrays (i + 1) commands (J.step i command (following commands) st)

end Strays

/-- The judge told of a view, whose sections count as sections. -/
def withView (J : Judge) (view : List Line) : Judge :=
  J.reread J.replied view (J.sections ++ view.map Line.path)

/-- The judge of two snapshots: what changed and what did not are lines of theirs. -/
structure Plain (J : Judge) : Prop where
  view : J.view = []
  sections : J.sections = J.both.map Line.path
  added : ∀ line ∈ J.added, line ∈ J.both
  unchanged : ∀ line ∈ J.unchanged, line ∈ J.both
  removed : ∀ line ∈ J.removed, line ∈ J.both

/-- Where the judge with the view is: where the one without it is, or in a section
there that only the view opens. -/
inductive Near (J : Judge) : Option Path → Option Path → Prop where
  | here (context : Option Path) : Near J context context
  | under (path : Path) (text : Str) (h : J.onlyInView (path ++ [text]) = true) :
    Near J (some path) (some (path ++ [text]))

/-- The states of the two judges. -/
structure Beside (J : Judge) (st st' : State) : Prop where
  context : J.Near st.context st'.context
  claimsAdded : st'.claimsAdded = st.claimsAdded
  claimsRemoved : st'.claimsRemoved = st.claimsRemoved

theorem levels_under (path : Path) (text : Str) :
    levels (some (path ++ [text])) = some (path ++ [text]) :: levels (some path) := by
  have hinner : ((List.range (path.length + 1)).reverse.map fun n =>
      some ((path ++ [text]).take n)) =
        (List.range (path.length + 1)).reverse.map fun n => some (path.take n) := by
    refine List.map_congr_left fun n hn => ?_
    have hlt := List.mem_range.mp (List.mem_reverse.mp hn)
    rw [List.take_append_of_le_length (by omega)]
  simp only [levels, List.length_append, List.length_singleton]
  rw [List.range_succ, List.reverse_append, List.reverse_singleton, List.singleton_append,
    List.map_cons, hinner, List.take_of_length_le (by simp)]

/-- What is found nowhere in the section under it is found from the section itself. -/
theorem findSome?_levels_under {α : Type*} (f : Option Path → Option α) {path : Path} {text : Str}
    (h : f (some (path ++ [text])) = none) :
    (levels (some (path ++ [text]))).findSome? f = (levels (some path)).findSome? f := by
  rw [levels_under, List.findSome?_cons, h]

variable {J : Judge} {view : List Line}

/-- No line of the snapshots is in a section that only the view opens. -/
theorem at_eq_false {path : Path} (hpath : (J.withView view).onlyInView path = true)
    {line : Line} (hline : line ∈ J.both) : at_ line (some path) = false := by
  unfold onlyInView at hpath
  rw [Bool.and_eq_true, Bool.not_eq_true', List.contains_eq_mem, List.contains_eq_mem,
    decide_eq_false_iff_not] at hpath
  refine beq_false_of_ne fun heq => hpath.2 ?_
  exact List.mem_map.mpr ⟨line, hline, heq⟩

/-- Near each other, both judges find the same, where a section that only the view
opens has nothing to find. -/
theorem findSome?_near {context context' : Option Path}
    (hnear : (J.withView view).Near context context') {α : Type*} (f : Option Path → Option α)
    (hf : ∀ path, (J.withView view).onlyInView path = true → f (some path) = none) :
    (levels context').findSome? f = (levels context).findSome? f := by
  cases hnear with
  | here => rfl
  | under path text hview => exact findSome?_levels_under f (hf _ hview)

namespace Plain

/-- A header of the judge with the view is one of the other, or opens a section that
only the view opens. -/
theorem isHeader_withView (h : J.Plain) (line : Line) :
    (J.withView view).isHeader line =
      (J.isHeader line || (J.withView view).onlyInView line.inside) := by
  unfold isHeader onlyInView
  show (J.sections ++ view.map Line.path).contains line.inside = (_ ||
    ((view.map Line.path).contains line.inside && !(J.both.map Line.path).contains line.inside))
  rw [h.sections, List.contains_append]
  cases (J.both.map Line.path).contains line.inside <;> simp

/-- A line found at a path leaves both judges near each other. -/
theorem near_enter (h : J.Plain) {line : Line} {path : Option Path} (hat : at_ line path = true) :
    (J.withView view).Near (J.enter line path) ((J.withView view).enter line path) := by
  unfold enter
  rw [h.isHeader_withView line]
  cases hheader : J.isHeader line with
  | true => exact .here _
  | false =>
    rw [Bool.false_or]
    cases hview : (J.withView view).onlyInView line.inside with
    | false => exact .here _
    | true =>
      cases path with
      | none => exact .under line.path line.text hview
      | some path =>
        obtain rfl : line.path = path := eq_of_beq hat
        exact .under line.path line.text hview

section Find

variable [Unicode]

theorem foundAt_eq_none (h : J.Plain) {path : Path}
    (hpath : (J.withView view).onlyInView path = true) (typed : List Str) :
    J.foundAt typed (some path) = none := by
  cases hfound : J.foundAt typed (some path) with
  | none => rfl
  | some found =>
    have hfacts := facts_of_foundAt hfound
    cases found with
    | added line index =>
      have hline := h.added line (List.mem_of_getElem? hfacts.1)
      exact absurd (hfacts.2.1) (by rw [at_eq_false hpath hline]; exact Bool.false_ne_true)
    | unchanged line =>
      have hline := h.unchanged line hfacts.1
      exact absurd (hfacts.2.1) (by rw [at_eq_false hpath hline]; exact Bool.false_ne_true)

omit [Unicode] in
/-- Nothing of an indexed list of lines of the snapshots is found there. -/
theorem find?_eq_none {path : Path}
    (hpath : (J.withView view).onlyInView path = true) {lines : List Line}
    (hlines : ∀ line ∈ lines, line ∈ J.both) (p : Line × Nat → Bool) :
    lines.zipIdx.find? (fun q => at_ q.1 (some path) && p q) = none := by
  rw [List.find?_eq_none]
  intro q hq
  have hline := hlines q.1 (List.mem_of_getElem? (List.mem_zipIdx_iff_getElem?.mp hq))
  rw [at_eq_false hpath hline, Bool.false_and]
  exact Bool.false_ne_true

theorem nothingThere_under {path : Path} {text : Str}
    (hpath : (J.withView view).onlyInView (path ++ [text]) = true) (target : List Str) :
    J.nothingThere target (some (path ++ [text])) = J.nothingThere target (some path) := by
  have hnone : (J.both.any fun line =>
      at_ line (some (path ++ [text])) && contains sameWord target line.words) = false := by
    rw [List.any_eq_false]
    intro line hline
    rw [at_eq_false hpath hline, Bool.false_and]
    exact Bool.false_ne_true
  unfold nothingThere
  rw [levels_under, List.any_cons, hnone, Bool.false_or]

theorem openedBlock_withView (h : J.Plain) (next : Option (List Str)) (st : State) :
    (J.withView view).openedBlock next st = J.openedBlock next st := by
  unfold openedBlock
  split
  · rfl
  · rfl
  · next following _ =>
    rw [← List.head?_filter, ← List.head?_filter]
    refine congrArg List.head? (List.filter_congr fun p hp => ?_)
    show (_ && _ && (J.withView view).isHeader p.1 && J.added.any _) = _
    cases hany : J.added.any fun line =>
        line.path == p.1.inside && contains sameWord following line.words with
    | false => rw [Bool.and_false, Bool.and_false]
    | true =>
      -- a header with new lines under it is one without the view
      obtain ⟨line, hline, hp⟩ := List.any_eq_true.mp hany
      have hheader : J.isHeader p.1 = true := by
        unfold isHeader
        rw [h.sections, List.contains_eq_mem, decide_eq_true_iff]
        exact List.mem_map.mpr
          ⟨line, h.added line hline, eq_of_beq (Bool.and_eq_true _ _ ▸ hp).1⟩
      rw [h.isHeader_withView, hheader, Bool.true_or]

theorem openedBlock_under (h : J.Plain) {path : Path}
    (hpath : (J.withView view).onlyInView path = true) (next : Option (List Str)) {st : State}
    (hst : st.context = some path) : J.openedBlock next st = none := by
  unfold openedBlock
  split
  · rfl
  · rfl
  · rw [hst, List.find?_eq_none]
    intro p hp
    have hline := h.added p.1 (List.mem_of_getElem? (List.mem_zipIdx_iff_getElem?.mp hp))
    rw [at_eq_false hpath hline, Bool.and_false, Bool.false_and, Bool.false_and]
    exact Bool.false_ne_true

end Find
end Plain

section Step

variable [Unicode]

theorem Plain.findRemoval_near (h : J.Plain) {st st' : State}
    (hnear : (J.withView view).Near st.context st'.context) (i : Nat) (command : Typed) :
    (J.withView view).findRemoval i command st' = J.findRemoval i command st := by
  have hremoved := findSome?_near hnear (J.removedAt (command.words.drop 1)) fun path hpath =>
    find?_eq_none hpath h.removed _
  have hfound := findSome?_near hnear (J.foundAt command.words) fun path hpath =>
    h.foundAt_eq_none hpath _
  have hthere : J.nothingThere (command.words.drop 1) st'.context =
      J.nothingThere (command.words.drop 1) st.context := by
    generalize st.context = context, st'.context = context' at hnear
    cases hnear with
    | here => rfl
    | under path text hview => exact nothingThere_under hview _
  have hremovedAt : (J.withView view).removedAt = J.removedAt := rfl
  have hfoundAt : (J.withView view).foundAt = J.foundAt := rfl
  have hnothing : (J.withView view).nothingThere = J.nothingThere := rfl
  have hsaid : (J.withView view).said = J.said := rfl
  unfold findRemoval
  rw [hremovedAt, hfoundAt, hnothing, hsaid, hremoved, hfound, hthere]

/-- Leaving a section, both judges stay near each other unless the command strays. -/
theorem near_navigate {st st' : State} (hnear : (J.withView view).Near st.context st'.context)
    {i : Nat} {command : Typed} {next : Option (List Str)} (hexec : ¬ command.exec = true)
    (hnav : command.navigation = true)
    (hstays : (J.withView view).strays i command next st' = false) :
    (J.withView view).Near (J.navigate command st.context)
      ((J.withView view).navigate command st'.context) := by
  have hnavigate : (J.withView view).navigate = J.navigate := rfl
  unfold strays at hstays
  rw [hnavigate] at hstays ⊢
  generalize st.context = context, st'.context = context' at hnear hstays
  cases hnear with
  | here => exact .here _
  | under path text hview =>
    dsimp only at hstays
    rw [hview, Bool.eq_false_of_not_eq_true hexec, if_pos hnav, List.dropLast_concat] at hstays
    unfold navigate at hstays ⊢
    split
    · exact .under path text hview
    · next word rest hwords =>
      split
      · exact .here _
      · next hone =>
        -- one level: the section around is the top
        have hpath : path = [] := by
          simp only [hwords] at hstays
          rw [if_neg hone] at hstays
          simpa using hstays
        subst hpath
        exact .here _

theorem Plain.openedBlock_near (h : J.Plain) {st st' : State}
    (hst : (J.withView view).Beside st st') {i : Nat} {command : Typed} {next : Option (List Str)}
    (hexec : ¬ command.exec = true) (hnav : ¬ command.navigation = true)
    (hset : ¬ J.isRemoval command = true)
    (hstays : (J.withView view).strays i command next st' = false)
    (hnone : ((J.withView view).openedBlock next st').isNone →
      ((J.withView view).find i command next st').1 = .unproven) :
    (J.withView view).openedBlock next st' = J.openedBlock next st := by
  obtain ⟨hcontext, hadded, hremoved⟩ := hst
  have hsame : ∀ context, J.openedBlock next { st' with context := context } =
      J.openedBlock next { st with context := context } := by
    intro context
    unfold openedBlock
    simp only [hadded]
  rw [h.openedBlock_withView] at hnone ⊢
  have hself : J.openedBlock next st' = J.openedBlock next { st with context := st'.context } :=
    hsame st'.context
  generalize hc : st.context = context, hc' : st'.context = context' at hcontext hself
  cases hcontext with
  | here =>
    rw [hself, ← hc]
  | under path text hview =>
    have hunder := h.openedBlock_under hview next hc'
    rw [hunder] at hnone ⊢
    unfold strays at hstays
    rw [hc'] at hstays
    dsimp only at hstays
    have hremoval : (J.withView view).isRemoval command = J.isRemoval command := rfl
    rw [hview, if_neg hnav, List.dropLast_concat, hnone rfl, h.openedBlock_withView, hremoval,
      Bool.eq_false_of_not_eq_true hexec, Bool.eq_false_of_not_eq_true hset, hsame, ← hc] at hstays
    exact (Option.not_isSome_iff_eq_none.mp (by simpa using hstays)).symm

theorem Plain.findSetting_near (h : J.Plain) {st st' : State}
    (hst : (J.withView view).Beside st st') (i : Nat) {command : Typed} {next : Option (List Str)}
    (hexec : ¬ command.exec = true) (hnav : ¬ command.navigation = true)
    (hset : ¬ J.isRemoval command = true)
    (hstays : (J.withView view).strays i command next st' = false) :
    ((J.withView view).findSetting command next st').1 = (J.findSetting command next st).1 ∧
      (J.withView view).Near (J.findSetting command next st).2
        ((J.withView view).findSetting command next st').2 := by
  have hfound := findSome?_near hst.context
    (fun path => (J.foundAt command.words path).map fun found => (found, path))
    fun path hpath => by rw [h.foundAt_eq_none hpath]; rfl
  have hnegation := findSome?_near hst.context (J.negationAt command.words) fun path hpath =>
    find?_eq_none hpath h.removed _
  have hfind : (J.withView view).find i command next st' =
      (J.withView view).findSetting command next st' := by
    unfold find
    rw [if_neg hexec, if_neg hnav]
    exact if_neg hset
  have hfoundAt : (J.withView view).foundAt = J.foundAt := rfl
  have hnegationAt : (J.withView view).negationAt = J.negationAt := rfl
  have hopened := h.openedBlock_near hst hexec hnav hset hstays
  rw [hfind] at hopened
  unfold findSetting at hopened ⊢
  rw [hfoundAt, hnegationAt, hfound, hnegation] at hopened ⊢
  cases hsome : (levels st.context).findSome? fun path =>
      (J.foundAt command.words path).map fun found => (found, path) with
  | some p =>
    obtain ⟨path, -, hp⟩ := List.exists_of_findSome?_eq_some hsome
    obtain ⟨found, hf, rfl⟩ := Option.map_eq_some_iff.mp hp
    have hfacts := facts_of_foundAt hf
    cases found with
    | added line index => exact ⟨rfl, h.near_enter hfacts.2.1⟩
    | unchanged line => exact ⟨rfl, h.near_enter hfacts.2.1⟩
  | none =>
    rw [hsome] at hopened
    cases hgone : (levels st.context).findSome? (J.negationAt command.words) with
    | some p => exact ⟨rfl, hst.context⟩
    | none =>
      rw [hgone] at hopened
      dsimp only at hopened ⊢
      have heq := hopened fun hnone => by rw [Option.isNone_iff_eq_none.mp hnone]
      rw [heq]
      cases J.openedBlock next st with
      | some p => exact ⟨rfl, .here _⟩
      | none => exact ⟨rfl, hst.context⟩

end Step

/-! ## The two runs -/

section Runs

variable [Unicode]

/-- **One command, with the view and without**: the same finding, and the judges stay
near each other. -/
theorem Plain.near_find (h : J.Plain) {st st' : State} (hst : (J.withView view).Beside st st')
    (i : Nat) (command : Typed) (next : Option (List Str))
    (hstays : (J.withView view).strays i command next st' = false) :
    ((J.withView view).find i command next st').1 = (J.find i command next st).1 ∧
      (J.withView view).Near (J.find i command next st).2
        ((J.withView view).find i command next st').2 := by
  have hrem : (J.withView view).isRemoval command = J.isRemoval command := rfl
  unfold find
  rw [hrem]
  split
  · exact ⟨rfl, hst.context⟩
  · next hexec =>
    split
    · next hnav => exact ⟨rfl, near_navigate hst.context hexec hnav hstays⟩
    · next hnav =>
      split
      · exact ⟨h.findRemoval_near hst.context i command, hst.context⟩
      · next hset => exact h.findSetting_near hst i hexec hnav hset hstays

theorem Plain.beside_step (h : J.Plain) {st st' : State} (hst : (J.withView view).Beside st st')
    (i : Nat) (command : Typed) (next : Option (List Str))
    (hstays : (J.withView view).strays i command next st' = false) :
    (J.withView view).Beside (J.step i command next st)
      ((J.withView view).step i command next st') := by
  obtain ⟨hfinding, hnear⟩ := h.near_find hst i command next hstays
  refine ⟨hnear, ?_, ?_⟩
  · simp only [step, State.apply, hfinding, hst.claimsAdded]
  · simp only [step, State.apply, hfinding, hst.claimsRemoved]

/-- **Both loops find the same**, as long as no command strays. -/
theorem Plain.trace_near (h : J.Plain) (i : Nat) (commands : List Typed) {st st' : State}
    (hst : (J.withView view).Beside st st')
    (hstays : (J.withView view).neverStrays i commands st' = true) :
    ((J.withView view).trace i commands st').map Prod.fst =
        (J.trace i commands st).map Prod.fst ∧
      (J.withView view).Beside (J.runLoop i commands st).2
        ((J.withView view).runLoop i commands st').2 := by
  induction commands generalizing i st st' with
  | nil => exact ⟨rfl, hst⟩
  | cons command commands ih =>
    rw [neverStrays, Bool.and_eq_true, Bool.not_eq_true'] at hstays
    obtain ⟨hfinding, -⟩ := h.near_find hst i command (following commands) hstays.1
    obtain ⟨htrace, hend⟩ :=
      ih (i + 1) (h.beside_step hst i command (following commands) hstays.1) hstays.2
    simp only [runLoop, judgeOne_eq, trace, List.map_cons]
    exact ⟨congrArg₂ List.cons hfinding htrace, hend⟩

/-- The states the two runs end in have the same claims. -/
theorem Plain.beside_finalState (h : J.Plain) {commands : List Typed}
    (hstays : (J.withView view).neverStrays 0 commands State.init = true) :
    (J.withView view).Beside (J.finalState commands) ((J.withView view).finalState commands) := by
  obtain ⟨hcontext, hadded, hremoved⟩ := (h.trace_near 0 commands ⟨.here _, rfl, rfl⟩ hstays).2
  exact ⟨hcontext, hadded, hremoved⟩

/-- A command has the same finding in both runs. -/
theorem Plain.exists_finding (h : J.Plain) {commands : List Typed}
    (hstays : (J.withView view).neverStrays 0 commands State.init = true) {c : Nat}
    {f : Finding} {context : Option Path} (hentry : (J.findings commands)[c]? = some (f, context)) :
    ∃ context', ((J.withView view).findings commands)[c]? = some (f, context') := by
  have htrace := congrArg (·[c]?) (h.trace_near 0 commands ⟨.here _, rfl, rfl⟩ hstays).1
  have hentry' : ((J.withView view).findings commands)[c]?.map Prod.fst = some f := by
    refine (List.getElem?_map ..).symm.trans (htrace.trans ?_)
    rw [List.getElem?_map]
    exact congrArg (Option.map Prod.fst) hentry
  obtain ⟨⟨f', context'⟩, hget, rfl⟩ := Option.map_eq_some_iff.mp hentry'
  exact ⟨context', hget⟩

/-- What is settled of a command that rests on something is the same. -/
theorem Plain.settled_withView (h : J.Plain) {commands : List Typed}
    (hstays : (J.withView view).neverStrays 0 commands State.init = true) (command : Typed)
    {f : Finding} (hf : f ≠ .unproven) (context context' : Option Path) :
    (J.withView view).settled commands command (f, context') =
      J.settled commands command (f, context) := by
  have hfound : (J.withView view).found command (f, context') = J.found command (f, context) := by
    cases f with
    | unproven => exact absurd rfl hf
    | _ => rfl
  have hclaims : ∀ key, (J.withView view).claimsOn commands key = J.claimsOn commands key := by
    intro key
    have hend := h.beside_finalState hstays
    rw [← claimsOf_finalState, ← claimsOf_finalState]
    unfold claimsOf
    rw [hend.claimsAdded, hend.claimsRemoved]
  have hchanged : (J.withView view).changed = J.changed := by
    funext sign
    cases sign <;> rfl
  rw [settled, if_neg hf, settled, if_neg hf, afterConflicts, afterConflicts, hfound, hchanged]
  cases f.claim with
  | none => rfl
  | some key =>
    dsimp only
    rw [hclaims]

end Runs

/-! ## What the view settles -/

section Defaults

variable [Unicode]

/-- A line of the view is the command, word for word, in the command's section. -/
def InView (J : Judge) (commands : List Typed) (c : Nat) (j : Judgment) : Prop :=
  ∃ line ∈ J.view, (J.findings commands)[c]?.map Prod.snd = some (some line.path) ∧
    matchesLine (wordsAt commands c) line.words = true ∧ j.verdict = .inPlace ∧
    j.evidence = [evidenceUnchanged line.raw]

/-- What the view may do to an outcome: settle what is unproven. -/
structure OnlyUpgrades (J : Judge) (commands : List Typed) (outcome outcome' : Outcome) :
    Prop where
  /-- A settled verdict stays, with its evidence. -/
  keeps : ∀ (c : Nat) (j : Judgment), outcome.commands[c]? = some j →
    (j.verdict = .tookEffect ∨ j.verdict = .removed ∨ j.verdict = .inPlace) →
      ∃ j', outcome'.commands[c]? = some j' ∧ j'.verdict = j.verdict ∧ j'.evidence = j.evidence
  /-- An unproven command stays so, or the view has it. -/
  upgrades : ∀ (c : Nat) (j : Judgment), outcome.commands[c]? = some j → j.Unproven →
    ∃ j', outcome'.commands[c]? = some j' ∧ (j'.Unproven ∨ J.InView commands c j')
  /-- The lines that commands claim stay, and so do other people's changes. -/
  added : outcome'.added = outcome.added
  removed : outcome'.removed = outcome.removed
  other : outcome'.otherChanges = outcome.otherChanges

/-- Without a view, nothing unproven is in place. -/
theorem settled_of_view_eq_nil {J : Judge} (hview : J.view = []) (commands : List Typed)
    (command : Typed) (context : Option Path) :
    J.settled commands command (.unproven, context) =
      toReview (J.evidenceOf (J.finalState commands) context)
        (J.found command (.unproven, context)) := by
  have hline : J.viewLine command.words context = none := by
    unfold viewLine
    cases context with
    | none => rfl
    | some path => simp [hview]
  rw [settled, if_pos rfl]
  dsimp only
  rw [hline]

/-- An unproven finding is settled as a review, or by a line of the view. -/
theorem inView_of_settled {J : Judge} {commands : List Typed} {c : Nat} {command : Typed}
    {context : Option Path} (hcmd : commands[c]? = some command)
    (hentry : (J.findings commands)[c]? = some (.unproven, context)) {j : Judgment}
    (hrej : Rejects (J.settled commands command (.unproven, context)) j) :
    j.Unproven ∨ J.InView commands c j := by
  rw [settled, if_pos rfl] at hrej
  dsimp only at hrej
  split at hrej
  · exact Or.inl (hrej.unproven_iff.mpr (Or.inl rfl))
  · next line hline =>
    right
    have hj := hrej.eq_of_ne_review (by simp [toInPlace])
    unfold viewLine at hline
    cases context with
    | none => exact absurd hline (by simp)
    | some path =>
      rw [Option.bind_some] at hline
      have hp := List.find?_some hline
      rw [Bool.and_eq_true, beq_iff_eq] at hp
      refine ⟨line, List.mem_of_find?_eq_some hline, ?_, ?_, ?_, ?_⟩
      · rw [hentry, hp.1]
        rfl
      · rw [wordsAt, hcmd]
        exact hp.2
      · rw [hj]
        rfl
      · rw [hj]
        rfl

/-- **The view settles what is unproven**, where no command strays. -/
theorem Plain.onlyUpgrades_run (h : J.Plain) {commands : List Typed}
    (hstays : (J.withView view).neverStrays 0 commands State.init = true) :
    (J.withView view).OnlyUpgrades commands (J.run commands) ((J.withView view).run commands) := by
  have hend := h.beside_finalState hstays
  have hchanges : SameChanges (J.run commands) ((J.withView view).run commands) :=
    sameChanges_of_claims _ _ _ commands hend.claimsAdded hend.claimsRemoved
  -- one command, with its finding, in both runs
  have hboth : ∀ (c : Nat) (j : Judgment), (J.run commands).commands[c]? = some j →
      ∃ command f context context' j', commands[c]? = some command ∧
        ((J.withView view).findings commands)[c]? = some (f, context') ∧
        Rejects (J.settled commands command (f, context)) j ∧
        ((J.withView view).run commands).commands[c]? = some j' ∧
        Rejects ((J.withView view).settled commands command (f, context')) j' := by
    intro c j hj
    obtain ⟨command, ⟨f, context⟩, hcmd, hentry, hrej⟩ := J.exists_of_run_commands hj
    obtain ⟨context', hentry'⟩ := h.exists_finding hstays hentry
    obtain ⟨j', hj', hrej'⟩ := (J.withView view).exists_run_commands hcmd hentry'
    exact ⟨command, f, context, context', j', hcmd, hentry', hrej, hj', hrej'⟩
  refine ⟨?_, ?_, hchanges.added, hchanges.removed, hchanges.other⟩
  · intro c j hj hverdict
    obtain ⟨command, f, context, context', j', hcmd, -, hrej, hj', hrej'⟩ := hboth c j hj
    have hproven : ¬ j.Unproven := by
      rintro (hv | hv) <;> rw [hv] at hverdict <;> simp at hverdict
    have hsettled := hrej.eq_of_not_unproven hproven
    have hf : f ≠ .unproven := by
      rintro rfl
      rw [hsettled, settled_of_view_eq_nil h.view] at hproven
      exact hproven (Or.inl rfl)
    rw [h.settled_withView hstays command hf context context', ← hsettled] at hrej'
    refine ⟨j', hj', ?_, hrej'.evidence_eq⟩
    rw [hrej'.eq_of_not_unproven fun hun => hproven (hrej'.unproven_iff.mp hun)]
  · intro c j hj hun
    obtain ⟨command, f, context, context', j', hcmd, hentry', hrej, hj', hrej'⟩ := hboth c j hj
    refine ⟨j', hj', ?_⟩
    by_cases hf : f = .unproven
    · subst hf
      exact inView_of_settled hcmd hentry' hrej'
    · rw [h.settled_withView hstays command hf context context'] at hrej'
      exact Or.inl (hrej'.unproven_iff.mpr (hrej.unproven_iff.mp hun))

end Defaults
end Judge

section Top

variable [Unicode]

theorem plain_mkJudge (G : Grammar) (before after : Str) (again : Option Str)
    (replied : List Bool) : (mkJudge G before after again replied none).Plain := by
  have hafter : ∀ line ∈ G.lines after, line ∈ G.lines before ++ G.lines after :=
    fun line hline => List.mem_append_right _ hline
  refine ⟨rfl, ?_, fun line hline => ?_, fun line hline => ?_, fun line hline => ?_⟩
  · show (G.lines before ++ G.lines after ++ []).map Line.path = _
    rw [List.append_nil]
    rfl
  · exact hafter line (mem_after_of_mem_added (List.mem_filter.mp hline).1)
  · exact hafter line (mem_after_of_mem_unchanged hline)
  · exact List.mem_append_left _ (mem_before_of_mem_removed (List.mem_filter.mp hline).1)

theorem mkJudge_some (G : Grammar) (before after : Str) (again : Option Str)
    (replied : List Bool) (view : Str) :
    mkJudge G before after again replied (some view) =
      (mkJudge G before after again replied none).withView (G.view (some view)) := by
  have hnone : G.view none = [] := rfl
  unfold mkJudge Judge.init Judge.withView Judge.reread
  simp only [hnone, List.append_nil, List.map_append]

/-- **The defaults view only upgrades**, where no command strays from a section that
only the view opens. -/
theorem onlyUpgrades_judge (G : Grammar) (commands : List Str) (before after : Str)
    (again : Option Str) (replied : List Bool) (view : Str)
    (h : (mkJudge G before after again replied (some view)).neverStrays 0 (typed G commands)
      State.init = true) :
    (mkJudge G before after again replied (some view)).OnlyUpgrades (typed G commands)
      (judge G commands before after again replied none)
      (judge G commands before after again replied (some view)) := by
  unfold judge
  rw [mkJudge_some] at h ⊢
  exact (plain_mkJudge G before after again replied).onlyUpgrades_run h

end Top

/-- An interface that the device shows empty, typed with one of its defaults. -/
def emptyLoopback : List Str :=
  ["interface loopback95".toList, "ip redirects".toList, "exit".toList, "hostname r1".toList]

/-- The view opens the interface, and the default typed there goes from review to in
place. -/
theorem onlyUpgrades_loopback :
    let before := "hostname r1".toList
    let after := "hostname r1\ninterface loopback95".toList
    let view := "hostname r1\ninterface loopback95\n ip redirects".toList
    (@judge Unicode.ascii Grammar.ciscoIos emptyLoopback before after none [] none).commands.map
        Judgment.verdict = [.tookEffect, .review, .navigation, .inPlace] ∧
      (@judge Unicode.ascii Grammar.ciscoIos emptyLoopback before after none []
        (some view)).commands.map Judgment.verdict =
          [.tookEffect, .inPlace, .navigation, .inPlace] ∧
      @Judge.OnlyUpgrades Unicode.ascii
        (@mkJudge Unicode.ascii Grammar.ciscoIos before after none [] (some view))
        (@typed Unicode.ascii Grammar.ciscoIos emptyLoopback)
        (@judge Unicode.ascii Grammar.ciscoIos emptyLoopback before after none [] none)
        (@judge Unicode.ascii Grammar.ciscoIos emptyLoopback before after none []
          (some view)) := by
  intro before after view
  refine ⟨by decide +kernel, by decide +kernel, ?_⟩
  exact @onlyUpgrades_judge Unicode.ascii Grammar.ciscoIos emptyLoopback before after none []
    view (by decide +kernel)

/-! ## Two ways to stray -/

/-- A BGP router with an address family the device shows empty. -/
def bgpBefore : Str := "router bgp 1\n address-family ipv4".toList

/-- The neighbor that was typed under the router, after leaving the address
family. -/
def bgpAfter : Str :=
  "router bgp 1\n address-family ipv4\n neighbor 192.0.2.1 remote-as 2".toList

/-- The same configuration with its defaults: the address family is not empty. -/
def bgpView : Str :=
  ("router bgp 1\n address-family ipv4\n  maximum-paths 1\n".toList ++
    " neighbor 192.0.2.1 remote-as 2".toList)

def bgpCommands : List Str :=
  ["router bgp 1".toList, "address-family ipv4".toList, "exit".toList,
    "neighbor 192.0.2.1 remote-as 2".toList]

/-- With the snapshots alone `exit` leaves the router, and the neighbor is in
review; with the view it leaves the address family, and the neighbor took
effect. -/
theorem not_onlyUpgrades_bgp :
    ¬ @Judge.OnlyUpgrades Unicode.ascii
        (@mkJudge Unicode.ascii Grammar.ciscoIos bgpBefore bgpAfter none [] (some bgpView))
        (@typed Unicode.ascii Grammar.ciscoIos bgpCommands)
        (@judge Unicode.ascii Grammar.ciscoIos bgpCommands bgpBefore bgpAfter none [] none)
        (@judge Unicode.ascii Grammar.ciscoIos bgpCommands bgpBefore bgpAfter none [] (some bgpView))
    := by
  intro h
  have hadded := @Judge.OnlyUpgrades.added Unicode.ascii _ _ _ _ h
  exact absurd hadded (by decide +kernel)

/-- A policy that the device numbered itself, typed right after an empty interface: with
the snapshots alone it took effect, with the view it is looked for in the interface. -/
theorem not_onlyUpgrades_named :
    let commands := ["interface loopback95".toList, "policy 0".toList, "permit any".toList]
    let after := "interface loopback95\npolicy 1\n permit any".toList
    let view := "interface loopback95\n ip redirects\npolicy 1\n permit any".toList
    ¬ @Judge.OnlyUpgrades Unicode.ascii
        (@mkJudge Unicode.ascii Grammar.ciscoIos [] after none [] (some view))
        (@typed Unicode.ascii Grammar.ciscoIos commands)
        (@judge Unicode.ascii Grammar.ciscoIos commands [] after none [] none)
        (@judge Unicode.ascii Grammar.ciscoIos commands [] after none [] (some view)) := by
  intro commands after view h
  have hadded := @Judge.OnlyUpgrades.added Unicode.ascii _ _ _ _ h
  exact absurd hadded (by decide +kernel)

end Evidence
end NetRollout
