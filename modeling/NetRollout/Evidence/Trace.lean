import NetRollout.Evidence.Judge

/-!
# The run as a trace of findings

What the judge does with one command is one of nine things: a `Finding`.  The
verdict it writes, the claim it enters and the section it leaves behind are all
read off the finding, so the whole loop of `run` is its *trace*: the list of the
findings, each with the section it was made in.

* `judgeOne_eq` connects the two: the code's step is the finding's step.
* `runLoop_getElem?` gives the loop's verdicts, `claimsOf_runLoop` and
  `reviews_runLoop` its final state, all from the trace.

Everything later --- the soundness of certain verdicts, two runs compared, the
accounting of changes --- is about the trace.
-/

namespace NetRollout
namespace Evidence

open PyText

/-! ## Findings -/

/-- What the judge finds out about one command. -/
inductive Finding where
  /-- An exec command. -/
  | exec
  /-- A navigation command. -/
  | navigation
  /-- An added line has the command's words. -/
  | added (line : Line) (index : Nat)
  /-- The command opened the block with this new header, named by the device. -/
  | opened (header : Line) (index : Nat)
  /-- The push removed the command's negation. -/
  | negationRemoved (line : Line) (index : Nat)
  /-- The push removed a line this removal names. -/
  | removed (line : Line) (index : Nat)
  /-- An unchanged line is the command. -/
  | unchanged (line : Line)
  /-- A removal with nothing to remove, the device silent. -/
  | absent
  /-- None of these. -/
  | unproven
  deriving DecidableEq

namespace Finding

/-- The changed line a finding rests on, by its sign and index. -/
def claim : Finding → Option (Sign × Nat)
  | .added _ index => some (.plus, index)
  | .opened _ index => some (.plus, index)
  | .negationRemoved _ index => some (.minus, index)
  | .removed _ index => some (.minus, index)
  | _ => none

/-- The judgment a finding is first given. -/
def judgment (f : Finding) (sent : Str) (headers : Option Path) : Judgment :=
  match f with
  | .exec => { command := sent, verdict := .exec }
  | .navigation => { command := sent, verdict := .navigation }
  | .added line _ =>
    { command := sent, verdict := .tookEffect, evidence := [evidenceLine .plus line.raw] }
  | .opened header _ =>
    { command := sent, verdict := .tookEffect, evidence := [evidenceLine .plus header.raw],
      note := .deviceNamed header.raw }
  | .negationRemoved line _ =>
    { command := sent, verdict := .tookEffect, evidence := [evidenceLine .minus line.raw],
      note := .negationRemoved }
  | .removed line _ =>
    { command := sent, verdict := .removed, evidence := [evidenceLine .minus line.raw] }
  | .unchanged line =>
    { command := sent, verdict := .inPlace, evidence := [evidenceUnchanged line.raw] }
  | .absent => { command := sent, verdict := .inPlace, note := .alreadyAbsent }
  | .unproven => { command := sent, verdict := .review, inSection := headers }

@[simp] theorem command_judgment (f : Finding) (sent : Str) (headers : Option Path) :
    (f.judgment sent headers).command = sent := by
  cases f <;> rfl

end Finding

/-- The state after a finding about command `i`, with the section it leaves
behind. -/
def State.apply (st : State) (i : Nat) (f : Finding) (context : Option Path) : State where
  context := context
  claimsAdded :=
    match f.claim with
    | some (.plus, index) => st.claimsAdded.add index i
    | _ => st.claimsAdded
  claimsRemoved :=
    match f.claim with
    | some (.minus, index) => st.claimsRemoved.add index i
    | _ => st.claimsRemoved
  reviews := if f = .unproven then st.reviews ++ [(i, st.context)] else st.reviews

namespace Judge

/-- The headers of a section as the device printed them. -/
def headers (J : Judge) (context : Option Path) : Option Path :=
  context.map fun here =>
    (List.range here.length).map fun k => J.raw (here.take (k + 1)) (here.getD k [])

/-- What is found in its own section is found first. -/
theorem findSome?_levels {α : Type*} (f : Option Path → Option α) {here : Path} {a : α}
    (h : f (some here) = some a) : (levels (some here)).findSome? f = some a := by
  have hlevels : levels (some here) =
      some here :: ((List.range here.length).reverse.map fun n => some (here.take n)) := by
    simp [levels, List.range_succ]
  rw [hlevels, List.findSome?_cons_of_isSome (by simp [h]), h]

section Find

variable [Unicode]

/-- Whether nothing in either configuration has a removal's words where the
command is. -/
def nothingThere (J : Judge) (target : List Str) (context : Option Path) : Bool :=
  !(levels context).any fun path =>
    J.both.any fun line => at_ line path && contains sameWord target line.words

/-- What is found out about a removal. -/
def findRemoval (J : Judge) (i : Nat) (command : Typed) (st : State) : Finding :=
  match (levels st.context).findSome? (J.removedAt (command.words.drop 1)) with
  | some (line, index) => .removed line index
  | none =>
    match (levels st.context).findSome? (J.foundAt command.words) with
    | some (.added line index) => .added line index
    | some (.unchanged line) => .unchanged line
    | none =>
      if command.words.drop 1 ≠ [] ∧ J.said i = false ∧
          J.nothingThere (command.words.drop 1) st.context = true then .absent
      else .unproven

/-- What is found out about a setting, and the section after it. -/
def findSetting (J : Judge) (command : Typed) (following : Option (List Str)) (st : State) :
    Finding × Option Path :=
  match (levels st.context).findSome? fun path =>
      (J.foundAt command.words path).map fun found => (found, path) with
  | some (.added line index, path) => (.added line index, J.enter line path)
  | some (.unchanged line, path) => (.unchanged line, J.enter line path)
  | none =>
    match (levels st.context).findSome? (J.negationAt command.words) with
    | some (line, index) => (.negationRemoved line index, st.context)
    | none =>
      match J.openedBlock following st with
      | some (header, opened) => (.opened header opened, some header.inside)
      | none => (.unproven, st.context)

/-- What is found out about a command, and the section after it. -/
def find (J : Judge) (i : Nat) (command : Typed) (following : Option (List Str)) (st : State) :
    Finding × Option Path :=
  if command.exec then (.exec, st.context)
  else if command.navigation then (.navigation, J.navigate command st.context)
  else if J.isRemoval command then (J.findRemoval i command st, st.context)
  else J.findSetting command following st

theorem removal_eq (J : Judge) (i : Nat) (command : Typed) (st : State) :
    J.removal i command st =
      ((J.findRemoval i command st).judgment command.sent (J.headers st.context),
        st.apply i (J.findRemoval i command st) st.context) := by
  unfold removal findRemoval nothingThere
  dsimp only
  cases (levels st.context).findSome? (J.removedAt (command.words.drop 1)) with
  | some p => rfl
  | none =>
    cases (levels st.context).findSome? (J.foundAt command.words) with
    | some found => cases found <;> rfl
    | none =>
      simp only [Bool.not_eq_true']
      split
      · rfl
      · rfl

theorem setting_eq (J : Judge) (i : Nat) (command : Typed) (following : Option (List Str))
    (st : State) :
    J.setting i command following st =
      ((J.findSetting command following st).1.judgment command.sent (J.headers st.context),
        st.apply i (J.findSetting command following st).1 (J.findSetting command following st).2) := by
  unfold setting findSetting
  cases (levels st.context).findSome? fun path =>
      (J.foundAt command.words path).map fun found => (found, path) with
  | some p =>
    obtain ⟨found, path⟩ := p
    cases found <;> rfl
  | none =>
    cases (levels st.context).findSome? (J.negationAt command.words) with
    | some p => rfl
    | none => cases J.openedBlock following st <;> rfl

/-- **The code's step is the finding's step.** -/
theorem judgeOne_eq (J : Judge) (i : Nat) (command : Typed) (following : Option (List Str))
    (st : State) :
    J.judgeOne i command following st =
      ((J.find i command following st).1.judgment command.sent (J.headers st.context),
        st.apply i (J.find i command following st).1 (J.find i command following st).2) := by
  unfold judgeOne find
  split
  · rfl
  · split
    · rfl
    · split
      · exact removal_eq J i command st
      · exact setting_eq J i command following st

/-! ## The trace of a run -/

/-- The findings of the loop from command `i` on, each with the section it was
made in. -/
def trace (J : Judge) : Nat → List Typed → State → List (Finding × Option Path)
  | _, [], _ => []
  | i, command :: commands, st =>
    let found := J.find i command (following commands) st
    (found.1, st.context) :: J.trace (i + 1) commands (st.apply i found.1 found.2)

@[simp] theorem length_trace (J : Judge) (i : Nat) (commands : List Typed) (st : State) :
    (J.trace i commands st).length = commands.length := by
  induction commands generalizing i st with
  | nil => rfl
  | cons command commands ih => simp [trace, ih]

@[simp] theorem length_runLoop (J : Judge) (i : Nat) (commands : List Typed) (st : State) :
    (J.runLoop i commands st).1.length = commands.length := by
  induction commands generalizing i st with
  | nil => rfl
  | cons command commands ih => simp [runLoop, ih]

/-- **The loop's verdicts are its findings' judgments.** -/
theorem runLoop_fst (J : Judge) (i : Nat) (commands : List Typed) (st : State) :
    (J.runLoop i commands st).1 =
      List.zipWith (fun command entry => entry.1.judgment command.sent (J.headers entry.2))
        commands (J.trace i commands st) := by
  induction commands generalizing i st with
  | nil => rfl
  | cons command commands ih =>
    simp only [runLoop, trace, judgeOne_eq, List.zipWith_cons_cons, ih]

theorem runLoop_getElem? (J : Judge) (i : Nat) (commands : List Typed) (st : State) {c : Nat}
    {command : Typed} {entry : Finding × Option Path} (hcmd : commands[c]? = some command)
    (hentry : (J.trace i commands st)[c]? = some entry) :
    (J.runLoop i commands st).1[c]? =
      some (entry.1.judgment command.sent (J.headers entry.2)) := by
  rw [runLoop_fst, List.getElem?_zipWith, hcmd, hentry]

/-- The positions, counted from `i`, of the findings that rest on a changed
line. -/
def claimants (key : Sign × Nat) (i : Nat) (entries : List (Finding × Option Path)) : List Nat :=
  (entries.zipIdx i).filterMap fun p => if p.1.1.claim = some key then some p.2 else none

/-- The claims of a changed line. -/
def claimsOf (st : State) (key : Sign × Nat) : List Nat :=
  match key.1 with
  | .plus => st.claimsAdded.get key.2
  | .minus => st.claimsRemoved.get key.2

omit [Unicode] in
theorem claimsOf_apply (st : State) (i : Nat) (f : Finding) (context : Option Path)
    (key : Sign × Nat) :
    claimsOf (st.apply i f context) key =
      if f.claim = some key then claimsOf st key ++ [i] else claimsOf st key := by
  obtain ⟨sign, index⟩ := key
  unfold claimsOf State.apply
  rcases hf : f.claim with _ | ⟨s, n⟩
  · cases sign <;> simp
  · cases s <;> cases sign <;> simp [Multimap.get_add]

/-- **The claims of a line are the positions of the findings that rest on it.** -/
theorem claimsOf_runLoop (J : Judge) (i : Nat) (commands : List Typed) (st : State)
    (key : Sign × Nat) :
    claimsOf (J.runLoop i commands st).2 key =
      claimsOf st key ++ claimants key i (J.trace i commands st) := by
  induction commands generalizing i st with
  | nil => simp [runLoop, trace, claimants]
  | cons command commands ih =>
    simp only [runLoop, trace, claimants, judgeOne_eq, ih, claimsOf_apply, List.zipIdx_cons,
      List.filterMap_cons]
    split <;> simp

/-- The commands the loop leaves in review. -/
def unprovenOf (i : Nat) (entries : List (Finding × Option Path)) : List (Nat × Option Path) :=
  (entries.zipIdx i).filterMap fun p =>
    if p.1.1 = .unproven then some (p.2, p.1.2) else none

/-- **The commands in review are those nothing was found out about.** -/
theorem reviews_runLoop (J : Judge) (i : Nat) (commands : List Typed) (st : State) :
    (J.runLoop i commands st).2.reviews =
      st.reviews ++ unprovenOf i (J.trace i commands st) := by
  induction commands generalizing i st with
  | nil => simp [runLoop, trace, unprovenOf]
  | cons command commands ih =>
    simp only [runLoop, trace, unprovenOf, judgeOne_eq, ih, State.apply, List.zipIdx_cons,
      List.filterMap_cons]
    split <;> simp

/-! ## A run in pieces -/

/-- One command of the loop. -/
def step (J : Judge) (i : Nat) (command : Typed) (next : Option (List Str)) (st : State) : State :=
  st.apply i (J.find i command next st).1 (J.find i command next st).2

/-- The state after some commands, given the ones that follow them. -/
def stateAfter (J : Judge) : Nat → List Typed → List Typed → State → State
  | _, [], _, st => st
  | i, command :: commands, post, st =>
    J.stateAfter (i + 1) commands post (J.step i command (following (commands ++ post)) st)

theorem stateAfter_append (J : Judge) (i : Nat) (pre commands post : List Typed) (st : State) :
    J.stateAfter i (pre ++ commands) post st =
      J.stateAfter (i + pre.length) commands post (J.stateAfter i pre (commands ++ post) st) := by
  induction pre generalizing i st with
  | nil => rfl
  | cons command pre ih =>
    rw [List.cons_append, stateAfter, ih, stateAfter, List.append_assoc, List.length_cons]
    congr 1
    omega

/-- The trace of some commands, given the ones that follow them. -/
def segment (J : Judge) : Nat → List Typed → List Typed → State → List (Finding × Option Path)
  | _, [], _, _ => []
  | i, command :: commands, post, st =>
    ((J.find i command (following (commands ++ post)) st).1, st.context) ::
      J.segment (i + 1) commands post (J.step i command (following (commands ++ post)) st)

@[simp] theorem length_segment (J : Judge) (i : Nat) (commands post : List Typed) (st : State) :
    (J.segment i commands post st).length = commands.length := by
  induction commands generalizing i st with
  | nil => rfl
  | cons command commands ih => simp [segment, ih]

theorem trace_eq_segment (J : Judge) (i : Nat) (commands : List Typed) (st : State) :
    J.trace i commands st = J.segment i commands [] st := by
  induction commands generalizing i st with
  | nil => rfl
  | cons command commands ih =>
    rw [trace, segment, List.append_nil, ih]
    rfl

/-- **A trace in two pieces.** -/
theorem segment_append (J : Judge) (i : Nat) (pre commands post : List Typed) (st : State) :
    J.segment i (pre ++ commands) post st =
      J.segment i pre (commands ++ post) st ++
        J.segment (i + pre.length) commands post (J.stateAfter i pre (commands ++ post) st) := by
  induction pre generalizing i st with
  | nil => rfl
  | cons command pre ih =>
    rw [List.cons_append, segment, ih, segment, stateAfter, List.append_assoc, List.length_cons,
      List.cons_append, show i + (pre.length + 1) = i + 1 + pre.length by omega]

/-- The finding about a command is made in the state after the commands before
it. -/
theorem trace_getElem?_length (J : Judge) (i : Nat) (pre : List Typed) (command : Typed)
    (post : List Typed) (st : State) :
    (J.trace i (pre ++ command :: post) st)[pre.length]? =
      some ((J.find (i + pre.length) command (following post)
          (J.stateAfter i pre (command :: post) st)).1,
        (J.stateAfter i pre (command :: post) st).context) := by
  rw [trace_eq_segment, segment_append, List.getElem?_append_right (by simp), length_segment,
    Nat.sub_self, segment, List.getElem?_cons_zero, List.append_nil, List.append_nil]

end Find

/-! ## What a finding says -/

section Facts

variable [Unicode]

/-- What is true of a command and its section when the finding is made. -/
def Facts (J : Judge) (i : Nat) (command : Typed) (st : State) : Finding → Prop
  | .exec => command.exec = true
  | .navigation => command.exec = false ∧ command.navigation = true
  | .added line index =>
    J.added[index]? = some line ∧
      ∃ path ∈ levels st.context, at_ line path = true ∧
        contains sameWord command.words line.words = true
  | .opened header index =>
    J.isRemoval command = false ∧ J.added[index]? = some header ∧ J.isHeader header = true ∧
      index ∉ st.claimsAdded.keys
  | .negationRemoved line index =>
    J.isRemoval command = false ∧ J.removed[index]? = some line ∧
      ∃ word rest, line.words = word :: rest ∧ matchesLine command.words rest = true
  | .removed line index =>
    J.isRemoval command = true ∧ J.removed[index]? = some line ∧
      contains names (command.words.drop 1) line.words = true
  | .unchanged line =>
    line ∈ J.unchanged ∧
      ∃ path ∈ levels st.context, at_ line path = true ∧ matchesLine command.words line.words = true
  | .absent =>
    J.isRemoval command = true ∧ J.said i = false ∧
      J.nothingThere (command.words.drop 1) st.context = true
  | .unproven => command.exec = false ∧ command.navigation = false

theorem facts_of_foundAt {J : Judge} {typed : List Str} {path : Option Path} {found : Found}
    (h : J.foundAt typed path = some found) :
    match found with
    | .added line index => J.added[index]? = some line ∧ at_ line path = true ∧
        contains sameWord typed line.words = true
    | .unchanged line => line ∈ J.unchanged ∧ at_ line path = true ∧
        matchesLine typed line.words = true := by
  unfold foundAt at h
  split at h
  · next line index hfind =>
    rw [Option.some_inj] at h
    subst h
    have hmem := List.mem_of_find?_eq_some hfind
    have hp := List.find?_some hfind
    rw [Bool.and_eq_true] at hp
    exact ⟨List.mem_zipIdx_iff_getElem?.mp hmem, hp⟩
  · obtain ⟨line, hfind, rfl⟩ := Option.map_eq_some_iff.mp h
    have hp := List.find?_some hfind
    rw [Bool.and_eq_true] at hp
    exact ⟨List.mem_of_find?_eq_some hfind, hp⟩

theorem facts_findRemoval {J : Judge} {i : Nat} {command : Typed} {st : State}
    (hexec : command.exec = false) (hnav : command.navigation = false)
    (hrem : J.isRemoval command = true) :
    J.Facts i command st (J.findRemoval i command st) := by
  unfold findRemoval
  split
  · next line index hfind =>
    obtain ⟨path, -, hpath⟩ := List.exists_of_findSome?_eq_some hfind
    have hp := List.find?_some hpath
    rw [Bool.and_eq_true] at hp
    exact ⟨hrem, List.mem_zipIdx_iff_getElem?.mp (List.mem_of_find?_eq_some hpath), hp.2⟩
  · split
    · next line index hfind =>
      obtain ⟨path, hmem, hpath⟩ := List.exists_of_findSome?_eq_some hfind
      obtain ⟨hline, hat⟩ := facts_of_foundAt hpath
      exact ⟨hline, path, hmem, hat⟩
    · next line hfind =>
      obtain ⟨path, hmem, hpath⟩ := List.exists_of_findSome?_eq_some hfind
      obtain ⟨hline, hat⟩ := facts_of_foundAt hpath
      exact ⟨hline, path, hmem, hat⟩
    · split
      · next h => exact ⟨hrem, h.2⟩
      · exact ⟨hexec, hnav⟩

theorem facts_findSetting {J : Judge} {i : Nat} {command : Typed} {next : Option (List Str)}
    {st : State} (hexec : command.exec = false) (hnav : command.navigation = false)
    (hrem : J.isRemoval command = false) :
    J.Facts i command st (J.findSetting command next st).1 := by
  unfold findSetting
  split
  · next line index path hfind =>
    obtain ⟨p, hmem, hp⟩ := List.exists_of_findSome?_eq_some hfind
    obtain ⟨found, hfound, heq⟩ := Option.map_eq_some_iff.mp hp
    obtain ⟨rfl, rfl⟩ := Prod.mk.inj heq
    obtain ⟨hline, hat⟩ := facts_of_foundAt hfound
    exact ⟨hline, p, hmem, hat⟩
  · next line path hfind =>
    obtain ⟨p, hmem, hp⟩ := List.exists_of_findSome?_eq_some hfind
    obtain ⟨found, hfound, heq⟩ := Option.map_eq_some_iff.mp hp
    obtain ⟨rfl, rfl⟩ := Prod.mk.inj heq
    obtain ⟨hline, hat⟩ := facts_of_foundAt hfound
    exact ⟨hline, p, hmem, hat⟩
  · split
    · next line index hfind =>
      obtain ⟨path, -, hpath⟩ := List.exists_of_findSome?_eq_some hfind
      have hp := List.find?_some hpath
      rw [Bool.and_eq_true] at hp
      refine ⟨hrem, List.mem_zipIdx_iff_getElem?.mp (List.mem_of_find?_eq_some hpath), ?_⟩
      have hw := hp.2
      dsimp only at hw
      split at hw
      · exact absurd hw (by simp)
      · next word rest hwords =>
        rw [Bool.and_eq_true] at hw
        exact ⟨word, rest, hwords, hw.2⟩
    · split
      · next header opened hopen =>
        unfold openedBlock at hopen
        split at hopen
        · exact absurd hopen (by simp)
        · exact absurd hopen (by simp)
        · have hp := List.find?_some hopen
          simp only [Bool.and_eq_true, Bool.not_eq_true', List.contains_eq_mem,
            decide_eq_false_iff_not] at hp
          exact ⟨hrem, List.mem_zipIdx_iff_getElem?.mp (List.mem_of_find?_eq_some hopen),
            hp.1.2, hp.1.1.1⟩
      · exact ⟨hexec, hnav⟩

/-- **What is found out is true.** -/
theorem facts_find (J : Judge) (i : Nat) (command : Typed) (next : Option (List Str))
    (st : State) : J.Facts i command st (J.find i command next st).1 := by
  unfold find
  split
  · next h => exact h
  · next hexec =>
    have hexec' : command.exec = false := by simpa using hexec
    split
    · next h => exact ⟨hexec', h⟩
    · next hnav =>
      have hnav' : command.navigation = false := by simpa using hnav
      split
      · next hrem => exact facts_findRemoval hexec' hnav' hrem
      · next hrem => exact facts_findSetting hexec' hnav' (by simpa using hrem)

/-- A finding of the trace was made in some state, about its command. -/
theorem exists_state_of_trace (J : Judge) {i : Nat} {commands : List Typed} {st : State} {c : Nat}
    {entry : Finding × Option Path} (h : (J.trace i commands st)[c]? = some entry) :
    ∃ command st', commands[c]? = some command ∧ entry.2 = st'.context ∧
      entry.1 = (J.find (i + c) command (following (commands.drop (c + 1))) st').1 := by
  induction commands generalizing i st c with
  | nil => simp [trace] at h
  | cons command commands ih =>
    cases c with
    | zero =>
      rw [trace, List.getElem?_cons_zero, Option.some_inj] at h
      exact ⟨command, st, rfl, by rw [← h], by rw [← h]; rfl⟩
    | succ c =>
      rw [trace, List.getElem?_cons_succ] at h
      obtain ⟨cmd, st', hcmd, hctx, hfind⟩ := ih h
      exact ⟨cmd, st', hcmd, hctx, by rw [hfind]; congr 2; omega⟩

end Facts

/-! ## Positions -/

theorem mem_claimants {key : Sign × Nat} {c : Nat} {entries : List (Finding × Option Path)} :
    c ∈ claimants key 0 entries ↔
      ∃ entry, entries[c]? = some entry ∧ entry.1.claim = some key := by
  unfold claimants
  rw [List.mem_filterMap]
  constructor
  · rintro ⟨⟨entry, n⟩, hmem, hsome⟩
    rw [List.mem_zipIdx_iff_getElem?] at hmem
    split at hsome
    · next hclaim =>
      rw [Option.some_inj] at hsome
      exact ⟨entry, hsome ▸ hmem, hclaim⟩
    · exact absurd hsome (by simp)
  · rintro ⟨entry, hentry, hclaim⟩
    exact ⟨(entry, c), List.mem_zipIdx_iff_getElem?.mpr hentry, if_pos hclaim⟩

theorem mem_unprovenOf {p : Nat × Option Path} {entries : List (Finding × Option Path)} :
    p ∈ unprovenOf 0 entries ↔ entries[p.1]? = some (.unproven, p.2) := by
  unfold unprovenOf
  rw [List.mem_filterMap]
  constructor
  · rintro ⟨⟨⟨f, here⟩, n⟩, hmem, hsome⟩
    rw [List.mem_zipIdx_iff_getElem?] at hmem
    dsimp only at hsome hmem
    split at hsome
    · next hf =>
      rw [Option.some_inj] at hsome
      rw [← hsome, hmem, hf]
    · exact absurd hsome (by simp)
  · intro h
    exact ⟨((.unproven, p.2), p.1), List.mem_zipIdx_iff_getElem?.mpr h, if_pos rfl⟩

end Judge
end Evidence
end NetRollout
