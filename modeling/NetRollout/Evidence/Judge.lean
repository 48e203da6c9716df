import NetRollout.Evidence.Config
import NetRollout.Library.Multimap

/-!
# The judge

One device's push judged against its snapshots.  `judge` parses the snapshots,
places each command in its section by the commands before it, and looks for the
line the command rests on: a line the push added, an unchanged line that is the
command, a line the push removed, a block the device named its own way.  A
command that rests on nothing is in review.

The run has two halves.  `Judge.runLoop` goes through the commands once, moving
the section context and collecting, per changed line, the commands that claim it.
Then four passes rewrite the verdicts: `conflicts` (one changed line, two
different commands), `defaults` (the configuration shown with its defaults),
`reviewEvidence`, and `replied` (what stays unproven and the device answered is
rejected).  `changes` and `Outcome` say, per changed line, which commands account
for it.

A judge's constants are the fields of `Judge`, what a run changes is in `State`.
-/

namespace NetRollout
namespace Evidence

open PyText

/-! ## What is said of a command -/

/-- What the configuration says about one command. -/
inductive Verdict where
  | tookEffect
  | inPlace
  | removed
  | navigation
  | review
  | rejected
  | exec
  deriving DecidableEq, Repr

/-- The note beside a verdict. -/
inductive Note where
  /-- No note. -/
  | none
  /-- "its negation was removed" -/
  | negationRemoved
  /-- "the device named it …", with the header as the device printed it -/
  | deviceNamed (raw : Str)
  /-- "already absent" -/
  | alreadyAbsent
  /-- "no change in its section" -/
  | noChange
  /-- `CONFLICT`: "the same change matches another command too" -/
  | conflict
  /-- "shown with the device's defaults" -/
  | shownWithDefaults
  /-- `UNPROVEN`: "not proven by the configuration" -/
  | unproven
  /-- `UNPROVEN`, and "the device replied when its block closed (…)", with the
  closing command -/
  | unprovenBlock (sent : Str)
  deriving DecidableEq, Repr

/-- The sign as printed before a line. -/
def Sign.text : Sign → Str
  | .plus => ['+']
  | .minus => ['-']

/-- A line as evidence: its sign, a blank, the line as the device printed it. -/
def evidenceLine (sign : Sign) (raw : Str) : Str := sign.text ++ ' ' :: raw

/-- An unchanged line as evidence. -/
def evidenceUnchanged (raw : Str) : Str := ' ' :: ' ' :: raw

/-- One command's verdict with its evidence, and the section it was judged in,
its headers as the device printed them (unknown: none). -/
structure Judgment where
  command : Str
  verdict : Verdict
  evidence : List Str := []
  note : Note := .none
  inSection : Option Path := some []
  deriving DecidableEq, Repr

/-- One line the push changed, the commands it rests on, whether it is the
device's own churn, and the commands in review it is evidence for. -/
structure Change where
  sign : Sign
  line : Str
  inSection : Str
  byCommands : List Nat := []
  device : Bool := false
  review : List Nat := []
  deriving DecidableEq, Repr

/-- A device's judged push. -/
structure Outcome where
  commands : List Judgment
  otherChanges : List Str
  added : List (Path × Str)
  removed : List (Path × Str)
  changes : List Change

namespace Outcome

def needsReview (outcome : Outcome) : Bool :=
  outcome.commands.any fun j => j.verdict == .review

def rejected (outcome : Outcome) : Bool :=
  outcome.commands.any fun j => j.verdict == .rejected

/-- The sections of the commands the configuration did not prove, once each. -/
def unproven (outcome : Outcome) : List Path :=
  outcome.commands.foldl
    (fun sections j =>
      if j.verdict = .review ∨ j.verdict = .rejected then
        match j.inSection with
        | none => sections
        | some path => if path ∈ sections then sections else sections ++ [path]
      else sections)
    []

end Outcome

/-! ## The commands as judged -/

/-- What the platform's grammar gives the judge. -/
structure Grammar where
  flat : Bool
  blocks : Bool
  execWords : List Str
  navigation : List Str
  negation : List Str

/-- The `cisco_ios` entry of the platform table. -/
def Grammar.ciscoIos : Grammar where
  flat := false
  blocks := false
  execWords := ["do".toList]
  navigation := ["exit".toList, "end".toList, "quit".toList]
  negation := ["no".toList]

/-- The `juniper_junos` entry of the platform table. -/
def Grammar.juniperJunos : Grammar where
  flat := true
  blocks := false
  execWords := ["run".toList, "show".toList, "status".toList, "help".toList, "save".toList]
  navigation := ["exit".toList, "quit".toList, "top".toList, "up".toList]
  negation := ["delete".toList]

/-- The `fortinet` entry of the platform table. -/
def Grammar.fortinet : Grammar where
  flat := false
  blocks := true
  execWords := ["get".toList, "show".toList, "execute".toList, "diagnose".toList, "tree".toList,
    "sudo".toList, "fnsysctl".toList]
  navigation := ["next".toList, "end".toList, "abort".toList]
  negation := ["unset".toList, "delete".toList]

/-- A command as sent, its words as judged, and whether it only moves between
sections. -/
structure Typed where
  sent : Str
  words : List Str
  navigation : Bool
  exec : Bool := false
  deriving DecidableEq, Repr

section Typing

variable [Unicode]

/-- One command as judged, with the `edit` path before it (none: unknown), and
the path after it. -/
def typedStep (G : Grammar) (path : Option (List (List Str))) (command : Str) :
    Typed × Option (List (List Str)) :=
  let typed := words command
  let word := typed.headD []
  let second := typed.tail.headD []
  if word ≠ [] ∧ word ∈ G.execWords then (⟨command, typed, false, true⟩, path)
  else if G.flat = false ∨ typed = [] then
    (⟨command, typed, typed.isEmpty || navigates word G.navigation, false⟩, path)
  else if (word = "top".toList ∨ word = "up".toList) ∧ 1 < typed.length ∧
      ¬ (word = "up".toList ∧ typed.length = 2 ∧ second.all Unicode.isDigit) then
    -- the rest of the line runs there
    let rest := if word = "up".toList ∧ second.all Unicode.isDigit then typed.drop 2 else typed.drop 1
    (⟨command, rest, rest.isEmpty, false⟩, path)
  else if word = "edit".toList then
    (⟨command, typed, true, false⟩, path.map fun levels => levels ++ [typed.drop 1])
  else if word = "top".toList ∨ word = "end".toList then (⟨command, typed, true, false⟩, some [])
  else if word = "up".toList then (⟨command, typed, true, false⟩, none)
  else if navigates word G.navigation then
    (⟨command, typed, true, false⟩, path.map List.dropLast)
  else if word = "set".toList ∨ word = "delete".toList then
    (⟨command, word :: ((path.getD []).flatten ++ typed.drop 1), false, false⟩, path)
  else (⟨command, typed, false, false⟩, path)

/-- The commands as judged, from a given `edit` path. -/
def typedFrom (G : Grammar) (path : Option (List (List Str))) : List Str → List Typed
  | [] => []
  | command :: commands =>
    (typedStep G path command).1 :: typedFrom G (typedStep G path command).2 commands

/-- The commands as judged. -/
def typed (G : Grammar) (commands : List Str) : List Typed := typedFrom G (some []) commands

@[simp] theorem sent_typedStep (G : Grammar) (path : Option (List (List Str))) (command : Str) :
    (typedStep G path command).1.sent = command := by
  unfold typedStep
  dsimp only
  repeat' split
  all_goals rfl

/-- The commands are judged in order, each as sent. -/
theorem map_sent_typedFrom (G : Grammar) (path : Option (List (List Str))) (commands : List Str) :
    (typedFrom G path commands).map Typed.sent = commands := by
  induction commands generalizing path with
  | nil => rfl
  | cons command commands ih => rw [typedFrom, List.map_cons, sent_typedStep, ih]

@[simp] theorem length_typed (G : Grammar) (commands : List Str) :
    (typed G commands).length = commands.length := by
  conv_rhs => rw [← map_sent_typedFrom G (some []) commands, List.length_map]
  rfl

/-- A command as judged where there are sections: by its own words. -/
def typedOf (G : Grammar) (command : Str) : Typed :=
  if (words command).headD [] ≠ [] ∧ (words command).headD [] ∈ G.execWords then
    ⟨command, words command, false, true⟩
  else
    ⟨command, words command,
      (words command).isEmpty || navigates ((words command).headD []) G.navigation, false⟩

@[simp] theorem words_typedOf (G : Grammar) (command : Str) :
    (typedOf G command).words = words command := by
  unfold typedOf
  split <;> rfl

@[simp] theorem sent_typedOf (G : Grammar) (command : Str) : (typedOf G command).sent = command := by
  unfold typedOf
  split <;> rfl

theorem typedStep_of_sections {G : Grammar} (hflat : G.flat = false)
    (path : Option (List (List Str))) (command : Str) :
    typedStep G path command = (typedOf G command, path) := by
  unfold typedStep typedOf
  dsimp only
  split
  · rfl
  · rw [if_pos (Or.inl hflat)]

/-- Where there are sections each command is judged by itself. -/
theorem typed_eq_map {G : Grammar} (hflat : G.flat = false) (commands : List Str) :
    typed G commands = commands.map (typedOf G) := by
  unfold typed
  induction commands with
  | nil => rfl
  | cons command commands ih =>
    rw [typedFrom, typedStep_of_sections hflat, ih]
    rfl

end Typing

/-! ## The judge's constants and its state -/

/-- One device's push to be judged: the diff, and the judge's grammar. -/
structure Judge where
  negation : List Str
  replied : List Bool
  view : List Line
  added : List Line
  removed : List Line
  churned : List (Sign × Line)
  unchanged : List Line
  both : List Line
  blocks : Bool
  sections : List Path

/-- What a run changes: the section the command being judged is in (none:
unknown), the commands resting on each added and each removed line, and the
commands in review with the section they were in. -/
structure State where
  context : Option Path
  claimsAdded : Multimap Nat Nat
  claimsRemoved : Multimap Nat Nat
  reviews : List (Nat × Option Path)

/-- The state before the first command. -/
def State.init : State := ⟨some [], .empty, .empty, []⟩

/-- Where to look for a command: its section, then each outer one; anywhere when
the section is unknown. -/
def levels : Option Path → List (Option Path)
  | none => [none]
  | some context => (List.range (context.length + 1)).reverse.map fun n => some (context.take n)

/-- Whether a line stands at a path (none: anywhere). -/
def at_ (line : Line) : Option Path → Bool
  | none => true
  | some path => line.path == path

namespace Judge

section Init

variable [Unicode]

/-- `_Judge.__init__`. -/
def init (before after : List Line) (churn : Noise) (blocks : Bool) (replied : List Bool)
    (view : List Line) (negation : List Str) : Judge :=
  let diff := compare before after
  { negation := negation
    replied := replied
    view := view
    added := diff.added.filter fun line => !isNoise line churn
    removed := diff.removed.filter fun line => !isNoise line churn
    churned := (diff.added.filter fun line => isNoise line churn).map (fun line => (Sign.plus, line)) ++
      (diff.removed.filter fun line => isNoise line churn).map (fun line => (Sign.minus, line))
    unchanged := diff.unchanged
    both := before ++ after
    blocks := blocks
    sections := (before ++ after ++ view).map Line.path }

end Init

/-- A header's text as the device printed it, by the path it opens (the last line
that opens it), else a default. -/
def raw (J : Judge) (path : Path) (default : Str) : Str :=
  ((J.both.reverse.find? fun line => line.inside == path).map Line.raw).getD default

/-- Whether the line opens a section. -/
def isHeader (J : Judge) (line : Line) : Bool := J.sections.contains line.inside

/-- Whether the device replied to a command. -/
def said (J : Judge) (i : Nat) : Bool := J.replied.getD i false

/-- `_navigate`: leave one section, or all of them. -/
def navigate (J : Judge) (command : Typed) (context : Option Path) : Option Path :=
  match command.words with
  | [] => context
  | word :: _ =>
    if word = "return".toList ∨ word = "root".toList ∨ (word = "end".toList ∧ J.blocks = false) then
      some []
    else context.map List.dropLast

/-- `_enter`: after a command matched `line`, found at `path`, the section the
next command is in. -/
def enter (J : Judge) (line : Line) (path : Option Path) : Option Path :=
  if J.isHeader line then some line.inside
  else
    match path with
    | none => some line.path
    | some path => some path

/-- `_review`: review, in the section of the command. -/
def review (J : Judge) (i : Nat) (command : Typed) (st : State) : Judgment × State :=
  let headers := st.context.map fun here =>
    (List.range here.length).map fun k => J.raw (here.take (k + 1)) (here.getD k [])
  ({ command := command.sent, verdict := .review, inSection := headers },
    { st with reviews := st.reviews ++ [(i, st.context)] })

/-- What the first loop of `_setting` and the second of `_removal` stop at. -/
inductive Found where
  /-- An added line, with its index. -/
  | added (line : Line) (index : Nat)
  /-- An unchanged line. -/
  | unchanged (line : Line)

section Run

variable [Unicode]

/-- An added line that contains the command there, else an unchanged line there
that is the command. -/
def foundAt (J : Judge) (typed : List Str) (path : Option Path) : Option Found :=
  match J.added.zipIdx.find? fun p => at_ p.1 path && contains sameWord typed p.1.words with
  | some (line, index) => some (.added line index)
  | none =>
    (J.unchanged.find? fun line => at_ line path && matchesLine typed line.words).map .unchanged

/-- The removed line that is the command's negation, there. -/
def negationAt (J : Judge) (typed : List Str) (path : Option Path) : Option (Line × Nat) :=
  J.removed.zipIdx.find? fun p =>
    at_ p.1 path &&
      match p.1.words with
      | [] => false
      | word :: rest => J.negation.contains word && matchesLine typed rest

/-- The removed line that a removal names, there. -/
def removedAt (J : Judge) (target : List Str) (path : Option Path) : Option (Line × Nat) :=
  J.removed.zipIdx.find? fun p => at_ p.1 path && contains names target p.1.words

/-- `_opened_block`: the unclaimed new header of the section whose new lines hold
the next command, with its index. -/
def openedBlock (J : Judge) (following : Option (List Str)) (st : State) : Option (Line × Nat) :=
  match following with
  | none => none
  | some [] => none
  | some following =>
    J.added.zipIdx.find? fun p =>
      !st.claimsAdded.keys.contains p.2 && at_ p.1 st.context && J.isHeader p.1 &&
        J.added.any fun line => line.path == p.1.inside && contains sameWord following line.words

/-- `_setting`. -/
def setting (J : Judge) (i : Nat) (command : Typed) (following : Option (List Str)) (st : State) :
    Judgment × State :=
  match (levels st.context).findSome? fun path =>
      (J.foundAt command.words path).map fun found => (found, path) with
  | some (.added line index, path) =>
    ({ command := command.sent, verdict := .tookEffect, evidence := [evidenceLine .plus line.raw] },
      { st with claimsAdded := st.claimsAdded.add index i, context := J.enter line path })
  | some (.unchanged line, path) =>
    ({ command := command.sent, verdict := .inPlace, evidence := [evidenceUnchanged line.raw] },
      { st with context := J.enter line path })
  | none =>
    -- the push removed its negation
    match (levels st.context).findSome? (J.negationAt command.words) with
    | some (line, index) =>
      ({ command := command.sent, verdict := .tookEffect,
         evidence := [evidenceLine .minus line.raw], note := .negationRemoved },
        { st with claimsRemoved := st.claimsRemoved.add index i })
    | none =>
      match J.openedBlock following st with
      | some (header, opened) =>
        ({ command := command.sent, verdict := .tookEffect,
           evidence := [evidenceLine .plus header.raw], note := .deviceNamed header.raw },
          { st with claimsAdded := st.claimsAdded.add opened i, context := some header.inside })
      | none => J.review i command st

/-- `_removal`: a line it removed; or the negation as a line of its own, added or
already there; or nothing there to remove, the device silent. -/
def removal (J : Judge) (i : Nat) (command : Typed) (st : State) : Judgment × State :=
  let target := command.words.drop 1
  match (levels st.context).findSome? (J.removedAt target) with
  | some (line, index) =>
    ({ command := command.sent, verdict := .removed, evidence := [evidenceLine .minus line.raw] },
      { st with claimsRemoved := st.claimsRemoved.add index i })
  | none =>
    match (levels st.context).findSome? (J.foundAt command.words) with
    | some (.added line index) =>
      ({ command := command.sent, verdict := .tookEffect, evidence := [evidenceLine .plus line.raw] },
        { st with claimsAdded := st.claimsAdded.add index i })
    | some (.unchanged line) =>
      ({ command := command.sent, verdict := .inPlace, evidence := [evidenceUnchanged line.raw] }, st)
    | none =>
      if target ≠ [] ∧ J.said i = false ∧
          ((levels st.context).any fun path =>
            J.both.any fun line => at_ line path && contains sameWord target line.words) = false then
        ({ command := command.sent, verdict := .inPlace, note := .alreadyAbsent }, st)
      else J.review i command st

/-- Whether a command is judged as a removal: its first word is a negation. -/
def isRemoval (J : Judge) (command : Typed) : Bool :=
  match command.words with
  | [] => false
  | word :: _ => J.negation.contains word

/-- One command of the loop of `run`. -/
def judgeOne (J : Judge) (i : Nat) (command : Typed) (following : Option (List Str)) (st : State) :
    Judgment × State :=
  if command.exec then ({ command := command.sent, verdict := .exec }, st)
  else if command.navigation then
    ({ command := command.sent, verdict := .navigation },
      { st with context := J.navigate command st.context })
  else if J.isRemoval command then J.removal i command st
  else J.setting i command following st

/-- The words of the next command that is judged. -/
def following (commands : List Typed) : Option (List Str) :=
  (commands.find? fun c => !c.navigation && !c.exec).map Typed.words

/-- The loop of `run`, from command `i` on. -/
def runLoop (J : Judge) : Nat → List Typed → State → List Judgment × State
  | _, [], st => ([], st)
  | i, command :: commands, st =>
    let one := J.judgeOne i command (following commands) st
    let rest := J.runLoop (i + 1) commands one.2
    (one.1 :: rest.1, rest.2)

/-! ## The passes over the verdicts -/

/-- A command in review for a conflict over a changed line. -/
def toConflict (sign : Sign) (raw : Str) (j : Judgment) : Judgment :=
  { command := j.command, verdict := .review, evidence := [evidenceLine sign raw],
    note := .conflict, inSection := j.inSection }

/-- One changed line of `_conflicts`, with the commands that claim it. -/
def conflictEntry (lines : List Line) (sign : Sign) (results : List Judgment)
    (entry : Nat × List Nat) : List Judgment :=
  let texts := entry.2.map fun c => (results[c]?).map fun j => normalize j.command
  if 1 < texts.dedup.length then
    let raw := ((lines[entry.1]?).map Line.raw).getD []
    entry.2.foldl (fun results c => results.modify c (toConflict sign raw)) results
  else results

/-- One kind of claims in `_conflicts`. -/
def conflictsIn (claims : Multimap Nat Nat) (lines : List Line) (sign : Sign)
    (results : List Judgment) : List Judgment :=
  claims.items.foldl (conflictEntry lines sign) results

/-- `_conflicts`: one changed line resting on two different commands proves
neither. -/
def conflicts (J : Judge) (st : State) (results : List Judgment) : List Judgment :=
  conflictsIn st.claimsRemoved J.removed .minus (conflictsIn st.claimsAdded J.added .plus results)

/-- The line of the defaults view that proves a command in review. -/
def defaultLine (J : Judge) (commands : List Typed) (results : List Judgment)
    (entry : Nat × Option Path) : Option Line :=
  match entry.2 with
  | none => none
  | some path =>
    if (results[entry.1]?).map Judgment.note = some .conflict then none
    else
      J.view.find? fun line =>
        line.path == path && matchesLine (((commands[entry.1]?).map Typed.words).getD []) line.words

/-- A command in place by a line of the view. -/
def toInPlace (line : Line) (j : Judgment) : Judgment :=
  { command := j.command, verdict := .inPlace, evidence := [evidenceUnchanged line.raw],
    note := .shownWithDefaults }

/-- `_defaults`: the commands in review that are exactly a line of their section
in the view are in place, and in review no more. -/
def defaults (J : Judge) (commands : List Typed) (st : State) (results : List Judgment) :
    List Judgment × State :=
  let settled := st.reviews.foldl
    (fun acc entry =>
      match J.defaultLine commands acc.1 entry with
      | none => (acc.1, acc.2 ++ [entry])
      | some line => (acc.1.modify entry.1 (toInPlace line), acc.2))
    (results, [])
  (settled.1, { st with reviews := settled.2 })

/-- `_replaced_by`: the commands whose added line replaced this removed one. -/
def replacedBy (J : Judge) (st : State) (gone : Line) : List Nat :=
  (st.claimsAdded.items.map fun entry =>
    match J.added[entry.1]? with
    | none => []
    | some new =>
      let common := commonPrefix gone.words new.words
      if new.path = gone.path ∧ (2 ≤ common.length ∨ common = gone.words) then entry.2 else []).flatten

/-- The changed lines of a section that no command claimed, ten at most. -/
def shownAdded (J : Judge) (st : State) (path : Option Path) : List (Line × Nat) :=
  ((J.added.zipIdx.filter fun p => !st.claimsAdded.keys.contains p.2).filter
    fun p => at_ p.1 path).take 10

def shownRemoved (J : Judge) (st : State) (path : Option Path) : List (Line × Nat) :=
  ((J.removed.zipIdx.filter fun p =>
      !st.claimsRemoved.keys.contains p.2 && (J.replacedBy st p.1).isEmpty).filter
    fun p => at_ p.1 path).take 10

/-- The evidence of a command in review in a section. -/
def evidenceOf (J : Judge) (st : State) (path : Option Path) : List Str :=
  (J.shownAdded st path).map (fun p => evidenceLine .plus p.1.raw) ++
    (J.shownRemoved st path).map (fun p => evidenceLine .minus p.1.raw)

/-- A command in review with the changes of its section. -/
def toReview (changes : List Str) (j : Judgment) : Judgment :=
  { command := j.command, verdict := .review, evidence := changes,
    note := if changes = [] then .noChange else .none, inSection := j.inSection }

/-- `_review_evidence`: each command in review gets the changes in its section
that no command claimed. -/
def reviewEvidence (J : Judge) (st : State) (results : List Judgment) : List Judgment :=
  st.reviews.foldl
    (fun results entry => results.modify entry.1 (toReview (J.evidenceOf st entry.2))) results

/-- The commands in review an added line is evidence for. -/
def evidenceAdded (J : Judge) (st : State) (index : Nat) : List Nat :=
  (st.reviews.filter fun entry => (J.shownAdded st entry.2).any fun p => p.2 == index).map Prod.fst

/-- The commands in review a removed line is evidence for. -/
def evidenceRemoved (J : Judge) (st : State) (index : Nat) : List Nat :=
  (st.reviews.filter fun entry => (J.shownRemoved st entry.2).any fun p => p.2 == index).map Prod.fst

end Run

/-- A command in review becomes rejected. -/
def reject (note : Note) (j : Judgment) : Judgment :=
  if j.verdict = .review then
    { command := j.command, verdict := .rejected, evidence := j.evidence, note := note,
      inSection := j.inSection }
  else j

/-- `_replied`, its first loop: a reply to the command itself. -/
def repliedOwn (J : Judge) (results : List Judgment) : List Judgment :=
  results.zipIdx.map fun p => if J.said p.2 then reject .unproven p.1 else p.1

/-- `_replied`, its second loop, at command `k` with the block begun at `start`:
a reply to the navigation command that closed the block. -/
def repliedBlocks (J : Judge) : Nat → Nat → List Typed → List Judgment → List Judgment
  | _, _, [], results => results
  | start, k, command :: commands, results =>
    if command.navigation then
      let results :=
        if J.said k then
          (List.range' start (k - start)).foldl
            (fun results i => results.modify i (reject (.unprovenBlock (strip command.sent)))) results
        else results
      J.repliedBlocks (k + 1) (k + 1) commands results
    else J.repliedBlocks start (k + 1) commands results

/-- `_replied`: what the configuration did not prove, and the device replied to,
is rejected. -/
def repliedPass (J : Judge) (commands : List Typed) (results : List Judgment) : List Judgment :=
  J.repliedBlocks 0 0 commands (J.repliedOwn results)

/-- `_where`: a line's section, its headers joined, empty at the top. -/
def where_ (line : Line) : Str :=
  if line.path = [] then [] else (" > ".toList).intercalate line.path ++ " > ".toList

section Changes

variable [Unicode]

/-- The commands that opened or removed a block the line is in. -/
def byBlock (J : Judge) (st : State) (line : Line) : List Nat :=
  let owners := st.claimsAdded.items.map (fun entry => (J.added[entry.1]?, entry.2)) ++
    st.claimsRemoved.items.map (fun entry => (J.removed[entry.1]?, entry.2))
  (owners.map fun entry =>
    match entry.1 with
    | none => []
    | some owner => if owner.inside.isPrefixOf line.path then entry.2 else []).flatten

/-- `tuple(sorted(set(…)))`. -/
def sortedSet (commands : List Nat) : List Nat := commands.dedup.mergeSort (· ≤ ·)

/-- The first of some sets that is not empty. -/
def firstNonempty : List (List Nat) → List Nat
  | [] => []
  | set :: sets => if set = [] then firstNonempty sets else set

/-- `_changes`: every changed line with the commands that account for it, the
device's churn last. -/
def changes (J : Judge) (st : State) : List Change :=
  (J.added.zipIdx.map fun p =>
      { sign := .plus, line := p.1.raw, inSection := where_ p.1
        byCommands := sortedSet (firstNonempty [st.claimsAdded.get p.2, J.byBlock st p.1])
        review := J.evidenceAdded st p.2 }) ++
    (J.removed.zipIdx.map fun p =>
      { sign := .minus, line := p.1.raw, inSection := where_ p.1
        byCommands := sortedSet (firstNonempty
          [st.claimsRemoved.get p.2, J.byBlock st p.1, J.replacedBy st p.1])
        review := J.evidenceRemoved st p.2 }) ++
    J.churned.map fun p =>
      { sign := p.1, line := p.2.raw, inSection := where_ p.2, device := true }

/-- A change as `other_changes` shows it. -/
def otherText (c : Change) : Str := c.sign.text ++ ' ' :: (c.inSection ++ c.line)

/-- `_Judge.run`. -/
def run (J : Judge) (commands : List Typed) : Outcome :=
  let loop := J.runLoop 0 commands State.init
  let results := J.conflicts loop.2 loop.1
  let shown := if J.view = [] then (results, loop.2) else J.defaults commands loop.2 results
  let results := J.repliedPass commands (J.reviewEvidence shown.2 shown.1)
  let changes := J.changes shown.2
  { commands := results
    otherChanges :=
      (changes.filter fun c => c.byCommands.isEmpty && !c.device).map otherText
    added := shown.2.claimsAdded.keys.map fun i => ((J.added[i]?).map Line.key).getD ([], [])
    removed := shown.2.claimsRemoved.keys.map fun i => ((J.removed[i]?).map Line.key).getD ([], [])
    changes := changes }

end Changes
end Judge

section Top

variable [Unicode]

/-- A snapshot as the grammar parses it. -/
def Grammar.lines (G : Grammar) (config : Str) : List Line := parse config G.flat G.navigation

/-- The device's churn, by a second snapshot after the push when one was taken. -/
def Grammar.churn (G : Grammar) (after : Str) : Option Str → Noise
  | none => []
  | some again => noise (G.lines after) (G.lines again)

/-- The configuration shown with its defaults, when it was fetched. -/
def Grammar.view (G : Grammar) : Option Str → List Line
  | none => []
  | some [] => []
  | some text => G.lines text

/-- The judge of a push: its snapshots parsed and compared, the churn of a second
snapshot left out. -/
def mkJudge (G : Grammar) (before after : Str) (again : Option Str) (replied : List Bool)
    (defaults : Option Str) : Judge :=
  Judge.init (G.lines before) (G.lines after) (G.churn after again) G.blocks replied
    (G.view defaults) G.negation

/-- Judge a push by the device's configuration before and after it. -/
def judge (G : Grammar) (commands : List Str) (before after : Str) (again : Option Str)
    (replied : List Bool) (defaults : Option Str) : Outcome :=
  (mkJudge G before after again replied defaults).run (typed G commands)

end Top
end Evidence
end NetRollout
