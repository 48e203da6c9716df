import NetRollout.Library.Serving
import NetRollout.Rollout.Engine

/-!
# The lines of a diff and the changes of a push

`diff_tags` of `src/rollout/engine.py` goes through a unified diff and gives each added or
removed line the next change of the transcript with its sign and text.  It knows the lines by
how they begin.

`difflib` decides which rows of the two configurations a diff shows; here it may show any.
`Group` is one of its groups of opcodes, and `unifiedDiff` the lines it prints for them.

A line of a configuration that begins with two hyphens is printed, once removed, as one that
begins with three, and is taken for the diff's own header.  `tagsCarry_iff` says when that
does no harm.
-/

namespace NetRollout
namespace Rollout

open PyText Evidence Serving
open Logs (redact)

deriving instance DecidableEq for StoredChange

/-! ## A unified diff -/

inductive Tag where
  | equal
  | replace
  | delete
  | insert
  deriving DecidableEq

/-- What `difflib` makes of the rows from `i1` to `i2` and from `j1` to `j2`. -/
structure Opcode where
  tag : Tag
  i1 : Nat
  i2 : Nat
  j1 : Nat
  j2 : Nat

/-- The opcodes of one hunk. -/
structure Group where
  first : Opcode
  rest : List Opcode

def Group.last (group : Group) : Opcode := group.rest.getLast?.getD group.first

/-- A line of a diff. -/
inductive DiffLine where
  | fromFile
  | toFile
  | hunk (range1 range2 : Str)
  | context (row : Str)
  | removed (row : Str)
  | added (row : Str)
  deriving DecidableEq

namespace DiffLine

/-- A line as it is printed. -/
def text : DiffLine → Str
  | fromFile => "--- before".toList
  | toFile => "+++ after".toList
  | hunk range1 range2 => "@@ -".toList ++ (range1 ++ (" +".toList ++ (range2 ++ " @@".toList)))
  | context row => ' ' :: row
  | removed row => '-' :: row
  | added row => '+' :: row

end DiffLine

/-- `_format_range_unified`. -/
def formatRange (start stop : Nat) : Str :=
  let length := stop - start
  if length = 1 then Nat.toDigits 10 (start + 1)
  else
    let beginning := if length = 0 then start else start + 1
    Nat.toDigits 10 beginning ++ ',' :: Nat.toDigits 10 length

/-- `rows[i:j]`. -/
def slice (rows : List Str) (i j : Nat) : List Str := (rows.drop i).take (j - i)

def Opcode.lines (before after : List Str) (op : Opcode) : List DiffLine :=
  match op.tag with
  | .equal => (slice before op.i1 op.i2).map .context
  | .delete => (slice before op.i1 op.i2).map .removed
  | .insert => (slice after op.j1 op.j2).map .added
  | .replace =>
    (slice before op.i1 op.i2).map .removed ++ (slice after op.j1 op.j2).map .added

def Group.lines (before after : List Str) (group : Group) : List DiffLine :=
  .hunk (formatRange group.first.i1 group.last.i2) (formatRange group.first.j1 group.last.j2) ::
    (group.first :: group.rest).flatMap (Opcode.lines before after)

/-- `difflib.unified_diff`, by the groups of opcodes. -/
def unifiedDiff (before after : List Str) : List Group → List DiffLine
  | [] => []
  | groups => .fromFile :: .toFile :: groups.flatMap (Group.lines before after)

/-- The diff of two configurations, as its lines. -/
def configDiff (before after : Str) (groups : List Group) : List DiffLine :=
  unifiedDiff (splitlines before) (splitlines after) groups

/-- The diff as it is stored. -/
def diffText (lines : List DiffLine) : Str := ['\n'].intercalate (lines.map DiffLine.text)

/-! ## `diff_tags` -/

/-- `change["sign"] + change["line"].strip()`. -/
def waitingKey (change : StoredChange) : Str := change.sign.text ++ strip change.line

section Tags

variable [Unicode]

/-- The loop of `diff_tags`, with the changes that wait for each key. -/
def tagLines (waiting : Str → List StoredChange) : List Str → List (Option StoredChange)
  | [] => []
  | line :: lines =>
    let sign := line.take 1
    if ¬ (sign = [] ∨ sign = ['+'] ∨ sign = ['-']) ∨
        line.take 3 = "+++".toList ∨ line.take 3 = "---".toList then
      none :: tagLines waiting lines
    else
      let key := sign ++ strip (redact (line.drop 1))
      match waiting key with
      | [] => none :: tagLines waiting lines
      | change :: queue => some change :: tagLines (Function.update waiting key queue) lines

/-- `diff_tags`. -/
def diffTags (diff : Str) (stored : Option Transcript) : Option (List (Option StoredChange)) :=
  stored.map fun stored =>
    tagLines (fun key => stored.changes.filter fun change => waitingKey change == key)
      (splitlines diff)

/-! ## What the tags are to be -/

/-- The sign and the redacted text of an added or removed line. -/
def DiffLine.asks : DiffLine → Option (Sign × Str)
  | removed row => some (.minus, strip (redact row))
  | added row => some (.plus, strip (redact row))
  | _ => none

omit [Unicode] in
/-- A line that begins as the diff's headers do. -/
def DiffLine.likeHeader (line : DiffLine) : Bool :=
  line.text.take 3 == "+++".toList || line.text.take 3 == "---".toList

omit [Unicode] in
/-- The sign and the text of a change. -/
def tells (change : StoredChange) : Sign × Str := (change.sign, strip change.line)

/-- The tags of a diff: one for each line; to each added or removed line the next change not
given before with its sign and redacted text, to any other none; and no change twice. -/
structure CarriesChanges (lines : List DiffLine) (changes : List StoredChange)
    (tags : List (Option StoredChange)) : Prop where
  length : tags.length = lines.length
  paired : ∀ (i : Nat) (line : DiffLine), lines[i]? = some line →
    tags[i]? = some (next tells changes (tags.take i) line.asks)
  once : tags.reduceOption.Subperm changes

/-- The diff of two configurations is tagged as it should. -/
def TagsCarry (before after : Str) (groups : List Group) (stored : Transcript) : Prop :=
  ∃ tags, diffTags (diffText (configDiff before after groups)) (some stored) = some tags ∧
    CarriesChanges (configDiff before after groups) stored.changes tags

/-! ## The loop serves the lines it does not pass over -/

omit [Unicode] in
/-- A sign and a text as the code's key. -/
def joined (key : Sign × Str) : Str := key.1.text ++ key.2

omit [Unicode] in
theorem joined_injective : Function.Injective joined := by
  rintro ⟨sign, text⟩ ⟨sign', text'⟩ heq
  obtain ⟨hsign, htext⟩ : sign.text = sign'.text ∧ text = text' :=
    List.append_inj heq (by cases sign <;> cases sign' <;> rfl)
  subst htext
  cases sign <;> cases sign' <;> first | rfl | exact absurd hsign (by decide)

/-- What a printed line asks for. -/
def request (line : Str) : Option Str :=
  let sign := line.take 1
  if ¬ (sign = [] ∨ sign = ['+'] ∨ sign = ['-']) ∨
      line.take 3 = "+++".toList ∨ line.take 3 = "---".toList then none
  else some (sign ++ strip (redact (line.drop 1)))

theorem tagLines_eq (waiting : Str → List StoredChange) (lines : List Str) :
    tagLines waiting lines = serveQueues waiting (lines.map request) := by
  induction lines generalizing waiting with
  | nil => rfl
  | cons line lines ih =>
    rw [tagLines, List.map_cons, request]
    dsimp only
    split
    · exact congrArg (List.cons none) (ih waiting)
    · rw [serveQueues]
      split
      · next hwaiting => rw [hwaiting, ih]
      · next hwaiting => rw [hwaiting, ih]

/-- A printed line asks for what the line does, unless it is taken for a header. -/
theorem request_text (line : DiffLine) :
    request line.text = (if line.likeHeader then none else line.asks).map joined := by
  have hsign : ∀ (c : Char) (row : Str), c = '+' ∨ c = '-' →
      request (c :: row) =
        if (c :: row).take 3 = "+++".toList ∨ (c :: row).take 3 = "---".toList then none
        else some (c :: strip (redact row)) := by
    rintro c row (rfl | rfl) <;> simp [request]
  have hnone : ∀ (c : Char) (row : Str), c ≠ '+' → c ≠ '-' → request (c :: row) = none := by
    intro c row hplus hminus
    simp [request, hplus, hminus]
  have hmap : ∀ (line : DiffLine) {sign : Sign} {row : Str},
      line.asks = some (sign, strip (redact row)) →
      (if line.text.take 3 = "+++".toList ∨ line.text.take 3 = "---".toList then none
        else some (sign.text ++ strip (redact row))) =
      (if line.likeHeader then none else line.asks).map joined := by
    intro line sign row hasks
    by_cases h : line.text.take 3 = "+++".toList ∨ line.text.take 3 = "---".toList
    · have hlike : line.likeHeader = true := by
        simpa only [DiffLine.likeHeader, Bool.or_eq_true, beq_iff_eq] using h
      rw [if_pos h, if_pos hlike]
      rfl
    · have hlike : ¬ line.likeHeader = true := by
        simpa only [DiffLine.likeHeader, Bool.or_eq_true, beq_iff_eq] using h
      rw [if_neg h, if_neg hlike, hasks]
      rfl
  cases line with
  | fromFile => rfl
  | toFile => rfl
  | hunk range1 range2 => exact (hnone '@' _ (by decide) (by decide)).trans (by simp [DiffLine.asks])
  | context row => exact (hnone ' ' row (by decide) (by decide)).trans (by simp [DiffLine.asks])
  | removed row => exact (hsign '-' row (Or.inr rfl)).trans (hmap (.removed row) rfl)
  | added row => exact (hsign '+' row (Or.inl rfl)).trans (hmap (.added row) rfl)

omit [Unicode] in
theorem isLineBreak_of_isDigit {c : Char} (h : c.isDigit = true) : isLineBreak c = false := by
  have hspace := isSpace_of_isDigit h
  simp only [isSpace, isLineBreak, Bool.or_eq_false_iff, Bool.and_eq_false_iff,
    decide_eq_false_iff_not, beq_eq_false_iff_ne] at hspace ⊢
  omega

omit [Unicode] in
theorem isLineBreak_of_mem_formatRange {start stop : Nat} {c : Char}
    (h : c ∈ formatRange start stop) : isLineBreak c = false := by
  have hdigits : ∀ {n : Nat}, c ∈ Nat.toDigits 10 n → isLineBreak c = false := fun hc =>
    isLineBreak_of_isDigit (Nat.isDigit_of_mem_toDigits (by decide) (by decide) hc)
  unfold formatRange at h
  dsimp only at h
  split at h
  · exact hdigits h
  · rcases List.mem_append.mp h with h | h
    · exact hdigits h
    · rcases List.mem_cons.mp h with rfl | h
      · decide
      · exact hdigits h

omit [Unicode] in
theorem mem_of_mem_slice {rows : List Str} {i j : Nat} {row : Str} (h : row ∈ slice rows i j) :
    row ∈ rows :=
  List.mem_of_mem_drop (List.mem_of_mem_take h)

omit [Unicode] in
theorem plain_of_all {s : Str} (h : s.all (fun c => !isLineBreak c) = true) :
    ∀ c ∈ s, isLineBreak c = false := by
  intro c hc
  have hplain := List.all_eq_true.mp h c hc
  rwa [Bool.not_eq_true'] at hplain

omit [Unicode] in
theorem plain_hunk {range1 range2 : Str} (h1 : ∀ c ∈ range1, isLineBreak c = false)
    (h2 : ∀ c ∈ range2, isLineBreak c = false) :
    (DiffLine.hunk range1 range2).text ≠ [] ∧
      ∀ c ∈ (DiffLine.hunk range1 range2).text, isLineBreak c = false := by
  have hfirst : ∀ c ∈ "@@ -".toList, isLineBreak c = false := plain_of_all rfl
  have hmiddle : ∀ c ∈ " +".toList, isLineBreak c = false := plain_of_all rfl
  have hlast : ∀ c ∈ " @@".toList, isLineBreak c = false := plain_of_all rfl
  refine ⟨fun hnil => absurd (List.append_eq_nil_iff.mp hnil).1 (by decide +kernel), ?_⟩
  exact List.forall_mem_append.mpr ⟨hfirst, List.forall_mem_append.mpr
    ⟨h1, List.forall_mem_append.mpr ⟨hmiddle, List.forall_mem_append.mpr ⟨h2, hlast⟩⟩⟩⟩

omit [Unicode] in
/-- No line of a diff is empty or broken. -/
theorem plain_of_mem_configDiff {before after : Str} {groups : List Group} {line : DiffLine}
    (h : line ∈ configDiff before after groups) :
    line.text ≠ [] ∧ ∀ c ∈ line.text, isLineBreak c = false := by
  have hrow : ∀ {config row : Str} {i j : Nat}, row ∈ slice (splitlines config) i j →
      ∀ c ∈ row, isLineBreak c = false := fun hmem => of_mem_splitlines (mem_of_mem_slice hmem)
  have hprinted : ∀ {sign : Char} {row : Str}, isLineBreak sign = false →
      (∀ c ∈ row, isLineBreak c = false) →
      sign :: row ≠ [] ∧ ∀ c ∈ sign :: row, isLineBreak c = false := by
    intro sign row hsign hplain
    refine ⟨List.cons_ne_nil sign row, fun c hc => ?_⟩
    rcases List.mem_cons.mp hc with rfl | hc
    · exact hsign
    · exact hplain c hc
  have hop : ∀ {op : Opcode}, line ∈ op.lines (splitlines before) (splitlines after) →
      line.text ≠ [] ∧ ∀ c ∈ line.text, isLineBreak c = false := by
    intro op hline
    unfold Opcode.lines at hline
    split at hline
    · obtain ⟨row, hmem, rfl⟩ := List.mem_map.mp hline
      exact hprinted (by decide) (hrow hmem)
    · obtain ⟨row, hmem, rfl⟩ := List.mem_map.mp hline
      exact hprinted (by decide) (hrow hmem)
    · obtain ⟨row, hmem, rfl⟩ := List.mem_map.mp hline
      exact hprinted (by decide) (hrow hmem)
    · rcases List.mem_append.mp hline with hline | hline
      · obtain ⟨row, hmem, rfl⟩ := List.mem_map.mp hline
        exact hprinted (by decide) (hrow hmem)
      · obtain ⟨row, hmem, rfl⟩ := List.mem_map.mp hline
        exact hprinted (by decide) (hrow hmem)
  unfold configDiff unifiedDiff at h
  split at h
  · cases h
  · rcases List.mem_cons.mp h with rfl | h
    · exact ⟨List.cons_ne_nil _ _, plain_of_all rfl⟩
    rcases List.mem_cons.mp h with rfl | h
    · exact ⟨List.cons_ne_nil _ _, plain_of_all rfl⟩
    obtain ⟨group, -, hgroup⟩ := List.mem_flatMap.mp h
    rcases List.mem_cons.mp hgroup with rfl | hgroup
    · exact plain_hunk (fun c hc => isLineBreak_of_mem_formatRange hc)
        fun c hc => isLineBreak_of_mem_formatRange hc
    · obtain ⟨op, -, hline⟩ := List.mem_flatMap.mp hgroup
      exact hop hline

/-- **The tags serve the lines not taken for headers.** -/
theorem diffTags_eq (before after : Str) (groups : List Group) (stored : Transcript) :
    diffTags (diffText (configDiff before after groups)) (some stored) =
      some (serve tells stored.changes (answered
        ((configDiff before after groups).map fun line => (line.asks, line.likeHeader)))) := by
  have hrows : splitlines (diffText (configDiff before after groups)) =
      (configDiff before after groups).map DiffLine.text := by
    refine splitlines_intercalate fun row hrow => ?_
    obtain ⟨line, hline, rfl⟩ := List.mem_map.mp hrow
    exact plain_of_mem_configDiff hline
  have hrequests : ((configDiff before after groups).map DiffLine.text).map request =
      (answered ((configDiff before after groups).map fun line =>
        (line.asks, line.likeHeader))).map (Option.map joined) := by
    rw [answered, List.map_map, List.map_map, List.map_map]
    exact List.map_congr_left fun line _ => request_text line
  rw [diffTags, Option.map_some, hrows, tagLines_eq, hrequests, serveQueues_eq]
  congr 1
  show serve (fun change => joined (tells change)) _ _ = serve tells _ _
  exact serve_map joined_injective stored.changes _

theorem carriesChanges_iff {lines : List DiffLine} {changes : List StoredChange}
    {tags : List (Option StoredChange)} : CarriesChanges lines changes tags ↔
      tags = serve tells changes (lines.map DiffLine.asks) := by
  constructor
  · rintro ⟨hlength, hpaired, -⟩
    refine eq_serve_iff.mpr ⟨by rw [hlength, List.length_map], fun i asked hasked => ?_⟩
    rw [List.getElem?_map] at hasked
    obtain ⟨line, hline, rfl⟩ := Option.map_eq_some_iff.mp hasked
    exact hpaired i line hline
  · rintro rfl
    obtain ⟨hlength, hnext⟩ := eq_serve_iff.mp
      (rfl : serve tells changes (lines.map DiffLine.asks) = _)
    refine ⟨by rw [hlength, List.length_map], fun i line hline => ?_, subperm_serve _ _⟩
    exact hnext i line.asks (by rw [List.getElem?_map, hline]; rfl)

/-- **The diff is tagged as it should** exactly when each added or removed line that is taken
for a header has no change waiting: the changes of its sign and text are no more than the
lines of its sign and text before it. -/
theorem tagsCarry_iff (before after : Str) (groups : List Group) (stored : Transcript) :
    TagsCarry before after groups stored ↔
      ∀ earlier line later, configDiff before after groups = earlier ++ line :: later →
        line.likeHeader = true → ∀ asked ∈ line.asks,
          (stored.changes.map tells).count asked ≤
            ((earlier.map DiffLine.asks).reduceOption).count asked := by
  have hskip : serve tells stored.changes (answered ((configDiff before after groups).map fun line =>
      (line.asks, line.likeHeader))) = serve tells stored.changes
        (((configDiff before after groups).map fun line => (line.asks, line.likeHeader)).map
          Prod.fst) ↔ _ :=
    serve_skip_iff stored.changes _
  rw [List.map_map] at hskip
  unfold TagsCarry
  simp only [diffTags_eq, Option.some_inj, exists_eq_left', carriesChanges_iff]
  refine hskip.trans ⟨fun h earlier line later heq hheader => ?_, ?_⟩
  · have hentry := h (earlier.map fun line => (line.asks, line.likeHeader))
      (line.asks, line.likeHeader) (later.map fun line => (line.asks, line.likeHeader))
      (by rw [heq, List.map_append, List.map_cons]) hheader
    rwa [List.map_map] at hentry
  · intro h before' asked after' heq hskipped k hk
    obtain ⟨earlier, rest, hlines, rfl, hrest⟩ := List.map_eq_append_iff.mp heq
    obtain ⟨line, later, rfl, rfl, -⟩ := List.map_eq_cons_iff.mp hrest
    rw [List.map_map]
    exact h earlier line later hlines hskipped k hk

end Tags

/-- The end of a certificate is removed, and its line in the diff is without its change. -/
theorem not_tagsCarry_certificate : let := Unicode.ascii
    ∃ stored, transcript (some (judge Grammar.ciscoIos []
        "a\n-----END CERTIFICATE-----".toList "a".toList none [] none)) [] = some stored ∧
      ¬ TagsCarry "a\n-----END CERTIFICATE-----".toList "a".toList
        [⟨⟨.equal, 0, 1, 0, 1⟩, [⟨.delete, 1, 2, 1, 1⟩]⟩] stored := by
  intro _
  refine ⟨_, rfl, fun hcarry => ?_⟩
  have hwhen := (@tagsCarry_iff Unicode.ascii _ _ _ _).mp hcarry
    [.fromFile, .toFile, .hunk "1,2".toList "1".toList, .context "a".toList]
    (.removed "-----END CERTIFICATE-----".toList) [] (by decide +kernel) (by decide +kernel)
    (.minus, "-----END CERTIFICATE-----".toList) (by decide +kernel)
  revert hwhen
  decide +kernel

end Rollout
end NetRollout
