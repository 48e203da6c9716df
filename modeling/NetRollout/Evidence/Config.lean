import NetRollout.Evidence.Words

/-!
# A configuration as lines with their sections

`parse` reads a configuration text row by row.  An indented configuration nests
by indentation: the sections open at a row are kept on a stack, innermost first,
and a row closes those indented at least as far as itself.  Comment rows are left
out, and one at column 0 closes every open section; rows that only navigate
(FortiOS `next` / `end`) close what their indentation closes and are left out.  A
flat configuration has no sections.

`compare` sets two parsed snapshots against each other, line by line within
sections, a line standing twice counting twice.  `noise` is the device's own
churn, learned from two snapshots taken with nothing pushed in between.
-/

namespace NetRollout
namespace Evidence

open PyText

/-- The texts of the section headers above a line, outermost first. -/
abbrev Path := List Str

/-- One config line: the section headers above it, its own text as compared, and
the text as the device printed it. -/
structure Line where
  path : Path
  text : Str
  raw : Str
  deriving DecidableEq, Repr

namespace Line

/-- What two snapshots compare a line by. -/
def key (line : Line) : Path × Str := (line.path, line.text)

/-- The path of the lines under this one. -/
def inside (line : Line) : Path := line.path ++ [line.text]

/-- The line's words as compared. -/
def words [Unicode] (line : Line) : List Str := Evidence.words line.text

theorem inside_ne_nil (line : Line) : line.inside ≠ [] := by
  simp [inside]

end Line

section Parse

variable [Unicode]

/-- The rows of a configuration, with the sections open before them: how far each
header is indented and its text, innermost first. -/
def parseRows (flat : Bool) (navigation : List Str) : List (Nat × Str) → List Str → List Line
  | _, [] => []
  | stack, row :: rows =>
    match strip row with
    | [] => parseRows flat navigation stack rows
    | c :: rest =>
      let raw := c :: rest
      if c == '!' || c == '#' then
        -- a comment at column 0 closes every open section
        let indented := (row.head?.map isSpace).getD false
        parseRows flat navigation (if indented then stack else []) rows
      else if flat then
        ⟨[], normalize raw, raw⟩ :: parseRows flat navigation stack rows
      else
        let indent := row.length - (lstrip row).length
        let open_ := stack.dropWhile fun header => indent ≤ header.1
        let text := normalize raw
        if navigates (firstWord raw) navigation then parseRows flat navigation open_ rows
        else
          ⟨(open_.map Prod.snd).reverse, text, raw⟩ ::
            parseRows flat navigation ((indent, text) :: open_) rows

/-- The config as lines with their sections. -/
def parse (config : Str) (flat : Bool) (navigation : List Str) : List Line :=
  parseRows flat navigation [] (splitlines config)

/-- A line of a flat configuration is in no section. -/
theorem path_eq_nil_of_mem_parseRows (navigation : List Str) (rows : List Str)
    (stack : List (Nat × Str)) :
    ∀ line ∈ parseRows true navigation stack rows, line.path = [] := by
  induction rows generalizing stack with
  | nil => simp [parseRows]
  | cons row rows ih =>
    intro line hline
    unfold parseRows at hline
    split at hline
    · exact ih _ line hline
    · dsimp only at hline
      split at hline
      · exact ih _ line hline
      · rw [if_pos rfl] at hline
        rcases List.mem_cons.mp hline with rfl | hline
        · rfl
        · exact ih _ line hline

end Parse

/-! ## Two snapshots compared -/

/-- Whether a changed line was added or removed. -/
inductive Sign where
  | plus
  | minus
  deriving DecidableEq, Repr

/-- Two snapshots of one config compared. -/
structure Diff where
  added : List Line
  removed : List Line
  unchanged : List Line

/-- The lines of one kind. -/
def Diff.changed (diff : Diff) : Sign → List Line
  | .plus => diff.added
  | .minus => diff.removed

/-- The lines whose keys are not among those remaining, and the lines whose keys
are, each one using up an occurrence. -/
def splitByKeys : List (Path × Str) → List Line → List Line × List Line
  | _, [] => ([], [])
  | remaining, line :: lines =>
    if line.key ∈ remaining then
      let rest := splitByKeys (remaining.erase line.key) lines
      (rest.1, line :: rest.2)
    else
      let rest := splitByKeys remaining lines
      (line :: rest.1, rest.2)

/-- The lines the second snapshot added, the ones it removed, and the ones in
both. -/
def compare (before after : List Line) : Diff :=
  let forward := splitByKeys (before.map Line.key) after
  let backward := splitByKeys (forward.2.map Line.key) before
  ⟨forward.1, backward.1, forward.2⟩

theorem sublist_splitByKeys (remaining : List (Path × Str)) (lines : List Line) :
    (splitByKeys remaining lines).1.Sublist lines ∧ (splitByKeys remaining lines).2.Sublist lines := by
  induction lines generalizing remaining with
  | nil => exact ⟨List.Sublist.refl _, List.Sublist.refl _⟩
  | cons line lines ih =>
    unfold splitByKeys
    split
    · obtain ⟨h₁, h₂⟩ := ih (remaining.erase line.key)
      exact ⟨h₁.cons line, h₂.cons_cons line⟩
    · obtain ⟨h₁, h₂⟩ := ih remaining
      exact ⟨h₁.cons_cons line, h₂.cons line⟩

/-- Lines appended to a snapshot are the ones added to it. -/
theorem splitByKeys_append (lines more : List Line) :
    splitByKeys (lines.map Line.key) (lines ++ more) = (more, lines) := by
  induction lines with
  | nil =>
    induction more with
    | nil => rfl
    | cons line more ih =>
      rw [List.map_nil, List.nil_append] at ih ⊢
      rw [splitByKeys, if_neg (by simp), ih]
  | cons line lines ih =>
    rw [List.map_cons, List.cons_append, splitByKeys, if_pos (List.mem_cons_self ..),
      List.erase_cons_head, ih]

theorem compare_append (before more : List Line) :
    compare before (before ++ more) = ⟨more, [], before⟩ := by
  have hback := splitByKeys_append before []
  rw [List.append_nil] at hback
  unfold compare
  rw [splitByKeys_append]
  dsimp only
  rw [hback]

theorem mem_after_of_mem_added {before after : List Line} {line : Line}
    (h : line ∈ (compare before after).added) : line ∈ after :=
  (sublist_splitByKeys _ after).1.subset h

theorem mem_after_of_mem_unchanged {before after : List Line} {line : Line}
    (h : line ∈ (compare before after).unchanged) : line ∈ after :=
  (sublist_splitByKeys _ after).2.subset h

theorem mem_before_of_mem_removed {before after : List Line} {line : Line}
    (h : line ∈ (compare before after).removed) : line ∈ before :=
  (sublist_splitByKeys _ before).1.subset h

/-! ## The device's own churn -/

/-- A section and the words a changed line kept there. -/
abbrev Noise := List (Path × List Str)

/-- The words two lines begin with alike. -/
def commonPrefix : List Str → List Str → List Str
  | x :: a, y :: b => if x = y then x :: commonPrefix a b else []
  | _, _ => []

section Churn

variable [Unicode]

/-- The words a line that went kept in the line that came for it: the longest
common beginning with a new line of its section, the earliest one where several
are as long; all its words when it has no counterpart. -/
def lead (gone : Line) (added : List Line) : List Str :=
  (added.foldl
    (fun best new =>
      if new.path ≠ gone.path then best
      else
        let common := commonPrefix gone.words new.words
        if best.2 < common.length then (common, common.length) else best)
    (gone.words, 0)).1

/-- Whether a line is in a section of the churn and starts with its words. -/
def isNoise (line : Line) (churn : Noise) : Bool :=
  churn.any fun entry => line.path == entry.1 && line.words.take entry.2.length == entry.2

/-- The device's own churn: section and leading words of each line that changed
with nothing pushed. -/
def noise (after again : List Line) : Noise :=
  let diff := compare after again
  let found := diff.removed.map fun gone => (gone.path, lead gone diff.added)
  diff.added.foldl
    (fun found new => if isNoise new found then found else found ++ [(new.path, new.words)]) found

@[simp] theorem isNoise_nil (line : Line) : isNoise line [] = false := rfl

end Churn

end Evidence
end NetRollout
