import NetRollout.Evidence.Config
import NetRollout.Library.Outline

/-!
# An indented configuration is a tree

`parse` of a configuration that nests is the outline of its rows: blank rows and indented
comments are of no account, a comment at column 0 closes every open section, a navigation row
closes what its indentation closes, and every other row is a line under the headers left open
above it.
-/

namespace NetRollout
namespace Evidence

open PyText Outline

section Reading

variable [Unicode] (navigation : List Str)

/-- How far a row is indented. -/
def indentOf (row : Str) : Nat := row.length - (lstrip row).length

/-- Whether a row is kept: not blank, no comment, no navigation. -/
def isKept (row : Str) : Bool :=
  match strip row with
  | [] => false
  | c :: rest => !(c == '!' || c == '#') && !navigates (firstWord (c :: rest)) navigation

/-- What a row is to the outline; a header's label is its text, and the text as printed. -/
def readRow (row : Str) : Row (Str × Str) :=
  match strip row with
  | [] => .skip
  | c :: rest =>
    if c == '!' || c == '#' then
      if (row.head?.map isSpace).getD false then .skip else .reset
    else if navigates (firstWord (c :: rest)) navigation then .close (indentOf row)
    else .header (indentOf row) (normalize (c :: rest), c :: rest)

/-- The texts of the headers above a row of some indentation, outermost first, from the rows
above it, nearest first. -/
def headersAbove (indent : Nat) (rows : List Str) : Path :=
  ((chain indent (rows.map (readRow navigation))).map fun header => header.2.1).reverse

/-- An entry of the outline as a line. -/
def lineOf (entry : List (Str × Str) × (Str × Str)) : Line :=
  ⟨entry.1.map Prod.fst, entry.2.1, entry.2.2⟩

/-- The parser's stack, the headers' printed texts left out. -/
def texts (stack : List (Nat × (Str × Str))) : List (Nat × Str) :=
  stack.map fun header => (header.1, header.2.1)

omit [Unicode] in
theorem dropWhile_texts (indent : Nat) (stack : List (Nat × (Str × Str))) :
    ((texts stack).dropWhile fun header => indent ≤ header.1) = texts (leaves indent stack) := by
  rw [texts, List.dropWhile_map]
  rfl

/-- **Parsing is outlining.** -/
theorem parseRows_eq (stack : List (Nat × (Str × Str))) (rows : List Str) :
    parseRows false navigation (texts stack) rows =
      (outlineFrom stack (rows.map (readRow navigation))).map lineOf := by
  induction rows generalizing stack with
  | nil => rfl
  | cons row rows ih =>
    rw [List.map_cons, parseRows, readRow]
    rcases strip row with _ | ⟨c, rest⟩
    · exact ih stack
    · dsimp only
      by_cases hcomment : (c == '!' || c == '#') = true
      · rw [if_pos hcomment, if_pos hcomment]
        by_cases hindented : (row.head?.map isSpace).getD false = true
        · rw [if_pos hindented, if_pos hindented]
          exact ih stack
        · rw [if_neg hindented, if_neg hindented]
          exact ih []
      · rw [if_neg hcomment, if_neg hcomment, if_neg Bool.false_ne_true, dropWhile_texts]
        by_cases hnav : navigates (firstWord (c :: rest)) navigation = true
        · rw [if_pos hnav, if_pos hnav]
          exact ih (leaves (indentOf row) stack)
        · rw [if_neg hnav, if_neg hnav, outlineFrom, List.map_cons, ← ih]
          show _ :: _ = lineOf _ :: _
          congr 1
          show Line.mk _ _ _ = Line.mk _ _ _
          simp only [texts, List.map_map, List.map_reverse]
          rfl

theorem parse_eq (config : Str) : parse config false navigation =
    (outline ((splitlines config).map (readRow navigation))).map lineOf :=
  parseRows_eq navigation [] (splitlines config)

/-- A kept row is a header of the outline, any other row is none. -/
theorem label?_readRow (row : Str) : (readRow navigation row).label? =
    if isKept navigation row then some (normalize (strip row), strip row) else none := by
  rw [readRow, isKept]
  rcases strip row with _ | ⟨c, rest⟩
  · rfl
  · dsimp only
    by_cases hcomment : (c == '!' || c == '#') = true
    · simp only [hcomment, if_true, Bool.not_true, Bool.false_and, Bool.false_eq_true, if_false]
      split <;> rfl
    · by_cases hnav : navigates (firstWord (c :: rest)) navigation = true
      · simp only [hcomment, hnav, Bool.false_eq_true, if_false, if_true, Bool.not_true,
          Bool.and_false]
        rfl
      · simp only [hcomment, hnav, Bool.false_eq_true, if_false, if_true, Bool.not_false,
          Bool.and_true]
        rfl

theorem filterMap_label? (rows : List Str) :
    (rows.map (readRow navigation)).filterMap Row.label? =
      (rows.filter (isKept navigation)).map fun row => (normalize (strip row), strip row) := by
  induction rows with
  | nil => rfl
  | cons row rows ih =>
    rw [List.map_cons, List.filterMap_cons, label?_readRow, ih]
    by_cases h : isKept navigation row = true
    · rw [if_pos h, List.filter_cons_of_pos h]
      rfl
    · rw [if_neg h, List.filter_cons_of_neg h]

/-- A kept row, as the outline reads it. -/
theorem readRow_of_isKept {row : Str} (h : isKept navigation row = true) :
    readRow navigation row = .header (indentOf row) (normalize (strip row), strip row) := by
  rw [readRow]
  rw [isKept] at h
  rcases hs : strip row with _ | ⟨c, rest⟩
  · rw [hs] at h
    cases h
  · rw [hs] at h
    simp only [Bool.and_eq_true, Bool.not_eq_true'] at h
    dsimp only
    rw [if_neg (by rw [h.1]; exact Bool.false_ne_true),
      if_neg (by rw [h.2]; exact Bool.false_ne_true)]

/-- The lines of a configuration as a tree over its rows: the rows kept, in order; the header
directly above a line an earlier line, in the section the line's section is in; and the
headers above a line exactly those nearest above its row. -/
structure IsTree (rows : List Str) (lines : List Line) : Prop where
  raws : lines.map Line.raw = (rows.filter (isKept navigation)).map strip
  above : ∀ (i : Nat) (line : Line), lines[i]? = some line →
    ∀ path header, line.path = path ++ [header] → ∃ j < i, ∃ parent,
      lines[j]? = some parent ∧ Line.path parent = path ∧ Line.text parent = header
  path : ∀ before row after, rows = before ++ row :: after → isKept navigation row = true →
    lines[(before.filter (isKept navigation)).length]? =
      some ⟨headersAbove navigation (indentOf row) before.reverse, normalize (strip row),
        strip row⟩

/-- **Parsing a configuration that nests builds a tree.** -/
theorem parse_isTree (config : Str) :
    IsTree navigation (splitlines config) (parse config false navigation) where
  raws := by
    have hlabels := map_snd_outlineFrom [] ((splitlines config).map (readRow navigation))
    rw [filterMap_label?] at hlabels
    rw [parse_eq, List.map_map]
    have hraw : Line.raw ∘ lineOf = Prod.snd ∘ Prod.snd := rfl
    rw [hraw, ← List.map_map, outline, hlabels, List.map_map]
    rfl
  above := by
    intro i line hline path header hpath
    rw [parse_eq, List.getElem?_map] at hline
    obtain ⟨⟨headers, label⟩, hentry, rfl⟩ := Option.map_eq_some_iff.mp hline
    obtain ⟨outer, inner, rfl, rfl, hinner⟩ := List.map_eq_append_iff.mp hpath
    obtain ⟨last, rfl, rfl⟩ := List.map_eq_singleton_iff.mp hinner
    obtain ⟨j, hj, hparent⟩ := exists_above hentry
    exact ⟨j, hj, lineOf (outer, last), by rw [parse_eq, List.getElem?_map, hparent]; rfl, rfl, rfl⟩
  path := by
    intro before row after hrows hkept
    have hentry := getElem?_outline (before.map (readRow navigation))
      (after.map (readRow navigation)) (indentOf row) (normalize (strip row), strip row)
    rw [filterMap_label?, List.length_map, ← readRow_of_isKept navigation hkept, ← List.map_cons,
      ← List.map_append, ← hrows] at hentry
    rw [parse_eq, List.getElem?_map, hentry, Option.map_some, lineOf]
    simp only [headersAbove, List.map_reverse, List.map_map]
    rfl

end Reading

/-- A navigation row closes the section it is indented as far as, and opens none. -/
example : let := Unicode.ascii
    (parse "a\n  b\n c\n    d\n exit\n    e".toList false NAVIGATION).map Line.path =
      [[], ["a".toList], ["a".toList], ["a".toList, "c".toList], ["a".toList]] := by
  decide

end Evidence
end NetRollout
