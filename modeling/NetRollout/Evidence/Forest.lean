import NetRollout.Evidence.Judge

/-!
# A configuration as a forest of lines

What a device shows indented is a forest: a line, the lines under it, the lines
after it.  `render` writes one down and `parse_append_render` reads it back: the
lines of a configuration with a forest appended are its own lines and the forest's,
each with the section it stands in.
-/

namespace NetRollout
namespace Evidence

open PyText

/-- A forest of configuration lines: the first line, the lines under it, the lines
after it in its section. -/
inductive Forest where
  | nil
  | cons (line : Str) (body rest : Forest)
  deriving DecidableEq

namespace Forest

/-- The first lines of the trees. -/
def heads : Forest → List Str
  | nil => []
  | cons line _ rest => line :: rest.heads

/-- A forest without sections. -/
def isList : Forest → Bool
  | nil => true
  | cons _ body rest => body == nil && rest.isList

/-- The rows of a forest shown with `w` blanks a level, from `d` blanks on. -/
def rows (w : Nat) : Nat → Forest → List Str
  | _, nil => []
  | d, cons line body rest =>
    (List.replicate d ' ' ++ line) :: (body.rows w (d + w) ++ rest.rows w d)

/-- A forest as a device shows it. -/
def render (w : Nat) (forest : Forest) : Str := unlines (forest.rows w 0)

variable [Unicode]

/-- The configuration lines of a forest in a section. -/
def lines (path : Path) : Forest → List Line
  | nil => []
  | cons line body rest =>
    ⟨path, normalize line, line⟩ :: (body.lines (path ++ [normalize line]) ++ rest.lines path)

/-- A line a device shows and a person types: on one row, without white space
around it, no comment, and no navigation. -/
def typable (navigation : List Str) (line : Str) : Bool :=
  lstrip line == line && line.rdropWhile isSpace == line &&
    line.all (fun c => !isLineBreak c) && !line.isEmpty &&
    line.head? != some '!' && line.head? != some '#' && !navigates (firstWord line) navigation

/-- Something holds of every line of a forest. -/
def all (p : Str → Bool) : Forest → Bool
  | nil => true
  | cons line body rest => p line && body.all p && rest.all p

/-! ## Reading it back -/

theorem strip_row {navigation : List Str} {line : Str} (h : typable navigation line = true)
    (d : Nat) :
    lstrip (List.replicate d ' ' ++ line) = line ∧ strip (List.replicate d ' ' ++ line) = line := by
  simp only [typable, Bool.and_eq_true, beq_iff_eq] at h
  obtain ⟨⟨⟨⟨⟨⟨hleft, hright⟩, -⟩, -⟩, -⟩, -⟩, -⟩ := h
  have hl : lstrip (List.replicate d ' ' ++ line) = line := by
    unfold lstrip
    rw [List.dropWhile_append_of_pos fun c hc => by
      rw [List.eq_of_mem_replicate hc]
      decide]
    exact hleft
  exact ⟨hl, by rw [strip, hl, hright]⟩

/-- One row of an indented configuration: a line in the section left open by its
indentation, which it opens for the rows after it. -/
theorem parseRows_row {navigation : List Str} {line : Str}
    (h : typable navigation line = true) (d : Nat) (stack : List (Nat × Str)) (rows : List Str) :
    parseRows false navigation stack ((List.replicate d ' ' ++ line) :: rows) =
      ⟨((stack.dropWhile fun header => d ≤ header.1).map Prod.snd).reverse, normalize line, line⟩ ::
        parseRows false navigation
          ((d, normalize line) :: stack.dropWhile fun header => d ≤ header.1) rows := by
  obtain ⟨hleft, hstrip⟩ := strip_row h d
  simp only [typable, Bool.and_eq_true, Bool.not_eq_true', bne_iff_ne, ne_eq] at h
  obtain ⟨⟨⟨⟨⟨-, hrow⟩, hempty⟩, hbang⟩, hhash⟩, hnav⟩ := h
  obtain ⟨c, rest, rfl⟩ := List.exists_cons_of_ne_nil (l := line) (by
    rintro rfl
    exact absurd hempty (by simp))
  rw [List.head?_cons, Option.some_inj] at hbang hhash
  have hcomment : (c == '!' || c == '#') = false := by simp [hbang, hhash]
  have hindent : (List.replicate d ' ' ++ c :: rest).length - (c :: rest).length = d := by
    rw [List.length_append, List.length_replicate, Nat.add_sub_cancel]
  rw [parseRows, hstrip]
  simp only [hcomment, hleft, hindent, hnav, Bool.false_eq_true, if_false]

/-- One row of a flat configuration. -/
theorem parseRows_row_flat {navigation : List Str} {line : Str}
    (h : typable navigation line = true) (stack : List (Nat × Str)) (rows : List Str) :
    parseRows true navigation stack (line :: rows) =
      ⟨[], normalize line, line⟩ :: parseRows true navigation stack rows := by
  have hstrip : strip line = line := (strip_row h 0).2
  simp only [typable, Bool.and_eq_true, Bool.not_eq_true', bne_iff_ne, ne_eq] at h
  obtain ⟨⟨⟨⟨-, hempty⟩, hbang⟩, hhash⟩, -⟩ := h
  obtain ⟨c, rest, rfl⟩ := List.exists_cons_of_ne_nil (l := line) (by
    rintro rfl
    exact absurd hempty (by simp))
  rw [List.head?_cons, Option.some_inj] at hbang hhash
  have hcomment : (c == '!' || c == '#') = false := by simp [hbang, hhash]
  rw [parseRows, hstrip]
  simp only [hcomment, Bool.false_eq_true, if_false, if_true]

omit [Unicode] in
/-- Closing the sections of a deeper indentation first changes nothing. -/
theorem dropWhile_dropWhile {d e : Nat} (h : d ≤ e) (stack : List (Nat × Str)) :
    (stack.dropWhile fun header => decide (e ≤ header.1)).dropWhile (fun header => d ≤ header.1) =
      stack.dropWhile fun header => d ≤ header.1 := by
  induction stack with
  | nil => rfl
  | cons header stack ih =>
    by_cases he : e ≤ header.1
    · rw [List.dropWhile_cons_of_pos (by simpa using he), ih,
        List.dropWhile_cons_of_pos (by simpa using h.trans he)]
    · rw [List.dropWhile_cons_of_neg (by simpa using he)]

/-- **A rendered forest parses to its lines**, in the section its indentation leaves
open, which is open again after it. -/
theorem parseRows_rows {navigation : List Str} {w : Nat} (hw : 0 < w) (forest : Forest)
    (hall : forest.all (typable navigation) = true) (d : Nat) {stack rest : List (Nat × Str)}
    (hstack : (stack.dropWhile fun header => decide (d ≤ header.1)) = rest) (post : List Str) :
    ∃ stack', (stack'.dropWhile fun header => decide (d ≤ header.1)) = rest ∧
      parseRows false navigation stack (forest.rows w d ++ post) =
        forest.lines (rest.map Prod.snd).reverse ++ parseRows false navigation stack' post := by
  induction forest generalizing d stack rest post with
  | nil => exact ⟨stack, hstack, rfl⟩
  | cons line body next ihBody ihNext =>
    simp only [all, Bool.and_eq_true] at hall
    obtain ⟨⟨hline, hbody⟩, hnext⟩ := hall
    have hopen : (((d, normalize line) :: rest).dropWhile fun header => decide (d + w ≤ header.1)) =
        (d, normalize line) :: rest :=
      List.dropWhile_cons_of_neg (by simp only [decide_eq_true_eq]; omega)
    obtain ⟨inner, hinner, hparse⟩ :=
      ihBody hbody (d + w) hopen (next.rows w d ++ post)
    have hclosed : (inner.dropWhile fun header => decide (d ≤ header.1)) = rest := by
      rw [← dropWhile_dropWhile (Nat.le_add_right d w), hinner,
        List.dropWhile_cons_of_pos (by simp), ← hstack, dropWhile_dropWhile (Nat.le_refl d)]
    obtain ⟨stack', hstack', hrest⟩ := ihNext hnext d hclosed post
    refine ⟨stack', hstack', ?_⟩
    rw [rows, List.cons_append, parseRows_row hline, hstack, List.append_assoc, hparse, hrest, lines,
      List.map_cons, List.reverse_cons, List.cons_append, List.append_assoc]

/-- A flat configuration's rows are its lines. -/
theorem parseRows_rows_flat {navigation : List Str} {w : Nat} (forest : Forest)
    (hlist : forest.isList = true) (hall : forest.all (typable navigation) = true)
    (stack : List (Nat × Str)) :
    parseRows true navigation stack (forest.rows w 0) = forest.lines [] := by
  induction forest with
  | nil => rfl
  | cons line body next _ ih =>
    simp only [all, Bool.and_eq_true] at hall
    simp only [isList, Bool.and_eq_true, beq_iff_eq] at hlist
    obtain ⟨rfl, hlist⟩ := hlist
    rw [rows, rows, List.replicate_zero, List.nil_append, List.nil_append,
      parseRows_row_flat hall.1.1, ih hlist hall.2, lines, lines, List.nil_append]

end Forest

/-! ## A configuration and a forest after it -/

section After

variable [Unicode]

/-- The rows of a configuration and then others: its lines, and theirs from the
sections it leaves open. -/
theorem parseRows_append (flat : Bool) (navigation : List Str) (rows : List Str)
    (stack : List (Nat × Str)) :
    ∃ stack', ∀ post, parseRows flat navigation stack (rows ++ post) =
      parseRows flat navigation stack rows ++ parseRows flat navigation stack' post := by
  induction rows generalizing stack with
  | nil => exact ⟨stack, fun _ => rfl⟩
  | cons row rows ih =>
    cases hrow : strip row with
    | nil =>
      obtain ⟨stack', h⟩ := ih stack
      exact ⟨stack', fun post => by
        rw [List.cons_append, parseRows, parseRows, hrow]
        exact h post⟩
    | cons c rest =>
      by_cases hcomment : (c == '!' || c == '#') = true
      · obtain ⟨stack', h⟩ := ih (if (row.head?.map isSpace).getD false then stack else [])
        exact ⟨stack', fun post => by
          rw [List.cons_append, parseRows, parseRows, hrow]
          simp only [hcomment, if_true]
          exact h post⟩
      · cases flat with
        | true =>
          obtain ⟨stack', h⟩ := ih stack
          exact ⟨stack', fun post => by
            rw [List.cons_append, parseRows, parseRows, hrow]
            simp only [hcomment, Bool.false_eq_true, if_false, if_true]
            rw [h post]
            rfl⟩
        | false =>
          by_cases hnav : navigates (firstWord (c :: rest)) navigation = true
          · obtain ⟨stack', h⟩ := ih (stack.dropWhile fun header =>
              row.length - (lstrip row).length ≤ header.1)
            exact ⟨stack', fun post => by
              rw [List.cons_append, parseRows, parseRows, hrow]
              simp only [hcomment, hnav, Bool.false_eq_true, if_false, if_true]
              exact h post⟩
          · obtain ⟨stack', h⟩ := ih ((row.length - (lstrip row).length, normalize (c :: rest)) ::
              stack.dropWhile fun header => row.length - (lstrip row).length ≤ header.1)
            exact ⟨stack', fun post => by
              rw [List.cons_append, parseRows, parseRows, hrow]
              simp only [hcomment, hnav, Bool.false_eq_true, if_false]
              rw [h post]
              rfl⟩

/-- A configuration text that another may follow: empty, or ended by a line
feed. -/
def Ended (config : Str) : Prop := config = [] ∨ ∃ front, config = front ++ ['\n']

omit [Unicode] in
theorem splitlines_append_unlines {config : Str} (h : Ended config) {rows : List Str}
    (hrows : ∀ row ∈ rows, ∀ c ∈ row, isLineBreak c = false) :
    splitlines (config ++ unlines rows) = splitlines config ++ rows := by
  rcases h with rfl | ⟨front, rfl⟩
  · rw [List.nil_append, splitlines_unlines hrows]
    rfl
  · rw [List.append_assoc, List.singleton_append, splitlines_append, splitlines_unlines hrows]

theorem Forest.isLineBreak_of_mem_rows {navigation : List Str} {w : Nat} {forest : Forest}
    (hall : forest.all (typable navigation) = true) (d : Nat) :
    ∀ row ∈ forest.rows w d, ∀ c ∈ row, isLineBreak c = false := by
  induction forest generalizing d with
  | nil => simp [rows]
  | cons line body next ihBody ihNext =>
    simp only [all, Bool.and_eq_true] at hall
    obtain ⟨⟨hline, hbody⟩, hnext⟩ := hall
    intro row hrow c hc
    rcases List.mem_cons.mp hrow with rfl | hrow
    · rcases List.mem_append.mp hc with hc | hc
      · rw [List.eq_of_mem_replicate hc]
        decide
      · simp only [typable, Bool.and_eq_true] at hline
        simpa using List.all_eq_true.mp hline.1.1.1.1.2 c hc
    · rcases List.mem_append.mp hrow with hrow | hrow
      · exact ihBody hbody (d + w) row hrow c hc
      · exact ihNext hnext d row hrow c hc

/-- **The lines of a configuration with a forest appended.** -/
theorem parse_append_render {G : Grammar} {w : Nat} (hw : 0 < w) {forest : Forest}
    (hall : forest.all (Forest.typable G.navigation) = true)
    (hflat : G.flat = true → forest.isList = true) {config : Str} (hconfig : Ended config) :
    G.lines (config ++ forest.render w) = G.lines config ++ forest.lines [] := by
  unfold Grammar.lines parse Forest.render
  rw [splitlines_append_unlines hconfig (Forest.isLineBreak_of_mem_rows hall 0)]
  obtain ⟨stack, h⟩ := parseRows_append G.flat G.navigation (splitlines config) []
  rw [h]
  refine congrArg _ ?_
  cases hG : G.flat with
  | true => exact Forest.parseRows_rows_flat forest (hflat hG) hall stack
  | false =>
    -- a row that is not indented closes every section
    have htop : (stack.dropWhile fun header => decide (0 ≤ header.1)) = [] := by
      rw [List.dropWhile_eq_nil_iff]
      intro header _
      simp
    obtain ⟨stack', -, hparse⟩ := Forest.parseRows_rows hw forest hall 0 htop []
    rw [List.append_nil] at hparse
    rw [hparse]
    simp [parseRows]

end After
end Evidence
end NetRollout
