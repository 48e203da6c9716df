import NetRollout.Evidence.Soundness
import NetRollout.Evidence.Forest

/-!
# A configuration typed as it is shown

The script of a forest types its lines in order, each followed by the script of
the lines under it and `exit`.  Pushed to a device that then shows the forest
after what it showed before, it should be proven line by line.

A command claims the *first* added line of its section that has its words, so it
must not find its words in an earlier line there (`distinct`): `permit ip any any`
typed after `permit ip any any log` claims that line, and both go to review
(`review_accessList`).  Without that, `follows_script` follows the script through
the forest: every line is claimed by its own command and by no other.
-/

namespace NetRollout
namespace Evidence

open PyText

namespace Forest

/-- `exit`. -/
def exitCommand : Str := "exit".toList

/-- The commands that type a forest. -/
def script : Forest → List Str
  | nil => []
  | cons line body rest =>
    line :: ((if body = nil then [] else body.script ++ [exitCommand]) ++ rest.script)

variable [Unicode]

/-- A line that is judged as a setting. -/
def setting (G : Grammar) (line : Str) : Bool :=
  match words line with
  | [] => false
  | word :: _ =>
    !G.execWords.contains word && !G.negation.contains word && !navigates word G.navigation &&
      !(G.flat && ["edit".toList, "top".toList, "up".toList, "end".toList].contains word)

/-- No line's words are in an earlier line of its section. -/
def distinct : Forest → Bool
  | nil => true
  | cons line body rest =>
    rest.heads.all (fun later => !contains sameWord (words later) (words line)) &&
      body.distinct && rest.distinct

/-- The commands of a forest as judged. -/
def typedScript : Forest → List Typed
  | nil => []
  | cons line body rest =>
    ⟨line, words line, false, false⟩ ::
      ((if body = nil then [] else body.typedScript ++ [⟨exitCommand, [exitCommand], true, false⟩]) ++
        rest.typedScript)

/-- What the judge finds out about them: each line, added, and each `exit`. -/
def findings (path : Path) : Nat → Forest → List Finding
  | _, nil => []
  | k, cons line body rest =>
    .added ⟨path, normalize line, line⟩ k ::
      ((if body = nil then []
        else body.findings (path ++ [normalize line]) (k + 1) ++ [.navigation]) ++
        rest.findings path (k + 1 + (body.lines (path ++ [normalize line])).length))

theorem words_exit : words exitCommand = [exitCommand] := by
  have hascii : (exitCommand.all fun c => decide (c.toNat < 128 ∧ c.isUpper = false)) = true := by
    decide
  have hn : normalize exitCommand = exitCommand :=
    Unicode.lower_ascii exitCommand fun c hc =>
      of_decide_eq_true (List.all_eq_true.mp hascii c hc)
  rw [words, hn]
  decide

/-! ## The script as judged -/

theorem exists_words_of_setting {G : Grammar} {line : Str} (h : setting G line = true) :
    ∃ word rest, words line = word :: rest ∧ word ∉ G.execWords ∧ word ∉ G.negation ∧
      navigates word G.navigation = false ∧
      (G.flat = true → word ∉ ["edit".toList, "top".toList, "up".toList, "end".toList]) := by
  unfold setting at h
  split at h
  · exact absurd h (by simp)
  · next word rest hwords =>
    simp only [Bool.and_eq_true, Bool.not_eq_true', List.contains_eq_mem, decide_eq_false_iff_not,
      Bool.and_eq_false_iff] at h
    obtain ⟨⟨⟨hexec, hneg⟩, hnav⟩, hflat⟩ := h
    exact ⟨word, rest, hwords, hexec, hneg, hnav, fun hf => hflat.resolve_left (by simp [hf])⟩

theorem typedOf_line {G : Grammar} {line : Str} (h : setting G line = true) :
    typedOf G line = ⟨line, words line, false, false⟩ := by
  obtain ⟨word, rest, hwords, hexec, -, hnav, -⟩ := exists_words_of_setting h
  unfold typedOf
  rw [hwords, List.headD_cons, if_neg fun hw => hexec hw.2]
  simp [hnav]

/-- **A script is judged by its own words**, where there are sections. -/
theorem typed_script {G : Grammar} (hflat : G.flat = false)
    (hexit : exitCommand ∈ G.navigation ∧ exitCommand ∉ G.execWords) (forest : Forest)
    (hall : forest.all (setting G) = true) : typed G forest.script = forest.typedScript := by
  have hexit' : typedOf G exitCommand = ⟨exitCommand, [exitCommand], true, false⟩ := by
    unfold typedOf
    rw [words_exit, List.headD_cons, if_neg fun hw => hexit.2 hw.2]
    simp [navigates, hexit.1]
  rw [typed_eq_map hflat]
  induction forest with
  | nil => rfl
  | cons line body rest ihBody ihRest =>
    simp only [all, Bool.and_eq_true] at hall
    rw [script, typedScript, List.map_cons, List.map_append, typedOf_line hall.1.1, ihRest hall.2]
    split
    · rfl
    · rw [List.map_append, ihBody hall.1.2, List.map_singleton, hexit']

theorem typedStep_line_flat {G : Grammar} (hflat : G.flat = true) {line : Str}
    (h : setting G line = true) :
    typedStep G (some []) line = (⟨line, words line, false, false⟩, some []) := by
  obtain ⟨word, rest, hwords, hexec, -, hnav, hmoves⟩ := exists_words_of_setting h
  have hne := hmoves hflat
  simp only [List.mem_cons, List.not_mem_nil, or_false, not_or] at hne
  obtain ⟨hedit, htop, hup, hend⟩ := hne
  have hhead : (words line).headD [] = word := by rw [hwords]; rfl
  have hdrop : word :: (words line).drop 1 = words line := by rw [hwords]; rfl
  unfold typedStep
  dsimp only
  rw [hhead, if_neg fun hw => hexec hw.2, if_neg (by rw [hflat, hwords]; simp),
    if_neg fun hw => hw.1.elim htop hup, if_neg hedit, if_neg fun hw => hw.elim htop hend,
    if_neg hup, if_neg (by simp [hnav])]
  split
  · rw [Option.getD_some, List.flatten_nil, List.nil_append, hdrop]
  · rfl

/-- A flat script is judged by its own words: nothing moves the `edit` path. -/
theorem typed_script_flat {G : Grammar} (hflat : G.flat = true) (forest : Forest)
    (hlist : forest.isList = true) (hall : forest.all (setting G) = true) :
    typed G forest.script = forest.typedScript := by
  unfold typed
  induction forest with
  | nil => rfl
  | cons line body rest _ ih =>
    simp only [all, Bool.and_eq_true] at hall
    simp only [isList, Bool.and_eq_true, beq_iff_eq] at hlist
    obtain ⟨rfl, hlist⟩ := hlist
    rw [script, typedScript, if_pos rfl, if_pos rfl, List.nil_append, List.nil_append, typedFrom,
      typedStep_line_flat hflat hall.1.1, ih hlist hall.2]

/-! ## A forest among other lines -/

omit [Unicode] in
/-- One path goes on from a section in one way. -/
theorem next_unique {path q : Path} {a b : Str} (ha : path ++ [a] <+: q) (hb : path ++ [b] <+: q) :
    a = b := by
  have h : path ++ [a] = path ++ [b] :=
    (List.prefix_of_prefix_length_le ha hb (by simp)).eq_of_length (by simp)
  simpa using h

/-- A line of a forest stands in its section, or below one of its first lines. -/
theorem path_of_mem_lines {forest : Forest} {path : Path} :
    ∀ line ∈ forest.lines path, line.path = path ∨
      ∃ t ∈ forest.heads, path ++ [normalize t] <+: line.path := by
  induction forest generalizing path with
  | nil => simp [lines]
  | cons head body rest ihBody ihRest =>
    intro line hline
    rcases List.mem_cons.mp hline with rfl | hline
    · exact Or.inl rfl
    · rcases List.mem_append.mp hline with hline | hline
      · refine Or.inr ⟨head, List.mem_cons_self .., ?_⟩
        rcases ihBody line hline with h | ⟨t, -, h⟩
        · rw [h]
        · exact (List.prefix_append _ _).trans h
      · rcases ihRest line hline with h | ⟨t, ht, h⟩
        · exact Or.inl h
        · exact Or.inr ⟨t, List.mem_cons_of_mem _ ht, h⟩

/-- How a forest's lines stand among the added ones, `before` and `after` it, and
among the lines of another configuration: no earlier line of its section has the
words of one of its lines, and nothing else is below them. -/
structure Around (path : Path) (forest : Forest) (before after other : List Line) : Prop where
  earlier : ∀ line ∈ before, line.path = path → ∀ t ∈ forest.heads,
    contains sameWord (words t) line.words = false
  outside : ∀ line ∈ before ++ after, ∀ t ∈ forest.heads, ¬ path ++ [normalize t] <+: line.path
  apart : ∀ line ∈ other, ∀ own ∈ forest.lines path, line.path ≠ own.inside

/-- A later line of the section is not the line. -/
theorem normalize_ne_of_distinct {line : Str} {body rest : Forest}
    (h : (cons line body rest).distinct = true) {t : Str} (ht : t ∈ rest.heads) :
    normalize t ≠ normalize line := by
  simp only [distinct, Bool.and_eq_true] at h
  have hcontains := List.all_eq_true.mp h.1.1 t ht
  intro heq
  rw [words_eq_of_normalize_eq heq, contains_self sameWord_self] at hcontains
  exact absurd hcontains (by simp)

theorem Around.inBody {path : Path} {line : Str} {body rest : Forest}
    {before after other : List Line} (h : Around path (cons line body rest) before after other)
    (hdistinct : (cons line body rest).distinct = true) :
    Around (path ++ [normalize line]) body (before ++ [⟨path, normalize line, line⟩])
      (rest.lines path ++ after) other := by
  have hhead : line ∈ (cons line body rest).heads := List.mem_cons_self ..
  -- nothing around is in the line's own section
  have hnone : ∀ x ∈ (before ++ [⟨path, normalize line, line⟩]) ++ (rest.lines path ++ after),
      ¬ path ++ [normalize line] <+: x.path := by
    intro x hx hpre
    simp only [List.mem_append, List.mem_singleton] at hx
    rcases hx with (hx | rfl) | (hx | hx)
    · exact h.outside x (List.mem_append_left _ hx) line hhead hpre
    · exact absurd hpre.length_le (by simp)
    · rcases path_of_mem_lines x hx with hp | ⟨t, ht, hp⟩
      · exact absurd hpre.length_le (by rw [hp]; simp)
      · exact normalize_ne_of_distinct hdistinct ht (next_unique hp hpre)
    · exact h.outside x (List.mem_append_right _ hx) line hhead hpre
  refine ⟨fun x hx hp => ?_, fun x hx t _ hpre => ?_, fun x hx own hown => ?_⟩
  · exact absurd (hp ▸ List.prefix_refl _) (hnone x (List.mem_append_left _ hx))
  · exact hnone x hx ((List.prefix_append _ _).trans hpre)
  · exact h.apart x hx own (List.mem_cons_of_mem _ (List.mem_append_left _ hown))

theorem Around.inRest {path : Path} {line : Str} {body rest : Forest}
    {before after other : List Line} (h : Around path (cons line body rest) before after other)
    (hdistinct : (cons line body rest).distinct = true) :
    Around path rest
      (before ++ ⟨path, normalize line, line⟩ :: body.lines (path ++ [normalize line])) after
      other := by
  have hbelow : ∀ x ∈ body.lines (path ++ [normalize line]),
      path ++ [normalize line] <+: x.path := by
    intro x hx
    rcases path_of_mem_lines x hx with hp | ⟨t, -, hp⟩
    · rw [hp]
    · exact (List.prefix_append _ _).trans hp
  refine ⟨fun x hx hp t ht => ?_, fun x hx t ht hpre => ?_, fun x hx own hown => ?_⟩
  · simp only [List.mem_append, List.mem_cons] at hx
    rcases hx with hx | rfl | hx
    · exact h.earlier x hx hp t (List.mem_cons_of_mem _ ht)
    · simp only [distinct, Bool.and_eq_true] at hdistinct
      have hcontains := List.all_eq_true.mp hdistinct.1.1 t ht
      rw [Line.words, words_normalize]
      simpa using hcontains
    · exact absurd (hbelow x hx).length_le (by rw [hp]; simp)
  · simp only [List.mem_append, List.mem_cons] at hx
    rcases hx with (hx | rfl | hx) | hx
    · exact h.outside x (List.mem_append_left _ hx) t (List.mem_cons_of_mem _ ht) hpre
    · exact absurd hpre.length_le (by simp)
    · exact normalize_ne_of_distinct hdistinct ht (next_unique hpre (hbelow x hx))
    · exact h.outside x (List.mem_append_right _ hx) t (List.mem_cons_of_mem _ ht) hpre
  · exact h.apart x hx own (List.mem_cons_of_mem _ (List.mem_append_right _ hown))

end Forest

/-! ## The run of a script -/

namespace Judge

variable [Unicode]

/-- **One line of a script**: it claims the added line it is, when no earlier line
of its section has its words. -/
theorem find_line {J : Judge} (i : Nat) {before after : List Line} {own : Line}
    (hadded : J.added = before ++ own :: after) {command : Typed} (hexec : command.exec = false)
    (hnav : command.navigation = false) (hrem : J.isRemoval command = false)
    (hwords : command.words = own.words)
    (hearlier : ∀ line ∈ before, line.path = own.path →
      contains sameWord command.words line.words = false)
    (next : Option (List Str)) {st : State} (hst : st.context = some own.path) :
    J.find i command next st = (.added own before.length, J.enter own (some own.path)) := by
  have hnone : (before.zipIdx.find? fun p =>
      at_ p.1 (some own.path) && contains sameWord command.words p.1.words) = none := by
    rw [List.find?_eq_none]
    rintro ⟨line, n⟩ hmem hp
    rw [Bool.and_eq_true] at hp
    have hline := List.mem_of_getElem? (List.mem_zipIdx_iff_getElem?.mp hmem)
    have hpath : line.path = own.path := beq_iff_eq.mp hp.1
    exact absurd hp.2 (by simp [hearlier line hline hpath])
  have hfound : J.foundAt command.words (some own.path) = some (.added own before.length) := by
    unfold foundAt
    rw [hadded, List.zipIdx_append, List.find?_append, hnone, Option.none_or, List.zipIdx_cons,
      List.find?_cons_of_pos (by simp [at_, hwords, contains_self]), Nat.zero_add]
  have hfind : ((levels st.context).findSome? fun path =>
      (J.foundAt command.words path).map fun found => (found, path)) =
        some (.added own before.length, some own.path) := by
    rw [hst]
    exact findSome?_levels _ (by rw [hfound]; rfl)
  unfold find
  rw [if_neg (by simp [hexec]), if_neg (by simp [hnav]), if_neg (by simp [hrem])]
  unfold findSetting
  rw [hfind]

/-- Leaving a section by `exit`. -/
theorem find_exit (J : Judge) (i : Nat) (next : Option (List Str)) {st : State} {path : Path}
    {text : Str} (hst : st.context = some (path ++ [text])) :
    J.find i ⟨Forest.exitCommand, [Forest.exitCommand], true, false⟩ next st =
      (.navigation, some path) := by
  have hone : ¬ (Forest.exitCommand = "return".toList ∨ Forest.exitCommand = "root".toList ∨
      (Forest.exitCommand = "end".toList ∧ J.blocks = false)) := by
    rintro (h | h | ⟨h, -⟩) <;> exact absurd h (by decide)
  unfold find navigate
  rw [if_neg (by simp), if_pos rfl]
  dsimp only
  rw [if_neg hone, hst, Option.map_some, List.dropLast_concat]

/-- A section of a run: what is found out, and the section it ends in. -/
structure Follows (J : Judge) (i : Nat) (commands post : List Typed) (st : State)
    (found : List Finding) (context : Option Path) : Prop where
  findings : (J.segment i commands post st).map Prod.fst = found
  context : (J.stateAfter i commands post st).context = context

theorem follows_nil {J : Judge} {i : Nat} {post : List Typed} {st : State} {context : Option Path}
    (h : st.context = context) : J.Follows i [] post st [] context := ⟨rfl, h⟩

theorem follows_single {J : Judge} {i : Nat} {command : Typed} {post : List Typed} {st : State}
    {f : Finding} {context : Option Path} (h : ∀ next, J.find i command next st = (f, context)) :
    J.Follows i [command] post st [f] context := by
  constructor
  · rw [segment, h]
    rfl
  · show (J.find i command _ st).2 = context
    rw [h]

/-- One part of a run after another. -/
theorem Follows.append {J : Judge} {i : Nat} {pre commands post : List Typed} {st : State}
    {found found' : List Finding} {context context' : Option Path}
    (hpre : J.Follows i pre (commands ++ post) st found context)
    (hcommands : ∀ st', st'.context = context →
      J.Follows (i + pre.length) commands post st' found' context') :
    J.Follows i (pre ++ commands) post st (found ++ found') context' := by
  have h := hcommands _ hpre.context
  constructor
  · rw [segment_append, List.map_append, hpre.findings, h.findings]
  · rw [stateAfter_append, h.context]

/-- What a judge knows of a forest it is given among other lines. -/
structure Given (J : Judge) (G : Grammar) (path : Path) (forest : Forest)
    (before after other : List Line) : Prop where
  around : forest.Around path before after other
  added : J.added = before ++ (forest.lines path ++ after)
  setting : forest.all (Forest.setting G) = true
  distinct : forest.distinct = true

variable {J : Judge} {G : Grammar} {other : List Line} {line : Str} {body rest : Forest}
  {path : Path} {before after : List Line}

theorem Given.inBody (h : J.Given G path (.cons line body rest) before after other) :
    J.Given G (path ++ [normalize line]) body (before ++ [⟨path, normalize line, line⟩])
      (rest.lines path ++ after) other := by
  have hparts := h.distinct
  have hall := h.setting
  simp only [Forest.distinct, Bool.and_eq_true] at hparts
  simp only [Forest.all, Bool.and_eq_true] at hall
  exact ⟨h.around.inBody h.distinct, by rw [h.added]; simp [Forest.lines], hall.1.2, hparts.1.2⟩

theorem Given.inRest (h : J.Given G path (.cons line body rest) before after other) :
    J.Given G path rest
      (before ++ ⟨path, normalize line, line⟩ :: body.lines (path ++ [normalize line])) after
      other := by
  have hparts := h.distinct
  have hall := h.setting
  simp only [Forest.distinct, Bool.and_eq_true] at hparts
  simp only [Forest.all, Bool.and_eq_true] at hall
  exact ⟨h.around.inRest h.distinct, by rw [h.added]; simp [Forest.lines], hall.2, hparts.2⟩

/-- The sections known are the other configuration's and the added lines'. -/
def Knows (J : Judge) (other : List Line) : Prop :=
  ∀ path, path ∈ J.sections ↔
    (∃ line ∈ other, line.path = path) ∨ ∃ line ∈ J.added, line.path = path

/-- **A line is a header exactly when lines are typed below it.** -/
theorem Given.isHeader_eq (h : J.Given G path (.cons line body rest) before after other)
    (hsections : J.Knows other) :
    J.isHeader ⟨path, normalize line, line⟩ = (body != .nil) := by
  unfold isHeader
  rw [List.contains_eq_mem]
  show decide (path ++ [normalize line] ∈ J.sections) = _
  by_cases hbody : body = .nil
  · -- nothing around the line is in its section
    subst hbody
    rw [bne_self_eq_false, decide_eq_false_iff_not, hsections]
    rintro (⟨x, hx, hp⟩ | ⟨x, hx, hp⟩)
    · exact h.around.apart x hx _ (List.mem_cons_self ..) hp
    · have hpre : path ++ [normalize line] <+: x.path := hp ▸ List.prefix_refl _
      rw [h.added] at hx
      simp only [Forest.lines, List.nil_append, List.mem_append, List.mem_cons] at hx
      rcases hx with hx | (rfl | hx) | hx
      · exact h.around.outside x (List.mem_append_left _ hx) line (List.mem_cons_self ..) hpre
      · exact absurd hpre.length_le (by simp)
      · rcases Forest.path_of_mem_lines x hx with heq | ⟨t, ht, hlt⟩
        · exact absurd hpre.length_le (by rw [heq]; simp)
        · exact Forest.normalize_ne_of_distinct h.distinct ht (Forest.next_unique hlt hpre)
      · exact h.around.outside x (List.mem_append_right _ hx) line (List.mem_cons_self ..) hpre
  · rw [bne_iff_ne.mpr hbody, decide_eq_true_iff, hsections]
    cases body with
    | nil => exact absurd rfl hbody
    | cons first _ _ =>
      refine Or.inr ⟨⟨path ++ [normalize line], normalize first, first⟩, ?_, rfl⟩
      rw [h.added]
      simp [Forest.lines]

/-- The first line of a forest, in its section. -/
theorem Given.find_eq (h : J.Given G path (.cons line body rest) before after other)
    (hneg : J.negation = G.negation) (i : Nat) (next : Option (List Str)) {st : State}
    (hst : st.context = some path) :
    J.find i ⟨line, words line, false, false⟩ next st =
      (.added ⟨path, normalize line, line⟩ before.length,
        J.enter ⟨path, normalize line, line⟩ (some path)) := by
  have hall := h.setting
  simp only [Forest.all, Bool.and_eq_true] at hall
  obtain ⟨word, ws, hwords, -, hnotneg, -⟩ := Forest.exists_words_of_setting hall.1.1
  have hrem : J.isRemoval ⟨line, words line, false, false⟩ = false := by
    unfold isRemoval
    rw [hwords, hneg]
    simpa using hnotneg
  exact find_line i h.added rfl rfl hrem (words_normalize line).symm
    (fun x hx hp => h.around.earlier x hx hp line (List.mem_cons_self ..)) next hst

/-- **The script of a forest among other lines**: what is found out is the
forest's, and the section is kept. -/
theorem follows_script (hneg : J.negation = G.negation) (hsections : J.Knows other)
    (forest : Forest) (h : J.Given G path forest before after other) (i : Nat) (post : List Typed)
    {st : State} (hst : st.context = some path) :
    J.Follows i forest.typedScript post st (forest.findings path before.length) (some path) := by
  induction forest generalizing path before after i post st with
  | nil => exact follows_nil hst
  | cons line body rest ihBody ihRest =>
    have hindex : (before ++ ⟨path, normalize line, line⟩ ::
        body.lines (path ++ [normalize line])).length =
          before.length + 1 + (body.lines (path ++ [normalize line])).length := by
      rw [List.length_append, List.length_cons]
      omega
    have hfind := fun next => h.find_eq hneg i next hst
    have hheader := h.isHeader_eq hsections
    rw [Forest.typedScript, Forest.findings, ← hindex, ← List.singleton_append,
      ← List.singleton_append (l := (_ ++ _ : List Finding))]
    by_cases hbody : body = .nil
    · have henter : J.enter ⟨path, normalize line, line⟩ (some path) = some path := by
        rw [enter, hheader, hbody]
        rfl
      rw [if_pos hbody, if_pos hbody, List.nil_append, List.nil_append]
      refine (follows_single fun next => by rw [hfind, henter]).append fun st' hst' => ?_
      exact ihRest h.inRest _ post hst'
    · have henter : J.enter ⟨path, normalize line, line⟩ (some path) =
          some (path ++ [normalize line]) := by
        rw [enter, hheader, bne_iff_ne.mpr hbody]
        rfl
      rw [if_neg hbody, if_neg hbody]
      refine (follows_single fun next => by rw [hfind, henter]).append fun st₁ hst₁ => ?_
      have hinner : J.Follows (i + 1) body.typedScript
          ([⟨Forest.exitCommand, [Forest.exitCommand], true, false⟩] ++ (rest.typedScript ++ post)) st₁
          (body.findings (path ++ [normalize line]) (before.length + 1))
          (some (path ++ [normalize line])) := by
        have hbodyRun := ihBody h.inBody (i + 1) ([⟨Forest.exitCommand, [Forest.exitCommand], true,
          false⟩] ++ (rest.typedScript ++ post)) hst₁
        rwa [List.length_append, List.length_singleton] at hbodyRun
      have hleave : ∀ st₂ : State, st₂.context = some (path ++ [normalize line]) →
          J.Follows (i + 1 + body.typedScript.length)
            [⟨Forest.exitCommand, [Forest.exitCommand], true, false⟩] (rest.typedScript ++ post) st₂
            [.navigation] (some path) :=
        fun st₂ hst₂ => follows_single fun next => find_exit J _ next hst₂
      exact (hinner.append hleave).append fun st₃ hst₃ => ihRest h.inRest _ post hst₃

/-! ## What is claimed -/

/-- What is found out about a command of a script. -/
def OwnFinding (t : Typed) (f : Finding) : Prop :=
  (t.navigation = true ∧ f = .navigation) ∨
    (t.navigation = false ∧ ∃ own k, f = .added own k ∧ own.text = normalize t.sent)

/-- Each line is found by its own command. -/
theorem ownFinding_findings (forest : Forest) (path : Path) (k : Nat) :
    List.Forall₂ OwnFinding forest.typedScript (forest.findings path k) := by
  induction forest generalizing path k with
  | nil => exact .nil
  | cons line body rest ihBody ihRest =>
    refine .cons (Or.inr ⟨rfl, _, _, rfl, rfl⟩) ?_
    refine List.rel_append ?_ (ihRest path _)
    split
    · exact .nil
    · exact List.rel_append (ihBody _ _) (.cons (Or.inl ⟨rfl, rfl⟩) .nil)

/-- Every line of a forest is found. -/
theorem exists_added_of_findings (forest : Forest) (path : Path) {k n : Nat} (hk : k ≤ n)
    (hn : n < k + (forest.lines path).length) :
    ∃ own, Finding.added own n ∈ forest.findings path k := by
  induction forest generalizing path k with
  | nil => exact absurd hn (by simp [Forest.lines]; omega)
  | cons line body rest ihBody ihRest =>
    rw [Forest.lines, List.length_cons, List.length_append] at hn
    rw [Forest.findings]
    by_cases hhead : n = k
    · exact ⟨_, by rw [hhead]; exact List.mem_cons_self ..⟩
    · by_cases hinner : n < k + 1 + (body.lines (path ++ [normalize line])).length
      · obtain ⟨own, hown⟩ := ihBody (path ++ [normalize line]) (k := k + 1) (by omega) hinner
        have hbody : body ≠ .nil := by
          rintro rfl
          exact absurd hown (by simp [Forest.findings])
        rw [if_neg hbody]
        exact ⟨own, List.mem_cons_of_mem _
          (List.mem_append_left _ (List.mem_append_left _ hown))⟩
      · obtain ⟨own, hown⟩ := ihRest path
          (k := k + 1 + (body.lines (path ++ [normalize line])).length) (by omega) (by omega)
        exact ⟨own, List.mem_cons_of_mem _ (List.mem_append_right _ hown)⟩

/-- **Each command of a run that finds its own lines is proven.** -/
theorem settled_of_ownFindings {J : Judge} {commands : List Typed}
    (hown : List.Forall₂ OwnFinding commands ((J.findings commands).map Prod.fst)) {c : Nat}
    {command : Typed} {entry : Finding × Option Path} (hcmd : commands[c]? = some command)
    (hentry : (J.findings commands)[c]? = some entry) :
    (J.settled commands command entry).verdict =
      if command.navigation then .navigation else .tookEffect := by
  have hfinding : ∀ {d : Nat} {t : Typed} {e : Finding × Option Path}, commands[d]? = some t →
      (J.findings commands)[d]? = some e → OwnFinding t e.1 := by
    intro d t e ht he
    obtain ⟨f, hf, hrel⟩ := ListUpdate.exists_of_forall₂ hown ht
    rw [List.getElem?_map, he] at hf
    exact Option.some_inj.mp hf ▸ hrel
  obtain ⟨f, context⟩ := entry
  rcases hfinding hcmd hentry with ⟨hnav, heq⟩ | ⟨hnav, own, k, heq, htext⟩
  · obtain rfl : f = .navigation := heq
    rw [settled, if_neg (by simp), hnav, if_pos rfl]
    rfl
  · obtain rfl : f = .added own k := heq
    have hfree : contested commands (J.claimsOn commands (.plus, k)) = false := by
      rw [Bool.eq_false_iff, ne_eq, contested_iff]
      rintro ⟨a, ha, b, hb, s, t, hs, ht, hne⟩
      have htext' : ∀ {d : Nat} {t : Typed}, d ∈ J.claimsOn commands (.plus, k) →
          commands[d]? = some t → ∃ line, J.added[k]? = some line ∧
            line.text = normalize t.sent := by
        intro d t hd ht
        obtain ⟨e, he, hclaim⟩ := mem_claimsOn.mp hd
        obtain ⟨st, -, hfacts⟩ := J.exists_facts ht he
        rcases hfinding ht he with ⟨-, heq⟩ | ⟨-, own', k', heq, htext⟩
        · rw [heq] at hclaim
          exact absurd hclaim (by simp [Finding.claim])
        · rw [heq] at hclaim hfacts
          have hk : k' = k := by simpa [Finding.claim] using hclaim
          exact ⟨own', hk ▸ hfacts.1, htext⟩
      obtain ⟨x, hx, hxt⟩ := htext' ha hs
      obtain ⟨y, hy, hyt⟩ := htext' hb ht
      rw [hx, Option.some_inj] at hy
      exact hne (hxt.symm.trans (hy ▸ hyt))
    rw [settled, if_neg (by simp), hnav, if_neg (by simp), afterConflicts]
    simp only [Finding.claim, hfree, Bool.false_eq_true, if_false]
    rfl

end Judge

/-! ## The verbatim push -/

section Push

variable [Unicode]

/-- How a grammar types a forest: its lines, or its sections closed by `exit`. -/
def Forest.fits (G : Grammar) (forest : Forest) : Bool :=
  if G.flat then forest.isList
  else G.navigation.contains exitCommand && !G.execWords.contains exitCommand

theorem typed_eq_typedScript {G : Grammar} {forest : Forest} (hfits : forest.fits G = true)
    (hall : forest.all (Forest.setting G) = true) : typed G forest.script = forest.typedScript := by
  unfold Forest.fits at hfits
  split at hfits
  · next hflat => exact Forest.typed_script_flat hflat forest hfits hall
  · next hflat =>
    simp only [Bool.and_eq_true, List.contains_eq_mem, decide_eq_true_iff, Bool.not_eq_true',
      decide_eq_false_iff_not] at hfits
    exact Forest.typed_script (by simpa using hflat) hfits forest hall

/-- **A configuration applied verbatim is fully proven.** -/
theorem verbatim_judge (G : Grammar) (forest : Forest)
    (hshown : forest.all (Forest.typable G.navigation) = true)
    (hset : forest.all (Forest.setting G) = true) (hdistinct : forest.distinct = true)
    (hfits : forest.fits G = true) (w : Nat) (hw : 0 < w) (before : Str) (hended : Ended before)
    (hapart : ∀ line ∈ G.lines before, ∀ own ∈ forest.lines [], line.path ≠ own.inside)
    (replied : List Bool) :
    (judge G forest.script before (before ++ forest.render w) none replied none).commands.map
        Judgment.verdict =
      (typed G forest.script).map (fun t => if t.navigation then .navigation else .tookEffect) ∧
    (judge G forest.script before (before ++ forest.render w) none replied none).otherChanges =
      [] := by
  let J := mkJudge G before (before ++ forest.render w) none replied none
  have hflat : G.flat = true → forest.isList = true := by
    intro hf
    unfold Forest.fits at hfits
    rwa [if_pos hf] at hfits
  have hafter := parse_append_render hw hshown hflat hended
  have hdiff : compare (G.lines before) (G.lines (before ++ forest.render w)) =
      ⟨forest.lines [], [], G.lines before⟩ := by
    rw [hafter, compare_append]
  have hall : ∀ lines : List Line, (lines.filter fun line => !isNoise line []) = lines := by
    intro lines
    simp
  have hadded : J.added = forest.lines [] := by
    show ((compare _ _).added.filter fun line => !isNoise line []) = _
    rw [hdiff, hall]
  have hremoved : J.removed = [] := by
    show ((compare _ _).removed.filter fun line => !isNoise line []) = _
    rw [hdiff, hall]
  have hsections : J.Knows (G.lines before) := by
    intro path
    show path ∈ (G.lines before ++ G.lines (before ++ forest.render w) ++ []).map Line.path ↔ _
    rw [hadded, hafter, List.append_nil, List.mem_map]
    simp only [List.mem_append, or_and_right, exists_or]
    rw [← or_assoc, or_self]
  have hgiven : J.Given G [] forest [] [] (G.lines before) :=
    ⟨⟨by simp, by simp, hapart⟩, by rw [hadded]; simp, hset, hdistinct⟩
  have htyped := typed_eq_typedScript hfits hset
  have hfindings : (J.findings (typed G forest.script)).map Prod.fst = forest.findings [] 0 := by
    rw [Judge.findings, htyped, Judge.trace_eq_segment]
    have hrun : J.Follows 0 forest.typedScript [] State.init (forest.findings [] 0) (some []) :=
      Judge.follows_script rfl hsections forest hgiven 0 [] rfl
    exact hrun.findings
  have hown : List.Forall₂ Judge.OwnFinding (typed G forest.script)
      ((J.findings (typed G forest.script)).map Prod.fst) := by
    rw [hfindings, htyped]
    exact Judge.ownFinding_findings forest [] 0
  constructor
  · show (J.run (typed G forest.script)).commands.map Judgment.verdict = _
    refine List.ext_getElem? fun c => ?_
    rw [List.getElem?_map, List.getElem?_map]
    cases ht : (typed G forest.script)[c]? with
    | none =>
      have hnone : (J.run (typed G forest.script)).commands[c]? = none := by
        rw [List.getElem?_eq_none_iff, Judge.length_run_commands]
        exact List.getElem?_eq_none_iff.mp ht
      rw [hnone]
      rfl
    | some t =>
      -- every command has a finding of its own, and so a verdict
      obtain ⟨entry, hentry⟩ := J.exists_finding ht
      obtain ⟨j, hj, hrej⟩ := J.exists_run_commands ht hentry
      have hsettled := Judge.settled_of_ownFindings hown ht hentry
      rw [hj, hrej.eq_of_ne_review (by rw [hsettled]; split <;> simp)]
      exact congrArg some hsettled
  · have hclaimed : ∀ index < J.added.length,
        (J.finalState (typed G forest.script)).claimsAdded.get index ≠ [] := by
      intro index hlt
      rw [hadded] at hlt
      obtain ⟨own, hown'⟩ := Judge.exists_added_of_findings forest [] (Nat.zero_le index)
        (by rwa [Nat.zero_add])
      rw [← hfindings] at hown'
      obtain ⟨entry, hentry, heq⟩ := List.mem_map.mp hown'
      obtain ⟨c, hc⟩ := List.mem_iff_getElem?.mp hentry
      have hmem : c ∈ J.claimsOn (typed G forest.script) (.plus, index) :=
        Judge.mem_claimsOn.mpr ⟨entry, hc, by rw [heq]; rfl⟩
      rw [← Judge.claimsOf_finalState] at hmem
      exact List.ne_nil_of_mem hmem
    have howners := Judge.byCommands_ne_nil_of_claimed hclaimed (by rw [hremoved]; simp)
    show ((J.run (typed G forest.script)).otherChanges) = []
    rw [Judge.run_eq, List.map_eq_nil_iff, List.filter_eq_nil_iff]
    intro change hmem
    rcases howners change hmem with h | h
    · simp [h]
    · simp [h]

end Push

/-! ## A line whose words an earlier one has -/

/-- An access list with a logged entry before the same one unlogged. -/
def accessList : Forest :=
  .cons "ip access-list extended A".toList
    (.cons "permit ip any any log".toList .nil (.cons "permit ip any any".toList .nil .nil)) .nil

/-- **The second entry claims the first one's line**: both go to review. -/
theorem review_accessList :
    @Forest.all (@Forest.typable Unicode.ascii Grammar.ciscoIos.navigation) accessList = true ∧
      accessList.all (@Forest.setting Unicode.ascii Grammar.ciscoIos) = true ∧
      @Forest.fits Grammar.ciscoIos accessList = true ∧
      "permit ip any any log".toList ≠ "permit ip any any".toList ∧
      (@judge Unicode.ascii Grammar.ciscoIos accessList.script [] (accessList.render 1) none []
          none).commands.map Judgment.verdict =
        [.tookEffect, .review, .review, .navigation] := by
  refine ⟨?_, ?_, ?_, ?_, ?_⟩ <;> decide +kernel

/-- The same list with its entries the other way. -/
def accessList' : Forest :=
  .cons "ip access-list extended A".toList
    (.cons "permit ip any any".toList .nil (.cons "permit ip any any log".toList .nil .nil)) .nil

/-- Typed into a configuration with another list, each of its lines is proven and nothing
else changed. -/
theorem verbatim_accessList :
    let before := "ip access-list extended B\n permit tcp any any\n".toList
    let outcome := @judge Unicode.ascii Grammar.ciscoIos accessList'.script before
      (before ++ accessList'.render 1) none [] none
    outcome.commands.map Judgment.verdict = [.tookEffect, .tookEffect, .tookEffect, .navigation] ∧
      outcome.otherChanges = [] := by
  intro before outcome
  obtain ⟨hverdicts, hother⟩ := @verbatim_judge Unicode.ascii Grammar.ciscoIos accessList'
    (by decide +kernel) (by decide +kernel) (by decide +kernel) (by decide +kernel) 1 (by decide)
    before (Or.inr ⟨"ip access-list extended B\n permit tcp any any".toList, by decide +kernel⟩)
    (by decide +kernel) []
  have htyped : (@typed Unicode.ascii Grammar.ciscoIos accessList'.script).map Typed.navigation =
      [false, false, false, true] := by
    decide +kernel
  refine ⟨?_, hother⟩
  calc outcome.commands.map Judgment.verdict
      = (@typed Unicode.ascii Grammar.ciscoIos accessList'.script).map
          (fun t => if t.navigation then .navigation else .tookEffect) := hverdicts
    _ = ((@typed Unicode.ascii Grammar.ciscoIos accessList'.script).map Typed.navigation).map
          (fun navigation => if navigation then .navigation else .tookEffect) := by
        rw [List.map_map]; rfl
    _ = [.tookEffect, .tookEffect, .tookEffect, .navigation] := by rw [htyped]; rfl

end Evidence
end NetRollout
