import NetRollout.Evidence.Changes

/-!
# What a certain verdict rests on

Two verdicts are certain: a command took effect, or it removed something.
`exists_line_of_certain` says what they rest on: a line the push changed, which
`changes` shows and lists the command for.

One line must not make two different commands certain.  `conflicts` sees to that
by the commands' texts as sent, while the lines are found by their words as
judged.  Where the words are the text's own the two agree (`words_eq_of_mem_typed`).
In a flat configuration a relative command is judged with its `edit` path before
its words, so that one text sent under two paths is two commands; `sound_iff` says
exactly when that goes unnoticed: when all the commands a line is the first match
of were sent as one text.
-/

namespace NetRollout
namespace Evidence

open PyText ListUpdate

/-- The verdicts that claim a change. -/
def Verdict.Certain (v : Verdict) : Prop := v = .tookEffect ∨ v = .removed

namespace Judge

section Sound

variable [Unicode]

/-! ## A certain verdict's line -/

/-- A finding that rests on a changed line shows that line. -/
theorem exists_line_of_claim {J : Judge} {i : Nat} {command : Typed} {st : State} {f : Finding}
    {key : Sign × Nat} (hfacts : J.Facts i command st f) (hclaim : f.claim = some key)
    (sent : Str) (headers : Option Path) :
    ∃ line, (J.changed key.1)[key.2]? = some line ∧
      (f.judgment sent headers).evidence = [evidenceLine key.1 line.raw] := by
  cases f with
  | added line index =>
    obtain rfl := Option.some_inj.mp hclaim
    exact ⟨line, hfacts.1, rfl⟩
  | opened header index =>
    obtain rfl := Option.some_inj.mp hclaim
    exact ⟨header, hfacts.2.1, rfl⟩
  | negationRemoved line index =>
    obtain rfl := Option.some_inj.mp hclaim
    exact ⟨line, hfacts.2.1, rfl⟩
  | removed line index =>
    obtain rfl := Option.some_inj.mp hclaim
    exact ⟨line, hfacts.2.1, rfl⟩
  | exec => exact absurd hclaim (by simp [Finding.claim])
  | navigation => exact absurd hclaim (by simp [Finding.claim])
  | unchanged line => exact absurd hclaim (by simp [Finding.claim])
  | absent => exact absurd hclaim (by simp [Finding.claim])
  | unproven => exact absurd hclaim (by simp [Finding.claim])

omit [Unicode] in
/-- A verdict settled without a claim is not certain. -/
theorem claim_of_certain_found {J : Judge} {command : Typed} {entry : Finding × Option Path}
    (h : (J.found command entry).verdict.Certain) : ∃ key, entry.1.claim = some key := by
  obtain ⟨f, here⟩ := entry
  cases f with
  | added line index => exact ⟨_, rfl⟩
  | opened header index => exact ⟨_, rfl⟩
  | negationRemoved line index => exact ⟨_, rfl⟩
  | removed line index => exact ⟨_, rfl⟩
  | exec => exact absurd h (by simp [found, Finding.judgment, Verdict.Certain])
  | navigation => exact absurd h (by simp [found, Finding.judgment, Verdict.Certain])
  | unchanged line => exact absurd h (by simp [found, Finding.judgment, Verdict.Certain])
  | absent => exact absurd h (by simp [found, Finding.judgment, Verdict.Certain])
  | unproven => exact absurd h (by simp [found, Finding.judgment, Verdict.Certain])

/-- **Where a certain verdict comes from**: the loop found the line, and the line
is not contested. -/
theorem certain_iff_of_settled {J : Judge} {commands : List Typed} {command : Typed}
    {entry : Finding × Option Path} (h : (J.settled commands command entry).verdict.Certain) :
    J.settled commands command entry = J.found command entry ∧
      ∃ key, entry.1.claim = some key ∧ contested commands (J.claimsOn commands key) = false := by
  unfold settled at h ⊢
  split at h
  · split at h <;> exact absurd h (by simp [toReview, toInPlace, Verdict.Certain])
  · next hun =>
    rw [if_neg hun]
    unfold afterConflicts at h ⊢
    split at h
    · next hclaim =>
      obtain ⟨key, hkey⟩ := claim_of_certain_found h
      exact absurd (hclaim.symm.trans hkey) (by simp)
    · next key hclaim =>
      split at h
      · exact absurd h (by simp [toConflict, Verdict.Certain])
      · next hcontested =>
        have hfree : contested commands (J.claimsOn commands key) = false := by
          simpa using hcontested
        simp only [hclaim, hfree, Bool.false_eq_true, if_false, Option.some_inj, exists_eq_left',
          and_self]

/-- **A certain verdict rests on a line the push changed**, which is shown as a
change and lists the command. -/
theorem exists_line_of_certain {J : Judge} {commands : List Typed} {c : Nat} {j : Judgment}
    (hj : (J.run commands).commands[c]? = some j) (hcertain : j.verdict.Certain) :
    ∃ key line, c ∈ J.claimsOn commands key ∧ (J.changed key.1)[key.2]? = some line ∧
      j.evidence = [evidenceLine key.1 line.raw] ∧
      ∃ change, (J.run commands).changes[J.changeAt key]? = some change ∧
        change.shown = shownLine key.1 line ∧ change.device = false ∧ c ∈ change.byCommands := by
  obtain ⟨command, entry, hcmd, hentry, hrej⟩ := J.exists_of_run_commands hj
  have hsame : j = J.settled commands command entry := by
    refine hrej.eq_of_verdict ?_ ?_ <;> intro h <;> rw [h] at hcertain <;>
      exact absurd hcertain (by simp [Verdict.Certain])
  obtain ⟨hfound, key, hclaim, -⟩ := certain_iff_of_settled (hsame ▸ hcertain)
  obtain ⟨st, -, hfacts⟩ := J.exists_facts hcmd hentry
  obtain ⟨line, hline, hev⟩ := exists_line_of_claim hfacts hclaim command.sent (J.headers entry.2)
  have hc : c ∈ J.claimsOn commands key := (mem_claimsOn_iff hentry).mpr hclaim
  have hchange := J.exists_change_of_claim (J.finalState commands) hline
    (by rw [claimsOf_finalState]; exact hc)
  refine ⟨key, line, hc, hline, ?_, ?_⟩
  · rw [hsame, hfound]
    exact hev
  · rw [run_eq]
    exact hchange

/-! ## One line, two commands -/

/-- Commands claiming one line are contested when two of them were sent with
different texts. -/
theorem contested_iff {J : Judge} {commands : List Typed} {key : Sign × Nat} :
    contested commands (J.claimsOn commands key) = true ↔
      ∃ c ∈ J.claimsOn commands key, ∃ d ∈ J.claimsOn commands key, ∃ s t,
        commands[c]? = some s ∧ commands[d]? = some t ∧ normalize s.sent ≠ normalize t.sent := by
  unfold contested
  rw [decide_eq_true_iff, one_lt_length_dedup_iff]
  constructor
  · rintro ⟨a, ha, b, hb, hne⟩
    obtain ⟨c, hc, rfl⟩ := List.mem_map.mp ha
    obtain ⟨d, hd, rfl⟩ := List.mem_map.mp hb
    obtain ⟨_, hfc, -⟩ := mem_claimsOn.mp hc
    obtain ⟨_, hfd, -⟩ := mem_claimsOn.mp hd
    obtain ⟨s, hs⟩ := J.exists_command hfc
    obtain ⟨t, ht⟩ := J.exists_command hfd
    exact ⟨c, hc, d, hd, s, t, hs, ht, fun heq => hne (by rw [hs, ht]; exact congrArg some heq)⟩
  · rintro ⟨c, hc, d, hd, s, t, hs, ht, hne⟩
    refine ⟨_, List.mem_map_of_mem hc, _, List.mem_map_of_mem hd, ?_⟩
    rw [hs, ht]
    exact fun heq => hne (Option.some_inj.mp heq)

/-- What is settled of a command that claims a contested line is a review. -/
theorem verdict_settled_of_contested {J : Judge} {commands : List Typed} {command : Typed}
    {entry : Finding × Option Path} {key : Sign × Nat} (hclaim : entry.1.claim = some key)
    (hcontested : contested commands (J.claimsOn commands key) = true) :
    (J.settled commands command entry).verdict = .review := by
  have hun : entry.1 ≠ .unproven := by
    intro h
    rw [h] at hclaim
    exact absurd hclaim (by simp [Finding.claim])
  rw [settled, if_neg hun, afterConflicts, hclaim]
  simp [hcontested, toConflict]

/-- What is settled of a command that claims an uncontested line is certain. -/
theorem certain_settled_of_not_contested {J : Judge} {commands : List Typed} {command : Typed}
    {entry : Finding × Option Path} {key : Sign × Nat} (hclaim : entry.1.claim = some key)
    (hfree : contested commands (J.claimsOn commands key) = false) :
    (J.settled commands command entry).verdict.Certain := by
  obtain ⟨f, here⟩ := entry
  have hun : f ≠ .unproven := by
    rintro rfl
    exact absurd hclaim (by simp [Finding.claim])
  rw [settled, if_neg hun, afterConflicts, hclaim]
  simp only [hfree, Bool.false_eq_true, if_false]
  cases f with
  | added line index => exact Or.inl rfl
  | opened header index => exact Or.inl rfl
  | negationRemoved line index => exact Or.inl rfl
  | removed line index => exact Or.inr rfl
  | exec => exact absurd hclaim (by simp [Finding.claim])
  | navigation => exact absurd hclaim (by simp [Finding.claim])
  | unchanged line => exact absurd hclaim (by simp [Finding.claim])
  | absent => exact absurd hclaim (by simp [Finding.claim])
  | unproven => exact absurd rfl hun

/-- What certain verdicts promise: each rests on a changed line that is no churn
and lists its command, and commands with different words that claim one line end
unproven. -/
structure Sound (J : Judge) (diff : Diff) (churn : Noise) (commands : List Typed) : Prop where
  rests : ∀ c j, (J.run commands).commands[c]? = some j → j.verdict.Certain →
    ∃ key line, c ∈ J.claimsOn commands key ∧ (J.changed key.1)[key.2]? = some line ∧
      line ∈ diff.changed key.1 ∧ isNoise line churn = false ∧
      j.evidence = [evidenceLine key.1 line.raw] ∧
      ∃ change, (J.run commands).changes[J.changeAt key]? = some change ∧
        change.shown = shownLine key.1 line ∧ change.device = false ∧ c ∈ change.byCommands
  alone : ∀ key, ∀ c ∈ J.claimsOn commands key, ∀ d ∈ J.claimsOn commands key,
    wordsAt commands c ≠ wordsAt commands d →
      ∀ j, (J.run commands).commands[c]? = some j → j.verdict = .review ∨ j.verdict = .rejected

/-- **When certain verdicts keep their promise**: when every line that commands
with different words claim is contested. -/
theorem sound_iff_contested {J : Judge} {diff : Diff} {churn : Noise} {commands : List Typed}
    (hJ : ∀ sign, J.changed sign = (diff.changed sign).filter fun line => !isNoise line churn) :
    J.Sound diff churn commands ↔
      ∀ key, ∀ c ∈ J.claimsOn commands key, ∀ d ∈ J.claimsOn commands key,
        wordsAt commands c ≠ wordsAt commands d →
          contested commands (J.claimsOn commands key) = true := by
  constructor
  · intro hsound key c hc d hd hne
    obtain ⟨entry, hentry, hclaim⟩ := mem_claimsOn.mp hc
    obtain ⟨command, hcmd⟩ := J.exists_command hentry
    obtain ⟨j, hj, hrej⟩ := J.exists_run_commands hcmd hentry
    by_contra hfree
    have hcertain : (J.settled commands command entry).verdict.Certain :=
      certain_settled_of_not_contested hclaim (by simpa using hfree)
    have hnot : (J.settled commands command entry).verdict ≠ .review := by
      intro h
      rw [h] at hcertain
      exact absurd hcertain (by simp [Verdict.Certain])
    rw [hrej.eq_of_ne_review hnot] at hj
    rcases hsound.alone key c hc d hd hne _ hj with h | h <;> rw [h] at hcertain <;>
      exact absurd hcertain (by simp [Verdict.Certain])
  · intro h
    refine ⟨fun c j hj hcertain => ?_, ?_⟩
    · obtain ⟨key, line, hc, hline, hev, hchange⟩ := exists_line_of_certain hj hcertain
      have hmem := List.mem_of_getElem? hline
      rw [hJ, List.mem_filter] at hmem
      exact ⟨key, line, hc, hline, hmem.1, by simpa using hmem.2, hev, hchange⟩
    · intro key c hc d hd hne j hj
      obtain ⟨command, entry, hcmd, hentry, hrej⟩ := J.exists_of_run_commands hj
      have hclaim := (mem_claimsOn_iff hentry).mp hc
      exact hrej.verdict_of_review
        (verdict_settled_of_contested hclaim (h key c hc d hd hne))

/-! ## Without sections -/

/-- A configuration without sections: every line stands at the top. -/
def Flat (J : Judge) : Prop := ∀ path ∈ J.sections, path = []

/-- The changed line a command is the first match of where nothing has a section:
the removed line a removal names, else the added line with the command's words,
else, when no unchanged line is the command, the removed line that is its
negation. -/
def firstMatch (J : Judge) (command : Typed) : Option (Sign × Nat) :=
  if command.exec || command.navigation then none
  else if J.isRemoval command then
    match J.removedAt (command.words.drop 1) (some []) with
    | some p => some (.minus, p.2)
    | none =>
      match J.foundAt command.words (some []) with
      | some (.added _ index) => some (.plus, index)
      | _ => none
  else
    match J.foundAt command.words (some []) with
    | some (.added _ index) => some (.plus, index)
    | some (.unchanged _) => none
    | none => (J.negationAt command.words (some [])).map fun p => (.minus, p.2)

omit [Unicode] in
theorem isHeader_of_flat {J : Judge} (hflat : J.Flat) (line : Line) : J.isHeader line = false := by
  unfold isHeader
  rw [List.contains_eq_mem, decide_eq_false_iff_not]
  exact fun h => line.inside_ne_nil (hflat _ h)

omit [Unicode] in
theorem navigate_top (J : Judge) (command : Typed) : J.navigate command (some []) = some [] := by
  unfold navigate
  split
  · rfl
  · split <;> rfl

/-- **A flat step**: the command rests on its first match, and stays at the
top. -/
theorem find_of_flat {J : Judge} (hflat : J.Flat) (i : Nat) (command : Typed)
    (next : Option (List Str)) {st : State} (hst : st.context = some []) :
    (J.find i command next st).1.claim = J.firstMatch command ∧
      (J.find i command next st).2 = some [] := by
  have hlevels : levels st.context = [some []] := by rw [hst]; rfl
  have hopen : J.openedBlock next st = none := by
    unfold openedBlock
    split
    · rfl
    · rfl
    · rw [List.find?_eq_none]
      intro p _
      simp [isHeader_of_flat hflat]
  have henter : ∀ line, J.enter line (some []) = some [] := fun line => by
    rw [enter, isHeader_of_flat hflat]
    rfl
  unfold find firstMatch
  by_cases hexec : command.exec = true
  · rw [if_pos hexec, hexec]
    exact ⟨rfl, hst⟩
  · by_cases hnav : command.navigation = true
    · rw [if_neg hexec, if_pos hnav, hnav, Bool.or_true, hst]
      exact ⟨rfl, J.navigate_top command⟩
    · have hboth : ¬ (command.exec || command.navigation) = true := by simp [hexec, hnav]
      rw [if_neg hexec, if_neg hnav, if_neg hboth]
      by_cases hrem : J.isRemoval command = true
      · rw [if_pos hrem, if_pos hrem]
        refine ⟨?_, hst⟩
        unfold findRemoval
        rw [hlevels, List.findSome?_singleton, List.findSome?_singleton]
        cases J.removedAt (command.words.drop 1) (some []) with
        | some p => rfl
        | none =>
          cases J.foundAt command.words (some []) with
          | some found => cases found <;> rfl
          | none =>
            dsimp only
            split <;> rfl
      · rw [if_neg hrem, if_neg hrem]
        unfold findSetting
        rw [hlevels, List.findSome?_singleton, List.findSome?_singleton]
        cases J.foundAt command.words (some []) with
        | some found => cases found <;> exact ⟨rfl, henter _⟩
        | none =>
          rw [Option.map_none]
          dsimp only
          cases J.negationAt command.words (some []) with
          | some p => exact ⟨rfl, hst⟩
          | none =>
            rw [hopen]
            exact ⟨rfl, hst⟩

/-- **A flat run**: every command rests on its first match. -/
theorem claim_trace_of_flat {J : Judge} (hflat : J.Flat) {i : Nat} {commands : List Typed}
    {st : State} (hst : st.context = some []) {c : Nat} {command : Typed}
    {entry : Finding × Option Path} (hcmd : commands[c]? = some command)
    (hentry : (J.trace i commands st)[c]? = some entry) :
    entry.1.claim = J.firstMatch command := by
  induction commands generalizing i st c with
  | nil => simp at hcmd
  | cons first commands ih =>
    obtain ⟨hclaim, hcontext⟩ := find_of_flat hflat i first (following commands) hst
    cases c with
    | zero =>
      rw [trace, List.getElem?_cons_zero, Option.some_inj] at hentry
      rw [List.getElem?_cons_zero, Option.some_inj] at hcmd
      rw [← hentry, ← hcmd, ← hclaim]
    | succ c =>
      rw [trace, List.getElem?_cons_succ] at hentry
      exact ih hcontext hcmd hentry

/-- The texts of the commands tell what a line rests on: where commands with
different words have one first match, two with that first match were sent with
different texts. -/
def TextsTell (J : Judge) (commands : List Typed) : Prop :=
  ∀ key, ∀ s ∈ commands, ∀ t ∈ commands, J.firstMatch s = some key → J.firstMatch t = some key →
    s.words ≠ t.words →
      ∃ s' ∈ commands, ∃ t' ∈ commands, J.firstMatch s' = some key ∧ J.firstMatch t' = some key ∧
        normalize s'.sent ≠ normalize t'.sent

theorem mem_claimsOn_of_flat {J : Judge} (hflat : J.Flat) {commands : List Typed}
    {key : Sign × Nat} {c : Nat} :
    c ∈ J.claimsOn commands key ↔
      ∃ command, commands[c]? = some command ∧ J.firstMatch command = some key := by
  rw [mem_claimsOn]
  constructor
  · rintro ⟨entry, hentry, hclaim⟩
    obtain ⟨command, hcmd⟩ := J.exists_command hentry
    exact ⟨command, hcmd, (claim_trace_of_flat hflat rfl hcmd hentry).symm.trans hclaim⟩
  · rintro ⟨command, hcmd, hmatch⟩
    obtain ⟨entry, hentry⟩ := J.exists_finding hcmd
    exact ⟨entry, hentry, (claim_trace_of_flat hflat rfl hcmd hentry).trans hmatch⟩

theorem textsTell_iff {J : Judge} (hflat : J.Flat) {commands : List Typed} :
    (∀ key, ∀ c ∈ J.claimsOn commands key, ∀ d ∈ J.claimsOn commands key,
        wordsAt commands c ≠ wordsAt commands d →
          contested commands (J.claimsOn commands key) = true) ↔ J.TextsTell commands := by
  have hwords : ∀ {c : Nat} {s : Typed}, commands[c]? = some s → wordsAt commands c = s.words :=
    fun h => by simp [wordsAt, h]
  constructor
  · intro h key s hs t ht hms hmt hne
    obtain ⟨c, hc⟩ := List.mem_iff_getElem?.mp hs
    obtain ⟨d, hd⟩ := List.mem_iff_getElem?.mp ht
    have hcontested := h key c ((mem_claimsOn_of_flat hflat).mpr ⟨s, hc, hms⟩) d
      ((mem_claimsOn_of_flat hflat).mpr ⟨t, hd, hmt⟩) (by rwa [hwords hc, hwords hd])
    obtain ⟨c', hc', d', hd', s', t', hs', ht', hdiff⟩ := contested_iff.mp hcontested
    obtain ⟨_, heq, hms'⟩ := (mem_claimsOn_of_flat hflat).mp hc'
    obtain rfl := Option.some_inj.mp (hs'.symm.trans heq)
    obtain ⟨_, heq, hmt'⟩ := (mem_claimsOn_of_flat hflat).mp hd'
    obtain rfl := Option.some_inj.mp (ht'.symm.trans heq)
    exact ⟨_, List.mem_of_getElem? hs', _, List.mem_of_getElem? ht', hms', hmt', hdiff⟩
  · intro h key c hc d hd hne
    obtain ⟨s, hs, hms⟩ := (mem_claimsOn_of_flat hflat).mp hc
    obtain ⟨t, ht, hmt⟩ := (mem_claimsOn_of_flat hflat).mp hd
    rw [hwords hs, hwords ht] at hne
    obtain ⟨s', hs', t', ht', hms', hmt', hdiff⟩ :=
      h key s (List.mem_of_getElem? hs) t (List.mem_of_getElem? ht) hms hmt hne
    obtain ⟨c', hc'⟩ := List.mem_iff_getElem?.mp hs'
    obtain ⟨d', hd'⟩ := List.mem_iff_getElem?.mp ht'
    exact contested_iff.mpr ⟨c', (mem_claimsOn_of_flat hflat).mpr ⟨s', hc', hms'⟩, d',
      (mem_claimsOn_of_flat hflat).mpr ⟨t', hd', hmt'⟩, s', t', hc', hd', hdiff⟩

end Sound

end Judge

section Top

variable [Unicode]

/-- A line of a flat snapshot is in no section. -/
theorem path_eq_nil_of_mem_lines {G : Grammar} (hflat : G.flat = true) {config : Str} {line : Line}
    (h : line ∈ G.lines config) : line.path = [] := by
  unfold Grammar.lines parse at h
  rw [hflat] at h
  exact path_eq_nil_of_mem_parseRows G.navigation _ [] line h

theorem flat_mkJudge {G : Grammar} (hflat : G.flat = true) (before after : Str)
    (again : Option Str) (replied : List Bool) (defaults : Option Str) :
    (mkJudge G before after again replied defaults).Flat := by
  intro path hpath
  obtain ⟨line, hline, rfl⟩ := List.mem_map.mp hpath
  rcases List.mem_append.mp hline with hline | hline
  · rcases List.mem_append.mp hline with hline | hline
    · exact path_eq_nil_of_mem_lines hflat hline
    · exact path_eq_nil_of_mem_lines hflat hline
  · unfold Grammar.view at hline
    split at hline
    · exact absurd hline (by simp)
    · exact absurd hline (by simp)
    · exact path_eq_nil_of_mem_lines hflat hline

/-- Where there are sections a command's words are its text's own. -/
theorem words_eq_of_mem_typedFrom {G : Grammar} (hflat : G.flat = false)
    (path : Option (List (List Str))) (commands : List Str) :
    ∀ t ∈ typedFrom G path commands, t.words = words t.sent := by
  induction commands generalizing path with
  | nil => simp [typedFrom]
  | cons command commands ih =>
    intro t ht
    rw [typedFrom] at ht
    rcases List.mem_cons.mp ht with rfl | ht
    · rw [typedStep_of_sections hflat, words_typedOf, sent_typedOf]
    · exact ih _ t ht

/-- **When the judge's certain verdicts keep their promise**: always where there
are sections, and on a flat platform exactly where the commands' texts tell what
a line rests on. -/
theorem sound_judge_iff (G : Grammar) (commands : List Str) (before after : Str)
    (again : Option Str) (replied : List Bool) (defaults : Option Str) :
    (mkJudge G before after again replied defaults).Sound
        (compare (G.lines before) (G.lines after)) (G.churn after again) (typed G commands) ↔
      (G.flat = true →
        (mkJudge G before after again replied defaults).TextsTell (typed G commands)) := by
  rw [Judge.sound_iff_contested (fun sign => by cases sign <;> rfl)]
  cases hflat : G.flat with
  | true =>
    rw [Judge.textsTell_iff (flat_mkJudge hflat before after again replied defaults)]
    exact ⟨fun h _ => h, fun h => h rfl⟩
  | false =>
    refine iff_of_true ?_ (fun h => absurd h (by simp))
    intro key c hc d hd hne
    obtain ⟨_, hfc, -⟩ := Judge.mem_claimsOn.mp hc
    obtain ⟨_, hfd, -⟩ := Judge.mem_claimsOn.mp hd
    obtain ⟨s, hs⟩ := Judge.exists_command _ hfc
    obtain ⟨t, ht⟩ := Judge.exists_command _ hfd
    refine Judge.contested_iff.mpr ⟨c, hc, d, hd, s, t, hs, ht, fun heq => hne ?_⟩
    have hws := words_eq_of_mem_typedFrom hflat (some []) commands s (List.mem_of_getElem? hs)
    have hwt := words_eq_of_mem_typedFrom hflat (some []) commands t (List.mem_of_getElem? ht)
    simp [Judge.wordsAt, hs, ht, hws, hwt, words_eq_of_normalize_eq heq]

end Top

/-- The commands of a Junos push: `interface ge-0/0/0.0` typed under `protocols
ospf`, and again under its area. -/
def ospfCommands : List Str :=
  ["edit protocols ospf".toList, "set interface ge-0/0/0.0".toList, "top".toList,
    "edit protocols ospf area 0.0.0.0".toList, "set interface ge-0/0/0.0".toList]

/-- The one line the device added for them. -/
def ospfAfter : Str := "set protocols ospf area 0.0.0.0 interface ge-0/0/0.0".toList

/-- **One text under two paths**: both commands are certain by the same line. -/
theorem not_sound_ospf :
    ¬ @Judge.Sound Unicode.ascii
        (@mkJudge Unicode.ascii Grammar.juniperJunos [] ospfAfter none [] none)
        (compare (@Grammar.lines Unicode.ascii Grammar.juniperJunos [])
          (@Grammar.lines Unicode.ascii Grammar.juniperJunos ospfAfter))
        (@Grammar.churn Unicode.ascii Grammar.juniperJunos ospfAfter none)
        (@typed Unicode.ascii Grammar.juniperJunos ospfCommands) := by
  intro hsound
  have hverdict := @Judge.Sound.alone Unicode.ascii _ _ _ _ hsound (.plus, 0) 1
    (by decide +kernel) 4 (by decide +kernel) (by decide +kernel)
    { command := "set interface ge-0/0/0.0".toList, verdict := .tookEffect,
      evidence := [evidenceLine .plus ospfAfter] } (by decide +kernel)
  exact absurd hverdict (by decide)

end Evidence
end NetRollout
