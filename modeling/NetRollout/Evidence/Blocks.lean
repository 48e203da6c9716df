import NetRollout.Evidence.Passes

/-!
# FortiOS blocks

A FortiOS script nests: `config` is closed by `end`, `edit` by `next` or by the
`end` of its `config`.  `Script` is such a script, with the commands in between.

The judge keeps the section of the command it judges.  An opening command enters
a section when it is matched to a header, and every closing command leaves one.
So the two keep step only where each block enters exactly one section: not when
the device refused the entry, not when the entry has no lines, and not when one
`end` closes an entry and its table (`sectionAfter_refusedEntry_ne`).

`Script.kept` says, command by command and on the state before it, that this does
not happen, and `sectionAfter_block` that then the section after a block is the section
before it.
-/

namespace NetRollout
namespace Evidence

open PyText

/-! ## Scripts -/

/-- A block-structured script. -/
inductive Script where
  /-- No command. -/
  | done
  /-- A command that opens and closes nothing. -/
  | plain (command : Str) (rest : Script)
  /-- A `config` block, with the command that closes it. -/
  | config (opening : Str) (body : Script) (closing : Str) (rest : Script)
  /-- An `edit` block closed by a command of its own. -/
  | edit (opening : Str) (body : Script) (closing : Str) (rest : Script)
  /-- An `edit` left to the end of its config block. -/
  | left (opening : Str) (body : Script)

namespace Script

/-- The commands of a script. -/
def commands : Script → List Str
  | done => []
  | plain command rest => command :: rest.commands
  | config opening body closing rest =>
    opening :: (body.commands ++ closing :: rest.commands)
  | edit opening body closing rest => opening :: (body.commands ++ closing :: rest.commands)
  | left opening body => opening :: body.commands

variable [Unicode]

/-- A command's first word. -/
def head (command : Str) : Str := (words command).headD []

/-- Each `config` is closed by `end`, each `edit` by `next`, or by the `end` of
the config block where `inConfig` says that one is open around. -/
def closed (inConfig : Bool) : Script → Bool
  | done => true
  | plain command rest =>
    !(["config".toList, "edit".toList, "end".toList, "next".toList].contains (head command)) &&
      rest.closed inConfig
  | config opening body closing rest =>
    head opening == "config".toList && body.closed true && head closing == "end".toList &&
      rest.closed inConfig
  | edit opening body closing rest =>
    head opening == "edit".toList && body.closed false && head closing == "next".toList &&
      rest.closed inConfig
  | left opening body => inConfig && head opening == "edit".toList && body.closed true

end Script

/-- The grammar of FortiOS, its exec and removal words apart. -/
structure Grammar.IsFortiOS (G : Grammar) : Prop where
  flat : G.flat = false
  blocks : G.blocks = true
  navigation : G.navigation = ["next".toList, "end".toList, "abort".toList]
  exec : "next".toList ∉ G.execWords ∧ "end".toList ∉ G.execWords

/-! ## The section a command leaves behind -/

namespace Judge

/-- The line that was found. -/
def Found.line : Found → Line
  | .added line _ => line
  | .unchanged line => line

section Sections

variable [Unicode]

/-- No line is the command, in its section or outside it. -/
def foundNowhere (J : Judge) (command : Typed) (st : State) : Bool :=
  (levels st.context).all fun path => (J.foundAt command.words path).isNone

/-- The push did not remove the command's negation. -/
def negationNowhere (J : Judge) (command : Typed) (st : State) : Bool :=
  (levels st.context).all fun path => (J.negationAt command.words path).isNone

/-- The command opens a section of the one it is in: a header there has it, or it
is found nowhere and the device named the block it opened. -/
def opens (J : Judge) (command : Typed) (next : Option (List Str)) (st : State) : Bool :=
  !command.exec && !command.navigation && !J.isRemoval command &&
    ((J.foundAt command.words st.context).any (fun found => J.isHeader found.line) ||
      (J.foundNowhere command st && J.negationNowhere command st &&
        (J.openedBlock next st).isSome))

/-- The command stays in its section: it sets nothing; or a line there that is no
header has it; or it is found nowhere, and opened no block. -/
def stays (J : Judge) (command : Typed) (next : Option (List Str)) (st : State) : Bool :=
  command.exec || (command.navigation && st.context == some []) ||
    (!command.navigation &&
      (J.isRemoval command ||
        (J.foundAt command.words st.context).any (fun found => !J.isHeader found.line) ||
        (J.foundNowhere command st &&
          (!J.negationNowhere command st || (J.openedBlock next st).isNone))))

theorem findSome?_of_foundNowhere {J : Judge} {command : Typed} {st : State}
    (h : J.foundNowhere command st = true) :
    ((levels st.context).findSome? fun path =>
      (J.foundAt command.words path).map fun found => (found, path)) = none := by
  rw [List.findSome?_eq_none_iff]
  intro path hpath
  have hnone := List.all_eq_true.mp h path hpath
  rw [Option.isNone_iff_eq_none] at hnone
  rw [hnone]
  rfl

/-- A line found in a section stands there. -/
theorem path_of_foundAt {J : Judge} {typed : List Str} {here : Path} {found : Found}
    (h : J.foundAt typed (some here) = some found) : found.line.path = here := by
  have hfacts := facts_of_foundAt h
  cases found with
  | added line index => exact beq_iff_eq.mp hfacts.2.1
  | unchanged line => exact beq_iff_eq.mp hfacts.2.1

/-- A setting found in its section: what it leaves behind. -/
theorem findSetting_of_foundAt {J : Judge} {command : Typed} (next : Option (List Str))
    {st : State} {here : Path} (hst : st.context = some here) {found : Found}
    (h : J.foundAt command.words (some here) = some found) :
    (J.findSetting command next st).2 =
      if J.isHeader found.line then some (here ++ [found.line.text]) else some here := by
  have hpath := path_of_foundAt h
  have hfind : ((levels st.context).findSome? fun path =>
      (J.foundAt command.words path).map fun found => (found, path)) =
        some (found, some here) := by
    rw [hst]
    exact findSome?_levels _ (by rw [h]; rfl)
  unfold findSetting
  rw [hfind]
  cases found with
  | added line index =>
    show J.enter line (some here) = _
    rw [enter, Line.inside, show line.path = here from hpath]
    rfl
  | unchanged line =>
    show J.enter line (some here) = _
    rw [enter, Line.inside, show line.path = here from hpath]
    rfl

/-- **An opening command enters one section.** -/
theorem context_of_opens {J : Judge} {i : Nat} {command : Typed} {next : Option (List Str)}
    {st : State} {here : Path} (hst : st.context = some here)
    (h : J.opens command next st = true) :
    ∃ text, (J.step i command next st).context = some (here ++ [text]) := by
  simp only [opens, Bool.and_eq_true, Bool.not_eq_true', Bool.or_eq_true] at h
  obtain ⟨⟨⟨hexec, hnav⟩, hrem⟩, hfound⟩ := h
  show ∃ text, (J.find i command next st).2 = some (here ++ [text])
  unfold find
  rw [if_neg (by simp [hexec]), if_neg (by simp [hnav]), if_neg (by simp [hrem])]
  rcases hfound with hfound | ⟨⟨hnowhere, hnegation⟩, hopened⟩
  · obtain ⟨found, hf, hheader⟩ := (Option.any_eq_true _ _).mp hfound
    rw [hst] at hf
    exact ⟨found.line.text, by rw [findSetting_of_foundAt next hst hf, if_pos hheader]⟩
  · obtain ⟨⟨header, index⟩, hopen⟩ := Option.isSome_iff_exists.mp hopened
    have hneg : (levels st.context).findSome? (J.negationAt command.words) = none := by
      rw [List.findSome?_eq_none_iff]
      intro path hpath
      exact Option.isNone_iff_eq_none.mp (List.all_eq_true.mp hnegation path hpath)
    refine ⟨header.text, ?_⟩
    unfold findSetting
    rw [findSome?_of_foundNowhere hnowhere, hneg, hopen]
    -- the block stands in the section the command was typed in
    have hat : at_ header st.context = true := by
      unfold openedBlock at hopen
      split at hopen
      · exact absurd hopen (by simp)
      · exact absurd hopen (by simp)
      · have hp := List.find?_some hopen
        simp only [Bool.and_eq_true] at hp
        exact hp.1.1.2
    rw [hst] at hat
    show some header.inside = _
    rw [Line.inside, beq_iff_eq.mp hat]

/-- **A command that stays leaves the section as it was.** -/
theorem context_of_stays {J : Judge} {i : Nat} {command : Typed} {next : Option (List Str)}
    {st : State} {here : Path} (hst : st.context = some here)
    (h : J.stays command next st = true) : (J.step i command next st).context = some here := by
  simp only [stays, Bool.or_eq_true, Bool.and_eq_true, Bool.not_eq_true', beq_iff_eq] at h
  show (J.find i command next st).2 = some here
  unfold find
  by_cases hexec : command.exec = true
  · rw [if_pos hexec]
    exact hst
  · rw [if_neg hexec]
    rcases h with (h | ⟨hnav, htop⟩) | ⟨hnav, h⟩
    · exact absurd h hexec
    · rw [if_pos hnav, htop, ← hst, htop]
      unfold navigate
      split
      · rfl
      · split <;> rfl
    · rw [if_neg (by simp [hnav])]
      by_cases hrem : J.isRemoval command = true
      · rw [if_pos hrem]
        exact hst
      · rw [if_neg hrem]
        rcases h with (h | hfound) | ⟨hnowhere, hopened⟩
        · exact absurd h hrem
        · obtain ⟨found, hf, hheader⟩ := (Option.any_eq_true _ _).mp hfound
          rw [hst] at hf
          rw [findSetting_of_foundAt next hst hf, if_neg (by simpa using hheader)]
        · unfold findSetting
          rw [findSome?_of_foundNowhere hnowhere]
          dsimp only
          cases hneg : (levels st.context).findSome? (J.negationAt command.words) with
          | some p => exact hst
          | none =>
            rcases hopened with hnegation | hopened
            · have hall : J.negationNowhere command st = true := by
                refine List.all_eq_true.mpr fun path hpath => ?_
                rw [List.findSome?_eq_none_iff.mp hneg path hpath]
                rfl
              exact absurd hall (by simp [hnegation])
            · rw [Option.isNone_iff_eq_none.mp hopened]
              exact hst

/-- **A closing command leaves one section**, or stays at the top. -/
theorem context_of_closes {J : Judge} (hblocks : J.blocks = true) {i : Nat} {command : Typed}
    (hexec : command.exec = false) (hnav : command.navigation = true) {word : Str}
    {rest : List Str} (hwords : command.words = word :: rest)
    (hword : word = "end".toList ∨ word = "next".toList) (next : Option (List Str)) {st : State}
    {here : Path} (hst : st.context = some here) :
    (J.step i command next st).context = some here.dropLast := by
  show (J.find i command next st).2 = some here.dropLast
  have hone : ¬ (word = "return".toList ∨ word = "root".toList ∨
      (word = "end".toList ∧ J.blocks = false)) := by
    rw [hblocks]
    rcases hword with rfl | rfl <;> decide
  unfold find
  rw [if_neg (by simp [hexec]), if_pos hnav, navigate, hwords]
  dsimp only
  rw [if_neg hone, hst]
  rfl

end Sections
end Judge

/-! ## Blocks that keep the section -/

section Kept

variable [Unicode]

/-- Each opening command of the script, up to its closing one, enters one section
--- or the script is at the top and stays there --- and the commands in between,
and an `edit` that is left, stay in theirs. -/
def Script.kept (J : Judge) (G : Grammar) : Script → Nat → List Typed → State → Bool
  | .done, _, _, _ => true
  | .plain command rest, i, post, st =>
    let after := rest.commands.map (typedOf G) ++ post
    J.stays (typedOf G command) (Judge.following after) st &&
      rest.kept J G (i + 1) post (J.step i (typedOf G command) (Judge.following after) st)
  | .config opening body closing rest, i, post, st =>
    keptBlock J G opening body closing rest i post st (body.kept J G) (rest.kept J G)
  | .edit opening body closing rest, i, post, st =>
    keptBlock J G opening body closing rest i post st (body.kept J G) (rest.kept J G)
  | .left opening body, i, post, st =>
    let after := body.commands.map (typedOf G) ++ post
    J.stays (typedOf G opening) (Judge.following after) st &&
      body.kept J G (i + 1) post (J.step i (typedOf G opening) (Judge.following after) st)
where
  /-- One block: its opening command, its body, its closing command, the rest. -/
  keptBlock (J : Judge) (G : Grammar) (opening : Str) (body : Script) (closing : Str)
      (rest : Script) (i : Nat) (post : List Typed) (st : State)
      (bodyKept restKept : Nat → List Typed → State → Bool) : Bool :=
    let inner := body.commands.map (typedOf G)
    let after := rest.commands.map (typedOf G) ++ post
    let next := Judge.following (inner ++ typedOf G closing :: after)
    let entered := J.step i (typedOf G opening) next st
    let closing' := J.stateAfter (i + 1) inner (typedOf G closing :: after) entered
    (J.opens (typedOf G opening) next st ||
        (st.context == some [] && J.stays (typedOf G opening) next st)) &&
      bodyKept (i + 1) (typedOf G closing :: after) entered &&
      restKept (i + 1 + inner.length + 1) post
        (J.step (i + 1 + inner.length) (typedOf G closing) (Judge.following after) closing')

/-- A closing command is one to the judge. -/
theorem typedOf_closing {G : Grammar} (hG : G.IsFortiOS) {closing : Str}
    (h : Script.head closing = "end".toList ∨ Script.head closing = "next".toList) :
    (typedOf G closing).exec = false ∧ (typedOf G closing).navigation = true ∧
      ∃ rest, (typedOf G closing).words = Script.head closing :: rest := by
  have hne : words closing ≠ [] := by
    intro hnil
    unfold Script.head at h
    rw [hnil] at h
    rcases h with h | h <;> exact absurd h (by decide)
  obtain ⟨word, rest, hwords⟩ := List.exists_cons_of_ne_nil hne
  have hhead : Script.head closing = word := by rw [Script.head, hwords]; rfl
  rw [hhead] at h ⊢
  have hexec : word ∉ G.execWords := by
    rcases h with rfl | rfl
    · exact hG.exec.2
    · exact hG.exec.1
  have hnav : navigates word G.navigation = true := by
    rw [hG.navigation]
    rcases h with rfl | rfl <;> rfl
  unfold typedOf
  rw [hwords, List.headD_cons, if_neg fun hw => hexec hw.2]
  exact ⟨rfl, by simp [hnav], rest, rfl⟩

/-- **One block keeps the section**, if its body does. -/
theorem context_keptBlock {J : Judge} {G : Grammar} (hG : G.IsFortiOS) (hblocks : J.blocks = true)
    {opening : Str} {body : Script} {closing : Str} {rest : Script}
    (hclosing : Script.head closing = "end".toList ∨ Script.head closing = "next".toList)
    {i : Nat} {post : List Typed} {st : State} {here : Path} (hst : st.context = some here)
    {bodyKept restKept : Nat → List Typed → State → Bool}
    (hbody : ∀ post st here, st.context = some here → bodyKept (i + 1) post st = true →
      (J.stateAfter (i + 1) (body.commands.map (typedOf G)) post st).context = some here)
    (hrest : ∀ st here, st.context = some here →
      restKept (i + 1 + (body.commands.map (typedOf G)).length + 1) post st = true →
      (J.stateAfter (i + 1 + (body.commands.map (typedOf G)).length + 1)
        (rest.commands.map (typedOf G)) post st).context = some here)
    (hkept : Script.kept.keptBlock J G opening body closing rest i post st bodyKept restKept =
      true) :
    (J.stateAfter i ((opening :: (body.commands ++ closing :: rest.commands)).map (typedOf G)) post
      st).context = some here := by
  simp only [Script.kept.keptBlock, Bool.and_eq_true, Bool.or_eq_true, beq_iff_eq] at hkept
  obtain ⟨⟨hopen, hbodyKept⟩, hrestKept⟩ := hkept
  obtain ⟨hexec, hnav, ws, hwords⟩ := typedOf_closing hG hclosing
  rw [List.map_cons, List.map_append, List.map_cons, Judge.stateAfter, Judge.stateAfter_append,
    Judge.stateAfter]
  simp only [List.append_assoc, List.cons_append]
  refine hrest _ here ?_ hrestKept
  rcases hopen with hopen | ⟨htop, hstays⟩
  · obtain ⟨text, hentered⟩ := Judge.context_of_opens (i := i) hst hopen
    have hinner := hbody _ _ _ hentered hbodyKept
    rw [Judge.context_of_closes hblocks hexec hnav hwords hclosing _ hinner,
      List.dropLast_concat]
  · obtain rfl : here = [] := Option.some_inj.mp (hst.symm.trans htop)
    have hentered := Judge.context_of_stays (i := i) hst hstays
    have hinner := hbody _ _ _ hentered hbodyKept
    rw [Judge.context_of_closes hblocks hexec hnav hwords hclosing _ hinner]
    rfl

/-- **A script whose steps keep the section keeps the section.** -/
theorem context_script {J : Judge} {G : Grammar} (hG : G.IsFortiOS) (hblocks : J.blocks = true)
    (script : Script) {inConfig : Bool} (hclosed : script.closed inConfig = true) {i : Nat}
    {post : List Typed} {st : State} {here : Path} (hst : st.context = some here)
    (hkept : script.kept J G i post st = true) :
    (J.stateAfter i (script.commands.map (typedOf G)) post st).context = some here := by
  induction script generalizing inConfig i post st here with
  | done => exact hst
  | plain command rest ih =>
    simp only [Script.closed, Bool.and_eq_true] at hclosed
    simp only [Script.kept, Bool.and_eq_true] at hkept
    exact ih hclosed.2 (Judge.context_of_stays hst hkept.1) hkept.2
  | config opening body closing rest ihBody ihRest =>
    simp only [Script.closed, Bool.and_eq_true, beq_iff_eq] at hclosed
    obtain ⟨⟨⟨-, hbody⟩, hclosing⟩, hrest⟩ := hclosed
    exact context_keptBlock hG hblocks (Or.inl hclosing) hst
      (fun _ _ _ h hk => ihBody hbody h hk) (fun _ _ h hk => ihRest hrest h hk) hkept
  | edit opening body closing rest ihBody ihRest =>
    simp only [Script.closed, Bool.and_eq_true, beq_iff_eq] at hclosed
    obtain ⟨⟨⟨-, hbody⟩, hclosing⟩, hrest⟩ := hclosed
    exact context_keptBlock hG hblocks (Or.inr hclosing) hst
      (fun _ _ _ h hk => ihBody hbody h hk) (fun _ _ h hk => ihRest hrest h hk) hkept
  | left opening body ih =>
    simp only [Script.closed, Bool.and_eq_true] at hclosed
    simp only [Script.kept, Bool.and_eq_true] at hkept
    exact ih hclosed.2 (Judge.context_of_stays hst hkept.1) hkept.2

/-- The section right after some commands of a push, the others following. -/
def Judge.sectionAfter (J : Judge) (G : Grammar) (pre post : List Str) : Option Path :=
  (J.stateAfter 0 (pre.map (typedOf G)) (post.map (typedOf G)) State.init).context

/-- It is the section the run judges the next command in. -/
theorem findings_sectionAfter (J : Judge) {G : Grammar} (hflat : G.flat = false) (pre : List Str)
    (command : Str) (post : List Str) :
    ((J.findings (typed G (pre ++ command :: post)))[pre.length]?).map Prod.snd =
      some (J.sectionAfter G pre (command :: post)) := by
  have hlen : (pre.map (typedOf G)).length = pre.length := List.length_map _
  rw [typed_eq_map hflat, List.map_append, List.map_cons, Judge.findings, ← hlen,
    Judge.trace_getElem?_length]
  rfl

theorem exists_context_step (J : Judge) (i : Nat) (command : Typed) (next : Option (List Str))
    {st : State} {here : Path} (hst : st.context = some here) :
    ∃ there, (J.step i command next st).context = some there := by
  show ∃ there, (J.find i command next st).2 = some there
  have henter : ∀ line path, ∃ there, J.enter line path = some there := by
    intro line path
    unfold Judge.enter
    split
    · exact ⟨_, rfl⟩
    · cases path <;> exact ⟨_, rfl⟩
  unfold Judge.find
  split
  · exact ⟨here, hst⟩
  · split
    · unfold Judge.navigate
      split
      · exact ⟨here, hst⟩
      · split
        · exact ⟨_, rfl⟩
        · rw [hst]
          exact ⟨_, rfl⟩
    · split
      · exact ⟨here, hst⟩
      · unfold Judge.findSetting
        split
        · exact henter _ _
        · exact henter _ _
        · split
          · exact ⟨here, hst⟩
          · split
            · exact ⟨_, rfl⟩
            · exact ⟨here, hst⟩

/-- **The section is always known.** -/
theorem exists_context_stateAfter (J : Judge) (i : Nat) (commands post : List Typed) {st : State}
    {here : Path} (hst : st.context = some here) :
    ∃ there, (J.stateAfter i commands post st).context = some there := by
  induction commands generalizing i st here with
  | nil => exact ⟨here, hst⟩
  | cons command commands ih =>
    obtain ⟨there, hthere⟩ := exists_context_step J i command _ hst
    exact ih (i + 1) hthere

/-- **The section after a block is the section before it**, in every push whose
steps within the block keep it. -/
theorem sectionAfter_block {G : Grammar} (hG : G.IsFortiOS) (before after : Str)
    (again : Option Str) (replied : List Bool) (defaults : Option Str) (pre : List Str)
    (block : Script) (post : List Str) (hclosed : block.closed false = true)
    (hkept : block.kept (mkJudge G before after again replied defaults) G pre.length
      (post.map (typedOf G))
      ((mkJudge G before after again replied defaults).stateAfter 0 (pre.map (typedOf G))
        ((block.commands ++ post).map (typedOf G)) State.init) = true) :
    (mkJudge G before after again replied defaults).sectionAfter G (pre ++ block.commands) post =
      (mkJudge G before after again replied defaults).sectionAfter G pre
        (block.commands ++ post) := by
  have hblocks : (mkJudge G before after again replied defaults).blocks = true := hG.blocks
  obtain ⟨here, hhere⟩ := exists_context_stateAfter
    (mkJudge G before after again replied defaults) 0 (pre.map (typedOf G))
    ((block.commands ++ post).map (typedOf G)) (show State.init.context = some [] from rfl)
  unfold Judge.sectionAfter
  rw [hhere, List.map_append, Judge.stateAfter_append, List.length_map, Nat.zero_add,
    ← List.map_append]
  exact context_script hG hblocks block hclosed hhere hkept

end Kept

/-! ## A refused entry -/

/-- An address table with one entry, as FortiOS shows it. -/
def addressTable : Str :=
  "config firewall address
    edit a
        set comment x
    next
end
".toList

/-- An entry of the table, which the device refuses. -/
def refusedEntry : Script :=
  .edit "edit nr".toList (.plain "set comment y".toList .done) "next".toList .done

/-- **A refused entry leaves its table too**: it was never entered, and is left
all the same. -/
theorem sectionAfter_refusedEntry_ne :
    @Script.closed Unicode.ascii false refusedEntry = true ∧
      @Judge.sectionAfter Unicode.ascii
          (@mkJudge Unicode.ascii Grammar.fortinet addressTable addressTable none [] none)
          Grammar.fortinet (["config firewall address".toList] ++ refusedEntry.commands)
          ["edit a".toList] ≠
        @Judge.sectionAfter Unicode.ascii
          (@mkJudge Unicode.ascii Grammar.fortinet addressTable addressTable none [] none)
          Grammar.fortinet ["config firewall address".toList]
          (refusedEntry.commands ++ ["edit a".toList]) := by
  refine ⟨?_, ?_⟩ <;> decide +kernel

/-- An entry the table has, edited. -/
def knownEntry : Script :=
  .edit "edit a".toList (.plain "set comment x".toList .done) "next".toList .done

theorem sectionAfter_knownEntry :
    @Judge.sectionAfter Unicode.ascii
        (@mkJudge Unicode.ascii Grammar.fortinet addressTable addressTable none [] none)
        Grammar.fortinet (["config firewall address".toList] ++ knownEntry.commands)
        ["end".toList] =
      @Judge.sectionAfter Unicode.ascii
        (@mkJudge Unicode.ascii Grammar.fortinet addressTable addressTable none [] none)
        Grammar.fortinet ["config firewall address".toList]
        (knownEntry.commands ++ ["end".toList]) :=
  @sectionAfter_block Unicode.ascii Grammar.fortinet ⟨rfl, rfl, rfl, by decide⟩ addressTable
    addressTable none [] none ["config firewall address".toList] knownEntry ["end".toList]
    (by decide +kernel) (by decide +kernel)

end Evidence
end NetRollout
