import NetRollout.Evidence.Judge

/-!
# The edit path of a flat configuration

On Junos and PAN-OS `edit` moves down to a level, `exit` back to the level before it,
`top` to none, and a command on `top`'s line runs at the top.  `Typing.stack` is the
device's own account of that: the levels open after a command.

`_typed` keeps the same stack but for one command: `top edit P` is judged as a command
typed at the top, and the path stays where it was.  Its path after a push is the
device's path after the push without its `top edit` lines (`foldl_typedStack`), so the
relative commands are judged where the device ran them exactly when leaving those lines
out changes the path of none of them (`judgedInPlace_iff`).
-/

namespace NetRollout
namespace Evidence

open PyText

/-- The two commands a relative path extends. -/
inductive Verb where
  | set
  | delete
  deriving DecidableEq

def Verb.word : Verb → Str
  | set => "set".toList
  | delete => "delete".toList

/-- A command of a flat push, by its words. -/
inductive Typing where
  | edit (level : List Str)
  | exit
  | quit
  | top
  | topEdit (level : List Str)
  | topRun (verb : Verb) (rest : List Str)
  | run (verb : Verb) (rest : List Str)

namespace Typing

def words : Typing → List Str
  | edit level => "edit".toList :: level
  | exit => ["exit".toList]
  | quit => ["quit".toList]
  | top => ["top".toList]
  | topEdit level => "top".toList :: "edit".toList :: level
  | topRun verb rest => "top".toList :: verb.word :: rest
  | run verb rest => verb.word :: rest

/-- The levels open after a command. -/
def stack (levels : List (List Str)) : Typing → List (List Str)
  | edit level => levels ++ [level]
  | exit => levels.dropLast
  | quit => levels.dropLast
  | top => []
  | topEdit level => [level]
  | topRun _ _ => levels
  | run _ _ => levels

/-- The levels open after a push. -/
def stackAfter (typing : List Typing) : List (List Str) := typing.foldl stack []

/-- What the device runs of a command: a setting or a removal, in full. -/
def runs (levels : List (List Str)) : Typing → Option (List Str)
  | topRun verb rest => some (verb.word :: rest)
  | run verb rest => some (verb.word :: (levels.flatten ++ rest))
  | _ => none

def isTopEdit : Typing → Bool
  | topEdit _ => true
  | _ => false

/-- The push without its `top edit` lines. -/
def withoutTopEdit (typing : List Typing) : List Typing := typing.filter fun k => !k.isTopEdit

end Typing

/-- A flat grammar whose words do what they do on Junos. -/
structure Grammar.EditPath (G : Grammar) : Prop where
  flat : G.flat = true
  exit : "exit".toList ∈ G.navigation
  quit : "quit".toList ∈ G.navigation
  verbs : ∀ verb : Verb, verb.word ∉ G.navigation
  typed : ∀ word ∈ ["edit", "exit", "quit", "top", "set", "delete"], word.toList ∉ G.execWords

theorem Grammar.editPath_juniperJunos : Grammar.juniperJunos.EditPath where
  flat := rfl
  exit := by decide
  quit := by decide
  verbs verb := by cases verb <;> decide
  typed := by decide

section Judged

variable [Unicode] {G : Grammar}

/-- The path `_typed` keeps after a command. -/
def typedStack (levels : List (List Str)) (k : Typing) : List (List Str) :=
  if k.isTopEdit then levels else k.stack levels

/-- **One command as judged**: what the device runs of it, at the path kept so far. -/
theorem typedStep_typing (hG : G.EditPath) {command : Str} {k : Typing}
    (h : words command = k.words) (levels : List (List Str)) :
    (typedStep G (some levels) command).2 = some (typedStack levels k) ∧
      ∀ ws, k.runs levels = some ws → (typedStep G (some levels) command).1 =
        ⟨command, ws, false, false⟩ := by
  have hflat := hG.flat
  have hexit := hG.exit
  have hquit := hG.quit
  have hexec := hG.typed
  have hsetNav := hG.verbs .set
  have hdeleteNav := hG.verbs .delete
  simp only [List.mem_cons, List.not_mem_nil, or_false, forall_eq_or_imp, forall_eq, Verb.word,
    String.reduceToList] at hexec hexit hquit hsetNav hdeleteNav
  obtain ⟨hedit, hex, hqu, htop, hset, hdelete⟩ := hexec
  unfold typedStep
  rw [h]
  cases k with
  | edit level =>
    simp [Typing.words, Typing.runs, typedStack, Typing.isTopEdit, Typing.stack, hflat, hedit]
  | exit =>
    simp [Typing.words, Typing.runs, typedStack, Typing.isTopEdit, Typing.stack, hflat, hex, hexit,
      navigates]
  | quit =>
    simp [Typing.words, Typing.runs, typedStack, Typing.isTopEdit, Typing.stack, hflat, hqu, hquit,
      navigates]
  | top => simp [Typing.words, Typing.runs, typedStack, Typing.isTopEdit, Typing.stack, hflat, htop]
  | topEdit level => simp [Typing.words, Typing.runs, typedStack, Typing.isTopEdit, hflat, htop]
  | topRun verb rest =>
    simp [Typing.words, Typing.runs, typedStack, Typing.isTopEdit, Typing.stack, hflat, htop]
  | run verb rest =>
    cases verb with
    | set =>
      simp [Typing.words, Typing.runs, typedStack, Typing.isTopEdit, Typing.stack, Verb.word, hflat,
        hset, hsetNav, navigates]
    | delete =>
      simp [Typing.words, Typing.runs, typedStack, Typing.isTopEdit, Typing.stack, Verb.word, hflat,
        hdelete, hdeleteNav, navigates]

omit [Unicode] in
/-- **The path kept**: the device's, had the `top edit` lines not been typed. -/
theorem foldl_typedStack (typing : List Typing) :
    typing.foldl typedStack [] = Typing.stackAfter (Typing.withoutTopEdit typing) := by
  rw [Typing.stackAfter, Typing.withoutTopEdit, List.foldl_filter]
  congr 1
  funext levels k
  cases h : k.isTopEdit <;> simp [typedStack, h]

/-- Command by command: what runs at the path kept is what is judged. -/
theorem getElem?_typedFrom (hG : G.EditPath) {commands : List Str} {typing : List Typing}
    (h : List.Forall₂ (fun command k => words command = k.words) commands typing)
    {levels : List (List Str)} {i : Nat} {k : Typing} (hk : typing[i]? = some k) {ws : List Str}
    (hruns : k.runs ((typing.take i).foldl typedStack levels) = some ws) :
    ∃ command, (typedFrom G (some levels) commands)[i]? = some ⟨command, ws, false, false⟩ := by
  induction h generalizing levels i with
  | nil => cases hk
  | @cons command k₁ commands typing hwords _ ih =>
    obtain ⟨hstack, hjudged⟩ := typedStep_typing hG hwords levels
    cases i with
    | zero =>
      cases hk
      exact ⟨command, by rw [typedFrom, List.getElem?_cons_zero, hjudged ws hruns]⟩
    | succ i =>
      rw [typedFrom, hstack, List.getElem?_cons_succ]
      exact ih hk hruns

/-- Each setting and removal is judged as the words the device runs. -/
def JudgedInPlace (G : Grammar) (commands : List Str) (typing : List Typing) : Prop :=
  ∀ (i : Nat) (k : Typing) (ws : List Str), typing[i]? = some k →
    k.runs (Typing.stackAfter (typing.take i)) = some ws →
      ∃ command, (typed G commands)[i]? = some ⟨command, ws, false, false⟩

/-- **Where the commands of a flat push are judged**: each setting and removal at the
place the device runs it, if and only if every relative one would be typed at the same
path with the `top edit` lines before it left out. -/
theorem judgedInPlace_iff (hG : G.EditPath) {commands : List Str} {typing : List Typing}
    (h : List.Forall₂ (fun command k => words command = k.words) commands typing) :
    JudgedInPlace G commands typing ↔
      ∀ (i : Nat) (verb : Verb) (rest : List Str), typing[i]? = some (.run verb rest) →
        (Typing.stackAfter (Typing.withoutTopEdit (typing.take i))).flatten =
          (Typing.stackAfter (typing.take i)).flatten := by
  have hkept (i : Nat) (k : Typing) (ws : List Str) (hk : typing[i]? = some k)
      (hruns : k.runs (Typing.stackAfter (Typing.withoutTopEdit (typing.take i))) = some ws) :
      ∃ command, (typed G commands)[i]? = some ⟨command, ws, false, false⟩ :=
    getElem?_typedFrom hG h hk (by rw [foldl_typedStack]; exact hruns)
  constructor
  · intro hjudged i verb rest hk
    obtain ⟨command, hdevice⟩ := hjudged i _ _ hk rfl
    obtain ⟨command', hcode⟩ := hkept i _ _ hk rfl
    have hwords := congrArg Typed.words (Option.some.inj (hcode.symm.trans hdevice))
    exact List.append_cancel_right (List.cons.inj hwords).2
  · intro hsame i k ws hk hruns
    refine hkept i k ws hk ?_
    cases k with
    | run verb rest =>
      rw [← hruns, Typing.runs, Typing.runs, hsame i verb rest hk]
    | _ => exact hruns

end Judged

/-- A push that changes levels by `top edit`. -/
def hostNameCommands : List Str :=
  ["edit protocols ospf".toList, "top edit system".toList, "set host-name r1".toList]

def hostNameTyping : List Typing :=
  [.edit ["protocols".toList, "ospf".toList], .topEdit ["system".toList],
    .run .set ["host-name".toList, "r1".toList]]

/-- **A stale path**: the host name is looked for under `protocols ospf`. -/
theorem not_judgedInPlace_topEdit :
    List.Forall₂ (fun command k => @words Unicode.ascii command = k.words) hostNameCommands
        hostNameTyping ∧
      ¬ @JudgedInPlace Unicode.ascii Grammar.juniperJunos hostNameCommands hostNameTyping := by
  refine ⟨by decide, fun h => ?_⟩
  obtain ⟨command, hcommand⟩ := h 2 _ _ rfl rfl
  have hwords : (@typed Unicode.ascii Grammar.juniperJunos hostNameCommands)[2]?.map Typed.words =
      some ["set".toList, "system".toList, "host-name".toList, "r1".toList] := by
    rw [hcommand]
    rfl
  exact absurd hwords (by decide)

/-- The same host name, with `top` and `edit` on lines of their own. -/
theorem judgedInPlace_top :
    @JudgedInPlace Unicode.ascii Grammar.juniperJunos
      ["edit protocols ospf".toList, "top".toList, "edit system".toList,
        "set host-name r1".toList]
      [.edit ["protocols".toList, "ospf".toList], .top, .edit ["system".toList],
        .run .set ["host-name".toList, "r1".toList]] := by
  refine (@judgedInPlace_iff Unicode.ascii _ Grammar.editPath_juniperJunos _ _ (by decide)).mpr ?_
  intro i verb rest _
  rw [Typing.withoutTopEdit, List.filter_eq_self.mpr]
  intro k hk
  have hmem := List.mem_of_mem_take hk
  simp only [List.mem_cons, List.not_mem_nil, or_false] at hmem
  rcases hmem with rfl | rfl | rfl | rfl <;> rfl

end Evidence
end NetRollout
