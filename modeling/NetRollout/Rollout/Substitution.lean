import Mathlib.Data.List.AList
import NetRollout.Library.PyText
import NetRollout.Library.Replace

/-!
# Variables in commands

What `src/rollout/engine.py` fills the `$$TOKEN$$`s of a command in with: `mapping_resolvable`,
`missing_value`, and `Device`'s `value_for`, `unresolved` and `commands_for`.

A command is read by the pattern `TOKEN_IN_COMMAND` into its tokens and the characters between
them (`scan`), and filled in by replacing the mapped tokens one after the other, in the
mapping's order (`fill`).
-/

namespace NetRollout
namespace Rollout

open PyText (Str)

/-! ## Tokens -/

/-- `[A-Za-z0-9_]`. -/
def isWord (c : Char) : Bool :=
  c.isAlphanum || c == '_'

/-- What stands between the marks of a `$$TOKEN$$`. -/
structure Token where
  inner : Str
  word : ∀ c ∈ inner, isWord c = true
  short : 1 ≤ inner.length ∧ inner.length ≤ 64
  deriving DecidableEq

/-- `$$`. -/
def marks : Str := ['$', '$']

def Token.text (t : Token) : Str :=
  marks ++ (t.inner ++ marks)

/-- `TOKEN_IN_COMMAND` at the head of a text.  A `$` ends the letters, so they are the whole
run of letters. -/
def tokenAt (s : Str) : Option Token :=
  let inner := (s.drop 2).takeWhile isWord
  if h : 1 ≤ inner.length ∧ inner.length ≤ 64 then
    if marks <+: s ∧ marks <+: (s.drop 2).dropWhile isWord then
      some ⟨inner, fun _ hc => List.mem_takeWhile_imp hc, h⟩
    else none
  else none

/-- A command as the pattern reads it, with `n` characters of a token still to be passed
over: its tokens, left to right and not overlapping, and the characters between them. -/
def scanFrom : Nat → Str → List (Char ⊕ Token)
  | _, [] => []
  | n + 1, _ :: s => scanFrom n s
  | 0, c :: s =>
    match tokenAt (c :: s) with
    | some t => .inr t :: scanFrom (t.text.length - 1) s
    | none => .inl c :: scanFrom 0 s

def scan (command : Str) : List (Char ⊕ Token) := scanFrom 0 command

/-- `TOKEN_IN_COMMAND.findall`. -/
def findall (command : Str) : List Token :=
  (scan command).filterMap Sum.getRight?

theorem isWord_marks {c : Char} (h : isWord c = true) : c ≠ '$' := by
  rintro rfl
  exact absurd h (by decide)

namespace Token

variable {t u : Token} {s : Str}

theorem inner_ne_nil (t : Token) : t.inner ≠ [] :=
  List.length_pos_iff.mp t.short.1

theorem text_ne_nil (t : Token) : t.text ≠ [] := List.cons_ne_nil _ _

theorem length_text (t : Token) : t.text.length = t.inner.length + 4 := by
  simp [text, marks]

/-- The letters of a token are the whole run of letters. -/
theorem takeWhile_inner (t : Token) (s : Str) :
    (t.inner ++ (marks ++ s)).takeWhile isWord = t.inner ∧
      (t.inner ++ (marks ++ s)).dropWhile isWord = marks ++ s := by
  constructor
  · rw [List.takeWhile_append_of_pos t.word]
    exact List.append_nil _
  · rw [List.dropWhile_append_of_pos t.word]
    rfl

end Token

theorem tokenAt_eq_some {s : Str} {t : Token} : tokenAt s = some t ↔ t.text <+: s := by
  constructor
  · intro h
    simp only [tokenAt] at h
    split at h
    · split at h
      · rename_i hshort hmarks
        obtain ⟨⟨rest, rfl⟩, hend⟩ := hmarks
        obtain rfl := Option.some.inj h
        obtain ⟨tail, htail⟩ := hend
        refine ⟨tail, ?_⟩
        have hsplit := List.takeWhile_append_dropWhile (p := isWord) (l := rest)
        show marks ++ (rest.takeWhile isWord ++ marks) ++ tail = marks ++ rest
        rw [List.append_assoc, List.append_assoc, htail]
        exact congrArg _ hsplit
      · cases h
    · cases h
  · rintro ⟨rest, rfl⟩
    obtain ⟨htake, hdrop⟩ := t.takeWhile_inner rest
    have hbody : (t.text ++ rest).drop 2 = t.inner ++ (marks ++ rest) := by
      show (t.inner ++ marks) ++ rest = _
      exact List.append_assoc _ _ _
    have hmarks : marks <+: t.text ++ rest :=
      ⟨t.inner ++ marks ++ rest, (List.append_assoc _ _ _).symm⟩
    simp only [tokenAt, hbody, htake, hdrop]
    rw [dif_pos t.short, if_pos ⟨hmarks, List.prefix_append _ _⟩]

theorem scanFrom_eq (n : Nat) (s : Str) : scanFrom n s = scan (s.drop n) := by
  induction s generalizing n with
  | nil => cases n <;> rfl
  | cons c s ih =>
    cases n with
    | zero => rfl
    | succ n => exact ih n

theorem scan_cons {c : Char} {s : Str} (h : tokenAt (c :: s) = none) :
    scan (c :: s) = .inl c :: scan s := by
  show scanFrom 0 (c :: s) = _
  rw [scanFrom, h]
  rfl

theorem scan_text (t : Token) (s : Str) : scan (t.text ++ s) = .inr t :: scan s := by
  obtain ⟨c, tail, htail⟩ := List.exists_cons_of_ne_nil t.text_ne_nil
  have h : tokenAt (c :: (tail ++ s)) = some t :=
    tokenAt_eq_some.mpr ⟨s, by rw [htail]; rfl⟩
  have hcut : (tail ++ s).drop (t.text.length - 1) = s := by
    rw [htail, List.length_cons, Nat.add_sub_cancel, List.drop_left]
  rw [htail]
  show scanFrom 0 (c :: (tail ++ s)) = _
  rw [scanFrom, h]
  show .inr t :: scanFrom (t.text.length - 1) (tail ++ s) = _
  rw [scanFrom_eq, hcut]

/-- A command is its pieces. -/
theorem flatMap_scan (s : Str) : (scan s).flatMap (Sum.elim (fun c => [c]) Token.text) = s := by
  induction hn : s.length using Nat.strong_induction_on generalizing s with
  | _ n ih =>
    subst hn
    cases s with
    | nil => rfl
    | cons c s =>
      cases h : tokenAt (c :: s) with
      | none =>
        rw [scan_cons h, List.flatMap_cons, ih s.length (Nat.lt_succ_self _) s rfl]
        rfl
      | some t =>
        obtain ⟨rest, hrest⟩ := tokenAt_eq_some.mp h
        rw [← hrest, scan_text, List.flatMap_cons, ih rest.length ?_ rest rfl]
        · rfl
        · rw [← hrest, List.length_append, t.length_text]
          omega

/-! ## Values -/

/-- `str.isprintable()` of one character. -/
class Printable where
  isprintable : Char → Bool
  isprintable_ascii : ∀ c : Char, c.toNat < 128 →
    isprintable c = decide (32 ≤ c.toNat ∧ c.toNat < 127)

/-- The ASCII characters that are printable. -/
@[reducible] def Printable.ascii : Printable where
  isprintable c := decide (32 ≤ c.toNat ∧ c.toNat < 127)
  isprintable_ascii _ _ := rfl

/-- `n` in hexadecimal, in `width` digits. -/
def hex (width n : Nat) : Str :=
  let digits := Nat.toDigits 16 n
  List.replicate (width - digits.length) '0' ++ digits

/-- A character in a text that `repr()` writes between `quote`s. -/
def escape [Printable] (quote c : Char) : Str :=
  if c = quote ∨ c = '\\' then ['\\', c]
  else if c = '\t' then ['\\', 't']
  else if c = '\n' then ['\\', 'n']
  else if c = '\r' then ['\\', 'r']
  else if Printable.isprintable c then [c]
  else if c.toNat < 0x100 then '\\' :: 'x' :: hex 2 c.toNat
  else if c.toNat < 0x10000 then '\\' :: 'u' :: hex 4 c.toNat
  else '\\' :: 'U' :: hex 8 c.toNat

/-- `repr(s)` of a text. -/
def repr [Printable] (s : Str) : Str :=
  let quote := if '\'' ∈ s ∧ '"' ∉ s then '"' else '\''
  quote :: (s.flatMap (escape quote) ++ [quote])

/-- An attribute's value: a text, or a list of texts. -/
inductive Value where
  | text (s : Str)
  | list (items : List Str)
  deriving DecidableEq

namespace Value

/-- `not value`. -/
def isEmpty : Value → Bool
  | text s => s.isEmpty
  | list items => items.isEmpty

/-- `str(value)`. -/
def str [Printable] : Value → Str
  | text s => s
  | list items => '[' :: ([',', ' '].intercalate (items.map repr) ++ [']'])

end Value

/-- What a mapping reads: the attribute, and the position in it. -/
structure Place where
  property_name : Str
  index : Option Int
  deriving DecidableEq

/-- What may be raised while the commands are filled in. -/
inductive Raised where
  /-- `SubstitutionError`. -/
  | substitution (text : Str)
  | key (name : Str)
  | index
  deriving DecidableEq

/-- `xs[i]`, from the end where `i` is negative. -/
def item {α : Type} (xs : List α) (i : Int) : Except Raised α :=
  let position := if i < 0 then xs.length + i else i
  if 0 ≤ position then (xs[position.toNat]?).elim (.error .index) .ok else .error .index

/-- `mapping_resolvable`. -/
def mapping_resolvable (var_maps : AList fun _ : Str => Value) (place : Place) : Bool :=
  match var_maps.lookup place.property_name with
  | none => false
  | some value =>
    !value.isEmpty &&
      match place.index, value with
      | none, _ => true
      | some i, .list items => decide (0 ≤ i ∧ i < items.length)
      | some _, .text _ => false

/-- `missing_value`. -/
def missing_value (var_maps : AList fun _ : Str => Value) (place : Place) : Option Str :=
  if mapping_resolvable var_maps place then none
  else
    let where_ := place.property_name ++ match place.index with
      | none => []
      | some i => '[' :: (PyText.ofInt i ++ [']'])
    some ("no value for '".toList ++ (where_ ++ ['\'']))

/-- `extra[property_name]`, at the index when there is one. -/
def lookup (extra : AList fun _ : Str => Value) (place : Place) : Except Raised Value :=
  match extra.lookup place.property_name with
  | none => .error (.key place.property_name)
  | some value =>
    match place.index, value with
    | none, value => .ok value
    | some i, .list items => (item items i).map .text
    | some i, .text s => (item s i).map fun c => .text [c]

/-! ## A device -/

/-- What a device's commands are filled in from: its mappings, and the attribute values of the
person who rolls out. -/
structure Device where
  var_map_subs : AList fun _ : Token => Place
  extra : AList fun _ : Str => Value

namespace Device

variable [Printable] (d : Device)

/-- `value_for`; the text of a `SubstitutionError` otherwise. -/
def value_for (token : Token) : Except Raised Str :=
  match d.var_map_subs.lookup token with
  | none => .error (.substitution "no mapping on this device".toList)
  | some place =>
    match missing_value d.extra place with
    | some missing => .error (.substitution missing)
    | none => (lookup d.extra place).map fun value => PyText.strip value.str

/-- The lines of `unresolved` for the tokens found, those in `seen` done already. -/
def problemsOf : List Token → List Token → Except Raised (List Str)
  | _, [] => .ok []
  | seen, t :: ts =>
    if t ∈ seen then problemsOf seen ts
    else
      match d.value_for t with
      | .ok _ => problemsOf (t :: seen) ts
      | .error (.substitution why) =>
        (problemsOf (t :: seen) ts).map ((t.text ++ (": ".toList ++ why)) :: ·)
      | .error other => .error other

/-- `unresolved`. -/
def unresolved (commands : List Str) : Except Raised (List Str) :=
  d.problemsOf [] (commands.flatMap findall)

/-- The loop of `commands_for` over the mapping.  `char` reads a letter of the commands, and
`put` is what a token's value stands as. -/
def fill {α : Type} (char : α → Char) (put : Token → Str → List α) :
    List (Σ _ : Token, Place) → List (List α) → Except Raised (List (List α))
  | [], commands => .ok commands
  | ⟨token, place⟩ :: rest, commands =>
    if commands.any (Replace.contains char token.text) then do
      let value ← lookup d.extra place
      fill char put rest
        (commands.map (Replace.replace char token.text (put token (PyText.strip value.str))))
    else fill char put rest commands

/-- `commands_for`. -/
def commands_for (commands : List Str) : Except Raised (List Str) := do
  let problems ← d.unresolved commands
  if problems = [] then d.fill id (fun _ value => value) d.var_map_subs.entries commands
  else .error (.substitution ([';', ' '].intercalate problems))

end Device

end Rollout
end NetRollout
