import Mathlib.Data.List.Basic
import Mathlib.Data.List.DropRight
import Mathlib.Data.List.Infix
import Mathlib.Data.List.TakeWhile

/-!
# Text as Python sees it

A `str` is the list of its characters.  This file gives the string methods a
line-oriented program uses --- `isspace`, `split`, `join`, `strip`, `lstrip`,
`splitlines` --- with the documented Unicode behaviour of the first three: the
white space and the line boundaries are the interpreter's own tables, which are
finite and are listed here in full.

Case mapping is not a finite table one would want to list: `str.lower()` maps
some fourteen hundred characters, one of them to two, and the capital sigma by
its neighbours.  `Unicode` is the part of the interpreter's character database a
program can depend on without spelling that table: a lower-casing function
together with the facts that make it one.  `Unicode.ascii` is the database of a
text that stays within ASCII.
-/

namespace NetRollout
namespace PyText

/-- A Python `str`. -/
abbrev Str := List Char

instance lawfulBEqStr : LawfulBEq Str := inferInstance

/-- The characters `str.isspace()` accepts; `str.split()` and the pattern `\s`
use the same set. -/
def isSpace (c : Char) : Bool :=
  let n := c.toNat
  (9 ≤ n && n ≤ 13) || (0x1c ≤ n && n ≤ 0x20) || n == 0x85 || n == 0xa0 || n == 0x1680 ||
    (0x2000 ≤ n && n ≤ 0x200a) || n == 0x2028 || n == 0x2029 || n == 0x202f || n == 0x205f ||
    n == 0x3000

/-- The characters `str.splitlines()` ends a row at. -/
def isLineBreak (c : Char) : Bool :=
  let n := c.toNat
  (10 ≤ n && n ≤ 13) || (0x1c ≤ n && n ≤ 0x1e) || n == 0x85 || n == 0x2028 || n == 0x2029

/-! ## Splitting into fields -/

/-- The maximal runs of characters `p` does not hold of: `str.split()` for
`isSpace`, `[w for w in re.split("[p]+", s) if w]` for any class of characters. -/
def fields (p : Char → Bool) (s : Str) : List Str :=
  (s.splitOnP p).filter fun w => !w.isEmpty

@[simp] theorem fields_nil (p : Char → Bool) : fields p [] = [] := rfl

/-- A separator ends a field. -/
theorem fields_append_cons (p : Char → Bool) (a b : Str) {c : Char} (hc : p c = true) :
    fields p (a ++ c :: b) = fields p a ++ fields p b := by
  rw [fields, List.splitOnP_append_cons a b hc, List.filter_append]
  rfl

/-- A text without separators is one field, or none when it is empty. -/
theorem fields_eq_singleton {p : Char → Bool} {s : Str} (h : ∀ c ∈ s, p c = false)
    (hs : s ≠ []) : fields p s = [s] := by
  rw [fields, List.splitOnP_eq_singleton h]
  simp [hs]

theorem ne_nil_of_mem_fields {p : Char → Bool} {s w : Str} (h : w ∈ fields p s) : w ≠ [] := by
  rw [fields, List.mem_filter] at h
  simpa using h.2

/-- The first field and what follows it, or no field at all. -/
theorem fields_eq_cons_or_nil (p : Char → Bool) (s : Str) :
    (∀ c ∈ s, p c = false) ∨
      ∃ a c b, (∀ x ∈ a, p x = false) ∧ p c = true ∧ s = a ++ c :: b := by
  induction s with
  | nil => exact Or.inl (by simp)
  | cons x s ih =>
    cases hx : p x with
    | true => exact Or.inr ⟨[], x, s, by simp, hx, rfl⟩
    | false =>
      rcases ih with h | ⟨a, c, b, ha, hc, rfl⟩
      · refine Or.inl fun c hc => ?_
        rcases List.mem_cons.mp hc with rfl | hc
        · exact hx
        · exact h c hc
      · refine Or.inr ⟨x :: a, c, b, fun y hy => ?_, hc, rfl⟩
        rcases List.mem_cons.mp hy with rfl | hy
        · exact hx
        · exact ha y hy

/-- Every character of a field is a character of the text, and no separator. -/
theorem of_mem_fields {p : Char → Bool} (s : Str) :
    ∀ w ∈ fields p s, ∀ c ∈ w, c ∈ s ∧ p c = false := by
  induction hn : s.length using Nat.strong_induction_on generalizing s with
  | _ n ih =>
    intro w hw c hc
    rcases fields_eq_cons_or_nil p s with h | ⟨a, d, b, ha, hd, rfl⟩
    · by_cases hs : s = []
      · rw [hs, fields_nil] at hw
        exact absurd hw (by simp)
      · rw [fields_eq_singleton h hs, List.mem_singleton] at hw
        exact ⟨hw ▸ hc, h c (hw ▸ hc)⟩
    · rw [fields_append_cons p a b hd, List.mem_append] at hw
      rcases hw with hw | hw
      · by_cases has : a = []
        · rw [has, fields_nil] at hw
          exact absurd hw (by simp)
        · rw [fields_eq_singleton ha has, List.mem_singleton] at hw
          exact ⟨by rw [hw] at hc; simp [hc], ha c (hw ▸ hc)⟩
      · have hlen : b.length < n := by rw [← hn]; simp; omega
        obtain ⟨hmem, hp⟩ := ih b.length hlen b rfl w hw c hc
        exact ⟨by simp [hmem], hp⟩

/-- `" ".join(ws)`. -/
def joinSpace (ws : List Str) : Str := [' '].intercalate ws

@[simp] theorem joinSpace_nil : joinSpace [] = [] := rfl

@[simp] theorem joinSpace_singleton (w : Str) : joinSpace [w] = w := by
  simp [joinSpace, List.intercalate]

theorem joinSpace_cons_cons (w v : Str) (ws : List Str) :
    joinSpace (w :: v :: ws) = w ++ ' ' :: joinSpace (v :: ws) := by
  simp [joinSpace, List.intercalate, List.intersperse]

/-- Joining fields with blanks and splitting again gives the fields back. -/
theorem fields_joinSpace {p : Char → Bool} (hp : p ' ' = true) {ws : List Str}
    (h : ∀ w ∈ ws, w ≠ [] ∧ ∀ c ∈ w, p c = false) : fields p (joinSpace ws) = ws := by
  induction ws with
  | nil => rfl
  | cons w ws ih =>
    obtain ⟨hw, hc⟩ := h w (List.mem_cons_self ..)
    cases ws with
    | nil => rw [joinSpace_singleton, fields_eq_singleton hc hw]
    | cons v ws =>
      rw [joinSpace_cons_cons, fields_append_cons p _ _ hp, fields_eq_singleton hc hw,
        ih fun u hu => h u (List.mem_cons_of_mem _ hu)]
      rfl

theorem mem_intercalate {sep c : Char} {ws : List Str} (h : c ∈ [sep].intercalate ws) :
    c = sep ∨ ∃ w ∈ ws, c ∈ w := by
  induction ws with
  | nil => simp [List.intercalate] at h
  | cons w ws ih =>
    cases ws with
    | nil => exact Or.inr ⟨w, by simp, by simpa [List.intercalate] using h⟩
    | cons v ws =>
      have hcons : [sep].intercalate (w :: v :: ws) = w ++ sep :: [sep].intercalate (v :: ws) := by
        simp [List.intercalate, List.intersperse]
      rw [hcons, List.mem_append, List.mem_cons] at h
      rcases h with h | h | h
      · exact Or.inr ⟨w, by simp, h⟩
      · exact Or.inl h
      · rcases ih h with h | ⟨u, hu, hc⟩
        · exact Or.inl h
        · exact Or.inr ⟨u, List.mem_cons_of_mem _ hu, hc⟩

theorem mem_joinSpace {ws : List Str} {c : Char} (h : c ∈ joinSpace ws) :
    c = ' ' ∨ ∃ w ∈ ws, c ∈ w :=
  mem_intercalate h

/-! ## Stripping and rows -/

/-- `str.lstrip()`. -/
def lstrip (s : Str) : Str := s.dropWhile isSpace

/-- `str.strip()`. -/
def strip (s : Str) : Str := (lstrip s).rdropWhile isSpace

/-- `str.splitlines()`: a row for each line boundary, `"\r\n"` being one. -/
def splitlines : Str → List Str
  | [] => []
  | '\r' :: '\n' :: s => [] :: splitlines s
  | c :: s =>
    if isLineBreak c then [] :: splitlines s
    else
      match splitlines s with
      | [] => [[c]]
      | row :: rows => (c :: row) :: rows

/-- A row ended by a line feed is the first row. -/
theorem splitlines_append_newline {row : Str} (h : ∀ c ∈ row, isLineBreak c = false) (s : Str) :
    splitlines (row ++ '\n' :: s) = row :: splitlines s := by
  induction row with
  | nil => simp [splitlines, isLineBreak]
  | cons c row ih =>
    have hc : isLineBreak c = false := h c (List.mem_cons_self ..)
    have hne : c ≠ '\r' := by
      rintro rfl
      exact absurd hc (by decide)
    have hrow := ih fun x hx => h x (List.mem_cons_of_mem _ hx)
    rw [List.cons_append, splitlines.eq_3 _ _ (fun _ h _ => hne h), hrow]
    simp [hc]

theorem splitlines_cons {c : Char} {s : Str} (h : c = '\r' → ∀ t, s ≠ '\n' :: t) :
    splitlines (c :: s) =
      if isLineBreak c then [] :: splitlines s
      else
        match splitlines s with
        | [] => [[c]]
        | row :: rows => (c :: row) :: rows :=
  splitlines.eq_3 c s fun t hc hs => h hc t hs

theorem splitlines_ne_nil {s : Str} (h : s ≠ []) : splitlines s ≠ [] := by
  intro hnil
  unfold splitlines at hnil
  split at hnil
  · exact h rfl
  · exact absurd hnil (by simp)
  · split at hnil
    · exact absurd hnil (by simp)
    · split at hnil <;> exact absurd hnil (by simp)

/-- A text ended by a line feed, and more text: the rows of the two. -/
theorem splitlines_append (a b : Str) :
    splitlines (a ++ '\n' :: b) = splitlines (a ++ ['\n']) ++ splitlines b := by
  induction hn : a.length using Nat.strong_induction_on generalizing a with
  | _ n ih =>
    cases a with
    | nil => simp [splitlines, isLineBreak]
    | cons c rest =>
      have hrest := ih rest.length (by rw [← hn]; simp) rest rfl
      by_cases hpair : c = '\r' ∧ (rest = [] ∨ ∃ t, rest = '\n' :: t)
      · obtain ⟨rfl, rfl | ⟨t, rfl⟩⟩ := hpair
        · simp [splitlines]
        · have ht := ih t.length (by rw [← hn]; simp only [List.length_cons]; omega) t rfl
          show [] :: splitlines (t ++ '\n' :: b) = [] :: splitlines (t ++ ['\n']) ++ splitlines b
          rw [ht]
          rfl
      · have hc : ∀ b, c = '\r' → ∀ t, rest ++ '\n' :: b ≠ '\n' :: t := by
          rintro b rfl t heq
          refine hpair ⟨rfl, ?_⟩
          cases rest with
          | nil => exact Or.inl rfl
          | cons d rest => exact Or.inr ⟨rest, by rw [(List.cons.inj heq).1]⟩
        rw [List.cons_append, List.cons_append, splitlines_cons (hc b), splitlines_cons (hc []),
          hrest]
        split
        · rfl
        · obtain ⟨row, rows, hrows⟩ :=
            List.exists_cons_of_ne_nil (splitlines_ne_nil (List.append_ne_nil_of_right_ne_nil rest
              (List.cons_ne_nil '\n' [])))
          rw [hrows]
          rfl

/-- No row holds a line boundary. -/
theorem of_mem_splitlines {s row : Str} (h : row ∈ splitlines s) :
    ∀ c ∈ row, isLineBreak c = false := by
  induction hn : s.length using Nat.strong_induction_on generalizing s row with
  | _ n ih =>
    have hnone : ∀ c ∈ ([] : Str), isLineBreak c = false := fun c hc => absurd hc List.not_mem_nil
    unfold splitlines at h
    split at h
    · exact absurd h List.not_mem_nil
    · next s =>
      rcases List.mem_cons.mp h with rfl | h
      · exact hnone
      · exact ih s.length (by rw [← hn]; simp only [List.length_cons]; omega) h rfl
    · next c s _ =>
      have hlt : s.length < n := by rw [← hn, List.length_cons]; omega
      split at h
      · rcases List.mem_cons.mp h with rfl | h
        · exact hnone
        · exact ih s.length hlt h rfl
      · next hc =>
        rw [Bool.not_eq_true] at hc
        split at h
        · rw [List.mem_singleton] at h
          subst h
          exact fun d hd => List.mem_singleton.mp hd ▸ hc
        · next first rows hrows =>
          have hmem : ∀ r ∈ first :: rows, r ∈ splitlines s := fun r hr => hrows ▸ hr
          rcases List.mem_cons.mp h with rfl | h
          · intro d hd
            rcases List.mem_cons.mp hd with rfl | hd
            · exact hc
            · exact ih s.length hlt (hmem first (List.mem_cons_self ..)) rfl d hd
          · exact ih s.length hlt (hmem row (List.mem_cons_of_mem _ h)) rfl

/-- Stripping takes characters away, and adds none. -/
theorem mem_of_mem_strip {s : Str} {c : Char} (h : c ∈ strip s) : c ∈ s :=
  (List.dropWhile_suffix isSpace).subset ((List.rdropWhile_prefix isSpace _).subset h)

/-- Stripping twice strips nothing more. -/
theorem strip_strip (s : Str) : strip (strip s) = strip s := by
  have hhead : lstrip (strip s) = strip s := by
    rw [lstrip, List.dropWhile_eq_self_iff]
    intro hl
    have hstart : strip s <+: lstrip s := List.rdropWhile_prefix isSpace _
    have hlen : 0 < (lstrip s).length := Nat.lt_of_lt_of_le hl hstart.length_le
    rw [hstart.getElem hl]
    exact List.dropWhile_eq_self_iff.mp (List.dropWhile_idempotent isSpace s) hlen
  rw [strip, hhead, strip, List.rdropWhile_idempotent]

/-- A text without white space is stripped. -/
theorem strip_of_plain {s : Str} (h : ∀ c ∈ s, isSpace c = false) : strip s = s := by
  have hhead : lstrip s = s := by
    rw [lstrip, List.dropWhile_eq_self_iff]
    intro hl
    rw [h _ (List.getElem_mem hl)]
    exact Bool.false_ne_true
  rw [strip, hhead, List.rdropWhile_eq_self_iff]
  intro hl
  rw [h _ (List.getLast_mem hl)]
  exact Bool.false_ne_true

/-- Rows as a text, each ended by a line feed. -/
def unlines : List Str → Str
  | [] => []
  | row :: rows => row ++ '\n' :: unlines rows

/-- The rows of a text made of rows. -/
theorem splitlines_unlines {rows : List Str} (h : ∀ row ∈ rows, ∀ c ∈ row, isLineBreak c = false) :
    splitlines (unlines rows) = rows := by
  induction rows with
  | nil => rfl
  | cons row rows ih =>
    rw [unlines, splitlines_append_newline (h row (List.mem_cons_self ..)),
      ih fun r hr => h r (List.mem_cons_of_mem _ hr)]

theorem splitlines_of_plain {row : Str} (hne : row ≠ []) (h : ∀ c ∈ row, isLineBreak c = false) :
    splitlines row = [row] := by
  induction row with
  | nil => exact absurd rfl hne
  | cons c row ih =>
    have hc : isLineBreak c = false := h c (List.mem_cons_self ..)
    have hreturn : c ≠ '\r' := by
      rintro rfl
      exact absurd hc (by decide)
    rw [splitlines_cons fun heq => absurd heq hreturn, hc]
    rcases row with _ | ⟨d, row⟩
    · rfl
    · rw [ih (List.cons_ne_nil d row) fun x hx => h x (List.mem_cons_of_mem _ hx)]
      rfl

/-- The rows of a text that joins rows, none of them empty. -/
theorem splitlines_intercalate {rows : List Str}
    (h : ∀ row ∈ rows, row ≠ [] ∧ ∀ c ∈ row, isLineBreak c = false) :
    splitlines (['\n'].intercalate rows) = rows := by
  induction rows with
  | nil => rfl
  | cons row rows ih =>
    obtain ⟨hne, hplain⟩ := h row (List.mem_cons_self ..)
    cases rows with
    | nil => simpa [List.intercalate] using splitlines_of_plain hne hplain
    | cons next rows =>
      have hcons : ['\n'].intercalate (row :: next :: rows) =
          row ++ '\n' :: ['\n'].intercalate (next :: rows) := by
        simp [List.intercalate, List.intersperse]
      rw [hcons, splitlines_append_newline hplain, ih fun r hr => h r (List.mem_cons_of_mem _ hr)]

/-! ## Whole numbers -/

/-- `str(n)`. -/
def ofInt (n : Int) : Str :=
  if n < 0 then '-' :: Nat.toDigits 10 n.natAbs else Nat.toDigits 10 n.natAbs

/-- What `int()` needs of the character database: the decimal digits of every script. -/
class Decimals where
  decimal : Char → Option Nat
  decimal_ascii : ∀ c : Char, c.toNat < 128 →
    decimal c = if c.isDigit then some (c.toNat - '0'.toNat) else none

/-- The digits of an ASCII text. -/
@[reducible] def Decimals.ascii : Decimals where
  decimal c := if c.isDigit then some (c.toNat - '0'.toNat) else none
  decimal_ascii _ _ := rfl

section Numbers

variable [Decimals]

/-- The digits after the first, an underscore between two of them. -/
def digitsFrom (n : Nat) : Str → Option Nat
  | [] => some n
  | '_' :: c :: s => (Decimals.decimal c).bind fun d => digitsFrom (10 * n + d) s
  | c :: s => (Decimals.decimal c).bind fun d => digitsFrom (10 * n + d) s

def digits : Str → Option Nat
  | [] => none
  | c :: s => (Decimals.decimal c).bind fun d => digitsFrom d s

/-- `int(s)`. -/
def toInt (s : Str) : Option Int :=
  match strip s with
  | '-' :: s => (digits s).map fun n : Nat => -(n : Int)
  | '+' :: s => (digits s).map fun n : Nat => (n : Int)
  | s => (digits s).map fun n : Nat => (n : Int)

theorem decimal_of_isDigit {c : Char} (h : c.isDigit = true) :
    Decimals.decimal c = some (c.toNat - '0'.toNat) := by
  have hascii : c.toNat < 128 := by
    simp only [Char.isDigit, Bool.and_eq_true, decide_eq_true_eq] at h
    have hle : c.val.toNat ≤ 57 := UInt32.le_iff_toNat_le.mp h.2
    show c.val.toNat < 128
    omega
  rw [Decimals.decimal_ascii c hascii, if_pos h]

theorem digitsFrom_of_isDigit {s : Str} (h : ∀ c ∈ s, c.isDigit = true) (n : Nat) :
    digitsFrom n s = some (Nat.ofDigitChars 10 s n) := by
  induction s generalizing n with
  | nil => rfl
  | cons c s ih =>
    have hc : c.isDigit = true := h c (List.mem_cons_self ..)
    have hunderscore : ∀ d t, c :: s = '_' :: d :: t → False := by
      rintro d t heq
      rw [(List.cons.inj heq).1] at hc
      exact absurd hc (by decide)
    rw [digitsFrom.eq_3 _ _ _ (fun d t hcd hs => hunderscore d t (by rw [hcd, hs])),
      decimal_of_isDigit hc, Option.bind_some, ih (fun d hd => h d (List.mem_cons_of_mem _ hd)),
      Nat.ofDigitChars_cons]

/-- Decimal digits of any script are a number. -/
theorem exists_digitsFrom {s : Str} (h : ∀ c ∈ s, (Decimals.decimal c).isSome = true) (n : Nat) :
    ∃ m, digitsFrom n s = some m := by
  induction s generalizing n with
  | nil => exact ⟨n, rfl⟩
  | cons c s ih =>
    obtain ⟨d, hd⟩ := Option.isSome_iff_exists.mp (h c (List.mem_cons_self ..))
    have hunderscore : ∀ e t, c = '_' → s = e :: t → False := by
      rintro e t rfl -
      rw [Decimals.decimal_ascii '_' (by decide)] at hd
      cases hd
    rw [digitsFrom.eq_3 _ _ _ hunderscore, hd, Option.bind_some]
    exact ih (fun e he => h e (List.mem_cons_of_mem _ he)) _

theorem exists_digits {s : Str} (hne : s ≠ [])
    (h : ∀ c ∈ s, (Decimals.decimal c).isSome = true) : ∃ n, digits s = some n := by
  obtain ⟨c, s, rfl⟩ := List.exists_cons_of_ne_nil hne
  obtain ⟨d, hd⟩ := Option.isSome_iff_exists.mp (h c (List.mem_cons_self ..))
  rw [digits, hd, Option.bind_some]
  exact exists_digitsFrom (fun e he => h e (List.mem_cons_of_mem _ he)) d

theorem digits_toDigits (n : Nat) : digits (Nat.toDigits 10 n) = some n := by
  have hdigit : ∀ c ∈ Nat.toDigits 10 n, c.isDigit = true := fun c hc =>
    Nat.isDigit_of_mem_toDigits (by decide) (by decide) hc
  have hvalue : Nat.ofDigitChars 10 (Nat.toDigits 10 n) 0 = n := Nat.ofDigitChars_ten_toDigits
  cases hs : Nat.toDigits 10 n with
  | nil => exact absurd hs Nat.toDigits_ne_nil
  | cons c s =>
    rw [hs] at hdigit hvalue
    rw [digits, decimal_of_isDigit (hdigit c (List.mem_cons_self ..)), Option.bind_some,
      digitsFrom_of_isDigit fun d hd => hdigit d (List.mem_cons_of_mem _ hd)]
    rw [Nat.ofDigitChars_cons, Nat.mul_zero, Nat.zero_add] at hvalue
    rw [hvalue]

omit [Decimals] in
theorem isSpace_of_isDigit {c : Char} (h : c.isDigit = true) : isSpace c = false := by
  simp only [Char.isDigit, Bool.and_eq_true, decide_eq_true_eq] at h
  have hlo : 48 ≤ c.val.toNat := UInt32.le_iff_toNat_le.mp h.1
  have hhi : c.val.toNat ≤ 57 := UInt32.le_iff_toNat_le.mp h.2
  have hn : c.toNat = c.val.toNat := rfl
  simp only [isSpace, Bool.or_eq_false_iff, Bool.and_eq_false_iff, decide_eq_false_iff_not,
    beq_eq_false_iff_ne]
  omega

omit [Decimals] in
/-- A number is written without white space. -/
theorem strip_ofInt (n : Int) : strip (ofInt n) = ofInt n := by
  have hdigit : ∀ c ∈ Nat.toDigits 10 n.natAbs, isSpace c = false := fun c hc =>
    isSpace_of_isDigit (Nat.isDigit_of_mem_toDigits (by decide) (by decide) hc)
  refine strip_of_plain fun c hc => ?_
  unfold ofInt at hc
  split at hc
  · rcases List.mem_cons.mp hc with rfl | hc
    · decide
    · exact hdigit c hc
  · exact hdigit c hc

/-- `int(str(n)) == n`. -/
theorem toInt_ofInt (n : Int) : toInt (ofInt n) = some n := by
  have hdigit : ∀ c s, Nat.toDigits 10 n.natAbs = c :: s → c.isDigit = true := fun c s heq =>
    Nat.isDigit_of_mem_toDigits (b := 10) (by decide) (by decide) (heq ▸ List.mem_cons_self ..)
  rw [toInt, strip_ofInt]
  by_cases hneg : n < 0
  · rw [ofInt, if_pos hneg]
    show (digits (Nat.toDigits 10 n.natAbs)).map (fun n : Nat => -(n : Int)) = some n
    rw [digits_toDigits, Option.map_some]
    congr 1
    omega
  · rw [ofInt, if_neg hneg]
    split
    · next heq => exact absurd (hdigit _ _ heq) (by decide)
    · next heq => exact absurd (hdigit _ _ heq) (by decide)
    · rw [digits_toDigits, Option.map_some]
      congr 1
      omega

end Numbers

/-! ## The character database -/

/-- What a program may rely on of the interpreter's character database:
`str.lower()` with the facts that hold of it, and `str.isdigit()`. -/
class Unicode where
  /-- `str.lower()`. -/
  lower : Str → Str
  /-- `str.isdigit()` of one character. -/
  isDigit : Char → Bool
  /-- Lower-casing twice changes nothing more. -/
  lower_lower : ∀ s, lower (lower s) = lower s
  /-- No character's case depends on what stands beyond a blank. -/
  lower_append_space : ∀ a b : Str, lower (a ++ ' ' :: b) = lower a ++ ' ' :: lower b
  /-- Neither white space nor a quote comes into being. -/
  lower_plain : ∀ s : Str, (∀ c ∈ s, isSpace c = false ∧ c ≠ '"') →
    ∀ c ∈ lower s, isSpace c = false ∧ c ≠ '"'
  /-- No text comes into being or vanishes. -/
  lower_eq_nil : ∀ s, lower s = [] ↔ s = []
  /-- The ASCII digits are the decimal ones. -/
  isDigit_ascii : ∀ c : Char, c.toNat < 128 → isDigit c = c.isDigit
  /-- An ASCII text without capitals is its own lower case. -/
  lower_ascii : ∀ s : Str, (∀ c ∈ s, c.toNat < 128 ∧ c.isUpper = false) → lower s = s

namespace Unicode

/-- Lower-casing a text of blank-separated words lower-cases each word. -/
theorem lower_joinSpace [Unicode] (ws : List Str) :
    lower (joinSpace ws) = joinSpace (ws.map lower) := by
  induction ws with
  | nil => exact (lower_eq_nil []).mpr rfl
  | cons w ws ih =>
    cases ws with
    | nil => rw [joinSpace_singleton, List.map_singleton, joinSpace_singleton]
    | cons v ws =>
      rw [joinSpace_cons_cons, lower_append_space, ih]
      exact (joinSpace_cons_cons _ _ _).symm

/-- The ASCII capitals are the characters 65 to 90. -/
theorem isUpper_iff (c : Char) : c.isUpper = true ↔ c.val ≥ 'A'.val ∧ c.val ≤ 'Z'.val :=
  decide_eq_true_iff

theorem toLower_of_isUpper_eq_false {c : Char} (h : c.isUpper = false) : c.toLower = c :=
  dif_neg fun hc => Bool.false_ne_true (h.symm.trans ((isUpper_iff c).mpr hc))

/-- The lower case of an ASCII capital lies 32 places further on. -/
theorem toNat_toLower_of_isUpper {c : Char} (h : c.isUpper = true) :
    65 ≤ c.toNat ∧ c.toNat ≤ 90 ∧ c.toLower.toNat = c.toNat + 32 := by
  have hv := (isUpper_iff c).mp h
  have hb : 65 ≤ c.toNat ∧ c.toNat ≤ 90 :=
    ⟨UInt32.le_iff_toNat_le.mp hv.1, UInt32.le_iff_toNat_le.mp hv.2⟩
  refine ⟨hb.1, hb.2, ?_⟩
  have hlower : c.toLower = ⟨c.val + ('a'.val - 'A'.val), _⟩ := dif_pos hv
  rw [hlower]
  change (c.val + ('a'.val - 'A'.val)).toNat = c.val.toNat + 32
  have hc : c.val.toNat ≤ 90 := hb.2
  have hd : ('a'.val - 'A'.val).toNat = 32 := by decide
  rw [UInt32.toNat_add]
  omega

theorem isUpper_toLower (c : Char) : c.toLower.isUpper = false := by
  by_cases h : c.isUpper = true
  · obtain ⟨hlo, -, hn⟩ := toNat_toLower_of_isUpper h
    have hgt : 90 < c.toLower.toNat := by omega
    exact Bool.eq_false_iff.mpr fun hup =>
      not_le.mpr hgt (UInt32.le_iff_toNat_le.mp ((isUpper_iff _).mp hup).2)
  · have hf : c.isUpper = false := by simpa using h
    rwa [toLower_of_isUpper_eq_false hf]

/-- Lower-casing within ASCII keeps the characters that are no white space and
no quote so: a capital's lower case is a letter. -/
theorem toLower_plain {c : Char} (h : isSpace c = false ∧ c ≠ '"') :
    isSpace c.toLower = false ∧ c.toLower ≠ '"' := by
  by_cases hc : c.isUpper = true
  · obtain ⟨hlo, hhi, hn⟩ := toNat_toLower_of_isUpper hc
    refine ⟨?_, fun hq => ?_⟩
    · simp only [isSpace, hn, Bool.or_eq_false_iff, Bool.and_eq_false_iff, decide_eq_false_iff_not,
        beq_eq_false_iff_ne]
      omega
    · have h34 : '"'.toNat = 34 := rfl
      rw [hq, h34] at hn
      omega
  · have hf : c.isUpper = false := by simpa using hc
    rwa [toLower_of_isUpper_eq_false hf]

/-- The character database of a text within ASCII. -/
@[reducible] def ascii : Unicode where
  lower s := s.map Char.toLower
  isDigit := Char.isDigit
  lower_lower s := by
    rw [List.map_map]
    exact List.map_congr_left fun c _ => toLower_of_isUpper_eq_false (isUpper_toLower c)
  lower_append_space a b := by
    rw [List.map_append, List.map_cons]
    rfl
  lower_plain s h c hc := by
    obtain ⟨d, hd, rfl⟩ := List.mem_map.mp hc
    exact toLower_plain (h d hd)
  lower_eq_nil s := List.map_eq_nil_iff
  isDigit_ascii _ _ := rfl
  lower_ascii s h := by
    conv_rhs => rw [← List.map_id s]
    exact List.map_congr_left fun c hc => toLower_of_isUpper_eq_false (h c hc).2

end Unicode
end PyText
end NetRollout
