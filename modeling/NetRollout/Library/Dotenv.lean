import NetRollout.Library.Dict
import NetRollout.Library.PyText

/-!
# Lines of single-quoted values

The file a `.env` reader reads, as far as its lines are `name='value'`.

Where a value ends is the grammar's to say.  With `quoted` a backslash goes with the `\` or `'`
after it, and an escaped value ends at its closing quote, whatever is in it (`quoted_escaped`).
With `looselyQuoted`, which is `'((?:\\'|[^'])*)'`, a value that ends in a backslash does not: its
last two characters are `\\`, and the second is taken to escape the quote that should close it.

`Dotenv` is a reader of such lines with a grammar, and `Dotenv.plain` one that reads nothing else.
-/

namespace NetRollout
namespace Dotenv

open PyText (Str)

/-! ## Quoting -/

/-- How far a value goes after its opening quote, and what follows: each backslash goes with the
`\` or `'` after it, and the first other quote closes the value. -/
def quoted : Str → Option (Str × Str)
  | [] => none
  | '\'' :: rest => some ([], rest)
  | '\\' :: '\\' :: rest => (quoted rest).map fun q => ('\\' :: '\\' :: q.1, q.2)
  | '\\' :: '\'' :: rest => (quoted rest).map fun q => ('\\' :: '\'' :: q.1, q.2)
  | '\\' :: _ => none
  | c :: rest => (quoted rest).map fun q => (c :: q.1, q.2)

/-- What `'((?:\\'|[^'])*)'` matches after its opening quote, and what follows: `\'` before any
other character, as much as there is, and less where no quote would close it. -/
def looselyQuoted : Str → Option (Str × Str)
  | [] => none
  | '\'' :: rest => some ([], rest)
  | '\\' :: '\'' :: rest =>
    match looselyQuoted rest with
    | some (raw, rest) => some ('\\' :: '\'' :: raw, rest)
    | none => some (['\\'], rest)
  | c :: rest => (looselyQuoted rest).map fun q => (c :: q.1, q.2)

/-- The value: `\\` and `\'` unescaped. -/
def unescaped : Str → Str
  | [] => []
  | '\\' :: '\\' :: rest => '\\' :: unescaped rest
  | '\\' :: '\'' :: rest => '\'' :: unescaped rest
  | c :: rest => c :: unescaped rest

/-- A character, a backslash before it if it is one or a quote. -/
def escapedChar (c : Char) : Str := if c = '\\' ∨ c = '\'' then ['\\', c] else [c]

/-- `\` and `'` escaped. -/
def escaped (value : Str) : Str := value.flatMap escapedChar

@[simp] theorem escaped_nil : escaped [] = [] := rfl

theorem escaped_cons (c : Char) (value : Str) :
    escaped (c :: value) = escapedChar c ++ escaped value := rfl

theorem unescaped_cons {c : Char} (h : c ≠ '\\') (rest : Str) :
    unescaped (c :: rest) = c :: unescaped rest := by
  rw [unescaped]
  · exact fun _ heq => absurd heq h
  · exact fun _ heq => absurd heq h

/-- Escaped and unescaped a value is what it was. -/
theorem unescaped_escaped (value : Str) : unescaped (escaped value) = value := by
  induction value with
  | nil => rfl
  | cons c value ih =>
    rw [escaped_cons]
    by_cases hbackslash : c = '\\'
    · subst hbackslash
      show '\\' :: unescaped (escaped value) = _
      rw [ih]
    · by_cases hquote : c = '\''
      · subst hquote
        show '\'' :: unescaped (escaped value) = _
        rw [ih]
      · rw [escapedChar, if_neg (by simp [hbackslash, hquote]), List.singleton_append,
          unescaped_cons hbackslash, ih]

theorem quoted_cons {c : Char} (hquote : c ≠ '\'') (hbackslash : c ≠ '\\') (rest : Str) :
    quoted (c :: rest) = (quoted rest).map fun q => (c :: q.1, q.2) := by
  rw [quoted]
  · exact fun heq => hquote heq
  · exact fun _ heq => absurd heq hbackslash
  · exact fun _ heq => absurd heq hbackslash
  · exact fun heq => hbackslash heq

/-- **A value ends at its closing quote.** -/
theorem quoted_escaped (value rest : Str) :
    quoted (escaped value ++ '\'' :: rest) = some (escaped value, rest) := by
  induction value with
  | nil => rfl
  | cons c value ih =>
    rw [escaped_cons, List.append_assoc, escapedChar]
    by_cases hbackslash : c = '\\'
    · subst hbackslash
      show quoted ('\\' :: '\\' :: (escaped value ++ '\'' :: rest)) = _
      rw [quoted, ih]
      rfl
    · by_cases hquote : c = '\''
      · subst hquote
        show quoted ('\\' :: '\'' :: (escaped value ++ '\'' :: rest)) = _
        rw [quoted, ih]
        rfl
      · rw [if_neg (by simp [hbackslash, hquote]), List.singleton_append,
          quoted_cons hquote hbackslash, ih]
        rfl

/-- What is escaped has the characters it had, and backslashes. -/
theorem mem_escaped {c : Char} {value : Str} (h : c ∈ escaped value) : c ∈ value ∨ c = '\\' := by
  obtain ⟨d, hd, hc⟩ := List.mem_flatMap.mp h
  rw [escapedChar] at hc
  split at hc
  · rcases List.mem_cons.mp hc with rfl | hc
    · exact .inr rfl
    · exact .inl (List.mem_singleton.mp hc ▸ hd)
  · exact .inl (List.mem_singleton.mp hc ▸ hd)

/-- There is less after a value. -/
def Shortens (scan : Str → Option (Str × Str)) : Prop :=
  ∀ s raw rest, scan s = some (raw, rest) → rest.length < s.length

theorem shortens_quoted : Shortens quoted := by
  intro s raw rest h
  fun_induction quoted s generalizing raw rest with
  | case1 => cases h
  | case2 =>
    cases h
    simp
  | case3 tail ih | case4 tail ih =>
    obtain ⟨q, hq, heq⟩ := Option.map_eq_some_iff.mp h
    cases heq
    have hlt := ih _ _ hq
    simp only [List.length_cons]
    omega
  | case5 => cases h
  | case6 c tail _ _ _ _ ih =>
    obtain ⟨q, hq, heq⟩ := Option.map_eq_some_iff.mp h
    cases heq
    have hlt := ih _ _ hq
    simp only [List.length_cons]
    omega

theorem shortens_looselyQuoted : Shortens looselyQuoted := by
  intro s raw rest h
  fun_induction looselyQuoted s generalizing raw rest with
  | case1 => cases h
  | case2 =>
    cases h
    simp
  | case3 tail raw' rest' hq ih =>
    cases h
    have hlt := ih _ _ hq
    simp only [List.length_cons]
    omega
  | case4 tail hq ih =>
    cases h
    simp only [List.length_cons]
    omega
  | case5 c tail hquote hescape ih =>
    obtain ⟨q, hq, heq⟩ := Option.map_eq_some_iff.mp h
    cases heq
    have hlt := ih _ _ hq
    simp only [List.length_cons]
    omega

/-! ## Lines -/

/-- A name a line begins with. -/
def isName (name : Str) : Bool :=
  !name.isEmpty && name.all fun c => !PyText.isSpace c && c != '=' && c != '#' && c != '\''

/-- What may stand after a value, up to the end of the line: blanks and a comment. -/
def endsWell (rest : Str) : Bool :=
  match rest.dropWhile PyText.isSpace with
  | [] => true
  | c :: _ => c == '#'

/-- The rest of a line, and the lines after it. -/
def restOfLine (text : Str) : Str := text.takeWhile (· ≠ '\n')

def nextLines (text : Str) : Str := (text.dropWhile (· ≠ '\n')).drop 1

/-- `name='value'`. -/
def line (name value : Str) : Str := name ++ '=' :: '\'' :: (escaped value ++ ['\'', '\n'])

end Dotenv

/-- A reader of `.env` files: the bindings of a text without carriage returns, in their order, a
line that cannot be read left out. -/
structure Dotenv (scan : PyText.Str → Option (PyText.Str × PyText.Str)) where
  bindings : PyText.Str → List (PyText.Str × Option PyText.Str)
  bindings_nil : bindings [] = []
  /-- A single-quoted value goes as far as the grammar says, its escapes undone; what follows on
  its line is a comment, or makes the line unreadable. -/
  bindings_quoted : ∀ {name body raw rest : PyText.Str}, Dotenv.isName name = true → '\r' ∉ body →
    scan body = some (raw, rest) → bindings (name ++ '=' :: '\'' :: body) =
      (if Dotenv.endsWell (Dotenv.restOfLine rest) then [(name, some (Dotenv.unescaped raw))]
        else []) ++ bindings (Dotenv.nextLines rest)

namespace Dotenv

open PyText (Str)

/-! ## A file of lines -/

/-- A file with a line for each item. -/
def file (items : List (Str × Str)) : Str := items.flatMap fun e => line e.1 e.2

/-- A name, and a value without carriage returns. -/
structure Readable (e : Str × Str) : Prop where
  name : isName e.1 = true
  carriage : '\r' ∉ e.2

instance (e : Str × Str) : Decidable (Readable e) :=
  decidable_of_iff (isName e.1 = true ∧ '\r' ∉ e.2)
    ⟨fun h => ⟨h.1, h.2⟩, fun h => ⟨h.name, h.carriage⟩⟩

theorem file_cons (e : Str × Str) (items : List (Str × Str)) :
    file (e :: items) = line e.1 e.2 ++ file items := rfl

theorem line_append (name value rest : Str) :
    line name value ++ rest = name ++ '=' :: '\'' :: (escaped value ++ '\'' :: '\n' :: rest) := by
  simp [line]

theorem notMem_of_isName {name : Str} (h : isName name = true) {c : Char}
    (hc : c = '\'' ∨ PyText.isSpace c = true) : c ∉ name := by
  rw [isName, Bool.and_eq_true, List.all_eq_true] at h
  intro hmem
  have hplain := h.2 c hmem
  rcases hc with rfl | hc
  · simp at hplain
  · simp [hc] at hplain

theorem Readable.notMem_line {e : Str × Str} (h : Readable e) : '\r' ∉ line e.1 e.2 := by
  intro hmem
  have hname : '\r' ∉ e.1 := notMem_of_isName h.name (.inr rfl)
  rcases List.mem_append.mp hmem with hmem | hmem
  · exact hname hmem
  · simp only [List.mem_cons, List.mem_append, List.not_mem_nil, Char.reduceEq, or_false,
      false_or] at hmem
    rcases mem_escaped hmem with hmem | hmem
    · exact h.carriage hmem
    · cases hmem

theorem notMem_file {items : List (Str × Str)} (h : ∀ e ∈ items, Readable e) :
    '\r' ∉ file items := by
  intro hmem
  obtain ⟨e, he, hc⟩ := List.mem_flatMap.mp hmem
  exact (h e he).notMem_line hc

/-- The end of a line. -/
theorem nextLines_newline {s : Str} (h : '\n' ∉ s) (rest : Str) :
    nextLines (s ++ '\n' :: rest) = rest := by
  rw [nextLines, List.dropWhile_append_of_pos fun c hc => by
    rw [decide_eq_true_eq]
    rintro rfl
    exact h hc]
  simp

variable (dotenv : Dotenv quoted)

/-- A line is read as it was written. -/
theorem bindings_line {e : Str × Str} (h : Readable e) (rest : Str) (hrest : '\r' ∉ rest) :
    dotenv.bindings (line e.1 e.2 ++ rest) = (e.1, some e.2) :: dotenv.bindings rest := by
  have hbody : '\r' ∉ escaped e.2 ++ '\'' :: '\n' :: rest := by
    have hline := h.notMem_line
    rw [line, List.mem_append, not_or] at hline
    simp only [List.mem_append, List.mem_cons, not_or] at hline ⊢
    exact ⟨hline.2.2.2.1, by decide, by decide, hrest⟩
  rw [line_append, dotenv.bindings_quoted h.name hbody (quoted_escaped _ _), unescaped_escaped]
  have hend : restOfLine ('\n' :: rest) = [] := by simp [restOfLine]
  have hnext : nextLines ('\n' :: rest) = rest := nextLines_newline List.not_mem_nil rest
  rw [hend, hnext]
  rfl

/-- **A file is read as it was written.** -/
theorem bindings_file {items : List (Str × Str)} (h : ∀ e ∈ items, Readable e) :
    dotenv.bindings (file items) = items.map fun e => (e.1, some e.2) := by
  induction items with
  | nil => exact dotenv.bindings_nil
  | cons e items ih =>
    have hrest := fun a ha => h a (List.mem_cons_of_mem e ha)
    rw [file_cons, bindings_line dotenv (h e List.mem_cons_self) _ (notMem_file hrest), ih hrest]
    rfl

/-! ## A reader -/

section Plain

variable (scan : Str → Option (Str × Str))

/-- The lines `name='value'`, one after the other; other lines are passed over. -/
def read : ℕ → Str → List (Str × Option Str)
  | 0, _ => []
  | n + 1, text =>
    match text.dropWhile (· ≠ '=') with
    | '=' :: '\'' :: body =>
      match scan body with
      | some (raw, rest) =>
        (if isName (text.takeWhile (· ≠ '=')) && endsWell (restOfLine rest) then
          [(text.takeWhile (· ≠ '='), some (unescaped raw))] else []) ++ read n (nextLines rest)
      | none => read n (nextLines body)
    | _ => read n (nextLines text)

theorem length_nextLines_le (s : Str) : (nextLines s).length ≤ s.length := by
  have hdrop := (List.dropWhile_suffix (l := s) (· ≠ '\n')).length_le
  rw [nextLines, List.length_drop]
  omega

theorem length_nextLines_lt {s : Str} (h : s ≠ []) : (nextLines s).length < s.length := by
  have hdrop := (List.dropWhile_suffix (l := s) (· ≠ '\n')).length_le
  have hpos := List.length_pos_of_ne_nil h
  rw [nextLines, List.length_drop]
  omega

theorem read_nil (n : ℕ) : read scan n [] = [] := by
  induction n with
  | zero => rfl
  | succ n ih => exact ih

variable {scan}

/-- A text has no more lines than characters. -/
theorem read_eq (hscan : Shortens scan) {n m : ℕ} {text : Str} (hn : text.length ≤ n)
    (hm : text.length ≤ m) : read scan n text = read scan m text := by
  induction n generalizing m text with
  | zero =>
    obtain rfl := List.length_eq_zero_iff.mp (Nat.le_zero.mp hn)
    rw [read_nil, read_nil]
  | succ n ih =>
    cases m with
    | zero =>
      obtain rfl := List.length_eq_zero_iff.mp (Nat.le_zero.mp hm)
      rw [read_nil, read_nil]
    | succ m =>
      by_cases htext : text = []
      · rw [htext, read_nil, read_nil]
      have hshort := length_nextLines_lt htext
      rw [read, read]
      split
      · next body hbody =>
        have hle := (List.dropWhile_suffix (l := text) (· ≠ '=')).length_le
        rw [hbody, List.length_cons, List.length_cons] at hle
        split
        · next raw rest hquoted =>
          have hlt := hscan _ _ _ hquoted
          have hnext := length_nextLines_le rest
          rw [ih (m := m) (by omega) (by omega)]
        · have hnext := length_nextLines_le body
          exact ih (by omega) (by omega)
      · exact ih (by omega) (by omega)

/-- A reader of `name='value'` and nothing else. -/
def plain (hscan : Shortens scan) : Dotenv scan where
  bindings text := read scan text.length text
  bindings_nil := rfl
  bindings_quoted {name body raw rest} hname _ hquoted := by
    have hplain : ∀ c ∈ name, (c ≠ '=' : Bool) = true := by
      intro c hc
      rw [isName, Bool.and_eq_true, List.all_eq_true] at hname
      have hall := hname.2 c hc
      simp only [Bool.and_eq_true, bne_iff_ne] at hall
      simpa using hall.1.1.2
    have hdrop : (name ++ '=' :: '\'' :: body).dropWhile (· ≠ '=') = '=' :: '\'' :: body := by
      rw [List.dropWhile_append_of_pos hplain]
      simp
    have htake : (name ++ '=' :: '\'' :: body).takeWhile (· ≠ '=') = name := by
      rw [List.takeWhile_append_of_pos hplain]
      simp
    have hlt := hscan _ _ _ hquoted
    have hnext := length_nextLines_le rest
    have hlength : (name ++ '=' :: '\'' :: body).length = (name.length + body.length + 1) + 1 := by
      simp
      omega
    rw [hlength, read, hdrop]
    simp only [hquoted, htake, hname, Bool.true_and]
    rw [read_eq hscan (n := name.length + body.length + 1) (m := (nextLines rest).length) (by omega)
      (Nat.le_refl _)]

end Plain

end Dotenv
end NetRollout
