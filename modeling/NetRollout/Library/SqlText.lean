import Mathlib.Data.List.Forall2
import NetRollout.Library.PyText

/-!
# SQL text

The tokens of a script of SQL, as `psql` and PostgreSQL read them: words, names in `"`, strings in
`'` (a quote in either doubled), a comment from `--` to the line's end, and a command of `psql`,
from `\` to the line's end.  Of the rest of SQL's tokens the script may have `;` and `=` only, and
a script with another is not read.

`Reads.quote` is that a text in quotes is read back as the text, whatever it holds.
-/

namespace NetRollout
namespace SqlText

open PyText (Str isSpace)

inductive Token where
  | word (w : Str)
  | name (s : Str)
  | string (s : Str)
  | symbol (c : Char)
  | command (line : Str)
  deriving DecidableEq

/-- A text in quotes, a quote in it doubled. -/
def quoted (q : Char) (s : Str) : Str :=
  q :: (s.flatMap fun c => if c = q then [q, q] else [c]) ++ [q]

theorem mem_quoted {q c : Char} {s : Str} (h : c ∈ quoted q s) : c = q ∨ c ∈ s := by
  rw [quoted, List.cons_append, List.mem_cons, List.mem_append, List.mem_flatMap,
    List.mem_singleton] at h
  rcases h with h | ⟨d, hd, h⟩ | h
  · exact .inl h
  · split at h
    · exact .inl (by simpa using h)
    · exact .inr (List.mem_singleton.mp h ▸ hd)
  · exact .inl h

/-! ## The reader -/

/-- What has been read of a token. -/
inductive Mode where
  | between
  | word (w : Str)
  | inside (q : Char) (s : Str)
  /-- After a quote that ends the text, unless another follows. -/
  | closing (q : Char) (s : Str)
  | dash
  | comment
  | command (line : Str)
  | failed
  deriving DecidableEq

def isWord (c : Char) : Bool := c.isAlphanum || c = '_'

/-- A text that was in quotes. -/
def ofQuoted (q : Char) (s : Str) : Token := if q = '"' then .name s else .string s

/-- The first character of a token. -/
def start (c : Char) : Mode × List Token :=
  if isSpace c then (.between, [])
  else if c = '"' ∨ c = '\'' then (.inside c [], [])
  else if c = '-' then (.dash, [])
  else if c = '\\' then (.command [], [])
  else if isWord c then (.word [c], [])
  else if c = ';' ∨ c = '=' then (.between, [.symbol c])
  else (.failed, [])

def feed : Mode → Char → Mode × List Token
  | .between, c => start c
  | .word w, c =>
    if isWord c then (.word (w ++ [c]), [])
    -- a word before a quote is a string of another kind
    else if c = '"' ∨ c = '\'' then (.failed, [])
    else ((start c).1, .word w :: (start c).2)
  | .inside q s, c => if c = q then (.closing q s, []) else (.inside q (s ++ [c]), [])
  | .closing q s, c =>
    if c = q then (.inside q (s ++ [q]), []) else ((start c).1, ofQuoted q s :: (start c).2)
  | .dash, c => if c = '-' then (.comment, []) else (.failed, [])
  | .comment, c => if c = '\n' then (.between, []) else (.comment, [])
  | .command line, c =>
    if c = '\n' then (.between, [.command line]) else (.command (line ++ [c]), [])
  | .failed, _ => (.failed, [])

def run (m : Mode) : Str → Mode × List Token
  | [] => (m, [])
  | c :: s => ((run (feed m c).1 s).1, (feed m c).2 ++ (run (feed m c).1 s).2)

/-- The tokens of a script, each of its lines ended. -/
def tokens (s : Str) : Option (List Token) :=
  match run .between s with
  | (.between, ts) => some ts
  | _ => none

/-! ## What is read -/

theorem run_append (m : Mode) (s t : Str) :
    run m (s ++ t) = ((run (run m s).1 t).1, (run m s).2 ++ (run (run m s).1 t).2) := by
  induction s generalizing m with
  | nil => rfl
  | cons c s ih => rw [List.cons_append, run, ih, run, List.append_assoc]

/-- The tokens read of a text, from a mode to another. -/
def Reads (m : Mode) (s : Str) (m' : Mode) (ts : List Token) : Prop := run m s = (m', ts)

instance {m m' : Mode} {s : Str} {ts : List Token} : Decidable (Reads m s m' ts) :=
  inferInstanceAs (Decidable (run m s = (m', ts)))

theorem Reads.append {m m' m'' : Mode} {s t : Str} {ts us : List Token} (h : Reads m s m' ts)
    (h' : Reads m' t m'' us) : Reads m (s ++ t) m'' (ts ++ us) := by
  unfold Reads at h h' ⊢
  rw [run_append, h, h']

/-- What is read of a text that gives no token is what is read after it. -/
theorem Reads.silent {m m' m'' : Mode} {s t : Str} {us : List Token} (h : Reads m s m' [])
    (h' : Reads m' t m'' us) : Reads m (s ++ t) m'' us := h.append h'

theorem reads_inside (q : Char) (acc s : Str) :
    Reads (.inside q acc) (s.flatMap fun c => if c = q then [q, q] else [c])
      (.inside q (acc ++ s)) [] := by
  induction s generalizing acc with
  | nil => rw [List.append_nil]; rfl
  | cons c s ih =>
    rw [List.flatMap_cons, List.append_cons]
    refine Reads.silent ?_ (ih (acc ++ [c]))
    by_cases hc : c = q
    · subst hc
      simp [Reads, run, feed]
    · simp [Reads, run, feed, hc]

theorem reads_quoted {q : Char} (hq : q = '"' ∨ q = '\'') (s : Str) :
    Reads .between (quoted q s) (.closing q s) [] := by
  have hopen : Reads .between [q] (.inside q []) [] := by
    rcases hq with rfl | rfl <;> rfl
  have hclose : Reads (.inside q s) [q] (.closing q s) [] := by
    simp [Reads, run, feed]
  have hinside := reads_inside q [] s
  rw [List.nil_append] at hinside
  exact (hopen.append hinside).append hclose

/-- **A text in quotes is read back**, and what follows it is read as if it stood alone. -/
theorem Reads.quote {q c : Char} {t : Str} {m : Mode} {ts : List Token} (h : Reads .between t m ts)
    (hq : q = '"' ∨ q = '\'') (s : Str) (hhead : t.head? = some c) (hc : c ≠ q) :
    Reads .between (quoted q s ++ t) m (ofQuoted q s :: ts) := by
  refine (reads_quoted hq s).silent ?_
  obtain ⟨t, rfl⟩ : ∃ t', t = c :: t' := List.head?_eq_some_iff.mp hhead
  have hfeed : feed (.closing q s) c = ((start c).1, ofQuoted q s :: (start c).2) := if_neg hc
  have hstart : feed .between c = start c := rfl
  unfold Reads at h ⊢
  rw [run, hstart, Prod.mk.injEq] at h
  rw [run, hfeed, Prod.mk.injEq, List.cons_append]
  exact ⟨h.1, congrArg _ h.2⟩

/-- A command is the rest of its line. -/
theorem reads_command (line s : Str) (h : '\n' ∉ s) :
    Reads (.command line) s (.command (line ++ s)) [] := by
  induction s generalizing line with
  | nil => rw [List.append_nil]; rfl
  | cons c s ih =>
    have hc : c ≠ '\n' := fun heq => h (heq ▸ List.mem_cons_self)
    have hrest := ih (line ++ [c]) fun hmem => h (List.mem_cons_of_mem c hmem)
    rw [List.append_cons]
    refine Reads.silent (s := [c]) ?_ hrest
    simp [Reads, run, feed, hc]

/-- Lines are read one after the other. -/
theorem reads_unlines {lines : List Str} {ts : List (List Token)}
    (h : List.Forall₂ (fun line ts => Reads .between (line ++ ['\n']) .between ts) lines ts) :
    Reads .between (PyText.unlines lines) .between ts.flatten := by
  induction h with
  | nil => rfl
  | @cons line t lines ts hline _ ih =>
    rw [List.flatten_cons, PyText.unlines, List.append_cons]
    exact hline.append ih

end SqlText
end NetRollout
