import NetRollout.Library.Dict
import NetRollout.Library.Erase
import NetRollout.Library.PyText

/-!
# Which platform a device runs

`ask` and `identify` of `src/rollout/detect.py`: each probe's answer is read piece by piece until
the prompt is back, escape codes erased and pagers left on the way, and the identities are asked
which of them claims it.

What a device writes is any function of what was written to it; `whole` is the device that writes
the same, each screen in one piece.  The clock is left out: a screen is read to its end, and
`screens` of them are read at most.  The identities are any list of them.

## What goes wrong, and when

Each piece has its escape codes erased by itself, so a code that two pieces share stays in the
answer (`not_pieceless`).  Where no code is shared, and no piece ends where the prompt or a pager
could be taken for whole, the pieces do not matter (`piecewise`); of a screen that ends in the
prompt nothing less will do (`unbroken_of_read`).
-/

namespace NetRollout
namespace Detect

open PyText (Str Decimals)

/-! ## Escape codes -/

/-- `[0-9;?]`. -/
def isParam (c : Char) : Bool := c.isDigit || c = ';' || c = '?'

/-- `[A-Za-z]`. -/
def isLetter (c : Char) : Bool := c.isAlpha

/-- `_ESCAPES`, at the start of a text. -/
def escapeCode : Str → Option Nat
  | '\x1b' :: '[' :: rest =>
    let n := (rest.takeWhile isParam).length
    if (rest.drop n).head?.any isLetter then some (n + 3) else none
  | c :: _ => if c = '\r' ∨ c = '\x08' then some 1 else none
  | [] => none

theorem isParam_of_isLetter {c : Char} (h : isLetter c = true) : isParam c = false := by
  have hletter : (decide (c.val ≥ 'A'.val ∧ c.val ≤ 'Z'.val) ||
      (decide (c.val ≥ 'a'.val) && decide (c.val ≤ 'z'.val))) = true := h
  rw [Bool.or_eq_true, decide_eq_true_eq, Bool.and_eq_true, decide_eq_true_eq,
    decide_eq_true_eq] at hletter
  have hbounds : (65 ≤ c.val.toNat ∧ c.val.toNat ≤ 90) ∨
      (97 ≤ c.val.toNat ∧ c.val.toNat ≤ 122) := hletter
  simp only [isParam, Char.isDigit, Bool.or_eq_false_iff, Bool.and_eq_false_iff,
    decide_eq_false_iff_not, ge_iff_le, UInt32.le_iff_toNat_le]
  refine ⟨⟨.inr ?_, ?_⟩, ?_⟩
  · show ¬ c.val.toNat ≤ 57
    omega
  · rintro rfl
    revert hbounds
    decide
  · rintro rfl
    revert hbounds
    decide

/-- No code begins with it. -/
def Plain (c : Char) : Prop := c ≠ '\x1b' ∧ c ≠ '\r' ∧ c ≠ '\x08'

theorem plain_of_isParam {c : Char} (h : isParam c = true) : Plain c := by
  refine ⟨?_, ?_, ?_⟩ <;> rintro rfl <;> exact absurd h (by decide)

theorem plain_of_isLetter {c : Char} (h : isLetter c = true) : Plain c := by
  refine ⟨?_, ?_, ?_⟩ <;> rintro rfl <;> exact absurd h (by decide)

theorem escapeCode_of_plain {c : Char} (h : Plain c) (s : Str) : escapeCode (c :: s) = none := by
  unfold escapeCode
  split
  · next heq => exact absurd (List.cons.inj heq).1 h.1
  · next heq =>
    obtain ⟨rfl, -⟩ := List.cons.inj heq
    rw [if_neg (not_or.mpr h.2)]
  · next heq => cases heq

/-- The two kinds of codes. -/
theorem escapeCode_eq_some {s : Str} {k : Nat} : escapeCode s = some k ↔
    (∃ c rest, s = c :: rest ∧ (c = '\r' ∨ c = '\x08') ∧ k = 1) ∨
    ∃ params letter rest, s = '\x1b' :: '[' :: (params ++ letter :: rest) ∧
      (∀ c ∈ params, isParam c = true) ∧ isLetter letter = true ∧ k = params.length + 3 := by
  constructor
  · intro h
    unfold escapeCode at h
    split at h
    · next rest =>
      simp only [Option.ite_none_right_eq_some, Option.some.injEq] at h
      obtain ⟨hletter, rfl⟩ := h
      obtain ⟨letter, hhead, hletter⟩ := (Option.any_eq_true _ _).mp hletter
      obtain ⟨tail, htail⟩ := List.head?_eq_some_iff.mp hhead
      have htake : rest.takeWhile isParam = rest.take (rest.takeWhile isParam).length :=
        List.prefix_iff_eq_take.mp (List.takeWhile_prefix isParam)
      refine .inr ⟨rest.takeWhile isParam, letter, tail, ?_,
        fun c hc => List.mem_takeWhile_imp hc, hletter, rfl⟩
      rw [← htail, htake, List.length_take_of_le (List.takeWhile_prefix isParam).length_le,
        List.take_append_drop]
    · split at h
      · next hc =>
        obtain rfl := Option.some.inj h
        exact .inl ⟨_, _, rfl, hc, rfl⟩
      · cases h
    · cases h
  · rintro (⟨c, rest, rfl, hc, rfl⟩ | ⟨params, letter, rest, rfl, hparams, hletter, rfl⟩)
    · rcases hc with rfl | rfl <;> rfl
    · have htake : (params ++ letter :: rest).takeWhile isParam = params := by
        rw [List.takeWhile_append_of_pos hparams, List.takeWhile_cons_of_neg, List.append_nil]
        rw [isParam_of_isLetter hletter]
        exact Bool.false_ne_true
      simp only [escapeCode, htake, List.drop_left, List.head?_cons, Option.any_some, hletter,
        if_true]

section Laws

variable {s : Str} {k i : Nat}

theorem take_escapeCode {params rest : Str} {letter : Char} :
    ('\x1b' :: '[' :: (params ++ letter :: rest)).take (params.length + 3) =
      '\x1b' :: '[' :: (params ++ [letter]) := by
  rw [List.take_succ_cons, List.take_succ_cons, List.take_append,
    List.take_of_length_le (Nat.le_succ _), Nat.add_sub_cancel_left, List.take_succ_cons,
    List.take_zero]

theorem escapeCode_bounds (h : escapeCode s = some k) : 0 < k ∧ k ≤ s.length := by
  rcases escapeCode_eq_some.mp h with
    ⟨c, rest, rfl, -, rfl⟩ | ⟨params, letter, rest, rfl, -, -, rfl⟩
  · simp
  · simp only [List.length_cons, List.length_append]
    omega

theorem escapeCode_append (h : escapeCode s = some k) (t : Str) : escapeCode (s ++ t) = some k := by
  rcases escapeCode_eq_some.mp h with ⟨c, rest, rfl, hc, rfl⟩ |
    ⟨params, letter, rest, rfl, hparams, hletter, rfl⟩
  · exact escapeCode_eq_some.mpr (.inl ⟨c, rest ++ t, rfl, hc, rfl⟩)
  · refine escapeCode_eq_some.mpr (.inr ⟨params, letter, rest ++ t, ?_, hparams, hletter, rfl⟩)
    simp

theorem escapeCode_take (h : escapeCode s = some k) : escapeCode (s.take k) = some k := by
  rcases escapeCode_eq_some.mp h with ⟨c, rest, rfl, hc, rfl⟩ |
    ⟨params, letter, rest, rfl, hparams, hletter, rfl⟩
  · exact escapeCode_eq_some.mpr (.inl ⟨c, [], rfl, hc, rfl⟩)
  · rw [take_escapeCode]
    exact escapeCode_eq_some.mpr (.inr ⟨params, letter, [], rfl, hparams, hletter, rfl⟩)

/-- Only the first character of a code begins one. -/
theorem escapeCode_within (h : escapeCode s = some k) (hi : 0 < i) (hk : i < k) (t : Str) :
    escapeCode ((s.take k).drop i ++ t) = none := by
  rcases escapeCode_eq_some.mp h with ⟨c, rest, rfl, hc, rfl⟩ |
    ⟨params, letter, rest, rfl, hparams, hletter, rfl⟩
  · omega
  · obtain ⟨j, rfl⟩ := Nat.exists_eq_succ_of_ne_zero (Nat.ne_of_gt hi)
    have hplain : ∀ c ∈ '[' :: (params ++ [letter]), Plain c := by
      intro c hc
      rcases List.mem_cons.mp hc with rfl | hc
      · exact ⟨by decide, by decide, by decide⟩
      · rcases List.mem_append.mp hc with hc | hc
        · exact plain_of_isParam (hparams c hc)
        · exact List.mem_singleton.mp hc ▸ plain_of_isLetter hletter
    have hj : j < ('[' :: (params ++ [letter])).length := by
      simp only [List.length_cons, List.length_append, List.length_nil]
      omega
    rw [take_escapeCode, List.drop_succ_cons, List.drop_eq_getElem_cons hj, List.cons_append]
    exact escapeCode_of_plain (hplain _ (List.getElem_mem hj)) _

/-- A code of several characters begins with `ESC`. -/
theorem head_of_escapeCode (h : escapeCode s = some k) (hk : 1 < k) : s.head? = some '\x1b' := by
  rcases escapeCode_eq_some.mp h with ⟨c, rest, rfl, hc, rfl⟩ | ⟨params, letter, rest, rfl, -⟩
  · omega
  · rfl

end Laws

/-- `_ESCAPES`. -/
def escapes : Codes Char where
  code := escapeCode
  bounds := escapeCode_bounds
  append := escapeCode_append
  take := escapeCode_take
  within := escapeCode_within

/-! ## What is at the end of an answer -/

section Endings

variable [Decimals]

/-- `re.IGNORECASE`: a small letter of a pattern, or a sign, and a character. -/
def sameLetter (w c : Char) : Bool :=
  c.toLower = w || (w = 'i' && (c.toNat = 0x130 || c.toNat = 0x131)) ||
    (w = 'k' && c.toNat = 0x212a) || (w = 's' && c.toNat = 0x17f)

/-- What follows a word, its case ignored. -/
def afterWord : Str → Str → Option Str
  | [], s => some s
  | w :: word, c :: s => if sameLetter w c then afterWord word s else none
  | _ :: _, [] => none

/-- `-- MORE --, next page: Space.*quit: Control-C`. -/
def procurveMore (s : Str) : Bool :=
  let start := "-- MORE --, next page: Space".toList
  let last := "quit: Control-C".toList
  let rest := s.drop start.length
  decide (start <+: s) && decide (last <:+ rest) &&
    (rest.take (rest.length - last.length)).all fun c => c ≠ '\n'

/-- `--\s*More\s*--`. -/
def spacedMore (s : Str) : Bool :=
  (((afterWord "--".toList s).map PyText.lstrip).bind (afterWord "more".toList)).any fun s =>
    PyText.lstrip s = "--".toList

/-- `---\(more[^)]*\)---`. -/
def parenMore (s : Str) : Bool :=
  (afterWord "---(more".toList s).any fun s => s.dropWhile (· ≠ ')') = ")---".toList

/-- `-+ More -+`. -/
def ruledMore (s : Str) : Bool :=
  s.head? = some '-' && (afterWord " more ".toList (s.dropWhile (· = '-'))).any fun s =>
    s ≠ [] && s.all (· = '-')

/-- `-- MORE --.*`. -/
def bareMore (s : Str) : Bool := (afterWord "-- more --".toList s).any fun s => s.all (· ≠ '\n')

/-- `\d+`. -/
def isNumber (s : Str) : Bool := s ≠ [] && s.all fun c => (Decimals.decimal c).isSome

/-- `lines \d+-\d+`. -/
def linesMore (s : Str) : Bool :=
  (afterWord "lines ".toList s).any fun s =>
    isNumber (s.takeWhile (· ≠ '-')) && (s.dropWhile (· ≠ '-')).head? = some '-' &&
      isNumber (s.dropWhile (· ≠ '-')).tail

/-- `PAGERS`, each to the end of an answer, with the key that leaves it. -/
def PAGERS : List ((Str → Bool) × Str) :=
  [(procurveMore, ['\x03']),
    (fun s => spacedMore s || parenMore s || ruledMore s || bareMore s || linesMore s, ['q'])]

/-- `pager.search(tail)`: where the pager begins. -/
def search (pager : Str → Bool) (tail : Str) : Option Nat :=
  (List.range (tail.length + 1)).find? fun i => pager (tail.drop i)

/-- `find_prompt`'s: it raises `ValueError` without one. -/
structure Prompt where
  text : Str
  ne_nil : text ≠ []

inductive Ending where
  | none
  /-- A pager, where it begins, and its key. -/
  | pager (start : Nat) (key : Str)
  | prompt
  deriving DecidableEq

def rstrip (s : Str) : Str := s.rdropWhile PyText.isSpace

/-- What `ask` finds at the end of the answer so far. -/
def ending (prompt : Prompt) (answer : Str) : Ending :=
  let tail := rstrip answer
  match PAGERS.findSome? fun pager => (search pager.1 tail).map fun start => (start, pager.2) with
  | some (start, key) => .pager start key
  | none => if prompt.text <:+ tail then .prompt else .none

theorem ending_nil (prompt : Prompt) : ending prompt [] = .none := by
  have hsearch : PAGERS.findSome? (fun pager =>
      (search pager.1 []).map fun start => (start, pager.2)) = none := rfl
  have hprompt : ¬ prompt.text <:+ [] := fun h => prompt.ne_nil (List.suffix_nil.mp h)
  simp only [ending, show rstrip [] = [] from rfl, hsearch, hprompt, if_false]

/-! ## The reads of an answer -/

/-- What reading a screen to its end, or to the prompt, comes to. -/
structure Reading where
  answer : Str
  /-- The keys written to leave pagers. -/
  keys : List Str
  /-- Once the prompt is back, what is still to be read. -/
  left : Option (List Str)
  deriving DecidableEq

/-- The loop of `ask`, on the pieces that are to be read. -/
def read (prompt : Prompt) : Str → List Str → Reading
  | answer, [] => ⟨answer, [], none⟩
  | answer, chunk :: chunks =>
    if chunk = [] then read prompt answer chunks
    else
      let answer := answer ++ escapes.erase chunk
      match ending prompt answer with
      | .pager start key =>
        let rest := read prompt ((rstrip answer).take start) chunks
        { rest with keys := key :: rest.keys }
      | .prompt => ⟨answer, [], some chunks⟩
      | .none => read prompt answer chunks

/-- What a device writes next, piece by piece, once all this was written to it. -/
abbrev Device := List Str → List Str

/-- What `ask` returns, with all that was written to the device and what is still to be read. -/
structure Asked where
  answer : Str
  sent : List Str
  left : List Str
  deriving DecidableEq

/-- `ask`, from a screen on: what was written so far, and the keys the device has not come to. -/
def askFrom (prompt : Prompt) (device : Device) :
    Nat → Str → List Str → List Str → List Str → Asked
  | 0, answer, sent, keys, _ => ⟨answer, sent ++ keys, []⟩
  | screens + 1, answer, sent, keys, chunks =>
    let reading := read prompt answer chunks
    match reading.left, keys ++ reading.keys with
    | some left, keys => ⟨reading.answer, sent ++ keys, left⟩
    | none, [] => ⟨reading.answer, sent, []⟩
    | none, key :: keys =>
      askFrom prompt device screens reading.answer (sent ++ [key]) keys (device (sent ++ [key]))

/-- `conn.RETURN`. -/
def RETURN : Str := ['\n']

/-- `ask`, with what the answer before left to be read. -/
def ask (prompt : Prompt) (device : Device) (screens : Nat) (sent left : List Str) (command : Str) :
    Asked :=
  let sent := sent ++ [command ++ RETURN]
  askFrom prompt device screens [] sent [] (left ++ device sent)

/-- The same device, each of its screens in one piece. -/
def whole (device : Device) : Device := fun sent => [(device sent).flatten]

/-! ## Identities -/

/-- A compiled pattern: where it is found first. -/
abbrev Pattern := Str → Option (Nat × Nat)

structure Shell where
  /-- Its prompt. -/
  shows : Str → Bool
  /-- The command that runs another one. -/
  run : Str → Str

/-- `Identity`, with what `PLATFORMS` has under its name. -/
structure Identity where
  name : Str
  probe : Str
  marks : List Pattern
  also : List Pattern
  unlessAny : List Pattern
  /-- Its prompt. -/
  shows : Str → Bool
  shell : Option Shell
  /-- It is one of `PLATFORMS`. -/
  supported : Bool
  /-- `_name`, of an answer and the prompt. -/
  hostname : Str → Str → Option Str

/-- The line of an answer that a match is in, stripped. -/
def lineAt (answer : Str) (found : Nat × Nat) : Str :=
  let before := (answer.take found.1).rtakeWhile (· ≠ '\n')
  let after := (answer.drop found.2).takeWhile (· ≠ '\n')
  PyText.strip (before ++ (answer.take found.2).drop found.1 ++ after)

/-- `Identity.evidence`. -/
def Identity.evidence (identity : Identity) (answer : Str) : Option Str :=
  if identity.unlessAny.any (fun p => (p answer).isSome) ||
      !identity.also.all (fun p => (p answer).isSome) then none
  else (identity.marks.findSome? fun p => p answer).map (lineAt answer)

structure Detection where
  platform : Option Str
  detected : Option Str
  hostname : Option Str
  evidence : Option Str
  problem : Option Str
  deriving DecidableEq

def Detection.unknown : Detection := ⟨none, none, none, none, none⟩

/-- `probes`: the commands, each with the probe it asks. -/
def probes (prompt : Prompt) (known : List Identity) : List (Str × Str) :=
  let shells := known.filterMap fun i =>
    i.shell.bind fun shell => if shell.shows prompt.text then some (shell.run i.probe, i.probe)
      else none
  let hinted := (known.filter fun i => i.shows prompt.text).map Identity.probe
  (hinted ++ known.map Identity.probe).foldl
    (fun order probe => if (probe, probe) ∈ order then order else order ++ [(probe, probe)]) shells

/-- Who claims the answer to a probe, with the line it was recognised by. -/
def claims (known : List Identity) (probe answer : Str) : List (Identity × Str) :=
  known.filterMap fun i => if i.probe = probe then (i.evidence answer).map fun l => (i, l) else none

/-- What the answer to one probe shows. -/
def detection (prompt : Prompt) (answer : Str) : List (Identity × Str) → Option Detection
  | [] => none
  | [(i, line)] =>
    some ⟨if i.supported then some i.name else none, some i.name, i.hostname answer prompt.text,
      some line, none⟩
  | claims => some { Detection.unknown with
      problem := some ("Its answer fits ".toList ++
        " and ".toList.intercalate (Dict.sorted (claims.map fun c => (c.1.name, c.2)))) }

/-- The loop of `identify`. -/
def identifyFrom (prompt : Prompt) (known : List Identity) (device : Device) (screens : Nat) :
    List (Str × Str) → List Str → List Str → Detection
  | [], _, _ => .unknown
  | (command, probe) :: order, sent, left =>
    let asked := ask prompt device screens sent left command
    match detection prompt asked.answer (claims known probe asked.answer) with
    | some found => found
    | none => identifyFrom prompt known device screens order asked.sent asked.left

/-- `ANY_KEY`. -/
def showsAnyKey (prompt : Str) : Bool :=
  prompt.tails.any fun s => (afterWord "press any key to continue".toList s).isSome

/-- `\s+`. -/
def afterBlanks (s : Str) : Option Str :=
  if s.head?.any PyText.isSpace then some (PyText.lstrip s) else none

/-- `'?`. -/
def afterQuote (s : Str) : Str := if s.head? = some '\'' then s.tail else s

/-- `DISCLAIMER`. -/
def showsDisclaimer (prompt : Str) : Bool :=
  prompt.tails.any fun s =>
    ((((((((afterWord "press".toList s).bind afterBlanks).map afterQuote).bind
      (afterWord "a".toList)).map afterQuote).bind afterBlanks).bind (afterWord "to".toList)).bind
        afterBlanks).any fun s => (afterWord "accept".toList s).isSome

/-- `identify`, of the prompt it finds, and the one it finds after a key; none: it raises. -/
def identify (known : List Identity) (device : Device) (asked screens : Nat)
    (shown again : Option Prompt) : Option Detection :=
  match shown with
  | none => some { Detection.unknown with problem := some "The device showed no prompt".toList }
  | some prompt =>
    let (prompt, sent) := if showsAnyKey prompt.text then (again, [RETURN]) else (some prompt, [])
    prompt.map fun prompt =>
      if showsDisclaimer prompt.text then
        { Detection.unknown with problem := some "The device shows a login disclaimer".toList }
      else identifyFrom prompt known device screens ((probes prompt known).take asked) sent []

/-! ## Pieces that do not matter -/

/-- Nothing is at the end of an answer, or all that follows is escape codes, and nothing is at the
end of what a pager leaves. -/
def Settled (prompt : Prompt) (answer rest : Str) : Prop :=
  rest = [] ∨ ending prompt answer = .none ∨
    (escapes.erase rest = [] ∧ ∀ start key, ending prompt answer = .pager start key →
      ending prompt ((rstrip answer).take start) = .none)

/-- No piece of a screen ends within an escape code, nor where the prompt or a pager could be
taken for whole. -/
def Unbroken (prompt : Prompt) : Str → List Str → Prop
  | _, [] => True
  | answer, chunk :: chunks =>
    ¬ escapes.Splits chunk chunks.flatten ∧
      (chunk = [] ∨ Settled prompt (answer ++ escapes.erase chunk) chunks.flatten) ∧
        Unbroken prompt (answer ++ escapes.erase chunk) chunks

/-- Two readings of a screen: the same, but for escape codes that are left to be read. -/
structure Reading.Alike (r r' : Reading) : Prop where
  answer : r.answer = r'.answer
  keys : r.keys = r'.keys
  left : r'.left = r.left.map fun _ => []
  codes : ∀ left, r.left = some left → ∀ chunk ∈ left, escapes.erase chunk = []

/-! ### One screen -/

section Screen

variable {prompt : Prompt} {answer : Str} {chunk : Str} {chunks : List Str}

/-- What a screen in one piece comes to. -/
def single (prompt : Prompt) (answer : Str) : Reading :=
  match ending prompt answer with
  | .pager start key => ⟨(rstrip answer).take start, [key], none⟩
  | .prompt => ⟨answer, [], some []⟩
  | .none => ⟨answer, [], none⟩

theorem read_cons_nil : read prompt answer ([] :: chunks) = read prompt answer chunks := by
  rw [read, if_pos rfl]

theorem read_cons (hchunk : chunk ≠ []) : read prompt answer (chunk :: chunks) =
    match ending prompt (answer ++ escapes.erase chunk) with
    | .pager start key =>
      { read prompt ((rstrip (answer ++ escapes.erase chunk)).take start) chunks with
        keys := key ::
          (read prompt ((rstrip (answer ++ escapes.erase chunk)).take start) chunks).keys }
    | .prompt => ⟨answer ++ escapes.erase chunk, [], some chunks⟩
    | .none => read prompt (answer ++ escapes.erase chunk) chunks := by
  rw [read, if_neg hchunk]

theorem read_single (hchunk : chunk ≠ []) :
    read prompt answer [chunk] = single prompt (answer ++ escapes.erase chunk) := by
  rw [read_cons hchunk, single]
  cases ending prompt (answer ++ escapes.erase chunk) <;> rfl

/-- Escape codes alone change nothing. -/
theorem read_codes (hcodes : ∀ chunk ∈ chunks, escapes.erase chunk = [])
    (hending : ending prompt answer = .none) : read prompt answer chunks = ⟨answer, [], none⟩ := by
  induction chunks with
  | nil => rfl
  | cons chunk chunks ih =>
    have hrest := ih fun c hc => hcodes c (List.mem_cons_of_mem _ hc)
    by_cases hchunk : chunk = []
    · rw [hchunk, read_cons_nil, hrest]
    · rw [read_cons hchunk, hcodes chunk List.mem_cons_self, List.append_nil, hending]
      exact hrest

theorem read_of_flatten_eq_nil (h : chunks.flatten = []) :
    read prompt answer chunks = ⟨answer, [], none⟩ := by
  induction chunks with
  | nil => rfl
  | cons chunk chunks ih =>
    rw [List.flatten_cons, List.append_eq_nil_iff] at h
    rw [h.1, read_cons_nil, ih h.2]

theorem codes_of_unbroken (h : Unbroken prompt answer chunks)
    (herase : escapes.erase chunks.flatten = []) : ∀ chunk ∈ chunks, escapes.erase chunk = [] := by
  induction chunks generalizing answer with
  | nil => exact fun _ hc => absurd hc List.not_mem_nil
  | cons chunk chunks ih =>
    rw [List.flatten_cons, Codes.erase_append h.1, List.append_eq_nil_iff] at herase
    intro c hc
    rcases List.mem_cons.mp hc with rfl | hc
    · exact herase.1
    · exact ih h.2.2 herase.2 c hc

/-- A screen that ends here, with codes alone to follow. -/
theorem alike_of_codes {answer' : Str} (hchunk : chunk ≠ [])
    (hanswer : answer ++ escapes.erase chunk = answer')
    (hcodes : ∀ c ∈ chunks, escapes.erase c = [])
    (hsettled : ∀ start key, ending prompt answer' = .pager start key →
      read prompt ((rstrip answer').take start) chunks = ⟨(rstrip answer').take start, [], none⟩) :
    (read prompt answer (chunk :: chunks)).Alike (single prompt answer') := by
  subst hanswer
  rw [read_cons hchunk, single]
  cases hending : ending prompt (answer ++ escapes.erase chunk) with
  | none =>
    simp only [read_codes hcodes hending]
    exact ⟨rfl, rfl, rfl, fun _ h => by cases h⟩
  | pager start key =>
    simp only [hsettled start key hending]
    exact ⟨rfl, rfl, rfl, fun _ h => by cases h⟩
  | prompt => exact ⟨rfl, rfl, rfl, fun left h c hc => hcodes c (Option.some.inj h ▸ hc)⟩

/-- **One screen**: its pieces are read as the whole of it. -/
theorem read_alike (h : Unbroken prompt answer chunks) :
    (read prompt answer chunks).Alike (read prompt answer [chunks.flatten]) := by
  induction chunks generalizing answer with
  | nil =>
    rw [List.flatten_nil, read_cons_nil]
    exact ⟨rfl, rfl, rfl, fun _ h => by cases h⟩
  | cons chunk chunks ih =>
    obtain ⟨hsplit, hsettled, hrest⟩ := h
    by_cases hchunk : chunk = []
    · rw [hchunk, Codes.erase_nil, List.append_nil] at hrest
      rw [hchunk, read_cons_nil, List.flatten_cons, List.nil_append]
      exact ih hrest
    have hne : chunk ++ chunks.flatten ≠ [] := fun heq => hchunk (List.append_eq_nil_iff.mp heq).1
    rw [List.flatten_cons, read_single hne, Codes.erase_append hsplit, ← List.append_assoc]
    rcases hsettled.resolve_left hchunk with hnil | hending | ⟨hcodes, hpager⟩
    · rw [hnil, Codes.erase_nil, List.append_nil]
      refine alike_of_codes hchunk rfl (fun c hc => ?_) fun _ _ _ => read_of_flatten_eq_nil hnil
      rw [List.flatten_eq_nil_iff.mp hnil c hc, Codes.erase_nil]
    · by_cases hnil : chunks.flatten = []
      · rw [hnil, Codes.erase_nil, List.append_nil, read_cons hchunk, hending, single, hending,
          read_of_flatten_eq_nil hnil]
        exact ⟨rfl, rfl, rfl, fun _ h => by cases h⟩
      · rw [read_cons hchunk, hending, ← read_single hnil]
        exact ih hrest
    · have hall := codes_of_unbroken hrest hcodes
      rw [hcodes, List.append_nil]
      exact alike_of_codes hchunk rfl hall fun start key hkey =>
        read_codes hall (hpager start key hkey)

/-! ### Nothing less will do -/

omit [Decimals] in
/-- A piece that ends within a code keeps its `ESC`. -/
theorem esc_mem_of_splits {rest : Str} (h : escapes.Splits chunk rest) :
    '\x1b' ∈ escapes.erase chunk := by
  obtain ⟨p, t₁, t₂, ht₁, ht₂, hcode, herase⟩ := Codes.erase_of_splits h
  obtain ⟨c, t, rfl⟩ := List.exists_cons_of_ne_nil ht₁
  have hlong : 1 < (c :: t ++ t₂).length := by
    have := List.length_pos_of_ne_nil ht₂
    simp only [List.length_append, List.length_cons]
    omega
  have hhead : some c = some '\x1b' := head_of_escapeCode hcode hlong
  rw [herase, Option.some.inj hhead]
  exact List.mem_append_right _ List.mem_cons_self

theorem unbroken_of_codes (hcodes : ∀ chunk ∈ chunks, escapes.erase chunk = [])
    (hending : ∀ start key, ending prompt answer ≠ .pager start key) :
    Unbroken prompt answer chunks ∧ escapes.erase chunks.flatten = [] := by
  induction chunks with
  | nil => exact ⟨trivial, rfl⟩
  | cons chunk chunks ih =>
    have hchunk := hcodes chunk List.mem_cons_self
    obtain ⟨hrest, herase⟩ := ih fun c hc => hcodes c (List.mem_cons_of_mem _ hc)
    have hsplit : ¬ escapes.Splits chunk chunks.flatten := fun h => by
      have hesc := esc_mem_of_splits h
      rw [hchunk] at hesc
      exact List.not_mem_nil hesc
    rw [Unbroken, hchunk, List.append_nil]
    refine ⟨⟨hsplit, .inr (.inr (.inr ⟨herase, fun start key h => absurd h (hending start key)⟩)),
      hrest⟩, ?_⟩
    rw [List.flatten_cons, Codes.erase_append hsplit, hchunk, herase, List.append_nil]

/-- The first piece of a screen that is read without a key is in its answer. -/
theorem first_of_keys_nil (hchunk : chunk ≠ [])
    (hrest : ∀ {answer}, (read prompt answer chunks).keys = [] →
      answer <+: (read prompt answer chunks).answer)
    (h : (read prompt answer (chunk :: chunks)).keys = []) :
    answer ++ escapes.erase chunk <+: (read prompt answer (chunk :: chunks)).answer := by
  rw [read_cons hchunk] at h ⊢
  cases hending : ending prompt (answer ++ escapes.erase chunk) with
  | none =>
    simp only [hending] at h ⊢
    exact hrest h
  | pager start key =>
    simp only [hending] at h
    cases h
  | prompt => exact List.prefix_refl _

theorem append_of_keys_nil (h : (read prompt answer chunks).keys = []) :
    answer <+: (read prompt answer chunks).answer := by
  induction chunks generalizing answer with
  | nil => exact List.prefix_refl _
  | cons chunk chunks ih =>
    by_cases hchunk : chunk = []
    · rw [hchunk, read_cons_nil] at h ⊢
      exact ih h
    · exact (List.prefix_append _ _).trans (first_of_keys_nil hchunk ih h)

/-- Read to its end without a key, and to the whole of it, a screen is unbroken. -/
theorem unbroken_of_answer {left : List Str}
    (hesc : '\x1b' ∉ answer ++ escapes.erase chunks.flatten)
    (h : read prompt answer chunks = ⟨answer ++ escapes.erase chunks.flatten, [], some left⟩)
    (hleft : ∀ chunk ∈ left, escapes.erase chunk = []) : Unbroken prompt answer chunks := by
  induction chunks generalizing answer with
  | nil => trivial
  | cons chunk chunks ih =>
    rw [List.flatten_cons] at h hesc
    by_cases hchunk : chunk = []
    · rw [hchunk, List.nil_append] at hesc h
      rw [read_cons_nil] at h
      refine ⟨?_, .inl hchunk, ?_⟩
      · rw [hchunk]
        rintro ⟨p, t₁, t₂, q, hp, -, ht₁, -⟩
        exact ht₁ (List.append_eq_nil_iff.mp hp.symm).2
      · rw [hchunk, Codes.erase_nil, List.append_nil]
        exact ih hesc h
    -- the answer of the first piece is in the whole one, so it has no `ESC`
    have hstart : answer ++ escapes.erase chunk <+:
        answer ++ escapes.erase (chunk ++ chunks.flatten) := by
      have hkeys := congrArg Reading.keys h
      have hfirst := first_of_keys_nil hchunk append_of_keys_nil hkeys
      rwa [h] at hfirst
    have hsplit : ¬ escapes.Splits chunk chunks.flatten := fun hsplit =>
      hesc (hstart.subset (List.mem_append_right _ (esc_mem_of_splits hsplit)))
    rw [Codes.erase_append hsplit, ← List.append_assoc] at hesc h
    rw [read_cons hchunk] at h
    cases hending : ending prompt (answer ++ escapes.erase chunk) with
    | none =>
      simp only [hending] at h
      exact ⟨hsplit, .inr (.inr (.inl hending)), ih hesc h⟩
    | pager start key =>
      simp only [hending, Reading.mk.injEq] at h
      cases h.2.1
    | prompt =>
      simp only [hending, Reading.mk.injEq, Option.some.injEq, true_and] at h
      obtain ⟨hsame, rfl⟩ := h
      have herase : escapes.erase chunks.flatten = [] :=
        (List.append_cancel_left ((List.append_nil _).trans hsame)).symm
      have hnot : ∀ start key,
          ending prompt (answer ++ escapes.erase chunk) ≠ .pager start key := by
        intro start key hkey
        rw [hending] at hkey
        cases hkey
      exact ⟨hsplit,
        .inr (.inr (.inr ⟨herase, fun start key hkey => absurd hkey (hnot start key)⟩)),
        (unbroken_of_codes hleft hnot).1⟩

/-- A screen that ends in the prompt, without other control sequences, and is read as the whole
of it is unbroken. -/
theorem unbroken_of_read
    (hprompt : ending prompt (answer ++ escapes.erase chunks.flatten) = .prompt)
    (hesc : '\x1b' ∉ answer ++ escapes.erase chunks.flatten)
    (h : (read prompt answer chunks).Alike (read prompt answer [chunks.flatten])) :
    Unbroken prompt answer chunks := by
  by_cases hnil : chunks.flatten = []
  · refine (unbroken_of_codes (fun c hc => ?_) fun start key hkey => ?_).1
    · rw [List.flatten_eq_nil_iff.mp hnil c hc, Codes.erase_nil]
    · rw [hnil, Codes.erase_nil, List.append_nil, hkey] at hprompt
      cases hprompt
  · rw [read_single hnil, single, hprompt] at h
    have hanswer : (read prompt answer chunks).answer =
        answer ++ escapes.erase chunks.flatten := h.answer
    have hkeys : (read prompt answer chunks).keys = [] := h.keys
    obtain ⟨left, hsome, -⟩ := Option.map_eq_some_iff.mp h.left.symm
    refine unbroken_of_answer hesc ?_ (h.codes left hsome)
    rw [← hanswer, ← hkeys, ← hsome]

end Screen

/-! ### An answer -/

/-- Every screen of an answer is unbroken, where the device's screens come whole. -/
def UnbrokenFrom (prompt : Prompt) (device : Device) : Nat → Str → List Str → List Str → Prop
  | 0, _, _, _ => True
  | screens + 1, answer, sent, chunks =>
    Unbroken prompt answer chunks ∧
      ∀ answer' key, read prompt answer [chunks.flatten] = ⟨answer', [key], none⟩ →
        UnbrokenFrom prompt device screens answer' (sent ++ [key]) (device (sent ++ [key]))

/-- The same answer, and the same written to the device, with escape codes left to be read. -/
structure Asked.Alike (r r' : Asked) : Prop where
  answer : r.answer = r'.answer
  sent : r.sent = r'.sent
  left : r'.left = []
  codes : ∀ chunk ∈ r.left, escapes.erase chunk = []

section Answer

variable {prompt : Prompt} {device : Device} {screens : Nat} {answer : Str}
  {sent left chunks : List Str} {command : Str}

/-- A screen in one piece has one ending at most. -/
theorem read_single_cases (prompt : Prompt) (answer chunk : Str) :
    (∃ answer', read prompt answer [chunk] = ⟨answer', [], none⟩) ∨
    (∃ answer' key, read prompt answer [chunk] = ⟨answer', [key], none⟩) ∨
    ∃ answer', read prompt answer [chunk] = ⟨answer', [], some []⟩ := by
  by_cases hchunk : chunk = []
  · exact .inl ⟨answer, by rw [hchunk, read_cons_nil]; rfl⟩
  · rw [read_single hchunk, single]
    cases ending prompt (answer ++ escapes.erase chunk) with
    | none => exact .inl ⟨_, rfl⟩
    | pager start key => exact .inr (.inl ⟨_, key, rfl⟩)
    | prompt => exact .inr (.inr ⟨_, rfl⟩)

theorem askFrom_alike (h : UnbrokenFrom prompt device screens answer sent chunks) :
    (askFrom prompt device screens answer sent [] chunks).Alike
      (askFrom prompt (whole device) screens answer sent [] [chunks.flatten]) := by
  induction screens generalizing answer sent chunks with
  | zero => exact ⟨rfl, rfl, rfl, fun _ hc => absurd hc List.not_mem_nil⟩
  | succ screens ih =>
    obtain ⟨hscreen, hnext⟩ := h
    obtain ⟨hanswer, hkeys, hleft, hcodes⟩ := read_alike hscreen
    simp only [askFrom]
    rcases read_single_cases prompt answer chunks.flatten with ⟨answer', hwhole⟩ |
      ⟨answer', key, hwhole⟩ | ⟨answer', hwhole⟩
    · rw [hwhole] at hanswer hkeys hleft
      have hnone : (read prompt answer chunks).left = none :=
        Option.map_eq_none_iff.mp hleft.symm
      simp only [hwhole, hanswer, hkeys, hnone, List.append_nil]
      exact ⟨rfl, rfl, rfl, fun _ hc => absurd hc List.not_mem_nil⟩
    · rw [hwhole] at hanswer hkeys hleft
      have hnone : (read prompt answer chunks).left = none :=
        Option.map_eq_none_iff.mp hleft.symm
      simp only [hwhole, hanswer, hkeys, hnone, List.nil_append]
      exact ih (hnext answer' key hwhole)
    · rw [hwhole] at hanswer hkeys hleft
      obtain ⟨left, hsome, -⟩ := Option.map_eq_some_iff.mp hleft.symm
      simp only [hwhole, hanswer, hkeys, hsome, List.append_nil]
      exact ⟨rfl, rfl, rfl, hcodes left hsome⟩

/-- Escape codes left of the answer before are not in this one. -/
theorem read_left (hleft : ∀ chunk ∈ left, escapes.erase chunk = []) :
    read prompt [] (left ++ chunks) = read prompt [] chunks := by
  induction left with
  | nil => rfl
  | cons chunk left ih =>
    have hrest := ih fun c hc => hleft c (List.mem_cons_of_mem _ hc)
    rw [List.cons_append]
    by_cases hchunk : chunk = []
    · rw [hchunk, read_cons_nil, hrest]
    · rw [read_cons hchunk, hleft chunk List.mem_cons_self, List.append_nil, ending_nil]
      exact hrest

/-- **One answer**: the pieces of its screens are read as the whole of them. -/
theorem ask_alike (hleft : ∀ chunk ∈ left, escapes.erase chunk = [])
    (h : UnbrokenFrom prompt device screens [] (sent ++ [command ++ RETURN])
      (device (sent ++ [command ++ RETURN]))) :
    (ask prompt device screens sent left command).Alike
      (ask prompt (whole device) screens sent [] command) := by
  have hfirst : ask prompt device screens sent left command =
      ask prompt device screens sent [] command := by
    cases screens with
    | zero => rfl
    | succ screens => simp only [ask, askFrom, read_left hleft, List.nil_append]
  rw [hfirst]
  exact askFrom_alike h

end Answer

/-! ### A detection -/

/-- Every screen of the answers to these probes is unbroken. -/
def UnbrokenProbes (prompt : Prompt) (known : List Identity) (device : Device) (screens : Nat) :
    List (Str × Str) → List Str → Prop
  | [], _ => True
  | (command, probe) :: order, sent =>
    let asked := ask prompt (whole device) screens sent [] command
    UnbrokenFrom prompt device screens [] (sent ++ [command ++ RETURN])
        (device (sent ++ [command ++ RETURN])) ∧
      (detection prompt asked.answer (claims known probe asked.answer) = none →
        UnbrokenProbes prompt known device screens order asked.sent)

theorem identifyFrom_whole {prompt : Prompt} {known : List Identity} {device : Device}
    {screens : Nat} {order : List (Str × Str)} {sent left : List Str}
    (hleft : ∀ chunk ∈ left, escapes.erase chunk = [])
    (h : UnbrokenProbes prompt known device screens order sent) :
    identifyFrom prompt known device screens order sent left =
      identifyFrom prompt known (whole device) screens order sent [] := by
  induction order generalizing sent left with
  | nil => rfl
  | cons probe order ih =>
    obtain ⟨hfrom, hnext⟩ := h
    obtain ⟨hanswer, hsent, hnil, hcodes⟩ := ask_alike hleft hfrom
    simp only [identifyFrom, hanswer]
    split
    · rfl
    · next hnone =>
      rw [hsent, hnil]
      exact ih hcodes (hnext hnone)

/-! ## The detection of a device that writes piece by piece -/

/-- Nothing is at the end of a screen's text before it is all there. -/
def OnlyAtEnd (prompt : Prompt) (device : Device) : Prop :=
  ∀ sent k, k < (escapes.erase (device sent).flatten).length →
    ending prompt ((escapes.erase (device sent).flatten).take k) = .none

/-- Pieces do not matter to an answer. -/
def Pieceless : Prop :=
  ∀ (prompt : Prompt) (device : Device) (screens : Nat) (sent : List Str) (command : Str),
    OnlyAtEnd prompt device →
      (ask prompt device screens sent [] command).answer =
        (ask prompt (whole device) screens sent [] command).answer

/-- When pieces do not matter. -/
structure Piecewise : Prop where
  ask_whole : ∀ (prompt : Prompt) (device : Device) (screens : Nat) (sent : List Str)
    (command : Str), UnbrokenFrom prompt device screens [] (sent ++ [command ++ RETURN])
      (device (sent ++ [command ++ RETURN])) →
    (ask prompt device screens sent [] command).answer =
      (ask prompt (whole device) screens sent [] command).answer
  identify_whole : ∀ (known : List Identity) (device : Device) (asked screens : Nat)
    (shown again : Option Prompt),
    (∀ prompt sent, shown = some prompt ∧ sent = [] ∨ again = some prompt ∧ sent = [RETURN] →
      UnbrokenProbes prompt known device screens ((probes prompt known).take asked) sent) →
    identify known device asked screens shown again =
      identify known (whole device) asked screens shown again
  /-- Of a screen that ends in the prompt, without other control sequences. -/
  unbroken_iff : ∀ (prompt : Prompt) (answer : Str) (chunks : List Str),
    ending prompt (answer ++ escapes.erase chunks.flatten) = .prompt →
    '\x1b' ∉ answer ++ escapes.erase chunks.flatten →
    ((read prompt answer chunks).Alike (read prompt answer [chunks.flatten]) ↔
      Unbroken prompt answer chunks)

theorem piecewise : Piecewise where
  ask_whole _ _ _ _ _ h := (ask_alike (fun _ hc => absurd hc List.not_mem_nil) h).answer
  identify_whole known device asked screens shown again h := by
    have hfrom := fun prompt sent hshown =>
      identifyFrom_whole (fun _ hc => absurd hc List.not_mem_nil) (h prompt sent hshown)
    cases shown with
    | none => rfl
    | some prompt =>
      simp only [identify]
      cases hkey : showsAnyKey prompt.text with
      | true =>
        cases again with
        | none => rfl
        | some next => simp only [if_true, Option.map_some, hfrom next [RETURN] (.inr ⟨rfl, rfl⟩)]
      | false =>
        simp only [Bool.false_eq_true, if_false, Option.map_some,
          hfrom prompt [] (.inl ⟨rfl, rfl⟩)]
  unbroken_iff _ _ _ hprompt hesc := ⟨unbroken_of_read hprompt hesc, read_alike⟩

end Endings

/-- It writes its prompt, after an escape code in two pieces. -/
def boldRouter : Device := fun sent =>
  if sent = ["show version\n".toList] then [['\x1b', '[', '1'], "mR1#".toList] else []

def routerPrompt : Prompt := ⟨"R1#".toList, List.cons_ne_nil _ _⟩

theorem onlyAtEnd_boldRouter : @OnlyAtEnd Decimals.ascii routerPrompt boldRouter := by
  intro sent k hk
  by_cases hsent : sent = ["show version\n".toList]
  · have htext : escapes.erase (boldRouter sent).flatten = "R1#".toList := by
      rw [hsent]
      decide
    rw [htext] at hk ⊢
    match k, hk with
    | 0, _ | 1, _ | 2, _ => decide
  · rw [boldRouter, if_neg hsent] at hk
    exact absurd hk (Nat.not_lt_zero _)

/-- The code stays in the answer. -/
theorem not_pieceless : ¬ @Pieceless Decimals.ascii := by
  intro h
  have hsame := h routerPrompt boldRouter 1 [] "show version".toList onlyAtEnd_boldRouter
  revert hsame
  decide

end Detect
end NetRollout
