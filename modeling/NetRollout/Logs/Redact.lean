import NetRollout.Library.PyText

/-!
# Redaction of a log line

`redact` of `src/rollout/log.py`.  A line's tokens are what `"[^"]*"|\S+` finds in it:
a quoted text, else all up to the next white space.  `values` is the loop over them: at
a keyword it passes over further keywords and over type words, and the token after them
is a secret, unless the keyword is an ordinary word too and the token neither typed nor
quoted.

The line is gaps of white space and tokens in turn (`Lexes`, `exists_layOut`), and
`redact` is the line with the chosen tokens replaced where they stand
(`redact_layOut`).
-/

namespace NetRollout
namespace Logs

open PyText

/-! ## Words -/

/-- `str.strip(chars)`. -/
def stripOf (chars : List Char) (s : Str) : Str :=
  (s.dropWhile (· ∈ chars)).rdropWhile (· ∈ chars)

/-- `str.rstrip(chars)`. -/
def rstripOf (chars : List Char) (s : Str) : Str := s.rdropWhile (· ∈ chars)

def SECRET_WORDS : List Str :=
  ["password".toList, "passwd".toList, "secret".toList, "community".toList,
    "community-string".toList, "pre-shared-key".toList, "psksecret".toList, "key-string".toList,
    "authentication-key".toList, "message-digest-key".toList, "encrypted-password".toList,
    "password-hash".toList, "phash".toList]

def SECRET_IF_TYPED : List Str := ["key".toList, "auth".toList, "priv".toList]

def SECRET_AFTER : List Str := ["plaintext".toList, "ciphertext".toList]

def TYPE_WORDS : List Str :=
  ["simple".toList, "cipher".toList, "plaintext".toList, "ciphertext".toList, "hash".toList,
    "encrypted".toList, "enc".toList, "md5".toList, "sha".toList, "sha1".toList, "sha256".toList,
    "sha512".toList, "aes".toList, "aes128".toList, "aes-128".toList, "des".toList, "3des".toList,
    "128".toList, "192".toList, "256".toList, "read".toList, "write".toList]

def REDACTED : Str := "<redacted>".toList

/-- `value.group().startswith('"')`. -/
def quoted (token : Str) : Bool := token.head? = some '"'

section Classes

variable [Unicode]

/-- The token as a keyword. -/
def word (token : Str) : Str := Unicode.lower (stripOf ['\'', '"', '(', ')', ',', ';', ':'] token)

/-- Whether the token is an encryption type, a key id or an algorithm. -/
def isType (token : Str) : Bool :=
  word token ∈ TYPE_WORDS ||
    (word token ≠ [] && (word token).all Unicode.isDigit && (word token).length ≤ 2)

/-- A keyword that may stand for the one before it. -/
def isName (token : Str) : Bool := word token ∈ SECRET_WORDS ++ SECRET_IF_TYPED

def isKeyword (token : Str) : Bool := isName token || word token ∈ SECRET_AFTER

/-- Neither a keyword nor a type. -/
def isPlain (token : Str) : Bool := !isKeyword token && !isType token

end Classes

/-! ## Tokens -/

/-- A match of `_TOKEN`. -/
structure Match where
  start : Nat
  text : Str
  deriving DecidableEq

/-- How far `"[^"]*"|\S+` reaches from here, where no white space is. -/
def matchLength : Str → Nat
  | [] => 0
  | c :: s =>
    if c = '"' ∧ '"' ∈ s then (s.takeWhile (· ≠ '"')).length + 2
    else ((c :: s).takeWhile fun x => !isSpace x).length

/-- `_TOKEN.finditer`, from a position on, the next characters being part of a match
already found. -/
def finditer (pos skip : Nat) : Str → List Match
  | [] => []
  | c :: s =>
    match skip with
    | skip + 1 => finditer (pos + 1) skip s
    | 0 =>
      if isSpace c then finditer (pos + 1) 0 s
      else
        ⟨pos, (c :: s).take (matchLength (c :: s))⟩ ::
          finditer (pos + 1) (matchLength (c :: s) - 1) s

/-! ## The loop over the tokens -/

section Loop

variable [Unicode]

/-- What the loop does at a token. -/
inductive Choice where
  /-- On to the next token. -/
  | pass
  /-- No token is left that could be a value. -/
  | over
  /-- The `n`-th token after this one is a value. -/
  | value (n : Nat)
  deriving DecidableEq

/-- One round of the loop: the token, and those after it. -/
def choice (token : Str) (after : List Str) : Choice :=
  if isKeyword token then
    let names := (after.takeWhile isName).length
    let types := ((after.drop names).takeWhile isType).length
    match after[names + types]? with
    | none => .over
    | some value =>
      if word token ∈ SECRET_IF_TYPED ∧ ¬ (word token ∈ SECRET_AFTER ∨ 0 < types) ∧
          quoted value = false then .pass
      else .value (names + types)
  else .pass

/-- The values of a line, in order; the next one is the last of the tokens that the loop
is about to jump over. -/
def values (skip : Nat) : List Match → List Match
  | [] => []
  | token :: after =>
    match skip with
    | skip + 2 => values (skip + 1) after
    | 1 => token :: values 0 after
    | 0 =>
      match choice token.text (after.map Match.text) with
      | .pass => values 0 after
      | .over => []
      | .value n => values (n + 1) after

end Loop

/-- How much of a value is hidden: all of a quoted one, else what stands before the
closing punctuation. -/
def hiddenLength (token : Str) : Nat :=
  if quoted token then token.length else (rstripOf ['\'', '"', ')', ',', ';'] token).length

/-- Where a value is hidden. -/
def span (m : Match) : Nat × Nat := (m.start, m.start + hiddenLength m.text)

/-- `text[:start] + REDACTED + text[end:]`. -/
def cover (span : Nat × Nat) (text : Str) : Str :=
  text.take span.1 ++ (REDACTED ++ text.drop span.2)

section Redact

variable [Unicode]

def spans (text : Str) : List (Nat × Nat) := (values 0 (finditer 0 0 text)).map span

/-- A log line without its secrets. -/
def redact (text : Str) : Str := (spans text).foldr cover text

end Redact

example : @redact Unicode.ascii "snmp-server community Pr1vate RO".toList =
    "snmp-server community <redacted> RO".toList := by decide

/-! ## A line as gaps and tokens -/

/-- What `_TOKEN` finds before `rest`. -/
def IsToken (token rest : Str) : Prop :=
  (∃ body, '"' ∉ body ∧ token = '"' :: (body ++ ['"'])) ∨
    token ≠ [] ∧ (∀ c ∈ token, isSpace c = false) ∧ (∀ c ∈ rest.head?, isSpace c = true) ∧
      (quoted token = true → '"' ∉ token.tail ++ rest)

/-- A line: gaps and tokens in turn, and a last gap. -/
def layOut : List (Str × Str) → Str → Str
  | [], last => last
  | (gap, token) :: pieces, last => gap ++ (token ++ layOut pieces last)

/-- The tokens of the line are the tokens found in it. -/
def Lexes : List (Str × Str) → Str → Prop
  | [], last => ∀ c ∈ last, isSpace c = true
  | (gap, token) :: pieces, last =>
    (∀ c ∈ gap, isSpace c = true) ∧ IsToken token (layOut pieces last) ∧ Lexes pieces last

/-- The matches of a line. -/
def matchesAt (pos : Nat) : List (Str × Str) → List Match
  | [] => []
  | (gap, token) :: pieces =>
    ⟨pos + gap.length, token⟩ :: matchesAt (pos + gap.length + token.length) pieces

theorem map_text_matchesAt (pos : Nat) (pieces : List (Str × Str)) :
    (matchesAt pos pieces).map Match.text = pieces.map Prod.snd := by
  induction pieces generalizing pos with
  | nil => rfl
  | cons p pieces ih =>
    obtain ⟨gap, token⟩ := p
    simp only [matchesAt, List.map_cons, ih]

theorem le_start_of_mem_matchesAt {pos : Nat} {pieces : List (Str × Str)} {m : Match}
    (h : m ∈ matchesAt pos pieces) : pos ≤ m.start := by
  induction pieces generalizing pos with
  | nil => cases h
  | cons p pieces ih =>
    obtain ⟨gap, token⟩ := p
    rcases List.mem_cons.mp h with rfl | h
    · exact Nat.le_add_right _ _
    · have := ih h
      omega

/-! ### Tokenizing -/

theorem finditer_skip (s : Str) (pos skip : Nat) (h : skip ≤ s.length) :
    finditer pos skip s = finditer (pos + skip) 0 (s.drop skip) := by
  induction s generalizing pos skip with
  | nil =>
    obtain rfl : skip = 0 := Nat.le_zero.mp h
    rfl
  | cons c s ih =>
    cases skip with
    | zero => rfl
    | succ skip =>
      rw [finditer, ih (pos + 1) skip (Nat.le_of_succ_le_succ h), List.drop_succ_cons,
        Nat.add_assoc, Nat.add_comm 1]

theorem finditer_gap {gap : Str} (h : ∀ c ∈ gap, isSpace c = true) (s : Str) (pos : Nat) :
    finditer pos 0 (gap ++ s) = finditer (pos + gap.length) 0 s := by
  induction gap generalizing pos with
  | nil => rfl
  | cons c gap ih =>
    have hc : isSpace c = true := h c (List.mem_cons_self ..)
    rw [List.cons_append, finditer, if_pos hc, ih (fun x hx => h x (List.mem_cons_of_mem _ hx)),
      List.length_cons, Nat.add_assoc, Nat.add_comm 1]

theorem takeWhile_append_of_head? {p : Char → Bool} {a b : Str} (ha : ∀ c ∈ a, p c = true)
    (hb : ∀ c ∈ b.head?, p c = false) : (a ++ b).takeWhile p = a := by
  rw [List.takeWhile_append_of_pos ha]
  cases b with
  | nil => simp
  | cons c b => rw [List.takeWhile_cons_of_neg (by rw [hb c rfl]; decide), List.append_nil]

/-- The match that starts at a token is the token. -/
theorem matchLength_token {token rest : Str} (h : IsToken token rest) :
    token ≠ [] ∧ (∀ c ∈ token.head?, isSpace c = false) ∧
      matchLength (token ++ rest) = token.length := by
  rcases h with ⟨body, hbody, rfl⟩ | ⟨hne, hspace, hrest, hquote⟩
  · refine ⟨List.cons_ne_nil _ _, ?_, ?_⟩
    · rintro c ⟨⟩
      decide
    · have htake : ((body ++ ['"']) ++ rest).takeWhile (· ≠ '"') = body := by
        rw [List.append_assoc]
        refine takeWhile_append_of_head? (fun c hc => ?_) ?_
        · exact decide_eq_true fun heq => hbody (heq ▸ hc)
        · rintro c ⟨⟩
          decide
      rw [List.cons_append, matchLength, if_pos ⟨rfl, by simp⟩, htake]
      simp
  · cases token with
    | nil => exact absurd rfl hne
    | cons c token =>
      refine ⟨hne, ?_, ?_⟩
      · rintro d ⟨⟩
        exact hspace c (List.mem_cons_self ..)
      · have hlong : ¬ (c = '"' ∧ '"' ∈ token ++ rest) := by
          rintro ⟨rfl, hmem⟩
          exact hquote rfl hmem
        have htake : ((c :: token) ++ rest).takeWhile (fun x => !isSpace x) = c :: token :=
          takeWhile_append_of_head? (fun x hx => by rw [hspace x hx]; rfl)
            fun x hx => by rw [hrest x hx]; rfl
        rw [List.cons_append, matchLength, if_neg hlong, ← List.cons_append, htake]

/-- **The matches found in a line** are its tokens. -/
theorem finditer_layOut {pieces : List (Str × Str)} {last : Str} (h : Lexes pieces last)
    (pos : Nat) : finditer pos 0 (layOut pieces last) = matchesAt pos pieces := by
  induction pieces generalizing pos with
  | nil =>
    have hgap := @finditer_gap last h [] pos
    rwa [List.append_nil] at hgap
  | cons p pieces ih =>
    obtain ⟨gap, token⟩ := p
    obtain ⟨hgap, htoken, hrest⟩ := h
    obtain ⟨hne, hhead, hlength⟩ := matchLength_token htoken
    obtain ⟨c, s, rfl⟩ := List.exists_cons_of_ne_nil hne
    have hc : isSpace c = false := hhead c rfl
    rw [layOut, finditer_gap hgap, List.cons_append, finditer, if_neg (by rw [hc]; decide),
      ← List.cons_append, hlength, List.take_left' rfl, matchesAt, finditer_skip _ _ _ (by simp)]
    simp only [List.length_cons, Nat.add_sub_cancel, List.drop_left' rfl]
    rw [ih hrest, Nat.add_assoc _ 1, Nat.add_comm 1]

/-- What is matched where no white space is, is a token. -/
theorem isToken_take {c : Char} {s : Str} (hc : isSpace c = false) :
    0 < matchLength (c :: s) ∧ matchLength (c :: s) ≤ (c :: s).length ∧
      IsToken ((c :: s).take (matchLength (c :: s))) ((c :: s).drop (matchLength (c :: s))) := by
  by_cases hquote : c = '"' ∧ '"' ∈ s
  · obtain ⟨rfl, hmem⟩ := hquote
    have hsplit := List.takeWhile_append_dropWhile (p := (· ≠ '"')) (l := s)
    obtain ⟨d, rest, hrest⟩ : ∃ d rest, s.dropWhile (· ≠ '"') = d :: rest :=
      List.exists_cons_of_ne_nil fun hnil => by
        rw [List.dropWhile_eq_nil_iff] at hnil
        simpa using hnil _ hmem
    obtain rfl : d = '"' := by
      have hhead := List.head?_dropWhile_not (· ≠ '"') s
      rw [hrest] at hhead
      simpa using hhead
    have hbody : '"' ∉ s.takeWhile (· ≠ '"') := fun hin => by
      simpa using List.mem_takeWhile_imp hin
    rw [hrest] at hsplit
    rw [matchLength, if_pos ⟨rfl, hmem⟩]
    generalize s.takeWhile (· ≠ '"') = body at hsplit hbody
    subst hsplit
    refine ⟨Nat.succ_pos _, by simp, .inl ⟨body, hbody, ?_⟩⟩
    rw [List.take_succ_cons, ← List.singleton_append (l := rest), ← List.append_assoc,
      List.take_left' (by simp)]
  · have hsplit := List.takeWhile_append_dropWhile (p := fun x => !isSpace x) (l := c :: s)
    have hne : (c :: s).takeWhile (fun x => !isSpace x) ≠ [] := by
      rw [List.takeWhile_cons_of_pos (by rw [hc]; rfl)]
      exact List.cons_ne_nil _ _
    have hspace : ∀ x ∈ (c :: s).takeWhile fun x => !isSpace x, isSpace x = false := fun x hx => by
      simpa using List.mem_takeWhile_imp hx
    have hrest : ∀ x ∈ ((c :: s).dropWhile fun x => !isSpace x).head?, isSpace x = true := by
      intro x hx
      have hhead := List.head?_dropWhile_not (fun x => !isSpace x) (c :: s)
      rw [Option.mem_def.mp hx] at hhead
      simpa using hhead
    rw [matchLength, if_neg hquote]
    generalize (c :: s).takeWhile (fun x => !isSpace x) = token at hsplit hne hspace
    generalize (c :: s).dropWhile (fun x => !isSpace x) = rest at hsplit hrest
    have htail : token.tail ++ rest = s := by
      rw [← List.tail_append_of_ne_nil hne, hsplit, List.tail_cons]
    have hhead : token.head? = some c := by
      rw [← List.head?_append_of_ne_nil token hne, hsplit, List.head?_cons]
    rw [← hsplit, List.take_left' rfl, List.drop_left' rfl, List.length_append]
    refine ⟨List.length_pos_iff.mpr hne, Nat.le_add_right _ _, .inr ⟨hne, hspace, hrest, ?_⟩⟩
    intro hq
    rw [quoted, hhead, decide_eq_true_eq, Option.some.injEq] at hq
    rw [htail]
    exact fun hmem => hquote ⟨hq, hmem⟩

/-- **Every line** is gaps and tokens. -/
theorem exists_layOut (text : Str) :
    ∃ pieces last, Lexes pieces last ∧ layOut pieces last = text := by
  induction hn : text.length using Nat.strong_induction_on generalizing text with
  | _ n ih =>
    have hsplit := List.takeWhile_append_dropWhile (p := isSpace) (l := text)
    have hgap : ∀ c ∈ text.takeWhile isSpace, isSpace c = true :=
      fun c hc => List.mem_takeWhile_imp hc
    cases hrest : text.dropWhile isSpace with
    | nil =>
      rw [hrest, List.append_nil] at hsplit
      exact ⟨[], text, by rwa [hsplit] at hgap, rfl⟩
    | cons c s =>
      have hc : isSpace c = false := by
        have hhead := List.head?_dropWhile_not isSpace text
        rw [hrest] at hhead
        simpa using hhead
      obtain ⟨hpos, hle, htoken⟩ := isToken_take (s := s) hc
      rw [hrest] at hsplit
      have hlength := congrArg List.length hsplit
      rw [List.length_append] at hlength
      obtain ⟨pieces, last, hlex, hlay⟩ := ih _ (by rw [List.length_drop]; omega)
        ((c :: s).drop (matchLength (c :: s))) rfl
      refine ⟨(text.takeWhile isSpace, (c :: s).take (matchLength (c :: s))) :: pieces, last,
        ⟨hgap, by rwa [hlay], hlex⟩, ?_⟩
      rw [layOut, hlay, List.take_append_drop, hsplit]

/-! ### The line shown -/

section Shown

variable [Unicode]

/-- Which tokens of a line are values. -/
def marks (skip : Nat) : List Str → List Bool
  | [] => []
  | token :: after =>
    match skip with
    | skip + 2 => false :: marks (skip + 1) after
    | 1 => true :: marks 0 after
    | 0 =>
      match choice token after with
      | .pass => false :: marks 0 after
      | .over => false :: after.map fun _ => false
      | .value n => false :: marks (n + 1) after

/-- A line with the marked tokens hidden. -/
def shown : List Bool → List (Str × Str) → Str → Str
  | mark :: marks, (gap, token) :: pieces, last =>
    gap ++ ((if mark then REDACTED ++ token.drop (hiddenLength token) else token) ++
      shown marks pieces last)
  | _, pieces, last => layOut pieces last

omit [Unicode] in
theorem shown_unmarked (pieces : List (Str × Str)) (last : Str) {α : Type} (l : List α) :
    shown (l.map fun _ => false) pieces last = layOut pieces last := by
  induction pieces generalizing l with
  | nil => cases l <;> rfl
  | cons p pieces ih =>
    cases l with
    | nil => rfl
    | cons a l =>
      obtain ⟨gap, token⟩ := p
      rw [List.map_cons, shown, ih, layOut, if_neg Bool.false_ne_true]

theorem values_sublist (skip : Nat) (ms : List Match) : (values skip ms).Sublist ms := by
  induction ms generalizing skip with
  | nil => exact List.Sublist.refl _
  | cons m ms ih =>
    match skip with
    | skip + 2 => exact (ih _).cons m
    | 1 => exact (ih _).cons_cons m
    | 0 =>
      rw [values]
      split
      · exact (ih _).cons m
      · exact List.nil_sublist _
      · exact (ih _).cons m

omit [Unicode] in
theorem hiddenLength_le (token : Str) : hiddenLength token ≤ token.length := by
  unfold hiddenLength
  split
  · exact le_rfl
  · exact (List.rdropWhile_prefix _ _).length_le

/-- `cover` on the part of a line from a position on. -/
def coverFrom (pos : Nat) (span : Nat × Nat) (s : Str) : Str :=
  s.take (span.1 - pos) ++ (REDACTED ++ s.drop (span.2 - pos))

omit [Unicode] in
/-- What stands before every span stays. -/
theorem foldr_cover_append (pre s : Str) (pos : Nat) {spans : List (Nat × Nat)}
    (h : ∀ sp ∈ spans, pos + pre.length ≤ sp.1 ∧ sp.1 ≤ sp.2) :
    spans.foldr (coverFrom pos) (pre ++ s) =
      pre ++ spans.foldr (coverFrom (pos + pre.length)) s := by
  induction spans with
  | nil => rfl
  | cons sp spans ih =>
    obtain ⟨hlo, hhi⟩ := h sp (List.mem_cons_self ..)
    have hfirst : pre.length ≤ sp.1 - pos := by omega
    have hsecond : pre.length ≤ sp.2 - pos := by omega
    rw [List.foldr_cons, List.foldr_cons, ih fun x hx => h x (List.mem_cons_of_mem _ hx),
      coverFrom, coverFrom, List.take_append, List.drop_append, List.take_of_length_le hfirst,
      List.drop_of_length_le hsecond, List.nil_append, List.append_assoc, Nat.sub_sub, Nat.sub_sub]

/-- The spans of the values from a position on are ahead of it. -/
theorem le_span_of_mem_values {skip pos : Nat} {pieces : List (Str × Str)} {sp : Nat × Nat}
    (h : sp ∈ (values skip (matchesAt pos pieces)).map span) : pos ≤ sp.1 ∧ sp.1 ≤ sp.2 := by
  obtain ⟨m, hm, rfl⟩ := List.mem_map.mp h
  exact ⟨le_start_of_mem_matchesAt ((values_sublist _ _).subset hm), Nat.le_add_right _ _⟩

theorem foldr_cover_layOut (pieces : List (Str × Str)) (last : Str) (skip pos : Nat) :
    ((values skip (matchesAt pos pieces)).map span).foldr (coverFrom pos) (layOut pieces last) =
      shown (marks skip (pieces.map Prod.snd)) pieces last := by
  induction pieces generalizing skip pos with
  | nil => rfl
  | cons p pieces ih =>
    obtain ⟨gap, token⟩ := p
    have hrest (skip : Nat) : ((values skip (matchesAt (pos + gap.length + token.length)
        pieces)).map span).foldr (coverFrom pos) (gap ++ (token ++ layOut pieces last)) =
          gap ++ (token ++ shown (marks skip (pieces.map Prod.snd)) pieces last) := by
      have hpos : pos + (gap ++ token).length = pos + gap.length + token.length := by
        rw [List.length_append, Nat.add_assoc]
      rw [← List.append_assoc, foldr_cover_append _ _ _ fun sp hsp => by
        rw [hpos]
        exact le_span_of_mem_values hsp, hpos, ih, List.append_assoc]
    rw [List.map_cons, matchesAt, layOut]
    match skip with
    | skip + 2 =>
      rw [values, marks, hrest, shown, if_neg Bool.false_ne_true]
    | 1 =>
      rw [values, marks, List.map_cons, List.foldr_cons, hrest, shown, if_pos rfl, coverFrom, span]
      have hstart : pos + gap.length - pos = gap.length := Nat.add_sub_cancel_left ..
      have hend : pos + gap.length + hiddenLength token - pos =
          gap.length + hiddenLength token := by
        omega
      rw [hstart, hend, List.take_left, ← List.drop_drop, List.drop_left,
        List.drop_append_of_le_length (hiddenLength_le token), List.append_assoc]
    | 0 =>
      rw [values, marks, map_text_matchesAt]
      split
      · next h => rw [h, hrest, shown, if_neg Bool.false_ne_true]
      · next h =>
        rw [h, List.map_nil, List.foldr_nil]
        have hnone := shown_unmarked ((gap, token) :: pieces) last (token :: pieces.map Prod.snd)
        exact hnone.symm
      · next n h => rw [h, hrest, shown, if_neg Bool.false_ne_true]

/-- **A line redacted** is the line with its values hidden where they stand. -/
theorem redact_layOut {pieces : List (Str × Str)} {last : Str} (h : Lexes pieces last) :
    redact (layOut pieces last) = shown (marks 0 (pieces.map Prod.snd)) pieces last := by
  rw [redact, spans, finditer_layOut h]
  exact foldr_cover_layOut pieces last 0 0

end Shown

end Logs
end NetRollout
