import NetRollout.Logs.Redaction

/-!
# A redacted line tells nothing of its secrets

Two lines that differ in a hidden value are redacted alike.  The value's characters
decide nothing: not where the tokens around it end (`lexes_replace`), since no quote
comes into being, and not what the loop does (`marks_replace`), since the loop looks at a
value only to see that it is neither keyword nor type, and whether it is quoted.
-/

namespace NetRollout
namespace Logs

open PyText

/-! ## The loop -/

section Loop

variable [Unicode]

omit [Unicode] in
theorem drop_length_takeWhile {α : Type} (q : α → Bool) (l : List α) :
    l.drop (l.takeWhile q).length = l.dropWhile q := by
  have hsplit := List.takeWhile_append_dropWhile (p := q) (l := l)
  calc l.drop (l.takeWhile q).length
      = (l.takeWhile q ++ l.dropWhile q).drop (l.takeWhile q).length := by rw [hsplit]
    _ = l.dropWhile q := List.drop_left

/-- What a keyword leads to, unless it is the end of the line. -/
theorem choice_cases {t : Str} (ht : isKeyword t = true) (after : List Str) :
    choice t after = .over ∨ ∃ names types v post, after = names ++ (types ++ v :: post) ∧
      (∀ x ∈ names, isName x = true) ∧ (∀ x ∈ types, isType x = true) ∧ isType v = false ∧
        (types = [] → isName v = false) := by
  have hnames := List.takeWhile_append_dropWhile (p := isName) (l := after)
  have htypes := List.takeWhile_append_dropWhile (p := isType) (l := after.dropWhile isName)
  cases hrest : (after.dropWhile isName).dropWhile isType with
  | nil =>
    left
    rw [hrest, List.append_nil] at htypes
    have hlength : after.length ≤ (after.takeWhile isName).length +
        ((after.dropWhile isName).takeWhile isType).length := by
      rw [htypes, ← List.length_append, hnames]
    rw [choice, if_pos ht]
    simp only [drop_length_takeWhile, List.getElem?_eq_none hlength]
  | cons v post =>
    right
    refine ⟨after.takeWhile isName, (after.dropWhile isName).takeWhile isType, v, post, ?_,
      fun x hx => List.mem_takeWhile_imp hx, fun x hx => List.mem_takeWhile_imp hx, ?_, ?_⟩
    · rw [← hrest, htypes, hnames]
    · have hhead := List.head?_dropWhile_not isType (after.dropWhile isName)
      rw [hrest] at hhead
      simpa using hhead
    · intro hnil
      have hhead := List.head?_dropWhile_not isName after
      rw [hnil, List.nil_append] at htypes
      rw [← htypes, hrest] at hhead
      simpa using hhead

/-- **A keyword looks at a value only so far**: another plain token of the same kind, in
its place or after it, changes nothing. -/
theorem choice_replace {x t t' : Str} {a b names types post : List Str} {v : Str}
    (hx : isKeyword x = true) (hafter : a ++ t :: b = names ++ (types ++ v :: post))
    (hnames : ∀ y ∈ names, isName y = true) (htypes : ∀ y ∈ types, isType y = true)
    (hv : isType v = false) (hfirst : types = [] → isName v = false)
    (hle : names.length + types.length ≤ a.length) (ht' : isPlain t' = true)
    (hquoted : quoted t' = quoted t) :
    choice x (a ++ t' :: b) = choice x (a ++ t :: b) := by
  rw [hafter, choice_of_run hx hnames htypes hv hfirst]
  rw [← List.append_assoc] at hafter
  rcases List.append_eq_append_iff.mp hafter with ⟨c, hac, hb⟩ | ⟨c, hnt, htb⟩
  · -- the value is the token replaced
    have hlength := congrArg List.length hac
    rw [List.length_append, List.length_append] at hlength
    obtain rfl : c = [] := List.length_eq_zero_iff.mp (by omega)
    obtain ⟨rfl, rfl⟩ := List.cons.inj hb
    rw [List.append_nil] at hac
    rw [← hac, List.append_assoc, choice_of_run hx hnames htypes (isPlain_iff.mp ht').2
      fun _ => isName_of_isPlain ht', hquoted]
  · cases c with
    | nil =>
      obtain ⟨rfl, rfl⟩ := List.cons.inj htb
      rw [List.append_nil] at hnt
      rw [hnt, List.append_assoc, choice_of_run hx hnames htypes (isPlain_iff.mp ht').2
        fun _ => isName_of_isPlain ht', hquoted]
    | cons u c =>
      -- the value stands before it
      obtain ⟨rfl, hpost⟩ := List.cons.inj htb
      rw [hnt, List.append_assoc, List.append_assoc, List.cons_append,
        choice_of_run hx hnames htypes hv hfirst]

/-- The first token of a line is no value. -/
theorem marks_zero_cons (t : Str) (after : List Str) :
    (marks 0 (t :: after))[0]? = some false := by
  rw [marks]
  split <;> rfl

/-- No value stands before the token the loop jumps to. -/
theorem le_of_marked_jump {n i : Nat} {l : List Str} (h : (marks (n + 1) l)[i]? = some true) :
    n ≤ i := by
  induction l generalizing n i with
  | nil => cases h
  | cons t l ih =>
    cases n with
    | zero => exact Nat.zero_le _
    | succ n =>
      cases i with
      | zero => cases h
      | succ i => exact Nat.succ_le_succ (ih h)

/-- No value stands among the names a line begins with. -/
theorem le_of_marked {i : Nat} {l : List Str} (h : (marks 0 l)[i]? = some true) :
    (l.takeWhile isName).length ≤ i := by
  induction l generalizing i with
  | nil => exact Nat.zero_le _
  | cons t l ih =>
    rw [List.takeWhile_cons]
    split
    · next ht =>
      cases i with
      | zero =>
        rw [marks_zero_cons] at h
        cases h
      | succ i =>
        refine Nat.succ_le_succ ?_
        rw [marks] at h
        split at h
        · exact ih h
        · rw [List.getElem?_cons_succ, List.getElem?_map, Option.map_eq_some_iff] at h
          obtain ⟨_, _, hfalse⟩ := h
          cases hfalse
        · next n hchoice =>
          refine le_trans ?_ (le_of_marked_jump h)
          rw [choice, if_pos (isKeyword_of_isName ht)] at hchoice
          dsimp only at hchoice
          split at hchoice
          · cases hchoice
          · split at hchoice
            · cases hchoice
            · cases hchoice
              exact Nat.le_add_right _ _
    · exact Nat.zero_le _

/-- **A value decides nothing**: another plain token of its kind in its place leaves the
marks as they are. -/
theorem marks_replace {a b : List Str} {t t' : Str} {skip : Nat}
    (h : (marks skip (a ++ t :: b))[a.length]? = some true) (ht' : isPlain t' = true)
    (hquoted : quoted t' = quoted t) :
    marks skip (a ++ t' :: b) = marks skip (a ++ t :: b) := by
  induction a generalizing skip with
  | nil =>
    rcases skip with _ | _ | skip
    · rw [List.nil_append, List.length_nil, marks_zero_cons] at h
      cases h
    · rfl
    · cases h
  | cons x a ih =>
    rw [List.cons_append, List.length_cons] at h
    rw [List.cons_append, List.cons_append]
    rcases skip with _ | _ | skip
    · have hsame (hle : isKeyword x = true → ∀ names types v post,
          a ++ t :: b = names ++ (types ++ v :: post) → (∀ y ∈ names, isName y = true) →
            (∀ y ∈ types, isType y = true) → isType v = false →
              (types = [] → isName v = false) → names.length + types.length ≤ a.length)
          (hover : choice x (a ++ t :: b) ≠ .over) :
          choice x (a ++ t' :: b) = choice x (a ++ t :: b) := by
        cases hx : isKeyword x with
        | false => rw [choice_of_not_keyword hx, choice_of_not_keyword hx]
        | true =>
          rcases choice_cases hx (a ++ t :: b) with
            hend | ⟨names, types, v, post, hafter, hnames, htypes, hv, hfirst⟩
          · exact absurd hend hover
          · exact choice_replace hx hafter hnames htypes hv hfirst
              (hle hx names types v post hafter hnames htypes hv hfirst) ht' hquoted
      rw [marks] at h
      rw [marks, marks]
      split at h
      · next hpass =>
        rw [hsame ?_ (by rw [hpass]; intro hend; cases hend), hpass]
        · exact congrArg (false :: ·) (ih h)
        · intro hx names types v post hafter hnames htypes hv hfirst
          have hround := @choice_of_run _ _ _ _ _ post hx hnames htypes hv hfirst
          rw [← hafter, hpass] at hround
          split at hround
          · next hskip =>
            obtain rfl : types = [] := not_not.mp (not_or.mp hskip.2.1).2
            have hnamed : (a ++ t :: b).takeWhile isName = names := by
              rw [hafter, List.takeWhile_append_of_pos hnames, List.nil_append,
                List.takeWhile_cons_of_neg (by rw [hfirst rfl]; decide), List.append_nil]
            have hmarked := le_of_marked (l := a ++ t :: b) h
            rwa [hnamed] at hmarked
          · cases hround
      · rw [List.getElem?_cons_succ, List.getElem?_map, Option.map_eq_some_iff] at h
        obtain ⟨_, _, hfalse⟩ := h
        cases hfalse
      · next n hvalue =>
        rw [hsame ?_ (by rw [hvalue]; intro hend; cases hend), hvalue]
        · exact congrArg (false :: ·) (ih h)
        · intro hx names types v post hafter hnames htypes hv hfirst
          have hround := @choice_of_run _ _ _ _ _ post hx hnames htypes hv hfirst
          rw [← hafter, hvalue] at hround
          split at hround
          · cases hround
          · cases hround
            exact le_of_marked_jump h
    · exact congrArg (true :: ·) (ih h)
    · exact congrArg (false :: ·) (ih h)

end Loop

/-! ## The line -/

/-- Text of the same kind: a quoted token for a quoted one, else characters that are one
token wherever they stand and end in none of the closing punctuation. -/
def SameKind (token new : Str) : Prop :=
  if quoted token then ∃ body, '"' ∉ body ∧ new = '"' :: (body ++ ['"'])
  else new ≠ [] ∧ (∀ c ∈ new, isSpace c = false ∧ c ≠ '"') ∧
    ∀ c ∈ new.getLast?, c ∉ ['\'', '"', ')', ',', ';']

theorem layOut_append (pre pieces : List (Str × Str)) (last : Str) :
    layOut (pre ++ pieces) last = layOut pre [] ++ layOut pieces last := by
  induction pre with
  | nil => rfl
  | cons p pre ih =>
    obtain ⟨gap, token⟩ := p
    rw [List.cons_append, layOut, layOut, ih, List.append_assoc, List.append_assoc]

/-- Where the line begins, before a token that is replaced. -/
theorem head?_layOut_replace {pre post : List (Str × Str)} {gap token last : Str}
    (h : Lexes (pre ++ (gap, token) :: post) last) (token' : Str) :
    (layOut (pre ++ (gap, token') :: post) last).head? =
        (layOut (pre ++ (gap, token) :: post) last).head? ∨
      ∃ c, (layOut (pre ++ (gap, token) :: post) last).head? = some c ∧ isSpace c = false := by
  cases pre with
  | nil =>
    obtain ⟨-, htoken, -⟩ := h
    obtain ⟨hne, hhead, -⟩ := matchLength_token htoken
    obtain ⟨c, s, rfl⟩ := List.exists_cons_of_ne_nil hne
    cases gap with
    | nil => exact .inr ⟨c, rfl, hhead c rfl⟩
    | cons d gap => exact .inl rfl
  | cons p pre =>
    obtain ⟨g, t⟩ := p
    obtain ⟨-, htoken, -⟩ := h
    obtain ⟨c, s, rfl⟩ := List.exists_cons_of_ne_nil (matchLength_token htoken).1
    left
    cases g <;> rfl

theorem mem_layOut_replace {pre post : List (Str × Str)} {gap token token' last : Str} {c : Char}
    (hc : c ∈ token' → c ∈ token) (h : c ∈ layOut (pre ++ (gap, token') :: post) last) :
    c ∈ layOut (pre ++ (gap, token) :: post) last := by
  rw [layOut_append, layOut] at h ⊢
  simp only [List.mem_append] at h ⊢
  exact h.imp id (Or.imp id (Or.imp hc id))

/-- **The tokens around a replaced one** stay as they are. -/
theorem lexes_replace {pre post : List (Str × Str)} {gap token token' last : Str}
    (h : Lexes (pre ++ (gap, token) :: post) last) (htoken : IsToken token' (layOut post last))
    (hquote : '"' ∈ token' → '"' ∈ token) : Lexes (pre ++ (gap, token') :: post) last := by
  induction pre with
  | nil => exact ⟨h.1, htoken, h.2.2⟩
  | cons p pre ih =>
    obtain ⟨g, t⟩ := p
    rw [List.cons_append] at h ⊢
    obtain ⟨hgap, ht, hrest⟩ := h
    refine ⟨hgap, ?_, ih hrest⟩
    rcases ht with hquoted | ⟨hne, hspace, hhead, hq⟩
    · exact .inl hquoted
    · refine .inr ⟨hne, hspace, ?_, fun hstart hmem => hq hstart ?_⟩
      · rcases head?_layOut_replace hrest token' with hsame | ⟨c, hc, hblank⟩
        · rw [hsame]
          exact hhead
        · have hsp := hhead c hc
          rw [hblank] at hsp
          cases hsp
      · rw [List.mem_append] at hmem ⊢
        exact hmem.imp id (mem_layOut_replace hquote)

theorem rdropWhile_append_of_pos {p : Char → Bool} (s : Str) {t : Str} (h : ∀ c ∈ t, p c = true) :
    (s ++ t).rdropWhile p = s.rdropWhile p := by
  rw [List.rdropWhile, List.rdropWhile, List.reverse_append,
    List.dropWhile_append_of_pos fun c hc => h c (List.mem_reverse.mp hc)]

/-- What stays of a value that is not quoted is closing punctuation. -/
theorem mem_of_mem_drop_hiddenLength {token : Str} (h : quoted token = false) :
    ∀ c ∈ token.drop (hiddenLength token), c ∈ ['\'', '"', ')', ',', ';'] := by
  intro c hc
  have hsplit : rstripOf ['\'', '"', ')', ',', ';'] token ++
      token.rtakeWhile (· ∈ ['\'', '"', ')', ',', ';']) = token :=
    List.rdropWhile_append_rtakeWhile
  rw [hiddenLength, if_neg (by rw [h]; decide)] at hc
  rw [← hsplit, List.drop_left' (by rw [hsplit])] at hc
  have hpunct := List.mem_rtakeWhile_imp hc
  exact of_decide_eq_true hpunct

section Replace

variable [Unicode]

/-- The value with what stays of it. -/
theorem word_append {new punct : Str} (h : ∀ c ∈ punct, c ∈ ['\'', '"', ')', ',', ';']) :
    word (new ++ punct) = word new := by
  have hstrip : ∀ c ∈ punct, decide (c ∈ ['\'', '"', '(', ')', ',', ';', ':']) = true := by
    intro c hc
    have hmem := h c hc
    simp only [List.mem_cons, List.not_mem_nil, or_false] at hmem
    rcases hmem with rfl | rfl | rfl | rfl | rfl <;> decide
  rw [word, word, stripOf, stripOf]
  congr 1
  by_cases hall : ∀ c ∈ new, decide (c ∈ ['\'', '"', '(', ')', ',', ';', ':']) = true
  · rw [List.dropWhile_append_of_pos hall, List.dropWhile_eq_nil_iff.mpr hall,
      List.dropWhile_eq_nil_iff.mpr hstrip]
  · have hne : new.dropWhile (fun c => decide (c ∈ ['\'', '"', '(', ')', ',', ';', ':'])) ≠ [] :=
      fun hnil => hall (List.dropWhile_eq_nil_iff.mp hnil)
    rw [List.dropWhile_append, if_neg (by simpa using hne), rdropWhile_append_of_pos _ hstrip]

theorem isPlain_append {new punct : Str} (h : ∀ c ∈ punct, c ∈ ['\'', '"', ')', ',', ';']) :
    isPlain (new ++ punct) = isPlain new := by
  simp only [isPlain, isKeyword, isName, isType, word_append h]

omit [Unicode] in
/-- A token of the same kind hides as much, and what stays of it is the same. -/
theorem hidden_of_sameKind {token new : Str} (h : SameKind token new) :
    quoted (new ++ token.drop (hiddenLength token)) = quoted token ∧
      hiddenLength (new ++ token.drop (hiddenLength token)) = new.length := by
  unfold SameKind at h
  split at h
  · next hq =>
    obtain ⟨body, -, rfl⟩ := h
    have hall : token.drop (hiddenLength token) = [] := by
      rw [hiddenLength, if_pos hq, List.drop_length]
    rw [hall, List.append_nil]
    exact ⟨hq.symm, if_pos rfl⟩
  · next hq =>
    obtain ⟨hne, hplain, hlast⟩ := h
    have hq' : quoted token = false := Bool.eq_false_iff.mpr hq
    obtain ⟨c, s, rfl⟩ := List.exists_cons_of_ne_nil hne
    have hquoted : quoted (c :: s ++ token.drop (hiddenLength token)) = false := by
      rw [quoted, List.cons_append, List.head?_cons, decide_eq_false_iff_not]
      exact fun heq => (hplain c (List.mem_cons_self ..)).2 (Option.some.inj heq)
    refine ⟨hquoted.trans hq'.symm, ?_⟩
    have hpunct : ∀ x ∈ token.drop (hiddenLength token),
        decide (x ∈ ['\'', '"', ')', ',', ';']) = true := fun x hx =>
      decide_eq_true (mem_of_mem_drop_hiddenLength hq' x hx)
    rw [hiddenLength, if_neg (by rw [hquoted]; decide), rstripOf,
      rdropWhile_append_of_pos _ hpunct, List.rdropWhile_eq_self_iff.mpr]
    intro hne'
    have hend := hlast _ (List.getLast?_eq_getLast_of_ne_nil hne')
    simpa using hend

omit [Unicode] in
/-- It is a token where the old one was. -/
theorem isToken_of_sameKind {token new rest : Str} (h : SameKind token new)
    (htoken : IsToken token rest) :
    IsToken (new ++ token.drop (hiddenLength token)) rest ∧
      ('"' ∈ new ++ token.drop (hiddenLength token) → '"' ∈ token) := by
  unfold SameKind at h
  split at h
  · next hq =>
    obtain ⟨body, hbody, rfl⟩ := h
    have hall : token.drop (hiddenLength token) = [] := by
      rw [hiddenLength, if_pos hq, List.drop_length]
    rw [hall, List.append_nil]
    exact ⟨.inl ⟨body, hbody, rfl⟩, fun _ => List.mem_of_mem_head? (of_decide_eq_true hq)⟩
  · next hq =>
    obtain ⟨hne, hplain, -⟩ := h
    have hdrop : ∀ c ∈ token.drop (hiddenLength token), c ∈ token := fun c hc =>
      (List.drop_suffix _ _).subset hc
    rcases htoken with ⟨body, -, rfl⟩ | ⟨-, hspace, hhead, -⟩
    · exact absurd rfl hq
    · refine ⟨.inr ⟨List.append_ne_nil_of_left_ne_nil hne _, ?_, hhead, ?_⟩, ?_⟩
      · intro c hc
        rcases List.mem_append.mp hc with hc | hc
        · exact (hplain c hc).1
        · exact hspace c (hdrop c hc)
      · intro hquoted
        obtain ⟨c, s, rfl⟩ := List.exists_cons_of_ne_nil hne
        rw [quoted, List.cons_append, List.head?_cons, decide_eq_true_eq] at hquoted
        exact absurd (Option.some.inj hquoted) (hplain c (List.mem_cons_self ..)).2
      · intro hmem
        rcases List.mem_append.mp hmem with hc | hc
        · exact absurd rfl (hplain _ hc).2
        · exact hdrop _ hc

/-- A value of a line, as one of its tokens. -/
theorem exists_of_mem_values {pieces : List (Str × Str)} {skip pos : Nat} {m : Match}
    (h : m ∈ values skip (matchesAt pos pieces)) :
    ∃ pre gap post, pieces = pre ++ (gap, m.text) :: post ∧
      m.start = pos + (layOut pre []).length + gap.length ∧
        (marks skip (pieces.map Prod.snd))[pre.length]? = some true := by
  induction pieces generalizing skip pos with
  | nil => cases h
  | cons p pieces ih =>
    obtain ⟨gap, token⟩ := p
    have hlater {skip : Nat}
        (h : m ∈ values skip (matchesAt (pos + gap.length + token.length) pieces)) :
        ∃ pre gap' post, (gap, token) :: pieces = pre ++ (gap', m.text) :: post ∧
          m.start = pos + (layOut pre []).length + gap'.length ∧ ∃ pre', pre = (gap, token) :: pre' ∧
            (marks skip (pieces.map Prod.snd))[pre'.length]? = some true := by
      obtain ⟨pre, gap', post, rfl, hstart, hmarked⟩ := ih h
      refine ⟨(gap, token) :: pre, gap', post, rfl, ?_, pre, rfl, hmarked⟩
      rw [hstart, layOut, List.length_append, List.length_append]
      omega
    rw [matchesAt] at h
    rw [List.map_cons]
    rcases skip with _ | _ | skip
    · rw [values, map_text_matchesAt] at h
      rw [marks]
      split at h
      · next hchoice =>
        rw [hchoice]
        obtain ⟨pre, gap', post, hpieces, hstart, pre', rfl, hmarked⟩ := hlater h
        exact ⟨_, gap', post, hpieces, hstart, hmarked⟩
      · cases h
      · next hchoice =>
        rw [hchoice]
        obtain ⟨pre, gap', post, hpieces, hstart, pre', rfl, hmarked⟩ := hlater h
        exact ⟨_, gap', post, hpieces, hstart, hmarked⟩
    · rcases List.mem_cons.mp h with rfl | h
      · exact ⟨[], gap, pieces, rfl, rfl, rfl⟩
      · obtain ⟨pre, gap', post, hpieces, hstart, pre', rfl, hmarked⟩ := hlater h
        exact ⟨_, gap', post, hpieces, hstart, hmarked⟩
    · obtain ⟨pre, gap', post, hpieces, hstart, pre', rfl, hmarked⟩ := hlater h
      exact ⟨_, gap', post, hpieces, hstart, hmarked⟩

omit [Unicode] in
theorem shown_replace {pre post : List (Str × Str)} {gap token token' last : Str}
    {marks : List Bool} (hmarked : marks[pre.length]? = some true)
    (hstays : token'.drop (hiddenLength token') = token.drop (hiddenLength token)) :
    shown marks (pre ++ (gap, token') :: post) last =
      shown marks (pre ++ (gap, token) :: post) last := by
  induction pre generalizing marks with
  | nil =>
    cases marks with
    | nil => cases hmarked
    | cons mark marks =>
      cases hmarked
      rw [List.nil_append, List.nil_append, shown, shown, if_pos rfl, if_pos rfl, hstays]
  | cons p pre ih =>
    obtain ⟨g, t⟩ := p
    cases marks with
    | nil => cases hmarked
    | cons mark marks => rw [List.cons_append, List.cons_append, shown, shown, ih hmarked]

omit [Unicode] in
theorem isToken_of_lexes {pre post : List (Str × Str)} {gap token last : Str}
    (h : Lexes (pre ++ (gap, token) :: post) last) : IsToken token (layOut post last) := by
  induction pre with
  | nil => exact h.2.1
  | cons p pre ih => exact ih h.2.2

/-- **The output carries nothing of a secret**: a hidden value replaced by any other text
of its kind, neither keyword nor type, gives the same redacted line. -/
theorem redact_replace {text : Str} {m : Match} (hm : m ∈ values 0 (finditer 0 0 text)) {new : Str}
    (hkind : SameKind m.text new) (hplain : isPlain new = true) :
    redact (text.take (span m).1 ++ (new ++ text.drop (span m).2)) = redact text := by
  obtain ⟨pieces, last, hlex, rfl⟩ := exists_layOut text
  rw [finditer_layOut hlex] at hm
  obtain ⟨pre, gap, post, rfl, hstart, hmarked⟩ := exists_of_mem_values hm
  obtain ⟨htoken, hquote⟩ := isToken_of_sameKind hkind (isToken_of_lexes hlex)
  obtain ⟨hquoted, hhidden⟩ := hidden_of_sameKind hkind
  -- what is left of the token after the span
  have hpunct : isPlain (new ++ m.text.drop (hiddenLength m.text)) = true := by
    by_cases hq : quoted m.text = true
    · rw [hiddenLength, if_pos hq, List.drop_length, List.append_nil, hplain]
    · rw [isPlain_append (mem_of_mem_drop_hiddenLength (Bool.eq_false_iff.mpr hq)), hplain]
  have hline : (layOut (pre ++ (gap, m.text) :: post) last).take (span m).1 ++
      (new ++ (layOut (pre ++ (gap, m.text) :: post) last).drop (span m).2) =
        layOut (pre ++ (gap, new ++ m.text.drop (hiddenLength m.text)) :: post) last := by
    have hfirst : (span m).1 = (layOut pre [] ++ gap).length := by
      rw [span, hstart, List.length_append, Nat.zero_add]
    have hsecond : (span m).2 = (layOut pre [] ++ gap).length + hiddenLength m.text := by
      rw [← hfirst, span]
    have hlay (token : Str) : layOut (pre ++ (gap, token) :: post) last =
        (layOut pre [] ++ gap) ++ (token ++ layOut post last) := by
      rw [layOut_append, layOut, List.append_assoc]
    rw [hlay, hlay, hsecond, hfirst, List.take_left, ← List.drop_drop, List.drop_left,
      List.drop_append_of_le_length (hiddenLength_le _), List.append_assoc new]
  rw [hline, redact_layOut (lexes_replace hlex htoken hquote), redact_layOut hlex]
  have htexts (token : Str) : (pre ++ (gap, token) :: post).map Prod.snd =
      pre.map Prod.snd ++ token :: post.map Prod.snd := by
    rw [List.map_append, List.map_cons]
  have hsame : marks 0 ((pre ++ (gap, new ++ m.text.drop (hiddenLength m.text)) :: post).map
      Prod.snd) = marks 0 ((pre ++ (gap, m.text) :: post).map Prod.snd) := by
    rw [htexts, htexts]
    rw [htexts, ← List.length_map (f := Prod.snd)] at hmarked
    exact marks_replace hmarked hpunct hquoted
  rw [hsame]
  refine shown_replace hmarked ?_
  rw [hhidden, List.drop_left]

end Replace

/-- Another password in the line of a new user. -/
theorem redact_replace_username :
    @redact Unicode.ascii "R1: 'username ops password 0 hunter2' rejected".toList =
      @redact Unicode.ascii "R1: 'username ops password 0 S3cret' rejected".toList := by
  refine @redact_replace Unicode.ascii "R1: 'username ops password 0 S3cret' rejected".toList
    ⟨29, "S3cret'".toList⟩ (by decide) "hunter2".toList ?_ (by decide)
  have hword : ("hunter2".toList.all fun c => !isSpace c && c != '"') = true := by decide
  refine (if_neg (by decide)).mpr ⟨by decide, fun c hc => ?_, fun c hc => ?_⟩
  · simpa using List.all_eq_true.mp hword c hc
  · obtain rfl : '2' = c := Option.some.inj hc
    decide

end Logs
end NetRollout
