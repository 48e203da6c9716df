import NetRollout.Evidence.Passes

/-!
# Addresses

An address in a command must be the address of the line it is proven by.  The one
danger is the abbreviation rule: a typed word may be the beginning of the
device's word, letters going on into letters.

An IPv4 address begins with a digit, so only itself matches it.  A group of an
IPv6 address may begin with letters, and then it may be short: `fe::1` is taken
for an abbreviation of `fed::1`.  `Extensible` names these spellings, and
`eq_of_sameWord` says that every other address matches no address but itself.

`addresses_judge` is what that gives a verdict: its line has the address, unless
the device named the line --- the header of a block it opened.
-/

namespace NetRollout
namespace Evidence

open PyText

/-! ## Address literals -/

/-- A decimal octet. -/
def Octet (o : Str) : Prop :=
  o ≠ [] ∧ o.length ≤ 3 ∧ (∀ c ∈ o, c.isDigit = true) ∧
    o.foldl (fun n c => 10 * n + (c.toNat - '0'.toNat)) 0 ≤ 255

/-- An IPv4 address in dotted decimal. -/
inductive IPv4 : Str → Prop where
  | mk (a b c d : Str) (ha : Octet a) (hb : Octet b) (hc : Octet c) (hd : Octet d) :
      IPv4 (a ++ '.' :: (b ++ '.' :: (c ++ '.' :: d)))

/-- A group of an IPv6 address: one to four hexadecimal digits, lower case. -/
def HexGroup (g : Str) : Prop :=
  g ≠ [] ∧ g.length ≤ 4 ∧ ∀ c ∈ g, c.isDigit = true ∨ ('a' ≤ c ∧ c ≤ 'f')

/-- `":".join(groups)`. -/
def joinColon (groups : List Str) : Str := [':'].intercalate groups

/-- An IPv6 address: eight groups, some of them written `::`, the last two of
them perhaps as an IPv4 address. -/
inductive IPv6 : Str → Prop where
  | full (groups : List Str) (hlen : groups.length = 8) (hhex : ∀ g ∈ groups, HexGroup g) :
      IPv6 (joinColon groups)
  | compressed (left right : List Str) (hlen : left.length + right.length ≤ 7)
      (hhex : ∀ g ∈ left ++ right, HexGroup g) :
      IPv6 (joinColon left ++ ':' :: ':' :: joinColon right)
  | fullMapped (groups : List Str) (v4 : Str) (hlen : groups.length = 6)
      (hhex : ∀ g ∈ groups, HexGroup g) (hv4 : IPv4 v4) : IPv6 (joinColon (groups ++ [v4]))
  | mapped (left right : List Str) (v4 : Str) (hlen : left.length + right.length ≤ 5)
      (hhex : ∀ g ∈ left ++ right, HexGroup g) (hv4 : IPv4 v4) :
      IPv6 (joinColon left ++ ':' :: ':' :: joinColon (right ++ [v4]))

/-- An address, or a prefix: an address with its length. -/
inductive Literal (address : Str → Prop) : Str → Prop where
  | plain {a : Str} (ha : address a) : Literal address a
  | withLength {a : Str} (n : Str) (ha : address a) (hn : n ≠ [] ∧ ∀ c ∈ n, c.isDigit = true) :
      Literal address (a ++ '/' :: n)

/-- An IPv4 or IPv6 address or prefix. -/
def AddressLiteral (w : Str) : Prop := Literal IPv4 w ∨ Literal IPv6 w

/-- What stands before a word's first colon. -/
def firstGroup (w : Str) : Str := w.takeWhile (· != ':')

/-- An address that begins with two letters or more and whose first group is not
full: longer groups begin like it. -/
def Extensible (w : Str) : Prop := 2 ≤ (split w).1.length ∧ (firstGroup w).length < 4

/-! ## How an address begins -/

/-- A word that begins with a digit has no leading letters. -/
theorem split_cons_of_isDigit {c : Char} (h : c.isDigit = true) (w : Str) :
    (split (c :: w)).1 = [] := by
  have hc : ('a' ≤ c && c ≤ 'z') = false := by
    have hlt : c.val.toNat ≤ 57 := by
      have h' := h
      simp only [Char.isDigit, Bool.and_eq_true, decide_eq_true_eq, ge_iff_le,
        UInt32.le_iff_toNat_le] at h'
      exact h'.2
    simp only [Bool.and_eq_false_iff, decide_eq_false_iff_not]
    left
    intro hle
    have hle' : 'a'.val.toNat ≤ c.val.toNat := UInt32.le_iff_toNat_le.mp hle
    have ha : 'a'.val.toNat = 97 := rfl
    omega
  simp only [split, List.takeWhile_cons, hc]
  simp

theorem split_ipv4 {w : Str} (h : Literal IPv4 w) : (split w).1 = [] := by
  have hstart : ∀ {a : Str}, IPv4 a → ∃ c t, a = c :: t ∧ c.isDigit = true := by
    rintro _ ⟨a, b, c, d, ha, -, -, -⟩
    obtain ⟨x, t, rfl⟩ := List.exists_cons_of_ne_nil ha.1
    exact ⟨x, _, rfl, ha.2.2.1 x (List.mem_cons_self ..)⟩
  cases h with
  | plain ha =>
    obtain ⟨c, t, rfl, hc⟩ := hstart ha
    exact split_cons_of_isDigit hc t
  | withLength n ha _ =>
    obtain ⟨c, t, rfl, hc⟩ := hstart ha
    exact split_cons_of_isDigit hc _

theorem joinColon_cons_cons (g h : Str) (groups : List Str) :
    joinColon (g :: h :: groups) = g ++ ':' :: joinColon (h :: groups) := by
  simp [joinColon, List.intercalate, List.intersperse]

theorem ne_colon_of_hexGroup {g : Str} (h : HexGroup g) : ∀ c ∈ g, c ≠ ':' := by
  rintro _ hc rfl
  rcases h.2.2 ':' hc with h | h
  · exact absurd h (by decide)
  · exact absurd h.1 (by decide)

/-- An IPv6 address begins with a group, full or not, and a colon. -/
theorem exists_group_of_ipv6 {w : Str} (h : IPv6 w) :
    ∃ g t, w = g ++ ':' :: t ∧ g.length ≤ 4 ∧ ∀ c ∈ g, c ≠ ':' := by
  -- groups before `::`, or none
  have hleft : ∀ (left : List Str) (t : Str), (∀ g ∈ left, HexGroup g) →
      ∃ g t', joinColon left ++ ':' :: t = g ++ ':' :: t' ∧ g.length ≤ 4 ∧ ∀ c ∈ g, c ≠ ':' := by
    intro left t hhex
    match left with
    | [] => exact ⟨[], t, rfl, by simp, by simp⟩
    | [g] =>
      have hg := hhex g (List.mem_cons_self ..)
      exact ⟨g, t, by simp [joinColon, List.intercalate], hg.2.1, ne_colon_of_hexGroup hg⟩
    | g :: h :: rest =>
      have hg := hhex g (List.mem_cons_self ..)
      exact ⟨g, joinColon (h :: rest) ++ ':' :: t, by
        rw [joinColon_cons_cons, List.append_assoc, List.cons_append], hg.2.1,
        ne_colon_of_hexGroup hg⟩
  cases h with
  | full groups hlen hhex =>
    match groups, hlen with
    | g :: h :: rest, _ =>
      have hg := hhex g (List.mem_cons_self ..)
      exact ⟨g, _, joinColon_cons_cons g h rest, hg.2.1, ne_colon_of_hexGroup hg⟩
  | compressed left right _ hhex =>
    exact hleft left _ fun g hg => hhex g (List.mem_append_left _ hg)
  | fullMapped groups v4 hlen hhex _ =>
    match groups, hlen with
    | g :: h :: rest, _ =>
      have hg := hhex g (List.mem_cons_self ..)
      exact ⟨g, _, joinColon_cons_cons g h (rest ++ [v4]), hg.2.1, ne_colon_of_hexGroup hg⟩
  | mapped left right v4 _ hhex _ =>
    exact hleft left _ fun g hg => hhex g (List.mem_append_left _ hg)

theorem firstGroup_append {g : Str} (h : ∀ c ∈ g, c ≠ ':') (t : Str) :
    firstGroup (g ++ t) = g ++ firstGroup t := by
  unfold firstGroup
  rw [List.takeWhile_append_of_pos fun c hc => by simpa using h c hc]

theorem length_firstGroup_ipv6 {w : Str} (h : Literal IPv6 w) : (firstGroup w).length ≤ 4 := by
  have hgroup : ∃ g t, w = g ++ ':' :: t ∧ g.length ≤ 4 ∧ ∀ c ∈ g, c ≠ ':' := by
    cases h with
    | plain ha => exact exists_group_of_ipv6 ha
    | withLength n ha _ =>
      obtain ⟨g, t, rfl, hlen, hne⟩ := exists_group_of_ipv6 ha
      exact ⟨g, t ++ '/' :: n, by rw [List.append_assoc, List.cons_append], hlen, hne⟩
  obtain ⟨g, t, rfl, hlen, hne⟩ := hgroup
  have hstop : firstGroup (':' :: t) = [] := rfl
  rwa [firstGroup_append hne, hstop, List.append_nil]

/-! ## Only itself -/

/-- A word that begins with fewer than two letters matches itself only. -/
theorem eq_of_sameWord_of_short {typed device : Str} (hshort : (split typed).1.length < 2)
    (h : sameWord typed device = true) : typed = device := by
  rcases (sameWord_iff typed device).mp h with heq | ⟨hlong, -, -⟩
  · exact heq
  · omega

/-- A word is its leading letters and the rest. -/
theorem append_split (w : Str) : (split w).1 ++ (split w).2 = w :=
  List.takeWhile_append_dropWhile

theorem firstGroup_eq (w : Str) : firstGroup w = (split w).1 ++ firstGroup (split w).2 := by
  have hletters : ∀ c ∈ (split w).1, c ≠ ':' := by
    rintro c hc rfl
    exact absurd (List.mem_takeWhile_imp hc) (by decide)
  conv_lhs => rw [← append_split w]
  exact firstGroup_append hletters _

/-- **An address matches no address but itself**, unless its first group can be
extended. -/
theorem eq_of_sameWord {a b : Str} (ha : ¬ Extensible a) (hb : AddressLiteral b)
    (h : sameWord a b = true) : a = b := by
  rcases (sameWord_iff a b).mp h with heq | ⟨hlong, hpre, hrest⟩
  · exact heq
  · have hgroup : 4 ≤ (firstGroup a).length := by
      by_contra hlt
      exact ha ⟨hlong, by omega⟩
    rcases hb with hb | hb
    · rw [split_ipv4 hb] at hpre
      rw [List.prefix_nil.mp hpre] at hlong
      exact absurd hlong (by simp)
    · have hle := length_firstGroup_ipv6 hb
      rw [firstGroup_eq, List.length_append] at hle hgroup
      rw [← hrest] at hle
      have hlen : (split b).1.length ≤ (split a).1.length := by omega
      have hletters : (split a).1 = (split b).1 := hpre.eq_of_length_le hlen
      rw [← append_split a, ← append_split b, hletters, hrest]

/-! ## An address and its verdict -/

section Judged

variable [Unicode]

/-- A word of a command is one of the words it is judged by, unless it climbs
(`top`, `up`, or how many levels). -/
theorem mem_words_typedStep (G : Grammar) (path : Option (List (List Str))) (command w : Str)
    (hw : w ∈ words command) (htop : w ≠ "top".toList) (hup : w ≠ "up".toList)
    (hdigit : w.all Unicode.isDigit = false) : w ∈ (typedStep G path command).1.words := by
  obtain ⟨first, rest, hwords⟩ := List.exists_cons_of_ne_nil (List.ne_nil_of_mem hw)
  have hfirst : (words command).headD [] = first := by rw [hwords]; rfl
  have hdrop : (words command).drop 1 = rest := by rw [hwords]; rfl
  have hcases : w = first ∨ w ∈ rest := List.mem_cons.mp (hwords ▸ hw)
  unfold typedStep
  dsimp only
  split
  · exact hw
  · split
    · exact hw
    · split
      · next hclimb =>
        have hrest : w ∈ rest := by
          rcases hcases with rfl | h
          · rcases hclimb.1 with h | h
            · exact absurd (hfirst.symm.trans h) htop
            · exact absurd (hfirst.symm.trans h) hup
          · exact h
        show w ∈ (if _ then _ else _ : List Str)
        split
        · next hlevels =>
          -- the number of levels is no word with another character
          obtain ⟨second, rest', rfl⟩ := List.exists_cons_of_ne_nil (List.ne_nil_of_mem hrest)
          rw [hwords] at hlevels ⊢
          rcases List.mem_cons.mp hrest with rfl | hrest
          · exact absurd hlevels.2 (by simpa using hdigit)
          · exact hrest
        · rwa [hdrop]
      · split
        · exact hw
        · split
          · exact hw
          · split
            · exact hw
            · split
              · exact hw
              · split
                · rw [hfirst, hdrop]
                  rcases hcases with rfl | h
                  · exact List.mem_cons_self ..
                  · exact List.mem_cons_of_mem _ (List.mem_append_right _ h)
                · exact hw

theorem mem_words_typedFrom {G : Grammar} (path : Option (List (List Str))) (commands : List Str) :
    ∀ t ∈ typedFrom G path commands, ∀ w ∈ words t.sent, w ≠ "top".toList → w ≠ "up".toList →
      w.all Unicode.isDigit = false → w ∈ t.words := by
  induction commands generalizing path with
  | nil => simp [typedFrom]
  | cons command commands ih =>
    intro t ht w hw htop hup hdigit
    rw [typedFrom] at ht
    rcases List.mem_cons.mp ht with rfl | ht
    · rw [sent_typedStep] at hw
      exact mem_words_typedStep G path command w hw htop hup hdigit
    · exact ih _ t ht w hw htop hup hdigit

/-- An address has a character that is no digit. -/
theorem not_digits_of_address {w : Str} (h : AddressLiteral w) :
    w.all Unicode.isDigit = false ∧ w ≠ "top".toList ∧ w ≠ "up".toList := by
  have hdot : Unicode.isDigit '.' = false := Unicode.isDigit_ascii '.' (by decide)
  have hcolon : Unicode.isDigit ':' = false := Unicode.isDigit_ascii ':' (by decide)
  have hmem : '.' ∈ w ∨ ':' ∈ w := by
    have hv4 : ∀ {a : Str}, IPv4 a → '.' ∈ a := by
      rintro _ ⟨a, b, c, d, -, -, -, -⟩
      simp
    have hv6 : ∀ {a : Str}, IPv6 a → ':' ∈ a := by
      intro a ha
      obtain ⟨g, t, rfl, -, -⟩ := exists_group_of_ipv6 ha
      simp
    rcases h with h | h
    · cases h with
      | plain ha => exact Or.inl (hv4 ha)
      | withLength n ha _ => exact Or.inl (List.mem_append_left _ (hv4 ha))
    · cases h with
      | plain ha => exact Or.inr (hv6 ha)
      | withLength n ha _ => exact Or.inr (List.mem_append_left _ (hv6 ha))
  refine ⟨?_, ?_, ?_⟩
  · rw [List.all_eq_false]
    rcases hmem with h | h
    · exact ⟨'.', h, by simp [hdot]⟩
    · exact ⟨':', h, by simp [hcolon]⟩
  · rintro rfl
    rcases hmem with h | h <;> exact absurd h (by decide)
  · rintro rfl
    rcases hmem with h | h <;> exact absurd h (by decide)

/-- The line a verdict is on: a line of a configuration, shown as its evidence. -/
def IsOn (G : Grammar) (before after : Str) (defaults : Option Str) (j : Judgment) (line : Line) :
    Prop :=
  line ∈ G.lines before ++ G.lines after ++ G.view defaults ∧
    (j.evidence = [evidenceLine .plus line.raw] ∨ j.evidence = [evidenceLine .minus line.raw] ∨
      j.evidence = [evidenceUnchanged line.raw])

/-- **A verdict's line has the command's words**, unless the device named it. -/
theorem exists_line_of_verdict (G : Grammar) (commands : List Str) (before after : Str)
    (again : Option Str) (replied : List Bool) (defaults : Option Str) {c : Nat} {j : Judgment}
    (hj : (judge G commands before after again replied defaults).commands[c]? = some j)
    (hverdict : j.verdict = .tookEffect ∨ j.verdict = .inPlace) (hline : j.evidence ≠ [])
    (hnamed : ∀ raw, j.note ≠ .deviceNamed raw) :
    ∃ command line, (typed G commands)[c]? = some command ∧ IsOn G before after defaults j line ∧
      ∀ w ∈ command.words, ∃ d ∈ line.words, sameWord w d = true := by
  let J := mkJudge G before after again replied defaults
  obtain ⟨command, ⟨f, context⟩, hcmd, hentry, hrej⟩ := J.exists_of_run_commands hj
  obtain ⟨st, -, hfacts⟩ := J.exists_facts hcmd hentry
  have hsame := hrej.eq_of_verdict (by rintro h; rw [h] at hverdict; simp at hverdict)
    (by rintro h; rw [h] at hverdict; simp at hverdict)
  have hadded : ∀ line ∈ J.added, line ∈ G.lines after := fun line h =>
    mem_after_of_mem_added (List.mem_filter.mp h).1
  have hremoved : ∀ line ∈ J.removed, line ∈ G.lines before := fun line h =>
    mem_before_of_mem_removed (List.mem_filter.mp h).1
  have hunchanged : ∀ line ∈ J.unchanged, line ∈ G.lines after := fun line h =>
    mem_after_of_mem_unchanged h
  rw [hsame] at hverdict hline hnamed
  have hown : f ≠ .unproven → J.settled (typed G commands) command (f, context) =
      J.found command (f, context) := by
    intro hun
    rw [Judge.settled, if_neg hun] at hverdict ⊢
    unfold Judge.afterConflicts at hverdict ⊢
    split at hverdict
    · rfl
    · split at hverdict
      · exact absurd hverdict (by simp [Judge.toConflict])
      · next hfree => rw [if_neg hfree]
  cases f with
  | exec =>
    rw [hown (by simp)] at hverdict
    exact absurd hverdict (by simp [Judge.found, Finding.judgment])
  | navigation =>
    rw [hown (by simp)] at hverdict
    exact absurd hverdict (by simp [Judge.found, Finding.judgment])
  | removed line index =>
    rw [hown (by simp)] at hverdict
    exact absurd hverdict (by simp [Judge.found, Finding.judgment])
  | absent =>
    rw [hown (by simp)] at hline
    exact absurd rfl hline
  | opened header index =>
    rw [hown (by simp)] at hnamed
    exact absurd rfl (hnamed header.raw)
  | added line index =>
    rw [hown (by simp)] at hsame
    obtain ⟨hget, path, -, -, hcontains⟩ := hfacts
    refine ⟨command, line, hcmd, ⟨?_, Or.inl (by rw [hsame]; rfl)⟩,
      fun w hw => exists_same_of_contains hcontains hw⟩
    exact List.mem_append_left _ (List.mem_append_right _ (hadded line (List.mem_of_getElem? hget)))
  | negationRemoved line index =>
    rw [hown (by simp)] at hsame
    obtain ⟨-, hget, word, rest, hwords, hmatches⟩ := hfacts
    refine ⟨command, line, hcmd, ⟨?_, Or.inr (Or.inl (by rw [hsame]; rfl))⟩, fun w hw => ?_⟩
    · exact List.mem_append_left _
        (List.mem_append_left _ (hremoved line (List.mem_of_getElem? hget)))
    · obtain ⟨d, hd, hwd⟩ := exists_same_of_matchesLine hmatches hw
      exact ⟨d, by rw [hwords]; exact List.mem_cons_of_mem _ hd, hwd⟩
  | unchanged line =>
    rw [hown (by simp)] at hsame
    obtain ⟨hmem, path, -, -, hmatches⟩ := hfacts
    refine ⟨command, line, hcmd, ⟨?_, Or.inr (Or.inr (by rw [hsame]; rfl))⟩,
      fun w hw => exists_same_of_matchesLine hmatches hw⟩
    exact List.mem_append_left _ (List.mem_append_right _ (hunchanged line hmem))
  | unproven =>
    rw [Judge.settled, if_pos rfl] at hverdict hsame
    dsimp only at hverdict hsame
    split at hverdict
    · exact absurd hverdict (by simp [Judge.toReview])
    · next line hview =>
      rw [hview] at hsame
      unfold Judge.viewLine at hview
      cases context with
      | none => exact absurd hview (by simp)
      | some path =>
        rw [Option.bind_some] at hview
        have hp := List.find?_some hview
        rw [Bool.and_eq_true] at hp
        exact ⟨command, line, hcmd, ⟨List.mem_append_right _ (List.mem_of_find?_eq_some hview),
          Or.inr (Or.inr (by rw [hsame]; rfl))⟩, fun w hw => exists_same_of_matchesLine hp.2 hw⟩

/-- **Addresses are matched exactly.**  A verdict on a line that the device did not
name has the command's address there; two addresses match only when they are one.
Addresses whose first group can be extended are left out. -/
theorem addresses_judge (G : Grammar) (commands : List Str) (before after : Str)
    (again : Option Str) (replied : List Bool) (defaults : Option Str) :
    (∀ (c : Nat) (command : Str) (j : Judgment), commands[c]? = some command →
      (judge G commands before after again replied defaults).commands[c]? = some j →
      (j.verdict = .tookEffect ∨ j.verdict = .inPlace) → j.evidence ≠ [] →
      (∀ raw, j.note ≠ .deviceNamed raw) →
      ∀ w ∈ words command, AddressLiteral w → ¬ Extensible w →
        ∃ line, IsOn G before after defaults j line ∧ ∃ d ∈ line.words,
          d = w ∨ (2 ≤ (split w).1.length ∧ ¬ AddressLiteral d)) ∧
      ∀ a b : Str, AddressLiteral a → AddressLiteral b → ¬ Extensible a →
        sameWord a b = true → a = b := by
  refine ⟨?_, fun a b _ hb ha h => eq_of_sameWord ha hb h⟩
  intro c command j hcommand hj hverdict hline hnamed w hw haddress hext
  obtain ⟨t, line, ht, hon, hwords⟩ := exists_line_of_verdict G commands before after again replied
    defaults hj hverdict hline hnamed
  have hsent : t.sent = command := by
    have h := congrArg (fun l : List Str => l[c]?) (map_sent_typedFrom G (some []) commands)
    rw [List.getElem?_map, hcommand,
      show typedFrom G (some []) commands = typed G commands from rfl, ht] at h
    exact Option.some_inj.mp h
  obtain ⟨hdigit, htop, hup⟩ := not_digits_of_address haddress
  have hmem : w ∈ t.words :=
    mem_words_typedFrom (some []) commands t (List.mem_of_getElem? ht) w (hsent ▸ hw) htop hup
      hdigit
  obtain ⟨d, hd, hsame⟩ := hwords w hmem
  refine ⟨line, hon, d, hd, ?_⟩
  by_cases hdevice : AddressLiteral d
  · exact Or.inl (eq_of_sameWord hext hdevice hsame).symm
  · by_cases hshort : (split w).1.length < 2
    · exact Or.inl (eq_of_sameWord_of_short hshort hsame).symm
    · exact Or.inr ⟨by omega, hdevice⟩

end Judged

/-! ## An address proven, and two that are not -/

theorem octet_of_digits {o : Str} (h : o ≠ [] ∧ o.length ≤ 3 ∧ o.all Char.isDigit = true ∧
    o.foldl (fun n c => 10 * n + (c.toNat - '0'.toNat)) 0 ≤ 255) : Octet o :=
  ⟨h.1, h.2.1, List.all_eq_true.mp h.2.2.1, h.2.2.2⟩

/-- `192.0.2.n`, for an octet. -/
theorem addressLiteral_testNet {n : Str} (h : Octet n) : AddressLiteral ("192.0.2.".toList ++ n) :=
  Or.inl (.plain (.mk "192".toList "0".toList "2".toList n (octet_of_digits (by decide))
    (octet_of_digits (by decide)) (octet_of_digits (by decide)) h))

/-- A loopback and its address, typed into an empty configuration. -/
def loopbackCommands : List Str := ["interface Loopback9".toList, "ip address 192.0.2.1 /32".toList]

def loopbackAfter : Str := "interface Loopback9\n ip address 192.0.2.1 /32".toList

/-- The address is found in the line it took effect by. -/
theorem exists_line_loopback :
    ∃ line, @IsOn Unicode.ascii Grammar.ciscoIos [] loopbackAfter none
        { command := "ip address 192.0.2.1 /32".toList, verdict := .tookEffect,
          evidence := ["+ ip address 192.0.2.1 /32".toList] } line ∧
      ∃ d ∈ @Line.words Unicode.ascii line,
        d = "192.0.2.1".toList ∨ (2 ≤ (split "192.0.2.1".toList).1.length ∧ ¬ AddressLiteral d) :=
  (@addresses_judge Unicode.ascii Grammar.ciscoIos loopbackCommands [] loopbackAfter none [] none).1
    1 "ip address 192.0.2.1 /32".toList _ rfl (by decide +kernel) (Or.inl rfl) (by decide)
    (by intro raw h; exact absurd h (by simp)) "192.0.2.1".toList (by decide +kernel)
    (addressLiteral_testNet (octet_of_digits (by decide))) (fun h => absurd h.1 (by decide))

/-- An address object typed as `192.0.2.1`, which the device named
`192.0.2.2`. -/
def objectCommands : List Str :=
  ["config firewall address".toList, "edit 192.0.2.1".toList, "set comment x".toList]

def objectAfter : Str :=
  "config firewall address\n    edit 192.0.2.2\n        set comment x\n    next\nend\n".toList

/-- **Two ways to another address**: the header of a block the device named itself,
and a short group that begins with letters. -/
theorem addresses_not_exact :
    (@judge Unicode.ascii Grammar.fortinet objectCommands [] objectAfter none [] none).commands[1]? =
        some { command := "edit 192.0.2.1".toList, verdict := .tookEffect,
               evidence := ["+ edit 192.0.2.2".toList],
               note := .deviceNamed "edit 192.0.2.2".toList } ∧
      AddressLiteral "192.0.2.1".toList ∧
      "192.0.2.1".toList ∈ @words Unicode.ascii "edit 192.0.2.1".toList ∧
      "192.0.2.1".toList ∉ @words Unicode.ascii "edit 192.0.2.2".toList ∧
      AddressLiteral "fe::1".toList ∧ AddressLiteral "fed::1".toList ∧
      sameWord "fe::1".toList "fed::1".toList = true ∧ "fe::1".toList ≠ "fed::1".toList := by
  have hgroup : ∀ g : Str, (g ≠ [] ∧ g.length ≤ 4 ∧
      g.all (fun c => c.isDigit || ('a' ≤ c && c ≤ 'f')) = true) → HexGroup g := by
    rintro g ⟨hne, hlen, hall⟩
    refine ⟨hne, hlen, fun c hc => ?_⟩
    simpa using List.all_eq_true.mp hall c hc
  have hsix : ∀ g : Str, (g ≠ [] ∧ g.length ≤ 4 ∧
      g.all (fun c => c.isDigit || ('a' ≤ c && c ≤ 'f')) = true) →
      AddressLiteral (g ++ "::1".toList) := by
    intro g hg
    have h := IPv6.compressed [g] ["1".toList] (by simp) (fun x hx => by
      rcases List.mem_cons.mp hx with rfl | hx
      · exact hgroup x hg
      · exact hgroup x (by rw [List.mem_singleton.mp hx]; decide))
    exact Or.inr (.plain (by simpa [joinColon, List.intercalate] using h))
  refine ⟨by decide +kernel, addressLiteral_testNet (octet_of_digits (by decide)),
    by decide +kernel, by decide +kernel, hsix "fe".toList (by decide), hsix "fed".toList (by decide), by decide,
    by decide⟩

end Evidence
end NetRollout
