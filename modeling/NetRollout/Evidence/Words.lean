import NetRollout.Library.PyText
import Mathlib.Data.List.Forall2

/-!
# A line's words, and when a typed word is the device's

The comparison a verdict rests on.  A configuration line and a command are
compared by their *words*: the text without its quoting, in lower case, cut at
blanks and commas.  A typed word is the device's word when the two are equal or
when it abbreviates it --- its letters a prefix of the device's letters, two or
more, and whatever follows them exactly equal.

`contains` scans greedily, and `contains_iff` says that the greedy scan misses
nothing: it succeeds exactly when the command's words embed in the line's, in
order, by the given relation.
-/

namespace NetRollout
namespace Evidence

open PyText

/-! ## Words -/

/-- The words that leave or close a section, every platform's together. -/
def NAVIGATION : List Str :=
  ["exit".toList, "end".toList, "next".toList, "abort".toList, "quit".toList, "return".toList,
    "top".toList, "up".toList, "root".toList, "end-policy".toList, "end-set".toList,
    "end-group".toList]

/-- The words a removal begins with, every platform's together. -/
def NEGATION : List Str := ["no".toList, "undo".toList, "unset".toList, "delete".toList]

section Normal

variable [Unicode]

/-- A config line or command as compared: spacing, case and quoting do not
change the meaning. -/
def normalize (line : Str) : Str :=
  Unicode.lower (joinSpace (fields isSpace (line.filter (· != '"'))))

/-- A command's first word as compared, empty when normalizing leaves nothing. -/
def firstWord (command : Str) : Str := (fields isSpace (normalize command)).headD []

/-- Whether a command's first word only moves between config modes: the
navigation words, and `exit-address-family` and its like. -/
def navigates (word : Str) (navigation : List Str) : Bool :=
  navigation.contains word || "exit-".toList.isPrefixOf word

/-- The separators of a line's words: a comma list is several words. -/
def isSep (c : Char) : Bool := isSpace c || c == ','

/-- A line's words as compared. -/
def words (text : Str) : List Str := fields isSep (normalize text)

/-- Normalizing leaves blank-separated words without quotes, in lower case. -/
theorem exists_normalize_eq (line : Str) :
    ∃ ws : List Str, normalize line = joinSpace ws ∧ ws.map Unicode.lower = ws ∧
      ∀ w ∈ ws, w ≠ [] ∧ ∀ c ∈ w, isSpace c = false ∧ c ≠ '"' := by
  refine ⟨(fields isSpace (line.filter (· != '"'))).map Unicode.lower,
    Unicode.lower_joinSpace _, ?_, fun w hw => ?_⟩
  · rw [List.map_map]
    exact List.map_congr_left fun w _ => Unicode.lower_lower w
  · obtain ⟨v, hv, rfl⟩ := List.mem_map.mp hw
    refine ⟨fun h => ne_nil_of_mem_fields hv ((Unicode.lower_eq_nil v).mp h), ?_⟩
    refine Unicode.lower_plain v fun c hc => ?_
    obtain ⟨hmem, hsp⟩ := of_mem_fields _ v hv c hc
    exact ⟨hsp, by simpa using (List.mem_filter.mp hmem).2⟩

/-- **Normalizing twice is normalizing once.** -/
@[simp] theorem normalize_normalize (line : Str) : normalize (normalize line) = normalize line := by
  obtain ⟨ws, hn, hlow, hws⟩ := exists_normalize_eq line
  have hq : (joinSpace ws).filter (· != '"') = joinSpace ws := by
    rw [List.filter_eq_self]
    intro c hc
    rcases mem_joinSpace hc with rfl | ⟨w, hw, hcw⟩
    · decide
    · simpa using ((hws w hw).2 c hcw).2
  have hf : fields isSpace (joinSpace ws) = ws :=
    fields_joinSpace (by decide) fun w hw => ⟨(hws w hw).1, fun c hc => ((hws w hw).2 c hc).1⟩
  rw [hn, normalize, hq, hf, Unicode.lower_joinSpace, hlow]

/-- A line has the words of its normalized text. -/
@[simp] theorem words_normalize (line : Str) : words (normalize line) = words line := by
  rw [words, normalize_normalize, words]

/-- Two texts equal as compared have the same words. -/
theorem words_eq_of_normalize_eq {a b : Str} (h : normalize a = normalize b) :
    words a = words b := by
  rw [words, h, words]

end Normal

/-! ## Words that match -/

/-- The leading lower-case letters of a word, and what follows them. -/
def split (word : Str) : Str × Str :=
  (word.takeWhile fun c => 'a' ≤ c && c ≤ 'z', word.dropWhile fun c => 'a' ≤ c && c ≤ 'z')

/-- Whether a typed word is the device's word: equal, or an abbreviation. -/
def sameWord (typed device : Str) : Bool :=
  if typed == device then true
  else
    2 ≤ (split typed).1.length && (split typed).1.isPrefixOf (split device).1 &&
      (split typed).2 == (split device).2

/-- Whether a removal's word names the device's word: the same word, or the
device's word up to its hyphen. -/
def names (typed device : Str) : Bool :=
  sameWord typed device || typed == device.takeWhile (· != '-')

/-- Whether all the command's words appear in the line, in order. -/
def contains (same : Str → Str → Bool) : List Str → List Str → Bool
  | [], _ => true
  | typed :: command, line =>
    match line.dropWhile fun device => !same typed device with
    | [] => false
    | _ :: rest => contains same command rest

/-- Whether the line is exactly the command, abbreviations allowed. -/
def matchesLine (command line : List Str) : Bool :=
  command.length == line.length && (List.zipWith sameWord command line).all id

@[simp] theorem sameWord_self (word : Str) : sameWord word word = true := by
  simp [sameWord]

/-- **What an abbreviation can be.**  Two different words match only when the
typed one begins with two letters or more, the device's letters go on from them,
and the rest is the same. -/
theorem sameWord_iff (typed device : Str) :
    sameWord typed device = true ↔
      typed = device ∨
        2 ≤ (split typed).1.length ∧ (split typed).1 <+: (split device).1 ∧
          (split typed).2 = (split device).2 := by
  rw [sameWord]
  by_cases h : typed = device
  · simp [h]
  · simp [h, and_assoc]

/-- Passing over a word that does not match. -/
theorem contains_cons_of_not_same {same : Str → Str → Bool} {typed device : Str}
    {command line : List Str} (h : same typed device = false) :
    contains same (typed :: command) (device :: line) = contains same (typed :: command) line := by
  rw [contains, contains, List.dropWhile_cons_of_pos (by simp [h])]

/-- Taking the first word that matches. -/
theorem contains_cons_of_same {same : Str → Str → Bool} {typed device : Str}
    {command line : List Str} (h : same typed device = true) :
    contains same (typed :: command) (device :: line) = contains same command line := by
  rw [contains, List.dropWhile_cons_of_neg (by simp [h])]

/-- An embedding of the tail may start one word later. -/
theorem sublistForall₂_of_cons {R : Str → Str → Prop} {a : Str} {l m : List Str}
    (h : List.SublistForall₂ R (a :: l) m) : List.SublistForall₂ R l m := by
  obtain ⟨k, hk, hsub⟩ := List.sublistForall₂_iff.mp h
  cases hk with
  | cons _ htail =>
    exact List.sublistForall₂_iff.mpr ⟨_, htail, (List.sublist_cons_self _ _).trans hsub⟩

/-- **The greedy scan misses no embedding.** -/
theorem contains_iff {same : Str → Str → Bool} (command line : List Str) :
    contains same command line = true ↔
      List.SublistForall₂ (fun a b => same a b = true) command line := by
  induction line generalizing command with
  | nil =>
    cases command with
    | nil => exact iff_of_true rfl .nil
    | cons typed command =>
      refine iff_of_false (by simp [contains]) fun h => ?_
      cases h
  | cons device line ih =>
    cases command with
    | nil => exact iff_of_true rfl .nil
    | cons typed command =>
      by_cases hs : same typed device = true
      · rw [contains_cons_of_same hs, ih]
        refine ⟨fun h => .cons hs h, fun h => ?_⟩
        cases h with
        | cons _ htail => exact htail
        | cons_right hrest => exact sublistForall₂_of_cons hrest
      · rw [contains_cons_of_not_same (by simpa using hs), ih]
        refine ⟨fun h => .cons_right h, fun h => ?_⟩
        cases h with
        | cons hsame _ => exact absurd hsame hs
        | cons_right hrest => exact hrest

/-- A line contains the command that is it. -/
@[simp] theorem contains_self {same : Str → Str → Bool} (hs : ∀ w, same w w = true)
    (line : List Str) : contains same line line = true := by
  rw [contains_iff, List.sublistForall₂_iff]
  exact ⟨line, List.forall₂_same.mpr fun w _ => hs w, List.Sublist.refl line⟩

/-- Each of the command's words is a word of a line that contains it. -/
theorem exists_same_of_contains {same : Str → Str → Bool} {command line : List Str}
    (h : contains same command line = true) {w : Str} (hw : w ∈ command) :
    ∃ d ∈ line, same w d = true := by
  obtain ⟨l, hl, hsub⟩ := List.sublistForall₂_iff.mp ((contains_iff command line).mp h)
  clear h
  induction hl generalizing line with
  | nil => exact absurd hw (by simp)
  | @cons a b as bs hab _ ih =>
    rcases List.mem_cons.mp hw with rfl | hw
    · exact ⟨b, hsub.subset (List.mem_cons_self ..), hab⟩
    · exact ih hw ((List.sublist_cons_self b bs).trans hsub)

theorem matchesLine_iff (command line : List Str) :
    matchesLine command line = true ↔ List.Forall₂ (fun a b => sameWord a b = true) command line := by
  induction command generalizing line with
  | nil => cases line <;> simp [matchesLine]
  | cons w command ih =>
    cases line with
    | nil => simp [matchesLine]
    | cons d line =>
      rw [List.forall₂_cons, ← ih]
      simp only [matchesLine, List.length_cons, List.zipWith_cons_cons, List.all_cons, id,
        Bool.and_eq_true, beq_iff_eq, Nat.add_right_cancel_iff]
      tauto

/-- Each of the command's words is a word of the line it matches. -/
theorem exists_same_of_matchesLine {command line : List Str} (h : matchesLine command line = true)
    {w : Str} (hw : w ∈ command) : ∃ d ∈ line, sameWord w d = true := by
  refine exists_same_of_contains ((contains_iff command line).mpr ?_) hw
  rw [List.sublistForall₂_iff]
  exact ⟨line, (matchesLine_iff command line).mp h, List.Sublist.refl line⟩

end Evidence
end NetRollout
