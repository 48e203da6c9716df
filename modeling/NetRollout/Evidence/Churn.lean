import NetRollout.Evidence.Judge

/-!
# The device's own churn

`noise` keeps, of each line that changed between two snapshots with nothing pushed, its
section and leading words, and a line that starts with them there is left out of the
judgment.

Every line that changed is so covered (`isNoise_of_mem_changedLines`), and each entry is a
beginning of the words of a line that changed (`exists_of_mem_noise`), which is empty only
for a line without words.  `churnFits_iff` is what this comes to: the churn reaches no
further than to lines that share their first word with a changed line of their section, as
long as every line that changed has a word.
-/

namespace NetRollout
namespace Evidence

open PyText

theorem commonPrefix_isPrefix (a b : List Str) : commonPrefix a b <+: a := by
  induction a generalizing b with
  | nil => exact List.prefix_refl []
  | cons x a ih =>
    cases b with
    | nil => exact List.nil_prefix
    | cons y b =>
      rw [commonPrefix]
      split
      · exact List.cons_prefix_cons.mpr ⟨rfl, ih b⟩
      · exact List.nil_prefix

/-- A beginning of a line's words, empty only when the line has none. -/
def Leads (lead words : List Str) : Prop := lead <+: words ∧ (lead = [] → words = [])

theorem leads_self (words : List Str) : Leads words words := ⟨List.prefix_refl words, id⟩

section Churn

variable [Unicode]

/-- The loop takes a common beginning only when it is longer than the last, so never an
empty one. -/
theorem leads_lead (gone : Line) (added : List Line) : Leads (lead gone added) gone.words := by
  have hloop : ∀ (added : List Line) (best : List Str × Nat), Leads best.1 gone.words →
      Leads (added.foldl
        (fun best new =>
          if new.path ≠ gone.path then best
          else
            let common := commonPrefix gone.words new.words
            if best.2 < common.length then (common, common.length) else best) best).1
        gone.words := by
    intro added
    induction added with
    | nil => exact fun _ hbest => hbest
    | cons new added ih =>
      intro best hbest
      rw [List.foldl_cons]
      refine ih _ ?_
      split
      · exact hbest
      · dsimp only
        split
        · next hlonger =>
          have hne : commonPrefix gone.words new.words ≠ [] :=
            List.ne_nil_of_length_pos (Nat.zero_lt_of_lt hlonger)
          exact ⟨commonPrefix_isPrefix gone.words new.words, fun hnil => absurd hnil hne⟩
        · exact hbest
  exact hloop added (gone.words, 0) (leads_self gone.words)

/-- A line is noise when an entry of its section leads its words. -/
theorem isNoise_iff {line : Line} {churn : Noise} : isNoise line churn = true ↔
    ∃ entry ∈ churn, line.path = entry.1 ∧ entry.2 <+: line.words := by
  rw [isNoise, List.any_eq_true]
  refine exists_congr fun entry => and_congr_right fun _ => ?_
  rw [Bool.and_eq_true, beq_iff_eq, beq_iff_eq, List.prefix_iff_eq_take, eq_comm (a := entry.2)]

theorem isNoise_mono {line : Line} {churn more : Noise} (h : isNoise line churn = true)
    (hsub : ∀ entry ∈ churn, entry ∈ more) : isNoise line more = true := by
  obtain ⟨entry, hmem, hentry⟩ := isNoise_iff.mp h
  exact isNoise_iff.mpr ⟨entry, hsub entry hmem, hentry⟩

/-- The second loop of `noise`: the lines that came for none that went. -/
def addNew (found : Noise) (new : Line) : Noise :=
  if isNoise new found then found else found ++ [(new.path, new.words)]

theorem subset_addNew (found : Noise) (new : Line) : ∀ entry ∈ found, entry ∈ addNew found new := by
  intro entry hentry
  rw [addNew]
  split
  · exact hentry
  · exact List.mem_append_left _ hentry

theorem isNoise_addNew (found : Noise) (new : Line) : isNoise new (addNew found new) = true := by
  rw [addNew]
  split
  · next h => exact h
  · refine isNoise_iff.mpr ⟨(new.path, new.words), ?_, rfl, List.prefix_refl new.words⟩
    exact List.mem_append_right _ (List.mem_singleton.mpr rfl)

theorem subset_foldl_addNew (news : List Line) (found : Noise) :
    ∀ entry ∈ found, entry ∈ news.foldl addNew found := by
  induction news generalizing found with
  | nil => exact fun _ h => h
  | cons new news ih =>
    intro entry h
    exact ih (addNew found new) entry (subset_addNew found new entry h)

theorem isNoise_foldl_addNew {news : List Line} (found : Noise) {new : Line} (h : new ∈ news) :
    isNoise new (news.foldl addNew found) = true := by
  induction news generalizing found with
  | nil => cases h
  | cons first news ih =>
    rcases List.mem_cons.mp h with rfl | h
    · exact isNoise_mono (isNoise_addNew found new) (subset_foldl_addNew news (addNew found new))
    · exact ih (addNew found first) h

theorem mem_foldl_addNew {news : List Line} {found : Noise} {entry : Path × List Str}
    (h : entry ∈ news.foldl addNew found) :
    entry ∈ found ∨ ∃ new ∈ news, entry = (new.path, new.words) := by
  induction news generalizing found with
  | nil => exact Or.inl h
  | cons first news ih =>
    rcases ih h with h | ⟨new, hnew, heq⟩
    · rw [addNew] at h
      split at h
      · exact Or.inl h
      · rcases List.mem_append.mp h with h | h
        · exact Or.inl h
        · exact Or.inr ⟨first, List.mem_cons_self, List.mem_singleton.mp h⟩
    · exact Or.inr ⟨new, List.mem_cons_of_mem _ hnew, heq⟩

variable (after again : List Line)

/-- The lines that changed with nothing pushed. -/
def changedLines : List Line := (compare after again).added ++ (compare after again).removed

theorem noise_eq : noise after again = (compare after again).added.foldl addNew
    ((compare after again).removed.map fun gone =>
      (gone.path, lead gone (compare after again).added)) := rfl

variable {after again}

/-- **Churn is covered.** -/
theorem isNoise_of_mem_changedLines {line : Line} (h : line ∈ changedLines after again) :
    isNoise line (noise after again) = true := by
  rw [noise_eq]
  rcases List.mem_append.mp h with h | h
  · exact isNoise_foldl_addNew _ h
  · refine isNoise_iff.mpr ⟨(line.path, lead line (compare after again).added), ?_, rfl,
      (leads_lead line (compare after again).added).1⟩
    exact subset_foldl_addNew _ _ _ (List.mem_map.mpr ⟨line, h, rfl⟩)

/-- **Each entry leads a line that changed.** -/
theorem exists_of_mem_noise {entry : Path × List Str} (h : entry ∈ noise after again) :
    ∃ changed ∈ changedLines after again, changed.path = entry.1 ∧ Leads entry.2 changed.words := by
  rw [noise_eq] at h
  rcases mem_foldl_addNew h with h | ⟨new, hnew, rfl⟩
  · obtain ⟨gone, hgone, rfl⟩ := List.mem_map.mp h
    exact ⟨gone, List.mem_append_right _ hgone, rfl, leads_lead gone _⟩
  · exact ⟨new, List.mem_append_left _ hnew, rfl, leads_self new.words⟩

variable (after again)

/-- The churn of two snapshots fits: it covers every line that changed, and reaches only
lines that share their first word with one of their section; so that a changed line of a push
with no word in common with the churn of its section is judged. -/
structure ChurnFits : Prop where
  covered : ∀ line ∈ changedLines after again, isNoise line (noise after again) = true
  bounded : ∀ line, isNoise line (noise after again) = true →
    ∃ changed ∈ changedLines after again, changed.path = line.path ∧
      ∃ word, line.words.head? = some word ∧ changed.words.head? = some word
  judged : ∀ (before : List Line) (blocks : Bool) (replied : List Bool) (view : List Line)
    (negation : List Str) (line : Line),
    (∀ changed ∈ changedLines after again, changed.path = line.path →
      ∀ word ∈ line.words, word ∉ changed.words) →
    let J := Judge.init before after (noise after again) blocks replied view negation
    (line ∈ (compare before after).added → line ∈ J.added) ∧
      (line ∈ (compare before after).removed → line ∈ J.removed)

variable {after again}

theorem exists_head?_of_isNoise (hwords : ∀ changed ∈ changedLines after again, changed.words ≠ [])
    {line : Line} (h : isNoise line (noise after again) = true) :
    ∃ changed ∈ changedLines after again, changed.path = line.path ∧
      ∃ word, line.words.head? = some word ∧ changed.words.head? = some word := by
  obtain ⟨entry, hentry, hpath, hprefix⟩ := isNoise_iff.mp h
  obtain ⟨changed, hchanged, hsection, hleads, hempty⟩ := exists_of_mem_noise hentry
  refine ⟨changed, hchanged, hsection.trans hpath.symm, ?_⟩
  rcases hlead : entry.2 with _ | ⟨word, rest⟩
  · exact absurd (hempty hlead) (hwords changed hchanged)
  · rw [hlead] at hprefix hleads
    obtain ⟨tail, htail⟩ := hprefix
    obtain ⟨tail', htail'⟩ := hleads
    exact ⟨word, by rw [← htail]; rfl, by rw [← htail']; rfl⟩

variable (after again)

/-- **The churn fits exactly when every line that changed has a word.** -/
theorem churnFits_iff :
    ChurnFits after again ↔ ∀ changed ∈ changedLines after again, changed.words ≠ [] := by
  constructor
  · intro hfits changed hchanged hnone
    obtain ⟨-, -, -, word, hword, -⟩ := hfits.bounded changed (hfits.covered changed hchanged)
    rw [hnone] at hword
    cases hword
  · intro hwords
    refine ⟨fun line => isNoise_of_mem_changedLines, fun line => exists_head?_of_isNoise hwords, ?_⟩
    intro before blocks replied view negation line hforeign
    have hjudged : isNoise line (noise after again) = false := by
      rw [Bool.eq_false_iff]
      intro hnoise
      obtain ⟨changed, hchanged, hpath, word, hline, hword⟩ := exists_head?_of_isNoise hwords hnoise
      exact hforeign changed hchanged hpath word (List.mem_of_head? hline) (List.mem_of_head? hword)
    refine ⟨fun hadded => ?_, fun hremoved => ?_⟩
    · exact List.mem_filter.mpr ⟨hadded, by rw [hjudged]; rfl⟩
    · exact List.mem_filter.mpr ⟨hremoved, by rw [hjudged]; rfl⟩

end Churn

/-- A row that closes a quoted text went, and the churn is every line at the top. -/
theorem not_churnFits_quote : let := Unicode.ascii
    ¬ ChurnFits (parse "hostname a\n\"".toList false NAVIGATION)
      (parse "hostname a".toList false NAVIGATION) := by
  intro _ hfits
  have hnone : ∃ changed ∈ @changedLines
      (@parse Unicode.ascii "hostname a\n\"".toList false NAVIGATION)
      (@parse Unicode.ascii "hostname a".toList false NAVIGATION),
      @Line.words Unicode.ascii changed = [] := by
    decide
  obtain ⟨changed, hchanged, hwords⟩ := hnone
  obtain ⟨-, -, -, word, hword, -⟩ := hfits.bounded changed (hfits.covered changed hchanged)
  rw [hwords] at hword
  cases hword

end Evidence
end NetRollout
