import Mathlib.Data.List.NodupEquivFin
import NetRollout.Evidence.Words

/-!
# When a line has a command's words

The greedy scan of `contains` succeeds exactly when the command's words can be assigned to later
and later places of the line, each to a word that is the same, whatever the relation
(`contains_iff_exists_places`).  To be the device's word, or an abbreviation of it, is an order
(`sameWord_antisymm`, `sameWord_trans`), and so is to be contained up to abbreviation.
-/

namespace NetRollout
namespace Evidence

open PyText

/-! ## Places -/

section Places

variable {α β : Type*} {R : α → β → Prop} {l : List α} {m : List β}

/-- A list embeds in another by a relation when its entries have places there, in order. -/
theorem sublistForall₂_iff_exists_places : List.SublistForall₂ R l m ↔
    ∃ place : Fin l.length ↪o Fin m.length, ∀ i, R (l.get i) (m.get (place i)) := by
  constructor
  · intro h
    obtain ⟨k, hk, hsub⟩ := List.sublistForall₂_iff.mp h
    obtain ⟨hlength, hget⟩ := List.forall₂_iff_get.mp hk
    obtain ⟨place, hplace⟩ := List.sublist_iff_exists_fin_orderEmbedding_get_eq.mp hsub
    refine ⟨(Fin.castOrderIso hlength).toOrderEmbedding.trans place, fun i => ?_⟩
    have hi : R (l.get i) (k.get (i.cast hlength)) := hget i i.2 (hlength ▸ i.2)
    rw [hplace] at hi
    exact hi
  · rintro ⟨place, hplace⟩
    refine List.sublistForall₂_iff.mpr ⟨List.ofFn fun i => m.get (place i), ?_, ?_⟩
    · refine List.forall₂_iff_get.mpr ⟨(List.length_ofFn ..).symm, fun i hi hi' => ?_⟩
      rw [List.get_ofFn]
      exact hplace ⟨i, hi⟩
    · have hlength : (List.ofFn fun i => m.get (place i)).length = l.length := List.length_ofFn ..
      refine List.sublist_iff_exists_fin_orderEmbedding_get_eq.mpr
        ⟨(Fin.castOrderIso hlength).toOrderEmbedding.trans place, fun i => ?_⟩
      rw [List.get_ofFn]
      rfl

end Places

/-- The greedy scan misses no assignment of places. -/
theorem contains_iff_exists_places (same : Str → Str → Bool) (command line : List Str) :
    contains same command line = true ↔
      ∃ place : Fin command.length ↪o Fin line.length,
        ∀ i, same (command.get i) (line.get (place i)) = true := by
  rw [contains_iff, sublistForall₂_iff_exists_places]

/-! ## Abbreviations -/

section Abbreviations

variable {a b c : Str}

/-- A word is its letters and what follows them. -/
theorem split_append (word : Str) : (split word).1 ++ (split word).2 = word :=
  List.takeWhile_append_dropWhile

theorem sameWord_antisymm (hab : sameWord a b = true) (hba : sameWord b a = true) : a = b := by
  rcases (sameWord_iff a b).mp hab with rfl | ⟨-, hletters, hrest⟩
  · rfl
  rcases (sameWord_iff b a).mp hba with rfl | ⟨-, hback, -⟩
  · rfl
  have hsame : (split a).1 = (split b).1 :=
    hletters.eq_of_length (le_antisymm hletters.length_le hback.length_le)
  rw [← split_append a, ← split_append b, hsame, hrest]

theorem sameWord_trans (hab : sameWord a b = true) (hbc : sameWord b c = true) :
    sameWord a c = true := by
  rcases (sameWord_iff a b).mp hab with rfl | ⟨hlong, hletters, hrest⟩
  · exact hbc
  rcases (sameWord_iff b c).mp hbc with rfl | ⟨-, hmore, hsame⟩
  · exact hab
  exact (sameWord_iff a c).mpr (.inr ⟨hlong, hletters.trans hmore, hrest.trans hsame⟩)

theorem contains_trans {a b c : List Str} (hab : contains sameWord a b = true)
    (hbc : contains sameWord b c = true) : contains sameWord a c = true := by
  have : IsTrans Str fun a b => sameWord a b = true := ⟨fun _ _ _ => sameWord_trans⟩
  rw [contains_iff] at hab hbc ⊢
  exact IsTrans.trans _ _ _ hab hbc

end Abbreviations

/-- What the comparison of words holds. -/
structure WordMatching : Prop where
  contains_iff : ∀ (same : Str → Str → Bool) (command line : List Str),
    contains same command line = true ↔
      ∃ place : Fin command.length ↪o Fin line.length,
        ∀ i, same (command.get i) (line.get (place i)) = true
  refl : ∀ word, sameWord word word = true
  antisymm : ∀ a b, sameWord a b = true → sameWord b a = true → a = b
  trans : ∀ a b c, sameWord a b = true → sameWord b c = true → sameWord a c = true
  contains_trans : ∀ a b c, contains sameWord a b = true → contains sameWord b c = true →
    contains sameWord a c = true

theorem wordMatching : WordMatching where
  contains_iff := contains_iff_exists_places
  refl := sameWord_self
  antisymm _ _ := sameWord_antisymm
  trans _ _ _ := sameWord_trans
  contains_trans _ _ _ := contains_trans

end Evidence
end NetRollout
