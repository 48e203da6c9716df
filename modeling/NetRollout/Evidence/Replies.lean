import NetRollout.Evidence.TwoRuns

/-!
# A reply never overrides the configuration

The device's replies are read in three places: a removal that finds nothing is
certain only when the device was silent, a command in review is rejected when the
device replied to it, and so are the reviews of a block when the device replied
to the command that closed it.

`sameButReplies_judge` compares two runs that differ in the replies only.  A
verdict the configuration proves stays with its evidence, the changes and their
owners stay, and a verdict that differs is one of those three.
-/

namespace NetRollout
namespace Evidence

open PyText

namespace Judgment

/-- The configuration left the command unproven. -/
def Unproven (j : Judgment) : Prop := j.verdict = .review ∨ j.verdict = .rejected

/-- The verdict rests on the plain configuration, or on the command alone. -/
def Proven (j : Judgment) : Prop :=
  j.verdict = .tookEffect ∨ j.verdict = .removed ∨ j.verdict = .navigation ∨ j.verdict = .exec ∨
    (j.verdict = .inPlace ∧ j.note = .none)

/-- A removal with nothing there to remove. -/
def AlreadyAbsent (j : Judgment) : Prop := j.verdict = .inPlace ∧ j.note = .alreadyAbsent

theorem not_unproven_of_proven {j : Judgment} (h : j.Proven) : ¬ j.Unproven := by
  intro hun
  unfold Proven at h
  rcases hun with hv | hv <;> rw [hv] at h <;> simp at h

end Judgment

/-- A verdict that is not unproven is as settled. -/
theorem Rejects.eq_of_not_unproven {j k : Judgment} (h : Rejects j k) (hk : ¬ k.Unproven) :
    k = j := by
  cases h with
  | refl => rfl
  | reject note _ => exact absurd (Or.inr rfl) hk

theorem Rejects.unproven_iff {j k : Judgment} (h : Rejects j k) : k.Unproven ↔ j.Unproven := by
  cases h with
  | refl => exact Iff.rfl
  | reject note hreview => exact iff_of_true (Or.inr rfl) (Or.inl hreview)

namespace Judge

section Replies

variable [Unicode]

/-- Two outcomes of runs that differ in the replies only. -/
structure SameButReplies (J : Judge) (commands : List Typed) (outcome outcome' : Outcome) :
    Prop where
  /-- What the configuration proves stays, with its evidence. -/
  proven : ∀ (c : Nat) (j : Judgment), outcome.commands[c]? = some j → j.Proven →
    ∃ j', outcome'.commands[c]? = some j' ∧ j'.verdict = j.verdict ∧ j'.evidence = j.evidence
  /-- A verdict that differs is unproven in both runs, or a removal that found no
  line in either configuration. -/
  differ : ∀ (c : Nat) (j j' : Judgment), outcome.commands[c]? = some j → outcome'.commands[c]? = some j' →
    j'.verdict ≠ j.verdict →
      (j.Unproven ∧ j'.Unproven) ∨
        ∃ command context, commands[c]? = some command ∧ J.isRemoval command = true ∧
          (J.findings commands)[c]?.map Prod.snd = some context ∧
          J.nothingThere (command.words.drop 1) context = true ∧
          (j.AlreadyAbsent ∨ j'.AlreadyAbsent)
  /-- The changes and their owners are the same. -/
  changes : SameChanges outcome outcome'

theorem settled_absent (J : Judge) (commands : List Typed) (command : Typed)
    (context : Option Path) :
    (J.settled commands command (.absent, context)).AlreadyAbsent := by
  exact ⟨rfl, rfl⟩

/-- A settled verdict for nothing found is unproven, or in place by the view. -/
theorem not_proven_settled_unproven (J : Judge) (commands : List Typed) (command : Typed)
    (context : Option Path) :
    ¬ (J.settled commands command (.unproven, context)).Proven := by
  unfold settled
  rw [if_pos rfl]
  split <;> simp [toReview, toInPlace, Judgment.Proven]

/-- The same finding is settled the same, whatever the replies. -/
theorem settled_replied (J : Judge) (replied : List Bool) (commands : List Typed)
    (command : Typed) (entry : Finding × Option Path) :
    (J.reread replied J.view J.sections).settled commands command entry =
      J.settled commands command entry := by
  have hheaders : J.SameHeaders J.sections := fun _ _ => rfl
  unfold settled
  split
  · have hview : (J.reread replied J.view J.sections).viewLine command.words entry.2 =
        J.viewLine command.words entry.2 := rfl
    rw [hview, evidenceOf_reread J replied J.view J.sections
      (agree_finalState replied J.view hheaders commands)]
    rfl
  · exact afterConflicts_reread replied J.view hheaders commands command entry

/-- **Two runs that differ in the replies**, for any judge. -/
theorem sameButReplies_run (J : Judge) (replied : List Bool) (commands : List Typed) :
    SameButReplies J commands (J.run commands)
      ((J.reread replied J.view J.sections).run commands) := by
  have hheaders : J.SameHeaders J.sections := fun _ _ => rfl
  refine ⟨?_, ?_, sameChanges_reread replied J.view hheaders commands⟩
  · intro c j hj hproven
    obtain ⟨command, entry, hcmd, hentry, hrej⟩ := J.exists_of_run_commands hj
    have hsame := hrej.eq_of_not_unproven (Judgment.not_unproven_of_proven hproven)
    obtain ⟨entry', hentry'⟩ := (J.reread replied J.view J.sections).exists_finding hcmd
    obtain ⟨hcontext, hfinding⟩ := agree_findings replied J.view hheaders hcmd hentry hentry'
    obtain ⟨j', hj', hrej'⟩ := (J.reread replied J.view J.sections).exists_run_commands hcmd hentry'
    rw [settled_replied] at hrej'
    have hequal : entry' = entry := by
      obtain ⟨f, context⟩ := entry
      obtain ⟨f', context'⟩ := entry'
      subst hcontext
      cases hfinding with
      | same _ => rfl
      | answered _ _ _ =>
        -- already absent is no line of the configuration
        rw [hsame] at hproven
        have habsent := settled_absent J commands command context'
        unfold Judgment.Proven at hproven
        rw [habsent.1, habsent.2] at hproven
        simp at hproven
      | silent _ _ _ =>
        rw [hsame] at hproven
        exact absurd hproven (not_proven_settled_unproven J commands command context')
    rw [hequal, ← hsame] at hrej'
    refine ⟨j', hj', ?_⟩
    rw [hrej'.eq_of_not_unproven fun h =>
      Judgment.not_unproven_of_proven hproven (hrej'.unproven_iff.mp h)]
    exact ⟨rfl, rfl⟩
  · intro c j j' hj hj' hne
    obtain ⟨command, entry, hcmd, hentry, hrej⟩ := J.exists_of_run_commands hj
    obtain ⟨command', entry', hcmd', hentry', hrej'⟩ :=
      (J.reread replied J.view J.sections).exists_of_run_commands hj'
    rw [hcmd, Option.some_inj] at hcmd'
    subst hcmd'
    rw [settled_replied] at hrej'
    obtain ⟨hcontext, hfinding⟩ := agree_findings replied J.view hheaders hcmd hentry hentry'
    obtain ⟨f, context⟩ := entry
    obtain ⟨f', context'⟩ := entry'
    subst hcontext
    cases hfinding with
    | same _ =>
      left
      by_cases hun : (J.settled commands command (f, context')).Unproven
      · exact ⟨hrej.unproven_iff.mpr hun, hrej'.unproven_iff.mpr hun⟩
      · have h := hrej.eq_of_not_unproven fun h => hun (hrej.unproven_iff.mp h)
        have h' := hrej'.eq_of_not_unproven fun h => hun (hrej'.unproven_iff.mp h)
        exact absurd (by rw [h, h']) hne
    | answered _ hremoval hnothing =>
      refine Or.inr ⟨command, context', hcmd, hremoval, by rw [hentry]; rfl, hnothing, Or.inl ?_⟩
      rw [hrej.eq_of_ne_review (by rw [(settled_absent J commands command context').1]; simp)]
      exact settled_absent J commands command context'
    | silent _ hremoval hnothing =>
      refine Or.inr ⟨command, context', hcmd, hremoval, by rw [hentry]; rfl, hnothing, Or.inr ?_⟩
      rw [hrej'.eq_of_ne_review (by rw [(settled_absent J commands command context').1]; simp)]
      exact settled_absent J commands command context'

end Replies
end Judge

/-- **A reply never overrides the configuration.** -/
theorem sameButReplies_judge [Unicode] (G : Grammar) (commands : List Str) (before after : Str)
    (again : Option Str) (replied replied' : List Bool) (defaults : Option Str) :
    Judge.SameButReplies (mkJudge G before after again replied defaults) (typed G commands)
      (judge G commands before after again replied defaults)
      (judge G commands before after again replied' defaults) :=
  Judge.sameButReplies_run (mkJudge G before after again replied defaults) replied'
    (typed G commands)

end Evidence
end NetRollout
