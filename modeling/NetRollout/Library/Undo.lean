import Mathlib.Data.List.Basic
import Mathlib.Data.Option.Basic

/-!
# Changes that may be undone

One content, written over by one change after the other.  A change keeps what it replaced and
what it wrote.  It is decided about later, in any order; refused, it is undone: what it replaced
is put back, if the content is still what it wrote.

`owner` says whose the content is, and `previous` whose a change replaced.  `Safe` is the condition
on an undo under which the content is never that of a change undone (`Kept`): the content is its
own, and what it puts back is of no change undone before it.

A change may also leave the content alone, so that several contents share their changes.
-/

namespace NetRollout
namespace Undo

variable {α : Type}

inductive Verdict where
  | waiting
  | accepted
  /-- Neither: nobody answered. -/
  | unanswered
  | refused
  | undone
  deriving DecidableEq

/-- Not answered, or its undo is to come. -/
def Verdict.inProgress : Verdict → Bool
  | waiting | refused => true
  | _ => false

/-- What a change replaced, and what it wrote. -/
structure Write (α : Type) where
  saved : α
  written : α
  /-- Whose it replaced. -/
  previous : Option Nat

structure Change (α : Type) where
  write : Option (Write α)
  verdict : Verdict

structure Register (α : Type) where
  original : α
  content : α
  owner : Option Nat
  changes : List (Change α)

namespace Register

variable (r : Register α) {i j : Nat} {w : Write α}

/-- What change `i` wrote. -/
def writeOf (i : Nat) : Option (Write α) := r.changes[i]?.bind Change.write

/-- Change `i` was undone. -/
def Undone (i : Nat) : Prop := ∃ c, r.changes[i]? = some c ∧ c.verdict = .undone

/-- The next change; it writes, or leaves the content alone. -/
def make (new : Option α) : Register α :=
  { r with
    content := new.getD r.content
    owner := if new.isSome then some r.changes.length else r.owner
    changes := r.changes ++ [⟨new.map fun v => ⟨r.content, v, r.owner⟩, .waiting⟩] }

def settle (i : Nat) (verdict : Verdict) : Register α :=
  { r with changes := r.changes.modify i fun c => { c with verdict } }

/-- Change `i` is no longer in place, or it is, and what it replaced was not undone; where it is
another's, nothing is replaced. -/
def Safe (i : Nat) : Prop :=
  ∀ w, r.writeOf i = some w → r.content = w.written →
    (r.owner = some i ∧ ∀ j, w.previous = some j → ¬r.Undone j) ∨
      (r.owner ≠ some i ∧ w.saved = w.written)

/-- The content is its owner's, who was not undone; what a change replaced was `previous`'s. -/
structure Kept : Prop where
  original : r.owner = none → r.content = r.original
  owned : ∀ i, r.owner = some i →
    (∃ w, r.writeOf i = some w ∧ r.content = w.written) ∧ ¬r.Undone i
  first : ∀ i w, r.writeOf i = some w → w.previous = none → w.saved = r.original
  replaced : ∀ i w j, r.writeOf i = some w → w.previous = some j →
    j < i ∧ ∃ w', r.writeOf j = some w' ∧ w.saved = w'.written

section Undo

variable [DecidableEq α]

/-- `Safe`, decided. -/
def safe (i : Nat) : Bool :=
  (r.writeOf i).all fun w =>
    decide (r.content ≠ w.written) ||
      if r.owner = some i then w.previous.all fun j => !r.changes[j]?.any (·.verdict == .undone)
      else decide (w.saved = w.written)

def undo (i : Nat) : Register α :=
  match r.writeOf i with
  | none => r.settle i .undone
  | some w =>
    { r.settle i .undone with
      content := if r.content = w.written then w.saved else r.content
      owner := if r.owner = some i then w.previous else r.owner }

end Undo

variable {r}

/-! ## The changes -/

theorem undone_iff : r.Undone i ↔ r.changes[i]?.any (·.verdict == .undone) = true := by
  rw [Undone]
  cases r.changes[i]? <;> simp

theorem safe_iff [DecidableEq α] : r.safe i = true ↔ r.Safe i := by
  have hover : ∀ w : Write α,
      w.previous.all (fun j => !r.changes[j]?.any (·.verdict == .undone)) = true ↔
      ∀ j, w.previous = some j → ¬r.Undone j := by
    intro w
    cases w.previous <;> simp [undone_iff]
  rw [safe, Safe]
  cases r.writeOf i with
  | none => simp
  | some w =>
    rw [Option.all_some, Bool.or_eq_true, decide_eq_true_eq, ne_eq, ← Decidable.imp_iff_not_or]
    by_cases howner : r.owner = some i
    · simp [howner, ← hover]
    · simp [howner]

theorem lt_of_writeOf (h : r.writeOf i = some w) : i < r.changes.length := by
  obtain ⟨c, hc, -⟩ := Option.bind_eq_some_iff.mp h
  exact (List.getElem?_eq_some_iff.mp hc).1

theorem writeOf_make_of_lt {new : Option α} (h : i < r.changes.length) :
    (r.make new).writeOf i = r.writeOf i := by
  rw [writeOf, make, List.getElem?_append_left h]
  rfl

/-- The last change wrote what is new over what was there. -/
theorem writeOf_make {new : Option α} (h : (r.make new).writeOf i = some w) :
    r.writeOf i = some w ∨
      i = r.changes.length ∧ new = some w.written ∧ w.saved = r.content ∧ w.previous = r.owner := by
  by_cases hlt : i < r.changes.length
  · rw [writeOf_make_of_lt hlt] at h
    exact .inl h
  · have hlen : i < (r.make new).changes.length := lt_of_writeOf h
    rw [make, List.length_append, List.length_singleton] at hlen
    obtain rfl : i = r.changes.length := by omega
    rw [writeOf, make, List.getElem?_concat_length] at h
    obtain ⟨v, rfl, rfl⟩ := Option.map_eq_some_iff.mp h
    exact .inr ⟨rfl, rfl, rfl, rfl⟩

theorem undone_make {new : Option α} (h : (r.make new).Undone i) : r.Undone i := by
  obtain ⟨c, hc, hundone⟩ := h
  by_cases hlt : i < r.changes.length
  · rw [make, List.getElem?_append_left hlt] at hc
    exact ⟨c, hc, hundone⟩
  · have hlen : i < (r.make new).changes.length := (List.getElem?_eq_some_iff.mp hc).1
    rw [make, List.length_append, List.length_singleton] at hlen
    obtain rfl : i = r.changes.length := by omega
    rw [make, List.getElem?_concat_length, Option.some.injEq] at hc
    rw [← hc] at hundone
    cases hundone

@[simp] theorem writeOf_settle {verdict : Verdict} :
    (r.settle i verdict).writeOf j = r.writeOf j := by
  rw [writeOf, settle, List.getElem?_modify, writeOf]
  cases r.changes[j]? with
  | none => rfl
  | some c =>
    by_cases h : i = j
    · simp [h]
    · simp [h]

theorem undone_settle {verdict : Verdict} (h : (r.settle i verdict).Undone j) :
    (j = i ∧ verdict = .undone) ∨ (j ≠ i ∧ r.Undone j) := by
  obtain ⟨c, hc, hundone⟩ := h
  rw [settle, List.getElem?_modify] at hc
  obtain ⟨d, hd, rfl⟩ := Option.map_eq_some_iff.mp hc
  by_cases hij : i = j
  · rw [if_pos hij] at hundone
    exact .inl ⟨hij.symm, hundone⟩
  · rw [if_neg hij] at hundone
    exact .inr ⟨Ne.symm hij, d, hd, hundone⟩

/-- An undo of a change whose content isn't in place leaves it, safe. -/
theorem content_undo [DecidableEq α] (hsafe : r.Safe i) (howner : r.owner ≠ some i) :
    (r.undo i).content = r.content ∧ (r.undo i).owner = r.owner := by
  rw [Register.undo]
  cases hwrite : r.writeOf i with
  | none => exact ⟨rfl, rfl⟩
  | some w =>
    refine ⟨?_, if_neg howner⟩
    show (if r.content = w.written then w.saved else r.content) = r.content
    split
    · rename_i heq
      rcases hsafe w hwrite heq with ⟨hself, -⟩ | ⟨-, hsame⟩
      · exact (howner hself).elim
      · rw [hsame, heq]
    · rfl

/-! ## What every step keeps -/

namespace Kept

theorem make (h : r.Kept) (new : Option α) : (r.make new).Kept := by
  constructor
  · intro howner
    cases new with
    | none => exact h.original howner
    | some v => cases howner
  · intro i howner
    cases new with
    | none =>
      obtain ⟨⟨w, hw, hcontent⟩, hnot⟩ := h.owned i howner
      refine ⟨⟨w, ?_, hcontent⟩, fun hundone => hnot (undone_make hundone)⟩
      rw [writeOf_make_of_lt (lt_of_writeOf hw)]
      exact hw
    | some v =>
      obtain rfl : r.changes.length = i := Option.some.inj howner
      refine ⟨⟨⟨r.content, v, r.owner⟩, ?_, rfl⟩, fun hundone => ?_⟩
      · rw [writeOf, Register.make, List.getElem?_concat_length]
        rfl
      · obtain ⟨c, hc, -⟩ := undone_make hundone
        exact absurd (List.getElem?_eq_some_iff.mp hc).1 (Nat.lt_irrefl _)
  · intro i w hw hover
    rcases writeOf_make hw with hw | ⟨-, -, hsaved, howner⟩
    · exact h.first i w hw hover
    · exact hsaved.trans (h.original (howner.symm.trans hover))
  · intro i w j hw hover
    have hreplaced : j < i ∧ ∃ w', r.writeOf j = some w' ∧ w.saved = w'.written := by
      rcases writeOf_make hw with hw | ⟨rfl, -, hsaved, howner⟩
      · exact h.replaced i w j hw hover
      · obtain ⟨⟨w', hw', hcontent⟩, -⟩ := h.owned j (howner.symm.trans hover)
        exact ⟨lt_of_writeOf hw', w', hw', hsaved.trans hcontent⟩
    obtain ⟨hlt, w', hw', hsaved⟩ := hreplaced
    exact ⟨hlt, w', (writeOf_make_of_lt (lt_of_writeOf hw')).trans hw', hsaved⟩

theorem settle {verdict : Verdict} (h : r.Kept) (hverdict : verdict ≠ .undone) :
    (r.settle i verdict).Kept := by
  constructor
  · exact h.original
  · intro k howner
    obtain ⟨⟨w, hw, hcontent⟩, hnot⟩ := h.owned k howner
    refine ⟨⟨w, writeOf_settle.trans hw, hcontent⟩, fun hundone => ?_⟩
    rcases undone_settle hundone with ⟨-, heq⟩ | ⟨-, hundone⟩
    · exact hverdict heq
    · exact hnot hundone
  · intro k w hw
    exact h.first k w (writeOf_settle.symm.trans hw)
  · intro k w j hw hover
    obtain ⟨hlt, w', hw', hsaved⟩ := h.replaced k w j (writeOf_settle.symm.trans hw) hover
    exact ⟨hlt, w', writeOf_settle.trans hw', hsaved⟩

variable [DecidableEq α]

theorem changes_undo : (r.undo i).changes = (r.settle i .undone).changes := by
  rw [Register.undo]
  cases r.writeOf i <;> rfl

theorem undo (h : r.Kept) (hsafe : r.Safe i) : (r.undo i).Kept := by
  have hwrites : ∀ j, (r.undo i).writeOf j = r.writeOf j := by
    intro j
    rw [writeOf, changes_undo]
    exact writeOf_settle
  have hundone : ∀ j, (r.undo i).Undone j → j = i ∨ r.Undone j := by
    intro j hj
    rw [Undone, changes_undo] at hj
    exact (undone_settle hj).imp And.left And.right
  have horiginal : (r.undo i).original = r.original := by
    rw [Register.undo]
    cases r.writeOf i <;> rfl
  have hrest : ∀ k w j, (r.undo i).writeOf k = some w → w.previous = some j →
      j < k ∧ ∃ w', (r.undo i).writeOf j = some w' ∧ w.saved = w'.written := by
    intro k w j hw hover
    rw [hwrites] at hw
    rw [hwrites]
    exact h.replaced k w j hw hover
  by_cases howner : r.owner = some i
  · -- its own content gives way to what it replaced
    obtain ⟨⟨w, hw, hcontent⟩, -⟩ := h.owned i howner
    have hnew : (r.undo i).content = w.saved ∧ (r.undo i).owner = w.previous := by
      rw [Register.undo, hw]
      exact ⟨if_pos hcontent, if_pos howner⟩
    have hover := (hsafe w hw hcontent).resolve_right fun hne => hne.1 howner
    refine ⟨?_, ?_, ?_, hrest⟩
    · rw [hnew.1, hnew.2, horiginal]
      exact h.first i w hw
    · intro k hk
      rw [hnew.2] at hk
      obtain ⟨hlt, w', hw', hsaved⟩ := h.replaced i w k hw hk
      refine ⟨⟨w', (hwrites k).trans hw', hnew.1.trans hsaved⟩, fun hkundone => ?_⟩
      rcases hundone k hkundone with rfl | hkundone
      · exact Nat.lt_irrefl _ hlt
      · exact hover.2 k hk hkundone
    · intro k w hw
      rw [hwrites] at hw
      rw [horiginal]
      exact h.first k w hw
  · obtain ⟨hcontent, hsame⟩ := content_undo hsafe howner
    refine ⟨?_, ?_, ?_, hrest⟩
    · rw [hcontent, hsame, horiginal]
      exact h.original
    · intro k hk
      rw [hsame] at hk
      obtain ⟨⟨w, hw, hheld⟩, hnot⟩ := h.owned k hk
      refine ⟨⟨w, (hwrites k).trans hw, hcontent.trans hheld⟩, fun hkundone => ?_⟩
      rcases hundone k hkundone with rfl | hkundone
      · exact howner hk
      · exact hnot hkundone
    · intro k w hw
      rw [hwrites] at hw
      rw [horiginal]
      exact h.first k w hw

/-- An undo leaves the content to another change that has it. -/
theorem undo_other (h : r.Kept) (hj : r.owner = some j) (hw : r.writeOf j = some w) (hne : j ≠ i)
    (hsafe : r.Safe i) : r.content = w.written ∧ (r.undo i).content = w.written := by
  obtain ⟨⟨w', hw', hcontent⟩, -⟩ := h.owned j hj
  obtain rfl := Option.some.inj (hw'.symm.trans hw)
  have howner : r.owner ≠ some i := fun heq => hne (Option.some.inj (hj.symm.trans heq))
  exact ⟨hcontent, (content_undo hsafe howner).1.trans hcontent⟩

/-! ## Where no change is in progress -/

omit [DecidableEq α] in
/-- **The content is that of a change not refused, or the first.** -/
theorem of_settled (h : r.Kept) (hsettled : ∀ c ∈ r.changes, c.verdict.inProgress = false) :
    r.content = r.original ∨ ∃ c ∈ r.changes, ∃ w, c.write = some w ∧ r.content = w.written ∧
      (c.verdict = .accepted ∨ c.verdict = .unanswered) := by
  cases howner : r.owner with
  | none => exact .inl (h.original howner)
  | some i =>
    obtain ⟨⟨w, hw, hcontent⟩, hnot⟩ := h.owned i howner
    obtain ⟨c, hc, hwrite⟩ := Option.bind_eq_some_iff.mp hw
    have hmem := List.mem_of_getElem? hc
    refine .inr ⟨c, hmem, w, hwrite, hcontent, ?_⟩
    have hprogress := hsettled c hmem
    cases hverdict : c.verdict with
    | accepted => exact .inl rfl
    | unanswered => exact .inr rfl
    | undone => exact (hnot ⟨c, hc, hverdict⟩).elim
    | waiting | refused =>
      rw [hverdict] at hprogress
      cases hprogress

omit [DecidableEq α] in
/-- Every change undone, the content is the first. -/
theorem of_undone (h : r.Kept) (hundone : ∀ c ∈ r.changes, c.verdict = .undone) :
    r.content = r.original := by
  cases howner : r.owner with
  | none => exact h.original howner
  | some i =>
    obtain ⟨⟨w, hw, -⟩, hnot⟩ := h.owned i howner
    obtain ⟨c, hc, -⟩ := Option.bind_eq_some_iff.mp hw
    exact (hnot ⟨c, hc, hundone c (List.mem_of_getElem? hc)⟩).elim

end Kept
end Register
end Undo
end NetRollout
