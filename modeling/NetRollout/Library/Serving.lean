import Mathlib.Data.List.Basic
import Mathlib.Data.List.Induction
import Mathlib.Data.List.ReduceOption
import Mathlib.Data.List.Perm.Subperm
import Mathlib.Logic.Function.Basic

/-!
# Serving requests from a list, first come first served

Requests come one after the other, each for a key or for nothing, and each takes the first
member of a list with its key that no request took before.

`serve` is that, with the members not yet taken as a list.  A program keeps a queue for each
key instead, and `serveQueues_eq` says that this is the same.  `eq_serve_iff` is what being
served means, position by position, and `serve_skip_iff` when passing requests over changes
nothing: when the list has no more members of their key than were asked for before.
-/

namespace NetRollout
namespace Serving

variable {α κ : Type*} [BEq κ] [LawfulBEq κ] (key : α → κ)

/-- What each request is given, from the members left. -/
def serve : List α → List (Option κ) → List (Option α)
  | _, [] => []
  | left, none :: requests => none :: serve left requests
  | left, some k :: requests =>
    left.find? (fun a => key a == k) :: serve (left.eraseP fun a => key a == k) requests

/-- The same from a queue of members for each key. -/
def serveQueues [DecidableEq κ] (waiting : κ → List α) : List (Option κ) → List (Option α)
  | [] => []
  | none :: requests => none :: serveQueues waiting requests
  | some k :: requests =>
    match waiting k with
    | [] => none :: serveQueues waiting requests
    | a :: queue => some a :: serveQueues (Function.update waiting k queue) requests

/-- The member a request is for, of those not given before. -/
def next [BEq α] (left : List α) (given : List (Option α)) (request : Option κ) : Option α :=
  request.bind fun k => (left.diff given.reduceOption).find? fun a => key a == k

/-! ## Queues -/

variable {key}

theorem filter_eraseP_self (p : α → Bool) (l : List α) :
    (l.eraseP p).filter p = (l.filter p).tail := by
  induction l with
  | nil => rfl
  | cons a l ih =>
    by_cases h : p a = true
    · rw [List.eraseP_cons_of_pos h, List.filter_cons_of_pos h, List.tail_cons]
    · rw [List.eraseP_cons_of_neg h, List.filter_cons_of_neg h, List.filter_cons_of_neg h, ih]

theorem filter_eraseP_of_ne {k k' : κ} (h : k' ≠ k) (l : List α) :
    (l.eraseP fun a => key a == k).filter (fun a => key a == k') =
      l.filter fun a => key a == k' := by
  induction l with
  | nil => rfl
  | cons a l ih =>
    by_cases ha : (key a == k) = true
    · have hne : ¬ (key a == k') = true := by
        rw [beq_iff_eq] at ha ⊢
        exact fun heq => h (heq.symm.trans ha)
      rw [List.eraseP_cons_of_pos (p := fun a => key a == k) ha,
        List.filter_cons_of_neg (p := fun a => key a == k') hne]
    · rw [List.eraseP_cons_of_neg (p := fun a => key a == k) ha, List.filter_cons, List.filter_cons,
        ih]

/-- **Queues serve as the list does.** -/
theorem serveQueues_eq [DecidableEq κ] (left : List α) (requests : List (Option κ)) :
    serveQueues (fun k => left.filter fun a => key a == k) requests = serve key left requests := by
  induction requests generalizing left with
  | nil => rfl
  | cons request requests ih =>
    cases request with
    | none => exact congrArg (List.cons none) (ih left)
    | some k =>
      rw [serveQueues, serve, ← List.head?_filter]
      have hafter := ih (left.eraseP fun a => key a == k)
      rcases hqueue : left.filter (fun a => key a == k) with _ | ⟨a, queue⟩
      · have hnone : (left.eraseP fun a => key a == k) = left := by
          rw [List.eraseP_of_forall_not]
          intro a ha hk
          exact List.not_mem_nil (hqueue ▸ List.mem_filter.mpr ⟨ha, hk⟩)
        rw [hnone] at hafter ⊢
        exact congrArg (List.cons none) hafter
      · refine congrArg (List.cons (some a)) ((congrArg (serveQueues · requests) ?_).trans hafter)
        funext k'
        by_cases hk : k' = k
        · subst hk
          rw [Function.update_self, filter_eraseP_self, hqueue, List.tail_cons]
        · rw [Function.update_of_ne hk, filter_eraseP_of_ne hk]

/-- Keys told apart alike serve alike. -/
theorem serve_map {κ' : Type*} [BEq κ'] [LawfulBEq κ'] {f : κ → κ'} (hf : Function.Injective f)
    (left : List α) (requests : List (Option κ)) :
    serve (fun a => f (key a)) left (requests.map (Option.map f)) = serve key left requests := by
  have hkey : ∀ k, (fun a => f (key a) == f k) = fun a => key a == k := by
    intro k
    funext a
    rw [Bool.eq_iff_iff, beq_iff_eq, beq_iff_eq, hf.eq_iff]
  induction requests generalizing left with
  | nil => rfl
  | cons request requests ih =>
    cases request with
    | none => exact congrArg (List.cons none) (ih left)
    | some k =>
      rw [List.map_cons, Option.map_some, serve, serve, hkey, ih]

/-! ## What being served means -/

omit [LawfulBEq κ] in
theorem length_serve (left : List α) (requests : List (Option κ)) :
    (serve key left requests).length = requests.length := by
  induction requests generalizing left with
  | nil => rfl
  | cons request requests ih =>
    cases request <;> exact congrArg (· + 1) (ih _)

omit [LawfulBEq κ] in
/-- **Each member is given once at most.** -/
theorem subperm_serve (left : List α) (requests : List (Option κ)) :
    (serve key left requests).reduceOption.Subperm left := by
  induction requests generalizing left with
  | nil => exact List.nil_subperm
  | cons request requests ih =>
    cases request with
    | none =>
      rw [serve, List.reduceOption_cons_of_none]
      exact ih left
    | some k =>
      rw [serve]
      have hafter := ih (left.eraseP fun a => key a == k)
      cases hfind : left.find? fun a => key a == k with
      | none =>
        rw [List.reduceOption_cons_of_none]
        exact hafter.trans (List.eraseP_sublist).subperm
      | some a =>
        rw [List.reduceOption_cons_of_some]
        obtain ⟨hk, before, after, rfl, hbefore⟩ := List.find?_eq_some_iff_append.mp hfind
        have herase : ((before ++ a :: after).eraseP fun a => key a == k) = before ++ after := by
          rw [List.eraseP_append_right _ (fun b hb => by simpa using hbefore b hb),
            List.eraseP_cons_of_pos (p := fun a => key a == k) hk]
        rw [herase] at hafter ⊢
        exact ((List.subperm_cons a).mpr hafter).trans (List.perm_middle.symm.subperm)

/-- Erasing the first member with a key is erasing that member. -/
theorem erase_eq_eraseP [BEq α] [LawfulBEq α] {left : List α} {p : α → Bool} {a : α}
    (h : left.find? p = some a) : left.erase a = left.eraseP p := by
  induction left with
  | nil => cases h
  | cons b left ih =>
    by_cases hb : p b = true
    · rw [List.find?_cons_of_pos hb, Option.some_inj] at h
      subst h
      rw [List.erase_cons_head, List.eraseP_cons_of_pos hb]
    · rw [List.find?_cons_of_neg hb] at h
      have hne : ¬ (b == a) = true := by
        rw [beq_iff_eq]
        rintro rfl
        exact hb (List.find?_some h)
      rw [List.erase_cons_tail hne, List.eraseP_cons_of_neg hb, ih h]

omit [LawfulBEq κ] in
theorem getElem?_serve [BEq α] [LawfulBEq α] (left : List α) (requests : List (Option κ))
    {i : Nat} {request : Option κ} (h : requests[i]? = some request) :
    (serve key left requests)[i]? =
      some (next key left ((serve key left requests).take i) request) := by
  induction requests generalizing left i with
  | nil => cases h
  | cons first requests ih =>
    cases i with
    | zero =>
      rw [List.getElem?_cons_zero, Option.some_inj] at h
      subst h
      cases first <;> rfl
    | succ i =>
      rw [List.getElem?_cons_succ] at h
      cases first with
      | none => exact ih left h
      | some k =>
        rw [serve, List.getElem?_cons_succ, ih _ h, List.take_succ_cons]
        cases hfind : left.find? fun a => key a == k with
        | none =>
          have hnone : (left.eraseP fun a => key a == k) = left :=
            List.eraseP_of_forall_not (List.find?_eq_none.mp hfind)
          rw [hnone, next, next, List.reduceOption_cons_of_none]
        | some a =>
          rw [next, next, List.reduceOption_cons_of_some, List.diff_cons, erase_eq_eraseP hfind]

omit [LawfulBEq κ] in
/-- **Being served**, position by position: what was given before decides what comes next. -/
theorem eq_serve_iff [BEq α] [LawfulBEq α] {left : List α} {requests : List (Option κ)}
    {given : List (Option α)} : given = serve key left requests ↔
      given.length = requests.length ∧ ∀ (i : Nat) (request : Option κ),
        requests[i]? = some request →
          given[i]? = some (next key left (given.take i) request) := by
  constructor
  · rintro rfl
    exact ⟨length_serve left requests, fun i request h => getElem?_serve left requests h⟩
  · rintro ⟨hlength, heach⟩
    have hprefix : ∀ i, given.take i = (serve key left requests).take i := by
      intro i
      induction i with
      | zero => rfl
      | succ i ih =>
        rw [List.take_add_one, List.take_add_one, ih]
        congr 2
        cases hrequest : requests[i]? with
        | none =>
          have hle := List.getElem?_eq_none_iff.mp hrequest
          rw [List.getElem?_eq_none (by omega),
            List.getElem?_eq_none (by rw [length_serve]; exact hle)]
        | some request =>
          rw [heach i request hrequest, getElem?_serve left requests hrequest, ih]
    have hall := hprefix requests.length
    rw [← hlength, List.take_length] at hall
    rw [hall, hlength, ← length_serve left requests, List.take_length]

/-! ## Requests passed over -/

theorem count_eraseP (k k' : κ) (left : List α) :
    ((left.eraseP fun a => key a == k).map key).count k' =
      if k' == k then (left.map key).count k' - 1 else (left.map key).count k' := by
  induction left with
  | nil => exact (ite_self 0).symm
  | cons a left ih =>
    by_cases ha : (key a == k) = true
    · rw [List.eraseP_cons_of_pos (p := fun a => key a == k) ha, List.map_cons]
      rw [beq_iff_eq] at ha
      subst ha
      by_cases hk : k' = key a
      · subst hk
        rw [beq_self_eq_true, if_pos rfl, List.count_cons_self, Nat.add_sub_cancel]
      · rw [beq_eq_false_iff_ne.mpr hk, if_neg Bool.false_ne_true,
          List.count_cons_of_ne (fun heq => hk heq.symm)]
    · rw [List.eraseP_cons_of_neg (p := fun a => key a == k) ha, List.map_cons, List.map_cons,
        List.count_cons, List.count_cons, ih]
      by_cases hk : k' = k
      · subst hk
        have hne : (key a == k') = false := by simpa using ha
        rw [beq_self_eq_true, if_pos rfl, if_pos rfl, hne]
        rfl
      · rw [beq_eq_false_iff_ne.mpr hk, if_neg Bool.false_ne_true, if_neg Bool.false_ne_true]

theorem find?_eq_none_iff_count {k : κ} {left : List α} :
    (left.find? fun a => key a == k) = none ↔ (left.map key).count k = 0 := by
  rw [List.find?_eq_none, List.count_eq_zero, List.mem_map]
  constructor
  · rintro h ⟨a, ha, rfl⟩
    exact h a ha (beq_self_eq_true _)
  · rintro h a ha hk
    exact h ⟨a, ha, beq_iff_eq.mp hk⟩

/-- Where an entry stands in a list, its head apart. -/
theorem forall_append_cons_iff {β : Type*} {P : List β → β → Prop} {b : β} {l : List β} :
    (∀ before c after, b :: l = before ++ c :: after → P before c) ↔
      P [] b ∧ ∀ before c after, l = before ++ c :: after → P (b :: before) c := by
  constructor
  · intro h
    exact ⟨h [] b l rfl, fun before c after heq => h (b :: before) c after (by rw [heq]; rfl)⟩
  · rintro ⟨hhead, htail⟩ before c after heq
    cases before with
    | nil =>
      obtain ⟨rfl, -⟩ := List.cons.inj heq
      exact hhead
    | cons b' before =>
      obtain ⟨rfl, hl⟩ := List.cons.inj heq
      exact htail before c after hl

/-- The requests that are answered, of requests some of which are passed over. -/
def answered (requests : List (Option κ × Bool)) : List (Option κ) :=
  requests.map fun request => if request.2 then none else request.1

/-- **Passing requests over changes nothing** exactly when each asks for a key of which the
list has no more members than were asked for before. -/
theorem serve_skip_iff (left : List α) (requests : List (Option κ × Bool)) :
    serve key left (answered requests) = serve key left (requests.map Prod.fst) ↔
      ∀ before request after, requests = before ++ request :: after →
        request.2 = true → ∀ k ∈ request.1,
          (left.map key).count k ≤ ((before.map Prod.fst).reduceOption).count k := by
  induction requests generalizing left with
  | nil => exact iff_of_true rfl fun before _ _ heq => absurd heq (by simp)
  | cons first requests ih =>
    rw [forall_append_cons_iff, answered, List.map_cons, List.map_cons, ← answered]
    obtain ⟨request, skipped⟩ := first
    cases request with
    | none =>
      have hheads : (if skipped = true then none else (none : Option κ)) = none := ite_self none
      dsimp only
      rw [hheads, serve, serve, List.cons_inj_right, ih]
      simp only [List.map_cons, List.reduceOption_cons_of_none]
      exact (and_iff_right fun _ => nofun).symm
    | some k =>
      cases skipped with
      | false =>
        dsimp only
        rw [if_neg Bool.false_ne_true, serve, serve, List.cons_inj_right, ih]
        simp only [List.map_cons, List.reduceOption_cons_of_some, Bool.false_eq_true,
          IsEmpty.forall_iff, true_and]
        refine forall₄_congr fun before request after _ => forall₃_congr fun _ k' _ => ?_
        rw [count_eraseP, List.count_cons]
        by_cases hk : k' = k
        · subst hk
          rw [beq_self_eq_true, if_pos rfl, if_pos rfl]
          omega
        · have hne : (k == k') = false := beq_eq_false_iff_ne.mpr fun heq => hk heq.symm
          rw [beq_eq_false_iff_ne.mpr hk, hne, if_neg Bool.false_ne_true,
            if_neg Bool.false_ne_true, Nat.add_zero]
      | true =>
        dsimp only
        rw [if_pos rfl, serve, serve, List.cons.injEq, eq_comm (a := none),
          find?_eq_none_iff_count]
        simp only [List.map_cons, List.map_nil, List.reduceOption_cons_of_some,
          List.reduceOption_nil, forall_const, Option.mem_def, Option.some_inj, forall_eq',
          List.count_nil, Nat.le_zero]
        refine and_congr_right fun hzero => ?_
        have hnone : (left.eraseP fun a => key a == k) = left :=
          List.eraseP_of_forall_not (List.find?_eq_none.mp (find?_eq_none_iff_count.mpr hzero))
        rw [hnone, ih]
        refine forall₄_congr fun before request after _ => forall₃_congr fun _ k' _ => ?_
        rw [List.count_cons]
        by_cases hk : k' = k
        · subst hk
          omega
        · have hne : (k == k') = false := beq_eq_false_iff_ne.mpr fun heq => hk heq.symm
          rw [hne]
          simp

end Serving
end NetRollout
