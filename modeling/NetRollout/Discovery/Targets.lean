import Mathlib.Algebra.Order.BigOperators.Group.List
import Mathlib.Algebra.Order.Ring.Int
import Mathlib.Data.List.Nodup
import Mathlib.Data.List.Sort

/-!
# The addresses of a discovery

What `src/discovery/targets.py` makes of the entries an admin typed, once each has been
read into a span: the spans are sorted, joined where they overlap or touch, and counted,
and the addresses are listed from them, IPv4 first.

The total is counted without listing anything.  `length_addresses` is why it is right, and
`nodup_addresses` why an address two entries share is scanned once.
-/

namespace NetRollout
namespace Discovery

inductive Version where
  | v4
  | v6
  deriving DecidableEq

def Version.number : Version → Nat
  | v4 => 4
  | v6 => 6

/-- An address of a family, as an integer. -/
structure Address where
  version : Version
  number : Nat
  deriving DecidableEq

/-- It comes earlier: IPv4 first, each family in ascending order. -/
def Address.Before (a b : Address) : Prop :=
  a.version.number < b.version.number ∨ (a.version = b.version ∧ a.number < b.number)

/-- Consecutive addresses of one family, both ends included. -/
structure Span where
  version : Version
  first : Nat
  last : Nat
  le : first ≤ last

namespace Span

def size (s : Span) : Nat := s.last - s.first + 1

/-- Its addresses, in ascending order. -/
def addresses (s : Span) : List Address := (List.range' s.first s.size).map (.mk s.version)

/-- The order the spans are sorted in: `(s.version, s.first)`. -/
def sortsBefore (s t : Span) : Bool :=
  s.version.number < t.version.number || (s.version = t.version && s.first ≤ t.first)

/-- It ends before the other begins. -/
def EndsBefore (s t : Span) : Prop :=
  s.version.number < t.version.number ∨ (s.version = t.version ∧ s.last < t.first)

end Span

/-- A span joins the merged ones, the last of them first. -/
def join (merged : List Span) (span : Span) : List Span :=
  match merged with
  | last :: rest =>
    if last.version = span.version ∧ span.first ≤ last.last + 1 then
      ⟨last.version, last.first, max last.last span.last,
        le_trans last.le (le_max_left _ _)⟩ :: rest
    else span :: last :: rest
  | [] => [span]

/-- `_merged`: the spans sorted, overlapping or adjacent ones joined. -/
def mergeSpans (spans : List Span) : List Span :=
  ((spans.insertionSort fun s t => s.sortsBefore t).foldl join []).reverse

/-! ## Merged spans keep apart -/

theorem number_injective {v w : Version} (h : v.number = w.number) : v = w := by
  cases v <;> cases w <;> first | rfl | cases h

namespace Span

variable {s t u : Span}

theorem sortsBefore_iff : s.sortsBefore t = true ↔
    s.version.number < t.version.number ∨ (s.version = t.version ∧ s.first ≤ t.first) := by
  simp [sortsBefore]

theorem sortsBefore_total (s t : Span) : s.sortsBefore t = true ∨ t.sortsBefore s = true := by
  rw [sortsBefore_iff, sortsBefore_iff]
  rcases lt_trichotomy s.version.number t.version.number with hlt | heq | hlt
  · exact .inl (.inl hlt)
  · have hversion := number_injective heq
    rcases le_total s.first t.first with hle | hle
    · exact .inl (.inr ⟨hversion, hle⟩)
    · exact .inr (.inr ⟨hversion.symm, hle⟩)
  · exact .inr (.inl hlt)

theorem sortsBefore_trans (hst : s.sortsBefore t = true) (htu : t.sortsBefore u = true) :
    s.sortsBefore u = true := by
  rw [sortsBefore_iff] at hst htu ⊢
  rcases hst with hst | ⟨hversion, hst⟩
  · rcases htu with htu | ⟨hversion', -⟩
    · exact .inl (hst.trans htu)
    · exact .inl (hversion' ▸ hst)
  · rcases htu with htu | ⟨hversion', htu⟩
    · exact .inl (hversion ▸ htu)
    · exact .inr ⟨hversion.trans hversion', hst.trans htu⟩

theorem EndsBefore.trans (hst : s.EndsBefore t) (htu : t.EndsBefore u) : s.EndsBefore u := by
  rcases hst with hst | ⟨hversion, hst⟩
  · rcases htu with htu | ⟨hversion', -⟩
    · exact .inl (hst.trans htu)
    · exact .inl (hversion' ▸ hst)
  · rcases htu with htu | ⟨hversion', htu⟩
    · exact .inl (hversion ▸ htu)
    · have hlt := t.le
      exact .inr ⟨hversion.trans hversion', by omega⟩

theorem mem_addresses {a : Address} :
    a ∈ s.addresses ↔ a.version = s.version ∧ s.first ≤ a.number ∧ a.number ≤ s.last := by
  have hle := s.le
  rw [addresses, List.mem_map]
  constructor
  · rintro ⟨n, hn, rfl⟩
    rw [List.mem_range'_1, size] at hn
    exact ⟨rfl, hn.1, by dsimp only; omega⟩
  · rintro ⟨hversion, hfirst, hlast⟩
    refine ⟨a.number, ?_, by rw [← hversion]⟩
    rw [List.mem_range'_1, size]
    omega

/-- Spans apart share no address. -/
theorem EndsBefore.disjoint (h : s.EndsBefore t) : s.addresses.Disjoint t.addresses := by
  intro a hs ht
  obtain ⟨n, hn, rfl⟩ := List.mem_map.mp hs
  obtain ⟨m, hm, heq⟩ := List.mem_map.mp ht
  obtain ⟨hversion, rfl⟩ := Address.mk.injEq .. ▸ heq
  rw [List.mem_range'_1] at hn hm
  rcases h with h | ⟨-, h⟩
  · rw [hversion] at h
    exact lt_irrefl _ h
  · have hle := s.le
    rw [size] at hn
    omega

theorem EndsBefore.before (h : s.EndsBefore t) :
    ∀ a ∈ s.addresses, ∀ b ∈ t.addresses, a.Before b := by
  intro a ha b hb
  obtain ⟨hversion, -, hlast⟩ := mem_addresses.mp ha
  obtain ⟨hversion', hfirst, -⟩ := mem_addresses.mp hb
  rcases h with h | ⟨hsame, h⟩
  · exact .inl (by rwa [hversion, hversion'])
  · exact .inr ⟨hversion.trans (hsame.trans hversion'.symm), by omega⟩

theorem pairwise_addresses (s : Span) : s.addresses.Pairwise Address.Before := by
  rw [addresses, List.pairwise_map]
  exact (List.pairwise_lt_range' 1).imp fun h => .inr ⟨rfl, h⟩

theorem nodup_addresses (s : Span) : s.addresses.Nodup := by
  refine List.Nodup.map ?_ (List.nodup_range' 1)
  intro n m heq
  exact (Address.mk.injEq .. ▸ heq).2

theorem length_addresses (s : Span) : s.addresses.length = s.size := by
  rw [addresses, List.length_map, List.length_range']

end Span

/-- The merged spans so far keep apart, and the next one sorts after them. -/
theorem pairwise_join {merged : List Span} {span : Span}
    (h : merged.Pairwise fun t s => s.EndsBefore t)
    (hnext : ∀ last ∈ merged.head?, last.sortsBefore span = true) :
    (join merged span).Pairwise fun t s => s.EndsBefore t := by
  cases merged with
  | nil => exact List.pairwise_singleton _ _
  | cons last rest =>
    rw [join]
    rw [List.pairwise_cons] at h
    split
    · refine List.pairwise_cons.mpr ⟨fun s hs => ?_, h.2⟩
      exact h.1 s hs
    · next hapart =>
      have hbefore : last.EndsBefore span := by
        rcases Span.sortsBefore_iff.mp (hnext last rfl) with hlt | ⟨hversion, -⟩
        · exact .inl hlt
        · refine .inr ⟨hversion, ?_⟩
          by_contra hle
          exact hapart ⟨hversion, by omega⟩
      refine List.pairwise_cons.mpr ⟨fun s hs => ?_, List.pairwise_cons.mpr h⟩
      rcases List.mem_cons.mp hs with rfl | hs
      · exact hbefore
      · exact (h.1 s hs).trans hbefore

/-- The last of the merged spans begins no later than the span that joined them. -/
theorem sortsBefore_join {merged : List Span} {span next : Span}
    (hspan : ∀ last ∈ merged.head?, last.sortsBefore span = true)
    (hnext : span.sortsBefore next = true) :
    ∀ last ∈ (join merged span).head?, last.sortsBefore next = true := by
  cases merged with
  | nil =>
    rintro last ⟨⟩
    exact hnext
  | cons head rest =>
    rw [join]
    split
    · rintro last ⟨⟩
      exact Span.sortsBefore_trans (hspan head rfl) hnext
    · rintro last ⟨⟩
      exact hnext

theorem pairwise_foldl_join {spans merged : List Span}
    (hsorted : spans.Pairwise fun s t => s.sortsBefore t = true)
    (h : merged.Pairwise fun t s => s.EndsBefore t)
    (hnext : ∀ last ∈ merged.head?, ∀ span ∈ spans, last.sortsBefore span = true) :
    (spans.foldl join merged).Pairwise fun t s => s.EndsBefore t := by
  induction spans generalizing merged with
  | nil => exact h
  | cons span spans ih =>
    rw [List.pairwise_cons] at hsorted
    have hspan : ∀ last ∈ merged.head?, last.sortsBefore span = true :=
      fun last hlast => hnext last hlast span List.mem_cons_self
    refine ih hsorted.2 (pairwise_join h hspan) fun last hlast next hmem => ?_
    exact sortsBefore_join hspan (hsorted.1 next hmem) last hlast

theorem sorted_insertionSort (spans : List Span) :
    (spans.insertionSort fun s t => s.sortsBefore t).Pairwise
      fun s t => s.sortsBefore t = true := by
  have htotal : Std.Total fun s t : Span => s.sortsBefore t = true := ⟨Span.sortsBefore_total⟩
  have htrans : IsTrans Span fun s t => s.sortsBefore t = true :=
    ⟨fun _ _ _ => Span.sortsBefore_trans⟩
  exact List.pairwise_insertionSort _ spans

/-- **Merged spans keep apart.** -/
theorem pairwise_mergeSpans (spans : List Span) : (mergeSpans spans).Pairwise Span.EndsBefore := by
  rw [mergeSpans, List.pairwise_reverse]
  exact pairwise_foldl_join (sorted_insertionSort spans) .nil nofun

/-! ## Merged spans hold the same addresses -/

/-- A span that joins the last of the merged ones begins no earlier, so nothing is between. -/
theorem mem_join {merged : List Span} {span : Span} {a : Address}
    (hnext : ∀ last ∈ merged.head?, last.sortsBefore span = true) :
    (∃ s ∈ join merged span, a ∈ s.addresses) ↔
      a ∈ span.addresses ∨ ∃ s ∈ merged, a ∈ s.addresses := by
  cases merged with
  | nil => simp only [join, List.mem_singleton, exists_eq_left, List.not_mem_nil, false_and,
      exists_false, or_false]
  | cons last rest =>
    rw [join]
    split
    · next hjoins =>
      have hfirst : last.first ≤ span.first := by
        rcases Span.sortsBefore_iff.mp (hnext last rfl) with hlt | ⟨-, hle⟩
        · rw [hjoins.1] at hlt
          exact absurd hlt (lt_irrefl _)
        · exact hle
      have hlast := last.le
      have hspan := span.le
      have hboth : ∀ (le : last.first ≤ max last.last span.last),
          a ∈ (Span.mk last.version last.first (max last.last span.last) le).addresses ↔
            a ∈ span.addresses ∨ a ∈ last.addresses := by
        intro le
        simp only [Span.mem_addresses, hjoins.1, ← and_or_left]
        refine and_congr_right fun _ => ?_
        omega
      simp only [List.mem_cons, exists_eq_or_imp, hboth, or_assoc]
    · simp only [List.mem_cons, exists_eq_or_imp]

theorem mem_foldl_join {spans merged : List Span} {a : Address}
    (hsorted : spans.Pairwise fun s t => s.sortsBefore t = true)
    (hnext : ∀ last ∈ merged.head?, ∀ span ∈ spans, last.sortsBefore span = true) :
    (∃ s ∈ spans.foldl join merged, a ∈ s.addresses) ↔
      (∃ s ∈ spans, a ∈ s.addresses) ∨ ∃ s ∈ merged, a ∈ s.addresses := by
  induction spans generalizing merged with
  | nil => simp only [List.foldl_nil, List.not_mem_nil, false_and, exists_false, false_or]
  | cons span spans ih =>
    rw [List.pairwise_cons] at hsorted
    have hspan : ∀ last ∈ merged.head?, last.sortsBefore span = true :=
      fun last hlast => hnext last hlast span List.mem_cons_self
    rw [List.foldl_cons, ih hsorted.2 fun last hlast next hmem =>
      sortsBefore_join hspan (hsorted.1 next hmem) last hlast, mem_join hspan]
    simp only [List.mem_cons, exists_eq_or_imp]
    exact or_left_comm.trans or_assoc.symm

/-- **Merged spans hold the same addresses.** -/
theorem mem_mergeSpans {spans : List Span} {a : Address} :
    (∃ s ∈ mergeSpans spans, a ∈ s.addresses) ↔ ∃ s ∈ spans, a ∈ s.addresses := by
  have hfold : (∃ s ∈ (spans.insertionSort fun s t => s.sortsBefore t).foldl join [],
      a ∈ s.addresses) ↔ _ := mem_foldl_join (sorted_insertionSort spans) (by rintro last ⟨⟩)
  simp only [mergeSpans, List.mem_reverse, hfold, List.mem_insertionSort, List.not_mem_nil,
    false_and, exists_false, or_false]

/-! ## The targets -/

/-- The entries as typed, the spans they stand for, and how many addresses these hold. -/
structure Targets where
  entries : List (List Char)
  spans : List Span
  count : Nat
  apart : spans.Pairwise Span.EndsBefore
  counted : count = (spans.map Span.size).sum

/-- The end of `parse_targets`: the spans read merged, unless they hold too many addresses. -/
def parseTargets (entries : List (List Char)) (spans : List Span) (limit : Nat) :
    Option Targets :=
  if ((mergeSpans spans).map Span.size).sum ≤ limit then
    some ⟨entries, mergeSpans spans, ((mergeSpans spans).map Span.size).sum,
      pairwise_mergeSpans spans, rfl⟩
  else none

namespace Targets

/-- Every address, IPv4 first, each family in ascending order. -/
def addresses (t : Targets) : List Address := t.spans.flatMap Span.addresses

/-- **The count is the addresses'.** -/
theorem length_addresses (t : Targets) : t.addresses.length = t.count := by
  rw [addresses, List.length_flatMap, t.counted]
  simp only [Span.length_addresses]

/-- **Each address is listed once.** -/
theorem nodup_addresses (t : Targets) : t.addresses.Nodup := by
  rw [addresses, List.nodup_flatMap]
  exact ⟨fun s _ => s.nodup_addresses, t.apart.imp Span.EndsBefore.disjoint⟩

/-- **The addresses are in order**, IPv4 first. -/
theorem pairwise_addresses (t : Targets) : t.addresses.Pairwise Address.Before := by
  rw [addresses, List.pairwise_flatMap]
  exact ⟨fun s _ => s.pairwise_addresses, t.apart.imp Span.EndsBefore.before⟩

/-- Two entries that overlap, and one beside them. -/
example : (parseTargets [] [⟨.v4, 5, 9, by decide⟩, ⟨.v4, 1, 6, by decide⟩, ⟨.v6, 1, 2, by decide⟩]
    20).map (fun t => (t.count, t.addresses.length)) = some (11, 11) := by decide

end Targets
end Discovery
end NetRollout
