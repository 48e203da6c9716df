import NetRollout.Library.IpAddress

/-!
# IP addresses, written

`str()` of Python's `IPv4Address` and `IPv6Address`: four numbers apart by dots; eight in
hexadecimal apart by colons, of which the longest run of zeros is left out.

`parseV4_formatV4` and `parseV6_formatV6` are that what is written reads as the same address.
Of the run that is left out it matters only that all in it is zero: `parseV6_cut` holds for any.
-/

namespace NetRollout
namespace IpAddress

open PyText (Str)

/-! ## Writing -/

/-- `IPv4Address._string_from_ip_int`. -/
def formatV4 (n : Nat) : Str :=
  ['.'].intercalate ([n / 16777216 % 256, n / 65536 % 256, n / 256 % 256, n % 256].map
    (Nat.toDigits 10))

/-- The hextets of a number. -/
def hextets (n : Nat) : List Str :=
  (List.range 8).map fun i => Nat.toDigits 16 (n / 65536 ^ (7 - i) % 65536)

/-- A run of zeros: where it starts and how many there are. -/
structure Run where
  start : Nat
  length : Nat

/-- The loop of `_compress_hextets`: the best run, and the one that ends here. -/
def longest : List Str → Nat → Run → Run → Run
  | [], _, best, _ => best
  | hextet :: rest, index, best, run =>
    if hextet = ['0'] then
      let run : Run := ⟨if run.length = 0 then index else run.start, run.length + 1⟩
      longest rest (index + 1) (if best.length < run.length then run else best) run
    else longest rest (index + 1) best ⟨index, 0⟩

/-- A run cut out: an end that is cut off leaves an empty part more. -/
def cut (r : Run) (hextets : List Str) : List Str :=
  (if r.start = 0 then [[]] else []) ++ (hextets.take r.start ++ ([] ::
    (hextets.drop (r.start + r.length) ++
      if r.start + r.length = hextets.length then [[]] else [])))

/-- `_compress_hextets`. -/
def compress (hextets : List Str) : List Str :=
  let r := longest hextets 0 ⟨0, 0⟩ ⟨0, 0⟩
  if 1 < r.length then cut r hextets else hextets

/-- `IPv6Address._string_from_ip_int`. -/
def formatV6 (n : Nat) : Str := [':'].intercalate (compress (hextets n))

/-! ## Numbers -/

/-- A character of a number written in hexadecimal. -/
theorem isHexDigit_of_mem {n : Nat} {c : Char} (h : c ∈ Nat.toDigits 16 n) :
    isHexDigit c = true := by
  induction n using Nat.strongRecOn with
  | _ n ih =>
    have hdigit : ∀ d < 16, isHexDigit (Nat.digitChar d) = true := by decide
    rw [Nat.toDigits_eq_if (by decide)] at h
    split at h
    · next hlt =>
      rw [List.mem_singleton.mp h]
      exact hdigit n hlt
    · next hge =>
      rcases List.mem_append.mp h with h | h
      · exact ih (n / 16) (by omega) h
      · rw [List.mem_singleton.mp h]
        exact hdigit _ (Nat.mod_lt _ (by decide))

theorem foldl_hexDigit (n : Nat) :
    (Nat.toDigits 16 n).foldl (fun n c => 16 * n + hexDigit c) 0 = n := by
  induction n using Nat.strongRecOn with
  | _ n ih =>
    have hdigit : ∀ d < 16, hexDigit (Nat.digitChar d) = d := by decide
    rw [Nat.toDigits_eq_if (by decide)]
    split
    · next hlt =>
      simp only [List.foldl_cons, List.foldl_nil, hdigit n hlt, Nat.mul_zero, Nat.zero_add]
    · next hge =>
      rw [List.foldl_append, ih (n / 16) (by omega)]
      simp only [List.foldl_cons, List.foldl_nil, hdigit _ (Nat.mod_lt n (by decide : 0 < 16))]
      omega

/-- A hextet reads as its number. -/
theorem parseHextet_toDigits {n : Nat} (h : n < 65536) :
    parseHextet (Nat.toDigits 16 n) = some n := by
  have hlength : (Nat.toDigits 16 n).length ≤ 4 :=
    (Nat.length_toDigits_le_iff (by decide) (by decide)).mpr (by simpa using h)
  have hall : (Nat.toDigits 16 n).all isHexDigit = true :=
    List.all_eq_true.mpr fun c hc => isHexDigit_of_mem hc
  simp only [parseHextet, foldl_hexDigit]
  exact if_pos ⟨Nat.toDigits_ne_nil, hall, hlength, h⟩

/-- But for zero itself no number begins with a zero. -/
theorem head?_toDigits {n : Nat} (h : n ≠ 0) : (Nat.toDigits 10 n).head? ≠ some '0' := by
  induction n using Nat.strongRecOn with
  | _ n ih =>
    rw [Nat.toDigits_eq_if (by decide)]
    split
    · simpa using h
    · rw [List.head?_append_of_ne_nil _ Nat.toDigits_ne_nil]
      exact ih (n / 10) (by omega) (by omega)

/-- An octet reads as its number, having no zero too many. -/
theorem parseOctet_toDigits {n : Nat} (h : n < 256) :
    parseOctet (Nat.toDigits 10 n) = some n := by
  have hvalue : (Nat.toDigits 10 n).foldl (fun n c => 10 * n + (c.toNat - '0'.toNat)) 0 = n :=
    Nat.ofDigitChars_ten_toDigits
  have hall : (Nat.toDigits 10 n).all Char.isDigit = true := List.all_eq_true.mpr fun c hc =>
    Nat.isDigit_of_mem_toDigits (by decide) (by decide) hc
  have hlength : (Nat.toDigits 10 n).length ≤ 3 :=
    (Nat.length_toDigits_le_iff (by decide) (by decide)).mpr (by omega)
  have hzero : Nat.toDigits 10 n = ['0'] ∨ (Nat.toDigits 10 n).head? ≠ some '0' := by
    by_cases hn : n = 0
    · left
      rw [hn, Nat.toDigits_zero]
    · exact Or.inr (head?_toDigits hn)
  simp only [parseOctet, hvalue]
  exact if_pos ⟨Nat.toDigits_ne_nil, hall, hlength, hzero, Nat.le_of_lt_succ h⟩

theorem parseV4_formatV4 {n : Nat} (h : n < 2 ^ 32) : parseV4 (formatV4 n) = some n := by
  have hplain : ∀ part ∈ [n / 16777216 % 256, n / 65536 % 256, n / 256 % 256, n % 256].map
      (Nat.toDigits 10), '.' ∉ part := by
    intro part hpart hdot
    obtain ⟨m, -, rfl⟩ := List.mem_map.mp hpart
    exact absurd (Nat.isDigit_of_mem_toDigits (by decide) (by decide) hdot) (by decide)
  have hsplit : (formatV4 n).splitOn '.' =
      [n / 16777216 % 256, n / 65536 % 256, n / 256 % 256, n % 256].map (Nat.toDigits 10) :=
    List.splitOn_intercalate '.' hplain (List.cons_ne_nil _ _)
  rw [parseV4, hsplit]
  simp only [List.map_cons, List.map_nil]
  rw [parseOctet_toDigits (Nat.mod_lt _ (by decide)),
    parseOctet_toDigits (Nat.mod_lt _ (by decide)),
    parseOctet_toDigits (Nat.mod_lt _ (by decide)), parseOctet_toDigits (Nat.mod_lt _ (by decide))]
  simp only [Option.bind_some, Option.map_some, Option.some.injEq]
  omega

/-! ## Hextets -/

/-- A part that is a hextet's. -/
def IsHextet (part : Str) : Prop := ∃ n < 65536, part = Nat.toDigits 16 n

theorem IsHextet.ne_nil {part : Str} (h : IsHextet part) : part ≠ [] := by
  obtain ⟨n, -, rfl⟩ := h
  exact Nat.toDigits_ne_nil

theorem IsHextet.notMem {part : Str} (h : IsHextet part) {c : Char} (hc : isHexDigit c = false) :
    c ∉ part := by
  obtain ⟨n, -, rfl⟩ := h
  intro hmem
  rw [isHexDigit_of_mem hmem] at hc
  cases hc

theorem isHextet_of_mem_hextets {n : Nat} {part : Str} (h : part ∈ hextets n) : IsHextet part := by
  obtain ⟨i, -, rfl⟩ := List.mem_map.mp h
  exact ⟨_, Nat.mod_lt _ (by decide), rfl⟩

theorem length_hextets (n : Nat) : (hextets n).length = 8 := by
  rw [hextets, List.length_map, List.length_range]

/-- The hextets are the number's. -/
theorem parseHextets_hextets {n : Nat} (h : n < 2 ^ 128) : parseHextets 0 (hextets n) = some n := by
  have hpart : ∀ k, parseHextet (Nat.toDigits 16 (n / k % 65536)) = some (n / k % 65536) :=
    fun k => parseHextet_toDigits (Nat.mod_lt _ (by decide))
  simp only [hextets, List.range, List.range.loop, List.map_cons, List.map_nil, parseHextets, hpart,
    Option.bind_some, Option.some.injEq]
  omega

/-! ## The run -/

/-- A run of zeros of a list. -/
def IsRun (hextets : List Str) (r : Run) : Prop :=
  ∃ before after, hextets = before ++ (List.replicate r.length ['0'] ++ after) ∧
    before.length = r.start

/-- What the loop has found is a run. -/
theorem isRun_longest {rest : List Str} {done : List Str} {best run : Run}
    (hbest : IsRun (done ++ rest) best)
    (hrun : ∃ before, done = before ++ List.replicate run.length ['0'] ∧
      (run.length ≠ 0 → before.length = run.start)) :
    IsRun (done ++ rest) (longest rest done.length best run) := by
  induction rest generalizing done best run with
  | nil => exact hbest
  | cons hextet rest ih =>
    have hnext : done ++ hextet :: rest = (done ++ [hextet]) ++ rest := by simp
    have hlength : done.length + 1 = (done ++ [hextet]).length := by simp
    obtain ⟨before, hdone, hstart⟩ := hrun
    rw [longest]
    split
    · next hzero =>
      subst hzero
      rw [hnext] at hbest ⊢
      -- the zeros that end here begin where they did, or here
      have hstart' : before.length = if run.length = 0 then done.length else run.start := by
        split
        · next h0 => rw [hdone, h0, List.replicate_zero, List.append_nil]
        · next h0 => exact hstart h0
      have hends : done ++ [['0']] = before ++ List.replicate (run.length + 1) ['0'] := by
        rw [hdone, List.append_assoc, ← List.replicate_succ']
      rw [hlength]
      refine ih ?_ ⟨before, hends, fun _ => hstart'⟩
      by_cases hlt : best.length < run.length + 1
      · rw [if_pos hlt]
        exact ⟨before, rest, by rw [hends, List.append_assoc], hstart'⟩
      · rw [if_neg hlt]
        exact hbest
    · rw [hnext] at hbest ⊢
      rw [hlength]
      exact ih hbest ⟨done ++ [hextet], by simp, fun h => absurd rfl h⟩

/-! ## Reading what is cut -/

/-- Of the parts between two ends, the empty one that stands for the run. -/
theorem skips_eq {hi lo : List Str} (hhi : hi ≠ []) (hlo : lo ≠ [])
    (hhi' : ∀ i, 1 ≤ i → hi[i]? ≠ some []) (hlo' : ∀ i, i + 1 < lo.length → lo[i]? ≠ some []) :
    skips (hi ++ [] :: lo) = [hi.length] := by
  have hpos : 0 < hi.length := List.length_pos_iff.mpr hhi
  have hpos' : 0 < lo.length := List.length_pos_iff.mpr hlo
  have hrange : List.range (hi ++ [] :: lo).length =
      List.range hi.length ++ (hi.length :: (List.range lo.length).map (hi.length + 1 + ·)) := by
    rw [List.length_append, List.length_cons, Nat.add_comm lo.length 1, ← Nat.add_assoc,
      List.range_add, List.range_succ, List.append_assoc]
    rfl
  rw [skips, hrange, List.filter_append, List.filter_cons]
  have hbefore : (List.range hi.length).filter (fun i => 1 ≤ i &&
      i + 1 < (hi ++ [] :: lo).length && (hi ++ [] :: lo)[i]? == some []) = [] := by
    refine List.filter_eq_nil_iff.mpr fun i hi' => ?_
    rw [List.mem_range] at hi'
    rw [List.getElem?_append_left hi']
    simp only [Bool.and_eq_true, decide_eq_true_eq, beq_iff_eq, not_and]
    exact fun h => hhi' i h.1
  have hafter : ((List.range lo.length).map (hi.length + 1 + ·)).filter (fun i => 1 ≤ i &&
      i + 1 < (hi ++ [] :: lo).length && (hi ++ [] :: lo)[i]? == some []) = [] := by
    refine List.filter_eq_nil_iff.mpr fun i hi' => ?_
    obtain ⟨j, hj, rfl⟩ := List.mem_map.mp hi'
    rw [List.getElem?_append_right (by omega), show hi.length + 1 + j - hi.length = j + 1 by omega,
      List.getElem?_cons_succ]
    simp only [Bool.and_eq_true, decide_eq_true_eq, beq_iff_eq, not_and, List.length_append,
      List.length_cons]
    exact fun h => hlo' j (by omega)
  have hhere : (1 ≤ hi.length && hi.length + 1 < (hi ++ [] :: lo).length &&
      (hi ++ [] :: lo)[hi.length]? == some []) = true := by
    rw [List.getElem?_append_right (Nat.le_refl _), Nat.sub_self, List.getElem?_cons_zero]
    simp only [Bool.and_eq_true, decide_eq_true_eq, beq_iff_eq, and_true, List.length_append,
      List.length_cons]
    omega
  rw [hbefore, hafter, if_pos hhere, List.nil_append]

/-- The ends of what is cut: nothing there leaves an empty part. -/
def ending (parts : List Str) : List Str := if parts = [] then [[]] else parts

theorem ending_ne_nil (parts : List Str) : ending parts ≠ [] := by
  rw [ending]
  split
  · exact List.cons_ne_nil _ _
  · next h => exact h

/-- A run cut out of hextets is what stands before it and after it. -/
theorem cut_eq {hextets : List Str} {r : Run} (h : IsRun hextets r) :
    ∃ before after, hextets = before ++ (List.replicate r.length ['0'] ++ after) ∧
      cut r hextets = ending before ++ [] :: ending after := by
  obtain ⟨before, after, rfl, hstart⟩ := h
  refine ⟨before, after, rfl, ?_⟩
  have htake : (before ++ (List.replicate r.length ['0'] ++ after)).take r.start = before := by
    rw [← hstart, List.take_left]
  have hdrop : (before ++ (List.replicate r.length ['0'] ++ after)).drop (r.start + r.length) =
      after := by
    rw [← hstart, List.drop_length_add_append, List.drop_left' (List.length_replicate ..)]
  have hbefore : (r.start = 0) = (before = []) := by
    rw [← hstart, List.length_eq_zero_iff]
  have hafter : (r.start + r.length = (before ++ (List.replicate r.length ['0'] ++ after)).length) =
      (after = []) := by
    rw [← hstart, List.length_append, List.length_append, List.length_replicate,
      ← List.length_eq_zero_iff]
    exact propext ⟨fun h => by omega, fun h => by omega⟩
  simp only [cut, htake, hdrop, hbefore, hafter, ending]
  by_cases hb : before = [] <;> by_cases ha : after = [] <;> simp [hb, ha]

/-- An end without hextets is one empty part, and one with hextets is these. -/
theorem getElem?_ending {parts : List Str} (hparts : ∀ part ∈ parts, IsHextet part) {i : Nat}
    (h : 1 ≤ i ∨ parts ≠ []) : (ending parts)[i]? ≠ some [] := by
  rw [ending]
  split
  · next hnil =>
    subst hnil
    have hi : i ≠ 0 := by
      rcases h with h | h
      · omega
      · exact absurd rfl h
    rw [List.getElem?_singleton, if_neg hi]
    exact fun h => by cases h
  · intro hi
    exact (hparts _ (List.mem_of_getElem? hi)).ne_nil rfl

theorem length_ending (parts : List Str) : (ending parts).length = max 1 parts.length := by
  rw [ending]
  split
  · next hnil => rw [hnil, List.length_singleton, List.length_nil]; rfl
  · next hne =>
    have := List.length_pos_iff.mpr hne
    omega

section Parts

variable {before after : List Str} (hbefore : ∀ part ∈ before, IsHextet part)
  (hafter : ∀ part ∈ after, IsHextet part)

include hbefore in
theorem partsHi_eq : partsHi (ending before ++ [] :: ending after) (ending before).length =
    some before := by
  by_cases hnil : before = []
  · subst hnil
    rfl
  · have hhead : (ending before ++ [] :: ending after).head? ≠ some [] := by
      rw [List.head?_append_of_ne_nil _ (ending_ne_nil before), List.head?_eq_getElem?]
      exact getElem?_ending hbefore (Or.inr hnil)
    rw [partsHi, if_neg hhead, List.take_left, ending, if_neg hnil]

include hafter in
theorem partsLo_eq : partsLo (ending before ++ [] :: ending after) (ending before).length =
    some after := by
  have hlast : (ending before ++ [] :: ending after).getLast? = (ending after).getLast? := by
    rw [List.getLast?_append_of_ne_nil _ (List.cons_ne_nil _ _),
      List.getLast?_cons_of_ne_nil (ending_ne_nil after)]
  rw [partsLo, hlast]
  by_cases hnil : after = []
  · subst hnil
    exact (if_pos rfl).trans (if_pos (by simp [ending]))
  · have hne : (ending after).getLast? ≠ some [] := by
      rw [List.getLast?_eq_getElem?]
      exact getElem?_ending hafter (Or.inr hnil)
    rw [if_neg hne, List.drop_length_add_append, List.drop_succ_cons, List.drop_zero, ending,
      if_neg hnil]

end Parts

/-- In what is cut there are the hextets' characters only. -/
theorem notMem_of_mem_cut {hextets : List Str} {r : Run} (h : IsRun hextets r)
    (hparts : ∀ part ∈ hextets, IsHextet part) :
    ∀ part ∈ cut r hextets, ∀ c, isHexDigit c = false → c ∉ part := by
  obtain ⟨before, after, heq, hcut⟩ := cut_eq h
  have hend : ∀ parts : List Str, (∀ part ∈ parts, IsHextet part) → ∀ part ∈ ending parts,
      ∀ c, isHexDigit c = false → c ∉ part := by
    intro parts hall part hmem c hc
    rw [ending] at hmem
    split at hmem
    · rw [List.mem_singleton.mp hmem]
      exact List.not_mem_nil
    · exact (hall part hmem).notMem hc
  rw [hcut]
  intro part hp
  rcases List.mem_append.mp hp with hp | hp
  · exact hend before (fun p hp => hparts p (heq ▸ List.mem_append_left _ hp)) part hp
  · rcases List.mem_cons.mp hp with rfl | hp
    · exact fun _ _ => List.not_mem_nil
    · exact hend after (fun p hp => hparts p
        (heq ▸ List.mem_append_right _ (List.mem_append_right _ hp))) part hp

/-- **Any run may be left out** of the hextets, if it is long enough to be told. -/
theorem parseV6_cut {hextets : List Str} {r : Run} (h : IsRun hextets r) (hr : 1 ≤ r.length)
    (height : hextets.length = 8) (hparts : ∀ part ∈ hextets, IsHextet part) :
    parseV6 ([':'].intercalate (cut r hextets)) = parseHextets 0 hextets := by
  obtain ⟨before, after, heq, hcut⟩ := cut_eq h
  have hbefore : ∀ part ∈ before, IsHextet part := fun part hp =>
    hparts part (heq ▸ List.mem_append_left _ hp)
  have hafter : ∀ part ∈ after, IsHextet part := fun part hp =>
    hparts part (heq ▸ List.mem_append_right _ (List.mem_append_right _ hp))
  have hlengths : before.length + (r.length + after.length) = 8 := by
    rw [← height, heq]
    simp
  have hplain := notMem_of_mem_cut h hparts
  have hne : cut r hextets ≠ [] := by
    rw [hcut]
    simp
  have hsplit : ([':'].intercalate (cut r hextets)).splitOn ':' = cut r hextets :=
    List.splitOn_intercalate ':' (fun part hp => hplain part hp ':' (by decide)) hne
  have hexpand : expandV4 (cut r hextets) = some (cut r hextets) := by
    rw [expandV4]
    split
    · next last hlast =>
      exact if_neg (hplain last (List.mem_of_getLast? hlast) '.' (by decide))
    · rfl
  have hskips : skips (cut r hextets) = [(ending before).length] := by
    rw [hcut]
    refine skips_eq (ending_ne_nil before) (ending_ne_nil after)
      (fun i hi => getElem?_ending hbefore (Or.inl hi)) fun i hi => ?_
    refine getElem?_ending hafter ?_
    rw [length_ending] at hi
    by_cases hnil : after = []
    · left
      rw [hnil, List.length_nil] at hi
      omega
    · exact Or.inr hnil
  have hlength : 3 ≤ (cut r hextets).length ∧ (cut r hextets).length ≤ 9 := by
    rw [hcut, List.length_append, List.length_cons, length_ending, length_ending]
    omega
  have hroom : before.length + after.length < 8 := by omega
  rw [parseV6]
  simp only [hsplit, hexpand, Option.bind_some, hskips]
  rw [if_neg (by omega), if_neg (by omega), hcut, partsHi_eq hbefore, Option.bind_some,
    partsLo_eq hafter, Option.bind_some, if_neg (by omega), heq]
  have hcount : 8 - (before.length + after.length) = r.length := by omega
  rw [hcount]

theorem isRun_longest_hextets (n : Nat) :
    IsRun (hextets n) (longest (hextets n) 0 ⟨0, 0⟩ ⟨0, 0⟩) :=
  @isRun_longest _ [] _ _ ⟨[], hextets n, rfl, rfl⟩ ⟨[], rfl, fun h => absurd rfl h⟩

theorem parseV6_formatV6 {n : Nat} (h : n < 2 ^ 128) : parseV6 (formatV6 n) = some n := by
  have hrun := isRun_longest_hextets n
  rw [formatV6, compress]
  split
  · next hlong =>
    rw [parseV6_cut hrun (by omega) (length_hextets n) fun part hp => isHextet_of_mem_hextets hp,
      parseHextets_hextets h]
  · have hplain : ∀ part ∈ hextets n, ∀ c, isHexDigit c = false → c ∉ part :=
      fun part hp c hc => (isHextet_of_mem_hextets hp).notMem hc
    have hne : hextets n ≠ [] := by
      rw [← List.length_pos_iff, length_hextets]
      decide
    have hsplit : ([':'].intercalate (hextets n)).splitOn ':' = hextets n :=
      List.splitOn_intercalate ':' (fun part hp => hplain part hp ':' (by decide)) hne
    have hexpand : expandV4 (hextets n) = some (hextets n) := by
      rw [expandV4]
      split
      · next last hlast =>
        exact if_neg (hplain last (List.mem_of_getLast? hlast) '.' (by decide))
      · rfl
    have hnonempty : ∀ part ∈ hextets n, part ≠ [] :=
      fun part hp => (isHextet_of_mem_hextets hp).ne_nil
    have hskips : skips (hextets n) = [] := by
      refine List.filter_eq_nil_iff.mpr fun i _ => ?_
      simp only [Bool.and_eq_true, beq_iff_eq, not_and]
      exact fun _ hi => hnonempty _ (List.mem_of_getElem? hi) rfl
    have hhead : (hextets n).head? ≠ some [] := fun h => hnonempty _ (List.mem_of_mem_head? h) rfl
    have hlast : (hextets n).getLast? ≠ some [] :=
      fun h => hnonempty _ (List.mem_of_getLast? h) rfl
    rw [parseV6]
    simp only [hsplit, hexpand, Option.bind_some, hskips, length_hextets]
    rw [if_neg (by decide), if_neg (by decide), if_neg (by simp [hhead, hlast]),
      parseHextets_hextets h]

/-- What is written has hexadecimal digits and colons only. -/
theorem notMem_formatV6 (n : Nat) {c : Char} (hc : isHexDigit c = false) (hcolon : c ≠ ':') :
    c ∉ formatV6 n := by
  have hparts : ∀ part ∈ compress (hextets n), c ∉ part := by
    rw [compress]
    split
    · exact fun part hp => notMem_of_mem_cut (isRun_longest_hextets n)
        (fun part hp => isHextet_of_mem_hextets hp) part hp c hc
    · exact fun part hp => (isHextet_of_mem_hextets hp).notMem hc
  intro hmem
  rcases PyText.mem_intercalate hmem with heq | ⟨part, hpart, hmem⟩
  · exact hcolon heq
  · exact hparts part hpart hmem

/-- It does not read as an address of the other family. -/
theorem parseV4_formatV6 (n : Nat) : parseV4 (formatV6 n) = none := by
  cases h : parseV4 (formatV6 n) with
  | none => rfl
  | some m => exact absurd (dot_mem_of_parseV4 h) (notMem_formatV6 n (by decide) (by decide))

example : formatV6 1 = "::1".toList ∧ formatV6 (0x20010db8 * 2 ^ 96 + 1) = "2001:db8::1".toList ∧
    formatV6 0 = "::".toList ∧ formatV4 (10 * 2 ^ 24 + 5) = "10.0.0.5".toList := by
  decide +kernel

end IpAddress
end NetRollout
