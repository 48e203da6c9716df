import Mathlib.Algebra.Order.Ring.Int
import Mathlib.Algebra.Order.Ring.Nat
import NetRollout.Library.PyText

/-!
# IP addresses

Python's `ipaddress` on numbers: what a text of an IPv4 or IPv6 address reads as, and the network
of an address with a length.  A text reads as a number of its family's bits (`octets_lt`,
`hextets_lt`), and the masks make of an address the block it stands in: the multiples of the
block's size before and after it (`network_eq`, `broadcast_eq`).
-/

namespace NetRollout
namespace IpAddress

open PyText (Str)

/-! ## IPv4 -/

/-- `_parse_octet`. -/
def parseOctet (s : Str) : Option Nat :=
  let n := s.foldl (fun n c => 10 * n + (c.toNat - '0'.toNat)) 0
  if s ≠ [] ∧ s.all Char.isDigit = true ∧ s.length ≤ 3 ∧ (s = ['0'] ∨ s.head? ≠ some '0') ∧ n ≤ 255
  then some n else none

/-- `IPv4Address._ip_int_from_string`. -/
def parseV4 (s : Str) : Option Nat :=
  match s.splitOn '.' with
  | [a, b, c, d] =>
    (parseOctet a).bind fun a => (parseOctet b).bind fun b => (parseOctet c).bind fun c =>
      (parseOctet d).map fun d => ((a * 256 + b) * 256 + c) * 256 + d
  | _ => none

/-! ## IPv6 -/

def isHexDigit (c : Char) : Bool :=
  c.isDigit || ('a' ≤ c && c ≤ 'f') || ('A' ≤ c && c ≤ 'F')

def hexDigit (c : Char) : Nat :=
  if c.isDigit then c.toNat - '0'.toNat
  else if c.toNat < 'a'.toNat then c.toNat - 'A'.toNat + 10 else c.toNat - 'a'.toNat + 10

/-- `_parse_hextet`. -/
def parseHextet (s : Str) : Option Nat :=
  let n := s.foldl (fun n c => 16 * n + hexDigit c) 0
  if s ≠ [] ∧ s.all isHexDigit = true ∧ s.length ≤ 4 ∧ n < 65536 then some n else none

/-- The hextets, one after the other. -/
def parseHextets (n : Nat) : List Str → Option Nat
  | [] => some n
  | part :: parts => (parseHextet part).bind fun h => parseHextets (n * 65536 + h) parts

/-- An IPv4 suffix is made two hextets. -/
def expandV4 (parts : List Str) : Option (List Str) :=
  match parts.getLast? with
  | some last =>
    if '.' ∈ last then
      (parseV4 last).map fun n =>
        parts.dropLast ++ [Nat.toDigits 16 (n / 65536), Nat.toDigits 16 (n % 65536)]
    else some parts
  | none => some parts

/-- The positions of the empty parts between the first and the last. -/
def skips (parts : List Str) : List Nat :=
  (List.range parts.length).filter fun i =>
    1 ≤ i && i + 1 < parts.length && parts[i]? == some []

/-- The parts before `::`: an empty first part is one end of it. -/
def partsHi (parts : List Str) (skip : Nat) : Option (List Str) :=
  if parts.head? = some [] then (if skip = 1 then some [] else none) else some (parts.take skip)

/-- The parts after `::`. -/
def partsLo (parts : List Str) (skip : Nat) : Option (List Str) :=
  if parts.getLast? = some [] then (if parts.length = skip + 2 then some [] else none)
  else some (parts.drop (skip + 1))

/-- `IPv6Address._ip_int_from_string`. -/
def parseV6 (s : Str) : Option Nat :=
  let parts := s.splitOn ':'
  if parts.length < 3 then none
  else (expandV4 parts).bind fun parts =>
    if 9 < parts.length then none
    else match skips parts with
      | [] =>
        if parts.length ≠ 8 ∨ parts.head? = some [] ∨ parts.getLast? = some [] then none
        else parseHextets 0 parts
      | [skip] =>
        (partsHi parts skip).bind fun hi => (partsLo parts skip).bind fun lo =>
          if 8 ≤ hi.length + lo.length then none
          else parseHextets 0
            (hi ++ (List.replicate (8 - (hi.length + lo.length)) ['0'] ++ lo))
      | _ => none

/-! ## Numbers of a family's bits -/

theorem parseOctet_lt {s : Str} {n : Nat} (h : parseOctet s = some n) : n < 256 := by
  simp only [parseOctet] at h
  split at h
  · next hcond =>
    obtain rfl := Option.some.inj h
    exact Nat.lt_succ_of_le hcond.2.2.2.2
  · cases h

theorem parseV4_lt {s : Str} {n : Nat} (h : parseV4 s = some n) : n < 2 ^ 32 := by
  unfold parseV4 at h
  split at h
  · obtain ⟨a, ha, h⟩ := Option.bind_eq_some_iff.mp h
    obtain ⟨b, hb, h⟩ := Option.bind_eq_some_iff.mp h
    obtain ⟨c, hc, h⟩ := Option.bind_eq_some_iff.mp h
    obtain ⟨d, hd, rfl⟩ := Option.map_eq_some_iff.mp h
    have ha := parseOctet_lt ha
    have hb := parseOctet_lt hb
    have hc := parseOctet_lt hc
    have hd := parseOctet_lt hd
    omega
  · cases h

/-- An IPv4 address has dots. -/
theorem dot_mem_of_parseV4 {s : Str} {n : Nat} (h : parseV4 s = some n) : '.' ∈ s := by
  by_contra hdot
  have hsplit : s.splitOn '.' = [s] := by
    refine List.splitOnP_eq_singleton fun c hc => beq_eq_false_iff_ne.mpr ?_
    rintro rfl
    exact hdot hc
  rw [parseV4, hsplit] at h
  cases h

theorem isSpace_of_parseOctet {s : Str} {n : Nat} (h : parseOctet s = some n) :
    ∀ c ∈ s, PyText.isSpace c = false := by
  simp only [parseOctet] at h
  split at h
  · next hcond =>
    intro c hc
    exact PyText.isSpace_of_isDigit (List.all_eq_true.mp hcond.2.1 c hc)
  · cases h

/-- An address has no blanks. -/
theorem isSpace_of_parseV4 {s : Str} {n : Nat} (h : parseV4 s = some n) :
    ∀ c ∈ s, PyText.isSpace c = false := by
  intro x hx
  have hjoined : ['.'].intercalate (s.splitOn '.') = s := List.intercalate_splitOn '.'
  rw [← hjoined] at hx
  rcases PyText.mem_intercalate hx with rfl | ⟨part, hpart, hx⟩
  · decide
  · rw [parseV4] at h
    split at h
    · next a b c d hsplit =>
      simp only [Option.bind_eq_some_iff, Option.map_eq_some_iff] at h
      obtain ⟨_, ha, _, hb, _, hc, _, hd, -⟩ := h
      rw [hsplit] at hpart
      simp only [List.mem_cons, List.not_mem_nil, or_false] at hpart
      rcases hpart with rfl | rfl | rfl | rfl
      · exact isSpace_of_parseOctet ha x hx
      · exact isSpace_of_parseOctet hb x hx
      · exact isSpace_of_parseOctet hc x hx
      · exact isSpace_of_parseOctet hd x hx
    · cases h

theorem parseHextet_lt {s : Str} {n : Nat} (h : parseHextet s = some n) : n < 65536 := by
  simp only [parseHextet] at h
  split at h
  · next hcond =>
    obtain rfl := Option.some.inj h
    exact hcond.2.2.2
  · cases h

/-- Each hextet adds sixteen bits. -/
theorem parseHextets_lt {parts : List Str} {n m k : Nat} (hn : n < 65536 ^ k)
    (h : parseHextets n parts = some m) : m < 65536 ^ (k + parts.length) := by
  induction parts generalizing n k with
  | nil =>
    obtain rfl := Option.some.inj h
    exact hn
  | cons part parts ih =>
    obtain ⟨t, ht, h⟩ := Option.bind_eq_some_iff.mp h
    have ht := parseHextet_lt ht
    have hnext : n * 65536 + t < 65536 ^ (k + 1) := by
      rw [pow_succ]
      omega
    have hm := ih hnext h
    rwa [List.length_cons, Nat.add_comm parts.length 1, ← Nat.add_assoc]

theorem parseV6_lt {s : Str} {n : Nat} (h : parseV6 s = some n) : n < 2 ^ 128 := by
  have height : ∀ {parts : List Str} {n : Nat}, parts.length = 8 →
      parseHextets 0 parts = some n → n < 2 ^ 128 := by
    intro parts n hlength hparse
    have hlt := parseHextets_lt (k := 0) (by decide) hparse
    rwa [hlength] at hlt
  simp only [parseV6] at h
  split at h
  · cases h
  · obtain ⟨parts, -, h⟩ := Option.bind_eq_some_iff.mp h
    split at h
    · cases h
    · split at h
      · split at h
        · cases h
        · next hcond => exact height (not_ne_iff.mp (not_or.mp hcond).1) h
      · obtain ⟨hi, -, h⟩ := Option.bind_eq_some_iff.mp h
        obtain ⟨lo, -, h⟩ := Option.bind_eq_some_iff.mp h
        split at h
        · cases h
        · refine height ?_ h
          rw [List.length_append, List.length_append, List.length_replicate]
          omega
      · cases h

/-! ## Networks -/

/-- `_ALL_ONES`. -/
def allOnes (bits : Nat) : Nat := 2 ^ bits - 1

/-- `_ip_int_from_prefix`. -/
def netmask (bits len : Nat) : Nat := allOnes bits ^^^ (allOnes bits >>> len)

def hostmask (bits len : Nat) : Nat := netmask bits len ^^^ allOnes bits

/-- `network_address`. -/
def networkAddress (bits len n : Nat) : Nat := n &&& netmask bits len

/-- `broadcast_address`. -/
def broadcastAddress (bits len n : Nat) : Nat := networkAddress bits len n ||| hostmask bits len

section Networks

variable {bits len n : Nat}

theorem allOnes_shiftRight (h : len ≤ bits) : allOnes bits >>> len = 2 ^ (bits - len) - 1 := by
  rw [allOnes, Nat.shiftRight_eq_div_pow]
  have hpow : 2 ^ bits = 2 ^ (bits - len) * 2 ^ len := by
    rw [← pow_add, Nat.sub_add_cancel h]
  have hpos := Nat.two_pow_pos len
  have hhost := Nat.two_pow_pos (bits - len)
  rw [hpow]
  obtain ⟨k, hk⟩ := Nat.exists_eq_add_of_lt hhost
  rw [Nat.zero_add] at hk
  rw [hk, Nat.add_sub_cancel]
  refine Nat.div_eq_of_lt_le ?_ ?_
  · rw [Nat.add_mul, Nat.one_mul]
    omega
  · rw [Nat.add_mul, Nat.one_mul]
    omega

theorem hostmask_eq (h : len ≤ bits) : hostmask bits len = 2 ^ (bits - len) - 1 := by
  rw [hostmask, netmask, Nat.xor_comm, ← Nat.xor_assoc, Nat.xor_self, Nat.zero_xor,
    allOnes_shiftRight h]

/-- The first address of the block. -/
theorem network_eq (hn : n < 2 ^ bits) (h : len ≤ bits) :
    networkAddress bits len n = n / 2 ^ (bits - len) * 2 ^ (bits - len) := by
  refine Nat.eq_of_testBit_eq fun i => ?_
  rw [networkAddress, netmask, allOnes_shiftRight h, allOnes, Nat.testBit_and, Nat.testBit_xor,
    Nat.testBit_two_pow_sub_one, Nat.testBit_two_pow_sub_one, Nat.testBit_mul_two_pow]
  by_cases hi : i < bits
  · by_cases hhost : i < bits - len
    · have hnot : ¬ bits ≤ i + len := by omega
      simp [hi, hhost, hnot]
    · have hle : bits - len ≤ i := Nat.le_of_not_lt hhost
      simp [hi, hhost, hle, ← Nat.shiftRight_eq_div_pow, Nat.testBit_shiftRight]
  · have hbit : n.testBit i = false :=
      Nat.testBit_lt_two_pow (hn.trans_le (Nat.pow_le_pow_right (by decide) (Nat.le_of_not_lt hi)))
    have hle : bits - len ≤ i := by omega
    simp [hi, hbit, hle, ← Nat.shiftRight_eq_div_pow, Nat.testBit_shiftRight]

/-- The last address of the block. -/
theorem broadcast_eq (hn : n < 2 ^ bits) (h : len ≤ bits) :
    broadcastAddress bits len n =
      n / 2 ^ (bits - len) * 2 ^ (bits - len) + (2 ^ (bits - len) - 1) := by
  have hlt : 2 ^ (bits - len) - 1 < 2 ^ (bits - len) :=
    Nat.sub_lt (Nat.two_pow_pos _) Nat.one_pos
  rw [broadcastAddress, network_eq hn h, hostmask_eq h, ← Nat.shiftLeft_eq,
    ← Nat.shiftLeft_add_eq_or_of_lt hlt]

end Networks

end IpAddress
end NetRollout
