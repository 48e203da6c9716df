import NetRollout.Discovery.Targets
import NetRollout.Library.IpAddress

/-!
# The addresses an admin typed

`parse_targets` of `src/discovery/targets.py` from the text on: its entries, what each stands for
(a subnet, a range or one address), and the blocks none may reach.

`Denotes` says what an entry stands for, by the blocks and their ends rather than by masks.
`parseTargets_exact` is that the targets hold what their entries stand for and nothing else, each
address once and in order, and that everything else is a `TargetError`.

An address written as IPv4-mapped is refused, and so the mapped addresses are in no subnet or
range but one that holds all of them: a discovery of fewer than 2 ^ 32 addresses has none.
-/

namespace NetRollout
namespace Discovery

open PyText (Str Decimals)

/-- `max_prefixlen`. -/
def Version.bits : Version → Nat
  | v4 => 32
  | v6 => 128

namespace Entries

open IpAddress (parseV4 parseV6)

/-! ## Addresses -/

/-- An `IPv4Address` or `IPv6Address`. -/
structure Ip where
  version : Version
  number : Nat
  lt : number < 2 ^ version.bits

/-- `ip_address`. -/
def ipAddress (text : Str) : Option Ip :=
  match h : parseV4 text with
  | some n => some ⟨.v4, n, IpAddress.parseV4_lt h⟩
  | none =>
    match h : parseV6 text with
    | some n => some ⟨.v6, n, IpAddress.parseV6_lt h⟩
    | none => none

namespace Ip

/-- `ipv4_mapped`. -/
def mapped (ip : Ip) : Option Nat :=
  if ip.version = .v6 ∧ ip.number >>> 32 = 0xFFFF then some (ip.number % 2 ^ 32) else none

end Ip

/-- What `ip_network` makes of an address with a length, host bits or not. -/
structure Network where
  address : Ip
  len : Nat
  le : len ≤ address.version.bits

namespace Network

variable (w : Network)

/-- `network_address`. -/
def first : Nat := IpAddress.networkAddress w.address.version.bits w.len w.address.number

/-- `broadcast_address`. -/
def last : Nat := IpAddress.broadcastAddress w.address.version.bits w.len w.address.number

end Network

/-! ## What goes wrong -/

/-- A network of some address. -/
def networkOf (version : Version) (number len : Nat)
    (hnumber : number.succ.ble (2 ^ version.bits) = true)
    (hlen : len.ble version.bits = true) : Network :=
  ⟨⟨version, number, Nat.le_of_ble_eq_true hnumber⟩, len, Nat.le_of_ble_eq_true hlen⟩

/-- A block a discovery never touches, and what it holds. -/
structure Block where
  network : Network
  what : Str

/-- `_REFUSED`. -/
def REFUSED : List Block :=
  [⟨networkOf .v4 0 8 rfl rfl, "no device addresses".toList⟩,
   ⟨networkOf .v4 (127 * 2 ^ 24) 8 rfl rfl, "loopback - NetRollout's own server".toList⟩,
   ⟨networkOf .v4 (224 * 2 ^ 24) 4 rfl rfl, "multicast, not devices".toList⟩,
   ⟨networkOf .v4 (240 * 2 ^ 24) 4 rfl rfl, "reserved, not devices".toList⟩,
   ⟨networkOf .v6 0 128 rfl rfl, "no device address".toList⟩,
   ⟨networkOf .v6 1 128 rfl rfl, "loopback - NetRollout's own server".toList⟩,
   ⟨networkOf .v6 (0xfe80 * 2 ^ 112) 10 rfl rfl,
     "link-local - scan the devices' global addresses".toList⟩,
   ⟨networkOf .v6 (0xff00 * 2 ^ 112) 8 rfl rfl, "multicast, not devices".toList⟩]

/-- The block has an address of the span. -/
def Block.reaches (b : Block) (span : Span) : Bool :=
  b.network.address.version = span.version && span.first ≤ b.network.last &&
    b.network.first ≤ span.last

/-- A `TargetError`: its message, in what it names. -/
inductive TargetError where
  /-- "Enter the addresses to scan: …" -/
  | nothing
  /-- "… isn't an address, a subnet (10.0.0.0/24) or a range (10.0.0.10-50)" -/
  | bad (entry : Str)
  /-- "…: write an IPv4 address as …" -/
  | mapped (entry : Str) (address : Nat)
  /-- "…: an IPv… prefix is 0 to …" -/
  | len (entry : Str) (version : Version)
  /-- "…: the range's end is 0 to 255" -/
  | rangeEnd (entry : Str)
  /-- "… mixes IPv4 and IPv6" -/
  | mixes (entry : Str)
  /-- "… runs backwards - write the lower address first" -/
  | backwards (entry : Str)
  /-- "… is in …: …", or "… reaches into …: …" -/
  | refused (entry : Str) (single : Bool) (block : Block)
  /-- "… addresses - one discovery takes at most …. Split it, or narrow the subnet." -/
  | tooMany (count : Nat) (limit : Int)

/-- What `parse_targets` may raise. -/
inductive Raised where
  | target (e : TargetError)
  /-- A `ValueError` of `int` or of `ipaddress`. -/
  | value

/-- A note for the page. -/
inductive Note where
  /-- "… means …" -/
  | means (entry : Str) (network : Network)
  /-- "overlapping entries counted once" -/
  | overlapping

/-! ## One entry -/

namespace Network

variable (w : Network)

/-- The first usable address. -/
def usableFirst : Nat :=
  if w.address.version = .v4 ∧ w.len ≤ 30 then w.first + 1
  else if w.address.version = .v6 ∧ w.len ≤ 126 then w.first + 1
  else w.first

/-- The last usable address. -/
def usableLast : Nat :=
  if w.address.version = .v4 ∧ w.len ≤ 30 then w.last - 1 else w.last

/-- The addresses of the block are those with its number. -/
def size : Nat := 2 ^ (w.address.version.bits - w.len)

theorem first_eq : w.first = w.address.number / w.size * w.size :=
  IpAddress.network_eq w.address.lt w.le

theorem last_eq : w.last = w.address.number / w.size * w.size + (w.size - 1) :=
  IpAddress.broadcast_eq w.address.lt w.le

theorem size_pos : 0 < w.size := Nat.two_pow_pos _

/-- Two addresses are kept from a block of four or more. -/
theorem four_le_size {n : Nat} (hbits : w.address.version.bits = n + 2) (h : w.len ≤ n) :
    4 ≤ w.size := by
  have hle : 2 ^ 2 ≤ 2 ^ (w.address.version.bits - w.len) :=
    Nat.pow_le_pow_right (by decide) (by omega)
  exact hle

theorem usableFirst_le_usableLast : w.usableFirst ≤ w.usableLast := by
  have hpos := w.size_pos
  have hfirst := w.first_eq
  have hlast := w.last_eq
  unfold usableFirst usableLast
  split
  · next h =>
    have hfour := w.four_le_size (n := 30) (by rw [h.1]; rfl) h.2
    omega
  · split
    · next h =>
      have hfour := w.four_le_size (n := 126) (by rw [h.1]; rfl) h.2
      omega
    · omega

def span : Span := ⟨w.address.version, w.usableFirst, w.usableLast, w.usableFirst_le_usableLast⟩

end Network

section Entry

variable [Decimals]

def bad {α : Type} (entry : Str) : Except Raised α := .error (.target (.bad entry))

/-- `\d{1,3}`, all of it. -/
def isShort (text : Str) : Bool :=
  1 ≤ text.length && text.length ≤ 3 && text.all fun c => (Decimals.decimal c).isSome

/-- `int` of digits. -/
def int (text : Str) : Except Raised Nat :=
  match PyText.digits text with
  | some n => .ok n
  | none => .error .value

/-- `partition`, at a separator there is. -/
def partition (c : Char) (s : Str) : Str × Str :=
  (s.takeWhile (· != c), (s.dropWhile (· != c)).tail)

omit [Decimals] in
/-- `_address`. -/
def address (text entry : Str) : Except Raised Ip :=
  if '%' ∈ text then bad entry
  else match ipAddress text with
    | none => bad entry
    | some ip =>
      match ip.mapped with
      | some n => .error (.target (.mapped entry n))
      | none => .ok ip

/-- `ip_network(f"{address}/{len}", strict=False)`. -/
def ipNetwork (ip : Ip) (len : Nat) : Except Raised Network :=
  if h : len ≤ ip.version.bits then .ok ⟨ip, len, h⟩ else .error .value

/-- `_network`. -/
def network (entry : Str) : Except Raised (Span × List Note) :=
  let (addressText, lenText) := partition '/' entry
  if isShort lenText = false then bad entry
  else do
    let ip ← address addressText entry
    let len ← int lenText
    if ip.version.bits < len then .error (.target (.len entry ip.version))
    else do
      let w ← ipNetwork ip len
      return (w.span, if w.first ≠ ip.number then [.means entry w] else [])

omit [Decimals] in
/-- `IPv4Address` of a number. -/
def ipv4 (n : Nat) : Except Raised Ip :=
  if h : n < 2 ^ 32 then .ok ⟨.v4, n, h⟩ else .error .value

/-- The end of a range. -/
def rangeEnd (entry endText : Str) (start : Ip) : Except Raised Ip :=
  if start.version = .v4 ∧ isShort endText = true then do
    let n ← int endText
    -- `& ~0xFF`
    if 255 < n then .error (.target (.rangeEnd entry)) else ipv4 ((start.number >>> 8) <<< 8 + n)
  else address endText entry

/-- `_range`. -/
def range (entry : Str) : Except Raised Span :=
  let (startText, endText) := partition '-' entry
  if endText = [] ∨ '-' ∈ endText then bad entry
  else do
    let start ← address startText entry
    let last ← rangeEnd entry endText start
    if last.version ≠ start.version then .error (.target (.mixes entry))
    else if h : last.number < start.number then .error (.target (.backwards entry))
    else return ⟨start.version, start.number, last.number, Nat.le_of_not_lt h⟩

/-- What an entry reads as, before the blocks are looked at. -/
def span (entry : Str) : Except Raised (Span × List Note) :=
  if '/' ∈ entry then network entry
  else if '-' ∈ entry then (range entry).map fun s => (s, [])
  else (address entry entry).map fun ip => (⟨ip.version, ip.number, ip.number, le_refl _⟩, [])

/-- `_entry`. -/
def entry (text : Str) : Except Raised (Span × List Note) := do
  let (s, notes) ← span text
  match REFUSED.find? fun b => b.reaches s with
  | some b => .error (.target (.refused text (s.size = 1) b))
  | none => return (s, notes)

end Entry

/-! ## The targets -/

/-- `_SEPARATORS`. -/
def isSeparator (c : Char) : Bool := PyText.isSpace c || c == ',' || c == ';'

/-- Whether any of the sorted spans overlapped what was merged before it. -/
def overlapped (spans : List Span) : Bool :=
  ((spans.insertionSort fun s t => s.sortsBefore t).foldl (fun (merged, found) span =>
    (join merged span, found || merged.head?.any fun last =>
      last.version = span.version && span.first ≤ last.last)) ([], false)).2

/-- `parse_targets`.  There is an address at least, so a negative limit admits none as well. -/
def parseTargets [Decimals] (text : Str) (limit : Int) : Except Raised (Targets × List Note) :=
  let entries := PyText.fields isSeparator text
  if entries = [] then .error (.target .nothing)
  else do
    let read ← entries.mapM entry
    let spans := read.map fun r => r.1
    let notes := (read.flatMap fun r => r.2) ++ if overlapped spans then [.overlapping] else []
    let count := ((mergeSpans spans).map Span.size).sum
    if limit < count then .error (.target (.tooMany count limit))
    else return (⟨entries, mergeSpans spans, count, pairwise_mergeSpans spans, rfl⟩, notes)

/-! ## What an entry stands for -/

section Denotation

variable [Decimals]

/-- The end of a range: an address of its family, or the last number of an IPv4 one. -/
inductive RangeEnd (start : Ip) (endText : Str) : Nat → Prop where
  | short {n : Nat} (hversion : start.version = .v4) (hshort : isShort endText = true)
    (hn : PyText.digits endText = some n) : RangeEnd start endText (start.number / 256 * 256 + n)
  | full {ip : Ip} (hip : ipAddress endText = some ip) (hversion : ip.version = start.version) :
    RangeEnd start endText ip.number

/-- An address of a block, by its place in it: not the first and the last of an IPv4 block up to
/30, nor the first of an IPv6 block up to /126. -/
def Usable (version : Version) (len place size : Nat) : Prop :=
  (version = .v4 → len ≤ 30 → place ≠ 0 ∧ place ≠ size - 1) ∧
    (version = .v6 → len ≤ 126 → place ≠ 0)

/-- **The addresses that an entry denotes.** -/
inductive Denotes (entry : Str) : Address → Prop where
  | single {ip : Ip} (hslash : '/' ∉ entry) (hdash : '-' ∉ entry)
    (hip : ipAddress entry = some ip) : Denotes entry ⟨ip.version, ip.number⟩
  | range {startText endText : Str} {start : Ip} {last n : Nat} (hslash : '/' ∉ entry)
    (hentry : entry = startText ++ '-' :: endText) (hdash : '-' ∉ startText)
    (hstart : ipAddress startText = some start) (hend : RangeEnd start endText last)
    (hfirst : start.number ≤ n) (hlast : n ≤ last) : Denotes entry ⟨start.version, n⟩
  | subnet {addressText lenText : Str} {ip : Ip} {len n : Nat}
    (hentry : entry = addressText ++ '/' :: lenText) (hslash : '/' ∉ addressText)
    (hip : ipAddress addressText = some ip) (hlen : PyText.digits lenText = some len)
    (hblock : n / 2 ^ (ip.version.bits - len) = ip.number / 2 ^ (ip.version.bits - len))
    (husable : Usable ip.version len (n % 2 ^ (ip.version.bits - len))
      (2 ^ (ip.version.bits - len))) : Denotes entry ⟨ip.version, n⟩

/-- The network has the address. -/
def Network.Holds (w : Network) (a : Address) : Prop :=
  a.version = w.address.version ∧ a.number / w.size = w.address.number / w.size

/-- An IPv4-mapped address, `::ffff:0:0/96`. -/
def Mapped (a : Address) : Prop := a.version = .v6 ∧ a.number / 2 ^ 32 = 0xFFFF

/-- What an entry that is no error was read from. -/
inductive Reads (entry : Str) : Span → Prop where
  | single {ip : Ip} (hslash : '/' ∉ entry) (hdash : '-' ∉ entry) (hip : ipAddress entry = some ip)
    (hmapped : ip.mapped = none) : Reads entry ⟨ip.version, ip.number, ip.number, le_refl _⟩
  | range {startText endText : Str} {start : Ip} {last : Nat} (hslash : '/' ∉ entry)
    (hentry : entry = startText ++ '-' :: endText) (hdash : '-' ∉ startText)
    (hstart : ipAddress startText = some start) (hend : RangeEnd start endText last)
    (hmapped : start.mapped = none)
    (hmapped' : start.version = .v6 → last >>> 32 ≠ 0xFFFF)
    (hle : start.number ≤ last) : Reads entry ⟨start.version, start.number, last, hle⟩
  | subnet {addressText lenText : Str} {w : Network}
    (hentry : entry = addressText ++ '/' :: lenText) (hslash : '/' ∉ addressText)
    (hip : ipAddress addressText = some w.address) (hlen : PyText.digits lenText = some w.len)
    (hmapped : w.address.mapped = none) : Reads entry w.span

end Denotation

/-! ## Reading -/

section Reading

theorem partition_append {c : Char} {s t : Str} (h : c ∉ s) :
    partition c (s ++ c :: t) = (s, t) := by
  have hall : ∀ d ∈ s, (d != c) = true := by
    intro d hd
    exact bne_iff_ne.mpr fun heq => h (heq ▸ hd)
  have hstop : (c != c) = false := bne_self_eq_false c
  rw [partition, List.takeWhile_append_of_pos hall, List.dropWhile_append_of_pos hall,
    List.takeWhile_cons, List.dropWhile_cons, hstop]
  simp only [Bool.false_eq_true, if_false, List.append_nil, List.tail_cons]

theorem exists_of_bind {ε α β : Type} {x : Except ε α} {f : α → Except ε β} {b : β}
    (h : x >>= f = .ok b) : ∃ a, x = .ok a ∧ f a = .ok b := by
  cases x with
  | error e => cases h
  | ok a => exact ⟨a, rfl, h⟩

theorem exists_of_map {ε α β : Type} {x : Except ε α} {f : α → β} {b : β}
    (h : x.map f = .ok b) : ∃ a, x = .ok a ∧ f a = b := by
  cases x with
  | error e => cases h
  | ok a => exact ⟨a, rfl, Except.ok.inj h⟩

/-- A text with a separator is its parts. -/
theorem exists_partition {c : Char} {s : Str} (h : c ∈ s) :
    ∃ a b, s = a ++ c :: b ∧ c ∉ a ∧ partition c s = (a, b) := by
  obtain ⟨a, b, rfl, ha⟩ := List.eq_append_cons_of_mem h
  exact ⟨a, b, rfl, ha, partition_append ha⟩

/-- A text is parted at its first separator in one way. -/
theorem parts_unique {c : Char} {a b a' b' : Str} (ha : c ∉ a) (ha' : c ∉ a')
    (h : a ++ c :: b = a' ++ c :: b') : a = a' ∧ b = b' := by
  have hparts := partition_append (t := b) ha
  rw [h, partition_append ha'] at hparts
  exact ⟨(Prod.mk.inj hparts).1.symm, (Prod.mk.inj hparts).2.symm⟩

theorem address_eq_ok {text entry : Str} {ip : Ip} (h : address text entry = .ok ip) :
    ipAddress text = some ip ∧ ip.mapped = none := by
  unfold address at h
  split at h
  · cases h
  · split at h
    · cases h
    · next hip =>
      split at h
      · cases h
      · next hmapped =>
        cases h
        exact ⟨hip, hmapped⟩

/-- An address that is not mapped, by its number. -/
theorem shiftRight_ne_of_mapped {ip : Ip} (h : ip.mapped = none) (hversion : ip.version = .v6) :
    ip.number >>> 32 ≠ 0xFFFF := by
  unfold Ip.mapped at h
  split at h
  · cases h
  · next hnot => exact fun heq => hnot ⟨hversion, heq⟩

variable [Decimals]

theorem int_eq_ok {text : Str} {n : Nat} (h : int text = .ok n) : PyText.digits text = some n := by
  unfold int at h
  split at h
  · next hn =>
    cases h
    exact hn
  · cases h

omit [Decimals] in
theorem ipv4_eq_ok {n : Nat} {ip : Ip} (h : ipv4 n = .ok ip) :
    ip.version = .v4 ∧ ip.number = n := by
  unfold ipv4 at h
  split at h
  · obtain rfl := Except.ok.inj h
    exact ⟨rfl, rfl⟩
  · cases h

theorem rangeEnd_eq_ok {entry endText : Str} {start ip : Ip}
    (h : rangeEnd entry endText start = .ok ip) (hversion : ip.version = start.version) :
    RangeEnd start endText ip.number ∧ (start.version = .v6 → ip.number >>> 32 ≠ 0xFFFF) := by
  unfold rangeEnd at h
  split at h
  · next hshort =>
    obtain ⟨n, hn, h⟩ := exists_of_bind h
    split at h
    · cases h
    · have hnumber := (ipv4_eq_ok h).2
      rw [Nat.shiftRight_eq_div_pow, Nat.shiftLeft_eq] at hnumber
      refine ⟨?_, fun hv6 => ?_⟩
      · rw [hnumber]
        exact .short hshort.1 hshort.2 (int_eq_ok hn)
      · rw [hshort.1] at hv6
        cases hv6
  · obtain ⟨hip, hmapped⟩ := address_eq_ok h
    refine ⟨.full hip hversion, fun hv6 => shiftRight_ne_of_mapped hmapped (hversion.trans hv6)⟩

theorem reads_of_network {text : Str} {s : Span} {notes : List Note} (hslash : '/' ∈ text)
    (h : network text = .ok (s, notes)) : Reads text s := by
  obtain ⟨a, b, htext, ha, hparts⟩ := exists_partition hslash
  unfold network at h
  rw [hparts] at h
  dsimp only at h
  split at h
  · cases h
  · obtain ⟨ip, hip, h⟩ := exists_of_bind h
    obtain ⟨len, hlen, h⟩ := exists_of_bind h
    split at h
    · cases h
    · obtain ⟨w, hw, h⟩ := exists_of_bind h
      unfold ipNetwork at hw
      split at hw
      · cases hw
        cases h
        obtain ⟨hip, hmapped⟩ := address_eq_ok hip
        exact .subnet htext ha hip (int_eq_ok hlen) hmapped
      · cases hw

theorem reads_of_range {text : Str} {s : Span} (hslash : '/' ∉ text) (hdash : '-' ∈ text)
    (h : range text = .ok s) : Reads text s := by
  obtain ⟨a, b, htext, ha, hparts⟩ := exists_partition hdash
  unfold range at h
  rw [hparts] at h
  dsimp only at h
  split at h
  · cases h
  · obtain ⟨start, hstart, h⟩ := exists_of_bind h
    obtain ⟨last, hlast, h⟩ := exists_of_bind h
    split at h
    · cases h
    · next hversion =>
      split at h
      · cases h
      · cases h
        obtain ⟨hip, hmapped⟩ := address_eq_ok hstart
        obtain ⟨hend, hmapped'⟩ := rangeEnd_eq_ok hlast (not_ne_iff.mp hversion)
        exact .range hslash htext ha hip hend hmapped hmapped' _

/-- What an entry that is no error was read from. -/
theorem reads_of_span {text : Str} {s : Span} {notes : List Note} (h : span text = .ok (s, notes)) :
    Reads text s := by
  unfold span at h
  split at h
  · next hslash => exact reads_of_network hslash h
  · next hslash =>
    split at h
    · next hdash =>
      obtain ⟨r, hr, heq⟩ := exists_of_map h
      cases heq
      exact reads_of_range hslash hdash hr
    · next hdash =>
      obtain ⟨ip, hip, heq⟩ := exists_of_map h
      cases heq
      obtain ⟨hip, hmapped⟩ := address_eq_ok hip
      exact .single hslash hdash hip hmapped

/-- An entry that is read reaches none of the blocks. -/
theorem reads_of_entry {text : Str} {s : Span} {notes : List Note}
    (h : entry text = .ok (s, notes)) :
    Reads text s ∧ ∀ b ∈ REFUSED, b.reaches s = false := by
  obtain ⟨⟨s', notes'⟩, hspan, h⟩ := exists_of_bind h
  dsimp only at h
  split at h
  · cases h
  · next hnone =>
    cases h
    refine ⟨reads_of_span hspan, fun b hb => ?_⟩
    exact Bool.eq_false_iff.mpr (List.find?_eq_none.mp hnone b hb)

end Reading

/-! ## What is read is what is denoted -/

section Exact

/-- Two places of a block and what is between them. -/
theorem between_iff {n m k x y : Nat} (hy : y < k) :
    m / k * k + x ≤ n ∧ n ≤ m / k * k + y ↔ n / k = m / k ∧ x ≤ n % k ∧ n % k ≤ y := by
  have hpos : 0 < k := by omega
  have hplace := Nat.div_add_mod n k
  have hmod := Nat.mod_lt n hpos
  rw [Nat.mul_comm] at hplace
  constructor
  · rintro ⟨hfirst, hlast⟩
    have hblock : n / k = m / k := by
      rw [Nat.div_eq_iff hpos]
      omega
    rw [hblock] at hplace
    omega
  · rintro ⟨hblock, hfirst, hlast⟩
    rw [hblock] at hplace
    omega

/-- The usable addresses of a network, by their block and their place in it. -/
theorem mem_span_iff (w : Network) {a : Address} : a ∈ w.span.addresses ↔
    a.version = w.address.version ∧ a.number / w.size = w.address.number / w.size ∧
      Usable w.address.version w.len (a.number % w.size) w.size := by
  rw [Span.mem_addresses]
  refine and_congr_right fun _ => ?_
  have hpos := w.size_pos
  have hmod := Nat.mod_lt a.number hpos
  show w.usableFirst ≤ a.number ∧ a.number ≤ w.usableLast ↔ _
  unfold Network.usableFirst Network.usableLast Usable
  rw [w.first_eq, w.last_eq]
  split
  · next h =>
    have hfour := w.four_le_size (n := 30) (by rw [h.1]; rfl) h.2
    rw [Nat.add_sub_assoc (by omega), between_iff (by omega)]
    refine and_congr_right fun _ => ?_
    constructor
    · rintro ⟨hfirst, hlast⟩
      refine ⟨fun _ _ => by omega, fun hv6 => ?_⟩
      rw [h.1] at hv6
      cases hv6
    · rintro ⟨hplace, -⟩
      have hplace := hplace h.1 h.2
      omega
  · next hv4 =>
    split
    · next h =>
      rw [between_iff (by omega)]
      refine and_congr_right fun _ => ?_
      constructor
      · rintro ⟨hfirst, hlast⟩
        exact ⟨fun hv hlen => absurd ⟨hv, hlen⟩ hv4, fun _ _ => by omega⟩
      · rintro ⟨-, hplace⟩
        have hplace := hplace h.1 h.2
        omega
    · next hv6 =>
      have hall := between_iff (n := a.number) (m := w.address.number) (x := 0)
        (show w.size - 1 < w.size by omega)
      rw [Nat.add_zero] at hall
      rw [hall]
      refine and_congr_right fun _ => ?_
      constructor
      · rintro -
        exact ⟨fun hv hlen => absurd ⟨hv, hlen⟩ hv4, fun hv hlen => absurd ⟨hv, hlen⟩ hv6⟩
      · rintro -
        omega

variable [Decimals] {text : Str} {s : Span} {a : Address}

theorem digits_unique {t : Str} {n m : Nat} (h : PyText.digits t = some n)
    (h' : PyText.digits t = some m) : n = m :=
  Option.some.inj (h.symm.trans h')

omit [Decimals] in
theorem parseV4_of_ipAddress {t : Str} {ip : Ip} (h : ipAddress t = some ip)
    (hversion : ip.version = .v4) : parseV4 t = some ip.number := by
  unfold ipAddress at h
  split at h
  · next hn =>
    cases h
    exact hn
  · split at h
    · cases h
      cases hversion
    · cases h

/-- The last number alone is no address. -/
theorem not_address_of_isShort {t : Str} {ip : Ip} (hshort : isShort t = true)
    (h : ipAddress t = some ip) : ip.version ≠ .v4 := by
  intro hversion
  have hdot := IpAddress.dot_mem_of_parseV4 (parseV4_of_ipAddress h hversion)
  have hall := List.all_eq_true.mp (Bool.and_eq_true_iff.mp hshort).2 '.' hdot
  rw [Decimals.decimal_ascii '.' (by decide)] at hall
  cases hall

/-- A range has one end. -/
theorem rangeEnd_unique {start : Ip} {t : Str} {n m : Nat} (h : RangeEnd start t n)
    (h' : RangeEnd start t m) : n = m := by
  cases h with
  | short hversion hshort hn =>
    cases h' with
    | short _ _ hm => rw [digits_unique hn hm]
    | full hip hsame => exact absurd (hsame.trans hversion) (not_address_of_isShort hshort hip)
  | full hip hsame =>
    cases h' with
    | short hversion hshort _ =>
      exact absurd (hsame.trans hversion) (not_address_of_isShort hshort hip)
    | full hip' _ => rw [Option.some.inj (hip.symm.trans hip')]

omit [Decimals] in
theorem mem_of_parts {c : Char} {t u v : Str} (h : t = u ++ c :: v) : c ∈ t := by
  rw [h]
  exact List.mem_append_right _ (List.mem_cons_self ..)

/-- **What is read is what is denoted.** -/
theorem mem_iff_denotes (h : Reads text s) : a ∈ s.addresses ↔ Denotes text a := by
  obtain ⟨v, n⟩ := a
  cases h with
  | @single ip hslash hdash hip hmapped =>
    rw [Span.mem_addresses]
    constructor
    · rintro ⟨rfl, hfirst, hlast⟩
      obtain rfl : n = ip.number := le_antisymm hlast hfirst
      exact .single hslash hdash hip
    · intro hdenotes
      cases hdenotes with
      | single _ _ hip' =>
        obtain rfl := Option.some.inj (hip.symm.trans hip')
        exact ⟨rfl, le_refl _, le_refl _⟩
      | range _ hentry => exact absurd (mem_of_parts hentry) hdash
      | subnet hentry => exact absurd (mem_of_parts hentry) hslash
  | @range startText endText start last hslash hentry hdash hstart hend hmapped hmapped' hle =>
    rw [Span.mem_addresses]
    constructor
    · rintro ⟨rfl, hfirst, hlast⟩
      exact .range hslash hentry hdash hstart hend hfirst hlast
    · intro hdenotes
      cases hdenotes with
      | single _ hdash' => exact absurd (mem_of_parts hentry) hdash'
      | range _ hentry' hdash' hstart' hend' hfirst hlast =>
        obtain ⟨rfl, rfl⟩ := parts_unique hdash hdash' (hentry.symm.trans hentry')
        obtain rfl := Option.some.inj (hstart.symm.trans hstart')
        obtain rfl := rangeEnd_unique hend hend'
        exact ⟨rfl, hfirst, hlast⟩
      | subnet hentry' => exact absurd (mem_of_parts hentry') hslash
  | @subnet addressText lenText w hentry hslash hip hlen hmapped =>
    rw [mem_span_iff]
    constructor
    · rintro ⟨rfl, hblock, husable⟩
      exact .subnet hentry hslash hip hlen hblock husable
    · intro hdenotes
      cases hdenotes with
      | single hslash' => exact absurd (mem_of_parts hentry) hslash'
      | range hslash' => exact absurd (mem_of_parts hentry) hslash'
      | subnet hentry' hslash' hip' hlen' hblock husable =>
        obtain ⟨rfl, rfl⟩ := parts_unique hslash hslash' (hentry.symm.trans hentry')
        obtain rfl := Option.some.inj (hip.symm.trans hip')
        obtain rfl := digits_unique hlen hlen'
        exact ⟨rfl, hblock, husable⟩

omit [Decimals] in
/-- The network has the address. -/
theorem holds_iff (w : Network) : a.number / w.size = w.address.number / w.size ↔
    w.first ≤ a.number ∧ a.number ≤ w.last := by
  have hpos := w.size_pos
  have hall := between_iff (n := a.number) (m := w.address.number) (x := 0)
    (show w.size - 1 < w.size by omega)
  have hmod := Nat.mod_lt a.number hpos
  rw [Nat.add_zero] at hall
  rw [w.first_eq, w.last_eq, hall]
  constructor
  · intro hblock
    exact ⟨hblock, Nat.zero_le _, by omega⟩
  · exact fun h => h.1

omit [Decimals] in
/-- A span that a block does not reach has none of its addresses. -/
theorem not_holds_of_reaches {b : Block} (h : b.reaches s = false) (ha : a ∈ s.addresses) :
    ¬ b.network.Holds a := by
  rintro ⟨hversion, hblock⟩
  obtain ⟨hversion', hfirst, hlast⟩ := Span.mem_addresses.mp ha
  obtain ⟨hfirst', hlast'⟩ := (holds_iff b.network).mp hblock
  have hreaches : b.reaches s = true := by
    simp only [Block.reaches, Bool.and_eq_true, decide_eq_true_eq]
    exact ⟨⟨hversion.symm.trans hversion', hfirst.trans hlast'⟩, hfirst'.trans hlast⟩
  rw [h] at hreaches
  cases hreaches

omit [Decimals] in
/-- A small network has the mapped addresses all or none, a large one all, and not as its first. -/
theorem mapped_block {n m p k : Nat} (hn : n / 2 ^ 32 = 0xFFFF) (hm : m / 2 ^ 32 = 0xFFFF)
    (hp : p / 2 ^ 32 ≠ 0xFFFF) (hblock : n / 2 ^ k = p / 2 ^ k) :
    m / 2 ^ k = p / 2 ^ k ∧ m % 2 ^ k ≠ 0 := by
  rcases Nat.lt_or_ge 32 k with hk | hk
  · obtain ⟨j, rfl⟩ := Nat.exists_eq_add_of_lt hk
    have hpow : 2 ^ (32 + j + 1) = 2 ^ 32 * 2 ^ (j + 1) := by rw [Nat.add_assoc, pow_add]
    constructor
    · rw [← hblock, hpow, ← Nat.div_div_eq_div_mul, ← Nat.div_div_eq_div_mul, hn, hm]
    · intro hfirst
      -- the mapped addresses begin at an odd multiple of 2 ^ 32
      obtain ⟨q, rfl⟩ := Nat.dvd_of_mod_eq_zero hfirst
      rw [hpow, Nat.mul_assoc, Nat.mul_div_cancel_left _ (by decide), pow_succ] at hm
      have hodd : 2 ^ j * 2 * q = 2 * (2 ^ j * q) := by
        rw [Nat.mul_comm (2 ^ j) 2, Nat.mul_assoc]
      omega
  · obtain ⟨j, hj⟩ := Nat.exists_eq_add_of_le hk
    have hpow : 2 ^ 32 = 2 ^ k * 2 ^ j := by rw [hj, pow_add]
    refine absurd ?_ hp
    rw [hpow, ← Nat.div_div_eq_div_mul, ← hblock, Nat.div_div_eq_div_mul, ← hpow, hn]

/-- An entry that has one IPv4-mapped address has them all. -/
theorem mapped_subset (h : Reads text s) (ha : a ∈ s.addresses) (hmapped : Mapped a)
    {m : Address} (hm : Mapped m) : m ∈ s.addresses := by
  have hnumber {ip : Ip} (hip : ip.mapped = none) (hversion : ip.version = .v6) :
      ip.number / 2 ^ 32 ≠ 0xFFFF := by
    have hne := shiftRight_ne_of_mapped hip hversion
    rwa [Nat.shiftRight_eq_div_pow] at hne
  cases h with
  | @single ip hslash hdash hip hmapped' =>
    obtain ⟨hversion, hfirst, hlast⟩ := Span.mem_addresses.mp ha
    refine absurd hmapped.2 ?_
    rw [le_antisymm hlast hfirst]
    exact hnumber hmapped' (hversion.symm.trans hmapped.1)
  | @range startText endText start last hslash hentry hdash hstart hend hstart' hlast' hle =>
    obtain ⟨hversion, hfirst, hlast⟩ := Span.mem_addresses.mp ha
    have hv6 := hversion.symm.trans hmapped.1
    have hbelow := hnumber hstart' hv6
    have habove := hlast' hv6
    rw [Nat.shiftRight_eq_div_pow] at habove
    refine Span.mem_addresses.mpr ⟨hm.1.trans hv6.symm, ?_, ?_⟩
    · have hn := hmapped.2
      have hm := hm.2
      dsimp only at hfirst ⊢
      omega
    · have hn := hmapped.2
      have hm := hm.2
      dsimp only at hlast ⊢
      omega
  | @subnet addressText lenText w hentry hslash hip hlen hmapped' =>
    obtain ⟨hversion, hblock, -⟩ := (mem_span_iff w).mp ha
    have hv6 := hversion.symm.trans hmapped.1
    obtain ⟨hblock', hplace⟩ := mapped_block hmapped.2 hm.2 (hnumber hmapped' hv6) hblock
    refine (mem_span_iff w).mpr ⟨hm.1.trans hv6.symm, hblock', fun hv4 => ?_, fun _ _ => hplace⟩
    rw [hv6] at hv4
    cases hv4

end Exact

/-! ## Nothing else is raised -/

section Raising

/-- All that is raised is a `TargetError`. -/
def OnlyTarget {α : Type} (x : Except Raised α) : Prop :=
  ∀ e, x = .error e → ∃ t, e = .target t

variable {α β : Type}

theorem OnlyTarget.ok (a : α) : OnlyTarget (.ok a) := fun _ h => by cases h

theorem OnlyTarget.target (t : TargetError) : OnlyTarget (.error (.target t) : Except Raised α) :=
  fun _ h => by
    cases h
    exact ⟨t, rfl⟩

theorem OnlyTarget.bind {x : Except Raised α} {f : α → Except Raised β} (hx : OnlyTarget x)
    (hf : ∀ a, x = .ok a → OnlyTarget (f a)) : OnlyTarget (x >>= f) := by
  cases x with
  | error e =>
    intro e' h
    cases h
    exact hx e rfl
  | ok a => exact hf a rfl

theorem OnlyTarget.map {x : Except Raised α} (f : α → β) (hx : OnlyTarget x) :
    OnlyTarget (x.map f) := by
  cases x with
  | error e =>
    intro e' h
    cases h
    exact hx e rfl
  | ok a => exact .ok _

theorem OnlyTarget.mapM {f : α → Except Raised β} (hf : ∀ a, OnlyTarget (f a)) (l : List α) :
    OnlyTarget (l.mapM f) := by
  induction l with
  | nil => exact .ok _
  | cons a l ih =>
    rw [List.mapM_cons]
    exact (hf a).bind fun b _ => ih.bind fun bs _ => .ok _

theorem OnlyTarget.address (text entry : Str) : OnlyTarget (address text entry) := by
  unfold Entries.address
  split
  · exact .target _
  · split
    · exact .target _
    · split
      · exact .target _
      · exact .ok _

variable [Decimals]

/-- Digits are a number. -/
theorem OnlyTarget.int {text : Str} (h : isShort text = true) : OnlyTarget (int text) := by
  simp only [isShort, Bool.and_eq_true, decide_eq_true_eq] at h
  have hne : text ≠ [] := by
    rintro rfl
    exact absurd h.1.1 (by decide)
  obtain ⟨n, hn⟩ := PyText.exists_digits hne (List.all_eq_true.mp h.2)
  rw [Entries.int, hn]
  exact .ok n

theorem OnlyTarget.network (entry : Str) : OnlyTarget (network entry) := by
  unfold Entries.network
  dsimp only
  split
  · exact .target _
  · next hshort =>
    refine (OnlyTarget.address _ _).bind fun ip _ => ?_
    refine (OnlyTarget.int (Bool.not_eq_false _ ▸ hshort)).bind fun len _ => ?_
    split
    · exact .target _
    · next hlen =>
      -- `ip_network` makes the same check
      rw [ipNetwork, dif_pos (Nat.le_of_not_lt hlen)]
      exact (OnlyTarget.ok _).bind fun w _ => .ok _

theorem OnlyTarget.rangeEnd (entry endText : Str) (start : Ip) :
    OnlyTarget (rangeEnd entry endText start) := by
  unfold Entries.rangeEnd
  split
  · next hshort =>
    refine (OnlyTarget.int hshort.2).bind fun n _ => ?_
    split
    · exact .target _
    · next hle =>
      have hlt := start.lt
      rw [hshort.1] at hlt
      have hnumber : (start.number >>> 8) <<< 8 + n < 2 ^ 32 := by
        rw [Nat.shiftRight_eq_div_pow, Nat.shiftLeft_eq]
        simp only [Version.bits] at hlt
        omega
      rw [ipv4, dif_pos hnumber]
      exact .ok _
  · exact .address _ _

theorem OnlyTarget.range (entry : Str) : OnlyTarget (range entry) := by
  unfold Entries.range
  dsimp only
  split
  · exact .target _
  · refine (OnlyTarget.address _ _).bind fun start _ => ?_
    refine (OnlyTarget.rangeEnd _ _ _).bind fun last _ => ?_
    split
    · exact .target _
    · split
      · exact .target _
      · exact .ok _

theorem OnlyTarget.entry (text : Str) : OnlyTarget (entry text) := by
  unfold Entries.entry
  refine OnlyTarget.bind ?_ fun r _ => ?_
  · unfold span
    split
    · exact .network _
    · split
      · exact (OnlyTarget.range _).map _
      · exact (OnlyTarget.address _ _).map _
  · dsimp only
    split
    · exact .target _
    · exact .ok _

theorem OnlyTarget.parseTargets (text : Str) (limit : Int) :
    OnlyTarget (parseTargets text limit) := by
  unfold Entries.parseTargets
  dsimp only
  split
  · exact .target _
  · refine (OnlyTarget.mapM OnlyTarget.entry _).bind fun read _ => ?_
    split
    · exact .target _
    · exact .ok _

end Raising

/-! ## The targets are exact -/

section Targets

variable [Decimals]

/-- **The targets of a text**, where there are any: what its entries denote, each address once and
in order, counted, within the limit and in no refused block; and, below 2 ^ 32 of them, not
IPv4-mapped. -/
structure Exact (text : Str) (limit : Int) (t : Targets) : Prop where
  entries : t.entries = PyText.fields isSeparator text
  union : ∀ a, a ∈ t.addresses ↔ ∃ entry ∈ PyText.fields isSeparator text, Denotes entry a
  once : t.addresses.Nodup
  ordered : t.addresses.Pairwise Address.Before
  counted : t.addresses.length = t.count
  limited : (t.count : Int) ≤ limit
  refused : ∀ a ∈ t.addresses, ∀ b ∈ REFUSED, ¬ b.network.Holds a
  unmapped : limit < 2 ^ 32 → ∀ a ∈ t.addresses, ¬ Mapped a

omit [Decimals] in
/-- What a list of computations returns, each to its own. -/
theorem mem_of_mapM {ε α β : Type} {f : α → Except ε β} {l : List α} {l' : List β}
    (h : l.mapM f = .ok l') :
    (∀ b ∈ l', ∃ a ∈ l, f a = .ok b) ∧ ∀ a ∈ l, ∃ b ∈ l', f a = .ok b := by
  induction l generalizing l' with
  | nil =>
    cases h
    exact ⟨List.forall_mem_nil _, List.forall_mem_nil _⟩
  | cons a l ih =>
    rw [List.mapM_cons] at h
    obtain ⟨b, hb, h⟩ := exists_of_bind h
    obtain ⟨rest, hrest, h⟩ := exists_of_bind h
    cases h
    obtain ⟨hback, hforth⟩ := ih hrest
    refine ⟨List.forall_mem_cons.mpr ⟨⟨a, List.mem_cons_self .., hb⟩, fun c hc => ?_⟩,
      List.forall_mem_cons.mpr ⟨⟨b, List.mem_cons_self .., hb⟩, fun c hc => ?_⟩⟩
    · obtain ⟨d, hd, hfd⟩ := hback c hc
      exact ⟨d, List.mem_cons_of_mem _ hd, hfd⟩
    · obtain ⟨d, hd, hfd⟩ := hforth c hc
      exact ⟨d, List.mem_cons_of_mem _ hd, hfd⟩

omit [Decimals] in
/-- A span is no larger than the targets that have it. -/
theorem size_le_count {t : Targets} {s : Span} (h : ∀ a ∈ s.addresses, a ∈ t.addresses) :
    s.size ≤ t.count := by
  rw [← s.length_addresses, ← t.length_addresses]
  exact (List.subperm_of_subset s.nodup_addresses h).length_le

/-- The IPv4-mapped addresses. -/
def mappedSpan : Span :=
  ⟨.v6, 0xFFFF * 2 ^ 32, 0xFFFF * 2 ^ 32 + (2 ^ 32 - 1), Nat.le_add_right _ _⟩

omit [Decimals] in
theorem mapped_of_mem {a : Address} (h : a ∈ mappedSpan.addresses) : Mapped a := by
  obtain ⟨hversion, hfirst, hlast⟩ := Span.mem_addresses.mp h
  refine ⟨hversion, ?_⟩
  simp only [mappedSpan] at hfirst hlast
  omega

/-- What is returned is exact. -/
theorem exact_of_ok {text : Str} {limit : Int} {t : Targets} {notes : List Note}
    (h : parseTargets text limit = .ok (t, notes)) : Exact text limit t := by
  unfold parseTargets at h
  dsimp only at h
  split at h
  · cases h
  · obtain ⟨read, hread, h⟩ := exists_of_bind h
    split at h
    · cases h
    · next hlimit =>
      cases h
      obtain ⟨hback, hforth⟩ := mem_of_mapM hread
      have hmem {a : Address} : a ∈ (mergeSpans (read.map fun r => r.1)).flatMap Span.addresses ↔
          ∃ r ∈ read, a ∈ r.1.addresses := by
        simp only [List.mem_flatMap, mem_mergeSpans, List.mem_map, exists_exists_and_eq_and]
      constructor
      case entries => rfl
      case union =>
        intro a
        rw [show a ∈ Targets.addresses _ ↔ _ from hmem]
        constructor
        · rintro ⟨r, hr, har⟩
          obtain ⟨text, htext, hentry⟩ := hback r hr
          exact ⟨text, htext, (mem_iff_denotes (reads_of_entry hentry).1).mp har⟩
        · rintro ⟨text, htext, hdenotes⟩
          obtain ⟨r, hr, hentry⟩ := hforth text htext
          exact ⟨r, hr, (mem_iff_denotes (reads_of_entry hentry).1).mpr hdenotes⟩
      case once => exact Targets.nodup_addresses _
      case ordered => exact Targets.pairwise_addresses _
      case counted => exact Targets.length_addresses _
      case limited => exact Int.not_lt.mp hlimit
      case refused =>
        intro a ha b hb
        obtain ⟨r, hr, har⟩ := hmem.mp ha
        obtain ⟨_, -, hentry⟩ := hback r hr
        exact not_holds_of_reaches ((reads_of_entry hentry).2 b hb) har
      case unmapped =>
        intro hsmall a ha hmapped
        obtain ⟨r, hr, har⟩ := hmem.mp ha
        obtain ⟨_, -, hentry⟩ := hback r hr
        have hall : ∀ m ∈ mappedSpan.addresses, m ∈
            (mergeSpans (read.map fun r => r.1)).flatMap Span.addresses := fun m hm =>
          hmem.mpr ⟨r, hr, mapped_subset (reads_of_entry hentry).1 har hmapped (mapped_of_mem hm)⟩
        have hcount := size_le_count (t := ⟨PyText.fields isSeparator text,
          mergeSpans (read.map fun r => r.1), _, pairwise_mergeSpans _, rfl⟩) hall
        have hsize : mappedSpan.size = 2 ^ 32 := by
          simp only [Span.size, mappedSpan]
          omega
        dsimp only at hcount
        omega

/-- **Discovery targets are exact**, and all else is a `TargetError`. -/
theorem parseTargets_exact (text : Str) (limit : Int) :
    (∃ t notes, parseTargets text limit = .ok (t, notes) ∧ Exact text limit t) ∨
      ∃ e, parseTargets text limit = .error (.target e) := by
  cases h : parseTargets text limit with
  | ok r => exact .inl ⟨r.1, r.2, rfl, exact_of_ok h⟩
  | error e =>
    obtain ⟨t, rfl⟩ := OnlyTarget.parseTargets text limit e h
    exact .inr ⟨t, rfl⟩

end Targets

/-- A subnet around all IPv4-mapped addresses, where so many are let through. -/
theorem mapped_of_subnet : let := Decimals.ascii
    ∃ t notes, parseTargets "::fffe:0:0/95".toList (2 ^ 33) = .ok (t, notes) ∧
      ∃ a ∈ t.addresses, Mapped a := by
  intro _
  have hrun : (match parseTargets "::fffe:0:0/95".toList (2 ^ 33) with
      | .ok (t, _) => t.spans.any fun s =>
        s.version = .v6 && s.first ≤ 0xFFFF * 2 ^ 32 && 0xFFFF * 2 ^ 32 ≤ s.last
      | .error _ => false) = true := by
    decide +kernel
  split at hrun
  · next t notes hparse =>
    refine ⟨t, notes, hparse, ⟨.v6, 0xFFFF * 2 ^ 32⟩, ?_, rfl, by decide⟩
    obtain ⟨s, hs, hspan⟩ := List.any_eq_true.mp hrun
    simp only [Bool.and_eq_true, decide_eq_true_eq] at hspan
    exact List.mem_flatMap.mpr ⟨s, hs, Span.mem_addresses.mpr
      ⟨hspan.1.1.symm, hspan.1.2, hspan.2⟩⟩
  · cases hrun

end Entries
end Discovery
end NetRollout
