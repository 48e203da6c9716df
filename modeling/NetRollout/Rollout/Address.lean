import NetRollout.Library.IpText

/-!
# A device's address

`src/rollout/address.py` and `src/rollout/inputs.py`: what an address is, an IP or a hostname,
and its one standard spelling, by which devices are compared as text.

A name's letters are matched ignoring case, and Unicode has four more of them: `İ`, `ı`, `ſ` and
the Kelvin sign.  Of these the lower case of `İ` is no letter of a name.  `normalize_normal` is
that the standard spelling is an address of itself but for names with an `İ`, and
`normalize_eq_iff` that two addresses are spelled the same if they are the same.
-/

namespace NetRollout
namespace Address

open PyText (Str strip isSpace)
open IpAddress

/-! ## IPs -/

/-- The zone of an IPv6 address. -/
abbrev Scope := {s : Str // s ≠ [] ∧ '%' ∉ s ∧ '/' ∉ s}

/-- An `IPv4Address` or `IPv6Address`. -/
inductive Ip where
  | v4 (n : Nat) (lt : n < 2 ^ 32)
  | v6 (n : Nat) (lt : n < 2 ^ 128) (scope : Option Scope)

/-- `_split_scope_id`; none where it raises. -/
def splitScope (text : Str) : Option (Str × Option Scope) :=
  match text.dropWhile (· ≠ '%') with
  | [] => some (text, none)
  | _ :: s =>
    if h : s ≠ [] ∧ '%' ∉ s ∧ '/' ∉ s then some (text.takeWhile (· ≠ '%'), some ⟨s, h⟩) else none

/-- An `IPv6Address` of a text and a zone. -/
def ofV6 (text : Str) (scope : Option Scope) : Option Ip :=
  match h : parseV6 text with
  | some n => some (.v6 n (parseV6_lt h) scope)
  | none => none

/-- `ip_address`; none where it raises. -/
def ipAddress (text : Str) : Option Ip :=
  match h : parseV4 text with
  | some n => some (.v4 n (parseV4_lt h))
  | none => (splitScope text).bind fun p => ofV6 p.1 p.2

/-- `str(ip)`. -/
def Ip.str : Ip → Str
  | v4 n _ => formatV4 n
  | v6 n _ none => formatV6 n
  | v6 n _ (some scope) => formatV6 n ++ '%' :: scope.1

/-- `is_ip`, `validate_ip`. -/
def isIp (value : Str) : Bool := (ipAddress value).isSome

/-! ## Names -/

/-- `İ`, `ı`, `ſ` and the Kelvin sign: they match `[a-z]` where case is ignored. -/
def dottedI : Char := Char.ofNat 0x130

def dotlessI : Char := Char.ofNat 0x131

def longS : Char := Char.ofNat 0x17F

def kelvin : Char := Char.ofNat 0x212A

/-- `[a-z0-9]`, case ignored. -/
def isAlnum (c : Char) : Bool :=
  c.isAlphanum || c == dottedI || c == dotlessI || c == longS || c == kelvin

/-- `_LABEL.fullmatch`. -/
def isLabel (s : Str) : Bool :=
  s.head?.any isAlnum && s.getLast?.any isAlnum && s.length ≤ 63 &&
    s.all fun c => isAlnum c || c == '-'

/-- `MAX_NAME`. -/
def MAX_NAME : Nat := 253

/-- `value[:-1] if value.endswith(".") else value`. -/
def undotted (value : Str) : Str := if value.getLast? = some '.' then value.dropLast else value

/-- `labels[-1].isdigit()`: of a label's characters only the ASCII digits are digits. -/
def isNumber (labels : List Str) : Bool :=
  labels.getLast?.any fun label => !label.isEmpty && label.all Char.isDigit

/-- `is_hostname`. -/
def isHostname (value : Str) : Bool :=
  let name := undotted value
  !name.isEmpty && name.length ≤ MAX_NAME && (name.splitOn '.').all isLabel &&
    !isNumber (name.splitOn '.')

/-- `lower()` of a name's character: two of `İ`, an `i` and a dot above it. -/
def lowerChar (c : Char) : Str :=
  if c = dottedI then ['i', Char.ofNat 0x307] else if c = kelvin then ['k'] else [c.toLower]

/-- `lower()` of a name. -/
def lower (name : Str) : Str := name.flatMap lowerChar

/-- `validate_address`. -/
def validateAddress (address : Str) : Bool := isIp address || isHostname address

/-- `normalize_address`; none where it raises. -/
def normalizeAddress (address : Str) : Option Str :=
  match ipAddress (strip address) with
  | some ip => some ip.str
  | none => if isHostname (strip address) then some (lower (strip address)) else none

/-- `is_bare`. -/
def isBare (address : Str) : Bool := !address.contains '.' && !address.contains ':'

/-- `strip(".")`. -/
def stripDots (s : Str) : Str := (s.dropWhile (· = '.')).rdropWhile (· = '.')

/-- `qualify`. -/
def qualify (address suffix : Str) : Str :=
  let suffix := stripDots (strip suffix)
  if !suffix.isEmpty && isBare address then address ++ '.' :: suffix else address

/-- A name is given its domain once. -/
theorem qualify_qualify (address suffix : Str) :
    qualify (qualify address suffix) suffix = qualify address suffix := by
  by_cases h : (!(stripDots (strip suffix)).isEmpty && isBare address) = true
  · have hfull : qualify address suffix = address ++ '.' :: stripDots (strip suffix) := if_pos h
    have hbare : isBare (address ++ '.' :: stripDots (strip suffix)) = false := by
      simp [isBare]
    rw [hfull, qualify, hbare, Bool.and_false]
    rfl
  · have hfull : qualify address suffix = address := if_neg h
    rw [hfull, hfull]

/-! ## What an IP is written as -/

theorem char_of_parseOctet {s : Str} {n : Nat} (h : parseOctet s = some n) :
    s ≠ [] ∧ s.all Char.isDigit = true := by
  simp only [parseOctet] at h
  split at h
  · next hcond => exact ⟨hcond.1, hcond.2.1⟩
  · cases h

/-- An IPv4 address is four numbers. -/
theorem splitOn_of_parseV4 {s : Str} {n : Nat} (h : parseV4 s = some n) :
    ∃ a b c d, s.splitOn '.' = [a, b, c, d] ∧
      ∀ part ∈ [a, b, c, d], part ≠ [] ∧ part.all Char.isDigit = true := by
  rw [parseV4] at h
  split at h
  · next a b c d hsplit =>
    simp only [Option.bind_eq_some_iff, Option.map_eq_some_iff] at h
    obtain ⟨_, ha, _, hb, _, hc, _, hd, -⟩ := h
    refine ⟨a, b, c, d, hsplit, fun part hpart => ?_⟩
    simp only [List.mem_cons, List.not_mem_nil, or_false] at hpart
    rcases hpart with rfl | rfl | rfl | rfl
    · exact char_of_parseOctet ha
    · exact char_of_parseOctet hb
    · exact char_of_parseOctet hc
    · exact char_of_parseOctet hd
  · cases h

theorem char_of_parseV4 {s : Str} {n : Nat} (h : parseV4 s = some n) {c : Char} (hc : c ∈ s) :
    c.isDigit = true ∨ c = '.' := by
  obtain ⟨p, q, r, t, hsplit, hdigits⟩ := splitOn_of_parseV4 h
  have hjoined : ['.'].intercalate (s.splitOn '.') = s := List.intercalate_splitOn '.'
  rw [← hjoined, hsplit] at hc
  rcases PyText.mem_intercalate hc with rfl | ⟨part, hpart, hc⟩
  · exact Or.inr rfl
  · exact Or.inl (List.all_eq_true.mp (hdigits part hpart).2 c hc)

/-- An IPv6 address has colons. -/
theorem colon_mem_of_parseV6 {s : Str} {n : Nat} (h : parseV6 s = some n) : ':' ∈ s := by
  by_contra hcolon
  have hsplit : s.splitOn ':' = [s] := by
    refine List.splitOnP_eq_singleton fun c hc => beq_eq_false_iff_ne.mpr ?_
    rintro rfl
    exact hcolon hc
  rw [parseV6, hsplit] at h
  cases h

theorem ofV6_of_parseV6 {text : Str} {n : Nat} (h : parseV6 text = some n) (scope : Option Scope) :
    ofV6 text scope = some (.v6 n (parseV6_lt h) scope) := by
  rw [ofV6]
  split
  · next m hm =>
    obtain rfl := Option.some.inj (hm.symm.trans h)
    rfl
  · next hnone => exact absurd (hnone.symm.trans h) (by simp)

theorem ipAddress_of_parseV4 {text : Str} {n : Nat} (h : parseV4 text = some n) :
    ipAddress text = some (.v4 n (parseV4_lt h)) := by
  rw [ipAddress]
  split
  · next m hm =>
    obtain rfl := Option.some.inj (hm.symm.trans h)
    rfl
  · next hnone => exact absurd (hnone.symm.trans h) (by simp)

theorem ipAddress_of_parseV4_none {text : Str} (h : parseV4 text = none) :
    ipAddress text = (splitScope text).bind fun p => ofV6 p.1 p.2 := by
  rw [ipAddress]
  split
  · next m hm => exact absurd (hm.symm.trans h) (by simp)
  · rfl

theorem splitScope_plain {text : Str} (h : '%' ∉ text) : splitScope text = some (text, none) := by
  have hdrop : text.dropWhile (· ≠ '%') = [] := by
    rw [List.dropWhile_eq_nil_iff]
    intro c hc
    simp only [ne_eq, decide_not, Bool.not_eq_true', decide_eq_false_iff_not]
    rintro rfl
    exact h hc
  rw [splitScope, hdrop]

theorem splitScope_append {text : Str} (h : '%' ∉ text) (scope : Scope) :
    splitScope (text ++ '%' :: scope.1) = some (text, some scope) := by
  have hall : ∀ c ∈ text, (decide (c ≠ '%')) = true := by
    intro c hc
    rw [decide_eq_true_eq]
    rintro rfl
    exact h hc
  have hdrop : (text ++ '%' :: scope.1).dropWhile (· ≠ '%') = '%' :: scope.1 := by
    rw [List.dropWhile_append_of_pos hall, List.dropWhile_cons_of_neg (by simp)]
  have htake : (text ++ '%' :: scope.1).takeWhile (· ≠ '%') = text := by
    rw [List.takeWhile_append_of_pos hall, List.takeWhile_cons_of_neg (by simp), List.append_nil]
  rw [splitScope, hdrop]
  simp only [htake]
  exact dif_pos scope.2

/-- **What an IP is written as reads as it.** -/
theorem ipAddress_str (ip : Ip) : ipAddress ip.str = some ip := by
  cases ip with
  | v4 n lt => exact ipAddress_of_parseV4 (parseV4_formatV4 lt)
  | v6 n lt scope =>
    have hpercent : '%' ∉ formatV6 n := notMem_formatV6 n (by decide) (by decide)
    cases scope with
    | none =>
      rw [Ip.str, ipAddress_of_parseV4_none (parseV4_formatV6 n), splitScope_plain hpercent]
      exact ofV6_of_parseV6 (parseV6_formatV6 lt) none
    | some scope =>
      have hv4 : parseV4 (formatV6 n ++ '%' :: scope.1) = none := by
        cases h : parseV4 (formatV6 n ++ '%' :: scope.1) with
        | none => rfl
        | some m =>
          have hmem : '%' ∈ formatV6 n ++ '%' :: scope.1 := by simp
          exact absurd (char_of_parseV4 h hmem) (by decide)
      rw [Ip.str, ipAddress_of_parseV4_none hv4, splitScope_append hpercent]
      exact ofV6_of_parseV6 (parseV6_formatV6 lt) (some scope)

/-! ## A name in lower case -/

/-- The lower case of a name's character other than `İ`. -/
def lowerOne (c : Char) : Char := if c = kelvin then 'k' else c.toLower

/-- A character of a name, the dots between its labels among them. -/
def isNameChar (c : Char) : Bool := isAlnum c || c == '-' || c == '.'

theorem lowerChar_of_ne {c : Char} (h : c ≠ dottedI) : lowerChar c = [lowerOne c] := by
  rw [lowerChar, if_neg h, lowerOne]
  split <;> rfl

theorem lower_eq_map {s : Str} (h : dottedI ∉ s) : lower s = s.map lowerOne := by
  induction s with
  | nil => rfl
  | cons c s ih =>
    rw [List.mem_cons, not_or] at h
    rw [lower, List.flatMap_cons, lowerChar_of_ne (Ne.symm h.1), List.map_cons,
      List.singleton_append]
    exact congrArg _ (ih h.2)

/-- Letters and digits are within ASCII. -/
theorem toNat_lt_of_isAlphanum {c : Char} (h : c.isAlphanum = true) : c.toNat < 128 := by
  have hcases : (c.isUpper || c.isLower || c.isDigit) = true := h
  rw [Bool.or_eq_true, Bool.or_eq_true] at hcases
  have hle : ∀ d : Char, c.val ≤ d.val → d.toNat < 128 → c.toNat < 128 := by
    intro d hd hlt
    exact Nat.lt_of_le_of_lt (UInt32.le_iff_toNat_le.mp hd) hlt
  rcases hcases with (hcase | hcase) | hcase
  · exact hle 'Z' ((PyText.Unicode.isUpper_iff c).mp hcase).2 (by decide)
  · have hlower : (decide (c.val ≥ 'a'.val) && decide (c.val ≤ 'z'.val)) = true := hcase
    exact hle 'z' (of_decide_eq_true (Bool.and_eq_true _ _ ▸ hlower).2) (by decide)
  · have hdigit : (decide (c.val ≥ '0'.val) && decide (c.val ≤ '9'.val)) = true := hcase
    exact hle '9' (of_decide_eq_true (Bool.and_eq_true _ _ ▸ hdigit).2) (by decide)

/-- What is the same of a character and its lower case. -/
structure Cased (c : Char) : Prop where
  isAlnum_eq : isAlnum (lowerOne c) = isAlnum c
  isDigit_eq : (lowerOne c).isDigit = c.isDigit
  hyphen_iff : lowerOne c = '-' ↔ c = '-'
  dot_iff : lowerOne c = '.' ↔ c = '.'
  lower_lower : lowerOne (lowerOne c) = lowerOne c
  ne_dottedI : lowerOne c ≠ dottedI
  digit_eq : c.isDigit = true → lowerOne c = c

instance (c : Char) : Decidable (Cased c) :=
  decidable_of_iff (isAlnum (lowerOne c) = isAlnum c ∧ (lowerOne c).isDigit = c.isDigit ∧
      (lowerOne c = '-' ↔ c = '-') ∧ (lowerOne c = '.' ↔ c = '.') ∧
      lowerOne (lowerOne c) = lowerOne c ∧ lowerOne c ≠ dottedI ∧
      (c.isDigit = true → lowerOne c = c))
    ⟨fun ⟨h1, h2, h3, h4, h5, h6, h7⟩ => ⟨h1, h2, h3, h4, h5, h6, h7⟩,
      fun ⟨h1, h2, h3, h4, h5, h6, h7⟩ => ⟨h1, h2, h3, h4, h5, h6, h7⟩⟩

theorem cased_ascii : ∀ n < 128, Cased (Char.ofNat n) := by decide +kernel

theorem cased {c : Char} (h : isNameChar c = true) (hne : c ≠ dottedI) : Cased c := by
  rw [isNameChar, isAlnum, Bool.or_eq_true, Bool.or_eq_true, Bool.or_eq_true, Bool.or_eq_true,
    Bool.or_eq_true, Bool.or_eq_true] at h
  simp only [beq_iff_eq] at h
  rcases h with (((((h | h) | h) | h) | h) | h) | h
  · have hascii := cased_ascii c.toNat (toNat_lt_of_isAlphanum h)
    rwa [Char.ofNat_toNat] at hascii
  · exact absurd h hne
  all_goals
    subst h
    decide

/-! ## A hostname's characters -/

/-- A text's labels are those of its lower case, in lower case. -/
theorem splitOn_map {s : Str} (h : ∀ c ∈ s, lowerOne c = '.' ↔ c = '.') :
    (s.map lowerOne).splitOn '.' = (s.splitOn '.').map (List.map lowerOne) := by
  induction s with
  | nil => rfl
  | cons c s ih =>
    have htail := ih fun d hd => h d (List.mem_cons_of_mem c hd)
    have hsame : (lowerOne c == '.') = (c == '.') := by
      rw [Bool.eq_iff_iff, beq_iff_eq, beq_iff_eq]
      exact h c List.mem_cons_self
    rw [List.map_cons, List.splitOn_cons_eq_if_modifyHead, List.splitOn_cons_eq_if_modifyHead,
      htail, hsame]
    split
    · rfl
    · cases hsplit : s.splitOn '.' with
      | nil => exact absurd hsplit (List.splitOn_ne_nil '.' s)
      | cons label rest => rfl

/-- What a hostname is made of. -/
theorem isHostname_iff {s : Str} : isHostname s = true ↔
    undotted s ≠ [] ∧ (undotted s).length ≤ MAX_NAME ∧
      (∀ label ∈ (undotted s).splitOn '.', isLabel label = true) ∧
      isNumber ((undotted s).splitOn '.') = false := by
  simp only [isHostname, Bool.and_eq_true, Bool.not_eq_true', decide_eq_true_eq,
    List.isEmpty_eq_false_iff, List.all_eq_true, and_assoc]

theorem undotted_or (s : Str) : s = undotted s ∨ s = undotted s ++ ['.'] := by
  rw [undotted]
  split
  · next hlast => exact Or.inr (List.dropLast_append_getLast? '.' hlast).symm
  · exact Or.inl rfl

theorem mem_of_mem_splitOn {s label : Str} (h : label ∈ s.splitOn '.') {c : Char}
    (hc : c ∈ label) : c ∈ s := by
  have hjoined : ['.'].intercalate (s.splitOn '.') = s := List.intercalate_splitOn '.'
  rw [← hjoined]
  generalize s.splitOn '.' = labels at h
  induction labels with
  | nil => exact absurd h List.not_mem_nil
  | cons first labels ih =>
    by_cases hlabels : labels = []
    · rw [hlabels, List.mem_singleton] at h
      rw [hlabels, List.intercalate_singleton, ← h]
      exact hc
    · rw [List.intercalate_cons_of_ne_nil hlabels, List.mem_append, List.mem_append]
      rcases List.mem_cons.mp h with rfl | h
      · exact Or.inl (Or.inl hc)
      · exact Or.inr (ih h)

theorem all_of_isLabel {label : Str} (h : isLabel label = true) :
    ∀ c ∈ label, isNameChar c = true := by
  rw [isLabel, Bool.and_eq_true] at h
  intro c hc
  rw [isNameChar, Bool.or_eq_true]
  exact Or.inl (List.all_eq_true.mp h.2 c hc)

/-- Every character of a hostname is one of a name. -/
theorem all_of_isHostname {s : Str} (h : isHostname s = true) :
    ∀ c ∈ s, isNameChar c = true := by
  have hlabels := (isHostname_iff.mp h).2.2.1
  have hundotted : ∀ c ∈ undotted s, isNameChar c = true := by
    intro c hc
    have hjoined : ['.'].intercalate ((undotted s).splitOn '.') = undotted s :=
      List.intercalate_splitOn '.'
    rw [← hjoined] at hc
    rcases PyText.mem_intercalate hc with rfl | ⟨label, hlabel, hc⟩
    · decide
    · exact all_of_isLabel (hlabels label hlabel) c hc
  intro c hc
  rcases undotted_or s with heq | heq
  · exact hundotted c (heq ▸ hc)
  · rw [heq, List.mem_append, List.mem_singleton] at hc
    rcases hc with hc | rfl
    · exact hundotted c hc
    · decide

theorem isLabel_map {label : Str} (h : isLabel label = true) (hne : dottedI ∉ label) :
    isLabel (label.map lowerOne) = true := by
  have hcased : ∀ c ∈ label, Cased c := fun c hc =>
    cased (all_of_isLabel h c hc) fun heq => hne (heq ▸ hc)
  rw [isLabel] at h ⊢
  simp only [Bool.and_eq_true, decide_eq_true_eq, List.head?_map, List.getLast?_map,
    Option.any_map, Function.comp_def, Option.any_eq_true, List.length_map, List.all_map,
    List.all_eq_true] at h ⊢
  obtain ⟨⟨⟨⟨first, hfirst, hfirstOk⟩, last, hlast, hlastOk⟩, hlength⟩, hall⟩ := h
  refine ⟨⟨⟨⟨first, hfirst, ?_⟩, last, hlast, ?_⟩, hlength⟩, ?_⟩
  · rw [(hcased first (List.mem_of_head? hfirst)).isAlnum_eq]
    exact hfirstOk
  · rw [(hcased last (List.mem_of_getLast? hlast)).isAlnum_eq]
    exact hlastOk
  · intro c hc
    have hc' := hall c hc
    rw [Bool.or_eq_true, beq_iff_eq] at hc' ⊢
    rw [(hcased c hc).isAlnum_eq, (hcased c hc).hyphen_iff]
    exact hc'

theorem isNumber_map {labels : List Str} (h : ∀ label ∈ labels, ∀ c ∈ label, Cased c) :
    isNumber (labels.map (List.map lowerOne)) = isNumber labels := by
  rw [isNumber, isNumber, List.getLast?_map, Option.any_map]
  cases hlast : labels.getLast? with
  | none => rfl
  | some label =>
    have hcased := h label (List.mem_of_getLast? hlast)
    have hall : (label.map lowerOne).all Char.isDigit = label.all Char.isDigit := by
      rw [List.all_map, Bool.eq_iff_iff, List.all_eq_true, List.all_eq_true]
      refine forall₂_congr fun c hc => ?_
      rw [Function.comp_apply, (hcased c hc).isDigit_eq]
    show (!(label.map lowerOne).isEmpty && (label.map lowerOne).all Char.isDigit) = _
    rw [hall, List.isEmpty_map]
    rfl

theorem undotted_map {s : Str} (h : ∀ c ∈ s, Cased c) :
    undotted (s.map lowerOne) = (undotted s).map lowerOne := by
  rw [undotted, undotted, List.getLast?_map]
  cases hlast : s.getLast? with
  | none => rfl
  | some c =>
    have hdot := (h c (List.mem_of_getLast? hlast)).dot_iff
    rw [Option.map_some]
    by_cases hc : c = '.'
    · rw [if_pos (congrArg some (hdot.mpr hc)), if_pos (congrArg some hc), List.map_dropLast]
    · rw [if_neg fun heq => hc (hdot.mp (Option.some.inj heq)),
        if_neg fun heq => hc (Option.some.inj heq)]

theorem mem_of_mem_undotted {s : Str} {c : Char} (h : c ∈ undotted s) : c ∈ s := by
  rw [undotted] at h
  split at h
  · exact List.mem_of_mem_dropLast h
  · exact h

/-- **The lower case of a name without `İ` is a name.** -/
theorem isHostname_lower {s : Str} (h : isHostname s = true) (hne : dottedI ∉ s) :
    isHostname (lower s) = true := by
  have hcased : ∀ c ∈ s, Cased c := fun c hc =>
    cased (all_of_isHostname h c hc) fun heq => hne (heq ▸ hc)
  have hlabelled : ∀ label ∈ (undotted s).splitOn '.', ∀ c ∈ label, c ∈ s :=
    fun label hlabel c hc => mem_of_mem_undotted (mem_of_mem_splitOn hlabel hc)
  obtain ⟨hnonempty, hlength, hlabels, hnumber⟩ := isHostname_iff.mp h
  rw [lower_eq_map hne, isHostname_iff, undotted_map hcased, List.length_map,
    splitOn_map fun c hc => (hcased c (mem_of_mem_undotted hc)).dot_iff]
  refine ⟨by simpa using hnonempty, hlength, fun label hlabel => ?_, ?_⟩
  · obtain ⟨label, hmem, rfl⟩ := List.mem_map.mp hlabel
    exact isLabel_map (hlabels label hmem) fun hdotted =>
      hne (hlabelled label hmem dottedI hdotted)
  · rw [isNumber_map fun label hlabel c hc => hcased c (hlabelled label hlabel c hc)]
    exact hnumber

/-! ## A name is no IP -/

theorem getLast?_of_isDigit {s : Str} (h : isNumber (s.splitOn '.') = true) :
    ∀ c ∈ s.getLast?, c.isDigit = true := by
  rw [isNumber, Option.any_eq_true] at h
  obtain ⟨label, hlast, hlabel⟩ := h
  rw [Bool.and_eq_true, Bool.not_eq_true', List.isEmpty_eq_false_iff] at hlabel
  have hjoined : ['.'].intercalate (s.splitOn '.') = s := List.intercalate_splitOn '.'
  have hends : label <:+ s := by
    obtain ⟨init, hinit⟩ := List.getLast?_eq_some_iff.mp hlast
    rw [← hjoined, hinit]
    clear hlast hjoined hinit
    induction init with
    | nil => rw [List.nil_append, List.intercalate_singleton]
    | cons first init ih =>
      rw [List.cons_append, List.intercalate_cons_of_ne_nil (by simp)]
      exact ih.trans (List.suffix_append _ _)
  obtain ⟨start, rfl⟩ := hends
  intro c hc
  rw [List.getLast?_append_of_ne_nil start hlabel.1] at hc
  exact List.all_eq_true.mp hlabel.2 c (List.mem_of_getLast? hc)

/-- An IPv4 address ends with a label of digits. -/
theorem isNumber_of_parseV4 {s : Str} {n : Nat} (h : parseV4 s = some n) :
    isNumber (s.splitOn '.') = true := by
  obtain ⟨a, b, c, d, hsplit, hparts⟩ := splitOn_of_parseV4 h
  obtain ⟨hne, hdigits⟩ := hparts d (by simp)
  rw [hsplit, isNumber, Option.any_eq_true]
  refine ⟨d, rfl, ?_⟩
  rw [Bool.and_eq_true, Bool.not_eq_true', List.isEmpty_eq_false_iff]
  exact ⟨hne, hdigits⟩

theorem parseV4_of_isHostname {s : Str} (h : isHostname s = true) : parseV4 s = none := by
  cases hv4 : parseV4 s with
  | none => rfl
  | some n =>
    have hnumber := isNumber_of_parseV4 hv4
    have hundotted : undotted s = s := by
      rw [undotted, if_neg]
      intro hdot
      exact absurd (getLast?_of_isDigit hnumber '.' hdot) (by decide)
    have hname := (isHostname_iff.mp h).2.2.2
    rw [hundotted, hnumber] at hname
    cases hname

theorem colon_mem_of_ipAddress {s : Str} (hv4 : parseV4 s = none) {ip : Ip}
    (h : ipAddress s = some ip) : ':' ∈ s := by
  rw [ipAddress_of_parseV4_none hv4, Option.bind_eq_some_iff] at h
  obtain ⟨⟨text, scope⟩, hsplit, hv6⟩ := h
  have hcolon : ':' ∈ text := by
    cases hparse : parseV6 text with
    | some n => exact colon_mem_of_parseV6 hparse
    | none =>
      rw [ofV6] at hv6
      split at hv6
      · next n hn => exact absurd (hn.symm.trans hparse) (by simp)
      · cases hv6
  rw [splitScope] at hsplit
  split at hsplit
  · cases hsplit
    exact hcolon
  · split at hsplit
    · cases hsplit
      exact (List.takeWhile_prefix _).subset hcolon
    · cases hsplit

/-- The dot that the lower case of `İ` leaves above its `i`. -/
def dotAbove : Char := Char.ofNat 0x307

theorem mem_lower {s : Str} {c : Char} (h : c ∈ lower s) :
    c = dotAbove ∧ dottedI ∈ s ∨ c = 'i' ∨ ∃ d ∈ s, d ≠ dottedI ∧ c = lowerOne d := by
  obtain ⟨d, hd, hc⟩ := List.mem_flatMap.mp h
  by_cases heq : d = dottedI
  · rw [lowerChar, if_pos heq, List.mem_cons, List.mem_singleton] at hc
    rcases hc with rfl | rfl
    · exact Or.inr (Or.inl rfl)
    · exact Or.inl ⟨rfl, heq ▸ hd⟩
  · rw [lowerChar_of_ne heq, List.mem_singleton] at hc
    exact Or.inr (Or.inr ⟨d, hd, heq, hc⟩)

theorem dotAbove_mem_lower {s : Str} (h : dottedI ∈ s) : dotAbove ∈ lower s :=
  List.mem_flatMap.mpr ⟨dottedI, h, by rw [lowerChar, if_pos rfl]; simp [dotAbove]⟩

theorem isNameChar_lowerOne {c : Char} (h : Cased c) :
    isNameChar (lowerOne c) = isNameChar c := by
  rw [Bool.eq_iff_iff, isNameChar, isNameChar, Bool.or_eq_true, Bool.or_eq_true,
    Bool.or_eq_true, Bool.or_eq_true, beq_iff_eq, beq_iff_eq, beq_iff_eq, beq_iff_eq,
    h.isAlnum_eq, h.hyphen_iff, h.dot_iff]

theorem all_lower {s : Str} (h : isHostname s = true) :
    ∀ c ∈ lower s, c = dotAbove ∨ isNameChar c = true := by
  intro c hc
  rcases mem_lower hc with ⟨hdot, -⟩ | rfl | ⟨d, hd, hne, rfl⟩
  · exact Or.inl hdot
  · exact Or.inr (by decide)
  · have hname := all_of_isHostname h d hd
    exact Or.inr (isNameChar_lowerOne (cased hname hne) ▸ hname)

theorem lower_lower {s : Str} (h : isHostname s = true) (hne : dottedI ∉ s) :
    lower (lower s) = lower s := by
  have hcased : ∀ c ∈ s, Cased c := fun c hc =>
    cased (all_of_isHostname h c hc) fun heq => hne (heq ▸ hc)
  have hplain : dottedI ∉ s.map lowerOne := by
    intro hmem
    obtain ⟨c, hc, hdotted⟩ := List.mem_map.mp hmem
    exact (hcased c hc).ne_dottedI hdotted
  rw [lower_eq_map hne, lower_eq_map hplain, List.map_map]
  exact List.map_congr_left fun c hc => (hcased c hc).lower_lower

/-- **A name's lower case is no IP.** -/
theorem ipAddress_lower {s : Str} (h : isHostname s = true) : ipAddress (lower s) = none := by
  have hv4 : parseV4 (lower s) = none := by
    by_cases hdotted : dottedI ∈ s
    · cases hparse : parseV4 (lower s) with
      | none => rfl
      | some n => exact absurd (char_of_parseV4 hparse (dotAbove_mem_lower hdotted)) (by decide)
    · exact parseV4_of_isHostname (isHostname_lower h hdotted)
  cases hip : ipAddress (lower s) with
  | none => rfl
  | some ip =>
    rcases all_lower h ':' (colon_mem_of_ipAddress hv4 hip) with hcolon | hcolon
    · exact absurd hcolon (by decide)
    · exact absurd hcolon (by decide)

/-! ## White space around an address -/

theorem strip_eq_self {s : Str} (hhead : ∀ c ∈ s.head?, isSpace c = false)
    (hlast : ∀ c ∈ s.getLast?, isSpace c = false) : strip s = s := by
  have hstart : PyText.lstrip s = s := by
    cases s with
    | nil => rfl
    | cons c s =>
      rw [PyText.lstrip, List.dropWhile_cons_of_neg (by rw [hhead c rfl]; simp)]
  rw [strip, hstart, List.rdropWhile_eq_self_iff]
  intro hne
  rw [hlast _ (List.getLast?_eq_some_getLast hne)]
  exact Bool.false_ne_true

theorem getLast?_strip (s : Str) : ∀ c ∈ (strip s).getLast?, isSpace c = false := by
  intro c hc
  have hne : strip s ≠ [] := by
    intro hnil
    rw [hnil] at hc
    cases hc
  rw [List.getLast?_eq_some_getLast hne, Option.mem_some_iff] at hc
  rw [← hc, ← Bool.not_eq_true]
  exact List.rdropWhile_last_not _ _ hne

theorem isSpace_ascii : ∀ n < 128,
    isHexDigit (Char.ofNat n) = true ∨ (Char.ofNat n).isAlphanum = true →
      isSpace (Char.ofNat n) = false := by
  decide +kernel

theorem isSpace_of_isNameChar {c : Char} (h : isNameChar c = true) : isSpace c = false := by
  simp only [isNameChar, isAlnum, Bool.or_eq_true, beq_iff_eq] at h
  rcases h with (((((h | h) | h) | h) | h) | h) | h
  · have hascii := isSpace_ascii c.toNat (toNat_lt_of_isAlphanum h)
    rw [Char.ofNat_toNat] at hascii
    exact hascii (Or.inr h)
  all_goals
    subst h
    decide

theorem isSpace_of_mem_formatV6 {n : Nat} {c : Char} (h : c ∈ formatV6 n) :
    isSpace c = false := by
  by_contra hspace
  rw [Bool.not_eq_false] at hspace
  have hhex : isHexDigit c = false := by
    by_contra hhex
    rw [Bool.not_eq_false] at hhex
    have hlt : c.toNat < 128 := by
      rw [isHexDigit, Bool.or_eq_true, Bool.or_eq_true, Bool.and_eq_true, Bool.and_eq_true,
        decide_eq_true_iff, decide_eq_true_iff, decide_eq_true_iff, decide_eq_true_iff] at hhex
      rcases hhex with (hhex | hhex) | hhex
      · exact toNat_lt_of_isAlphanum (by rw [Char.isAlphanum, hhex, Bool.or_true])
      · exact Nat.lt_of_le_of_lt (UInt32.le_iff_toNat_le.mp hhex.2) (by decide)
      · exact Nat.lt_of_le_of_lt (UInt32.le_iff_toNat_le.mp hhex.2) (by decide)
    have hascii := isSpace_ascii c.toNat hlt
    rw [Char.ofNat_toNat, hspace] at hascii
    exact absurd (hascii (Or.inl hhex)) (by simp)
  refine notMem_formatV6 n hhex ?_ h
  rintro rfl
  exact absurd hspace (by decide)

/-- A zone ends the text it was read from. -/
theorem scope_of_ipAddress {s : Str} {n : Nat} {lt : n < 2 ^ 128} {scope : Scope}
    (h : ipAddress s = some (.v6 n lt (some scope))) : ∃ text, s = text ++ '%' :: scope.1 := by
  cases hv4 : parseV4 s with
  | some m =>
    rw [ipAddress_of_parseV4 hv4] at h
    cases h
  | none =>
    rw [ipAddress_of_parseV4_none hv4, Option.bind_eq_some_iff] at h
    obtain ⟨⟨text, zone⟩, hsplit, hv6⟩ := h
    have hzone : zone = some scope := by
      rw [ofV6] at hv6
      split at hv6
      · cases hv6
        rfl
      · cases hv6
    subst hzone
    rw [splitScope] at hsplit
    split at hsplit
    · cases hsplit
    · next c rest hdrop =>
      split at hsplit
      · cases hsplit
        have hc : c = '%' := by
          have hhead := List.head?_dropWhile_not (· ≠ '%') s
          rw [hdrop, List.head?_cons] at hhead
          simpa using hhead
        refine ⟨s.takeWhile (· ≠ '%'), ?_⟩
        rw [hc] at hdrop
        exact (hdrop ▸ List.takeWhile_append_dropWhile).symm
      · cases hsplit

/-- What an address's IP is written as has no white space around it. -/
theorem strip_str {a : Str} {ip : Ip} (h : ipAddress (strip a) = some ip) :
    strip ip.str = ip.str := by
  cases ip with
  | v4 n lt =>
    refine PyText.strip_of_plain fun c hc => ?_
    rcases char_of_parseV4 (parseV4_formatV4 lt) hc with hdigit | rfl
    · exact PyText.isSpace_of_isDigit hdigit
    · decide
  | v6 n lt scope =>
    cases scope with
    | none => exact PyText.strip_of_plain fun c hc => isSpace_of_mem_formatV6 hc
    | some scope =>
      -- the zone ends the address as it was given
      obtain ⟨text, htext⟩ := scope_of_ipAddress h
      refine strip_eq_self ?_ ?_
      · intro c hc
        have hmem : c ∈ formatV6 n := by
          cases hformat : formatV6 n with
          | nil =>
            have hcolon := colon_mem_of_parseV6 (parseV6_formatV6 lt)
            rw [hformat] at hcolon
            exact absurd hcolon List.not_mem_nil
          | cons d rest =>
            rw [Ip.str, hformat, List.cons_append, List.head?_cons, Option.mem_some_iff] at hc
            exact hc ▸ List.mem_cons_self
        exact isSpace_of_mem_formatV6 hmem
      · intro c hc
        refine getLast?_strip a c ?_
        rw [htext, List.getLast?_append_of_ne_nil _ (by simp)]
        rw [Ip.str, List.getLast?_append_of_ne_nil _ (by simp)] at hc
        exact hc

/-! ## The standard spelling -/

/-- What an address names: an IP, or a name, its case ignored. -/
inductive Named where
  | host (ip : Ip)
  | name (label : Str)

/-- What an address names, `strip`ped; none for no address. -/
def named (address : Str) : Option Named :=
  match ipAddress (strip address) with
  | some ip => some (.host ip)
  | none => if isHostname (strip address) then some (.name (lower (strip address))) else none

/-- The spelling of what an address names. -/
def Named.spelled : Named → Str
  | host ip => ip.str
  | name label => label

theorem normalizeAddress_eq (a : Str) : normalizeAddress a = (named a).map Named.spelled := by
  rw [normalizeAddress, named]
  split
  · rfl
  · split <;> rfl

/-- **Two addresses have one spelling if they name the same**: the same IP, or the same name but
for the case. -/
theorem normalize_eq_iff {a b : Str} {s t : Str} (ha : normalizeAddress a = some s)
    (hb : normalizeAddress b = some t) : s = t ↔ named a = named b := by
  rw [normalizeAddress_eq, Option.map_eq_some_iff] at ha hb
  obtain ⟨x, hx, rfl⟩ := ha
  obtain ⟨y, hy, rfl⟩ := hb
  rw [hx, hy, Option.some.injEq]
  have hname : ∀ {c : Str} {l : Str}, named c = some (.name l) → ipAddress l = none := by
    intro c l hc
    rw [named] at hc
    split at hc
    · cases hc
    · split at hc
      · next hhost =>
        cases hc
        exact ipAddress_lower hhost
      · cases hc
  constructor
  · intro heq
    cases x with
    | host i =>
      cases y with
      | host j =>
        have hsame : some i = some j := by
          rw [← ipAddress_str i, ← ipAddress_str j]
          exact congrArg ipAddress heq
        rw [Option.some.inj hsame]
      | name l =>
        have hread := ipAddress_str i
        rw [show i.str = l from heq, hname hy] at hread
        cases hread
    | name k =>
      cases y with
      | host j =>
        have hread := ipAddress_str j
        rw [← show k = j.str from heq, hname hx] at hread
        cases hread
      | name l => rw [show k = l from heq]
  · rintro rfl
    rfl

theorem normalize_eq_iff_loopback :
    "::1".toList = "::1".toList ↔ named " 0:0::1".toList = named "0::0:1 ".toList :=
  normalize_eq_iff (by decide +kernel) (by decide +kernel)

/-- **The standard spelling is an address's own**, but for a name with an `İ`: it is no
address. -/
theorem normalize_normal {a s : Str} (h : normalizeAddress a = some s) :
    normalizeAddress s = some s ↔ ¬(isHostname (strip a) = true ∧ dottedI ∈ strip a) := by
  rw [normalizeAddress_eq, Option.map_eq_some_iff] at h
  obtain ⟨x, hx, rfl⟩ := h
  rw [named] at hx
  split at hx
  · next ip hip =>
    cases hx
    refine iff_of_true ?_ ?_
    · show normalizeAddress ip.str = some ip.str
      rw [normalizeAddress, strip_str hip, ipAddress_str]
    · rintro ⟨hname, -⟩
      have hnone := parseV4_of_isHostname hname
      have hcolon := all_of_isHostname hname ':' (colon_mem_of_ipAddress hnone hip)
      exact absurd hcolon (by decide)
  · next hip =>
    split at hx
    · next hname =>
      cases hx
      have hplain : strip (lower (strip a)) = lower (strip a) := by
        refine PyText.strip_of_plain fun c hc => ?_
        rcases all_lower hname c hc with rfl | hchar
        · decide
        · exact isSpace_of_isNameChar hchar
      have hsame : normalizeAddress (lower (strip a)) =
          if isHostname (lower (strip a)) then some (lower (lower (strip a))) else none := by
        rw [normalizeAddress, hplain, ipAddress_lower hname]
      show normalizeAddress (lower (strip a)) = some (lower (strip a)) ↔ _
      by_cases hdotted : dottedI ∈ strip a
      · have hother : isHostname (lower (strip a)) = false := by
          by_contra hhost
          rw [Bool.not_eq_false] at hhost
          have hchar := all_of_isHostname hhost dotAbove (dotAbove_mem_lower hdotted)
          exact absurd hchar (by decide)
        rw [hsame, hother]
        exact iff_of_false (by simp) (not_not.mpr ⟨hname, hdotted⟩)
      · rw [hsame, isHostname_lower hname hdotted, lower_lower hname hdotted]
        exact iff_of_true rfl fun hboth => hdotted hboth.2
    · cases hx

theorem normalize_normal_router :
    normalizeAddress "router.example".toList = some "router.example".toList ↔
      ¬(isHostname (strip " Router.Example".toList) = true ∧
        dottedI ∈ strip " Router.Example".toList) :=
  normalize_normal (by decide +kernel)

end Address
end NetRollout
