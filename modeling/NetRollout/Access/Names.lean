import NetRollout.Library.Dict
import NetRollout.Library.IpAddress
import NetRollout.Library.Transition
import NetRollout.Settings.Registry

/-!
# The names of NetRollout's own certificate

`selfsigned`, and `rename_to` and `drop_expired` of `SelfSigned` in `src/access/certs.py`: a
certificate reissued for a new hostname keeps its addresses, and each former hostname for
`NAME_TRANSITION_DAYS`, whose end the deadline file has.  Times are in microseconds.  Of
`ipaddress` one thing is used: the text of an address reads as that address.

An address that was the hostname stays as an address.  The key, the validity and the marker of
a certificate are left out.

## What goes wrong, and when

`rename_to` forgets the deadlines that have passed, and then gives a new one to each name still
on the certificate (`not_keepsNames`).  `drop_expired` takes the common name for the hostname,
of which it has the first 64 characters (`not_keepsNames_long`).  In the runs where neither
happens, the names are kept as long as they should be (`keepsNames`).
-/

namespace NetRollout
namespace Access
namespace Names

open PyText (Str Unicode)

def NAME_TRANSITION_DAYS : Int := 7

/-- `NAME_TRANSITION_DAYS * 86400`. -/
def TRANSITION : Int := NAME_TRANSITION_DAYS * 86400 * 1000000

/-- `_ip`, and `str` of an address. -/
structure Addresses (IP : Type) where
  ip : Str → Option IP
  str : IP → Str
  ip_str : ∀ a, ip (str a) = some a

/-- An entry of the subject alternative names. -/
inductive General (IP : Type) where
  | dns (name : Str)
  | address (ip : IP)
  deriving DecidableEq

structure Certificate (IP : Type) where
  common_name : Str
  names : List (General IP)
  deriving DecidableEq

/-- The certificate, and the deadline file: none is an empty one. -/
structure Store (IP : Type) where
  certificate : Certificate IP
  old_names : List (Str × Int)
  deriving DecidableEq

section Program

variable {IP : Type} [DecidableEq IP] [Unicode] (A : Addresses IP)

def general (value : Str) : General IP := (A.ip value).elim (.dns value) .address

/-- `hostname.strip().rstrip(".").lower()`. -/
def normalized (hostname : Str) : Str :=
  Unicode.lower ((PyText.strip hostname).rdropWhile fun c => c = '.')

/-- A name that was not seen before. -/
def seen (names : List (General IP)) (g : General IP) : List (General IP) :=
  if g ∈ names then names else names ++ [g]

/-- `selfsigned`; it raises without a hostname. -/
def selfsigned (hostname : Str) (ips also_names : List Str) : Option (Certificate IP) :=
  let host := normalized hostname
  if host = [] then none
  else some ⟨host.take 64, ((host :: (also_names ++ ips)).map (general A)).foldl seen []⟩

/-- `names_in`. -/
def Certificate.names_in (c : Certificate IP) : List Str × List IP :=
  (c.names.filterMap fun | .dns name => some name | .address _ => none,
    c.names.filterMap fun | .dns _ => none | .address ip => some ip)

namespace Store

variable (s : Store IP)

def rename_to (new : Str) (now : Int) : Option (Store IP) :=
  let (dns, ips) := s.certificate.names_in
  let old := s.old_names.filter fun e => now < e.2
  let old := dns.foldl (fun d name => Dict.setdefault d (name, now + TRANSITION)) old
  let old := Dict.pop old new
  (selfsigned A new (ips.map A.str) (Dict.sorted old)).map fun certificate =>
    ⟨certificate, old⟩

/-- With the names dropped. -/
def drop_expired (now : Int) : Option (Store IP × List Str) :=
  let stored := s.old_names
  if stored = [] then some (s, [])
  else
    let keep := stored.filter fun e => now < e.2
    let (dns, ips) := s.certificate.names_in
    let host := s.certificate.common_name
    let others := dns.filter fun n => n ≠ host
    let expired := others.filter fun n => (Dict.get stored n).isSome && (Dict.get keep n).isNone
    if expired = [] then some ({ s with old_names := keep }, expired)
    else
      (selfsigned A host (ips.map A.str) (others.filter fun n => n ∉ expired)).map
        fun certificate => (⟨certificate, keep⟩, expired)

/-- The deadlines after a rename. -/
def renamedNames (new : Str) (now : Int) : List (Str × Int) :=
  Dict.pop (s.certificate.names_in.1.foldl
    (fun d name => Dict.setdefault d (name, now + TRANSITION))
      (s.old_names.filter fun e => now < e.2)) new

/-- The deadlines with time left. -/
def keptNames (now : Int) : List (Str × Int) := s.old_names.filter fun e => now < e.2

/-- The certificate's names besides the hostname. -/
def others (host : Str) : List Str := s.certificate.names_in.1.filter fun n => n ≠ host

/-- Those whose time is up. -/
def expired (host : Str) (now : Int) : List Str :=
  (s.others host).filter fun n =>
    (Dict.get s.old_names n).isSome && (Dict.get (s.keptNames now) n).isNone

end Store

/-! ## Runs -/

/-- A hostname that System Settings accept. -/
structure Hostname where
  text : Str
  ne_nil : text ≠ []
  accepted : (Settings.setting .publicHostname).kind.valid (.text text) = true

structure State (IP : Type) where
  store : Store IP
  host : Hostname
  /-- When each former hostname last stopped being it; an address is none. -/
  former : Str → Option Int
  clock : Int

inductive Event where
  | rename (new : Hostname) (now : Int)
  | drop (now : Int)

def Event.time : Event → Int
  | .rename _ now => now
  | .drop now => now

namespace State

variable (s : State IP)

def names : List (General IP) := s.store.certificate.names

/-- The former hostnames, once `new` is the hostname. -/
def left (new : Hostname) (now : Int) (n : Str) : Option Int :=
  if n = new.text then none
  else if n = s.host.text ∧ A.ip n = none then some now
  else s.former n

def step (e : Event) : Option (State IP) :=
  if s.clock ≤ e.time then
    match e with
    | .rename new now => (s.store.rename_to A new.text now).map fun store =>
        ⟨store, new, s.left A new now, now⟩
    | .drop now => (s.store.drop_expired A now).map fun dropped =>
        { s with store := dropped.1, clock := now }
  else none

/-- After a rename, with the certificate made for it. -/
def renamed (c : Certificate IP) (new : Hostname) (now : Int) : State IP :=
  ⟨⟨c, s.store.renamedNames new.text now⟩, new, s.left A new now, now⟩

/-- After the upkeep, with the certificate made for it. -/
def cleared (c : Certificate IP) (now : Int) : State IP :=
  ⟨⟨c, s.store.keptNames now⟩, s.host, s.former, now⟩

/-- Every former name still on the certificate has time left, or is the hostname again. -/
def onTime : Event → Bool
  | .rename new now => s.store.old_names.all fun e => now < e.2 || e.1 = new.text
  | .drop _ => true

/-- The common name is the whole hostname, or nothing is to be dropped. -/
def whole : Event → Bool
  | .rename _ _ => true
  | .drop now => s.host.text.length ≤ 64 || s.store.old_names.all fun e => now < e.2

def safe (e : Event) : Bool := s.onTime e && s.whole e

end State

/-- The certificate of a hostname and its addresses, renamed and cleared of former names. -/
def reissues : System (State IP) Event where
  Init s := ∃ (ips : List IP) (c : Certificate IP),
    selfsigned A s.host.text (ips.map A.str) [] = some c ∧ s.store = ⟨c, []⟩ ∧
      s.former = fun _ => none
  step := State.step A

/-- The file has each former name's own deadline. -/
def Dated (s : State IP) : Prop :=
  ∀ n u, Dict.get s.store.old_names n = some u → ∃ t, s.former n = some t ∧ u = t + TRANSITION

/-- After a rename: the new name, the addresses there were, and the former names that have time
left. -/
structure Renamed (s : State IP) (new : Hostname) (now : Int) (s' : State IP) : Prop where
  named_iff : ∀ g, g ∈ s'.names ↔ g = general A new.text ∨
    (∃ a, g = .address a ∧ g ∈ s.names) ∨
    ∃ n t, g = .dns n ∧ s'.former n = some t ∧ now < t + TRANSITION
  dated : Dated s'

/-- After the upkeep: the names there were, without the former names that have no time left. -/
structure Cleared (s : State IP) (now : Int) (s' : State IP) : Prop where
  host_named : general A s.host.text ∈ s'.names
  named_iff : ∀ g, g ∈ s'.names ↔
    g ∈ s.names ∧ ∀ n t, g = .dns n → s.former n = some t → now < t + TRANSITION
  dated : Dated s'

def Kept (s : State IP) (s' : State IP) : Event → Prop
  | .rename new now => Renamed A s new now s'
  | .drop now => Cleared A s now s'

/-- Every reissue in a run keeps the names. -/
def KeepsNames (allowed : State IP → Event → Bool) : Prop :=
  ∀ s, (reissues A).Reachable allowed s → ∀ e, allowed s e = true → s.clock ≤ e.time →
    ∃ s', s.step A e = some s' ∧ Kept A s s' e

/-! ## A hostname is written as it is -/

namespace Hostname

variable (h : Hostname)

theorem valid_text : PyText.strip h.text = h.text ∧ Unicode.lower h.text = h.text ∧
    h.text.length ≤ 253 ∧ ∀ label ∈ h.text.splitOn '.', Settings.isLabel label = true := by
  have haccepted := h.accepted
  have hempty : h.text.isEmpty = false := by
    rw [List.isEmpty_eq_false_iff]
    exact h.ne_nil
  simp only [Settings.setting, Settings.Kind.valid, Settings.domain, hempty, Bool.not_true,
    Bool.false_or, Bool.and_eq_true, decide_eq_true_eq, Option.all_some, Bool.not_false,
    Bool.and_false, List.all_eq_true] at haccepted
  obtain ⟨⟨⟨⟨hstrip, hlower⟩, -⟩, hlength⟩, hlabels⟩ := haccepted
  exact ⟨hstrip, hlower, hlength, hlabels⟩

/-- A last dot would have an empty label after it. -/
theorem getLast_ne_dot (a : Str) : h.text ≠ a ++ ['.'] := by
  intro heq
  have hlabel := h.valid_text.2.2.2 []
  rw [heq, List.splitOn_append_cons_self, List.splitOn_nil] at hlabel
  exact absurd (hlabel (List.mem_append_right _ (List.mem_singleton.mpr rfl))) (by decide)

theorem normalized_text : normalized h.text = h.text := by
  obtain ⟨hstrip, hlower, -, -⟩ := h.valid_text
  have hdot : h.text.rdropWhile (fun c => c = '.') = h.text := by
    rw [List.rdropWhile_eq_self_iff]
    intro hne hlast
    refine h.getLast_ne_dot h.text.dropLast ?_
    rw [← of_decide_eq_true hlast]
    exact (List.dropLast_append_getLast hne).symm
  rw [normalized, hstrip, hdot, hlower]

end Hostname

/-! ## The names of a certificate -/

section Names

variable {A} {names : List (General IP)} {c : Certificate IP} {g : General IP}

omit [Unicode] in
theorem mem_seen {values : List (General IP)} :
    g ∈ values.foldl seen names ↔ g ∈ names ∨ g ∈ values := by
  induction values generalizing names with
  | nil => simp
  | cons v values ih =>
    have hseen : g ∈ seen names v ↔ g ∈ names ∨ g = v := by
      rw [seen]
      split
      · next hv => exact ⟨.inl, fun h => h.elim id fun hg => hg ▸ hv⟩
      · rw [List.mem_append, List.mem_singleton]
    rw [List.foldl_cons, ih, hseen, List.mem_cons, or_assoc]

omit [DecidableEq IP] [Unicode] in
theorem general_str (a : IP) : general A (A.str a) = .address a := by
  rw [general, A.ip_str]
  rfl

omit [DecidableEq IP] [Unicode] in
theorem general_of_none {n : Str} (h : A.ip n = none) : general A n = .dns n := by
  rw [general, h]
  rfl

omit [DecidableEq IP] [Unicode] in
theorem general_eq_dns {n m : Str} : general A n = .dns m ↔ n = m ∧ A.ip n = none := by
  cases hip : A.ip n with
  | none => simp [general, hip]
  | some a => simp [general, hip]

omit [DecidableEq IP] [Unicode] in
theorem mem_dns {n : Str} : n ∈ c.names_in.1 ↔ .dns n ∈ c.names := by
  simp only [Certificate.names_in, List.mem_filterMap]
  constructor
  · rintro ⟨g, hg, hn⟩
    cases g with
    | dns name => exact Option.some.inj hn ▸ hg
    | address ip => cases hn
  · intro h
    exact ⟨.dns n, h, rfl⟩

omit [DecidableEq IP] [Unicode] in
theorem mem_ips {a : IP} : a ∈ c.names_in.2 ↔ .address a ∈ c.names := by
  simp only [Certificate.names_in, List.mem_filterMap]
  constructor
  · rintro ⟨g, hg, ha⟩
    cases g with
    | dns name => cases ha
    | address ip => exact Option.some.inj ha ▸ hg
  · intro h
    exact ⟨.address a, h, rfl⟩

/-- The certificate of an accepted hostname. -/
theorem exists_selfsigned (host : Hostname) (ips : List IP) (also_names : List Str) :
    ∃ c, selfsigned A host.text (ips.map A.str) also_names = some c ∧
      c.common_name = host.text.take 64 ∧ ∀ g, g ∈ c.names ↔
        g = general A host.text ∨ (∃ n ∈ also_names, general A n = g) ∨
          ∃ a ∈ ips, g = .address a := by
  refine ⟨_, by rw [selfsigned, host.normalized_text, if_neg host.ne_nil], rfl, fun g => ?_⟩
  have hips : (∃ n ∈ ips.map A.str, general A n = g) ↔ ∃ a ∈ ips, g = .address a := by
    constructor
    · rintro ⟨n, hn, rfl⟩
      obtain ⟨a, ha, rfl⟩ := List.mem_map.mp hn
      exact ⟨a, ha, general_str a⟩
    · rintro ⟨a, ha, rfl⟩
      exact ⟨A.str a, List.mem_map_of_mem ha, general_str a⟩
  rw [mem_seen, List.map_cons, List.mem_cons, List.map_append, List.mem_append, List.mem_map,
    List.mem_map, hips, or_iff_right List.not_mem_nil]

/-- The upkeep, where something has expired. -/
theorem Store.drop_expired_of_ne_nil {s : Store IP} {now : Int} (hne : s.old_names ≠ [])
    (h : s.expired s.certificate.common_name now ≠ []) :
    s.drop_expired A now = (selfsigned A s.certificate.common_name
      (s.certificate.names_in.2.map A.str) ((s.others s.certificate.common_name).filter fun n =>
        n ∉ s.expired s.certificate.common_name now)).map fun c =>
          (⟨c, s.keptNames now⟩, s.expired s.certificate.common_name now) := by
  rw [Store.drop_expired, if_neg hne]
  exact if_neg h

end Names

/-! ## The invariant -/

/-- The certificate has the hostname, the addresses, and the names of the deadline file; the
file has each former name that has time left, with its own deadline. -/
structure Tracked (s : State IP) : Prop where
  common_name : s.store.certificate.common_name = s.host.text.take 64
  nodup : (s.store.old_names.map Prod.fst).Nodup
  host_named : general A s.host.text ∈ s.names
  dns_iff : ∀ n, .dns n ∈ s.names ↔
    (n = s.host.text ∧ A.ip n = none) ∨ (Dict.get s.store.old_names n).isSome = true
  dated : Dated s
  listed : ∀ n t, s.former n = some t →
    Dict.get s.store.old_names n = some (t + TRANSITION) ∨ t + TRANSITION ≤ s.clock
  former_host : s.former s.host.text = none
  former_name : ∀ n t, s.former n = some t → A.ip n = none

namespace Tracked

variable {A} {s s' : State IP} {now : Int} {new : Hostname}

omit [DecidableEq IP] in
theorem ne_host (h : Tracked A s) {n : Str}
    (hn : (Dict.get s.store.old_names n).isSome = true) : n ≠ s.host.text := by
  rintro rfl
  obtain ⟨u, hu⟩ := Option.isSome_iff_exists.mp hn
  obtain ⟨t, ht, -⟩ := h.dated _ u hu
  rw [h.former_host] at ht
  cases ht

/-- A certificate made for the hostname, the addresses and the names of the file. -/
theorem of_selfsigned {ips : List IP} {also_names : List Str} {c : Certificate IP}
    (hc : selfsigned A s.host.text (ips.map A.str) also_names = some c)
    (hstore : s.store.certificate = c)
    (halso : ∀ n, n ∈ also_names ↔ (Dict.get s.store.old_names n).isSome = true)
    (hnodup : (s.store.old_names.map Prod.fst).Nodup) (hdated : Dated s)
    (hlisted : ∀ n t, s.former n = some t →
      Dict.get s.store.old_names n = some (t + TRANSITION) ∨ t + TRANSITION ≤ s.clock)
    (hhost : s.former s.host.text = none) (hname : ∀ n t, s.former n = some t → A.ip n = none) :
    Tracked A s ∧ ∀ a, .address a ∈ s.names ↔
      (.address a : General IP) = general A s.host.text ∨ a ∈ ips := by
  obtain ⟨c', hc', hcommon, hnames⟩ := exists_selfsigned (A := A) s.host ips also_names
  obtain rfl : c = c' := Option.some.inj (hc.symm.trans hc')
  have hip : ∀ n ∈ also_names, A.ip n = none := fun n hn => by
    obtain ⟨u, hu⟩ := Option.isSome_iff_exists.mp ((halso n).mp hn)
    obtain ⟨t, ht, -⟩ := hdated n u hu
    exact hname n t ht
  have hmem : ∀ g, g ∈ s.names ↔ _ := fun g => by rw [State.names, hstore, hnames g]
  refine ⟨⟨by rw [hstore, hcommon], hnodup, (hmem _).mpr (.inl rfl), fun n => ?_, hdated, hlisted,
    hhost, hname⟩, fun a => ?_⟩
  · rw [hmem, eq_comm, general_eq_dns]
    constructor
    · rintro (⟨rfl, hnone⟩ | ⟨m, hm, hmn⟩ | ⟨a, -, ha⟩)
      · exact .inl ⟨rfl, hnone⟩
      · exact .inr ((halso n).mp ((general_eq_dns.mp hmn).1 ▸ hm))
      · cases ha
    · rintro (⟨rfl, hnone⟩ | hn)
      · exact .inl ⟨rfl, hnone⟩
      · have hn := (halso n).mpr hn
        exact .inr (.inl ⟨n, hn, general_of_none (hip n hn)⟩)
  · rw [hmem]
    constructor
    · rintro (hg | ⟨m, hm, hma⟩ | ⟨b, hb, hab⟩)
      · exact .inl hg
      · rw [general_of_none (hip m hm)] at hma
        cases hma
      · cases hab
        exact .inr hb
    · rintro (hg | ha)
      · exact .inl hg
      · exact .inr (.inr ⟨a, ha, rfl⟩)

theorem of_init (h : (reissues A).Init s) : Tracked A s := by
  obtain ⟨ips, c, hc, hstore, hformer⟩ := h
  refine (of_selfsigned hc (by rw [hstore]) (fun n => ?_) ?_ (fun n u hu => ?_) (fun n t ht => ?_)
    (by rw [hformer]) fun n t ht => ?_).1
  · rw [hstore]
    exact ⟨fun hn => absurd hn List.not_mem_nil, fun hn => by cases hn⟩
  · rw [hstore]
    exact List.nodup_nil
  · rw [hstore] at hu
    cases hu
  · rw [hformer] at ht
    cases ht
  · rw [hformer] at ht
    cases ht

omit [DecidableEq IP] in
theorem get_of_former (h : Tracked A s) {n : Str} {t : Int} (hn : .dns n ∈ s.names)
    (ht : s.former n = some t) : Dict.get s.store.old_names n = some (t + TRANSITION) := by
  rcases (h.dns_iff n).mp hn with ⟨rfl, -⟩ | hsome
  · rw [h.former_host] at ht
    cases ht
  · obtain ⟨u, hu⟩ := Option.isSome_iff_exists.mp hsome
    obtain ⟨t', ht', rfl⟩ := h.dated n u hu
    obtain rfl := Option.some.inj (ht.symm.trans ht')
    exact hu

omit [DecidableEq IP] in
/-- The names on the certificate: the hostname, and the former ones that the file has. -/
theorem mem_names_iff (h : Tracked A s) {n : Str} : .dns n ∈ s.names ↔
    (n = s.host.text ∧ A.ip n = none) ∨
      ∃ t, s.former n = some t ∧ Dict.get s.store.old_names n = some (t + TRANSITION) := by
  rw [h.dns_iff]
  refine or_congr_right ⟨fun hsome => ?_, ?_⟩
  · obtain ⟨u, hu⟩ := Option.isSome_iff_exists.mp hsome
    obtain ⟨t, ht, rfl⟩ := h.dated n u hu
    exact ⟨t, ht, hu⟩
  · rintro ⟨t, -, hu⟩
    exact Option.isSome_iff_exists.mpr ⟨_, hu⟩

/-! ### A rename -/

section Rename

omit [DecidableEq IP] in
/-- The former hostnames after a rename: those there were, and the one that is left. -/
theorem left_eq_some {n : Str} {t : Int} : s.left A new now n = some t ↔
    n ≠ new.text ∧ ((n = s.host.text ∧ A.ip n = none) ∧ t = now ∨
      ¬(n = s.host.text ∧ A.ip n = none) ∧ s.former n = some t) := by
  rw [State.left]
  split
  · next hnew => exact iff_of_false (fun heq => by cases heq) fun hleft => hleft.1 hnew
  next hnew =>
  rw [and_iff_right hnew]
  split
  · next hhost =>
    rw [Option.some.injEq, eq_comm]
    exact ⟨fun ht => .inl ⟨hhost, ht⟩, fun hor => hor.elim And.right fun hh => absurd hhost hh.1⟩
  · next hhost =>
    exact ⟨fun ht => .inr ⟨hhost, ht⟩, fun hor => hor.elim (fun hh => absurd hh.1 hhost) And.right⟩

variable (h : Tracked A s) (hontime : s.onTime (.rename new now) = true)
include hontime

omit [DecidableEq IP] in
/-- What a rename in time finds in the file has time left. -/
theorem lt_of_get {n : Str} (hnew : n ≠ new.text) {u : Int}
    (hget : Dict.get s.store.old_names n = some u) : now < u := by
  have hleft := (List.all_eq_true.mp hontime) _ (Dict.mem_of_get hget)
  rw [Bool.or_eq_true, decide_eq_true_eq, decide_eq_true_eq] at hleft
  exact hleft.resolve_right hnew

include h

omit [DecidableEq IP] in
/-- The deadlines after a rename in time: those there were, and the left hostname's. -/
theorem get_renamedNames (n : Str) : Dict.get (s.store.renamedNames new.text now) n =
    if n = new.text then none
    else if n = s.host.text ∧ A.ip n = none then some (now + TRANSITION)
    else Dict.get s.store.old_names n := by
  rw [Store.renamedNames, Dict.get_pop, Dict.get_setdefaults]
  by_cases hnew : n = new.text
  · rw [if_pos hnew, if_pos hnew]
  rw [if_neg hnew, if_neg hnew]
  have hfilter : Dict.get (s.store.old_names.filter fun e => now < e.2) n =
      Dict.get s.store.old_names n := by
    rw [Dict.get_filter h.nodup fun u => decide (now < u)]
    cases hget : Dict.get s.store.old_names n with
    | none => rfl
    | some u =>
      have hlt := lt_of_get hontime hnew hget
      simp only [Option.filter_some, hlt, decide_true, if_true]
  have hdns : n ∈ s.store.certificate.names_in.1 ↔ _ := mem_dns.trans (h.dns_iff n)
  rw [hfilter]
  simp only [hdns]
  by_cases hhost : n = s.host.text ∧ A.ip n = none
  · have hold : Dict.get s.store.old_names n = none := by
      by_contra hsome
      exact h.ne_host (Option.isSome_iff_ne_none.mpr hsome) hhost.1
    rw [hold, if_pos hhost, if_pos (.inl hhost), Option.none_or]
  · rw [if_neg hhost]
    cases hget : Dict.get s.store.old_names n with
    | none =>
      rw [if_neg (fun hor => hor.elim hhost fun hsome => by cases hsome), Option.none_or]
    | some u => rfl

omit [DecidableEq IP] in
/-- Each of them is a former hostname's own, and has time left. -/
theorem dated_renamed {n : Str} {u : Int}
    (hu : Dict.get (s.store.renamedNames new.text now) n = some u) :
    now < u ∧ ∃ t, s.left A new now n = some t ∧ u = t + TRANSITION := by
  rw [h.get_renamedNames hontime n] at hu
  split at hu
  · cases hu
  next hnew =>
  split at hu
  · next hhost =>
    obtain rfl := Option.some.inj hu
    refine ⟨?_, now, left_eq_some.mpr ⟨hnew, .inl ⟨hhost, rfl⟩⟩, rfl⟩
    simp only [TRANSITION, NAME_TRANSITION_DAYS]
    omega
  · next hhost =>
    obtain ⟨t, ht, heq⟩ := h.dated n u hu
    exact ⟨lt_of_get hontime hnew hu, t, left_eq_some.mpr ⟨hnew, .inr ⟨hhost, ht⟩⟩, heq⟩

omit [DecidableEq IP] in
/-- A former hostname with time left is among them. -/
theorem listed_renamed (hclock : s.clock ≤ now) {n : Str} {t : Int}
    (ht : s.left A new now n = some t) :
    Dict.get (s.store.renamedNames new.text now) n = some (t + TRANSITION) ∨
      t + TRANSITION ≤ now := by
  rw [h.get_renamedNames hontime n]
  obtain ⟨hnew, ⟨hhost, rfl⟩ | ⟨hhost, hformer⟩⟩ := left_eq_some.mp ht
  · rw [if_neg hnew, if_pos hhost]
    exact .inl rfl
  · rw [if_neg hnew, if_neg hhost]
    exact (h.listed n t hformer).imp_right fun hle => Int.le_trans hle hclock

theorem rename (hclock : s.clock ≤ now) :
    ∃ s', s.step A (.rename new now) = some s' ∧ Tracked A s' ∧ Renamed A s new now s' := by
  obtain ⟨c, hc, -, -⟩ := exists_selfsigned (A := A) new s.store.certificate.names_in.2
    (Dict.sorted (s.store.renamedNames new.text now))
  have hstep : s.step A (.rename new now) = some (s.renamed A c new now) := by
    have htime : s.clock ≤ (Event.rename new now).time := hclock
    rw [State.step, if_pos htime]
    exact congrArg (Option.map _) (congrArg (Option.map _) hc)
  have hnodup : ((s.store.renamedNames new.text now).map Prod.fst).Nodup :=
    Dict.nodup_filter (Dict.nodup_setdefaults (Dict.nodup_filter h.nodup _) _ _) _
  have hname : ∀ n t, s.left A new now n = some t → A.ip n = none := by
    intro n t ht
    obtain ⟨-, ⟨hhost, -⟩ | ⟨-, hformer⟩⟩ := left_eq_some.mp ht
    · exact hhost.2
    · exact h.former_name n t hformer
  have hdated : Dated (s.renamed A c new now) := fun n u hu => (h.dated_renamed hontime hu).2
  obtain ⟨htracked, haddress⟩ := of_selfsigned (s := s.renamed A c new now) hc rfl
    (fun n => Dict.mem_sorted.trans Dict.mem_keys_iff) hnodup hdated
    (fun n t ht => h.listed_renamed hontime hclock ht) (if_pos rfl) hname
  refine ⟨_, hstep, htracked, fun g => ?_, hdated⟩
  cases g with
  | dns n =>
    rw [htracked.mem_names_iff, eq_comm (b := general A new.text), general_eq_dns]
    constructor
    · rintro (⟨rfl, hip⟩ | ⟨t, ht, hu⟩)
      · exact .inl ⟨rfl, hip⟩
      · exact .inr (.inr ⟨n, t, rfl, ht, (h.dated_renamed hontime hu).1⟩)
    · rintro (⟨rfl, hip⟩ | ⟨a, ha, -⟩ | ⟨m, t, hm, ht, hleft⟩)
      · exact .inl ⟨rfl, hip⟩
      · cases ha
      · cases hm
        rcases htracked.listed n t ht with hu | hle
        · exact .inr ⟨t, ht, hu⟩
        · exact absurd hleft (Int.not_lt.mpr hle)
  | address a =>
    rw [haddress, mem_ips]
    constructor
    · rintro (hnew | ha)
      · exact .inl hnew
      · exact .inr (.inl ⟨a, rfl, ha⟩)
    · rintro (hnew | ⟨b, hb, ha⟩ | ⟨m, t, hm, -⟩)
      · exact .inl hnew
      · exact .inr ha
      · cases hm

end Rename

/-! ### The upkeep -/

/-- Nothing has expired, and nothing changes. -/
theorem drop_none (h : Tracked A s) (hleft : ∀ e ∈ s.store.old_names, now < e.2)
    (hclock : s.clock ≤ now) :
    ∃ s', s.step A (.drop now) = some s' ∧ Tracked A s' ∧ Cleared A s now s' := by
  have hkeep : s.store.old_names.filter (fun e => now < e.2) = s.store.old_names :=
    List.filter_eq_self.mpr fun e he => decide_eq_true (hleft e he)
  have hstep : s.step A (.drop now) = some { s with clock := now } := by
    rw [State.step]
    simp only [Event.time, hclock, if_true, Store.drop_expired, hkeep]
    split
    · rfl
    · have hexpired : ∀ l : List Str, l.filter (fun n =>
          (Dict.get s.store.old_names n).isSome && (Dict.get s.store.old_names n).isNone) = [] := by
        intro l
        rw [List.filter_eq_nil_iff]
        intro n _
        cases Dict.get s.store.old_names n <;> simp
      rw [hexpired, if_pos rfl]
      rfl
  refine ⟨_, hstep, { h with listed := fun n t ht => ?_ }, h.host_named, fun g => ?_, h.dated⟩
  · exact (h.listed n t ht).imp_right fun hle => Int.le_trans hle hclock
  · refine ⟨fun hg => ⟨hg, fun n t hn ht => ?_⟩, And.left⟩
    exact hleft (n, t + TRANSITION) (Dict.mem_of_get (h.get_of_former (hn ▸ hg) ht))

section Upkeep

variable (h : Tracked A s)
include h

omit [DecidableEq IP] in
theorem get_keptNames {n : Str} {u : Int} : Dict.get (s.store.keptNames now) n = some u ↔
    Dict.get s.store.old_names n = some u ∧ now < u := by
  rw [Store.keptNames, Dict.get_filter h.nodup fun u => decide (now < u),
    Option.filter_eq_some_iff, decide_eq_true_eq]

omit [DecidableEq IP] in
theorem mem_others {n : Str} : n ∈ s.store.others s.host.text ↔
    (Dict.get s.store.old_names n).isSome = true := by
  rw [Store.others, List.mem_filter, mem_dns, ← State.names, h.dns_iff, decide_eq_true_eq]
  constructor
  · rintro ⟨⟨hhost, -⟩ | hsome, hne⟩
    · exact absurd hhost hne
    · exact hsome
  · intro hsome
    exact ⟨.inr hsome, h.ne_host hsome⟩

omit [DecidableEq IP] in
theorem mem_expired {n : Str} : n ∈ s.store.expired s.host.text now ↔
    ∃ u, Dict.get s.store.old_names n = some u ∧ u ≤ now := by
  rw [Store.expired, List.mem_filter, h.mem_others, Bool.and_eq_true]
  constructor
  · rintro ⟨hsome, -, hnone⟩
    obtain ⟨u, hu⟩ := Option.isSome_iff_exists.mp hsome
    refine ⟨u, hu, Int.not_lt.mp fun hlt => ?_⟩
    rw [h.get_keptNames.mpr ⟨hu, hlt⟩] at hnone
    cases hnone
  · rintro ⟨u, hu, hle⟩
    have hsome := Option.isSome_iff_exists.mpr ⟨u, hu⟩
    refine ⟨hsome, hsome, Option.isNone_iff_eq_none.mpr (Option.eq_none_iff_forall_ne_some.mpr ?_)⟩
    intro v hv
    obtain ⟨hold, hlt⟩ := h.get_keptNames.mp hv
    obtain rfl := Option.some.inj (hold.symm.trans hu)
    exact absurd hlt (Int.not_lt.mpr hle)

omit [DecidableEq IP] in
/-- What is left of the other names is what the file keeps. -/
theorem mem_left {n : Str} : n ∈ (s.store.others s.host.text).filter
    (fun n => n ∉ s.store.expired s.host.text now) ↔
      (Dict.get (s.store.keptNames now) n).isSome = true := by
  rw [List.mem_filter, h.mem_others, decide_eq_true_eq, h.mem_expired]
  constructor
  · rintro ⟨hsome, hnot⟩
    obtain ⟨u, hu⟩ := Option.isSome_iff_exists.mp hsome
    have hlt : now < u := Int.not_le.mp fun hle => hnot ⟨u, hu, hle⟩
    exact Option.isSome_iff_exists.mpr ⟨u, h.get_keptNames.mpr ⟨hu, hlt⟩⟩
  · intro hsome
    obtain ⟨u, hu⟩ := Option.isSome_iff_exists.mp hsome
    obtain ⟨hold, hlt⟩ := h.get_keptNames.mp hu
    refine ⟨Option.isSome_iff_exists.mpr ⟨u, hold⟩, ?_⟩
    rintro ⟨v, hv, hle⟩
    obtain rfl := Option.some.inj (hold.symm.trans hv)
    exact absurd hlt (Int.not_lt.mpr hle)

omit [DecidableEq IP] in
theorem listed_kept (hclock : s.clock ≤ now) {n : Str} {t : Int} (ht : s.former n = some t) :
    Dict.get (s.store.keptNames now) n = some (t + TRANSITION) ∨ t + TRANSITION ≤ now := by
  rcases h.listed n t ht with hu | hle
  · rcases Int.lt_or_le now (t + TRANSITION) with hlt | hle
    · exact .inl (h.get_keptNames.mpr ⟨hu, hlt⟩)
    · exact .inr hle
  · exact .inr (Int.le_trans hle hclock)

/-- Something has expired, and the certificate is made for the hostname without it. -/
theorem drop_some (hcommon : s.store.certificate.common_name = s.host.text) {e : Str × Int}
    (he : e ∈ s.store.old_names) (hexpired : e.2 ≤ now) (hclock : s.clock ≤ now) :
    ∃ s', s.step A (.drop now) = some s' ∧ Tracked A s' ∧ Cleared A s now s' := by
  have hne : s.store.old_names ≠ [] := List.ne_nil_of_mem he
  have hdropped : s.store.expired s.host.text now ≠ [] :=
    List.ne_nil_of_mem (h.mem_expired.mpr ⟨e.2, Dict.get_of_mem h.nodup he, hexpired⟩)
  obtain ⟨c, hc, -, -⟩ := exists_selfsigned (A := A) s.host s.store.certificate.names_in.2
    ((s.store.others s.host.text).filter fun n => n ∉ s.store.expired s.host.text now)
  have hstep : s.step A (.drop now) = some (s.cleared c now) := by
    have htime : s.clock ≤ (Event.drop now).time := hclock
    rw [← hcommon] at hdropped hc
    rw [State.step, if_pos htime]
    rw [Store.drop_expired_of_ne_nil hne hdropped, hc]
    rfl
  have hdated : Dated (s.cleared c now) := fun n u hu => h.dated n u (h.get_keptNames.mp hu).1
  obtain ⟨htracked, haddress⟩ := of_selfsigned (s := s.cleared c now) hc rfl (fun n => h.mem_left)
    (Dict.nodup_filter h.nodup _) hdated (fun n t ht => h.listed_kept hclock ht) h.former_host
    h.former_name
  refine ⟨_, hstep, htracked, htracked.host_named, fun g => ?_, hdated⟩
  cases g with
  | dns n =>
    rw [htracked.mem_names_iff, h.mem_names_iff]
    constructor
    · rintro (hhost | ⟨t, ht, hu⟩)
      · refine ⟨.inl hhost, fun m t hm ht => ?_⟩
        cases hm
        rw [hhost.1] at ht
        cases h.former_host.symm.trans ht
      · obtain ⟨hold, hlt⟩ := h.get_keptNames.mp hu
        refine ⟨.inr ⟨t, ht, hold⟩, fun m t' hm ht' => ?_⟩
        cases hm
        obtain rfl := Option.some.inj (ht.symm.trans ht')
        exact hlt
    · rintro ⟨hhost | ⟨t, ht, hold⟩, hleft⟩
      · exact .inl hhost
      · exact .inr ⟨t, ht, h.get_keptNames.mpr ⟨hold, hleft n t rfl ht⟩⟩
  | address a =>
    rw [haddress, mem_ips]
    constructor
    · rintro (hhost | ha)
      · refine ⟨?_, fun m t hm => by cases hm⟩
        rw [hhost]
        exact h.host_named
      · exact ⟨ha, fun m t hm => by cases hm⟩
    · rintro ⟨ha, -⟩
      exact .inr ha

end Upkeep

theorem drop (h : Tracked A s) (hwhole : s.whole (.drop now) = true) (hclock : s.clock ≤ now) :
    ∃ s', s.step A (.drop now) = some s' ∧ Tracked A s' ∧ Cleared A s now s' := by
  by_cases hleft : ∀ e ∈ s.store.old_names, now < e.2
  · exact h.drop_none hleft hclock
  · simp only [not_forall, exists_prop] at hleft
    obtain ⟨e, he, hexpired⟩ := hleft
    refine h.drop_some ?_ he (Int.not_lt.mp hexpired) hclock
    rw [State.whole, Bool.or_eq_true, decide_eq_true_eq, List.all_eq_true] at hwhole
    rcases hwhole with hshort | hall
    · rw [h.common_name, List.take_of_length_le hshort]
    · exact absurd (of_decide_eq_true (hall e he)) hexpired

theorem step (h : Tracked A s) {e : Event} (hsafe : s.safe e = true) (hclock : s.clock ≤ e.time) :
    ∃ s', s.step A e = some s' ∧ Tracked A s' ∧ Kept A s s' e := by
  obtain ⟨hontime, hwhole⟩ := Bool.and_eq_true_iff.mp hsafe
  cases e with
  | rename new now => exact h.rename hontime hclock
  | drop now => exact h.drop hwhole hclock

theorem of_reachable (h : (reissues A).Reachable State.safe s) : Tracked A s := by
  refine h.invariant (fun _ => of_init) fun s e s' _ hsafe hs hstep => ?_
  have hclock : s.clock ≤ e.time := by
    by_contra hnot
    have hnone : s.step A e = none := if_neg hnot
    cases hnone.symm.trans hstep
  obtain ⟨t, ht, htracked, -⟩ := hs.step hsafe hclock
  rwa [← Option.some.inj (ht.symm.trans hstep)]

end Tracked

/-- Where every rename is in time, and no hostname is longer than the common name when something
is dropped, the reissues keep the names. -/
theorem keepsNames : KeepsNames A State.safe := by
  intro s hs e hsafe hclock
  obtain ⟨s', hstep, -, hkept⟩ := (Tracked.of_reachable hs).step hsafe hclock
  exact ⟨s', hstep, hkept⟩

/-- The second of two steps, for which the first is as good as any. -/
theorem exists_second {A} {allowed : State IP → Event → Bool} {s₀ : State IP} {e₁ e₂ : Event}
    {p : State IP → State IP → Bool} (hinit : (reissues A).Init s₀) (hfirst : allowed s₀ e₁ = true)
    (h : (s₀.step A e₁).any (fun s₁ => allowed s₁ e₂ && decide (s₁.clock ≤ e₂.time) &&
      (s₁.step A e₂).any fun s₂ => p s₁ s₂) = true) (hkeeps : KeepsNames A allowed) :
    ∃ s₁ s₂, Kept A s₁ s₂ e₂ ∧ p s₁ s₂ = true := by
  obtain ⟨s₁, hstep₁, h⟩ := (Option.any_eq_true _ _).mp h
  rw [Bool.and_eq_true, Bool.and_eq_true, decide_eq_true_eq] at h
  obtain ⟨⟨hallowed, hclock⟩, h⟩ := h
  obtain ⟨s₂, hstep₂, hp⟩ := (Option.any_eq_true _ _).mp h
  have hreached : (reissues A).Reachable allowed s₁ :=
    ⟨s₀, [e₁], hinit, System.exec_cons.mpr ⟨hfirst, s₁, hstep₁, rfl⟩⟩
  obtain ⟨s', hstep, hkept⟩ := hkeeps s₁ hreached e₂ hallowed hclock
  obtain rfl := Option.some.inj (hstep.symm.trans hstep₂)
  exact ⟨s₁, s', hkept, hp⟩

end Program

/-! ## Names that are not kept -/

/-- The IPv4 addresses, each as the one text that reads as it. -/
def v4 : Addresses {s : Str // (IpAddress.parseV4 s).isSome = true} where
  ip s := if h : (IpAddress.parseV4 (PyText.strip s)).isSome = true then
    some ⟨PyText.strip s, h⟩ else none
  str a := a.1
  ip_str a := by
    obtain ⟨n, hn⟩ := Option.isSome_iff_exists.mp a.2
    have hstrip : PyText.strip a.1 = a.1 := PyText.strip_of_plain (IpAddress.isSpace_of_parseV4 hn)
    simp only [hstrip, a.2, dif_pos]

def aLab : @Hostname Unicode.ascii := @Hostname.mk .ascii "a.lab".toList (List.cons_ne_nil _ _) rfl

def bLab : @Hostname Unicode.ascii := @Hostname.mk .ascii "b.lab".toList (List.cons_ne_nil _ _) rfl

def cLab : @Hostname Unicode.ascii := @Hostname.mk .ascii "c.lab".toList (List.cons_ne_nil _ _) rfl

/-- 65 characters. -/
def longLab : @Hostname Unicode.ascii :=
  @Hostname.mk .ascii (List.replicate 61 'x' ++ ".lab".toList) (List.cons_ne_nil _ _) rfl

/-- The certificate of `a.lab`, without addresses. -/
def newLab : @State Unicode.ascii {s : Str // (IpAddress.parseV4 s).isSome = true} :=
  let _ := Unicode.ascii
  ⟨⟨⟨"a.lab".toList, [.dns "a.lab".toList]⟩, []⟩, aLab, fun _ => none, 0⟩

theorem init_newLab : (@reissues _ _ Unicode.ascii v4).Init newLab :=
  ⟨[], _, rfl, rfl, rfl⟩

/-- `a.lab` becomes `b.lab`, and a week and a microsecond later `c.lab`, before the upkeep: the
name `a.lab` gets another week. -/
theorem not_keepsNames : ¬ @KeepsNames _ _ Unicode.ascii v4 System.always := by
  let _ := Unicode.ascii
  intro hkeeps
  obtain ⟨s₁, s₂, hkept, hp⟩ := @exists_second _ _ Unicode.ascii _ _ _ (.rename bLab 0)
    (.rename cLab (TRANSITION + 1)) (fun _ s₂ =>
      Dict.get s₂.store.old_names "a.lab".toList = some (TRANSITION + 1 + TRANSITION) &&
        s₂.former "a.lab".toList = some 0) init_newLab rfl (by decide) hkeeps
  rw [Bool.and_eq_true, decide_eq_true_eq, decide_eq_true_eq] at hp
  obtain ⟨t, ht, hlate⟩ := hkept.dated _ _ hp.1
  obtain rfl := Option.some.inj (hp.2.symm.trans ht)
  revert hlate
  decide

/-- `a.lab` becomes a name of 65 characters, and a week later its first 64 are a name. -/
theorem not_keepsNames_long :
    ¬ @KeepsNames _ _ Unicode.ascii v4 (@State.onTime _ Unicode.ascii) := by
  let _ := Unicode.ascii
  intro hkeeps
  obtain ⟨s₁, s₂, hkept, hp⟩ := @exists_second _ _ Unicode.ascii _ _ _ (.rename longLab 0)
    (.drop TRANSITION) (fun s₁ s₂ =>
      .dns (longLab.text.take 64) ∉ s₁.names && .dns (longLab.text.take 64) ∈ s₂.names)
    init_newLab rfl (by decide) hkeeps
  rw [Bool.and_eq_true, decide_eq_true_eq, decide_eq_true_eq] at hp
  exact hp.1 ((hkept.named_iff _).mp hp.2).1

end Names
end Access
end NetRollout
