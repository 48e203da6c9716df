import NetRollout.Library.PyText
import NetRollout.Library.Transition
import NetRollout.Library.Undo

/-!
# Changes of the certificate and the hostname

`Nginx.apply` with `change_hostname`, `install` and `generate_selfsigned`: a change writes its
files under the store's lock, waits for nginx's answer without it, and is undone, under the lock
again, when nginx refuses it.  What nginx answers, and when, is anyone's guess.

`_undo` puts back the four files when they are as the change wrote them.  `put_back` puts back the
hostname while it is the one written.  A change that raises has changed nothing; it is none.

`undone_cleanly`: in the runs whose undos are `safe`, the files and the hostname in force are
never those of a change undone.

## What goes wrong, and when

Two changes overlap, and nginx refuses both.  The older one's undo finds the newer one's files,
and leaves them; the newer one's undo then puts back what it replaced: the older one's files,
which nginx refused (`not_undone_cleanly`).
-/

namespace NetRollout
namespace Access
namespace Certificates

open PyText (Str)
open Undo (Verdict Register Write)

/-- What a file holds: two of them are the same or not. -/
abbrev Bytes := List UInt8

/-- The certs folder: a file's content, or that there is none. -/
structure Files where
  cert : Option Bytes
  key : Option Bytes
  marker : Option Bytes
  old_names : Option Bytes
  deriving DecidableEq

/-- nginx's keys of `site.env`. -/
structure Site where
  hostname : Option Str
  in_use : Option Str
  deriving DecidableEq

/-- What `selfsigned` and `keep_old_names` write. -/
structure Issued where
  cert : Bytes
  key : Bytes
  marker : Bytes
  old_names : Option Bytes

inductive Kind where
  /-- `change_hostname`, with the port in use. -/
  | rename (new : Str) (serving_port : Str) (issued : Issued)
  /-- `install`. -/
  | install (cert key : Bytes)
  /-- `generate_selfsigned`. -/
  | generate (cert key marker : Bytes)

/-- `rename`: a self-signed certificate is reissued, another one covers the name. -/
def Files.renamed (files : Files) (new : Str) (issued : Issued) : Files :=
  if new = [] ∨ files.cert = none ∨ files.marker = none then files
  else ⟨some issued.cert, some issued.key, some issued.marker, issued.old_names⟩

/-- The files a change leaves. -/
def Kind.files (files : Files) : Kind → Files
  | rename new _ issued => files.renamed new issued
  | install cert key => ⟨some cert, some key, none, none⟩
  | generate cert key marker => ⟨some cert, some key, some marker, none⟩

/-- `_site_values`. -/
def Kind.values : Kind → Option Site
  | rename new serving_port _ => some ⟨some new, some serving_port⟩
  | _ => none

/-- A change that was made, with what its `undo()` keeps. -/
structure Change where
  kind : Kind
  saved : Files
  written : Files
  /-- `site.env` as it was, and what `write_site` wrote. -/
  site : Option (Site × Site)
  verdict : Verdict
  /-- Whose files and whose hostname it replaced. -/
  over_files : Option Nat
  over_hostname : Option Nat

/-- It replaced the files; a hostname the certificate covers leaves them. -/
def Change.replaces (c : Change) : Bool :=
  match c.kind with
  | .rename _ _ _ => decide (c.saved ≠ c.written)
  | _ => true

structure State where
  files : Files
  site : Site
  changes : List Change := []
  /-- Whose change the files and the hostname are, none: no change's; what they were at first. -/
  files_of : Option Nat := none
  hostname_of : Option Nat := none
  first_files : Files
  first_hostname : Option Str

inductive Action where
  /-- A change is made. -/
  | make (kind : Kind)
  /-- nginx answers change `i`, or nobody does. -/
  | accept (i : Nat)
  | leave (i : Nat)
  | refuse (i : Nat)
  /-- Its undo, under the lock. -/
  | undo (i : Nat)

namespace State

variable (s : State)

/-- What a change keeps for its undo. -/
def next (kind : Kind) : Change where
  kind := kind
  saved := s.files
  written := kind.files s.files
  site := kind.values.map fun values => (s.site, values)
  verdict := .waiting
  over_files := s.files_of
  over_hostname := s.hostname_of

/-- A change, under the lock. -/
def make (kind : Kind) : State :=
  { s with
    files := kind.files s.files
    site := kind.values.getD s.site
    changes := s.changes ++ [s.next kind]
    files_of := if (s.next kind).replaces then some s.changes.length else s.files_of
    hostname_of := if kind.values.isSome then some s.changes.length else s.hostname_of }

def settle (i : Nat) (verdict : Verdict) : State :=
  { s with changes := s.changes.modify i fun c => { c with verdict } }

/-- `undo()` of `_undo`. -/
def undoFiles (i : Nat) (c : Change) : State :=
  { s with
    files := if s.files ≠ c.written then s.files else c.saved
    files_of := if s.files_of = some i ∧ c.replaces = true then c.over_files else s.files_of }

/-- `put_back`, its guard the hostname. -/
def putBack (i : Nat) (c : Change) (previous written : Site) : State :=
  { s with
    site :=
      if s.site.hostname ≠ written.hostname then s.site
      else
        { hostname := previous.hostname
          in_use := if s.site.in_use = written.in_use then previous.in_use else s.site.in_use }
    hostname_of := if s.hostname_of = some i then c.over_hostname else s.hostname_of }

/-- `undo()` of a change. -/
def undo (i : Nat) : State :=
  match s.changes[i]? with
  | none => s
  | some c =>
    let s := (s.settle i .undone).undoFiles i c
    match c.site with
    | some (previous, written) => s.putBack i c previous written
    | none => s

def answer (i : Nat) (verdict : Verdict) : Option State :=
  if s.changes[i]?.any (·.verdict == .waiting) then some (s.settle i verdict) else none

def step : Action → Option State
  | .make kind => some (s.make kind)
  | .accept i => s.answer i .accepted
  | .leave i => s.answer i .unanswered
  | .refuse i => s.answer i .refused
  | .undo i => if s.changes[i]?.any (·.verdict == .refused) then some (s.undo i) else none

end State

/-- Any number of changes, and nginx's answers in any order. -/
def overlapping : System State Action where
  Init s := ∃ files site, s = { files, site, first_files := files, first_hostname := site.hostname }
  step := State.step

/-! ## The files, and the hostname -/

def Change.ofFiles (c : Change) : Undo.Change Files :=
  ⟨if c.replaces then some ⟨c.saved, c.written, c.over_files⟩ else none, c.verdict⟩

def Change.ofHostname (c : Change) : Undo.Change (Option Str) :=
  ⟨c.site.map fun site => ⟨site.1.hostname, site.2.hostname, c.over_hostname⟩, c.verdict⟩

theorem Change.saved_of_not_replaces {c : Change} (h : c.replaces = false) :
    c.saved = c.written := by
  rw [Change.replaces] at h
  split at h
  · simpa using h
  · cases h

namespace State

variable (s : State)

/-- The files, as one content that the changes write. -/
def certificate : Register Files where
  original := s.first_files
  content := s.files
  owner := s.files_of
  changes := s.changes.map Change.ofFiles

/-- The hostname, as one that the renames write. -/
def hostname : Register (Option Str) where
  original := s.first_hostname
  content := s.site.hostname
  owner := s.hostname_of
  changes := s.changes.map Change.ofHostname

/-- An undo finds its files and its hostname changed since; or it finds its own change in place,
not another's that is the same, and puts back nothing of a change undone before. -/
def safe (i : Nat) : Bool := s.certificate.safe i && s.hostname.safe i

def allowed (s : State) : Action → Bool
  | .undo i => s.safe i
  | _ => true

variable {s : State} {i : Nat} {c : Change}

/-! ## Each step is one of both -/

@[simp] theorem next_saved (kind : Kind) : (s.next kind).saved = s.files := rfl

@[simp] theorem next_written (kind : Kind) : (s.next kind).written = kind.files s.files := rfl

@[simp] theorem next_verdict (kind : Kind) : (s.next kind).verdict = .waiting := rfl

@[simp] theorem next_over_files (kind : Kind) : (s.next kind).over_files = s.files_of := rfl

theorem certificate_make (kind : Kind) :
    ∃ new, (s.make kind).certificate = s.certificate.make new := by
  cases hreplaces : (s.next kind).replaces with
  | true =>
    refine ⟨some (kind.files s.files), ?_⟩
    simp [certificate, make, Register.make, Change.ofFiles, hreplaces]
  | false =>
    refine ⟨none, ?_⟩
    have hsame : kind.files s.files = s.files := (Change.saved_of_not_replaces hreplaces).symm
    simp [certificate, make, Register.make, Change.ofFiles, hreplaces, hsame]

theorem hostname_make (kind : Kind) :
    (s.make kind).hostname = s.hostname.make (kind.values.map (·.hostname)) := by
  cases kind <;> simp [hostname, make, Register.make, Kind.values, Change.ofHostname, next]

theorem map_modify {α β : Type} {f : α → β} {g : α → α} {k : β → β} (h : ∀ a, f (g a) = k (f a))
    (l : List α) (i : Nat) : (l.modify i g).map f = (l.map f).modify i k := by
  refine List.ext_getElem? fun j => ?_
  rw [List.getElem?_map, List.getElem?_modify, List.getElem?_modify, List.getElem?_map]
  cases l[j]? with
  | none => rfl
  | some a =>
    by_cases hij : i = j
    · simp [hij, h]
    · simp [hij]

theorem certificate_settle (verdict : Verdict) :
    (s.settle i verdict).certificate = s.certificate.settle i verdict := by
  have hchanges := map_modify (f := Change.ofFiles) (g := fun c => { c with verdict })
    (k := fun c => { c with verdict }) (fun _ => rfl) s.changes i
  simp only [certificate, settle, Register.settle, hchanges]

theorem hostname_settle (verdict : Verdict) :
    (s.settle i verdict).hostname = s.hostname.settle i verdict := by
  have hchanges := map_modify (f := Change.ofHostname) (g := fun c => { c with verdict })
    (k := fun c => { c with verdict }) (fun _ => rfl) s.changes i
  simp only [hostname, settle, Register.settle, hchanges]

theorem undo_of (h : s.changes[i]? = some c) :
    s.undo i = match c.site with
      | some (previous, written) =>
        ((s.settle i .undone).undoFiles i c).putBack i c previous written
      | none => (s.settle i .undone).undoFiles i c := by
  rw [undo, h]

theorem certificate_writeOf (h : s.changes[i]? = some c) : s.certificate.writeOf i =
    if c.replaces then some ⟨c.saved, c.written, c.over_files⟩ else none := by
  simp [Register.writeOf, certificate, h, Change.ofFiles]

theorem hostname_writeOf (h : s.changes[i]? = some c) : s.hostname.writeOf i =
    c.site.map fun site => ⟨site.1.hostname, site.2.hostname, c.over_hostname⟩ := by
  simp [Register.writeOf, hostname, h, Change.ofHostname]

theorem certificate_undo (h : s.changes[i]? = some c) :
    (s.undo i).certificate = s.certificate.undo i := by
  have hsite : (s.undo i).certificate = ((s.settle i .undone).undoFiles i c).certificate := by
    rw [undo_of h]
    cases c.site <;> rfl
  rw [hsite, Register.undo, certificate_writeOf h, ← certificate_settle]
  cases hreplaces : c.replaces with
  | false =>
    have hsame := Change.saved_of_not_replaces hreplaces
    by_cases hfiles : s.files = c.written
    · simp [certificate, undoFiles, hreplaces, settle, hfiles, hsame]
    · simp [certificate, undoFiles, hreplaces, settle, hfiles]
  | true =>
    by_cases hfiles : s.files = c.written
    · simp [certificate, undoFiles, hreplaces, settle, hfiles]
    · simp [certificate, undoFiles, hreplaces, settle, hfiles]
      rfl

theorem hostname_undo (h : s.changes[i]? = some c) :
    (s.undo i).hostname = s.hostname.undo i := by
  rw [undo_of h, Register.undo, hostname_writeOf h, ← hostname_settle]
  cases c.site with
  | none => rfl
  | some site =>
    by_cases hheld : s.site.hostname = site.2.hostname
    · simp [hostname, undoFiles, putBack, settle, hheld]
      rfl
    · simp [hostname, undoFiles, putBack, settle, hheld]
      rfl

/-! ## What every step keeps -/

/-- The files in place are of a change not undone, or the first ones; so is the hostname. -/
structure Kept (s : State) : Prop where
  certificate : s.certificate.Kept
  hostname : s.hostname.Kept

theorem kept_of_init (h : overlapping.Init s) : s.Kept := by
  obtain ⟨files, site, rfl⟩ := h
  refine ⟨⟨fun _ => rfl, ?_, ?_, ?_⟩, ⟨fun _ => rfl, ?_, ?_, ?_⟩⟩
  all_goals intros
  all_goals contradiction

theorem Kept.make (h : s.Kept) (kind : Kind) : (s.make kind).Kept := by
  obtain ⟨new, hnew⟩ := certificate_make (s := s) kind
  constructor
  · rw [hnew]
    exact h.certificate.make new
  · rw [hostname_make]
    exact h.hostname.make _

theorem Kept.settle {verdict : Verdict} (h : s.Kept) (hverdict : verdict ≠ .undone) :
    (s.settle i verdict).Kept := by
  constructor
  · rw [certificate_settle]
    exact h.certificate.settle hverdict
  · rw [hostname_settle]
    exact h.hostname.settle hverdict

theorem safe_iff : s.safe i = true ↔ s.certificate.Safe i ∧ s.hostname.Safe i := by
  rw [safe, Bool.and_eq_true, Register.safe_iff, Register.safe_iff]

theorem Kept.undo (h : s.Kept) (hsafe : s.safe i = true) : (s.undo i).Kept := by
  cases hc : s.changes[i]? with
  | none =>
    rw [State.undo, hc]
    exact h
  | some c =>
    obtain ⟨hfiles, hname⟩ := safe_iff.mp hsafe
    constructor
    · rw [certificate_undo hc]
      exact h.certificate.undo hfiles
    · rw [hostname_undo hc]
      exact h.hostname.undo hname

theorem answer_eq {verdict : Verdict} {s' : State} (h : s.answer i verdict = some s') :
    s' = s.settle i verdict := by
  rw [answer] at h
  split at h
  · exact (Option.some.inj h).symm
  · cases h

theorem undo_cases {s' : State} (h : s.step (.undo i) = some s') :
    (∃ c, s.changes[i]? = some c ∧ c.verdict = .refused) ∧ s' = s.undo i := by
  rw [step] at h
  split at h
  · next hrefused =>
    obtain ⟨c, hc, hverdict⟩ := (Option.any_eq_true _ _).mp hrefused
    exact ⟨⟨c, hc, by simpa using hverdict⟩, (Option.some.inj h).symm⟩
  · cases h

theorem kept (h : overlapping.Reachable State.allowed s) : s.Kept := by
  refine System.Reachable.invariant (fun s => kept_of_init) ?_ h
  intro s a s' _ hallowed hinv hstep
  cases a with
  | make kind =>
    obtain rfl := Option.some.inj hstep
    exact hinv.make kind
  | accept i =>
    rw [answer_eq hstep]
    exact hinv.settle (by decide)
  | leave i =>
    rw [answer_eq hstep]
    exact hinv.settle (by decide)
  | refuse i =>
    rw [answer_eq hstep]
    exact hinv.settle (by decide)
  | undo i =>
    rw [(undo_cases hstep).2]
    exact hinv.undo hallowed

/-- What was undone, or neither, and whose files and hostname these are. -/
structure Cleanly (s : State) : Prop where
  /-- nginx refuses all of them: everything is as it was. -/
  undone : (∀ c ∈ s.changes, c.verdict = .undone) →
    s.files = s.first_files ∧ s.site.hostname = s.first_hostname
  /-- No change is in progress: the files are the first, or those of a change not refused. -/
  files : (∀ c ∈ s.changes, c.verdict.inProgress = false) →
    s.files = s.first_files ∨ ∃ c ∈ s.changes, s.files = c.written ∧
      (c.verdict = .accepted ∨ c.verdict = .unanswered)
  hostname : (∀ c ∈ s.changes, c.verdict.inProgress = false) →
    s.site.hostname = s.first_hostname ∨ ∃ c ∈ s.changes, ∃ site, c.site = some site ∧
      s.site.hostname = site.2.hostname ∧ (c.verdict = .accepted ∨ c.verdict = .unanswered)
  /-- An undo leaves what an accepted change wrote. -/
  accepted_files : ∀ i j c s', s.files_of = some j → s.changes[j]? = some c →
    c.verdict = .accepted → s.step (.undo i) = some s' → s.allowed (.undo i) = true →
    s.files = c.written ∧ s'.files = c.written
  accepted_hostname : ∀ i j c s', s.hostname_of = some j → s.changes[j]? = some c →
    c.verdict = .accepted → s.step (.undo i) = some s' → s.allowed (.undo i) = true →
    ∃ site, c.site = some site ∧ s.site.hostname = site.2.hostname ∧
      s'.site.hostname = site.2.hostname

theorem files_of_settled (h : s.Kept) (hsettled : ∀ c ∈ s.changes, c.verdict.inProgress = false) :
    s.files = s.first_files ∨ ∃ c ∈ s.changes, s.files = c.written ∧
      (c.verdict = .accepted ∨ c.verdict = .unanswered) := by
  have hall : ∀ c ∈ s.certificate.changes, c.verdict.inProgress = false := by
    intro c hc
    obtain ⟨d, hd, rfl⟩ := List.mem_map.mp hc
    exact hsettled d hd
  rcases h.certificate.of_settled hall with hfirst | ⟨c, hc, w, hw, hcontent, hverdict⟩
  · exact .inl hfirst
  · obtain ⟨d, hd, rfl⟩ := List.mem_map.mp hc
    have hwrite : (if d.replaces then some (⟨d.saved, d.written, d.over_files⟩ : Write Files)
        else none) = some w := hw
    split at hwrite
    · obtain rfl := Option.some.inj hwrite
      exact .inr ⟨d, hd, hcontent, hverdict⟩
    · cases hwrite

theorem hostname_of_settled (h : s.Kept)
    (hsettled : ∀ c ∈ s.changes, c.verdict.inProgress = false) :
    s.site.hostname = s.first_hostname ∨ ∃ c ∈ s.changes, ∃ site, c.site = some site ∧
      s.site.hostname = site.2.hostname ∧ (c.verdict = .accepted ∨ c.verdict = .unanswered) := by
  have hall : ∀ c ∈ s.hostname.changes, c.verdict.inProgress = false := by
    intro c hc
    obtain ⟨d, hd, rfl⟩ := List.mem_map.mp hc
    exact hsettled d hd
  rcases h.hostname.of_settled hall with hfirst | ⟨c, hc, w, hw, hcontent, hverdict⟩
  · exact .inl hfirst
  · obtain ⟨d, hd, rfl⟩ := List.mem_map.mp hc
    obtain ⟨site, hsite, rfl⟩ := Option.map_eq_some_iff.mp hw
    exact .inr ⟨d, hd, site, hsite, hcontent, hverdict⟩

/-- Another's change is what is in place: an undo leaves it. -/
theorem files_undo {j : Nat} {d : Change} (h : s.Kept) (hj : s.files_of = some j)
    (hc : s.changes[j]? = some c) (hd : s.changes[i]? = some d) (hother : j ≠ i)
    (hsafe : s.safe i = true) : s.files = c.written ∧ (s.undo i).files = c.written := by
  obtain ⟨⟨w, hw, -⟩, -⟩ := h.certificate.owned j hj
  have hleft := h.certificate.undo_other hj hw hother (safe_iff.mp hsafe).1
  rw [← certificate_undo hd] at hleft
  rw [certificate_writeOf hc] at hw
  split at hw
  · obtain rfl := Option.some.inj hw
    exact hleft
  · cases hw

theorem site_undo {j : Nat} {d : Change} (h : s.Kept) (hj : s.hostname_of = some j)
    (hc : s.changes[j]? = some c) (hd : s.changes[i]? = some d) (hother : j ≠ i)
    (hsafe : s.safe i = true) : ∃ site, c.site = some site ∧
      s.site.hostname = site.2.hostname ∧ (s.undo i).site.hostname = site.2.hostname := by
  obtain ⟨⟨w, hw, -⟩, -⟩ := h.hostname.owned j hj
  have hleft := h.hostname.undo_other hj hw hother (safe_iff.mp hsafe).2
  rw [← hostname_undo hd] at hleft
  rw [hostname_writeOf hc] at hw
  obtain ⟨site, hsite, rfl⟩ := Option.map_eq_some_iff.mp hw
  exact ⟨site, hsite, hleft⟩

theorem Kept.cleanly (h : s.Kept) : s.Cleanly := by
  -- the change undone was refused, so it is another one
  have hother : ∀ i j c s', s.changes[j]? = some c → c.verdict = .accepted →
      s.step (.undo i) = some s' →
        j ≠ i ∧ (∃ d, s.changes[i]? = some d) ∧ s' = s.undo i := by
    intro i j c s' hc haccepted hstep
    obtain ⟨⟨d, hd, hrefused⟩, hs'⟩ := undo_cases hstep
    refine ⟨fun heq => ?_, ⟨d, hd⟩, hs'⟩
    rw [heq, hd] at hc
    rw [Option.some.inj hc, haccepted] at hrefused
    cases hrefused
  constructor
  · intro hundone
    constructor
    · refine h.certificate.of_undone fun c hc => ?_
      obtain ⟨d, hd, rfl⟩ := List.mem_map.mp hc
      exact hundone d hd
    · refine h.hostname.of_undone fun c hc => ?_
      obtain ⟨d, hd, rfl⟩ := List.mem_map.mp hc
      exact hundone d hd
  · exact files_of_settled h
  · exact hostname_of_settled h
  · intro i j c s' hj hc haccepted hstep hsafe
    obtain ⟨hne, ⟨d, hd⟩, rfl⟩ := hother i j c s' hc haccepted hstep
    exact files_undo h hj hc hd hne hsafe
  · intro i j c s' hj hc haccepted hstep hsafe
    obtain ⟨hne, ⟨d, hd⟩, rfl⟩ := hother i j c s' hc haccepted hstep
    exact site_undo h hj hc hd hne hsafe

end State

open State

/-! ## What an undo leaves -/

/-- **Changes undo cleanly**, each undo safe. -/
theorem undone_cleanly {s : State} (h : overlapping.Reachable State.allowed s) : s.Cleanly :=
  (kept h).cleanly

/-- A certificate of the organisation, and a renamed hostname over it. -/
def first : State where
  files := ⟨some [1], some [2], none, none⟩
  site := ⟨some ['a'], some ['4', '4', '3']⟩
  first_files := ⟨some [1], some [2], none, none⟩
  first_hostname := some ['a']

theorem init_first : overlapping.Init first :=
  ⟨⟨some [1], some [2], none, none⟩, ⟨some ['a'], some ['4', '4', '3']⟩, rfl⟩

/-- Two overlap, and the newer one is refused first. -/
def inOrder : List Action :=
  [.make (.install [3] [4]), .make (.rename ['b'] ['4', '4', '3'] ⟨[5], [6], [], none⟩),
    .make (.generate [7] [8] []), .refuse 2, .undo 2, .refuse 0, .accept 1, .undo 0]

theorem undone_cleanly_inOrder :
    ∃ s, overlapping.Reachable State.allowed s ∧
      (decide (s.files = first.files ∧ s.site.hostname = some ['b'])) = true ∧ s.Cleanly := by
  have hrun : (overlapping.exec State.allowed first inOrder).any (fun s =>
      decide (s.files = first.files ∧ s.site.hostname = some ['b'])) = true := by
    decide +kernel
  obtain ⟨s, hreach, hfiles⟩ := System.exists_reachable init_first hrun
  exact ⟨s, hreach, hfiles, undone_cleanly hreach⟩

/-- Two certificates are installed, and nginx refuses both, the older one first. -/
def oldestFirst : List Action :=
  [.make (.install [3] [4]), .make (.install [5] [6]), .refuse 0, .refuse 1, .undo 0, .undo 1]

/-- The older one, refused, is what nginx is left with. -/
theorem not_undone_cleanly :
    ¬∀ s, overlapping.Reachable System.always s → s.Cleanly := by
  intro hall
  have hrun : (overlapping.exec System.always first oldestFirst).any (fun s =>
      decide (s.files = ⟨some [3], some [4], none, none⟩ ∧ s.first_files = first.files ∧
        ∀ c ∈ s.changes, c.verdict = .undone)) = true := by
    decide +kernel
  obtain ⟨s, hreach, hleft⟩ := System.exists_reachable init_first hrun
  obtain ⟨hfiles, hfirst, hundone⟩ := of_decide_eq_true hleft
  have hback := ((hall s hreach).undone hundone).1
  rw [hfiles, hfirst] at hback
  exact absurd hback (by decide)

end Certificates
end Access
end NetRollout
