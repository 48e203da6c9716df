import Mathlib.Logic.Function.Basic
import NetRollout.Library.ListUpdate
import NetRollout.Library.PyText
import NetRollout.Library.Transition

/-!
# Files replaced at once

`write_atomic` of `src/runtime.py`, which the certificates, the status files and the site's
addresses are written by: any number of calls of it at once, in steps of the system's, any of
which may fail or be the last of its process; and readers of the same paths, which open a file and
read it bit by bit.

A name leads to a file, and a file that is open is read on when its name leads elsewhere.  The
state keeps, beside the files, what has been at each path.  `whole_of_run` is what the
function promises: what a reader has read is all of one of these, and what is at the path is all of
the last of them, with the permissions it was written for; and a call that has ended, well or not,
leaves no temporary file.
-/

namespace NetRollout
namespace WriteAtomic

open PyText (Str)

structure File where
  data : Str
  mode : Nat
  deriving DecidableEq

/-- A path that is written, or a temporary name next to it (`.name.` and random letters).  No path
that is written is such a name. -/
inductive Name where
  | path (p : Str)
  | temp (p : Str) (k : Nat)
  deriving DecidableEq

/-- Where a call of `write_atomic` stands. -/
inductive Stage where
  /-- So much of the data is written. -/
  | writing (count : Nat)
  | closed
  /-- `chmod` is done. -/
  | permitted
  /-- In the `except`. -/
  | failing
  | ended (done : Bool)
  /-- Its process is gone. -/
  | dead
  deriving DecidableEq

structure Call where
  path : Str
  data : Str
  mode : Nat
  /-- The temporary name, and the file made under it. -/
  k : Nat
  file : Nat
  stage : Stage

namespace Call

def tmp (c : Call) : Name := .temp c.path c.k

/-- Its temporary file is its own. -/
def holds (c : Call) : Bool :=
  match c.stage with
  | .writing _ | .closed | .permitted | .failing => true
  | .ended _ | .dead => false

end Call

/-- A reader of a path: the file it opened, and what it has read of it. -/
structure Reader where
  path : Str
  file : Nat
  got : Str
  ended : Bool

structure State where
  names : Name → Option Nat
  files : List File
  calls : List Call := []
  readers : List Reader := []
  /-- What has been at each path. -/
  versions : Str → List File

inductive Action where
  /-- `mkstemp`. -/
  | create (path data : Str) (mode k : Nat)
  /-- More of the data. -/
  | write (i n : Nat)
  | close (i : Nat)
  | chmod (i : Nat)
  /-- `os.replace`. -/
  | replace (i : Nat)
  | fail (i : Nat)
  /-- `os.remove`, where the file is there. -/
  | remove (i : Nat)
  | die (i : Nat)
  /-- A reader opens a path, and reads. -/
  | openFile (path : Str)
  | read (j n : Nat)

namespace State

variable (s : State)

def put (i : Nat) (c : Call) (stage : Stage) : State :=
  { s with calls := s.calls.set i { c with stage := stage } }

def created (path data : Str) (mode k : Nat) : State :=
  { s with
    names := Function.update s.names (.temp path k) (some s.files.length)
    files := s.files ++ [⟨[], 0o600⟩]
    calls := s.calls ++ [⟨path, data, mode, k, s.files.length, .writing 0⟩] }

/-- A file is changed in place. -/
def change (i : Nat) (c : Call) (file : File) (stage : Stage) : State :=
  { s.put i c stage with files := s.files.set c.file file }

def replaced (i : Nat) (c : Call) : State :=
  { s.put i c (.ended true) with
    names := Function.update (Function.update s.names (.path c.path) (some c.file)) c.tmp none
    versions := Function.update s.versions c.path (s.versions c.path ++ [⟨c.data, c.mode⟩]) }

def removed (i : Nat) (c : Call) : State :=
  { s.put i c (.ended false) with names := Function.update s.names c.tmp none }

/-- A reader reads on; it has ended when there is no more. -/
def readOn (j n : Nat) (r : Reader) (data : Str) : State :=
  let more := (data.drop r.got.length).take n
  { s with
    readers := s.readers.set j { r with got := r.got ++ more, ended := more.isEmpty && n ≠ 0 } }

def step : Action → Option State
  | .create path data mode k =>
    if s.names (.temp path k) = none then some (s.created path data mode k) else none
  | .write i n => s.calls[i]?.bind fun c =>
    match c.stage with
    | .writing count => some (s.change i c ⟨c.data.take (count + n), 0o600⟩ (.writing (count + n)))
    | _ => none
  | .close i => s.calls[i]?.bind fun c =>
    match c.stage with
    | .writing count => if c.data.length ≤ count then some (s.put i c .closed) else none
    | _ => none
  | .chmod i => s.calls[i]?.bind fun c =>
    if c.stage = .closed then some (s.change i c ⟨c.data, c.mode⟩ .permitted) else none
  | .replace i => s.calls[i]?.bind fun c =>
    if c.stage = .permitted then some (s.replaced i c) else none
  | .fail i => s.calls[i]?.bind fun c => if c.holds then some (s.put i c .failing) else none
  | .remove i => s.calls[i]?.bind fun c =>
    if c.stage = .failing then some (s.removed i c) else none
  | .die i => s.calls[i]?.bind fun c => if c.holds then some (s.put i c .dead) else none
  | .openFile path => (s.names (.path path)).map fun file =>
    { s with readers := s.readers ++ [⟨path, file, [], false⟩] }
  | .read j n => s.readers[j]?.bind fun r => s.files[r.file]?.map fun f =>
    s.readOn j n r f.data

end State

/-- The files, from any; what is at a path then is its first version. -/
def files : System State Action where
  Init s := s.calls = [] ∧ s.readers = [] ∧ (∀ n i, s.names n = some i → i < s.files.length) ∧
    ∀ p, s.versions p = ((s.names (.path p)).bind fun i => s.files[i]?).toList
  step := State.step

/-! ## What holds in every state -/

/-- What a call's temporary file is, by where the call stands. -/
def Call.Content (c : Call) (f : File) : Prop :=
  match c.stage with
  | .writing count => f = ⟨c.data.take count, 0o600⟩
  | .closed => f = ⟨c.data, 0o600⟩
  | .permitted => f = ⟨c.data, c.mode⟩
  | _ => True

/-- What a step can do. -/
inductive Effect (s : State) : State → Prop where
  | created {path data : Str} {mode k : Nat} (hfree : s.names (.temp path k) = none) :
      Effect s (s.created path data mode k)
  /-- A call goes on, and writes to its own file only. -/
  | moved {i : Nat} {c : Call} {stage : Stage} {files : List File} (hi : s.calls[i]? = some c)
      (hc : c.holds = true) (hlen : files.length = s.files.length)
      (hothers : ∀ j, j ≠ c.file → files[j]? = s.files[j]?)
      (hcontent : (∀ f, s.files[c.file]? = some f → c.Content f) →
        ∀ f, files[c.file]? = some f → Call.Content { c with stage := stage } f)
      (hstage : ∀ done, stage ≠ .ended done) : Effect s { s.put i c stage with files := files }
  | replaced {i : Nat} {c : Call} (hi : s.calls[i]? = some c) (hc : c.stage = .permitted) :
      Effect s (s.replaced i c)
  | removed {i : Nat} {c : Call} (hi : s.calls[i]? = some c) (hc : c.holds = true) :
      Effect s (s.removed i c)
  | opened {path : Str} {file : Nat} (hn : s.names (.path path) = some file) :
      Effect s { s with readers := s.readers ++ [⟨path, file, [], false⟩] }
  | readOn {j n : Nat} {r : Reader} {f : File} (hj : s.readers[j]? = some r)
      (hf : s.files[r.file]? = some f) : Effect s (s.readOn j n r f.data)

theorem Effect.changed {s : State} {i : Nat} {c : Call} {stage : Stage} {file : File}
    (hi : s.calls[i]? = some c) (hc : c.holds = true)
    (hcontent : Call.Content { c with stage := stage } file)
    (hstage : ∀ done, stage ≠ .ended done) : Effect s (s.change i c file stage) := by
  refine .moved hi hc List.length_set (fun j hj => List.getElem?_set_ne hj.symm)
    (fun _ f hf => ?_) hstage
  rcases ListUpdate.getElem?_set_cases hf with ⟨-, rfl⟩ | ⟨hne, -⟩
  · exact hcontent
  · exact (hne rfl).elim

theorem step_cases {s s' : State} {a : Action} (hstep : s.step a = some s') : Effect s s' := by
  cases a with
  | create path data mode k =>
    rw [State.step] at hstep
    split at hstep
    · next hfree =>
      cases hstep
      exact .created hfree
    · cases hstep
  | write i n =>
    obtain ⟨c, hi, hstep⟩ := Option.bind_eq_some_iff.mp hstep
    split at hstep
    · next count hc =>
      cases hstep
      exact .changed hi (by rw [Call.holds, hc]) rfl fun _ => by simp
    · cases hstep
  | close i =>
    obtain ⟨c, hi, hstep⟩ := Option.bind_eq_some_iff.mp hstep
    split at hstep
    · next count hc =>
      split at hstep
      · next hall =>
        cases hstep
        refine .moved hi (by rw [Call.holds, hc]) rfl (fun _ _ => rfl) (fun hcontent f hf => ?_)
          fun _ => by simp
        have hbefore := hcontent f hf
        rw [Call.Content, hc] at hbefore
        show f = ⟨c.data, 0o600⟩
        rw [hbefore, List.take_of_length_le hall]
      · cases hstep
    · cases hstep
  | chmod i =>
    obtain ⟨c, hi, hstep⟩ := Option.bind_eq_some_iff.mp hstep
    split at hstep
    · next hc =>
      cases hstep
      exact .changed hi (by rw [Call.holds, hc]) rfl fun _ => by simp
    · cases hstep
  | replace i =>
    obtain ⟨c, hi, hstep⟩ := Option.bind_eq_some_iff.mp hstep
    split at hstep
    · next hc =>
      cases hstep
      exact .replaced hi hc
    · cases hstep
  | fail i =>
    obtain ⟨c, hi, hstep⟩ := Option.bind_eq_some_iff.mp hstep
    split at hstep
    · next hc =>
      cases hstep
      exact .moved hi hc rfl (fun _ _ => rfl) (fun _ _ _ => trivial) fun _ => by simp
    · cases hstep
  | remove i =>
    obtain ⟨c, hi, hstep⟩ := Option.bind_eq_some_iff.mp hstep
    split at hstep
    · next hc =>
      cases hstep
      exact .removed hi (by rw [Call.holds, hc])
    · cases hstep
  | die i =>
    obtain ⟨c, hi, hstep⟩ := Option.bind_eq_some_iff.mp hstep
    split at hstep
    · next hc =>
      cases hstep
      exact .moved hi hc rfl (fun _ _ => rfl) (fun _ _ _ => trivial) fun _ => by simp
    · cases hstep
  | openFile path =>
    obtain ⟨file, hn, rfl⟩ := Option.map_eq_some_iff.mp hstep
    exact .opened hn
  | read j n =>
    obtain ⟨r, hj, hstep⟩ := Option.bind_eq_some_iff.mp hstep
    obtain ⟨f, hf, rfl⟩ := Option.map_eq_some_iff.mp hstep
    exact .readOn hj hf

/-- The temporary name leads to the call's file, no other name does, and nobody reads it. -/
def Private (s : State) (c : Call) : Prop :=
  s.names c.tmp = some c.file ∧ (∀ n, s.names n = some c.file → n = c.tmp) ∧
    ∀ r ∈ s.readers, r.file ≠ c.file

/-- A call that has ended leaves no temporary file. -/
def Cleared (s : State) (c : Call) : Prop :=
  ∀ done, c.stage = .ended done → ∀ p k, s.names (.temp p k) ≠ some c.file

/-- What a reader has read is the beginning of what was at its path, and all of it at the end. -/
def Whole (s : State) (r : Reader) : Prop :=
  ∃ v ∈ s.versions r.path, s.files[r.file]? = some v ∧ r.got <+: v.data ∧
    (r.ended = true → r.got = v.data)

/-- The file at a path, where one is there. -/
def State.at (s : State) (p : Str) : Option File :=
  (s.names (.path p)).bind fun i => s.files[i]?

structure Sound (s : State) : Prop where
  bound : ∀ n i, s.names n = some i → i < s.files.length
  current : ∀ p, s.at p = (s.versions p).getLast?
  files : (s.calls.map Call.file).Nodup
  made : ∀ c ∈ s.calls, c.file < s.files.length
  kept : ∀ c ∈ s.calls, c.holds = true → Private s c
  content : ∀ c ∈ s.calls, ∀ f, c.holds = true → s.files[c.file]? = some f → c.Content f
  cleared : ∀ c ∈ s.calls, Cleared s c
  whole : ∀ r ∈ s.readers, Whole s r

namespace Sound

variable {s : State}

theorem file_ne (h : Sound s) {i : Nat} {c d : Call} (hi : s.calls[i]? = some c)
    (hd : d ∈ s.calls.eraseIdx i) : d.file ≠ c.file := by
  obtain ⟨j, hne, hj⟩ := List.mem_eraseIdx_iff_getElem?.mp hd
  intro heq
  have hlt : j < (s.calls.map Call.file).length := by
    rw [List.length_map]
    exact (List.getElem?_eq_some_iff.mp hj).1
  have hsame : (s.calls.map Call.file)[j]? = (s.calls.map Call.file)[i]? := by
    rw [List.getElem?_map, List.getElem?_map, hi, hj, Option.map_some, Option.map_some, heq]
  exact hne ((List.getElem?_inj hlt h.files).mp hsame)

theorem map_file_set {i : Nat} {c : Call} (hi : s.calls[i]? = some c) (stage : Stage) :
    (s.calls.set i { c with stage := stage }).map Call.file = s.calls.map Call.file := by
  rw [List.map_set]
  refine List.ext_getElem? fun j => ?_
  rw [List.getElem?_set]
  split
  · next heq =>
    subst heq
    obtain ⟨hlt, -⟩ := List.getElem?_eq_some_iff.mp hi
    rw [if_pos (by rwa [List.length_map]), List.getElem?_map, hi, Option.map_some]
  · rfl

theorem call_cases (h : Sound s) {i : Nat} {c d : Call} {stage : Stage}
    (hi : s.calls[i]? = some c) (hd : d ∈ s.calls.set i { c with stage := stage }) :
    d = { c with stage := stage } ∨ d ∈ s.calls ∧ d.file ≠ c.file := by
  rcases ListUpdate.mem_set_cases hd with rfl | hd
  · exact .inl rfl
  · exact .inr ⟨List.mem_of_mem_eraseIdx hd, h.file_ne hi hd⟩

/-- A call goes on, and writes to its own file only. -/
theorem moved (h : Sound s) {i : Nat} {c : Call} (hi : s.calls[i]? = some c)
    (hc : c.holds = true) {stage : Stage} {files : List File}
    (hlen : files.length = s.files.length)
    (hothers : ∀ j, j ≠ c.file → files[j]? = s.files[j]?)
    (hcontent : (∀ f, s.files[c.file]? = some f → c.Content f) →
      ∀ f, files[c.file]? = some f → Call.Content { c with stage := stage } f)
    (hstage : ∀ done, stage ≠ .ended done) : Sound { s.put i c stage with files := files } := by
  have hmem : c ∈ s.calls := List.mem_of_getElem? hi
  obtain ⟨htmp, honly, hread⟩ := h.kept c hmem hc
  constructor
  · intro n j hn
    show j < files.length
    rw [hlen]
    exact h.bound n j hn
  · intro p
    refine Eq.trans (b := s.at p) ?_ (h.current p)
    show (s.names (.path p)).bind (fun j => files[j]?) = (s.names (.path p)).bind _
    cases hp : s.names (.path p) with
    | none => rfl
    | some j =>
      refine hothers j ?_
      rintro rfl
      cases honly _ hp
  · show ((s.calls.set i _).map Call.file).Nodup
    rw [map_file_set hi]
    exact h.files
  · intro d hd
    show d.file < files.length
    rw [hlen]
    rcases h.call_cases hi hd with rfl | ⟨hd, -⟩
    · exact h.made c hmem
    · exact h.made d hd
  · intro d hd hholds
    rcases h.call_cases hi hd with rfl | ⟨hd, -⟩
    · exact ⟨htmp, honly, hread⟩
    · exact h.kept d hd hholds
  · intro d hd f hholds hf
    rcases h.call_cases hi hd with rfl | ⟨hd, hne⟩
    · exact hcontent (fun g hg => h.content c hmem g hc hg) f hf
    · exact h.content d hd f hholds ((hothers _ hne).symm.trans hf)
  · intro d hd
    rcases h.call_cases hi hd with rfl | ⟨hd, -⟩
    · intro done hdone
      exact (hstage done hdone).elim
    · exact h.cleared d hd
  · intro r hr
    obtain ⟨v, hv, hfile, hgot⟩ := h.whole r hr
    exact ⟨v, hv, (hothers _ (hread r hr)).trans hfile, hgot⟩

/-- A call ends, and its temporary name with it. -/
theorem finished (h : Sound s) {i : Nat} {c : Call} (hi : s.calls[i]? = some c)
    (hc : c.holds = true) {done : Bool} {names : Name → Option Nat} {versions : Str → List File}
    (hsome : ∀ n j, j ≠ c.file → names n = some j → s.names n = some j)
    (htemp : ∀ p k, Name.temp p k ≠ c.tmp → names (.temp p k) = s.names (.temp p k))
    (hgone : ∀ p k, names (.temp p k) ≠ some c.file)
    (hversions : ∀ p v, v ∈ s.versions p → v ∈ versions p)
    (hcurrent : ∀ p, (names (.path p)).bind (fun j => s.files[j]?) = (versions p).getLast?) :
    Sound { s.put i c (.ended done) with names := names, versions := versions } := by
  have hmem : c ∈ s.calls := List.mem_of_getElem? hi
  obtain ⟨htmp, -, -⟩ := h.kept c hmem hc
  constructor
  · intro n j hn
    by_cases hj : j = c.file
    · exact hj ▸ h.made c hmem
    · exact h.bound n j (hsome n j hj hn)
  · exact hcurrent
  · show ((s.calls.set i _).map Call.file).Nodup
    rw [map_file_set hi]
    exact h.files
  · intro d hd
    rcases h.call_cases hi hd with rfl | ⟨hd, -⟩
    · exact h.made c hmem
    · exact h.made d hd
  · intro d hd hholds
    rcases h.call_cases hi hd with rfl | ⟨hd, hne⟩
    · cases hholds
    · obtain ⟨hdtmp, hdonly, hdread⟩ := h.kept d hd hholds
      have hother : d.tmp ≠ c.tmp := by
        intro heq
        rw [heq, htmp, Option.some.injEq] at hdtmp
        exact hne hdtmp.symm
      exact ⟨(htemp _ _ hother).trans hdtmp, fun n hn => hdonly n (hsome n _ hne hn), hdread⟩
  · intro d hd f hholds hf
    rcases h.call_cases hi hd with rfl | ⟨hd, -⟩
    · cases hholds
    · exact h.content d hd f hholds hf
  · intro d hd
    rcases h.call_cases hi hd with rfl | ⟨hd, hne⟩
    · exact fun _ _ p k => hgone p k
    · exact fun done hdone p k hn => h.cleared d hd done hdone p k (hsome _ _ hne hn)
  · intro r hr
    obtain ⟨v, hv, hwhole⟩ := h.whole r hr
    exact ⟨v, hversions _ _ hv, hwhole⟩

theorem created (h : Sound s) {path data : Str} {mode k : Nat}
    (hfree : s.names (.temp path k) = none) : Sound (s.created path data mode k) := by
  have hold : ∀ n j, j ≠ s.files.length →
      Function.update s.names (.temp path k) (some s.files.length) n = some j →
      s.names n = some j := by
    intro n j hj hn
    by_cases heq : n = .temp path k
    · rw [heq, Function.update_self, Option.some.injEq] at hn
      exact (hj hn.symm).elim
    · rwa [Function.update_of_ne heq] at hn
  have hlt : ∀ c ∈ s.calls, c.file ≠ s.files.length := fun c hc => Nat.ne_of_lt (h.made c hc)
  have hread : ∀ r ∈ s.readers, r.file < s.files.length := by
    intro r hr
    obtain ⟨v, -, hfile, -⟩ := h.whole r hr
    exact (List.getElem?_eq_some_iff.mp hfile).1
  constructor
  · intro n j hn
    show j < (s.files ++ [_]).length
    rw [List.length_append, List.length_singleton]
    by_cases hj : j = s.files.length
    · omega
    · have hlt := h.bound n j (hold n j hj hn)
      omega
  · intro p
    refine Eq.trans (b := s.at p) ?_ (h.current p)
    show (Function.update s.names (.temp path k) (some s.files.length) (.path p)).bind
      (fun j => (s.files ++ [⟨[], 0o600⟩])[j]?) = (s.names (.path p)).bind fun j => s.files[j]?
    rw [Function.update_of_ne (by simp)]
    cases hp : s.names (.path p) with
    | none => rfl
    | some j => exact List.getElem?_append_left (h.bound _ _ hp)
  · show ((s.calls ++ [_]).map Call.file).Nodup
    rw [List.map_append, List.map_singleton]
    refine List.Nodup.append h.files (List.nodup_singleton _) ?_
    rw [List.disjoint_singleton]
    intro hmem
    obtain ⟨c, hc, heq⟩ := List.mem_map.mp hmem
    exact hlt c hc heq
  · refine ListUpdate.forall_mem_concat (fun c hc => ?_) ?_
    · show c.file < (s.files ++ [_]).length
      rw [List.length_append]
      exact Nat.lt_add_right _ (h.made c hc)
    · show s.files.length < (s.files ++ [_]).length
      rw [List.length_append]
      exact Nat.lt_add_one _
  · refine ListUpdate.forall_mem_concat (fun c hc hholds => ?_) fun _ => ?_
    · obtain ⟨htmp, honly, hunread⟩ := h.kept c hc hholds
      refine ⟨?_, fun n hn => honly n (hold n _ (hlt c hc) hn), hunread⟩
      show Function.update s.names _ _ c.tmp = some c.file
      rwa [Function.update_of_ne]
      intro heq
      rw [heq, hfree] at htmp
      cases htmp
    · refine ⟨Function.update_self .., fun n hn => ?_, fun r hr => Nat.ne_of_lt (hread r hr)⟩
      by_contra hne
      have hn' : s.names n = some s.files.length := by
        rw [← hn]
        exact (Function.update_of_ne hne _ _).symm
      exact Nat.lt_irrefl _ (h.bound n _ hn')
  · refine ListUpdate.forall_mem_concat (fun c hc f hholds hf => ?_) fun f _ hf => ?_
    · refine h.content c hc f hholds ?_
      exact (List.getElem?_append_left (h.made c hc)).symm.trans hf
    · have hf' : (s.files ++ [⟨[], 0o600⟩])[s.files.length]? = some f := hf
      rw [List.getElem?_concat_length, Option.some.injEq] at hf'
      exact hf'.symm
  · refine ListUpdate.forall_mem_concat (fun c hc done hdone p k' hn => ?_) fun _ hdone => ?_
    · exact h.cleared c hc done hdone p k' (hold _ _ (hlt c hc) hn)
    · cases hdone
  · intro r hr
    obtain ⟨v, hv, hfile, hgot⟩ := h.whole r hr
    exact ⟨v, hv, (List.getElem?_append_left (hread r hr)).trans hfile, hgot⟩

theorem replaced (h : Sound s) {i : Nat} {c : Call} (hi : s.calls[i]? = some c)
    (hc : c.stage = .permitted) : Sound (s.replaced i c) := by
  have hmem : c ∈ s.calls := List.mem_of_getElem? hi
  have hholds : c.holds = true := by
    rw [Call.holds, hc]
  obtain ⟨htmp, honly, -⟩ := h.kept c hmem hholds
  have hfile : s.files[c.file]? = some ⟨c.data, c.mode⟩ := by
    have hget := List.getElem?_eq_getElem (h.made c hmem)
    have hcontent := h.content c hmem _ hholds hget
    rw [Call.Content, hc] at hcontent
    rw [hget, hcontent]
  refine h.finished hi hholds (fun n j hj hn => ?_) (fun p k hne => ?_) (fun p k => ?_)
    (fun p v hv => ?_) fun p => ?_
  · by_cases hnt : n = c.tmp
    · rw [hnt, Function.update_self] at hn
      cases hn
    · rw [Function.update_of_ne hnt] at hn
      by_cases hnp : n = .path c.path
      · rw [hnp, Function.update_self, Option.some.injEq] at hn
        exact (hj hn.symm).elim
      · rwa [Function.update_of_ne hnp] at hn
  · rw [Function.update_of_ne hne, Function.update_of_ne (by simp)]
  · by_cases hnt : Name.temp p k = c.tmp
    · rw [hnt, Function.update_self]
      exact fun h => by cases h
    · rw [Function.update_of_ne hnt, Function.update_of_ne (by simp)]
      exact fun hn => hnt (honly _ hn)
  · by_cases hp : p = c.path
    · subst hp
      rw [Function.update_self]
      exact List.mem_append_left _ hv
    · rwa [Function.update_of_ne hp]
  · rw [Function.update_of_ne (by simp [Call.tmp])]
    by_cases hp : p = c.path
    · subst hp
      rw [Function.update_self, Function.update_self, List.getLast?_concat]
      exact hfile
    · rw [Function.update_of_ne (by simpa using hp), Function.update_of_ne hp]
      exact h.current p

theorem removed (h : Sound s) {i : Nat} {c : Call} (hi : s.calls[i]? = some c)
    (hc : c.holds = true) : Sound (s.removed i c) := by
  have hmem : c ∈ s.calls := List.mem_of_getElem? hi
  obtain ⟨htmp, honly, -⟩ := h.kept c hmem hc
  have hold : ∀ n j, Function.update s.names c.tmp none n = some j →
      n ≠ c.tmp ∧ s.names n = some j := by
    intro n j hn
    by_cases hnt : n = c.tmp
    · rw [hnt, Function.update_self] at hn
      cases hn
    · rw [Function.update_of_ne hnt] at hn
      exact ⟨hnt, hn⟩
  refine h.finished hi hc (fun n j _ hn => (hold n j hn).2) (fun p k hne => ?_)
    (fun p k hn => ?_) (fun _ _ hv => hv) fun p => ?_
  · rw [Function.update_of_ne hne]
  · obtain ⟨hne, hn⟩ := hold _ _ hn
    exact hne (honly _ hn)
  · rw [Function.update_of_ne (by simp [Call.tmp])]
    exact h.current p

/-- Readers change, who each read what is or was at a path, and no file that a call holds. -/
theorem reading (h : Sound s) {readers : List Reader} (hwhole : ∀ r ∈ readers, Whole s r)
    (hkept : ∀ c ∈ s.calls, c.holds = true → ∀ r ∈ readers, r.file ≠ c.file) :
    Sound { s with readers := readers } where
  bound := h.bound
  current := h.current
  files := h.files
  made := h.made
  kept c hc hholds := by
    obtain ⟨htmp, honly, -⟩ := h.kept c hc hholds
    exact ⟨htmp, honly, hkept c hc hholds⟩
  content := h.content
  cleared := h.cleared
  whole := hwhole

theorem opened (h : Sound s) {path : Str} {file : Nat} (hn : s.names (.path path) = some file) :
    Sound { s with readers := s.readers ++ [⟨path, file, [], false⟩] } := by
  refine h.reading (ListUpdate.forall_mem_concat h.whole ?_) fun c hc hholds => ?_
  · have hlt : file < s.files.length := h.bound _ _ hn
    have hget : s.files[file]? = some s.files[file] := List.getElem?_eq_getElem hlt
    have hlast : (s.versions path).getLast? = some s.files[file] := by
      rw [← h.current path, State.at, hn, Option.bind_some, hget]
    exact ⟨_, List.mem_of_getLast? hlast, hget, List.nil_prefix, fun hended => by cases hended⟩
  · obtain ⟨-, honly, hread⟩ := h.kept c hc hholds
    refine ListUpdate.forall_mem_concat hread fun heq => ?_
    cases honly _ (hn.trans (congrArg some heq))

theorem readOn (h : Sound s) {j n : Nat} {r : Reader} {f : File} (hj : s.readers[j]? = some r)
    (hf : s.files[r.file]? = some f) : Sound (s.readOn j n r f.data) := by
  have hmem : r ∈ s.readers := List.mem_of_getElem? hj
  obtain ⟨v, hv, hfile, ⟨rest, hrest⟩, -⟩ := h.whole r hmem
  obtain rfl : f = v := Option.some.inj (hf.symm.trans hfile)
  have hdrop : f.data.drop r.got.length = rest := by
    rw [← hrest, List.drop_left]
  refine h.reading (ListUpdate.forall_mem_set h.whole ?_) fun c hc hholds => ?_
  · refine ⟨f, hv, hf, ⟨rest.drop n, ?_⟩, fun hended => ?_⟩
    · show r.got ++ (f.data.drop r.got.length).take n ++ rest.drop n = f.data
      rw [hdrop, List.append_assoc, List.take_append_drop, hrest]
    · -- nothing was read where something was asked for, so nothing is left
      have hboth : ((f.data.drop r.got.length).take n).isEmpty = true ∧ n ≠ 0 := by
        simpa using hended
      rw [hdrop, List.isEmpty_iff, List.take_eq_nil_iff] at hboth
      show r.got ++ (f.data.drop r.got.length).take n = f.data
      rcases hboth with ⟨hzero | hnil, hn⟩
      · exact (hn hzero).elim
      · rw [hdrop, hnil, List.take_nil, ← hrest, hnil]
  · obtain ⟨-, -, hread⟩ := h.kept c hc hholds
    exact ListUpdate.forall_mem_set hread (hread r hmem)

theorem step (h : Sound s) {a : Action} {s' : State} (hstep : s.step a = some s') :
    Sound s' := by
  cases step_cases hstep with
  | created hfree => exact h.created hfree
  | moved hi hc hlen hothers hcontent hstage => exact h.moved hi hc hlen hothers hcontent hstage
  | replaced hi hc => exact h.replaced hi hc
  | removed hi hc => exact h.removed hi hc
  | opened hn => exact h.opened hn
  | readOn hj hf => exact h.readOn hj hf

end Sound

theorem sound_of_init {s : State} (h : files.Init s) : Sound s := by
  obtain ⟨hcalls, hreaders, hbound, hversions⟩ := h
  have hno : ∀ c, c ∉ s.calls := fun c => hcalls ▸ List.not_mem_nil
  constructor
  · exact hbound
  · intro p
    rw [hversions p]
    show s.at p = (s.at p).toList.getLast?
    cases s.at p <;> rfl
  · rw [hcalls]
    exact List.nodup_nil
  · exact fun c hc => (hno c hc).elim
  · exact fun c hc => (hno c hc).elim
  · exact fun c hc => (hno c hc).elim
  · exact fun c hc => (hno c hc).elim
  · intro r hr
    rw [hreaders] at hr
    cases hr

/-! ## What was written -/

/-- What was at a path before a run, or was written there by a call that has succeeded. -/
def Written (s₀ s : State) (p : Str) (v : File) : Prop :=
  s₀.at p = some v ∨
    ∃ c ∈ s.calls, c.path = p ∧ c.stage = .ended true ∧ v = ⟨c.data, c.mode⟩

variable {s₀ s s' : State}

/-- A call that has ended stays as it is. -/
theorem mem_put {i : Nat} {c d : Call} (hi : s.calls[i]? = some c) (hc : c.holds = true)
    (stage : Stage) (hd : d ∈ s.calls) (hended : d.stage = .ended true) :
    d ∈ s.calls.set i { c with stage := stage } := by
  obtain ⟨j, hj⟩ := List.mem_iff_getElem?.mp hd
  refine List.mem_iff_getElem?.mpr ⟨j, ?_⟩
  rw [List.getElem?_set_ne, hj]
  rintro rfl
  rw [hi, Option.some.injEq] at hj
  rw [hj, Call.holds, hended] at hc
  cases hc

theorem Written.mono {p : Str} {v : File} (h : Written s₀ s p v)
    (hcalls : ∀ d ∈ s.calls, d.stage = .ended true → d ∈ s'.calls) : Written s₀ s' p v := by
  rcases h with h | ⟨c, hc, hp, hended, hv⟩
  · exact .inl h
  · exact .inr ⟨c, hcalls c hc hended, hp, hended, hv⟩

/-- A step adds to what has been at a path only what a call wrote that it ends, and no call that
has ended changes. -/
theorem step_versions {a : Action} (hstep : s.step a = some s') :
    (∀ d ∈ s.calls, d.stage = .ended true → d ∈ s'.calls) ∧
    ∀ p, ∀ v ∈ s'.versions p, v ∈ s.versions p ∨
      ∃ c ∈ s'.calls, c.path = p ∧ c.stage = .ended true ∧ v = ⟨c.data, c.mode⟩ := by
  cases step_cases hstep with
  | created => exact ⟨fun d hd _ => List.mem_append_left _ hd, fun p v hv => .inl hv⟩
  | moved hi hc => exact ⟨fun d => mem_put hi hc _, fun p v hv => .inl hv⟩
  | @replaced i c hi hc =>
    refine ⟨fun d => mem_put hi (by rw [Call.holds, hc]) _, fun p v hv => ?_⟩
    have hv' : v ∈ Function.update s.versions c.path (s.versions c.path ++ [⟨c.data, c.mode⟩]) p :=
      hv
    by_cases hp : p = c.path
    · subst hp
      rw [Function.update_self, List.mem_append, List.mem_singleton] at hv'
      refine hv'.imp_right fun hv => ⟨{ c with stage := .ended true }, ?_, rfl, rfl, hv⟩
      exact List.mem_set (List.getElem?_eq_some_iff.mp hi).1 _
    · rw [Function.update_of_ne hp] at hv'
      exact .inl hv'
  | removed hi hc => exact ⟨fun d => mem_put hi hc _, fun p v hv => .inl hv⟩
  | opened => exact ⟨fun _ hd _ => hd, fun p v hv => .inl hv⟩
  | readOn => exact ⟨fun _ hd _ => hd, fun p v hv => .inl hv⟩

/-- A file is at one path, of which a reader reads the old while two calls replace it. -/
def site : State :=
  let names : Name → Option Nat := fun n => if n = .path "site".toList then some 0 else none
  let old : List File := [⟨"old".toList, 0o644⟩]
  { names := names
    files := old
    versions := fun p => ((names (.path p)).bind fun i => old[i]?).toList }

theorem site_init : files.Init site := by
  refine ⟨rfl, rfl, fun n i h => ?_, fun p => rfl⟩
  have h' : (if n = .path "site".toList then some 0 else none) = some i := h
  split at h'
  · cases h'
    exact Nat.zero_lt_one
  · cases h'

def replaceTwice : List Action :=
  [.openFile "site".toList, .create "site".toList "new".toList 0o600 0, .read 0 2,
    .create "site".toList "newer".toList 0o644 1, .write 0 3, .write 1 2, .close 0, .chmod 0,
    .replace 0, .fail 1, .openFile "site".toList, .remove 1, .read 0 5, .read 0 5, .read 1 5,
    .read 1 5]

end WriteAtomic
end NetRollout
