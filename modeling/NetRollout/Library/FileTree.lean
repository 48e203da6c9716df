import Mathlib.Data.List.Infix
import Mathlib.Data.List.Induction
import Mathlib.Logic.Function.Basic
import NetRollout.Library.Effects
import NetRollout.Library.PyText

/-!
# Folders and files

A file system as the names it has: what is at each path, a folder or a file with its permissions.
The operations are those of `pathlib` and `open`.  A path is looked up name by name, so a `..` in
it leads back to where the names before it came from, and an operation that fails leaves what it
had done.

A program on it keeps a property of the tree if each of its writes does (`Keeps`): a folder made
where nothing was, a file written where no folder was, and a tree removed.  One that succeeds has
made just the writes it was asked for (`mkdirs_ok`, `write_ok`).
-/

namespace NetRollout
namespace FileTree

open PyText (Str)
open Effects (Keeps)

/-! ## Trees -/

/-- The names from the root on. -/
abbrev Path := List Str

/-- What a path names; a file holds a `δ`. -/
inductive Node (δ : Type) where
  | dir
  | file (data : δ) (mode : Nat)

variable {δ ε : Type}

abbrev Nodes (δ : Type) := Path → Option (Node δ)

/-- Whatever has a name is in a folder. -/
def Rooted (t : Nodes δ) : Prop := ∀ p name, t (p ++ [name]) ≠ none → t p = some .dir

/-- Below nothing there is nothing. -/
theorem Rooted.eq_none {t : Nodes δ} (h : Rooted t) {p q : Path} (hp : t p = none)
    (hq : p <+: q) : t q = none := by
  obtain ⟨names, rfl⟩ := hq
  induction names using List.reverseRecOn with
  | nil => rwa [List.append_nil]
  | append_singleton names name ih =>
    by_contra hne
    rw [← List.append_assoc] at hne
    rw [h _ name hne] at ih
    cases ih

/-- Where a path leads. -/
def located (p : Path) : Path :=
  p.foldl (fun q name => if name = ['.', '.'] then q.dropLast else q ++ [name]) []

theorem located_append {p : Path} (q : Path) (h : ['.', '.'] ∉ q) :
    located (p ++ q) = located p ++ q := by
  induction q generalizing p with
  | nil => rw [List.append_nil, List.append_nil]
  | cons name q ih =>
    have hname : name ≠ ['.', '.'] := fun heq => h (heq ▸ List.mem_cons_self)
    have hstep : located (p ++ [name]) = located p ++ [name] := by
      simp only [located, List.foldl_append, List.foldl_cons, List.foldl_nil, if_neg hname]
    calc located (p ++ name :: q) = located ((p ++ [name]) ++ q) := by
          rw [List.append_assoc, List.singleton_append]
      _ = located (p ++ [name]) ++ q := ih fun hmem => h (List.mem_cons_of_mem name hmem)
      _ = located p ++ name :: q := by
          rw [hstep, List.append_assoc, List.singleton_append]

theorem located_of_plain {p : Path} (h : ['.', '.'] ∉ p) : located p = p :=
  located_append (p := []) p h

/-- A program on the file system. -/
abbrev Disk (δ ε : Type) := EStateM ε (Nodes δ)

/-! ## Operations -/

/-- `mkdir(exist_ok=True)` of a path whose parent is there. -/
def mkdir (e : ε) (p : Path) : Disk δ ε Unit := do
  match (← get) (located p) with
  | none => modify fun t => Function.update t (located p) (some .dir)
  | some .dir => pure ()
  | some (.file _ _) => throw e

/-- `mkdir(parents=True, exist_ok=True)`: the topmost first. -/
def mkdirs (e : ε) (p : Path) : Disk δ ε Unit := p.inits.forM (mkdir e)

/-- `open(p, "wb")` and all of `data` written.  A file that is there keeps its permissions, and a
new one has those of `umask`. -/
def write (e : ε) (umask : Nat) (p : Path) (data : δ) : Disk δ ε Unit := do
  let t ← get
  match t (located p).dropLast, t (located p) with
  | some .dir, none => modify fun t => Function.update t (located p) (some (.file data umask))
  | some .dir, some (.file _ mode) =>
    modify fun t => Function.update t (located p) (some (.file data mode))
  | _, _ => throw e

/-- `chmod` of a file. -/
def chmod (p : Path) (mode : Nat) : Disk δ ε Unit :=
  modify fun t =>
    match t (located p) with
    | some (.file data _) => Function.update t (located p) (some (.file data mode))
    | _ => t

/-- `shutil.rmtree`, of a folder. -/
def rmtree (e : ε) (p : Path) : Disk δ ε Unit := do
  match (← get) (located p) with
  | some .dir => modify fun t q => if (located p).isPrefixOf q then none else t q
  | _ => throw e

/-! ## What a program keeps -/

variable {I : Nodes δ → Prop} {e : ε} {p : Path}

theorem keeps_get {α : Type} {f : Nodes δ → Disk δ ε α}
    (h : ∀ t, I t → I (Effects.left (f t t))) : Keeps I (get >>= f) := fun t ht => h t ht

theorem keeps_mkdir
    (h : ∀ t, I t → t (located p) = none → I (Function.update t (located p) (some .dir))) :
    Keeps I (mkdir e p) := by
  refine keeps_get fun t ht => ?_
  cases hp : t (located p) with
  | none => exact h t ht hp
  | some node =>
    cases node with
    | dir => exact ht
    | file data mode => exact ht

theorem keeps_forM {α : Type} {f : α → Disk δ ε Unit} {as : List α}
    (h : ∀ a ∈ as, Keeps I (f a)) : Keeps I (as.forM f) := by
  induction as with
  | nil => exact Keeps.pure ()
  | cons a as ih =>
    exact (h a List.mem_cons_self).bind fun _ => ih fun b hb => h b (List.mem_cons_of_mem a hb)

theorem keeps_mkdirs
    (h : ∀ q, q <+: p → ∀ t, I t → t (located q) = none →
      I (Function.update t (located q) (some .dir))) : Keeps I (mkdirs e p) :=
  keeps_forM fun q hq => keeps_mkdir (h q ((List.mem_inits q p).mp hq))

theorem keeps_write {umask : Nat} {data : δ}
    (h : ∀ t mode, I t → t (located p) ≠ some .dir →
      I (Function.update t (located p) (some (.file data mode)))) :
    Keeps I (write e umask p data) := by
  refine keeps_get fun t ht => ?_
  cases hparent : t (located p).dropLast with
  | none => exact ht
  | some node =>
    cases node with
    | file old mode => exact ht
    | dir =>
      cases hp : t (located p) with
      | none => exact h t umask ht (by rw [hp]; simp)
      | some node =>
        cases node with
        | dir => exact ht
        | file old mode => exact h t mode ht (by rw [hp]; simp)

theorem keeps_chmod {mode : Nat}
    (h : ∀ t data old, I t → t (located p) = some (.file data old) →
      I (Function.update t (located p) (some (.file data mode)))) :
    Keeps I (chmod p mode : Disk δ ε Unit) := by
  refine Keeps.modify fun t ht => ?_
  cases hp : t (located p) with
  | none => exact ht
  | some node =>
    cases node with
    | dir => exact ht
    | file data old => exact h t data old ht hp

theorem keeps_rmtree
    (h : ∀ t, I t → I fun q => if (located p).isPrefixOf q then none else t q) :
    Keeps I (rmtree e p) := by
  refine keeps_get fun t ht => ?_
  cases hp : t (located p) with
  | none => exact ht
  | some node =>
    cases node with
    | file data mode => exact ht
    | dir => exact h t ht

/-! ## What a program that succeeds has done -/

/-- A program that succeeds succeeded at each step. -/
theorem exists_of_bind {σ α β : Type} {x : EStateM ε σ α} {f : α → EStateM ε σ β} {s s' : σ}
    {b : β} (h : (x >>= f) s = .ok b s') : ∃ a t, x s = .ok a t ∧ f a t = .ok b s' := by
  cases hx : x s with
  | ok a t => exact ⟨a, t, rfl, by rwa [Effects.bind_of_ok hx] at h⟩
  | error raised t =>
    rw [Effects.bind_of_error hx] at h
    cases h

variable {t t' : Nodes δ}

theorem mkdir_ok {u : Unit} (h : mkdir e p t = .ok u t') :
    (t (located p) = none ∨ t (located p) = some .dir) ∧
      t' = Function.update t (located p) (some .dir) := by
  have hrun : mkdir e p t = (match t (located p) with
    | none => modify fun t => Function.update t (located p) (some .dir)
    | some .dir => pure ()
    | some (.file _ _) => throw e : Disk δ ε Unit) t := rfl
  rw [hrun] at h
  cases hp : t (located p) with
  | none =>
    rw [hp] at h
    cases h
    exact ⟨.inl rfl, rfl⟩
  | some node =>
    rw [hp] at h
    cases node with
    | file data mode => cases h
    | dir =>
      cases h
      exact ⟨.inr rfl, by rw [← hp, Function.update_eq_self]⟩

/-- The folders are there, and what else is there is as it was. -/
theorem forM_mkdir_ok {ps : List Path} {u : Unit} (hplain : ∀ q ∈ ps, ['.', '.'] ∉ q)
    (h : ps.forM (mkdir e) t = .ok u t') (q : Path) :
    (q ∈ ps → (t q = none ∨ t q = some .dir) ∧ t' q = some .dir) ∧ (q ∉ ps → t' q = t q) := by
  induction ps generalizing t with
  | nil =>
    cases h
    exact ⟨fun hq => absurd hq List.not_mem_nil, fun _ => rfl⟩
  | cons p ps ih =>
    obtain ⟨_, t₁, hp, hrest⟩ := exists_of_bind h
    obtain ⟨hwas, rfl⟩ := mkdir_ok hp
    rw [located_of_plain (hplain p List.mem_cons_self)] at hwas hrest
    have hq := ih (fun q hq => hplain q (List.mem_cons_of_mem p hq)) hrest
    by_cases hqp : q = p
    · subst hqp
      refine ⟨fun _ => ⟨hwas, ?_⟩, fun hno => absurd List.mem_cons_self hno⟩
      by_cases hmem : q ∈ ps
      · exact (hq.1 hmem).2
      · rw [hq.2 hmem, Function.update_self]
    · rw [Function.update_of_ne hqp] at hq
      refine ⟨fun hmem => ?_, fun hno => hq.2 fun hmem => hno (List.mem_cons_of_mem p hmem)⟩
      exact hq.1 ((List.mem_cons.mp hmem).resolve_left hqp)

theorem mkdirs_ok {u : Unit} (hplain : ['.', '.'] ∉ p) (h : mkdirs e p t = .ok u t') (q : Path) :
    (q <+: p → (t q = none ∨ t q = some .dir) ∧ t' q = some .dir) ∧ (¬ q <+: p → t' q = t q) := by
  have hq := forM_mkdir_ok
    (fun q hq hdots => hplain (((List.mem_inits q p).mp hq).subset hdots)) h q
  rwa [List.mem_inits] at hq

theorem rmtree_ok {u : Unit} (h : rmtree e p t = .ok u t') :
    t' = fun q => if (located p).isPrefixOf q then none else t q := by
  have hrun : rmtree e p t = (match t (located p) with
    | some .dir => modify fun t q => if (located p).isPrefixOf q then none else t q
    | _ => throw e : Disk δ ε Unit) t := rfl
  rw [hrun] at h
  cases hp : t (located p) with
  | none =>
    rw [hp] at h
    cases h
  | some node =>
    rw [hp] at h
    cases node with
    | file data mode => cases h
    | dir =>
      cases h
      rfl

theorem write_ok {u : Unit} {umask : Nat} {data : δ} (h : write e umask p data t = .ok u t') :
    t (located p) ≠ some .dir ∧ t' = Function.update t (located p)
      (some (.file data (match t (located p) with
        | some (.file _ mode) => mode
        | _ => umask))) := by
  have hrun : write e umask p data t = (match t (located p).dropLast, t (located p) with
    | some .dir, none => modify fun t => Function.update t (located p) (some (.file data umask))
    | some .dir, some (.file _ mode) =>
      modify fun t => Function.update t (located p) (some (.file data mode))
    | _, _ => throw e : Disk δ ε Unit) t := rfl
  rw [hrun] at h
  cases hparent : t (located p).dropLast with
  | none =>
    rw [hparent] at h
    cases h
  | some node =>
    rw [hparent] at h
    cases node with
    | file old mode => cases h
    | dir =>
      cases hp : t (located p) with
      | none =>
        rw [hp] at h
        cases h
        exact ⟨by simp, rfl⟩
      | some node =>
        rw [hp] at h
        cases node with
        | dir => cases h
        | file old mode =>
          cases h
          exact ⟨by simp, rfl⟩

end FileTree
end NetRollout
