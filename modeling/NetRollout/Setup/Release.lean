import Mathlib.Data.List.Dedup
import Mathlib.Data.Char
import Mathlib.Data.List.Lex
import NetRollout.Library.FileTree

/-!
# A release unpacked

`unpack` of `src/setup/update.py`, and `expected_sum` that it checks a zip with.  A release is a
zip with everything under `netrollout/`; it is unpacked into a folder by that name, and what was
there before is removed.

Whatever a zip holds, and however the unpacking ends, nothing outside that folder is touched
(`unpack_contained`).  One that succeeds leaves in it what the zip holds and nothing else, and the
zip was the one its `SHA256SUMS` lists, where there is one (`unpack_contents`).
-/

namespace NetRollout
namespace Setup
namespace Release

open PyText (Str strip splitlines isSpace)
open FileTree
open Effects (Keeps onlyIf)

/-! ## The checksums -/

def TOP : Str := "netrollout".toList

def SHA256SUMS : Str := "SHA256SUMS".toList

/-- `zip_name`. -/
def zip_name (version : Str) : Str := "netrollout-".toList ++ (version ++ "-linux.zip".toList)

/-- `[0-9a-fA-F]`. -/
def isHex (c : Char) : Bool :=
  c.isDigit || (97 ≤ c.toNat && c.toNat ≤ 102) || (65 ≤ c.toNat && c.toNat ≤ 70)

/-- `[0-9a-fA-F]{64}\s+\*?` and what follows it, at the start of a text. -/
def afterSum (s : Str) : Option (Str × Str) :=
  if (s.take 64).length = 64 ∧ (s.take 64).all isHex = true then
    match s.drop 64 with
    | [] => none
    | c :: _ =>
      if isSpace c then
        match (s.drop 64).dropWhile isSpace with
        | '*' :: d :: rest => some (s.take 64, d :: rest)
        | rest => some (s.take 64, rest)
      else none
  else none

/-- `expected_sum`: the sum listed for a file, in lower case. -/
def expected_sum (sums name : Str) : Option Str :=
  (splitlines sums).findSome? fun line =>
    match afterSum (strip line) with
    | some (digest, rest) =>
      if rest ≠ [] ∧ strip rest = name then some (digest.map Char.toLower) else none
    | none => none

/-- The parts of a text that start a line. -/
def lineStarts (s : Str) : List Str :=
  s :: s.tails.filterMap fun t =>
    match t with
    | '\n' :: rest => some rest
    | _ => none

/-- The release zip that a line lists: `netrollout-\S+-linux\.zip` up to the line's end. -/
def zipListed (s : Str) : Option Str :=
  match afterSum s with
  | some (_, rest) =>
    let name := rest.takeWhile fun c => !isSpace c
    let blanks := (rest.dropWhile fun c => !isSpace c).takeWhile isSpace
    if "netrollout-".toList <+: name ∧ "-linux.zip".toList <:+ name ∧
        (zip_name []).length < name.length ∧ ('\n' ∈ blanks ∨ name ++ blanks = rest) then
      some name
    else none
  | none => none

/-- The release zips that a listing names, sorted. -/
def zipsListed (listed : Str) : List Str :=
  ((lineStarts listed).filterMap zipListed).dedup.mergeSort fun a b => decide (a ≤ b)

/-! ## Zips -/

variable {δ : Type}

/-- What ends an unpacking: a `ReleaseError` with its words, or an error of the system's. -/
inductive Raised where
  | release (words : Str)
  | system
  deriving DecidableEq

/-- A member of a zip.  Opening it may fail, and so may reading it, with a part of it read. -/
structure Entry (δ : Type) where
  filename : Str
  external_attr : Nat
  content : Except Raised (δ × Option Raised)

/-- What a release's files are to the interpreter: their digest, their text, and the members of a
zip (none for a file that is not there) or why it is none; and the permissions of a new file. -/
structure Files (δ : Type) where
  sha256 : δ → Str
  text : δ → Option Str
  ZipFile : Option δ → Except Str (List (Entry δ))
  mode : Nat

/-- `PurePosixPath(filename).parts`. -/
def parts (filename : Str) : List Str :=
  let names := (filename.splitOn '/').filter fun name => name ≠ [] ∧ name ≠ ['.']
  match filename with
  | '/' :: '/' :: '/' :: _ => ['/'] :: names
  | '/' :: '/' :: _ => ['/', '/'] :: names
  | '/' :: _ => ['/'] :: names
  | _ => names

namespace Entry

/-- Only what is under `netrollout/`, never outside it. -/
def taken (info : Entry δ) : Bool :=
  (parts info.filename).head? = some TOP && !(parts info.filename).contains ['.', '.'] &&
    !(['/'].isPrefixOf info.filename)

/-- `info.is_dir()`. -/
def is_dir (info : Entry δ) : Bool := ['/'].isSuffixOf info.filename

/-- `(info.external_attr >> 16) & 0o777`. -/
def mode (info : Entry δ) : Nat := info.external_attr / 0x10000 % 0o1000

/-- Where a member goes. -/
def out (dest : Path) (info : Entry δ) : Path := dest ++ parts info.filename

end Entry

/-! ## Unpacking -/

variable (py : Files δ)

/-- One member of the zip. -/
def extract (dest : Path) (info : Entry δ) : Disk δ Raised Unit := do
  if info.taken then
    if info.is_dir then mkdirs .system (info.out dest)
    else
      mkdirs .system (info.out dest).dropLast
      match info.content with
      | .error e => throw e
      | .ok (data, broken) =>
        write .system py.mode (info.out dest) data
        match broken with
        | some e => throw e
        | none => if info.mode ≠ 0 then chmod (info.out dest) info.mode

/-- `path.name`. -/
def nameOf (p : Path) : Str := p.getLast?.getD []

/-- A zip that its folder's SHA256SUMS does not list. -/
def notListed (name listed : Str) : Raised :=
  let back := match zipsListed listed with
    | [] => "rename it back to its release name (".toList ++ (zip_name "<version>".toList ++ [')'])
    | names => "rename it back to ".toList ++ " or ".toList.intercalate names
  .release (name ++ (" isn't listed in the SHA256SUMS next to it, ".toList ++
    ("so it can't be checked - if it was renamed, ".toList ++ (back ++ ['.']))))

/-- The file at a path. -/
def fileAt (t : Nodes δ) (p : Path) : Option δ :=
  match t (located p) with
  | some (.file data _) => some data
  | _ => none

/-- The check against the SHA256SUMS next to the zip, when there is one. -/
def checked (t : Nodes δ) (zip_path : Path) : Except Raised Unit :=
  match t (located (zip_path.dropLast ++ [SHA256SUMS])) with
  | none => .ok ()
  | some .dir => .error .system
  | some (.file sums _) =>
    match py.text sums with
    | none => .error .system
    | some listed =>
      match expected_sum listed (nameOf zip_path), fileAt t zip_path with
      | none, _ => .error (notListed (nameOf zip_path) listed)
      | some _, none => .error .system
      | some expected, some bytes =>
        if py.sha256 bytes = expected then .ok ()
        else .error (.release (nameOf zip_path ++ (" doesn't match the SHA256SUMS next ".toList ++
          "to it - the file is damaged or was altered.".toList)))

/-- What a release may not lack. -/
def needed : List Str := ["bin".toList, "compose.yaml".toList, "VERSION".toList]

/-- The version a release brings; one that says none, or lacks a file, is refused. -/
def version (t : Nodes δ) (name : Str) (target : Path) : Except Raised Str :=
  match fileAt t (target ++ ["VERSION".toList]) with
  | none => .error (.release (name ++ (" isn't a NetRollout release (no ".toList ++
      (TOP ++ "/VERSION).".toList))))
  | some data =>
    match py.text data with
    | none => .error .system
    | some text =>
      match needed.filter fun n => (t (located (target ++ [n]))).isNone with
      | [] => .ok (strip text)
      | missing => .error (.release (name ++ (" is incomplete (no ".toList ++
          (", ".toList.intercalate missing ++ ").".toList))))

/-- What a computation gave, or raised. -/
def given {α : Type} : Except Raised α → Disk δ Raised α
  | .ok a => pure a
  | .error e => throw e

/-- `unpack`: the folder unpacked to, and the version it brings. -/
def unpack (zip_path dest : Path) : Disk δ Raised (Path × Str) := do
  let t ← get
  given (checked py t zip_path)
  match py.ZipFile (fileAt t zip_path) with
  | .error why => throw (.release (nameOf zip_path ++ (" isn't a zip (".toList ++
      (why ++ ").".toList))))
  | .ok entries =>
    onlyIf (t (located (dest ++ [TOP]))).isSome (rmtree .system (dest ++ [TOP]))
    entries.forM (extract py dest)
    let t' ← get
    let v ← given (version py t' (nameOf zip_path) (dest ++ [TOP]))
    pure (dest ++ [TOP], v)

/-! ## Nothing outside is touched -/

variable {py}

/-- A member that is taken goes below `netrollout/`. -/
theorem taken_parts {info : Entry δ} (h : info.taken = true) :
    ∃ names, parts info.filename = TOP :: names ∧ ['.', '.'] ∉ parts info.filename := by
  simp only [Entry.taken, Bool.and_eq_true, Bool.not_eq_true', decide_eq_true_eq] at h
  obtain ⟨⟨hhead, hdots⟩, -⟩ := h
  obtain ⟨names, hnames⟩ := List.head?_eq_some_iff.mp hhead
  refine ⟨names, hnames, fun hmem => ?_⟩
  rw [List.contains_iff_mem.mpr hmem] at hdots
  cases hdots

/-- Outside the folder unpacked to, all is as it was, but for the folders made on the way to it. -/
def Contained (t₀ : Nodes δ) (dest : Path) (t : Nodes δ) : Prop :=
  ∀ q, ¬ located dest ++ [TOP] <+: q →
    t q = t₀ q ∨ (t₀ q = none ∧ t q = some .dir ∧ ∃ d, d <+: dest ∧ q = located d)

variable {t₀ : Nodes δ} {dest : Path}

theorem Contained.update {t : Nodes δ} {p : Path} {node : Option (Node δ)}
    (h : Contained t₀ dest t) (hp : located dest ++ [TOP] <+: p) :
    Contained t₀ dest (Function.update t p node) := by
  intro q hq
  have hne : q ≠ p := by
    rintro rfl
    exact hq hp
  rw [Function.update_of_ne hne]
  exact h q hq

/-- A folder made on the way to it. -/
theorem Contained.update_dir {t : Nodes δ} {d : Path} (h : Contained t₀ dest t) (hd : d <+: dest)
    (hnone : t (located d) = none) :
    Contained t₀ dest (Function.update t (located d) (some .dir)) := by
  intro q hq
  by_cases hqd : q = located d
  · subst hqd
    rw [Function.update_self]
    rcases h _ hq with hsame | ⟨-, hdir, -⟩
    · exact .inr ⟨by rw [← hsame, hnone], rfl, d, hd, rfl⟩
    · rw [hdir] at hnone
      cases hnone
  · rw [Function.update_of_ne hqd]
    exact h q hq

/-- A prefix of a path below the folder is on the way to it, or below it. -/
theorem prefix_or_below {names q : Path} (hdots : ['.', '.'] ∉ TOP :: names)
    (hq : q <+: dest ++ TOP :: names) : q <+: dest ∨ located dest ++ [TOP] <+: located q := by
  rcases List.prefix_or_prefix_of_prefix hq (List.prefix_append dest (TOP :: names)) with h | h
  · exact .inl h
  · obtain ⟨rest, rfl⟩ := h
    rw [List.prefix_append_right_inj] at hq
    rcases List.prefix_cons_iff.mp hq with rfl | ⟨names', rfl, -⟩
    · exact .inl (by rw [List.append_nil])
    · refine .inr ⟨names', ?_⟩
      rw [located_append _ fun hmem => hdots (hq.subset hmem), List.append_assoc,
        List.singleton_append]

theorem keeps_mkdirs_contained {names p : Path} (hdots : ['.', '.'] ∉ TOP :: names)
    (hp : p <+: dest ++ TOP :: names) : Keeps (Contained t₀ dest) (mkdirs Raised.system p) := by
  refine keeps_mkdirs fun q hq t ht hnone => ?_
  rcases prefix_or_below hdots (hq.trans hp) with hprefix | hbelow
  · exact ht.update_dir hprefix hnone
  · exact ht.update hbelow

/-- A member is written below the folder, whatever its name and however that ends. -/
theorem keeps_extract (info : Entry δ) : Keeps (Contained t₀ dest) (extract py dest info) := by
  rw [extract]
  by_cases htaken : info.taken = true
  swap
  · rw [if_neg htaken]
    exact Keeps.pure ()
  rw [if_pos htaken]
  obtain ⟨names, hnames, hdots⟩ := taken_parts htaken
  rw [hnames] at hdots
  have hout : info.out dest = dest ++ TOP :: names := by rw [Entry.out, hnames]
  have hbelow : located dest ++ [TOP] <+: located (info.out dest) := by
    rw [hout, located_append _ hdots]
    exact ⟨names, by rw [List.append_assoc, List.singleton_append]⟩
  split
  · exact keeps_mkdirs_contained hdots (hout ▸ List.prefix_rfl)
  · refine (keeps_mkdirs_contained hdots
      ((List.dropLast_prefix _).trans (hout ▸ List.prefix_rfl))).bind fun _ => ?_
    split
    · exact Keeps.raise _
    · refine (keeps_write fun t _ ht _ => ht.update hbelow).bind fun _ => ?_
      split
      · exact Keeps.raise _
      · split
        · exact keeps_chmod fun t _ _ ht _ => ht.update hbelow
        · exact Keeps.pure ()

theorem keeps_given {α : Type} {I : Nodes δ → Prop} (x : Except Raised α) :
    Keeps I (given x : Disk δ Raised α) := by
  cases x with
  | ok a => exact Keeps.pure a
  | error e => exact Keeps.raise e

theorem keeps_unpack (zip_path : Path) : Keeps (Contained t₀ dest) (unpack py zip_path dest) := by
  rw [unpack]
  refine keeps_get fun t ht => ?_
  refine (keeps_given _).bind (fun _ => ?_) t ht
  split
  · exact Keeps.raise _
  · refine Keeps.bind ?_ fun _ => (keeps_forM fun info _ => keeps_extract info).bind fun _ =>
      keeps_get fun t' ht' => ((keeps_given _).bind fun v => Keeps.pure _) t' ht'
    cases (t (located (dest ++ [TOP]))).isSome with
    | false => exact Keeps.pure ()
    | true =>
      refine keeps_rmtree fun t ht q hq => ?_
      have hbelow : ¬ (located (dest ++ [TOP])).isPrefixOf q = true := by
        rw [List.isPrefixOf_iff_prefix, located_append _ (by decide)]
        exact hq
      simp only [if_neg hbelow]
      exact ht q hq

/-- **Nothing outside the folder unpacked to is touched**, whatever the zip holds and however the
unpacking ends: no file there changes, and at most the folders on the way are made. -/
theorem unpack_contained (py : Files δ) (zip_path dest : Path) (t : Nodes δ) {q : Path}
    (hq : ¬ located dest ++ [TOP] <+: q) :
    Effects.left (unpack py zip_path dest t) q = t q ∨
      (t q = none ∧ Effects.left (unpack py zip_path dest t) q = some .dir ∧
        ∃ d, d <+: dest ∧ q = located d) :=
  keeps_unpack zip_path t (fun _ _ => .inl rfl) q hq

theorem unpack_contained_traversal :
    let py : Files Str := ⟨fun bytes => bytes, some, fun _ => .ok
      [⟨"netrollout/../VERSION".toList, 0, .ok ("2.0.0".toList, none)⟩], 0o600⟩
    let t : Nodes Str := fun q =>
      if q = [] then some .dir
      else if q = ["r.zip".toList] then some (.file "PK".toList 0o644) else none
    Effects.left (unpack py ["r.zip".toList] [] t) ["VERSION".toList] = none := by
  intro py t
  rcases unpack_contained py ["r.zip".toList] [] t (q := ["VERSION".toList]) (by decide) with
    h | ⟨-, -, d, hd, hq⟩
  · exact h
  · rw [List.prefix_nil.mp hd] at hq
    cases hq

/-! ## What is unpacked -/

/-- The file that the members leave at `q`: the last one's, and its permissions, those of the
one before where it has none. -/
def filed (mode : Nat) (dest : Path) (entries : List (Entry δ)) (q : Path) : Option (δ × Nat) :=
  entries.foldl (fun held info =>
    if info.taken = true ∧ info.is_dir = false ∧ info.out dest = q then
      match info.content with
      | .ok (data, _) =>
        some (data, if info.mode ≠ 0 then info.mode else (held.map Prod.snd).getD mode)
      | .error _ => held
    else held) none

/-- The folder that a member needs. -/
def Entry.folder (dest : Path) (info : Entry δ) : Path :=
  if info.is_dir then info.out dest else (info.out dest).dropLast

/-- A file, or a folder that one needs, or nothing. -/
def nodeOf (held : Option (δ × Nat)) (needed : Prop) [Decidable needed] : Option (Node δ) :=
  match held with
  | some (data, m) => some (.file data m)
  | none => if needed then some .dir else none

theorem nodeOf_congr {held : Option (δ × Nat)} {P Q : Prop} [Decidable P] [Decidable Q]
    (h : P ↔ Q) : nodeOf held P = nodeOf held Q := by
  cases held with
  | some file => rfl
  | none => simp only [nodeOf, h]

/-- What the members leave at `q`. -/
def contents (mode : Nat) (dest : Path) (entries : List (Entry δ)) (q : Path) :
    Option (Node δ) :=
  nodeOf (filed mode dest entries q) (∃ info ∈ entries, info.taken = true ∧ q <+: info.folder dest)

variable {mode : Nat} {entries : List (Entry δ)} {info : Entry δ} {q : Path}

theorem filed_append_of_not (h : ¬ (info.taken = true ∧ info.is_dir = false ∧ info.out dest = q)) :
    filed mode dest (entries ++ [info]) q = filed mode dest entries q := by
  rw [filed, List.foldl_append, List.foldl_cons, List.foldl_nil, if_neg h]
  rfl

theorem filed_append_out {data : δ} {broken : Option Raised} (htaken : info.taken = true)
    (hfile : info.is_dir = false) (hcontent : info.content = .ok (data, broken)) :
    filed mode dest (entries ++ [info]) (info.out dest) = some (data,
      if info.mode ≠ 0 then info.mode
      else ((filed mode dest entries (info.out dest)).map Prod.snd).getD mode) := by
  rw [filed, List.foldl_append, List.foldl_cons, List.foldl_nil, if_pos ⟨htaken, hfile, rfl⟩,
    hcontent]
  rfl

theorem contents_append (held : Option (δ × Nat))
    (hheld : filed mode dest (entries ++ [info]) q = held) :
    contents mode dest (entries ++ [info]) q = nodeOf held
      ((∃ info ∈ entries, info.taken = true ∧ q <+: info.folder dest) ∨
        (info.taken = true ∧ q <+: info.folder dest)) := by
  simp only [contents, hheld, List.mem_append, List.mem_singleton, or_and_right, exists_or,
    exists_eq_left]

/-- Below the folder the tree is what the members leave. -/
def Holds (mode : Nat) (dest : Path) (entries : List (Entry δ)) (t : Nodes δ) : Prop :=
  ∀ q, dest ++ [TOP] <+: q → t q = contents mode dest entries q

theorem Holds.skip {t : Nodes δ} (h : Holds mode dest entries t) (hskip : info.taken ≠ true) :
    Holds mode dest (entries ++ [info]) t := by
  intro q hq
  have hno : ¬ (info.taken = true ∧ q <+: info.folder dest) := fun h => hskip h.1
  rw [contents_append _ (filed_append_of_not fun h => hskip h.1), h q hq, contents]
  simp only [hno, or_false]

/-- Once the folders are made, the tree has them, and the files that it had. -/
theorem node_of_mkdirs {t t' : Nodes δ} {p : Path} {held : Option (δ × Nat)} {P : Prop}
    [Decidable P] (ht : t q = nodeOf held P)
    (h : (q <+: p → (t q = none ∨ t q = some .dir) ∧ t' q = some .dir) ∧
      (¬ q <+: p → t' q = t q)) : t' q = nodeOf held (P ∨ q <+: p) := by
  by_cases hp : q <+: p
  · obtain ⟨hwas, hnow⟩ := h.1 hp
    rw [hnow]
    cases held with
    | none => rw [nodeOf, if_pos (.inr hp)]
    | some file =>
      rw [ht] at hwas
      rcases hwas with h | h <;> cases h
  · rw [h.2 hp, ht]
    simp only [hp, or_false]

/-- A file that may be written has the permissions of the one there, or of a new one. -/
theorem mode_of_node {t : Nodes δ} {held : Option (δ × Nat)} {P : Prop} [Decidable P]
    (ht : t q = nodeOf held P) (hno : t q ≠ some .dir) :
    (match t q with
      | some (.file _ m) => m
      | _ => mode) = (held.map Prod.snd).getD mode := by
  cases held with
  | some file => rw [ht, nodeOf, Option.map_some, Option.getD_some]
  | none =>
    by_cases hP : P
    · rw [nodeOf, if_pos hP] at ht
      exact absurd ht hno
    · rw [ht, nodeOf, if_neg hP, Option.map_none, Option.getD_none]

/-- A file written and its permissions set. -/
theorem write_chmod_ok {t t' : Nodes δ} {p : Path} {data : δ} {m : Nat} {u : Unit}
    (hp : ['.', '.'] ∉ p)
    (h : (write Raised.system mode p data >>= fun _ => if m ≠ 0 then chmod p m else pure ()) t =
      .ok u t') :
    t p ≠ some .dir ∧ t' = Function.update t p (some (.file data (if m ≠ 0 then m
      else match t p with
        | some (.file _ m) => m
        | _ => mode))) := by
  obtain ⟨_, t₁, hwrite, hend⟩ := exists_of_bind h
  obtain ⟨hno, rfl⟩ := write_ok hwrite
  rw [located_of_plain hp] at hno hend
  refine ⟨hno, ?_⟩
  by_cases hm : m ≠ 0
  · rw [if_pos hm] at hend ⊢
    cases hend
    rw [located_of_plain hp]
    simp only [Function.update_self, Function.update_idem]
  · rw [if_neg hm] at hend ⊢
    cases hend
    rfl

/-- The folder of one member more. -/
theorem contents_append_taken (held : Option (δ × Nat)) (htaken : info.taken = true)
    (hheld : filed mode dest (entries ++ [info]) q = held) :
    contents mode dest (entries ++ [info]) q = nodeOf held
      ((∃ info ∈ entries, info.taken = true ∧ q <+: info.folder dest) ∨
        q <+: info.folder dest) := by
  rw [contents_append held hheld]
  exact nodeOf_congr (or_congr_right (and_iff_right htaken))

/-- One member more. -/
theorem Holds.extract {t t' : Nodes δ} {u : Unit} (hdest : ['.', '.'] ∉ dest)
    (hI : Holds py.mode dest entries t) (h : extract py dest info t = .ok u t') :
    Holds py.mode dest (entries ++ [info]) t' := by
  by_cases htaken : info.taken = true
  swap
  · rw [Release.extract, if_neg htaken] at h
    cases h
    exact hI.skip htaken
  rw [Release.extract, if_pos htaken] at h
  obtain ⟨names, hnames, hdots⟩ := taken_parts htaken
  have hplain : ['.', '.'] ∉ info.out dest := by
    rw [Entry.out, List.mem_append]
    exact fun hmem => hmem.elim hdest hdots
  intro q hq
  by_cases hdir : info.is_dir = true
  · rw [if_pos hdir] at h
    have hno : ¬ (info.taken = true ∧ info.is_dir = false ∧ info.out dest = q) := by
      rw [hdir]
      rintro ⟨-, h, -⟩
      cases h
    have hfolder : info.folder dest = info.out dest := if_pos hdir
    rw [contents_append_taken _ htaken (filed_append_of_not hno), hfolder]
    exact node_of_mkdirs (hI q hq) (mkdirs_ok hplain h q)
  · rw [if_neg hdir] at h
    have hfolder : info.folder dest = (info.out dest).dropLast := if_neg hdir
    obtain ⟨_, t₁, hmkdirs, hrest⟩ := exists_of_bind h
    have hmade := node_of_mkdirs (hI q hq) (mkdirs_ok
      (fun hmem => hplain ((List.dropLast_prefix _).subset hmem)) hmkdirs q)
    cases hcontent : info.content with
    | error e =>
      rw [hcontent] at hrest
      cases hrest
    | ok read =>
      obtain ⟨data, broken⟩ := read
      rw [hcontent] at hrest
      cases broken with
      | some e =>
        obtain ⟨_, t₂, -, hbroken⟩ := exists_of_bind hrest
        cases hbroken
      | none =>
        obtain ⟨hno, rfl⟩ := write_chmod_ok hplain hrest
        by_cases hout : info.out dest = q
        · subst hout
          rw [Function.update_self, contents_append_taken _ htaken
            (filed_append_out htaken (Bool.eq_false_iff.mpr hdir) hcontent), nodeOf,
            mode_of_node hmade hno]
        · rw [Function.update_of_ne (Ne.symm hout), contents_append_taken _ htaken
            (filed_append_of_not fun h => hout h.2.2), hfolder]
          exact hmade

theorem Holds.forM {t t' : Nodes δ} {u : Unit} {rest : List (Entry δ)} (hdest : ['.', '.'] ∉ dest)
    (hI : Holds py.mode dest entries t) (h : rest.forM (Release.extract py dest) t = .ok u t') :
    Holds py.mode dest (entries ++ rest) t' := by
  induction rest generalizing entries t with
  | nil =>
    cases h
    rwa [List.append_nil]
  | cons info rest ih =>
    obtain ⟨_, t₁, hinfo, hrest⟩ := exists_of_bind h
    rw [List.append_cons]
    exact ih (hI.extract hdest hinfo) hrest

theorem given_ok {α : Type} {x : Except Raised α} {a : α} {t t' : Nodes δ}
    (h : given x t = .ok a t') : x = .ok a ∧ t' = t := by
  cases x with
  | ok b =>
    cases h
    exact ⟨rfl, rfl⟩
  | error e => cases h

/-- Before the members come there is nothing. -/
theorem holds_cleared {t t' : Nodes δ} {u : Unit} (hdest : ['.', '.'] ∉ dest) (ht : Rooted t)
    (h : onlyIf (t (located (dest ++ [TOP]))).isSome (rmtree Raised.system (dest ++ [TOP])) t =
      .ok u t') : Holds mode dest [] t' := by
  have hplain : ['.', '.'] ∉ dest ++ [TOP] := by
    rw [List.mem_append]
    exact fun hmem => hmem.elim hdest (by decide)
  rw [located_of_plain hplain] at h
  intro q hq
  have hnone : contents mode dest ([] : List (Entry δ)) q = none := by
    rw [contents, nodeOf_congr (Q := False) (by simp)]
    rfl
  rw [hnone]
  cases hthere : t (dest ++ [TOP]) with
  | none =>
    rw [hthere] at h
    cases h
    exact ht.eq_none hthere hq
  | some node =>
    rw [hthere] at h
    rw [rmtree_ok h, located_of_plain hplain]
    exact if_pos (List.isPrefixOf_iff_prefix.mpr hq)

/-- A release as it was unpacked. -/
structure Unpacked (py : Files δ) (zip_path dest : Path) (t : Nodes δ) (target : Path) (v : Str)
    (t' : Nodes δ) : Prop where
  target_eq : target = dest ++ [TOP]
  /-- The zip is the one listed. -/
  listed : ∀ sums m text, t (located (zip_path.dropLast ++ [SHA256SUMS])) = some (.file sums m) →
    py.text sums = some text → ∃ bytes, fileAt t zip_path = some bytes ∧
      expected_sum text (nameOf zip_path) = some (py.sha256 bytes)
  /-- The folder holds what the zip does, with nothing of what it held before. -/
  held : ∃ entries, py.ZipFile (fileAt t zip_path) = .ok entries ∧
    ∀ q, target <+: q → t' q = contents py.mode dest entries q
  /-- The version is the one it says. -/
  version_eq : ∃ data text, fileAt t' (target ++ ["VERSION".toList]) = some data ∧
    py.text data = some text ∧ v = strip text
  complete : ∀ n ∈ needed, t' (located (target ++ [n])) ≠ none

theorem listed_of_checked {t : Nodes δ} {zip_path : Path} {u : Unit}
    (h : checked py t zip_path = .ok u) {sums : δ} {m : Nat} {text : Str}
    (hsums : t (located (zip_path.dropLast ++ [SHA256SUMS])) = some (.file sums m))
    (htext : py.text sums = some text) :
    ∃ bytes, fileAt t zip_path = some bytes ∧
      expected_sum text (nameOf zip_path) = some (py.sha256 bytes) := by
  simp only [checked, hsums, htext] at h
  cases hexpected : expected_sum text (nameOf zip_path) with
  | none =>
    rw [hexpected] at h
    cases h
  | some expected =>
    cases hbytes : fileAt t zip_path with
    | none =>
      rw [hexpected, hbytes] at h
      cases h
    | some bytes =>
      rw [hexpected, hbytes] at h
      by_cases hsum : py.sha256 bytes = expected
      · exact ⟨bytes, rfl, by rw [hsum]⟩
      · simp only [if_neg hsum] at h
        cases h

theorem version_of_ok {t : Nodes δ} {name v : Str} {target : Path}
    (h : version py t name target = .ok v) :
    (∃ data text, fileAt t (target ++ ["VERSION".toList]) = some data ∧
      py.text data = some text ∧ v = strip text) ∧
      ∀ n ∈ needed, t (located (target ++ [n])) ≠ none := by
  rw [version] at h
  cases hdata : fileAt t (target ++ ["VERSION".toList]) with
  | none =>
    rw [hdata] at h
    cases h
  | some data =>
    simp only [hdata] at h
    cases htext : py.text data with
    | none =>
      rw [htext] at h
      cases h
    | some text =>
      simp only [htext] at h
      split at h
      · next hmissing =>
        cases h
        refine ⟨⟨data, text, rfl, htext, rfl⟩, fun n hn hnone => ?_⟩
        rw [List.filter_eq_nil_iff] at hmissing
        exact hmissing n hn (by rw [hnone, Option.isNone_none])
      · cases h

/-- **What is unpacked is what the zip holds**: when the unpacking succeeds, the folder has the
zip's files and folders and nothing of an earlier release, and the version is that of its VERSION;
and where there is a SHA256SUMS next to the zip, it lists that zip with its digest. -/
theorem unpack_contents (py : Files δ) (zip_path dest target : Path) (v : Str) (t t' : Nodes δ)
    (ht : Rooted t) (hdest : ['.', '.'] ∉ dest)
    (h : unpack py zip_path dest t = .ok (target, v) t') :
    Unpacked py zip_path dest t target v t' := by
  obtain ⟨_, _, hget, h⟩ := exists_of_bind h
  cases hget
  obtain ⟨_, _, hgiven, h⟩ := exists_of_bind h
  obtain ⟨hchecked, hsame⟩ := given_ok hgiven
  rw [hsame] at h
  cases hzip : py.ZipFile (fileAt t zip_path) with
  | error why =>
    rw [hzip] at h
    cases h
  | ok entries =>
    rw [hzip] at h
    obtain ⟨_, t₁, hcleared, h⟩ := exists_of_bind h
    obtain ⟨_, t₂, hextracted, h⟩ := exists_of_bind h
    obtain ⟨_, _, hget, h⟩ := exists_of_bind h
    cases hget
    obtain ⟨_, _, hgiven, h⟩ := exists_of_bind h
    obtain ⟨hversion, hsame⟩ := given_ok hgiven
    cases h
    rw [hsame]
    have hheld := (holds_cleared hdest ht hcleared).forM hdest hextracted
    rw [List.nil_append] at hheld
    obtain ⟨hsaid, hcomplete⟩ := version_of_ok hversion
    exact ⟨rfl, fun _ _ _ => listed_of_checked hchecked, ⟨entries, hzip, hheld⟩, hsaid, hcomplete⟩

/-- The value that a run ended with. -/
def returned {ε σ α : Type} : EStateM.Result ε σ α → Option α
  | .ok a _ => some a
  | .error _ _ => none

theorem ok_of_returned {ε σ α : Type} {r : EStateM.Result ε σ α} {a : α}
    (h : returned r = some a) : r = .ok a (Effects.left r) := by
  cases r with
  | ok b s =>
    cases h
    rfl
  | error e s => cases h

theorem unpack_contents_small :
    let py : Files Str := ⟨fun bytes => bytes, some, fun _ => .ok
      [⟨"netrollout/bin/".toList, 0, .ok ([], none)⟩,
        ⟨"netrollout/VERSION".toList, 0, .ok ("1.0.1".toList, none)⟩,
        ⟨"netrollout/../VERSION".toList, 0, .ok ("2.0.0".toList, none)⟩,
        ⟨"netrollout/compose.yaml".toList, 0o644 * 0x10000, .ok ([], none)⟩], 0o600⟩
    let t : Nodes Str := fun q =>
      if q = [] then some .dir
      else if q = ["r.zip".toList] then some (.file "PK".toList 0o644) else none
    ∃ t', Unpacked py ["r.zip".toList] [] t [TOP] "1.0.1".toList t' := by
  intro py t
  refine ⟨_, unpack_contents py ["r.zip".toList] [] [TOP] "1.0.1".toList t _ ?_ (by simp)
    (ok_of_returned (by decide +kernel))⟩
  intro p name hne
  cases p with
  | nil => rfl
  | cons first p =>
    refine absurd ?_ hne
    simp [t]

end Release
end Setup
end NetRollout
