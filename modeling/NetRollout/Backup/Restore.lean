import Mathlib.Data.List.Dedup
import Mathlib.Data.Char
import Mathlib.Data.List.Lex
import Mathlib.Data.List.Sort
import NetRollout.Library.Patch
import NetRollout.Library.PyText

/-!
# A restore, step by step

`restore` of `src/backup/archive.py`, for a backup its `check` has accepted: the key is
handed over, the database is restored in one transaction, and then the files, folder by
folder.  Every read of the archive, every write and removal of a file and every statement
may fail, and the reply to the commit may be lost after it took effect.

## What goes wrong, and when

A commit whose reply is lost counts as one that failed: the key that was handed over is
removed, though the restored credentials need it.  And the serving files are replaced one
by one: a failure between two of them leaves a certificate beside the key of another one.

`kept_iff_clean` says exactly for which failures a restore keeps what it promises.
-/

namespace NetRollout
namespace Backup

open PyText

abbrev Bytes := List UInt8

/-! ## The archive -/

/-- `f"{prefix}/{name}"`. -/
def memberName (folder name : Str) : Str := folder ++ '/' :: name

/-- `Path(m).name`. -/
def baseName (m : Str) : Str :=
  (((m.splitOn '/').filter fun s => s ≠ [] ∧ s ≠ ['.']).getLast?).getD []

def keyMember : Str := "encryption.key".toList
def grafanaMember : Str := "grafana.db".toList

/-- `SERVING_FILES`, restored together or not at all. -/
def servingFiles : List Str :=
  ["fullchain.pem".toList, "privkey.pem".toList, ".selfsigned".toList, ".old-names.json".toList]

/-- `TRUSTED_FILES`. -/
def trustedFiles : List Str := ["trusted-ca.pem".toList]

/-- A backup `check` accepts: its members, and what of its rows `restore` reads. -/
structure Archive where
  shown : String
  members : List (Str × Bytes)
  tables : List Str
  grafana : Bool
  /-- The stored credential the key is tried on. -/
  sample : Option Bytes
  /-- The hostname's row. -/
  hostname : Option Str
  hasKey : keyMember ∈ members.map Prod.fst
  hasTables : ∀ table ∈ tables,
    memberName "db".toList (table ++ ".csv".toList) ∈ members.map Prod.fst
  hasGrafana : grafana = true → grafanaMember ∈ members.map Prod.fst

namespace Archive

variable (b : Archive)

/-- `zf.read`: of two members of one name, the last. -/
def read (m : Str) : Option Bytes := b.members.reverse.lookup m

/-- The members of a folder, by their base names. -/
def inFolder (folder : Str) : List (Str × Str) :=
  let inside := (b.members.map Prod.fst).filter fun m =>
    (folder ++ ['/']).isPrefixOf m && m.getLast? ≠ some '/'
  inside.map fun m => (baseName m, m)

/-- The member of a base name: the last one. -/
def memberOf (folder name : Str) : Option Str := (b.inFolder folder).reverse.lookup name

/-- `sorted(names)`, of the names that may be restored. -/
def names (folder : Str) (allowed : Str → Bool) : List Str :=
  (((b.inFolder folder).map Prod.fst).dedup.filter allowed).insertionSort fun a b => a ≤ b

end Archive

/-! ## Failures -/

/-- What is restored of the files: the certs folder twice, for the serving files and for
the trusted CA certificates. -/
inductive Place where
  | certs
  | trusted
  | logs
  | grafana
  deriving DecidableEq

/-- The statements of `_restore_database`. -/
inductive Statement where
  | lockTimeout
  | hostname
  | downgrade
  | upgrade
  | reflect
  | copy (table : Str)
  | sequences
  | sample
  | httpsPort
  | keepHostname
  | audit
  | readHostname
  deriving DecidableEq

/-- The steps that may fail, the commit apart.  Each is done once: what `_restore_certificate`
has read to check it, `_restore_files` reads again to write it (`extract`). -/
inductive Step where
  | lock
  | unlock
  | openZip
  | read (member : Str)
  | extract (place : Place) (member : Str)
  | writeKey
  | removeKey
  | execute (statement : Statement)
  | mkdir (place : Place)
  | unlink (place : Place) (name : Str)
  | write (place : Place) (name : Str)
  deriving DecidableEq

/-- What is raised: a `BackupError`, an error of the system, of SQLAlchemy or the driver, or
another exception; each with its first line. -/
inductive Error where
  | backup (message : String)
  | known (line : String)
  | other (line : String)
  deriving DecidableEq

def Error.line : Error → String
  | backup message => message
  | known line => line
  | other line => line

/-- How the commit ends. -/
inductive Commit where
  | done
  /-- Nothing took effect. -/
  | failed (e : Error)
  /-- It took effect, and raises. -/
  | lost (e : Error)
  deriving DecidableEq

/-- What fails in a restore, and what a failed write leaves of `key_out`. -/
structure Faults where
  fails : Step → Option Error
  commit : Commit
  cutKey : Option Bytes

/-- What the restore meets: the certificate's check and the key's, this install's hostname
and port, Grafana's folder, and the order a set's elements come in. -/
structure Install where
  validKey : Bytes → Bool
  decrypts : Bytes → Bytes → Bool
  covers : Bytes → Bytes → Str → Bool
  hostname : Option Str
  httpsPort : Bool
  grafanaTarget : Bool
  order : List Str → List Str
  order_perm : ∀ names, (order names).Perm names

/-! ## What is changed -/

abbrev Folder := Str → Option Bytes

structure Files where
  keyOut : Option Bytes
  certs : Folder
  logs : Folder
  grafana : Folder

/-- What the database holds. -/
inductive Database where
  | previous
  | backup
  deriving DecidableEq

/-- How a restore ends. -/
inductive Result where
  | restored (files : List Str) (notes : List String)
  /-- `FilesIncomplete`. -/
  | incomplete (message : String)
  /-- Any other `BackupError`. -/
  | refused (message : String)
  | raised (e : Error)

def Result.ofError : Error → Result
  | .backup message => refused message
  | e => raised e

/-! ## The database -/

/-- The statements up to the sample's read, with each table's file. -/
def loading (b : Archive) : List Step :=
  [.execute .lockTimeout, .execute .hostname, .execute .downgrade, .execute .upgrade,
      .execute .reflect] ++
    b.tables.flatMap (fun table =>
      [.read (memberName "db".toList (table ++ ".csv".toList)), .execute (.copy table)]) ++
    [.execute .sequences, .execute .sample]

/-- The statements after it. -/
def settling (env : Install) : List Step :=
  (if env.httpsPort then [.execute .httpsPort] else []) ++
    (if env.hostname.isSome then [.execute .keepHostname] else []) ++
    [.execute .audit, .execute .readHostname]

/-- `_check_key`. -/
def keyMatches (b : Archive) (env : Install) (key : Bytes) : Bool :=
  b.sample.all fun sample => env.decrypts key sample

/-- The hostname setting afterwards. -/
def hostnameAfter (b : Archive) (env : Install) : Option Str :=
  (b.hostname.map fun hostname => env.hostname.getD hostname).filter fun s => strip s ≠ []

/-- `_restore_database`: whether its transaction took effect, and the hostname, or what it
raises. -/
def restoreDatabase (b : Archive) (env : Install) (key : Bytes) (f : Faults) :
    Database × Except Error (Option Str) :=
  match (loading b).findSome? f.fails with
  | some e => (.previous, .error e)
  | none =>
    if !keyMatches b env key then
      (.previous, .error (.backup
        ("The backup's encryption key doesn't decrypt its saved credentials - the backup is " ++
          "damaged. Nothing was changed.")))
    else match (settling env).findSome? f.fails with
      | some e => (.previous, .error e)
      | none => match f.commit with
        | .done => (.backup, .ok (hostnameAfter b env))
        | .failed e => (.previous, .error e)
        | .lost e => (.backup, .error e)

/-! ## The files -/

/-- A change of one file. -/
inductive Change where
  | remove (name : Str)
  | put (name member : Str) (data : Bytes)

namespace Change

def name : Change → Str
  | remove name => name
  | put name _ _ => name

/-- What the file holds afterwards. -/
def data : Change → Option Bytes
  | remove _ => none
  | put _ _ data => some data

/-- What fails of it: the member is read before the file is written. -/
def fault (f : Faults) (place : Place) : Change → Option Error
  | remove name => f.fails (.unlink place name)
  | put name member _ => (f.fails (.extract place member)).or (f.fails (.write place name))

end Change

/-- The changes, one after the other, until one fails. -/
def change (f : Faults) (place : Place) : List Change → Folder → Folder × Option Error
  | [], folder => (folder, none)
  | c :: changes, folder => match c.fault f place with
    | some e => (folder, some e)
    | none => change f place changes (Function.update folder c.name c.data)

/-- `LOG_RE`, whose `$` also stands before a last line feed. -/
def isLog (name : Str) : Bool :=
  let name := if name.getLast? = some '\n' then name.dropLast else name
  let framed := fun (start stop : Str) =>
    start.isPrefixOf name && stop.isSuffixOf name && start.length + stop.length < name.length &&
      !name.contains '\n'
  framed "rollout_".toList ".log".toList || framed "unsaved-results-".toList ".json".toList

/-- What `_restore_files` changes in a folder: with `replace_all`, the allowed files the
backup does not have go first. -/
def changes (b : Archive) (env : Install) (folder : Str) (allowed : Str → Bool)
    (replaced : List Str) : List Change :=
  let names := b.names folder allowed
  (env.order (replaced.filter (· ∉ names))).map Change.remove ++
    names.map fun name =>
      let member := (b.memberOf folder name).getD []
      .put name member ((b.read member).getD [])

/-- `_restore_files`: the folder, and what was written or is raised. -/
def restoreFiles (b : Archive) (env : Install) (f : Faults) (prefix_ : Str) (place : Place)
    (allowed : Str → Bool) (replaced : List Str) (folder : Folder) :
    Folder × Except Error (List Str) :=
  let names := b.names prefix_ allowed
  if names = [] then (folder, .ok [])
  else match f.fails (.mkdir place) with
    | some e => (folder, .error e)
    | none => match change f place (changes b env prefix_ allowed replaced) folder with
      | (folder, some e) => (folder, .error e)
      | (folder, none) => (folder, .ok (names.map (memberName prefix_)))

def certs : Str := "certs".toList
def certMember : Str := memberName certs "fullchain.pem".toList
def certKeyMember : Str := memberName certs "privkey.pem".toList

/-- The serving files, as one set. -/
def restoreServing (b : Archive) (env : Install) (f : Faults) (folder : Folder) :
    Folder × Except Error (List Str) :=
  restoreFiles b env f certs .certs (· ∈ servingFiles) servingFiles folder

/-- `_restore_certificate`, with its notes. -/
def restoreCertificate (b : Archive) (env : Install) (f : Faults) (hostname : Option Str)
    (folder : Folder) : (Folder × Except Error (List Str)) × List String :=
  match hostname with
  | none => (restoreServing b env f folder, [])
  | some hostname => match b.read certMember with
    | none => ((folder, .ok []), [])  -- KeyError
    | some cert => match f.fails (.read certMember) with
      | some e => ((folder, .error e), [])
      | none => match b.read certKeyMember with
        | none => ((folder, .ok []), [])
        | some key => match f.fails (.read certKeyMember) with
          | some e => ((folder, .error e), [])
          | none =>
            if env.covers cert key hostname then (restoreServing b env f folder, [])
            else
              let name := String.ofList hostname
              ((folder, .ok []),
                [s!"This install's certificate was kept: the backup's doesn't serve {name}."])

/-- `_restore_grafana`. -/
def restoreGrafana (b : Archive) (f : Faults) (folder : Folder) :
    Folder × Except Error (List Str) :=
  match f.fails (.mkdir .grafana) with
  | some e => (folder, .error e)
  | none =>
    let leftovers := ["-journal", "-wal", "-shm"].map fun s => grafanaMember ++ s.toList
    match change f .grafana (leftovers.map Change.remove ++
        [.put grafanaMember grafanaMember ((b.read grafanaMember).getD [])]) folder with
    | (folder, some e) => (folder, .error e)
    | (folder, none) => (folder, .ok [grafanaMember])

/-- What the steps of the files come to. -/
def report (steps : List (String × Except Error (List Str))) (notes : List String) : Result :=
  let failed := steps.filterMap fun (what, out) => match out with
    | .ok _ => none
    | .error e => some (what ++ " (" ++ e.line ++ ")")
  let files := steps.flatMap fun (_, out) => match out with
    | .ok files => files
    | .error _ => []
  if failed = [] then .restored files notes
  else .incomplete ("The database was restored, but not every file - not restored: " ++
    "; ".intercalate failed ++ "." ++ String.join (notes.map fun note => " " ++ note))

/-- The files, each folder tried even if another failed. -/
def restoreRest (b : Archive) (env : Install) (f : Faults) (hostname : Option Str) (w : Files) :
    Result × Files :=
  let (certificate, notes) := restoreCertificate b env f hostname w.certs
  let trusted := restoreFiles b env f certs .trusted (· ∈ trustedFiles) trustedFiles certificate.1
  let logs := restoreFiles b env f "logs".toList .logs isLog [] w.logs
  let grafana := if b.grafana && env.grafanaTarget then restoreGrafana b f w.grafana
    else (w.grafana, .ok [])
  (report [("the certificate", certificate.2), ("the trusted CA certificates", trusted.2),
      ("the rollout logs", logs.2), ("Grafana's database", grafana.2)] notes,
    { w with certs := trusted.1, logs := logs.1, grafana := grafana.1 })

/-! ## The restore -/

/-- `bytes.strip()`. -/
def stripBytes (s : Bytes) : Bytes :=
  let space := fun c : UInt8 => c = 32 || (9 ≤ c && c ≤ 13)
  (s.dropWhile space).rdropWhile space

/-- The backup's encryption key. -/
def Archive.key (b : Archive) : Bytes := stripBytes ((b.read keyMember).getD [])

/-- Up to the key: what ends the restore there. -/
def opening (b : Archive) (env : Install) (f : Faults) : Option Result :=
  match [Step.openZip, .read keyMember].findSome? f.fails with
  | some e => some (.ofError e)
  | none =>
    if env.validKey b.key then none
    else some (.refused (b.shown ++ " holds a damaged encryption key."))

/-- The key handed over, and the database. -/
def handOver (b : Archive) (env : Install) (f : Faults) (w : Files) :
    Files × Database × Except Error (Option Str) :=
  match f.fails .writeKey with
  | some e => ({ w with keyOut := f.cutKey }, .previous, .error e)
  | none => ({ w with keyOut := some (b.key ++ [10]) }, restoreDatabase b env b.key f)

/-- The way out of a failure: the key is removed. -/
def giveUp (f : Faults) (w : Files) (e : Error) : Result × Files :=
  match f.fails .removeKey with
  | some e' => (.raised e', w)
  | none => (match e with
    | .backup message => .refused message
    | .known line => .refused s!"Not restored: {line}. Nothing was changed."
    | .other _ => .raised e, { w with keyOut := none })

/-- `restore`, while it has the lock. -/
def restoreLocked (b : Archive) (env : Install) (f : Faults) (w : Files) :
    Result × Database × Files :=
  match opening b env f with
  | some result => (result, .previous, w)
  | none => match handOver b env f w with
    | (w, database, .error e) =>
      let (result, w) := giveUp f w e
      (result, database, w)
    | (w, database, .ok hostname) =>
      let (result, w) := restoreRest b env f hostname w
      (result, database, w)

/-- `restore`. -/
def restore (b : Archive) (env : Install) (f : Faults) (w : Files) : Result × Database × Files :=
  match f.fails .lock with
  | some e => (.ofError e, .previous, w)
  | none =>
    let (result, after) := restoreLocked b env f w
    match f.fails .unlock with
    | some e => (.raised e, after)
    | none => (result, after)

/-! ## What a restore promises -/

/-- A serving file of the backup. -/
def Archive.serving (b : Archive) (name : Str) : Option Bytes := (b.memberOf certs name).bind b.read

/-- **All or nothing where it says so**: a restored database has its key, the serving files
are the previous ones or the backup's, and a refusal has changed nothing. -/
structure Kept (b : Archive) (w : Files) (result : Result) (database : Database) (w' : Files) :
    Prop where
  key : database = .backup → w'.keyOut = some (b.key ++ [10])
  serving : (∀ name ∈ servingFiles, w'.certs name = w.certs name) ∨
    ∀ name ∈ servingFiles, w'.certs name = b.serving name
  refused : ∀ message, result = .refused message → database = .previous ∧
    w'.certs = w.certs ∧ w'.logs = w.logs ∧ w'.grafana = w.grafana

/-- Nothing fails up to the commit. -/
structure Commits (b : Archive) (env : Install) (f : Faults) : Prop where
  lock : f.fails .lock = none
  opening : opening b env f = none
  writeKey : f.fails .writeKey = none
  loading : (loading b).findSome? f.fails = none
  key : keyMatches b env b.key = true
  settling : (settling env).findSome? f.fails = none

/-- The serving files, in the order they are changed in. -/
def servingChanges (b : Archive) (env : Install) : List Change :=
  changes b env certs (· ∈ servingFiles) servingFiles

/-- The backup has a certificate, of this install's hostname, and it can be read. -/
def Serves (b : Archive) (env : Install) (f : Faults) : Prop :=
  b.names certs (· ∈ servingFiles) ≠ [] ∧ f.fails (.mkdir .certs) = none ∧
    ∀ hostname, hostnameAfter b env = some hostname → ∃ cert key, b.read certMember = some cert ∧
      b.read certKeyMember = some key ∧ f.fails (.read certMember) = none ∧
      f.fails (.read certKeyMember) = none ∧ env.covers cert key hostname = true

/-- **The failures that do no harm**: no commit takes effect with its reply lost, unless the
key cannot be removed after it either; and what was changed of the serving files before one
of them fails was no change, or what was left to change would have been none. -/
structure Clean (b : Archive) (env : Install) (f : Faults) (w : Files) : Prop where
  replied : Commits b env f → ∀ e, f.commit = .lost e → (f.fails .removeKey).isSome = true
  together : Commits b env f → f.commit = .done → Serves b env f →
    (∀ c ∈ (servingChanges b env).takeWhile fun c => (c.fault f .certs).isNone,
      w.certs c.name = c.data) ∨
    ∀ c ∈ (servingChanges b env).dropWhile fun c => (c.fault f .certs).isNone,
      w.certs c.name = c.data

/-! ## The files, changed in turn -/

section Changing

variable {b : Archive} {env : Install} {f : Faults} {place : Place} {folder : Folder}

def Change.update (c : Change) : Str × Option Bytes := (c.name, c.data)

theorem change_fst (cs : List Change) (folder : Folder) :
    (change f place cs folder).1 =
      Patch.apply ((cs.takeWhile fun c => (c.fault f place).isNone).map Change.update) folder := by
  induction cs generalizing folder with
  | nil => rfl
  | cons c cs ih =>
    rw [change]
    cases hc : c.fault f place with
    | some e => simp [hc]
    | none => simp [hc, ih, Patch.apply_cons, Change.update]

theorem names_changes (allowed : Str → Bool) (replaced : List Str) (prefix_ : Str) :
    (changes b env prefix_ allowed replaced).map Change.name =
      env.order (replaced.filter (· ∉ b.names prefix_ allowed)) ++ b.names prefix_ allowed := by
  simp only [changes, List.map_append, List.map_map]
  congr 1
  · exact List.map_id' _
  · exact List.map_id' _

theorem restoreFiles_fst (prefix_ : Str) (allowed : Str → Bool) (replaced : List Str) :
    (restoreFiles b env f prefix_ place allowed replaced folder).1 =
      if b.names prefix_ allowed ≠ [] ∧ f.fails (.mkdir place) = none then
        (change f place (changes b env prefix_ allowed replaced) folder).1
      else folder := by
  unfold restoreFiles
  dsimp only
  split
  · next hnone => rw [if_neg (fun h => h.1 hnone)]
  · next hsome =>
    split
    · next e he =>
      rw [if_neg]
      rintro ⟨-, hmkdir⟩
      rw [hmkdir] at he
      cases he
    · next hmkdir =>
      rw [if_pos ⟨hsome, hmkdir⟩]
      split <;> next heq => rw [heq]

/-- A file that is neither allowed nor replaced stays as it is. -/
theorem restoreFiles_frame {prefix_ : Str} {allowed : Str → Bool} {replaced : List Str} {name : Str}
    (hallowed : allowed name = false) (hreplaced : name ∉ replaced) :
    (restoreFiles b env f prefix_ place allowed replaced folder).1 name = folder name := by
  rw [restoreFiles_fst]
  split
  · rw [change_fst]
    refine Patch.apply_of_notMem fun hmem => ?_
    rw [List.map_map] at hmem
    have hname : name ∈ (changes b env prefix_ allowed replaced).map Change.name :=
      (List.takeWhile_sublist _).map _ |>.subset hmem
    rw [names_changes, List.mem_append, (env.order_perm _).mem_iff, List.mem_filter] at hname
    rcases hname with ⟨hname, -⟩ | hname
    · exact hreplaced hname
    · rw [Archive.names, (List.perm_insertionSort _ _).mem_iff, List.mem_filter, hallowed] at hname
      exact Bool.false_ne_true hname.2
  · rfl

theorem lookup_isSome_of_mem {β : Type} {l : List (Str × β)} {name : Str} :
    (l.reverse.lookup name).isSome = true ↔ name ∈ l.map Prod.fst := by
  rw [List.lookup_isSome_iff, List.mem_map]
  constructor
  · rintro ⟨entry, hentry, heq⟩
    exact ⟨entry, List.mem_reverse.mp hentry, (beq_iff_eq.mp heq).symm⟩
  · rintro ⟨entry, hentry, rfl⟩
    exact ⟨entry, List.mem_reverse.mpr hentry, beq_self_eq_true _⟩

theorem mem_names {prefix_ name : Str} {allowed : Str → Bool} :
    name ∈ b.names prefix_ allowed ↔
      (b.memberOf prefix_ name).isSome = true ∧ allowed name = true := by
  rw [Archive.names, (List.perm_insertionSort _ _).mem_iff, List.mem_filter, List.mem_dedup,
    Archive.memberOf, lookup_isSome_of_mem]

theorem read_of_memberOf {prefix_ name member : Str} (h : b.memberOf prefix_ name = some member) :
    (b.read member).isSome = true := by
  have hmem : (name, member) ∈ (b.inFolder prefix_).reverse := by
    obtain ⟨before, after, heq, -⟩ := List.lookup_eq_some_iff.mp h
    rw [heq]
    exact List.mem_append_right _ (List.mem_cons_self ..)
  obtain ⟨m, hm, heq⟩ := List.mem_map.mp (List.mem_reverse.mp hmem)
  obtain ⟨-, rfl⟩ := Prod.mk.inj heq
  rw [Archive.read, lookup_isSome_of_mem]
  exact List.mem_of_mem_filter hm

/-- The serving files are changed once each. -/
theorem mem_servingChanges {name : Str} :
    name ∈ ((servingChanges b env).map Change.update).map Prod.fst ↔ name ∈ servingFiles := by
  have hnames : ((servingChanges b env).map Change.update).map Prod.fst =
      (servingChanges b env).map Change.name := List.map_map
  rw [hnames, servingChanges, names_changes, List.mem_append, (env.order_perm _).mem_iff,
    List.mem_filter, decide_eq_true_eq, mem_names, decide_eq_true_eq]
  by_cases hname : name ∈ servingFiles
  · by_cases hmember : (b.memberOf certs name).isSome = true <;> simp [hname, hmember]
  · simp [hname]

theorem nodup_servingChanges : (((servingChanges b env).map Change.update).map Prod.fst).Nodup := by
  have hnames : ((servingChanges b env).map Change.update).map Prod.fst =
      (servingChanges b env).map Change.name := List.map_map
  rw [hnames, servingChanges, names_changes]
  refine List.nodup_append'.mpr ⟨?_, ?_, ?_⟩
  · refine (env.order_perm _).nodup_iff.mpr (List.Nodup.filter _ ?_)
    decide
  · refine (List.perm_insertionSort _ _).nodup_iff.mpr (List.Nodup.filter _ (List.nodup_dedup _))
  · intro name hstale hname
    rw [(env.order_perm _).mem_iff, List.mem_filter, decide_eq_true_eq] at hstale
    exact hstale.2 hname

/-- All of them give the backup's files. -/
theorem apply_servingChanges {name : Str} (h : name ∈ servingFiles) :
    Patch.apply ((servingChanges b env).map Change.update) folder name = b.serving name := by
  refine Patch.apply_of_mem nodup_servingChanges (List.mem_map.mpr ?_)
  cases hmember : b.memberOf certs name with
  | none =>
    refine ⟨.remove name, List.mem_append_left _ (List.mem_map_of_mem ?_), ?_⟩
    · rw [(env.order_perm _).mem_iff, List.mem_filter, decide_eq_true_eq, mem_names, hmember]
      exact ⟨h, nofun⟩
    · rw [Archive.serving, hmember]
      rfl
  | some member =>
    obtain ⟨data, hdata⟩ := Option.isSome_iff_exists.mp (read_of_memberOf hmember)
    refine ⟨.put name member data, List.mem_append_right _ (List.mem_map.mpr ⟨name, ?_, ?_⟩), ?_⟩
    · rw [mem_names, hmember]
      exact ⟨rfl, decide_eq_true h⟩
    · simp only [hmember, Option.getD_some, hdata]
    · rw [Archive.serving, hmember, Option.bind_some, hdata]
      rfl

/-- **The serving files, as they are left**: all or none of the backup's, exactly when what
was done before the first failure changes nothing, or what was left to do would not. -/
theorem serving_iff :
    ((∀ name ∈ servingFiles,
        (change f .certs (servingChanges b env) folder).1 name = folder name) ∨
      ∀ name ∈ servingFiles,
        (change f .certs (servingChanges b env) folder).1 name = b.serving name) ↔
    (∀ c ∈ (servingChanges b env).takeWhile fun c => (c.fault f .certs).isNone,
      folder c.name = c.data) ∨
    ∀ c ∈ (servingChanges b env).dropWhile fun c => (c.fault f .certs).isNone,
      folder c.name = c.data := by
  have hparts : ((servingChanges b env).takeWhile fun c => (c.fault f .certs).isNone) ++
      ((servingChanges b env).dropWhile fun c => (c.fault f .certs).isNone) = servingChanges b env :=
    List.takeWhile_append_dropWhile
  have hkeys : ((((servingChanges b env).takeWhile fun c => (c.fault f .certs).isNone).map
      Change.update ++ ((servingChanges b env).dropWhile fun c => (c.fault f .certs).isNone).map
        Change.update).map Prod.fst).Nodup := by
    rw [← List.map_append, hparts]
    exact nodup_servingChanges
  have hiff := Patch.whole_or_none_iff (f := folder) hkeys
  rw [← List.map_append, hparts] at hiff
  simp only [mem_servingChanges, List.forall_mem_map] at hiff
  rw [change_fst]
  refine Iff.trans (or_congr Iff.rfl ?_) hiff
  refine forall₂_congr fun name hname => ?_
  rw [apply_servingChanges hname]

/-- The certificate's folder, where the certificate is restored. -/
theorem restoreCertificate_of_serves (h : Serves b env f) :
    (restoreCertificate b env f (hostnameAfter b env) folder).1.1 =
      (change f .certs (servingChanges b env) folder).1 := by
  obtain ⟨hnames, hmkdir, hhostname⟩ := h
  have hserving : (restoreServing b env f folder).1 =
      (change f .certs (servingChanges b env) folder).1 := by
    rw [restoreServing, restoreFiles_fst, if_pos ⟨hnames, hmkdir⟩, servingChanges]
  unfold restoreCertificate
  split
  · exact hserving
  · next hostname heq =>
    obtain ⟨cert, key, hcert, hkey, hreadCert, hreadKey, hcovers⟩ := hhostname _ heq
    simp only [hcert, hkey, hreadCert, hreadKey, hcovers, if_true]
    exact hserving

theorem restoreCertificate_of_not_serves (h : ¬ Serves b env f) :
    (restoreCertificate b env f (hostnameAfter b env) folder).1.1 = folder := by
  have hserving : (∀ hostname, hostnameAfter b env = some hostname → ∃ cert key,
      b.read certMember = some cert ∧ b.read certKeyMember = some key ∧
        f.fails (.read certMember) = none ∧ f.fails (.read certKeyMember) = none ∧
        env.covers cert key hostname = true) → (restoreServing b env f folder).1 = folder := by
    intro hhostname
    rw [restoreServing, restoreFiles_fst, if_neg fun hboth => h ⟨hboth.1, hboth.2, hhostname⟩]
  unfold restoreCertificate
  split
  · next heq => exact hserving fun hostname hsome => by rw [heq] at hsome; cases hsome
  · next hostname heq =>
    split
    · rfl
    · next cert hcert =>
      split
      · rfl
      · next hreadCert =>
        split
        · rfl
        · next key hkey =>
          split
          · rfl
          · next hreadKey =>
            split
            · next hcovers =>
              refine hserving fun hostname' hsome => ?_
              obtain rfl := Option.some.inj (heq.symm.trans hsome)
              exact ⟨cert, key, hcert, hkey, hreadCert, hreadKey, hcovers⟩
            · rfl

/-- No other folder of a restore has serving files. -/
theorem restoreRest_certs {hostname : Option Str} {w : Files} {name : Str}
    (h : name ∈ servingFiles) : (restoreRest b env f hostname w).2.certs name =
      (restoreCertificate b env f hostname w.certs).1.1 name := by
  have htrusted : ∀ name ∈ servingFiles, name ∉ trustedFiles := by decide
  exact restoreFiles_frame (decide_eq_false (htrusted name h)) (htrusted name h)

end Changing

/-! ## The restore as a whole -/

section Whole

variable {b : Archive} {env : Install} {f : Faults} {w w' : Files} {result : Result}
  {database : Database}

/-- Nothing but `key_out` was touched. -/
theorem Kept.of_unchanged (hdatabase : database = .previous) (hcerts : w'.certs = w.certs)
    (hlogs : w'.logs = w.logs) (hgrafana : w'.grafana = w.grafana) :
    Kept b w result database w' where
  key hbackup := by
    rw [hdatabase] at hbackup
    cases hbackup
  serving := .inl fun name _ => by rw [hcerts]
  refused _ _ := ⟨hdatabase, hcerts, hlogs, hgrafana⟩

theorem giveUp_files (w : Files) (e : Error) : (giveUp f w e).2.certs = w.certs ∧
    (giveUp f w e).2.logs = w.logs ∧ (giveUp f w e).2.grafana = w.grafana := by
  unfold giveUp
  split <;> exact ⟨rfl, rfl, rfl⟩

/-- The lock is given back whatever happened. -/
theorem restore_of_lock (h : f.fails .lock = none) :
    (restore b env f w).2 = (restoreLocked b env f w).2 ∧
      ∀ message, (restore b env f w).1 = .refused message →
        (restoreLocked b env f w).1 = .refused message := by
  rw [restore, h]
  dsimp only
  split
  · exact ⟨rfl, nofun⟩
  · exact ⟨rfl, fun _ hresult => hresult⟩

/-- Where something fails up to the commit, nothing but `key_out` was touched. -/
theorem kept_of_not_commits (h : ¬ Commits b env f) :
    Kept b w (restore b env f w).1 (restore b env f w).2.1 (restore b env f w).2.2 := by
  cases hlock : f.fails .lock with
  | some e =>
    rw [restore, hlock]
    exact .of_unchanged rfl rfl rfl rfl
  | none =>
    rw [(restore_of_lock hlock).1, restoreLocked]
    cases hopening : opening b env f with
    | some result => exact .of_unchanged rfl rfl rfl rfl
    | none =>
      have hfailed : ∃ w' e, handOver b env f w = (w', .previous, .error e) ∧
          w'.certs = w.certs ∧ w'.logs = w.logs ∧ w'.grafana = w.grafana := by
        unfold handOver
        split
        · exact ⟨_, _, rfl, rfl, rfl, rfl⟩
        · next hwrite =>
          unfold restoreDatabase
          split
          · exact ⟨_, _, rfl, rfl, rfl, rfl⟩
          · next hloading =>
            split
            · exact ⟨_, _, rfl, rfl, rfl, rfl⟩
            · next hkey =>
              split
              · exact ⟨_, _, rfl, rfl, rfl, rfl⟩
              · next hsettling =>
                exact absurd ⟨hlock, hopening, hwrite, hloading, by simpa using hkey, hsettling⟩ h
      obtain ⟨w', e, hhandOver, hcerts, hlogs, hgrafana⟩ := hfailed
      rw [hhandOver]
      obtain ⟨hcerts', hlogs', hgrafana'⟩ := giveUp_files (f := f) w' e
      exact .of_unchanged rfl (hcerts'.trans hcerts) (hlogs'.trans hlogs) (hgrafana'.trans hgrafana)

/-- The key handed over. -/
def Files.withKey (w : Files) (b : Archive) : Files := { w with keyOut := some (b.key ++ [10]) }

/-- Where nothing fails up to it, the commit decides. -/
theorem restoreLocked_of_commits (h : Commits b env f) : restoreLocked b env f w =
    match f.commit with
    | .done => ((restoreRest b env f (hostnameAfter b env) (w.withKey b)).1, .backup,
        (restoreRest b env f (hostnameAfter b env) (w.withKey b)).2)
    | .failed e => ((giveUp f (w.withKey b) e).1, .previous, (giveUp f (w.withKey b) e).2)
    | .lost e => ((giveUp f (w.withKey b) e).1, .backup, (giveUp f (w.withKey b) e).2) := by
  simp only [restoreLocked, h.opening, handOver, h.writeKey, restoreDatabase, h.loading, h.key,
    h.settling, Bool.not_true, Bool.false_eq_true, if_false]
  cases f.commit <;> rfl

theorem report_ne_refused (steps : List (String × Except Error (List Str))) (notes : List String)
    (message : String) : report steps notes ≠ .refused message := by
  unfold report
  dsimp only
  split <;> exact nofun

/-- The commit took effect and its reply was lost: the key is kept if it cannot be removed. -/
theorem kept_giveUp_iff {e : Error} (hresult : ∀ message, result = .refused message →
      (giveUp f (w.withKey b) e).1 = .refused message) :
    Kept b w result .backup (giveUp f (w.withKey b) e).2 ↔
      (f.fails .removeKey).isSome = true := by
  unfold giveUp at hresult ⊢
  cases hremove : f.fails .removeKey with
  | some e' =>
    -- the key stays, and what is raised is no refusal
    rw [hremove] at hresult
    refine iff_of_true ⟨fun _ => rfl, .inl fun _ _ => rfl, ?_⟩ rfl
    intro message hmessage
    cases hresult message hmessage
  | none =>
    refine iff_of_false (fun hkept => ?_) nofun
    have hkey := hkept.key rfl
    cases hkey

/-- The backup's data is in place: only the serving files can still fall apart. -/
theorem kept_restoreRest_iff (hresult : ∀ message, result = .refused message →
      (restoreRest b env f (hostnameAfter b env) (w.withKey b)).1 = .refused message) :
    Kept b w result .backup (restoreRest b env f (hostnameAfter b env) (w.withKey b)).2 ↔
      (∀ name ∈ servingFiles,
        (restoreCertificate b env f (hostnameAfter b env) w.certs).1.1 name = w.certs name) ∨
      ∀ name ∈ servingFiles,
        (restoreCertificate b env f (hostnameAfter b env) w.certs).1.1 name = b.serving name := by
  have hcerts : ∀ name ∈ servingFiles,
      (restoreRest b env f (hostnameAfter b env) (w.withKey b)).2.certs name =
        (restoreCertificate b env f (hostnameAfter b env) w.certs).1.1 name :=
    fun name hname => restoreRest_certs hname
  refine ⟨fun hkept => ?_, fun hserving => ⟨fun _ => rfl, ?_, ?_⟩⟩
  · refine hkept.serving.imp (fun hall name hname => ?_) fun hall name hname => ?_
    · rw [← hcerts name hname]
      exact hall name hname
    · rw [← hcerts name hname]
      exact hall name hname
  · refine hserving.imp (fun hall name hname => ?_) fun hall name hname => ?_
    · rw [hcerts name hname]
      exact hall name hname
    · rw [hcerts name hname]
      exact hall name hname
  · intro message hmessage
    exact absurd (hresult message hmessage) (report_ne_refused _ _ message)

theorem clean_of_failed {e : Error} (hcommit : f.commit = .failed e) : Clean b env f w where
  replied _ e' hlost := by
    rw [hcommit] at hlost
    cases hlost
  together _ hdone := by
    rw [hcommit] at hdone
    cases hdone

theorem clean_of_lost {e : Error} (h : Commits b env f) (hcommit : f.commit = .lost e) :
    Clean b env f w ↔ (f.fails .removeKey).isSome = true := by
  refine ⟨fun hclean => hclean.replied h e hcommit, fun hsome => ⟨fun _ _ _ => hsome, ?_⟩⟩
  intro _ hdone
  rw [hcommit] at hdone
  cases hdone

/-- **A restore keeps its promises exactly where the failures do no harm.** -/
theorem kept_iff_clean (b : Archive) (env : Install) (f : Faults) (w : Files) :
    Kept b w (restore b env f w).1 (restore b env f w).2.1 (restore b env f w).2.2 ↔
      Clean b env f w := by
  by_cases h : Commits b env f
  case neg =>
    exact iff_of_true (kept_of_not_commits h) ⟨fun hc => absurd hc h, fun hc => absurd hc h⟩
  have hlock : (restore b env f w).2 = (restoreLocked b env f w).2 ∧
      ∀ message, (restore b env f w).1 = .refused message →
        (restoreLocked b env f w).1 = .refused message := restore_of_lock h.lock
  obtain ⟨hafter, hresult⟩ := hlock
  rw [hafter]
  rw [restoreLocked_of_commits h] at hresult ⊢
  cases hcommit : f.commit with
  | failed e =>
    obtain ⟨hcerts, hlogs, hgrafana⟩ := giveUp_files (f := f) (w.withKey b) e
    exact iff_of_true (.of_unchanged rfl hcerts hlogs hgrafana) (clean_of_failed hcommit)
  | lost e =>
    rw [hcommit] at hresult
    rw [clean_of_lost h hcommit]
    exact kept_giveUp_iff hresult
  | done =>
    rw [hcommit] at hresult
    rw [kept_restoreRest_iff hresult]
    have hreplied (e : Error) (hlost : f.commit = .lost e) : (f.fails .removeKey).isSome = true := by
      rw [hcommit] at hlost
      cases hlost
    by_cases hserves : Serves b env f
    · rw [restoreCertificate_of_serves hserves, serving_iff]
      exact ⟨fun htogether => ⟨fun _ => hreplied, fun _ _ _ => htogether⟩,
        fun hclean => hclean.together h hcommit hserves⟩
    · rw [restoreCertificate_of_not_serves hserves]
      exact iff_of_true (.inl fun _ _ => rfl)
        ⟨fun _ => hreplied, fun _ _ hyes => absurd hyes hserves⟩

end Whole

/-- A backup of a certificate, and an install with another one. -/
def smallArchive : Archive where
  shown := "backup.zip"
  members := [(keyMember, [7]), (certMember, [1]), (certKeyMember, [2])]
  tables := []
  grafana := false
  sample := none
  hostname := none
  hasKey := by decide
  hasTables := nofun
  hasGrafana := nofun

def smallInstall : Install where
  validKey _ := true
  decrypts _ _ := true
  covers _ _ _ := true
  hostname := none
  httpsPort := false
  grafanaTarget := false
  order := id
  order_perm _ := List.Perm.refl _

def oldFiles : Files where
  keyOut := none
  certs name := if name ∈ servingFiles then some [0] else none
  logs _ := none
  grafana _ := none

/-- The commit takes effect, and the connection is closed before its reply. -/
def replyLost : Faults where
  fails _ := none
  commit := .lost (.known "server closed the connection unexpectedly")
  cutKey := none

/-- The disk is full when `privkey.pem` is to be written. -/
def diskFull : Faults where
  fails step := if step = .write .certs "privkey.pem".toList then
    some (.known "[Errno 28] No space left on device") else none
  commit := .done
  cutKey := none

/-- **A restore does not keep its promises**: the database is restored, "Nothing was
changed" is reported, and the key is gone; or the backup's certificate stands beside the
previous one's key. -/
theorem not_kept_replyLost :
    ¬ Kept smallArchive oldFiles (restore smallArchive smallInstall replyLost oldFiles).1
        (restore smallArchive smallInstall replyLost oldFiles).2.1
        (restore smallArchive smallInstall replyLost oldFiles).2.2 ∧
    ¬ Kept smallArchive oldFiles (restore smallArchive smallInstall diskFull oldFiles).1
        (restore smallArchive smallInstall diskFull oldFiles).2.1
        (restore smallArchive smallInstall diskFull oldFiles).2.2 := by
  constructor
  · intro h
    have hdatabase : (restore smallArchive smallInstall replyLost oldFiles).2.1 = .backup := by
      decide
    have hkeyOut : (restore smallArchive smallInstall replyLost oldFiles).2.2.keyOut = none := by
      decide
    rw [h.key hdatabase] at hkeyOut
    cases hkeyOut
  · intro h
    have hcert : (restore smallArchive smallInstall diskFull oldFiles).2.2.certs
        "fullchain.pem".toList ≠ oldFiles.certs "fullchain.pem".toList := by decide
    have hkey : (restore smallArchive smallInstall diskFull oldFiles).2.2.certs
        "privkey.pem".toList ≠ smallArchive.serving "privkey.pem".toList := by decide
    rcases h.serving with hnone | hwhole
    · exact hcert (hnone _ (by decide))
    · exact hkey (hwhole _ (by decide))

end Backup
end NetRollout
