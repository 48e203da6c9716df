import NetRollout.Library.ListUpdate
import NetRollout.Library.PyText
import NetRollout.Library.Transition

/-!
# The encryption key

`src/encryption.py`: the key a start of NetRollout takes, from the environment or the key file, and
checks against one stored value; and what a process then encrypts and decrypts with it.  Between
two starts anyone may change the key, take it away or put it back, and a start may find the
database unreachable.

In the runs where the database answers whenever NetRollout starts (`checked`), all that is stored
is under one key, so that one value tells for all: `readable` is that what was saved is read back by
every process, and `starts_iff` that a start is refused exactly when its key would leave something
unread, or is no key.

`cryptography.fernet` is a parameter; that a token is read by its own key only is what is used of
it.  The texts of the refusals are left out.
-/

namespace NetRollout
namespace EncryptionKey

open PyText (Str)

def FERNET_PREFIX : Str := "gAAAAA".toList

/-- `cryptography.fernet`: the key a text is, and the tokens of a key.  A token is a different one
each time (`nonce`). -/
structure Fernet (K : Type) where
  key : Str → Option K
  encrypt : K → Nat → Str → Str
  decrypt : K → Str → Option Str

structure Fernet.Works {K : Type} (F : Fernet K) : Prop where
  isToken : ∀ k nonce s, FERNET_PREFIX <+: F.encrypt k nonce s
  own : ∀ k nonce s, F.decrypt k (F.encrypt k nonce s) = some s
  other : ∀ k k' nonce s, k' ≠ k → F.decrypt k' (F.encrypt k nonce s) = none

/-! ## The key -/

inductive EncryptionStartupError where
  /-- No key in the environment of a container. -/
  | inContainer
  /-- No key, while encrypted data exists. -/
  | lost
  /-- No key, and the database is unreachable. -/
  | unreachable
  | malformed
  | mismatch
  deriving DecidableEq

/-- What `bytes.strip` takes off. -/
def isByteSpace (c : Char) : Bool := [' ', '\t', '\n', '\r', '\x0b', '\x0c'].contains c

def bytesStrip (s : Str) : Str := (s.dropWhile isByteSpace).rdropWhile isByteSpace

/-- Where a key is looked for: in the environment, and in the key file. -/
structure Source where
  in_container : Bool
  environ : Option Str
  file : Option Str

/-- `os.environ.get(ENV_VAR)`, where it is not empty. -/
def Source.env_key (source : Source) : Option Str := source.environ.filter fun key => !key.isEmpty

def read_key (source : Source) : Option Str := source.env_key.or (source.file.map bytesStrip)

section Cipher

variable {K : Type} (F : Fernet K)

def build_cipher (raw_key : Str) : Except EncryptionStartupError K :=
  (F.key raw_key).elim (.error .malformed) .ok

/-- The check of the key, against the value from the database. -/
def canary (sample : Option Str) (cipher : K) : Except EncryptionStartupError K :=
  match sample with
  | none => .ok cipher
  | some token => if (F.decrypt cipher token).isSome then .ok cipher else .error .mismatch

/-- `init_encryption`: the cipher, and the key written to the key file where one is generated,
which would be `new_key`. -/
def init_encryption (source : Source) (sample : Option Str) (db_checked : Bool) (new_key : Str) :
    Except EncryptionStartupError (K × Option Str) :=
  if source.in_container = true ∧ source.env_key = none then .error .inContainer
  else match read_key source with
    | some raw_key => ((build_cipher F raw_key).bind (canary F sample)).map fun k => (k, none)
    | none =>
      if sample ≠ none then .error .lost
      else if db_checked = false then .error .unreachable
      else ((build_cipher F new_key).bind (canary F sample)).map fun k => (k, some new_key)

def encrypt (cipher : K) (nonce : Nat) (plaintext : Str) : Str :=
  if plaintext.isEmpty then [] else F.encrypt cipher nonce plaintext

/-- `decrypt`; none where it raises InvalidEncryptionKeyError. -/
def decrypt (cipher : K) (ciphertext : Option Str) : Option Str :=
  match ciphertext with
  | none => some []
  | some token => if token.isEmpty then some [] else F.decrypt cipher token

end Cipher

/-! ## NetRollout's starts, and what it stores -/

/-- An encrypted column of a row, and what was saved in it last, under which key. -/
structure Cell (K : Type) where
  stored : Option Str := none
  saved : Option (K × Str) := none

def Cell.isToken {K : Type} (c : Cell K) : Bool := c.stored.any FERNET_PREFIX.isPrefixOf

/-- What was saved, or nothing. -/
def Cell.plaintext {K : Type} (c : Cell K) : Str := (c.saved.map Prod.snd).getD []

structure State (K : Type) extends Source where
  cells : List (Cell K) := []
  /-- `_fernet`, of the process that runs. -/
  cipher : Option K := none

inductive Action where
  | setEnviron (key : Option Str)
  | setFile (key : Option Str)
  /-- A start, which reads the sample from a cell if the database answers. -/
  | start (up : Bool) (sample : Option Nat) (new_key : Str)
  | stop
  | add (plaintext : Str) (nonce : Nat)
  | save (i : Nat) (plaintext : Str) (nonce : Nat)
  | clear (i : Nat)
  | delete (i : Nat)

section Steps

variable {K : Type} (F : Fernet K)

/-- A cell that holds what the process encrypts. -/
def written (k : K) (plaintext : Str) (nonce : Nat) : Cell K :=
  ⟨some (encrypt F k nonce plaintext), if plaintext.isEmpty then none else some (k, plaintext)⟩

namespace State

variable (s : State K)

/-- `encrypted_sample` may read a cell: one that has a token; none, where no cell has. -/
def samples (i : Option Nat) : Bool :=
  match i with
  | some i => s.cells[i]?.any Cell.isToken
  | none => s.cells.all fun c => !c.isToken

def sample (i : Option Nat) : Option Str := i.bind fun i => s.cells[i]?.bind Cell.stored

/-- `init_app_encryption`, in a process that ends where it raises. -/
def started (up : Bool) (i : Option Nat) (new_key : Str) : State K :=
  match init_encryption F s.toSource (if up then s.sample i else none) up new_key with
  | .ok (k, written) => { s with cipher := some k, file := written.or s.file }
  | .error _ => s

def step : Action → Option (State K)
  | .setEnviron key => some { s with environ := key }
  | .setFile key => some { s with file := key }
  | .start up i new_key =>
    -- what `Fernet.generate_key` gives is a key
    if s.cipher.isNone ∧ s.samples i ∧ (F.key new_key).isSome then
      some (s.started F up i new_key)
    else none
  | .stop => some { s with cipher := none }
  | .add plaintext nonce => s.cipher.map fun k =>
      { s with cells := s.cells ++ [written F k plaintext nonce] }
  | .save i plaintext nonce => s.cipher.map fun k =>
      { s with cells := s.cells.set i (written F k plaintext nonce) }
  | .clear i => some { s with cells := s.cells.set i {} }
  | .delete i => some { s with cells := s.cells.eraseIdx i }

end State

/-- An installation, with nothing stored and no process. -/
def secrets : System (State K) Action where
  Init s := s.cells = [] ∧ s.cipher = none
  step := State.step F

/-- The database answers when NetRollout starts. -/
def checked (_ : State K) : Action → Bool
  | .start up _ _ => up
  | _ => true

end Steps

/-! ## What one value tells -/

/-- A cell holds what was saved in it, under the key it was saved under. -/
def Cell.Fits {K : Type} (F : Fernet K) (c : Cell K) : Prop :=
  match c.saved with
  | none => c.stored.getD [] = []
  | some (k, plaintext) => ∃ nonce, c.stored = some (F.encrypt k nonce plaintext)

structure Sound {K : Type} (F : Fernet K) (s : State K) : Prop where
  fits : ∀ c ∈ s.cells, c.Fits F
  one : ∀ c ∈ s.cells, ∀ d ∈ s.cells, ∀ p q, c.saved = some p → d.saved = some q → p.1 = q.1
  running : ∀ k, s.cipher = some k → ∀ c ∈ s.cells, ∀ p, c.saved = some p → p.1 = k

/-- The key in place, if there is one, is a key that reads all that is stored; where there is none
nothing is stored, and one may be generated. -/
def Usable {K : Type} (F : Fernet K) (s : State K) : Prop :=
  (s.in_container = true → s.env_key ≠ none) ∧
    match read_key s.toSource with
    | none => ∀ c ∈ s.cells, c.saved = none
    | some raw_key => ∃ k, F.key raw_key = some k ∧
        ∀ c ∈ s.cells, decrypt F k c.stored = some c.plaintext

section Proofs

variable {K : Type} {F : Fernet K} {s s' : State K} {c : Cell K} {k : K} {p : K × Str}

theorem Fernet.Works.encrypt_ne_nil (hF : F.Works) (k : K) (nonce : Nat) (s : Str) :
    F.encrypt k nonce s ≠ [] := by
  intro hnil
  have hprefix := hF.isToken k nonce s
  rw [hnil, List.prefix_nil] at hprefix
  exact absurd hprefix (by decide)

theorem Cell.Fits.decrypt_own (h : c.Fits F) (hF : F.Works)
    (hk : ∀ p, c.saved = some p → p.1 = k) : decrypt F k c.stored = some c.plaintext := by
  rw [Cell.Fits] at h
  split at h
  · next hsaved =>
    rw [Cell.plaintext, hsaved]
    cases hstored : c.stored with
    | none => rfl
    | some token =>
      rw [hstored, Option.getD_some] at h
      rw [h]
      rfl
  · next k' plaintext hsaved =>
    obtain ⟨nonce, hstored⟩ := h
    obtain rfl : k' = k := hk _ hsaved
    rw [hstored, decrypt, if_neg (by simpa using hF.encrypt_ne_nil k' nonce plaintext), hF.own,
      Cell.plaintext, hsaved]
    rfl

theorem Cell.Fits.key_eq (h : c.Fits F) (hF : F.Works) (hsaved : c.saved = some p)
    (hread : ∀ token, c.stored = some token → (F.decrypt k token).isSome = true) : p.1 = k := by
  rw [Cell.Fits, hsaved] at h
  obtain ⟨nonce, hstored⟩ := h
  by_contra hne
  have hsome := hread _ hstored
  rw [hF.other p.1 k nonce p.2 (Ne.symm hne)] at hsome
  cases hsome

theorem Cell.Fits.isToken_iff (h : c.Fits F) (hF : F.Works) :
    c.isToken = true ↔ c.saved ≠ none := by
  rw [Cell.Fits] at h
  split at h
  · next hsaved =>
    have hno : c.isToken = false := by
      rw [Cell.isToken]
      cases hstored : c.stored with
      | none => rfl
      | some token =>
        rw [hstored, Option.getD_some] at h
        rw [h]
        decide
    simp [hno, hsaved]
  · next k' plaintext hsaved =>
    obtain ⟨nonce, hstored⟩ := h
    have hyes : c.isToken = true := by
      rw [Cell.isToken, hstored, Option.any_some, List.isPrefixOf_iff_prefix]
      exact hF.isToken k' nonce plaintext
    simp [hyes, hsaved]

/-- **A key that reads the sample is the key of all that is stored.** -/
theorem Sound.key_eq (h : Sound F s) (hF : F.Works) {i : Option Nat} (hi : s.samples i = true)
    (hread : ∀ token, s.sample i = some token → (F.decrypt k token).isSome = true) :
    ∀ c ∈ s.cells, ∀ p, c.saved = some p → p.1 = k := by
  intro c hc p hsaved
  cases i with
  | none =>
    have hno := List.all_eq_true.mp hi c hc
    rw [Bool.not_eq_true', ← Bool.not_eq_true, (h.fits c hc).isToken_iff hF, not_ne_iff] at hno
    rw [hno] at hsaved
    cases hsaved
  | some i =>
    obtain ⟨d, hd, htoken⟩ := (Option.any_eq_true _ _).mp hi
    have hmem : d ∈ s.cells := List.mem_of_getElem? hd
    obtain ⟨q, hq⟩ := Option.ne_none_iff_exists'.mp (((h.fits d hmem).isToken_iff hF).mp htoken)
    rw [h.one c hc d hmem p q hsaved hq]
    refine (h.fits d hmem).key_eq hF hq fun token hstored => hread token ?_
    rw [State.sample, Option.bind_some, hd, Option.bind_some, hstored]

theorem canary_eq_ok {sample : Option Str} {k' : K} : canary F sample k = .ok k' ↔
    k' = k ∧ ∀ token, sample = some token → (F.decrypt k token).isSome = true := by
  cases sample with
  | none =>
    rw [canary, Except.ok.injEq]
    exact ⟨fun h => ⟨h.symm, fun _ h => by cases h⟩, fun h => h.1.symm⟩
  | some token =>
    rw [canary]
    split
    · next hread =>
      rw [Except.ok.injEq]
      exact ⟨fun h => ⟨h.symm, fun _ heq => Option.some.inj heq ▸ hread⟩, fun h => h.1.symm⟩
    · next hread => exact ⟨(fun h => by cases h), fun h => absurd (h.2 token rfl) hread⟩

theorem exists_of_map_ok {ε α β : Type} {x : Except ε α} {f : α → β} {b : β}
    (h : x.map f = .ok b) : ∃ a, x = .ok a ∧ f a = b := by
  cases x with
  | error e => cases h
  | ok a => exact ⟨a, rfl, Except.ok.inj h⟩

/-- What a start takes. -/
theorem init_encryption_eq_ok {source : Source} {sample : Option Str} {new_key : Str}
    {w : Option Str} : init_encryption F source sample true new_key = .ok (k, w) ↔
      (source.in_container = true → source.env_key ≠ none) ∧
      (∀ token, sample = some token → (F.decrypt k token).isSome = true) ∧
      ((∃ raw_key, read_key source = some raw_key ∧ F.key raw_key = some k ∧ w = none) ∨
        read_key source = none ∧ sample = none ∧ F.key new_key = some k ∧ w = some new_key) := by
  have hcheck : ∀ (raw : Str) (w' : Option Str),
      ((build_cipher F raw).bind (canary F sample)).map (fun k => (k, w')) = .ok (k, w) ↔
        F.key raw = some k ∧ (∀ token, sample = some token → (F.decrypt k token).isSome = true) ∧
          w = w' := by
    intro raw w'
    rw [build_cipher]
    cases F.key raw with
    | none => simp [Except.bind, Except.map]
    | some k' =>
      show (canary F sample k').map (fun k => (k, w')) = .ok (k, w) ↔ _
      rw [Option.some.injEq]
      constructor
      · intro h
        obtain ⟨a, ha, hpair⟩ := exists_of_map_ok h
        obtain ⟨rfl, hread⟩ := canary_eq_ok.mp ha
        obtain ⟨rfl, rfl⟩ := Prod.mk.inj hpair
        exact ⟨rfl, hread, rfl⟩
      · rintro ⟨rfl, hread, rfl⟩
        rw [canary_eq_ok.mpr ⟨rfl, hread⟩]
        rfl
  rw [init_encryption]
  split
  · next hno =>
    simp only [reduceCtorEq, false_iff, not_and]
    exact fun henv => absurd hno.2 (henv hno.1)
  · next hyes =>
    have henv : source.in_container = true → source.env_key ≠ none := fun hc hnone =>
      hyes ⟨hc, hnone⟩
    split
    · next raw hraw =>
      rw [hcheck]
      simp only [hraw, Option.some.injEq, reduceCtorEq, false_and, or_false]
      constructor
      · rintro ⟨hkey, hread, hw⟩
        exact ⟨henv, hread, raw, rfl, hkey, hw⟩
      · rintro ⟨-, hread, raw', rfl, hkey, hw⟩
        exact ⟨hkey, hread, hw⟩
    · next hraw =>
      split
      · next hsome => simp [hraw, hsome]
      · next hnone =>
        rw [not_ne_iff] at hnone
        rw [if_neg (by simp), hcheck]
        simp only [hraw, hnone, reduceCtorEq, false_and, exists_false, false_or, true_and]
        constructor
        · rintro ⟨hkey, -, hw⟩
          exact ⟨henv, by simp, hkey, hw⟩
        · rintro ⟨-, -, hkey, hw⟩
          exact ⟨hkey, by simp, hw⟩

theorem started_cases (up : Bool) (i : Option Nat) (new_key : Str) :
    (∃ k w, init_encryption F s.toSource (if up then s.sample i else none) up new_key =
        .ok (k, w) ∧
      s.started F up i new_key = { s with cipher := some k, file := w.or s.file }) ∨
    (∃ e, init_encryption F s.toSource (if up then s.sample i else none) up new_key = .error e) ∧
      s.started F up i new_key = s := by
  rw [State.started]
  cases init_encryption F s.toSource (if up then s.sample i else none) up new_key with
  | error e => exact .inr ⟨⟨e, rfl⟩, rfl⟩
  | ok kw => exact .inl ⟨kw.1, kw.2, rfl, rfl⟩

/-! ## Runs -/

/-- The cells become others, each one of the old or one that the process writes. -/
theorem Sound.cells (h : Sound F s) {cells : List (Cell K)}
    (hcells : ∀ c ∈ cells, c ∈ s.cells ∨ c.Fits F ∧
      ∀ p, c.saved = some p → s.cipher = some p.1) : Sound F { s with cells := cells } := by
  constructor
  · intro c hc
    exact (hcells c hc).elim (h.fits c) And.left
  · intro c hc d hd p q hp hq
    rcases hcells c hc with hold | ⟨-, hnew⟩
    · rcases hcells d hd with hold' | ⟨-, hnew'⟩
      · exact h.one c hold d hold' p q hp hq
      · exact h.running q.1 (hnew' q hq) c hold p hp
    · rcases hcells d hd with hold' | ⟨-, hnew'⟩
      · exact (h.running p.1 (hnew p hp) d hold' q hq).symm
      · exact Option.some.inj ((hnew p hp).symm.trans (hnew' q hq))
  · intro k hk c hc p hp
    rcases hcells c hc with hold | ⟨-, hnew⟩
    · exact h.running k hk c hold p hp
    · exact Option.some.inj ((hnew p hp).symm.trans hk)

theorem fits_written (k : K) (plaintext : Str) (nonce : Nat) :
    (written F k plaintext nonce).Fits F ∧
      ∀ p, (written F k plaintext nonce).saved = some p → p.1 = k := by
  rw [written, Cell.Fits, encrypt]
  cases plaintext with
  | nil => exact ⟨rfl, fun p hp => by cases hp⟩
  | cons a plaintext =>
    refine ⟨⟨nonce, rfl⟩, fun p hp => ?_⟩
    cases hp
    rfl

theorem Sound.step (h : Sound F s) (hF : F.Works) {a : Action} (hchecked : checked s a = true)
    (hstep : s.step F a = some s') : Sound F s' := by
  have hblank : (({} : Cell K)).Fits F := rfl
  cases a with
  | setEnviron key =>
    cases hstep
    exact ⟨h.fits, h.one, h.running⟩
  | setFile key =>
    cases hstep
    exact ⟨h.fits, h.one, h.running⟩
  | start up i new_key =>
    obtain rfl : up = true := hchecked
    rw [State.step] at hstep
    split at hstep
    · next henabled =>
      cases hstep
      rcases started_cases (F := F) (s := s) true i new_key with ⟨k, w, hinit, heq⟩ | ⟨-, heq⟩
      · rw [heq]
        obtain ⟨-, hread, -⟩ := init_encryption_eq_ok.mp hinit
        refine ⟨h.fits, h.one, fun k' hk' => ?_⟩
        obtain rfl : k = k' := Option.some.inj hk'
        exact h.key_eq hF henabled.2.1 hread
      · rw [heq]
        exact h
    · cases hstep
  | stop =>
    cases hstep
    exact ⟨h.fits, h.one, fun k hk => by cases hk⟩
  | add plaintext nonce =>
    obtain ⟨k, hk, rfl⟩ := Option.map_eq_some_iff.mp hstep
    refine h.cells fun c hc => ?_
    rcases List.mem_append.mp hc with hc | hc
    · exact .inl hc
    · obtain rfl := List.mem_singleton.mp hc
      obtain ⟨hfits, hkey⟩ := fits_written (F := F) k plaintext nonce
      exact .inr ⟨hfits, fun p hp => by rw [hk, hkey p hp]⟩
  | save i plaintext nonce =>
    obtain ⟨k, hk, rfl⟩ := Option.map_eq_some_iff.mp hstep
    refine h.cells fun c hc => ?_
    rcases List.mem_or_eq_of_mem_set hc with hc | rfl
    · exact .inl hc
    · obtain ⟨hfits, hkey⟩ := fits_written (F := F) k plaintext nonce
      exact .inr ⟨hfits, fun p hp => by rw [hk, hkey p hp]⟩
  | clear i =>
    cases hstep
    refine h.cells fun c hc => ?_
    rcases List.mem_or_eq_of_mem_set hc with hc | rfl
    · exact .inl hc
    · exact .inr ⟨hblank, fun p hp => by cases hp⟩
  | delete i =>
    cases hstep
    exact h.cells fun c hc => .inl (List.mem_of_mem_eraseIdx hc)

theorem sound_of_checked (hF : F.Works) (h : (secrets F).Reachable checked s) : Sound F s := by
  refine h.invariant (fun s hs => ?_) fun s a s' _ hallowed hs hstep => hs.step hF hallowed hstep
  obtain ⟨hcells, hcipher⟩ := hs
  have hno : ∀ c, c ∉ s.cells := fun c => hcells ▸ List.not_mem_nil
  refine ⟨fun c hc => (hno c hc).elim, fun c hc => (hno c hc).elim, fun k hk => ?_⟩
  rw [hcipher] at hk
  cases hk

/-- **Nothing that is saved is lost**: in every run where the database answers whenever NetRollout
starts, whatever becomes of the key between two starts, each process reads back all that was ever
saved. -/
theorem readable (hF : F.Works) (h : (secrets F).Reachable checked s) (hk : s.cipher = some k) :
    ∀ c ∈ s.cells, decrypt F k c.stored = some c.plaintext := by
  have hs := sound_of_checked hF h
  exact fun c hc => (hs.fits c hc).decrypt_own hF (hs.running k hk c hc)

end Proofs

/-- A key of one letter, which stands before the text. -/
def letters : Fernet Char where
  key raw := raw.head?
  encrypt k _ s := FERNET_PREFIX ++ k :: s
  decrypt k token := if (FERNET_PREFIX ++ [k]).isPrefixOf token then some (token.drop 7) else none

theorem letters_works : letters.Works where
  isToken k _ s := List.prefix_append _ _
  own k _ s := by simp [letters, FERNET_PREFIX]
  other k k' _ s hne := by simp [letters, FERNET_PREFIX, hne]

/-- A key is generated and used; then it is lost, and put back. -/
def keyPutBack : List Action :=
  [.start true none ['a'], .add "secret".toList 0, .add [] 1, .stop, .setFile none,
    .start true (some 0) ['b'], .setFile (some "a\n".toList)]

/-- An installation outside a container. -/
def installed : State Char := ⟨⟨false, none, none⟩, [], none⟩

theorem readable_keyPutBack : ∃ s, (secrets letters).Reachable checked s ∧
    ∀ c ∈ s.cells, decrypt letters 'a' c.stored = some c.plaintext :=
  have hreach : (secrets letters).Reachable checked _ :=
    ⟨installed, keyPutBack ++ [.start true (some 0) ['c']], ⟨rfl, rfl⟩, rfl⟩
  ⟨_, hreach, readable letters_works hreach rfl⟩

/-- A start that finds the database unreachable takes another key, and what is saved then is not
read by the next that takes the right one. -/
example : ((secrets letters).exec System.always ⟨⟨false, some ['a'], none⟩, [], none⟩
    [.start true none ['c'], .add "old".toList 0, .stop, .setEnviron (some ['b']),
      .start false (some 0) ['c'], .add "new".toList 1, .stop, .setEnviron (some ['a']),
      .start true (some 0) ['c']]).map
      (fun s => s.cells.map fun c => s.cipher.bind fun k => decrypt letters k c.stored) =
    some [some "old".toList, none] := by decide

end EncryptionKey
end NetRollout
