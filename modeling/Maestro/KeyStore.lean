import Maestro.Teardown
import Maestro.Directory
import Maestro.Json

/-! The passphrase key store: the database key wrapped in a file, created by the first caller
through a temporary file and a hard link. -/
namespace Maestro.KeyStore
open Interleaving Prog Files

def keyBytes : Nat := 32
def maxEnvelopeBytes : Nat := 16 * 1024
def tempFileAttempts : Nat := 128

/-- `[u8; size]`. -/
abbrev Fixed (size : Nat) := { bytes : Bytes // bytes.length = size }

abbrev DatabaseKey := Fixed keyBytes

inductive KeyStoreError where
  | encryption (message : String)
  | keyDerivation (message : String)
  | incorrectPassphraseOrCorruptEnvelope
  | envelopeTooLarge (actual maximum : Nat)
  | filesystemPathChanged
  | invalidEnvelopeField (name : String) (expected actual : Nat)
  | invalidKeyLength (length : Nat)
  | invalidEncoding (message : String)
  | temporaryFileExhausted
  | unsafeFilesystemPath
  | unsupportedEnvelopeVersion (version : Nat)
  | io (error : IoError)
  | serialization (message : String)
  deriving DecidableEq, Repr

structure WrappedKeyEnvelope where
  version : Nat
  salt : String
  nonce : String
  ciphertext : String
  deriving DecidableEq, Repr

/-- The crates the store uses: `argon2`, `chacha20poly1305`, `base64` and `serde_json`. -/
structure Crates where
  hashPassword : String → Bytes → Except String Bytes
  encrypt : Bytes → Bytes → Bytes → Except String Bytes
  decrypt : Bytes → Bytes → Bytes → Option Bytes
  encode : Bytes → String
  decode : String → Except String Bytes
  toVec : WrappedKeyEnvelope → Bytes
  fromSlice : Bytes → Except String WrappedKeyEnvelope

structure Crates.RoundTrips (crates : Crates) : Prop where
  aead : ∀ {key nonce message ciphertext}, crates.encrypt key nonce message = .ok ciphertext →
    crates.decrypt key nonce ciphertext = some message
  base64 : ∀ bytes, crates.decode (crates.encode bytes) = .ok bytes
  json : ∀ envelope, crates.fromSlice (crates.toVec envelope) = .ok envelope

def fromBytes (bytes : Bytes) : Except KeyStoreError DatabaseKey :=
  if sized : bytes.length = keyBytes then .ok ⟨bytes, sized⟩ else .error (.invalidKeyLength bytes.length)

section Envelopes
variable (crates : Crates) (passphrase : String)

def deriveWrappingKey (salt : Fixed 16) : Except KeyStoreError Bytes :=
  (crates.hashPassword passphrase salt.1).mapError .keyDerivation

def decodeFixed (size : Nat) (name value : String) : Except KeyStoreError (Fixed size) := do
  let bytes ← (crates.decode value).mapError .invalidEncoding
  if sized : bytes.length = size then .ok ⟨bytes, sized⟩
  else .error (.invalidEnvelopeField name size bytes.length)

/-- The envelope `create_wrapped_key` serializes. -/
def wrapKey (key : DatabaseKey) (salt : Fixed 16) (nonce : Fixed 24) : Except KeyStoreError Bytes := do
  let wrappingKey ← deriveWrappingKey crates passphrase salt
  let ciphertext ← (crates.encrypt wrappingKey nonce.1 key.1).mapError .encryption
  .ok (crates.toVec ⟨1, crates.encode salt.1, crates.encode nonce.1, crates.encode ciphertext⟩)

/-- `decrypt_wrapped_key` behind the read of the envelope. -/
def unwrapKey (bytes : Bytes) : Except KeyStoreError DatabaseKey := do
  let envelope ← (crates.fromSlice bytes).mapError .serialization
  if envelope.version ≠ 1 then .error (.unsupportedEnvelopeVersion envelope.version)
  else do
    let salt ← decodeFixed crates 16 "salt" envelope.salt
    let nonce ← decodeFixed crates 24 "nonce" envelope.nonce
    let ciphertext ← (crates.decode envelope.ciphertext).mapError .invalidEncoding
    let wrappingKey ← deriveWrappingKey crates passphrase salt
    match crates.decrypt wrappingKey nonce.1 ciphertext with
    | none => .error .incorrectPassphraseOrCorruptEnvelope
    | some plaintext => fromBytes plaintext

variable {crates passphrase}

theorem unwrapWrapped (round : crates.RoundTrips) {key : DatabaseKey} {salt : Fixed 16}
    {nonce : Fixed 24} {bytes : Bytes}
    (wrapped : wrapKey crates passphrase key salt nonce = .ok bytes) :
    unwrapKey crates passphrase bytes = .ok key := by
  unfold wrapKey at wrapped
  cases derived : deriveWrappingKey crates passphrase salt with
  | error error =>
    rw [derived] at wrapped
    cases wrapped
  | ok wrappingKey =>
    rw [derived] at wrapped
    cases sealed : crates.encrypt wrappingKey nonce.1 key.1 with
    | error message =>
      simp only [sealed, Except.mapError, Bind.bind, Except.bind] at wrapped
      cases wrapped
    | ok ciphertext =>
      simp only [sealed, Except.mapError, Bind.bind, Except.bind, Except.ok.injEq] at wrapped
      subst wrapped
      simp [unwrapKey, decodeFixed, round.json, round.base64, Except.mapError, Bind.bind, Except.bind,
        salt.2, nonce.2, derived, round.aead sealed, fromBytes, key.2]

end Envelopes

structure Metadata where
  inode : Inode
  kind : FileKind
  length : Nat
  deriving DecidableEq, Repr

inductive Act where
  | verifiedWrappingPath
  | verifyUnchanged
  | symlinkMetadata (file : String)
  | openRead (file : String)
  | metadata (inode : Inode)
  | read (inode : Inode) (count : Nat)
  | generateKey
  | randomBytes (count : Nat)
  | createNew (temporary : String)
  | write (inode : Inode) (bytes : Bytes)
  | syncAll (inode : Inode)
  | hardLink (temporary : String)
  | removeFile (temporary : String)
  | syncDirectory
  | respond (result : Except KeyStoreError DatabaseKey)

@[reducible] def Act.Answer : Act → Type
  | .verifiedWrappingPath | .verifyUnchanged => Except KeyStoreError Unit
  | .symlinkMetadata _ | .metadata _ => Except IoError Metadata
  | .openRead _ | .createNew _ => Except IoError Inode
  | .read .. => Except IoError Bytes
  | .generateKey => DatabaseKey
  | .randomBytes count => Fixed count
  | .write .. => Except IoError Nat
  | .syncAll _ | .hardLink _ | .removeFile _ | .syncDirectory => Except IoError Unit
  | .respond _ => Unit

abbrev actions : Actions := ⟨Act, Act.Answer⟩

abbrev Program := Prog actions

@[simp] def perform (o : Act) : Program o.Answer := .act (A := actions) o .done

def hexDigit (n : Nat) : Char := "0123456789abcdef".toList.getD n '0'

def hexEncode (bytes : Bytes) : String :=
  String.ofList (bytes.flatMap fun byte => [hexDigit (byte.toNat / 16), hexDigit (byte.toNat % 16)])

def temporaryNameOf (random : Bytes) : String := ".maestro-key-" ++ hexEncode random ++ ".tmp"

def createUniqueTemporary : Nat → Program (Except KeyStoreError (String × Inode))
  | 0 => pure (.error .temporaryFileExhausted)
  | attempts + 1 => do
    let random ← perform (.randomBytes 16)
    match ← perform (.createNew (temporaryNameOf random.1)) with
    | .ok inode => pure (.ok (temporaryNameOf random.1, inode))
    | .error .alreadyExists => createUniqueTemporary attempts
    | .error error => pure (.error (.io error))

/-- `write_all`: calls of `write`, each of at least one byte, until nothing is left. -/
def writeAll (inode : Inode) : Nat → Bytes → Program (Except KeyStoreError Unit)
  | _, [] => pure (.ok ())
  | 0, _ => pure (.ok ())
  | room + 1, bytes => do
    match ← perform (.write inode bytes) with
    | .error error => pure (.error (.io error))
    | .ok 0 => pure (.error (.io .writeZero))
    | .ok (count + 1) => writeAll inode room (bytes.drop (count + 1))

inductive Publication where
  | published
  | existing
  deriving DecidableEq, Repr

/-- `TemporaryCleanup::remove`, which drops the armed guard when it fails. -/
def removeTemporary (temporary : String) : Program (Except KeyStoreError Unit) := do
  match ← perform (.removeFile temporary) with
  | .ok () => pure (.ok ())
  | .error error =>
    let _ ← perform (.removeFile temporary)
    pure (.error (.io error))

def dropTemporary {α : Type} (temporary : String) (error : KeyStoreError) :
    Program (Except KeyStoreError α) := do
  let _ ← perform (.removeFile temporary)
  pure (.error error)

def finishPublication (temporary : String) (publication : Publication) :
    Program (Except KeyStoreError Publication) := do
  match ← removeTemporary temporary with
  | .error error => pure (.error error)
  | .ok () =>
    match ← perform .syncDirectory with
    | .error error => pure (.error (.io error))
    | .ok () => pure (.ok publication)

section Programs
variable (crates : Crates) (passphrase name : String)

def linkTemporary (temporary : String) : Program (Except KeyStoreError Publication) := do
  match ← perform (.hardLink temporary) with
  | .ok () =>
    match ← perform (.symlinkMetadata temporary) with
    | .error error => dropTemporary temporary (.io error)
    | .ok source =>
      match ← perform (.symlinkMetadata name) with
      | .error error => dropTemporary temporary (.io error)
      | .ok published =>
        if source.inode ≠ published.inode then dropTemporary temporary .filesystemPathChanged
        else finishPublication temporary .published
  | .error .alreadyExists => finishPublication temporary .existing
  | .error error => dropTemporary temporary (.io error)

def publishAtomically (contents : Bytes) : Program (Except KeyStoreError Publication) := do
  match ← perform .verifyUnchanged with
  | .error error => pure (.error error)
  | .ok () =>
    match ← createUniqueTemporary tempFileAttempts with
    | .error error => pure (.error error)
    | .ok (temporary, inode) =>
      match ← writeAll inode contents.length contents with
      | .error error => dropTemporary temporary error
      | .ok () =>
        match ← perform (.syncAll inode) with
        | .error error => dropTemporary temporary (.io error)
        | .ok () =>
          match ← perform .verifyUnchanged with
          | .error error => dropTemporary temporary error
          | .ok () => linkTemporary name temporary

def readEnvelope : Program (Except KeyStoreError Bytes) := do
  match ← perform (.symlinkMetadata name) with
  | .error error => pure (.error (.io error))
  | .ok pathMetadata =>
    if pathMetadata.kind ≠ .regular then pure (.error .unsafeFilesystemPath)
    else if maxEnvelopeBytes < pathMetadata.length then
      pure (.error (.envelopeTooLarge pathMetadata.length maxEnvelopeBytes))
    else
      match ← perform (.openRead name) with
      | .error error => pure (.error (.io error))
      | .ok inode =>
        match ← perform (.metadata inode) with
        | .error error => pure (.error (.io error))
        | .ok openedMetadata =>
          if pathMetadata.inode ≠ openedMetadata.inode then pure (.error .filesystemPathChanged)
          else
            match ← perform (.read inode (maxEnvelopeBytes + 1)) with
            | .error error => pure (.error (.io error))
            | .ok bytes =>
              if maxEnvelopeBytes < bytes.length then
                pure (.error (.envelopeTooLarge bytes.length maxEnvelopeBytes))
              else pure (.ok bytes)

def decryptWrappedKey : Program (Except KeyStoreError DatabaseKey) := do
  match ← readEnvelope name with
  | .error error => pure (.error error)
  | .ok bytes => pure (unwrapKey crates passphrase bytes)

def createWrappedKey : Program (Except KeyStoreError DatabaseKey) := do
  let key ← perform .generateKey
  let salt ← perform (.randomBytes 16)
  let nonce ← perform (.randomBytes 24)
  match wrapKey crates passphrase key salt nonce with
  | .error error => pure (.error error)
  | .ok contents =>
    match ← publishAtomically name contents with
    | .error error => pure (.error error)
    | .ok .published => pure (.ok key)
    | .ok .existing => decryptWrappedKey crates passphrase name

def loadOrCreate : Program (Except KeyStoreError DatabaseKey) := do
  match ← perform .verifiedWrappingPath with
  | .error error => pure (.error error)
  | .ok () =>
    match ← perform (.symlinkMetadata name) with
    | .ok _ => decryptWrappedKey crates passphrase name
    | .error .notFound => createWrappedKey crates passphrase name
    | .error error => pure (.error (.io error))

end Programs

/-- `returned` are the keys of the calls that returned one. -/
structure Memory where
  directory : Directory
  returned : List DatabaseKey

/-- What the system decides: whether a call fails, how much of a `write` is written, and what
the random number generator draws. -/
structure Choice where
  fails : Option IoError
  refused : Option KeyStoreError
  count : Nat
  drawn : Bytes

def metadataOf (d : Directory) (inode : Inode) : Metadata :=
  ⟨inode, (d.files inode).kind, (d.files inode).bytes.length⟩

section Machine
variable (crates : Crates) (passphrase name : String)

def apply : (o : Act) → Choice → Memory → Option (o.Answer × Memory)
  | .verifiedWrappingPath, choice, m | .verifyUnchanged, choice, m =>
    match choice.refused with
    | some error => some (.error error, m)
    | none => some (.ok (), m)
  | .symlinkMetadata file, choice, m =>
    match choice.fails, m.directory.entries file with
    | some error, _ => some (.error error, m)
    | none, none => some (.error .notFound, m)
    | none, some inode => some (.ok (metadataOf m.directory inode), m)
  | .openRead file, choice, m =>
    match choice.fails, m.directory.entries file with
    | some error, _ => some (.error error, m)
    | none, none => some (.error .notFound, m)
    | none, some inode => some (.ok inode, m)
  | .metadata inode, choice, m =>
    match choice.fails with
    | some error => some (.error error, m)
    | none => some (.ok (metadataOf m.directory inode), m)
  | .read inode count, choice, m =>
    match choice.fails with
    | some error => some (.error error, m)
    | none => some (.ok ((m.directory.files inode).bytes.take count), m)
  | .generateKey, choice, m =>
    if sized : choice.drawn.length = keyBytes then some (⟨choice.drawn, sized⟩, m) else none
  | .randomBytes count, choice, m =>
    if sized : choice.drawn.length = count then some (⟨choice.drawn, sized⟩, m) else none
  | .createNew temporary, choice, m =>
    match choice.fails, m.directory.createNew temporary 0o600 with
    | some error, _ | none, .error error => some (.error error, m)
    | none, .ok (inode, directory) => some (.ok inode, { m with directory })
  | .write inode bytes, choice, m =>
    match choice.fails with
    | some error => some (.error error, m)
    | none =>
      if 0 < choice.count ∧ choice.count ≤ bytes.length then
        some (.ok choice.count, { m with directory := m.directory.write inode (bytes.take choice.count) })
      else none
  | .syncAll _, choice, m | .syncDirectory, choice, m =>
    match choice.fails with
    | some error => some (.error error, m)
    | none => some (.ok (), m)
  | .hardLink temporary, choice, m =>
    match choice.fails, m.directory.hardLink temporary name with
    | some error, _ | none, .error error => some (.error error, m)
    | none, .ok directory => some (.ok (), { m with directory })
  | .removeFile temporary, choice, m =>
    match choice.fails, m.directory.unlink temporary with
    | some error, _ | none, .error error => some (.error error, m)
    | none, .ok directory => some (.ok (), { m with directory })
  | .respond (.ok key), _, m => some ((), { m with returned := key :: m.returned })
  | .respond (.error _), _, m => some ((), m)

example (inode : Inode) (bytes : Bytes) (choice : Choice) (m : Memory) (fails : choice.fails = some .writeZero) :
    apply name (.write inode bytes) choice m = some (.error .writeZero, m) := by
  simp only [apply, fails]

/-- The acts that leave the directory and the returned keys as they are. -/
def Act.Quiet : Act → Prop
  | .createNew _ | .write _ _ | .hardLink _ | .removeFile _ | .respond (.ok _) => False
  | _ => True

def body (_ : Unit) : Program (Option Unit) := do
  let result ← loadOrCreate crates passphrase name
  perform (.respond result)
  pure none

/-- Every call is a process of its own; the lock of a process orders the calls of that
process, which here come in every order. -/
abbrev machine : Machine actions where
  Memory := Memory
  Entry := Unit
  Choice := Choice
  Outside := Empty
  body := body crates passphrase name
  apply := apply name
  spawns := fun _ => none
  callable := fun _ => true
  outside := fun x => nomatch x

/-- A process can crash before any of its steps; what it has written stays. -/
abbrev crash : Teardown (machine crates passphrase name) where
  suspended := fun _ _ => true
  release := fun _ m => m

variable {crates passphrase name} {choice : Choice} {m m' : Memory}

theorem appliedQuiet {o : Act} {answer : o.Answer} (quiet : o.Quiet)
    (applied : apply name o choice m = some (answer, m')) : m' = m := by
  cases o
  case createNew | write | hardLink | removeFile => exact quiet.elim
  case respond result =>
    cases result with
    | ok key => exact quiet.elim
    | error error => cases applied; rfl
  all_goals
    simp only [apply] at applied
    split at applied <;> cases applied <;> rfl

theorem appliedOpenRead {file : String} {inode : Inode}
    (applied : apply name (.openRead file) choice m = some (.ok inode, m')) :
    m.directory.entries file = some inode := by
  simp only [apply] at applied
  split at applied <;> cases applied
  assumption

theorem appliedRead {inode : Inode} {count : Nat} {bytes : Bytes}
    (applied : apply name (.read inode count) choice m = some (.ok bytes, m')) :
    bytes = (m.directory.files inode).bytes.take count := by
  simp only [apply] at applied
  split at applied <;> cases applied
  rfl

theorem appliedCreateNew {temporary : String} {answer : Except IoError Inode}
    (applied : apply name (.createNew temporary) choice m = some (answer, m')) :
    (∃ error, answer = .error error ∧ m' = m) ∨
      ∃ inode directory, answer = .ok inode ∧ m' = { m with directory } ∧
        m.directory.createNew temporary 0o600 = .ok (inode, directory) := by
  simp only [apply] at applied
  split at applied <;> cases applied
  · exact .inl ⟨_, rfl, rfl⟩
  · exact .inl ⟨_, rfl, rfl⟩
  · exact .inr ⟨_, _, rfl, rfl, by assumption⟩

theorem appliedWrite {inode : Inode} {bytes : Bytes} {answer : Except IoError Nat}
    (applied : apply name (.write inode bytes) choice m = some (answer, m')) :
    (∃ error, answer = .error error ∧ m' = m) ∨
      ∃ count, answer = .ok count ∧
        m' = { m with directory := m.directory.write inode (bytes.take count) } := by
  simp only [apply] at applied
  split at applied
  · cases applied
    exact .inl ⟨_, rfl, rfl⟩
  · split at applied <;> cases applied
    exact .inr ⟨_, rfl, rfl⟩

theorem appliedHardLink {temporary : String} {answer : Except IoError Unit}
    (applied : apply name (.hardLink temporary) choice m = some (answer, m')) :
    (∃ error, answer = .error error ∧ m' = m) ∨
      ∃ directory, answer = .ok () ∧ m' = { m with directory } ∧
        m.directory.hardLink temporary name = .ok directory := by
  simp only [apply] at applied
  split at applied <;> cases applied
  · exact .inl ⟨_, rfl, rfl⟩
  · exact .inl ⟨_, rfl, rfl⟩
  · exact .inr ⟨_, rfl, rfl, by assumption⟩

theorem appliedRemoveFile {temporary : String} {answer : Except IoError Unit}
    (applied : apply name (.removeFile temporary) choice m = some (answer, m')) :
    (∃ error, answer = .error error ∧ m' = m) ∨
      ∃ directory, answer = .ok () ∧ m' = { m with directory } ∧
        m.directory.unlink temporary = .ok directory := by
  simp only [apply] at applied
  split at applied <;> cases applied
  · exact .inl ⟨_, rfl, rfl⟩
  · exact .inl ⟨_, rfl, rfl⟩
  · exact .inr ⟨_, rfl, rfl, by assumption⟩

end Machine

end Maestro.KeyStore
