import Mathlib.Data.List.AList
import Mathlib.Data.Prod.Lex
import Maestro.CrashRuns
import Maestro.Directory
import Maestro.JsonRedaction
import Maestro.Paths
import Maestro.Retention

/-! The daily snapshots of the database: one file for each date in a directory of their own, of
which the rotation keeps the newest seven. -/
namespace Maestro.Backup
open Interleaving Prog Files Redaction

def leap (year : Int) : Bool := year % 4 = 0 ∧ (year % 100 ≠ 0 ∨ year % 400 = 0)

def daysIn (year : Int) (month : Nat) : Nat :=
  if month = 2 then (if leap year then 29 else 28) else if month ∈ [4, 6, 9, 11] then 30 else 31

def Real (year : Int) (month day : Nat) : Prop :=
  (-262143 ≤ year ∧ year ≤ 262142) ∧ (1 ≤ month ∧ month ≤ 12) ∧ 1 ≤ day ∧ day ≤ daysIn year month

instance realDecidable (year : Int) (month day : Nat) : Decidable (Real year month day) :=
  inferInstanceAs (Decidable (_ ∧ _))

structure NaiveDate where
  year : Int
  month : Nat
  day : Nat
  real : Real year month day
  deriving DecidableEq

def NaiveDate.key (date : NaiveDate) : Int ×ₗ Nat ×ₗ Nat := toLex (date.year, toLex (date.month, date.day))

def digit (n : Nat) : UInt8 := UInt8.ofNat (0x30 + n % 10)

def twoDigits (n : Nat) : Bytes := [digit (n / 10), digit n]

def fourDigits (n : Nat) : Bytes := [digit (n / 1000), digit (n / 100), digit (n / 10), digit n]

/-- `%Y`: a year of more than four digits, or before the year 0, has a sign. -/
def yearText (year : Int) : Bytes :=
  if 0 ≤ year ∧ year ≤ 9999 then fourDigits year.toNat
  else
    let text := bytes (toString year.natAbs)
    (if year < 0 then 0x2D else 0x2B) :: (List.replicate (4 - text.length) 0x30 ++ text)

/-- `%Y-%m-%d`. -/
def NaiveDate.format (date : NaiveDate) : Bytes :=
  yearText date.year ++ 0x2D :: (twoDigits date.month ++ 0x2D :: twoDigits date.day)

def value (byte : UInt8) : Option Nat := if 0x30 ≤ byte ∧ byte ≤ 0x39 then some (byte.toNat - 0x30) else none

/-- `NaiveDate::parse_from_str` for the texts that the format gives back. -/
def parseDate : Bytes → Option NaiveDate
  | [a, b, c, d, 0x2D, e, f, 0x2D, g, h] => do
    let year := (← value a) * 1000 + (← value b) * 100 + (← value c) * 10 + (← value d)
    let month := (← value e) * 10 + (← value f)
    let day := (← value g) * 10 + (← value h)
    if real : Real year month day then some ⟨year, month, day, real⟩ else none
  | _ => none

def backupPrefix : Bytes := bytes "maestro-backup-v1-"

def backupSuffix : Bytes := bytes ".sqlcipher"

def temporaryPrefix : Bytes := bytes ".maestro-backup-v1-"

def temporarySuffix : Bytes := bytes ".tmp"

def snapshotFilename (date : NaiveDate) : Bytes := backupPrefix ++ date.format ++ backupSuffix

def parseSnapshotFilename (name : Bytes) : Option NaiveDate := do
  let _ ← ofBytes name
  let date ← (← name.dropPrefix? backupPrefix).dropSuffix? backupSuffix
  if date.length ≠ 10 then none
  else
    let parsed ← parseDate date
    if parsed.format = date then some parsed else none

def hexDigit (n : Nat) : UInt8 := if n < 10 then UInt8.ofNat (0x30 + n) else UInt8.ofNat (0x61 + (n - 10))

def hexEncode (random : Bytes) : Bytes := random.flatMap fun byte => [hexDigit (byte.toNat / 16), hexDigit (byte.toNat % 16)]

def temporaryFilename (random : Bytes) : Bytes := temporaryPrefix ++ hexEncode random ++ temporarySuffix

def isAsciiHexdigit (byte : UInt8) : Bool :=
  0x30 ≤ byte ∧ byte ≤ 0x39 ∨ 0x41 ≤ byte ∧ byte ≤ 0x46 ∨ 0x61 ≤ byte ∧ byte ≤ 0x66

def isOwnedTemporaryName (name : Bytes) : Bool :=
  match ofBytes name, (name.dropPrefix? temporaryPrefix).bind (·.dropSuffix? temporarySuffix) with
  | some _, some random => random.length = 32 && random.all isAsciiHexdigit
  | _, _ => false

/-- `stale` is a file changed 24 hours ago or before. -/
structure Node where
  kind : FileKind
  content : Bytes
  stale : Bool
  deriving DecidableEq

abbrev Folder := AList fun _ : Bytes => Node

inductive Stat where
  | missing
  | failed
  | found (node : Node)

inductive Creation where
  | created
  | taken
  | failed

inductive Act where
  | prepareDirectory
  | readDir
  | symlinkMetadata (name : Bytes)
  | verifySnapshot (name : Bytes)
  | fillBytes
  | createNew (name : Bytes)
  | createOnlineBackup (name : Bytes)
  | syncAll (name : Bytes)
  | rename (temporary name : Bytes)
  | syncDirectory
  | removeFile (name : Bytes)

/-- An entry that cannot be read ends the listing. -/
@[reducible] def Act.Answer : Act → Type
  | .readDir => Option (List (Option Bytes))
  | .symlinkMetadata _ => Stat
  | .fillBytes => Bytes
  | .createNew _ => Creation
  | _ => Bool

abbrev actions : Actions := ⟨Act, Act.Answer⟩

abbrev Program := Prog actions

@[simp] def perform (o : Act) : Program o.Answer := .act (A := actions) o .done

structure BackupRotation where
  removed : List Bytes
  skippedUntrusted : List Bytes

structure BackupResult where
  snapshot : Bytes
  created : Bool
  rotation : BackupRotation

def cleanEntries : List (Option Bytes) → Bool → Program Bool
  | [], removed => if removed then perform .syncDirectory else pure true
  | none :: _, _ => pure false
  | some name :: rest, removed =>
    if isOwnedTemporaryName name then do
      match ← perform (.symlinkMetadata name) with
      | .found node =>
        if node.kind = .regular ∧ node.stale then
          if ← perform (.removeFile name) then cleanEntries rest true else pure false
        else cleanEntries rest removed
      | .missing | .failed => pure false
    else cleanEntries rest removed

def cleanupStaleTemporaries : Program Bool := do
  match ← perform .readDir with
  | none => pure false
  | some names => cleanEntries names false

def tempAttempts : Nat := 128

def createPrivateTemporary : Nat → Program (Option Bytes)
  | 0 => pure none
  | attempts + 1 => do
    let name := temporaryFilename (← perform .fillBytes)
    match ← perform (.createNew name) with
    | .created => pure (some name)
    | .taken => createPrivateTemporary attempts
    | .failed => pure none

/-- The candidates of a rotation with their dates, and the names skipped as untrusted. -/
def gather : List (Option Bytes) → List (NaiveDate × Bytes) → List Bytes →
    Program (Option (List (NaiveDate × Bytes) × List Bytes))
  | [], candidates, skipped => pure (some (candidates, skipped))
  | none :: _, _, _ => pure none
  | some name :: rest, candidates, skipped =>
    match parseSnapshotFilename name with
    | none => gather rest candidates skipped
    | some date => do
      match ← perform (.symlinkMetadata name) with
      | .found node =>
        if node.kind = .regular then
          if ← perform (.verifySnapshot name) then gather rest (candidates ++ [(date, name)]) skipped
          else gather rest candidates (skipped ++ [name])
        else gather rest candidates (skipped ++ [name])
      | .missing | .failed => pure none

def removeAll : List Bytes → List Bytes → Program (Option (List Bytes))
  | [], removed => pure (some removed)
  | name :: rest, removed => do
    if ← perform (.removeFile name) then removeAll rest (removed ++ [name]) else pure none

def dailySnapshots : Nat := 7

/-- `sort_by_key` of the reversed dates. -/
def newestFirst (candidates : List (NaiveDate × Bytes)) : List (NaiveDate × Bytes) :=
  Retention.sortBy (fun candidate => OrderDual.toDual candidate.1.key) candidates

def rotate : Program (Option BackupRotation) := do
  if ← perform .prepareDirectory then
    match ← perform .readDir with
    | none => pure none
    | some names =>
      match ← gather names [] [] with
      | none => pure none
      | some (candidates, skipped) =>
        match ← removeAll (((newestFirst candidates).drop dailySnapshots).map (·.2)) [] with
        | none => pure none
        | some removed =>
          let rotation := ⟨removed, skipped.insertionSort fun a b => a ≤ b⟩
          if removed = [] then pure (some rotation)
          else if ← perform .syncDirectory then pure (some rotation)
          else pure none
  else pure none

def publishSnapshot (temporary snapshot : Bytes) (existed : Bool) : Program (Option BackupResult) := do
  if ← perform (.createOnlineBackup temporary) then
    if ← perform (.verifySnapshot temporary) then
      if ← perform (.syncAll temporary) then
        if ← perform (.rename temporary snapshot) then
          if ← perform .syncDirectory then
            match ← rotate with
            | none => pure none
            | some rotation => pure (some ⟨snapshot, !existed, rotation⟩)
          else pure none
        else pure none
      else pure none
    else pure none
  else pure none

/-- The temporary file is removed at the end, if it is there. -/
def writeSnapshot (snapshot : Bytes) (existed : Bool) : Program (Option BackupResult) := do
  match ← createPrivateTemporary tempAttempts with
  | none => pure none
  | some temporary =>
    let result ← publishSnapshot temporary snapshot existed
    let _ ← perform (.removeFile temporary)
    pure result

def createDailySnapshot (date : NaiveDate) : Program (Option BackupResult) := do
  if ← perform .prepareDirectory then
    if ← cleanupStaleTemporaries then
      match ← perform (.symlinkMetadata (snapshotFilename date)) with
      | .found _ =>
        if ← perform (.verifySnapshot (snapshotFilename date)) then writeSnapshot (snapshotFilename date) true
        else pure none
      | .missing => writeSnapshot (snapshotFilename date) false
      | .failed => pure none
    else pure none
  else pure none

/-- What the environment decides: which call fails, the order of the listing and how far it is
read, the random bytes, what the backup writes, and what it makes of the files that SQLite keeps
beside a database. -/
structure Choice where
  fails : Bool
  listing : List Bytes
  read : Nat
  random : Bytes
  content : Bytes
  beside : Bytes → Option (Option Node)

/-- The write-ahead log, its index and the rollback journal of a database. -/
def companions (name : Bytes) : List Bytes := [name ++ bytes "-wal", name ++ bytes "-shm", name ++ bytes "-journal"]

/-- The file stays, is removed, or is there as the choice has it. -/
def settle (beside : Bytes → Option (Option Node)) (d : Folder) (name : Bytes) : Folder :=
  match beside name with
  | none => d
  | some none => d.erase name
  | some (some node) => d.insert name node

/-- A connection to the database may create, write and remove its companions. -/
def connected (choice : Choice) (name : Bytes) (d : Folder) : Folder :=
  (companions name).foldl (settle choice.beside) d

section Effects
variable (valid : Bytes → Bool)

/-- `verify_snapshot` of a regular file whose content the cipher and the schema vouch for. -/
def verified (d : Folder) (name : Bytes) : Bool :=
  match d.lookup name with
  | some node => node.kind = .regular && valid node.content
  | none => false

def apply : (o : Act) → Choice → Folder → Option (o.Answer × Folder)
  | .prepareDirectory, choice, d | .syncAll _, choice, d | .syncDirectory, choice, d => some (!choice.fails, d)
  | .readDir, choice, d =>
    if choice.listing.Perm d.keys then
      some (if choice.fails then none
        else some ((choice.listing.take choice.read).map some ++ if choice.read < choice.listing.length then [none] else []), d)
    else none
  | .symlinkMetadata name, choice, d =>
    some (if choice.fails then .failed
      else match d.lookup name with
        | none => .missing
        | some node => .found node, d)
  | .verifySnapshot name, choice, d =>
    some (!choice.fails && verified valid d name,
      if (d.lookup name).any (·.kind = .regular) then connected choice name d else d)
  | .fillBytes, choice, d => if choice.random.length = 16 then some (choice.random, d) else none
  | .createNew name, choice, d =>
    if choice.fails then some (.failed, d)
    else match d.lookup name with
      | some _ => some (.taken, d)
      | none => some (.created, d.insert name ⟨.regular, [], false⟩)
  | .createOnlineBackup name, choice, d =>
    match d.lookup name with
    | some node => some (!choice.fails, connected choice name (d.insert name { node with content := choice.content }))
    | none => some (false, d)
  | .rename temporary name, choice, d =>
    match choice.fails, d.lookup temporary with
    | false, some node =>
      if (d.lookup name).any (·.kind = .directory) then some (false, d)
      else some (true, (d.erase temporary).insert name node)
    | _, _ => some (false, d)
  | .removeFile name, choice, d =>
    match choice.fails, d.lookup name with
    | false, some node => if node.kind = .directory then some (false, d) else some (true, d.erase name)
    | _, _ => some (false, d)

end Effects

end Maestro.Backup
