import Maestro.Interleaving
import Maestro.WriteAheadLog

/-! The encrypted database on disk. Every step between two file operations is a place
where the process can die: what is on disk then is what the next open finds. -/
namespace Maestro.Database
open Interleaving (Prog)
open WriteAheadLog

abbrev DatabaseKey := List UInt8

def currentSchemaVersion : Int := 3

inductive StorageError where
  | encryptionUnavailable
  | unsupportedSchemaVersion (found maximumSupported : Int)
  | uncheckpointedWal (path : String)
  | sql
  deriving DecidableEq, Repr

/-- What the code relies on of the engine: `versions` reads the rows of
`schema_migrations` (`none` without that table), and the last fields say what creating the
table and a migration that is not recorded yet do to them. `interrupted` are the writes
of the statements that mark unfinished work. -/
structure Sqlite where
  Page : Type
  Data : Type
  pages : DecidableEq Page
  contents : DecidableEq Data
  blank : Page → Data
  cipherVersion : Option String
  versions : (Page → Data) → Option (List Int)
  createMigrations : (Page → Data) → List (Page × Data)
  migration : Int → (Page → Data) → List (Page × Data)
  interrupted : (Page → Data) → List (Page × Data)
  encrypted : ∃ version, cipherVersion = some version ∧ ∃ c ∈ version.toList, c.isWhitespace = false
  unversioned : versions blank = none
  created : ∀ {image}, versions image = none →
    versions (overlay image (createMigrations image)) = some []
  migrated : ∀ {image rows version}, versions image = some rows → version ∉ rows →
    versions (overlay image (migration version image)) = some (rows ++ [version])

instance (sql : Sqlite) : DecidableEq sql.Page := sql.pages
instance (sql : Sqlite) : DecidableEq sql.Data := sql.contents

abbrev Writes (sql : Sqlite) := List (sql.Page × sql.Data)

/-- `key` encrypts the pages of the main file; a file without pages has none. `history`
are the transactions whose commit frame was written. -/
structure Disk (sql : Sqlite) where
  present : Bool
  key : Option DatabaseKey
  files : Files sql.Page sql.Data
  history : List (Writes sql)

namespace Disk
variable {sql : Sqlite}

def blank (sql : Sqlite) : Disk sql := ⟨false, none, ⟨sql.blank, none⟩, []⟩

def Readable (d : Disk sql) (key : DatabaseKey) : Prop := d.key = none ∨ d.key = some key
instance (d : Disk sql) (key) : Decidable (d.Readable key) := inferInstanceAs (Decidable (_ ∨ _))

def committed (d : Disk sql) : sql.Page → sql.Data := overlay sql.blank d.history.flatten

/-- The versions a connection to the main file alone reads, and those one reads through
the log. -/
def mainVersions (d : Disk sql) : Option (List Int) := sql.versions d.files.main
def versions (d : Disk sql) : Option (List Int) := sql.versions d.files.view

end Disk

inductive FileOp (sql : Sqlite) where
  | openLog
  | beginWrite
  | spill (first : Bool) (write : sql.Page × sql.Data)
  | commit
  | backfill (page : sql.Page)
  | truncate
  | removeLog

/-- A log is dropped or started anew only when every page of it was copied. -/
def FileOp.perform {sql : Sqlite} (f : Files sql.Page sql.Data) : FileOp sql → Files sql.Page sql.Data
  | .openLog => f.openLog
  | .beginWrite => if f.Complete then f.startLog else f
  | .spill first write => f.spill first write
  | .commit => f.commit
  | .backfill page => f.backfill page
  | .truncate => if f.Complete then f.truncate else f
  | .removeLog => if f.Complete then f.removeLog else f

inductive Command (sql : Sqlite) where
  | write (writes : Writes sql) (commits : Bool)
  | backfill (page : sql.Page)
  | truncate
  | close

inductive Choice (sql : Sqlite) where
  | go
  | client (command : Command sql)

inductive Act (sql : Sqlite) where
  | pathExists
  | walLength
  | cipherVersion
  | probeTable (key : DatabaseKey)
  | probeLatest (key : DatabaseKey)
  | createFile
  | enableWal (key : DatabaseKey)
  | tableExists
  | latest
  | applied (version : Int)
  | migrationsTable
  | migration (version : Int)
  | interrupted
  | logged
  | file (op : FileOp sql)
  | command

@[reducible] def Act.Answer {sql : Sqlite} : Act sql → Type
  | .pathExists | .tableExists | .applied _ => Bool
  | .walLength => Option Nat
  | .cipherVersion => Option String
  | .probeTable _ => Except StorageError Bool
  | .probeLatest _ => Except StorageError (Option Int)
  | .enableWal _ => Except StorageError Unit
  | .latest => Option Int
  | .migrationsTable | .migration _ | .interrupted => Writes sql
  | .logged => List sql.Page
  | .createFile | .file _ => Unit
  | .command => Command sql

abbrev actions (sql : Sqlite) : Interleaving.Actions where
  Act := Act sql
  Answer := Act.Answer

def Disk.apply {sql : Sqlite} (o : Act sql) (choice : Choice sql) (d : Disk sql) :
    Option (o.Answer × Disk sql) :=
  match o with
  | .pathExists => some (d.present, d)
  | .walLength => some (d.files.log.map Log.length, d)
  | .cipherVersion => some (sql.cipherVersion, d)
  | .probeTable key => some (if d.Readable key then .ok d.mainVersions.isSome else .error .sql, d)
  | .probeLatest key =>
      some (if d.Readable key then .ok (d.mainVersions.bind List.max?) else .error .sql, d)
  | .createFile => some ((), { d with present := true })
  | .enableWal key =>
      some (if d.Readable key then (.ok (), { d with key := some key }) else (.error .sql, d))
  | .tableExists => some (d.versions.isSome, d)
  | .latest => some (d.versions.bind List.max?, d)
  | .applied version => some (d.versions.any fun rows => rows.contains version, d)
  | .migrationsTable => some (sql.createMigrations d.files.view, d)
  | .migration version => some (sql.migration version d.files.view, d)
  | .interrupted => some (sql.interrupted d.files.view, d)
  | .logged => some (d.files.sealed.map Prod.fst, d)
  | .file op =>
      if d.present then some ((), { d with
        files := op.perform d.files
        history := match op with
          | .commit => d.history ++ [d.files.tail]
          | _ => d.history })
      else none
  | .command =>
      match choice with
      | .client command => some (command, d)
      | .go => none

/-! The functions of the storage crate. -/

section Programs
variable {sql : Sqlite}

abbrev Program (sql : Sqlite) := Prog (actions sql)

@[simp] def perform (o : Act sql) : Program sql o.Answer := .act (A := actions sql) o .done
@[simp] def onFile (op : FileOp sql) : Program sql Unit := perform (.file op)

def sidecarPath (path suffix : String) : String := path ++ suffix

def rejectFutureSchema (latest : Option Int) : Except StorageError Unit :=
  match latest with
  | some found =>
      if found > currentSchemaVersion then
        .error (.unsupportedSchemaVersion found currentSchemaVersion)
      else .ok ()
  | none => .ok ()

def verifySqlcipher : Program sql (Except StorageError Unit) := do
  let version : Option String ← perform .cipherVersion
  match version with
  | some version =>
      if version.toList.all Char.isWhitespace then return .error .encryptionUnavailable
      else return .ok ()
  | none => return .error .encryptionUnavailable

def probeSchemaCompatibility (path : String) (key : DatabaseKey) :
    Program sql (Except StorageError Unit) := do
  let walPath := sidecarPath path "-wal"
  let length : Option Nat ← perform .walLength
  if length.any (· > 0) then return .error (.uncheckpointedWal walPath)
  match ← verifySqlcipher with
  | .error error => return .error error
  | .ok () =>
  let migrationTableExists : Except StorageError Bool ← perform (.probeTable key)
  match migrationTableExists with
  | .error error => return .error error
  | .ok false => return .ok ()
  | .ok true =>
  let latest : Except StorageError (Option Int) ← perform (.probeLatest key)
  match latest with
  | .error error => return .error error
  | .ok latest => return rejectFutureSchema latest

def spillAll : Writes sql → Program sql Unit
  | [] => return
  | write :: rest => do
      onFile (.spill false write)
      spillAll rest

/-- A transaction that writes nothing leaves no frame. -/
def transaction (writes : Writes sql) (commits : Bool) : Program sql Unit :=
  match writes with
  | [] => return
  | write :: rest => do
      onFile .beginWrite
      onFile (.spill true write)
      spillAll rest
      if commits then onFile .commit

def applyMigration (version : Int) : Program sql Unit := do
  let applied : Bool ← perform (.applied version)
  if applied then return
  let writes : Writes sql ← perform (.migration version)
  transaction writes true

/-- `CREATE TABLE IF NOT EXISTS schema_migrations`. -/
def createMigrationsTable : Program sql Unit := do
  let present : Bool ← perform .tableExists
  unless present do
    let writes : Writes sql ← perform .migrationsTable
    transaction writes true

def migrate : Program sql (Except StorageError Unit) := do
  createMigrationsTable
  let latest : Option Int ← perform .latest
  match rejectFutureSchema latest with
  | .error error => return .error error
  | .ok () =>
      applyMigration 1
      applyMigration 2
      applyMigration 3
      return .ok ()

/-- `Database::open`. -/
def openDatabase (path : String) (key : DatabaseKey) : Program sql (Except StorageError Unit) := do
  let present : Bool ← perform .pathExists
  let probed ← if present then probeSchemaCompatibility path key else pure (.ok ())
  match probed with
  | .error error => return .error error
  | .ok () =>
  perform .createFile
  match ← verifySqlcipher with
  | .error error => return .error error
  | .ok () =>
  let enabled : Except StorageError Unit ← perform (.enableWal key)
  match enabled with
  | .error error => return .error error
  | .ok () =>
  onFile .openLog
  migrate

def recoverInterruptedWork : Program sql Unit := do
  let writes : Writes sql ← perform .interrupted
  transaction writes true

/-- The end of `open_persistent_database`. -/
def readyDatabase (path : String) (key : DatabaseKey) : Program sql (Except StorageError Unit) := do
  match ← openDatabase path key with
  | .error error => return .error error
  | .ok () =>
      recoverInterruptedWork
      return .ok ()

def backfillAll : List sql.Page → Program sql Unit
  | [] => return
  | page :: rest => do
      onFile (.backfill page)
      backfillAll rest

/-- The last connection copies the log into the main file and removes it. -/
def closeDatabase : Program sql Unit := do
  let pages : List sql.Page ← perform .logged
  backfillAll pages
  onFile .removeLog

inductive Entry where
  | launch (path : String) (key : DatabaseKey)
  | serve
  deriving DecidableEq, Repr

def serve : Program sql (Option Entry) := do
  let command : Command sql ← perform .command
  match command with
  | .write writes commits =>
      transaction writes commits
      return some .serve
  | .backfill page =>
      onFile (.backfill page)
      return some .serve
  | .truncate =>
      onFile .truncate
      return some .serve
  | .close =>
      closeDatabase
      return none

def body : Entry → Program sql (Option Entry)
  | .launch path key => do
      match ← readyDatabase path key with
      | .error _ => return none
      | .ok () => return some .serve
  | .serve => serve

abbrev engine (sql : Sqlite) : Interleaving.Machine (actions sql) where
  Memory := Disk sql
  Entry := Entry
  Choice := Choice sql
  Outside := Empty
  body := body
  apply := Disk.apply
  spawns _ := none
  callable _ := false
  outside x _ := x.elim

end Programs
end Maestro.Database
