import Maestro.Alone
import Maestro.Directory
import Maestro.Outline
import Maestro.Json

/-! `save_text`: read the file and compare it, write a temporary file beside it, read and
compare again, and rename the temporary file over it. -/
namespace Maestro.Saving
open Interleaving Prog Files

abbrev FileFingerprint := Bytes

inductive ProjectError where
  | unauthorizedPath
  | unsafePath
  | notDirectory
  | notRegularFile
  | fileTooLarge (actual maximum : Nat)
  | fileChangedDuringRead
  | saveConflict
  | io (operation : String) (kind : IoError)
  deriving DecidableEq, Repr

structure Metadata where
  inode : Inode
  kind : FileKind
  length : Nat
  mode : Nat
  modified : Nat
  deriving DecidableEq, Repr

def sameFile (first second : Metadata) : Bool := first.inode == second.inode

def metadataChanged (first second : Metadata) : Bool :=
  !sameFile first second || first.length != second.length || first.modified != second.modified

structure FileService where
  maximumTextBytes : Nat
  processId : Nat
  fingerprint : Bytes → FileFingerprint

structure SaveResult where
  fingerprint : FileFingerprint
  bytes : Nat
  deriving DecidableEq, Repr

structure Save where
  text : Bytes
  expected : FileFingerprint
  deriving DecidableEq, Repr

inductive Act where
  | openParent
  | openat (name : String)
  | metadata (inode : Inode)
  | read (inode : Inode) (count : Nat)
  | temporaryName
  | create (temporary : String)
  | setPermissions (inode : Inode) (mode : Nat)
  | writeAll (inode : Inode) (bytes : Bytes)
  | syncAll (inode : Inode)
  | rename (temporary : String) (save : Save)
  | syncDirectory
  | unlink (temporary : String)
  | respond (result : Except ProjectError SaveResult)

@[reducible] def Act.Answer : Act → Type
  | .openParent => Except ProjectError Unit
  | .openat _ | .create _ => Except IoError Inode
  | .metadata _ => Except IoError Metadata
  | .read .. => Except IoError Bytes
  | .temporaryName => String
  | .setPermissions .. | .writeAll .. | .syncAll _ | .rename .. | .syncDirectory | .unlink _ =>
    Except IoError Unit
  | .respond _ => Unit

abbrev actions : Actions := ⟨Act, Act.Answer⟩

abbrev Program := Prog actions

@[simp] def perform (o : Act) : Program o.Answer := .act (A := actions) o .done

section Programs
variable (service : FileService) (name : String)

def openRegular (operation : String) : Program (Except ProjectError Inode) := do
  match ← perform (.openat name) with
  | .error .isLoop => pure (.error .unsafePath)
  | .error kind => pure (.error (.io operation kind))
  | .ok inode =>
    match ← perform (.metadata inode) with
    | .error kind => pure (.error (.io "reading file metadata" kind))
    | .ok metadata =>
      if metadata.kind = .regular then pure (.ok inode) else pure (.error .notRegularFile)

def readFromParent (operation : String) : Program (Except ProjectError (Bytes × Metadata)) := do
  match ← openRegular name operation with
  | .error error => pure (.error error)
  | .ok inode =>
    match ← perform (.metadata inode) with
    | .error kind => pure (.error (.io "reading file metadata" kind))
    | .ok before =>
      if service.maximumTextBytes < before.length then
        pure (.error (.fileTooLarge before.length service.maximumTextBytes))
      else
        match ← perform (.read inode (service.maximumTextBytes + 1)) with
        | .error kind => pure (.error (.io operation kind))
        | .ok bytes =>
          if service.maximumTextBytes < bytes.length then
            pure (.error (.fileTooLarge bytes.length service.maximumTextBytes))
          else
            match ← perform (.metadata inode) with
            | .error kind => pure (.error (.io "rechecking file metadata" kind))
            | .ok after =>
              if metadataChanged before after then pure (.error .fileChangedDuringRead)
              else pure (.ok (bytes, after))

/-- The closure whose failure `save_text` cleans up after. -/
def writeAndRename (save : Save) (temporary : String) (inode : Inode) (mode : Nat) :
    Program (Except ProjectError SaveResult) := do
  match ← perform (.setPermissions inode mode) with
  | .error kind => pure (.error (.io "preserving file permissions" kind))
  | .ok () =>
    match ← perform (.writeAll inode save.text) with
    | .error kind => pure (.error (.io "writing atomic save file" kind))
    | .ok () =>
      match ← perform (.syncAll inode) with
      | .error kind => pure (.error (.io "syncing atomic save file" kind))
      | .ok () =>
        match ← readFromParent service name "rechecking file before save" with
        | .error error => pure (.error error)
        | .ok (latest, _) =>
          if service.fingerprint latest ≠ save.expected then pure (.error .saveConflict)
          else
            match ← perform (.rename temporary save) with
            | .error kind => pure (.error (.io "publishing atomic save" kind))
            | .ok () =>
              match ← perform .syncDirectory with
              | .error kind => pure (.error (.io "syncing save directory" kind))
              | .ok () => pure (.ok ⟨service.fingerprint save.text, save.text.length⟩)

def saveText (save : Save) : Program (Except ProjectError SaveResult) := do
  if service.maximumTextBytes < save.text.length then
    pure (.error (.fileTooLarge save.text.length service.maximumTextBytes))
  else
    match ← perform .openParent with
    | .error error => pure (.error error)
    | .ok () =>
      match ← readFromParent service name "reading file before save" with
      | .error error => pure (.error error)
      | .ok (current, metadata) =>
        if service.fingerprint current ≠ save.expected then pure (.error .saveConflict)
        else
          let temporary ← perform .temporaryName
          match ← perform (.create temporary) with
          | .error kind => pure (.error (.io "creating atomic save file" kind))
          | .ok inode =>
            match ← writeAndRename service name save temporary inode metadata.mode with
            | .ok saved => pure (.ok saved)
            | .error error =>
              let _ ← perform (.unlink temporary)
              pure (.error error)

def body (save : Save) : Program (Option Save) := do
  let result ← saveText service name save
  perform (.respond result)
  pure none

end Programs

/-- `published` are the saves whose rename took effect, in this order. -/
structure Workspace where
  directory : Directory
  counter : Nat
  published : List Save

/-- What the system decides: whether a call fails, what a refused path is refused with, and
how much a failing write wrote. -/
structure Choice where
  fails : Option IoError
  refused : Option ProjectError
  written : Nat

def Directory.metadata (d : Directory) (inode : Inode) : Metadata :=
  ⟨inode, (d.files inode).kind, (d.files inode).bytes.length, (d.files inode).mode,
    (d.files inode).writes⟩

def temporaryNameOf (processId counter : Nat) : String :=
  ".maestro-save-" ++ toString processId ++ "-" ++ toString counter ++ ".tmp"

section Machine
variable (service : FileService) (name : String)

def apply : (o : Act) → Choice → Workspace → Option (o.Answer × Workspace)
  | .openParent, choice, m =>
    match choice.refused with
    | some error => some (.error error, m)
    | none => some (.ok (), m)
  | .openat file, choice, m =>
    match choice.fails, m.directory.entries file with
    | some error, _ => some (.error error, m)
    | none, none => some (.error .notFound, m)
    | none, some inode =>
      if (m.directory.files inode).kind = .symlink then some (.error .isLoop, m)
      else some (.ok inode, m)
  | .metadata inode, choice, m =>
    match choice.fails with
    | some error => some (.error error, m)
    | none => some (.ok (Directory.metadata m.directory inode), m)
  | .read inode count, choice, m =>
    match choice.fails with
    | some error => some (.error error, m)
    | none => some (.ok ((m.directory.files inode).bytes.take count), m)
  | .temporaryName, _, m =>
    some (temporaryNameOf service.processId m.counter, { m with counter := m.counter + 1 })
  | .create temporary, choice, m =>
    match choice.fails, m.directory.createNew temporary 0o600 with
    | some error, _ | none, .error error => some (.error error, m)
    | none, .ok (inode, directory) => some (.ok inode, { m with directory })
  | .setPermissions inode mode, choice, m =>
    match choice.fails with
    | some error => some (.error error, m)
    | none => some (.ok (), { m with directory := m.directory.setMode inode mode })
  | .writeAll inode bytes, choice, m =>
    match choice.fails with
    | some error =>
      some (.error error, { m with directory := m.directory.write inode (bytes.take choice.written) })
    | none => some (.ok (), { m with directory := m.directory.write inode bytes })
  | .syncAll _, choice, m | .syncDirectory, choice, m =>
    match choice.fails with
    | some error => some (.error error, m)
    | none => some (.ok (), m)
  | .rename temporary save, choice, m =>
    match choice.fails, m.directory.rename temporary name with
    | some error, _ | none, .error error => some (.error error, m)
    | none, .ok directory => some (.ok (), { m with directory, published := m.published ++ [save] })
  | .unlink temporary, choice, m =>
    match choice.fails, m.directory.unlink temporary with
    | some error, _ | none, .error error => some (.error error, m)
    | none, .ok directory => some (.ok (), { m with directory })
  | .respond _, _, m => some ((), m)

example (inode : Inode) (bytes : Bytes) (choice : Choice) (m : Workspace) (fails : choice.fails = some .writeZero) :
    apply service name (.writeAll inode bytes) choice m =
      some (.error .writeZero, { m with directory := m.directory.write inode (bytes.take choice.written) }) := by
  simp only [apply, fails]

abbrev machine : Machine actions where
  Memory := Workspace
  Entry := Save
  Choice := Choice
  Outside := Empty
  body := body service name
  apply := apply service name
  spawns := fun _ => none
  callable := fun _ => true
  outside := fun x => nomatch x

variable {service name} {choice : Choice} {m m' : Workspace}

theorem appliedOpenat {file : String} {answer : Except IoError Inode}
    (applied : (machine service name).apply (.openat file) choice m = some (answer, m')) :
    m' = m ∧ ∀ inode, answer = .ok inode → m.directory.entries file = some inode := by
  simp only [apply] at applied
  split at applied
  · cases applied
    exact ⟨rfl, nofun⟩
  · cases applied
    exact ⟨rfl, nofun⟩
  · rename_i inode _ found
    split at applied <;> cases applied
    · exact ⟨rfl, nofun⟩
    · refine ⟨rfl, fun other same => ?_⟩
      cases same
      exact found

theorem appliedMetadata {inode : Inode} {answer : Except IoError Metadata}
    (applied : (machine service name).apply (.metadata inode) choice m = some (answer, m')) :
    m' = m ∧ ∀ data, answer = .ok data → data = Directory.metadata m.directory inode := by
  simp only [apply] at applied
  split at applied <;> cases applied
  · exact ⟨rfl, nofun⟩
  · refine ⟨rfl, fun data same => ?_⟩
    cases same
    rfl

theorem appliedRead {inode : Inode} {count : Nat} {answer : Except IoError Bytes}
    (applied : (machine service name).apply (.read inode count) choice m = some (answer, m')) :
    m' = m ∧ ∀ bytes, answer = .ok bytes → bytes = (m.directory.files inode).bytes.take count := by
  simp only [apply] at applied
  split at applied <;> cases applied
  · exact ⟨rfl, nofun⟩
  · refine ⟨rfl, fun bytes same => ?_⟩
    cases same
    rfl

theorem appliedOpenParent {answer : Except ProjectError Unit}
    (applied : (machine service name).apply .openParent choice m = some (answer, m')) : m' = m := by
  simp only [apply] at applied
  split at applied <;> cases applied <;> rfl

theorem appliedSync {o : Act} (sync : o = .syncDirectory ∨ ∃ inode, o = .syncAll inode)
    {answer : o.Answer} (applied : (machine service name).apply o choice m = some (answer, m')) : m' = m := by
  rcases sync with rfl | ⟨inode, rfl⟩ <;>
    (simp only [apply] at applied; split at applied <;> cases applied <;> rfl)

theorem appliedCreate {temporary : String} {answer : Except IoError Inode}
    (applied : (machine service name).apply (.create temporary) choice m = some (answer, m')) :
    (∃ kind, answer = .error kind ∧ m' = m) ∨
      ∃ inode directory, answer = .ok inode ∧ m' = { m with directory } ∧
        m.directory.createNew temporary 0o600 = .ok (inode, directory) := by
  simp only [apply] at applied
  split at applied
  · cases applied
    exact .inl ⟨_, rfl, rfl⟩
  · cases applied
    exact .inl ⟨_, rfl, rfl⟩
  · rename_i inode directory _ created
    cases applied
    exact .inr ⟨inode, directory, rfl, rfl, created⟩

theorem appliedSetPermissions {inode : Inode} {mode : Nat} {answer : Except IoError Unit}
    (applied : (machine service name).apply (.setPermissions inode mode) choice m = some (answer, m')) :
    m' = m ∨ m' = { m with directory := m.directory.setMode inode mode } := by
  simp only [apply] at applied
  split at applied <;> cases applied
  · exact .inl rfl
  · exact .inr rfl

theorem appliedWriteAll {inode : Inode} {bytes : Bytes} {answer : Except IoError Unit}
    (applied : (machine service name).apply (.writeAll inode bytes) choice m = some (answer, m')) :
    ∃ written, m' = { m with directory := m.directory.write inode written } ∧
      (answer = .ok () → written = bytes) := by
  simp only [apply] at applied
  split at applied <;> cases applied
  · exact ⟨_, rfl, nofun⟩
  · exact ⟨_, rfl, fun _ => rfl⟩

theorem appliedRename {temporary : String} {save : Save} {answer : Except IoError Unit}
    (applied : (machine service name).apply (.rename temporary save) choice m = some (answer, m')) :
    (∃ kind, answer = .error kind ∧ m' = m) ∨
      ∃ inode directory, answer = .ok () ∧ m.directory.entries temporary = some inode ∧
        m' = { m with directory, published := m.published ++ [save] } ∧
        directory.files = m.directory.files ∧ directory.next = m.directory.next ∧
        directory.entries =
          Function.update (Function.update m.directory.entries temporary none) name (some inode) := by
  simp only [apply] at applied
  split at applied
  · cases applied
    exact .inl ⟨_, rfl, rfl⟩
  · cases applied
    exact .inl ⟨_, rfl, rfl⟩
  · rename_i directory _ renamed
    cases applied
    obtain ⟨inode, found, files, next, entries⟩ := Directory.renameOk renamed
    exact .inr ⟨inode, directory, rfl, found, rfl, files, next, entries⟩

theorem appliedUnlink {temporary : String} {answer : Except IoError Unit}
    (applied : (machine service name).apply (.unlink temporary) choice m = some (answer, m')) :
    (∃ kind, answer = .error kind ∧ m' = m) ∨
      ∃ directory, answer = .ok () ∧ m' = { m with directory } ∧
        m.directory.entries temporary ≠ none ∧
        directory.files = m.directory.files ∧ directory.next = m.directory.next ∧
        directory.entries = Function.update m.directory.entries temporary none := by
  simp only [apply] at applied
  split at applied
  · cases applied
    exact .inl ⟨_, rfl, rfl⟩
  · cases applied
    exact .inl ⟨_, rfl, rfl⟩
  · rename_i directory _ unlinked
    cases applied
    obtain ⟨files, next, entries⟩ := Directory.unlinkOk unlinked
    refine .inr ⟨directory, rfl, rfl, fun missing => ?_, files, next, entries⟩
    rw [Directory.unlinkMissing missing] at unlinked
    cases unlinked

end Machine

/-! A directory with one file, for runs on it. -/

def plainService : FileService := ⟨4096, 7, id⟩

def notes : Directory where
  entries := Function.update (fun _ => none) "notes.txt" (some 0)
  files := fun _ => ⟨.regular, [1], 0o644, 1⟩
  next := 1
  named := fun name inode found => by
    by_cases same : name = "notes.txt"
    · subst same
      rw [Function.update_self] at found
      cases found
      exact Nat.zero_lt_one
    · rw [Function.update_of_ne same] at found
      cases found

def goes : Choice := ⟨none, none, 0⟩

end Maestro.Saving
