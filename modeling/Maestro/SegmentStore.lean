import Maestro.Directory
import Maestro.Interleaving
import Maestro.JsonRedaction
import Maestro.Retention

/-! The store of terminal segments: encrypted files in one directory and the rows that name
them, which writers add and prunings and the maintenance remove. -/
namespace Maestro.SegmentStore
open Interleaving Prog Files Retention Redaction

def continues (byte : UInt8) : Bool := 0x80 ≤ byte ∧ byte ≤ 0xBF

def acceptsSecond (first second : UInt8) : Bool :=
  if first = 0xE0 then 0xA0 ≤ second ∧ second ≤ 0xBF
  else if first = 0xED then 0x80 ≤ second ∧ second ≤ 0x9F
  else if first = 0xF0 then 0x90 ≤ second ∧ second ≤ 0xBF
  else if first = 0xF4 then 0x80 ≤ second ∧ second ≤ 0x8F
  else 0xE1 ≤ first ∧ first ≤ 0xF3 ∧ continues second

def invalidLength : Bytes → Nat
  | first :: second :: rest =>
    if acceptsSecond first second then
      match rest with
      | third :: _ => if 0xF0 ≤ first ∧ continues third then 3 else 2
      | [] => 2
    else 1
  | _ => 1

def firstChar (input : Bytes) : Option (Char × Bytes) :=
  [1, 2, 3, 4].findSome? fun length =>
    if input.length < length then none
    else (ofBytes (input.take length)).bind fun text =>
      text.toList.head?.map fun c => (c, input.drop length)

def lossyFrom : Nat → Bytes → List Char
  | 0, _ => []
  | _ + 1, [] => []
  | fuel + 1, input =>
    match firstChar input with
    | some (c, rest) => c :: lossyFrom fuel rest
    | none => '\uFFFD' :: lossyFrom fuel (input.drop (invalidLength input))

/-- Bytes that are no text become replacement characters, one for each longest start of a
character. -/
def toStringLossy (input : Bytes) : String :=
  match ofBytes input with
  | some text => text
  | none => String.ofList (lossyFrom input.length input)

def segmentName (id : String) : String := id ++ ".segment"

def temporaryName (id : String) : String := "." ++ id ++ ".tmp"

def join (directory : Bytes) (name : String) : Bytes := directory ++ 0x2F :: bytes name

def storagePath (directory : Bytes) (id : String) : String :=
  toStringLossy (join directory (segmentName id))

/-- The file of the directory that a stored path names. -/
def fileOf (directory : Bytes) (path : String) : Option String :=
  if (directory ++ [0x2F]).isPrefixOf (bytes path) then
    ofBytes ((bytes path).drop (directory ++ [0x2F]).length)
  else none

def magic : Bytes := bytes "MTRMSEG1"

def terminalSegmentAad (terminalId : String) (sequenceStart sequenceEnd : Nat) : Bytes :=
  bytes ("com.maestroai.app/terminal-segment-v1" ++ "\x00" ++ terminalId ++ "\x00" ++
    toString sequenceStart ++ "\x00" ++ toString sequenceEnd)

def maxTerminalScrollbackBytes : Nat := 10 * 1024 * 1024

/-- A segment as its writer has it; the row gets its `created_at` when it is inserted. -/
structure Segment where
  id : String
  terminalId : String
  sequenceStart : Nat
  sequenceEnd : Nat
  byteCount : Nat
  storagePath : String

def Segment.row (s : Segment) (createdAt : Nat) : TerminalSegment :=
  ⟨s.id, s.terminalId, s.sequenceStart, s.sequenceEnd, s.byteCount, s.storagePath, createdAt⟩

def append (row : TerminalSegment) (d : Database) : Option Database :=
  if fresh : row.id ∉ d.terminalSegments.map (·.id) then
    some { d with
      terminalSegments := d.terminalSegments ++ [row]
      terminalKeys := by
        rw [List.map_append]
        refine List.nodup_append.mpr ⟨d.terminalKeys, by simp, fun id old other new same => fresh ?_⟩
        have here : other = row.id := List.mem_singleton.mp new
        exact here ▸ same ▸ old }
  else none

def prune (terminalId : String) (d : Database) : List String × Database :=
  ((pruneTerminalSegments terminalId maxTerminalScrollbackBytes d.terminalSegments).2,
    { d with
      terminalSegments :=
        (pruneTerminalSegments terminalId maxTerminalScrollbackBytes d.terminalSegments).1
      terminalKeys := d.terminalKeys.sublist (List.filter_sublist.map _) })

/-- `drawn` are the segment ids drawn so far: an id is drawn once. -/
structure Storage where
  directory : Directory
  database : Database
  locked : Bool
  drawn : List String

inductive Released where
  | file
  | other
  | missing
  | unreadable
  deriving DecidableEq

inductive Act where
  | prepareDirectory
  | newSegmentId
  | lockState
  | unlockState
  | ready
  | fillNonce
  | newTemporary
  | createNew (temporary : String)
  | setPermissions (inode : Inode)
  | writeAll (inode : Inode) (bytes : Bytes)
  | syncAll (inode : Inode)
  | rename (temporary name : String)
  | syncDirectory
  | removeFile (name : String)
  | appendSegment (segment : Segment)
  | pruneSegments (terminalId : String)
  | createSnapshot
  | planRetention
  | validateCandidates (plan : RetentionPlan)
  | executeBatch (plan : RetentionPlan)
  | validateReleased (path : String)
  | symlinkMetadata (path : String)
  | removeReleased (path : String)

@[reducible] def Act.Answer : Act → Type
  | .newSegmentId | .newTemporary => String
  | .lockState | .unlockState => Unit
  | .fillNonce => Bytes
  | .createNew _ => Option Inode
  | .pruneSegments _ => Option (List String)
  | .planRetention => Option RetentionPlan
  | .executeBatch _ => Option (List String × RetentionPlan)
  | .symlinkMetadata _ => Released
  | _ => Bool

abbrev actions : Actions := ⟨Act, Act.Answer⟩

inductive Entry where
  | persistTerminalSegment (terminalId : String) (sequenceStart sequenceEnd : Nat) (data : Bytes)
  | maintain

abbrev Program := Prog actions

@[simp] def perform (o : Act) : Program o.Answer := .act (A := actions) o .done

section Programs
variable (directory : Bytes) (encrypt : Bytes → Bytes → Bytes → Option Bytes)

/-- The file is written under the temporary name and renamed. -/
def publish (temporary name : String) (content : Bytes) : Program Bool := do
  match ← perform (.createNew temporary) with
  | none => pure false
  | some inode =>
    if ← perform (.setPermissions inode) then
      if ← perform (.writeAll inode content) then
        if ← perform (.syncAll inode) then
          if ← perform (.rename temporary name) then perform .syncDirectory
          else pure false
        else pure false
      else pure false
    else pure false

def writeEncryptedSegment (name : String) (data aad : Bytes) : Program Bool := do
  let nonce ← perform .fillNonce
  match encrypt nonce aad data with
  | none => pure false
  | some ciphertext =>
    let temporary ← perform .newTemporary
    if ← publish (temporaryName temporary) name (magic ++ nonce ++ ciphertext) then pure true
    else
      let _ ← perform (.removeFile (temporaryName temporary))
      pure false

def removeReleasedFiles : List String → Program Bool
  | [] => pure true
  | path :: rest => do
    if ← perform (.validateReleased path) then
      match ← perform (.symlinkMetadata path) with
      | .file => if ← perform (.removeReleased path) then removeReleasedFiles rest else pure false
      | .other => pure false
      | .missing => removeReleasedFiles rest
      | .unreadable => pure false
    else pure false

def persistTerminalSegment (terminalId : String) (sequenceStart sequenceEnd : Nat) (data : Bytes) :
    Program (Option Entry) := do
  if data = [] then pure none
  else if ← perform .prepareDirectory then
    let id ← perform .newSegmentId
    perform .lockState
    if ← perform .ready then
      let aad := terminalSegmentAad terminalId sequenceStart sequenceEnd
      if ← writeEncryptedSegment encrypt (segmentName id) data aad then
        if ← perform (.appendSegment
            ⟨id, terminalId, sequenceStart, sequenceEnd, data.length, storagePath directory id⟩) then
          match ← perform (.pruneSegments terminalId) with
          | none => perform .unlockState
          | some released =>
            perform .unlockState
            let _ ← removeReleasedFiles released
        else
          let _ ← perform (.removeFile (segmentName id))
          perform .unlockState
      else perform .unlockState
    else perform .unlockState
    pure none
  else pure none

/-- `while !plan.is_empty()`: a batch takes at least one candidate from the plan. -/
def maintainBatches : Nat → RetentionPlan → Program Unit
  | 0, _ => pure ()
  | fuel + 1, plan =>
    if plan.candidates = [] then pure ()
    else do
      match ← perform (.executeBatch plan) with
      | none => pure ()
      | some (released, plan) =>
        if ← removeReleasedFiles released then maintainBatches fuel plan

def maintain : Program (Option Entry) := do
  perform .lockState
  if ← perform .ready then
    if ← perform .createSnapshot then
      match ← perform .planRetention with
      | none => pure ()
      | some plan =>
        if ← perform (.validateCandidates plan) then maintainBatches plan.candidates.length plan
  perform .unlockState
  pure none

def body : Entry → Program (Option Entry)
  | .persistTerminalSegment terminalId sequenceStart sequenceEnd data =>
    persistTerminalSegment directory encrypt terminalId sequenceStart sequenceEnd data
  | .maintain => maintain

end Programs

/-- What the environment decides: which call fails and how far a write comes, the random
draws, the time, and the faults of a transaction. -/
structure Choice where
  fails : Bool
  count : Nat
  drawn : String
  nonce : Bytes
  now : Nat
  fault : Fault

def policies : RetentionPolicies where
  terminal := ⟨true, some (10 * 1024 * 1024), none⟩
  rawProtocol := ⟨true, some (10 * 1024 * 1024), some (7 * 24 * 60 * 60 * 1000000000)⟩
  debugLog := ⟨true, some (50 * 1024 * 1024), some (14 * 24 * 60 * 60 * 1000000000)⟩

section Effects
variable (directory : Bytes)

/-- What a released path in the directory shows; another root may hold anything. -/
def Storage.shows (m : Storage) (path : String) (choice : Choice) : Released :=
  match fileOf directory path with
  | none => if choice.count = 0 then .missing else if choice.count = 1 then .file else .other
  | some name =>
    match m.directory.find name with
    | none => .missing
    | some file => if file.kind = .directory then .other else .file

def Storage.remove (m : Storage) (name : String) : Storage :=
  match m.directory.unlink name with
  | .error _ => m
  | .ok directory => { m with directory }

def apply : (o : Act) → Choice → Storage → Option (o.Answer × Storage)
  | .prepareDirectory, choice, m | .ready, choice, m | .setPermissions _, choice, m
  | .syncAll _, choice, m | .syncDirectory, choice, m | .createSnapshot, choice, m
  | .validateCandidates _, choice, m | .validateReleased _, choice, m => some (!choice.fails, m)
  | .newSegmentId, choice, m =>
    if choice.drawn ∈ m.drawn then none
    else some (choice.drawn, { m with drawn := choice.drawn :: m.drawn })
  | .lockState, _, m => if m.locked then none else some ((), { m with locked := true })
  | .unlockState, _, m => some ((), { m with locked := false })
  | .fillNonce, choice, m => some (choice.nonce, m)
  | .newTemporary, choice, m => some (choice.drawn, m)
  | .createNew temporary, choice, m =>
    match choice.fails, m.directory.createNew temporary 0o600 with
    | true, _ | false, .error _ => some (none, m)
    | false, .ok (inode, directory) => some (some inode, { m with directory })
  | .writeAll inode bytes, choice, m =>
    if choice.fails then some (false, { m with directory := m.directory.write inode (bytes.take choice.count) })
    else some (true, { m with directory := m.directory.write inode bytes })
  | .rename temporary name, choice, m =>
    match choice.fails, m.directory.rename temporary name with
    | true, _ | false, .error _ => some (false, m)
    | false, .ok directory => some (true, { m with directory })
  | .removeFile name, choice, m =>
    if choice.fails then some (false, m) else some (true, m.remove name)
  | .appendSegment segment, choice, m =>
    match choice.fails, append (segment.row choice.now) m.database with
    | true, _ | false, none => some (false, m)
    | false, some database => some (true, { m with database })
  | .pruneSegments terminalId, choice, m =>
    if choice.fails then some (none, m)
    else some (some (prune terminalId m.database).1, { m with database := (prune terminalId m.database).2 })
  | .planRetention, choice, m =>
    if choice.fails then some (none, m)
    else some (some (Retention.planRetention m.database policies choice.now), m)
  | .executeBatch plan, choice, m =>
    match executeRetentionBatch choice.fault maxRetentionBatch m.database plan with
    | (.error _, database, _) => some (none, { m with database })
    | (.ok report, database, plan) => some (some (report.releasedStoragePaths, plan), { m with database })
  | .symlinkMetadata path, choice, m =>
    some (if choice.fails then .unreadable else m.shows directory path choice, m)
  | .removeReleased path, choice, m =>
    if choice.fails then some (false, m)
    else
      match fileOf directory path with
      | none => some (true, m)
      | some name => some (true, m.remove name)

/-- The other tables change under the lock of the state too; their paths are elsewhere. -/
def Elsewhere (d : Database) : Prop :=
  (∀ row ∈ d.rawSegments, fileOf directory row.storagePath = none) ∧
    ∀ row ∈ d.debugLogs.getD [], fileOf directory row.storagePath = none

instance (d : Database) : Decidable (Elsewhere directory d) :=
  inferInstanceAs (Decidable (_ ∧ _))

def otherTables (d : Database) (m : Storage) : Option Storage :=
  if m.locked = false ∧ d.terminalSegments = m.database.terminalSegments ∧ Elsewhere directory d then
    some { m with database := d }
  else none

end Effects

abbrev machine (directory : Bytes) (encrypt : Bytes → Bytes → Bytes → Option Bytes) : Machine actions where
  Memory := Storage
  Entry := Entry
  Choice := Choice
  Outside := Database
  body := body directory encrypt
  apply := apply directory
  spawns := fun _ => none
  callable := fun _ => true
  outside := otherTables directory

end Maestro.SegmentStore
