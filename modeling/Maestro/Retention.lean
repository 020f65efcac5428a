import Mathlib.Algebra.GroupWithZero.Nat
import Mathlib.Data.List.Dedup
import Mathlib.Data.List.Sort
import Mathlib.Data.Prod.Lex
import Mathlib.Data.String.Basic

/-! Retention of the stored captures: the plan over their records, its execution in batches, and
the pruning of one terminal's segments. -/
namespace Maestro.Retention

def u64Max : Nat := 2 ^ 64 - 1

def saturatingAdd (a b : Nat) : Nat := min (a + b) u64Max

inductive RetentionCategory where
  | terminal
  | rawProtocol
  | debugLog
  deriving DecidableEq, Repr

def RetentionCategory.rank : RetentionCategory → Nat
  | .terminal => 0
  | .rawProtocol => 1
  | .debugLog => 2

structure RetentionPolicy where
  enabled : Bool
  maxBytesPerOwner : Option Nat
  maxAge : Option Int
  deriving DecidableEq, Repr

structure RetentionPolicies where
  terminal : RetentionPolicy
  rawProtocol : RetentionPolicy
  debugLog : RetentionPolicy
  deriving DecidableEq, Repr

def RetentionPolicies.policy (policies : RetentionPolicies) : RetentionCategory → RetentionPolicy
  | .terminal => policies.terminal
  | .rawProtocol => policies.rawProtocol
  | .debugLog => policies.debugLog

/-- `createdAt` is the instant, in nanoseconds; the RFC 3339 texts the rows hold sort alike. -/
structure RetentionRecord where
  id : String
  category : RetentionCategory
  ownerId : String
  createdAt : Nat
  byteCount : Nat
  storagePath : String
  deriving DecidableEq, Repr

structure RetentionPlan where
  candidates : List RetentionRecord
  deriving DecidableEq, Repr

section Plans

/-- `Vec::sort_by` of the keys. -/
def sortBy {α κ : Type} [LinearOrder κ] (key : α → κ) (records : List α) : List α :=
  records.insertionSort fun a b => key a ≤ key b

def dedupFrom {α : Type} (same : α → α → Bool) (kept : α) : List α → List α
  | [] => [kept]
  | next :: rest =>
    if same next kept then dedupFrom same kept rest else kept :: dedupFrom same next rest

/-- `Vec::dedup_by`: an element that is the same as the last one kept goes. -/
def dedupBy {α : Type} (same : α → α → Bool) : List α → List α
  | [] => []
  | first :: rest => dedupFrom same first rest

def sameRecord (a b : RetentionRecord) : Bool := a.category = b.category ∧ a.id = b.id

/-- The oldest records, as long as the total is above the maximum. -/
def oldestAbove (maximum : Nat) : Nat → List RetentionRecord → List RetentionRecord
  | _, [] => []
  | total, record :: rest =>
    if total ≤ maximum then [] else record :: oldestAbove maximum (total - record.byteCount) rest

def totalBytes (records : List RetentionRecord) : Nat :=
  records.foldl (fun sum record => saturatingAdd sum record.byteCount) 0

def overBudget (maximum : Nat) (retained : List RetentionRecord) : List RetentionRecord :=
  (retained.map (·.ownerId)).dedup.flatMap fun owner =>
    let ownerRecords := sortBy (fun r => toLex (r.createdAt, r.id)) (retained.filter (·.ownerId = owner))
    oldestAbove maximum (totalBytes ownerRecords) ownerRecords

def selectCategory (policy : RetentionPolicy) (now : Nat) (records : List RetentionRecord) :
    List RetentionRecord :=
  if policy.enabled then
    let expired := fun (record : RetentionRecord) =>
      match policy.maxAge with
      | none => false
      | some maxAge => decide ((record.createdAt : Int) < now - maxAge)
    let retained := records.filter fun record => !expired record
    records.filter expired ++
      match policy.maxBytesPerOwner with
      | none => []
      | some maximum => overBudget maximum retained
  else records

def fromRecords (records : List RetentionRecord) (policies : RetentionPolicies) (now : Nat) :
    RetentionPlan :=
  let distinct := dedupBy sameRecord (sortBy (fun r => toLex (r.category.rank, r.id)) records)
  let selected := [RetentionCategory.terminal, .rawProtocol, .debugLog].flatMap fun category =>
    selectCategory (policies.policy category) now (distinct.filter (·.category = category))
  ⟨dedupBy sameRecord
    (sortBy (fun r => toLex (r.category.rank, toLex (r.createdAt, r.id))) selected)⟩

end Plans

/-- A row of `terminal_segments`; its byte count is the length of what was written. -/
structure TerminalSegment where
  id : String
  terminalTabId : String
  sequenceStart : Nat
  sequenceEnd : Nat
  byteCount : Nat
  storagePath : String
  createdAt : Nat
  deriving DecidableEq, Repr

structure RawSegment where
  id : String
  sessionId : String
  startedAt : Nat
  endedAt : Option Nat
  byteCount : Nat
  storagePath : String
  deriving DecidableEq, Repr

structure DebugLog where
  id : String
  component : String
  createdAt : Nat
  byteCount : Nat
  storagePath : String
  deriving DecidableEq, Repr

/-- `payload` are the columns no retention statement names. -/
structure EventRow where
  id : String
  payload : String
  rawSegmentReference : Option String
  deriving DecidableEq, Repr

/-- The tables retention touches, their ids primary keys. -/
structure Database where
  terminalSegments : List TerminalSegment
  rawSegments : List RawSegment
  events : List EventRow
  debugLogs : Option (List DebugLog)
  terminalKeys : (terminalSegments.map (·.id)).Nodup
  rawKeys : (rawSegments.map (·.id)).Nodup
  debugKeys : ∀ logs, debugLogs = some logs → (logs.map (·.id)).Nodup

def terminalRecord (row : TerminalSegment) : RetentionRecord :=
  ⟨row.id, .terminal, row.terminalTabId, row.createdAt, row.byteCount, row.storagePath⟩

def rawRecord (row : RawSegment) : RetentionRecord :=
  ⟨row.id, .rawProtocol, row.sessionId, row.startedAt, row.byteCount, row.storagePath⟩

def debugRecord (row : DebugLog) : RetentionRecord :=
  ⟨row.id, .debugLog, row.component, row.createdAt, row.byteCount, row.storagePath⟩

def loadRecords (d : Database) : List RetentionRecord :=
  d.terminalSegments.map terminalRecord ++ d.rawSegments.map rawRecord ++
    (d.debugLogs.getD []).map debugRecord

def planRetention (d : Database) (policies : RetentionPolicies) (now : Nat) : RetentionPlan :=
  fromRecords (loadRecords d) policies now

/-- The scan from the newest segment on: what does not fit beside the bytes retained so far. -/
def pruneScan (maximumBytes : Nat) : Nat → List TerminalSegment → List TerminalSegment
  | _, [] => []
  | retainedBytes, row :: rest =>
    if saturatingAdd retainedBytes row.byteCount ≤ maximumBytes then
      pruneScan maximumBytes (saturatingAdd retainedBytes row.byteCount) rest
    else row :: pruneScan maximumBytes retainedBytes rest

/-- `ORDER BY created_at DESC, sequence_end DESC, id DESC`. -/
def newestFirst (rows : List TerminalSegment) : List TerminalSegment :=
  sortBy (fun row => OrderDual.toDual (toLex (row.createdAt, toLex (row.sequenceEnd, row.id)))) rows

def expiredSegments (terminalId : String) (maximumBytes : Nat) (rows : List TerminalSegment) :
    List TerminalSegment :=
  pruneScan maximumBytes 0 (newestFirst (rows.filter (·.terminalTabId = terminalId)))

/-- The committed transaction, and the paths it releases. -/
def pruneTerminalSegments (terminalId : String) (maximumBytes : Nat) (rows : List TerminalSegment) :
    List TerminalSegment × List String :=
  let expired := expiredSegments terminalId maximumBytes rows
  (rows.filter fun row => row.id ∉ expired.map (·.id), expired.map (·.storagePath))

inductive RetentionError where
  | zeroBatchSize
  | sql (message : String)
  deriving DecidableEq, Repr

structure RetentionBatch where
  metadataRowsDeleted : Nat
  releasedStoragePaths : List String
  remainingCandidates : Nat
  deriving DecidableEq, Repr

def maxRetentionBatch : Nat := 256

/-- What an open transaction sees, and how many statements it has executed. -/
structure Transaction where
  view : Database
  executed : Nat

/-- Which statement of the transaction fails, and how. -/
abbrev Fault := Nat → Option String

abbrev Statements := StateT Transaction (Except RetentionError)

def execute (fault : Fault) {α : Type} (effect : Database → Except String (α × Database)) :
    Statements α := fun t =>
  match fault t.executed with
  | some message => .error (.sql message)
  | none =>
    match effect t.view with
    | .error message => .error (.sql message)
    | .ok (value, view) => .ok (value, ⟨view, t.executed + 1⟩)

def withoutId {α : Type} (id : α → String) (key : String) (rows : List α) : List α :=
  rows.filter fun row => id row ≠ key

def affectedBy {α : Type} (id : α → String) (key : String) (rows : List α) : Nat :=
  (rows.filter fun row => id row = key).length

theorem withoutKeys {α : Type} {id : α → String} {key : String} {rows : List α}
    (keys : (rows.map id).Nodup) : ((withoutId id key rows).map id).Nodup :=
  keys.sublist (List.filter_sublist.map _)

def deleteTerminalSegment (key : String) (d : Database) : Except String (Nat × Database) :=
  .ok (affectedBy (·.id) key d.terminalSegments,
    { d with
      terminalSegments := withoutId (·.id) key d.terminalSegments
      terminalKeys := withoutKeys d.terminalKeys })

def deleteRawSegment (key : String) (d : Database) : Except String (Nat × Database) :=
  .ok (affectedBy (·.id) key d.rawSegments,
    { d with
      rawSegments := withoutId (·.id) key d.rawSegments
      rawKeys := withoutKeys d.rawKeys })

def deleteDebugLog (key : String) (d : Database) : Except String (Nat × Database) :=
  match found : d.debugLogs with
  | none => .error "no such table: debug_logs"
  | some logs => .ok (affectedBy (·.id) key logs,
      { d with
        debugLogs := some (withoutId (·.id) key logs)
        debugKeys := fun _ same => Option.some.inj same ▸ withoutKeys (d.debugKeys logs found) })

def withoutReference (paths : List String) (event : EventRow) : EventRow :=
  match event.rawSegmentReference with
  | none => event
  | some path => if path ∈ paths then { event with rawSegmentReference := none } else event

def nullReferences (path : String) (d : Database) : Except String (Unit × Database) :=
  .ok ((), { d with events := d.events.map (withoutReference [path]) })

def executeCandidate (fault : Fault) (candidate : RetentionRecord) : Statements Nat :=
  match candidate.category with
  | .terminal => execute fault (deleteTerminalSegment candidate.id)
  | .rawProtocol => do
    let affected ← execute fault (deleteRawSegment candidate.id)
    if 0 < affected then
      execute fault (nullReferences candidate.storagePath)
      pure affected
    else pure affected
  | .debugLog => execute fault (deleteDebugLog candidate.id)

def executeCandidates (fault : Fault) (deleted : Nat) (released : List String) :
    List RetentionRecord → Statements (Nat × List String)
  | [] => pure (deleted, released)
  | candidate :: rest => do
    let affected ← executeCandidate fault candidate
    if 0 < affected then
      executeCandidates fault (deleted + affected) (released ++ [candidate.storagePath]) rest
    else executeCandidates fault deleted released rest

def inTransaction (fault : Fault) (batch : List RetentionRecord) : Statements (Nat × List String) := do
  execute fault fun d => .ok ((), d)
  let result ← executeCandidates fault 0 [] batch
  execute fault fun d => .ok ((), d)
  pure result

/-- An error drops the transaction: the database stays as it was. -/
def executeRetentionBatch (fault : Fault) (requestedLimit : Nat) (d : Database) (plan : RetentionPlan) :
    Except RetentionError RetentionBatch × Database × RetentionPlan :=
  if requestedLimit = 0 then (.error .zeroBatchSize, d, plan)
  else
    let batchSize := min (min requestedLimit maxRetentionBatch) plan.candidates.length
    if batchSize = 0 then (.ok ⟨0, [], 0⟩, d, plan)
    else
      match inTransaction fault (plan.candidates.take batchSize) ⟨d, 0⟩ with
      | .error error => (.error error, d, plan)
      | .ok ((deleted, released), t) =>
        (.ok ⟨deleted, released, (plan.candidates.drop batchSize).length⟩, t.view,
          ⟨plan.candidates.drop batchSize⟩)

end Maestro.Retention
