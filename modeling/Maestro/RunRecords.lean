import Maestro.Domain
import Maestro.JsonRedaction

/-! The rows of a session and of its runs. The start and the end of a run are two statements each,
which take effect one by one. -/
namespace Maestro.RunRecords
open Redaction

inductive AgentKind where
  | codex
  | claude
  | agy
  | fake
  deriving DecidableEq, Repr

inductive IntegrationMode where
  | structured
  | cliManaged
  | ptyTui
  deriving DecidableEq, Repr

inductive PersistedRunExit where
  | exited (code : Int)
  | signaled (signal : Int)
  | unknown
  deriving DecidableEq, Repr

def AgentKind.name : AgentKind → String
  | .codex => "codex"
  | .claude => "claude"
  | .agy => "agy"
  | .fake => "fake"

def IntegrationMode.name : IntegrationMode → String
  | .structured => "structured"
  | .cliManaged => "cli_managed"
  | .ptyTui => "pty_tui"

def sessionStateName : SessionState → String
  | .created => "created"
  | .starting => "starting"
  | .ready => "ready"
  | .running => "running"
  | .awaitingPermission => "awaiting_permission"
  | .awaitingUserInput => "awaiting_user_input"
  | .background => "background"
  | .interrupting => "interrupting"
  | .completed => "completed"
  | .stopped => "stopped"
  | .failed => "failed"
  | .interrupted => "interrupted"
  | .recoverable => "recoverable"
  | .incompatible => "incompatible"

structure SessionRow where
  id : String
  projectId : String
  agentKind : String
  integrationMode : String
  state : String
  title : Option String
  createdAt : Nat
  updatedAt : Nat
  deriving DecidableEq, Repr

structure RunRow where
  id : String
  sessionId : Option String
  pid : Option Nat
  invocationJson : String
  channel : String
  state : String
  startedAt : Nat
  exitedAt : Option Nat
  exitCode : Option Int
  recoveryJson : Option String
  deriving DecidableEq, Repr

/-- The tables with their primary and foreign keys. -/
structure Tables where
  projects : List String
  sessions : List SessionRow
  processRuns : List RunRow
  sessionKeys : (sessions.map (·.id)).Nodup
  runKeys : (processRuns.map (·.id)).Nodup
  sessionProjects : ∀ row ∈ sessions, row.projectId ∈ projects
  runSessions : ∀ row ∈ processRuns, ∀ session ∈ row.sessionId, session ∈ sessions.map (·.id)

inductive SessionStoreError where
  | sessionNotFound (session : String)
  | runNotFound (run : String)
  | sql (message : String)
  deriving DecidableEq, Repr

inductive StorageRuntimeError where
  | unavailable
  | session (error : SessionStoreError)
  deriving DecidableEq, Repr

theorem keysKept {α : Type} {rows : List α} {id : α → String} {change : α → α} (keeps : ∀ row, id (change row) = id row) :
    (rows.map change).map id = rows.map id := by
  rw [List.map_map]
  exact List.map_congr_left fun row _ => keeps row

theorem keysConcat {α : Type} {rows : List α} {id : α → String} {row : α} (keys : (rows.map id).Nodup)
    (fresh : id row ∉ rows.map id) : ((rows ++ [row]).map id).Nodup := by
  rw [List.map_append, List.map_singleton]
  exact List.nodup_append.mpr ⟨keys, List.nodup_singleton _, fun _ here _ added same =>
    fresh (List.mem_singleton.mp added ▸ same ▸ here)⟩

def alterSession (id : String) (change : SessionRow → SessionRow) (row : SessionRow) : SessionRow :=
  if row.id = id then { change row with id := row.id, projectId := row.projectId } else row

def alterRun (id : String) (change : RunRow → RunRow) (row : RunRow) : RunRow :=
  if row.id = id then { change row with id := row.id, sessionId := row.sessionId } else row

theorem alterSessionId {id : String} {change : SessionRow → SessionRow} (row : SessionRow) :
    (alterSession id change row).id = row.id := by
  unfold alterSession
  split <;> rfl

theorem alterSessionProject {id : String} {change : SessionRow → SessionRow} (row : SessionRow) :
    (alterSession id change row).projectId = row.projectId := by
  unfold alterSession
  split <;> rfl

theorem alterRunId {id : String} {change : RunRow → RunRow} (row : RunRow) : (alterRun id change row).id = row.id := by
  unfold alterRun
  split <;> rfl

theorem alterRunSession {id : String} {change : RunRow → RunRow} (row : RunRow) :
    (alterRun id change row).sessionId = row.sessionId := by
  unfold alterRun
  split <;> rfl

namespace Tables
variable (t : Tables)

theorem alteredProjects {id : String} {change : SessionRow → SessionRow} :
    ∀ row ∈ t.sessions.map (alterSession id change), row.projectId ∈ t.projects := by
  intro row member
  obtain ⟨before, inside, rfl⟩ := List.mem_map.mp member
  rw [alterSessionProject]
  exact t.sessionProjects before inside

theorem alteredRuns {id : String} {change : RunRow → RunRow} :
    ∀ row ∈ t.processRuns.map (alterRun id change), ∀ session ∈ row.sessionId, session ∈ t.sessions.map (·.id) := by
  intro row member session of'
  obtain ⟨before, inside, rfl⟩ := List.mem_map.mp member
  rw [alterRunSession] at of'
  exact t.runSessions before inside session of'

/-- `UPDATE sessions SET … WHERE id = ?1`; the key and the project are not set. -/
def updateSession (id : String) (change : SessionRow → SessionRow) : Tables :=
  { t with
    sessions := t.sessions.map (alterSession id change)
    sessionKeys := (keysKept alterSessionId).symm ▸ t.sessionKeys
    sessionProjects := t.alteredProjects
    runSessions := fun row member session of' => (keysKept alterSessionId).symm ▸ t.runSessions row member session of' }

def updateRun (id : String) (change : RunRow → RunRow) : Tables :=
  { t with
    processRuns := t.processRuns.map (alterRun id change)
    runKeys := (keysKept alterRunId).symm ▸ t.runKeys
    runSessions := t.alteredRuns }

theorem addedProjects {row : SessionRow} (known : row.projectId ∈ t.projects) :
    ∀ other ∈ t.sessions ++ [row], other.projectId ∈ t.projects := by
  intro other member
  rcases List.mem_append.mp member with before | added
  · exact t.sessionProjects other before
  · exact List.mem_singleton.mp added ▸ known

theorem addedSessions {row : SessionRow} :
    ∀ run ∈ t.processRuns, ∀ session ∈ run.sessionId, session ∈ (t.sessions ++ [row]).map (·.id) := by
  intro run member session of'
  rw [List.map_append]
  exact List.mem_append_left _ (t.runSessions run member session of')

theorem addedRuns {row : RunRow} (known : ∀ session ∈ row.sessionId, session ∈ t.sessions.map (·.id)) :
    ∀ run ∈ t.processRuns ++ [row], ∀ session ∈ run.sessionId, session ∈ t.sessions.map (·.id) := by
  intro run member
  rcases List.mem_append.mp member with before | added
  · exact t.runSessions run before
  · exact List.mem_singleton.mp added ▸ known

def insertSession (row : SessionRow) (fresh : row.id ∉ t.sessions.map (·.id)) (known : row.projectId ∈ t.projects) :
    Tables :=
  { t with
    sessions := t.sessions ++ [row]
    sessionKeys := keysConcat t.sessionKeys fresh
    sessionProjects := t.addedProjects known
    runSessions := t.addedSessions }

def insertRun (row : RunRow) (fresh : row.id ∉ t.processRuns.map (·.id))
    (known : ∀ session ∈ row.sessionId, session ∈ t.sessions.map (·.id)) : Tables :=
  { t with
    processRuns := t.processRuns ++ [row]
    runKeys := keysConcat t.runKeys fresh
    runSessions := t.addedRuns known }

end Tables

/-- A statement by itself takes effect or, with a fault of the engine, does not. -/
def statement (fault : Option String) (effect : Tables → Except SessionStoreError Tables) (t : Tables) :
    Except SessionStoreError Tables :=
  match fault with
  | some message => .error (.sql message)
  | none => effect t

def refreshed (state : SessionState) (title : Option String) (now : Nat) (row : SessionRow) : SessionRow :=
  { row with state := sessionStateName state, title := title.or row.title, updatedAt := now }

def upsertSession (fault : Option String) (session project : String) (kind : AgentKind) (mode : IntegrationMode)
    (state : SessionState) (title : Option String) (now : Nat) : Tables → Except SessionStoreError Tables :=
  statement fault fun t =>
    if fresh : session ∉ t.sessions.map (·.id) then
      if known : project ∈ t.projects then
        .ok (t.insertSession ⟨session, project, kind.name, mode.name, sessionStateName state, title, now, now⟩ fresh known)
      else .error (.sql "FOREIGN KEY constraint failed")
    else .ok (t.updateSession session (refreshed state title now))

def moved (state : SessionState) (now : Nat) (row : SessionRow) : SessionRow :=
  { row with state := sessionStateName state, updatedAt := now }

def updateSessionState (fault : Option String) (session : String) (state : SessionState) (now : Nat) :
    Tables → Except SessionStoreError Tables :=
  statement fault fun t =>
    if session ∈ t.sessions.map (·.id) then .ok (t.updateSession session (moved state now))
    else .error (.sessionNotFound session)

theorem redactsTotal (value : Value) : (redactJsonInPlace value).isSome = true := by
  obtain ⟨value', count, redacted, _⟩ := redactJsonExact value
  rw [redacted]
  rfl

def redactJson (value : Value) : Value := ((redactJsonInPlace value).get (redactsTotal value)).1

def toJson (value : Value) : String := String.ofList value.text

def started (run session : String) (pid : Nat) (invocation : Value) (channel : String) (now : Nat) : RunRow :=
  ⟨run, some session, some pid, toJson (redactJson invocation), channel, "running", now, none, none, none⟩

def startRun (fault : Option String) (run session : String) (pid : Nat) (invocation : Value) (channel : String)
    (now : Nat) : Tables → Except SessionStoreError Tables :=
  statement fault fun t =>
    if fresh : run ∉ t.processRuns.map (·.id) then
      if known : ∀ session' ∈ (started run session pid invocation channel now).sessionId,
          session' ∈ t.sessions.map (·.id) then
        .ok (t.insertRun (started run session pid invocation channel now) fresh known)
      else .error (.sql "FOREIGN KEY constraint failed")
    else .error (.sql "UNIQUE constraint failed: process_runs.id")

def integer (n : Int) : Value := .number (if n < 0 then .negInt n else .posInt n.toNat)

def exitCode : PersistedRunExit → Option Int
  | .exited code => some code
  | .signaled _ | .unknown => none

def recoveryExit : PersistedRunExit → Option Value
  | .exited _ => none
  | .signaled signal => some (.object [("signal", integer signal)])
  | .unknown => some (.object [("cause", .string "unknown")])

def mergedRecovery (recovery : Option Value) (exit : PersistedRunExit) : Option Value :=
  match recovery, recoveryExit exit with
  | some value, some exit => some (.object [("details", redactJson value), ("exit", exit)])
  | some value, none => some (redactJson value)
  | none, exit => exit

def finished (state : String) (exit : PersistedRunExit) (recovery : Option Value) (now : Nat) (row : RunRow) : RunRow :=
  { row with
    state := state
    exitedAt := some now
    exitCode := exitCode exit
    recoveryJson := (mergedRecovery recovery exit).map toJson }

def finishRun (fault : Option String) (run state : String) (exit : PersistedRunExit) (recovery : Option Value)
    (now : Nat) : Tables → Except SessionStoreError Tables :=
  statement fault fun t =>
    if run ∈ t.processRuns.map (·.id) then .ok (t.updateRun run (finished state exit recovery now))
    else .error (.runNotFound run)

def bothStatements (first second : Tables → Except SessionStoreError Tables) (t : Tables) :
    Except StorageRuntimeError Unit × Tables :=
  match first t with
  | .error error => (.error (.session error), t)
  | .ok t' =>
    match second t' with
    | .error error => (.error (.session error), t')
    | .ok t'' => (.ok (), t'')

def withReadySessionStore (ready : Bool) (operation : Tables → Except StorageRuntimeError Unit × Tables) (t : Tables) :
    Except StorageRuntimeError Unit × Tables :=
  if ready then operation t else (.error .unavailable, t)

structure StartArguments where
  project : String
  session : String
  run : String
  processId : Nat
  title : String
  invocation : Value
  integrationMode : IntegrationMode
  channel : String

structure FinishArguments where
  session : String
  run : String
  state : SessionState
  exit : PersistedRunExit
  recovery : Option Value

/-- `faults` and `now` belong to the statements in their order. -/
def startSessionRunWithMode (ready : Bool) (faults : Nat → Option String) (now : Nat → Nat) (a : StartArguments) :
    Tables → Except StorageRuntimeError Unit × Tables :=
  withReadySessionStore ready (bothStatements
    (upsertSession (faults 0) a.session a.project .fake a.integrationMode .starting (some a.title) (now 0))
    (startRun (faults 1) a.run a.session a.processId a.invocation a.channel (now 1)))

def finishSessionRun (ready : Bool) (faults : Nat → Option String) (now : Nat → Nat) (a : FinishArguments) :
    Tables → Except StorageRuntimeError Unit × Tables :=
  withReadySessionStore ready (bothStatements
    (updateSessionState (faults 0) a.session a.state (now 0))
    (finishRun (faults 1) a.run (sessionStateName a.state) a.exit a.recovery (now 1)))

end Maestro.RunRecords
