import Maestro.Session

/-! The functions of the structured-session supervisor, of the session handlers and
of the session monitor as programs of atomic actions, under the source's names. -/
namespace Maestro.Session
open Interleaving (Prog)

abbrev Program := Prog actions

@[simp] def tracker (run : RunId) (call : PendingTracker.Call) : Program call.Answer :=
  .act (A := actions) (.run run (.tracker call)) .done
@[simp] def onRun (run : RunId) (call : RunCall) : Program call.Answer :=
  .act (A := actions) (.run run call) .done
@[simp] def onSession (session : SessionId) (call : SessionCall) : Program call.Answer :=
  .act (A := actions) (.session session call) .done
@[simp] def store (call : StoreCall) : Program Bool := .act (A := actions) (.store call) .done
@[simp] def spawn (entry : Entry) : Program Unit := .act (A := actions) (.spawn entry) .done
@[simp] def answer (result : Except MaestroError Unit) : Program Unit :=
  .act (A := actions) (.answer result) .done
@[simp] def readClock : Program Instant := .act (A := actions) .now .done
@[simp] def sleepUntil (deadline : Instant) : Program Unit := .act (A := actions) (.sleepUntil deadline) .done
@[simp] def freshId : Program Nat := .act (A := actions) .fresh .done
@[simp] def newActionId : Program String := .act (A := actions) .newActionId .done
@[simp] def findSession (session : SessionId) : Program (Except MaestroError Unit) :=
  .act (A := actions) (.findSession session) .done

@[simp] def loadFinalized (run : RunId) : Program Bool := onRun run .loadFinalized
@[simp] def loadStopRequested (run : RunId) : Program Bool := onRun run .loadStopRequested
@[simp] def swapStopRequested (run : RunId) : Program Bool := onRun run .swapStopRequested
@[simp] def lockProcess (run : RunId) (use : LockUse) : Program Unit := onRun run (.lock use)
@[simp] def unlockProcess (run : RunId) : Program Unit := onRun run .unlock
@[simp] def stdinWrite (run : RunId) (bytes : Bytes) (purpose : Purpose) : Program Bool :=
  onRun run (.stdinWrite bytes purpose)
@[simp] def awaitFlush (run : RunId) : Program Bool := onRun run .awaitFlush
@[simp] def completedResult (run : RunId) : Program (Option (Except ProcessError ExitCause)) :=
  onRun run .completedResult
@[simp] def signalGroup (run : RunId) : Program (Except ProcessError Unit) := onRun run .signalGroup
@[simp] def waitWithin (run : RunId) : Program (Option (Except ProcessError ExitCause)) :=
  onRun run .waitWithin
@[simp] def sealGroup (run : RunId) : Program (Except ProcessError Unit) := onRun run .sealGroup
@[simp] def waitExit (run : RunId) : Program (Except ProcessError ExitCause) := onRun run .waitExit

@[simp] def claimPending (run : RunId) (requestId : String) (kind : PendingKind) :
    Program (Except MaestroError Nat) := tracker run (.claimActive requestId kind)
@[simp] def completePending (run : RunId) (requestId : String) (kind : PendingKind) :
    Program (Except MaestroError Unit) := tracker run (.resolveInFlight requestId kind)
@[simp] def restorePending (run : RunId) (requestId : String) (kind : PendingKind) : Program Bool :=
  tracker run (.restoreInFlight requestId kind)
@[simp] def markPendingDeliveryUncertain (run : RunId) (requestId : String) (kind : PendingKind) :
    Program Bool := tracker run (.markDeliveryUncertain requestId kind)
@[simp] def waitingState (run : RunId) : Program (Option SessionState) := tracker run .waitingState
@[simp] def expirePending (run : RunId) (requestId : String) (kind : PendingKind) :
    Program (Option Nat) := tracker run (.expire requestId kind)
@[simp] def registerActive (run : RunId) (requestId : String) (kind : PendingKind) (deadline : Instant) :
    Program (Except MaestroError Unit) := tracker run (.register requestId kind deadline)
@[simp] def forceResolve (run : RunId) (requestId : String) (kind : PendingKind) : Program Unit :=
  tracker run (.forceResolve requestId kind)

@[simp] def setState (session : SessionId) (target : SessionState) : Program Unit :=
  onSession session (.setState target)
@[simp] def readState (session : SessionId) : Program SessionState := onSession session .readState
@[simp] def beginLaunch (session : SessionId) : Program Bool := onSession session .beginLaunch
@[simp] def install (session : SessionId) (run : RunId) : Program Bool := onSession session (.install run)
@[simp] def snapshot (session : SessionId) : Program FakeSessionSnapshot := onSession session .snapshot

@[simp] def createSession : Program (Except MaestroError SessionId) :=
  .act (A := actions) .createSession .done
@[simp] def removeSession (session : SessionId) : Program Unit :=
  .act (A := actions) (.removeSession session) .done
@[simp] def claimWriter (binding : String) (token : LeaseToken) (session : SessionId) :
    Program (Except MaestroError Unit) :=
  .act (A := actions) (.claimBinding binding token session) .done
@[simp] def releaseWriter (binding : String) (token : LeaseToken) : Program Unit :=
  .act (A := actions) (.releaseBinding binding token) .done
@[simp] def spawnStructured (session : SessionId) (run : RunId) (token : LeaseToken)
    (binding : Option String) (capture : Bool) (spec : ProcessSpec) :
    Program (Except ProcessError Nat) :=
  .act (A := actions) (.spawnStructured session run token binding capture spec) .done
@[simp] def takeStream (run : RunId) : Program (Except ProcessError Unit) :=
  .act (A := actions) (.takeStream run) .done

def PermissionDecision.asStr : PermissionDecision → String
  | .allow => "allow"
  | .deny => "deny"
  | .cancel => "cancel"

def runValue (run : RunId) : Value := .number (.posInt run)

def intValue (n : Int) : Value :=
  if 0 ≤ n then .number (.posInt n.toNat) else .number (.negInt n)

def exitJson : ExitCause → Value
  | .exited code => .object [("code", intValue code)]
  | .signaled signal => .object [("signal", intValue signal)]
  | .unknown => .object [("unknown", .bool true)]

def annotateDeliveryError (error : MaestroError) (delivery : String) (retrySafe : Bool) :
    MaestroError :=
  let details := match error.details with
    | some (.object details) => details
    | _ => []
  { error with details := some (.object
      (Value.insert "retry_safe" (.bool retrySafe)
        (Value.insert "delivery" (.string delivery) details))) }

inductive StructuredWriteError where
  | definite (error : MaestroError)
  | uncertain (error : MaestroError)

section Programs
variable (sup : Supervisor)

def publish (session : SessionId) (run : Option RunId) (source : EventSource)
    (event : NormalizedEvent) : Program (Except MaestroError EventEnvelope) :=
  onSession session (.publish run source { event with payload := sup.redactJson event.payload })

def publishUser (session : SessionId) (run : Option RunId) (source : EventSource) (kind : String)
    (payload : List (String × Value)) : Program (Except MaestroError EventEnvelope) :=
  publish sup session run source (.user kind (.object payload))

def encodeJson (value : Value) : Except MaestroError Bytes :=
  match sup.toVec value with
  | none => .error (invalidRequest "the structured input could not be encoded")
  | some bytes =>
      let line := bytes ++ [10]
      if line.length > sup.limits.maximumInputBytes then
        .error { MaestroError.new .inputTooLarge "structured input exceeds the configured maximum" with
          details := some (.object [("actual_bytes", .number (.posInt line.length)),
            ("maximum_bytes", .number (.posInt sup.limits.maximumInputBytes))]) }
      else .ok line

/-- `finalized || stop_requested`, the second flag only when the first is clear. -/
def refusesInput (run : RunId) : Program Bool := do
  if ← loadFinalized run then return true
  loadStopRequested run

/-- `StructuredProcess::write`. -/
def processWrite (run : RunId) (bytes : Bytes) (purpose : Purpose) :
    Program (Except ProcessError Unit) := do
  if ← stdinWrite run bytes purpose then
    if ← awaitFlush run then return .ok () else return .error .io
  else return .error .missingStream

def writeJsonBytes (run : RunId) (bytes : Bytes) (purpose : Purpose) :
    Program (Except StructuredWriteError Unit) := do
  if ← refusesInput run then
    return .error (.definite (invalidRequest "the run no longer accepts input"))
  lockProcess run .write
  if ← refusesInput run then
    unlockProcess run
    return .error (.definite (invalidRequest "the run no longer accepts input"))
  let written ← processWrite run bytes purpose
  unlockProcess run
  match written with
  | .ok () => return .ok ()
  | .error .missingStream =>
      return .error (.definite (safeProcessError .missingStream "stdin_write"))
  | .error error => return .error (.uncertain (safeProcessError error "stdin_write"))

def writeJson (run : RunId) (value : Value) (purpose : Purpose) :
    Program (Except MaestroError Unit) := do
  match encodeJson sup value with
  | .error error => return .error error
  | .ok bytes =>
      match ← writeJsonBytes run bytes purpose with
      | .ok () => return .ok ()
      | .error (.definite error) | .error (.uncertain error) => return .error error

def updateWaitingState (session : SessionId) (run : RunId) : Program Unit := do
  let next ← waitingState run
  setState session (next.getD .running)

def expiryResponse (requestId : String) : PendingKind → Option Value
  | .permission => some (.object [("decision", .string "cancel"), ("request_id", .string requestId)])
  | .userInput => some (.object [("request_id", .string requestId), ("value", .null)])
  | .guiAction => none

def expireRequest (session : SessionId) (run : RunId) (requestId : String) (kind : PendingKind) :
    Program Unit := do
  if ← loadFinalized run then return
  match ← expirePending run requestId kind with
  | none => return
  | some registration =>
      let _ ← publishUser sup session (some run) .daemon "request_expired"
        [("request_id", .string requestId), ("request_kind", .string kind.label)]
      match expiryResponse requestId kind with
      | some response =>
          let _ ← writeJson sup run response (.cancellation requestId kind registration)
          updateWaitingState session run
      | none => updateWaitingState session run

def registerPending (session : SessionId) (run : RunId) (requestId : String) (kind : PendingKind) :
    Program (Except MaestroError Unit) := do
  match validateIdentifier requestId "request ID" with
  | .error error => return .error error
  | .ok () =>
      let start ← readClock
      let deadline := start + sup.limits.requestTimeout
      match ← registerActive run requestId kind deadline with
      | .error error => return .error error
      | .ok () =>
          spawn (.expiry session run requestId kind deadline)
          return .ok ()

def activeRun (session : SessionId) (run : RunId) : Program (Except MaestroError Unit) := do
  match ← findSession session with
  | .error error => return .error error
  | .ok () =>
      match ← onSession session (.activeRun run) with
      | .error error => return .error error
      | .ok () =>
          if ← loadFinalized run then
            return .error (invalidRequest "the requested run has already finalized")
          else return .ok ()

def restoreAndExpire (session : SessionId) (run : RunId) (requestId : String) (kind : PendingKind) :
    Program Unit := do
  if ← restorePending run requestId kind then
    expireRequest sup session run requestId kind

def concludeDelivery (session : SessionId) (run : RunId) (audit : NormalizedEvent) :
    Program (Except MaestroError Unit) := do
  updateWaitingState session run
  match ← publish sup session (some run) .gui audit with
  | .error error => return .error (annotateDeliveryError error "delivered" false)
  | .ok _ => return .ok ()

def deliverPendingResponse (session : SessionId) (run : RunId) (requestId : String)
    (kind : PendingKind) (response : Value) (audit : NormalizedEvent) :
    Program (Except MaestroError Unit) := do
  match ← claimPending run requestId kind with
  | .error error => return .error error
  | .ok registration =>
  match encodeJson sup response with
  | .error error =>
      restoreAndExpire sup session run requestId kind
      return .error (annotateDeliveryError error "not_delivered" true)
  | .ok bytes =>
  match ← writeJsonBytes run bytes (.response requestId kind registration) with
  | .ok () =>
      match ← completePending run requestId kind with
      | .error error => return .error (annotateDeliveryError error "delivered" false)
      | .ok () => concludeDelivery sup session run audit
  | .error (.definite error) =>
      restoreAndExpire sup session run requestId kind
      return .error (annotateDeliveryError error "not_delivered" true)
  | .error (.uncertain error) =>
      if ← markPendingDeliveryUncertain run requestId kind then
        concludeDelivery sup session run audit
      else
        updateWaitingState session run
        return .error (annotateDeliveryError error "uncertain" false)

def respondPermission (session : SessionId) (run : RunId) (requestId : String)
    (decision : PermissionDecision) : Program (Except MaestroError Unit) := do
  match validateIdentifier requestId "permission request ID" with
  | .error error => return .error error
  | .ok () =>
  match ← activeRun session run with
  | .error error => return .error error
  | .ok () =>
      let response := Value.object
        [("decision", .string decision.asStr), ("request_id", .string requestId)]
      deliverPendingResponse sup session run requestId .permission response
        (.user "gui_permission_response" response)

def respondUserInput (session : SessionId) (run : RunId) (requestId : String) (value : Value) :
    Program (Except MaestroError Unit) := do
  match validateIdentifier requestId "user-input request ID" with
  | .error error => return .error error
  | .ok () =>
  match ← activeRun session run with
  | .error error => return .error error
  | .ok () =>
      deliverPendingResponse sup session run requestId .userInput
        (.object [("request_id", .string requestId), ("value", value)])
        ⟨"gui_user_input_response", .sensitive,
          .object [("request_id", .string requestId), ("value_recorded", .bool false)], none, none⟩

def sendGuiAction (session : SessionId) (run : RunId) (action : String) (payload : Value) :
    Program (Except MaestroError Unit) := do
  match validateIdentifier action "GUI action name" with
  | .error error => return .error error
  | .ok () =>
  match ← activeRun session run with
  | .error error => return .error error
  | .ok () =>
  let actionId ← newActionId
  match ← registerPending sup session run actionId .guiAction with
  | .error error => return .error error
  | .ok () =>
  match ← publishUser sup session (some run) .gui "gui_action"
      [("action", .string action), ("action_id", .string actionId)] with
  | .error error => return .error error
  | .ok _ =>
  match ← writeJson sup run (.object [("action", .string action), ("action_id", .string actionId),
      ("payload", payload)]) (.action actionId) with
  | .error error =>
      forceResolve run actionId .guiAction
      return .error error
  | .ok () => return .ok ()

/-- `StructuredProcess::terminate`, the caller holding the process lock. -/
def terminate (run : RunId) : Program (Except ProcessError ExitCause) := do
  match ← completedResult run with
  | some result => return result
  | none =>
  match ← signalGroup run with
  | .error error => return .error error
  | .ok () =>
  match ← waitWithin run with
  | some result => return result
  | none =>
  match ← sealGroup run with
  | .error error => return .error error
  | .ok () => waitExit run

def stop (session : SessionId) (run : RunId) : Program (Except MaestroError Unit) := do
  match ← activeRun session run with
  | .error error => return .error error
  | .ok () =>
  if ← swapStopRequested run then
    return .error (invalidRequest "the run is already stopping")
  setState session .interrupting
  match ← publishUser sup session (some run) .gui "gui_stop_requested" [("run_id", runValue run)] with
  | .error error => return .error error
  | .ok _ =>
  lockProcess run .stop
  let result ← terminate run
  unlockProcess run
  match result with
  | .error error => return .error (safeProcessError error "terminate")
  | .ok _ => return .ok ()

def validateLaunch (request : LaunchRequest) (binding : Option String) : Except MaestroError Unit :=
  if request.executable = "" then
    .error (invalidRequest "the fake-agent executable path is empty")
  else if request.cwd = "" then
    .error (invalidRequest "the fake-agent working directory is empty")
  else if ¬ "structured/".toList.isPrefixOf request.scenario.toList ∨ request.scenario = "" ∨
      request.scenario.utf8ByteSize > maxLaunchTextBytes then
    .error (invalidRequest "the fake-session scenario must be a bounded structured scenario")
  else
    match binding with
    | some binding => validateIdentifier binding "vendor binding"
    | none => .ok ()

def launchSpec (request : LaunchRequest) (binding : Option String) : ProcessSpec where
  executable := request.executable
  workingDirectory := request.cwd
  arguments := ["--scenario", request.scenario] ++
    (match binding with | some value => ["--binding", value] | none => []) ++
    (match request.volume with | some value => ["--volume", toString value] | none => [])

def dropLaunchGuard (session : SessionId) (token : LeaseToken) (reserved : Option String)
    (committed : Bool) : Program Unit := do
  onSession session .endLaunch
  match committed, reserved with
  | false, some binding => releaseWriter binding token
  | _, _ => return

def recordLaunchFailure (session : SessionId) (error : MaestroError) : Program Unit := do
  onSession session (.launchFailure error)
  let _ ← publishUser sup session none .daemon "run_launch_failed" []

/-- A launch that fails after its child was spawned. -/
def abandonLaunch (session : SessionId) (run : RunId) (error : ProcessError) (operation : String) :
    Program MaestroError := do
  let _ ← terminate run
  recordLaunchFailure sup session (safeProcessError error operation)
  return safeProcessError error operation

def claimLaunchBinding (session : SessionId) (token : LeaseToken) :
    Option String → Program (Except MaestroError Unit)
  | some value => claimWriter value token session
  | none => return .ok ()

def launch (session : SessionId) (request : LaunchRequest) (binding : Option String) :
    Program (Except MaestroError RunId) := do
  match validateLaunch request binding with
  | .error error => return .error error
  | .ok () =>
  if !(← beginLaunch session) then
    return .error (invalidRequest "the logical session is already launching a run")
  let token ← freshId
  match ← claimLaunchBinding session token binding with
  | .error error =>
      onSession session .endLaunch
      return .error error
  | .ok () =>
  setState session .starting
  onSession session .resetStderr
  onSession session (.resetLaunch binding)
  let run ← freshId
  match ← spawnStructured session run token binding request.captureRawProtocol
      (launchSpec request binding) with
  | .error error =>
      recordLaunchFailure sup session (safeProcessError error "spawn")
      dropLaunchGuard session token binding false
      return .error (safeProcessError error "spawn")
  | .ok processId =>
  match ← takeStream run with
  | .error error =>
      let result ← abandonLaunch sup session run error "take_stdout"
      dropLaunchGuard session token binding false
      return .error result
  | .ok () =>
  match ← takeStream run with
  | .error error =>
      let result ← abandonLaunch sup session run error "take_stderr"
      dropLaunchGuard session token binding false
      return .error result
  | .ok () =>
  if ← install session run then
    onSession session (.setRawCapture (if request.captureRawProtocol then some run else none))
    dropLaunchGuard session token binding true
    match ← publishUser sup session (some run) .daemon "run_started"
        [("process_id", .number (.posInt processId)), ("run_id", runValue run),
          ("scenario", .string request.scenario)] with
    | .error error => return .error error
    | .ok _ =>
        spawn (.supervise session run)
        return .ok run
  else
    lockProcess run .launch
    let _ ← terminate run
    unlockProcess run
    dropLaunchGuard session token binding false
    return .error (invalidRequest "the logical session already has an active run")

def start (request : LaunchRequest) : Program (Except MaestroError (SessionId × RunId)) := do
  match ← createSession with
  | .error error => return .error error
  | .ok session =>
  match ← launch sup session request request.binding with
  | .ok run => return .ok (session, run)
  | .error error =>
      if (← readState session) = .created then removeSession session
      return .error error

def resume (session : SessionId) (request : LaunchRequest) :
    Program (Except MaestroError RunId) := do
  match ← findSession session with
  | .error error => return .error error
  | .ok () =>
  match ← onSession session (.resumeBinding request.binding) with
  | .error error => return .error error
  | .ok binding => launch sup session { request with volume := none } binding

def databaseUnavailableError : MaestroError :=
  { MaestroError.new .databaseUnavailable "Maestro encrypted storage is unavailable" with
    userAction := some "Restart Maestro. If the problem continues, preserve the data directory for recovery." }

def superviseDurably (session : SessionId) (run : RunId) (afterSequence : Nat) :
    Program (Except MaestroError Unit) := do
  if ← store (.startSessionRun session run) then
    spawn (.monitor session run afterSequence)
    return .ok ()
  else
    let _ ← stop sup session run
    return .error databaseUnavailableError

def handleStart (request : LaunchRequest) : Program (Except MaestroError Unit) := do
  match ← start sup request with
  | .error error => return .error error
  | .ok (session, run) => superviseDurably sup session run 0

def handleResume (session : SessionId) (request : LaunchRequest) :
    Program (Except MaestroError Unit) := do
  match ← findSession session with
  | .error error => return .error error
  | .ok () =>
  let before ← snapshot session
  match ← resume sup session request with
  | .error error => return .error error
  | .ok run => superviseDurably sup session run before.latestSequence

end Programs
end Maestro.Session
