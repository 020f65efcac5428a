import Maestro.SessionPrograms

/-! The tasks of a run (the two readers, the supervisor's end and the expiry timers),
the session monitor of the daemon, and the machine all of them run in. -/
namespace Maestro.Session
open Interleaving (Prog)

inductive FrameKind where
  | init | messageDelta | toolStart | toolEnd | artifact | usage | result
  | permissionRequest | permissionResult | userInputRequest | userInputResult
  | ready | actionAck | message | delta | binding | resumed | childStarted | signalIgnored
  deriving DecidableEq, Repr

namespace FrameKind

def text : FrameKind → String
  | .init => "init"
  | .messageDelta => "message_delta"
  | .toolStart => "tool_start"
  | .toolEnd => "tool_end"
  | .artifact => "artifact"
  | .usage => "usage"
  | .result => "result"
  | .permissionRequest => "permission_request"
  | .permissionResult => "permission_result"
  | .userInputRequest => "user_input_request"
  | .userInputResult => "user_input_result"
  | .ready => "ready"
  | .actionAck => "action_ack"
  | .message => "message"
  | .delta => "delta"
  | .binding => "binding"
  | .resumed => "resumed"
  | .childStarted => "child_started"
  | .signalIgnored => "signal_ignored"

def all : List FrameKind :=
  [.init, .messageDelta, .toolStart, .toolEnd, .artifact, .usage, .result, .permissionRequest,
    .permissionResult, .userInputRequest, .userInputResult, .ready, .actionAck, .message, .delta,
    .binding, .resumed, .childStarted, .signalIgnored]

/-- `is_supported_event_kind`. -/
def parse (kind : String) : Option FrameKind := all.find? (fun k => k.text == kind)

example : parse "user_input_result" = some .userInputResult := by decide

end FrameKind

structure Frame where
  kind : FrameKind
  fields : List (String × Value)

def supportedProtocolVersion : Nat := 1

def readFrame (value : Value) : Except ProtocolFailure Frame :=
  match value.asObject with
  | none => .error ⟨"non_object_frame", false⟩
  | some fields =>
  match (Value.get fields "type").bind Value.asStr with
  | none => .error ⟨"invalid_event_type", false⟩
  | some kind =>
  match Value.get fields "protocol_version" with
  | some version =>
      if version.asU64 ≠ some supportedProtocolVersion then
        .error ⟨"unsupported_protocol_version", true⟩
      else
        match FrameKind.parse kind with
        | none => .error ⟨"unknown_event_type", false⟩
        | some kind => .ok ⟨kind, fields⟩
  | none =>
      match FrameKind.parse kind with
      | none => .error ⟨"unknown_event_type", false⟩
      | some kind => .ok ⟨kind, fields⟩

def requiredString (value : Option Value) (field : String) : Except ProtocolFailure String :=
  match value.bind Value.asStr with
  | some text =>
      if text ≠ "" then .ok text
      else .error ⟨if field = "binding_id" then "invalid_binding" else "invalid_request_id", false⟩
  | none => .error ⟨if field = "binding_id" then "invalid_binding" else "invalid_request_id", false⟩

def Frame.requestId (frame : Frame) : Except ProtocolFailure String :=
  requiredString (Value.get frame.fields "request_id") "request_id"

def Frame.actionId (frame : Frame) : Option String :=
  (((Value.get frame.fields "action").bind Value.asObject).bind
    (fun action => Value.get action "action_id")).bind Value.asStr

def Frame.visibility (frame : Frame) : EventVisibility :=
  match frame.kind with
  | .userInputResult | .actionAck => .sensitive
  | _ => .user

section Programs
variable (sup : Supervisor)

@[simp] def confirmResolved (run : RunId) (requestId : String) (kind : PendingKind) : Program Bool :=
  tracker run (.confirmResolved requestId kind)
@[simp] def resolveActive (run : RunId) (requestId : String) (kind : PendingKind) :
    Program (Except MaestroError Unit) := tracker run (.resolveActive requestId kind)
@[simp] def leaseToken (run : RunId) : Program LeaseToken := onRun run .leaseToken
@[simp] def leasedBinding (run : RunId) : Program (Option String) := onRun run .leasedBinding

def adoptBinding (session : SessionId) (run : RunId) (frame : Frame) :
    Program (Except ProtocolFailure Unit) := do
  match requiredString (Value.get frame.fields "binding_id") "binding_id" with
  | .error failure => return .error failure
  | .ok binding =>
  match validateIdentifier binding "vendor binding" with
  | .error _ => return .error ⟨"invalid_binding", false⟩
  | .ok () =>
  match ← leasedBinding run with
  | some existing =>
      if existing ≠ binding then return .error ⟨"binding_mismatch", false⟩
      onSession session (.setBinding binding)
      return .ok ()
  | none =>
      match ← claimWriter binding (← leaseToken run) session with
      | .error _ => return .error ⟨"binding_writer_conflict", false⟩
      | .ok () =>
          onRun run (.setLeasedBinding binding)
          onSession session (.setBinding binding)
          return .ok ()

/-- `permission_request` and `user_input_request`. -/
def handleRequest (session : SessionId) (run : RunId) (kind : PendingKind) (waiting : SessionState)
    (category : String) (frame : Frame) : Program (Except ProtocolFailure Unit) := do
  match frame.requestId with
  | .error failure => return .error failure
  | .ok requestId =>
  match ← registerPending sup session run requestId kind with
  | .error _ => return .error ⟨category, false⟩
  | .ok () =>
      setState session waiting
      return .ok ()

/-- `permission_result` and `user_input_result`. -/
def handleResult (session : SessionId) (run : RunId) (kind : PendingKind) (category : String)
    (frame : Frame) : Program (Except ProtocolFailure Unit) := do
  match frame.requestId with
  | .error failure => return .error failure
  | .ok requestId =>
  if ← confirmResolved run requestId kind then
    updateWaitingState session run
    return .ok ()
  else return .error ⟨category, false⟩

def handleAck (run : RunId) (frame : Frame) : Program (Except ProtocolFailure Unit) := do
  match frame.actionId with
  | none => return .error ⟨"uncorrelated_action_ack", false⟩
  | some actionId =>
  match ← resolveActive run actionId .guiAction with
  | .error _ => return .error ⟨"uncorrelated_action_ack", false⟩
  | .ok () => return .ok ()

def applyFrame (session : SessionId) (run : RunId) (frame : Frame) :
    Program (Except ProtocolFailure Unit) :=
  match frame.kind with
  | .binding | .resumed => adoptBinding session run frame
  | .permissionRequest =>
      handleRequest sup session run .permission .awaitingPermission "invalid_permission_request" frame
  | .userInputRequest =>
      handleRequest sup session run .userInput .awaitingUserInput "invalid_user_input_request" frame
  | .permissionResult =>
      handleResult session run .permission "uncorrelated_permission_result" frame
  | .userInputResult =>
      handleResult session run .userInput "uncorrelated_user_input_result" frame
  | .actionAck => handleAck run frame
  | _ => return .ok ()

/-- Everything `handle_frame` does after the frame was applied. -/
def publishFrame (session : SessionId) (run : RunId) (frame : Frame) :
    Program (Except ProtocolFailure Unit) := do
  match ← publish sup session (some run) .cli
      ⟨frame.kind.text, frame.visibility, .object frame.fields,
        (Value.get frame.fields "event_id").bind Value.asStr, none⟩ with
  | .error _ => return .error ⟨"event_sequence_failure", false⟩
  | .ok _ =>
      if (← readState session) = .starting then
        setState session (if frame.kind = .ready then .ready else .running)
      return .ok ()

def handleFrame (session : SessionId) (run : RunId) (value : Value) :
    Program (Except ProtocolFailure Unit) := do
  onRun run (.beginFrame value)
  match readFrame value with
  | .error failure => return .error failure
  | .ok frame =>
  match ← applyFrame sup session run frame with
  | .error failure => return .error failure
  | .ok () => publishFrame sup session run frame

def handleFrames (session : SessionId) (run : RunId) :
    List Value → Program (Except ProtocolFailure Unit)
  | [] => return .ok ()
  | value :: rest => do
      match ← handleFrame sup session run value with
      | .error failure => return .error failure
      | .ok () => handleFrames session run rest

/-! Readers and the end of a run. -/

def readStdout (session : SessionId) (run : RunId) (decoder : JsonLineDecoder) :
    Program (Option Entry) := do
  let read : StreamRead ← onRun run .readStdout
  match read with
  | .failed => return some (.finish session run (some ⟨"stdout_io", false⟩))
  | .data [] => return some (.finish session run decoder.finish)
  | .data bytes =>
      onRun run (.capture bytes)
      let (decoder, batch) := decoder.push sup.fromSlice sup.limits.maximumFrameBytes bytes
      match ← handleFrames sup session run batch.frames with
      | .error failure => return some (.finish session run (some failure))
      | .ok () =>
          match batch.failure with
          | some failure => return some (.finish session run (some failure))
          | none => return some (.stdoutReader session run decoder)

def readStderr (session : SessionId) (run : RunId) : Program (Option Entry) := do
  let read : StreamRead ← onRun run .readStderr
  match read with
  | .failed =>
      onRun run (.stderrDone true)
      return none
  | .data [] =>
      onRun run (.stderrDone false)
      return none
  | .data bytes =>
      onSession session (.pushStderr bytes)
      return some (.stderrReader session run)

def protocolFailureError (failure : ProtocolFailure) : MaestroError where
  code := failure.code
  message := if failure.incompatible then "the fake CLI protocol version is unsupported"
    else "the fake CLI emitted an invalid structured frame"
  userAction := if failure.incompatible then some "Use the exact TUI compatibility mode" else none
  details := some (.object [("category", .string failure.category)])

def recordProtocolFailure (session : SessionId) (run : RunId) (failure : ProtocolFailure) :
    Program Unit := do
  onSession session (.protocolFailure failure.state (protocolFailureError failure))
  let _ ← publishUser sup session (some run) .daemon
    (if failure.incompatible then "protocol_incompatible" else "protocol_error")
    [("category", .string failure.category)]

def classifyCompletion (stopRequested : Bool) (failure : Option ProtocolFailure)
    (stderrFailed : Bool) (exit : Except ProcessError ExitCause) : Completion :=
  let exitCause := exit.toOption
  if stopRequested then ⟨.stopped, exitCause, none⟩
  else
    match failure with
    | some failure => ⟨failure.state, exitCause, some
        { MaestroError.new failure.code "the structured fake CLI run failed protocol validation" with
          details := some (.object [("category", .string failure.category)]) }⟩
    | none =>
        if stderrFailed then ⟨.failed, exitCause, some
          (.new .processCrashed "the fake CLI stderr stream could not be read")⟩
        else
          match exitCause with
          | some (.exited 0) => ⟨.completed, exitCause, none⟩
          | some cause => ⟨.failed, exitCause, some
              { MaestroError.new .processCrashed "the fake CLI process exited unsuccessfully" with
                details := some (.object [("exit", exitJson cause)]) }⟩
          | none => ⟨.failed, none, some
              (.new .processCrashed "the fake CLI process could not be reaped")⟩

/-- The last event of a run; an incompatible one has none. -/
def completionEvent (run : RunId) (completion : Completion) : Option NormalizedEvent :=
  match completion.state with
  | .completed => some (.user "run_completed" (.object [("run_id", runValue run)]))
  | .stopped => some (.user "run_stopped" (.object [("run_id", runValue run)]))
  | .incompatible => none
  | _ => some (.user "run_failed" (.object
      [("exit", (completion.exit.map exitJson).getD .null), ("run_id", runValue run)]))

def releaseLease (run : RunId) : Program Unit := do
  let leased : Option String ← onRun run .takeLeasedBinding
  match leased with
  | some binding => releaseWriter binding (← leaseToken run)
  | none => return

def finalizeRun (session : SessionId) (run : RunId)
    (failure : Option ProtocolFailure) (stderrFailed : Bool) (exit : Except ProcessError ExitCause) :
    Program Unit := do
  let finalized : Bool ← onRun run .swapFinalized
  if finalized then return
  onRun run .completeCapture
  tracker run .clearActive
  releaseLease run
  let stopRequested ← loadStopRequested run
  let completion := classifyCompletion stopRequested failure stderrFailed exit
  onSession session (.finalize run completion)
  match completionEvent run completion with
  | none => return
  | some event =>
      let _ ← publish sup session (some run) .daemon event

/-- The end of `supervise_run`: the child is waited for under the process lock. -/
def reapRun (session : SessionId) (run : RunId) (failure : Option ProtocolFailure) :
    Program Unit := do
  let stderrFailed : Bool ← onRun run .joinStderr
  lockProcess run .wait
  let exit ← waitExit run
  unlockProcess run
  finalizeRun sup session run failure stderrFailed exit

/-- The rest of `supervise_run` after standard output ended. -/
def finishRun (session : SessionId) (run : RunId) (failure : Option ProtocolFailure) :
    Program Unit := do
  match failure with
  | some failure =>
      recordProtocolFailure sup session run failure
      lockProcess run .failure
      let _ ← terminate run
      unlockProcess run
      reapRun sup session run (some failure)
  | none => reapRun sup session run none

def persistedExit : Option ExitCause → PersistedRunExit
  | some (.exited code) => .exited code
  | some (.signaled signal) => .signaled signal
  | some .unknown | none => .unknown

def recoveryOf (error : Option MaestroError) : Recovery := error.map (fun e => (e.code, e.message))

def finishedRow (snapshot : FakeSessionSnapshot) : FinishedRun :=
  ⟨snapshot.state, persistedExit snapshot.lastExit, recoveryOf snapshot.lastError⟩

/-- `persist_session_events` after its loop. -/
def persistCompletion (session : SessionId) (run : RunId) : Program Unit := do
  match ← findSession session with
  | .error _ => return
  | .ok () =>
      let last ← snapshot session
      match ← findSession session with
      | .error _ => pure ()
      | .ok () =>
          let captured : Option RunId ← onSession session .rawCaptureRun
          if captured = some run then
            let capture : Option RawCapture ← onRun run .readCapture
            match capture with
            | some capture => let _ ← store (.persistRawCapture run capture)
            | none => pure ()
      let _ ← store (.finishSessionRun session run (finishedRow last))

def monitorLoop (session : SessionId) (run : RunId) (lastPersisted : Option SessionState) :
    Program (Option Entry) := do
  let received : Except FakeSubscriptionError EventEnvelope ← onSession session (.recv run)
  match received with
  | .error _ =>
      persistCompletion session run
      return none
  | .ok event =>
  let _ ← store (.persistEvent event)
  match ← findSession session with
  | .error _ =>
      persistCompletion session run
      return none
  | .ok () =>
  let seen ← snapshot session
  if seen.activeRunId = some run then
    if lastPersisted ≠ some seen.state then
      if ← store (.updateSessionState session seen.state) then
        return some (.monitorLoop session run (some seen.state))
      else return some (.monitorLoop session run lastPersisted)
    else return some (.monitorLoop session run lastPersisted)
  else
    persistCompletion session run
    return none

def subscribe (session : SessionId) (run : RunId) (afterSequence : Nat) :
    Program (Except MaestroError Unit) := do
  match ← findSession session with
  | .error error => return .error error
  | .ok () => onSession session (.subscribe run afterSequence)

def monitor (session : SessionId) (run : RunId) (afterSequence : Nat) : Program (Option Entry) := do
  match ← subscribe session run afterSequence with
  | .error _ => return none
  | .ok () => return some (.monitorLoop session run none)

def reply (call : Program (Except MaestroError Unit)) : Program (Option Entry) := do
  let result ← call
  answer result
  return none

def body : Entry → Program (Option Entry)
  | .start request => reply (handleStart sup request)
  | .resume session request => reply (handleResume sup session request)
  | .respondPermission session run requestId decision =>
      reply (respondPermission sup session run requestId decision)
  | .respondUserInput session run requestId value =>
      reply (respondUserInput sup session run requestId value)
  | .sendGuiAction session run action payload => reply (sendGuiAction sup session run action payload)
  | .stop session run => reply (stop sup session run)
  | .expiry session run requestId kind deadline => do
      sleepUntil deadline
      expireRequest sup session run requestId kind
      return none
  | .stderrReader session run => readStderr session run
  | .supervise session run => do
      spawn (.stderrReader session run)
      return some (.stdoutReader session run .new)
  | .stdoutReader session run decoder => readStdout sup session run decoder
  | .finish session run failure => do
      finishRun sup session run failure
      return none
  | .monitor session run afterSequence => monitor session run afterSequence
  | .monitorLoop session run lastPersisted => monitorLoop session run lastPersisted

def Entry.isCall : Entry → Bool
  | .start .. | .resume .. | .respondPermission .. | .respondUserInput .. | .sendGuiAction ..
  | .stop .. => true
  | _ => false

def Act.spawned : Act → Option Entry
  | .spawn entry => some entry
  | _ => none

abbrev machine : Interleaving.Machine actions where
  Memory := Memory
  Entry := Entry
  Choice := Choice
  Outside := Outside
  body := body sup
  apply := apply sup
  spawns := Act.spawned
  callable := Entry.isCall
  outside := outside sup

end Programs
end Maestro.Session
