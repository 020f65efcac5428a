import Maestro.Interleaving
import Maestro.PendingTracker
import Maestro.EventLog
import Maestro.JsonLines

/-! Shared memory of the structured-session supervisor and the atomic actions on it.
One action is one section of a lock, one atomic flag or one wait; what the child, the
clock and the file system decide comes in through the choice of the event. -/
namespace Maestro.Session

abbrev LeaseToken := Nat

structure FakeSessionLimits where
  maximumFrameBytes : Nat
  replayEvents : Nat
  broadcastEvents : Nat
  stderrBytes : Nat
  pendingRequests : Nat
  maximumInputBytes : Nat
  maximumSessions : Nat
  maximumRawProtocolBytes : Nat
  requestTimeout : Nat
  terminationGrace : Nat
  deriving DecidableEq, Repr

def FakeSessionLimits.default : FakeSessionLimits where
  maximumFrameBytes := 1024 * 1024
  replayEvents := 2048
  broadcastEvents := 256
  stderrBytes := 256 * 1024
  pendingRequests := 128
  maximumInputBytes := 1024 * 1024
  maximumSessions := 256
  maximumRawProtocolBytes := 1024 * 1024
  requestTimeout := 5 * 60 * 1000
  terminationGrace := 2 * 1000

def FakeSessionLimits.Valid (l : FakeSessionLimits) : Prop :=
  0 < l.maximumFrameBytes ∧ 0 < l.replayEvents ∧ 0 < l.broadcastEvents ∧ 0 < l.pendingRequests ∧
  0 < l.maximumInputBytes ∧ 0 < l.maximumSessions ∧ 0 < l.maximumRawProtocolBytes ∧
  0 < l.requestTimeout
instance (l : FakeSessionLimits) : Decidable l.Valid := by
  unfold FakeSessionLimits.Valid; infer_instance

/-- `toVec` and `fromSlice` are the JSON encoder and decoder, `redactJson` the redaction
pass; the pipe to the child holds `pipeCapacity` bytes and the standard input's writer
`stdinBuffer`. -/
structure Supervisor where
  limits : FakeSessionLimits
  toVec : Value → Option Bytes
  fromSlice : Bytes → Option Value
  redactJson : Value → Value
  pipeCapacity : Nat
  stdinBuffer : Nat

inductive ProcessError where
  | capacity | io | pty | missingStream | alreadyExited | missingProcessId | termination
  deriving DecidableEq, Repr

def ProcessError.category : ProcessError → String
  | .capacity => "capacity"
  | .io => "io"
  | .pty => "pty"
  | .missingStream => "missing_stream"
  | .alreadyExited => "already_exited"
  | .missingProcessId => "missing_process_id"
  | .termination => "termination"

def safeProcessError (error : ProcessError) (operation : String) : MaestroError :=
  { MaestroError.new .processCrashed "the fake CLI process operation failed" with
    details := some (.object [("category", .string error.category),
      ("operation", .string operation)]) }

/-! The child process of a run. -/

inductive Purpose where
  | response (requestId : String) (kind : PendingKind) (registration : Nat)
  | cancellation (requestId : String) (kind : PendingKind) (registration : Nat)
  | action (actionId : String)
  deriving DecidableEq, Repr

def Purpose.registration : Purpose → Option Nat
  | .response _ _ registration | .cancellation _ _ registration => some registration
  | .action _ => none

def Purpose.key : Purpose → PendingKey
  | .response requestId kind _ | .cancellation requestId kind _ => (requestId, kind)
  | .action actionId => (actionId, .guiAction)

/-- `buffered` and `direct` wait in the writer, `sent` went into the pipe and the
child has read the first `consumed` bytes of it. -/
structure Stdin where
  buffered : Bytes
  direct : Bytes
  sent : Bytes
  consumed : Nat
  deriving DecidableEq, Repr

def Stdin.unsent (s : Stdin) : Bytes := s.buffered ++ s.direct

def Stdin.free (capacity : Nat) (s : Stdin) : Nat := capacity - (s.sent.length - s.consumed)

/-- Bytes that fit the buffer are copied into it as soon as the older ones left. -/
def Stdin.settle (buffer : Nat) (s : Stdin) : Stdin :=
  if s.buffered = [] ∧ s.direct.length < buffer then { s with buffered := s.direct, direct := [] }
  else s

def Stdin.offer (buffer : Nat) (s : Stdin) (bytes : Bytes) : Stdin :=
  if s.buffered.length + bytes.length > buffer ∨ buffer ≤ bytes.length then
    Stdin.settle buffer { s with direct := bytes }
  else { s with buffered := s.buffered ++ bytes }

def Stdin.pump (capacity buffer count : Nat) (s : Stdin) : Option Stdin :=
  if 0 < count ∧ count ≤ s.free capacity ∧ count ≤ s.unsent.length then
    some (Stdin.settle buffer { s with
      buffered := s.buffered.drop count
      direct := s.direct.drop (count - s.buffered.length)
      sent := s.sent ++ s.unsent.take count })
  else none

inductive LockUse where | write | stop | failure | wait | launch
  deriving DecidableEq, Repr

structure Process where
  locked : Option LockUse
  stdin : Option Stdin
  readEndOpen : Bool
  flushing : Bool
  outcome : Option (Except ProcessError ExitCause)
  sealed : Bool
  stderrFailed : Option Bool
  lines : List Purpose
  frames : List Value

def Process.spawned : Process :=
  ⟨none, some ⟨[], [], [], 0⟩, true, false, none, false, none, [], []⟩

structure RawCapture where
  bytes : Bytes
  observedByteCount : Nat
  truncated : Bool
  complete : Bool
  deriving DecidableEq, Repr

def RawCapture.push (limit : Nat) (capture : RawCapture) (input : Bytes) : RawCapture :=
  let observed := min (capture.observedByteCount + input.length) u64Max
  let retained := min (limit - capture.bytes.length) input.length
  { capture with
    bytes := capture.bytes ++ input.take retained
    observedByteCount := observed
    truncated := capture.truncated || decide (observed = u64Max ∧ input.length ≠ 0) ||
      decide (retained < input.length) }

structure BoundedBytes where
  bytes : Bytes
  truncated : Bool
  deriving DecidableEq, Repr

def BoundedBytes.push (limit : Nat) (b : BoundedBytes) (data : Bytes) : BoundedBytes :=
  if limit = 0 then { b with truncated := b.truncated || decide (data ≠ []) }
  else if data.length ≥ limit then ⟨data.drop (data.length - limit), true⟩
  else
    let all := b.bytes ++ data
    ⟨all.drop (all.length - limit), b.truncated || decide (limit < all.length)⟩

structure RunControl where
  session : SessionId
  leaseToken : LeaseToken
  leasedBinding : Option String
  process : Process
  pending : PendingTracker
  stopRequested : Bool
  finalized : Bool
  rawCapture : Option RawCapture

def RunControl.new (sup : Supervisor) (session : SessionId) (token : LeaseToken)
    (binding : Option String) (capture : Bool) : RunControl where
  session := session
  leaseToken := token
  leasedBinding := binding
  process := .spawned
  pending := .new sup.limits.pendingRequests
  stopRequested := false
  finalized := false
  rawCapture := if capture then some ⟨[], 0, false, false⟩ else none

inductive StreamRead where
  | failed
  | data (bytes : Bytes)
  deriving DecidableEq, Repr

inductive RunCall where
  | tracker (call : PendingTracker.Call)
  | leaseToken
  | loadFinalized
  | swapFinalized
  | loadStopRequested
  | swapStopRequested
  | leasedBinding
  | setLeasedBinding (binding : String)
  | takeLeasedBinding
  | lock (use : LockUse)
  | unlock
  | stdinWrite (bytes : Bytes) (purpose : Purpose)
  | awaitFlush
  | completedResult
  | signalGroup
  | waitWithin
  | sealGroup
  | waitExit
  | readStdout
  | beginFrame (value : Value)
  | capture (bytes : Bytes)
  | completeCapture
  | readCapture
  | readStderr
  | stderrDone (failed : Bool)
  | joinStderr

@[reducible] def RunCall.Answer : RunCall → Type
  | .tracker call => call.Answer
  | .leaseToken => LeaseToken
  | .readCapture => Option RawCapture
  | .loadFinalized | .swapFinalized | .loadStopRequested | .swapStopRequested => Bool
  | .leasedBinding | .takeLeasedBinding => Option String
  | .stdinWrite .. | .awaitFlush | .joinStderr => Bool
  | .completedResult | .waitWithin => Option (Except ProcessError ExitCause)
  | .signalGroup | .sealGroup => Except ProcessError Unit
  | .waitExit => Except ProcessError ExitCause
  | .readStdout | .readStderr => StreamRead
  | .setLeasedBinding _ | .lock _ | .unlock | .beginFrame _ | .capture _ | .completeCapture
  | .stderrDone _ => Unit

/-- What the environment decides in an event; every other action ignores it. -/
inductive Choice where
  | go
  | io (ok : Bool)
  | stream (read : StreamRead)
  | id (text : String)
  | pid (processId : Nat)

section RunSemantics
variable (sup : Supervisor)

def RunControl.perform (now : Instant) (choice : Choice) (r : RunControl) :
    (call : RunCall) → Option (call.Answer × RunControl)
  | .tracker call =>
      let done := r.pending.perform now call
      some (done.1, { r with pending := done.2 })
  | .leaseToken => some (r.leaseToken, r)
  | .loadFinalized => some (r.finalized, r)
  | .swapFinalized => some (r.finalized, { r with finalized := true })
  | .loadStopRequested => some (r.stopRequested, r)
  | .swapStopRequested => some (r.stopRequested, { r with stopRequested := true })
  | .leasedBinding => some (r.leasedBinding, r)
  | .setLeasedBinding binding => some ((), { r with leasedBinding := some binding })
  | .takeLeasedBinding => some (r.leasedBinding, { r with leasedBinding := none })
  | .lock use =>
      match r.process.locked with
      | none => some ((), { r with process := { r.process with locked := some use } })
      | some _ => none
  | .unlock => some ((), { r with process := { r.process with locked := none } })
  | .stdinWrite bytes purpose =>
      match r.process.stdin with
      | none => some (false, r)
      | some stdin => some (true, { r with process := { r.process with
          stdin := some (stdin.offer sup.stdinBuffer bytes)
          flushing := true
          lines := r.process.lines ++ [purpose] } })
  | .awaitFlush =>
      match r.process.stdin with
      | none => none
      | some stdin =>
          if stdin.unsent = [] then
            some (true, { r with process := { r.process with flushing := false } })
          else if r.process.readEndOpen then none
          else some (false, { r with process := { r.process with
            flushing := false
            stdin := some { stdin with direct := [] } } })
  | .completedResult => some (r.process.outcome, r)
  | .signalGroup =>
      match choice with
      | .io true => some (.ok (), r)
      | .io false => some (.error .termination, r)
      | _ => none
  | .waitWithin => some (r.process.outcome, r)
  | .sealGroup =>
      match choice with
      | .io true => some (.ok (), { r with process := { r.process with sealed := true } })
      | .io false => some (.error .termination, r)
      | _ => none
  | .waitExit =>
      match r.process.outcome with
      | none => none
      | some result => some (result, r)
  | .readStdout =>
      match choice with
      | .stream read => some (read, r)
      | _ => none
  | .beginFrame value =>
      some ((), { r with process := { r.process with frames := r.process.frames ++ [value] } })
  | .capture bytes => some ((), { r with
      rawCapture := r.rawCapture.map (fun c => c.push sup.limits.maximumRawProtocolBytes bytes) })
  | .completeCapture => some ((), { r with
      rawCapture := r.rawCapture.map (fun c => { c with complete := true }) })
  | .readCapture => some (r.rawCapture, r)
  | .readStderr =>
      match choice with
      | .stream read => some (read, r)
      | _ => none
  | .stderrDone failed =>
      some ((), { r with process := { r.process with stderrFailed := some failed } })
  | .joinStderr =>
      match r.process.stderrFailed with
      | none => none
      | some failed => some (failed, r)

end RunSemantics

/-! The record of a logical session. -/

structure SessionData where
  state : SessionState
  binding : Option String
  activeRun : Option RunId
  lastExit : Option ExitCause
  lastError : Option MaestroError

structure Completion where
  state : SessionState
  exit : Option ExitCause
  error : Option MaestroError

/-- `installed` and `completions` are the histories of the writes that made a run
active and ended it. -/
structure SessionRecord where
  launching : Bool
  data : SessionData
  events : EventLog
  stderr : BoundedBytes
  rawCapture : Option RunId
  subscriptions : RunId → Option FakeSessionSubscription
  installed : List RunId
  completions : List (RunId × Completion)

def SessionRecord.new : SessionRecord :=
  ⟨false, ⟨.created, none, none, none, none⟩, .empty, ⟨[], false⟩, none, fun _ => none, [], []⟩

structure FakeSessionSnapshot where
  activeRunId : Option RunId
  state : SessionState
  binding : Option String
  latestSequence : Nat
  droppedThroughSequence : Nat
  stderr : Bytes
  stderrTruncated : Bool
  lastExit : Option ExitCause
  lastError : Option MaestroError

inductive SessionCall where
  | activeRun (run : RunId)
  | resumeBinding (requested : Option String)
  | setState (target : SessionState)
  | readState
  | beginLaunch
  | endLaunch
  | resetStderr
  | resetLaunch (binding : Option String)
  | install (run : RunId)
  | setRawCapture (run : Option RunId)
  | setBinding (binding : String)
  | launchFailure (error : MaestroError)
  | protocolFailure (state : SessionState) (error : MaestroError)
  | finalize (run : RunId) (completion : Completion)
  | publish (run : Option RunId) (source : EventSource) (event : NormalizedEvent)
  | snapshot
  | rawCaptureRun
  | subscribe (run : RunId) (afterSequence : Nat)
  | recv (run : RunId)
  | pushStderr (bytes : Bytes)

@[reducible] def SessionCall.Answer : SessionCall → Type
  | .activeRun _ => Except MaestroError Unit
  | .resumeBinding _ => Except MaestroError (Option String)
  | .readState => SessionState
  | .beginLaunch | .install _ => Bool
  | .publish .. => Except MaestroError EventEnvelope
  | .snapshot => FakeSessionSnapshot
  | .rawCaptureRun => Option RunId
  | .subscribe .. => Except MaestroError Unit
  | .recv _ => Except FakeSubscriptionError EventEnvelope
  | .setState _ | .endLaunch | .resetStderr | .resetLaunch _ | .setRawCapture _ | .setBinding _
  | .launchFailure _ | .protocolFailure .. | .finalize .. | .pushStderr _ => Unit

def resumeBinding (data : SessionData) (requested : Option String) :
    Except MaestroError (Option String) :=
  if data.activeRun.isSome then
    .error (invalidRequest "the logical session already has an active writer")
  else
    match data.binding, requested with
    | some stored, some asked =>
        if stored ≠ asked then
          .error (invalidRequest "the requested binding does not match the logical session")
        else .ok (some stored)
    | some stored, none => .ok (some stored)
    | none, requested => .ok requested

def SessionRecord.snapshot (r : SessionRecord) : FakeSessionSnapshot where
  activeRunId := r.data.activeRun
  state := r.data.state
  binding := r.data.binding
  latestSequence := r.events.latestSequence
  droppedThroughSequence := r.events.droppedThroughSequence
  stderr := r.stderr.bytes
  stderrTruncated := r.stderr.truncated
  lastExit := r.data.lastExit
  lastError := r.data.lastError

section SessionSemantics
variable (sup : Supervisor)

def SessionRecord.perform (session : SessionId) (r : SessionRecord) :
    (call : SessionCall) → Option (call.Answer × SessionRecord)
  | .activeRun run =>
      some (if r.data.activeRun = some run then .ok ()
        else .error (invalidRequest "the requested run is not active in this session"), r)
  | .resumeBinding requested => some (resumeBinding r.data requested, r)
  | .setState target =>
      some ((), { r with data := { r.data with state := r.data.state.setTo target } })
  | .readState => some (r.data.state, r)
  | .beginLaunch => some (!r.launching, { r with launching := true })
  | .endLaunch => some ((), { r with launching := false })
  | .resetStderr => some ((), { r with stderr := ⟨[], false⟩ })
  | .resetLaunch binding => some ((), { r with data := { r.data with
      lastExit := none
      lastError := none
      binding := if binding.isSome then binding else r.data.binding } })
  | .install run =>
      if r.data.activeRun.isSome then some (false, r)
      else some (true, { r with
        data := { r.data with activeRun := some run }
        installed := r.installed ++ [run] })
  | .setRawCapture run => some ((), { r with rawCapture := run })
  | .setBinding binding => some ((), { r with data := { r.data with binding := some binding } })
  | .launchFailure error =>
      some ((), { r with data := { r.data with state := .failed, lastError := some error } })
  | .protocolFailure state error =>
      some ((), { r with data := { r.data with state := state, lastError := some error } })
  | .finalize run completion => some ((), { r with
      data := { r.data with
        activeRun := if r.data.activeRun = some run then none else r.data.activeRun
        state := completion.state
        lastExit := completion.exit
        lastError := if completion.error.isSome then completion.error else r.data.lastError }
      completions := r.completions ++ [(run, completion)] })
  | .publish run source event =>
      match r.events.publish sup.limits.replayEvents session run source event with
      | none => some (.error (.new .internal "session sequence exhausted"), r)
      | some (envelope, events) => some (.ok envelope, { r with events := events })
  | .snapshot => some (r.snapshot, r)
  | .rawCaptureRun => some (r.rawCapture, r)
  | .subscribe run afterSequence =>
      match r.events.subscribe afterSequence with
      | none => some (.error (invalidRequest
          "the replay cursor is newer than the session event stream"), r)
      | some subscription => some (.ok (), { r with
          subscriptions := Function.update r.subscriptions run (some subscription) })
  | .recv run =>
      match r.subscriptions run with
      | none => none
      | some subscription =>
          match subscription.recv (channelSlots sup.limits.broadcastEvents) r.events with
          | none => none
          | some (event, rest) => some (event, { r with
              subscriptions := Function.update r.subscriptions run (some rest) })
  | .pushStderr bytes => some ((), { r with stderr := r.stderr.push sup.limits.stderrBytes bytes })

end SessionSemantics

inductive PersistedRunExit where
  | exited (code : Int)
  | signaled (signal : Int)
  | unknown
  deriving DecidableEq, Repr

abbrev Recovery := Option (ErrorCode × String)

structure FinishedRun where
  state : SessionState
  exit : PersistedRunExit
  recovery : Recovery
  deriving DecidableEq, Repr

/-- `finished` lists every write of `finish_run` to the row, the last one on top. -/
structure RunRow where
  session : SessionId
  finished : List FinishedRun

structure Storage where
  sessionStates : SessionId → Option SessionState
  runs : RunId → Option RunRow
  events : List EventEnvelope
  rawCaptures : RunId → Option RawCapture

inductive StoreCall where
  | startSessionRun (session : SessionId) (run : RunId)
  | persistEvent (event : EventEnvelope)
  | updateSessionState (session : SessionId) (state : SessionState)
  | persistRawCapture (run : RunId) (capture : RawCapture)
  | finishSessionRun (session : SessionId) (run : RunId) (finish : FinishedRun)

namespace Storage

def empty : Storage := ⟨fun _ => none, fun _ => none, [], fun _ => none⟩

def Admits (s : Storage) (event : EventEnvelope) : Prop :=
  (∀ row ∈ s.events, row.sessionId = event.sessionId → row.sequence ≠ event.sequence) ∧
  (s.sessionStates event.sessionId).isSome ∧
  (∀ run ∈ event.runId, (s.runs run).isSome)
instance (s : Storage) (event) : Decidable (s.Admits event) := by unfold Admits; infer_instance

/-- `healthy` is false when the database call itself fails. -/
def perform (healthy : Bool) (s : Storage) : StoreCall → Bool × Storage
  | .startSessionRun session run =>
      if healthy ∧ (s.runs run).isNone then
        (true, { s with
          sessionStates := Function.update s.sessionStates session (some .starting)
          runs := Function.update s.runs run (some ⟨session, []⟩) })
      else (false, s)
  | .persistEvent event =>
      if healthy ∧ s.Admits event then (true, { s with events := s.events ++ [event] })
      else (false, s)
  | .updateSessionState session state =>
      if healthy ∧ (s.sessionStates session).isSome then
        (true, { s with sessionStates := Function.update s.sessionStates session (some state) })
      else (false, s)
  | .persistRawCapture run capture =>
      if healthy then (true, { s with rawCaptures := Function.update s.rawCaptures run (some capture) })
      else (false, s)
  | .finishSessionRun session run finish =>
      if healthy ∧ (s.sessionStates session).isSome then
        let updated := { s with
          sessionStates := Function.update s.sessionStates session (some finish.state) }
        match s.runs run with
        | none => (false, updated)
        | some row => (true, { updated with
            runs := Function.update s.runs run (some { row with finished := finish :: row.finished }) })
      else (false, s)

end Storage

structure BindingWriter where
  token : LeaseToken
  session : SessionId
  deriving DecidableEq, Repr

structure ProcessSpec where
  executable : String
  workingDirectory : String
  arguments : List String
  deriving DecidableEq, Repr

structure LaunchRequest where
  executable : String
  scenario : String
  cwd : String
  binding : Option String
  volume : Option Nat
  captureRawProtocol : Bool
  deriving DecidableEq, Repr

inductive PermissionDecision where | allow | deny | cancel
  deriving DecidableEq, Repr

inductive Entry where
  | start (request : LaunchRequest)
  | resume (session : SessionId) (request : LaunchRequest)
  | respondPermission (session : SessionId) (run : RunId) (requestId : String)
      (decision : PermissionDecision)
  | respondUserInput (session : SessionId) (run : RunId) (requestId : String) (value : Value)
  | sendGuiAction (session : SessionId) (run : RunId) (action : String) (payload : Value)
  | stop (session : SessionId) (run : RunId)
  | expiry (session : SessionId) (run : RunId) (requestId : String) (kind : PendingKind)
      (deadline : Instant)
  | stderrReader (session : SessionId) (run : RunId)
  | supervise (session : SessionId) (run : RunId)
  | stdoutReader (session : SessionId) (run : RunId) (decoder : JsonLineDecoder)
  | finish (session : SessionId) (run : RunId) (failure : Option ProtocolFailure)
  | monitor (session : SessionId) (run : RunId) (afterSequence : Nat)
  | monitorLoop (session : SessionId) (run : RunId) (lastPersisted : Option SessionState)

inductive Act where
  | now
  | sleepUntil (deadline : Instant)
  | fresh
  | newActionId
  | spawn (entry : Entry)
  | answer (result : Except MaestroError Unit)
  | createSession
  | findSession (session : SessionId)
  | removeSession (session : SessionId)
  | claimBinding (binding : String) (token : LeaseToken) (session : SessionId)
  | releaseBinding (binding : String) (token : LeaseToken)
  | spawnStructured (session : SessionId) (run : RunId) (token : LeaseToken)
      (binding : Option String) (capture : Bool) (spec : ProcessSpec)
  | takeStream (run : RunId)
  | session (id : SessionId) (call : SessionCall)
  | run (id : RunId) (call : RunCall)
  | store (call : StoreCall)

@[reducible] def Act.Answer : Act → Type
  | .now => Instant
  | .fresh => Nat
  | .newActionId => String
  | .createSession => Except MaestroError SessionId
  | .findSession _ | .claimBinding .. => Except MaestroError Unit
  | .spawnStructured .. => Except ProcessError Nat
  | .takeStream _ => Except ProcessError Unit
  | .session _ call => call.Answer
  | .run _ call => call.Answer
  | .store _ => Bool
  | .sleepUntil _ | .spawn _ | .answer _ | .removeSession _ | .releaseBinding .. => Unit

abbrev actions : Interleaving.Actions := ⟨Act, Act.Answer⟩

/-- `listed` are the keys of the session table; a record outlives its key for the
tasks that hold it. -/
structure Memory where
  now : Instant
  fresh : Nat
  listed : List SessionId
  sessions : SessionId → Option SessionRecord
  runs : RunId → Option RunControl
  bindingWriters : AList (fun _ : String => BindingWriter)
  storage : Storage

def Memory.initial : Memory := ⟨0, 0, [], fun _ => none, fun _ => none, ∅, .empty⟩

def sessionNotFound (session : SessionId) : MaestroError :=
  { MaestroError.new .sessionNotFound "fake session does not exist" with
    details := some (.object [("session_id", .number (.posInt session))]) }

def claimBinding (writers : AList (fun _ : String => BindingWriter)) (binding : String)
    (token : LeaseToken) (session : SessionId) :
    Except MaestroError Unit × AList (fun _ : String => BindingWriter) :=
  match validateIdentifier binding "vendor binding" with
  | .error error => (.error error, writers)
  | .ok () =>
      match writers.lookup binding with
      | some owner => (.error { invalidRequest "the vendor binding already has an active writer" with
          details := some (.object [("binding", .string binding),
            ("owner_session_id", .number (.posInt owner.session))]) }, writers)
      | none => (.ok (), writers.insert binding ⟨token, session⟩)

def releaseBinding (writers : AList (fun _ : String => BindingWriter)) (binding : String)
    (token : LeaseToken) : AList (fun _ : String => BindingWriter) :=
  match writers.lookup binding with
  | some owner => if owner.token = token then writers.erase binding else writers
  | none => writers

section Semantics
variable (sup : Supervisor)

def apply (o : Act) (choice : Choice) (m : Memory) : Option (o.Answer × Memory) :=
  match o with
  | .now => some (m.now, m)
  | .sleepUntil deadline => if deadline ≤ m.now then some ((), m) else none
  | .fresh => some (m.fresh, { m with fresh := m.fresh + 1 })
  | .newActionId =>
      match choice with
      | .id text => some (text, m)
      | _ => none
  | .spawn _ => some ((), m)
  | .answer _ => some ((), m)
  | .createSession =>
      if m.listed.length ≥ sup.limits.maximumSessions then
        some (.error (invalidRequest "fake-session retention limit has been reached"), m)
      else some (.ok m.fresh, { m with
        fresh := m.fresh + 1
        listed := m.listed ++ [m.fresh]
        sessions := Function.update m.sessions m.fresh (some .new) })
  | .findSession session =>
      some (if session ∈ m.listed then .ok () else .error (sessionNotFound session), m)
  | .removeSession session => some ((), { m with listed := m.listed.filter (· ≠ session) })
  | .claimBinding binding token session =>
      let done := claimBinding m.bindingWriters binding token session
      some (done.1, { m with bindingWriters := done.2 })
  | .releaseBinding binding token =>
      some ((), { m with bindingWriters := releaseBinding m.bindingWriters binding token })
  | .spawnStructured session run token binding capture _ =>
      match choice with
      | .pid processId => some (.ok processId, { m with
          runs := Function.update m.runs run (some (.new sup session token binding capture)) })
      | .io false => some (.error .io, m)
      | _ => none
  | .takeStream _ =>
      match choice with
      | .io true => some (.ok (), m)
      | .io false => some (.error .missingStream, m)
      | _ => none
  | .session id call =>
      match m.sessions id with
      | none => none
      | some record =>
          match record.perform sup id call with
          | none => none
          | some (answer, record) =>
              some (answer, { m with sessions := Function.update m.sessions id (some record) })
  | .run id call =>
      match m.runs id with
      | none => none
      | some control =>
          match control.perform sup m.now choice call with
          | none => none
          | some (answer, control) =>
              some (answer, { m with runs := Function.update m.runs id (some control) })
  | .store call =>
      match choice with
      | .io healthy =>
          let done := m.storage.perform healthy call
          some (done.1, { m with storage := done.2 })
      | _ => none

example (m : Memory) (process : Nat) : apply sup .newActionId (.pid process) m = none := by
  simp only [apply]

inductive Outside where
  | tick (elapsed : Nat)
  | pump (run : RunId) (count : Nat)
  | childReads (run : RunId) (count : Nat)
  | childClosesStdin (run : RunId)
  | childExits (run : RunId) (outcome : Except ProcessError ExitCause)

def Process.outside (p : Process) : Outside → Option Process
  | .tick _ => none
  | .pump _ count =>
      if p.flushing ∧ p.readEndOpen then do
        let stdin ← p.stdin
        let pumped ← stdin.pump sup.pipeCapacity sup.stdinBuffer count
        some { p with stdin := some pumped }
      else none
  | .childReads _ count => do
      let stdin ← p.stdin
      if p.readEndOpen ∧ stdin.consumed + count ≤ stdin.sent.length then
        some { p with stdin := some { stdin with consumed := stdin.consumed + count } }
      else none
  | .childClosesStdin _ => some { p with readEndOpen := false }
  | .childExits _ outcome =>
      match p.outcome with
      | some _ => none
      | none => some { p with outcome := some outcome, readEndOpen := false }

def Outside.run : Outside → Option RunId
  | .tick _ => none
  | .pump run _ | .childReads run _ | .childClosesStdin run | .childExits run _ => some run

def outside (x : Outside) (m : Memory) : Option Memory :=
  match x, x.run with
  | .tick elapsed, _ => some { m with now := m.now + elapsed }
  | _, none => none
  | x, some run => do
      let control ← m.runs run
      let process ← control.process.outside sup x
      some { m with runs := Function.update m.runs run (some { control with process := process }) }

variable {sup}

theorem applySession {id call choice} {m m' : Memory} {answer : SessionCall.Answer call}
    (h : apply sup (.session id call) choice m = some (answer, m')) :
    ∃ record record', m.sessions id = some record ∧
      record.perform sup id call = some (answer, record') ∧
      m' = { m with sessions := Function.update m.sessions id (some record') } := by
  simp only [apply] at h
  split at h
  · contradiction
  · rename_i record found
    split at h
    · contradiction
    · rename_i answer record' performed
      cases Option.some.inj h
      exact ⟨record, record', found, performed, rfl⟩

theorem applyRun {id call choice} {m m' : Memory} {answer : RunCall.Answer call}
    (h : apply sup (.run id call) choice m = some (answer, m')) :
    ∃ control control', m.runs id = some control ∧
      control.perform sup m.now choice call = some (answer, control') ∧
      m' = { m with runs := Function.update m.runs id (some control') } := by
  simp only [apply] at h
  split at h
  · contradiction
  · rename_i control found
    split at h
    · contradiction
    · rename_i answer control' performed
      cases Option.some.inj h
      exact ⟨control, control', found, performed, rfl⟩

theorem applyStore {call choice} {m m' : Memory} {answer : Bool}
    (h : apply sup (.store call) choice m = some (answer, m')) :
    ∃ healthy, choice = .io healthy ∧ answer = (m.storage.perform healthy call).1 ∧
      m' = { m with storage := (m.storage.perform healthy call).2 } := by
  simp only [apply] at h
  split at h
  · rename_i healthy
    cases Option.some.inj h
    exact ⟨healthy, rfl, rfl, rfl⟩
  · contradiction

theorem sessionsKept {o choice} {m m' : Memory} {answer : o.Answer}
    (h : apply sup o choice m = some (answer, m')) {session} (old : o ≠ .createSession)
    (elsewhere : ∀ call, o ≠ .session session call) : m'.sessions session = m.sessions session := by
  cases o with
  | createSession => exact absurd rfl old
  | session id call =>
    obtain ⟨record, record', _, _, rfl⟩ := applySession h
    have different : session ≠ id := fun same => elsewhere call (by rw [same])
    simp [Function.update, different]
  | run id call =>
    obtain ⟨control, control', _, _, rfl⟩ := applyRun h
    rfl
  | store call =>
    obtain ⟨healthy, rfl, rfl, rfl⟩ := applyStore h
    rfl
  | sleepUntil | newActionId | spawnStructured | takeStream =>
    simp only [apply] at h
    split at h <;> first | contradiction | (cases Option.some.inj h; rfl)
  | now | fresh | spawn | answer | findSession | removeSession | claimBinding | releaseBinding =>
    cases Option.some.inj h
    rfl

theorem runsKept {o choice} {m m' : Memory} {answer : o.Answer}
    (h : apply sup o choice m = some (answer, m')) {run}
    (unspawned : ∀ session token binding capture spec,
      o ≠ .spawnStructured session run token binding capture spec)
    (elsewhere : ∀ call, o ≠ .run run call) : m'.runs run = m.runs run := by
  cases o with
  | spawnStructured session id token binding capture spec =>
    have different : run ≠ id := fun same => unspawned session token binding capture spec (by rw [same])
    simp only [apply] at h
    split at h <;> first | contradiction | (cases Option.some.inj h; simp [Function.update, different])
  | session id call =>
    obtain ⟨record, record', _, _, rfl⟩ := applySession h
    rfl
  | run id call =>
    obtain ⟨control, control', _, _, rfl⟩ := applyRun h
    have different : run ≠ id := fun same => elsewhere call (by rw [same])
    simp [Function.update, different]
  | store call =>
    obtain ⟨healthy, rfl, rfl, rfl⟩ := applyStore h
    rfl
  | sleepUntil | newActionId | takeStream | createSession =>
    simp only [apply] at h
    split at h <;> first | contradiction | (cases Option.some.inj h; rfl)
  | now | fresh | spawn | answer | findSession | removeSession | claimBinding | releaseBinding =>
    cases Option.some.inj h
    rfl

theorem updatedSelf {β : Type} {table : Nat → Option β} {key : Nat} {old new : β}
    (h : Function.update table key (some new) key = some old) : old = new := by
  rw [Function.update_self] at h
  exact (Option.some.inj h).symm

theorem updatedControl {m : Memory} {run : RunId} {control : RunControl} {r control'}
    (h : Function.update m.runs run (some control) r = some control') :
    (r = run ∧ control' = control) ∨ (r ≠ run ∧ m.runs r = some control') := by
  by_cases same : r = run
  · subst same
    rw [Function.update_self] at h
    exact .inl ⟨rfl, (Option.some.inj h).symm⟩
  · rw [Function.update_of_ne same] at h
    exact .inr ⟨same, h⟩

theorem controlCases {o choice} {m m' : Memory} {answer : o.Answer}
    (h : apply sup o choice m = some (answer, m')) {run control'} (found : m'.runs run = some control') :
    m.runs run = some control' ∨
    (∃ call control, ∃ answer : call.Answer, o = .run run call ∧ m.runs run = some control ∧
      control.perform sup m.now choice call = some (answer, control')) ∨
    ∃ session token binding capture spec,
      o = .spawnStructured session run token binding capture spec ∧
      control' = .new sup session token binding capture := by
  cases o with
  | run id call =>
    obtain ⟨control, control₁, before, performed, rfl⟩ := applyRun h
    rcases updatedControl found with ⟨rfl, rfl⟩ | ⟨_, old⟩
    · exact .inr (.inl ⟨call, control, answer, rfl, before, performed⟩)
    · exact .inl old
  | spawnStructured session id token binding capture spec =>
    simp only [apply] at h
    split at h
    · cases Option.some.inj h
      rcases updatedControl found with ⟨rfl, rfl⟩ | ⟨_, old⟩
      · exact .inr (.inr ⟨session, token, binding, capture, spec, rfl, rfl⟩)
      · exact .inl old
    · cases Option.some.inj h
      exact .inl found
    · contradiction
  | _ => exact .inl ((runsKept h (by simp) (by simp)).symm.trans found)

theorem recordCases {o choice} {m m' : Memory} {answer : o.Answer}
    (h : apply sup o choice m = some (answer, m')) {session record'}
    (found : m'.sessions session = some record') :
    m.sessions session = some record' ∨
    (∃ call record, ∃ answer : call.Answer, o = .session session call ∧
      m.sessions session = some record ∧ record.perform sup session call = some (answer, record')) ∨
    (o = .createSession ∧ record' = .new) := by
  have updated : ∀ {id : SessionId} {record₁ : SessionRecord},
      Function.update m.sessions id (some record₁) session = some record' →
      (session = id ∧ record' = record₁) ∨ m.sessions session = some record' := by
    intro id record₁ found
    by_cases same : session = id
    · subst same
      rw [Function.update_self] at found
      exact .inl ⟨rfl, (Option.some.inj found).symm⟩
    · rw [Function.update_of_ne same] at found
      exact .inr found
  cases o with
  | session id call =>
    obtain ⟨record, record₁, before, performed, rfl⟩ := applySession h
    rcases updated found with ⟨rfl, rfl⟩ | old
    · exact .inr (.inl ⟨call, record, answer, rfl, before, performed⟩)
    · exact .inl old
  | createSession =>
    simp only [apply] at h
    split at h <;> cases Option.some.inj h
    · exact .inl found
    · rcases updated found with ⟨_, rfl⟩ | old
      · exact .inr (.inr ⟨rfl, rfl⟩)
      · exact .inl old
  | _ => exact .inl ((sessionsKept h (by simp) (by simp)).symm.trans found)

theorem pendingKept {now choice call} {c c' : RunControl} {answer : RunCall.Answer call}
    (h : c.perform sup now choice call = some (answer, c')) (other : ∀ call', call ≠ .tracker call') :
    c'.pending = c.pending := by
  cases call with
  | tracker call => exact absurd rfl (other call)
  | _ =>
    simp only [RunControl.perform] at h
    repeat' split at h
    all_goals first | contradiction | (cases Option.some.inj h; rfl)

theorem outsideCases {x} {m m' : Memory} (h : outside sup x m = some m') :
    (∃ elapsed, x = .tick elapsed ∧ m' = { m with now := m.now + elapsed }) ∨
    ∃ run control process, x.run = some run ∧ m.runs run = some control ∧
      control.process.outside sup x = some process ∧
      m' = { m with runs :=
        Function.update m.runs run (some { control with process := process }) } := by
  have controlled : ∀ run, x.run = some run → (do
      let control ← m.runs run
      let process ← control.process.outside sup x
      some { m with runs :=
        Function.update m.runs run (some { control with process := process }) }) = some m' →
      ∃ run control process, x.run = some run ∧ m.runs run = some control ∧
        control.process.outside sup x = some process ∧
        m' = { m with runs :=
          Function.update m.runs run (some { control with process := process }) } := by
    intro run named h
    simp only [Option.bind_eq_bind, Option.bind_eq_some_iff] at h
    obtain ⟨control, found, process, stepped, same⟩ := h
    exact ⟨run, control, process, named, found, stepped, (Option.some.inj same).symm⟩
  cases x with
  | tick elapsed => exact .inl ⟨elapsed, rfl, (Option.some.inj h).symm⟩
  | pump run count => exact .inr (controlled run rfl h)
  | childReads run count => exact .inr (controlled run rfl h)
  | childClosesStdin run => exact .inr (controlled run rfl h)
  | childExits run outcome => exact .inr (controlled run rfl h)

end Semantics
end Maestro.Session
