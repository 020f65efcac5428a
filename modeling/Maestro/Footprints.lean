import Maestro.SessionTasks

/-! Which actions each function can take. A protocol that such actions leave alone
needs nothing else of the function. -/
namespace Maestro.Session
open Interleaving Prog

def CalmCall : RunCall → Prop
  | .tracker .waitingState => True
  | .loadFinalized | .loadStopRequested | .swapStopRequested | .lock .stop | .unlock
  | .completedResult | .signalGroup | .waitWithin | .sealGroup | .waitExit => True
  | _ => False

def DeliveryCall : RunCall → Prop
  | .tracker (.register _ kind _) => kind = .guiAction
  | .tracker (.claimActive ..) | .tracker (.restoreInFlight ..) | .tracker (.resolveInFlight ..)
  | .tracker (.markDeliveryUncertain ..) | .tracker (.forceResolve ..) | .tracker (.expire ..)
  | .lock .write | .stdinWrite .. | .awaitFlush => True
  | _ => False

def CalmAct (session : SessionId) (run : RunId) : Act → Prop
  | .now | .sleepUntil _ | .newActionId | .findSession _ => True
  | .spawn (.expiry s r _ _ _) => s = session ∧ r = run
  | .session s (.activeRun _) | .session s (.setState _) => s = session
  | .session s (.publish r _ _) => s = session ∧ r = some run
  | .run r call => r = run ∧ CalmCall call
  | _ => False

def GuestAct (session : SessionId) (run : RunId) (o : Act) : Prop :=
  CalmAct session run o ∨ ∃ call, o = .run run call ∧ DeliveryCall call

def ReaderCall : RunCall → Prop
  | .tracker (.register _ kind _) => kind ≠ .guiAction
  | .tracker (.confirmResolved ..) | .tracker (.resolveActive ..) | .tracker .waitingState => True
  | .leaseToken | .leasedBinding | .setLeasedBinding _ | .readStdout | .beginFrame _ | .capture _ => True
  | _ => False

def ReaderAct (session : SessionId) (run : RunId) : Act → Prop
  | .now | .claimBinding .. => True
  | .spawn (.expiry s r _ _ _) => s = session ∧ r = run
  | .session s (.setState _) | .session s (.setBinding _) | .session s .readState => s = session
  | .session s (.publish r _ _) => s = session ∧ r = some run
  | .run r call => r = run ∧ ReaderCall call
  | _ => False

def FinishCall : RunCall → Prop
  | .tracker .clearActive => True
  | .lock .failure | .lock .wait | .unlock | .joinStderr | .swapFinalized | .completeCapture
  | .takeLeasedBinding | .leaseToken | .loadStopRequested | .completedResult | .signalGroup
  | .waitWithin | .sealGroup | .waitExit => True
  | _ => False

def FinishAct (session : SessionId) (run : RunId) : Act → Prop
  | .releaseBinding .. => True
  | .session s (.protocolFailure ..) => s = session
  | .session s (.finalize r _) => s = session ∧ r = run
  | .session s (.publish r _ _) => s = session ∧ r = some run
  | .run r call => r = run ∧ FinishCall call
  | _ => False

def LaunchSessionCall : SessionCall → Prop
  | .activeRun _ | .resumeBinding _ | .setState _ | .readState | .beginLaunch | .endLaunch
  | .resetStderr | .resetLaunch _ | .install _ | .setRawCapture _ | .launchFailure _ | .publish ..
  | .snapshot => True
  | _ => False

def LaunchRunCall : RunCall → Prop
  | .loadFinalized | .swapStopRequested | .lock .stop | .lock .launch | .unlock | .completedResult
  | .signalGroup | .waitWithin | .sealGroup | .waitExit => True
  | _ => False

def LaunchAct : Act → Prop
  | .fresh | .createSession | .findSession _ | .removeSession _ | .claimBinding .. | .releaseBinding ..
  | .spawnStructured .. | .takeStream _ | .store (.startSessionRun ..) | .spawn (.supervise ..)
  | .spawn (.monitor ..) | .answer _ => True
  | .session _ call => LaunchSessionCall call
  | .run _ call => LaunchRunCall call
  | _ => False

def MonitorAct (session : SessionId) (run : RunId) : Act → Prop
  | .findSession _ | .store (.persistEvent _) => True
  | .store (.updateSessionState s _) => s = session
  | .store (.persistRawCapture r _) => r = run
  | .store (.finishSessionRun s r _) => s = session ∧ r = run
  | .session s .snapshot | .session s .rawCaptureRun => s = session
  | .session s (.subscribe r _) | .session s (.recv r) => s = session ∧ r = run
  | .run r .readCapture => r = run
  | _ => False

section Footprints
variable {sup : Supervisor} {session : SessionId} {run : RunId}

theorem onlyOne {ok : Act → Prop} {o : Act} (h : ok o) : Only (A := actions) ok (.act o .done) :=
  ⟨h, fun _ => trivial⟩

theorem onRunCalm {call} (h : CalmCall call) : (onRun run call).Only (CalmAct session run) :=
  onlyOne ⟨rfl, h⟩

theorem findSessionCalm : (findSession session).Only (CalmAct session run) := onlyOne trivial

theorem setStateCalm {target} : (setState session target).Only (CalmAct session run) := onlyOne rfl

theorem publishCalm {source event} :
    (publish sup session (some run) source event).Only (CalmAct session run) := onlyOne ⟨rfl, rfl⟩

theorem refusesInputCalm : (refusesInput run).Only (CalmAct session run) := by
  refine onlyBind (onRunCalm trivial) fun finalized => ?_
  split
  · trivial
  · exact onRunCalm trivial

theorem updateWaitingStateCalm : (updateWaitingState session run).Only (CalmAct session run) :=
  onlyBind (onRunCalm trivial) fun _ => setStateCalm

theorem activeRunCalm : (activeRun session run).Only (CalmAct session run) := by
  refine onlyBind findSessionCalm fun found => ?_
  split
  · trivial
  refine onlyBind (onlyOne rfl) fun active => ?_
  split
  · trivial
  refine onlyBind (onRunCalm trivial) fun finalized => ?_
  split <;> trivial

theorem concludeDeliveryCalm {audit} :
    (concludeDelivery sup session run audit).Only (CalmAct session run) := by
  refine onlyBind updateWaitingStateCalm fun _ => onlyBind publishCalm fun published => ?_
  split <;> trivial

theorem terminateOnly {ok : Act → Prop} (calls : ok (.run run .completedResult) ∧
    ok (.run run .signalGroup) ∧ ok (.run run .waitWithin) ∧ ok (.run run .sealGroup) ∧
    ok (.run run .waitExit)) : (terminate run).Only ok := by
  obtain ⟨completed, signal, waitWithin, sealed, exit⟩ := calls
  refine onlyBind (onlyOne completed) fun result => ?_
  split
  · trivial
  refine onlyBind (onlyOne signal) fun signalled => ?_
  split
  · trivial
  refine onlyBind (onlyOne waitWithin) fun waited => ?_
  split
  · trivial
  refine onlyBind (onlyOne sealed) fun killed => ?_
  split
  · trivial
  · exact onlyOne exit

theorem terminateCalm : (terminate run).Only (CalmAct session run) :=
  terminateOnly ⟨⟨rfl, trivial⟩, ⟨rfl, trivial⟩, ⟨rfl, trivial⟩, ⟨rfl, trivial⟩, ⟨rfl, trivial⟩⟩

theorem stopCalm : (stop sup session run).Only (CalmAct session run) := by
  refine onlyBind activeRunCalm fun active => ?_
  split
  · trivial
  refine onlyBind (onRunCalm trivial) fun stopping => ?_
  split
  · trivial
  refine onlyBind setStateCalm fun _ => onlyBind publishCalm fun published => ?_
  split
  · trivial
  refine onlyBind (onRunCalm trivial) fun _ => onlyBind terminateCalm fun result =>
    onlyBind (onRunCalm trivial) fun _ => ?_
  split <;> trivial

/-! Client calls and timers that deliver a line. -/

theorem calmGuest {α : Type} {p : Program α} (calm : p.Only (CalmAct session run)) :
    p.Only (GuestAct session run) := onlyImp calm fun _ => .inl

theorem onRunGuest {call} (h : DeliveryCall call) : (onRun run call).Only (GuestAct session run) :=
  onlyOne (.inr ⟨call, rfl, h⟩)

theorem processWriteGuest {bytes purpose} :
    (processWrite run bytes purpose).Only (GuestAct session run) := by
  refine onlyBind (onRunGuest trivial) fun present => ?_
  split
  · refine onlyBind (onRunGuest trivial) fun flushed => ?_
    split <;> trivial
  · trivial

theorem writeJsonBytesGuest {bytes purpose} :
    (writeJsonBytes run bytes purpose).Only (GuestAct session run) := by
  refine onlyBind (calmGuest refusesInputCalm) fun refused => ?_
  split
  · trivial
  refine onlyBind (onRunGuest trivial) fun _ => onlyBind (calmGuest refusesInputCalm) fun refused => ?_
  split
  · exact onlyBind (calmGuest (onRunCalm trivial)) fun _ => trivial
  refine onlyBind processWriteGuest fun written =>
    onlyBind (calmGuest (onRunCalm trivial)) fun _ => ?_
  split <;> trivial

theorem writeJsonGuest {value purpose} :
    (writeJson sup run value purpose).Only (GuestAct session run) := by
  unfold writeJson
  split
  · trivial
  · refine onlyBind writeJsonBytesGuest fun written => ?_
    split <;> trivial

theorem expireRequestGuest {requestId kind} :
    (expireRequest sup session run requestId kind).Only (GuestAct session run) := by
  refine onlyBind (calmGuest (onRunCalm trivial)) fun finalized => ?_
  split
  · trivial
  refine onlyBind (onRunGuest trivial) fun expired => ?_
  split
  · trivial
  refine onlyBind (calmGuest publishCalm) fun _ => ?_
  split
  · exact onlyBind writeJsonGuest fun _ => calmGuest updateWaitingStateCalm
  · exact calmGuest updateWaitingStateCalm

theorem restoreAndExpireGuest {requestId kind} :
    (restoreAndExpire sup session run requestId kind).Only (GuestAct session run) := by
  refine onlyBind (onRunGuest trivial) fun restored => ?_
  split
  · exact expireRequestGuest
  · trivial

theorem deliverPendingResponseGuest {requestId kind response audit} :
    (deliverPendingResponse sup session run requestId kind response audit).Only
      (GuestAct session run) := by
  refine onlyBind (onRunGuest trivial) fun claimed => ?_
  split
  · trivial
  split
  · exact onlyBind restoreAndExpireGuest fun _ => trivial
  refine onlyBind writeJsonBytesGuest fun written => ?_
  split
  · refine onlyBind (onRunGuest trivial) fun completed => ?_
    split
    · trivial
    · exact calmGuest concludeDeliveryCalm
  · exact onlyBind restoreAndExpireGuest fun _ => trivial
  · refine onlyBind (onRunGuest trivial) fun resolved => ?_
    split
    · exact calmGuest concludeDeliveryCalm
    · exact onlyBind (calmGuest updateWaitingStateCalm) fun _ => trivial

theorem respondPermissionGuest {requestId decision} :
    (respondPermission sup session run requestId decision).Only (GuestAct session run) := by
  unfold respondPermission
  split
  · trivial
  refine onlyBind (calmGuest activeRunCalm) fun active => ?_
  split
  · trivial
  · exact deliverPendingResponseGuest

theorem respondUserInputGuest {requestId value} :
    (respondUserInput sup session run requestId value).Only (GuestAct session run) := by
  unfold respondUserInput
  split
  · trivial
  refine onlyBind (calmGuest activeRunCalm) fun active => ?_
  split
  · trivial
  · exact deliverPendingResponseGuest

theorem registerPendingGuest {actionId} :
    (registerPending sup session run actionId .guiAction).Only (GuestAct session run) := by
  unfold registerPending
  split
  · trivial
  refine onlyBind (onlyOne (.inl trivial)) fun _ => onlyBind (onRunGuest rfl) fun registered => ?_
  split
  · trivial
  · exact onlyBind (onlyOne (.inl ⟨rfl, rfl⟩)) fun _ => trivial

theorem sendGuiActionGuest {action payload} :
    (sendGuiAction sup session run action payload).Only (GuestAct session run) := by
  unfold sendGuiAction
  split
  · trivial
  refine onlyBind (calmGuest activeRunCalm) fun active => ?_
  split
  · trivial
  refine onlyBind (onlyOne (.inl trivial)) fun actionId =>
    onlyBind registerPendingGuest fun registered => ?_
  split
  · trivial
  refine onlyBind (calmGuest publishCalm) fun published => ?_
  split
  · trivial
  refine onlyBind writeJsonGuest fun written => ?_
  split
  · exact onlyBind (onRunGuest trivial) fun _ => trivial
  · trivial

theorem stopLaunch : (stop sup session run).Only LaunchAct := by
  refine onlyBind (onlyBind (onlyOne trivial) fun found => ?_) fun active => ?_
  · split
    · trivial
    refine onlyBind (onlyOne trivial) fun active => ?_
    split
    · trivial
    refine onlyBind (onlyOne trivial) fun finalized => ?_
    split <;> trivial
  split
  · trivial
  refine onlyBind (onlyOne trivial) fun stopping => ?_
  split
  · trivial
  refine onlyBind (onlyOne trivial) fun _ => onlyBind (onlyOne trivial) fun published => ?_
  split
  · trivial
  refine onlyBind (onlyOne trivial) fun _ => onlyBind
    (terminateOnly ⟨trivial, trivial, trivial, trivial, trivial⟩) fun result =>
    onlyBind (onlyOne trivial) fun _ => ?_
  split <;> trivial

theorem recordLaunchFailureLaunch {error} :
    (recordLaunchFailure sup session error).Only LaunchAct :=
  onlyBind (onlyOne trivial) fun _ => onlyBind (onlyOne trivial) fun _ => trivial

theorem dropLaunchGuardLaunch {token reserved committed} :
    (dropLaunchGuard session token reserved committed).Only LaunchAct := by
  refine onlyBind (onlyOne trivial) fun _ => ?_
  split
  · exact onlyOne trivial
  · trivial

theorem abandonLaunchLaunch {error operation} :
    (abandonLaunch sup session run error operation).Only LaunchAct :=
  onlyBind (terminateOnly ⟨trivial, trivial, trivial, trivial, trivial⟩) fun _ =>
    onlyBind recordLaunchFailureLaunch fun _ => trivial

theorem claimLaunchBindingLaunch {token binding} :
    (claimLaunchBinding session token binding).Only LaunchAct := by
  cases binding with
  | none => trivial
  | some value => exact onlyOne trivial

theorem launchLaunch {request binding} : (launch sup session request binding).Only LaunchAct := by
  have drop : ∀ {token reserved committed} {result : Except MaestroError RunId},
      Only LaunchAct (do dropLaunchGuard session token reserved committed; pure result) :=
    onlyBind dropLaunchGuardLaunch fun _ => trivial
  unfold launch
  split
  · trivial
  refine onlyBind (onlyOne trivial) fun began => ?_
  split
  · trivial
  refine onlyBind (onlyOne trivial) fun token => onlyBind claimLaunchBindingLaunch fun claimed => ?_
  split
  · exact onlyBind (onlyOne trivial) fun _ => trivial
  refine onlyBind (onlyOne trivial) fun _ => onlyBind (onlyOne trivial) fun _ =>
    onlyBind (onlyOne trivial) fun _ => onlyBind (onlyOne trivial) fun run =>
    onlyBind (onlyOne trivial) fun spawned => ?_
  split
  · exact onlyBind recordLaunchFailureLaunch fun _ => drop
  refine onlyBind (onlyOne trivial) fun taken => ?_
  split
  · exact onlyBind abandonLaunchLaunch fun _ => drop
  refine onlyBind (onlyOne trivial) fun taken => ?_
  split
  · exact onlyBind abandonLaunchLaunch fun _ => drop
  refine onlyBind (onlyOne trivial) fun installed => ?_
  split
  · refine onlyBind (onlyOne trivial) fun _ => onlyBind dropLaunchGuardLaunch fun _ =>
      onlyBind (onlyOne trivial) fun published => ?_
    split
    · trivial
    · exact onlyBind (onlyOne trivial) fun _ => trivial
  · exact onlyBind (onlyOne trivial) fun _ => onlyBind
      (terminateOnly ⟨trivial, trivial, trivial, trivial, trivial⟩) fun _ =>
      onlyBind (onlyOne trivial) fun _ => drop

theorem superviseDurablyLaunch {afterSequence} :
    (superviseDurably sup session run afterSequence).Only LaunchAct := by
  refine onlyBind (onlyOne trivial) fun stored => ?_
  split
  · exact onlyBind (onlyOne trivial) fun _ => trivial
  · exact onlyBind stopLaunch fun _ => trivial

theorem handleStartLaunch {request} : (handleStart sup request).Only LaunchAct := by
  have started : (Session.start sup request).Only LaunchAct := by
    refine onlyBind (onlyOne trivial) fun created => ?_
    split
    · trivial
    refine onlyBind launchLaunch fun launched => ?_
    split
    · trivial
    · refine onlyBind (onlyOne trivial) fun state => ?_
      split
      · exact onlyBind (onlyOne trivial) fun _ => trivial
      · trivial
  refine onlyBind started fun result => ?_
  split
  · trivial
  · exact superviseDurablyLaunch

theorem handleResumeLaunch {request} : (handleResume sup session request).Only LaunchAct := by
  have resumed : (resume sup session request).Only LaunchAct := by
    refine onlyBind (onlyOne trivial) fun found => ?_
    split
    · trivial
    refine onlyBind (onlyOne trivial) fun binding => ?_
    split
    · trivial
    · exact launchLaunch
  refine onlyBind (onlyOne trivial) fun found => ?_
  split
  · trivial
  refine onlyBind (onlyOne trivial) fun before => onlyBind resumed fun result => ?_
  split
  · trivial
  · exact superviseDurablyLaunch

theorem replyOnly {ok : Act → Prop} {call} (answers : ∀ result, ok (.answer result))
    (h : Only (A := actions) ok call) : (reply call).Only ok :=
  onlyBind h fun _ => onlyBind (onlyOne (answers _)) fun _ => trivial

theorem replyReturns {call : Program (Except MaestroError Unit)} :
    (reply call).Returns (fun next => next = none) :=
  returnsThen fun _ => returnsThen fun _ => rfl

/-! The reader of standard output. -/

theorem onRunReader {call} (h : ReaderCall call) : (onRun run call).Only (ReaderAct session run) :=
  onlyOne ⟨rfl, h⟩

theorem registerPendingReader {requestId kind} (asks : kind ≠ .guiAction) :
    (registerPending sup session run requestId kind).Only (ReaderAct session run) := by
  unfold registerPending
  split
  · trivial
  refine onlyBind (onlyOne trivial) fun _ => onlyBind (onRunReader asks) fun registered => ?_
  split
  · trivial
  · exact onlyBind (onlyOne ⟨rfl, rfl⟩) fun _ => trivial

theorem adoptBindingReader {frame} :
    (adoptBinding session run frame).Only (ReaderAct session run) := by
  unfold adoptBinding
  split
  · trivial
  split
  · trivial
  refine onlyBind (onRunReader trivial) fun existing => ?_
  split
  · split
    · trivial
    · exact onlyBind (onlyOne rfl) fun _ => trivial
  · refine onlyBind (onRunReader trivial) fun token => onlyBind (onlyOne trivial) fun claimed => ?_
    split
    · trivial
    · exact onlyBind (onRunReader trivial) fun _ => onlyBind (onlyOne rfl) fun _ => trivial

theorem handleRequestReader {kind waiting category frame} (asks : kind ≠ .guiAction) :
    (handleRequest sup session run kind waiting category frame).Only (ReaderAct session run) := by
  unfold handleRequest
  split
  · trivial
  refine onlyBind (registerPendingReader asks) fun registered => ?_
  split
  · trivial
  · exact onlyBind (onlyOne rfl) fun _ => trivial

theorem handleResultReader {kind category frame} :
    (handleResult session run kind category frame).Only (ReaderAct session run) := by
  unfold handleResult
  split
  · trivial
  refine onlyBind (onRunReader trivial) fun confirmed => ?_
  split
  · exact onlyBind (onlyBind (onRunReader trivial) fun _ => onlyOne rfl) fun _ => trivial
  · trivial

theorem handleAckReader {frame} : (handleAck run frame).Only (ReaderAct session run) := by
  unfold handleAck
  split
  · trivial
  refine onlyBind (onRunReader trivial) fun acknowledged => ?_
  split <;> trivial

theorem applyFrameReader {frame} :
    (applyFrame sup session run frame).Only (ReaderAct session run) := by
  unfold applyFrame
  split <;> first
    | exact adoptBindingReader
    | exact handleRequestReader (by decide)
    | exact handleResultReader
    | exact handleAckReader
    | trivial

theorem publishFrameReader {frame} :
    (publishFrame sup session run frame).Only (ReaderAct session run) := by
  refine onlyBind (onlyOne ⟨rfl, rfl⟩) fun published => ?_
  split
  · trivial
  refine onlyBind (onlyOne rfl) fun state => ?_
  split
  · exact onlyBind (onlyOne rfl) fun _ => trivial
  · trivial

theorem handleFrameReader {value} :
    (handleFrame sup session run value).Only (ReaderAct session run) := by
  refine onlyBind (onRunReader trivial) fun _ => ?_
  split
  · trivial
  refine onlyBind applyFrameReader fun applied => ?_
  split
  · trivial
  · exact publishFrameReader

theorem handleFramesReader {frames} :
    (handleFrames sup session run frames).Only (ReaderAct session run) := by
  induction frames with
  | nil => trivial
  | cons value rest ih =>
    refine onlyBind handleFrameReader fun handled => ?_
    split
    · trivial
    · exact ih

theorem readStdoutReader {decoder} :
    (readStdout sup session run decoder).Only (ReaderAct session run) := by
  refine onlyBind (onRunReader trivial) fun read => ?_
  split
  · trivial
  · trivial
  refine onlyBind (onRunReader trivial) fun _ => onlyBind handleFramesReader fun handled => ?_
  split
  · trivial
  · split <;> trivial

theorem readStdoutReturns {decoder} : (readStdout sup session run decoder).Returns
    (fun next => (∃ failure, next = some (.finish session run failure)) ∨
      ∃ decoder, next = some (.stdoutReader session run decoder)) := by
  refine returnsThen fun read => ?_
  split
  · exact .inl ⟨_, rfl⟩
  · exact .inl ⟨_, rfl⟩
  refine returnsThen fun _ => returnsThen fun handled => ?_
  split
  · exact .inl ⟨_, rfl⟩
  · split
    · exact .inl ⟨_, rfl⟩
    · exact .inr ⟨_, rfl⟩

/-! The reader of standard error. -/

def StderrAct (session : SessionId) (run : RunId) : Act → Prop
  | .session s (.pushStderr _) => s = session
  | .run r .readStderr | .run r (.stderrDone _) => r = run
  | _ => False

theorem readStderrOnly : (readStderr session run).Only (StderrAct session run) := by
  refine onlyBind (onlyOne rfl) fun read => ?_
  split
  · exact onlyBind (onlyOne rfl) fun _ => trivial
  · exact onlyBind (onlyOne rfl) fun _ => trivial
  · exact onlyBind (onlyOne rfl) fun _ => trivial

theorem readStderrReturns : (readStderr session run).Returns
    (fun next => next = none ∨ next = some (.stderrReader session run)) := by
  refine returnsThen fun read => ?_
  split
  · exact returnsThen fun _ => .inl rfl
  · exact returnsThen fun _ => .inl rfl
  · exact returnsThen fun _ => .inr rfl

/-! The end of a run. -/

theorem onRunFinish {call} (h : FinishCall call) : (onRun run call).Only (FinishAct session run) :=
  onlyOne ⟨rfl, h⟩

theorem terminateFinish : (terminate run).Only (FinishAct session run) :=
  terminateOnly ⟨⟨rfl, trivial⟩, ⟨rfl, trivial⟩, ⟨rfl, trivial⟩, ⟨rfl, trivial⟩, ⟨rfl, trivial⟩⟩

theorem releaseLeaseFinish : (releaseLease run).Only (FinishAct session run) := by
  refine onlyBind (onRunFinish trivial) fun leased => ?_
  split
  · exact onlyBind (onRunFinish trivial) fun _ => onlyOne trivial
  · trivial

theorem finalizeRunFinish {failure stderrFailed exit} :
    (finalizeRun sup session run failure stderrFailed exit).Only (FinishAct session run) := by
  refine onlyBind (onRunFinish trivial) fun finalized => ?_
  split
  · trivial
  refine onlyBind (onRunFinish trivial) fun _ => onlyBind (onRunFinish trivial) fun _ =>
    onlyBind releaseLeaseFinish fun _ => onlyBind (onRunFinish trivial) fun stopRequested =>
    onlyBind (onlyOne ⟨rfl, rfl⟩) fun _ => ?_
  split
  · trivial
  · exact onlyBind (onlyOne ⟨rfl, rfl⟩) fun _ => trivial

theorem recordProtocolFailureFinish {failure} :
    (recordProtocolFailure sup session run failure).Only (FinishAct session run) :=
  onlyBind (onlyOne rfl) fun _ => onlyBind (onlyOne ⟨rfl, rfl⟩) fun _ => trivial

theorem reapRunFinish {failure} :
    (reapRun sup session run failure).Only (FinishAct session run) :=
  onlyBind (onRunFinish trivial) fun _ => onlyBind (onRunFinish trivial) fun _ =>
    onlyBind (onRunFinish trivial) fun _ => onlyBind (onRunFinish trivial) fun _ =>
    finalizeRunFinish

theorem finishRunFinish {failure} :
    (finishRun sup session run failure).Only (FinishAct session run) := by
  unfold finishRun
  split
  · exact onlyBind recordProtocolFailureFinish fun _ => onlyBind (onRunFinish trivial) fun _ =>
      onlyBind terminateFinish fun _ => onlyBind (onRunFinish trivial) fun _ => reapRunFinish
  · exact reapRunFinish

theorem persistCompletionMonitor :
    (persistCompletion session run).Only (MonitorAct session run) := by
  refine onlyBind (onlyOne trivial) fun found => ?_
  split
  · trivial
  refine onlyBind (onlyOne rfl) fun last => onlyBind (onlyOne trivial) fun found => ?_
  have finish : (do
      let _ ← store (.finishSessionRun session run (finishedRow last)) : Program Unit).Only
        (MonitorAct session run) := onlyBind (onlyOne ⟨rfl, rfl⟩) fun _ => trivial
  split
  · exact finish
  refine onlyBind (onlyOne rfl) fun captured => ?_
  split
  · refine onlyBind (onlyOne rfl) fun capture => ?_
    split
    · exact onlyBind (onlyOne rfl) fun _ => finish
    · exact finish
  · exact finish

theorem monitorLoopMonitor {lastPersisted} :
    (monitorLoop session run lastPersisted).Only (MonitorAct session run) := by
  refine onlyBind (onlyOne ⟨rfl, rfl⟩) fun received => ?_
  split
  · exact onlyBind persistCompletionMonitor fun _ => trivial
  refine onlyBind (onlyOne trivial) fun _ => onlyBind (onlyOne trivial) fun found => ?_
  split
  · exact onlyBind persistCompletionMonitor fun _ => trivial
  refine onlyBind (onlyOne rfl) fun seen => ?_
  split
  · split
    · refine onlyBind (onlyOne rfl) fun stored => ?_
      split <;> trivial
    · trivial
  · exact onlyBind persistCompletionMonitor fun _ => trivial

theorem monitorMonitor {afterSequence} :
    (monitor session run afterSequence).Only (MonitorAct session run) := by
  refine onlyBind (onlyBind (onlyOne trivial) fun found => ?_) fun subscribed => ?_
  · split
    · trivial
    · exact onlyOne ⟨rfl, rfl⟩
  · split <;> trivial

theorem monitorLoopReturns {lastPersisted} : (monitorLoop session run lastPersisted).Returns
    (fun next => next = none ∨ ∃ state, next = some (.monitorLoop session run state)) := by
  refine returnsThen fun received => ?_
  split
  · exact returnsThen fun _ => .inl rfl
  refine returnsThen fun _ => returnsThen fun found => ?_
  split
  · exact returnsThen fun _ => .inl rfl
  refine returnsThen fun seen => ?_
  split
  · split
    · refine returnsThen fun stored => ?_
      split <;> exact .inr ⟨_, rfl⟩
    · exact .inr ⟨_, rfl⟩
  · exact returnsThen fun _ => .inl rfl

theorem monitorReturns {afterSequence} : (monitor session run afterSequence).Returns
    (fun next => next = none ∨ ∃ state, next = some (.monitorLoop session run state)) := by
  refine returnsThen fun subscribed => ?_
  split
  · exact .inl rfl
  · exact .inr ⟨_, rfl⟩

/-! Only four entries deliver lines to the child. -/

def Act.Delivers : Act → Prop
  | .run _ call => DeliveryCall call
  | _ => False

def Entry.delivers : Entry → Bool
  | .respondPermission .. | .respondUserInput .. | .sendGuiAction .. | .expiry .. => true
  | _ => false

theorem silentOther {o : Act} (h : ∀ r call, o = .run r call → ¬ DeliveryCall call) : ¬ o.Delivers := by
  cases o <;> first | exact id | exact h _ _ rfl

theorem calmSilent {o} (h : CalmAct session run o) : ¬ o.Delivers := by
  refine silentOther fun r call same delivers => ?_
  subst same
  cases call <;> first | exact delivers | exact h.2 | skip
  case tracker call => cases call <;> first | exact h.2 | exact delivers
  case lock use => cases use <;> first | exact delivers | exact h.2

theorem readerSilent {o} (h : ReaderAct session run o) : ¬ o.Delivers := by
  refine silentOther fun r call same delivers => ?_
  subst same
  cases call <;> first | exact delivers | exact h.2 | skip
  case tracker call =>
    cases call <;> first | exact h.2 delivers | exact delivers | exact h.2

theorem finishSilent {o} (h : FinishAct session run o) : ¬ o.Delivers := by
  refine silentOther fun r call same delivers => ?_
  subst same
  cases call <;> first | exact delivers | exact h.2 | skip
  case tracker call => cases call <;> first | exact h.2 | exact delivers
  case lock use => cases use <;> first | exact delivers | exact h.2

theorem launchSilent {o} (h : LaunchAct o) : ¬ o.Delivers := by
  refine silentOther fun r call same delivers => ?_
  subst same
  cases call <;> first | exact delivers | exact h | skip
  case lock use => cases use <;> first | exact delivers | exact h

theorem monitorSilent {o} (h : MonitorAct session run o) : ¬ o.Delivers := by
  refine silentOther fun r call same delivers => ?_
  subst same
  cases call <;> first | exact delivers | exact h

theorem stderrSilent {o} (h : StderrAct session run o) : ¬ o.Delivers := by
  refine silentOther fun r call same delivers => ?_
  subst same
  cases call <;> first | exact delivers | exact h

theorem bodySilent {e : Entry} (silent : e.delivers = false) :
    (body sup e).Only (fun o : Act => ¬ o.Delivers) := by
  cases e with
  | start => exact onlyImp (replyOnly (fun _ => trivial) handleStartLaunch) fun _ => launchSilent
  | resume => exact onlyImp (replyOnly (fun _ => trivial) handleResumeLaunch) fun _ => launchSilent
  | stop session run =>
    have calm : Only (CalmAct session run) (stop sup session run) := stopCalm
    exact replyOnly (fun _ => id) (onlyImp calm fun _ => calmSilent)
  | stderrReader => exact onlyImp readStderrOnly fun _ => stderrSilent
  | supervise => exact onlyBind (onlyOne id) fun _ => trivial
  | stdoutReader => exact onlyImp readStdoutReader fun _ => readerSilent
  | finish => exact onlyBind (onlyImp finishRunFinish fun _ => finishSilent) fun _ => trivial
  | monitor => exact onlyImp monitorMonitor fun _ => monitorSilent
  | monitorLoop => exact onlyImp monitorLoopMonitor fun _ => monitorSilent
  | _ => cases silent

end Footprints
end Maestro.Session
