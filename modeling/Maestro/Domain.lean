import Maestro.Json

/-! The vocabulary the supervisor shares with storage and the protocol: errors,
events and the durable session state machine. -/
namespace Maestro

abbrev SessionId := Nat
abbrev RunId := Nat
abbrev Instant := Nat

inductive ErrorCode where
  | authenticationRequired
  | cliNotInstalled
  | cliProtocolIncompatible
  | daemonLocked
  | databaseUnavailable
  | invalidRequest
  | permissionDenied
  | processCrashed
  | sessionNotFound
  | terminalLimitReached
  | terminalNotFound
  | terminalNotRunning
  | inputTooLarge
  | invalidPath
  | unsupportedCapability
  | internal
  deriving DecidableEq, Repr

structure MaestroError where
  code : ErrorCode
  message : String
  userAction : Option String
  details : Option Value
  deriving Repr

def MaestroError.new (code : ErrorCode) (message : String) : MaestroError :=
  ⟨code, message, none, none⟩

inductive SessionState where
  | created
  | starting
  | ready
  | running
  | awaitingPermission
  | awaitingUserInput
  | background
  | interrupting
  | completed
  | stopped
  | failed
  | interrupted
  | recoverable
  | incompatible
  deriving DecidableEq, Repr

namespace SessionState

def canTransitionTo : SessionState → SessionState → Bool
  | .created, .starting | .created, .stopped => true
  | .starting, .ready | .starting, .running | .starting, .failed | .starting, .interrupted
  | .starting, .incompatible | .starting, .stopped => true
  | .ready, .running | .ready, .background | .ready, .stopped | .ready, .failed => true
  | .running, .awaitingPermission | .running, .awaitingUserInput | .running, .background
  | .running, .interrupting | .running, .completed | .running, .failed | .running, .interrupted
  | .running, .stopped => true
  | .awaitingPermission, .running | .awaitingPermission, .background
  | .awaitingPermission, .interrupting | .awaitingPermission, .failed
  | .awaitingPermission, .interrupted | .awaitingPermission, .stopped => true
  | .awaitingUserInput, .running | .awaitingUserInput, .background
  | .awaitingUserInput, .interrupting | .awaitingUserInput, .failed
  | .awaitingUserInput, .interrupted | .awaitingUserInput, .stopped => true
  | .background, .ready | .background, .running | .background, .awaitingPermission
  | .background, .awaitingUserInput | .background, .interrupting | .background, .completed
  | .background, .failed | .background, .interrupted | .background, .stopped => true
  | .interrupting, .ready | .interrupting, .interrupted | .interrupting, .completed
  | .interrupting, .failed | .interrupting, .stopped => true
  | .failed, .recoverable | .failed, .starting | .failed, .stopped => true
  | .interrupted, .recoverable | .interrupted, .starting | .interrupted, .stopped => true
  | .recoverable, .starting | .recoverable, .stopped | .recoverable, .incompatible => true
  | _, _ => false

/-- `Ok(next)` when the move is a step of the durable state machine or none at all. -/
def transitionTo (state next : SessionState) : Option SessionState :=
  if state = next ∨ state.canTransitionTo next then some next else none

/-- The moves `set_state` makes without asking the durable state machine. -/
def bridged : SessionState → SessionState → Bool
  | .starting, .awaitingPermission | .starting, .awaitingUserInput => true
  | .ready, .completed | .awaitingPermission, .completed | .awaitingUserInput, .completed => true
  | _, _ => false

/-- What `set_state` leaves behind; a refused target is dropped without a word. -/
def setTo (state target : SessionState) : SessionState :=
  if state = target then state
  else if (state.transitionTo target).isSome || bridged state target || target == .starting then
    target
  else state

def Accepts (state target : SessionState) : Prop := state.setTo target = target
instance (state target) : Decidable (Accepts state target) := by unfold Accepts; infer_instance

theorem setToCases (state target : SessionState) :
    state.setTo target = target ∨ state.setTo target = state := by
  unfold setTo
  split
  · exact .inr rfl
  · split
    · exact .inl rfl
    · exact .inr rfl

end SessionState

inductive ExitCause where
  | exited (code : Int)
  | signaled (signal : Int)
  | unknown
  deriving DecidableEq, Repr

inductive EventSource where | cli | gui | daemon | hook | pty
  deriving DecidableEq, Repr

inductive EventVisibility where | user | debug | sensitive
  deriving DecidableEq, Repr

structure NormalizedEvent where
  kind : String
  visibility : EventVisibility
  payload : Value
  vendorEventId : Option String
  rawSegmentReference : Option String
  deriving Repr

def NormalizedEvent.user (kind : String) (payload : Value) : NormalizedEvent :=
  ⟨kind, .user, payload, none, none⟩

structure EventEnvelope where
  sessionId : SessionId
  runId : Option RunId
  sequence : Nat
  source : EventSource
  event : NormalizedEvent
  deriving Repr

end Maestro
