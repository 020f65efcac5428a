import Maestro.TerminalOutput
import Maestro.Outline

/-! One terminal from its launch on: the reader of its output, the supervisor of its child,
and the calls that read and close it, as programs over the session they share. -/
namespace Maestro.Terminal
open Interleaving (Prog Actions Machine Protocol Config)

/-- Who holds the writer lease the terminal was launched with. -/
inductive Lease where
  | absent
  | launching
  | session
  | retaining
  | released
  deriving DecidableEq, Repr

inductive LifecycleOutcome where
  | running
  | exited (cause : ExitCause)
  | failed (message : String)
  deriving DecidableEq, Repr

/-- A response to a read that asked behind `afterSequence`. -/
structure ReadResponse where
  afterSequence : Nat
  result : TerminalReadResult
  deriving DecidableEq, Repr

/-- The session, its process, and the operating system the process lives in: `reaped` once
the supervisor's wait for the child returned its status, `signalFails` and `reapFails` while
the system refuses these calls. -/
structure TerminalSession where
  id : TerminalId
  output : OutputBuffer
  state : TerminalState
  exit : Option TerminalExit
  closeRequested : Bool
  permit : Bool
  retained : Bool
  completed : Bool
  listed : Bool
  operationGuard : Bool
  finalizationGuard : Bool
  lease : Lease
  outcome : LifecycleOutcome
  supervisorStopped : Bool
  groupActive : Bool
  reaped : Bool
  signalFails : Bool
  reapFails : Bool
  responses : List ReadResponse
  deriving DecidableEq, Repr

inductive Act where
  | registerTerminal
  | insert
  | spawnOutputReader
  | retainWriterLease
  | dropLease (holder : Lease)
  | completedResult
  | groupTerminate
  | groupSeal
  | waitLifecycle
  | waitGrace
  | readPty
  | push (data : Bytes)
  | lockFinalization
  | unlockFinalization
  | setFinal (completion : Option TerminalExit)
  | takePermit
  | enqueueCompleted
  | permitTaken
  | setFailed
  | lockOperation
  | unlockOperation
  | listed
  | requestClose
  | setClosed
  | markRemoved
  | remove
  | status
  | poll (afterSequence maximumBytes : Nat)
  | awaitChange
  | respond (afterSequence : Nat) (result : TerminalReadResult)
  | waitForLeaderExit
  | childKill
  | childWait
  | sendOutcome (outcome : LifecycleOutcome)

@[reducible] def Act.Answer : Act → Type
  | .registerTerminal | .takePermit | .permitTaken | .listed => Bool
  | .completedResult | .waitGrace => Option (Except String ExitCause)
  | .waitLifecycle => Except String ExitCause
  | .groupTerminate | .groupSeal | .waitForLeaderExit => Except String Unit
  | .readPty => Option Bytes
  | .status => TerminalStatus
  | .poll .. => Except MaestroError PollResult
  | .childWait => Except String Nat
  | _ => Unit

abbrev actions : Actions := ⟨Act, Act.Answer⟩

abbrev Program := Prog actions

@[simp] def perform (o : Act) : Program o.Answer := .act (A := actions) o .done

/-- What the environment decides: bytes on the terminal, an exit code, a refused call,
or a grace period that ran out. -/
inductive Choice where
  | go
  | data (bytes : Bytes)
  | code (code : Nat)
  | fails (message : String)
  | elapsed

def outcomeResult : LifecycleOutcome → Option (Except String ExitCause)
  | .running => none
  | .exited cause => some (.ok cause)
  | .failed message => some (.error message)

namespace TerminalSession
variable (m : TerminalSession)

/-- An ended lifecycle answers its outcome; the sender of a stopped supervisor is gone. -/
def waited : Option (Except String ExitCause) :=
  match outcomeResult m.outcome with
  | some result => some result
  | none =>
    if m.supervisorStopped then some (.error "process supervisor stopped unexpectedly") else none

def signal (active : Bool) : Except String Unit × TerminalSession :=
  if m.groupActive then
    (if m.signalFails then .error "could not signal the owned process group" else .ok (),
      { m with groupActive := active })
  else (.ok (), m)

def release (holder : Lease) : TerminalSession :=
  if m.lease = holder then { m with lease := .released } else m

def finish (completion : Option TerminalExit) : TerminalSession :=
  match completion with
  | some exit =>
    { m with exit := some exit, state := if m.closeRequested then .closed else .exited }
  | none => { m with exit := none, state := .failed }

def requestClose : TerminalSession :=
  { m with
    closeRequested := true
    state := if m.state = .exited ∨ m.state = .closed then m.state else .closing }

def currentStatus : TerminalStatus := ⟨m.id, m.state, m.exit⟩

end TerminalSession

def apply : (o : Act) → Choice → TerminalSession → Option (o.Answer × TerminalSession)
  | .registerTerminal, .fails _, m => some (false, m)
  | .registerTerminal, _, m => some (true, m)
  | .insert, _, m =>
    some ((), { m with listed := true, lease := if m.lease = .launching then .session else m.lease })
  | .spawnOutputReader, _, m => some ((), m)
  | .retainWriterLease, _, m =>
    some ((), { m with lease := if m.lease = .launching then .retaining else m.lease })
  | .dropLease holder, _, m => some ((), m.release holder)
  | .completedResult, _, m => some (outcomeResult m.outcome, m)
  | .groupTerminate, _, m => some (m.signal m.groupActive)
  | .groupSeal, _, m => some (m.signal false)
  | .waitLifecycle, _, m => m.waited.map fun result => (result, m)
  | .waitGrace, .elapsed, m => some (none, m)
  | .waitGrace, _, m => m.waited.map fun result => (some result, m)
  | .readPty, .data bytes, m =>
    if bytes.length ≤ terminalReadChunkBytes then some (some bytes, m) else none
  | .readPty, .fails _, m => some (none, m)
  | .readPty, _, _ => none
  | .push data, _, m => some ((), { m with output := (m.output.push data).1 })
  | .lockFinalization, _, m =>
    if m.finalizationGuard then none else some ((), { m with finalizationGuard := true })
  | .unlockFinalization, _, m => some ((), { m with finalizationGuard := false })
  | .setFinal completion, _, m => some ((), m.finish completion)
  | .takePermit, _, m => some (m.permit, { m with permit := false })
  | .enqueueCompleted, _, m => some ((), { m with completed := m.completed || m.retained })
  | .permitTaken, _, m => some (!m.permit, m)
  | .setFailed, _, m => some ((), { m with state := .failed, exit := none })
  | .lockOperation, _, m =>
    if m.operationGuard then none else some ((), { m with operationGuard := true })
  | .unlockOperation, _, m => some ((), { m with operationGuard := false })
  | .listed, _, m => some (m.listed, m)
  | .requestClose, _, m => some ((), m.requestClose)
  | .setClosed, _, m => some ((), { m with state := .closed })
  | .markRemoved, _, m => some ((), { m with retained := false, completed := false })
  | .remove, _, m => some ((), { m with listed := false })
  | .status, _, m => some (m.currentStatus, m)
  | .poll afterSequence maximumBytes, _, m => some (m.output.poll afterSequence maximumBytes, m)
  | .awaitChange, _, m => some ((), m)
  | .respond afterSequence result, _, m =>
    some ((), { m with responses := m.responses ++ [⟨afterSequence, result⟩] })
  | .waitForLeaderExit, .fails message, m => some (.error message, m)
  | .waitForLeaderExit, _, m => some (.ok (), m)
  | .childKill, _, m => some ((), m)
  | .childWait, .code code, m =>
    if m.reapFails then some (.error "could not reap PTY process leader", m)
    else some (.ok code, { m with reaped := true })
  | .childWait, _, _ => none
  | .sendOutcome outcome, _, m => some ((), { m with outcome := outcome })

inductive Entry where
  | launch (leased persisted : Bool)
  | superviseChild
  | outputReader
  | retain
  | read (afterSequence maximumBytes waitMilliseconds : Nat)
  | waitForCompletion
  | close
  deriving DecidableEq, Repr

def exitFromCause : ExitCause → TerminalExit
  | .exited code => ⟨some code, none⟩
  | .signaled signal => ⟨none, some signal⟩
  | .unknown => ⟨none, none⟩

def terminate : Program (Except String ExitCause) := do
  match ← perform .completedResult with
  | some result => pure result
  | none =>
    match ← perform .groupTerminate with
    | .error message => pure (.error message)
    | .ok _ =>
      match ← perform .waitGrace with
      | some result => pure result
      | none =>
        match ← perform .groupSeal with
        | .error message => pure (.error message)
        | .ok _ => perform .waitLifecycle

def finalizeReaped (completion : Option TerminalExit) : Program Unit := do
  perform .lockFinalization
  perform (.dropLease .session)
  perform (.setFinal completion)
  if ← perform .takePermit then
    perform .enqueueCompleted
  perform .unlockFinalization

def isFinalized : Program Bool := do
  perform .lockFinalization
  let taken ← perform .permitTaken
  perform .unlockFinalization
  pure taken

def noteTerminationFailure : Program Bool := do
  perform .lockFinalization
  if ← perform .permitTaken then
    perform .unlockFinalization
    pure false
  else
    perform .setFailed
    perform .unlockFinalization
    pure true

def register (persisted : Bool) : Program Bool :=
  if persisted then perform .registerTerminal else pure true

/-- `spawn_inner` behind the spawned process. The lease is moved into the session, or into
the task that retains it, or dropped when the launch is refused. -/
def launch (leased persisted : Bool) : Program (Option Entry) := do
  if ← register persisted then
    perform .insert
    perform .spawnOutputReader
    pure none
  else
    match ← terminate with
    | .error _ =>
      if leased then perform .retainWriterLease
      pure none
    | .ok _ =>
      perform (.dropLease .launching)
      pure none

def completion : Except String ExitCause → Option TerminalExit
  | .ok cause => some (exitFromCause cause)
  | .error _ => none

/-- The loop of `spawn_output_reader`, a turn at a time, and what follows it. -/
def outputReader : Program (Option Entry) := do
  match ← perform .readPty with
  | some [] =>
    let ended ← perform .waitLifecycle
    finalizeReaped (completion ended)
    pure none
  | some data =>
    perform (.push data)
    pure (some .outputReader)
  | none =>
    let ended ← terminate
    finalizeReaped (completion ended)
    pure none

def retain : Program (Option Entry) := do
  let _ ← perform .waitLifecycle
  perform (.dropLease .retaining)
  pure none

def superviseChild : Program (Option Entry) := do
  let observation ← perform .waitForLeaderExit
  let cleanup ← perform .groupSeal
  if let .error _ := cleanup then
    perform .childKill
  let reaped ← perform .childWait
  let outcome : LifecycleOutcome := match observation, cleanup, reaped with
    | .error message, _, _ => .failed message
    | .ok _, .error message, _ => .failed message
    | .ok _, .ok _, .ok code => .exited (.exited code)
    | .ok _, .ok _, .error message => .failed message
  perform (.sendOutcome outcome)
  pure none

def readSnapshot (afterSequence maximumBytes : Nat) :
    Program (Except MaestroError TerminalReadResult) := do
  let status ← perform .status
  match ← perform (.poll afterSequence maximumBytes) with
  | .error error => pure (.error error)
  | .ok read => pure (.ok (read.withStatus status))

def read (afterSequence maximumBytes waitMilliseconds : Nat) : Program (Option Entry) := do
  match validateRead maximumBytes waitMilliseconds with
  | .error _ => pure none
  | .ok _ =>
    if ← perform .listed then
      match ← readSnapshot afterSequence maximumBytes with
      | .error _ => pure none
      | .ok initial =>
        if answersAtOnce waitMilliseconds initial then
          perform (.respond afterSequence initial)
          pure none
        else
          perform .awaitChange
          match ← readSnapshot afterSequence maximumBytes with
          | .error _ => pure none
          | .ok final =>
            perform (.respond afterSequence final)
            pure none
    else pure none

def waitForCompletion : Program (Option Entry) := do
  if ← perform .listed then
    let status ← perform .status
    if status.state = .running ∨ status.state = .closing then
      perform .awaitChange
      pure (some .waitForCompletion)
    else pure none
  else pure none

/-- The end of `close`, behind the termination of the child. -/
def closeRemoved : Program (Option Entry) := do
  perform .setClosed
  perform .markRemoved
  let _ ← perform .status
  perform .remove
  perform .unlockOperation
  pure none

def close : Program (Option Entry) := do
  if ← perform .listed then
    perform .lockOperation
    if ← perform .listed then
      perform .requestClose
      if ← isFinalized then closeRemoved
      else
        match ← terminate with
        | .ok cause =>
          finalizeReaped (some (exitFromCause cause))
          closeRemoved
        | .error _ =>
          if ← noteTerminationFailure then
            perform .unlockOperation
            pure none
          else closeRemoved
    else
      perform .unlockOperation
      pure none
  else pure none

def body : Entry → Program (Option Entry)
  | .launch leased persisted => launch leased persisted
  | .superviseChild => superviseChild
  | .outputReader => outputReader
  | .retain => retain
  | .read afterSequence maximumBytes wait => read afterSequence maximumBytes wait
  | .waitForCompletion => waitForCompletion
  | .close => close

/-- What happens beside the tasks: the table of terminals is pruned, the deadline of
`close_all` drops a close with the guards it holds, the supervisor's thread dies, and the
system starts or stops refusing signals and waits. -/
inductive Outside where
  | prune
  | closeDropped
  | supervisorStops
  | signals (fail : Bool)
  | reaps (fail : Bool)
  deriving DecidableEq, Repr

def outside : Outside → TerminalSession → Option TerminalSession
  | .prune, m =>
    if m.completed then some { m with completed := false, listed := false, retained := false }
    else none
  | .closeDropped, m => some { m with operationGuard := false, finalizationGuard := false }
  | .supervisorStops, m => some { m with supervisorStopped := true }
  | .signals fail, m => some { m with signalFails := fail }
  | .reaps fail, m => some { m with reapFails := fail }

def spawns : Act → Option Entry
  | .spawnOutputReader => some .outputReader
  | .retainWriterLease => some .retain
  | _ => none

def Entry.isCall : Entry → Bool
  | .read .. | .waitForCompletion | .close => true
  | _ => false

abbrev machine : Machine actions where
  Memory := TerminalSession
  Entry := Entry
  Choice := Choice
  Outside := Outside
  body := body
  apply := apply
  spawns := spawns
  callable := Entry.isCall
  outside := outside

def TerminalSession.initial (id : TerminalId) (leased : Bool) : TerminalSession where
  id
  output := .default
  state := .running
  exit := none
  closeRequested := false
  permit := true
  retained := true
  completed := false
  listed := false
  operationGuard := false
  finalizationGuard := false
  lease := if leased then .launching else .absent
  outcome := .running
  supervisorStopped := false
  groupActive := true
  reaped := false
  signalFails := false
  reapFails := false
  responses := []

/-- The child is spawned, its supervisor runs, and the launch goes on. -/
def launched (id : TerminalId) (leased persisted : Bool) : Config machine :=
  ⟨.initial id leased, [.enter (.launch leased persisted), .enter .superviseChild]⟩

end Maestro.Terminal
