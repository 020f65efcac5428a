import Maestro.Setting

/-! The lock of a run's process: who holds it and for what, the one task that may write a
line to the child, and the stop call that set the run's flag. -/
namespace Maestro.Session
open Interleaving Prog Protocol

/-- Where a task is with the lock. A stop call is `stopping` from the flag to its lock;
`killed` sealed the group, `exited` knows the child's end and `failed` could not signal it. -/
inductive Grip where
  | free
  | stopping (run : RunId)
  | holding (run : RunId) (use : LockUse)
  | flushing (run : RunId) (bytes : Bytes)
  | killed (run : RunId) (use : LockUse)
  | exited (run : RunId) (use : LockUse)
  | failed (run : RunId) (use : LockUse)
  | stopped (run : RunId)
  deriving DecidableEq, Repr

def Line (sup : Supervisor) (bytes : Bytes) : Prop := ∃ value, encodeJson sup value = .ok bytes

def LockUse.calls : LockUse → RunId → Grip
  | .stop, run => .stopping run
  | _, _ => .free

namespace Grip

def holds : Grip → Option RunId
  | .free | .stopping _ | .stopped _ => none
  | .holding run _ | .flushing run _ | .killed run _ | .exited run _ | .failed run _ => some run

def Ends (q : Grip) (run : RunId) : Prop := q = .free ∨ ∃ use, q = .holding run use

def mayCall (sup : Supervisor) (q : Grip) (run : RunId) : RunCall → Prop
  | .swapStopRequested => q = .free
  | .lock use => q = use.calls run
  | .unlock => q = .holding run .write ∨ ∃ use, q = .exited run use ∨ q = .failed run use
  | .stdinWrite bytes _ => q = .holding run .write ∧ Line sup bytes
  | .awaitFlush => ∃ bytes, q = .flushing run bytes
  | .completedResult | .signalGroup | .waitWithin | .sealGroup => q.Ends run
  | .waitExit => q = .free ∨ q = .holding run .wait ∨ ∃ use, q = .killed run use
  | _ => True

def may (sup : Supervisor) (q : Grip) : Act → Prop
  | .run run call => q.mayCall sup run call
  | _ => True

def kill : Grip → Grip
  | .holding run use => .killed run use
  | q => q

def finish : Grip → Grip
  | .holding run use | .killed run use => .exited run use
  | q => q

def fail : Grip → Grip
  | .holding run use => .failed run use
  | .stopping run => .stopped run
  | q => q

def release : Grip → Grip
  | .exited run .stop | .failed run .stop => .stopped run
  | _ => .free

def afterCall (q : Grip) (run : RunId) : (call : RunCall) → call.Answer → Grip
  | .swapStopRequested, false => .stopping run
  | .lock use, _ => .holding run use
  | .unlock, _ => q.release
  | .stdinWrite bytes _, true => .flushing run bytes
  | .awaitFlush, _ => .holding run .write
  | .completedResult, some _ | .waitWithin, some _ | .waitExit, _ => q.finish
  | .signalGroup, .error _ | .sealGroup, .error _ => q.fail
  | .sealGroup, .ok _ => q.kill
  | _, _ => q

/-- A stop call whose event is not published has failed. -/
def after (q : Grip) : (o : Act) → o.Answer → Grip
  | .run run call, answer => q.afterCall run call answer
  | .session _ (.publish ..), .error _ => q.fail
  | _, _ => q

def ends (q : Grip) : Prop := q = .free ∨ ∃ run, q = .stopped run

end Grip

abbrev locks (sup : Supervisor) : Protocol (machine sup) where
  Place := Grip
  enter _ := .free
  may := Grip.may sup
  after := Grip.after
  ends := Grip.ends

def RunCall.Bare : RunCall → Prop
  | .swapStopRequested | .lock _ | .unlock | .stdinWrite .. | .awaitFlush | .completedResult
  | .signalGroup | .waitWithin | .sealGroup | .waitExit => False
  | _ => True

def Act.Bare : Act → Prop
  | .run _ call => call.Bare
  | .session _ (.publish ..) => False
  | _ => True

section Soundness
variable {sup : Supervisor} {session : SessionId} {run : RunId} {q : Grip}

theorem bareQuiet {o : Act} (bare : o.Bare) :
    (locks sup).may q o ∧ ∀ answer, (locks sup).after q o answer = q := by
  cases o <;> first | exact ⟨trivial, fun _ => rfl⟩ | skip
  case session s call => cases call <;> first | exact bare.elim | exact ⟨trivial, fun _ => rfl⟩
  case run r call => cases call <;> first | exact bare.elim | exact ⟨trivial, fun _ => rfl⟩

def Grip.Firm (q : Grip) : Prop := q.fail = q

theorem publishLock {run' source event} (firm : q.Firm) :
    (locks sup).Stays q (publish sup session run' source event) := by
  refine followsStep trivial fun published => ?_
  cases published with
  | error error => exact firm
  | ok _ => rfl

theorem bareStays {α : Type} {p : Program α} (only : p.Only Act.Bare) : (locks sup).Stays q p :=
  staysOnly only fun _ => bareQuiet

theorem refusesInputLock : (locks sup).Stays q (refusesInput run) := by
  refine followsStep trivial fun finalized => ?_
  split
  · rfl
  · exact followsStep trivial fun _ => rfl

theorem updateWaitingStateLock : (locks sup).Stays q (updateWaitingState session run) :=
  followsStep trivial fun _ => followsStep trivial fun _ => rfl

theorem activeRunLock : (locks sup).Stays q (activeRun session run) := by
  refine followsStep trivial fun found => ?_
  split
  · rfl
  refine followsStep trivial fun active => ?_
  split
  · rfl
  refine followsStep trivial fun finalized => ?_
  split <;> rfl

theorem concludeDeliveryLock {audit} :
    (locks sup).Stays .free (concludeDelivery sup session run audit) := by
  refine staysSeq updateWaitingStateLock fun _ => staysSeq (publishLock rfl) fun published => ?_
  split <;> rfl

theorem registerPendingLock {requestId kind} :
    (locks sup).Stays q (registerPending sup session run requestId kind) := by
  unfold registerPending
  split
  · rfl
  refine followsStep trivial fun _ => followsStep trivial fun registered => ?_
  split
  · rfl
  · exact followsStep trivial fun _ => rfl

theorem processWriteLock {bytes purpose} (line : Line sup bytes) :
    (locks sup).Stays (.holding run .write) (processWrite run bytes purpose) := by
  refine followsStep ⟨rfl, line⟩ fun present => ?_
  cases present with
  | false => rfl
  | true =>
    refine followsStep ⟨bytes, rfl⟩ fun flushed => ?_
    cases flushed <;> rfl

theorem writeJsonBytesLock {bytes purpose} (line : Line sup bytes) :
    (locks sup).Stays .free (writeJsonBytes run bytes purpose) := by
  refine staysSeq refusesInputLock fun refused => ?_
  split
  · rfl
  refine followsStep rfl fun _ => staysSeq refusesInputLock fun refused => ?_
  split
  · exact followsStep (.inl rfl) fun _ => rfl
  refine staysSeq (processWriteLock line) fun written => followsStep (.inl rfl) fun _ => ?_
  split <;> rfl

theorem writeJsonLock {value purpose} : (locks sup).Stays .free (writeJson sup run value purpose) := by
  unfold writeJson
  split
  · rfl
  · rename_i bytes encoded
    refine staysSeq (writeJsonBytesLock ⟨value, encoded⟩) fun written => ?_
    split <;> rfl

theorem expireRequestLock {requestId kind} :
    (locks sup).Stays .free (expireRequest sup session run requestId kind) := by
  refine followsStep trivial fun finalized => ?_
  split
  · rfl
  refine followsStep trivial fun expired => ?_
  split
  · rfl
  refine staysSeq (publishLock rfl) fun _ => ?_
  split
  · exact staysSeq writeJsonLock fun _ => updateWaitingStateLock
  · exact updateWaitingStateLock

theorem restoreAndExpireLock {requestId kind} :
    (locks sup).Stays .free (restoreAndExpire sup session run requestId kind) := by
  refine followsStep trivial fun restored => ?_
  split
  · exact expireRequestLock
  · rfl

theorem deliverPendingResponseLock {requestId kind response audit} : (locks sup).Stays .free
    (deliverPendingResponse sup session run requestId kind response audit) := by
  refine followsStep trivial fun claimed => ?_
  split
  · rfl
  split
  · exact staysSeq restoreAndExpireLock fun _ => rfl
  rename_i bytes encoded
  refine staysSeq (writeJsonBytesLock ⟨response, encoded⟩) fun written => ?_
  split
  · refine followsStep trivial fun completed => ?_
    split
    · rfl
    · exact concludeDeliveryLock
  · exact staysSeq restoreAndExpireLock fun _ => rfl
  · refine followsStep trivial fun resolved => ?_
    split
    · exact concludeDeliveryLock
    · exact staysSeq updateWaitingStateLock fun _ => rfl

theorem respondPermissionLock {requestId decision} :
    (locks sup).Stays .free (respondPermission sup session run requestId decision) := by
  unfold respondPermission
  split
  · rfl
  refine staysSeq activeRunLock fun active => ?_
  split
  · rfl
  · exact deliverPendingResponseLock

theorem respondUserInputLock {requestId value} :
    (locks sup).Stays .free (respondUserInput sup session run requestId value) := by
  unfold respondUserInput
  split
  · rfl
  refine staysSeq activeRunLock fun active => ?_
  split
  · rfl
  · exact deliverPendingResponseLock

theorem sendGuiActionLock {action payload} :
    (locks sup).Stays .free (sendGuiAction sup session run action payload) := by
  unfold sendGuiAction
  split
  · rfl
  refine staysSeq activeRunLock fun active => ?_
  split
  · rfl
  refine followsStep trivial fun actionId => staysSeq registerPendingLock fun registered => ?_
  split
  · rfl
  refine staysSeq (publishLock rfl) fun published => ?_
  split
  · rfl
  refine staysSeq writeJsonLock fun written => ?_
  split
  · exact followsStep trivial fun _ => rfl
  · rfl

/-! The end of the child. -/

def Grip.Settled (run : RunId) (use : LockUse) (q : Grip) : Prop := q = .exited run use ∨ q = .failed run use

theorem terminateLock {use} : (locks sup).Follows (fun _ q => q.Settled run use) (.holding run use)
    (terminate run) := by
  refine followsStep (.inr ⟨use, rfl⟩) fun completed => ?_
  cases completed with
  | some result => exact .inl rfl
  | none =>
  refine followsStep (.inr ⟨use, rfl⟩) fun signalled => ?_
  cases signalled with
  | error error => exact .inr rfl
  | ok =>
  refine followsStep (.inr ⟨use, rfl⟩) fun waited => ?_
  cases waited with
  | some result => exact .inl rfl
  | none =>
  refine followsStep (.inr ⟨use, rfl⟩) fun killed => ?_
  cases killed with
  | error error => exact .inr rfl
  | ok => exact followsStep (.inr (.inr ⟨use, rfl⟩)) fun _ => .inl rfl

theorem terminateFree : (locks sup).Stays .free (terminate run) := by
  refine followsStep (.inl rfl) fun completed => ?_
  cases completed with
  | some result => rfl
  | none =>
  refine followsStep (.inl rfl) fun signalled => ?_
  cases signalled with
  | error error => rfl
  | ok =>
  refine followsStep (.inl rfl) fun waited => ?_
  cases waited with
  | some result => rfl
  | none =>
  refine followsStep (.inl rfl) fun killed => ?_
  cases killed with
  | error error => rfl
  | ok => exact followsStep (.inl rfl) fun _ => rfl

theorem settledUnlock {use} (settled : q.Settled run use) : (locks sup).may q (.run run .unlock) :=
  .inr ⟨use, settled⟩

theorem settledRelease {use} (settled : q.Settled run use) (other : use ≠ .stop) : q.release = .free := by
  rcases settled with rfl | rfl <;> cases use <;> first | rfl | exact absurd rfl other

theorem settledStopped (settled : q.Settled run .stop) : q.release = .stopped run := by
  rcases settled with rfl | rfl <;> rfl

theorem stopLock : (locks sup).Follows (fun _ q => q.ends) .free (stop sup session run) := by
  refine staysSeq activeRunLock fun active => ?_
  split
  · exact .inl rfl
  refine followsStep rfl fun stopping => ?_
  cases stopping with
  | true => exact .inl rfl
  | false =>
  refine followsStep trivial fun _ => followsStep trivial fun published => ?_
  cases published with
  | error error => exact .inr ⟨run, rfl⟩
  | ok _ =>
  refine followsStep rfl fun _ => followsSeq terminateLock fun result q settled =>
    followsStep (settledUnlock settled) fun _ => ?_
  have ended : q.release.ends := .inr ⟨run, settledStopped settled⟩
  split <;> exact ended

theorem lockedTerminate {α : Type} {use} {post : α → Grip → Prop} {rest : Program α}
    (other : use ≠ .stop) (follows : (locks sup).Follows post .free rest) :
    (locks sup).Follows post .free (do
      lockProcess run use
      let _ ← terminate run
      unlockProcess run
      rest) := by
  have calls : Grip.free = use.calls run := by cases use <;> first | rfl | exact absurd rfl other
  refine followsStep calls fun _ => followsSeq terminateLock fun _ q settled =>
    followsStep (settledUnlock settled) fun _ => ?_
  exact followsFrom (settledRelease settled other) follows

theorem finalizeRunLock {failure stderrFailed exit} : (locks sup).Stays .free
    (finalizeRun sup session run failure stderrFailed exit) := by
  have released : (releaseLease run).Only Act.Bare := by
    refine onlyBind (onlyOne trivial) fun leased => ?_
    split
    · exact onlyBind (onlyOne trivial) fun _ => onlyBind (onlyOne trivial) fun _ => trivial
    · trivial
  refine followsStep trivial fun finalized => ?_
  split
  · rfl
  refine followsStep trivial fun _ => followsStep trivial fun _ => staysSeq (bareStays released) fun _ =>
    followsStep trivial fun stopRequested => followsStep trivial fun _ => ?_
  split
  · rfl
  · exact staysSeq (publishLock rfl) fun _ => rfl

theorem reapRunLock {failure} : (locks sup).Stays .free (reapRun sup session run failure) :=
  followsStep trivial fun _ => followsStep rfl fun _ => followsStep (.inr (.inl rfl)) fun _ =>
    followsStep (.inr ⟨.wait, .inl rfl⟩) fun _ => finalizeRunLock

theorem finishRunLock {failure} : (locks sup).Stays .free (finishRun sup session run failure) := by
  unfold finishRun
  split
  · have recorded : ∀ {failure}, (locks sup).Stays .free (recordProtocolFailure sup session run failure) :=
      followsStep trivial fun _ => staysSeq (publishLock (q := .free) rfl) fun _ => rfl
    exact staysSeq recorded fun _ => lockedTerminate (by decide) reapRunLock
  · exact reapRunLock

theorem recordLaunchFailureLock {error} : (locks sup).Stays .free
    (recordLaunchFailure sup session error) :=
  followsStep trivial fun _ => staysSeq (publishLock (q := .free) rfl) fun _ => rfl

theorem abandonLaunchLock {error operation} : (locks sup).Stays .free
    (abandonLaunch sup session run error operation) :=
  staysSeq terminateFree fun _ => staysSeq recordLaunchFailureLock fun _ => rfl

theorem dropLaunchGuardLock {token reserved committed} : (locks sup).Stays .free
    (dropLaunchGuard session token reserved committed) := by
  refine followsStep trivial fun _ => ?_
  split
  · exact followsStep trivial fun _ => rfl
  · rfl

theorem launchLock {request binding} :
    (locks sup).Stays .free (launch sup session request binding) := by
  unfold launch
  split
  · rfl
  refine followsStep trivial fun began => ?_
  split
  · rfl
  have claimed : ∀ {token}, (claimLaunchBinding session token binding).Only Act.Bare := by
    intro token
    cases binding with
    | none => trivial
    | some value => exact onlyOne trivial
  refine followsStep trivial fun token => staysSeq (bareStays claimed) fun claimed => ?_
  split
  · exact followsStep trivial fun _ => rfl
  refine followsStep trivial fun _ => followsStep trivial fun _ => followsStep trivial fun _ =>
    followsStep trivial fun run => followsStep trivial fun spawned => ?_
  have abandoned : ∀ {error : ProcessError} {operation}, (locks sup).Stays .free (do
      let result ← abandonLaunch sup session run error operation
      dropLaunchGuard session token binding false
      return (.error result : Except MaestroError RunId)) := fun {error operation} =>
    staysSeq abandonLaunchLock fun _ => staysSeq dropLaunchGuardLock fun _ => rfl
  split
  · exact staysSeq recordLaunchFailureLock fun _ => staysSeq dropLaunchGuardLock fun _ => rfl
  refine followsStep trivial fun taken => ?_
  split
  · exact abandoned
  refine followsStep trivial fun taken => ?_
  split
  · exact abandoned
  refine followsStep trivial fun installed => ?_
  cases installed with
  | true =>
    refine followsStep trivial fun _ => staysSeq dropLaunchGuardLock fun _ =>
      staysSeq (publishLock rfl) fun published => ?_
    cases published with
    | error error => rfl
    | ok _ => exact followsStep trivial fun _ => rfl
  | false => exact lockedTerminate (by decide) (staysSeq dropLaunchGuardLock fun _ => rfl)

theorem superviseDurablyLock {afterSequence} : (locks sup).Follows (fun _ q => q.ends) .free
    (superviseDurably sup session run afterSequence) := by
  refine followsStep trivial fun stored => ?_
  split
  · exact followsStep trivial fun _ => .inl rfl
  · exact followsSeq stopLock fun _ _ ends => ends

theorem handleStartLock {request} : (locks sup).Follows (fun _ q => q.ends) .free
    (handleStart sup request) := by
  have started : (locks sup).Stays .free (start sup request) := by
    refine followsStep trivial fun created => ?_
    split
    · rfl
    refine staysSeq launchLock fun launched => ?_
    split
    · rfl
    refine followsStep trivial fun state => ?_
    split
    · exact followsStep trivial fun _ => rfl
    · rfl
  refine staysSeq started fun result => ?_
  split
  · exact .inl rfl
  · exact superviseDurablyLock

theorem handleResumeLock {request} : (locks sup).Follows (fun _ q => q.ends) .free
    (handleResume sup session request) := by
  have resumed : (locks sup).Stays .free (resume sup session request) := by
    refine followsStep trivial fun found => ?_
    split
    · rfl
    refine followsStep trivial fun binding => ?_
    split
    · rfl
    · exact launchLock
  refine followsStep trivial fun found => ?_
  split
  · exact .inl rfl
  refine followsStep trivial fun before => staysSeq resumed fun result => ?_
  split
  · exact .inl rfl
  · exact superviseDurablyLock

theorem readerLock {o : Act} (reader : ReaderAct session run o) :
    (locks sup).may .free o ∧ ∀ answer, (locks sup).after .free o answer = .free := by
  cases o <;> first | exact bareQuiet trivial | exact reader.elim | skip
  case session s call =>
    cases call <;> first | exact bareQuiet trivial | exact reader.elim | skip
    exact ⟨trivial, fun answer => by cases answer <;> rfl⟩
  case run r call => cases call <;> first | exact bareQuiet trivial | exact reader.2.elim

theorem monitorBare {o : Act} (monitor : MonitorAct session run o) : o.Bare := by
  cases o <;> first | exact trivial | exact monitor.elim | skip
  case session s call => cases call <;> first | exact trivial | exact monitor.elim
  case run r call => cases call <;> first | exact trivial | exact monitor.elim

theorem stderrBare {o : Act} (stderr : StderrAct session run o) : o.Bare := by
  cases o <;> first | exact trivial | exact stderr.elim | skip
  case session s call => cases call <;> first | exact trivial | exact stderr.elim
  case run r call => cases call <;> first | exact trivial | exact stderr.elim

theorem replyLock {call : Program (Except MaestroError Unit)}
    (follows : (locks sup).Follows (fun _ q => q.ends) .free call) :
    (locks sup).Follows (locks sup).EntryPost .free (reply call) :=
  followsSeq follows fun _ _ ends => followsStep trivial fun _ => ends

theorem replyFree {call : Program (Except MaestroError Unit)} (stays : (locks sup).Stays .free call) :
    (locks sup).Follows (locks sup).EntryPost .free (reply call) :=
  replyLock (staysEnd stays fun _ => .inl rfl)

theorem entryFree {next : Option Entry} : (locks sup).EntryPost next .free := by
  cases next with
  | none => exact .inl rfl
  | some e => rfl

theorem locksSound : (locks sup).Sound := by
  intro e
  cases e with
  | start request => exact replyLock handleStartLock
  | resume session request => exact replyLock handleResumeLock
  | respondPermission => exact replyFree respondPermissionLock
  | respondUserInput => exact replyFree respondUserInputLock
  | sendGuiAction => exact replyFree sendGuiActionLock
  | stop => exact replyLock stopLock
  | expiry =>
    exact followsStep trivial fun _ => staysSeq expireRequestLock fun _ => entryFree
  | stderrReader =>
    exact staysEnd (staysOnly readStderrOnly fun _ h => bareQuiet (stderrBare h)) fun _ => entryFree
  | supervise => exact followsStep trivial fun _ => entryFree
  | stdoutReader =>
    exact staysEnd (staysOnly readStdoutReader fun _ => readerLock) fun _ => entryFree
  | finish => exact staysSeq finishRunLock fun _ => entryFree
  | monitor =>
    exact staysEnd (staysOnly monitorMonitor fun _ h => bareQuiet (monitorBare h)) fun _ => entryFree
  | monitorLoop =>
    exact staysEnd (staysOnly monitorLoopMonitor fun _ h => bareQuiet (monitorBare h)) fun _ => entryFree

end Soundness

/-! One holder, and whole lines. -/

structure Hold where
  locked : Option LockUse
  stdin : Option Stdin
  readEndOpen : Bool
  flushing : Bool

def Process.hold (p : Process) : Hold := ⟨p.locked, p.stdin, p.readEndOpen, p.flushing⟩

def Memory.hold (m : Memory) (run : RunId) : Option Hold := (m.runs run).map fun control => control.process.hold

/-- What went to the child and what waits for it, as long as it reads, are whole lines
with `last` after them. -/
def Hold.Carries (sup : Supervisor) (h : Hold) (last : Bytes) : Prop :=
  ∀ stdin, h.stdin = some stdin → ∃ lines : List Bytes, (∀ line ∈ lines, Line sup line) ∧
    stdin.sent <+: lines.flatten ++ last ∧
    (h.readEndOpen = true → stdin.sent ++ stdin.unsent = lines.flatten ++ last)

structure Hold.Sane (sup : Supervisor) (h : Hold) : Prop where
  calm : h.locked = none → h.flushing = false
  drained : h.flushing = false → ∀ stdin, h.stdin = some stdin → stdin.direct = []
  whole : h.Carries sup []

def Grip.writes : Grip → Option Bytes
  | .flushing _ bytes => some bytes
  | _ => none

structure Hold.Held (sup : Supervisor) (h : Hold) (writes : Option Bytes) : Prop where
  taken : h.locked ≠ none
  flushing : h.flushing = writes.isSome
  carries : ∀ bytes, writes = some bytes → h.Carries sup bytes

def locking (sup : Supervisor) : Outline (locks sup) where
  Inv m := ∀ run hold, m.hold run = some hold → hold.Sane sup
  Here q m := ∀ run, q.holds = some run → ∃ hold, m.hold run = some hold ∧ hold.Held sup q.writes
  Apart q other := ∀ run, q.holds = some run → other.holds ≠ some run

def RunCall.Neutral : RunCall → Prop
  | .lock _ | .unlock | .stdinWrite .. | .awaitFlush => False
  | _ => True

def Act.Neutral : Act → Prop
  | .run _ call => call.Neutral
  | .spawnStructured .. => False
  | _ => True

section Holding
variable {sup : Supervisor} {q : Grip} {m m' : Memory} {run : RunId}

theorem holdFound {control} (found : m.runs run = some control) :
    m.hold run = some control.process.hold := by simp [Memory.hold, found]

theorem holdControl {hold} (h : m.hold run = some hold) :
    ∃ control, m.runs run = some control ∧ control.process.hold = hold := by
  obtain ⟨control, found, same⟩ := Option.map_eq_some_iff.mp h
  exact ⟨control, found, same⟩

theorem holdUpdated {control r} :
    Memory.hold { m with runs := Function.update m.runs run (some control) } r =
      if r = run then some control.process.hold else m.hold r := by
  unfold Memory.hold
  by_cases same : r = run
  · subst same
    simp
  · simp [same]

theorem performHold {now choice call} {c c' : RunControl} {answer : RunCall.Answer call}
    (h : c.perform sup now choice call = some (answer, c')) (neutral : call.Neutral) :
    c'.process.hold = c.process.hold := by
  cases call with
  | lock | unlock | stdinWrite | awaitFlush => exact neutral.elim
  | _ =>
    simp only [RunControl.perform] at h
    repeat' split at h
    all_goals first | contradiction | (cases Option.some.inj h; rfl)

theorem applyHold {o choice} {answer : o.Answer} (h : apply sup o choice m = some (answer, m'))
    (neutral : o.Neutral) (r : RunId) : m'.hold r = m.hold r := by
  have untouched : (∀ call, o ≠ .run r call) → m'.hold r = m.hold r := by
    intro elsewhere
    have same : m'.runs r = m.runs r :=
      runsKept h (by rintro _ _ _ _ _ rfl; exact neutral) elsewhere
    simp only [Memory.hold, same]
  cases o with
  | run id call =>
    by_cases same : id = r
    · subst same
      obtain ⟨control, control', found, performed, rfl⟩ := applyRun h
      rw [holdUpdated, if_pos rfl, holdFound found, performHold performed neutral]
    · exact untouched fun call' eq => same (Act.run.inj eq).1
  | _ => exact untouched (by simp)

theorem afterNeutral {o : Act} (neutral : o.Neutral) (may : q.may sup o) (answer : o.Answer) :
    (q.after o answer).holds = q.holds ∧ (q.after o answer).writes = q.writes := by
  have finished : q.finish.holds = q.holds ∧ q.finish.writes = q.writes := by cases q <;> exact ⟨rfl, rfl⟩
  have failed : q.fail.holds = q.holds ∧ q.fail.writes = q.writes := by cases q <;> exact ⟨rfl, rfl⟩
  have killed : q.kill.holds = q.holds ∧ q.kill.writes = q.writes := by cases q <;> exact ⟨rfl, rfl⟩
  cases o with
  | session s call =>
    cases call with
    | publish => cases answer <;> first | exact failed | exact ⟨rfl, rfl⟩
    | _ => exact ⟨rfl, rfl⟩
  | run r call =>
    cases call with
    | swapStopRequested =>
      obtain rfl : q = .free := may
      cases answer <;> exact ⟨rfl, rfl⟩
    | completedResult | waitWithin => cases answer <;> first | exact finished | exact ⟨rfl, rfl⟩
    | waitExit => exact finished
    | signalGroup => cases answer <;> first | exact failed | exact ⟨rfl, rfl⟩
    | sealGroup => cases answer <;> first | exact failed | exact killed
    | lock | unlock | stdinWrite | awaitFlush => exact neutral.elim
    | _ => exact ⟨rfl, rfl⟩
  | _ => exact ⟨rfl, rfl⟩

theorem regripKept {q' : Grip} (inv : (locking sup).Inv m)
    (elsewhere : ∀ r, r ≠ run → m'.hold r = m.hold r)
    (sane : ∀ hold, m'.hold run = some hold → hold.Sane sup) (here : (locking sup).Here q' m')
    (alone : ∀ other, (locking sup).Here other m → (locking sup).Apart q other → other.holds ≠ some run)
    (own : ∀ r, q'.holds = some r → r = run) : (locking sup).Kept m m' q q' none := by
  refine ⟨?_, here, by simp, ?_⟩
  · intro r hold found
    by_cases same : r = run
    · subst same
      exact sane hold found
    · rw [elsewhere r same] at found
      exact inv r hold found
  · intro other otherHere apart
    have free := alone other otherHere apart
    refine ⟨?_, ?_, by simp⟩
    · intro r holds
      have different : r ≠ run := by
        rintro rfl
        exact free holds
      rw [elsewhere r different]
      exact otherHere r holds
    · intro r holds held
      cases own r holds
      exact free held

theorem settleUnsent {buffer : Nat} {s : Stdin} : (s.settle buffer).unsent = s.unsent := by
  unfold Stdin.settle
  split
  · rename_i small
    simp [Stdin.unsent, small.1]
  · rfl

theorem settleSent {buffer : Nat} {s : Stdin} : (s.settle buffer).sent = s.sent := by
  unfold Stdin.settle
  split <;> rfl

theorem offerUnsent {buffer : Nat} {s : Stdin} {bytes : Bytes} (drained : s.direct = []) :
    (s.offer buffer bytes).unsent = s.unsent ++ bytes := by
  unfold Stdin.offer
  split
  · rw [settleUnsent]
    simp [Stdin.unsent, drained]
  · simp [Stdin.unsent, drained]

theorem offerSent {buffer : Nat} {s : Stdin} {bytes : Bytes} :
    (s.offer buffer bytes).sent = s.sent := by
  unfold Stdin.offer
  split
  · exact settleSent
  · rfl

theorem pumpSent {capacity buffer count : Nat} {s s' : Stdin}
    (h : s.pump capacity buffer count = some s') :
    s'.sent = s.sent ++ s.unsent.take count ∧ s'.unsent = s.unsent.drop count := by
  simp only [Stdin.pump] at h
  split at h
  · cases Option.some.inj h
    refine ⟨settleSent, settleUnsent.trans ?_⟩
    simp [Stdin.unsent, List.drop_append]
  · contradiction

theorem pumpedCarries {h : Hold} {capacity buffer count : Nat} {stdin pumped : Stdin} {last : Bytes}
    (carries : h.Carries sup last) (found : h.stdin = some stdin) (reads : h.readEndOpen = true)
    (pump : stdin.pump capacity buffer count = some pumped) :
    Hold.Carries sup { h with stdin := some pumped } last := by
  rintro _ ⟨⟩
  obtain ⟨lines, complete, _, all⟩ := carries stdin found
  obtain ⟨sent, unsent⟩ := pumpSent pump
  have whole : pumped.sent ++ pumped.unsent = lines.flatten ++ last := by
    rw [sent, unsent, List.append_assoc, List.take_append_drop, all reads]
  exact ⟨lines, complete, ⟨_, whole⟩, fun _ => whole⟩

theorem closedCarries {h : Hold} {last : Bytes} (carries : h.Carries sup last) :
    Hold.Carries sup { h with readEndOpen := false } last := by
  intro stdin found
  obtain ⟨lines, complete, sent, _⟩ := carries stdin found
  exact ⟨lines, complete, sent, fun reads => by cases reads⟩

theorem lockKept {use : LockUse} {choice} {answer : Unit} (inv : (locking sup).Inv m)
    (effect : apply sup (.run run (.lock use)) choice m = some (answer, m')) :
    (locking sup).Kept m m' q (.holding run use) none := by
  obtain ⟨control, control', found, performed, rfl⟩ := applyRun effect
  simp only [RunControl.perform] at performed
  split at performed
  · rename_i unlocked
    cases Option.some.inj performed
    have sane := inv run _ (holdFound found)
    have calm := sane.calm unlocked
    refine regripKept inv (fun r different => by rw [holdUpdated, if_neg different]) ?_ ?_ ?_ ?_
    · intro hold same
      rw [holdUpdated, if_pos rfl] at same
      cases Option.some.inj same
      exact ⟨by simp [Process.hold], sane.drained, sane.whole⟩
    · rintro r ⟨⟩
      rw [holdUpdated, if_pos rfl]
      exact ⟨_, rfl, by simp [Process.hold], calm, by simp [Grip.writes]⟩
    · intro other here apart holds
      obtain ⟨hold, same, held⟩ := here run holds
      rw [holdFound found] at same
      cases Option.some.inj same
      exact held.taken unlocked
    · rintro r ⟨⟩
      rfl
  · contradiction

theorem unlockKept {choice} {answer : Unit} (inv : (locking sup).Inv m) (here : (locking sup).Here q m)
    (holds : q.holds = some run) (idle : q.writes = none) {q' : Grip} (gone : q'.holds = none)
    (effect : apply sup (.run run .unlock) choice m = some (answer, m')) :
    (locking sup).Kept m m' q q' none := by
  obtain ⟨control, control', found, performed, rfl⟩ := applyRun effect
  cases Option.some.inj performed
  have sane := inv run _ (holdFound found)
  obtain ⟨hold, same, held⟩ := here run holds
  rw [holdFound found] at same
  cases Option.some.inj same
  have calm := held.flushing
  rw [idle] at calm
  refine regripKept inv (fun r different => by rw [holdUpdated, if_neg different]) ?_ ?_ ?_ ?_
  · intro hold same
    rw [holdUpdated, if_pos rfl] at same
    cases Option.some.inj same
    exact ⟨fun _ => calm, sane.drained, sane.whole⟩
  · intro r holds
    rw [gone] at holds
    cases holds
  · exact fun other _ apart => apart run holds
  · intro r holds
    rw [gone] at holds
    cases holds

theorem lineKept {bytes purpose choice} {answer : Bool} (inv : (locking sup).Inv m)
    (here : (locking sup).Here (.holding run .write) m) (line : Line sup bytes)
    (effect : apply sup (.run run (.stdinWrite bytes purpose)) choice m = some (answer, m')) :
    (locking sup).Kept m m' (.holding run .write)
      (Grip.afterCall (.holding run .write) run (.stdinWrite bytes purpose) answer) none := by
  obtain ⟨control, control', found, performed, rfl⟩ := applyRun effect
  have sane := inv run _ (holdFound found)
  obtain ⟨hold, same, held⟩ := here run rfl
  rw [holdFound found] at same
  cases Option.some.inj same
  simp only [RunControl.perform] at performed
  split at performed
  · cases Option.some.inj performed
    refine regripKept inv (fun r different => by rw [holdUpdated, if_neg different]) ?_ ?_
      (fun other _ apart => apart run rfl) (by rintro r ⟨⟩; rfl)
    · intro hold same
      rw [holdUpdated, if_pos rfl] at same
      cases Option.some.inj same
      exact sane
    · rintro r ⟨⟩
      rw [holdUpdated, if_pos rfl]
      exact ⟨_, rfl, held⟩
  · rename_i stdin present
    cases Option.some.inj performed
    have drained := sane.drained held.flushing stdin present
    obtain ⟨lines, complete, sent, all⟩ := sane.whole stdin present
    rw [List.append_nil] at sent all
    have unsent : (stdin.offer sup.stdinBuffer bytes).unsent = stdin.unsent ++ bytes :=
      offerUnsent drained
    -- The line joins the ones that were written before it.
    have joined : ∀ {last : Bytes} (lines' : List Bytes), (∀ line ∈ lines', Line sup line) →
        lines'.flatten ++ last = lines.flatten ++ bytes →
        Hold.Carries sup { control.process.hold with
          stdin := some (stdin.offer sup.stdinBuffer bytes), flushing := true } last := by
      rintro last lines' complete' same _ ⟨⟩
      refine ⟨lines', complete', ?_, fun reads => ?_⟩
      · rw [offerSent, same]
        exact sent.trans (List.prefix_append _ _)
      · rw [offerSent, unsent, ← List.append_assoc, all reads, same]
    refine regripKept inv (fun r different => by rw [holdUpdated, if_neg different]) ?_ ?_
      (fun other _ apart => apart run rfl) (by rintro r ⟨⟩; rfl)
    · intro hold same
      rw [holdUpdated, if_pos rfl] at same
      cases Option.some.inj same
      refine ⟨fun unlocked => absurd unlocked held.taken, fun h => (by cases h), ?_⟩
      refine joined (lines ++ [bytes]) ?_ (by simp)
      intro line member
      rcases List.mem_append.mp member with old | new
      · exact complete line old
      · cases List.mem_singleton.mp new
        exact line
    · rintro r ⟨⟩
      rw [holdUpdated, if_pos rfl]
      exact ⟨_, rfl, held.taken, rfl, by rintro _ ⟨⟩; exact joined lines complete rfl⟩

theorem flushKept {bytes choice} {answer : Bool} (inv : (locking sup).Inv m)
    (here : (locking sup).Here (.flushing run bytes) m)
    (effect : apply sup (.run run .awaitFlush) choice m = some (answer, m')) :
    (locking sup).Kept m m' (.flushing run bytes) (.holding run .write) none := by
  obtain ⟨control, control', found, performed, rfl⟩ := applyRun effect
  have sane := inv run _ (holdFound found)
  obtain ⟨hold, same, held⟩ := here run rfl
  rw [holdFound found] at same
  cases Option.some.inj same
  have ended : ∀ {process : Process}, process.locked = control.process.locked → process.flushing = false →
      process.hold.Sane sup → (locking sup).Kept m
        { m with runs := Function.update m.runs run (some { control with process := process }) }
        (.flushing run bytes) (.holding run .write) none := by
    intro process locked calm sane'
    refine regripKept inv (fun r different => by rw [holdUpdated, if_neg different]) ?_ ?_
      (fun other _ apart => apart run rfl) (by rintro r ⟨⟩; rfl)
    · intro hold same
      rw [holdUpdated, if_pos rfl] at same
      cases Option.some.inj same
      exact sane'
    · rintro r ⟨⟩
      rw [holdUpdated, if_pos rfl]
      exact ⟨_, rfl, fun h => held.taken (locked.symm.trans h), calm, by simp [Grip.writes]⟩
  simp only [RunControl.perform] at performed
  split at performed
  · contradiction
  · rename_i stdin present
    split at performed
    · rename_i flushed
      cases Option.some.inj performed
      refine ended rfl rfl ⟨fun _ => rfl, fun _ s same => ?_, sane.whole⟩
      cases Option.some.inj (present.symm.trans same)
      exact (List.append_eq_nil_iff.mp flushed).2
    · split at performed
      · contradiction
      · rename_i closed
        cases Option.some.inj performed
        refine ended rfl rfl ⟨fun _ => rfl, ?_, ?_⟩
        · rintro _ s ⟨⟩
          rfl
        · rintro s ⟨⟩
          obtain ⟨lines, complete, sent, _⟩ := sane.whole stdin present
          exact ⟨lines, complete, sent, fun reads => absurd reads closed⟩

theorem spawnedSane {session token binding capture} :
    (RunControl.new sup session token binding capture).process.hold.Sane sup := by
  refine ⟨fun _ => rfl, ?_, ?_⟩
  · rintro _ s ⟨⟩
    rfl
  · rintro s ⟨⟩
    exact ⟨[], by simp, by simp, fun _ => by simp [Stdin.unsent]⟩

theorem spawnHold {session token binding capture spec choice answer}
    (effect : apply sup (.spawnStructured session run token binding capture spec) choice m =
      some (answer, m')) : m' = m ∨
      m' = { m with runs := Function.update m.runs run (some (.new sup session token binding capture)) } := by
  simp only [apply] at effect
  split at effect
  · cases Option.some.inj effect
    exact .inr rfl
  · cases Option.some.inj effect
    exact .inl rfl
  · contradiction

theorem keptSame {new : Option Entry} {q' : Grip} (inv : (locking sup).Inv m)
    (here : (locking sup).Here q m) (same : ∀ r, m'.hold r = m.hold r)
    (grip : q'.holds = q.holds ∧ q'.writes = q.writes) : (locking sup).Kept m m' q q' new := by
  refine ⟨?_, ?_, ?_, ?_⟩
  · intro run hold found
    rw [same] at found
    exact inv run hold found
  · intro run holds
    rw [same, grip.2]
    rw [grip.1] at holds
    exact here run holds
  · rintro e -
    exact ⟨by rintro run ⟨⟩, by rintro run - ⟨⟩⟩
  · intro other otherHere apart
    refine ⟨?_, ?_, ?_⟩
    · intro run holds
      rw [same]
      exact otherHere run holds
    · intro run holds
      rw [grip.1] at holds
      exact apart run holds
    · rintro e - run ⟨⟩

theorem neutralKept {o choice} {answer : o.Answer} (neutral : o.Neutral) (inv : (locking sup).Inv m)
    (here : (locking sup).Here q m) (may : (locks sup).may q o)
    (effect : apply sup o choice m = some (answer, m')) :
    (locking sup).Kept m m' q ((locks sup).after q o answer) ((machine sup).spawns o) :=
  keptSame inv here (applyHold effect neutral) (afterNeutral neutral may answer)

theorem outsideHold {x} (inv : (locking sup).Inv m) (effect : outside sup x m = some m') :
    (locking sup).Inv m' ∧ ∀ q, (locking sup).Here q m → (locking sup).Here q m' := by
  rcases outsideCases effect with ⟨_, _, rfl⟩ | ⟨run, control, process, named, found, stepped, rfl⟩
  · exact ⟨inv, fun q here => here⟩
  have sane := inv run _ (holdFound found)
  -- The child, the pipe and their ends leave the lock alone and carry what was written.
  have kept : process.hold.Sane sup ∧
      ∀ writes, control.process.hold.Held sup writes → process.hold.Held sup writes := by
    have carried : process.locked = control.process.locked → process.flushing = control.process.flushing →
        (∀ last, control.process.hold.Carries sup last → process.hold.Carries sup last) →
        (process.flushing = false → ∀ stdin, process.stdin = some stdin → stdin.direct = []) →
        process.hold.Sane sup ∧
          ∀ writes, control.process.hold.Held sup writes → process.hold.Held sup writes := by
      intro locked flushing carries drained
      refine ⟨⟨?_, drained, carries _ sane.whole⟩, fun writes held => ⟨?_, ?_, ?_⟩⟩
      · intro unlocked
        exact flushing.trans (sane.calm (locked.symm.trans unlocked))
      · exact fun unlocked => held.taken (locked.symm.trans unlocked)
      · exact flushing.trans held.flushing
      · exact fun bytes writing => carries _ (held.carries bytes writing)
    cases x with
    | tick => cases stepped
    | pump r count =>
      simp only [Process.outside] at stepped
      split at stepped
      · rename_i flushes
        obtain ⟨stdin, present, rest⟩ := Option.bind_eq_some_iff.mp stepped
        obtain ⟨pumped, pump, last⟩ := Option.bind_eq_some_iff.mp rest
        cases Option.some.inj last
        exact carried rfl rfl (fun last carries => pumpedCarries carries present flushes.2 pump)
          fun calm => by rw [flushes.1] at calm; cases calm
      · contradiction
    | childReads r count =>
      simp only [Process.outside] at stepped
      obtain ⟨stdin, present, rest⟩ := Option.bind_eq_some_iff.mp stepped
      split at rest
      · cases Option.some.inj rest
        refine carried rfl rfl ?_ ?_
        · rintro last carries s ⟨⟩
          exact carries stdin present
        · rintro calm s ⟨⟩
          exact sane.drained calm stdin present
      · contradiction
    | childClosesStdin r =>
      cases Option.some.inj stepped
      exact carried rfl rfl (fun _ => closedCarries) sane.drained
    | childExits r outcome =>
      simp only [Process.outside] at stepped
      split at stepped
      · contradiction
      · cases Option.some.inj stepped
        exact carried rfl rfl (fun _ => closedCarries) sane.drained
  refine ⟨?_, ?_⟩
  · intro r hold same
    rw [holdUpdated] at same
    split at same
    · cases Option.some.inj same
      exact kept.1
    · exact inv r hold same
  · intro q here r holds
    obtain ⟨hold, same, held⟩ := here r holds
    rw [holdUpdated]
    split
    · rename_i eq
      subst eq
      rw [holdFound found] at same
      cases Option.some.inj same
      exact ⟨_, rfl, kept.2 _ held⟩
    · exact ⟨hold, same, held⟩

def Unknown (_ : Grip) : Act → Memory → Prop
  | .spawnStructured _ run .., m => m.runs run = none
  | _, _ => True

theorem lockingValid : (locking sup).Valid Unknown where
  symm apart run holds held := apart run held holds
  call := fun _ _ => ⟨by rintro run ⟨⟩, by rintro other - run ⟨⟩⟩
  outside := outsideHold
  act := by
    intro q o choice m answer m' inv here may allowed effect
    cases o with
    | run run call =>
      cases call with
      | lock use => exact lockKept inv effect
      | unlock =>
        have released : q.holds = some run ∧ q.writes = none ∧ q.release.holds = none := by
          rcases may with rfl | ⟨use, rfl | rfl⟩
          · exact ⟨rfl, rfl, rfl⟩
          · cases use <;> exact ⟨rfl, rfl, rfl⟩
          · cases use <;> exact ⟨rfl, rfl, rfl⟩
        exact @unlockKept sup q m m' run choice answer inv here released.1 released.2.1 _ released.2.2 effect
      | stdinWrite bytes purpose =>
        obtain ⟨rfl, line⟩ := may
        exact lineKept inv here line effect
      | awaitFlush =>
        obtain ⟨bytes, rfl⟩ := may
        exact flushKept inv here effect
      | _ => exact @neutralKept sup q m m' _ choice answer (by exact trivial) inv here may effect
    | spawnStructured session run token binding capture spec =>
      rcases spawnHold effect with rfl | rfl
      · exact keptSame inv here (fun _ => rfl) ⟨rfl, rfl⟩
      have unknown : m.hold run = none := by
        have absent : m.runs run = none := allowed
        simp [Memory.hold, absent]
      have unheld : ∀ {q r}, (locking sup).Here q m → q.holds = some r → r ≠ run := by
        rintro q r here holds rfl
        obtain ⟨hold, same, _⟩ := here r holds
        rw [unknown] at same
        cases same
      have still : ∀ q, (locking sup).Here q m → (locking sup).Here q { m with
          runs := Function.update m.runs run (some (.new sup session token binding capture)) } := by
        intro q here r holds
        rw [holdUpdated, if_neg (unheld here holds)]
        exact here r holds
      refine ⟨?_, still q here, by simp [Act.spawned], fun other otherHere apart =>
        ⟨still other otherHere, apart, by simp [Act.spawned]⟩⟩
      intro r hold same
      rw [holdUpdated] at same
      split at same
      · cases Option.some.inj same
        exact spawnedSane
      · exact inv r hold same
    | _ => exact @neutralKept sup q m m' _ choice answer (by exact trivial) inv here may effect

theorem initiallyLocking : (locking sup).Holds (initially sup) :=
  Outline.holdsEmpty fun run hold found => by cases found

end Holding
end Maestro.Session
