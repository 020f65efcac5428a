import Maestro.Setting

/-! The waiting state of a session follows the pending requests of its run. A task that
changed them owes the session an update until it has set the state that the tracker, or
the request it registered, called for. -/
namespace Maestro.Session
open Interleaving Prog Protocol

def waitingFor : PendingKind → SessionState
  | .permission => .awaitingPermission
  | .userInput => .awaitingUserInput
  | .guiAction => .running

/-- `asking` has not yet seen that the run is the session's, `holding` knows the state it
is about to set, `finishing` has begun to end the run; `other` tasks touch no tracker. -/
inductive Update where
  | other
  | asking (session : SessionId) (run : RunId)
  | serving (session : SessionId) (run : RunId)
  | owing (session : SessionId) (run : RunId)
  | holding (session : SessionId) (run : RunId) (target : SessionState)
  | finishing (session : SessionId) (run : RunId)
  deriving DecidableEq, Repr

namespace Update

def run : Update → Option RunId
  | .other => none
  | .asking _ run | .serving _ run | .owing _ run | .holding _ run _ | .finishing _ run => some run

def served : Update → Option (SessionId × RunId)
  | .other | .asking .. => none
  | .serving session run | .owing session run | .holding session run _ | .finishing session run =>
      some (session, run)

def ofEntry : Entry → Update
  | .respondPermission session run .. | .respondUserInput session run .. | .sendGuiAction session run ..
  | .stop session run => .asking session run
  | .expiry session run .. | .supervise session run | .stdoutReader session run _
  | .finish session run _ => .serving session run
  | .start _ | .resume .. | .stderrReader .. | .monitor .. | .monitorLoop .. => .other

def mayTrack (q : Update) (run : RunId) : PendingTracker.Call → Prop
  | .register .. | .resolveInFlight .. | .markDeliveryUncertain .. | .expire .. | .confirmResolved .. =>
      ∃ session, q = .serving session run
  | .resolveActive _ kind | .forceResolve _ kind => kind = .guiAction
  | .clearActive => ∃ session, q = .finishing session run
  | .waitingState => ∃ session, q = .owing session run
  | .claimActive .. | .restoreInFlight .. => True

def maySpawn (q : Update) : Entry → Prop
  | .expiry session run .. => q.served = some (session, run)
  | .supervise .. | .stderrReader .. | .monitor .. => True
  | _ => False

def maySet (session : SessionId) (target : SessionState) : Update → Prop
  | .other => True
  | .serving s _ => s = session ∧ (target = .ready ∨ target = .running)
  | .holding s _ held => s = session ∧ target = held
  | .finishing s _ => s = session
  | .asking .. | .owing .. => False

def may (q : Update) : Act → Prop
  | .run run (.tracker call) => q.mayTrack run call
  | .session session (.setState target) => q.maySet session target
  | .session session (.activeRun run) => q = .other ∨ q = .asking session run
  | .session session (.protocolFailure ..) => ∃ run, q = .serving session run
  | .session session (.finalize run _) => q = .finishing session run
  | .fresh | .createSession | .spawnStructured .. => q = .other
  | .spawn entry => q.maySpawn entry
  | _ => True

def owe : Update → Update
  | .serving session run => .owing session run
  | q => q

def hold (target : SessionState) : Update → Update
  | .owing session run => .holding session run target
  | q => q

def pay : Update → Update
  | .holding session run _ => .serving session run
  | q => q

def finish : Update → Update
  | .serving session run => .finishing session run
  | q => q

def afterTrack (q : Update) : (call : PendingTracker.Call) → call.Answer → Update
  | .register _ kind _, .ok () => if kind = .guiAction then q else q.owe.hold (waitingFor kind)
  | .waitingState, next => q.hold (next.getD .running)
  | .resolveInFlight .., .ok () | .markDeliveryUncertain .., _ | .expire .., some _
  | .confirmResolved .., true => q.owe
  | _, _ => q

def after (q : Update) : (o : Act) → o.Answer → Update
  | .run _ (.tracker call), answer => q.afterTrack call answer
  | .run _ .joinStderr, _ | .run _ .swapStopRequested, _ | .session _ (.protocolFailure ..), _ => q.finish
  | .session _ (.setState _), _ => q.pay
  | .session session (.activeRun run), .ok () =>
      if q = .asking session run then .serving session run else q
  | _, _ => q

def owes : Update → Option (SessionId × RunId)
  | .owing session run | .holding session run _ => some (session, run)
  | _ => none

def held : Update → Option (SessionId × RunId)
  | .holding session run _ => some (session, run)
  | _ => none

end Update

abbrev updates (sup : Supervisor) : Protocol (machine sup) where
  Place := Update
  enter := Update.ofEntry
  may := Update.may
  after := Update.after
  ends q := q.owes = none

section Soundness
variable {sup : Supervisor} {session : SessionId} {run : RunId} {q : Update}

def Update.Quiet (q : Update) (o : Act) : Prop := q.may o ∧ ∀ answer, q.after o answer = q

def PlainCall : RunCall → Prop
  | .tracker _ | .joinStderr | .swapStopRequested => False
  | _ => True

def Act.Plain : Act → Prop
  | .run _ call => PlainCall call
  | .session _ (.setState _) | .session _ (.activeRun _) | .session _ (.protocolFailure ..)
  | .session _ (.finalize ..) | .fresh | .createSession | .spawnStructured .. | .spawn _ => False
  | _ => True

theorem plainQuiet {o : Act} (plain : o.Plain) : q.Quiet o := by
  cases o <;> first | exact plain.elim | exact ⟨trivial, fun _ => rfl⟩ | skip
  case session s call => cases call <;> first | exact plain.elim | exact ⟨trivial, fun _ => rfl⟩
  case run r call => cases call <;> first | exact plain.elim | exact ⟨trivial, fun _ => rfl⟩

theorem plainStays {α : Type} {p : Program α} (only : p.Only Act.Plain) : (updates sup).Stays q p :=
  staysOnly only fun _ plain => plainQuiet plain

theorem refusesInputPlain : (refusesInput run).Only Act.Plain := by
  refine onlyBind (onlyOne trivial) fun finalized => ?_
  split
  · trivial
  · exact onlyOne trivial

theorem writeJsonBytesPlain {bytes purpose} : (writeJsonBytes run bytes purpose).Only Act.Plain := by
  have written : (processWrite run bytes purpose).Only Act.Plain := by
    refine onlyBind (onlyOne trivial) fun present => ?_
    split
    · refine onlyBind (onlyOne trivial) fun flushed => ?_
      split <;> trivial
    · trivial
  refine onlyBind refusesInputPlain fun refused => ?_
  split
  · trivial
  refine onlyBind (onlyOne trivial) fun _ => onlyBind refusesInputPlain fun refused => ?_
  split
  · exact onlyBind (onlyOne trivial) fun _ => trivial
  refine onlyBind written fun result => onlyBind (onlyOne trivial) fun _ => ?_
  split <;> trivial

theorem writeJsonPlain {value purpose} : (writeJson sup run value purpose).Only Act.Plain := by
  unfold writeJson
  split
  · trivial
  refine onlyBind writeJsonBytesPlain fun written => ?_
  split <;> trivial

theorem terminatePlain : (terminate run).Only Act.Plain :=
  terminateOnly ⟨trivial, trivial, trivial, trivial, trivial⟩

theorem publishPlain {source event} :
    (publish sup session (some run) source event).Only Act.Plain := onlyOne trivial

theorem adoptBindingPlain {frame} : (adoptBinding session run frame).Only Act.Plain := by
  unfold adoptBinding
  split
  · trivial
  split
  · trivial
  refine onlyBind (onlyOne trivial) fun leased => ?_
  split
  · split
    · trivial
    · exact onlyBind (onlyOne trivial) fun _ => trivial
  refine onlyBind (onlyOne trivial) fun token => onlyBind (onlyOne trivial) fun claimed => ?_
  split
  · trivial
  · exact onlyBind (onlyOne trivial) fun _ => onlyBind (onlyOne trivial) fun _ => trivial

abbrev Served (session : SessionId) (run : RunId) {α : Type} : α → Update → Prop :=
  fun _ q => q = .serving session run

theorem updateWaitingStateUpdate :
    (updates sup).Follows (Served session run) (.owing session run) (updateWaitingState session run) :=
  followsStep ⟨session, rfl⟩ fun _ => followsStep ⟨rfl, rfl⟩ fun _ => rfl

theorem expireRequestUpdate {requestId kind} :
    (updates sup).Stays (.serving session run) (expireRequest sup session run requestId kind) := by
  refine followsStep trivial fun finalized => ?_
  split
  · rfl
  refine followsStep ⟨session, rfl⟩ fun expired => ?_
  cases expired with
  | none => rfl
  | some registration =>
    refine staysSeq (plainStays publishPlain) fun _ => ?_
    split
    · exact staysSeq (plainStays writeJsonPlain) fun _ => updateWaitingStateUpdate
    · exact updateWaitingStateUpdate

theorem restoreAndExpireUpdate {requestId kind} :
    (updates sup).Stays (.serving session run) (restoreAndExpire sup session run requestId kind) := by
  refine followsStep trivial fun restored => ?_
  split
  · exact expireRequestUpdate
  · rfl

theorem concludeDeliveryUpdate {audit} : (updates sup).Follows (Served session run)
    (.owing session run) (concludeDelivery sup session run audit) := by
  refine followsSeq updateWaitingStateUpdate ?_
  rintro _ _ rfl
  refine staysSeq (plainStays publishPlain) fun published => ?_
  split <;> rfl

theorem deliverPendingResponseUpdate {requestId kind response audit} :
    (updates sup).Stays (.serving session run)
      (deliverPendingResponse sup session run requestId kind response audit) := by
  refine followsStep trivial fun claimed => ?_
  cases claimed with
  | error error => rfl
  | ok registration =>
    dsimp only [Update.after, Update.afterTrack]
    split
    · exact staysSeq restoreAndExpireUpdate fun _ => rfl
    refine staysSeq (plainStays writeJsonBytesPlain) fun written => ?_
    split
    · refine followsStep ⟨session, rfl⟩ fun completed => ?_
      cases completed with
      | error error => rfl
      | ok _ => exact concludeDeliveryUpdate
    · exact staysSeq restoreAndExpireUpdate fun _ => rfl
    · refine followsStep ⟨session, rfl⟩ fun resolved => ?_
      split
      · exact concludeDeliveryUpdate
      · refine followsSeq updateWaitingStateUpdate ?_
        rintro _ _ rfl
        rfl

def Asked (session : SessionId) (run : RunId) {α : Type} : α → Update → Prop :=
  fun _ q => q = .asking session run ∨ q = .serving session run

theorem activeRunUpdate : (updates sup).Follows (fun result q =>
    (result.isOk = false ∧ q = .asking session run) ∨ q = .serving session run)
    (.asking session run) (activeRun session run) := by
  refine followsStep trivial fun found => ?_
  split
  · exact .inl ⟨rfl, rfl⟩
  refine followsStep (.inr rfl) fun active => ?_
  cases active with
  | error error => exact .inl ⟨rfl, rfl⟩
  | ok _ =>
    dsimp only [Update.after]
    rw [if_pos rfl]
    refine followsStep trivial fun finalized => ?_
    split <;> exact .inr rfl

theorem askedFollows {α : Type} {rest : Except MaestroError Unit → Program α}
    {post : α → Update → Prop}
    (refused : ∀ error, (updates sup).Follows post (.asking session run) (rest (.error error)))
    (served : ∀ result, (updates sup).Follows post (.serving session run) (rest result)) :
    (updates sup).Follows post (.asking session run) (activeRun session run >>= rest) := by
  refine followsSeq activeRunUpdate fun result q ends => ?_
  rcases ends with ⟨failed, rfl⟩ | rfl
  · cases result with
    | error error => exact refused error
    | ok _ => cases failed
  · exact served result

theorem askedUpdate {α : Type} {rest : Except MaestroError Unit → Program α}
    (refused : ∀ error, (updates sup).Follows (Asked session run) (.asking session run) (rest (.error error)))
    (served : ∀ result, (updates sup).Stays (.serving session run) (rest result)) :
    (updates sup).Follows (Asked session run) (.asking session run)
      (activeRun session run >>= rest) :=
  askedFollows refused fun result => followsImp (served result) fun _ _ => .inr

theorem respondPermissionUpdate {requestId decision} : (updates sup).Follows (Asked session run)
    (.asking session run) (respondPermission sup session run requestId decision) := by
  unfold respondPermission
  split
  · exact .inl rfl
  refine askedUpdate (fun error => .inl rfl) fun result => ?_
  split
  · rfl
  · exact deliverPendingResponseUpdate

theorem respondUserInputUpdate {requestId value} : (updates sup).Follows (Asked session run)
    (.asking session run) (respondUserInput sup session run requestId value) := by
  unfold respondUserInput
  split
  · exact .inl rfl
  refine askedUpdate (fun error => .inl rfl) fun result => ?_
  split
  · rfl
  · exact deliverPendingResponseUpdate

theorem sendGuiActionUpdate {action payload} : (updates sup).Follows (Asked session run)
    (.asking session run) (sendGuiAction sup session run action payload) := by
  have registered : ∀ {actionId}, (updates sup).Stays (.serving session run)
      (registerPending sup session run actionId .guiAction) := by
    intro actionId
    unfold registerPending
    split
    · rfl
    refine followsStep trivial fun _ => followsStep ⟨session, rfl⟩ fun result => ?_
    cases result with
    | error error => rfl
    | ok _ => exact followsStep rfl fun _ => rfl
  unfold sendGuiAction
  split
  · exact .inl rfl
  refine askedUpdate (fun error => .inl rfl) fun result => ?_
  split
  · rfl
  refine followsStep trivial fun actionId => staysSeq registered fun result => ?_
  split
  · rfl
  refine staysSeq (plainStays publishPlain) fun published => ?_
  split
  · rfl
  refine staysSeq (plainStays writeJsonPlain) fun written => ?_
  split
  · exact followsStep rfl fun _ => rfl
  · rfl

theorem stopUpdate : (updates sup).Follows (fun _ q => q.owes = none) (.asking session run)
    (stop sup session run) := by
  refine askedFollows (fun error => rfl) fun result => ?_
  split
  · rfl
  refine followsStep trivial fun stopping => ?_
  split
  · rfl
  refine followsStep rfl fun _ => staysSeq (plainStays publishPlain) fun published => ?_
  split
  · rfl
  refine followsStep trivial fun _ => staysSeq (plainStays terminatePlain) fun ended =>
    followsStep trivial fun _ => ?_
  split <;> rfl

theorem handleRequestUpdate {kind category frame} (asks : kind ≠ .guiAction) :
    (updates sup).Stays (.serving session run)
      (handleRequest sup session run kind (waitingFor kind) category frame) := by
  unfold handleRequest
  split
  · rfl
  unfold registerPending
  split
  · rfl
  refine followsStep trivial fun _ => followsStep ⟨session, rfl⟩ fun result => ?_
  cases result with
  | error error => rfl
  | ok _ =>
    dsimp only [Update.after, Update.afterTrack]
    rw [if_neg asks]
    exact followsStep rfl fun _ => followsStep ⟨rfl, rfl⟩ fun _ => rfl

theorem handleResultUpdate {kind category frame} : (updates sup).Stays (.serving session run)
    (handleResult session run kind category frame) := by
  unfold handleResult
  split
  · rfl
  refine followsStep ⟨session, rfl⟩ fun confirmed => ?_
  cases confirmed with
  | false => rfl
  | true =>
    refine followsSeq updateWaitingStateUpdate ?_
    rintro _ _ rfl
    rfl

theorem handleAckUpdate {frame} : (updates sup).Stays (.serving session run) (handleAck run frame) := by
  unfold handleAck
  split
  · rfl
  refine followsStep rfl fun resolved => ?_
  cases resolved <;> rfl

theorem applyFrameUpdate {frame} :
    (updates sup).Stays (.serving session run) (applyFrame sup session run frame) := by
  unfold applyFrame
  split
  · exact plainStays adoptBindingPlain
  · exact plainStays adoptBindingPlain
  · exact handleRequestUpdate (show PendingKind.permission ≠ .guiAction by decide)
  · exact handleRequestUpdate (show PendingKind.userInput ≠ .guiAction by decide)
  · exact handleResultUpdate
  · exact handleResultUpdate
  · exact handleAckUpdate
  · rfl

theorem publishFrameUpdate {frame} :
    (updates sup).Stays (.serving session run) (publishFrame sup session run frame) := by
  refine staysSeq (plainStays publishPlain) fun published => ?_
  split
  · rfl
  refine followsStep trivial fun state => ?_
  split
  · refine followsStep ⟨rfl, ?_⟩ fun _ => rfl
    split
    · exact .inl rfl
    · exact .inr rfl
  · rfl

theorem handleFrameUpdate {value} :
    (updates sup).Stays (.serving session run) (handleFrame sup session run value) := by
  refine followsStep trivial fun _ => ?_
  split
  · rfl
  refine staysSeq applyFrameUpdate fun applied => ?_
  split
  · rfl
  · exact publishFrameUpdate

theorem handleFramesUpdate {frames} :
    (updates sup).Stays (.serving session run) (handleFrames sup session run frames) := by
  induction frames with
  | nil => rfl
  | cons value rest ih =>
    refine staysSeq handleFrameUpdate fun handled => ?_
    split
    · rfl
    · exact ih

theorem readStdoutUpdate {decoder} : (updates sup).Follows (updates sup).EntryPost
    (.serving session run) (readStdout sup session run decoder) := by
  refine followsStep trivial fun read => ?_
  split
  · rfl
  · rfl
  refine followsStep trivial fun _ => staysSeq handleFramesUpdate fun handled => ?_
  split
  · rfl
  split <;> rfl

theorem finalizeRunUpdate {failure stderrFailed exit} :
    (updates sup).Stays (.finishing session run)
      (finalizeRun sup session run failure stderrFailed exit) := by
  have released : (releaseLease run).Only Act.Plain := by
    refine onlyBind (onlyOne trivial) fun leased => ?_
    split
    · exact onlyBind (onlyOne trivial) fun _ => onlyBind (onlyOne trivial) fun _ => trivial
    · trivial
  refine followsStep trivial fun finalized => ?_
  split
  · rfl
  refine followsStep trivial fun _ => followsStep ⟨session, rfl⟩ fun _ =>
    staysSeq (plainStays released) fun _ => followsStep trivial fun stopRequested =>
    followsStep rfl fun _ => ?_
  split
  · rfl
  · exact staysSeq (plainStays publishPlain) fun _ => rfl

theorem reapRunUpdate {failure} (started : q.finish = .finishing session run) :
    (updates sup).Follows (fun _ q' => q' = .finishing session run) q
      (reapRun sup session run failure) := by
  refine followsStep trivial fun stderrFailed => ?_
  change (updates sup).Follows _ q.finish _
  rw [started]
  exact followsStep trivial fun _ => followsStep trivial fun exit => followsStep trivial fun _ =>
    finalizeRunUpdate

theorem finishRunUpdate {failure} : (updates sup).Follows (fun _ q' => q' = .finishing session run)
    (.serving session run) (finishRun sup session run failure) := by
  unfold finishRun
  split
  · have recorded : ∀ {failure}, (updates sup).Follows (fun _ q' => q' = .finishing session run)
        (.serving session run) (recordProtocolFailure sup session run failure) :=
      followsStep ⟨run, rfl⟩ fun _ => staysSeq (plainStays publishPlain) fun _ => rfl
    refine followsSeq recorded ?_
    rintro _ _ rfl
    exact followsStep trivial fun _ => staysSeq (plainStays terminatePlain) fun _ =>
      followsStep trivial fun _ => reapRunUpdate rfl
  · exact reapRunUpdate rfl

/-! Launches and monitors stay `other`. -/

theorem launchQuiet {o : Act} (launch : LaunchAct o) : Update.other.Quiet o := by
  cases o <;> first | exact plainQuiet trivial | exact launch.elim | skip
  case fresh => exact ⟨rfl, fun _ => rfl⟩
  case createSession => exact ⟨rfl, fun _ => rfl⟩
  case spawnStructured => exact ⟨rfl, fun _ => rfl⟩
  case spawn entry => cases entry <;> first | exact launch.elim | exact ⟨trivial, fun _ => rfl⟩
  case session s call =>
    cases call <;> first | exact launch.elim | exact plainQuiet trivial | skip
    case activeRun =>
      refine ⟨.inl rfl, fun answer => ?_⟩
      cases answer <;> rfl
    case setState => exact ⟨trivial, fun _ => rfl⟩
  case run r call =>
    cases call <;> first | exact launch.elim | exact plainQuiet trivial | exact ⟨trivial, fun _ => rfl⟩

theorem monitorPlain {o : Act} (monitor : MonitorAct session run o) : o.Plain := by
  cases o <;> first | exact trivial | exact monitor.elim | skip
  case session s call => cases call <;> first | exact trivial | exact monitor.elim
  case run r call => cases call <;> first | exact trivial | exact monitor.elim

theorem stderrPlain {o : Act} (stderr : StderrAct session run o) : o.Plain := by
  cases o <;> first | exact trivial | exact stderr.elim | skip
  case session s call => cases call <;> first | exact trivial | exact stderr.elim
  case run r call => cases call <;> first | exact trivial | exact stderr.elim

theorem replyUpdate {call : Program (Except MaestroError Unit)} {post : Update → Prop}
    (follows : (updates sup).Follows (fun _ q' => post q') q call) (ends : ∀ q, post q → q.owes = none) :
    (updates sup).Follows (updates sup).EntryPost q (reply call) :=
  followsSeq follows fun _ _ done => followsStep trivial fun _ => ends _ done

theorem updatesSound : (updates sup).Sound := by
  intro e
  have otherEnds : Update.other.owes = none := rfl
  have askedEnds : ∀ {session run} q, Asked session run () q → q.owes = none := by
    rintro session run _ (rfl | rfl) <;> rfl
  have launched : ∀ {call : Program (Except MaestroError Unit)}, call.Only LaunchAct →
      (updates sup).Follows (fun _ q' => q' = .other) .other call := fun only =>
    staysOnly only fun _ launch => launchQuiet launch
  cases e with
  | start request => exact replyUpdate (launched handleStartLaunch) fun q same => same ▸ otherEnds
  | resume session request => exact replyUpdate (launched handleResumeLaunch) fun q same => same ▸ otherEnds
  | respondPermission session run requestId decision =>
    exact replyUpdate respondPermissionUpdate askedEnds
  | respondUserInput session run requestId value => exact replyUpdate respondUserInputUpdate askedEnds
  | sendGuiAction session run action payload => exact replyUpdate sendGuiActionUpdate askedEnds
  | stop session run => exact replyUpdate stopUpdate fun _ ends => ends
  | expiry session run requestId kind deadline =>
    exact followsStep trivial fun _ => staysSeq expireRequestUpdate fun _ => rfl
  | stderrReader session run =>
    refine staysReturns readStderrOnly (fun _ stderr => plainQuiet (stderrPlain stderr))
      readStderrReturns ?_
    rintro _ (rfl | rfl)
    · exact otherEnds
    · rfl
  | supervise session run => exact followsStep trivial fun _ => rfl
  | stdoutReader session run decoder => exact readStdoutUpdate
  | finish session run failure =>
    refine followsSeq finishRunUpdate ?_
    rintro _ _ rfl
    rfl
  | monitor session run afterSequence =>
    refine staysReturns monitorMonitor (fun _ monitor => plainQuiet (monitorPlain monitor))
      monitorReturns ?_
    rintro _ (rfl | ⟨_, rfl⟩)
    · exact otherEnds
    · rfl
  | monitorLoop session run lastPersisted =>
    refine staysReturns monitorLoopMonitor (fun _ monitor => plainQuiet (monitorPlain monitor))
      monitorLoopReturns ?_
    rintro _ (rfl | ⟨_, rfl⟩)
    · exact otherEnds
    · rfl

end Soundness

/-! A task's place in this protocol and its role speak of one run. -/

def Linked (q : Role) (u : Update) : Prop := ∀ run, u.run = some run → q.run = some run

section Places
variable {sup : Supervisor} {q : Role} {u : Update}

def checked : (o : Act) → o.Answer → Option (SessionId × RunId)
  | .session session (.activeRun run), .ok () => some (session, run)
  | _, _ => none

inductive Turns (u : Update) (o : Act) (answer : o.Answer) : Update → Prop where
  | stays : Turns u o answer u
  | owes : Turns u o answer u.owe
  | holds {target} : Turns u o answer (u.hold target)
  | registers {target} : Turns u o answer (u.owe.hold target)
  | pays {session target} (sets : o = .session session (.setState target)) : Turns u o answer u.pay
  | finishes : Turns u o answer u.finish
  | asked {session run} (asks : u = .asking session run)
      (checks : checked o answer = some (session, run)) : Turns u o answer (.serving session run)

theorem afterTurns {o : Act} {answer : o.Answer} : Turns u o answer (u.after o answer) := by
  cases o <;> try exact .stays
  case run r call =>
    cases call <;> try exact .stays
    case joinStderr => exact .finishes
    case swapStopRequested => exact .finishes
    case tracker call =>
      cases call <;> try exact .stays
      case register requestId kind deadline =>
        cases answer with
        | error error => exact .stays
        | ok _ =>
          dsimp only [Update.after, Update.afterTrack]
          split
          · exact .stays
          · exact .registers
      case waitingState => exact .holds
      all_goals cases answer <;> first | exact .stays | exact .owes
  case session s call =>
    cases call <;> try exact .stays
    case setState => exact .pays rfl
    case protocolFailure => exact .finishes
    case activeRun run =>
      cases answer with
      | error error => exact .stays
      | ok _ =>
        dsimp only [Update.after]
        split
        · rename_i asks
          exact .asked asks rfl
        · exact .stays

section Turning
variable {u' : Update} {o : Act} {answer : o.Answer} {session : SessionId} {run : RunId}

theorem turnsRun (turns : Turns u o answer u') : u'.run = u.run := by
  cases turns with
  | asked asks _ => rw [asks]; rfl
  | _ => cases u <;> rfl

theorem turnsServed (turns : Turns u o answer u') :
    u'.served = u.served ∨ u'.served = checked o answer := by
  cases turns with
  | asked _ checks => exact .inr checks.symm
  | _ => exact .inl (by cases u <;> rfl)

theorem turnsFinishing (turns : Turns u o answer u')
    (finishing : u = .finishing session run) : u' = .finishing session run := by
  subst finishing
  cases turns with
  | asked asks _ => cases asks
  | _ => rfl

theorem turnsOwes (turns : Turns u o answer u') (may : u.may o) (owes : u.owes = some (session, run))
    (still : ∀ target, o ≠ .session session (.setState target)) : u'.owes = some (session, run) := by
  cases turns with
  | stays => exact owes
  | finishes => cases u <;> cases owes <;> rfl
  | owes => cases u <;> first | exact owes | cases owes
  | holds => cases u <;> exact owes
  | registers => cases u <;> first | exact owes | cases owes
  | asked asks _ =>
    rw [asks] at owes
    cases owes
  | @pays s target sets =>
    subst sets
    cases u with
    | owing => exact may.elim
    | holding s' r held =>
      cases owes
      exact absurd (by rw [may.1]) (still target)
    | _ => cases owes

/-- How a task comes to hold the state it is about to set. -/
inductive Holds (session : SessionId) (run : RunId) (target : SessionState) (u : Update) :
    (o : Act) → o.Answer → Prop where
  | kept {o : Act} {answer : o.Answer} (held : u = .holding session run target)
      (still : ∀ target, o ≠ .session session (.setState target)) : Holds session run target u o answer
  | registered {requestId kind deadline} (serving : u = .serving session run) (waits : kind ≠ .guiAction)
      (shows : target = waitingFor kind) :
      Holds session run target u (.run run (.tracker (.register requestId kind deadline))) (.ok ())
  | read {next} (owing : u = .owing session run) (shows : target = next.getD .running) :
      Holds session run target u (.run run (.tracker .waitingState)) next

theorem afterHolds {target : SessionState} (may : u.may o)
    (held : u.after o answer = .holding session run target) : Holds session run target u o answer := by
  cases o <;> try exact .kept held fun _ same => (by cases same)
  case session s call =>
    cases call <;> try exact .kept held fun _ same => (by cases same)
    case setState => cases u <;> cases held
    case protocolFailure => cases u <;> first | exact .kept held fun _ same => (by cases same) | cases held
    case activeRun r =>
      cases answer with
      | error error => exact .kept held fun _ same => (by cases same)
      | ok _ =>
        dsimp only [Update.after] at held
        split at held
        · cases held
        · exact .kept held fun _ same => (by cases same)
  case run r call =>
    cases call <;> try exact .kept held fun _ same => (by cases same)
    case joinStderr => cases u <;> first | exact .kept held fun _ same => (by cases same) | cases held
    case swapStopRequested => cases u <;> first | exact .kept held fun _ same => (by cases same) | cases held
    case tracker call =>
      cases call <;> try exact .kept held fun _ same => (by cases same)
      case register requestId kind deadline =>
        obtain ⟨s, rfl⟩ := may
        cases answer with
        | error error => cases held
        | ok _ =>
          dsimp only [Update.after, Update.afterTrack] at held
          split at held
          · cases held
          · rename_i waits
            cases held
            exact .registered rfl waits rfl
      case waitingState =>
        obtain ⟨s, rfl⟩ := may
        cases held
        exact .read rfl rfl
      all_goals
        obtain ⟨s, rfl⟩ := may
        cases answer <;> cases held

end Turning

theorem linkedAfter {o : Act} {answer : o.Answer} (link : Linked q u) (role : q.may o) (may : u.may o) :
    Linked (q.after o answer) (u.after o answer) := by
  intro run own
  rw [turnsRun afterTurns] at own
  have before := link run own
  have launches : u ≠ .other := by
    rintro rfl
    cases own
  cases o <;> try exact before
  case fresh => exact absurd may launches
  case spawnStructured => exact absurd may launches
  case spawn entry => cases entry <;> first | exact before | (cases role; exact before)
  case session s call =>
    cases call <;> try exact before
    case install => cases answer <;> first | exact before | (cases role; exact before)
    case finalize => cases role; exact before
  case run r call =>
    cases call <;> try exact before
    obtain ⟨s, rfl⟩ := role
    exact before

theorem linkedPast {past : Past actions} (link : Linked q u) (roleLegal : (roles sup).Legal q past)
    (legal : (updates sup).Legal u past) :
    Linked (past.foldl (fun q done => (roles sup).after q done.1 done.2) q)
      (past.foldl (fun u done => (updates sup).after u done.1 done.2) u) := by
  induction past generalizing q u with
  | nil => exact link
  | cons done past ih =>
    obtain ⟨roleMay, roleRest⟩ := roleLegal
    obtain ⟨may, rest⟩ := legal
    exact ih (linkedAfter link roleMay may) roleRest rest

theorem reachLinked {Good : Config (machine sup) → Event (machine sup) → Prop} {c}
    (h : Reach Good (initially sup) c) {t} (member : t ∈ c.tasks) :
    Linked ((roles sup).place t) ((updates sup).place t) := by
  refine linkedPast ?_ (reachLegal rolesSound rfl h t member) (reachLegal updatesSound rfl h t member)
  intro run own
  cases entry : t.entry <;> rw [entry] at own <;> first | exact own | cases own

end Places

/-! A task that serves a session for a run knows that the run was installed in it. -/

def Memory.Installed (m : Memory) (session : SessionId) (run : RunId) : Prop :=
  ∃ h, m.ledger.history session = some h ∧ run ∈ h.installed

section Installing
variable {sup : Supervisor}

theorem installedKept {o choice} {m m' : Memory} {answer : o.Answer} {session run}
    (consistent : m.ledger.Consistent) (effect : apply sup o choice m = some (answer, m'))
    (installed : m.Installed session run) : m'.Installed session run := by
  obtain ⟨h, found, member⟩ := installed
  have records := applyRecords effect
  have rewritten : ∀ {s h₁ h₂}, m.ledger.history s = some h₁ →
      (∀ r, r ∈ h₁.installed → r ∈ h₂.installed) →
      ∃ h, (m.ledger.write s h₂).history session = some h ∧ run ∈ h.installed := by
    intro s h₁ h₂ before keeps
    by_cases same : session = s
    · subst same
      cases Option.some.inj (found.symm.trans before)
      exact ⟨h₂, by simp [writeHistory], keeps run member⟩
    · exact ⟨h, by rw [writeHistory, if_neg same]; exact found, member⟩
  unfold Memory.Installed
  generalize m'.ledger = l' at records
  cases records with
  | created =>
    have different : session ≠ m.ledger.fresh := Nat.ne_of_lt (consistent.sessionDrawn found)
    refine ⟨h, ?_, member⟩
    change (m.ledger.write m.ledger.fresh ⟨[], none, []⟩).history session = some h
    rw [writeHistory, if_neg different]
    exact found
  | installed before idle => exact rewritten before fun r => List.mem_append_left _
  | finalized before => exact rewritten before fun r old => old
  | _ => exact ⟨h, found, member⟩

theorem activeIsInstalled {m : Memory} {session run record} (consistent : m.ledger.Consistent)
    (found : m.sessions session = some record) (active : record.data.activeRun = some run) :
    m.Installed session run := by
  have history : m.ledger.history session = some record.history := by simp [Memory.ledger, found]
  exact ⟨record.history, history, activeInstalled consistent history active⟩

theorem checkedInstalled {m m' : Memory} {o : Act} {choice session run} {answer : o.Answer}
    (consistent : m.ledger.Consistent) (effect : apply sup o choice m = some (answer, m'))
    (checks : checked o answer = some (session, run)) : m.Installed session run := by
  cases o <;> try cases checks
  case session s call =>
    cases call <;> try cases checks
    case activeRun r =>
      cases answer <;> cases checks
      obtain ⟨record, record', found, performed, _⟩ := applySession effect
      have found' := congrArg Prod.fst (Option.some.inj performed)
      change (if record.data.activeRun = some run then _ else _) = _ at found'
      split at found'
      · exact activeIsInstalled consistent found ‹_›
      · cases found'

def Memory.AsksInstalled (m : Memory) : Prop := ∀ run control kind, m.runs run = some control →
  kind ≠ .guiAction → control.pending.Asks kind → ∃ session, m.Installed session run

def updating (sup : Supervisor) : Outline (updates sup) where
  Inv m := m.AsksInstalled
  Here q m := ∀ session run, q.served = some (session, run) → m.Installed session run
  Apart _ _ := True

structure Update.Allowed (_ : Update) (o : Act) (m : Memory) : Prop where
  consistent : m.ledger.Consistent
  wellformed : ∀ run control, m.runs run = some control → control.pending.Wellformed
  supervised : ∀ session run, o = .spawn (.supervise session run) → m.Installed session run

theorem movesServing {u : Update} {run : RunId} {call : PendingTracker.Call} {answer : call.Answer}
    (may : u.mayTrack run call) (moves : call.Moves answer) :
    (∃ session, u = .finishing session run) ∨ ∃ session, u = .serving session run := by
  cases call <;> first | exact absurd moves id | exact .inr may | exact .inl may | exact absurd may moves

theorem movesServes {u : Update} {run : RunId} {call : PendingTracker.Call} {answer : call.Answer}
    (may : u.mayTrack run call) (moves : call.Moves answer) :
    ∃ session, u.served = some (session, run) := by
  rcases movesServing may moves with ⟨session, rfl⟩ | ⟨session, rfl⟩ <;> exact ⟨session, rfl⟩

theorem movesOwe {session : SessionId} {run : RunId} {call : PendingTracker.Call} {answer : call.Answer}
    (may : (Update.serving session run).mayTrack run call) (moves : call.Moves answer) :
    Update.owes ((Update.serving session run).afterTrack call answer) = some (session, run) := by
  cases call <;> first | exact absurd moves id | exact absurd may moves | skip
  case clearActive =>
    obtain ⟨_, same⟩ := may
    cases same
  case register requestId kind deadline =>
    cases answer with
    | error error => exact absurd moves id
    | ok _ =>
      dsimp only [Update.afterTrack]
      rw [if_neg moves]
      rfl
  all_goals cases answer <;> first | exact absurd moves id | rfl

theorem asksInstalled {u : Update} {o : Act} {choice m answer m'}
    (installed : m.AsksInstalled) (here : (updating sup).Here u m) (may : u.may o)
    (wellformed : ∀ run control, m.runs run = some control → control.pending.Wellformed)
    (effect : apply sup o choice m = some (answer, m')) {run control kind}
    (found : m'.runs run = some control) (waits : kind ≠ .guiAction) (asks : control.pending.Asks kind) :
    ∃ session, m.Installed session run := by
  rcases controlCases effect found with old | ⟨call, before, answer, rfl, old, performed⟩ |
    ⟨_, _, _, _, _, _, rfl⟩
  · exact installed run control kind old waits asks
  · by_cases tracker : ∃ call', call = .tracker call'
    · obtain ⟨call, rfl⟩ := tracker
      cases Option.some.inj performed
      have wf := wellformed run before old
      by_cases moves : call.Moves (before.pending.perform m.now call).1
      · obtain ⟨session, served⟩ := movesServes may moves
        exact ⟨session, here session run served⟩
      · have same := PendingTracker.outcomeAsks wf (PendingTracker.performOutcome wf m.now call) moves waits
        exact installed run before kind old waits (same.mp asks)
    · rw [pendingKept performed fun call' same => tracker ⟨call', same⟩] at asks
      exact installed run before kind old waits asks
  · obtain ⟨_, pending, present, _⟩ := asks
    simp [RunControl.new, PendingTracker.new, PendingTracker.Pending] at present

theorem enteredInstalled {u : Update} {o : Act} {m m' : Memory} {e session run}
    (allowed : u.Allowed o m) (here : (updating sup).Here u m) (may : u.may o) (spawn : o.spawned = some e)
    (kept : ∀ {session run}, m.Installed session run → m'.Installed session run)
    (served : (Update.ofEntry e).served = some (session, run)) : m'.Installed session run := by
  obtain rfl : o = .spawn e := by
    cases o <;> cases spawn
    rfl
  cases e <;> first | (cases may; done) | (cases served; done) | skip
  case expiry s r =>
    cases served
    exact kept (here session run may)
  case supervise s r =>
    cases served
    exact kept (allowed.supervised session run rfl)

theorem updatingValid : (updating sup).Valid Update.Allowed where
  symm _ := trivial
  call := by
    intro e m callable inv
    refine ⟨?_, fun _ _ => trivial⟩
    intro session run served
    cases e <;> first | (cases callable; done) | cases served
  act := by
    intro u o choice m answer m' inv here may allowed effect
    change apply sup o choice m = some (answer, m') at effect
    have kept : ∀ {session run}, m.Installed session run → m'.Installed session run :=
      installedKept allowed.consistent effect
    refine ⟨?_, ?_, ?_, ?_⟩
    · intro run control kind found waits asks
      obtain ⟨session, installed⟩ :=
        asksInstalled inv here may allowed.wellformed effect found waits asks
      exact ⟨session, kept installed⟩
    · intro session run served
      have turned : Turns u o answer (u.after o answer) := afterTurns
      rcases turnsServed turned with same | checks
      · exact kept (here session run (same.symm.trans served))
      · exact kept (checkedInstalled allowed.consistent effect (checks.symm.trans served))
    · intro e spawn
      exact ⟨fun session run served => enteredInstalled allowed here may spawn kept served, trivial⟩
    · exact fun q otherHere _ => ⟨fun s r served => kept (otherHere s r served), trivial,
        fun _ _ => trivial⟩
  outside := by
    intro x m m' inv effect
    have same : ∀ {session run}, m.Installed session run → m'.Installed session run := by
      intro session run installed
      unfold Memory.Installed
      rw [outsideLedger effect]
      exact installed
    refine ⟨?_, fun q here session run served => same (here session run served)⟩
    intro run control kind found waits asks
    rcases outsideCases effect with ⟨_, _, rfl⟩ | ⟨r, before, process, _, old, _, rfl⟩
    · exact inv run control kind found waits asks
    · rcases updatedControl found with ⟨rfl, rfl⟩ | ⟨_, old'⟩
      · obtain ⟨session, installed⟩ := inv run before kind old waits asks
        exact ⟨session, same installed⟩
      · obtain ⟨session, installed⟩ := inv run control kind old' waits asks
        exact ⟨session, same installed⟩

theorem reachUpdating {Good : Config (machine sup) → Event (machine sup) → Prop} {c}
    (h : Reach Good (initially sup) c) : (updating sup).Holds c := by
  have first : (updating sup).Holds (initially sup) :=
    Outline.holdsEmpty fun run control kind found => by cases found
  have always : Reach Always (initially sup) c := reachMono (fun _ _ _ => trivial) h
  refine Outline.reachHolds updatesSound updatingValid first ?_ always
  intro c index choice t o answer memory next reached holds _ performs
  have lineage := reachLineage reached
  refine ⟨lineage.inv, fun run control found => reachWellformed reached found, ?_⟩
  rintro session run rfl
  have starting := (performsObeys rolesSound lineage.placed performs).allowed
  have backs : c.memory.ledger.Backs ((roles sup).place t) := lineage.here performs.present
  rw [show (roles sup).place t = .starting session run from starting] at backs
  obtain ⟨_, h, found, active⟩ := backs
  exact ⟨h, found, activeInstalled lineage.inv found active⟩

end Installing

/-! The state a run's session shows while the run serves. -/

def SessionState.Agrees (state : SessionState) (pending : PendingTracker) : Prop :=
  (state = .awaitingPermission ↔ pending.Asks .permission) ∧
  (state = .awaitingUserInput ↔ ¬ pending.Asks .permission ∧ pending.Asks .userInput)
instance (state pending) : Decidable (SessionState.Agrees state pending) := by
  unfold SessionState.Agrees; infer_instance

/-- The states of a session while its run is neither stopping nor finished. -/
def SessionState.Serves (state : SessionState) : Prop :=
  state ∈ [.starting, .ready, .running, .awaitingPermission, .awaitingUserInput]
instance (state) : Decidable (SessionState.Serves state) := by
  unfold SessionState.Serves; infer_instance

/-- The changes between them that the table refuses: a waiting state out of Ready or out
of the other waiting state, and Ready once the session left Starting. -/
def SessionState.refuses : SessionState → SessionState → Bool
  | .ready, .awaitingPermission | .ready, .awaitingUserInput => true
  | .awaitingPermission, .awaitingUserInput | .awaitingUserInput, .awaitingPermission => true
  | .running, .ready | .awaitingPermission, .ready | .awaitingUserInput, .ready => true
  | _, _ => false

theorem servesAccepts {state target : SessionState} (serves : SessionState.Serves state)
    (requested : SessionState.Serves target) :
    state.Accepts target ↔ SessionState.refuses state target = false := by
  unfold SessionState.Serves at serves requested
  simp only [List.mem_cons, List.not_mem_nil, or_false] at serves requested
  rcases serves with rfl | rfl | rfl | rfl | rfl <;>
    rcases requested with rfl | rfl | rfl | rfl | rfl <;> decide

/-! What the pending requests call for, and how a change of them moves it. -/
section Due
variable {state : SessionState} {pending pending' : PendingTracker} {kind : PendingKind}
  {call : PendingTracker.Call}

def due (pending : PendingTracker) : SessionState := pending.waitingState.getD .running

theorem dueAsks : due pending = if pending.Asks .permission then .awaitingPermission
    else if pending.Asks .userInput then .awaitingUserInput else .running := by
  simp only [due, PendingTracker.waitingState, PendingTracker.asksPendingOf]
  split
  · rfl
  · split <;> rfl

theorem dueAgrees : SessionState.Agrees (due pending) pending ∧ SessionState.Serves (due pending) := by
  rw [dueAsks]
  by_cases permission : pending.Asks .permission <;> by_cases input : pending.Asks .userInput <;>
    simp [SessionState.Agrees, SessionState.Serves, permission, input]

theorem agreesIff (same : ∀ kind, kind ≠ .guiAction → (pending'.Asks kind ↔ pending.Asks kind)) :
    SessionState.Agrees state pending' ↔ SessionState.Agrees state pending := by
  unfold SessionState.Agrees
  rw [same .permission (by decide), same .userInput (by decide)]

theorem dueSame (same : ∀ kind, kind ≠ .guiAction → (pending'.Asks kind ↔ pending.Asks kind)) :
    due pending' = due pending := by
  simp only [dueAsks, same .permission (by decide), same .userInput (by decide)]

theorem runningTaken : SessionState.refuses state .running = false := by cases state <;> rfl

theorem agreesTaken (agrees : SessionState.Agrees state pending) :
    SessionState.refuses state (due pending) = false := by
  rw [dueAsks]
  by_cases permission : pending.Asks .permission
  · rw [if_pos permission, agrees.1.mpr permission]
    rfl
  · by_cases input : pending.Asks .userInput
    · rw [if_neg permission, if_pos input, agrees.2.mpr ⟨permission, input⟩]
      rfl
    · rw [if_neg permission, if_neg input]
      exact runningTaken

theorem launchedAgrees (launched : state ∈ [SessionState.starting, .ready, .running])
    (nothing : ∀ kind, kind ≠ .guiAction → ¬ pending.Asks kind) :
    SessionState.Serves state ∧ SessionState.Agrees state pending := by
  have permission := nothing .permission (by decide)
  have userInput := nothing .userInput (by decide)
  simp only [List.mem_cons, List.not_mem_nil, or_false] at launched
  unfold SessionState.Agrees
  rcases launched with rfl | rfl | rfl <;> simp [SessionState.Serves, permission, userInput]

/-- A change registers one request, or only takes requests away. -/
def Changed (pending pending' : PendingTracker) (call : PendingTracker.Call) : Prop :=
  (∃ requestId kind deadline, call = .register requestId kind deadline ∧ pending'.Asks kind ∧
    ∀ other, other ≠ kind → pending'.Asks other → pending.Asks other) ∨
  (∀ kind, pending'.Asks kind → pending.Asks kind) ∧
    ∀ requestId kind deadline, call ≠ .register requestId kind deadline

theorem outcomeChanged {now : Instant} {answer : call.Answer}
    (outcome : PendingTracker.Outcome pending now call answer pending') (moves : call.Moves answer) :
    Changed pending pending' call := by
  cases outcome with
  | @registered name made deadline free _ =>
    refine .inl ⟨name, made, deadline, rfl, ?_, ?_⟩
    · exact ⟨name, _, .inl (PendingTracker.insertLookup.mpr (.inl ⟨rfl, rfl⟩)), rfl⟩
    · rintro other different ⟨id, p, found, same⟩
      rcases PendingTracker.registeredPending found with ⟨_, rfl⟩ | old
      · exact absurd same.symm different
      · exact ⟨id, p, old, same⟩
  | unchanged idle =>
    refine .inr ⟨fun _ asks => asks, ?_⟩
    rintro id kind deadline rfl
    cases answer with
    | error error => exact moves.elim
    | ok _ => exact idle.elim
  | claimed active _ => exact moves.elim
  | restored flying => exact moves.elim
  | confirmed _ => exact .inr ⟨fun _ asks => asks, fun _ _ _ same => by cases same⟩
  | expired _ _ settles =>
    exact .inr ⟨fun _ ⟨id, p, found, same⟩ => ⟨id, p, (settles.left.mp found).1, same⟩,
      fun _ _ _ same => by cases same⟩
  | settled settling _ settles =>
    refine .inr ⟨fun _ ⟨id, p, found, same⟩ => ⟨id, p, (settles.left.mp found).1, same⟩, ?_⟩
    rintro id kind deadline rfl
    exact settling.elim
  | cleared =>
    refine .inr ⟨?_, fun _ _ _ same => by cases same⟩
    rintro kind ⟨id, p, found, same⟩
    simp [PendingTracker.clearActive, PendingTracker.Pending] at found

def changes : PendingTracker.Call → Bool
  | .register _ kind _ => kind ≠ .guiAction
  | .resolveInFlight .. | .markDeliveryUncertain .. | .expire .. | .confirmResolved .. => true
  | _ => false

theorem movesChanges {session : SessionId} {run : RunId} {call : PendingTracker.Call} {answer : call.Answer}
    (may : (Update.serving session run).mayTrack run call) (moves : call.Moves answer) : changes call := by
  cases call <;> first | exact absurd moves id | exact absurd may moves | rfl | skip
  case clearActive =>
    obtain ⟨_, same⟩ := may
    cases same
  case register requestId kind deadline =>
    cases answer with
    | error error => exact absurd moves id
    | ok _ => exact decide_eq_true moves

/-- A request may be waited for: nothing of the other kind is pending, and the session can
go to the waiting state. -/
def Admits (state : SessionState) (pending : PendingTracker) : PendingTracker.Call → Prop
  | .register _ .permission _ => ¬ pending.Asks .userInput ∧ SessionState.refuses state .awaitingPermission = false
  | .register _ .userInput _ => ¬ pending.Asks .permission ∧ SessionState.refuses state .awaitingUserInput = false
  | _ => True
instance (state pending call) : Decidable (Admits state pending call) := by
  unfold Admits; split <;> infer_instance

theorem fewerTaken (permission : pending'.Asks .permission → pending.Asks .permission)
    (input : pending'.Asks .userInput → pending.Asks .userInput)
    (single : ¬ (pending.Asks .permission ∧ pending.Asks .userInput))
    (taken : SessionState.refuses state (due pending) = false) :
    ¬ (pending'.Asks .permission ∧ pending'.Asks .userInput) ∧
      SessionState.refuses state (due pending') = false := by
  refine ⟨fun both => single ⟨permission both.1, input both.2⟩, ?_⟩
  rw [dueAsks] at taken ⊢
  by_cases asks : pending'.Asks .permission
  · rw [if_pos (permission asks)] at taken
    rw [if_pos asks]
    exact taken
  rw [if_neg asks]
  by_cases asks' : pending'.Asks .userInput
  · rw [if_neg fun old => single ⟨old, input asks'⟩, if_pos (input asks')] at taken
    rw [if_pos asks']
    exact taken
  · rw [if_neg asks']
    exact runningTaken

theorem changeTaken (changed : Changed pending pending' call) (admits : Admits state pending call)
    (single : ¬ (pending.Asks .permission ∧ pending.Asks .userInput))
    (taken : SessionState.refuses state (due pending) = false) :
    ¬ (pending'.Asks .permission ∧ pending'.Asks .userInput) ∧
      SessionState.refuses state (due pending') = false := by
  rcases changed with ⟨requestId, kind, deadline, rfl, asks, others⟩ | ⟨fewer, _⟩
  · cases kind with
    | permission =>
      have none : ¬ pending'.Asks .userInput := fun new => admits.1 (others _ (by decide) new)
      rw [dueAsks, if_pos asks]
      exact ⟨fun both => none both.2, admits.2⟩
    | userInput =>
      have none : ¬ pending'.Asks .permission := fun new => admits.1 (others _ (by decide) new)
      rw [dueAsks, if_neg none, if_pos asks]
      exact ⟨fun both => none both.1, admits.2⟩
    | guiAction => exact fewerTaken (others _ (by decide)) (others _ (by decide)) single taken
  · exact fewerTaken (fewer _) (fewer _) single taken

theorem registeredDue {requestId : String} {deadline : Instant}
    (changed : Changed pending pending' (.register requestId kind deadline))
    (admits : Admits state pending (.register requestId kind deadline)) (waits : kind ≠ .guiAction) :
    waitingFor kind = due pending' := by
  rcases changed with ⟨_, _, _, same, asks, others⟩ | ⟨_, none⟩
  · cases same
    cases kind with
    | permission => rw [dueAsks, if_pos asks, waitingFor]
    | userInput =>
      rw [dueAsks, if_neg fun new => admits.1 (others _ (by decide) new), if_pos asks, waitingFor]
    | guiAction => exact absurd rfl waits
  · exact absurd rfl (none requestId kind deadline)

end Due

section Waiting
variable {sup : Supervisor}

/-- The run is active in the session and is neither stopping nor being finished. -/
def Serving (c : Config (machine sup)) (session : SessionId) (run : RunId) : Prop :=
  (∃ record ∈ c.memory.sessions session, record.data.activeRun = some run) ∧
  (∃ control ∈ c.memory.runs run, control.stopRequested = false) ∧
  ∀ t ∈ c.tasks, (updates sup).place t ≠ .finishing session run
instance (c : Config (machine sup)) (session run) : Decidable (Serving c session run) := by
  unfold Serving; infer_instance

/-- A task of the run changed its pending requests and has not yet set the state. -/
def Owed (c : Config (machine sup)) (session : SessionId) (run : RunId) : Prop :=
  ∃ t ∈ c.tasks, Update.owes ((updates sup).place t) = some (session, run)
instance (c : Config (machine sup)) (session run) : Decidable (Owed c session run) := by
  unfold Owed; infer_instance

/-- One of them has read the waiting state, or registered a request, and not yet set the state. -/
def Held (c : Config (machine sup)) (session : SessionId) (run : RunId) : Prop :=
  ∃ t ∈ c.tasks, Update.held ((updates sup).place t) = some (session, run)
instance (c : Config (machine sup)) (session run) : Decidable (Held c session run) := by
  unfold Held; infer_instance

def TimelyAct (c : Config (machine sup)) (u : Update) : Act → Prop
  | .run run (.tracker call) => ∀ owner ∈ u.served, Serving c owner.1 run →
      (changes call → ¬ Held c owner.1 run) ∧
      ∀ record ∈ c.memory.sessions owner.1, ∀ control ∈ c.memory.runs run,
        Admits record.data.state control.pending call
  | .session session (.setState _) => ∀ record ∈ c.memory.sessions session,
      ∀ run ∈ record.data.activeRun, Serving c session run → u.run = some run ∧
        (u.held = none → record.data.state = .starting ∧ ¬ Owed c session run)
  | .session session (.install _) => ∀ record ∈ c.memory.sessions session,
      record.data.state ∈ [.starting, .ready, .running]
  | .session session (.launchFailure _) => ∀ record ∈ c.memory.sessions session,
      ∀ run ∈ record.data.activeRun, ¬ Serving c session run
  | _ => True
instance (c : Config (machine sup)) (u o) : Decidable (TimelyAct c u o) :=
  match o with
  | .run run (.tracker call) => inferInstanceAs (Decidable (∀ owner ∈ u.served, Serving c owner.1 run →
      (changes call → ¬ Held c owner.1 run) ∧
      ∀ record ∈ c.memory.sessions owner.1, ∀ control ∈ c.memory.runs run,
        Admits record.data.state control.pending call))
  | .session session (.setState _) => inferInstanceAs (Decidable (∀ record ∈ c.memory.sessions session,
      ∀ run ∈ record.data.activeRun, Serving c session run → u.run = some run ∧
        (u.held = none → record.data.state = .starting ∧ ¬ Owed c session run)))
  | .session session (.install _) =>
    inferInstanceAs (Decidable (∀ record ∈ c.memory.sessions session, _ ∈ _))
  | .session session (.launchFailure _) => inferInstanceAs (Decidable (∀ record ∈ c.memory.sessions session,
      ∀ run ∈ record.data.activeRun, ¬ Serving c session run))
  | .session _ (.activeRun _) | .session _ (.resumeBinding _) | .session _ .readState
  | .session _ .beginLaunch | .session _ .endLaunch | .session _ .resetStderr
  | .session _ (.resetLaunch _) | .session _ (.setRawCapture _) | .session _ (.setBinding _)
  | .session _ (.protocolFailure ..) | .session _ (.finalize ..) | .session _ (.publish ..)
  | .session _ .snapshot | .session _ .rawCaptureRun | .session _ (.subscribe ..)
  | .session _ (.recv _) | .session _ (.pushStderr _)
  | .run _ .leaseToken | .run _ .loadFinalized | .run _ .swapFinalized | .run _ .loadStopRequested
  | .run _ .swapStopRequested | .run _ .leasedBinding | .run _ (.setLeasedBinding ..)
  | .run _ .takeLeasedBinding | .run _ (.lock ..) | .run _ .unlock | .run _ (.stdinWrite ..)
  | .run _ .awaitFlush | .run _ .completedResult | .run _ .signalGroup | .run _ .waitWithin
  | .run _ .sealGroup | .run _ .waitExit | .run _ .readStdout | .run _ (.beginFrame ..)
  | .run _ (.capture ..) | .run _ .completeCapture | .run _ .readCapture | .run _ .readStderr
  | .run _ (.stderrDone ..) | .run _ .joinStderr
  | .now | .sleepUntil _ | .fresh | .newActionId | .spawn _ | .answer _ | .createSession
  | .findSession _ | .removeSession _ | .claimBinding .. | .releaseBinding .. | .spawnStructured ..
  | .takeStream _ | .store _ => .isTrue trivial

def Timely (c : Config (machine sup)) : Event (machine sup) → Prop
  | .run index _ => ∀ t ∈ c.tasks[index]?, ∀ o ∈ t.next, TimelyAct c ((updates sup).place t) o
  | _ => True
instance (c : Config (machine sup)) (e) : Decidable (Timely c e) := by
  unfold Timely; split <;> infer_instance

/-! What one action does to what `Serving` and the agreement read. -/

def SessionCall.WritesState : SessionCall → Prop
  | .setState _ | .launchFailure _ | .protocolFailure .. | .finalize .. => True
  | _ => False

theorem stateKept {record record' : SessionRecord} {session call answer}
    (still : ¬ SessionCall.WritesState call)
    (h : record.perform sup session call = some (answer, record')) :
    record'.data.state = record.data.state := by
  cases call <;> simp only [SessionRecord.perform] at h <;> try exact absurd trivial still
  case install => split at h <;> cases Option.some.inj h <;> rfl
  case publish => split at h <;> cases Option.some.inj h <;> rfl
  case subscribe => split at h <;> cases Option.some.inj h <;> rfl
  case recv =>
    split at h
    · contradiction
    · split at h
      · contradiction
      · cases Option.some.inj h
        rfl
  all_goals
    cases Option.some.inj h
    rfl

theorem activeBack {record record' : SessionRecord} {session call answer run}
    (h : record.perform sup session call = some (answer, record'))
    (active : record'.data.activeRun = some run) :
    (record.data.activeRun = some run ∧ ∀ completion, call ≠ .finalize run completion) ∨
      call = .install run := by
  cases call <;> simp only [SessionRecord.perform] at h
  case install r =>
    split at h <;> cases Option.some.inj h
    · exact .inl ⟨active, by simp⟩
    · cases active
      exact .inr rfl
  case finalize r completion =>
    cases Option.some.inj h
    dsimp only at active
    split at active
    · cases active
    · rename_i other
      refine .inl ⟨active, fun completion same => ?_⟩
      cases same
      exact other active
  case publish => split at h <;> cases Option.some.inj h <;> exact .inl ⟨active, by simp⟩
  case subscribe => split at h <;> cases Option.some.inj h <;> exact .inl ⟨active, by simp⟩
  case recv =>
    split at h
    · contradiction
    · split at h
      · contradiction
      · cases Option.some.inj h
        exact .inl ⟨active, by simp⟩
  all_goals
    cases Option.some.inj h
    exact .inl ⟨active, by simp⟩

theorem stopKept {now choice call} {c c' : RunControl} {answer : RunCall.Answer call}
    (h : c.perform sup now choice call = some (answer, c')) (running : c'.stopRequested = false) :
    c.stopRequested = false := by
  cases call <;> simp only [RunControl.perform] at h
  case swapStopRequested =>
    cases Option.some.inj h
    cases running
  all_goals
    repeat' split at h
    all_goals first | contradiction | (cases Option.some.inj h; exact running)

theorem servingBack {c : Config (machine sup)} (reached : Reach Always (initially sup) c)
    {index choice t o answer memory next} (performs : Performs c index choice t o answer memory next)
    {session run} (serving : Serving ⟨memory, c.tasks.set index (t.advance o answer next) ++ spawned o⟩
      session run) : Serving c session run ∨ o = .session session (.install run) := by
  obtain ⟨⟨record', found', active'⟩, ⟨control', known', running'⟩, unfinished⟩ := serving
  have effect : apply sup o choice c.memory = some (answer, memory) := performs.effect
  have lineage := reachLineage reached
  have obeys := performsObeys updatesSound (reachUpdating reached).placed performs
  have still : ∀ u ∈ c.tasks, (updates sup).place u ≠ .finishing session run := by
    intro u member same
    obtain ⟨u', member', same'⟩ := placeStays performs obeys
      (fun finishing => turnsFinishing afterTurns rfl) ⟨u, member, same⟩
    exact unfinished u' member' same'
  have active : (∃ record ∈ c.memory.sessions session, record.data.activeRun = some run) ∨
      o = .session session (.install run) := by
    rcases recordCases effect found' with old | ⟨call, record, answer, rfl, found, performed⟩ | ⟨_, rfl⟩
    · exact .inl ⟨record', old, active'⟩
    · rcases activeBack performed active' with ⟨active, _⟩ | installs
      · exact .inl ⟨record, found, active⟩
      · exact .inr (congrArg _ installs)
    · cases active'
  rcases active with active | installs
  · refine .inl ⟨active, ?_, still⟩
    rcases controlCases effect known' with old | ⟨call, control, answer, _, old, performed⟩ |
      ⟨_, _, _, _, _, rfl, _⟩
    · exact ⟨control', old, running'⟩
    · exact ⟨control, old, stopKept performed running'⟩
    · obtain ⟨record, found, shown⟩ := active
      obtain ⟨h, history, installed⟩ := activeIsInstalled lineage.inv found shown
      have known := lineage.inv.installedKnown history installed
      have unknown := spawnsUnknown lineage performs
      simp [Memory.ledger, unknown] at known
  · exact .inr installs

/-! One action of a run in which the run at hand serves before and after. -/

section Action
variable {c : Config (machine sup)} {index : Nat} {choice : Choice} {t : Task (machine sup)} {o : Act}
  {answer : o.Answer} {memory : Memory} {next : Program (Option Entry)} {session : SessionId}
  {run : RunId}

theorem owedMoves (reached : Reach Always (initially sup) c)
    (performs : Performs c index choice t o answer memory next)
    (still : ∀ target, o ≠ .session session (.setState target)) (owed : Owed c session run) :
    Owed ⟨memory, c.tasks.set index (t.advance o answer next) ++ spawned o⟩ session run := by
  have obeys := performsObeys updatesSound (reachUpdating reached).placed performs
  refine @kindStays _ _ (updates sup) _ _ _ _ _ _ _ _ performs obeys
    (fun u => Update.owes u = some (session, run)) (fun owes => ?_) owed
  exact turnsOwes afterTurns obeys.allowed owes still

theorem heldBefore (reached : Reach Always (initially sup) c)
    (performs : Performs c index choice t o answer memory next) {u : Task (machine sup)} {target}
    (member : u ∈ c.tasks.set index (t.advance o answer next) ++ spawned o)
    (held : (updates sup).place u = .holding session run target) :
    (∃ v ∈ c.tasks, (updates sup).place v = .holding session run target) ∨
      Holds session run target ((updates sup).place t) o answer := by
  have obeys := performsObeys updatesSound (reachUpdating reached).placed performs
  obtain ⟨j, found⟩ := List.getElem?_of_mem member
  rcases taskCases found with ⟨_, rfl⟩ | ⟨_, old⟩ | ⟨_, e, _, rfl⟩
  · rw [obeys.reached] at held
    exact .inr (afterHolds obeys.allowed held)
  · exact .inl ⟨u, List.mem_of_getElem? old, held⟩
  · cases e <;> cases held

theorem stateMoves (reached : Reach Always (initially sup) c)
    (performs : Performs c index choice t o answer memory next)
    (timely : TimelyAct c ((updates sup).place t) o) (before : Serving c session run)
    (serving : Serving ⟨memory, c.tasks.set index (t.advance o answer next) ++ spawned o⟩ session run)
    {record record'} (found : c.memory.sessions session = some record)
    (found' : memory.sessions session = some record') :
    record'.data.state = record.data.state ∨ ∃ target, o = .session session (.setState target) ∧
      record'.data.state = record.data.state.setTo target := by
  obtain ⟨⟨record₁, found₁, active⟩, -, unfinished⟩ := serving
  cases Option.some.inj (found'.symm.trans found₁)
  have effect : apply sup o choice c.memory = some (answer, memory) := performs.effect
  rcases recordCases effect found' with old | ⟨call, record₁, answer₁, rfl, old, performed⟩ | ⟨_, rfl⟩
  · cases Option.some.inj (found.symm.trans old)
    exact .inl rfl
  · cases Option.some.inj (found.symm.trans old)
    by_cases writes : SessionCall.WritesState call
    · cases call <;> try exact writes.elim
      case setState target =>
        cases Option.some.inj performed
        exact .inr ⟨target, rfl, rfl⟩
      case launchFailure error =>
        obtain ⟨record₂, found₂, shown⟩ := before.1
        exact absurd before (timely record₂ found₂ run shown)
      case protocolFailure state error =>
        cases Option.some.inj performed
        have obeys := performsObeys updatesSound (reachUpdating reached).placed performs
        have lineage := reachLineage reached
        obtain ⟨r, serves⟩ := obeys.allowed
        have link := reachLinked reached (List.mem_of_getElem? performs.present) r (by rw [serves]; rfl)
        have holds := (performsObeys rolesSound lineage.placed performs).allowed
        have backs : c.memory.ledger.Backs ((roles sup).place t) := lineage.here performs.present
        have active' : r = run := by
          have history : c.memory.ledger.history session = some record.history := by
            simp [Memory.ledger, found]
          cases role : (roles sup).place t <;> rw [role] at holds link backs <;>
            first | (cases holds; done) | skip
          all_goals
            cases holds
            cases link
            obtain ⟨_, h, history', shown⟩ := backs
            cases Option.some.inj (history.symm.trans history')
            exact Option.some.inj (shown.symm.trans active)
        subst active'
        refine absurd ?_ (unfinished _ (List.mem_of_getElem? (movedTask performs.present)))
        rw [obeys.reached, serves]
        rfl
      case finalize r completion =>
        have lineage := reachLineage reached
        have holds := (performsObeys rolesSound lineage.placed performs).allowed
        have backs : c.memory.ledger.Backs ((roles sup).place t) := lineage.here performs.present
        rw [show (roles sup).place t = .closing session r from holds] at backs
        obtain ⟨_, h, history, shown⟩ := backs
        rcases activeBack performed active with ⟨was, other⟩ | installs
        · have same : c.memory.ledger.history session = some record.history := by
            simp [Memory.ledger, found]
          cases Option.some.inj (history.symm.trans same)
          obtain rfl : r = run := Option.some.inj (shown.symm.trans was)
          exact absurd rfl (other completion)
        · cases installs
    · exact .inl (stateKept writes performed)
  · cases active

theorem moverServes {call : PendingTracker.Call} {answer : call.Answer}
    (reached : Reach Always (initially sup) c)
    (performs : Performs c index choice t (Act.run run (.tracker call)) answer memory next)
    (before : Serving c session run) (moves : call.Moves answer) :
    (updates sup).place t = .serving session run := by
  have holds := reachUpdating reached
  have obeys := performsObeys updatesSound holds.placed performs
  have here : (updating sup).Here ((updates sup).place t) c.memory := holds.here performs.present
  have consistent : c.memory.ledger.Consistent := (reachLineage reached).inv
  obtain ⟨⟨record, found, active⟩, -, unfinished⟩ := before
  have mine : ∀ s, Update.served ((updates sup).place t) = some (s, run) → s = session := by
    intro s served
    obtain ⟨h, history, installed⟩ := here s run served
    obtain ⟨h', history', installed'⟩ := activeIsInstalled consistent found active
    exact consistent.installedHere history history' installed installed'
  rcases movesServing obeys.allowed moves with ⟨s, finishing⟩ | ⟨s, serves⟩
  · obtain rfl := mine s (by rw [finishing]; rfl)
    exact absurd finishing (unfinished t (List.mem_of_getElem? performs.present))
  · obtain rfl := mine s (by rw [serves]; rfl)
    exact serves

theorem asksKept (reached : Reach Always (initially sup) c)
    (performs : Performs c index choice t o answer memory next)
    (elsewhere : ∀ call, o ≠ .run run (.tracker call)) {control control'}
    (known : c.memory.runs run = some control) (known' : memory.runs run = some control') :
    control'.pending = control.pending := by
  have effect : apply sup o choice c.memory = some (answer, memory) := performs.effect
  by_cases mine : ∃ call, o = .run run call
  · obtain ⟨call, rfl⟩ := mine
    obtain ⟨control₁, control₂, found, performed, rfl⟩ := applyRun effect
    cases Option.some.inj (known.symm.trans found)
    rcases updatedControl known' with ⟨_, rfl⟩ | ⟨different, _⟩
    · exact pendingKept performed fun call' same => elsewhere call' (by rw [same])
    · exact absurd rfl different
  · have same : memory.runs run = c.memory.runs run := by
      refine runsKept effect ?_ fun call same => mine ⟨call, same⟩
      rintro s token binding capture spec rfl
      rw [spawnsUnknown (reachLineage reached) performs] at known
      cases known
    cases Option.some.inj (known'.symm.trans (same.trans known))
    rfl

theorem tracked {call : PendingTracker.Call} {answer : call.Answer}
    (performs : Performs c index choice t (Act.run run (.tracker call)) answer memory next)
    {control control'} (known : c.memory.runs run = some control)
    (known' : memory.runs run = some control') :
    control.pending.perform c.memory.now call = (answer, control'.pending) := by
  have effect : apply sup (.run run (.tracker call)) choice c.memory = some (answer, memory) :=
    performs.effect
  obtain ⟨control₁, control₂, found, performed, rfl⟩ := applyRun effect
  cases Option.some.inj (known.symm.trans found)
  rcases updatedControl known' with ⟨_, rfl⟩ | ⟨different, _⟩
  · cases Option.some.inj performed
    rfl
  · exact absurd rfl different

end Action

/-- What holds of a serving run at every step: its state agrees with what is pending or an
update is owed, and the state that is due can be set and is the one that its tasks hold. -/
structure Kept (c : Config (machine sup)) (session : SessionId) (run : RunId) (state : SessionState)
    (pending : PendingTracker) : Prop where
  serves : SessionState.Serves state
  shows : SessionState.Agrees state pending ∨ Owed c session run
  single : ¬ (pending.Asks .permission ∧ pending.Asks .userInput)
  taken : SessionState.refuses state (due pending) = false
  held : ∀ t ∈ c.tasks, ∀ target, (updates sup).place t = .holding session run target →
    target = due pending

def WaitingKept (c : Config (machine sup)) : Prop := ∀ session run record control,
  Serving c session run → c.memory.sessions session = some record → c.memory.runs run = some control →
  Kept c session run record.data.state control.pending

section Keeping
variable {c : Config (machine sup)} {index : Nat} {choice : Choice} {t : Task (machine sup)}
  {memory : Memory} {next : Program (Option Entry)} {session : SessionId} {run : RunId}
  {record record' : SessionRecord} {control control' : RunControl}

theorem installKeeps {answer : Bool} (reached : Reach Always (initially sup) c)
    (performs : Performs c index choice t (Act.session session (.install run)) answer memory next)
    (timely : TimelyAct c ((updates sup).place t) (.session session (.install run)))
    (found' : memory.sessions session = some record')
    (known' : memory.runs run = some control') :
    Kept ⟨memory, c.tasks.set index (t.advance (Act.session session (.install run)) answer next) ++
      spawned (Act.session session (.install run))⟩ session run record'.data.state control'.pending := by
  have effect : apply sup (.session session (.install run)) choice c.memory = some (answer, memory) :=
    performs.effect
  have lineage := reachLineage reached
  have allowed := (performsObeys rolesSound lineage.placed performs).allowed
  have backs : c.memory.ledger.Backs ((roles sup).place t) := lineage.here performs.present
  rw [show (roles sup).place t = .spawned session run from allowed] at backs
  obtain ⟨record, record₁, found, performed, rfl⟩ := applySession effect
  obtain rfl := updatedSelf found'
  have fresh : ∀ s, ¬ c.memory.Installed s run := by
    rintro s ⟨h, history, installed⟩
    exact backs.2.2 s h history installed
  have nothing : ∀ kind, kind ≠ .guiAction → ¬ control'.pending.Asks kind := by
    intro kind waits asks
    obtain ⟨s, installed⟩ := (reachUpdating reached).inv run control' kind known' waits asks
    exact fresh s installed
  have state : record'.data.state = record.data.state := stateKept id performed
  obtain ⟨serves, agrees⟩ := launchedAgrees (timely record found) nothing
  rw [state]
  refine ⟨serves, .inl agrees, fun both => nothing _ (by decide) both.1, agreesTaken agrees, ?_⟩
  intro u member target held
  have idle : ∀ v ∈ c.tasks, (updates sup).place v ≠ .holding session run target := by
    intro v old same
    obtain ⟨j, present⟩ := List.getElem?_of_mem old
    have here : (updating sup).Here ((updates sup).place v) c.memory := (reachUpdating reached).here present
    exact fresh session (here session run (by rw [same]; rfl))
  rcases heldBefore reached performs member held with ⟨v, old, same⟩ | holds
  · exact absurd same (idle v old)
  · cases holds with
    | kept same => exact absurd same (idle t (List.mem_of_getElem? performs.present))

theorem setStateKeeps {answer : Unit} {target} (reached : Reach Always (initially sup) c)
    (before : Serving c session run)
    (performs : Performs c index choice t (Act.session session (.setState target)) answer memory next)
    (timely : TimelyAct c ((updates sup).place t) (.session session (.setState target)))
    (found : c.memory.sessions session = some record)
    (kept : Kept c session run record.data.state control.pending) :
    SessionState.Serves target ∧ SessionState.refuses record.data.state target = false ∧
      SessionState.Agrees target control.pending := by
  have obeys := performsObeys updatesSound (reachUpdating reached).placed performs
  have member : t ∈ c.tasks := List.mem_of_getElem? performs.present
  obtain ⟨record₁, found₁, active⟩ := before.1
  cases Option.some.inj (found.symm.trans found₁)
  obtain ⟨own, alone⟩ := timely record found run active before
  have allowed : Update.maySet session target ((updates sup).place t) := obeys.allowed
  cases place : (updates sup).place t with
  | other => rw [place] at own; cases own
  | asking s r => rw [place] at allowed; exact allowed.elim
  | owing s r => rw [place] at allowed; exact allowed.elim
  | finishing s r =>
    rw [place] at allowed own
    cases own
    obtain rfl : s = session := allowed
    exact absurd place (before.2.2 t member)
  | holding s r held =>
    rw [place] at allowed own
    cases own
    obtain ⟨rfl, rfl⟩ := allowed
    obtain rfl := kept.held t member target place
    exact ⟨dueAgrees.2, kept.taken, dueAgrees.1⟩
  | serving s r =>
    rw [place] at allowed alone
    obtain ⟨starting, settled⟩ := alone rfl
    have agrees := kept.shows.resolve_right settled
    rw [starting] at agrees ⊢
    have nothing : ∀ kind, kind ≠ .guiAction → ¬ control.pending.Asks kind := by
      intro kind waits asks
      have permission : ¬ control.pending.Asks .permission := fun asks => by cases agrees.1.mpr asks
      cases kind with
      | permission => exact permission asks
      | userInput => cases agrees.2.mpr ⟨permission, asks⟩
      | guiAction => exact waits rfl
    have launched : target ∈ [SessionState.starting, .ready, .running] := by
      rcases allowed.2 with rfl | rfl <;> decide
    refine ⟨(launchedAgrees launched nothing).1, ?_, (launchedAgrees launched nothing).2⟩
    rcases allowed.2 with rfl | rfl <;> rfl

theorem changeKeeps {call : PendingTracker.Call} {answer : call.Answer}
    (reached : Reach Always (initially sup) c) (before : Serving c session run)
    (performs : Performs c index choice t (Act.run run (.tracker call)) answer memory next)
    (timely : TimelyAct c ((updates sup).place t) (.run run (.tracker call)))
    (moves : call.Moves answer) (found : c.memory.sessions session = some record)
    (known : c.memory.runs run = some control) (known' : memory.runs run = some control')
    (kept : Kept c session run record.data.state control.pending) :
    Kept ⟨memory, c.tasks.set index (t.advance (Act.run run (.tracker call)) answer next) ++
      spawned (Act.run run (.tracker call))⟩ session run record.data.state control'.pending := by
  have obeys := performsObeys updatesSound (reachUpdating reached).placed performs
  have serving := moverServes reached performs before moves
  have present : t ∈ c.tasks := List.mem_of_getElem? performs.present
  have wf := reachWellformed reached known
  have outcome := PendingTracker.performOutcome wf c.memory.now call
  rw [tracked performs known known'] at outcome
  obtain ⟨free, admits⟩ := timely (session, run) (by rw [serving]; rfl) before
  have allowed : Update.mayTrack (.serving session run) run call := by
    rw [← serving]
    exact obeys.allowed
  have unheld := free (movesChanges allowed moves)
  have admitted := admits record found control known
  have shown : ¬ (control'.pending.Asks .permission ∧ control'.pending.Asks .userInput) ∧
      SessionState.refuses record.data.state (due control'.pending) = false :=
    changeTaken (outcomeChanged outcome moves) admitted kept.single kept.taken
  refine ⟨kept.serves, .inr ?_, shown.1, shown.2, ?_⟩
  · refine ⟨_, List.mem_of_getElem? (movedTask performs.present), ?_⟩
    rw [obeys.reached, serving]
    exact movesOwe allowed moves
  · intro u member target held
    have idle : ∀ v ∈ c.tasks, (updates sup).place v ≠ .holding session run target :=
      fun v old same => unheld ⟨v, old, by rw [same]; rfl⟩
    rcases heldBefore reached performs member held with ⟨v, old, same⟩ | holds
    · exact absurd same (idle v old)
    · cases holds with
      | kept same => exact absurd same (idle t present)
      | read owing => exact moves.elim
      | registered _ waits shows =>
        rw [shows]
        exact registeredDue (outcomeChanged outcome moves) admitted waits

theorem heldDue {o : Act} {answer : o.Answer} {pending : PendingTracker} {state : SessionState}
    (reached : Reach Always (initially sup) c) (performs : Performs c index choice t o answer memory next)
    (read : ∀ target, Holds session run target ((updates sup).place t) o answer →
      (updates sup).place t = .holding session run target ∨ target = due pending)
    (kept : Kept c session run state pending) {u : Task (machine sup)} {target : SessionState}
    (member : u ∈ c.tasks.set index (t.advance o answer next) ++ spawned o)
    (held : (updates sup).place u = .holding session run target) : target = due pending := by
  rcases heldBefore reached performs member held with ⟨v, old, place⟩ | holds
  · exact kept.held v old target place
  · rcases read target holds with place | due
    · exact kept.held t (List.mem_of_getElem? performs.present) target place
    · exact due

theorem stillKeeps {o : Act} {answer : o.Answer} (reached : Reach Always (initially sup) c)
    (performs : Performs c index choice t o answer memory next)
    (unset : ∀ target, o ≠ .session session (.setState target))
    (same : ∀ kind, kind ≠ .guiAction → (control'.pending.Asks kind ↔ control.pending.Asks kind))
    (read : ∀ target, Holds session run target ((updates sup).place t) o answer →
      (updates sup).place t = .holding session run target ∨ target = due control.pending)
    (kept : Kept c session run record.data.state control.pending) :
    Kept ⟨memory, c.tasks.set index (t.advance o answer next) ++ spawned o⟩ session run
      record.data.state control'.pending := by
  refine ⟨kept.serves, kept.shows.imp (agreesIff same).mpr (owedMoves reached performs unset), ?_, ?_, ?_⟩
  · rw [same .permission (by decide), same .userInput (by decide)]
    exact kept.single
  · rw [dueSame same]
    exact kept.taken
  · intro u member target held
    rw [dueSame same]
    exact heldDue reached performs read kept member held

theorem trackKeeps {call : PendingTracker.Call} {answer : call.Answer}
    (reached : Reach Always (initially sup) c) (before : Serving c session run)
    (performs : Performs c index choice t (Act.run run (.tracker call)) answer memory next)
    (timely : TimelyAct c ((updates sup).place t) (.run run (.tracker call)))
    (found : c.memory.sessions session = some record)
    (known : c.memory.runs run = some control) (known' : memory.runs run = some control')
    (kept : Kept c session run record.data.state control.pending) :
    Kept ⟨memory, c.tasks.set index (t.advance (Act.run run (.tracker call)) answer next) ++
      spawned (Act.run run (.tracker call))⟩ session run record.data.state control'.pending := by
  by_cases moves : call.Moves answer
  · exact changeKeeps reached before performs timely moves found known known' kept
  · have wf := reachWellformed reached known
    have outcome := PendingTracker.performOutcome wf c.memory.now call
    have performed := tracked performs known known'
    rw [performed] at outcome
    refine stillKeeps reached performs (fun _ same => by cases same)
      (fun kind waits => PendingTracker.outcomeAsks wf outcome moves waits) (fun target holds => ?_) kept
    cases holds with
    | kept same => exact .inl same
    | registered _ waits _ => exact absurd waits moves
    | read _ shows =>
      obtain ⟨rfl, _⟩ := Prod.mk.inj performed
      exact .inr shows

end Keeping

theorem keptAct {c : Config (machine sup)} (reached : Reach Always (initially sup) c)
    (kept : WaitingKept c) {index choice t o answer memory next}
    (performs : Performs c index choice t o answer memory next)
    (timely : TimelyAct c ((updates sup).place t) o) :
    WaitingKept ⟨memory, c.tasks.set index (t.advance o answer next) ++ spawned o⟩ := by
  intro session run record' control' serving found' known'
  rcases servingBack reached performs serving with before | rfl
  · obtain ⟨record, found, _⟩ := before.1
    obtain ⟨control, known, _⟩ := before.2.1
    have still := kept session run record control before found known
    by_cases tracks : ∃ call, o = .run run (.tracker call)
    · obtain ⟨call, rfl⟩ := tracks
      rcases stateMoves reached performs timely before serving found found' with same | ⟨_, set, _⟩
      · rw [same]
        exact trackKeeps reached before performs timely found known known' still
      · cases set
    have same := asksKept reached performs (fun call same => tracks ⟨call, same⟩) known known'
    have holds : ∀ target, Holds session run target ((updates sup).place t) o answer →
        (updates sup).place t = .holding session run target ∨ target = due control.pending := by
      intro target holds
      cases holds with
      | kept held => exact .inl held
      | registered => exact absurd ⟨_, rfl⟩ tracks
      | read => exact absurd ⟨_, rfl⟩ tracks
    by_cases sets : ∃ target, o = .session session (.setState target)
    · obtain ⟨target, rfl⟩ := sets
      obtain ⟨serves, taken, agrees⟩ := setStateKeeps reached before performs timely found still
      have effect : apply sup (.session session (.setState target)) choice c.memory =
        some (answer, memory) := performs.effect
      obtain ⟨record₁, record₂, found₁, performed, rfl⟩ := applySession effect
      obtain rfl := updatedSelf found'
      cases Option.some.inj (found.symm.trans found₁)
      have set : record'.data.state = target := by
        cases Option.some.inj performed
        exact (servesAccepts still.serves serves).mpr taken
      rw [set, same]
      refine ⟨serves, .inl agrees, still.single, agreesTaken agrees, ?_⟩
      exact fun u member target held => heldDue reached performs holds still member held
    · rcases stateMoves reached performs timely before serving found found' with kept | ⟨target, set, _⟩
      · rw [kept]
        exact stillKeeps reached performs (fun target set => sets ⟨target, set⟩)
          (fun kind _ => by rw [same]) holds still
      · exact absurd ⟨target, set⟩ sets
  · exact installKeeps reached performs timely found' known'

theorem keptTasks {c c' : Config (machine sup)} {session run state pending}
    (owes : Owed c session run → Owed c' session run)
    (old : ∀ u ∈ c'.tasks, ∀ target, (updates sup).place u = .holding session run target → u ∈ c.tasks)
    (kept : Kept c session run state pending) : Kept c' session run state pending :=
  ⟨kept.serves, kept.shows.imp id owes, kept.single, kept.taken,
    fun u member target held => kept.held u (old u member target held) target held⟩

theorem keptMoves {c c' : Config (machine sup)} {e} (reached : Reach Always (initially sup) c)
    (kept : WaitingKept c) (timely : Timely c e) (moves : Moves c e c') : WaitingKept c' := by
  cases moves with
  | @call e allowed =>
    intro session run record control serving found known
    have before : Serving c session run :=
      ⟨serving.1, serving.2.1, fun t member => serving.2.2 t (List.mem_append_left _ member)⟩
    refine keptTasks ?_ ?_ (kept session run record control before found known)
    · rintro ⟨t, member, owing⟩
      exact ⟨t, List.mem_append_left _ member, owing⟩
    · intro u member target held
      rcases List.mem_append.mp member with old | new
      · exact old
      · cases List.mem_singleton.mp new
        cases e <;> cases held
  | act performs =>
    exact keptAct reached kept performs (timely _ performs.present _ (performsNext performs))
  | outside effect =>
    intro session run record control serving found known
    have untouched : ∀ {memory : Memory} {control : RunControl}, Serving c session run →
        c.memory.sessions session = some record → c.memory.runs run = some control →
        Kept ⟨memory, c.tasks⟩ session run record.data.state control.pending := by
      intro memory control before found known
      refine keptTasks ?_ ?_ (kept session run record control before found known)
      · exact fun owed => owed
      · exact fun _ member _ _ => member
    rcases outsideCases effect with ⟨_, _, rfl⟩ | ⟨r, before, process, _, old, _, rfl⟩
    · exact untouched serving found known
    · obtain ⟨active, ⟨control₁, known₁, running⟩, unfinished⟩ := serving
      cases Option.some.inj (known.symm.trans known₁)
      rcases updatedControl known with ⟨rfl, rfl⟩ | ⟨different, known⟩
      · exact @untouched _ before ⟨active, ⟨before, old, running⟩, unfinished⟩ found old
      · exact untouched ⟨active, ⟨control, known, running⟩, unfinished⟩ found known

theorem reachKept {c : Config (machine sup)} (h : Reach Timely (initially sup) c) : WaitingKept c := by
  induction h with
  | start =>
    intro session run record control serving found
    cases found
  | step before timely moves ih =>
    exact keptMoves (reachMono (fun _ _ _ => trivial) before) ih timely moves

def Drops (c : Config (machine sup)) : Event (machine sup) → Prop
  | .run index _ => ∃ t session target record run, c.tasks[index]? = some t ∧
      t.next = some (.session session (.setState target)) ∧
      c.memory.sessions session = some record ∧ Serving c session run ∧
      ¬ record.data.state.Accepts target
  | _ => False

/-- A run that owes no update shows what it waits for, and no change it asks for is lost. -/
structure ShowsWaiting (Good : Config (machine sup) → Event (machine sup) → Prop)
    (c : Config (machine sup)) : Prop where
  agrees : ∀ session run record control, Serving c session run → ¬ Owed c session run →
    c.memory.sessions session = some record → c.memory.runs run = some control →
    SessionState.Agrees record.data.state control.pending
  applied : ∀ e c', Good c e → Moves c e c' → ¬ Drops c e

end Waiting

/-! A permission and a user input are asked for, and the permission is answered first. -/
section Mixed

abbrev mixed : Supervisor := plain [permissionFrame, inputRequest]

def permissionTurns (index : Nat) : List (Event (machine mixed)) :=
  [.call (.respondPermission 0 2 "p1" .allow)] ++ turns index 10 ++ [.outside (.pump 2 39)] ++
    turns index 7

def askTurns (frame : Value) : List (Event (machine mixed)) := readTurn 1 frame ++ turns 1 8

def mixedSchedule : List (Event (machine mixed)) :=
  startTurns 0 ++ turns 1 1 ++ askTurns permissionFrame ++ askTurns inputRequest ++ permissionTurns 6

structure Shown where
  serving : Bool
  owed : Bool
  state : Option SessionState
  permission : Option Bool
  userInput : Option Bool
  deriving DecidableEq

def shownOf (c : Config (machine mixed)) : Shown where
  serving := decide (Serving c 0 2)
  owed := decide (Owed c 0 2)
  state := (c.memory.sessions 0).map (fun record => record.data.state)
  permission := (c.memory.runs 2).map (fun control => decide (control.pending.Asks .permission))
  userInput := (c.memory.runs 2).map (fun control => decide (control.pending.Asks .userInput))

theorem mixedShown : (runFrom (initially _) mixedSchedule).map shownOf =
    some ⟨true, false, some .awaitingPermission, some false, some true⟩ := by decide +kernel

def separateSchedule : List (Event (machine mixed)) :=
  startTurns 0 ++ turns 1 1 ++ askTurns permissionFrame ++ permissionTurns 5 ++ askTurns inputRequest

theorem separateShown : (goodRun Timely (initially _) separateSchedule).map shownOf =
    some ⟨true, false, some .awaitingUserInput, some false, some true⟩ := by decide +kernel

end Mixed
end Maestro.Session
