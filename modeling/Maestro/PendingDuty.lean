import Maestro.WaitingState

/-! Who answers for a pending request: the handler that took it in flight, the timer of its
deadline, and the task that found the deadline passed. -/
namespace Maestro.Session
open Interleaving Prog Protocol

inductive Duty where
  | free
  | claimed (run : RunId) (requestId : String) (kind : PendingKind)
  | registered (run : RunId) (requestId : String) (kind : PendingKind) (deadline : Instant)
  | asleep (run : RunId) (requestId : String) (kind : PendingKind) (deadline : Instant)
  | late (run : RunId) (requestId : String) (kind : PendingKind)
  | due (run : RunId) (requestId : String) (kind : PendingKind)
  deriving DecidableEq, Repr

namespace Duty

def Calm : Duty → Prop
  | .free | .claimed .. => True
  | _ => False

def mayTrack (q : Duty) (run : RunId) : PendingTracker.Call → Prop
  | .register .. | .claimActive .. => q = .free
  | .restoreInFlight requestId kind | .resolveInFlight requestId kind
  | .markDeliveryUncertain requestId kind => q = .claimed run requestId kind
  | .expire requestId kind => q = .due run requestId kind
  | _ => q.Calm

def may (q : Duty) : Act → Prop
  | .sleepUntil deadline => q.Calm ∨ ∃ run requestId kind, q = .asleep run requestId kind deadline
  | .spawn (.expiry _ run requestId kind deadline) =>
      q.Calm ∨ q = .registered run requestId kind deadline
  | .run run .loadFinalized => q.Calm ∨ ∃ requestId kind, q = .late run requestId kind
  | .run run (.tracker call) => q.mayTrack run call
  | _ => q.Calm

def wake : Duty → Duty
  | .asleep run requestId kind _ => .late run requestId kind
  | q => q

def hand : Duty → Duty
  | .registered .. => .free
  | q => q

def check : Duty → Bool → Duty
  | .late .., true => .free
  | .late run requestId kind, false => .due run requestId kind
  | q, _ => q

def afterTrack (q : Duty) (run : RunId) : (call : PendingTracker.Call) → call.Answer → Duty
  | .register requestId kind deadline, .ok _ => .registered run requestId kind deadline
  | .claimActive requestId kind, .ok _ => .claimed run requestId kind
  | .restoreInFlight requestId kind, true => .late run requestId kind
  | .restoreInFlight .., false | .resolveInFlight .., _ | .markDeliveryUncertain .., _
  | .expire .., _ => .free
  | _, _ => q

def after (q : Duty) : (o : Act) → o.Answer → Duty
  | .sleepUntil _, _ => q.wake
  | .spawn (.expiry ..), _ => q.hand
  | .run _ .loadFinalized, finalized => q.check finalized
  | .run run (.tracker call), answer => q.afterTrack run call answer
  | _, _ => q

def ofEntry : Entry → Duty
  | .expiry _ run requestId kind deadline => .asleep run requestId kind deadline
  | _ => .free

end Duty

abbrev duties (sup : Supervisor) : Protocol (machine sup) where
  Place := Duty
  enter := Duty.ofEntry
  may := Duty.may
  after := Duty.after
  ends q := q = .free

section Soundness
variable {sup : Supervisor} {session : SessionId} {run : RunId} {q : Duty}

theorem calmStill (calm : q.Calm) : q.wake = q ∧ q.hand = q ∧ ∀ finalized, q.check finalized = q := by
  cases q <;> first | exact ⟨rfl, rfl, fun _ => rfl⟩ | exact calm.elim

theorem plainDuty {o : Act} (calm : q.Calm) (plain : ∀ r call, o ≠ .run r (.tracker call)) :
    q.may o ∧ ∀ answer, q.after o answer = q := by
  obtain ⟨wake, hand, check⟩ := calmStill calm
  cases o with
  | sleepUntil => exact ⟨.inl calm, fun _ => wake⟩
  | spawn entry =>
    cases entry with
    | expiry => exact ⟨.inl calm, fun _ => hand⟩
    | _ => exact ⟨calm, fun _ => rfl⟩
  | run r call =>
    cases call with
    | loadFinalized => exact ⟨.inl calm, check⟩
    | tracker call => exact absurd rfl (plain r call)
    | _ => exact ⟨calm, fun _ => rfl⟩
  | _ => exact ⟨calm, fun _ => rfl⟩

theorem plainUntracked {o : Act} (plain : o.Plain) (r call) : o ≠ .run r (.tracker call) := by
  rintro rfl
  exact plain.elim

theorem plainDuties {α : Type} {p : Program α} (calm : q.Calm) (only : p.Only Act.Plain) :
    (duties sup).Stays q p :=
  staysOnly only fun _ plain => plainDuty calm (plainUntracked plain)

theorem quietStep {β : Type} {post : β → Duty → Prop} {o : Act} {f : o.Answer → Program β}
    (calm : q.Calm) (plain : ∀ r call, o ≠ .run r (.tracker call))
    (rest : ∀ answer, (duties sup).Follows post q (f answer)) :
    (duties sup).Follows post q (Prog.act (A := actions) o .done >>= f) := by
  have quiet := plainDuty calm plain
  refine followsStep quiet.1 fun answer => ?_
  exact followsFrom (quiet.2 answer) (rest answer)

theorem updateWaitingStateDuty (calm : q.Calm) :
    (duties sup).Stays q (updateWaitingState session run) :=
  followsStep calm fun _ => quietStep calm (by simp) fun _ => rfl

theorem activeRunDuty (calm : q.Calm) : (duties sup).Stays q (activeRun session run) := by
  refine quietStep calm (by simp) fun found => ?_
  split
  · rfl
  refine quietStep calm (by simp) fun active => ?_
  split
  · rfl
  refine quietStep calm (by simp) fun finalized => ?_
  split <;> rfl

theorem concludeDeliveryDuty {audit} :
    (duties sup).Stays .free (concludeDelivery sup session run audit) := by
  refine staysSeq (updateWaitingStateDuty trivial) fun _ =>
    staysSeq (plainDuties trivial publishPlain) fun published => ?_
  split <;> rfl

theorem expireRequestDuty {requestId kind} : (duties sup).Follows (fun _ q' => q' = .free)
    (.late run requestId kind) (expireRequest sup session run requestId kind) := by
  refine followsStep (.inr ⟨requestId, kind, rfl⟩) fun finalized => ?_
  cases finalized with
  | true => rfl
  | false =>
  refine followsStep rfl fun expired => ?_
  cases expired with
  | none => rfl
  | some registration =>
  refine staysSeq (plainDuties (q := .free) trivial publishPlain) fun _ => ?_
  split
  · exact staysSeq (plainDuties trivial writeJsonPlain) fun _ => updateWaitingStateDuty trivial
  · exact updateWaitingStateDuty trivial

theorem restoreAndExpireDuty {requestId kind} : (duties sup).Follows (fun _ q' => q' = .free)
    (.claimed run requestId kind) (restoreAndExpire sup session run requestId kind) := by
  refine followsStep rfl fun restored => ?_
  cases restored with
  | true => exact expireRequestDuty
  | false => rfl

theorem deliverPendingResponseDuty {requestId kind response audit} : (duties sup).Stays .free
    (deliverPendingResponse sup session run requestId kind response audit) := by
  have restored : ∀ {error : MaestroError}, (duties sup).Follows (fun _ q' => q' = .free)
      (.claimed run requestId kind) (do
        restoreAndExpire sup session run requestId kind
        return (.error error : Except MaestroError Unit)) := by
    intro error
    refine followsSeq restoreAndExpireDuty ?_
    rintro _ _ rfl
    rfl
  refine followsStep rfl fun claimed => ?_
  cases claimed with
  | error error => rfl
  | ok registration =>
  dsimp only [Duty.after, Duty.afterTrack]
  split
  · exact restored
  refine staysSeq (plainDuties trivial writeJsonBytesPlain) fun written => ?_
  split
  · refine followsStep rfl fun completed => ?_
    split
    · rfl
    · exact concludeDeliveryDuty
  · exact restored
  · refine followsStep rfl fun resolved => ?_
    split
    · exact concludeDeliveryDuty
    · exact staysSeq (updateWaitingStateDuty trivial) fun _ => rfl

theorem respondPermissionDuty {requestId decision} :
    (duties sup).Stays .free (respondPermission sup session run requestId decision) := by
  unfold respondPermission
  split
  · rfl
  refine staysSeq (activeRunDuty trivial) fun active => ?_
  split
  · rfl
  · exact deliverPendingResponseDuty

theorem respondUserInputDuty {requestId value} :
    (duties sup).Stays .free (respondUserInput sup session run requestId value) := by
  unfold respondUserInput
  split
  · rfl
  refine staysSeq (activeRunDuty trivial) fun active => ?_
  split
  · rfl
  · exact deliverPendingResponseDuty

theorem registerPendingDuty {requestId kind} :
    (duties sup).Stays .free (registerPending sup session run requestId kind) := by
  unfold registerPending
  split
  · rfl
  refine followsStep trivial fun start => followsStep rfl fun registered => ?_
  cases registered with
  | error error => rfl
  | ok _ => exact followsStep (.inr rfl) fun _ => rfl

theorem sendGuiActionDuty {action payload} :
    (duties sup).Stays .free (sendGuiAction sup session run action payload) := by
  unfold sendGuiAction
  split
  · rfl
  refine staysSeq (activeRunDuty trivial) fun active => ?_
  split
  · rfl
  refine followsStep trivial fun actionId => staysSeq registerPendingDuty fun registered => ?_
  split
  · rfl
  refine staysSeq (plainDuties trivial publishPlain) fun published => ?_
  split
  · rfl
  refine staysSeq (plainDuties trivial writeJsonPlain) fun written => ?_
  split
  · exact followsStep trivial fun _ => rfl
  · rfl

theorem applyFrameDuty {frame} : (duties sup).Stays .free (applyFrame sup session run frame) := by
  have request : ∀ {kind waiting category}, (duties sup).Stays .free
      (handleRequest sup session run kind waiting category frame) := by
    intro kind waiting category
    unfold handleRequest
    split
    · rfl
    refine staysSeq registerPendingDuty fun registered => ?_
    split
    · rfl
    · exact followsStep trivial fun _ => rfl
  have result : ∀ {kind category}, (duties sup).Stays .free
      (handleResult session run kind category frame) := by
    intro kind category
    unfold handleResult
    split
    · rfl
    refine followsStep trivial fun confirmed => ?_
    split
    · exact staysSeq (updateWaitingStateDuty (q := .free) trivial) fun _ => rfl
    · rfl
  have ack : (duties sup).Stays .free (handleAck run frame) := by
    unfold handleAck
    split
    · rfl
    refine followsStep trivial fun resolved => ?_
    split <;> rfl
  unfold applyFrame
  split
  · exact plainDuties trivial adoptBindingPlain
  · exact plainDuties trivial adoptBindingPlain
  · exact request
  · exact request
  · exact result
  · exact result
  · exact ack
  · rfl

theorem handleFrameDuty {value} : (duties sup).Stays .free (handleFrame sup session run value) := by
  refine followsStep trivial fun _ => ?_
  split
  · rfl
  refine staysSeq applyFrameDuty fun applied => ?_
  split
  · rfl
  refine followsStep trivial fun published => ?_
  split
  · rfl
  refine followsStep trivial fun state => ?_
  split
  · exact followsStep trivial fun _ => rfl
  · rfl

theorem handleFramesDuty {frames} :
    (duties sup).Stays .free (handleFrames sup session run frames) := by
  induction frames with
  | nil => rfl
  | cons value rest ih =>
    refine staysSeq handleFrameDuty fun handled => ?_
    split
    · rfl
    · exact ih

theorem readStdoutDuty {decoder} : (duties sup).Follows (duties sup).EntryPost .free
    (readStdout sup session run decoder) := by
  refine followsStep trivial fun read => ?_
  split
  · rfl
  · rfl
  refine followsStep trivial fun _ => staysSeq handleFramesDuty fun handled => ?_
  split
  · rfl
  split <;> rfl

/-! The other tasks never hold a request. -/

def Act.Aloof : Act → Prop
  | .run _ (.tracker .waitingState) | .run _ (.tracker .clearActive) => True
  | .run _ (.tracker _) => False
  | _ => True

theorem aloofDuty {o : Act} (aloof : o.Aloof) :
    Duty.free.may o ∧ ∀ answer, Duty.free.after o answer = .free := by
  by_cases tracked : ∃ r call, o = .run r (.tracker call)
  · obtain ⟨r, call, rfl⟩ := tracked
    cases call <;> first | exact ⟨trivial, fun _ => rfl⟩ | exact aloof.elim
  · exact plainDuty trivial fun r call same => tracked ⟨r, call, same⟩

theorem untrackedAloof {o : Act}
    (untracked : ∀ r call, o = .run r (.tracker call) → call = .waitingState ∨ call = .clearActive) :
    o.Aloof := by
  cases o <;> first | exact trivial | skip
  case run r call =>
    cases call <;> first | exact trivial | skip
    case tracker call => rcases untracked r call rfl with rfl | rfl <;> exact trivial

theorem calmAloof {o : Act} (calm : CalmAct session run o) : o.Aloof := by
  refine untrackedAloof ?_
  rintro r call rfl
  cases call <;> first | exact .inl rfl | exact calm.2.elim

theorem launchAloof {o : Act} (launch : LaunchAct o) : o.Aloof := by
  refine untrackedAloof ?_
  rintro r call rfl
  exact launch.elim

theorem finishAloof {o : Act} (finish : FinishAct session run o) : o.Aloof := by
  refine untrackedAloof ?_
  rintro r call rfl
  cases call <;> first | exact .inr rfl | exact finish.2.elim

theorem monitorAloof {o : Act} (monitor : MonitorAct session run o) : o.Aloof := by
  refine untrackedAloof ?_
  rintro r call rfl
  exact monitor.elim

theorem stderrAloof {o : Act} (stderr : StderrAct session run o) : o.Aloof := by
  refine untrackedAloof ?_
  rintro r call rfl
  exact stderr.elim

theorem aloofStays {α : Type} {p : Program α} (only : p.Only Act.Aloof) : (duties sup).Stays .free p :=
  staysOnly only fun _ => aloofDuty

def Steady : Option Entry → Prop
  | none => True
  | some e => Duty.ofEntry e = .free

theorem steadyEnds {p : Program (Option Entry)} (only : p.Only Act.Aloof) (returns : p.Returns Steady) :
    (duties sup).Follows (duties sup).EntryPost .free p := by
  refine staysReturns only (fun _ => aloofDuty) returns fun next steady => ?_
  cases next with
  | none => rfl
  | some e => exact steady.symm

theorem replyDuty {call : Program (Except MaestroError Unit)} (stays : (duties sup).Stays .free call) :
    (duties sup).Follows (duties sup).EntryPost .free (reply call) :=
  staysSeq stays fun _ => followsStep trivial fun _ => rfl

theorem dutiesSound : (duties sup).Sound := by
  intro e
  cases e with
  | start request => exact replyDuty (aloofStays (onlyImp handleStartLaunch fun _ => launchAloof))
  | resume session request =>
    exact replyDuty (aloofStays (onlyImp handleResumeLaunch fun _ => launchAloof))
  | respondPermission => exact replyDuty respondPermissionDuty
  | respondUserInput => exact replyDuty respondUserInputDuty
  | sendGuiAction => exact replyDuty sendGuiActionDuty
  | stop session run =>
    have calm : Only (CalmAct session run) (stop sup session run) := stopCalm
    exact replyDuty (aloofStays (onlyImp calm fun _ => calmAloof))
  | expiry session run requestId kind deadline =>
    refine followsStep (.inr ⟨run, requestId, kind, rfl⟩) fun _ => followsSeq expireRequestDuty ?_
    rintro _ _ rfl
    rfl
  | stderrReader session run =>
    refine steadyEnds (onlyImp readStderrOnly fun _ => stderrAloof) (returnsImp readStderrReturns ?_)
    rintro _ (rfl | rfl) <;> trivial
  | supervise session run => exact followsStep trivial fun _ => rfl
  | stdoutReader session run decoder => exact readStdoutDuty
  | finish session run failure =>
    exact staysSeq (aloofStays (onlyImp finishRunFinish fun _ => finishAloof)) fun _ => rfl
  | monitor session run afterSequence =>
    refine steadyEnds (onlyImp monitorMonitor fun _ => monitorAloof) (returnsImp monitorReturns ?_)
    rintro _ (rfl | ⟨last, rfl⟩) <;> trivial
  | monitorLoop session run lastPersisted =>
    refine steadyEnds (onlyImp monitorLoopMonitor fun _ => monitorAloof)
      (returnsImp monitorLoopReturns ?_)
    rintro _ (rfl | ⟨last, rfl⟩) <;> trivial

end Soundness

/-! Every pending request has its tasks. -/

namespace Duty

def Claims (run : RunId) (requestId : String) (kind : PendingKind) (q : Duty) : Prop :=
  q = .claimed run requestId kind

def Waits (run : RunId) (requestId : String) (kind : PendingKind) (deadline : Instant) (q : Duty) : Prop :=
  q = .registered run requestId kind deadline ∨ q = .asleep run requestId kind deadline

def Expires (run : RunId) (requestId : String) (kind : PendingKind) (q : Duty) : Prop :=
  q = .late run requestId kind ∨ q = .due run requestId kind

end Duty

section Tending
variable {sup : Supervisor} {q : Duty} {run : RunId} {requestId : String} {kind : PendingKind}
  {deadline : Instant} {o : Act}

theorem mayRegistered (may : (Duty.registered run requestId kind deadline).may o) :
    ∃ session, o = .spawn (.expiry session run requestId kind deadline) := by
  cases o <;> first | exact may.elim | skip
  case sleepUntil => rcases may with calm | ⟨_, _, _, same⟩ <;> first | exact calm.elim | cases same
  case spawn entry =>
    cases entry <;> first | exact may.elim | skip
    rcases may with calm | same
    · exact calm.elim
    · cases same
      exact ⟨_, rfl⟩
  case run r call =>
    cases call <;> first | exact may.elim | skip
    case loadFinalized => rcases may with calm | ⟨_, _, same⟩ <;> first | exact calm.elim | cases same
    case tracker call => cases call <;> first | exact may.elim | cases may

theorem mayAsleep (may : (Duty.asleep run requestId kind deadline).may o) : o = .sleepUntil deadline := by
  cases o <;> first | exact may.elim | skip
  case sleepUntil =>
    rcases may with calm | ⟨_, _, _, same⟩
    · exact calm.elim
    · cases same
      rfl
  case spawn entry =>
    cases entry <;> first | exact may.elim | skip
    rcases may with calm | same <;> first | exact calm.elim | cases same
  case run r call =>
    cases call <;> first | exact may.elim | skip
    case loadFinalized => rcases may with calm | ⟨_, _, same⟩ <;> first | exact calm.elim | cases same
    case tracker call => cases call <;> first | exact may.elim | cases may

theorem mayLate (may : (Duty.late run requestId kind).may o) : o = .run run .loadFinalized := by
  cases o <;> first | exact may.elim | skip
  case sleepUntil => rcases may with calm | ⟨_, _, _, same⟩ <;> first | exact calm.elim | cases same
  case spawn entry =>
    cases entry <;> first | exact may.elim | skip
    rcases may with calm | same <;> first | exact calm.elim | cases same
  case run r call =>
    cases call <;> first | exact may.elim | skip
    case loadFinalized =>
      rcases may with calm | ⟨_, _, same⟩
      · exact calm.elim
      · cases same
        rfl
    case tracker call => cases call <;> first | exact may.elim | cases may

theorem mayDue (may : (Duty.due run requestId kind).may o) :
    o = .run run (.tracker (.expire requestId kind)) := by
  cases o <;> first | exact may.elim | skip
  case sleepUntil => rcases may with calm | ⟨_, _, _, same⟩ <;> first | exact calm.elim | cases same
  case spawn entry =>
    cases entry <;> first | exact may.elim | skip
    rcases may with calm | same <;> first | exact calm.elim | cases same
  case run r call =>
    cases call <;> first | exact may.elim | skip
    case loadFinalized => rcases may with calm | ⟨_, _, same⟩ <;> first | exact calm.elim | cases same
    case tracker call =>
      cases call <;> first | exact may.elim | cases may
      rfl

theorem mayClaimed {answer : o.Answer} (may : (Duty.claimed run requestId kind).may o) :
    (Duty.claimed run requestId kind).after o answer = .claimed run requestId kind ∨
      ∃ call : PendingTracker.Call, o = .run run (.tracker call) ∧ call.Returns requestId kind := by
  by_cases tracked : ∃ r call, o = .run r (.tracker call)
  · obtain ⟨r, call, rfl⟩ := tracked
    cases call <;> first | exact .inl rfl | cases may
    all_goals exact .inr ⟨_, rfl, rfl, rfl⟩
  · have calm : (Duty.claimed run requestId kind).Calm := trivial
    exact .inl ((plainDuty calm fun r call same => tracked ⟨r, call, same⟩).2 answer)

theorem trackerFlies {t : PendingTracker} {now : Instant} {call : PendingTracker.Call}
    {answer : call.Answer} {t' : PendingTracker} (run : RunId)
    (outcome : PendingTracker.Outcome t now call answer t') {p}
    (found : t'.inFlight.lookup requestId = some p) : t.inFlight.lookup requestId = some p ∨
      (t.active.lookup requestId = some p ∧ now < p.deadline ∧
        ∀ q : Duty, q.afterTrack run call answer = .claimed run requestId p.kind) := by
  cases outcome with
  | claimed active early =>
    rcases PendingTracker.insertLookup.mp found with ⟨rfl, rfl⟩ | ⟨_, old⟩
    · exact .inr ⟨active, early, fun _ => rfl⟩
    · exact .inl old
  | restored _ => exact .inl (PendingTracker.eraseLookup.mp found).1
  | expired _ _ settles => exact .inl (settles.inFlight found)
  | settled _ _ settles => exact .inl (settles.inFlight found)
  | cleared => simp [PendingTracker.clearActive] at found
  | _ => exact .inl found

theorem trackerActive {t : PendingTracker} {now : Instant} {call : PendingTracker.Call}
    {answer : call.Answer} {t' : PendingTracker} (run : RunId)
    (outcome : PendingTracker.Outcome t now call answer t') {p}
    (found : t'.active.lookup requestId = some p) : t.active.lookup requestId = some p ∨
      (∀ q : Duty, q.afterTrack run call answer = .registered run requestId p.kind p.deadline) ∨
      (t.inFlight.lookup requestId = some p ∧
        ∀ q : Duty, q.afterTrack run call answer = .late run requestId p.kind) := by
  cases outcome with
  | registered _ _ =>
    rcases PendingTracker.insertLookup.mp found with ⟨rfl, rfl⟩ | ⟨_, old⟩
    · exact .inr (.inl fun _ => rfl)
    · exact .inl old
  | claimed _ _ => exact .inl (PendingTracker.eraseLookup.mp found).1
  | restored flying =>
    rcases PendingTracker.insertLookup.mp found with ⟨rfl, rfl⟩ | ⟨_, old⟩
    · exact .inr (.inr ⟨flying, fun _ => rfl⟩)
    · exact .inl old
  | expired _ _ settles => exact .inl (settles.active found)
  | settled _ _ settles => exact .inl (settles.active found)
  | cleared => simp [PendingTracker.clearActive] at found
  | _ => exact .inl found

theorem nowKept {choice} {m m' : Memory} {answer : o.Answer}
    (h : apply sup o choice m = some (answer, m')) : m'.now = m.now := by
  cases o with
  | session id call =>
    obtain ⟨_, _, _, _, rfl⟩ := applySession h
    rfl
  | run id call =>
    obtain ⟨_, _, _, _, rfl⟩ := applyRun h
    rfl
  | store call =>
    obtain ⟨_, rfl, rfl, rfl⟩ := applyStore h
    rfl
  | sleepUntil | newActionId | spawnStructured | takeStream | createSession =>
    simp only [apply] at h
    split at h <;> first | contradiction | (cases Option.some.inj h; rfl)
  | now | fresh | spawn | answer | findSession | removeSession | claimBinding | releaseBinding =>
    cases Option.some.inj h
    rfl

def Someone (c : Config (machine sup)) (kind : Duty → Prop) : Prop :=
  ∃ t ∈ c.tasks, kind ((duties sup).place t)

/-- A request in flight has its handler. The timer of its deadline has not rung before, and
a request that is active past its deadline is being expired. -/
structure Tended (c : Config (machine sup)) : Prop where
  wellformed : ∀ {run control}, c.memory.runs run = some control → control.pending.Wellformed
  claimed : ∀ {run control requestId pending}, c.memory.runs run = some control →
    control.pending.inFlight.lookup requestId = some pending →
    Someone c (Duty.Claims run requestId pending.kind)
  timed : ∀ {run control requestId pending}, c.memory.runs run = some control →
    control.finalized = false → control.pending.inFlight.lookup requestId = some pending →
    Someone c (Duty.Waits run requestId pending.kind pending.deadline) ∨ pending.deadline ≤ c.memory.now
  expiring : ∀ {run control requestId pending}, c.memory.runs run = some control →
    control.finalized = false → control.pending.active.lookup requestId = some pending →
    Someone c (Duty.Waits run requestId pending.kind pending.deadline) ∨
      (pending.deadline ≤ c.memory.now ∧ Someone c (Duty.Expires run requestId pending.kind))

section Step
variable {c : Config (machine sup)} {index : Nat} {choice : Choice} {t : Task (machine sup)}
  {answer : o.Answer} {memory : Memory} {next : Program (Option Entry)}

abbrev afterwards (c : Config (machine sup)) (index : Nat) (t : Task (machine sup)) (o : Act)
    (answer : o.Answer) (memory : Memory) (next : Program (Option Entry)) : Config (machine sup) :=
  ⟨memory, c.tasks.set index (t.advance o answer next) ++ spawned o⟩

theorem someoneHere {kind : Duty → Prop} (performs : Performs c index choice t o answer memory next)
    (obeys : (duties sup).Obeys t o answer next)
    (here : kind (((duties sup).place t).after o answer)) :
    Someone (afterwards c index t o answer memory next) kind := by
  refine ⟨_, List.mem_of_getElem? (movedTask performs.present), ?_⟩
  rw [obeys.reached]
  exact here

theorem claimantKept (performs : Performs c index choice t o answer memory next)
    (obeys : (duties sup).Obeys t o answer next) (before : Someone c (Duty.Claims run requestId kind)) :
    Someone (afterwards c index t o answer memory next) (Duty.Claims run requestId kind) ∨
      ∃ call : PendingTracker.Call, o = .run run (.tracker call) ∧ call.Returns requestId kind := by
  by_cases returned : ∃ call : PendingTracker.Call, o = .run run (.tracker call) ∧
    call.Returns requestId kind
  · exact .inr returned
  refine .inl (kindStays performs obeys (fun here => ?_) before)
  have may := obeys.allowed
  have here : (duties sup).place t = .claimed run requestId kind := here
  rw [here] at may ⊢
  exact (mayClaimed may).resolve_right returned

theorem waitsKept (performs : Performs c index choice t o answer memory next)
    (obeys : (duties sup).Obeys t o answer next)
    (before : Someone c (Duty.Waits run requestId kind deadline)) :
    Someone (afterwards c index t o answer memory next) (Duty.Waits run requestId kind deadline) ∨
      (deadline ≤ memory.now ∧
        Someone (afterwards c index t o answer memory next) (Duty.Expires run requestId kind)) := by
  by_cases stays : Duty.Waits run requestId kind deadline ((duties sup).place t) →
      Duty.Waits run requestId kind deadline (((duties sup).place t).after o answer)
  · exact .inl (kindStays performs obeys stays before)
  obtain ⟨here, _⟩ := Classical.not_imp.mp stays
  have may := obeys.allowed
  rcases here with here | here
  · rw [here] at may
    obtain ⟨session, rfl⟩ := mayRegistered may
    refine .inl ⟨_, List.mem_append_right _ (List.mem_singleton.mpr rfl), .inr ?_⟩
    exact placeEnter _
  · rw [here] at may
    obtain rfl := mayAsleep may
    have effect := performs.effect
    simp only [apply] at effect
    split at effect
    · rename_i passed
      cases Option.some.inj effect
      refine .inr ⟨passed, someoneHere performs obeys (.inl ?_)⟩
      rw [here]
      rfl
    · contradiction

theorem expiresKept (performs : Performs c index choice t o answer memory next)
    (obeys : (duties sup).Obeys t o answer next) (before : Someone c (Duty.Expires run requestId kind)) :
    Someone (afterwards c index t o answer memory next) (Duty.Expires run requestId kind) ∨
      (∃ control, memory.runs run = some control ∧ control.finalized = true) ∨
      o = .run run (.tracker (.expire requestId kind)) := by
  by_cases stays : Duty.Expires run requestId kind ((duties sup).place t) →
      Duty.Expires run requestId kind (((duties sup).place t).after o answer)
  · exact .inl (kindStays performs obeys stays before)
  obtain ⟨here, left⟩ := Classical.not_imp.mp stays
  have may := obeys.allowed
  rcases here with here | here
  · rw [here] at may
    obtain rfl := mayLate may
    have effect : apply sup (.run run .loadFinalized) choice c.memory = some (answer, memory) :=
      performs.effect
    obtain ⟨control, control', found, performed, rfl⟩ := applyRun effect
    cases Option.some.inj performed
    cases finalized : control.finalized with
    | true => exact .inr (.inl ⟨control, Function.update_self .., finalized⟩)
    | false =>
      refine absurd (.inr ?_) left
      rw [here, finalized]
      rfl
  · rw [here] at may
    exact .inr (.inr (mayDue may))

theorem expiringKept (performs : Performs c index choice t o answer memory next)
    (obeys : (duties sup).Obeys t o answer next)
    (unfinalized : ∀ control, memory.runs run = some control → control.finalized = false)
    (early : o = .run run (.tracker (.expire requestId kind)) → c.memory.now < deadline)
    (before : Someone c (Duty.Waits run requestId kind deadline) ∨
      (deadline ≤ c.memory.now ∧ Someone c (Duty.Expires run requestId kind))) :
    Someone (afterwards c index t o answer memory next) (Duty.Waits run requestId kind deadline) ∨
      (deadline ≤ memory.now ∧
        Someone (afterwards c index t o answer memory next) (Duty.Expires run requestId kind)) := by
  rcases before with waits | ⟨passed, expires⟩
  · exact waitsKept performs obeys waits
  · rcases expiresKept performs obeys expires with kept | ⟨control, found, finalized⟩ | same
    · rw [nowKept performs.effect]
      exact .inr ⟨passed, kept⟩
    · rw [unfinalized control found] at finalized
      cases finalized
    · exact absurd passed (Nat.not_le_of_lt (early same))

theorem trackerTended {call : PendingTracker.Call} {answer : call.Answer} (tended : Tended c)
    (performs : Performs c index choice t (.run run (.tracker call)) answer memory next)
    (obeys : (duties sup).Obeys t (.run run (.tracker call)) answer next) :
    Tended (afterwards c index t (.run run (.tracker call)) answer memory next) := by
  have effect : apply sup (.run run (.tracker call)) choice c.memory = some (answer, memory) :=
    performs.effect
  obtain ⟨control, control', found, performed, rfl⟩ := applyRun effect
  cases Option.some.inj performed
  have wf := tended.wellformed found
  have outcome := PendingTracker.performOutcome wf c.memory.now call
  refine ⟨?_, ?_, ?_, ?_⟩
  · intro r control₁ found₁
    rcases updatedControl found₁ with ⟨rfl, rfl⟩ | ⟨_, old⟩
    · exact PendingTracker.outcomeWellformed wf outcome
    · exact tended.wellformed old
  · intro r control₁ id pending found₁ flying
    rcases updatedControl found₁ with ⟨rfl, rfl⟩ | ⟨different, old⟩
    · rcases trackerFlies r outcome flying with still | ⟨_, _, here⟩
      · rcases claimantKept performs obeys (tended.claimed found still) with kept | ⟨call', same, returns⟩
        · exact kept
        · cases same
          exact absurd rfl (PendingTracker.returnedGone wf returns flying)
      · exact someoneHere performs obeys (here _)
    · rcases claimantKept performs obeys (tended.claimed old flying) with kept | ⟨_, same, _⟩
      · exact kept
      · exact absurd (Act.run.inj same).1.symm different
  · intro r control₁ id pending found₁ unfinalized flying
    have waits : Someone c (Duty.Waits r id pending.kind pending.deadline) ∨
        pending.deadline ≤ c.memory.now := by
      rcases updatedControl found₁ with ⟨rfl, rfl⟩ | ⟨different, old⟩
      · rcases trackerFlies r outcome flying with still | ⟨active, early, _⟩
        · exact tended.timed found unfinalized still
        · rcases tended.expiring found unfinalized active with waits | ⟨passed, _⟩
          · exact .inl waits
          · exact .inr passed
      · exact tended.timed old unfinalized flying
    rcases waits with waits | passed
    · exact (waitsKept performs obeys waits).imp_right And.left
    · exact .inr passed
  · intro r control₁ id pending found₁ unfinalized active
    have alike : ∀ control₂, Function.update c.memory.runs run (some { control with
        pending := (control.pending.perform c.memory.now call).2 }) r = some control₂ →
        control₂.finalized = false := by
      intro control₂ found₂
      cases Option.some.inj (found₁.symm.trans found₂)
      exact unfinalized
    have early : (.run run (.tracker call) : Act) = .run r (.tracker (.expire id pending.kind)) →
        c.memory.now < pending.deadline := by
      rintro ⟨⟩
      rcases updatedControl found₁ with ⟨_, rfl⟩ | ⟨different, _⟩
      · exact PendingTracker.expiredGone wf active rfl
      · exact absurd rfl different
    have expires := fun before => expiringKept performs obeys alike early before
    rcases updatedControl found₁ with ⟨rfl, rfl⟩ | ⟨different, old⟩
    · rcases trackerActive r outcome active with still | here | ⟨flying, here⟩
      · exact expires (tended.expiring found unfinalized still)
      · exact .inl (someoneHere performs obeys (.inl (here _)))
      · rcases tended.timed found unfinalized flying with waits | passed
        · exact expires (.inl waits)
        · exact .inr ⟨passed, someoneHere performs obeys (.inl (here _))⟩
    · exact expires (tended.expiring old unfinalized active)

theorem otherTended (tended : Tended c) (performs : Performs c index choice t o answer memory next)
    (obeys : (duties sup).Obeys t o answer next) (untracked : ∀ r call, o ≠ .run r (.tracker call)) :
    Tended (afterwards c index t o answer memory next) := by
  -- A run is new and asks for nothing, or its tracker was the same before.
  have before : ∀ {run control}, memory.runs run = some control →
      (∃ old, c.memory.runs run = some old ∧ control.pending = old.pending ∧
        (control.finalized = false → old.finalized = false)) ∨
      control.pending = .new sup.limits.pendingRequests := by
    intro run control found
    rcases controlCases performs.effect found with old | ⟨call, old, answer, same, found', performed⟩ |
      ⟨_, _, _, _, _, _, rfl⟩
    · exact .inl ⟨control, old, rfl, id⟩
    · refine .inl ⟨old, found', pendingKept performed ?_, ?_⟩
      · rintro call' rfl
        exact untracked run call' same
      · intro unfinalized
        by_cases closes : call = .swapFinalized
        · subst closes
          cases Option.some.inj performed
          cases unfinalized
        · exact (finalizedKept performed closes).symm.trans unfinalized
    · exact .inr rfl
  refine ⟨?_, ?_, ?_, ?_⟩
  · intro run control found
    rcases before found with ⟨old, found', same, _⟩ | new
    · rw [same]
      exact tended.wellformed found'
    · rw [new]
      exact PendingTracker.newWellformed _
  · intro run control id pending found flying
    rcases before found with ⟨old, found', same, _⟩ | new
    · rw [same] at flying
      rcases claimantKept performs obeys (tended.claimed found' flying) with kept | ⟨call, eq, _⟩
      · exact kept
      · exact absurd eq (untracked run call)
    · rw [new] at flying
      cases flying
  · intro run control id pending found unfinalized flying
    rcases before found with ⟨old, found', same, open'⟩ | new
    · rw [same] at flying
      rcases tended.timed found' (open' unfinalized) flying with waits | passed
      · exact (waitsKept performs obeys waits).imp_right And.left
      · refine .inr ?_
        change pending.deadline ≤ memory.now
        rw [nowKept performs.effect]
        exact passed
    · rw [new] at flying
      cases flying
  · intro run control id pending found unfinalized active
    rcases before found with ⟨old, found', same, open'⟩ | new
    · rw [same] at active
      refine expiringKept performs obeys ?_ (fun eq => absurd eq (untracked _ _))
        (tended.expiring found' (open' unfinalized) active)
      intro control₂ found₂
      cases Option.some.inj (found.symm.trans found₂)
      exact unfinalized
    · rw [new] at active
      cases active

end Step

theorem someoneCall {c : Config (machine sup)} {e kind} (before : Someone c kind) :
    Someone ⟨c.memory, c.tasks ++ [.enter e]⟩ kind := by
  obtain ⟨t, member, here⟩ := before
  exact ⟨t, List.mem_append_left _ member, here⟩

theorem movesTended {c : Config (machine sup)} {e c'} (tended : Tended c)
    (placed : ∀ t ∈ c.tasks, (duties sup).Placed t) (moves : Moves c e c') : Tended c' := by
  cases moves with
  | call allowed =>
    refine ⟨tended.wellformed, ?_, ?_, ?_⟩
    · exact fun found flying => someoneCall (tended.claimed found flying)
    · exact fun found open' flying => (tended.timed found open' flying).imp_left someoneCall
    · exact fun found open' active => (tended.expiring found open' active).imp someoneCall
        fun late => ⟨late.1, someoneCall late.2⟩
  | @act index choice t o answer memory next performs =>
    have obeys := performsObeys dutiesSound placed performs
    by_cases tracked : ∃ r call, o = .run r (.tracker call)
    · obtain ⟨r, call, rfl⟩ := tracked
      exact trackerTended tended performs obeys
    · exact otherTended tended performs obeys fun r call same => tracked ⟨r, call, same⟩
  | outside effect =>
    rcases outsideCases effect with ⟨elapsed, _, rfl⟩ | ⟨run, control, process, _, found, _, rfl⟩
    · have later : ∀ {deadline : Instant}, deadline ≤ c.memory.now → deadline ≤ c.memory.now + elapsed :=
        fun passed => Nat.le_add_right_of_le passed
      refine ⟨tended.wellformed, tended.claimed, ?_, ?_⟩
      · exact fun found open' flying => (tended.timed found open' flying).imp_right later
      · exact fun found open' active => (tended.expiring found open' active).imp_right
          fun late => ⟨later late.1, late.2⟩
    · have old : ∀ {r control'}, Function.update c.memory.runs run
          (some { control with process := process }) r = some control' →
          ∃ control₁, c.memory.runs r = some control₁ ∧ control'.pending = control₁.pending ∧
            control'.finalized = control₁.finalized := by
        intro r control' found'
        rcases updatedControl found' with ⟨rfl, rfl⟩ | ⟨_, old⟩
        · exact ⟨control, found, rfl, rfl⟩
        · exact ⟨control', old, rfl, rfl⟩
      refine ⟨?_, ?_, ?_, ?_⟩
      · intro r control' found'
        obtain ⟨control₁, found₁, same, _⟩ := old found'
        rw [same]
        exact tended.wellformed found₁
      · intro r control' id pending found' flying
        obtain ⟨control₁, found₁, same, _⟩ := old found'
        rw [same] at flying
        exact tended.claimed found₁ flying
      · intro r control' id pending found' open' flying
        obtain ⟨control₁, found₁, same, finalized⟩ := old found'
        rw [same] at flying
        rw [finalized] at open'
        exact tended.timed found₁ open' flying
      · intro r control' id pending found' open' active
        obtain ⟨control₁, found₁, same, finalized⟩ := old found'
        rw [same] at active
        rw [finalized] at open'
        exact tended.expiring found₁ open' active

theorem initiallyTended : Tended (initially sup) := by
  refine ⟨?_, ?_, ?_, ?_⟩
  · intro run control found
    cases found
  · intro run control id pending found
    cases found
  · intro run control id pending found
    cases found
  · intro run control id pending found
    cases found

end Tending
end Maestro.Session
