import Maestro.Outline
import Maestro.Footprints

/-! Which task stands for which run. A launcher carries a run from the moment its
identifier is drawn until the run has its monitor; from the moment it is installed one
task at a time, the launcher and then the supervisor, holds the session for it. -/
namespace Maestro.Session
open Interleaving Prog Protocol

inductive Role where
  | launching
  | reserved (run : RunId)
  | spawned (session : SessionId) (run : RunId)
  | starting (session : SessionId) (run : RunId)
  | started (session : SessionId) (run : RunId)
  | supervising (session : SessionId) (run : RunId)
  | closing (session : SessionId) (run : RunId)
  | monitoring (session : SessionId) (run : RunId)
  | guest (session : SessionId) (run : RunId)
  deriving DecidableEq, Repr

namespace Role

def run : Role → Option RunId
  | .launching => none
  | .reserved run | .spawned _ run | .starting _ run | .started _ run | .supervising _ run
  | .closing _ run | .monitoring _ run | .guest _ run => some run

/-- The run whose launch, and afterwards whose monitor, the task is. -/
def line : Role → Option RunId
  | .reserved run | .spawned _ run | .starting _ run | .started _ run | .monitoring _ run => some run
  | .launching | .supervising .. | .closing .. | .guest .. => none

def holds : Role → Option SessionId
  | .starting session _ | .supervising session _ | .closing session _ => some session
  | _ => none

def launches : Role → Bool
  | .launching | .reserved _ | .spawned .. => true
  | _ => false

def ofEntry : Entry → Role
  | .start _ | .resume .. => .launching
  | .respondPermission session run .. | .respondUserInput session run .. | .sendGuiAction session run ..
  | .stop session run | .expiry session run .. | .stderrReader session run => .guest session run
  | .supervise session run | .stdoutReader session run _ | .finish session run _ =>
      .supervising session run
  | .monitor session run _ | .monitorLoop session run _ => .monitoring session run

def maySpawn (q : Role) : Entry → Prop
  | .expiry _ run .. | .stderrReader _ run => q.run = some run
  | .supervise session run => q = .starting session run
  | .monitor session run _ => q = .started session run
  | _ => False

def mayCall (q : Role) (session : SessionId) : SessionCall → Prop
  | .install run => q = .spawned session run
  | .finalize run _ => q = .closing session run
  | .setBinding _ | .protocolFailure .. => q.holds = some session
  | .resetLaunch _ | .launchFailure _ => q.launches
  | .subscribe run _ | .recv run => q = .monitoring session run
  | _ => True

def may (q : Role) : Act → Prop
  | .fresh | .createSession => q = .launching ∨ ∃ run, q = .reserved run
  | .spawn entry => q.maySpawn entry
  | .spawnStructured _ run .. => q = .reserved run
  | .session session call => q.mayCall session call
  | .run run .swapFinalized => ∃ session, q = .supervising session run
  | .run run (.tracker .clearActive) => ∃ session, q = .closing session run
  | .run run (.tracker (.confirmResolved ..)) | .run run (.tracker (.resolveActive ..)) =>
      ∃ session, q = .supervising session run
  | .run run _ => q.run = some run
  | _ => True

def close : Role → Role
  | .supervising session run => .closing session run
  | q => q

def after (q : Role) : (o : Act) → o.Answer → Role
  | .fresh, run => .reserved run
  | .spawnStructured session run .., .ok _ => .spawned session run
  | .spawnStructured .., .error _ => .launching
  | .session session (.install run), true => .starting session run
  | .session session (.finalize run _), _ => .guest session run
  | .run _ .swapFinalized, _ => q.close
  | .spawn (.supervise session run), _ => .started session run
  | .spawn (.monitor session run _), _ => .guest session run
  | _, _ => q

end Role

abbrev roles (sup : Supervisor) : Protocol (machine sup) where
  Place := Role
  enter := Role.ofEntry
  may := Role.may
  after := Role.after
  ends _ := True

section Soundness
variable {sup : Supervisor} {session : SessionId} {run : RunId} {q : Role}

def Role.Quiet (q : Role) (o : Act) : Prop := q.may o ∧ ∀ answer, q.after o answer = q

def LastingCall : RunCall → Prop
  | .swapFinalized | .tracker .clearActive | .tracker (.confirmResolved ..)
  | .tracker (.resolveActive ..) => False
  | _ => True

theorem lastingQuiet (own : q.run = some run) {call} (lasting : LastingCall call) :
    q.Quiet (.run run call) := by
  cases call <;> first | exact lasting.elim | exact ⟨own, fun _ => rfl⟩ | skip
  case tracker call => cases call <;> first | exact lasting.elim | exact ⟨own, fun _ => rfl⟩

theorem lastingOwn {call} (lasting : LastingCall call) (may : q.may (.run run call)) :
    q.run = some run := by
  cases call <;> first | exact lasting.elim | exact may | skip
  case tracker call => cases call <;> first | exact lasting.elim | exact may

theorem ownRun {call} (may : q.may (.run run call)) : q.run = some run := by
  by_cases lasting : LastingCall call
  · exact lastingOwn lasting may
  · cases call <;> try exact absurd trivial lasting
    case swapFinalized =>
      obtain ⟨session, rfl⟩ := may
      rfl
    case tracker call =>
      cases call <;> try exact absurd trivial lasting
      all_goals
        obtain ⟨session, rfl⟩ := may
        rfl

theorem calmQuiet (own : q.run = some run) {o} (h : CalmAct session run o) : q.Quiet o := by
  cases o <;> first | exact h.elim | exact ⟨trivial, fun _ => rfl⟩ | skip
  case session s call => cases call <;> first | exact h.elim | exact ⟨trivial, fun _ => rfl⟩
  case spawn entry =>
    cases entry <;> first | exact h.elim | exact ⟨h.2 ▸ own, fun _ => rfl⟩
  case run r call =>
    obtain ⟨rfl, calm⟩ := h
    refine lastingQuiet own ?_
    cases call <;> first | exact calm.elim | exact trivial | skip
    case tracker call => cases call <;> first | exact calm.elim | exact trivial

theorem guestQuiet (own : q.run = some run) {o} (h : GuestAct session run o) : q.Quiet o := by
  rcases h with calm | ⟨call, rfl, delivers⟩
  · exact calmQuiet own calm
  · refine lastingQuiet own ?_
    cases call <;> first | exact delivers.elim | exact trivial | skip
    case tracker call => cases call <;> first | exact delivers.elim | exact trivial

theorem readerQuiet {o} (h : ReaderAct session run o) : (Role.supervising session run).Quiet o := by
  cases o <;> first | exact h.elim | exact ⟨trivial, fun _ => rfl⟩ | skip
  case session s call =>
    cases call <;> first | exact h.elim | exact ⟨trivial, fun _ => rfl⟩ |
      exact ⟨congrArg some (Eq.symm h), fun _ => rfl⟩
  case spawn entry =>
    cases entry <;> first | exact h.elim | exact ⟨congrArg some (Eq.symm h.2), fun _ => rfl⟩
  case run r call =>
    obtain ⟨rfl, reads⟩ := h
    cases call <;> first | exact reads.elim | exact lastingQuiet rfl trivial | skip
    case tracker call =>
      cases call <;> first | exact reads.elim | exact lastingQuiet rfl trivial |
        exact ⟨⟨session, rfl⟩, fun _ => rfl⟩

theorem monitorQuiet {o} (h : MonitorAct session run o) : (Role.monitoring session run).Quiet o := by
  cases o <;> first | exact h.elim | exact ⟨trivial, fun _ => rfl⟩ | skip
  case session s call =>
    cases call <;> first | exact h.elim | exact ⟨trivial, fun _ => rfl⟩ |
      (obtain ⟨rfl, rfl⟩ := h; exact ⟨rfl, fun _ => rfl⟩)
  case run r call =>
    cases call <;> first | exact h.elim | (cases h; exact lastingQuiet rfl trivial)

theorem stderrQuiet (own : q.run = some run) {o} (h : StderrAct session run o) : q.Quiet o := by
  cases o <;> first | exact h.elim | exact ⟨trivial, fun _ => rfl⟩ | skip
  case session s call => cases call <;> first | exact h.elim | exact ⟨trivial, fun _ => rfl⟩
  case run r call =>
    cases call <;> first | exact h.elim | (cases h; exact lastingQuiet own trivial)

theorem guestStays {α : Type} {p : Program α} (own : q.run = some run)
    (only : p.Only (GuestAct session run)) : (roles sup).Stays q p :=
  staysOnly only fun _ h => guestQuiet own h

theorem releaseLeaseRole : (roles sup).Stays (.closing session run) (releaseLease run) := by
  refine followsStep rfl fun leased => ?_
  split
  · exact followsStep rfl fun _ => followsStep trivial fun _ => rfl
  · rfl

theorem finalizeRunRole {failure stderrFailed exit} :
    (roles sup).Follows (fun _ _ => True) (.supervising session run)
      (finalizeRun sup session run failure stderrFailed exit) := by
  refine followsStep ⟨session, rfl⟩ fun finalized => ?_
  split
  · trivial
  refine followsStep rfl fun _ => followsStep ⟨session, rfl⟩ fun _ => staysSeq releaseLeaseRole fun _ =>
    followsStep rfl fun stopRequested => followsStep rfl fun _ => ?_
  split
  · trivial
  · exact followsStep trivial fun _ => trivial

theorem reapRunRole {failure} : (roles sup).Follows (fun _ _ => True) (.supervising session run)
    (reapRun sup session run failure) :=
  followsStep rfl fun _ => followsStep rfl fun _ => followsStep rfl fun _ => followsStep rfl fun _ =>
    finalizeRunRole

theorem terminateRole (own : q.run = some run) : (roles sup).Stays q (terminate run) := by
  have quiet : (terminate run).Only q.Quiet :=
    terminateOnly ⟨lastingQuiet own trivial, lastingQuiet own trivial, lastingQuiet own trivial,
      lastingQuiet own trivial, lastingQuiet own trivial⟩
  exact staysOnly quiet fun _ h => h

theorem finishRunRole {failure} : (roles sup).Follows (fun _ _ => True) (.supervising session run)
    (finishRun sup session run failure) := by
  unfold finishRun
  split
  · exact followsStep rfl fun _ => followsStep trivial fun _ => followsStep rfl fun _ =>
      staysSeq (terminateRole rfl) fun _ => followsStep rfl fun _ => reapRunRole
  · exact reapRunRole

theorem dropLaunchGuardRole {token reserved committed} :
    (roles sup).Stays q (dropLaunchGuard session token reserved committed) := by
  refine followsStep trivial fun _ => ?_
  split
  · exact followsStep trivial fun _ => rfl
  · rfl

theorem recordLaunchFailureRole {error} (launches : q.launches = true) :
    (roles sup).Stays q (recordLaunchFailure sup session error) :=
  followsStep launches fun _ => followsStep trivial fun _ => rfl

theorem abandonLaunchRole {error operation} : (roles sup).Stays (.spawned session run)
    (abandonLaunch sup session run error operation) :=
  staysSeq (terminateRole rfl) fun _ => staysSeq (recordLaunchFailureRole rfl) fun _ => rfl

theorem claimLaunchBindingRole {token binding} :
    (roles sup).Stays q (claimLaunchBinding session token binding) := by
  cases binding with
  | none => rfl
  | some value => exact followsStep trivial fun _ => rfl

def Launched (session : SessionId) (result : Except MaestroError RunId) (q : Role) : Prop :=
  ∀ run, result = .ok run → q = .started session run

theorem launchedError {error q} : Launched session (.error error) q := by
  intro _ h
  cases h

theorem launchRole {request binding} (fresh : q = .launching ∨ ∃ r, q = .reserved r) :
    (roles sup).Follows (Launched session) q (launch sup session request binding) := by
  unfold launch
  split
  · exact launchedError
  refine followsStep trivial fun began => ?_
  split
  · exact launchedError
  refine followsStep fresh fun token => staysSeq claimLaunchBindingRole fun claimed => ?_
  split
  · exact followsStep trivial fun _ => launchedError
  refine followsStep trivial fun _ => followsStep trivial fun _ => followsStep rfl fun _ =>
    followsStep (.inr ⟨_, rfl⟩) fun run => followsStep rfl fun spawned => ?_
  split
  · exact staysSeq (recordLaunchFailureRole rfl) fun _ => staysSeq dropLaunchGuardRole fun _ =>
      launchedError
  refine followsStep trivial fun taken => ?_
  split
  · exact staysSeq abandonLaunchRole fun _ => staysSeq dropLaunchGuardRole fun _ => launchedError
  refine followsStep trivial fun taken => ?_
  split
  · exact staysSeq abandonLaunchRole fun _ => staysSeq dropLaunchGuardRole fun _ => launchedError
  refine followsStep rfl fun installed => ?_
  split
  · rename_i won
    cases won
    refine followsStep trivial fun _ => staysSeq dropLaunchGuardRole fun _ =>
      followsStep trivial fun published => ?_
    cases published with
    | error error => exact launchedError
    | ok envelope =>
      refine followsStep rfl fun _ r h => ?_
      cases h
      rfl
  · rename_i lost
    cases eq_false_of_ne_true lost
    exact followsStep rfl fun _ => staysSeq (terminateRole rfl) fun _ => followsStep rfl fun _ =>
      staysSeq dropLaunchGuardRole fun _ => launchedError

theorem superviseDurablyRole {afterSequence} : (roles sup).Follows (fun _ _ => True)
    (.started session run) (superviseDurably sup session run afterSequence) := by
  refine followsStep trivial fun stored => ?_
  split
  · exact followsStep rfl fun _ => trivial
  · exact staysSeq (guestStays rfl (calmGuest stopCalm)) fun _ => trivial

theorem startRole {request} : (roles sup).Follows
    (fun result q => ∀ session run, result = .ok (session, run) → q = .started session run)
    .launching (start sup request) := by
  refine followsStep (.inl rfl) fun created => ?_
  split
  · intro _ _ h
    cases h
  refine followsSeq (launchRole (.inl rfl)) fun launched q launchedRole => ?_
  split
  · rintro _ _ h
    cases h
    exact launchedRole _ rfl
  · refine followsStep trivial fun state => ?_
    split
    · exact followsStep trivial fun _ _ _ h => by cases h
    · rintro _ _ h
      cases h

theorem resumeRole {request} :
    (roles sup).Follows (Launched session) .launching (resume sup session request) := by
  refine followsStep trivial fun found => ?_
  split
  · exact launchedError
  refine followsStep trivial fun binding => ?_
  cases binding with
  | error error => exact launchedError
  | ok binding => exact launchRole (.inl rfl)

theorem handleStartRole {request} :
    (roles sup).Follows (fun _ _ => True) .launching (handleStart sup request) := by
  refine followsSeq startRole fun started q role => ?_
  split
  · trivial
  · cases role _ _ rfl
    exact superviseDurablyRole

theorem handleResumeRole {request} :
    (roles sup).Follows (fun _ _ => True) .launching (handleResume sup session request) := by
  refine followsStep trivial fun found => ?_
  split
  · trivial
  refine followsStep trivial fun before => followsSeq resumeRole fun resumed q role => ?_
  split
  · trivial
  · cases role _ rfl
    exact superviseDurablyRole

theorem replyRole {call : Program (Except MaestroError Unit)}
    (follows : (roles sup).Follows (fun _ _ => True) q call) :
    (roles sup).Follows (roles sup).EntryPost q (reply call) :=
  followsSeq follows fun _ _ _ => followsStep trivial fun _ => trivial

theorem replyGuestRole {call : Program (Except MaestroError Unit)} (own : q.run = some run)
    (only : call.Only (GuestAct session run)) :
    (roles sup).Follows (roles sup).EntryPost q (reply call) :=
  replyRole (staysEnd (guestStays own only) fun _ => trivial)

theorem rolesSound : (roles sup).Sound := by
  intro e
  cases e with
  | start request => exact replyRole handleStartRole
  | resume session request => exact replyRole handleResumeRole
  | respondPermission session run requestId decision =>
    exact replyGuestRole rfl respondPermissionGuest
  | respondUserInput session run requestId value => exact replyGuestRole rfl respondUserInputGuest
  | sendGuiAction session run action payload => exact replyGuestRole rfl sendGuiActionGuest
  | stop session run => exact replyGuestRole rfl (calmGuest stopCalm)
  | expiry session run requestId kind deadline =>
    exact followsStep trivial fun _ => staysSeq (guestStays rfl expireRequestGuest) fun _ => trivial
  | stderrReader session run =>
    refine staysReturns readStderrOnly (fun _ h => stderrQuiet rfl h) readStderrReturns ?_
    rintro _ (rfl | rfl)
    · trivial
    · rfl
  | supervise session run =>
    exact followsStep rfl fun _ => rfl
  | stdoutReader session run decoder =>
    refine staysReturns readStdoutReader (fun _ h => readerQuiet h) readStdoutReturns ?_
    rintro _ (⟨_, rfl⟩ | ⟨_, rfl⟩) <;> rfl
  | finish session run failure =>
    exact followsSeq finishRunRole fun _ _ _ => trivial
  | monitor session run afterSequence =>
    refine staysReturns monitorMonitor (fun _ h => monitorQuiet h) monitorReturns ?_
    rintro _ (rfl | ⟨_, rfl⟩)
    · trivial
    · rfl
  | monitorLoop session run lastPersisted =>
    refine staysReturns monitorLoopMonitor (fun _ h => monitorQuiet h) monitorLoopReturns ?_
    rintro _ (rfl | ⟨_, rfl⟩)
    · trivial
    · rfl

end Soundness

end Maestro.Session
