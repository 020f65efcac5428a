import Maestro.Setting

/-! What a task holds of the lease on a vendor binding: the guard of a launch from the
token it draws until it is dropped, and the supervision of a run until its end gave the
binding back. -/
namespace Maestro.Session
open Interleaving Prog Protocol

inductive LeasePhase where
  | idle
  | vacant
  | claiming (token : LeaseToken)
  | adopting (token : LeaseToken) (binding : String)
  | closing
  | taken (binding : String)
  | releasing (token : LeaseToken) (binding : String)
  | closed

inductive LeasePlace where
  | free
  | guard (token : LeaseToken) (lease : Option (SessionId × String))
  | named (token : LeaseToken) (lease : Option (SessionId × String)) (run : RunId)
  | spawned (session : SessionId) (token : LeaseToken) (binding : Option String) (run : RunId)
  | installed (session : SessionId) (token : LeaseToken) (binding : Option String) (run : RunId)
  | dropping (token : LeaseToken) (session : SessionId) (binding : String)
  | held (session : SessionId) (run : RunId) (phase : LeasePhase)

namespace LeasePlace

def token : LeasePlace → Option LeaseToken
  | .guard token _ | .named token _ _ | .spawned _ token _ _ | .installed _ token _ _
  | .dropping token _ _ => some token
  | .free | .held .. => none

def run : LeasePlace → Option RunId
  | .named _ _ run | .spawned _ _ _ run | .installed _ _ _ run | .held _ run _ => some run
  | .free | .guard .. | .dropping .. => none

/-- The binding the guard of a launch gives back unless its run was installed. -/
def reserved : LeasePlace → Option (SessionId × String)
  | .guard _ lease | .named _ lease _ => lease
  | .spawned session _ binding _ | .installed session _ binding _ =>
      binding.map fun value => (session, value)
  | .dropping _ session binding => some (session, binding)
  | .free | .held .. => none

/-- The binding a supervisor has claimed or taken without the run recording it. -/
def moving : LeasePlace → Option (RunId × String)
  | .held _ run (.adopting _ binding) | .held _ run (.taken binding)
  | .held _ run (.releasing _ binding) => some (run, binding)
  | _ => none

def ofEntry : Entry → LeasePlace
  | .supervise session run | .stdoutReader session run _ | .finish session run _ =>
      .held session run .idle
  | _ => .free

def drop (token : LeaseToken) : Option (SessionId × String) → LeasePlace
  | none => .free
  | some (session, binding) => .dropping token session binding

def endLaunch : LeasePlace → LeasePlace
  | .guard token lease | .named token lease _ => drop token lease
  | .spawned session token binding _ => drop token (binding.map fun value => (session, value))
  | .installed session _ _ run => .held session run .idle
  | q => q

def may (q : LeasePlace) : Act → Prop
  | .fresh => q = .free ∨ ∃ token lease, q = .guard token lease
  | .claimBinding _ token session =>
      q = .guard token none ∨ ∃ run, q = .held session run (.claiming token)
  | .releaseBinding binding token => (∃ session, q = .dropping token session binding) ∨
      ∃ session run, q = .held session run (.releasing token binding)
  | .spawnStructured session run token binding _ _ =>
      q = .named token (binding.map fun value => (session, value)) run
  | .session session (.install run) => ∃ token binding, q = .spawned session token binding run
  | .session session (.finalize run _) => q = .held session run .closed
  | .spawn (.supervise session run) => q = .held session run .idle
  | .spawn entry => ofEntry entry = .free
  | .run run .leasedBinding | .run run .swapFinalized => ∃ session, q = .held session run .idle
  | .run run .leaseToken => ∃ session, q = .held session run .vacant ∨
      ∃ binding, q = .held session run (.taken binding)
  | .run run (.setLeasedBinding binding) =>
      ∃ session token, q = .held session run (.adopting token binding)
  | .run run .takeLeasedBinding => ∃ session, q = .held session run .closing
  | _ => True

def after (q : LeasePlace) : (o : Act) → o.Answer → LeasePlace
  | .fresh, answer =>
      match q with
      | .guard token lease => .named token lease answer
      | _ => .guard answer none
  | .claimBinding binding token session, answer =>
      match q, answer with
      | .guard .., .ok () => .guard token (some (session, binding))
      | .held session run _, .ok () => .held session run (.adopting token binding)
      | .held session run _, .error _ => .held session run .idle
      | q, _ => q
  | .releaseBinding .., _ =>
      match q with
      | .held session run _ => .held session run .closed
      | _ => .free
  | .spawnStructured session run token binding _ _, .ok _ => .spawned session token binding run
  | .session session (.install run), true =>
      match q with
      | .spawned _ token binding _ => .installed session token binding run
      | q => q
  | .session _ .endLaunch, _ => q.endLaunch
  | .session _ (.finalize ..), _ => .free
  | .spawn (.supervise ..), _ => .free
  | .run _ .leasedBinding, none =>
      match q with
      | .held session run _ => .held session run .vacant
      | q => q
  | .run _ .leaseToken, answer =>
      match q with
      | .held session run (.taken binding) => .held session run (.releasing answer binding)
      | .held session run _ => .held session run (.claiming answer)
      | q => q
  | .run _ (.setLeasedBinding _), _ =>
      match q with
      | .held session run _ => .held session run .idle
      | q => q
  | .run _ .swapFinalized, answer =>
      match q, answer with
      | .held session run _, false => .held session run .closing
      | _, _ => .free
  | .run _ .takeLeasedBinding, answer =>
      match q, answer with
      | .held session run _, some binding => .held session run (.taken binding)
      | .held session run _, none => .held session run .closed
      | q, _ => q
  | _, _ => q

/-- A task never ends with a lease in its hands; a run whose start could not be
published keeps its own. -/
def ends : LeasePlace → Prop
  | .free | .held _ _ .idle => True
  | _ => False

end LeasePlace

abbrev leases (sup : Supervisor) : Protocol (machine sup) where
  Place := LeasePlace
  enter := LeasePlace.ofEntry
  may := LeasePlace.may
  after := LeasePlace.after
  ends := LeasePlace.ends

def Act.LeaseFree : Act → Prop
  | .fresh | .claimBinding .. | .releaseBinding .. | .spawnStructured .. => False
  | .session _ (.install _) | .session _ (.finalize ..) | .session _ .endLaunch => False
  | .spawn entry => LeasePlace.ofEntry entry = .free
  | .run _ .leasedBinding | .run _ .leaseToken | .run _ (.setLeasedBinding _)
  | .run _ .takeLeasedBinding | .run _ .swapFinalized => False
  | _ => True

section Soundness
variable {sup : Supervisor} {session : SessionId} {run : RunId} {q : LeasePlace}

theorem leaseFreeQuiet {o : Act} (h : o.LeaseFree) : q.may o ∧ ∀ answer, q.after o answer = q := by
  cases o with
  | session session call => cases call <;> first | exact h.elim | exact ⟨trivial, fun _ => rfl⟩
  | run run call => cases call <;> first | exact h.elim | exact ⟨trivial, fun _ => rfl⟩
  | spawn entry => cases entry <;> first | exact ⟨rfl, fun _ => rfl⟩ | cases h
  | fresh | claimBinding | releaseBinding | spawnStructured => exact h.elim
  | _ => exact ⟨trivial, fun _ => rfl⟩

theorem leaseFreeStays {α : Type} {p : Program α} (only : p.Only Act.LeaseFree) :
    (leases sup).Stays q p := staysOnly only fun _ h => leaseFreeQuiet h

theorem guestLeaseFree {α : Type} {p : Program α} (only : p.Only (GuestAct session run)) :
    p.Only Act.LeaseFree := by
  refine onlyImp only fun o h => ?_
  rcases h with calm | ⟨call, rfl, delivers⟩
  · cases o <;> first | exact calm.elim | exact trivial | skip
    case session s call => cases call <;> first | exact calm.elim | exact trivial
    case spawn entry => cases entry <;> first | exact calm.elim | exact rfl
    case run r call => cases call <;> first | exact calm.2.elim | exact trivial
  · cases call <;> first | exact delivers.elim | exact trivial

theorem monitorLeaseFree {α : Type} {p : Program α} (only : p.Only (MonitorAct session run)) :
    p.Only Act.LeaseFree := by
  refine onlyImp only fun o h => ?_
  cases o <;> first | exact h.elim | exact trivial | skip
  case session s call => cases call <;> first | exact h.elim | exact trivial
  case run r call => cases call <;> first | exact h.elim | exact trivial

theorem stderrLeaseFree {α : Type} {p : Program α} (only : p.Only (StderrAct session run)) :
    p.Only Act.LeaseFree := by
  refine onlyImp only fun o h => ?_
  cases o <;> first | exact h.elim | exact trivial | skip
  case session s call => cases call <;> first | exact h.elim | exact trivial
  case run r call => cases call <;> first | exact h.elim | exact trivial

/-! The supervisor of a run. -/

theorem adoptBindingLease {frame} : (leases sup).Stays (.held session run .idle)
    (adoptBinding session run frame) := by
  unfold adoptBinding
  split
  · rfl
  split
  · rfl
  refine followsStep ⟨session, rfl⟩ fun leased => ?_
  cases leased with
  | some existing =>
    dsimp only
    split
    · rfl
    · exact followsStep trivial fun _ => rfl
  | none =>
    refine followsStep ⟨session, .inl rfl⟩ fun token =>
      followsStep (.inr ⟨run, rfl⟩) fun claimed => ?_
    cases claimed with
    | error error => rfl
    | ok =>
      exact followsStep ⟨session, token, rfl⟩ fun _ => followsStep trivial fun _ => rfl

theorem registerPendingLease {requestId kind} :
    (leases sup).Stays q (registerPending sup session run requestId kind) := by
  unfold registerPending
  split
  · rfl
  refine followsStep trivial fun start => followsStep trivial fun registered => ?_
  split
  · rfl
  · exact followsStep rfl fun _ => rfl

theorem applyFrameLease {frame} : (leases sup).Stays (.held session run .idle)
    (applyFrame sup session run frame) := by
  have handleRequest : ∀ {kind waiting category}, (leases sup).Stays (.held session run .idle)
      (handleRequest sup session run kind waiting category frame) := by
    intro kind waiting category
    unfold handleRequest
    split
    · rfl
    refine staysSeq registerPendingLease fun registered => ?_
    split
    · rfl
    · exact followsStep trivial fun _ => rfl
  have handleResult : ∀ {kind category}, (leases sup).Stays (.held session run .idle)
      (handleResult session run kind category frame) := by
    intro kind category
    unfold handleResult
    split
    · rfl
    refine followsStep trivial fun confirmed => ?_
    split
    · exact followsStep trivial fun _ => followsStep trivial fun _ => rfl
    · rfl
  have handleAck : (leases sup).Stays (.held session run .idle) (handleAck run frame) := by
    unfold handleAck
    split
    · rfl
    refine followsStep trivial fun resolved => ?_
    split <;> rfl
  unfold applyFrame
  split
  · exact adoptBindingLease
  · exact adoptBindingLease
  · exact handleRequest
  · exact handleRequest
  · exact handleResult
  · exact handleResult
  · exact handleAck
  · rfl

theorem handleFrameLease {value} : (leases sup).Stays (.held session run .idle)
    (handleFrame sup session run value) := by
  refine followsStep trivial fun _ => ?_
  split
  · rfl
  refine staysSeq applyFrameLease fun applied => ?_
  split
  · rfl
  refine followsStep trivial fun published => ?_
  split
  · rfl
  refine followsStep trivial fun state => ?_
  split
  · exact followsStep trivial fun _ => rfl
  · rfl

theorem handleFramesLease {frames} : (leases sup).Stays (.held session run .idle)
    (handleFrames sup session run frames) := by
  induction frames with
  | nil => rfl
  | cons value rest ih =>
    refine staysSeq handleFrameLease fun handled => ?_
    split
    · rfl
    · exact ih

theorem readStdoutLease {decoder} : (leases sup).Follows (leases sup).EntryPost
    (.held session run .idle) (readStdout sup session run decoder) := by
  refine followsStep trivial fun read => ?_
  split
  · rfl
  · rfl
  refine followsStep trivial fun _ => staysSeq handleFramesLease fun handled => ?_
  split
  · rfl
  · dsimp only
    split <;> rfl

theorem terminateLease : (leases sup).Stays q (terminate run) :=
  leaseFreeStays (terminateOnly ⟨trivial, trivial, trivial, trivial, trivial⟩)

theorem releaseLeaseLease : (leases sup).Follows (fun _ q => q = .held session run .closed)
    (.held session run .closing) (releaseLease run) := by
  refine followsStep ⟨session, rfl⟩ fun leased => ?_
  cases leased with
  | none => rfl
  | some binding =>
    exact followsStep ⟨session, .inr ⟨binding, rfl⟩⟩ fun token =>
      followsStep (.inr ⟨session, run, rfl⟩) fun _ => rfl

theorem finalizeRunLease {failure stderrFailed exit} :
    (leases sup).Follows (fun _ q => q = .free) (.held session run .idle)
      (finalizeRun sup session run failure stderrFailed exit) := by
  refine followsStep ⟨session, rfl⟩ fun finalized => ?_
  cases finalized with
  | true => rfl
  | false =>
    refine followsStep trivial fun _ => followsStep trivial fun _ =>
      followsSeq releaseLeaseLease fun _ q closed => ?_
    subst closed
    refine followsStep trivial fun stopRequested => followsStep rfl fun _ => ?_
    split
    · rfl
    · exact followsStep trivial fun _ => rfl

theorem reapRunLease {failure} : (leases sup).Follows (fun _ q => q = .free)
    (.held session run .idle) (reapRun sup session run failure) :=
  followsStep trivial fun _ => followsStep trivial fun _ => followsStep trivial fun _ =>
    followsStep trivial fun _ => finalizeRunLease

theorem finishRunLease {failure} : (leases sup).Follows (fun _ q => q = .free)
    (.held session run .idle) (finishRun sup session run failure) := by
  unfold finishRun
  split
  · exact followsStep trivial fun _ => followsStep trivial fun _ => followsStep trivial fun _ =>
      staysSeq terminateLease fun _ => followsStep trivial fun _ => reapRunLease
  · exact reapRunLease

theorem dropLaunchGuardLease {token reserved} (before : q.endLaunch =
    LeasePlace.drop token (reserved.map fun value => (session, value))) :
    (leases sup).Follows (fun _ q => q = .free) q
      (dropLaunchGuard session token reserved false) := by
  refine followsStep trivial fun _ => ?_
  change (leases sup).Follows _ q.endLaunch _
  rw [before]
  cases reserved with
  | none => rfl
  | some binding => exact followsStep (.inl ⟨session, rfl⟩) fun _ => rfl

theorem recordLaunchFailureLease {error} :
    (leases sup).Stays q (recordLaunchFailure sup session error) :=
  followsStep trivial fun _ => followsStep trivial fun _ => rfl

theorem abandonLaunchLease {error operation} :
    (leases sup).Stays q (abandonLaunch sup session run error operation) :=
  staysSeq terminateLease fun _ => staysSeq recordLaunchFailureLease fun _ => rfl

/-- After a launch its task holds nothing; only a run that was installed without being
handed to a supervisor keeps its line. -/
def LaunchEnded (q : LeasePlace) : Prop := q = .free ∨ ∃ session run, q = .held session run .idle

def LeaseHanded {α : Type} (result : Except MaestroError α) (q : LeasePlace) : Prop :=
  LaunchEnded q ∧ ∀ value, result = .ok value → q = .free

theorem leaseFailed {α : Type} {error : MaestroError} {q : LeasePlace} (ended : LaunchEnded q) :
    LeaseHanded (.error error : Except MaestroError α) q :=
  ⟨ended, fun _ h => by cases h⟩

theorem launchEndedEnds {q : LeasePlace} (ended : LaunchEnded q) : q.ends := by
  rcases ended with rfl | ⟨session, run, rfl⟩ <;> trivial

theorem dropLaunchGuardFails {α : Type} {token reserved} {error : MaestroError}
    (before : q.endLaunch = LeasePlace.drop token (reserved.map fun value => (session, value))) :
    (leases sup).Follows LeaseHanded q (do
      dropLaunchGuard session token reserved false
      return (.error error : Except MaestroError α)) := by
  refine followsSeq (dropLaunchGuardLease before) ?_
  rintro _ _ rfl
  exact leaseFailed (.inl rfl)

theorem claimLaunchBindingLease {token binding} :
    (leases sup).Follows (fun claimed q => q = .guard token
        (if claimed.isOk then binding.map fun value => (session, value) else none))
      (.guard token none) (claimLaunchBinding session token binding) := by
  cases binding with
  | none => rfl
  | some value =>
    refine followsStep (.inl rfl) fun claimed => ?_
    cases claimed <;> rfl

theorem launchLease {request binding} :
    (leases sup).Follows LeaseHanded .free (launch sup session request binding) := by
  unfold launch
  split
  · exact leaseFailed (.inl rfl)
  refine followsStep trivial fun began => ?_
  split
  · exact leaseFailed (.inl rfl)
  refine followsStep (.inl rfl) fun token => ?_
  refine followsSeq claimLaunchBindingLease ?_
  rintro (error | ⟨⟨⟩⟩) _ rfl
  · exact followsStep trivial fun _ => leaseFailed (.inl rfl)
  refine followsStep trivial fun _ => followsStep trivial fun _ => followsStep trivial fun _ =>
    followsStep (.inr ⟨_, _, rfl⟩) fun run => followsStep rfl fun spawned => ?_
  cases spawned with
  | error error =>
    refine staysSeq recordLaunchFailureLease fun _ => ?_
    exact dropLaunchGuardFails rfl
  | ok processId =>
  refine followsStep trivial fun taken => ?_
  cases taken with
  | error error =>
    refine staysSeq abandonLaunchLease fun _ => ?_
    exact dropLaunchGuardFails rfl
  | ok =>
  refine followsStep trivial fun taken => ?_
  cases taken with
  | error error =>
    refine staysSeq abandonLaunchLease fun _ => ?_
    exact dropLaunchGuardFails rfl
  | ok =>
  refine followsStep ⟨_, _, rfl⟩ fun installed => ?_
  cases installed with
  | true =>
    refine followsStep trivial fun _ => followsStep trivial fun _ =>
      followsStep trivial fun published => ?_
    cases published with
    | error error => exact leaseFailed (.inr ⟨session, run, rfl⟩)
    | ok envelope => exact followsStep rfl fun _ => ⟨.inl rfl, fun _ _ => rfl⟩
  | false =>
    refine followsStep trivial fun _ => staysSeq terminateLease fun _ => followsStep trivial fun _ => ?_
    exact dropLaunchGuardFails rfl

theorem superviseDurablyLease {afterSequence} : (leases sup).Stays .free
    (superviseDurably sup session run afterSequence) := by
  refine followsStep trivial fun stored => ?_
  split
  · exact followsStep rfl fun _ => rfl
  · exact staysSeq (leaseFreeStays (guestLeaseFree (calmGuest stopCalm))) fun _ => rfl

theorem startLease {request} : (leases sup).Follows LeaseHanded .free (start sup request) := by
  refine followsStep trivial fun created => ?_
  cases created with
  | error error => exact leaseFailed (.inl rfl)
  | ok session =>
  refine followsSeq launchLease ?_
  rintro (error | run) q ⟨ended, free⟩
  · refine followsStep trivial fun state => ?_
    split
    · exact followsStep trivial fun _ => leaseFailed ended
    · exact leaseFailed ended
  · exact ⟨ended, fun _ _ => free run rfl⟩

theorem resumeLease {request} :
    (leases sup).Follows LeaseHanded .free (resume sup session request) := by
  refine followsStep trivial fun found => ?_
  split
  · exact leaseFailed (.inl rfl)
  refine followsStep trivial fun binding => ?_
  cases binding with
  | error error => exact leaseFailed (.inl rfl)
  | ok binding => exact launchLease

theorem handleStartLease {request} : (leases sup).Follows (fun _ q => LaunchEnded q) .free
    (handleStart sup request) := by
  refine followsSeq startLease ?_
  rintro (error | ⟨session, run⟩) q ⟨ended, free⟩
  · exact ended
  · rw [free _ rfl]
    exact followsImp superviseDurablyLease fun _ _ same => .inl same

theorem handleResumeLease {request} : (leases sup).Follows (fun _ q => LaunchEnded q) .free
    (handleResume sup session request) := by
  refine followsStep trivial fun found => ?_
  split
  · exact .inl rfl
  refine followsStep trivial fun before => followsSeq resumeLease ?_
  rintro (error | run) q ⟨ended, free⟩
  · exact ended
  · rw [free _ rfl]
    exact followsImp superviseDurablyLease fun _ _ same => .inl same

theorem replyLease {call : Program (Except MaestroError Unit)}
    (follows : (leases sup).Follows (fun _ q => LaunchEnded q) q call) :
    (leases sup).Follows (leases sup).EntryPost q (reply call) :=
  followsSeq follows fun _ _ ended => followsStep trivial fun _ => launchEndedEnds ended

theorem replyGuestLease {call : Program (Except MaestroError Unit)}
    (only : call.Only (GuestAct session run)) :
    (leases sup).Follows (leases sup).EntryPost .free (reply call) :=
  replyLease (followsImp (leaseFreeStays (guestLeaseFree only)) fun _ _ same => .inl same)

theorem leasesSound : (leases sup).Sound := by
  intro e
  cases e with
  | start request => exact replyLease handleStartLease
  | resume session request => exact replyLease handleResumeLease
  | respondPermission session run requestId decision => exact replyGuestLease respondPermissionGuest
  | respondUserInput session run requestId value => exact replyGuestLease respondUserInputGuest
  | sendGuiAction session run action payload => exact replyGuestLease sendGuiActionGuest
  | stop session run => exact replyGuestLease (calmGuest stopCalm)
  | expiry session run requestId kind deadline =>
    exact followsStep trivial fun _ =>
      staysSeq (leaseFreeStays (guestLeaseFree expireRequestGuest)) fun _ => trivial
  | stderrReader session run =>
    refine staysReturns (stderrLeaseFree readStderrOnly) (fun _ h => leaseFreeQuiet h)
      readStderrReturns ?_
    rintro _ (rfl | rfl)
    · trivial
    · rfl
  | supervise session run => exact followsStep rfl fun _ => rfl
  | stdoutReader session run decoder => exact readStdoutLease
  | finish session run failure =>
    refine followsSeq finishRunLease fun _ q free => ?_
    subst free
    trivial
  | monitor session run afterSequence =>
    refine staysReturns (monitorLeaseFree monitorMonitor) (fun _ h => leaseFreeQuiet h)
      monitorReturns ?_
    rintro _ (rfl | ⟨last, rfl⟩)
    · trivial
    · rfl
  | monitorLoop session run lastPersisted =>
    refine staysReturns (monitorLeaseFree monitorLoopMonitor) (fun _ h => leaseFreeQuiet h)
      monitorLoopReturns ?_
    rintro _ (rfl | ⟨last, rfl⟩)
    · trivial
    · rfl

end Soundness
end Maestro.Session
