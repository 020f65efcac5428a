import Maestro.RunIsolation

/-! Resumes that race for one session: who has the launch flag, and what a refused call
has written. -/
namespace Maestro.Session
open Interleaving Prog Protocol

/-- Where a call is in `launch`: `flagged` has the launch flag and wrote nothing yet,
`writing` has begun to write, `lost` found a run installed before its own. The tasks of
the runs and of the other calls are `apart`. -/
inductive LaunchPlace where
  | calm
  | flagged (session : SessionId)
  | writing (session : SessionId)
  | installed (session : SessionId)
  | lost (session : SessionId)
  | refusing (session : SessionId)
  | refused
  | ended
  | apart

def SessionCall.Reads : SessionCall → Prop
  | .activeRun _ | .readState | .snapshot => True
  | _ => False

namespace LaunchPlace

def flag : LaunchPlace → Option SessionId
  | .flagged session | .writing session | .installed session | .lost session
  | .refusing session => some session
  | .calm | .refused | .ended | .apart => none

def Written : LaunchPlace → Prop
  | .writing _ | .installed _ | .lost _ | .ended | .apart => True
  | .calm | .flagged _ | .refusing _ | .refused => False

def ofEntry : Entry → LaunchPlace
  | .start _ | .resume .. => .calm
  | _ => .apart

def may (q : LaunchPlace) : Act → Prop
  | .session _ (.resumeBinding _) | .session _ .beginLaunch => q = .calm
  | .session session .endLaunch => q.flag = some session
  | .session session (.install _) => q = .writing session
  | .session session (.setState target) => (target = .starting ∧ q = .flagged session) ∨ q.Written
  | .session _ call => call.Reads ∨ q.Written
  | .claimBinding _ _ session => q = .flagged session ∨ q = .apart
  | _ => True

def after (q : LaunchPlace) : (o : Act) → o.Answer → LaunchPlace
  | .session _ (.resumeBinding _), .error _ => .refused
  | .session session .beginLaunch, answer => if answer then .flagged session else .refused
  | .session session .endLaunch, _ =>
      match q with
      | .lost _ => .lost session
      | .writing _ | .installed _ => .ended
      | _ => .refused
  | .session session (.install _), answer => if answer then .installed session else .lost session
  | .session session (.setState _), _ =>
      match q with
      | .flagged _ => .writing session
      | q => q
  | .claimBinding _ _ session, .error _ =>
      match q with
      | .flagged _ => .refusing session
      | q => q
  | _, _ => q

end LaunchPlace

abbrev launches (sup : Supervisor) : Protocol (machine sup) where
  Place := LaunchPlace
  enter := LaunchPlace.ofEntry
  may := LaunchPlace.may
  after := LaunchPlace.after
  ends _ := True

def Act.LaunchFree : Act → Prop
  | .session _ (.resumeBinding _) | .session _ .beginLaunch | .session _ .endLaunch
  | .session _ (.install _) => False
  | _ => True

section Soundness
variable {sup : Supervisor} {session : SessionId} {run : RunId} {q : LaunchPlace}

theorem launchFreeQuiet {o : Act} (free : o.LaunchFree) :
    LaunchPlace.may .apart o ∧ ∀ answer, LaunchPlace.after .apart o answer = .apart := by
  cases o with
  | session session call =>
    cases call <;> first | exact free.elim | exact ⟨.inr trivial, fun _ => rfl⟩
  | claimBinding => exact ⟨.inr rfl, fun answer => by cases answer <;> rfl⟩
  | _ => exact ⟨trivial, fun _ => rfl⟩

theorem launchFreeApart {α : Type} {p : Program α} {ok : Act → Prop} (only : p.Only ok)
    (free : ∀ o, ok o → o.LaunchFree) : (launches sup).Stays .apart p :=
  staysOnly only fun o h => launchFreeQuiet (free o h)

theorem guestLaunchFree {o} (h : GuestAct session run o) : o.LaunchFree := by
  rcases h with calm | ⟨call, rfl, delivers⟩
  · cases o <;> first | exact trivial | skip
    case session s call => cases call <;> first | exact calm.elim | exact trivial
  · exact trivial

theorem readerLaunchFree {o} (h : ReaderAct session run o) : o.LaunchFree := by
  cases o <;> first | exact trivial | skip
  case session s call => cases call <;> first | exact h.elim | exact trivial

theorem finishLaunchFree {o} (h : FinishAct session run o) : o.LaunchFree := by
  cases o <;> first | exact trivial | skip
  case session s call => cases call <;> first | exact h.elim | exact trivial

theorem monitorLaunchFree {o} (h : MonitorAct session run o) : o.LaunchFree := by
  cases o <;> first | exact trivial | skip
  case session s call => cases call <;> first | exact h.elim | exact trivial

theorem stderrLaunchFree {o} (h : StderrAct session run o) : o.LaunchFree := by
  cases o <;> first | exact trivial | skip
  case session s call => cases call <;> first | exact h.elim | exact trivial

def Act.Elsewhere : Act → Prop
  | .session .. | .claimBinding .. => False
  | _ => True

theorem elsewhereStays {α : Type} {p : Program α} (only : p.Only Act.Elsewhere) :
    (launches sup).Stays q p :=
  staysOnly only fun o away => by
    cases o <;> first | exact away.elim | exact ⟨trivial, fun _ => rfl⟩

theorem terminateElsewhere : (terminate run).Only Act.Elsewhere :=
  terminateOnly ⟨trivial, trivial, trivial, trivial, trivial⟩

theorem recordLaunchFailureLaunching {error} :
    (launches sup).Stays (.writing session) (recordLaunchFailure sup session error) :=
  followsStep (.inr trivial) fun _ => followsStep (.inr trivial) fun _ => rfl

theorem abandonLaunchLaunching {error operation} :
    (launches sup).Stays (.writing session) (abandonLaunch sup session run error operation) :=
  staysSeq (elsewhereStays terminateElsewhere) fun _ =>
    staysSeq recordLaunchFailureLaunching fun _ => rfl

theorem dropLaunchGuardLaunching {token reserved committed} (flagged : q.flag = some session) :
    (launches sup).Follows (fun _ q' => q' = q.after (.session session .endLaunch) ()) q
      (dropLaunchGuard session token reserved committed) := by
  refine followsStep flagged fun _ => ?_
  split
  · exact followsStep trivial fun _ => rfl
  · rfl

def LaunchDone {α : Type} (result : Except MaestroError α) (q : LaunchPlace) : Prop :=
  ∀ value, result = .ok value → q = .ended

theorem launchFailed {α : Type} {error : MaestroError} :
    LaunchDone (.error error : Except MaestroError α) q := by
  intro _ h
  cases h

theorem dropLaunchGuardFailed {α : Type} {token reserved} {error : MaestroError}
    (flagged : q.flag = some session) :
    (launches sup).Follows LaunchDone q (do
      dropLaunchGuard session token reserved false
      return (.error error : Except MaestroError α)) :=
  followsSeq (dropLaunchGuardLaunching flagged) fun _ _ _ => launchFailed

theorem claimLaunchBindingLaunching {token binding} :
    (launches sup).Follows
      (fun claimed q => q = if claimed.isOk then .flagged session else .refusing session)
      (.flagged session) (claimLaunchBinding session token binding) := by
  cases binding with
  | none => rfl
  | some value =>
    refine followsStep (.inl rfl) fun claimed => ?_
    cases claimed <;> rfl

theorem launchLaunching {request binding} :
    (launches sup).Follows LaunchDone .calm (launch sup session request binding) := by
  unfold launch
  split
  · exact launchFailed
  refine followsStep rfl fun began => ?_
  cases began with
  | false => exact launchFailed
  | true =>
  refine followsStep trivial fun token => followsSeq claimLaunchBindingLaunching ?_
  rintro (error | ⟨⟨⟩⟩) _ rfl
  · exact followsStep rfl fun _ => launchFailed
  refine followsStep (.inl ⟨rfl, rfl⟩) fun _ => followsStep (.inr trivial) fun _ =>
    followsStep (.inr trivial) fun _ => followsStep trivial fun run =>
    followsStep trivial fun spawned => ?_
  cases spawned with
  | error error =>
    refine staysSeq recordLaunchFailureLaunching fun _ => ?_
    exact dropLaunchGuardFailed rfl
  | ok processId =>
  refine followsStep trivial fun taken => ?_
  cases taken with
  | error error =>
    refine staysSeq abandonLaunchLaunching fun _ => ?_
    exact dropLaunchGuardFailed rfl
  | ok =>
  refine followsStep trivial fun taken => ?_
  cases taken with
  | error error =>
    refine staysSeq abandonLaunchLaunching fun _ => ?_
    exact dropLaunchGuardFailed rfl
  | ok =>
  refine followsStep rfl fun installed => ?_
  cases installed with
  | true =>
    refine followsStep (.inr trivial) fun _ => followsStep rfl fun _ =>
      followsStep (.inr trivial) fun published => ?_
    cases published with
    | error error => exact launchFailed
    | ok envelope => exact followsStep trivial fun _ _ _ => rfl
  | false =>
    refine followsStep trivial fun _ => staysSeq (elsewhereStays terminateElsewhere) fun _ =>
      followsStep trivial fun _ => ?_
    exact dropLaunchGuardFailed rfl

theorem calmEnded {o} (h : CalmAct session run o) :
    LaunchPlace.may .ended o ∧ ∀ answer, LaunchPlace.after .ended o answer = .ended := by
  cases o <;> first | exact h.elim | exact ⟨trivial, fun _ => rfl⟩ | skip
  case session s call => cases call <;> first | exact h.elim | exact ⟨.inr trivial, fun _ => rfl⟩

theorem superviseDurablyLaunching {afterSequence} :
    (launches sup).Stays .ended (superviseDurably sup session run afterSequence) := by
  refine followsStep trivial fun stored => ?_
  split
  · exact followsStep trivial fun _ => rfl
  · exact staysSeq (staysOnly stopCalm fun _ h => calmEnded h) fun _ => rfl

theorem startLaunching {request} :
    (launches sup).Follows LaunchDone .calm (start sup request) := by
  refine followsStep trivial fun created => ?_
  cases created with
  | error error => exact launchFailed
  | ok session =>
  refine followsSeq launchLaunching ?_
  rintro (error | run) q done
  · refine followsStep (.inl trivial) fun state => ?_
    split
    · exact followsStep trivial fun _ => launchFailed
    · exact launchFailed
  · exact fun _ _ => done run rfl

theorem resumeLaunching {request} :
    (launches sup).Follows LaunchDone .calm (resume sup session request) := by
  refine followsStep trivial fun found => ?_
  split
  · exact launchFailed
  refine followsStep rfl fun binding => ?_
  cases binding with
  | error error => exact launchFailed
  | ok binding => exact launchLaunching

theorem handleStartLaunching {request} :
    (launches sup).Follows (fun _ _ => True) .calm (handleStart sup request) := by
  refine followsSeq startLaunching ?_
  rintro (error | ⟨session, run⟩) q done
  · trivial
  · cases done _ rfl
    exact followsImp superviseDurablyLaunching fun _ _ _ => trivial

theorem handleResumeLaunching {request} :
    (launches sup).Follows (fun _ _ => True) .calm (handleResume sup session request) := by
  refine followsStep trivial fun found => ?_
  split
  · trivial
  refine followsStep (.inl trivial) fun before => followsSeq resumeLaunching ?_
  rintro (error | run) q done
  · trivial
  · cases done _ rfl
    exact followsImp superviseDurablyLaunching fun _ _ _ => trivial

theorem replyLaunching {call : Program (Except MaestroError Unit)}
    (follows : (launches sup).Follows (fun _ _ => True) q call) :
    (launches sup).Follows (launches sup).EntryPost q (reply call) :=
  followsSeq follows fun _ _ _ => followsStep trivial fun _ => trivial

theorem replyGuestLaunching {call : Program (Except MaestroError Unit)}
    (only : call.Only (GuestAct session run)) :
    (launches sup).Follows (launches sup).EntryPost .apart (reply call) :=
  replyLaunching (staysEnd (launchFreeApart only fun _ h => guestLaunchFree h) fun _ => trivial)

theorem launchesSound : (launches sup).Sound := by
  intro e
  cases e with
  | start request => exact replyLaunching handleStartLaunching
  | resume session request => exact replyLaunching handleResumeLaunching
  | respondPermission session run requestId decision =>
    exact replyGuestLaunching respondPermissionGuest
  | respondUserInput session run requestId value => exact replyGuestLaunching respondUserInputGuest
  | sendGuiAction session run action payload => exact replyGuestLaunching sendGuiActionGuest
  | stop session run => exact replyGuestLaunching (calmGuest stopCalm)
  | expiry session run requestId kind deadline =>
    exact followsStep trivial fun _ =>
      staysSeq (launchFreeApart expireRequestGuest fun _ h => guestLaunchFree h) fun _ => trivial
  | stderrReader session run =>
    refine staysReturns readStderrOnly (fun _ h => launchFreeQuiet (stderrLaunchFree h))
      readStderrReturns ?_
    rintro _ (rfl | rfl)
    · trivial
    · rfl
  | supervise session run => exact followsStep trivial fun _ => rfl
  | stdoutReader session run decoder =>
    refine staysReturns readStdoutReader (fun _ h => launchFreeQuiet (readerLaunchFree h))
      readStdoutReturns ?_
    rintro _ (⟨failure, rfl⟩ | ⟨decoder, rfl⟩)
    · rfl
    · rfl
  | finish session run failure =>
    exact staysSeq (launchFreeApart finishRunFinish fun _ h => finishLaunchFree h) fun _ => trivial
  | monitor session run afterSequence =>
    refine staysReturns monitorMonitor (fun _ h => launchFreeQuiet (monitorLaunchFree h))
      monitorReturns ?_
    rintro _ (rfl | ⟨last, rfl⟩)
    · trivial
    · rfl
  | monitorLoop session run lastPersisted =>
    refine staysReturns monitorLoopMonitor (fun _ h => launchFreeQuiet (monitorLaunchFree h))
      monitorLoopReturns ?_
    rintro _ (rfl | ⟨last, rfl⟩)
    · trivial
    · rfl

/-! What a refused call has done. -/

/-- The answer says that a launch or a run owns the session or the binding. -/
def Act.Refuses (session : SessionId) : (o : Act) → o.Answer → Prop
  | .session s (.resumeBinding _), .error _ => s = session
  | .session s .beginLaunch, began => s = session ∧ began = false
  | .session s (.install _), won => s = session ∧ won = false
  | .claimBinding _ _ s, .error _ => s = session
  | _, _ => False

def Act.Modest : Act → Prop
  | .session _ call => call.Reads ∨ call = .beginLaunch ∨ call = .endLaunch ∨
      ∃ binding, call = .resumeBinding binding
  | _ => True

theorem modestMay {o} (may : q.may o) (calm : ¬ q.Written)
    (early : ∀ s, o ≠ .session s (.setState .starting)) : o.Modest := by
  cases o with
  | session s call =>
    cases call with
    | beginLaunch => exact .inr (.inl rfl)
    | endLaunch => exact .inr (.inr (.inl rfl))
    | resumeBinding binding => exact .inr (.inr (.inr ⟨binding, rfl⟩))
    | install =>
      cases (show q = .writing s from may)
      exact absurd trivial calm
    | setState target =>
      rcases may with ⟨rfl, _⟩ | written
      · exact absurd rfl (early s)
      · exact absurd written calm
    | _ => exact .inl (may.resolve_right calm)
  | _ => trivial

def LaunchPlace.final (q : LaunchPlace) (past : Past actions) : LaunchPlace :=
  past.foldl (fun q done => q.after done.1 done.2) q

def LaunchPlace.Refusal (q : LaunchPlace) : Prop := q = .refused ∨ ∃ s, q = .refusing s

def LaunchPlace.Busy (q : LaunchPlace) : Prop :=
  (∃ s, q = .writing s) ∨ (∃ s, q = .installed s) ∨ q = .ended

theorem refusalStep {o answer} (refusal : q.Refusal) (may : q.may o) :
    o.Modest ∧ (q.after o answer).Refusal := by
  have calm : ¬ q.Written := by
    rcases refusal with rfl | ⟨s, rfl⟩ <;> exact id
  refine ⟨modestMay may calm fun s same => ?_, ?_⟩
  · subst same
    rcases may with ⟨_, flagged⟩ | written
    · rcases refusal with rfl | ⟨s, rfl⟩ <;> cases flagged
    · exact calm written
  · rcases refusal with rfl | ⟨s, rfl⟩
    · cases o with
      | session s call => cases call <;> first | exact .inl rfl | cases may
      | claimBinding => rcases may with flagged | apart <;> contradiction
      | _ => exact .inl rfl
    · cases o with
      | session s call => cases call <;> first | exact .inl rfl | exact .inr ⟨_, rfl⟩ | cases may
      | claimBinding => rcases may with flagged | apart <;> contradiction
      | _ => exact .inr ⟨_, rfl⟩

theorem refusedModest {past : Past actions} (refusal : q.Refusal)
    (legal : (launches sup).Legal q past) : ∀ done ∈ past, Act.Modest done.1 := by
  induction past generalizing q with
  | nil => simp
  | cons done past ih =>
    obtain ⟨o, answer⟩ := done
    have step : o.Modest ∧ (q.after o answer).Refusal := refusalStep refusal legal.1
    intro done member
    rcases List.mem_cons.mp member with rfl | rest
    · exact step.1
    · exact ih step.2 legal.2 done rest

theorem lostFinal {past : Past actions} (legal : (launches sup).Legal (.lost session) past) :
    ∃ s, LaunchPlace.final (.lost session) past = .lost s := by
  induction past generalizing session with
  | nil => exact ⟨session, rfl⟩
  | cons done past ih =>
    obtain ⟨o, answer⟩ := done
    have stays : ∃ s, LaunchPlace.after (.lost session) o answer = .lost s := by
      obtain ⟨may, -⟩ := legal
      cases o with
      | session s call => cases call <;> first | exact ⟨_, rfl⟩ | cases may
      | claimBinding => rcases may with flagged | apart <;> contradiction
      | _ => exact ⟨_, rfl⟩
    obtain ⟨s, same⟩ := stays
    have rest : (launches sup).Legal (LaunchPlace.after (.lost session) o answer) past := legal.2
    change ∃ s, LaunchPlace.final (LaunchPlace.after (.lost session) o answer) past = .lost s
    rw [same] at rest ⊢
    exact ih rest

theorem busyLost {past : Past actions} (busy : q.Busy) (legal : (launches sup).Legal q past)
    (refused : ∃ done ∈ past, Act.Refuses session done.1 done.2) : ∃ s, q.final past = .lost s := by
  induction past generalizing q with
  | nil => simp at refused
  | cons done past ih =>
    obtain ⟨o, answer⟩ := done
    obtain ⟨may, legal⟩ := legal
    have step : (q.after o answer).Busy ∧ ¬ o.Refuses session answer ∨
        ∃ s, q.after o answer = .lost s := by
      rcases busy with ⟨s, rfl⟩ | ⟨s, rfl⟩ | rfl
      · cases o with
        | session s' call =>
          cases call with
          | install run =>
            cases answer with
            | true => exact .inl ⟨.inr (.inl ⟨_, rfl⟩), fun h => by cases h.2⟩
            | false => exact .inr ⟨_, rfl⟩
          | endLaunch => exact .inl ⟨.inr (.inr rfl), id⟩
          | resumeBinding => cases may
          | beginLaunch => cases may
          | _ => exact .inl ⟨.inl ⟨s, rfl⟩, id⟩
        | claimBinding => rcases may with flagged | apart <;> contradiction
        | _ => exact .inl ⟨.inl ⟨s, rfl⟩, id⟩
      · cases o with
        | session s' call =>
          cases call with
          | endLaunch => exact .inl ⟨.inr (.inr rfl), id⟩
          | install | resumeBinding | beginLaunch => cases may
          | _ => exact .inl ⟨.inr (.inl ⟨s, rfl⟩), id⟩
        | claimBinding => rcases may with flagged | apart <;> contradiction
        | _ => exact .inl ⟨.inr (.inl ⟨s, rfl⟩), id⟩
      · cases o with
        | session s' call =>
          cases call with
          | install | resumeBinding | beginLaunch | endLaunch => cases may
          | _ => exact .inl ⟨.inr (.inr rfl), id⟩
        | claimBinding => rcases may with flagged | apart <;> contradiction
        | _ => exact .inl ⟨.inr (.inr rfl), id⟩
    rcases step with ⟨busy, other⟩ | ⟨s, lost⟩
    · obtain ⟨done, member, refuses⟩ := refused
      rcases List.mem_cons.mp member with rfl | member
      · exact absurd refuses other
      · exact ih busy legal ⟨done, member, refuses⟩
    · have rest : (launches sup).Legal (q.after o answer) past := legal
      change ∃ s, LaunchPlace.final (q.after o answer) past = .lost s
      rw [lost] at rest ⊢
      exact lostFinal rest

def LaunchPlace.Early (q : LaunchPlace) : Prop := q = .calm ∨ ∃ s, q = .flagged s

theorem earlyStep {o answer} (early : q.Early) (may : q.may o) :
    (o.Modest ∧ (q.after o answer).Refusal) ∨
    (¬ o.Refuses session answer ∧ ((o.Modest ∧ (q.after o answer).Early) ∨ (q.after o answer).Busy)) := by
  have calm : ¬ q.Written := by
    rcases early with rfl | ⟨s, rfl⟩ <;> exact id
  by_cases starts : ∃ s, o = .session s (.setState .starting)
  · obtain ⟨s, rfl⟩ := starts
    obtain ⟨_, rfl⟩ := may.resolve_right calm
    exact .inr ⟨id, .inr (.inl ⟨s, rfl⟩)⟩
  have modest : o.Modest := modestMay may calm fun s same => starts ⟨s, same⟩
  rcases early with rfl | ⟨s, rfl⟩
  · cases o with
    | session s call =>
      cases call with
      | beginLaunch =>
        cases answer with
        | true => exact .inr ⟨(fun h => by cases h.2), .inl ⟨modest, .inr ⟨s, rfl⟩⟩⟩
        | false => exact .inl ⟨modest, .inl rfl⟩
      | resumeBinding =>
        cases answer with
        | error => exact .inl ⟨modest, .inl rfl⟩
        | ok => exact .inr ⟨id, .inl ⟨modest, .inl rfl⟩⟩
      | endLaunch | install => cases may
      | _ => exact .inr ⟨id, .inl ⟨modest, .inl rfl⟩⟩
    | claimBinding => rcases may with flagged | apart <;> contradiction
    | _ => exact .inr ⟨id, .inl ⟨modest, .inl rfl⟩⟩
  · cases o with
    | session s' call =>
      cases call with
      | endLaunch => exact .inl ⟨modest, .inl rfl⟩
      | beginLaunch | resumeBinding | install => cases may
      | setState target =>
        obtain ⟨rfl, _⟩ := may.resolve_right id
        exact absurd ⟨s', rfl⟩ starts
      | _ => exact .inr ⟨id, .inl ⟨modest, .inr ⟨s, rfl⟩⟩⟩
    | claimBinding =>
      cases answer with
      | error => exact .inl ⟨modest, .inr ⟨_, rfl⟩⟩
      | ok => exact .inr ⟨id, .inl ⟨modest, .inr ⟨s, rfl⟩⟩⟩
    | _ => exact .inr ⟨id, .inl ⟨modest, .inr ⟨s, rfl⟩⟩⟩

theorem refusedUnwritten {past : Past actions} (early : q.Early)
    (legal : (launches sup).Legal q past)
    (refused : ∃ done ∈ past, Act.Refuses session done.1 done.2) :
    (∃ s, q.final past = .lost s) ∨ ∀ done ∈ past, Act.Modest done.1 := by
  induction past generalizing q with
  | nil => simp at refused
  | cons done past ih =>
    obtain ⟨o, answer⟩ := done
    obtain ⟨may, legal⟩ := legal
    have both : o.Modest → (∀ done ∈ past, Act.Modest done.1) →
        ∀ done ∈ (⟨o, answer⟩ :: past : Past actions), Act.Modest done.1 := by
      intro modest rest done member
      rcases List.mem_cons.mp member with rfl | member
      · exact modest
      · exact rest done member
    have step : (o.Modest ∧ (q.after o answer).Refusal) ∨ (¬ o.Refuses session answer ∧
        ((o.Modest ∧ (q.after o answer).Early) ∨ (q.after o answer).Busy)) := earlyStep early may
    rcases step with ⟨modest, refusal⟩ | ⟨other, next⟩
    · exact .inr (both modest (refusedModest refusal legal))
    · obtain ⟨done, member, refuses⟩ := refused
      rcases List.mem_cons.mp member with rfl | member
      · exact absurd refuses other
      · rcases next with ⟨modest, early⟩ | busy
        · exact (ih early legal ⟨done, member, refuses⟩).imp id (both modest)
        · have lost : ∃ s, (q.after o answer).final past = .lost s :=
            busyLost busy legal ⟨done, member, refuses⟩
          exact .inl lost

/-! Who has the launch flag. -/

def Memory.Flagged (m : Memory) (session : SessionId) : Prop :=
  ∃ record, m.sessions session = some record ∧ record.launching = true

def Memory.Idle (m : Memory) (session : SessionId) : Prop :=
  ∀ record, m.sessions session = some record → record.data.activeRun = none

instance (m : Memory) (session : SessionId) : Decidable (m.Idle session) :=
  match found : m.sessions session with
  | none => .isTrue fun record found' => by
      rw [found] at found'
      cases found'
  | some record => decidable_of_iff (record.data.activeRun = none) (by simp [Memory.Idle, found])

def LaunchPlace.Here : LaunchPlace → Memory → Prop
  | .flagged session, m | .refusing session, m | .installed session, m => m.Flagged session
  | .writing session, m => m.Flagged session ∧ m.Idle session
  | .lost _, _ => False
  | _, _ => True

def LaunchPlace.Apart (q q' : LaunchPlace) : Prop :=
  ∀ session, q.flag = some session → q'.flag ≠ some session

theorem flagHere {m : Memory} (here : q.Here m) (flag : q.flag = some session) :
    m.Flagged session := by
  cases q <;> cases flag
  case writing => exact here.1
  case lost => exact here.elim
  all_goals exact here

theorem hereKept {m m' : Memory} (here : q.Here m)
    (flagged : ∀ session, q.flag = some session → m.Flagged session → m'.Flagged session)
    (idle : ∀ session, q = .writing session → m.Idle session → m'.Idle session) : q.Here m' := by
  cases q with
  | writing session => exact ⟨flagged session rfl here.1, idle session rfl here.2⟩
  | flagged session | refusing session | installed session => exact flagged session rfl here
  | lost => exact here.elim
  | calm | refused | ended | apart => trivial

theorem hereSame {m m' : Memory} (here : q.Here m)
    (same : ∀ session, m'.sessions session = m.sessions session) : q.Here m' := by
  refine hereKept here (fun s _ flagged => ?_) (fun s _ idle => ?_)
  · obtain ⟨record, found, flag⟩ := flagged
    exact ⟨record, (same s).trans found, flag⟩
  · exact fun record found => idle record ((same s).symm.trans found)

theorem flagKept {record record' : SessionRecord} {call answer}
    (h : record.perform sup session call = some (answer, record'))
    (begins : call ≠ .beginLaunch) (ends : call ≠ .endLaunch) :
    record'.launching = record.launching := by
  cases call <;> simp only [SessionRecord.perform] at h
  case beginLaunch => exact absurd rfl begins
  case endLaunch => exact absurd rfl ends
  all_goals
    repeat' split at h
    all_goals first | contradiction | (cases Option.some.inj h; rfl)

theorem idleKept {record record' : SessionRecord} {call answer}
    (h : record.perform sup session call = some (answer, record'))
    (installs : ∀ run, call ≠ .install run) (idle : record.data.activeRun = none) :
    record'.data.activeRun = none := by
  cases call with
  | install run => exact absurd rfl (installs run)
  | finalize run completion =>
    cases Option.some.inj h
    simp [idle]
  | _ =>
    have kept : record'.history = record.history := quietHistory (by trivial) h
    exact (congrArg History.activeRun kept).trans idle

theorem othersKept {m : Memory} {call record record'} {answer : SessionCall.Answer call}
    {other : LaunchPlace} (found : m.sessions session = some record)
    (h : record.perform sup session call = some (answer, record'))
    (may : q.may (.session session call)) (here : other.Here m) (apart : q.Apart other) :
    other.Here { m with sessions := Function.update m.sessions session (some record') } := by
  have elsewhere : ∀ {s}, s ≠ session →
      Function.update m.sessions session (some record') s = m.sessions s :=
    fun different => Function.update_of_ne different ..
  refine hereKept here (fun s flag flagged => ?_) (fun s writing idle => ?_)
  · by_cases same : s = session
    · subst same
      obtain ⟨before, found', flagged⟩ := flagged
      cases Option.some.inj (found.symm.trans found')
      refine ⟨record', Function.update_self .., ?_⟩
      by_cases ends : call = .endLaunch
      · subst ends
        exact absurd flag (apart s may)
      · by_cases begins : call = .beginLaunch
        · subst begins
          cases Option.some.inj h
          rfl
        · exact (flagKept h begins ends).trans flagged
    · obtain ⟨before, found', flagged⟩ := flagged
      exact ⟨before, (elsewhere same).trans found', flagged⟩
  · intro after found'
    by_cases same : s = session
    · subst same
      cases updatedSelf found'
      refine idleKept h (fun run same => ?_) (idle record found)
      subst same writing
      cases (show q = .writing s from may)
      exact apart s rfl rfl
    · exact idle after ((elsewhere same).symm.trans found')

theorem freshGrows {o choice} {m m' : Memory} {answer : o.Answer}
    (h : apply sup o choice m = some (answer, m')) : m.fresh ≤ m'.fresh := by
  cases o with
  | session id call =>
    obtain ⟨record, record', _, _, rfl⟩ := applySession h
    exact Nat.le_refl _
  | run id call =>
    obtain ⟨control, control', _, _, rfl⟩ := applyRun h
    exact Nat.le_refl _
  | store call =>
    obtain ⟨healthy, rfl, rfl, rfl⟩ := applyStore h
    exact Nat.le_refl _
  | fresh =>
    cases Option.some.inj h
    exact Nat.le_succ _
  | createSession =>
    simp only [apply] at h
    split at h <;> cases Option.some.inj h
    · exact Nat.le_refl _
    · exact Nat.le_succ _
  | sleepUntil | newActionId | spawnStructured | takeStream =>
    simp only [apply] at h
    split at h <;> first | contradiction | (cases Option.some.inj h; exact Nat.le_refl _)
  | now | spawn | answer | findSession | removeSession | claimBinding | releaseBinding =>
    cases Option.some.inj h
    exact Nat.le_refl _

theorem ownKept {m : Memory} {call record record'} {answer : SessionCall.Answer call}
    (found : m.sessions session = some record)
    (h : record.perform sup session call = some (answer, record')) (here : q.Here m)
    (ends : call ≠ .endLaunch) (installs : ∀ run, call ≠ .install run) :
    q.Here { m with sessions := Function.update m.sessions session (some record') } := by
  have elsewhere : ∀ {s}, s ≠ session →
      Function.update m.sessions session (some record') s = m.sessions s :=
    fun different => Function.update_of_ne different ..
  refine hereKept here (fun s flag flagged => ?_) (fun s writing idle => ?_)
  · obtain ⟨before, found', flagged⟩ := flagged
    by_cases same : s = session
    · subst same
      cases Option.some.inj (found.symm.trans found')
      refine ⟨record', Function.update_self .., ?_⟩
      by_cases begins : call = .beginLaunch
      · subst begins
        cases Option.some.inj h
        rfl
      · exact (flagKept h begins ends).trans flagged
    · exact ⟨before, (elsewhere same).trans found', flagged⟩
  · intro after found'
    by_cases same : s = session
    · subst same
      cases updatedSelf found'
      exact idleKept h installs (idle record found)
    · exact idle after ((elsewhere same).symm.trans found')

theorem spawnedApart {o : Act} : ∀ e, o.spawned = some e → ∀ m : Memory,
    (LaunchPlace.ofEntry e).Here m ∧ ∀ other : LaunchPlace,
      (LaunchPlace.ofEntry e).Apart other ∧ other.Apart (.ofEntry e) := by
  intro e _ m
  have free : (LaunchPlace.ofEntry e).flag = none := by cases e <;> rfl
  refine ⟨by cases e <;> trivial, fun other => ⟨fun s same => ?_, fun s _ same => ?_⟩⟩
  · rw [free] at same
    cases same
  · rw [free] at same
    cases same

def racing (sup : Supervisor) : Outline (launches sup) where
  Inv m := ∀ session record, m.sessions session = some record → session < m.fresh
  Here q m := q.Here m
  Apart := LaunchPlace.Apart

/-- A launch begins to write only while its session has no active run. -/
def StartsIdle : Act → Memory → Prop
  | .session session (.setState target), m => target = .starting → m.Idle session
  | _, _ => True

instance (o : Act) (m : Memory) : Decidable (StartsIdle o m) := by
  unfold StartsIdle
  split <;> infer_instance

theorem racingLess {m m' : Memory} {q' : LaunchPlace} {o : Act} (inv : (racing sup).Inv m')
    (here : q'.Here m') (less : q'.flag = none ∨ q'.flag = q.flag)
    (others : ∀ other : LaunchPlace, other.Here m → q.Apart other → other.Here m') :
    (racing sup).Kept m m' q q' o.spawned := by
  refine ⟨inv, here, fun e spawned => ?_, fun other here apart => ⟨others other here apart, ?_, ?_⟩⟩
  · have entered := spawnedApart e spawned m'
    exact ⟨entered.1, (entered.2 q').2⟩
  · intro s same
    rcases less with none | kept
    · rw [none] at same
      cases same
    · exact apart s (kept.symm.trans same)
  · exact fun e spawned => ((spawnedApart e spawned m').2 other).1

theorem racingSession {m : Memory} {call record record'} {answer : SessionCall.Answer call}
    (inv : (racing sup).Inv m) (here : q.Here m) (may : q.may (.session session call))
    (idle : StartsIdle (.session session call) m) (found : m.sessions session = some record)
    (h : record.perform sup session call = some (answer, record')) :
    (racing sup).Kept m { m with sessions := Function.update m.sessions session (some record') } q
      (q.after (.session session call) answer) none := by
  have inv' : (racing sup).Inv
      { m with sessions := Function.update m.sessions session (some record') } := by
    intro s record₁ found₁
    by_cases same : s = session
    · exact inv s record (same ▸ found)
    · exact inv s record₁ ((Function.update_of_ne same ..).symm.trans found₁)
  have others := fun (other : LaunchPlace) (here : other.Here m) (apart : q.Apart other) =>
    othersKept found h may here apart
  have less : ∀ {q' : LaunchPlace},
      q'.Here { m with sessions := Function.update m.sessions session (some record') } →
      q'.flag = none ∨ q'.flag = q.flag →
      (racing sup).Kept m { m with sessions := Function.update m.sessions session (some record') } q
        q' none := fun here flag => racingLess (o := .now) inv' here flag others
  have own : call ≠ .endLaunch → (∀ run, call ≠ .install run) →
      (racing sup).Kept m { m with sessions := Function.update m.sessions session (some record') } q
        q none := fun ends installs => less (ownKept found h here ends installs) (.inr rfl)
  cases call with
  | beginLaunch =>
    cases (show q = .calm from may)
    cases Option.some.inj h
    cases free : record.launching with
    | true => exact less trivial (.inl rfl)
    | false =>
      refine ⟨inv', ⟨_, Function.update_self .., rfl⟩, (fun e none => by cases none),
        fun other here' apart => ⟨others other here' apart, ?_, (fun e none => by cases none)⟩⟩
      rintro s ⟨⟩ flag
      obtain ⟨before, found', flagged⟩ := flagHere here' flag
      cases Option.some.inj (found.symm.trans found')
      rw [free] at flagged
      cases flagged
  | endLaunch =>
    cases q <;> cases may
    case endLaunch.lost.refl => exact here.elim
    all_goals exact less trivial (.inl rfl)
  | install run =>
    cases (show q = .writing session from may)
    have unowned := here.2 record found
    simp only [SessionRecord.perform] at h
    split at h
    · rename_i owned
      rw [unowned] at owned
      cases owned
    · cases Option.some.inj h
      obtain ⟨before, found', flagged⟩ := here.1
      cases Option.some.inj (found.symm.trans found')
      exact less ⟨_, Function.update_self .., flagged⟩ (.inr rfl)
  | setState target =>
    cases q with
    | flagged s =>
      rcases may with ⟨rfl, same⟩ | written
      · cases same
        cases Option.some.inj h
        obtain ⟨before, found', flagged⟩ := here
        cases Option.some.inj (found.symm.trans found')
        refine less ⟨⟨_, Function.update_self .., flagged⟩, fun after found₁ => ?_⟩ (.inr rfl)
        cases updatedSelf found₁
        exact idle rfl record found
      · exact written.elim
    | _ => exact own (fun same => by cases same) (fun _ same => by cases same)
  | resumeBinding binding =>
    cases answer with
    | error error =>
      cases (show q = .calm from may)
      exact less trivial (.inl rfl)
    | ok => exact own (fun same => by cases same) (fun _ same => by cases same)
  | _ => exact own (fun same => by cases same) (fun _ same => by cases same)

theorem racingValid : (racing sup).Valid (fun _ o m => StartsIdle o m) where
  symm apart s flag flag' := apart s flag' flag
  call {e m} callable _ := by
    refine ⟨by cases e <;> trivial, fun other _ s flag => ?_⟩
    cases e <;> cases flag
  act {q o choice m answer m'} inv here may idle effect := by
    by_cases calls : ∃ session call, o = .session session call
    · obtain ⟨session, call, rfl⟩ := calls
      obtain ⟨record, record', found, performed, rfl⟩ :=
        @applySession sup session call choice m m' answer effect
      exact racingSession inv here may idle found performed
    by_cases creates : o = .createSession
    · subst creates
      simp only [apply] at effect
      split at effect <;> cases Option.some.inj effect
      · exact racingLess (o := .createSession) inv here (.inr rfl) fun _ here _ => here
      · have old : ∀ {s record}, m.sessions s = some record → s ≠ m.fresh :=
          fun found same => Nat.lt_irrefl _ (same ▸ inv _ _ found)
        have kept : ∀ {other : LaunchPlace}, other.Here m → other.Here { m with
            fresh := m.fresh + 1
            listed := m.listed ++ [m.fresh]
            sessions := Function.update m.sessions m.fresh (some .new) } := by
          intro other here
          refine hereKept here (fun s _ flagged => ?_) (fun s _ idle => ?_)
          · obtain ⟨record, found, flag⟩ := flagged
            exact ⟨record, (Function.update_of_ne (old found) ..).trans found, flag⟩
          · intro record found
            by_cases same : s = m.fresh
            · subst same
              cases updatedSelf found
              rfl
            · exact idle record ((Function.update_of_ne same ..).symm.trans found)
        refine racingLess (o := .createSession) ?_ (kept here) (.inr rfl) fun _ here _ => kept here
        intro s record found
        by_cases same : s = m.fresh
        · subst same
          exact Nat.lt_succ_self _
        · exact Nat.lt_succ_of_lt (inv s record ((Function.update_of_ne same ..).symm.trans found))
    · have same : ∀ s, m'.sessions s = m.sessions s := fun s =>
        sessionsKept effect creates fun call named => calls ⟨s, call, named⟩
      have later : m.fresh ≤ m'.fresh := freshGrows effect
      have inv' : (racing sup).Inv m' := fun s record found =>
        Nat.lt_of_lt_of_le (inv s record ((same s).symm.trans found)) later
      have stays : q.after o answer = q ∨ ∃ s, q = .flagged s ∧ q.after o answer = .refusing s := by
        cases o with
        | session s call => exact absurd ⟨s, call, rfl⟩ calls
        | claimBinding binding token s =>
          cases answer with
          | ok => exact .inl rfl
          | error error =>
            rcases may with rfl | rfl
            · exact .inr ⟨s, rfl, rfl⟩
            · exact .inl rfl
        | _ => exact .inl rfl
      have moved : (q.after o answer).Here m' ∧ (q.after o answer).flag = q.flag := by
        rcases stays with stays | ⟨s, rfl, refusing⟩
        · rw [stays]
          exact ⟨hereSame here same, rfl⟩
        · rw [refusing]
          exact ⟨hereSame (q := .flagged s) here same, rfl⟩
      exact racingLess inv' moved.1 (.inr moved.2) fun _ here _ => hereSame here same
  outside {x m m'} inv effect := by
    have same : ∀ s, m'.sessions s = m.sessions s := by
      rcases outsideCases effect with ⟨_, _, rfl⟩ | ⟨_, _, _, _, _, _, rfl⟩ <;> exact fun s => rfl
    have fresh : m'.fresh = m.fresh := by
      rcases outsideCases effect with ⟨_, _, rfl⟩ | ⟨_, _, _, _, _, _, rfl⟩ <;> rfl
    exact ⟨fun s record found => fresh ▸ inv s record ((same s).symm.trans found),
      fun q here => hereSame here same⟩

theorem initiallyRacing : (racing sup).Holds (initially sup) :=
  Outline.holdsEmpty fun _ _ found => by cases found

def LaunchesIdle (c : Config (machine sup)) (e : Event (machine sup)) : Prop :=
  ∀ index choice t o, e = .run index choice → c.tasks[index]? = some t → t.next = some o →
    StartsIdle o c.memory

instance (c : Config (machine sup)) (e : Event (machine sup)) : Decidable (LaunchesIdle c e) :=
  match e with
  | .run index _ =>
      match present : (c.tasks[index]?).bind Task.next with
      | none => .isTrue fun _ _ t o same found next => by
          cases same
          rw [found, Option.bind_some, next] at present
          cases present
      | some o => decidable_of_iff (StartsIdle o c.memory) (by
          constructor
          · intro idle _ _ t o' same found next
            cases same
            rw [found, Option.bind_some, next] at present
            exact Option.some.inj present ▸ idle
          · intro good
            obtain ⟨t, found, next⟩ := Option.bind_eq_some_iff.mp present
            exact good _ _ t o rfl found next)
  | .call _ | .outside _ => .isTrue fun _ _ _ _ same => by cases same

theorem reachRacing {c : Config (machine sup)} (h : Reach LaunchesIdle (initially sup) c) :
    (racing sup).Holds c :=
  Outline.reachHolds launchesSound racingValid initiallyRacing
    (fun _ _ good performs =>
      good _ _ _ _ rfl performs.present (performsNext performs)) h

theorem callReturns {e : Entry} (call : e.isCall = true) :
    (body sup e).Returns fun next => next = none := by
  cases e <;> first | exact replyReturns | cases call

theorem enterReturns {e : Entry} (call : (Task.enter (M := machine sup) e).entry.isCall = true) :
    (Task.enter (M := machine sup) e).rest.Returns fun next => next = none := callReturns call

theorem advanceReturns {t : Task (machine sup)} {o answer k} (returns : t.entry.isCall = true →
    t.rest.Returns fun next => next = none) (program : t.rest = .act o k)
    (call : (t.advance o answer (k answer)).entry.isCall = true) :
    (t.advance o answer (k answer)).rest.Returns fun next => next = none := by
  rw [program] at returns
  revert call
  generalize same : k answer = next
  match next with
  | .done (some e) => exact enterReturns
  | .done none => exact fun _ => rfl
  | .act o' k' =>
    intro call
    have rest := returns call answer
    rw [same] at rest
    exact rest

theorem callsReturn {Good : Config (machine sup) → Event (machine sup) → Prop} {c}
    (h : Reach Good (initially sup) c) : ∀ t ∈ c.tasks, t.entry.isCall = true →
      t.rest.Returns fun next => next = none := by
  induction h with
  | start => simp [initially]
  | step before _ moves ih =>
    intro t member call
    cases moves with
    | call allowed =>
      rcases List.mem_append.mp member with old | new
      · exact ih t old call
      · cases List.mem_singleton.mp new
        exact enterReturns call
    | act performs =>
      obtain ⟨j, found⟩ := List.getElem?_of_mem member
      rcases taskCases found with ⟨_, rfl⟩ | ⟨_, old⟩ | ⟨_, e, _, rfl⟩
      · obtain ⟨present, ⟨k, program, rfl⟩, _⟩ := performs
        exact advanceReturns (fun call => ih _ (List.mem_of_getElem? present) call) program call
      · exact ih t (List.mem_of_getElem? old) call
      · exact enterReturns call
    | outside effect => exact ih t member call

theorem advanceCall {Good : Config (machine sup) → Event (machine sup) → Prop}
    {c : Config (machine sup)} (h : Reach Good (initially sup) c)
    {index choice t o answer memory next} (performs : Performs c index choice t o answer memory next)
    (call : t.entry.isCall = true) : (t.advance o answer next).entry = t.entry ∧
      (t.advance o answer next).past = t.past ++ [⟨o, answer⟩] := by
  obtain ⟨present, ⟨k, program, rfl⟩, _⟩ := performs
  have ends := callsReturn h t (List.mem_of_getElem? present) call
  rw [program] at ends
  have ends := ends answer
  revert ends
  match k answer with
  | .done (some e) => exact fun ends => by cases ends
  | .done none => exact fun _ => ⟨rfl, rfl⟩
  | .act o' k' => exact fun _ => ⟨rfl, rfl⟩

theorem callGrows {Good : Config (machine sup) → Event (machine sup) → Prop}
    {c c' : Config (machine sup)} (before : Reach Good (initially sup) c) (h : Reach Good c c')
    {index : Nat} {t : Task (machine sup)} (present : c.tasks[index]? = some t)
    (call : t.entry.isCall = true) :
    ∃ u, c'.tasks[index]? = some u ∧ u.entry = t.entry ∧ t.past <+: u.past := by
  induction h with
  | start => exact ⟨t, present, rfl, List.prefix_refl _⟩
  | @step c₁ e c₂ between good moves ih =>
    obtain ⟨u, found, entry, grown⟩ := ih
    cases moves with
    | call allowed =>
      refine ⟨u, ?_, entry, grown⟩
      rw [List.getElem?_append_left (List.getElem?_eq_some_iff.mp found).1, found]
    | @act moved choice t₁ o answer memory next performs =>
      by_cases same : index = moved
      · subst same
        cases Option.some.inj (found.symm.trans performs.present)
        have advanced := advanceCall (reachTrans before between) performs (entry ▸ call)
        refine ⟨_, movedTask performs.present, advanced.1.trans entry, ?_⟩
        rw [advanced.2]
        exact grown.trans (List.prefix_append _ _)
      · exact ⟨u, otherTask same found, entry, grown⟩
    | outside effect => exact ⟨u, found, entry, grown⟩

def SessionRecord.held (r : SessionRecord) :
    (SessionState × Option String × Option MaestroError × Option ExitCause) × BoundedBytes ×
      Option RunId :=
  (r.data.shown, r.stderr, r.data.activeRun)

def HeldAlike (m m' : Memory) (session : SessionId) : Prop :=
  ∀ record, m.sessions session = some record →
    ∃ record', m'.sessions session = some record' ∧ record'.held = record.held

theorem modestHeld {o choice} {m m' : Memory} {answer : o.Answer} (modest : o.Modest)
    (drawn : ∀ session record, m.sessions session = some record → session < m.fresh)
    (h : apply sup o choice m = some (answer, m')) : HeldAlike m m' session := by
  intro record found
  by_cases calls : ∃ s call, o = .session s call
  · obtain ⟨s, call, rfl⟩ := calls
    obtain ⟨before, after, found', performed, rfl⟩ := applySession h
    by_cases same : session = s
    · subst same
      cases Option.some.inj (found.symm.trans found')
      refine ⟨after, Function.update_self .., ?_⟩
      rcases modest with reads | rfl | rfl | ⟨binding, rfl⟩
      · cases call <;> first | exact reads.elim | (cases Option.some.inj performed; rfl)
      all_goals
        cases Option.some.inj performed
        rfl
    · exact ⟨record, (Function.update_of_ne same ..).trans found, rfl⟩
  by_cases creates : o = .createSession
  · subst creates
    simp only [apply] at h
    split at h <;> cases Option.some.inj h
    · exact ⟨record, found, rfl⟩
    · have old : session ≠ m.fresh := fun same => Nat.lt_irrefl _ (same ▸ drawn session record found)
      exact ⟨record, (Function.update_of_ne old ..).trans found, rfl⟩
  · exact ⟨record, (sessionsKept h creates fun call same => calls ⟨session, call, same⟩).trans found,
      rfl⟩

/-- Between two runs of a session the first one was completed. -/
def SessionRecord.OneAtATime (r : SessionRecord) : Prop :=
  r.installed.length + (if r.data.activeRun.isSome then 0 else 1) ≤ r.completions.length + 1

theorem performOneAtATime {record record' : SessionRecord} {call answer}
    (h : record.perform sup session call = some (answer, record')) (kept : record.OneAtATime) :
    record'.OneAtATime := by
  unfold SessionRecord.OneAtATime at kept ⊢
  cases call with
  | install run =>
    simp only [SessionRecord.perform] at h
    split at h <;> cases Option.some.inj h
    · exact kept
    · rename_i idle
      rw [if_neg idle] at kept
      simpa using kept
  | finalize run completion =>
    cases Option.some.inj h
    have least : ∀ active : Option RunId, (if active.isSome then 0 else 1) ≤ 1 := by
      intro active
      split <;> omega
    simp only [List.length_append, List.length_singleton]
    exact Nat.le_trans (Nat.add_le_add_left (least _) _) (by omega)
  | _ =>
    have same : record'.history = record.history := quietHistory (by trivial) h
    rw [show record'.installed = record.installed from congrArg History.installed same,
      show record'.data.activeRun = record.data.activeRun from congrArg History.activeRun same,
      show record'.completions = record.completions from congrArg History.completions same]
    exact kept

theorem reachOneAtATime {Good : Config (machine sup) → Event (machine sup) → Prop} {c}
    (h : Reach Good (initially sup) c) {record} (found : c.memory.sessions session = some record) :
    record.OneAtATime := by
  induction h generalizing record with
  | start => cases found
  | step before _ moves ih =>
    cases moves with
    | call allowed => exact ih found
    | act performs =>
      rcases recordCases performs.effect found with old | ⟨call, record₁, answer, -, old, performed⟩ |
        ⟨-, rfl⟩
      · exact ih old
      · exact performOneAtATime performed (ih old)
      · exact Nat.le_refl _
    | outside effect =>
      rcases outsideCases effect with ⟨_, _, rfl⟩ | ⟨_, _, _, _, _, _, rfl⟩ <;> exact ih found

theorem refusedHeld {c : Config (machine sup)} (h : Reach LaunchesIdle (initially sup) c)
    {index choice t o answer memory next c' u request}
    (performs : Performs c index choice t o answer memory next)
    (good : LaunchesIdle c (.run index choice))
    (later : Reach LaunchesIdle
      ⟨memory, c.tasks.set index (t.advance o answer next) ++ spawned o⟩ c')
    (present : c'.tasks[index]? = some u) (entry : t.entry = .resume session request)
    (refused : ∃ done ∈ u.past, Act.Refuses session done.1 done.2) :
    HeldAlike c.memory memory session := by
  have moves := Moves.act performs
  have before : Reach LaunchesIdle (initially sup) _ := .step h good moves
  have call : t.entry.isCall = true := by rw [entry]; rfl
  have advanced := advanceCall h performs call
  obtain ⟨u', found, kept, grown⟩ := callGrows before later (movedTask performs.present)
    (advanced.1 ▸ call)
  cases Option.some.inj (present.symm.trans found)
  have reached := reachTrans before later
  have holds := reachRacing reached
  have legal := reachLegal launchesSound rfl reached u (List.mem_of_getElem? present)
  have here : ((launches sup).place u).Here c'.memory := holds.here present
  have enter : (launches sup).enter u.entry = .calm := by
    rw [kept.trans (advanced.1.trans entry)]
    rfl
  rw [enter] at legal
  rcases refusedUnwritten (.inl rfl) legal refused with ⟨s, lost⟩ | modest
  · have place : (launches sup).place u = .lost s := by
      rw [← lost, ← enter]
      rfl
    rw [place] at here
    exact here.elim
  · rw [advanced.2] at grown
    have done : ⟨o, answer⟩ ∈ u.past := grown.subset (List.mem_append_right _ (List.mem_singleton_self _))
    exact modestHeld (modest _ done) (reachRacing h).inv performs.effect

/-- As long as no launch begins over an active run, a run is installed only after the one
before it was completed, and a refused resume leaves all that the session shows alone. -/
theorem resumesExclusive {c : Config (machine sup)} (h : Reach LaunchesIdle (initially sup) c) :
    (∀ session record, c.memory.sessions session = some record →
      record.installed.length ≤ record.completions.length + 1) ∧
    ∀ index choice t o answer memory next c' u session request,
      Performs c index choice t o answer memory next → LaunchesIdle c (.run index choice) →
      Reach LaunchesIdle ⟨memory, c.tasks.set index (t.advance o answer next) ++ spawned o⟩ c' →
      c'.tasks[index]? = some u → t.entry = .resume session request →
      (∃ done ∈ u.past, Act.Refuses session done.1 done.2) →
      HeldAlike c.memory memory session :=
  ⟨fun _ _ found => Nat.le_trans (Nat.le_add_right _ _) (reachOneAtATime h found),
    fun _ _ _ _ _ _ _ _ _ _ _ performs good later present entry refused =>
      refusedHeld h performs good later present entry refused⟩

end Soundness

section Late

def resumes (t : Task (machine (plain []))) : Bool :=
  match t.entry with
  | .resume 0 request' => request' = request
  | _ => false

theorem resumesEntry {t} (h : resumes t = true) : t.entry = .resume 0 request := by
  unfold resumes at h
  split at h
  · rename_i request' entry
    rw [entry, of_decide_eq_true h]
  · cases h

def refusedHere : ((o : Act) × o.Answer) → Bool
  | ⟨.session 0 .beginLaunch, began⟩ => began == false
  | ⟨.session 0 (.install _), won⟩ => won == false
  | _ => false

theorem refusedHereRefuses {done} (h : refusedHere done = true) : Act.Refuses 0 done.1 done.2 := by
  unfold refusedHere at h
  split at h
  · exact ⟨rfl, eq_of_beq h⟩
  · exact ⟨rfl, eq_of_beq h⟩
  · cases h

/-! The second of two resumes finds the launch flag taken. -/

def flagTurns : List (Event (machine (plain []))) :=
  startTurns 0 ++ turns 1 1 ++ endTurns 1 3 2 ++ finalizeTurns 1 ++
  [.call (.resume 0 request)] ++ turns 4 4 ++ [.call (.resume 0 request)] ++ turns 5 4 ++ turns 4 4

def flagView (c c' : Config (machine (plain []))) : Bool :=
  decide (LaunchesIdle c (.run 5 .go)) && (c.tasks[5]?).any resumes &&
    (c'.tasks[5]?).any fun u => u.past.any refusedHere

theorem flagRun : (goodRun LaunchesIdle (initially _) flagTurns).bind (fun c =>
    (step c (.run 5 .go)).map (flagView c)) = some true := by decide +kernel

theorem resumesExclusiveFlag : ∃ c c' : Config (machine (plain [])),
    Moves c (.run 5 .go) c' ∧ HeldAlike c.memory c'.memory 0 := by
  obtain ⟨c, ran, rest⟩ := Option.bind_eq_some_iff.mp flagRun
  obtain ⟨c', stepped, seen⟩ := Option.map_eq_some_iff.mp rest
  simp only [flagView, Bool.and_eq_true, decide_eq_true_eq, Option.any_eq_true, List.any_eq_true] at seen
  obtain ⟨⟨good, t, present, resumed⟩, u, present', done, member, refused⟩ := seen
  have moves := stepMoves stepped
  refine ⟨c, c', moves, ?_⟩
  cases moves with
  | act performs =>
    cases Option.some.inj (present.symm.trans performs.present)
    exact (resumesExclusive (reachGoodRun .start ran)).2 _ _ _ _ _ _ _ _ _ 0 request performs good
      .start present' (resumesEntry resumed) ⟨done, member, refusedHereRefuses refused⟩

/-! Run 2 has ended and two resumes find the session without a run. The first one launches
run 4, whose child writes to standard error; then the second one takes the launch flag,
begins to write and is refused at its install. -/

def raceTurns : List (Event (machine (plain []))) :=
  startTurns 0 ++ turns 1 1 ++ endTurns 1 3 2 ++ finalizeTurns 1 ++
  [.call (.resume 0 request)] ++ turns 4 4 ++ [.call (.resume 0 request)] ++ turns 5 4 ++
  launchTurns 4 ++ turns 6 1 ++ turn 8 (.stream (.data [66])) ++ turns 8 1 ++ turns 5 3

def refusedTurns : List (Event (machine (plain []))) :=
  turns 5 2 ++ turn 5 (.pid 8) ++ turn 5 (.io true) ++ turn 5 (.io true) ++ turns 5 2 ++
  [.outside (.childExits 6 (.ok (.exited 0)))] ++ turns 5 4

def stderrShown (c : Config (machine (plain []))) : Option (Bytes × Option RunId) :=
  (c.memory.sessions 0).map fun record => (record.stderr.bytes, record.data.activeRun)

def raceView (c c' c'' : Config (machine (plain []))) : Bool :=
  stderrShown c == some ([66], some 4) && stderrShown c' == some ([], some 4) &&
    (c.tasks[5]?).any resumes && (c''.tasks[5]?).any fun u => u.past.any refusedHere

theorem raceRun : (runFrom (initially _) raceTurns).bind (fun c => (step c (.run 5 .go)).bind fun c' =>
    (runFrom c' refusedTurns).map (raceView c c')) = some true := by decide +kernel

theorem refusedResumeWrites : ¬ ∀ (sup : Supervisor) (c c' : Config (machine sup)) index choice t o
    answer memory next u session request, Reach Always (initially sup) c →
      Performs c index choice t o answer memory next →
      Reach Always ⟨memory, c.tasks.set index (t.advance o answer next) ++ spawned o⟩ c' →
      c'.tasks[index]? = some u → t.entry = .resume session request →
      (∃ done ∈ u.past, Act.Refuses session done.1 done.2) →
      HeldAlike c.memory memory session := by
  intro held
  obtain ⟨c, ran, rest⟩ := Option.bind_eq_some_iff.mp raceRun
  obtain ⟨c', stepped, rest⟩ := Option.bind_eq_some_iff.mp rest
  obtain ⟨c'', ran', seen⟩ := Option.map_eq_some_iff.mp rest
  simp only [raceView, Bool.and_eq_true, beq_iff_eq, Option.any_eq_true, List.any_eq_true] at seen
  obtain ⟨⟨⟨before, after⟩, t, present, resumed⟩, u, present', done, member, refused⟩ := seen
  cases stepMoves stepped with
  | act performs =>
    cases Option.some.inj (present.symm.trans performs.present)
    have alike := held _ c c'' _ _ _ _ _ _ _ u 0 request (reachRun .start (fun _ _ => trivial) ran)
      performs (reachRun .start (fun _ _ => trivial) ran') present' (resumesEntry resumed)
      ⟨done, member, refusedHereRefuses refused⟩
    obtain ⟨record, found, shown⟩ := Option.map_eq_some_iff.mp before
    obtain ⟨record', found', shown'⟩ := Option.map_eq_some_iff.mp after
    obtain ⟨record₁, found₁, same⟩ := alike record found
    cases Option.some.inj (found'.symm.trans found₁)
    have stderr : record'.stderr = record.stderr := congrArg (fun shown => shown.2.1) same
    have written : record.stderr.bytes = [66] := congrArg Prod.fst shown
    have cleared : record.stderr.bytes = [] := stderr ▸ congrArg Prod.fst shown'
    rw [written] at cleared
    cases cleared

end Late
end Maestro.Session
