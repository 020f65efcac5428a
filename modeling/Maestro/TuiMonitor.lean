import Maestro.TerminalStages
import Maestro.Session
import Maestro.Stepping

/-! The monitor of an exact-TUI session beside the tasks of its terminal: what it records of the
end of the child. -/
namespace Maestro.Terminal
open Interleaving Prog Protocol

/-- `told` carries the cause a wait of the lifecycle answered, `final` comes behind the
finalisation, `waited` behind the supervisor's own wait for the child. -/
inductive Standing where
  | plain
  | told (cause : ExitCause)
  | final
  | supervising
  | waited (code : Nat)
  deriving DecidableEq

namespace Standing

def supervises : Standing → Bool
  | .supervising | .waited _ => true
  | _ => false

def hear (answer : Except String ExitCause) (q : Standing) : Standing :=
  match answer with
  | .ok cause => .told cause
  | .error _ => q

def may : Standing → Act → Prop
  | .told cause, .setFinal completion => completion = some (exitFromCause cause)
  | _, .setFinal completion => completion = none
  | q, .takePermit | q, .setClosed => q = .final
  | q, .childWait => q = .supervising
  | .waited code, .sendOutcome outcome =>
    outcome = .exited (.exited code) ∨ ∃ message, outcome = .failed message
  | .supervising, .sendOutcome outcome => ∃ message, outcome = .failed message
  | _, .sendOutcome _ => False
  | _, _ => True

def after : Standing → (o : Act) → o.Answer → Standing
  | q, .completedResult, some answer | q, .waitGrace, some answer => q.hear answer
  | q, .waitLifecycle, answer => q.hear answer
  | _, .setFinal _, _ => .final
  | _, .permitTaken, true => .final
  | .supervising, .childWait, .ok code => .waited code
  | _, .sendOutcome _, _ => .plain
  | q, _, _ => q

def enter : Entry → Standing
  | .superviseChild => .supervising
  | _ => .plain

end Standing

abbrev standings : Protocol machine where
  Place := Standing
  enter := Standing.enter
  may := Standing.may
  after := Standing.after
  ends _ := True

section Soundness
variable {q : Standing}

/-- What a wait that answered `result` leaves. -/
def Heard (result : Except String ExitCause) (q : Standing) : Prop :=
  match result with
  | .ok cause => q = .told cause
  | .error _ => q = .plain

theorem terminateStands : standings.Follows Heard .plain terminate := by
  have heard : ∀ result, Heard result (Standing.hear result .plain) := fun result => by
    cases result <;> rfl
  refine followsStep trivial fun completed => ?_
  cases completed with
  | some result => exact heard result
  | none =>
    refine followsStep trivial fun signalled => ?_
    cases signalled with
    | error message => rfl
    | ok _ =>
      refine followsStep trivial fun waited => ?_
      cases waited with
      | some result => exact heard result
      | none =>
        refine followsStep trivial fun sealed => ?_
        cases sealed with
        | error message => rfl
        | ok _ => exact ⟨trivial, fun result => heard result⟩

theorem finalizeStands (result : Except String ExitCause) (heard : Heard result q) :
    standings.Follows (fun _ q' => q' = .final) q (finalizeReaped (completion result)) := by
  refine followsStep (by cases result <;> cases heard <;> trivial) fun _ => ?_
  refine followsStep (by cases result <;> cases heard <;> trivial) fun _ => ?_
  refine followsStep (by cases result <;> cases heard <;> rfl) fun _ => ?_
  refine followsStep rfl fun taken => ?_
  cases taken with
  | true => exact followsStep trivial fun _ => followsStep trivial fun _ => rfl
  | false => exact followsStep trivial fun _ => rfl

theorem closeRemovedStands : standings.Follows standings.EntryPost .final closeRemoved :=
  followsStep rfl fun _ => followsStep trivial fun _ => followsStep trivial fun _ =>
    followsStep trivial fun _ => followsStep trivial fun _ => trivial

theorem launchStands (leased persisted : Bool) :
    standings.Follows standings.EntryPost .plain (launch leased persisted) := by
  have registers : standings.Follows (fun _ q => q = .plain) .plain (register persisted) := by
    unfold register
    split
    · exact ⟨trivial, fun _ => rfl⟩
    · rfl
  refine followsSeq registers fun registered q here => ?_
  subst here
  cases registered with
  | true => exact followsStep trivial fun _ => followsStep trivial fun _ => trivial
  | false =>
    refine followsSeq terminateStands fun result q heard => ?_
    cases result with
    | ok cause =>
      obtain rfl : q = .told cause := heard
      exact followsStep trivial fun _ => trivial
    | error message =>
      obtain rfl : q = .plain := heard
      dsimp only
      split
      · exact followsStep trivial fun _ => trivial
      · trivial

theorem outputReaderStands : standings.Follows standings.EntryPost .plain outputReader := by
  refine followsStep trivial fun data => ?_
  match data with
  | some [] =>
    refine followsStep trivial fun ended => ?_
    refine followsSeq (finalizeStands ended (by cases ended <;> rfl)) fun _ _ _ => trivial
  | some (_ :: _) => exact followsStep trivial fun _ => rfl
  | none =>
    exact followsSeq terminateStands fun ended q heard =>
      followsSeq (finalizeStands ended heard) fun _ _ _ => trivial

theorem superviseStands : standings.Follows standings.EntryPost .supervising superviseChild := by
  refine followsStep trivial fun observation => followsStep trivial fun cleanup => ?_
  have rest : standings.Follows standings.EntryPost .supervising (do
      let reaped ← perform .childWait
      let outcome : LifecycleOutcome := match observation, cleanup, reaped with
        | .error message, _, _ => .failed message
        | .ok _, .error message, _ => .failed message
        | .ok _, .ok _, .ok code => .exited (.exited code)
        | .ok _, .ok _, .error message => .failed message
      perform (.sendOutcome outcome)
      pure none) := by
    refine followsStep rfl fun reaped => ?_
    cases observation <;> cases cleanup <;> cases reaped <;>
      refine followsStep ?_ fun _ => trivial
    all_goals first | exact ⟨_, rfl⟩ | exact .inl rfl | exact .inr ⟨_, rfl⟩
  cases cleanup with
  | ok _ => exact rest
  | error message => exact followsStep trivial fun _ => rest

theorem readSnapshotStands (afterSequence maximumBytes : Nat) :
    standings.Stays .plain (readSnapshot afterSequence maximumBytes) := by
  refine followsStep trivial fun status => followsStep trivial fun polled => ?_
  cases polled <;> rfl

theorem readStands (afterSequence maximumBytes waitMilliseconds : Nat) :
    standings.Follows standings.EntryPost .plain (read afterSequence maximumBytes waitMilliseconds) := by
  unfold read
  split
  · trivial
  refine followsStep trivial fun found => ?_
  cases found with
  | false => trivial
  | true =>
    refine staysSeq (readSnapshotStands afterSequence maximumBytes) fun initial => ?_
    cases initial with
    | error error => trivial
    | ok initial =>
      dsimp only
      split
      · exact followsStep trivial fun _ => trivial
      · refine followsStep trivial fun _ =>
          staysSeq (readSnapshotStands afterSequence maximumBytes) fun final => ?_
        cases final with
        | error error => trivial
        | ok final => exact followsStep trivial fun _ => trivial

theorem waitForCompletionStands : standings.Follows standings.EntryPost .plain waitForCompletion := by
  refine followsStep trivial fun found => ?_
  cases found with
  | false => trivial
  | true =>
    refine followsStep trivial fun status => ?_
    dsimp only
    split
    · exact followsStep trivial fun _ => rfl
    · trivial

theorem closeStands : standings.Follows standings.EntryPost .plain close := by
  refine followsStep trivial fun found => ?_
  cases found with
  | false => trivial
  | true =>
    refine followsStep trivial fun _ => followsStep trivial fun still => ?_
    cases still with
    | false => exact followsStep trivial fun _ => trivial
    | true =>
      refine followsStep trivial fun _ => followsStep trivial fun _ => followsStep trivial fun taken => ?_
      cases taken with
      | true => exact followsStep trivial fun _ => closeRemovedStands
      | false =>
        refine followsStep trivial fun _ => followsSeq terminateStands fun result q heard => ?_
        cases result with
        | ok cause =>
          refine followsSeq (finalizeStands (.ok cause) heard) fun _ q' here => ?_
          subst here
          exact closeRemovedStands
        | error message =>
          obtain rfl : q = .plain := heard
          refine followsStep trivial fun _ => followsStep trivial fun taken => ?_
          cases taken with
          | true => exact followsStep trivial fun _ => closeRemovedStands
          | false =>
            exact followsStep trivial fun _ => followsStep trivial fun _ => followsStep trivial fun _ => trivial

theorem standingsSound : standings.Sound := by
  intro e
  cases e with
  | launch leased persisted => exact launchStands leased persisted
  | superviseChild => exact superviseStands
  | outputReader => exact outputReaderStands
  | retain =>
    refine followsStep trivial fun ended => ?_
    cases ended <;> exact followsStep trivial fun _ => trivial
  | read afterSequence maximumBytes wait => exact readStands afterSequence maximumBytes wait
  | waitForCompletion => exact waitForCompletionStands
  | close => exact closeStands

end Soundness

/-- The child was reaped, and the terminal shows its exit. -/
structure Settled (m : TerminalSession) : Prop where
  reaped : m.reaped = true
  exit : ∃ cause, m.outcome = .exited cause ∧ m.exit = some (exitFromCause cause)

structure Ending (m : TerminalSession) : Prop where
  permit : m.permit = false → Settled m
  shown : m.state = .exited ∨ m.state = .closed → Settled m
  failed : m.state ≠ .failed
  outcome : ∀ cause, m.outcome = .exited cause → m.reaped = true

def Standing.Here : Standing → TerminalSession → Prop
  | .plain, _ => True
  | .told cause, m => m.outcome = .exited cause
  | .final, m => Settled m
  | .supervising, m => m.outcome = .running
  | .waited _, m => m.outcome = .running ∧ m.reaped = true

abbrev ending : Outline standings where
  Inv := Ending
  Here := Standing.Here
  Apart q other := ¬ (q.supervises = true ∧ other.supervises = true)

/-- A failed termination is noted, or the terminal is finalised without an exit. -/
def failsOver : Act → Bool
  | .setFailed | .setFinal none => true
  | _ => false

structure SameEnd (m m' : TerminalSession) : Prop where
  permit : m'.permit = m.permit
  state : m'.state = m.state
  exit : m'.exit = m.exit
  outcome : m'.outcome = m.outcome
  reaped : m'.reaped = m.reaped

def Act.MovesEnd : Act → Prop
  | .setFinal _ | .takePermit | .setFailed | .requestClose | .setClosed | .childWait | .sendOutcome _ => True
  | _ => False

section Steps
variable {m m' : TerminalSession} {q q' other : Standing} {choice : Choice}

theorem settledSame (same : SameEnd m m') (settled : Settled m) : Settled m' := by
  obtain ⟨reaped, cause, outcome, exit⟩ := settled
  exact ⟨same.reaped.trans reaped, cause, same.outcome.trans outcome, same.exit.trans exit⟩

theorem endingSame (same : SameEnd m m') (inv : Ending m) : Ending m' where
  permit := fun taken => settledSame same (inv.permit (same.permit.symm.trans taken))
  shown := fun shown => settledSame same (inv.shown (same.state ▸ shown))
  failed := same.state ▸ inv.failed
  outcome := fun cause ended => same.reaped.trans (inv.outcome cause (same.outcome.symm.trans ended))

theorem hereSame (same : SameEnd m m') (here : q.Here m) : q.Here m' := by
  cases q with
  | plain => trivial
  | told cause => exact same.outcome.trans here
  | final => exact settledSame same here
  | supervising => exact same.outcome.trans here
  | waited code => exact ⟨same.outcome.trans here.1, same.reaped.trans here.2⟩

theorem signalSameEnd (active : Bool) : SameEnd m (m.signal active).2 := by
  unfold TerminalSession.signal
  split <;> exact ⟨rfl, rfl, rfl, rfl, rfl⟩

theorem releaseSameEnd (holder : Lease) : SameEnd m (m.release holder) := by
  unfold TerminalSession.release
  split <;> exact ⟨rfl, rfl, rfl, rfl, rfl⟩

theorem appliedSameEnd {o : Act} {answer : o.Answer} (still : ¬ o.MovesEnd)
    (applied : apply o choice m = some (answer, m')) : SameEnd m m' := by
  cases o
  case setFinal | takePermit | setFailed | requestClose | setClosed | childWait | sendOutcome =>
    exact absurd trivial still
  case dropLease holder =>
    cases applied
    exact releaseSameEnd holder
  case groupTerminate =>
    have same : (m.signal m.groupActive).2 = m' := congrArg Prod.snd (Option.some.inj applied)
    exact same ▸ signalSameEnd m.groupActive
  case groupSeal =>
    have same : (m.signal false).2 = m' := congrArg Prod.snd (Option.some.inj applied)
    exact same ▸ signalSameEnd false
  case waitLifecycle =>
    obtain ⟨_, _, same⟩ := Option.map_eq_some_iff.mp applied
    cases same
    exact ⟨rfl, rfl, rfl, rfl, rfl⟩
  case lockFinalization | lockOperation =>
    simp only [apply] at applied
    split at applied <;> cases applied
    exact ⟨rfl, rfl, rfl, rfl, rfl⟩
  case waitGrace =>
    cases choice
    case elapsed => cases applied; exact ⟨rfl, rfl, rfl, rfl, rfl⟩
    all_goals
      obtain ⟨_, _, same⟩ := Option.map_eq_some_iff.mp applied
      cases same
      exact ⟨rfl, rfl, rfl, rfl, rfl⟩
  case readPty =>
    cases choice
    case data bytes =>
      simp only [apply] at applied
      split at applied <;> cases applied
      exact ⟨rfl, rfl, rfl, rfl, rfl⟩
    all_goals cases applied
    exact ⟨rfl, rfl, rfl, rfl, rfl⟩
  case registerTerminal | waitForLeaderExit =>
    cases choice <;> cases applied <;> exact ⟨rfl, rfl, rfl, rfl, rfl⟩
  all_goals
    cases applied
    exact ⟨rfl, rfl, rfl, rfl, rfl⟩

theorem waitedOutcome {cause : ExitCause} (waited : m.waited = some (.ok cause)) :
    m.outcome = .exited cause := by
  unfold TerminalSession.waited at waited
  cases ended : m.outcome with
  | running =>
    rw [ended] at waited
    simp only [outcomeResult, Option.ite_none_right_eq_some, Option.some.injEq] at waited
    cases waited.2
  | exited other =>
    rw [ended] at waited
    cases waited
    rfl
  | failed message =>
    rw [ended] at waited
    cases waited

theorem hearHere {answer : Except String ExitCause} (here : q.Here m)
    (known : ∀ cause, answer = .ok cause → m.outcome = .exited cause) : (q.hear answer).Here m := by
  cases answer with
  | ok cause => exact known cause rfl
  | error message => exact here

theorem hearLess {answer : Except String ExitCause} (less : (q.hear answer).supervises = true) :
    q.supervises = true := by
  cases answer with
  | ok cause => cases less
  | error message => exact less

theorem keptEnd {spawned : Option Entry} (inv : Ending m') (here : q'.Here m')
    (spawns : ∀ e, spawned = some e → Standing.enter e = .plain)
    (others : ∀ other : Standing, other.Here m → ¬ (q.supervises = true ∧ other.supervises = true) →
      other.Here m')
    (less : q'.supervises = true → q.supervises = true) : ending.Kept m m' q q' spawned where
  inv := inv
  here := here
  entered := fun e same => by
    change (Standing.enter e).Here m' ∧ ¬ (_ ∧ (Standing.enter e).supervises = true)
    rw [spawns e same]
    exact ⟨trivial, fun both => Bool.false_ne_true both.2⟩
  others := fun other theirs apart => ⟨others other theirs apart,
    fun both => apart ⟨less both.1, both.2⟩, fun e same both => by
      change (Standing.enter e).supervises = true ∧ _ at both
      rw [spawns e same] at both
      exact Bool.false_ne_true both.1⟩

theorem spawnsPlain {o : Act} (e : Entry) (spawned : spawns o = some e) : Standing.enter e = .plain := by
  cases o <;> cases spawned <;> rfl

theorem afterSameEnd {o : Act} {answer : o.Answer} (still : ¬ o.MovesEnd) (here : q.Here m)
    (inv : Ending m) (applied : apply o choice m = some (answer, m')) :
    (q.after o answer).Here m ∧ ((q.after o answer).supervises = true → q.supervises = true) := by
  cases o
  case setFinal | takePermit | setFailed | requestClose | setClosed | childWait | sendOutcome =>
    exact absurd trivial still
  case completedResult =>
    cases answer with
    | none => exact ⟨here, id⟩
    | some result =>
      have found : outcomeResult m.outcome = some result := congrArg Prod.fst (Option.some.inj applied)
      refine ⟨hearHere here fun cause same => ?_, hearLess⟩
      subst same
      cases ended : m.outcome <;> rw [ended] at found <;> cases found
      rfl
  case waitLifecycle =>
    obtain ⟨result, waited, same⟩ := Option.map_eq_some_iff.mp applied
    cases same
    exact ⟨hearHere here fun cause same => waitedOutcome (same ▸ waited), hearLess⟩
  case waitGrace =>
    cases answer with
    | none => exact ⟨here, id⟩
    | some result =>
      have waited : m.waited = some result := by
        cases choice
        case elapsed => cases applied
        all_goals
          obtain ⟨_, waited, same⟩ := Option.map_eq_some_iff.mp applied
          cases same
          exact waited
      exact ⟨hearHere here fun cause same => waitedOutcome (same ▸ waited), hearLess⟩
  case permitTaken =>
    cases answer with
    | false => exact ⟨here, id⟩
    | true =>
      have taken : (!m.permit) = true := congrArg Prod.fst (Option.some.inj applied)
      exact ⟨inv.permit (by simpa using taken), nofun⟩
  all_goals exact ⟨here, id⟩

theorem endingAct {o : Act} {answer : o.Answer} (inv : Ending m) (here : q.Here m) (may : q.may o)
    (fine : failsOver o = false) (applied : apply o choice m = some (answer, m')) :
    ending.Kept m m' q (q.after o answer) (spawns o) := by
  by_cases moves : o.MovesEnd
  · cases o <;> try exact moves.elim
    case setFailed => cases fine
    case setFinal completion =>
      cases completion with
      | none => cases fine
      | some exit =>
        cases applied
        cases q with
        | plain | final | supervising | waited _ => cases may
        | told cause =>
          cases may
          have outcome : m.outcome = .exited cause := here
          have settled : Settled (m.finish (some (exitFromCause cause))) :=
            ⟨inv.outcome cause outcome, cause, outcome, rfl⟩
          refine keptEnd ⟨fun _ => settled, fun _ => settled, ?_, inv.outcome⟩ settled spawnsPlain
            (fun other theirs _ => ?_) nofun
          · change (if m.closeRequested then TerminalState.closed else .exited) ≠ .failed
            split <;> nofun
          · cases other with
            | final => exact settled
            | plain | told _ | supervising | waited _ => exact theirs
    case takePermit =>
      cases applied
      cases q with
      | plain | told _ | supervising | waited _ => cases may
      | final =>
        have settled : Settled m := here
        exact keptEnd ⟨fun _ => ⟨settled.reaped, settled.exit⟩, fun shown => ⟨(inv.shown shown).reaped, (inv.shown shown).exit⟩,
          inv.failed, inv.outcome⟩ ⟨settled.reaped, settled.exit⟩ spawnsPlain
          (fun other theirs _ => by cases other <;> first | exact theirs | exact ⟨theirs.reaped, theirs.exit⟩) nofun
    case requestClose =>
      cases applied
      have settledKept : Settled m → Settled m.requestClose := fun settled => ⟨settled.reaped, settled.exit⟩
      refine keptEnd ⟨fun taken => settledKept (inv.permit taken), fun shown => ?_, ?_, inv.outcome⟩
        (by cases q <;> first | exact here | exact settledKept here) spawnsPlain
        (fun other theirs _ => by cases other <;> first | exact theirs | exact settledKept theirs) id
      · change (if _ then _ else _) = _ ∨ (if _ then _ else _) = _ at shown
        split at shown
        · exact settledKept (inv.shown shown)
        · rcases shown with shown | shown <;> cases shown
      · change (if _ then _ else _) ≠ _
        split
        · exact inv.failed
        · nofun
    case setClosed =>
      cases applied
      cases q with
      | plain | told _ | supervising | waited _ => cases may
      | final =>
        have settled : Settled { m with state := .closed } := ⟨here.reaped, here.exit⟩
        exact keptEnd ⟨fun _ => settled, fun _ => settled, nofun, inv.outcome⟩ settled spawnsPlain
          (fun other theirs _ => by cases other <;> first | exact theirs | exact ⟨theirs.reaped, theirs.exit⟩) nofun
    case childWait =>
      cases q with
      | plain | told _ | final | waited _ => cases may
      | supervising =>
        have running : m.outcome = .running := here
        cases choice <;> try cases applied
        case code code =>
          simp only [apply] at applied
          split at applied <;> cases applied
          · exact keptEnd inv running spawnsPlain (fun _ theirs _ => theirs) id
          · refine keptEnd ⟨fun taken => ⟨rfl, (inv.permit taken).exit⟩, fun shown => ⟨rfl, (inv.shown shown).exit⟩,
              inv.failed, fun _ _ => rfl⟩ ⟨running, rfl⟩ spawnsPlain (fun other theirs _ => ?_) fun _ => rfl
            cases other with
            | plain => trivial
            | told cause => exact theirs
            | final => exact ⟨rfl, theirs.exit⟩
            | supervising => exact theirs
            | waited code => exact ⟨theirs.1, rfl⟩
    case sendOutcome outcome =>
      cases applied
      have running : m.outcome = .running ∧ ∀ cause, outcome = .exited cause → m.reaped = true := by
        cases q <;> try exact may.elim
        case supervising =>
          obtain ⟨message, rfl⟩ := may
          exact ⟨here, nofun⟩
        case waited code => exact ⟨here.1, fun _ _ => here.2⟩
      have unsettled : ¬ Settled m := fun settled => by
        obtain ⟨cause, ended, _⟩ := settled.exit
        rw [running.1] at ended
        cases ended
      have mine : q.supervises = true := by cases q <;> first | rfl | exact may.elim
      refine keptEnd ⟨fun taken => absurd (inv.permit taken) unsettled,
        fun shown => absurd (inv.shown shown) unsettled, inv.failed, running.2⟩ trivial spawnsPlain
        (fun other theirs apart => ?_) nofun
      cases other with
      | plain => trivial
      | told cause =>
        have ended : m.outcome = .exited cause := theirs
        rw [running.1] at ended
        cases ended
      | final => exact absurd theirs unsettled
      | supervising | waited _ => exact absurd ⟨mine, rfl⟩ apart
  · have same := appliedSameEnd moves applied
    have after := afterSameEnd moves here inv applied
    exact keptEnd (endingSame same inv) (hereSame same after.1) spawnsPlain
      (fun other theirs _ => hereSame same theirs) after.2

theorem outsideSameEnd {x : Outside} (happened : outside x m = some m') : SameEnd m m' := by
  cases x
  case prune =>
    simp only [outside] at happened
    split at happened <;> cases happened
    exact ⟨rfl, rfl, rfl, rfl, rfl⟩
  all_goals
    cases happened
    exact ⟨rfl, rfl, rfl, rfl, rfl⟩

theorem endingValid : ending.Valid fun _ o _ => failsOver o = false where
  symm := mt And.symm
  call := fun {e m} callable _ => by
    have plain : Standing.enter e = .plain := by cases e <;> first | rfl | cases callable
    change (Standing.enter e).Here m ∧ ∀ other : Standing, _ → ¬ ((Standing.enter e).supervises = true ∧ _)
    rw [plain]
    exact ⟨trivial, fun _ _ both => Bool.false_ne_true both.1⟩
  act := fun inv here may fine applied => endingAct inv here may fine applied
  outside := fun inv happened =>
    have same := outsideSameEnd happened
    ⟨endingSame same inv, fun _ here => hereSame same here⟩

theorem launchedEnding (id : TerminalId) (leased persisted : Bool) :
    ending.Holds (launched id leased persisted) := by
  refine Outline.holdsPair standingsSound (mt And.symm) ⟨nofun, ?_, nofun, nofun⟩
    trivial rfl fun both => Bool.false_ne_true both.1
  rintro (shown | shown) <;> cases shown

end Steps

def terminalNotFound : MaestroError := .new .terminalNotFound "terminal does not exist"

def terminalSessionState (status : TerminalStatus) : SessionState :=
  match status.state with
  | .closed | .closing => .stopped
  | .exited => if status.exit.any (·.code == some 0) then .completed else .failed
  | .failed => .failed
  | .running => .interrupted

def terminalRunExit : Option TerminalExit → Session.PersistedRunExit
  | some ⟨some code, _⟩ => .exited code
  | some ⟨none, some signal⟩ => .signaled signal
  | some ⟨none, none⟩ | none => .unknown

/-- What `persist_tui_completion` gives to `finish_session_run`. -/
def completionRow : Except MaestroError TerminalStatus → Session.FinishedRun
  | .ok status => ⟨terminalSessionState status, terminalRunExit status.exit, none⟩
  | .error _ => ⟨.failed, .unknown, none⟩

inductive MonitorStage where
  | starting
  | waiting
  | returned (result : Except MaestroError TerminalStatus)
  | stored (result : Except MaestroError TerminalStatus)
  | recorded
  | done

/-- A session in exact-TUI mode: its terminal, how far its monitor is, the results recorded as
`process_exited` and by `finish_session_run`, and whether clients can still attach. -/
structure Monitored where
  terminal : Config machine
  monitor : MonitorStage
  processExited : List (Except MaestroError TerminalStatus)
  finished : List Session.FinishedRun
  attachable : Bool

inductive MonitoredEvent where
  | terminal (event : Event machine)
  | monitor (stores : Bool)

/-- A wait for the terminal looks for it once; a write that is not stored ends the recording. -/
def monitorStep (m : Monitored) (stores : Bool) : Option Monitored :=
  match m.monitor with
  | .starting =>
    if m.terminal.memory.listed then some { m with monitor := .waiting }
    else some { m with monitor := .returned (.error terminalNotFound) }
  | .waiting =>
    let status := m.terminal.memory.currentStatus
    if status.state = .running ∨ status.state = .closing then some m
    else some { m with monitor := .returned (.ok status) }
  | .returned result =>
    if stores then some { m with processExited := result :: m.processExited, monitor := .stored result }
    else some { m with monitor := .recorded }
  | .stored result =>
    if stores then some { m with finished := completionRow result :: m.finished, monitor := .recorded }
    else some { m with monitor := .recorded }
  | .recorded => some { m with attachable := false, monitor := .done }
  | .done => none

def monitoredStep (m : Monitored) : MonitoredEvent → Option Monitored
  | .terminal event => (Interleaving.step m.terminal event).map fun terminal => { m with terminal }
  | .monitor stores => monitorStep m stores

def openedTui (id : TerminalId) (leased persisted : Bool) : Monitored :=
  ⟨launched id leased persisted, .starting, [], [], true⟩

def conclusive (c : Config machine) : Event machine → Bool
  | .run index _ =>
    match c.tasks[index]? with
    | none => true
    | some t =>
      match t.next with
      | none => true
      | some o => !failsOver o
  | _ => true

/-- No failed termination is noted, no end without an exit, and the monitor finds the terminal. -/
def Heeds (m : Monitored) : MonitoredEvent → Prop
  | .terminal event => conclusive m.terminal event = true
  | .monitor _ => (match m.monitor with | .starting => m.terminal.memory.listed | _ => true) = true

instance : ∀ m event, Decidable (Heeds m event)
  | m, .terminal event => inferInstanceAs (Decidable (conclusive m.terminal event = true))
  | m, .monitor _ => inferInstanceAs
      (Decidable ((match m.monitor with | .starting => m.terminal.memory.listed | _ => true) = true))

/-- The exit is that of the child, which was reaped. -/
def TrueExit (m : TerminalSession) (exit : Option TerminalExit) : Prop :=
  m.reaped = true ∧ ∃ cause, m.outcome = .exited cause ∧ exit = some (exitFromCause cause)

/-- What is recorded of the end, and that the session is gone from the table, comes behind the
reaping, and the recorded exits are the child's. -/
structure RecordsEnd (m : Monitored) : Prop where
  events : ∀ result ∈ m.processExited, ∃ status, result = .ok status ∧
    TrueExit m.terminal.memory status.exit
  rows : ∀ row ∈ m.finished, ∃ exit, TrueExit m.terminal.memory exit ∧ row.exit = terminalRunExit exit
  removed : m.attachable = false → m.terminal.memory.reaped = true

section Monitoring
variable {m m' : Monitored} {c c' : Config machine}

theorem outcomeApplied {o : Act} {choice : Choice} {answer : o.Answer} {s s' : TerminalSession}
    (silent : ∀ outcome, o ≠ .sendOutcome outcome) (applied : apply o choice s = some (answer, s')) :
    s'.outcome = s.outcome ∧ (s.reaped = true → s'.reaped = true) := by
  by_cases moves : o.MovesEnd
  · cases o <;> try exact moves.elim
    case sendOutcome outcome => exact absurd rfl (silent outcome)
    case childWait =>
      cases choice <;> try cases applied
      simp only [apply] at applied
      split at applied <;> cases applied
      · exact ⟨rfl, id⟩
      · exact ⟨rfl, fun _ => rfl⟩
    case setFinal completion =>
      cases applied
      cases completion <;> exact ⟨rfl, id⟩
    all_goals
      cases applied
      exact ⟨rfl, id⟩
  · have same := appliedSameEnd moves applied
    exact ⟨same.outcome, fun reaped => same.reaped.trans reaped⟩

theorem exitStays (holds : ending.Holds c) {event : Event machine} (moves : Moves c event c')
    {exit : Option TerminalExit} (here : TrueExit c.memory exit) : TrueExit c'.memory exit := by
  obtain ⟨reaped, cause, outcome, same⟩ := here
  cases moves with
  | call allowed => exact ⟨reaped, cause, outcome, same⟩
  | @outside x s happened =>
    have alike := outsideSameEnd happened
    exact ⟨alike.reaped.trans reaped, cause, alike.outcome.trans outcome, same⟩
  | @act index choice t o answer memory next performs =>
    have silent : ∀ sent, o ≠ .sendOutcome sent := by
      rintro sent rfl
      have may := (performsObeys standingsSound holds.placed performs).allowed
      have mine := holds.here performs.present
      cases q : standings.place t <;> rw [q] at may mine <;> try exact may.elim
      case supervising =>
        have running : c.memory.outcome = .running := mine
        rw [running] at outcome
        cases outcome
      case waited code =>
        rw [show c.memory.outcome = .running from mine.1] at outcome
        cases outcome
    have kept := outcomeApplied silent performs.effect
    exact ⟨kept.2 reaped, cause, kept.1.trans outcome, same⟩

structure Attends (m : Monitored) : Prop where
  terminal : ending.Holds m.terminal
  records : RecordsEnd m
  returned : ∀ result, m.monitor = .returned result ∨ m.monitor = .stored result →
    ∃ status, result = .ok status ∧ TrueExit m.terminal.memory status.exit
  later : m.monitor = .recorded → m.terminal.memory.reaped = true

theorem attendsTerminal (attends : Attends m) (holds : ending.Holds c)
    (stays : ∀ exit, TrueExit m.terminal.memory exit → TrueExit c.memory exit)
    (reaped : m.terminal.memory.reaped = true → c.memory.reaped = true) :
    Attends { m with terminal := c } where
  terminal := holds
  records := by
    refine ⟨fun result member => ?_, fun row member => ?_, fun gone => reaped (attends.records.removed gone)⟩
    · obtain ⟨status, same, exit⟩ := attends.records.events result member
      exact ⟨status, same, stays _ exit⟩
    · obtain ⟨exit, here, same⟩ := attends.records.rows row member
      exact ⟨exit, stays _ here, same⟩
  returned := fun result stage => by
    obtain ⟨status, same, exit⟩ := attends.returned result stage
    exact ⟨status, same, stays _ exit⟩
  later := fun stage => reaped (attends.later stage)

theorem reapedStays {event : Event machine} (moves : Moves c event c')
    (reaped : c.memory.reaped = true) : c'.memory.reaped = true := by
  cases moves with
  | call allowed => exact reaped
  | @outside x s happened => exact (outsideSameEnd happened).reaped.trans reaped
  | @act index choice t o answer memory next performs =>
    by_cases sends : ∃ outcome, o = .sendOutcome outcome
    · obtain ⟨outcome, rfl⟩ := sends
      cases performs.effect
      exact reaped
    · exact (outcomeApplied (fun outcome same => sends ⟨outcome, same⟩) performs.effect).2 reaped

theorem conclusiveHere {index : Nat} {choice : Choice} {t : Task machine} {o : Act} {answer : o.Answer}
    {memory : TerminalSession} {next : Program (Option Entry)}
    (heeds : conclusive c (.run index choice) = true)
    (performs : Performs c index choice t o answer memory next) : failsOver o = false := by
  simp only [conclusive, performs.present, performsNext performs] at heeds
  simpa using heeds

theorem attendsMonitor {stores : Bool} (attends : Attends m) (heeds : Heeds m (.monitor stores))
    (steps : monitorStep m stores = some m') : Attends m' := by
  obtain ⟨holds, records, returned, later⟩ := attends
  unfold monitorStep at steps
  cases stage : m.monitor with
  | starting =>
    rw [stage] at steps
    have listed : m.terminal.memory.listed = true := by
      simpa only [Heeds, stage] using heeds
    simp only [listed, if_true] at steps
    cases steps
    exact ⟨holds, ⟨records.events, records.rows, records.removed⟩, fun _ => (nomatch ·), nofun⟩
  | waiting =>
    rw [stage] at steps
    dsimp only at steps
    split at steps
    · cases steps
      exact ⟨holds, records, returned, later⟩
    · rename_i ended
      cases steps
      have shown : TrueExit m.terminal.memory m.terminal.memory.exit := by
        have settled : Settled m.terminal.memory := holds.inv.shown (by
          have failed := holds.inv.failed
          cases state : m.terminal.memory.state
          case running => exact absurd (.inl state) ended
          case closing => exact absurd (.inr state) ended
          case exited => exact .inl rfl
          case closed => exact .inr rfl
          case failed => exact absurd state failed)
        exact ⟨settled.reaped, settled.exit⟩
      refine ⟨holds, ⟨records.events, records.rows, records.removed⟩, fun result stage => ?_, nofun⟩
      rcases stage with stage | stage <;> cases stage
      exact ⟨_, rfl, shown⟩
  | returned result =>
    rw [stage] at steps
    obtain ⟨status, rfl, exit⟩ := returned result (.inl stage)
    dsimp only at steps
    split at steps <;> cases steps
    · refine ⟨holds, ⟨fun other member => ?_, records.rows, records.removed⟩, fun other stage => ?_, nofun⟩
      · rcases List.mem_cons.mp member with rfl | older
        · exact ⟨status, rfl, exit⟩
        · exact records.events other older
      · rcases stage with stage | stage <;> cases stage
        exact ⟨status, rfl, exit⟩
    · exact ⟨holds, ⟨records.events, records.rows, records.removed⟩, fun _ => (by rintro (stage | stage) <;> cases stage),
        fun _ => exit.1⟩
  | stored result =>
    rw [stage] at steps
    obtain ⟨status, rfl, exit⟩ := returned result (.inr stage)
    dsimp only at steps
    split at steps <;> cases steps
    · refine ⟨holds, ⟨records.events, fun row member => ?_, records.removed⟩,
        fun _ => (by rintro (stage | stage) <;> cases stage), fun _ => exit.1⟩
      rcases List.mem_cons.mp member with rfl | older
      · exact ⟨status.exit, exit, rfl⟩
      · exact records.rows row older
    · exact ⟨holds, ⟨records.events, records.rows, records.removed⟩, fun _ => (by rintro (stage | stage) <;> cases stage),
        fun _ => exit.1⟩
  | recorded =>
    rw [stage] at steps
    cases steps
    exact ⟨holds, ⟨records.events, records.rows, fun _ => later stage⟩,
      fun _ => (by rintro (stage | stage) <;> cases stage), nofun⟩
  | done =>
    rw [stage] at steps
    cases steps

theorem attendsStep {event : MonitoredEvent} (attends : Attends m) (heeds : Heeds m event)
    (steps : monitoredStep m event = some m') : Attends m' := by
  cases event with
  | monitor stores => exact attendsMonitor attends heeds steps
  | terminal event =>
    obtain ⟨terminal, stepped, rfl⟩ := Option.map_eq_some_iff.mp steps
    have moves := stepMoves stepped
    refine attendsTerminal attends ?_ (fun exit => exitStays attends.terminal moves) (reapedStays moves)
    exact Outline.holdsMoves standingsSound endingValid attends.terminal moves fun same performs =>
      conclusiveHere (same ▸ heeds) performs

/-- In a run in which no failed termination is noted, no end is published without an exit and the
monitor finds its terminal, the end is recorded behind the reaping, with the child's exit. -/
theorem tuiRecordsEnd {id : TerminalId} {leased persisted : Bool}
    (reached : Stepping.Reach monitoredStep Heeds (openedTui id leased persisted) m) : RecordsEnd m := by
  have recorded : RecordsEnd (openedTui id leased persisted) :=
    ⟨fun _ member => absurd member List.not_mem_nil, fun _ member => absurd member List.not_mem_nil, nofun⟩
  have first : Attends (openedTui id leased persisted) :=
    ⟨launchedEnding id leased persisted, recorded, fun _ => (by rintro (stage | stage) <;> cases stage), nofun⟩
  exact (Stepping.reachInvariant reached first attendsStep).records

end Monitoring

/-! The system refuses the signal of a close, and the monitor records an end of a child that
lives. -/

def inTerminal (events : List (Event machine)) : List MonitoredEvent := events.map .terminal

def monitors (count : Nat) : List MonitoredEvent := List.replicate count (.monitor true)

def refusedClose : List MonitoredEvent :=
  inTerminal [.run 0 .go, .run 0 .go] ++ monitors 1 ++
    inTerminal (.outside (.signals true) :: .call .close :: List.replicate 12 (.run 3 .go)) ++ monitors 4

theorem refusedCloseRun : (Stepping.run monitoredStep (fun _ _ => True) (openedTui 0 false false) refusedClose).map
    (fun m => (m.attachable, m.terminal.memory.reaped)) = some (false, false) := by decide

theorem tuiRecordsAlive : ¬ ∀ (id : TerminalId) (leased persisted : Bool) (m : Monitored),
    Stepping.Reach monitoredStep (fun _ _ => True) (openedTui id leased persisted) m → RecordsEnd m := by
  intro claim
  obtain ⟨m, ran, shown⟩ := Option.map_eq_some_iff.mp refusedCloseRun
  have gone : m.attachable = false := congrArg Prod.fst shown
  have alive : m.terminal.memory.reaped = false := congrArg Prod.snd shown
  have reaped := (claim 0 false false m (Stepping.reachRun .start ran)).removed gone
  exact Bool.false_ne_true (alive.symm.trans reaped)

/-! The child exits with code 3. -/

def exitsWithThree : List MonitoredEvent :=
  inTerminal [.run 0 .go, .run 0 .go] ++ monitors 1 ++
    inTerminal ([.run 1 .go, .run 1 .go, .run 1 (.code 3), .run 1 .go, .run 2 (.data [])] ++
      List.replicate 5 (.run 2 .go)) ++ monitors 4

theorem exitsRun : (Stepping.run monitoredStep Heeds (openedTui 0 false false) exitsWithThree).map
    (fun m => (m.attachable, m.finished)) =
      some (false, [⟨.failed, .exited 3, none⟩]) := by decide

theorem tuiRecordsEndThree : ∃ m : Monitored, m.attachable = false ∧ m.finished = [⟨.failed, .exited 3, none⟩] ∧
    RecordsEnd m := by
  obtain ⟨m, ran, shown⟩ := Option.map_eq_some_iff.mp exitsRun
  exact ⟨m, congrArg Prod.fst shown, congrArg Prod.snd shown, tuiRecordsEnd (Stepping.reachRun .start ran)⟩

end Maestro.Terminal
