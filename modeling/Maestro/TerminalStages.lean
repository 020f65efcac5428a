import Maestro.TerminalSession

/-! How far a task of a terminal has come: which of them own the stream, who knows that the
child has ended, and what a read holds in its hands. -/
namespace Maestro.Terminal
open Interleaving Prog Protocol

/-- A `Bool` says whether the end of the child was learned. -/
inductive Stage where
  | plain
  | launching (told : Bool)
  | reading
  | finishing (told : Bool)
  | closing (told : Bool)
  | retaining (told : Bool)
  | supervising (told : Bool)
  | shown (status : TerminalStatus)
  | holding (status : TerminalStatus) (afterSequence : Nat) (answer : PollResult)
  deriving DecidableEq, Repr

namespace Stage

def owns : Stage → Bool
  | .launching _ | .reading | .finishing _ => true
  | _ => false

def feeds : Stage → Bool
  | .launching _ | .reading => true
  | _ => false

def told : Stage → Bool
  | .launching t | .finishing t | .closing t | .retaining t | .supervising t => t
  | _ => false

def learn (ended : Bool) : Stage → Stage
  | .launching t => .launching (t || ended)
  | .closing t => .closing (t || ended)
  | .finishing _ => .finishing true
  | .retaining _ => .retaining true
  | q => q

def refuse : Stage → Stage
  | .finishing _ => .finishing true
  | q => q

def reap : Stage → Stage
  | .supervising _ => .supervising true
  | q => q

def finishReading : Stage → Stage
  | .reading => .finishing false
  | q => q

def startClosing : Stage → Stage
  | .plain => .closing false
  | q => q

def see (status : TerminalStatus) : Stage → Stage
  | .plain | .shown _ | .holding .. => .shown status
  | q => q

def take (afterSequence : Nat) (answer : PollResult) : Stage → Stage
  | .shown status => .holding status afterSequence answer
  | q => q

def rest : Stage → Stage
  | .shown _ | .holding .. => .plain
  | q => q

def may (q : Stage) : Act → Prop
  | .spawnOutputReader | .retainWriterLease => ∃ told, q = .launching told
  | .dropLease .session => q = .finishing true ∨ q = .closing true
  | .dropLease .launching => q = .launching true
  | .dropLease _ => q = .retaining true
  | .readPty | .push _ => q = .reading
  | .setFinal _ => q = .finishing true ∨ q = .closing true
  | .requestClose => q = .plain
  | .respond afterSequence result =>
    ∃ status answer, q = .holding status afterSequence answer ∧ result = answer.withStatus status
  | .sendOutcome _ => q = .supervising true
  | _ => True

def after (q : Stage) : (o : Act) → o.Answer → Stage
  | .spawnOutputReader, _ => .plain
  | .completedResult, some result | .waitGrace, some result => q.learn result.isOk
  | .waitLifecycle, result => q.learn result.isOk
  | .groupTerminate, .error _ | .groupSeal, .error _ => q.refuse
  | .childWait, _ => q.reap
  | .readPty, some (_ :: _) => q
  | .readPty, _ => q.finishReading
  | .requestClose, _ => q.startClosing
  | .status, status => q.see status
  | .poll afterSequence _, .ok answer => q.take afterSequence answer
  | .awaitChange, _ => q.rest
  | _, _ => q

def enter : Entry → Stage
  | .launch .. => .launching false
  | .superviseChild => .supervising false
  | .outputReader => .reading
  | .retain => .retaining false
  | _ => .plain

end Stage

abbrev stages : Protocol machine where
  Place := Stage
  enter := Stage.enter
  may := Stage.may
  after := Stage.after
  ends _ := True

section Soundness
variable {q : Stage}

theorem terminateFollows (same : q.refuse = q.learn false) :
    stages.Follows (fun result q' => q' = q.learn result.isOk) q terminate := by
  refine followsStep trivial fun completed => ?_
  cases completed with
  | some result => rfl
  | none =>
    refine followsStep trivial fun signalled => ?_
    cases signalled with
    | error message => exact same
    | ok _ =>
      refine followsStep trivial fun waited => ?_
      cases waited with
      | some result => rfl
      | none =>
        refine followsStep trivial fun sealed => ?_
        cases sealed with
        | error message => exact same
        | ok _ => exact followsStep trivial fun result => rfl

theorem finalizeStays (completion : Option TerminalExit)
    (ended : q = .finishing true ∨ q = .closing true) : stages.Stays q (finalizeReaped completion) := by
  refine followsStep trivial fun _ => followsStep ended fun _ => followsStep ended fun _ =>
    followsStep trivial fun permit => ?_
  cases permit with
  | true => exact followsStep trivial fun _ => followsStep trivial fun _ => rfl
  | false => exact followsStep trivial fun _ => rfl

theorem closeRemovedFollows {told : Bool} :
    stages.Follows stages.EntryPost (.closing told) closeRemoved :=
  followsStep trivial fun _ => followsStep trivial fun _ => followsStep trivial fun _ =>
    followsStep trivial fun _ => followsStep trivial fun _ => trivial

theorem launchFollows (leased persisted : Bool) :
    stages.Follows stages.EntryPost (.launching false) (launch leased persisted) := by
  have registers : stages.Stays (.launching false) (register persisted) := by
    cases persisted with
    | true => exact followsStep trivial fun _ => rfl
    | false => rfl
  refine staysSeq registers fun registered => ?_
  cases registered with
  | true => exact followsStep trivial fun _ => followsStep ⟨false, rfl⟩ fun _ => trivial
  | false =>
    refine followsSeq (terminateFollows rfl) fun result q' here => ?_
    subst here
    cases result with
    | ok cause => exact followsStep rfl fun _ => trivial
    | error message =>
      cases leased with
      | true => exact followsStep ⟨false, rfl⟩ fun _ => trivial
      | false => trivial

theorem outputReaderFollows : stages.Follows stages.EntryPost .reading outputReader := by
  refine followsStep rfl fun got => ?_
  match got with
  | some [] =>
    exact followsStep trivial fun result =>
      staysSeq (finalizeStays _ (.inl rfl)) fun _ => trivial
  | some (byte :: more) => exact followsStep rfl fun _ => rfl
  | none =>
    refine followsSeq (terminateFollows rfl) fun result q' here => ?_
    subst here
    exact staysSeq (finalizeStays _ (.inl rfl)) fun _ => trivial

theorem retainFollows : stages.Follows stages.EntryPost (.retaining false) retain :=
  followsStep trivial fun _ => followsStep rfl fun _ => trivial

theorem superviseFollows :
    stages.Follows stages.EntryPost (.supervising false) superviseChild := by
  refine followsStep trivial fun observation => followsStep trivial fun cleanup => ?_
  have rest : stages.Follows stages.EntryPost (.supervising false) (do
      let reaped ← perform .childWait
      let outcome : LifecycleOutcome := match observation, cleanup, reaped with
        | .error message, _, _ => .failed message
        | .ok _, .error message, _ => .failed message
        | .ok _, .ok _, .ok code => .exited (.exited code)
        | .ok _, .ok _, .error message => .failed message
      perform (.sendOutcome outcome)
      pure none) :=
    followsStep trivial fun _ => followsStep rfl fun _ => trivial
  cases cleanup with
  | error message => exact followsStep trivial fun _ => rest
  | ok _ => exact rest

theorem readSnapshotFollows (afterSequence maximumBytes : Nat) :
    stages.Follows (fun answer q' => ∀ result, answer = .ok result →
        ∃ status polled, q' = .holding status afterSequence polled ∧
          result = polled.withStatus status)
      .plain (readSnapshot afterSequence maximumBytes) := by
  refine followsStep trivial fun status => followsStep trivial fun polled => ?_
  cases polled with
  | error error => exact fun result same => nomatch same
  | ok answer => exact fun result same => ⟨status, answer, rfl, (Except.ok.inj same).symm⟩

theorem readFollows (afterSequence maximumBytes wait : Nat) :
    stages.Follows stages.EntryPost .plain (read afterSequence maximumBytes wait) := by
  unfold read
  split
  · trivial
  · refine followsStep trivial fun found => ?_
    cases found with
    | false => trivial
    | true =>
      refine followsSeq (readSnapshotFollows afterSequence maximumBytes) fun initial q' held => ?_
      cases initial with
      | error error => trivial
      | ok initial =>
        obtain ⟨status, polled, here, same⟩ := held initial rfl
        subst here
        dsimp only
        split
        · exact followsStep ⟨status, polled, rfl, same⟩ fun _ => trivial
        · refine followsStep trivial fun _ =>
            followsSeq (readSnapshotFollows afterSequence maximumBytes) fun final q' held => ?_
          cases final with
          | error error => trivial
          | ok final =>
            obtain ⟨status, polled, here, same⟩ := held final rfl
            subst here
            exact followsStep ⟨status, polled, rfl, same⟩ fun _ => trivial

theorem waitForCompletionFollows : stages.Follows stages.EntryPost .plain waitForCompletion := by
  refine followsStep trivial fun found => ?_
  cases found with
  | false => trivial
  | true =>
    refine followsStep trivial fun status => ?_
    dsimp only
    split
    · exact followsStep trivial fun _ => rfl
    · trivial

theorem isFinalizedStays : stages.Stays q isFinalized :=
  followsStep trivial fun _ => followsStep trivial fun _ => followsStep trivial fun _ => rfl

theorem noteTerminationFailureStays : stages.Stays q noteTerminationFailure := by
  refine followsStep trivial fun _ => followsStep trivial fun taken => ?_
  cases taken with
  | true => exact followsStep trivial fun _ => rfl
  | false => exact followsStep trivial fun _ => followsStep trivial fun _ => rfl

theorem closeFollows : stages.Follows stages.EntryPost .plain close := by
  refine followsStep trivial fun found => ?_
  cases found with
  | false => trivial
  | true =>
    refine followsStep trivial fun _ => followsStep trivial fun still => ?_
    cases still with
    | false => exact followsStep trivial fun _ => trivial
    | true =>
      refine followsStep rfl fun _ => staysSeq isFinalizedStays fun finalized => ?_
      cases finalized with
      | true => exact closeRemovedFollows
      | false =>
        refine followsSeq (terminateFollows rfl) fun result q' here => ?_
        subst here
        cases result with
        | ok cause => exact staysSeq (finalizeStays _ (.inr rfl)) fun _ => closeRemovedFollows
        | error message =>
          refine staysSeq noteTerminationFailureStays fun noted => ?_
          cases noted with
          | true => exact followsStep trivial fun _ => trivial
          | false => exact closeRemovedFollows

theorem stagesSound : stages.Sound := by
  intro e
  cases e with
  | launch leased persisted => exact launchFollows leased persisted
  | superviseChild => exact superviseFollows
  | outputReader => exact outputReaderFollows
  | retain => exact retainFollows
  | read afterSequence maximumBytes wait => exact readFollows afterSequence maximumBytes wait
  | waitForCompletion => exact waitForCompletionFollows
  | close => exact closeFollows

end Soundness

end Maestro.Terminal
