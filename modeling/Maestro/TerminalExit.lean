import Maestro.TerminalStages

/-! The exited state of a terminal is set behind the last of its output: by the task that
read the output to its end, and by no other. -/
namespace Maestro.Terminal
open Interleaving Prog Protocol

def OutputBuffer.Within (b : OutputBuffer) : Prop :=
  ∀ chunk ∈ b.chunks, chunk.sequence ≤ b.latestSequence

theorem pushLatest (b : OutputBuffer) (data : Bytes) :
    b.latestSequence ≤ (b.push data).1.latestSequence := by
  unfold OutputBuffer.push
  split
  · exact Nat.le_refl _
  · exact Nat.le_succ _

theorem OutputBuffer.Within.push {b : OutputBuffer} (within : b.Within) (data : Bytes) :
    (b.push data).1.Within := by
  unfold OutputBuffer.push
  split
  · exact within
  · intro chunk member
    cases List.mem_append.mp (OutputBuffer.evictSubset _ _ _ member) with
    | inl old => exact Nat.le_succ_of_le (within chunk old)
    | inr new =>
      cases List.mem_singleton.mp new
      exact Nat.le_refl _

theorem collectSubset {chunk : TerminalOutputChunk} {maximumBytes : Nat}
    {chunks : List TerminalOutputChunk} {bytes : Nat}
    (member : chunk ∈ OutputBuffer.collect maximumBytes chunks bytes) : chunk ∈ chunks := by
  obtain ⟨keep, -, same⟩ := OutputBuffer.collectTake maximumBytes chunks bytes
  rw [same] at member
  exact List.mem_of_mem_take member

theorem OutputBuffer.Within.poll {b : OutputBuffer} (within : b.Within)
    {afterSequence maximumBytes : Nat} {answer : PollResult}
    (polled : b.poll afterSequence maximumBytes = .ok answer) :
    (∀ chunk ∈ answer.chunks, afterSequence < chunk.sequence ∧ chunk.sequence ≤ b.latestSequence) ∧
      answer.latestSequence = b.latestSequence := by
  unfold OutputBuffer.poll at polled
  split at polled
  · contradiction
  · cases Except.ok.inj polled
    refine ⟨fun chunk member => ?_, rfl⟩
    have found := List.mem_filter.mp (collectSubset member)
    have behind : chunk.sequence > max afterSequence b.droppedThroughSequence :=
      of_decide_eq_true found.2
    exact ⟨Nat.lt_of_le_of_lt (Nat.le_max_left _ _) behind, within chunk found.1⟩

namespace Stage

def closes : Stage → Bool
  | .closing _ => true
  | _ => false

def sawExit : Stage → Bool
  | .shown status | .holding status _ _ => status.state == .exited
  | _ => false

structure Eases (q q' : Stage) : Prop where
  owns : q'.owns = true → q.owns = true
  feeds : q'.feeds = true → q.feeds = true
  closes : q'.closes = true → q.closes = true
  sawExit : q'.sawExit = true → q.sawExit = true
  held : ∀ status afterSequence answer, q' = .holding status afterSequence answer →
    q = .holding status afterSequence answer

theorem easesRefl (q : Stage) : q.Eases q := ⟨id, id, id, id, fun _ _ _ => id⟩

theorem easesPlain (q : Stage) : q.Eases .plain := by
  constructor <;> (intros; contradiction)

theorem learnEases (ended : Bool) (q : Stage) : q.Eases (q.learn ended) := by
  cases q <;> first | exact easesRefl _ | exact ⟨id, id, id, id, by intros; contradiction⟩

theorem refuseEases (q : Stage) : q.Eases q.refuse := by
  cases q <;> first | exact easesRefl _ | exact ⟨id, id, id, id, by intros; contradiction⟩

theorem reapEases (q : Stage) : q.Eases q.reap := by
  cases q <;> first | exact easesRefl _ | exact ⟨id, id, id, id, by intros; contradiction⟩

theorem finishReadingEases (q : Stage) : q.Eases q.finishReading := by
  cases q <;> first
    | exact easesRefl _
    | refine ⟨fun _ => rfl, ?_, ?_, ?_, ?_⟩ <;> (intros; contradiction)

theorem restEases (q : Stage) : q.Eases q.rest := by
  cases q <;> first | exact easesRefl _ | exact easesPlain _

end Stage

/-- What an answer with these chunks says of a terminal whose latest output is `latest`. -/
structure Reported (latest afterSequence : Nat) (chunks : List TerminalOutputChunk)
    (state : TerminalState) (answerLatest : Nat) : Prop where
  known : ∀ chunk ∈ chunks, afterSequence < chunk.sequence ∧ chunk.sequence ≤ latest
  final : state = .exited → answerLatest = latest

namespace TerminalSession

/-- Neither the terminal nor an answer about it has said that it exited. -/
structure Open (m : TerminalSession) : Prop where
  state : m.state ≠ .exited
  responses : ∀ r ∈ m.responses, r.result.state ≠ .exited

structure Recorded (m : TerminalSession) : Prop where
  within : m.output.Within
  responses : ∀ r ∈ m.responses, Reported m.output.latestSequence r.afterSequence r.result.chunks
    r.result.state r.result.latestSequence

structure Supports (m : TerminalSession) (q : Stage) : Prop where
  feeds : q.feeds = true → m.Open
  closes : q.closes = true → m.closeRequested = true
  held : ∀ status afterSequence answer, q = .holding status afterSequence answer →
    Reported m.output.latestSequence afterSequence answer.chunks status.state answer.latestSequence

structure SameView (m m' : TerminalSession) : Prop where
  output : m'.output = m.output
  state : m'.state = m.state
  closeRequested : m'.closeRequested = m.closeRequested
  responses : m'.responses = m.responses

end TerminalSession

structure Stage.Apart (q q' : Stage) : Prop where
  owner : q.owns = true → q'.owns = false
  left : q.feeds = true → q'.sawExit = false
  right : q'.feeds = true → q.sawExit = false

theorem Stage.Apart.symm {q q' : Stage} (apart : q.Apart q') : q'.Apart q where
  owner := fun mine => by
    cases same : q.owns with
    | false => rfl
    | true => exact absurd (apart.owner same) (by simp [mine])
  left := apart.right
  right := apart.left

theorem Stage.Apart.ease {q q' other : Stage} (apart : q.Apart other) (eases : q.Eases q') :
    q'.Apart other where
  owner := fun mine => apart.owner (eases.owns mine)
  left := fun mine => apart.left (eases.feeds mine)
  right := fun theirs => by
    cases same : q'.sawExit with
    | false => rfl
    | true => exact absurd (apart.right theirs) (by simp [eases.sawExit same])

abbrev exiting : Outline stages where
  Inv := TerminalSession.Recorded
  Here q m := m.Supports q
  Apart := Stage.Apart

section Steps
variable {m m' : TerminalSession} {q q' : Stage}

open TerminalSession

theorem Recorded.same (recorded : m.Recorded) (view : m.SameView m') : m'.Recorded where
  within := by
    rw [view.output]
    exact recorded.within
  responses := by
    rw [view.responses, view.output]
    exact recorded.responses

theorem Open.same (opened : m.Open) (view : m.SameView m') : m'.Open where
  state := by
    rw [view.state]
    exact opened.state
  responses := by
    rw [view.responses]
    exact opened.responses

theorem Supports.same (supports : m.Supports q) (view : m.SameView m') : m'.Supports q where
  feeds := fun mine => Open.same (supports.feeds mine) view
  closes := fun mine => by
    rw [view.closeRequested]
    exact supports.closes mine
  held := fun status afterSequence answer same => by
    rw [view.output]
    exact supports.held status afterSequence answer same

theorem Supports.ease (supports : m.Supports q) (eases : q.Eases q') : m.Supports q' where
  feeds := fun mine => supports.feeds (eases.feeds mine)
  closes := fun mine => supports.closes (eases.closes mine)
  held := fun status afterSequence answer same =>
    supports.held status afterSequence answer (eases.held status afterSequence answer same)

theorem supportsPlain (m : TerminalSession) : m.Supports .plain := by
  constructor <;> (intros; contradiction)

theorem releaseView (holder : Lease) : m.SameView (m.release holder) := by
  unfold TerminalSession.release
  split <;> exact ⟨rfl, rfl, rfl, rfl⟩

theorem signalView (active : Bool) : m.SameView (m.signal active).2 := by
  unfold TerminalSession.signal
  split <;> exact ⟨rfl, rfl, rfl, rfl⟩

def Act.Hidden : Act → Prop
  | .push _ | .setFinal _ | .setFailed | .requestClose | .setClosed | .respond .. => False
  | _ => True

theorem hiddenView {o : Act} {choice : Choice} {answer : o.Answer} (hidden : o.Hidden)
    (applied : apply o choice m = some (answer, m')) : m.SameView m' := by
  cases o
  case push | setFinal | setFailed | requestClose | setClosed | respond => exact hidden.elim
  case dropLease holder =>
    cases Option.some.inj applied
    exact releaseView holder
  case groupTerminate | groupSeal =>
    have same : (m.signal _).2 = m' := congrArg Prod.snd (Option.some.inj applied)
    exact same ▸ signalView _
  case waitLifecycle =>
    obtain ⟨result, -, same⟩ := Option.map_eq_some_iff.mp applied
    cases same
    exact ⟨rfl, rfl, rfl, rfl⟩
  case waitGrace =>
    cases choice
    case elapsed =>
      cases Option.some.inj applied
      exact ⟨rfl, rfl, rfl, rfl⟩
    all_goals
      obtain ⟨result, -, same⟩ := Option.map_eq_some_iff.mp applied
      cases same
      exact ⟨rfl, rfl, rfl, rfl⟩
  case readPty =>
    cases choice <;> simp only [apply, reduceCtorEq] at applied
    case data bytes =>
      split at applied
      · cases Option.some.inj applied
        exact ⟨rfl, rfl, rfl, rfl⟩
      · contradiction
    case fails message =>
      cases Option.some.inj applied
      exact ⟨rfl, rfl, rfl, rfl⟩
  case childWait =>
    cases choice <;> simp only [apply, reduceCtorEq] at applied
    split at applied <;> cases Option.some.inj applied <;> exact ⟨rfl, rfl, rfl, rfl⟩
  case lockFinalization | lockOperation =>
    simp only [apply] at applied
    split at applied
    · contradiction
    · cases Option.some.inj applied
      exact ⟨rfl, rfl, rfl, rfl⟩
  case registerTerminal | waitForLeaderExit =>
    cases choice <;> (cases Option.some.inj applied; exact ⟨rfl, rfl, rfl, rfl⟩)
  all_goals
    cases Option.some.inj applied
    exact ⟨rfl, rfl, rfl, rfl⟩

theorem keptQuietly {spawned : Option Entry} (none' : spawned = none) (inv : m'.Recorded)
    (here : m'.Supports q')
    (others : ∀ other, m.Supports other → q.Apart other → m'.Supports other ∧ q'.Apart other) :
    exiting.Kept m m' q q' spawned where
  inv := inv
  here := here
  entered := fun e same => absurd (none'.symm.trans same) (Option.some_ne_none e).symm
  others := fun other supports apart =>
    ⟨(others other supports apart).1, (others other supports apart).2,
      fun e same => absurd (none'.symm.trans same) (Option.some_ne_none e).symm⟩

theorem keptEased {spawned : Option Entry} (none' : spawned = none) (recorded : m.Recorded)
    (supports : m.Supports q) (view : m.SameView m') (eases : q.Eases q') :
    exiting.Kept m m' q q' spawned :=
  keptQuietly none' (Recorded.same recorded view) (Supports.same (Supports.ease supports eases) view)
    fun _ theirs apart => ⟨Supports.same theirs view, apart.ease eases⟩

theorem openClose (opened : m.Open) : m.requestClose.Open where
  state := by
    have state := opened.state
    unfold TerminalSession.requestClose
    dsimp only
    split
    · exact state
    · exact TerminalState.noConfusion
  responses := opened.responses

theorem openFinish (opened : m.Open) (requested : m.closeRequested = true)
    (completion : Option TerminalExit) : (m.finish completion).Open := by
  unfold TerminalSession.finish
  cases completion with
  | none => exact ⟨TerminalState.noConfusion, opened.responses⟩
  | some exit =>
    rw [if_pos requested]
    exact ⟨TerminalState.noConfusion, opened.responses⟩

theorem finishFields (completion : Option TerminalExit) :
    (m.finish completion).output = m.output ∧
      (m.finish completion).closeRequested = m.closeRequested ∧
      (m.finish completion).responses = m.responses := by
  cases completion <;> exact ⟨rfl, rfl, rfl⟩

theorem keptPush (recorded : m.Recorded) (supports : m.Supports .reading) (data : Bytes) :
    exiting.Kept m { m with output := (m.output.push data).1 } .reading .reading none := by
  have opened := supports.feeds rfl
  have grown := pushLatest m.output data
  have longer : ∀ {afterSequence chunks state answerLatest}, state ≠ TerminalState.exited →
      Reported m.output.latestSequence afterSequence chunks state answerLatest →
      Reported (m.output.push data).1.latestSequence afterSequence chunks state answerLatest :=
    fun running reported =>
      ⟨fun chunk member => ⟨(reported.known chunk member).1,
        Nat.le_trans (reported.known chunk member).2 grown⟩, fun ended => absurd ended running⟩
  have recorded' : Recorded { m with output := (m.output.push data).1 } :=
    ⟨recorded.within.push data, fun r member =>
      longer (opened.responses r member) (recorded.responses r member)⟩
  refine keptQuietly rfl recorded'
    ⟨fun _ => ⟨opened.state, opened.responses⟩, by intros; contradiction, by intros; contradiction⟩ ?_
  intro other theirs apart
  refine ⟨⟨fun feeds => ⟨(theirs.feeds feeds).state, (theirs.feeds feeds).responses⟩,
    theirs.closes, ?_⟩, apart⟩
  intro status afterSequence answer same
  have running : status.state ≠ .exited := by
    have unseen := apart.left rfl
    rw [same] at unseen
    exact fun ended => absurd unseen (by simp [Stage.sawExit, ended])
  exact longer running (theirs.held status afterSequence answer same)

theorem keptFinal (recorded : m.Recorded) (supports : m.Supports q) (completion : Option TerminalExit)
    (may : q = .finishing true ∨ q = .closing true) :
    exiting.Kept m (m.finish completion) q q none := by
  obtain ⟨output, requested, responses⟩ := finishFields (m := m) completion
  have recorded' : (m.finish completion).Recorded := by
    refine ⟨?_, ?_⟩
    · rw [output]
      exact recorded.within
    · rw [responses, output]
      exact recorded.responses
  have carried : ∀ {other}, m.Supports other → (other.feeds = true → (m.finish completion).Open) →
      (m.finish completion).Supports other := fun theirs opened => by
    refine ⟨opened, ?_, ?_⟩
    · rw [requested]
      exact theirs.closes
    · rw [output]
      exact theirs.held
  have quiet : q.feeds = true → (m.finish completion).Open := by
    intro feeds
    cases may with
    | inl finishing => rw [finishing] at feeds; cases feeds
    | inr closing => rw [closing] at feeds; cases feeds
  refine keptQuietly rfl recorded' (carried supports quiet) fun other theirs apart =>
    ⟨carried theirs fun feeds => ?_, apart⟩
  cases may with
  | inl finishing =>
    -- the reader that finishes is the only one
    have other' := apart.owner (by rw [finishing]; rfl)
    cases other <;> cases feeds <;> cases other'
  | inr closing =>
    have asked := supports.closes (by rw [closing]; rfl)
    exact openFinish (theirs.feeds feeds) asked completion

theorem keptState {state : TerminalState} (exit : Option TerminalExit) (recorded : m.Recorded)
    (supports : m.Supports q) (running : state ≠ .exited) :
    exiting.Kept m { m with state := state, exit := exit } q q none := by
  have carried : ∀ {other}, m.Supports other →
      TerminalSession.Supports { m with state := state, exit := exit } other := fun theirs =>
    ⟨fun feeds => ⟨running, (theirs.feeds feeds).responses⟩, theirs.closes, theirs.held⟩
  exact keptQuietly rfl ⟨recorded.within, recorded.responses⟩ (carried supports)
    fun _ theirs apart => ⟨carried theirs, apart⟩

theorem keptRequest (recorded : m.Recorded) :
    exiting.Kept m m.requestClose .plain (.closing false) none :=
  keptQuietly rfl ⟨recorded.within, recorded.responses⟩
    ⟨by intros; contradiction, fun _ => rfl, by intros; contradiction⟩
    fun _ theirs _ =>
      ⟨⟨fun feeds => openClose (theirs.feeds feeds), fun _ => rfl, theirs.held⟩,
        ⟨by intros; contradiction, by intros; contradiction, fun _ => rfl⟩⟩

theorem keptRespond {status : TerminalStatus} {afterSequence : Nat} {answer : PollResult}
    (recorded : m.Recorded) (supports : m.Supports (.holding status afterSequence answer)) :
    exiting.Kept m
      { m with responses := m.responses ++ [⟨afterSequence, answer.withStatus status⟩] }
      (.holding status afterSequence answer) (.holding status afterSequence answer) none := by
  have reported := supports.held status afterSequence answer rfl
  refine keptQuietly rfl ⟨recorded.within, fun r member => ?_⟩
    ⟨by intros; contradiction, by intros; contradiction, supports.held⟩ ?_
  · cases List.mem_append.mp member with
    | inl old => exact recorded.responses r old
    | inr new =>
      rw [List.mem_singleton.mp new]
      exact reported
  · intro other theirs apart
    refine ⟨⟨fun feeds => ⟨(theirs.feeds feeds).state, fun r member => ?_⟩, theirs.closes,
      theirs.held⟩, apart⟩
    cases List.mem_append.mp member with
    | inl old => exact (theirs.feeds feeds).responses r old
    | inr new =>
      rw [List.mem_singleton.mp new]
      have unseen := apart.right feeds
      exact fun ended => absurd unseen (by
        have ended' : status.state = .exited := ended
        simp [Stage.sawExit, ended'])

theorem keptStatus (recorded : m.Recorded) (supports : m.Supports q) :
    exiting.Kept m m q (q.see m.currentStatus) none := by
  have quiet := keptEased rfl recorded supports (⟨rfl, rfl, rfl, rfl⟩ : m.SameView m)
    (Stage.easesRefl q)
  have seen : exiting.Kept m m q (.shown m.currentStatus) none :=
    keptQuietly rfl recorded (by constructor <;> (intros; contradiction)) fun other theirs apart =>
      ⟨theirs, by intros; contradiction, by intros; contradiction, fun feeds => by
        have state := (theirs.feeds feeds).state
        simp [Stage.sawExit, TerminalSession.currentStatus, state]⟩
  cases q
  case plain | shown | holding => exact seen
  all_goals exact quiet

theorem keptPoll {afterSequence maximumBytes : Nat} {answer : PollResult} (recorded : m.Recorded)
    (supports : m.Supports q) (polled : m.output.poll afterSequence maximumBytes = .ok answer) :
    exiting.Kept m m q (q.take afterSequence answer) none := by
  cases q
  case shown status =>
    have known := recorded.within.poll polled
    refine keptQuietly rfl recorded
      ⟨by intros; contradiction, by intros; contradiction, ?_⟩ fun other theirs apart =>
      ⟨theirs, by intros; contradiction, by intros; contradiction, apart.right⟩
    intro status' afterSequence' answer' same
    cases same
    exact ⟨known.1, fun _ => known.2⟩
  all_goals
    exact keptEased rfl recorded supports (⟨rfl, rfl, rfl, rfl⟩ : m.SameView m) (Stage.easesRefl _)

theorem keptSpawnReader {told : Bool} (recorded : m.Recorded)
    (supports : m.Supports (.launching told)) :
    exiting.Kept m m (.launching told) .plain (some .outputReader) where
  inv := recorded
  here := supportsPlain m
  entered := fun e same => by
    cases same
    refine ⟨⟨fun _ => supports.feeds rfl, ?_, ?_⟩, ?_, ?_, fun _ => rfl⟩ <;> (intros; contradiction)
  others := fun other theirs apart =>
    ⟨theirs, apart.ease (Stage.easesPlain _), fun e same => by
      cases same
      exact ⟨fun _ => apart.owner rfl, fun _ => apart.left rfl, fun _ => rfl⟩⟩

theorem keptRetain {told : Bool} (recorded : m.Recorded)
    (supports : m.Supports (.launching told)) (view : m.SameView m') :
    exiting.Kept m m' (.launching told) (.launching told) (some .retain) where
  inv := Recorded.same recorded view
  here := Supports.same supports view
  entered := fun e same => by
    cases same
    refine ⟨⟨?_, ?_, ?_⟩, fun _ => rfl, fun _ => rfl, ?_⟩ <;> (intros; contradiction)
  others := fun other theirs apart =>
    ⟨Supports.same theirs view, apart, fun e same => by
      cases same
      exact ⟨by intros; contradiction, by intros; contradiction, fun _ => rfl⟩⟩

theorem afterEases {o : Act} {answer : o.Answer} (hidden : o.Hidden)
    (ordinary : o ≠ .status ∧ (∀ a b, o ≠ .poll a b)) : q.Eases (q.after o answer) := by
  cases o
  case push | setFinal | setFailed | requestClose | setClosed | respond => exact hidden.elim
  case status => exact absurd rfl ordinary.1
  case poll a b => exact absurd rfl (ordinary.2 a b)
  case spawnOutputReader => exact Stage.easesPlain q
  case completedResult | waitGrace =>
    cases answer with
    | none => exact Stage.easesRefl q
    | some result => exact Stage.learnEases _ q
  case waitLifecycle => exact Stage.learnEases _ q
  case groupTerminate | groupSeal =>
    cases answer with
    | error message => exact Stage.refuseEases q
    | ok _ => exact Stage.easesRefl q
  case childWait => exact Stage.reapEases q
  case readPty =>
    match answer with
    | some (_ :: _) => exact Stage.easesRefl q
    | some [] => exact Stage.finishReadingEases q
    | none => exact Stage.finishReadingEases q
  case awaitChange => exact Stage.restEases q
  all_goals exact Stage.easesRefl q

theorem exitingAct {o : Act} {choice : Choice} {answer : o.Answer} (recorded : m.Recorded)
    (supports : m.Supports q) (may : q.may o) (applied : apply o choice m = some (answer, m')) :
    exiting.Kept m m' q (q.after o answer) (spawns o) := by
  have view : o.Hidden → m.SameView m' := fun hidden => hiddenView hidden applied
  cases o
  case push data =>
    cases Option.some.inj applied
    cases (show q = .reading from may)
    exact keptPush recorded supports data
  case setFinal completion =>
    cases Option.some.inj applied
    exact keptFinal recorded supports completion may
  case setFailed =>
    cases Option.some.inj applied
    exact keptState _ recorded supports TerminalState.noConfusion
  case setClosed =>
    cases Option.some.inj applied
    exact keptState m.exit recorded supports TerminalState.noConfusion
  case requestClose =>
    cases Option.some.inj applied
    cases (show q = .plain from may)
    exact keptRequest recorded
  case respond afterSequence result =>
    cases Option.some.inj applied
    obtain ⟨status, answer, rfl, rfl⟩ := may
    exact keptRespond recorded supports
  case status =>
    cases Option.some.inj applied
    exact keptStatus recorded supports
  case poll afterSequence maximumBytes =>
    cases polled : m.output.poll afterSequence maximumBytes with
    | error error =>
      simp only [apply, polled] at applied
      cases Option.some.inj applied
      exact keptEased rfl recorded supports ⟨rfl, rfl, rfl, rfl⟩ (Stage.easesRefl q)
    | ok result =>
      simp only [apply, polled] at applied
      cases Option.some.inj applied
      exact keptPoll recorded supports polled
  case spawnOutputReader =>
    cases Option.some.inj applied
    obtain ⟨told, rfl⟩ := may
    exact keptSpawnReader recorded supports
  case retainWriterLease =>
    obtain ⟨told, rfl⟩ := may
    exact keptRetain recorded supports (view trivial)
  all_goals
    exact keptEased rfl recorded supports (view trivial)
      (afterEases trivial ⟨nofun, nofun⟩)

theorem outsideView {x : Outside} (happened : outside x m = some m') : m.SameView m' := by
  cases x
  case prune =>
    simp only [outside] at happened
    split at happened
    · cases Option.some.inj happened
      exact ⟨rfl, rfl, rfl, rfl⟩
    · contradiction
  all_goals
    cases Option.some.inj happened
    exact ⟨rfl, rfl, rfl, rfl⟩

theorem exitingValid : exiting.Valid (fun _ _ _ => True) where
  symm := Stage.Apart.symm
  call := fun {e m} called _ => by
    cases e <;> cases called <;>
      exact ⟨supportsPlain m, fun other theirs =>
        ⟨by intros; contradiction, by intros; contradiction, fun _ => rfl⟩⟩
  act := fun recorded supports may _ applied => exitingAct recorded supports may applied
  outside := fun recorded happened =>
    ⟨Recorded.same recorded (outsideView happened), fun _ theirs =>
      Supports.same theirs (outsideView happened)⟩

end Steps

theorem launchedHolds (id : TerminalId) (leased persisted : Bool) :
    exiting.Holds (launched id leased persisted) := by
  refine Outline.holdsPair stagesSound Stage.Apart.symm ⟨nofun, by intros; contradiction⟩ ?_ ?_ ?_
  · refine ⟨fun _ => ⟨TerminalState.noConfusion, ?_⟩, ?_, ?_⟩ <;> (intros; contradiction)
  · constructor <;> (intros; contradiction)
  · exact ⟨fun _ => rfl, fun _ => rfl, by intros; contradiction⟩

theorem reachExiting {id : TerminalId} {leased persisted : Bool} {c : Config machine}
    (h : Reach Always (launched id leased persisted) c) : exiting.Holds c :=
  Outline.reachHolds stagesSound exitingValid (launchedHolds id leased persisted)
    (fun _ _ _ _ => trivial) h

/-- Once a read has answered that the terminal exited and that there is nothing behind the
cursor, no answer holds a chunk behind that cursor. -/
theorem exitedComplete {id : TerminalId} {leased persisted : Bool} {c : Config machine}
    (reached : Reach Always (launched id leased persisted) c) {answered later : ReadResponse}
    (first : answered ∈ c.memory.responses) (exited : answered.result.state = .exited)
    (whole : answered.result.nextSequence = answered.result.latestSequence)
    (other : later ∈ c.memory.responses) :
    (∀ chunk ∈ later.result.chunks, chunk.sequence ≤ answered.result.nextSequence) ∧
      (answered.result.nextSequence ≤ later.afterSequence → later.result.chunks = []) := by
  have recorded := (reachExiting reached).inv
  have last := (recorded.responses answered first).final exited
  have known := (recorded.responses later other).known
  rw [whole, last]
  refine ⟨fun chunk member => (known chunk member).2, fun behind => ?_⟩
  refine List.eq_nil_iff_forall_not_mem.mpr fun chunk member => ?_
  have bounds := known chunk member
  omega

/-- The child writes a byte and exits; two reads ask behind the start and behind its byte. -/
def exitSchedule : List (Event machine) :=
  [.run 0 .go, .run 0 .go, .run 2 (.data [104]), .run 2 .go,
    .run 1 .go, .run 1 .go, .run 1 (.code 0), .run 1 .go,
    .run 2 (.data []), .run 2 .go, .run 2 .go, .run 2 .go, .run 2 .go, .run 2 .go, .run 2 .go,
    .run 2 .go, .call (.read 0 4096 0), .run 3 .go, .run 3 .go, .run 3 .go, .run 3 .go,
    .call (.read 1 4096 0), .run 4 .go, .run 4 .go, .run 4 .go, .run 4 .go]

def exitResponses : List ReadResponse :=
  [⟨0, ⟨0, [⟨1, [104]⟩], 1, 1, false, none, .exited, some ⟨some 0, none⟩⟩⟩,
    ⟨1, ⟨0, [], 1, 1, false, none, .exited, some ⟨some 0, none⟩⟩⟩]

theorem exitScheduleRuns : (runFrom (launched 0 false false) exitSchedule).map
    (·.memory.responses) = some exitResponses := by
  decide

theorem exitedCompleteTwice : ∃ c : Config machine, ∃ answered later : ReadResponse,
    answered ∈ c.memory.responses ∧ answered.result.state = .exited ∧
      (∀ chunk ∈ later.result.chunks, chunk.sequence ≤ answered.result.nextSequence) ∧
      (answered.result.nextSequence ≤ later.afterSequence → later.result.chunks = []) := by
  obtain ⟨c, ran, held⟩ := Option.map_eq_some_iff.mp exitScheduleRuns
  have same : c.memory.responses = exitResponses := held
  have first : exitResponses[0] ∈ c.memory.responses := by
    rw [same]
    exact List.getElem_mem _
  have second : exitResponses[1] ∈ c.memory.responses := by
    rw [same]
    exact List.getElem_mem _
  exact ⟨c, _, _, first, rfl,
    exitedComplete (reachRun .start (fun _ _ => trivial) ran) first rfl rfl second⟩

end Maestro.Terminal
