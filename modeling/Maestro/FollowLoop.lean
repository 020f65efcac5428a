import Maestro.EventPolling

/-! The follow loop of the desktop application. It reads one session behind its cursor and
ends with the first answer that shows a settled state. -/
namespace Maestro.FollowLoop
open Polling

def sessionEventsPerRead : Nat := 256

def sessionReadWaitMilliseconds : Nat := 20000

def defaultUiEventLimit : Nat := 500

def isSessionSettled : SessionState → Bool
  | .completed | .stopped | .failed | .interrupted | .incompatible => true
  | _ => false

def lastOf {α : Type} (count : Nat) (l : List α) : List α := l.drop (l.length - count)

/-- `Map.set` by sequence: a known key keeps its position. -/
def setSequence (entries : List EventEnvelope) (event : EventEnvelope) : List EventEnvelope :=
  if entries.any fun old => old.sequence == event.sequence then
    entries.map fun old => if old.sequence = event.sequence then event else old
  else entries ++ [event]

def mergeSessionEvents (current incoming : List EventEnvelope) (maximumEvents : Nat) :
    List EventEnvelope :=
  let bySequence := (current ++ incoming).foldl setSequence []
  lastOf maximumEvents (bySequence.mergeSort fun left right => left.sequence ≤ right.sequence)

inductive Stage where
  | following
  | settling
  | settled (state : SessionState)
  | disconnected
  deriving DecidableEq, Repr

/-- `granted` while the host has the session registered for this window. -/
structure Window where
  cursor : Nat
  events : List EventEnvelope
  stage : Stage
  granted : Bool

def Window.receive (w : Window) (batch : SessionEventBatch) : Window :=
  { w with
    cursor := max w.cursor batch.nextSequence
    events := mergeSessionEvents w.events batch.events defaultUiEventLimit
    stage := if isSessionSettled batch.state then .settling else .following }

@[simp] theorem receiveEvents (w : Window) (batch : SessionEventBatch) : (w.receive batch).events =
    mergeSessionEvents w.events batch.events defaultUiEventLimit := by
  rw [Window.receive]

@[simp] theorem receiveCursor (w : Window) (batch : SessionEventBatch) :
    (w.receive batch).cursor = max w.cursor batch.nextSequence := rfl

/-- What `client.snapshot` answers: from the listed session, else from its row. -/
def finalSnapshot (d : Desk) : Option SessionState :=
  match d.log with
  | some _ => some d.state
  | none => d.stored

/-- The window and the daemon. A stop takes the grant away when the daemon has answered it,
and a call the host passed on before goes on; a resume runs the effect again. `May` is asked of
the loop's calls, and `Quiet` of the other tasks while the final snapshot is still to come. -/
inductive Follows (limit slots : Nat) (May : Desk → Act → Prop) (Quiet : Desk → Desk → Prop) (start : Desk) :
    Desk → Window → Prop
  | start : Follows limit slots May Quiet start start ⟨0, [], .following, true⟩
  | elsewhere {d d' w} (before : Follows limit slots May Quiet start d w) (step : Elsewhere limit d d')
      (quiet : w.stage = .settling → Quiet d d') : Follows limit slots May Quiet start d' w
  | granted {d w} (before : Follows limit slots May Quiet start d w) (granted : Bool) :
      Follows limit slots May Quiet start d { w with granted := granted }
  | answered {d d' w batch} (before : Follows limit slots May Quiet start d w)
      (follows : w.stage = .following) (granted : w.granted = true)
      (ran : Watched limit slots May d
        (readSessionEvents w.cursor sessionEventsPerRead sessionReadWaitMilliseconds) d' (.ok batch)) :
      Follows limit slots May Quiet start d' (w.receive batch)
  | failed {d d' w error} (before : Follows limit slots May Quiet start d w)
      (follows : w.stage = .following) (granted : w.granted = true)
      (ran : Watched limit slots May d
        (readSessionEvents w.cursor sessionEventsPerRead sessionReadWaitMilliseconds) d' (.error error)) :
      Follows limit slots May Quiet start d' { w with stage := .disconnected }
  | lost {d w} (before : Follows limit slots May Quiet start d w) :
      Follows limit slots May Quiet start d { w with stage := .disconnected }
  | snapshot {d w state} (before : Follows limit slots May Quiet start d w)
      (settles : w.stage = .settling) (granted : w.granted = true)
      (shown : finalSnapshot d = some state) :
      Follows limit slots May Quiet start d { w with stage := .settled state }
  | again {d w} (before : Follows limit slots May Quiet start d w) :
      Follows limit slots May Quiet start d { w with stage := .following }

section Merging
variable {α : Type}

theorem lastOfLength (count : Nat) (l : List α) : (lastOf count l).length = min count l.length := by
  rw [lastOf, List.length_drop]
  omega

theorem lastOfWhole {count : Nat} {l : List α} (short : l.length ≤ count) : lastOf count l = l := by
  rw [lastOf, Nat.sub_eq_zero_of_le short, List.drop_zero]

theorem lastOfSublist (count : Nat) (l : List α) : (lastOf count l).Sublist l :=
  List.drop_sublist _ _

theorem lastOfBehind {count : Nat} (front : List α) {back : List α} (fits : count ≤ back.length) :
    lastOf count (front ++ back) = lastOf count back := by
  have skipped : (front ++ back).length - count = front.length + (back.length - count) := by
    rw [List.length_append]
    omega
  rw [lastOf, skipped, ← List.drop_drop, List.drop_left, lastOf]

theorem lastOfAppend (count : Nat) (xs ys : List α) :
    lastOf count (lastOf count xs ++ ys) = lastOf count (xs ++ ys) := by
  by_cases fits : count ≤ xs.length
  · have split' : xs = xs.take (xs.length - count) ++ lastOf count xs :=
      (List.take_append_drop _ _).symm
    have long : count ≤ (lastOf count xs ++ ys).length := by
      rw [List.length_append, lastOfLength]
      omega
    conv_rhs => rw [split', List.append_assoc]
    exact (lastOfBehind _ long).symm
  · rw [lastOfWhole (Nat.le_of_not_le fits)]

end Merging

abbrev Ordered (events : List EventEnvelope) : Prop :=
  events.Pairwise fun left right => left.sequence < right.sequence

theorem setAllNew {entries more : List EventEnvelope} (ordered : Ordered (entries ++ more)) :
    more.foldl setSequence entries = entries ++ more := by
  induction more generalizing entries with
  | nil => exact (List.append_nil _).symm
  | cons event more ih =>
    have fresh : (entries.any fun old => old.sequence == event.sequence) = false := by
      rw [List.any_eq_false]
      intro old member same
      have less := (List.pairwise_append.mp ordered).2.2 old member event List.mem_cons_self
      rw [beq_iff_eq.mp same] at less
      exact Nat.lt_irrefl _ less
    have added : setSequence entries event = entries ++ [event] := by
      rw [setSequence, fresh]
      rfl
    rw [List.foldl_cons, added, ih (by rwa [List.append_assoc]), List.append_assoc]
    rfl

theorem mergeAppends {current incoming : List EventEnvelope} (maximumEvents : Nat)
    (ordered : Ordered (current ++ incoming)) :
    mergeSessionEvents current incoming maximumEvents = lastOf maximumEvents (current ++ incoming) := by
  have sorted : (current ++ incoming).Pairwise fun left right =>
      decide (left.sequence ≤ right.sequence) = true :=
    ordered.imp fun less => decide_eq_true (Nat.le_of_lt less)
  have inserted : (current ++ incoming).foldl setSequence [] = current ++ incoming := setAllNew ordered
  rw [mergeSessionEvents, inserted, List.mergeSort_of_pairwise sorted]

section Reading
variable {limit slots : Nat} {May : Desk → Act → Prop} {Quiet : Desk → Desk → Prop} {start d d' last : Desk} {cursor : Nat} {got : List EventEnvelope}
  {gaps : List ReplayGap}

def Keeps (limit : Nat) (d : Desk) : Prop := ∀ log, d.log = some log → log.Kept limit

/-- What the daemon retains: the ring, or the rows of a session that is not listed. -/
def retained (d : Desk) : List EventEnvelope :=
  match d.log with
  | some log => log.retained
  | none => d.rows

theorem sentOrdered {log : EventLog} (kept : log.Kept limit) : Ordered log.sent := by
  have numbers : (log.sent.map EventEnvelope.sequence).Pairwise (· < ·) := by
    rw [kept.sequences]
    exact List.pairwise_lt_range'
  exact List.pairwise_map.mp numbers

theorem polledOrdered (keeps : Keeps limit start)
    (polled : Polled limit slots start d cursor got gaps) :
    Ordered got ∧ ∀ event ∈ got, event.sequence ≤ cursor := by
  cases listed : start.log with
  | none =>
    obtain ⟨-, -, same⟩ := polledDurable listed polled
    rw [same]
    refine ⟨start.ordered.sublist List.filter_sublist, fun event member => ?_⟩
    simpa using (List.mem_filter.mp member).2
  | some base =>
    obtain ⟨log, -, kept, -, followed⟩ := polledLive listed (keeps base listed) polled
    refine ⟨(sentOrdered kept).sublist (followed.ordered.trans (List.take_sublist _ _)),
      fun event member => ?_⟩
    obtain ⟨index, bound, rfl⟩ := List.mem_take_iff_getElem.mp (followed.ordered.subset member)
    have number := kept.numbered index _ (List.getElem?_eq_getElem (by omega))
    omega

theorem answerAdvances (keeps : Keeps limit start)
    (polled : Polled limit slots start d cursor got gaps) {maximum wait : Nat}
    {batch : SessionEventBatch} (room : 0 < maximum)
    (ran : Runs limit slots d (readSessionEvents cursor maximum wait) d' (.ok batch)) :
    cursor ≤ batch.nextSequence := by
  cases listed : start.log with
  | none =>
    obtain ⟨closed, -⟩ := polledDurable listed polled
    obtain ⟨read, -, next⟩ := durableAnswered closed ran
    by_cases empty : batch.events = []
    · rw [next, empty]
      exact Nat.le_refl _
    · rw [next]
      exact Nat.le_of_lt ((sortedTake start.ordered cursor maximum read).2 empty)
  | some base =>
    obtain ⟨log, here, kept, -, followed⟩ := polledLive listed (keeps base listed) polled
    have answered := liveAnswered here kept room ran
    obtain ⟨-, -, -, -, -, advances⟩ := followedAnswer followed answered
    by_cases empty : batch.events = []
    · rw [answered.next, empty]
      exact Nat.le_refl _
    · exact Nat.le_of_lt (advances empty)

theorem followsPolled (keeps : Keeps limit start) {w : Window}
    (follows : Follows limit slots May Quiet start d w) :
    ∃ got gaps, Polled limit slots start d w.cursor got gaps ∧
      w.events = lastOf defaultUiEventLimit got := by
  induction follows with
  | start => exact ⟨[], [], .start, rfl⟩
  | elsewhere before step quiet ih =>
    obtain ⟨got, gaps, polled, events⟩ := ih
    exact ⟨got, gaps, .elsewhere polled step, events⟩
  | @answered d d' w batch before follows granted ran ih =>
    obtain ⟨got, gaps, polled, events⟩ := ih
    have polled' := Polled.answered polled ⟨by decide, by decide⟩ (watchedRuns ran)
    have next : max w.cursor batch.nextSequence = batch.nextSequence :=
      Nat.max_eq_right (answerAdvances keeps polled (by decide) (watchedRuns ran))
    refine ⟨got ++ batch.events, gaps ++ batch.replayGap.toList, ?_, ?_⟩
    · rw [receiveCursor, next]
      exact polled'
    · have ordered := (polledOrdered keeps polled').1
      have shown : Ordered (lastOf defaultUiEventLimit got ++ batch.events) :=
        ordered.sublist ((lastOfSublist _ _).append (List.Sublist.refl _))
      rw [receiveEvents, events, mergeAppends _ shown, lastOfAppend]
  | failed before follows granted ran ih =>
    obtain ⟨got, gaps, polled, events⟩ := ih
    exact ⟨got, gaps, .failed polled (watchedRuns ran), events⟩
  | granted before granted ih => exact ih
  | lost before ih => exact ih
  | snapshot before settles granted shown ih => exact ih
  | again before ih => exact ih

theorem polledGaps (keeps : Keeps limit start) {base : EventLog} (listed : start.log = some base)
    (polled : Polled limit slots start d cursor got gaps) :
    ∀ log, d.log = some log → ∀ gap ∈ gaps, gap.availableAfterSequence ≤ log.droppedThroughSequence := by
  have grows : ∀ {d d' : Desk} {log log' : EventLog}, d.log = some log → d'.log = some log' →
      log.Kept limit → log'.Kept limit → log.sent <+: log'.sent →
      log.droppedThroughSequence ≤ log'.droppedThroughSequence := by
    intro d d' log log' _ _ kept kept' more
    have longer := more.length_le
    rw [kept.latest, kept'.latest] at longer
    rw [kept.dropped, kept'.dropped]
    omega
  induction polled with
  | start => exact fun _ _ _ => nofun
  | @elsewhere d d' cursor got gaps before step ih =>
    intro log' here' gap member
    obtain ⟨log, here, kept, -⟩ := polledLive listed (keeps base listed) before
    obtain ⟨_, same, kept', more⟩ :=
      grownDrifts ⟨log, here, kept, List.prefix_refl _⟩ (.single step)
    cases here'.symm.trans same
    exact Nat.le_trans (ih log here gap member) (grows here here' kept kept' more)
  | @answered d d' cursor got gaps maximum wait batch before accepted ran ih =>
    intro log' here' gap member
    obtain ⟨log, here, kept, -⟩ := polledLive listed (keeps base listed) before
    have answered := liveAnswered here kept accepted.1 ran
    obtain ⟨_, same, kept', more⟩ := answered.grown
    cases here'.symm.trans same
    rcases List.mem_append.mp member with old | new
    · exact Nat.le_trans (ih log here gap old) (grows here here' kept kept' more)
    · obtain ⟨_, seen, same', -, inside, -, -, told, -⟩ := answered.read
      cases here'.symm.trans same'
      rw [told] at new
      split at new
      · cases List.mem_singleton.mp new
        rw [kept'.dropped, ← kept'.latest]
        exact Nat.sub_le_sub_right inside _
      · cases new
  | @failed d d' cursor got gaps maximum wait error before ran ih =>
    intro log' here' gap member
    obtain ⟨log, here, kept, -⟩ := polledLive listed (keeps base listed) before
    obtain ⟨_, same, kept', more⟩ := failedGrown ⟨log, here, kept, List.prefix_refl _⟩ ran
    cases here'.symm.trans same
    exact Nat.le_trans (ih log here gap member) (grows here here' kept kept' more)

theorem sameOrdered {back : List EventEnvelope} (ordered : Ordered back) {part : List EventEnvelope}
    (sub : part.Sublist back) (all : ∀ event ∈ back, event ∈ part) : part = back := by
  have distinct : back.Nodup := ordered.imp fun less same => by
    rw [same] at less
    exact Nat.lt_irrefl _ less
  exact sub.eq_of_length_le (List.subperm_of_subset distinct all).length_le

theorem readRing {log : EventLog} (kept : log.Kept limit)
    (followed : Followed log cursor got gaps)
    (gapped : ∀ gap ∈ gaps, gap.availableAfterSequence ≤ log.droppedThroughSequence)
    (caught : ∀ event ∈ log.retained, event.sequence ≤ cursor) :
    ∃ front, got = front ++ log.retained ∧ front.length ≤ log.droppedThroughSequence := by
  have ordered := sentOrdered kept
  have inside : got.Sublist log.sent := followed.ordered.trans (List.take_sublist _ _)
  have number : ∀ event ∈ log.retained, log.droppedThroughSequence < event.sequence ∧
      event ∈ log.sent ∧ event ∈ log.sent.take cursor := by
    intro event member
    have low := caught event member
    rw [kept.retained] at member
    obtain ⟨index, bound, same⟩ := List.mem_drop_iff_getElem.mp member
    have there : log.sent[log.droppedThroughSequence + index]? = some event :=
      (List.getElem?_eq_getElem (by omega)).trans (congrArg some same)
    have sequence := kept.numbered _ event there
    refine ⟨by omega, List.mem_of_mem_drop member,
      List.mem_take_iff_getElem.mpr ⟨log.droppedThroughSequence + index, by omega, same⟩⟩
  have read : ∀ event ∈ log.retained, event ∈ got := by
    intro event member
    obtain ⟨above, -, there⟩ := number event member
    cases followed.covered event there with
    | inl had => exact had
    | inr told =>
      obtain ⟨gap, mem, -, high⟩ := told
      exact absurd (Nat.le_trans high (gapped gap mem)) (Nat.not_le_of_lt above)
  have split' : log.sent = log.sent.take log.droppedThroughSequence ++ log.retained := by
    rw [kept.retained, List.take_append_drop]
  rw [split'] at inside ordered
  obtain ⟨front, back, same, first, second⟩ := List.sublist_append_iff.mp inside
  have apart := (List.pairwise_append.mp ordered).2.2
  have whole : back = log.retained := by
    refine sameOrdered (List.pairwise_append.mp ordered).2.1 second fun event member => ?_
    have there := read event member
    rw [same] at there
    cases List.mem_append.mp there with
    | inl early => exact absurd (apart event (first.subset early) event member) (Nat.lt_irrefl _)
    | inr late => exact late
  refine ⟨front, by rw [same, whole], ?_⟩
  exact Nat.le_trans first.length_le (List.length_take_le _ _)

theorem caughtUp {w : Window} (keeps : Keeps limit start) (deep : defaultUiEventLimit ≤ limit)
    (follows : Follows limit slots May Quiet start d w)
    (caught : ∀ event ∈ retained d, event.sequence ≤ w.cursor) :
    w.events = lastOf defaultUiEventLimit (retained d) := by
  obtain ⟨got, gaps, polled, shown⟩ := followsPolled keeps follows
  rw [shown]
  unfold retained at caught ⊢
  cases listed : start.log with
  | none =>
    obtain ⟨closed, -, same⟩ := polledDurable listed polled
    simp only [closed.1, closed.2] at caught ⊢
    rw [same, List.filter_eq_self.mpr fun event member => decide_eq_true (caught event member)]
  | some base =>
    obtain ⟨log, here, kept, -, followed⟩ := polledLive listed (keeps base listed) polled
    simp only [here] at caught ⊢
    obtain ⟨front, same, short⟩ := readRing kept followed (polledGaps keeps listed polled log here) caught
    rw [same]
    by_cases full : defaultUiEventLimit ≤ log.retained.length
    · exact lastOfBehind front full
    · have length : log.retained.length = log.sent.length - log.droppedThroughSequence := by
        rw [kept.retained, List.length_drop]
      have dropped := kept.dropped
      have latest := kept.latest
      have none' : front = [] := List.length_eq_zero_iff.mp (by omega)
      rw [none', List.nil_append]

end Reading

open Interleaving Session

/-- The kind `finalize_run` ends a run with; an incompatible run ends with its protocol failure. -/
def finalKind : SessionState → String
  | .completed => "run_completed"
  | .stopped => "run_stopped"
  | .incompatible => "protocol_incompatible"
  | _ => "run_failed"

def Final (run : RunId) (state : SessionState) (event : EventEnvelope) : Prop :=
  event.runId = some run ∧ event.event.kind = finalKind state

structure Complete (run : RunId) (state : SessionState) (d : Desk) (events : List EventEnvelope) :
    Prop where
  recent : events = lastOf defaultUiEventLimit (retained d)
  final : ∃ event ∈ events, Final run state event
  ordered : Ordered events

/-- The daemon runs its supervisor with the default limits. -/
abbrev deployed (sup : Supervisor) : Supervisor := { sup with limits := .default }

abbrev deployedSlots : Nat := channelSlots FakeSessionLimits.default.broadcastEvents

def Opens {sup : Supervisor} (c : Config (machine (deployed sup))) (session : SessionId)
    (start : Desk) : Prop :=
  start.log = if session ∈ c.memory.listed then
    (c.memory.sessions session).map SessionRecord.events else none

theorem opensKeeps {sup : Supervisor} {c : Config (machine (deployed sup))} {session : SessionId}
    {start : Desk} (reached : Reach Always (initially (deployed sup)) c)
    (opens : Opens c session start) : Keeps FakeSessionLimits.default.replayEvents start := by
  intro log listed
  rw [opens] at listed
  split at listed
  · obtain ⟨record, found, rfl⟩ := Option.map_eq_some_iff.mp listed
    exact reachLogs reached found
  · cases listed

/-- The run's final event is among the last ones the daemon retains. -/
def Ended (run : RunId) (state : SessionState) (d : Desk) : Prop :=
  ∃ event ∈ lastOf defaultUiEventLimit (retained d), Final run state event

/-- A call that looks at a settled session has nothing left to take, and the final event is
among the last ones. -/
def Timely (run : RunId) (d : Desk) : Polling.Act → Prop
  | .snapshot => isSessionSettled d.state = true →
    (∀ log s, d.log = some log → d.subscription = some s → s.undelivered log = []) ∧ Ended run d.state d
  | .persisted after maximum => ∀ state, d.stored = some state → isSessionSettled state = true →
    (d.rows.filter fun event => after < event.sequence).length ≤ maximum ∧ Ended run state d
  | _ => True

def Still (d d' : Desk) : Prop := d'.log = d.log ∧ finalSnapshot d' = finalSnapshot d

abbrev Loops (start : Desk) : Desk → Window → Prop :=
  Follows FakeSessionLimits.default.replayEvents deployedSlots (fun _ _ => True) (fun _ _ => True) start

abbrev TimelyLoops (run : RunId) (start : Desk) : Desk → Window → Prop :=
  Follows FakeSessionLimits.default.replayEvents deployedSlots (Timely run) Still start

/-- What a settled answer leaves: nothing behind its cursor, and the end of the run among the
last events. -/
structure Settled (run : RunId) (state : SessionState) (d : Desk) (cursor : Nat) : Prop where
  caught : ∀ event ∈ retained d, event.sequence ≤ cursor
  shown : finalSnapshot d = some state
  ended : Ended run state d

section Settling
variable {limit slots cursor maximum wait : Nat} {run : RunId} {d d' last start : Desk} {batch : SessionEventBatch}

theorem keptLow {log : EventLog} (kept : log.Kept limit) {event : EventEnvelope} (member : event ∈ log.sent) :
    event.sequence ≤ log.sent.length := by
  obtain ⟨index, bound, same⟩ := List.mem_iff_getElem.mp member
  have number := kept.numbered index event (by rw [List.getElem?_eq_getElem bound, same])
  omega

theorem givenCaught {log : EventLog} {s : FakeSessionSubscription} {got : List EventEnvelope} {dropped : Nat}
    (given : Given limit (max cursor dropped) log s got) (drained : s.undelivered log = [])
    (older : dropped ≤ log.droppedThroughSequence) :
    ∀ event ∈ log.retained, event.sequence ≤ max cursor (nextSequence cursor got) := by
  have exact' := given.exact
  rw [drained, List.append_nil] at exact'
  intro event member
  have sent : event ∈ log.sent := List.mem_of_mem_drop (given.kept.retained ▸ member)
  have low := keptLow given.kept sent
  by_cases empty : got = []
  · rw [empty] at exact'
    have whole := List.drop_eq_nil_iff.mp exact'.symm
    by_cases inside : log.sent.length ≤ cursor
    · exact Nat.le_trans low (Nat.le_trans inside (Nat.le_max_left _ _))
    · rw [given.kept.retained, List.drop_eq_nil_of_le (by omega)] at member
      cases member
  · have last : nextSequence cursor got = max cursor dropped + got.length :=
      nextSequenceLast given.kept (show got <+: _ by rw [exact']) empty
    have length := congrArg List.length exact'
    rw [List.length_drop] at length
    have bound := given.low
    rw [last]
    omega

theorem liveTimely {base : EventLog} (listed : d.log = some base) (kept : base.Kept limit)
    (ran : Watched limit slots (Timely run) d (readSessionEvents cursor maximum wait) last (.ok batch))
    (settled : isSessionSettled batch.state = true) :
    Settled run batch.state last (max cursor batch.nextSequence) := by
  obtain ⟨d₁, d₂, choice, answer, drifts, -, effect, rest⟩ := watchedAct ran
  obtain ⟨log, here, kept', more⟩ := grownDrifts ⟨base, listed, kept, List.prefix_refl _⟩ drifts
  simp only [Desk.apply, here] at effect
  cases subscribed : log.subscribe cursor with
  | none =>
    simp only [subscribed] at effect
    cases effect
    have same := (watchedDone rest).2
    cases same
  | some s =>
    simp only [subscribed] at effect
    cases effect
    have reading : Reading limit log (max cursor log.droppedThroughSequence)
        { d₁ with log := some log, subscription := some s } [] :=
      ⟨log, s, rfl, rfl, List.prefix_refl _, givenSubscribed kept' subscribed⟩
    obtain ⟨mid, found, read, rest'⟩ := watchedBind (p := readLive maximum wait) rest
    cases found with
    | error error =>
      have same := (watchedDone rest').2
      cases same
    | ok events =>
      obtain ⟨reading', -⟩ := readLiveReading reading (watchedRuns read)
      obtain ⟨d₃, d₄, choice', snapshot, drifts', timely, effect', rest''⟩ := watchedAct rest'
      obtain ⟨log', s', here', taken, more', given⟩ := readingDrifts reading' drifts'
      simp only [Desk.apply, here'] at effect'
      cases effect'
      obtain ⟨rfl, same⟩ := watchedDone rest''
      cases same
      obtain ⟨drained, ended⟩ := timely settled
      refine ⟨?_, by rw [finalSnapshot, here'], ended⟩
      unfold retained
      rw [here']
      refine givenCaught given (drained log' s' here' taken) ?_
      rw [kept'.dropped, given.kept.dropped, ← kept'.latest, ← given.kept.latest]
      exact Nat.sub_le_sub_right more'.length_le _

theorem durableTimely (unlisted : d.log = none)
    (ran : Watched limit slots (Timely run) d (readSessionEvents cursor maximum wait) last (.ok batch))
    (settled : isSessionSettled batch.state = true) :
    Settled run batch.state last (max cursor batch.nextSequence) := by
  obtain ⟨d₁, d₂, choice, answer, drifts, -, effect, rest⟩ := watchedAct ran
  have closed := closedDrifts (d := d) ⟨unlisted, rfl⟩ drifts
  simp only [Desk.apply, closed.1] at effect
  cases effect
  obtain ⟨d₃, d₄, choice', answer, drifts', timely, effect', rest'⟩ :=
    watchedAct (o := .persisted cursor maximum) rest
  have closed₃ := closedDrifts closed drifts'
  have answered : d₄ = d₃ ∧ ∃ latest state, d₃.stored = some state ∧ answer = .ok (latest, state,
      (d₃.rows.filter fun event => cursor < event.sequence).take maximum) := by
    simp only [Desk.apply] at effect'
    cases effect'
    refine ⟨rfl, ?_⟩
    cases choice' with
    | unhealthy =>
      have same := (watchedDone rest').2
      cases same
    | _ =>
      cases stored : d₃.stored with
      | none =>
        rw [stored] at rest'
        have same := (watchedDone rest').2
        cases same
      | some state => exact ⟨_, state, rfl, rfl⟩
  obtain ⟨rfl, latest, state, stored, rfl⟩ := answered
  simp only [Prog.bind] at rest'
  split at rest'
  · have same := (watchedDone rest').2
    cases same
  · obtain ⟨rfl, same⟩ := watchedDone rest'
    cases same
    obtain ⟨short, ended⟩ := timely state stored settled
    refine ⟨fun event member => ?_, by rw [finalSnapshot, closed₃.1, stored], ended⟩
    rw [retained, closed₃.1] at member
    have whole := (sortedTake last.ordered cursor maximum rfl).1
    rw [List.take_of_length_le short, ← sortedSplit last.ordered cursor] at whole
    rw [← whole] at member
    rw [List.take_of_length_le short]
    exact Nat.le_trans (of_decide_eq_true (List.mem_filter.mp member).2) (Nat.le_max_right _ _)

end Settling

theorem stillSettled {cursor : Nat} {limit : Nat} {run : RunId} {state : SessionState} {d d' : Desk}
    (settled : Settled run state d cursor) (step : Elsewhere limit d d') (still : Still d d') :
    Settled run state d' cursor := by
  have same : retained d' = retained d := by
    unfold retained
    rw [still.1]
    cases step with
    | move state => rfl
    | publish listed published | store listed => rw [listed]
  obtain ⟨caught, shown, ended⟩ := settled
  refine ⟨by rwa [same], still.2.trans shown, ?_⟩
  unfold Ended at ended ⊢
  rwa [same]

theorem followsSettled {limit slots : Nat} {run : RunId} {start d : Desk} {w : Window} (keeps : Keeps limit start)
    (follows : Follows limit slots (Timely run) Still start d w) (settles : w.stage = .settling) :
    ∃ state, Settled run state d w.cursor := by
  induction follows with
  | elsewhere before step quiet ih =>
    obtain ⟨state, settled⟩ := ih settles
    exact ⟨state, stillSettled settled step (quiet settles)⟩
  | granted before granted ih => exact ih settles
  | @answered d d' w batch before follows granted ran ih =>
    have settled : isSessionSettled batch.state = true := by
      by_contra running
      rw [Window.receive, if_neg running] at settles
      cases settles
    obtain ⟨got, gaps, polled, -⟩ := followsPolled keeps before
    refine ⟨batch.state, ?_⟩
    cases listed : start.log with
    | none => exact durableTimely (polledDurable listed polled).1.1 ran settled
    | some base =>
      obtain ⟨log, here, kept, -⟩ := polledLive listed (keeps base listed) polled
      exact liveTimely here kept ran settled
  | start | failed | lost | snapshot | again => cases settles

/-- What the loop holds when it takes its final snapshot. -/
theorem followComplete {sup : Supervisor} {c : Config (machine (deployed sup))} {session : SessionId}
    {run : RunId} {state : SessionState} {start d : Desk} {w : Window}
    (reached : Reach Always (initially (deployed sup)) c) (opens : Opens c session start)
    (loops : TimelyLoops run start d w) (settles : w.stage = .settling) (shown : finalSnapshot d = some state) :
    Complete run state d w.events := by
  have keeps := opensKeeps reached opens
  obtain ⟨state', caught, shown', ended⟩ := followsSettled keeps loops settles
  cases shown.symm.trans shown'
  have recent := caughtUp keeps (by decide) loops caught
  obtain ⟨got, gaps, polled, held⟩ := followsPolled keeps loops
  refine ⟨recent, recent ▸ ended, ?_⟩
  rw [held]
  exact (polledOrdered keeps polled).1.sublist (lastOfSublist _ _)

theorem publishPlain {limit : Nat} {log : EventLog} (kept : log.Kept limit) (room : log.latestSequence < u64Max)
    (session : SessionId) (run : Option RunId) (source : EventSource) (event : NormalizedEvent) :
    ∃ log', log.publish limit session run source event =
        some (⟨session, run, log.latestSequence + 1, source, event⟩, log') ∧ log'.Kept limit ∧
      log'.sent = log.sent ++ [⟨session, run, log.latestSequence + 1, source, event⟩] := by
  have published : log.publish limit session run source event = some (_, _) :=
    if_neg (Nat.not_le_of_lt room)
  obtain ⟨kept', sent⟩ := EventLog.keptPublish kept published
  exact ⟨_, published, kept', sent⟩

theorem startedDesk : ∃ (c : Config (machine (deployed (plain [])))) (start : Desk) (log : EventLog)
    (event : EventEnvelope), Reach Always (initially (deployed (plain []))) c ∧ Opens c 0 start ∧
      start.log = some log ∧ log.Kept FakeSessionLimits.default.replayEvents ∧
      log.sent = [event] ∧ log.latestSequence = 1 := by
  obtain ⟨c, ran, seen⟩ := Option.map_eq_some_iff.mp startedLog
  obtain ⟨record, found, shown⟩ := Option.map_eq_some_iff.mp seen
  obtain ⟨latest, dropped, listed⟩ : _ ∧ _ ∧ _ := by simpa using shown
  have reached : Reach Always (initially (plain [])) c := reachRun .start (fun _ _ => trivial) ran
  have kept : record.events.Kept FakeSessionLimits.default.replayEvents := reachLogs reached found
  obtain ⟨event, one⟩ := List.length_eq_one_iff.mp (kept.latest.trans latest)
  have present : 0 ∈ c.memory.listed := by
    rw [listed]
    decide
  refine ⟨c, ⟨some record.events, .running, none, none, [], .nil, nofun⟩, record.events, event,
    reached, ?_, rfl, kept, one, latest⟩
  change some record.events = _
  rw [if_pos present, found]
  rfl

def completed : NormalizedEvent := .user "run_completed" (.object [("run_id", runValue 0)])

theorem retainedAll {d : Desk} {log : EventLog} (here : d.log = some log)
    (kept : log.Kept FakeSessionLimits.default.replayEvents) (short : log.sent.length ≤ 2048) :
    retained d = log.sent := by
  have none' : log.droppedThroughSequence = 0 := by
    rw [kept.dropped, ← kept.latest]
    exact Nat.sub_eq_zero_of_le short
  simp only [retained, here]
  rw [kept.retained, none', List.drop_zero]

theorem readLast {May : Desk → Polling.Act → Prop} {Quiet : Desk → Desk → Prop} {start d : Desk} {log : EventLog}
    {before : List EventEnvelope} {event : EventEnvelope}
    (may : ∀ d, (∀ after, May d (.subscribe after)) ∧ May d .tryRecv)
    (looks : May { d with subscription := some ⟨[], before.length + 1, none⟩ } .snapshot) (here : d.log = some log)
    (kept : log.Kept FakeSessionLimits.default.replayEvents) (sent : log.sent = before ++ [event])
    (short : log.sent.length ≤ defaultUiEventLimit)
    (loops : Follows FakeSessionLimits.default.replayEvents deployedSlots May Quiet start d
      ⟨before.length, before, .following, true⟩) :
    ∃ d', d'.log = some log ∧ d'.state = d.state ∧
      Follows FakeSessionLimits.default.replayEvents deployedSlots May Quiet start d' ⟨before.length + 1, log.sent,
        if isSessionSettled d.state then .settling else .following, true⟩ := by
  have called := lastWatched sent kept d here 254 sessionReadWaitMilliseconds may looks
  have sequence : event.sequence = before.length + 1 :=
    kept.numbered before.length event (by rw [sent, List.getElem?_concat_length])
  have merged : mergeSessionEvents before [event] defaultUiEventLimit = log.sent := by
    rw [mergeAppends _ (by rw [← sent]; exact sentOrdered kept), ← sent, lastOfWhole short]
  refine ⟨{ d with subscription := some ⟨[], before.length + 1, none⟩ }, here, rfl, ?_⟩
  have answered := Follows.answered loops rfl rfl called
  rw [Window.receive, merged, sequence, Nat.max_eq_right (Nat.le_succ _)] at answered
  exact answered

theorem followsBehind : ∃ (c : Config (machine (deployed (plain [])))) (start d : Desk)
    (event : EventEnvelope), Reach Always (initially (deployed (plain []))) c ∧ Opens c 0 start ∧
      Loops start d ⟨1, [event], .settled .completed, true⟩ ∧ (retained d).length = 2 ∧
      ∃ event ∈ retained d, Final 0 .completed event := by
  obtain ⟨c, start, log, event, reached, opens, listed, kept, sent, latest⟩ := startedDesk
  let settled : Desk := { start with state := .completed }
  have moved : settled.log = some log := listed
  obtain ⟨d, here, state, answered⟩ := readLast (fun _ => ⟨fun _ => trivial, trivial⟩) trivial moved kept
    (show log.sent = [] ++ [event] from sent) (by simp [sent, defaultUiEventLimit])
    (show Loops start settled _ from .elsewhere .start (.move .completed) fun _ => trivial)
  rw [sent] at answered
  obtain ⟨log', published, kept', sent'⟩ :=
    publishPlain kept (by rw [latest]; decide) 0 (some 0) .daemon completed
  have behind := Follows.elsewhere answered (.publish here published) fun _ => trivial
  have ended := Follows.snapshot behind rfl rfl (show _ = some d.state from rfl)
  rw [state] at ended
  rw [sent] at sent'
  have all : ∀ {d : Desk}, d.log = some log' → retained d = log'.sent :=
    fun here' => retainedAll here' kept' (by simp [sent'])
  refine ⟨c, start, _, event, reached, opens, ended, ?_, ?_⟩
  · rw [all rfl, sent']
    rfl
  · rw [all rfl, sent']
    exact ⟨_, .tail _ (.head _), rfl, rfl⟩

/-- The state is settled before the final event is published: an answer between the two ends
the loop, and the final snapshot already counts an event that was never read. -/
theorem followBehind : ¬ ∀ (sup : Supervisor) (c : Config (machine (deployed sup)))
    (session : SessionId) (run : RunId) (state : SessionState) (start d : Desk) (cursor : Nat)
    (events : List EventEnvelope) (granted : Bool),
    Reach Always (initially (deployed sup)) c → Opens c session start →
      Loops start d ⟨cursor, events, .settled state, granted⟩ →
      (∃ event ∈ retained d, Final run state event) → Complete run state d events := by
  intro complete
  obtain ⟨c, start, d, event, reached, opens, loops, two, final⟩ := followsBehind
  have whole := complete (plain []) c 0 0 .completed start d 1 [event] true reached opens loops final
  have length := congrArg List.length whole.recent
  rw [lastOfLength, two] at length
  cases length

theorem timelyReads (run : RunId) (d : Desk) :
    (∀ after, Timely run d (.subscribe after)) ∧ Timely run d .tryRecv := ⟨fun _ => trivial, trivial⟩

theorem followsOnce : ∃ (c : Config (machine (deployed (plain [])))) (start d : Desk) (w : Window),
    Reach Always (initially (deployed (plain []))) c ∧ Opens c 0 start ∧ TimelyLoops 0 start d w ∧
      w.stage = .settling ∧ finalSnapshot d = some .completed ∧ (retained d).length = 2 := by
  obtain ⟨c, start, log, event, reached, opens, listed, kept, sent, latest⟩ := startedDesk
  obtain ⟨log', published, kept', sent'⟩ :=
    publishPlain kept (by rw [latest]; decide) 0 (some 0) .daemon completed
  have length : log'.sent.length = 2 := by simp [sent', sent]
  let running : Desk := { start with state := .running }
  have moved : running.log = some log := listed
  obtain ⟨d, here, -, first⟩ := readLast (timelyReads 0) (by intro settled; cases settled) moved kept
    (show log.sent = [] ++ [event] from sent) (by simp [sent, defaultUiEventLimit])
    (show TimelyLoops 0 start running _ from .elsewhere .start (.move .running) (by intro settles; cases settles))
  rw [sent] at first
  have settled := Follows.elsewhere first (.move .completed) (by intro settles; cases settles)
  have final := Follows.elsewhere settled (.publish here published) (by intro settles; cases settles)
  have ended : ∀ {d : Desk}, d.log = some log' → Ended 0 .completed d := by
    intro d here'
    unfold Ended
    rw [retainedAll here' kept' (by omega), lastOfWhole (by rw [length]; decide), sent']
    exact ⟨_, List.mem_append_right _ (List.mem_singleton_self _), rfl, rfl⟩
  have drained : ∀ log s, some log' = some log → some ⟨[], 2, none⟩ = some s →
      FakeSessionSubscription.undelivered log s = [] := by
    intro log s here' taken
    cases here'
    cases taken
    exact List.drop_eq_nil_of_le (Nat.le_of_eq length)
  obtain ⟨d', here', state, second⟩ := readLast (timelyReads 0) (fun _ => ⟨drained, ended rfl⟩) rfl kept'
    (by rw [sent', sent]) (by simp [sent', sent, defaultUiEventLimit]) final
  refine ⟨c, start, d', _, reached, opens, second, rfl, ?_, ?_⟩
  · rw [finalSnapshot, here', state]
  · rw [retainedAll here' kept' (by omega), length]

theorem followCompleteOnce : ∃ (d : Desk) (events : List EventEnvelope),
    (retained d).length = 2 ∧ Complete 0 .completed d events := by
  obtain ⟨c, start, d, w, reached, opens, loops, settles, shown, two⟩ := followsOnce
  exact ⟨d, w.events, two, followComplete reached opens loops settles shown⟩

end Maestro.FollowLoop
