import Maestro.Setting

/-! The event log of a session over every run, and what one subscriber is given of it
while other tasks publish. -/
namespace Maestro

structure EventLog.Kept (limit : Nat) (log : EventLog) : Prop where
  numbered : ∀ index event, log.sent[index]? = some event → event.sequence = index + 1
  latest : log.sent.length = log.latestSequence
  dropped : log.droppedThroughSequence = log.latestSequence - limit
  retained : log.retained = log.sent.drop log.droppedThroughSequence
  bounded : log.retained.length ≤ limit

namespace EventLog
variable {limit : Nat} {log log' : EventLog}

theorem keptEmpty : EventLog.empty.Kept limit :=
  ⟨nofun, rfl, (Nat.zero_sub limit).symm, rfl, Nat.zero_le _⟩

theorem Kept.low (kept : log.Kept limit) : log.droppedThroughSequence ≤ log.sent.length := by
  rw [kept.latest, kept.dropped]
  exact Nat.sub_le _ _

theorem trimDrop {sent : List EventEnvelope}
    (numbered : ∀ index event, sent[index]? = some event → event.sequence = index + 1)
    (ring : List EventEnvelope) (dropped : Nat) (here : ring = sent.drop dropped)
    (bound : dropped ≤ sent.length) :
    trim limit ring dropped =
      (sent.drop (max dropped (sent.length - limit)), max dropped (sent.length - limit)) := by
  induction ring generalizing dropped with
  | nil =>
    have full := List.drop_eq_nil_iff.mp here.symm
    have same : max dropped (sent.length - limit) = dropped := by omega
    rw [trim, same, ← here]
  | cons first rest ih =>
    have length : (first :: rest).length = sent.length - dropped := by rw [here, List.length_drop]
    have at' : sent[dropped]? = some first := by
      rw [← List.head?_drop, ← here, List.head?_cons]
    have behind : rest = sent.drop (dropped + 1) := by
      rw [← List.drop_drop, ← here, List.drop_one, List.tail_cons]
    have less := (List.getElem?_eq_some_iff.mp at').1
    simp only [trim]
    split
    · rename_i beyond
      have same : max (dropped + 1) (sent.length - limit) = max dropped (sent.length - limit) := by
        omega
      rw [numbered dropped first at', ih (dropped + 1) behind less, same]
    · have same : max dropped (sent.length - limit) = dropped := by omega
      rw [same, here]

theorem numberedFilter {events : List EventEnvelope} {offset : Nat}
    (numbered : ∀ index event, events[index]? = some event → event.sequence = offset + index + 1)
    (cursor : Nat) :
    (events.filter fun event => cursor < event.sequence) = events.drop (cursor - offset) := by
  induction events generalizing offset with
  | nil => simp
  | cons first rest ih =>
    have head := numbered 0 first rfl
    have tail : ∀ index event, rest[index]? = some event →
        event.sequence = (offset + 1) + index + 1 := by
      intro index event here
      rw [numbered (index + 1) event here]
      omega
    by_cases later : cursor < first.sequence
    · have none' : cursor - offset = 0 := by omega
      have none'' : cursor - (offset + 1) = 0 := by omega
      rw [List.filter_cons_of_pos (by simpa using later), ih tail, none', none'', List.drop_zero,
        List.drop_zero]
    · have some' : cursor - offset = (cursor - (offset + 1)) + 1 := by omega
      rw [List.filter_cons_of_neg (by simpa using later), ih tail, some', List.drop_succ_cons]

theorem Kept.after (kept : log.Kept limit) (cursor : Nat) :
    (log.sent.filter fun event => cursor < event.sequence) = log.sent.drop cursor := by
  have numbered : ∀ index event, log.sent[index]? = some event →
      event.sequence = 0 + index + 1 := by simpa using kept.numbered
  simpa using numberedFilter numbered cursor

theorem Kept.sequences (kept : log.Kept limit) :
    log.sent.map EventEnvelope.sequence = List.range' 1 log.latestSequence := by
  apply List.ext_getElem?
  intro index
  rw [List.getElem?_map, ← kept.latest]
  cases here : log.sent[index]? with
  | none =>
    have beyond := List.getElem?_eq_none_iff.mp here
    rw [List.getElem?_eq_none (by simpa using beyond)]
    rfl
  | some event =>
    have less := (List.getElem?_eq_some_iff.mp here).1
    rw [List.getElem?_range' less, Option.map_some, kept.numbered index event here]
    congr 1
    omega

theorem keptPublish (kept : log.Kept limit) {session run source event envelope}
    (published : log.publish limit session run source event = some (envelope, log')) :
    log'.Kept limit ∧ log'.sent = log.sent ++ [envelope] := by
  unfold publish at published
  split at published
  · cases published
  obtain ⟨rfl, rfl⟩ := Prod.mk.inj (Option.some.inj published)
  refine ⟨?_, rfl⟩
  generalize fresh : EventEnvelope.mk session run (log.latestSequence + 1) source event = envelope
  have numbered : ∀ index event, (log.sent ++ [envelope])[index]? = some event →
      event.sequence = index + 1 := by
    intro index event here
    rcases Nat.lt_or_ge index log.sent.length with old | new
    · rw [List.getElem?_append_left old] at here
      exact kept.numbered index event here
    · rw [List.getElem?_append_right new, List.getElem?_singleton] at here
      split at here
      · cases here
        have last := kept.latest
        rw [← fresh]
        dsimp only
        omega
      · cases here
  have ring : log.retained ++ [envelope] =
      (log.sent ++ [envelope]).drop log.droppedThroughSequence := by
    rw [kept.retained, List.drop_append_of_le_length kept.low]
  have length : (log.sent ++ [envelope]).length = log.latestSequence + 1 := by
    simp [kept.latest]
  have low := kept.low
  have dropped := kept.dropped
  have latest := kept.latest
  rw [trimDrop numbered _ _ ring (by omega)]
  refine ⟨numbered, length, ?_, rfl, ?_⟩
  · dsimp only
    omega
  · rw [List.length_drop]
    omega

end EventLog

/-- What one subscriber was given while events were published, lag apart. -/
inductive Feed (limit slots : Nat) (log : EventLog) (s : FakeSessionSubscription) :
    EventLog → FakeSessionSubscription → List EventEnvelope → Prop
  | start : Feed limit slots log s log s []
  | publish {log' log'' s' got session run source event envelope}
      (before : Feed limit slots log s log' s' got)
      (published : log'.publish limit session run source event = some (envelope, log'')) :
      Feed limit slots log s log'' s' got
  | recv {log' s' s'' got event} (before : Feed limit slots log s log' s' got)
      (received : s'.recv slots log' = some (.ok event, s'')) :
      Feed limit slots log s log' s'' (got ++ [event])

namespace FakeSessionSubscription
variable {slots : Nat} {log : EventLog} {s s' : FakeSessionSubscription}

theorem recvNext {event : EventEnvelope} (received : s.recv slots log = some (.ok event, s')) :
    s.undelivered log = event :: s'.undelivered log ∧
      (s.next ≤ log.sent.length → s'.next ≤ log.sent.length) := by
  unfold recv at received
  unfold undelivered
  split at received
  · rename_i first rest replay
    cases received
    exact ⟨by rw [replay, List.cons_append], id⟩
  · rename_i replay
    split at received
    · cases received
    · split at received
      · rename_i first here
        cases received
        have less := (List.getElem?_eq_some_iff.mp here).1
        rw [replay, List.nil_append, List.nil_append]
        refine ⟨?_, fun _ => less⟩
        rw [List.drop_eq_getElem_cons less]
        congr 1
        exact (List.getElem?_eq_some_iff.mp here).2
      · cases received

theorem recvWaits (bound : s.next ≤ log.sent.length) :
    s.recv slots log = none ↔ s.undelivered log = [] := by
  unfold recv undelivered
  cases s.replay with
  | cons first rest => simp
  | nil =>
    rw [List.nil_append, List.drop_eq_nil_iff]
    by_cases lags : s.next + slots < log.sent.length
    · simp [lags]
      omega
    · rw [if_neg lags]
      cases here : log.sent[s.next]? with
      | none => simpa using here
      | some event =>
        have less := (List.getElem?_eq_some_iff.mp here).1
        simp
        omega

end FakeSessionSubscription

section Feeds
variable {limit slots : Nat} {log log' : EventLog} {s s' : FakeSessionSubscription}
  {got : List EventEnvelope}

theorem subscribeSpec (kept : log.Kept limit) {after : Nat} (subscribed : log.subscribe after = some s) :
    after ≤ log.latestSequence ∧ s.next = log.sent.length ∧
      s.replay = log.sent.drop (max after log.droppedThroughSequence) ∧
      s.gap = if after < log.droppedThroughSequence then
        some ⟨after, log.droppedThroughSequence⟩ else none := by
  unfold EventLog.subscribe at subscribed
  split at subscribed
  · cases subscribed
  · rename_i known
    cases subscribed
    refine ⟨by omega, rfl, ?_, rfl⟩
    have numbered : ∀ index event, log.retained[index]? = some event →
        event.sequence = log.droppedThroughSequence + index + 1 := by
      intro index event here
      rw [kept.retained, List.getElem?_drop] at here
      exact kept.numbered _ event here
    have filtered := EventLog.numberedFilter numbered (max after log.droppedThroughSequence)
    dsimp only
    rw [filtered, kept.retained, List.drop_drop]
    congr 1
    omega

structure Given (limit cursor : Nat) (log : EventLog) (s : FakeSessionSubscription)
    (got : List EventEnvelope) : Prop where
  kept : log.Kept limit
  low : cursor ≤ log.sent.length
  next : s.next ≤ log.sent.length
  exact : got ++ s.undelivered log = log.sent.drop cursor

theorem givenSubscribed (kept : log.Kept limit) {after : Nat}
    (subscribed : log.subscribe after = some s) :
    Given limit (max after log.droppedThroughSequence) log s [] := by
  obtain ⟨known, next, replay, -⟩ := subscribeSpec kept subscribed
  refine ⟨kept, Nat.max_le.mpr ⟨kept.latest ▸ known, kept.low⟩, Nat.le_of_eq next, ?_⟩
  rw [FakeSessionSubscription.undelivered, next, List.drop_length, replay, List.append_nil,
    List.nil_append]

theorem givenPublish {cursor : Nat} (given : Given limit cursor log s got)
    {session run source event envelope}
    (published : log.publish limit session run source event = some (envelope, log')) :
    Given limit cursor log' s got := by
  obtain ⟨kept, sent⟩ := EventLog.keptPublish given.kept published
  have length := congrArg List.length sent
  rw [List.length_append, List.length_singleton] at length
  have low := given.low
  have next := given.next
  refine ⟨kept, by omega, by omega, ?_⟩
  rw [FakeSessionSubscription.undelivered, sent, List.drop_append_of_le_length next,
    List.drop_append_of_le_length low, ← given.exact, FakeSessionSubscription.undelivered]
  simp

theorem givenRecv {cursor : Nat} (given : Given limit cursor log s got) {event : EventEnvelope}
    (received : s.recv slots log = some (.ok event, s')) :
    Given limit cursor log s' (got ++ [event]) := by
  obtain ⟨moved, inside⟩ := FakeSessionSubscription.recvNext received
  refine ⟨given.kept, given.low, inside given.next, ?_⟩
  rw [← given.exact, moved, List.append_assoc, List.singleton_append]

theorem feedGiven {cursor : Nat} (given : Given limit cursor log s [])
    (feed : Feed limit slots log s log' s' got) : Given limit cursor log' s' got := by
  induction feed with
  | start => exact given
  | publish before published ih => exact givenPublish ih published
  | recv before received ih => exact givenRecv ih received

theorem feedGrows (kept : log.Kept limit) (feed : Feed limit slots log s log' s' got) :
    log'.Kept limit ∧ log.sent <+: log'.sent := by
  induction feed with
  | start => exact ⟨kept, List.prefix_refl _⟩
  | publish before published ih =>
    obtain ⟨kept', sent⟩ := EventLog.keptPublish ih.1 published
    exact ⟨kept', ih.2.trans (sent ▸ List.prefix_append _ _)⟩
  | recv before received ih => exact ih

end Feeds
namespace Session
open Interleaving
variable {sup : Supervisor}

theorem performLog {session : SessionId} {r r' : SessionRecord} {call : SessionCall}
    {answer : call.Answer} (kept : r.events.Kept sup.limits.replayEvents)
    (performed : r.perform sup session call = some (answer, r')) :
    r'.events.Kept sup.limits.replayEvents := by
  cases call with
  | publish run source event =>
    simp only [SessionRecord.perform] at performed
    split at performed
    · cases performed
      exact kept
    · rename_i envelope events published
      cases performed
      exact (EventLog.keptPublish kept published).1
  | _ =>
    simp only [SessionRecord.perform] at performed
    repeat' split at performed
    all_goals first | contradiction | (cases Option.some.inj performed; exact kept)

theorem reachLogs {c : Config (machine sup)} (reached : Reach Always (initially sup) c)
    {session : SessionId} {record : SessionRecord}
    (found : c.memory.sessions session = some record) :
    record.events.Kept sup.limits.replayEvents := by
  induction reached generalizing session record with
  | start => cases found
  | step before _ moves ih =>
    cases moves with
    | call allowed => exact ih found
    | act performs =>
      rcases recordCases performs.effect found with old | ⟨call, record₁, answer, -, old, performed⟩ |
        ⟨-, rfl⟩
      · exact ih old
      · exact performLog (ih old) performed
      · exact EventLog.keptEmpty
    | outside effect =>
      rcases outsideCases effect with ⟨_, _, rfl⟩ | ⟨_, _, _, _, _, _, rfl⟩
      · exact ih found
      · exact ih found

/-- The ring is the end of the stream, and a subscriber is given the replay and then the
live events, each event behind its cursor once. -/
theorem subscriptionExact {c : Config (machine sup)} (reached : Reach Always (initially sup) c)
    {session : SessionId} {record : SessionRecord}
    (found : c.memory.sessions session = some record) :
    let log := record.events
    log.retained = log.sent.drop log.droppedThroughSequence ∧
      log.retained.map EventEnvelope.sequence = List.range' (log.droppedThroughSequence + 1)
        (log.latestSequence - log.droppedThroughSequence) ∧
      log.retained.length ≤ sup.limits.replayEvents ∧
      ∀ after, (log.subscribe after = none ↔ log.latestSequence < after) ∧
        ∀ s, log.subscribe after = some s →
          (s.gap.isSome = true ↔ after < log.droppedThroughSequence) ∧
          ∀ log' s' got,
            Feed sup.limits.replayEvents (channelSlots sup.limits.broadcastEvents) log s log' s' got →
            let wanted := log'.sent.filter fun event =>
              max after log.droppedThroughSequence < event.sequence
            (wanted.map EventEnvelope.sequence).Pairwise (· < ·) ∧
              wanted = s.replay ++ log'.sent.drop log.sent.length ∧
              got ++ s'.undelivered log' = wanted ∧
              (s'.recv (channelSlots sup.limits.broadcastEvents) log' = none ↔ got = wanted) := by
  intro log
  have kept := reachLogs reached found
  refine ⟨kept.retained, ?_, kept.bounded, fun after => ⟨?_, fun s subscribed => ⟨?_, ?_⟩⟩⟩
  · show log.retained.map EventEnvelope.sequence = _
    rw [kept.retained, List.map_drop, kept.sequences, List.drop_range']
    rw [Nat.mul_one, Nat.add_comm]
  · simp [EventLog.subscribe]
  · obtain ⟨-, -, -, gap⟩ := subscribeSpec kept subscribed
    rw [gap]
    split
    · simpa using ‹_›
    · simpa using Nat.not_lt.mp ‹_›
  · intro log' s' got feed wanted
    obtain ⟨-, -, replay, -⟩ := subscribeSpec kept subscribed
    have start := givenSubscribed kept subscribed
    have given := feedGiven start feed
    obtain ⟨live, sent⟩ := (feedGrows kept feed).2
    have same : wanted = log'.sent.drop (max after log.droppedThroughSequence) :=
      given.kept.after _
    refine ⟨?_, ?_, given.exact.trans same.symm, ?_⟩
    · rw [same, List.map_drop, given.kept.sequences]
      exact List.Pairwise.drop List.pairwise_lt_range'
    · rw [same, ← sent, List.drop_append_of_le_length start.low, List.drop_left, replay]
    · rw [FakeSessionSubscription.recvWaits given.next, same, ← given.exact]
      simp

def startedView (c : Config (machine (plain []))) : Option (Nat × Nat × List SessionId) :=
  (c.memory.sessions 0).map fun record =>
    (record.events.latestSequence, record.events.droppedThroughSequence, c.memory.listed)

theorem startedLog : (runFrom (initially (plain [])) (startTurns 0)).map startedView =
    some (some (1, 0, [0])) := by decide +kernel

theorem subscriptionExactStarted : ∃ (c : Config (machine (plain []))) (record : SessionRecord),
    c.memory.sessions 0 = some record ∧
      record.events.retained.map EventEnvelope.sequence = [1] ∧
      ∃ s, record.events.subscribe 0 = some s ∧ s.undelivered record.events = record.events.sent := by
  obtain ⟨c, ran, seen⟩ := Option.map_eq_some_iff.mp startedLog
  obtain ⟨record, found, shown⟩ := Option.map_eq_some_iff.mp seen
  obtain ⟨latest, dropped, -⟩ : _ ∧ _ ∧ _ := by simpa using shown
  have reached : Reach Always (initially (plain [])) c := reachRun .start (fun _ _ => trivial) ran
  obtain ⟨-, numbers, -, subscribes⟩ := subscriptionExact reached found
  rw [latest, dropped] at numbers
  refine ⟨c, record, found, numbers, ?_⟩
  cases subscribed : record.events.subscribe 0 with
  | none => exact absurd ((subscribes 0).1.mp subscribed) (Nat.not_lt_zero _)
  | some s =>
    refine ⟨s, rfl, ?_⟩
    obtain ⟨-, -, exact', -⟩ := ((subscribes 0).2 s subscribed).2 _ _ _ .start
    rw [List.nil_append] at exact'
    rw [exact', dropped, (reachLogs reached found).after]
    rfl

end Session
end Maestro
