import Maestro.Subscription

/-! Reading a session's events by a cursor. A call takes what the ring and the channel
hold, waits if there is nothing, and its last event is where the next call starts. -/
namespace Maestro.Polling
open Interleaving (Prog)

def maximumEventsPerRead : Nat := 1024

structure SessionEventBatch where
  events : List EventEnvelope
  nextSequence : Nat
  latestSequence : Nat
  replayGap : Option ReplayGap
  state : SessionState
  deriving Repr

/-- What the calls about one session look at. `log` is there while the supervisor lists
the session; `stored` and `rows` are its durable row and events, ordered by their key. -/
structure Desk where
  log : Option EventLog
  state : SessionState
  subscription : Option FakeSessionSubscription
  stored : Option SessionState
  rows : List EventEnvelope
  ordered : rows.Pairwise fun a b => a.sequence < b.sequence
  positive : ∀ event ∈ rows, 0 < event.sequence

inductive Act where
  | subscribe (after : Nat)
  | tryRecv
  | recv
  | snapshot
  | persisted (after maximum : Nat)

@[reducible] def Act.Answer : Act → Type
  | .subscribe _ => Except MaestroError (Option ReplayGap)
  | .tryRecv => Except FakeSubscriptionError (Option EventEnvelope)
  | .recv => Option (Except FakeSubscriptionError EventEnvelope)
  | .snapshot => Except MaestroError (Nat × SessionState)
  | .persisted .. => Except MaestroError (Nat × SessionState × List EventEnvelope)

abbrev actions : Interleaving.Actions := ⟨Act, Act.Answer⟩

inductive Choice where
  | go
  | timeout
  | unhealthy

def sessionNotFoundError : MaestroError :=
  .new .sessionNotFound "The requested session does not exist."

def invalidSessionRequest (message : String) : MaestroError := .new .invalidRequest message

def sessionSubscriptionError (error : FakeSubscriptionError) : MaestroError :=
  { MaestroError.new .internal "The session event subscription could not continue." with
    details := match error with
      | .lagged missed => some (.object [("missed_events", .number (.posInt missed))])
      | .closed => none }

def storageReadError : MaestroError :=
  .new .databaseUnavailable "Maestro encrypted storage is unavailable"

def Desk.durableLatest (d : Desk) : Nat := (d.rows.getLast?.map EventEnvelope.sequence).getD 0

section Semantics
variable (slots : Nat)

def Desk.apply (o : Act) (choice : Choice) (d : Desk) : Option (o.Answer × Desk) :=
  match o with
  | .subscribe after =>
      match d.log with
      | none => some (.error sessionNotFoundError, d)
      | some log =>
          match log.subscribe after with
          | none => some (.error (invalidSessionRequest
              "the replay cursor is newer than the session event stream"), d)
          | some s => some (.ok s.gap, { d with subscription := some s })
  | .tryRecv =>
      match d.log, d.subscription with
      | some log, some s =>
          match s.recv slots log with
          | none => some (.ok none, d)
          | some (.ok event, s) => some (.ok (some event), { d with subscription := some s })
          | some (.error error, s) => some (.error error, { d with subscription := some s })
      | _, _ => some (.error .closed, d)
  | .recv =>
      match d.log, d.subscription with
      | some log, some s =>
          match s.recv slots log, choice with
          | some (received, s), _ => some (some received, { d with subscription := some s })
          | none, .timeout => some (none, d)
          | none, _ => none
      | _, _ => some (some (.error .closed), d)
  | .snapshot =>
      some (match d.log with
        | none => .error sessionNotFoundError
        | some log => .ok (log.latestSequence, d.state), d)
  | .persisted after maximum =>
      some (match choice, d.stored with
        | .unhealthy, _ => .error storageReadError
        | _, none => .error sessionNotFoundError
        | _, some state => .ok (d.durableLatest, state,
            (d.rows.filter fun event => after < event.sequence).take maximum), d)

example (after maximum : Nat) (d : Desk) :
    d.apply slots (.persisted after maximum) .unhealthy = some (.error storageReadError, d) := by
  simp only [Desk.apply]

end Semantics

abbrev Program := Prog actions

@[simp] def perform (o : Act) : Program o.Answer := .act (A := actions) o .done

/-- `while events.len() < maximum_events`, with the room that is left. -/
def collect : Nat → List EventEnvelope →
    Program (Except FakeSubscriptionError (List EventEnvelope))
  | 0, events => return .ok events
  | room + 1, events => do
      let received : Except FakeSubscriptionError (Option EventEnvelope) ← perform .tryRecv
      match received with
      | .error error => return .error error
      | .ok none => return .ok events
      | .ok (some event) => collect room (events ++ [event])

def await (maximum : Nat) : Program (Except FakeSubscriptionError (List EventEnvelope)) := do
  let received : Option (Except FakeSubscriptionError EventEnvelope) ← perform .recv
  match received with
  | none => collect maximum []
  | some (.error error) => return .error error
  | some (.ok event) => collect (maximum - 1) [event]

def readLive (maximum wait : Nat) : Program (Except FakeSubscriptionError (List EventEnvelope)) := do
  match ← collect maximum [] with
  | .error error => return .error error
  | .ok events => if events.isEmpty && 0 < wait then await maximum else return .ok events

def nextSequence (after : Nat) (events : List EventEnvelope) : Nat :=
  (events.getLast?.map EventEnvelope.sequence).getD after

def readPersistedSessionEvents (after maximum : Nat) :
    Program (Except MaestroError SessionEventBatch) := do
  let loaded : Except MaestroError (Nat × SessionState × List EventEnvelope) ←
    perform (.persisted after maximum)
  match loaded with
  | .error error => return .error error
  | .ok (latest, state, events) =>
      if after > latest then return .error (invalidSessionRequest
        "The session event cursor is newer than the durable event stream.")
      return .ok ⟨events, nextSequence after events, latest, none, state⟩

def finishRead (after : Nat) (gap : Option ReplayGap) (events : List EventEnvelope) :
    Program (Except MaestroError SessionEventBatch) := do
  let snapshot : Except MaestroError (Nat × SessionState) ← perform .snapshot
  match snapshot with
  | .error error => return .error error
  | .ok (latest, state) => return .ok ⟨events, nextSequence after events, latest, gap, state⟩

def readSessionEvents (after maximum wait : Nat) :
    Program (Except MaestroError SessionEventBatch) := do
  let subscribed : Except MaestroError (Option ReplayGap) ← perform (.subscribe after)
  match subscribed with
  | .error error =>
      if error.code = .sessionNotFound then readPersistedSessionEvents after maximum
      else return .error error
  | .ok gap =>
      match ← readLive maximum wait with
      | .error error => return .error (sessionSubscriptionError error)
      | .ok events => finishRead after gap events

/-! Calls among the other tasks of the daemon. -/

inductive Elsewhere (limit : Nat) : Desk → Desk → Prop
  | publish {d : Desk} {log log' session run source event envelope} (listed : d.log = some log)
      (published : log.publish limit session run source event = some (envelope, log')) :
      Elsewhere limit d { d with log := some log' }
  | move {d : Desk} (state : SessionState) : Elsewhere limit d { d with state := state }
  | store {d : Desk} {log} (listed : d.log = some log) (stored rows ordered positive) :
      Elsewhere limit d { d with stored := stored, rows := rows, ordered := ordered, positive := positive }

inductive Runs (limit slots : Nat) {α : Type} : Desk → Program α → Desk → α → Prop
  | done {d value} : Runs limit slots d (.done value) d value
  | elsewhere {d d' p last value} (step : Elsewhere limit d d') (rest : Runs limit slots d' p last value) :
      Runs limit slots d p last value
  | act {d d' o next choice answer last value}
      (effect : Desk.apply slots o choice d = some (answer, d'))
      (rest : Runs limit slots d' (next answer) last value) :
      Runs limit slots d (.act o next) last value

/-- A client that starts at the beginning and goes on from its last answer; a call that
fails is made again. -/
inductive Polled (limit slots : Nat) (start : Desk) :
    Desk → Nat → List EventEnvelope → List ReplayGap → Prop
  | start : Polled limit slots start start 0 [] []
  | elsewhere {d d' cursor events gaps} (before : Polled limit slots start d cursor events gaps)
      (step : Elsewhere limit d d') : Polled limit slots start d' cursor events gaps
  | answered {d d' cursor events gaps maximum wait batch}
      (before : Polled limit slots start d cursor events gaps)
      (accepted : 0 < maximum ∧ maximum ≤ maximumEventsPerRead)
      (ran : Runs limit slots d (readSessionEvents cursor maximum wait) d' (.ok batch)) :
      Polled limit slots start d' batch.nextSequence (events ++ batch.events)
        (gaps ++ batch.replayGap.toList)
  | failed {d d' cursor events gaps maximum wait error}
      (before : Polled limit slots start d cursor events gaps)
      (ran : Runs limit slots d (readSessionEvents cursor maximum wait) d' (.error error)) :
      Polled limit slots start d' cursor events gaps

section Programs
variable {limit slots : Nat} {d last : Desk} {α β : Type}

abbrev Drifts (limit : Nat) : Desk → Desk → Prop := Relation.ReflTransGen (Elsewhere limit)

theorem runsDone {value value' : α} (ran : Runs limit slots d (.done value) last value') :
    Drifts limit d last ∧ value' = value := by
  generalize shape : (Prog.done value : Program α) = p at ran
  induction ran with
  | done =>
    cases shape
    exact ⟨.refl, rfl⟩
  | elsewhere step rest ih =>
    obtain ⟨drifts, same⟩ := ih shape
    exact ⟨.head step drifts, same⟩
  | act => cases shape

theorem runsAct {o : Act} {next : o.Answer → Program α} {value : α}
    (ran : Runs limit slots d (.act (A := actions) o next) last value) :
    ∃ d₁ d₂ choice answer, Drifts limit d d₁ ∧ d₁.apply slots o choice = some (answer, d₂) ∧
      Runs limit slots d₂ (next answer) last value := by
  generalize shape : (Prog.act (A := actions) o next : Program α) = p at ran
  induction ran with
  | done => cases shape
  | elsewhere step rest ih =>
    obtain ⟨d₁, d₂, choice, answer, drifts, effect, rest'⟩ := ih shape
    exact ⟨d₁, d₂, choice, answer, .head step drifts, effect, rest'⟩
  | act effect rest =>
    cases shape
    exact ⟨_, _, _, _, .refl, effect, rest⟩

theorem runsBind {p : Program α} {f : α → Program β} {value : β}
    (ran : Runs limit slots d (p >>= f) last value) :
    ∃ mid first, Runs limit slots d p mid first ∧ Runs limit slots mid (f first) last value := by
  generalize shape : p >>= f = q at ran
  induction ran generalizing p with
  | done =>
    cases p with
    | done first => exact ⟨_, first, .done, by rw [show f first = _ from shape]; exact .done⟩
    | act o next => cases shape
  | elsewhere step rest ih =>
    obtain ⟨mid, first, head, tail⟩ := ih shape
    exact ⟨mid, first, .elsewhere step head, tail⟩
  | act effect rest ih =>
    cases p with
    | done first =>
      refine ⟨_, first, .done, ?_⟩
      rw [show f first = _ from shape]
      exact .act effect rest
    | act o next =>
      cases shape
      obtain ⟨mid, first, head, tail⟩ := ih rfl
      exact ⟨mid, first, .act effect head, tail⟩

/-- A call whose own actions `May` allows, up to the last of them. -/
inductive Watched (limit slots : Nat) (May : Desk → Act → Prop) {α : Type} :
    Desk → Program α → Desk → α → Prop
  | done {d value} : Watched limit slots May d (.done value) d value
  | elsewhere {d d' o next last value} (step : Elsewhere limit d d')
      (rest : Watched limit slots May d' (.act o next) last value) :
      Watched limit slots May d (.act o next) last value
  | act {d d' o next choice answer last value} (may : May d o)
      (effect : Desk.apply slots o choice d = some (answer, d'))
      (rest : Watched limit slots May d' (next answer) last value) :
      Watched limit slots May d (.act o next) last value

variable {May : Desk → Act → Prop}

theorem watchedRuns {p : Program α} {value : α} (watched : Watched limit slots May d p last value) :
    Runs limit slots d p last value := by
  induction watched with
  | done => exact .done
  | elsewhere step rest ih => exact .elsewhere step ih
  | act may effect rest ih => exact .act effect ih

theorem watchedDone {value value' : α} (watched : Watched limit slots May d (.done value) last value') :
    last = d ∧ value' = value := by
  cases watched
  exact ⟨rfl, rfl⟩

theorem watchedAct {o : Act} {next : o.Answer → Program α} {value : α}
    (watched : Watched limit slots May d (.act (A := actions) o next) last value) :
    ∃ d₁ d₂ choice answer, Drifts limit d d₁ ∧ May d₁ o ∧ d₁.apply slots o choice = some (answer, d₂) ∧
      Watched limit slots May d₂ (next answer) last value := by
  generalize shape : (Prog.act (A := actions) o next : Program α) = p at watched
  induction watched with
  | done => cases shape
  | elsewhere step rest ih =>
    obtain ⟨d₁, d₂, choice, answer, drifts, may, effect, rest'⟩ := ih shape
    exact ⟨d₁, d₂, choice, answer, .head step drifts, may, effect, rest'⟩
  | act may effect rest =>
    cases shape
    exact ⟨_, _, _, _, .refl, may, effect, rest⟩

theorem watchedBind {p : Program α} {f : α → Program β} {value : β}
    (watched : Watched limit slots May d (p >>= f) last value) :
    ∃ mid first, Watched limit slots May d p mid first ∧ Watched limit slots May mid (f first) last value := by
  generalize shape : p >>= f = q at watched
  induction watched generalizing p with
  | done =>
    cases p with
    | done first => exact ⟨_, first, .done, by rw [show f first = _ from shape]; exact .done⟩
    | act o next => cases shape
  | elsewhere step rest ih =>
    cases p with
    | done first =>
      refine ⟨_, first, .done, ?_⟩
      rw [show f first = _ from shape]
      exact .elsewhere step rest
    | act o next =>
      obtain ⟨mid, first, head, tail⟩ := ih shape
      exact ⟨mid, first, .elsewhere step head, tail⟩
  | act may effect rest ih =>
    cases p with
    | done first =>
      refine ⟨_, first, .done, ?_⟩
      rw [show f first = _ from shape]
      exact .act may effect rest
    | act o next =>
      cases shape
      obtain ⟨mid, first, head, tail⟩ := ih rfl
      exact ⟨mid, first, .act may effect head, tail⟩

end Programs

/-! A call on a listed session. -/

section Live
variable {limit slots : Nat} {d d' last : Desk}

def Grown (limit : Nat) (base : EventLog) (d : Desk) : Prop :=
  ∃ log, d.log = some log ∧ log.Kept limit ∧ base.sent <+: log.sent

def Reading (limit : Nat) (base : EventLog) (cursor : Nat) (d : Desk) (got : List EventEnvelope) :
    Prop :=
  ∃ log s, d.log = some log ∧ d.subscription = some s ∧ base.sent <+: log.sent ∧
    Given limit cursor log s got

theorem grownDrifts {base : EventLog} (grown : Grown limit base d) (drifts : Drifts limit d d') :
    Grown limit base d' := by
  induction drifts with
  | refl => exact grown
  | tail before step ih =>
    obtain ⟨log, here, kept, more⟩ := ih
    cases step with
    | publish listed published =>
      cases here.symm.trans listed
      obtain ⟨kept', sent⟩ := EventLog.keptPublish kept published
      exact ⟨_, rfl, kept', more.trans (sent ▸ List.prefix_append _ _)⟩
    | move state => exact ⟨log, here, kept, more⟩
    | store listed => exact ⟨log, here, kept, more⟩

theorem readingDrifts {base : EventLog} {cursor : Nat} {got : List EventEnvelope}
    (reading : Reading limit base cursor d got) (drifts : Drifts limit d d') :
    Reading limit base cursor d' got := by
  induction drifts with
  | refl => exact reading
  | tail before step ih =>
    obtain ⟨log, s, here, subscribed, more, given⟩ := ih
    cases step with
    | publish listed published =>
      cases here.symm.trans listed
      have sent := (EventLog.keptPublish given.kept published).2
      exact ⟨_, s, rfl, subscribed, more.trans (sent ▸ List.prefix_append _ _),
        givenPublish given published⟩
    | move state => exact ⟨log, s, here, subscribed, more, given⟩
    | store listed => exact ⟨log, s, here, subscribed, more, given⟩

theorem subscriptionDrifts (drifts : Drifts limit d d') : d'.subscription = d.subscription := by
  induction drifts with
  | refl => rfl
  | tail before step ih => cases step <;> exact ih

theorem tryRecvReading {base : EventLog} {cursor : Nat} {got : List EventEnvelope} {choice : Choice}
    {event : EventEnvelope} (reading : Reading limit base cursor d got)
    (effect : d.apply slots .tryRecv choice = some (.ok (some event), d')) :
    Reading limit base cursor d' (got ++ [event]) := by
  obtain ⟨log, s, here, subscribed, more, given⟩ := reading
  simp only [Desk.apply, here, subscribed] at effect
  split at effect
  · cases effect
  · rename_i event' s' received
    cases effect
    exact ⟨log, s', rfl, rfl, more, givenRecv given received⟩
  · cases effect

theorem tryRecvWaits {base : EventLog} {cursor : Nat} {got : List EventEnvelope} {choice : Choice}
    (reading : Reading limit base cursor d got)
    (effect : d.apply slots .tryRecv choice = some (.ok none, d')) :
    Reading limit base cursor d' got := by
  obtain ⟨log, s, here, subscribed, more, given⟩ := reading
  simp only [Desk.apply, here, subscribed] at effect
  split at effect
  · cases effect
    exact ⟨log, s, here, subscribed, more, given⟩
  · cases effect
  · cases effect

theorem recvReading {base : EventLog} {cursor : Nat} {got : List EventEnvelope} {choice : Choice}
    {event : EventEnvelope} (reading : Reading limit base cursor d got)
    (effect : d.apply slots .recv choice = some (some (.ok event), d')) :
    Reading limit base cursor d' (got ++ [event]) := by
  obtain ⟨log, s, here, subscribed, more, given⟩ := reading
  simp only [Desk.apply, here, subscribed] at effect
  split at effect
  · rename_i event' s' received
    cases effect
    exact ⟨log, s', rfl, rfl, more, givenRecv given received⟩
  · cases effect
  · cases effect

theorem recvWaits {base : EventLog} {cursor : Nat} {got : List EventEnvelope} {choice : Choice}
    (reading : Reading limit base cursor d got)
    (effect : d.apply slots .recv choice = some (none, d')) :
    Reading limit base cursor d' got := by
  obtain ⟨log, s, here, subscribed, more, given⟩ := reading
  simp only [Desk.apply, here, subscribed] at effect
  split at effect
  · cases effect
  · cases effect
    exact ⟨log, s, here, subscribed, more, given⟩
  · cases effect

theorem collectReading {base : EventLog} {cursor room : Nat} {got events : List EventEnvelope}
    (reading : Reading limit base cursor d got)
    (ran : Runs limit slots d (collect room got) last (.ok events)) :
    Reading limit base cursor last events ∧ got <+: events := by
  induction room generalizing d got with
  | zero =>
    obtain ⟨drifts, same⟩ := runsDone ran
    cases same
    exact ⟨readingDrifts reading drifts, List.prefix_refl _⟩
  | succ room ih =>
    obtain ⟨d₁, d₂, choice, answer, drifts, effect, rest⟩ := runsAct ran
    have reading' := readingDrifts reading drifts
    cases answer with
    | error error =>
      have same := (runsDone rest).2
      cases same
    | ok received =>
      cases received with
      | none =>
        obtain ⟨drifts', same⟩ := runsDone rest
        cases same
        exact ⟨readingDrifts (tryRecvWaits reading' effect) drifts', List.prefix_refl _⟩
      | some event =>
        obtain ⟨reading'', more⟩ := ih (tryRecvReading reading' effect) rest
        exact ⟨reading'', (List.prefix_append _ _).trans more⟩

theorem collectReplay {base : EventLog} {cursor room : Nat} {events : List EventEnvelope}
    {s : FakeSessionSubscription} (reading : Reading limit base cursor d [])
    (subscribed : d.subscription = some s) (replay : s.replay ≠ []) (some' : 0 < room)
    (ran : Runs limit slots d (collect room []) last (.ok events)) : events ≠ [] := by
  obtain ⟨room, rfl⟩ : ∃ n, room = n + 1 := ⟨room - 1, by omega⟩
  obtain ⟨d₁, d₂, choice, answer, drifts, effect, rest⟩ := runsAct ran
  have reading' := readingDrifts reading drifts
  have effect' := effect
  obtain ⟨log, s', here, same, -⟩ := reading'
  rw [subscriptionDrifts drifts, subscribed] at same
  cases same
  obtain ⟨event, tail, shape⟩ := List.exists_cons_of_ne_nil replay
  simp only [Desk.apply, here, subscriptionDrifts drifts, subscribed,
    FakeSessionSubscription.recv, shape] at effect
  cases effect
  obtain ⟨-, more⟩ := collectReading (tryRecvReading (readingDrifts reading drifts) effect') rest
  intro none'
  rw [none'] at more
  simp at more

theorem readLiveReading {base : EventLog} {cursor maximum wait : Nat} {events : List EventEnvelope}
    (reading : Reading limit base cursor d [])
    (ran : Runs limit slots d (readLive maximum wait) last (.ok events)) :
    Reading limit base cursor last events ∧
      (∀ s, d.subscription = some s → s.replay ≠ [] → 0 < maximum → events ≠ []) := by
  obtain ⟨mid, first, collected, rest⟩ := runsBind ran
  cases first with
  | error error =>
    have same := (runsDone rest).2
    cases same
  | ok found =>
    have reading' := (collectReading reading collected).1
    dsimp only at rest
    split at rest
    · rename_i waits
      have empty : found = [] := List.isEmpty_iff.mp (Bool.and_eq_true_iff.mp waits).1
      subst empty
      refine ⟨?_, fun s subscribed replay room =>
        absurd rfl (collectReplay reading subscribed replay room collected)⟩
      obtain ⟨d₁, d₂, choice, answer, drifts, effect, rest'⟩ := runsAct rest
      have reading'' := readingDrifts reading' drifts
      cases answer with
      | none => exact (collectReading (recvWaits reading'' effect) rest').1
      | some received =>
        cases received with
        | error error =>
          have same := (runsDone rest').2
          cases same
        | ok event => exact (collectReading (recvReading reading'' effect) rest').1
    · obtain ⟨drifts, same⟩ := runsDone rest
      cases same
      exact ⟨readingDrifts reading' drifts, fun s subscribed replay room =>
        collectReplay reading subscribed replay room collected⟩

/-- What a successful call on a listed session answered: events of the stream behind the
cursor and behind what had left the ring, and the gap between the two. -/
structure Answered (limit : Nat) (base : EventLog) (cursor : Nat) (d : Desk)
    (batch : SessionEventBatch) : Prop where
  grown : Grown limit base d
  read : ∃ log seen, d.log = some log ∧ base.sent.length ≤ seen ∧ seen ≤ log.sent.length ∧
    cursor ≤ seen ∧
    batch.events <+: log.sent.drop (max cursor (seen - limit)) ∧
    batch.replayGap = (if cursor < seen - limit then some ⟨cursor, seen - limit⟩ else none) ∧
    (max cursor (seen - limit) < seen → batch.events ≠ [])
  next : batch.nextSequence = nextSequence cursor batch.events

theorem liveAnswered {base : EventLog} {cursor maximum wait : Nat} {batch : SessionEventBatch}
    (listed : d.log = some base) (kept : base.Kept limit) (room : 0 < maximum)
    (ran : Runs limit slots d (readSessionEvents cursor maximum wait) last (.ok batch)) :
    Answered limit base cursor last batch := by
  obtain ⟨d₁, d₂, choice, answer, drifts, effect, rest⟩ := runsAct ran
  obtain ⟨log, here, kept', more⟩ := grownDrifts ⟨base, listed, kept, List.prefix_refl _⟩ drifts
  simp only [Desk.apply, here] at effect
  cases subscribed : log.subscribe cursor with
  | none =>
    simp only [subscribed] at effect
    cases effect
    have same := (runsDone rest).2
    cases same
  | some s =>
    simp only [subscribed] at effect
    cases effect
    obtain ⟨known, -, replay, gap⟩ := subscribeSpec kept' subscribed
    have given := givenSubscribed kept' subscribed
    have dropped : log.droppedThroughSequence = log.sent.length - limit := by
      rw [kept'.dropped, kept'.latest]
    have reading : Reading limit log (max cursor log.droppedThroughSequence)
        { d₁ with log := some log, subscription := some s } [] :=
      ⟨log, s, rfl, rfl, List.prefix_refl _, given⟩
    obtain ⟨mid, found, read, rest'⟩ := runsBind (p := readLive maximum wait) rest
    cases found with
    | error error =>
      have same := (runsDone rest').2
      cases same
    | ok events =>
      obtain ⟨reading', some'⟩ := readLiveReading reading read
      obtain ⟨d₃, d₄, choice', snapshot, drifts', effect', rest''⟩ := runsAct rest'
      have final := readingDrifts reading' drifts'
      have same' : d₄ = d₃ := by
        simp only [Desk.apply] at effect'
        cases effect'
        rfl
      cases snapshot with
      | error error =>
        have same := (runsDone rest'').2
        cases same
      | ok shown =>
        obtain ⟨drifts'', same⟩ := runsDone rest''
        cases same
        subst same'
        obtain ⟨log', s', here', -, more', given'⟩ := readingDrifts final drifts''
        refine ⟨⟨log', here', given'.kept, more.trans more'⟩, ⟨log', log.sent.length, here',
          more.length_le, more'.length_le, kept'.latest ▸ known, ?_, ?_, ?_⟩, rfl⟩
        · rw [← dropped, ← given'.exact]
          exact List.prefix_append _ _
        · rw [gap, dropped]
        · intro ahead
          refine some' s rfl ?_ room
          rw [replay]
          intro none'
          have full := List.drop_eq_nil_iff.mp none'
          rw [dropped] at full
          omega

theorem failedGrown {base : EventLog} {p : Program (Except MaestroError SessionEventBatch)}
    {value : Except MaestroError SessionEventBatch} (grown : Grown limit base d)
    (ran : Runs limit slots d p last value) : Grown limit base last := by
  induction ran with
  | done => exact grown
  | elsewhere step rest ih => exact ih (grownDrifts grown (.single step))
  | @act d d' o next choice answer last value effect rest ih =>
    apply ih
    obtain ⟨log, here, kept, more⟩ := grown
    refine ⟨log, ?_, kept, more⟩
    cases o with
    | subscribe after =>
      simp only [Desk.apply, here] at effect
      split at effect
      · cases effect
        exact here
      · cases effect
        rfl
    | tryRecv =>
      simp only [Desk.apply] at effect
      repeat' split at effect
      all_goals (cases effect; exact here)
    | recv =>
      simp only [Desk.apply] at effect
      repeat' split at effect
      all_goals first | contradiction | (cases effect; exact here)
    | snapshot =>
      cases effect
      exact here
    | persisted after maximum =>
      cases effect
      exact here

/-- What the client holds: the stream up to its cursor, in order, but for the gaps it was told. -/
structure Followed (log : EventLog) (cursor : Nat) (events : List EventEnvelope)
    (gaps : List ReplayGap) : Prop where
  known : cursor ≤ log.sent.length
  ordered : List.Sublist events (log.sent.take cursor)
  covered : ∀ event ∈ log.sent.take cursor, event ∈ events ∨ ∃ gap ∈ gaps,
    gap.requestedAfterSequence < event.sequence ∧ event.sequence ≤ gap.availableAfterSequence

theorem takePrefix {α : Type} {first second : List α} (more : first <+: second) {n : Nat}
    (inside : n ≤ first.length) : second.take n = first.take n := by
  obtain ⟨tail, rfl⟩ := more
  exact List.take_append_of_le_length inside

theorem followedGrown {log log' : EventLog} {cursor : Nat} {events : List EventEnvelope}
    {gaps : List ReplayGap} (followed : Followed log cursor events gaps)
    (more : log.sent <+: log'.sent) : Followed log' cursor events gaps := by
  have same := takePrefix more followed.known
  exact ⟨followed.known.trans more.length_le, same ▸ followed.ordered, same ▸ followed.covered⟩

theorem nextSequenceLast {log : EventLog} (kept : log.Kept limit) {cursor start : Nat}
    {events : List EventEnvelope} (read : events <+: log.sent.drop start) (some' : events ≠ []) :
    nextSequence cursor events = start + events.length := by
  have positive := List.length_pos_iff.mpr some'
  obtain ⟨event, found⟩ : ∃ event, events[events.length - 1]? = some event :=
    ⟨_, List.getElem?_eq_getElem (Nat.sub_lt positive Nat.one_pos)⟩
  have last : events.getLast? = some event := by rw [List.getLast?_eq_getElem?, found]
  have there : log.sent[start + (events.length - 1)]? = some event := by
    rw [← List.getElem?_drop]
    obtain ⟨tail, shape⟩ := read
    rw [← shape, List.getElem?_append_left (Nat.sub_lt positive Nat.one_pos), found]
  rw [nextSequence, last, Option.map_some, Option.getD_some, kept.numbered _ _ there]
  omega

theorem followedAnswer {log : EventLog} {cursor : Nat} {events : List EventEnvelope}
    {gaps : List ReplayGap} {batch : SessionEventBatch}
    (followed : Followed log cursor events gaps) (answered : Answered limit log cursor d batch) :
    ∃ log', d.log = some log' ∧ log'.Kept limit ∧ log.sent <+: log'.sent ∧
      Followed log' batch.nextSequence (events ++ batch.events) (gaps ++ batch.replayGap.toList) ∧
      (batch.events ≠ [] → cursor < batch.nextSequence) := by
  obtain ⟨log', here, kept, more⟩ := answered.grown
  obtain ⟨log'', seen, here', -, inside, low, read, gap, -⟩ := answered.read
  cases here.symm.trans here'
  have grown := followedGrown followed more
  refine ⟨log', here, kept, more, ?_⟩
  rw [answered.next]
  by_cases none' : batch.events = []
  · refine ⟨?_, fun some' => absurd none' some'⟩
    rw [none', List.append_nil]
    refine ⟨grown.known, grown.ordered, fun event mem => ?_⟩
    rcases grown.covered event mem with old | ⟨told, mem', low', high⟩
    · exact .inl old
    · exact .inr ⟨told, List.mem_append_left _ mem', low', high⟩
  · have start : max cursor (seen - limit) ≤ log'.sent.length := by omega
    have count := read.length_le
    rw [List.length_drop] at count
    have positive := List.length_pos_iff.mpr none'
    rw [nextSequenceLast kept read none']
    refine ⟨⟨by omega, ?_, fun event mem => ?_⟩, fun _ => by omega⟩
    · rw [List.take_add, ← List.prefix_iff_eq_take.mp read]
      refine List.Sublist.append (grown.ordered.trans ?_) (List.Sublist.refl _)
      exact (List.take_prefix_take_left (Nat.le_max_left _ _)).sublist
    · rw [List.take_add, ← List.prefix_iff_eq_take.mp read, List.mem_append] at mem
      rcases mem with old | new
      · obtain ⟨index, bound, rfl⟩ := List.mem_take_iff_getElem.mp old
        have inStream : index < log'.sent.length := by omega
        have number := kept.numbered index _ (List.getElem?_eq_getElem inStream)
        by_cases given : index < cursor
        · rcases grown.covered _ (List.mem_take_iff_getElem.mpr ⟨index, by omega, rfl⟩) with
            had | ⟨told, mem', low', high⟩
          · exact .inl (List.mem_append_left _ had)
          · exact .inr ⟨told, List.mem_append_left _ mem', low', high⟩
        · have skipped : cursor < seen - limit := by omega
          rw [if_pos skipped] at gap
          refine .inr ⟨⟨cursor, seen - limit⟩, ?_, ?_, ?_⟩
          · rw [gap]
            simp
          · dsimp only
            omega
          · dsimp only
            omega
      · exact .inl (List.mem_append_right _ new)

theorem polledLive {start : Desk} {base : EventLog} (listed : start.log = some base)
    (kept : base.Kept limit) {cursor : Nat} {events : List EventEnvelope} {gaps : List ReplayGap}
    (polled : Polled limit slots start d cursor events gaps) :
    ∃ log, d.log = some log ∧ log.Kept limit ∧ base.sent <+: log.sent ∧
      Followed log cursor events gaps := by
  induction polled with
  | start =>
    exact ⟨base, listed, kept, List.prefix_refl _, Nat.zero_le _, List.nil_sublist _, by simp⟩
  | elsewhere before step ih =>
    obtain ⟨log, here, kept', more, followed⟩ := ih
    obtain ⟨log', here', kept'', more'⟩ :=
      grownDrifts ⟨log, here, kept', List.prefix_refl _⟩ (.single step)
    exact ⟨log', here', kept'', more.trans more', followedGrown followed more'⟩
  | answered before accepted ran ih =>
    obtain ⟨log, here, kept', more, followed⟩ := ih
    obtain ⟨log', here', kept'', more', followed', -⟩ :=
      followedAnswer followed (liveAnswered here kept' accepted.1 ran)
    exact ⟨log', here', kept'', more.trans more', followed'⟩
  | failed before ran ih =>
    obtain ⟨log, here, kept', more, followed⟩ := ih
    obtain ⟨log', here', kept'', more'⟩ := failedGrown ⟨log, here, kept', List.prefix_refl _⟩ ran
    exact ⟨log', here', kept'', more.trans more', followedGrown followed more'⟩

theorem liveAdvances {log : EventLog} {cursor maximum wait : Nat} {batch : SessionEventBatch}
    {events : List EventEnvelope} {gaps : List ReplayGap} (listed : d.log = some log)
    (kept : log.Kept limit) (followed : Followed log cursor events gaps) (room : 0 < maximum)
    (ahead : ∃ event ∈ log.retained, cursor < event.sequence)
    (ran : Runs limit slots d (readSessionEvents cursor maximum wait) last (.ok batch)) :
    cursor < batch.nextSequence := by
  have answered := liveAnswered listed kept room ran
  obtain ⟨log', -, -, -, -, advances⟩ := followedAnswer followed answered
  apply advances
  obtain ⟨log'', seen, -, inside, -, -, -, -, some'⟩ := answered.read
  obtain ⟨event, mem, less⟩ := ahead
  have positive : 0 < limit := by
    have count := kept.bounded
    have filled := List.length_pos_of_mem mem
    omega
  have known : event.sequence ≤ log.sent.length := by
    rw [kept.retained] at mem
    obtain ⟨index, bound, same⟩ := List.mem_iff_getElem.mp (List.mem_of_mem_drop mem)
    rw [kept.numbered index event (by rw [List.getElem?_eq_getElem bound, same])]
    omega
  exact some' (by omega)

end Live

/-! A call on a session of an earlier life of the daemon. -/

section Durable
variable {limit slots : Nat} {d d' last : Desk}

def Closed (rows : List EventEnvelope) (d : Desk) : Prop := d.log = none ∧ d.rows = rows

theorem closedDrifts {rows : List EventEnvelope} (closed : Closed rows d)
    (drifts : Drifts limit d d') : Closed rows d' := by
  induction drifts with
  | refl => exact closed
  | tail before step ih =>
    cases step with
    | publish listed => simp [ih.1] at listed
    | move state => exact ih
    | store listed => simp [ih.1] at listed

theorem closedRuns {rows : List EventEnvelope} {p : Program (Except MaestroError SessionEventBatch)}
    {value : Except MaestroError SessionEventBatch} (closed : Closed rows d)
    (ran : Runs limit slots d p last value) : Closed rows last := by
  induction ran with
  | done => exact closed
  | elsewhere step rest ih => exact ih (closedDrifts closed (.single step))
  | @act d d' o next choice answer last value effect rest ih =>
    apply ih
    have closed' : d' = d := by
      obtain ⟨none', -⟩ := closed
      cases o <;> simp only [Desk.apply, none'] at effect <;> (cases effect; rfl)
    exact closed' ▸ closed

theorem durableAnswered {rows : List EventEnvelope} {cursor maximum wait : Nat}
    {batch : SessionEventBatch} (closed : Closed rows d)
    (ran : Runs limit slots d (readSessionEvents cursor maximum wait) last (.ok batch)) :
    batch.events = (rows.filter fun event => cursor < event.sequence).take maximum ∧
      batch.replayGap = none ∧ batch.nextSequence = nextSequence cursor batch.events := by
  obtain ⟨d₁, d₂, choice, answer, drifts, effect, rest⟩ := runsAct ran
  have closed₁ := closedDrifts closed drifts
  simp only [Desk.apply, closed₁.1] at effect
  cases effect
  obtain ⟨d₃, d₄, choice', answer, drifts', effect', rest'⟩ :=
    runsAct (o := .persisted cursor maximum) rest
  have closed₃ := closedDrifts closed₁ drifts'
  have answered : ∃ latest state, answer = .ok (latest, state,
      (rows.filter fun event => cursor < event.sequence).take maximum) := by
    simp only [Desk.apply] at effect'
    cases effect'
    cases choice' with
    | unhealthy =>
      have same := (runsDone rest').2
      cases same
    | _ =>
      cases stored : d₃.stored with
      | none =>
        rw [stored] at rest'
        have same := (runsDone rest').2
        cases same
      | some state => exact ⟨_, state, by rw [closed₃.2]⟩
  obtain ⟨latest, state, rfl⟩ := answered
  simp only [Prog.bind] at rest'
  split at rest'
  · have same := (runsDone rest').2
    cases same
  · obtain ⟨-, same⟩ := runsDone rest'
    cases same
    exact ⟨rfl, rfl, rfl⟩

theorem sortedSplit {rows : List EventEnvelope}
    (ordered : rows.Pairwise fun a b => a.sequence < b.sequence) (cursor : Nat) :
    rows = (rows.filter fun event => event.sequence ≤ cursor) ++
      (rows.filter fun event => cursor < event.sequence) := by
  induction rows with
  | nil => rfl
  | cons first rest ih =>
    obtain ⟨least, ordered'⟩ := List.pairwise_cons.mp ordered
    by_cases low : first.sequence ≤ cursor
    · rw [List.filter_cons_of_pos (by simpa using low),
        List.filter_cons_of_neg (by simpa using low), List.cons_append, ← ih ordered']
    · have none' : (rest.filter fun event => event.sequence ≤ cursor) = [] := by
        rw [List.filter_eq_nil_iff]
        intro event mem
        have := least event mem
        simp
        omega
      have all : (rest.filter fun event => cursor < event.sequence) = rest := by
        rw [List.filter_eq_self]
        intro event mem
        have := least event mem
        simp
        omega
      rw [List.filter_cons_of_neg (by simpa using low),
        List.filter_cons_of_pos (by simpa using low), none', all, List.nil_append]

theorem sortedTake {rows : List EventEnvelope}
    (ordered : rows.Pairwise fun a b => a.sequence < b.sequence) (cursor count : Nat)
    {taken : List EventEnvelope}
    (read : taken = (rows.filter fun event => cursor < event.sequence).take count) :
    (rows.filter fun event => event.sequence ≤ nextSequence cursor taken) =
        (rows.filter fun event => event.sequence ≤ cursor) ++ taken ∧
      (taken ≠ [] → cursor < nextSequence cursor taken) := by
  generalize low : (rows.filter fun event => event.sequence ≤ cursor) = before
  generalize high : (rows.filter fun event => cursor < event.sequence) = behind at read
  have split' : rows = before ++ (taken ++ behind.drop count) := by
    rw [read, List.take_append_drop, ← low, ← high]
    exact sortedSplit ordered cursor
  have small : ∀ event ∈ before, event.sequence ≤ cursor := by
    intro event mem
    rw [← low] at mem
    simpa using (List.mem_filter.mp mem).2
  have large : ∀ event ∈ behind, cursor < event.sequence := by
    intro event mem
    rw [← high] at mem
    simpa using (List.mem_filter.mp mem).2
  cases shape : taken.getLast? with
  | none =>
    have empty := List.getLast?_eq_none_iff.mp shape
    have same : nextSequence cursor taken = cursor := by rw [nextSequence, shape]; rfl
    exact ⟨by rw [same, low, empty, List.append_nil], fun some' => absurd empty some'⟩
  | some last =>
    have same : nextSequence cursor taken = last.sequence := by rw [nextSequence, shape]; rfl
    obtain ⟨front, taken'⟩ := List.getLast?_eq_some_iff.mp shape
    have member : last ∈ taken := by simp [taken']
    have beyond : cursor < last.sequence := large last (List.mem_of_mem_take (read ▸ member))
    rw [same]
    refine ⟨?_, fun _ => beyond⟩
    rw [split', taken'] at ordered
    simp only [List.pairwise_append, List.mem_append, List.mem_singleton] at ordered
    have early : ∀ event ∈ front, event.sequence < last.sequence :=
      fun event mem => ordered.2.1.1.2.2 event mem last rfl
    have late : ∀ event ∈ behind.drop count, last.sequence < event.sequence :=
      fun event mem => ordered.2.1.2.2 last (.inr rfl) event mem
    have first : (before.filter fun event => event.sequence ≤ last.sequence) = before := by
      rw [List.filter_eq_self]
      intro event mem
      have := small event mem
      simp
      omega
    have second : (taken.filter fun event => event.sequence ≤ last.sequence) = taken := by
      rw [List.filter_eq_self, taken']
      intro event mem
      rcases List.mem_append.mp mem with mem | mem
      · simpa using Nat.le_of_lt (early event mem)
      · rw [List.mem_singleton.mp mem]
        simp
    have third : ((behind.drop count).filter fun event => event.sequence ≤ last.sequence) = [] := by
      rw [List.filter_eq_nil_iff]
      intro event mem
      simpa using late event mem
    rw [split', List.filter_append, List.filter_append, first, second, third, List.append_nil]

theorem polledDurable {start : Desk} (unlisted : start.log = none) {cursor : Nat}
    {events : List EventEnvelope} {gaps : List ReplayGap}
    (polled : Polled limit slots start d cursor events gaps) :
    Closed start.rows d ∧ gaps = [] ∧
      events = start.rows.filter fun event => event.sequence ≤ cursor := by
  induction polled with
  | start =>
    refine ⟨⟨unlisted, rfl⟩, rfl, ?_⟩
    symm
    rw [List.filter_eq_nil_iff]
    intro event mem
    have := start.positive event mem
    simp
    omega
  | elsewhere before step ih => exact ⟨closedDrifts ih.1 (.single step), ih.2⟩
  | answered before accepted ran ih =>
    obtain ⟨closed, none', same⟩ := ih
    obtain ⟨read, gap, next⟩ := durableAnswered closed ran
    refine ⟨closedRuns closed ran, by simp [none', gap], ?_⟩
    rw [next, (sortedTake start.ordered _ _ read).1, same]
  | failed before ran ih => exact ⟨closedRuns ih.1 ran, ih.2⟩

end Durable

open Interleaving Session in
/-- A client that goes on from its last answer has the whole stream up to its cursor, in
order and each event once, but for the gaps it was told, and an answer moves it ahead. -/
theorem pollingFollows {sup : Supervisor} {c : Config (machine sup)}
    (reached : Reach Always (initially sup) c) {session : SessionId} {slots : Nat} (start : Desk)
    (listed : start.log = if session ∈ c.memory.listed then
      (c.memory.sessions session).map SessionRecord.events else none)
    {d : Desk} {cursor : Nat} {events : List EventEnvelope} {gaps : List ReplayGap}
    (polled : Polled sup.limits.replayEvents slots start d cursor events gaps) :
    let published := match d.log with
      | some log => log.sent
      | none => start.rows
    let available := match d.log with
      | some log => log.retained
      | none => start.rows
    List.Sublist events published ∧
      (events.map EventEnvelope.sequence).Pairwise (· < ·) ∧
      (∀ event ∈ events, event.sequence ≤ cursor) ∧
      (∀ event ∈ published, event.sequence ≤ cursor → event ∈ events ∨ ∃ gap ∈ gaps,
        gap.requestedAfterSequence < event.sequence ∧
          event.sequence ≤ gap.availableAfterSequence) ∧
      ∀ maximum wait last batch, 0 < maximum → maximum ≤ maximumEventsPerRead →
        (∃ event ∈ available, cursor < event.sequence) →
        Runs sup.limits.replayEvents slots d (readSessionEvents cursor maximum wait) last (.ok batch) →
        cursor < batch.nextSequence := by
  intro published available
  cases here : start.log with
  | none =>
    obtain ⟨closed, none', same⟩ := polledDurable here polled
    have unlisted : published = start.rows := by
      simp only [published, closed.1]
    have rows : available = start.rows := by
      simp only [available, closed.1]
    rw [unlisted, rows, same]
    refine ⟨List.filter_sublist, ?_, fun event mem => ?_, fun event mem low => ?_, ?_⟩
    · rw [List.pairwise_map]
      exact start.ordered.sublist List.filter_sublist
    · simpa using (List.mem_filter.mp mem).2
    · exact .inl (List.mem_filter.mpr ⟨mem, by simpa using low⟩)
    · intro maximum wait last batch room accepted ahead ran
      obtain ⟨read, -, next⟩ := durableAnswered closed ran
      rw [next]
      apply (sortedTake start.ordered _ _ read).2
      obtain ⟨event, mem, less⟩ := ahead
      intro empty
      rw [read, List.take_eq_nil_iff] at empty
      rcases empty with none'' | none''
      · omega
      · have member : event ∈ start.rows.filter fun event => cursor < event.sequence :=
          List.mem_filter.mpr ⟨mem, by simpa using less⟩
        rw [none''] at member
        cases member
  | some base =>
    have kept : base.Kept sup.limits.replayEvents := by
      rw [here] at listed
      split at listed
      · obtain ⟨record, found, rfl⟩ := Option.map_eq_some_iff.mp listed.symm
        exact reachLogs reached found
      · cases listed
    obtain ⟨log, there, kept', -, followed⟩ := polledLive here kept polled
    have sent : published = log.sent := by
      simp only [published, there]
    have retained : available = log.retained := by
      simp only [available, there]
    rw [sent, retained]
    have inside := followed.ordered.trans (List.take_sublist cursor log.sent)
    have numbers : (log.sent.map EventEnvelope.sequence).Pairwise (· < ·) := by
      rw [kept'.sequences]
      exact List.pairwise_lt_range'
    have early (event : EventEnvelope) (mem : event ∈ log.sent.take cursor) :
        event.sequence ≤ cursor := by
      obtain ⟨index, bound, rfl⟩ := List.mem_take_iff_getElem.mp mem
      have number := kept'.numbered index _ (List.getElem?_eq_getElem (by omega))
      omega
    refine ⟨inside, numbers.sublist (inside.map _), fun event mem => ?_, fun event mem low => ?_, ?_⟩
    · exact early event (followed.ordered.subset mem)
    · apply followed.covered
      obtain ⟨index, bound, rfl⟩ := List.mem_iff_getElem.mp mem
      have number := kept'.numbered index _ (List.getElem?_eq_getElem bound)
      exact List.mem_take_iff_getElem.mpr ⟨index, by omega, rfl⟩
    · intro maximum wait last batch room accepted ahead ran
      exact liveAdvances there kept' followed room ahead ran

theorem lastWatched {May : Desk → Act → Prop} {log : EventLog} {before : List EventEnvelope}
    {event : EventEnvelope} (sent : log.sent = before ++ [event]) (kept : log.Kept 2048) (d : Desk)
    (listed : d.log = some log) (more wait : Nat)
    (may : ∀ d, (∀ after, May d (.subscribe after)) ∧ May d .tryRecv)
    (looks : May { d with subscription := some ⟨[], before.length + 1, none⟩ } .snapshot) :
    Watched 2048 256 May d (readSessionEvents before.length (more + 2) wait)
      { d with subscription := some ⟨[], before.length + 1, none⟩ }
      (.ok ⟨[event], event.sequence, before.length + 1, none, d.state⟩) := by
  have latest : log.latestSequence = before.length + 1 := by rw [← kept.latest, sent]; simp
  have dropped : log.droppedThroughSequence ≤ before.length := by rw [kept.dropped, latest]; omega
  cases subscribed : log.subscribe before.length with
  | none => simp [EventLog.subscribe, latest] at subscribed
  | some s =>
    obtain ⟨-, next, replay, gap⟩ := subscribeSpec kept subscribed
    rw [Nat.max_eq_left dropped, sent, List.drop_left] at replay
    rw [if_neg (Nat.not_lt_of_le dropped)] at gap
    rw [sent, List.length_append, List.length_singleton] at next
    have shape : s = ⟨[event], before.length + 1, none⟩ := by
      obtain ⟨replay', next', gap'⟩ := s
      simp_all
    let d₁ : Desk := { d with subscription := some s }
    let d₂ : Desk := { d with subscription := some ⟨[], before.length + 1, none⟩ }
    have first : d.apply 256 (.subscribe before.length) .go = some (.ok none, d₁) := by
      simp [Desk.apply, listed, subscribed, shape, d₁]
    have second : d₁.apply 256 .tryRecv .go = some (.ok (some event), d₂) := by
      simp [Desk.apply, listed, d₁, d₂, shape, FakeSessionSubscription.recv]
    have waits : FakeSessionSubscription.recv 256 log ⟨[], before.length + 1, none⟩ = none := by
      have inside : ¬before.length + 1 + 256 < log.sent.length := by
        rw [sent, List.length_append, List.length_singleton]
        omega
      have beyond : log.sent[before.length + 1]? = none := by
        rw [sent]
        exact List.getElem?_eq_none (by simp)
      simp only [FakeSessionSubscription.recv, if_neg inside, beyond]
    have third : d₂.apply 256 .tryRecv .go = some (.ok none, d₂) := by
      simp [Desk.apply, listed, d₂, waits]
    have fourth : d₂.apply 256 .snapshot .go = some (.ok (before.length + 1, d.state), d₂) := by
      simp [Desk.apply, listed, d₂, latest]
    exact .act ((may _).1 _) first
      (.act (may _).2 second (.act (may _).2 third (.act looks fourth .done)))

theorem lastCall {log : EventLog} {before : List EventEnvelope} {event : EventEnvelope}
    (sent : log.sent = before ++ [event]) (kept : log.Kept 2048) (d : Desk)
    (listed : d.log = some log) (more wait : Nat) :
    Runs 2048 256 d (readSessionEvents before.length (more + 2) wait)
      { d with subscription := some ⟨[], before.length + 1, none⟩ }
      (.ok ⟨[event], event.sequence, before.length + 1, none, d.state⟩) :=
  watchedRuns (@lastWatched (fun _ _ => True) _ _ _ sent kept d listed more wait
    (fun _ => ⟨fun _ => trivial, trivial⟩) trivial)

open Interleaving Session in
theorem pollingFollowsFirst : ∃ (start d : Desk) (event : EventEnvelope),
    Polled 2048 256 start d event.sequence [event] [] ∧
      List.Sublist [event] (match d.log with
        | some log => log.sent
        | none => start.rows) := by
  obtain ⟨c, ran, seen⟩ := Option.map_eq_some_iff.mp startedLog
  obtain ⟨record, found, shown⟩ := Option.map_eq_some_iff.mp seen
  obtain ⟨latest, dropped, listed⟩ : _ ∧ _ ∧ _ := by simpa using shown
  have reached : Reach Always (initially (plain [])) c := reachRun .start (fun _ _ => trivial) ran
  have kept : record.events.Kept 2048 := reachLogs reached found
  obtain ⟨event, one⟩ := List.length_eq_one_iff.mp (kept.latest.trans latest)
  let start : Desk := ⟨some record.events, .running, none, none, [], .nil, nofun⟩
  have polled : Polled 2048 256 start _ event.sequence [event] [] :=
    .answered .start (by decide) (lastCall (show record.events.sent = [] ++ [event] from one) kept start rfl 14 0)
  have present : 0 ∈ c.memory.listed := by
    rw [listed]
    decide
  exact ⟨start, _, event, polled,
    (pollingFollows reached start (by rw [if_pos present, found]; rfl) polled).1⟩

end Maestro.Polling
