import Maestro.Subscription

/-! The monitor of a run, which copies the events of its session into the storage until it
sees that the run is not the active one any more. The end of a run clears the active run
first and publishes the final event afterwards. -/
namespace Maestro.Monitoring

/-- Where `persist_session_events` is in its loop; behind the loop it stores no event. -/
inductive Stage where
  | waiting
  | receiving (subscription : FakeSessionSubscription)
  | storing (event : EventEnvelope) (subscription : FakeSessionSubscription)
  | checking (subscription : FakeSessionSubscription)
  | ended
  deriving Repr

/-- `rows` are the stored events of the session. The monitor's events start behind `floor`. -/
structure World where
  log : EventLog
  active : Option RunId
  rows : List EventEnvelope
  stage : Stage
  floor : Nat

def World.start (afterSequence : Nat) : World :=
  ⟨.empty, none, [], .waiting, afterSequence⟩

inductive Label where
  | publish (envelope : EventEnvelope)
  | activate (active : Option RunId)
  | earlier
  | monitor

section Steps
variable (limit slots : Nat) (run : RunId) (afterSequence : Nat)

/-- The monitor of the run among the tasks that publish, launch and finalize, and the monitors
of earlier runs. Every append succeeds. A session whose run was launched stays in the
supervisor, so its channel does not close and its snapshot is there. -/
inductive Step (w : World) : Label → World → Prop
  | publish {session run source event envelope log}
      (published : w.log.publish limit session run source event = some (envelope, log)) :
      Step w (.publish envelope) { w with log := log }
  | activate (active : Option RunId) : Step w (.activate active) { w with active := active }
  | earlier {event : EventEnvelope} (early : event.sequence ≤ afterSequence) :
      Step w .earlier { w with rows := w.rows ++ [event] }
  | subscribe {s} (waits : w.stage = .waiting) (subscribed : w.log.subscribe afterSequence = some s) :
      Step w .monitor { w with
        stage := .receiving s
        floor := max afterSequence w.log.droppedThroughSequence }
  | refused (waits : w.stage = .waiting) (refused : w.log.subscribe afterSequence = none) :
      Step w .monitor { w with stage := .ended }
  | recv {s s' event} (receives : w.stage = .receiving s)
      (received : s.recv slots w.log = some (.ok event, s')) :
      Step w .monitor { w with stage := .storing event s' }
  | lags {s s' error} (receives : w.stage = .receiving s)
      (lagged : s.recv slots w.log = some (.error error, s')) : Step w .monitor { w with stage := .ended }
  | persist {s event} (stores : w.stage = .storing event s) :
      Step w .monitor { w with
        rows := w.rows ++ [event]
        stage := .checking s }
  | goesOn {s} (checks : w.stage = .checking s) (same : w.active = some run) :
      Step w .monitor { w with stage := .receiving s }
  | breaks {s} (checks : w.stage = .checking s) (other : w.active ≠ some run) :
      Step w .monitor { w with stage := .ended }

abbrev Runs (Good : World → Label → Prop) : World → World → Prop :=
  Relation.ReflTransGen fun w w' => ∃ label, Good w label ∧ Step limit slots run afterSequence w label w'

/-- The events of the run behind `afterSequence`. -/
def owed (events : List EventEnvelope) : List EventEnvelope :=
  events.filter fun event => event.runId = some run ∧ afterSequence < event.sequence

/-- The storage holds every event of the run, in the order of the stream and once. -/
def Complete (w : World) : Prop := owed run afterSequence w.rows = owed run afterSequence w.log.sent

def Stage.subscription : Stage → Option FakeSessionSubscription
  | .receiving s | .storing _ s | .checking s => some s
  | .waiting | .ended => none

/-- The run is cleared behind its last event, or before the monitor looks for it: the ring still
has the events of the run when the monitor subscribes, the channel does not overtake it, nothing
of a cleared run is left to take when it checks, and nothing is published behind its end. -/
def Timely (w : World) : Label → Prop
  | .publish envelope =>
    (∀ s, w.stage.subscription = some s → w.log.sent.length < s.next + slots) ∧
      (w.active ≠ some run → w.stage = .ended → owed run afterSequence [envelope] = [])
  | .activate active => active = some run → w.stage ≠ .ended
  | .earlier => True
  | .monitor =>
    (w.stage = .waiting → afterSequence ≤ w.log.latestSequence ∧
      ∀ event ∈ owed run afterSequence w.log.sent, w.log.droppedThroughSequence < event.sequence) ∧
    ∀ s, w.stage = .checking s → w.active ≠ some run → owed run afterSequence (s.undelivered w.log) = []

end Steps

section Invariant
variable {limit slots : Nat} {run : RunId} {afterSequence : Nat} {w w' : World}

/-- The subscription has given the stored events, and the one the monitor is about to store. -/
def Stage.Copied (limit : Nat) (w : World) (got : List EventEnvelope) : Stage → Prop
  | .waiting => got = []
  | .receiving s | .checking s => Given limit w.floor w.log s got
  | .storing event s => Given limit w.floor w.log s (got ++ [event])
  | .ended => True

/-- What was stored behind `afterSequence` is a piece of the stream from `floor` on. -/
structure Copies (limit afterSequence : Nat) (w : World) (got : List EventEnvelope) : Prop where
  kept : w.log.Kept limit
  behind : afterSequence ≤ w.floor
  stored : (w.rows.filter fun event => afterSequence < event.sequence) = got
  piece : got <+: w.log.sent.drop w.floor
  copied : w.stage.Copied limit w got

theorem pieceSequence {log : EventLog} (kept : log.Kept limit) {got : List EventEnvelope} {floor : Nat}
    (piece : got <+: log.sent.drop floor) {index : Nat} {event : EventEnvelope}
    (found : got[index]? = some event) : event.sequence = floor + index + 1 := by
  refine kept.numbered (floor + index) event ?_
  obtain ⟨rest, same⟩ := piece
  have inside := (List.getElem?_eq_some_iff.mp found).1
  rw [← List.getElem?_drop, ← same, List.getElem?_append_left inside, found]

theorem stepCopies {got : List EventEnvelope} (copies : Copies limit afterSequence w got) {label : Label}
    (step : Step limit slots run afterSequence w label w') : ∃ got', Copies limit afterSequence w' got' := by
  obtain ⟨kept, behind, stored, piece, copied⟩ := copies
  cases step with
  | @publish session run' source event envelope log published =>
    obtain ⟨kept', sent⟩ := EventLog.keptPublish kept published
    have longer : w.log.sent.drop w.floor <+: log.sent.drop w.floor := by
      rw [sent, List.drop_append]
      exact List.prefix_append _ _
    refine ⟨got, kept', behind, stored, piece.trans longer, ?_⟩
    cases stage : w.stage with
    | waiting | ended => rw [stage] at copied; exact copied
    | receiving s | checking s | storing event s =>
      rw [stage] at copied
      exact givenPublish copied published
  | activate active =>
    refine ⟨got, kept, behind, stored, piece, ?_⟩
    cases stage : w.stage <;> (rw [stage] at copied; exact copied)
  | earlier early =>
    refine ⟨got, kept, behind, ?_, piece, ?_⟩
    · rw [List.filter_append, stored, List.filter_cons_of_neg (by simpa using early), List.filter_nil,
        List.append_nil]
    · cases stage : w.stage <;> (rw [stage] at copied; exact copied)
  | @subscribe s waits subscribed =>
    rw [waits] at copied
    cases (show got = [] from copied)
    exact ⟨[], kept, Nat.le_max_left _ _, stored, List.nil_prefix, givenSubscribed kept subscribed⟩
  | refused waits refused => exact ⟨got, kept, behind, stored, piece, trivial⟩
  | @recv s s' event receives received =>
    rw [receives] at copied
    exact ⟨got, kept, behind, stored, piece, givenRecv copied received⟩
  | lags receives lagged => exact ⟨got, kept, behind, stored, piece, trivial⟩
  | @persist s event stores =>
    rw [stores] at copied
    have given : Given limit w.floor w.log s (got ++ [event]) := copied
    have piece' : got ++ [event] <+: w.log.sent.drop w.floor := given.exact ▸ List.prefix_append _ _
    have sequence := pieceSequence kept piece' List.getElem?_concat_length
    have later : afterSequence < event.sequence := by omega
    refine ⟨got ++ [event], kept, behind, ?_, piece', given⟩
    rw [List.filter_append, stored, List.filter_cons_of_pos (by simpa using later), List.filter_nil]
  | @goesOn s checks same =>
    rw [checks] at copied
    exact ⟨got, kept, behind, stored, piece, copied⟩
  | breaks checks other => exact ⟨got, kept, behind, stored, piece, trivial⟩

theorem owedStored (events : List EventEnvelope) : owed run afterSequence events =
    (events.filter fun event => afterSequence < event.sequence).filter fun event => event.runId = some run := by
  rw [owed, List.filter_filter]
  congr 1
  funext event
  exact Bool.decide_and _ _

theorem owedAppend (before after : List EventEnvelope) :
    owed run afterSequence (before ++ after) = owed run afterSequence before ++ owed run afterSequence after :=
  List.filter_append ..

theorem drainedComplete {got : List EventEnvelope} {s : FakeSessionSubscription}
    (copies : Copies limit afterSequence w got) (given : Given limit w.floor w.log s got)
    (ahead : ∀ event ∈ owed run afterSequence w.log.sent, w.floor < event.sequence)
    (drained : owed run afterSequence (s.undelivered w.log) = []) : Complete run afterSequence w := by
  have sent : w.log.sent = w.log.sent.take w.floor ++ (got ++ s.undelivered w.log) := by
    rw [given.exact, List.take_append_drop]
  have first : owed run afterSequence (w.log.sent.take w.floor) = [] := by
    refine List.eq_nil_iff_forall_not_mem.mpr fun event member => ?_
    obtain ⟨inside, -⟩ := List.mem_filter.mp member
    obtain ⟨index, bound, rfl⟩ := List.mem_take_iff_getElem.mp inside
    have number := copies.kept.numbered index _ (List.getElem?_eq_getElem (by omega))
    have large := ahead _ (by rw [sent, owedAppend]; exact List.mem_append_left _ member)
    omega
  have all : (got.filter fun event => afterSequence < event.sequence) = got := by
    rw [← copies.stored, List.filter_filter]
    simp only [Bool.and_self]
  unfold Complete
  rw [owedStored w.rows, copies.stored, sent, owedAppend, first, owedAppend, drained, List.nil_append,
    List.append_nil, owedStored got, all]

/-- What the monitor has taken is where it should be, and when it ends the run is cleared and
stored. -/
structure Course (limit slots : Nat) (run : RunId) (afterSequence : Nat) (w : World) : Prop where
  copies : ∃ got, Copies limit afterSequence w got
  ahead : ∀ s, w.stage.subscription = some s →
    (∀ event ∈ owed run afterSequence w.log.sent, w.floor < event.sequence) ∧
      w.log.sent.length ≤ s.next + slots
  ended : w.stage = .ended → w.active ≠ some run ∧ Complete run afterSequence w

theorem floorLow {got : List EventEnvelope} {s : FakeSessionSubscription}
    (copies : Copies limit afterSequence w got) (has : w.stage.subscription = some s) :
    w.floor ≤ w.log.sent.length := by
  have copied := copies.copied
  generalize w.stage = stage at copied has
  cases stage with
  | waiting | ended => cases has
  | receiving | storing | checking => exact copied.low

theorem recvGoesOn {s s' : FakeSessionSubscription} {log : EventLog} {event : EventEnvelope}
    (received : s.recv slots log = some (.ok event, s')) : s.next ≤ s'.next := by
  unfold FakeSessionSubscription.recv at received
  repeat' split at received
  all_goals cases received
  · exact Nat.le_refl _
  · exact Nat.le_succ _

theorem recvLags {s s' : FakeSessionSubscription} {log : EventLog} {error : FakeSubscriptionError}
    (lagged : s.recv slots log = some (.error error, s')) : s.next + slots < log.sent.length := by
  unfold FakeSessionSubscription.recv at lagged
  repeat' split at lagged
  all_goals cases lagged
  assumption

theorem stepCourse (course : Course limit slots run afterSequence w) {label : Label}
    (timely : Timely slots run afterSequence w label) (step : Step limit slots run afterSequence w label w') :
    Course limit slots run afterSequence w' := by
  obtain ⟨⟨got, copies⟩, ahead, ended⟩ := course
  refine ⟨stepCopies copies step, ?_, ?_⟩
  · cases step with
    | @publish session run' source event envelope log published =>
      intro s has
      obtain ⟨kept', sent⟩ := EventLog.keptPublish copies.kept published
      have low := floorLow copies has
      have room := timely.1 s has
      refine ⟨fun event member => ?_, ?_⟩
      · rw [sent, owedAppend] at member
        rcases List.mem_append.mp member with old | new
        · exact (ahead s has).1 event old
        · obtain rfl := List.mem_singleton.mp (List.mem_filter.mp new).1
          have number := kept'.numbered w.log.sent.length event (by rw [sent, List.getElem?_concat_length])
          change w.floor < event.sequence
          omega
      · rw [sent, List.length_append, List.length_singleton]
        omega
    | activate | earlier => exact ahead
    | @subscribe s waits subscribed =>
      intro s' has
      cases has
      obtain ⟨-, next, -⟩ := subscribeSpec copies.kept subscribed
      refine ⟨fun event member => ?_, ?_⟩
      · have behind := (timely.1 waits).2 event member
        have later := of_decide_eq_true (List.mem_filter.mp member).2
        exact Nat.max_lt.mpr ⟨later.2, behind⟩
      · exact next ▸ Nat.le_add_right _ _
    | refused | lags | breaks => exact fun s has => by cases has
    | @recv s s' event receives received =>
      intro other has
      cases has
      obtain ⟨low, near⟩ := ahead s (by rw [receives]; rfl)
      exact ⟨low, Nat.le_trans near (Nat.add_le_add_right (recvGoesOn received) slots)⟩
    | @persist s event stores =>
      intro other has
      cases has
      exact ahead s (by rw [stores]; rfl)
    | @goesOn s checks same =>
      intro other has
      cases has
      exact ahead s (by rw [checks]; rfl)
  · cases step with
    | @publish session run' source event envelope log published =>
      intro gone
      obtain ⟨cleared, complete⟩ := ended gone
      refine ⟨cleared, ?_⟩
      unfold Complete at complete ⊢
      rw [(EventLog.keptPublish copies.kept published).2, owedAppend, timely.2 cleared gone, List.append_nil]
      exact complete
    | activate active => exact fun gone => ⟨fun same => timely same gone, (ended gone).2⟩
    | @earlier event early =>
      intro gone
      obtain ⟨cleared, complete⟩ := ended gone
      refine ⟨cleared, ?_⟩
      unfold Complete at complete ⊢
      rw [owedAppend, complete]
      have none' : owed run afterSequence [event] = [] :=
        List.filter_cons_of_neg (by simpa using fun _ => early)
      rw [none', List.append_nil]
    | refused waits refused =>
      have known := (timely.1 waits).1
      unfold EventLog.subscribe at refused
      rw [if_neg (Nat.not_lt.mpr known)] at refused
      cases refused
    | @lags s s' error receives lagged =>
      have near := (ahead s (by rw [receives]; rfl)).2
      have far := recvLags lagged
      omega
    | @breaks s checks other =>
      intro _
      have given : Given limit w.floor w.log s got := by
        have copied := copies.copied
        rwa [checks] at copied
      have drained := drainedComplete copies given (ahead s (by rw [checks]; rfl)).1
        (timely.2 s checks other)
      exact ⟨other, drained⟩
    | subscribe | recv | persist | goesOn => exact fun gone => by cases gone

theorem runsCourse (reached : Runs limit slots run afterSequence (Timely slots run afterSequence)
    (.start afterSequence) w) : Course limit slots run afterSequence w := by
  induction reached with
  | refl =>
    refine ⟨⟨[], EventLog.keptEmpty, Nat.le_refl _, rfl, List.nil_prefix, rfl⟩, ?_, ?_⟩
    · exact fun s has => by cases has
    · exact fun gone => by cases gone
  | tail before step ih =>
    obtain ⟨label, timely, step⟩ := step
    exact stepCourse ih timely step

end Invariant

theorem monitorComplete {limit slots : Nat} {run : RunId} {afterSequence : Nat} {w : World}
    (reached : Runs limit slots run afterSequence (Timely slots run afterSequence) (.start afterSequence) w)
    (ended : w.stage = .ended) : Complete run afterSequence w :=
  ((runsCourse reached).ended ended).2

def message : EventEnvelope := ⟨0, some 0, 1, .cli, .user "agent_message" .null⟩

def completion : EventEnvelope := ⟨0, some 0, 2, .daemon, .user "run_completed" .null⟩

def messageLog : EventLog := ⟨[message], 1, 0, [message]⟩

def wholeLog : EventLog := ⟨[message, completion], 2, 0, [message, completion]⟩

theorem messagePublished : EventLog.empty.publish 2048 0 (some 0) .cli message.event =
    some (message, messageLog) := rfl

theorem completionPublished : messageLog.publish 2048 0 (some 0) .daemon completion.event =
    some (completion, wholeLog) := rfl

theorem messageStored : Runs 2048 256 0 0 (Timely 256 0 0) (.start 0)
    ⟨messageLog, some 0, [message], .checking ⟨[], 1, none⟩, 0⟩ :=
  Relation.ReflTransGen.refl
    |>.tail ⟨_, by simp [Timely, World.start], .activate (some 0)⟩
    |>.tail ⟨_, by simp [Timely, World.start, Stage.subscription], .publish messagePublished⟩
    |>.tail ⟨_, by simp [Timely, World.start, messageLog, message, owed], .subscribe rfl rfl⟩
    |>.tail ⟨_, by simp [Timely], .recv rfl rfl⟩
    |>.tail ⟨_, by simp [Timely], .persist rfl⟩

theorem endedBefore : Runs 2048 256 0 0 (fun _ _ => True) (.start 0) ⟨wholeLog, none, [message], .ended, 0⟩ :=
  Relation.ReflTransGen.mono (fun _ _ taken => taken.elim fun label here => ⟨label, trivial, here.2⟩)
      _ _ messageStored
    |>.tail ⟨_, trivial, .activate none⟩
    |>.tail ⟨_, trivial, .breaks rfl (by decide)⟩
    |>.tail ⟨_, trivial, .publish completionPublished⟩

theorem monitorMisses : ¬ ∀ (limit slots : Nat) (run : RunId) (afterSequence : Nat) (w : World),
    Runs limit slots run afterSequence (fun _ _ => True) (.start afterSequence) w → w.stage = .ended →
      Complete run afterSequence w := by
  intro complete
  have whole : owed 0 0 [message] = owed 0 0 [message, completion] :=
    complete 2048 256 0 0 _ endedBefore rfl
  have length := congrArg List.length whole
  revert length
  decide

theorem endedBehind : Runs 2048 256 0 0 (Timely 256 0 0) (.start 0)
    ⟨wholeLog, none, [message, completion], .ended, 0⟩ :=
  messageStored
    |>.tail ⟨_, by simp [Timely], .goesOn rfl rfl⟩
    |>.tail ⟨_, by simp [Timely], .activate none⟩
    |>.tail ⟨_, by simp [Timely, Stage.subscription, messageLog], .publish completionPublished⟩
    |>.tail ⟨_, by simp [Timely], .recv rfl rfl⟩
    |>.tail ⟨_, by simp [Timely], .persist rfl⟩
    |>.tail ⟨_, by simp [Timely, FakeSessionSubscription.undelivered, wholeLog, owed], .breaks rfl (by decide)⟩

theorem monitorCompleteWaiting :
    Complete 0 0 ⟨wholeLog, none, [message, completion], .ended, 0⟩ := monitorComplete endedBehind rfl

end Maestro.Monitoring
