import Maestro.Stepping
import Maestro.Subscription

/-! The durable end of a run. `finalize_run` ends it in memory, and the monitor of the run
stores what the session shows when it has seen that the run is not the active one any more. -/
namespace Maestro.Finalizing

/-- Where `persist_session_events` is; behind its loop it takes one more snapshot. -/
inductive Stage where
  | waiting
  | receiving (subscription : FakeSessionSubscription)
  | storing (subscription : FakeSessionSubscription)
  | checking (subscription : FakeSessionSubscription)
  | completing
  | finishing (row : SessionState × Option ExitCause)
  | ended
  deriving Repr

def Stage.looks : Stage → Bool
  | .waiting | .receiving _ | .storing _ | .checking _ | .completing => true
  | .finishing _ | .ended => false

/-- `outcome` is what `finalize_run` gave the run, and `returned` whether it has come back.
`recorded` are the calls of `finish_session_run` for the run. -/
structure World where
  log : EventLog
  active : Option RunId
  state : SessionState
  lastExit : Option ExitCause
  outcome : Option (SessionState × Option ExitCause)
  returned : Bool
  stage : Stage
  recorded : List (SessionState × Option ExitCause)

def World.start (run : RunId) (log : EventLog) : World :=
  ⟨log, some run, .starting, none, none, false, .waiting, []⟩

/-- The states `classify_completion` ends a run with. -/
def isFinal : SessionState → Bool
  | .completed | .stopped | .failed | .incompatible => true
  | _ => false

/-- A resume sets the state, then clears the last exit (`launch`), then installs its run. -/
inductive Event where
  | publish (session : SessionId) (run : Option RunId) (source : EventSource) (event : NormalizedEvent)
  | setState (state : SessionState)
  | launch
  | resume (other : RunId)
  | finalizeOther (state : SessionState) (exit : Option ExitCause)
  | finalize (state : SessionState) (exit : Option ExitCause)
  | returns (session : SessionId) (event : NormalizedEvent)
  | subscribe
  | recv
  | persist
  | check
  | snapshot
  | finish (stored : Bool)

def Event.own : Event → Bool
  | .subscribe | .recv | .persist | .check | .snapshot | .finish _ => true
  | _ => false

section Steps
variable (limit slots : Nat) (run : RunId) (afterSequence : Nat)

namespace World
variable (w : World)

/-- `finalize_run` publishes no event for an incompatible run, and none fits into a full log. -/
def silent : Bool := w.outcome.map Prod.fst == some .incompatible || u64Max ≤ w.log.latestSequence

/-- The monitor waits for an event and has had all there are. -/
def caughtUp : Bool :=
  match w.stage with
  | .waiting => w.log.latestSequence ≤ afterSequence
  | .receiving s => (s.undelivered w.log).isEmpty
  | _ => false

/-- The channel has written over an event the monitor has not taken. -/
def overtaken : Bool :=
  match w.stage with
  | .receiving s => s.lags slots w.log
  | _ => false

def step : Event → Option World
  | .publish session from' source event =>
    (w.log.publish limit session from' source event).map fun (_, log) => { w with log := log }
  | .setState state => some { w with state := state }
  | .launch => if w.active = none then some { w with lastExit := none } else none
  | .resume other =>
    if w.active = none ∧ other ≠ run then some { w with active := some other } else none
  | .finalizeOther state exit =>
    if w.active ≠ some run ∧ w.active ≠ none then
      some { w with active := none, state := state, lastExit := exit }
    else none
  | .finalize state exit =>
    if w.active = some run ∧ isFinal state = true ∧ w.outcome = none then
      some { w with active := none, state := state, lastExit := exit, outcome := some (state, exit) }
    else none
  | .returns session event =>
    if w.outcome = none ∨ w.returned = true then none
    else if w.silent = true then some { w with returned := true }
    else (w.log.publish limit session (some run) .daemon event).map fun (_, log) =>
      { w with log := log, returned := true }
  | .subscribe =>
    match w.stage, w.log.subscribe afterSequence with
    | .waiting, some s => some { w with stage := .receiving s }
    | .waiting, none => some { w with stage := .ended }
    | _, _ => none
  | .recv =>
    match w.stage with
    | .receiving s =>
      match s.recv slots w.log with
      | some (.ok _, s') => some { w with stage := .storing s' }
      | some (.error _, _) => some { w with stage := .completing }
      | none => none
    | _ => none
  | .persist =>
    match w.stage with
    | .storing s => some { w with stage := .checking s }
    | _ => none
  | .check =>
    match w.stage with
    | .checking s => some { w with stage := if w.active = some run then .receiving s else .completing }
    | _ => none
  | .snapshot =>
    match w.stage with
    | .completing => some { w with stage := .finishing (w.state, w.lastExit) }
    | _ => none
  | .finish stored =>
    match w.stage with
    | .finishing row =>
      some { w with stage := .ended, recorded := if stored then w.recorded ++ [row] else w.recorded }
    | _ => none

example (stored : Bool) (ended : w.stage = .ended) : w.step limit slots run afterSequence (.finish stored) = none := by
  simp only [step, ended]

/-- The session stays as the run left it until the monitor has looked at it, the channel does not
overtake the monitor before the run ends, the storage takes the call, and a run that ends without
an event ends before the monitor has had all the others. -/
def good : Event → Bool
  | .setState _ | .launch | .resume _ | .finalizeOther .. => w.outcome.isNone || !w.stage.looks
  | .recv => w.outcome.isSome || !w.overtaken slots
  | .returns _ _ => !w.silent || !w.caughtUp afterSequence
  | .finish stored => stored
  | _ => true
end World

abbrev Reach (May : World → Event → Prop) : World → World → Prop :=
  Stepping.Reach (World.step limit slots run afterSequence) May

abbrev AnyStep (_ : World) (_ : Event) : Prop := True

abbrev Good (w : World) (event : Event) : Prop := w.good slots afterSequence event = true

def Ends (w : World) : Prop := ∃ events w', (∀ event ∈ events, event.own = true) ∧
  Stepping.run (World.step limit slots run afterSequence) AnyStep w events = some w' ∧ w'.stage = .ended

/-- Only the run's own end is recorded and once, and behind the end of the run the monitor
ends by its own steps, with a record. -/

structure Durable (w : World) : Prop where
  own : ∀ row ∈ w.recorded, w.outcome = some row ∧ isFinal row.1 = true
  once : w.recorded.length ≤ 1
  left : w.stage = .ended → w.recorded ≠ []
  ends : w.returned = true → Ends limit slots run afterSequence w

end Steps

def Stage.subscription : Stage → Option FakeSessionSubscription
  | .receiving s | .storing s | .checking s => some s
  | _ => none

structure Sound (limit : Nat) (run : RunId) (afterSequence : Nat) (w : World) : Prop where
  kept : w.log.Kept limit
  known : afterSequence ≤ w.log.latestSequence
  gone : w.outcome ≠ none ↔ w.active ≠ some run
  shown : ∀ row, w.outcome = some row → w.stage.looks = true → row = (w.state, w.lastExit)
  left : w.stage = .completing → w.outcome ≠ none
  final : ∀ row, w.outcome = some row → isFinal row.1 = true
  behind : w.returned = true → w.outcome ≠ none ∧ w.caughtUp afterSequence = false
  next : ∀ s, w.stage.subscription = some s → s.next ≤ w.log.sent.length
  seen : ∀ row, w.stage = .finishing row → w.outcome = some row
  still : w.stage ≠ .ended → w.recorded = []
  record : w.stage = .ended → ∃ row, w.recorded = [row] ∧ w.outcome = some row

section Invariant
variable {limit slots : Nat} {run : RunId} {afterSequence : Nat} {w w' : World} {event : Event}

theorem publishSound (sound : Sound limit run afterSequence w) {log : EventLog}
    {envelope : EventEnvelope} (kept : log.Kept limit) (sent : log.sent = w.log.sent ++ [envelope])
    (returned : Bool) (known : returned = true → w.outcome ≠ none) :
    Sound limit run afterSequence { w with log := log, returned := returned } := by
  have length : log.sent.length = w.log.sent.length + 1 := by
    rw [sent, List.length_append, List.length_singleton]
  have latest : log.latestSequence = w.log.latestSequence + 1 := by
    rw [← kept.latest, ← sound.kept.latest, length]
  have below := sound.known
  refine ⟨kept, by rw [latest]; exact Nat.le_succ_of_le below, sound.gone, sound.shown, sound.left, sound.final,
    fun back => ⟨known back, ?_⟩, fun s mine => ?_, sound.seen, sound.still, sound.record⟩
  · unfold World.caughtUp
    cases stage : w.stage with
    | waiting =>
      refine decide_eq_false fun reached => ?_
      rw [latest] at reached
      omega
    | receiving s =>
      have inside := sound.next s (by rw [stage]; rfl)
      refine Bool.eq_false_iff.mpr fun empty => ?_
      have none' : s.undelivered log = [] := List.isEmpty_iff.mp empty
      rw [FakeSessionSubscription.undelivered, List.append_eq_nil_iff, List.drop_eq_nil_iff] at none'
      omega
    | storing | checking | completing | finishing | ended => rfl
  · exact Nat.le_trans (sound.next s mine) (by rw [length]; exact Nat.le_succ _)

theorem subscribeBehind (sound : Sound limit run afterSequence w) (room : 0 < limit)
    (waits : w.stage = .waiting) {s : FakeSessionSubscription}
    (subscribed : w.log.subscribe afterSequence = some s) :
    Sound limit run afterSequence { w with stage := .receiving s } := by
  obtain ⟨-, next, replay, -⟩ := subscribeSpec sound.kept subscribed
  refine ⟨sound.kept, sound.known, sound.gone, fun row known _ => sound.shown row known (by rw [waits]; rfl),
    by intros; contradiction, sound.final, fun back => ⟨(sound.behind back).1, ?_⟩, fun s' mine => ?_, by intros; contradiction, fun _ => sound.still (by rw [waits]; exact nofun),
    by intros; contradiction⟩
  · have ahead := (sound.behind back).2
    simp only [World.caughtUp, waits, decide_eq_false_iff_not, Nat.not_le] at ahead
    refine Bool.eq_false_iff.mpr fun empty => ?_
    have none' : s.undelivered w.log = [] := List.isEmpty_iff.mp empty
    rw [FakeSessionSubscription.undelivered, replay, List.append_eq_nil_iff, List.drop_eq_nil_iff] at none'
    have latest := sound.kept.latest
    have dropped := sound.kept.dropped
    omega
  · cases Option.some.inj mine
    exact Nat.le_of_eq next

theorem stageSound (sound : Sound limit run afterSequence w) {stage : Stage}
    (quiet : stage ≠ .waiting ∧ stage ≠ .ended ∧ ∀ s, stage ≠ .receiving s) (looks : w.stage.looks = true)
    (left : stage = .completing → w.outcome ≠ none)
    (next : ∀ s, stage.subscription = some s → s.next ≤ w.log.sent.length)
    (seen : ∀ row, stage = .finishing row → w.outcome = some row) :
    Sound limit run afterSequence { w with stage := stage } := by
  have open' : w.stage ≠ .ended := fun ended => by rw [ended] at looks; cases looks
  refine ⟨sound.kept, sound.known, sound.gone, fun row known _ => sound.shown row known looks, left,
    sound.final, fun back => ⟨(sound.behind back).1, ?_⟩,
    next, seen, fun _ => sound.still open', fun ended => absurd ended quiet.2.1⟩
  unfold World.caughtUp
  cases stage with
  | waiting => exact absurd rfl quiet.1
  | receiving s => exact absurd rfl (quiet.2.2 s)
  | storing | checking | completing | finishing | ended => rfl

theorem changeSound (sound : Sound limit run afterSequence w) {active : Option RunId} {state : SessionState}
    {exit : Option ExitCause} (late : (w.outcome.isNone || !w.stage.looks) = true)
    (cleared : w.outcome ≠ none ↔ active ≠ some run) :
    Sound limit run afterSequence { w with active := active, state := state, lastExit := exit } := by
  refine ⟨sound.kept, sound.known, cleared, fun row known looks => ?_, sound.left, sound.final, sound.behind,
    sound.next, sound.seen, sound.still, sound.record⟩
  have known' : w.outcome = some row := known
  have looks' : w.stage.looks = true := looks
  rw [known', looks'] at late
  cases late

theorem overtakenLags {s s' : FakeSessionSubscription} {error : FakeSubscriptionError}
    (receives : w.stage = .receiving s) (lagged : s.recv slots w.log = some (.error error, s')) :
    w.overtaken slots = true := by
  unfold FakeSessionSubscription.recv at lagged
  simp only [World.overtaken, receives, FakeSessionSubscription.lags]
  split at lagged
  · cases lagged
  · rename_i replay
    split at lagged
    · rename_i beyond
      rw [replay, List.isEmpty_nil, Bool.true_and, decide_eq_true beyond]
    · split at lagged <;> cases lagged

theorem stepSound (sound : Sound limit run afterSequence w) (room : 0 < limit)
    (good : Good slots afterSequence w event) (steps : w.step limit slots run afterSequence event = some w') :
    Sound limit run afterSequence w' := by
  cases event with
  | publish session from' source event =>
    obtain ⟨⟨envelope, log⟩, published, rfl⟩ := Option.map_eq_some_iff.mp steps
    obtain ⟨kept, sent⟩ := EventLog.keptPublish sound.kept published
    exact publishSound sound kept sent w.returned fun back => (sound.behind back).1
  | setState state =>
    cases Option.some.inj steps
    exact changeSound sound good sound.gone
  | launch =>
    simp only [World.step] at steps
    split at steps
    · cases Option.some.inj steps
      exact changeSound sound good sound.gone
    · cases steps
  | resume other =>
    simp only [World.step] at steps
    split at steps
    · rename_i launched
      cases Option.some.inj steps
      have ended : w.outcome ≠ none := sound.gone.mpr (by rw [launched.1]; exact nofun)
      exact changeSound sound good (iff_of_true ended fun same => launched.2 (Option.some.inj same))
    · cases steps
  | finalizeOther state exit =>
    simp only [World.step] at steps
    split at steps
    · rename_i other
      cases Option.some.inj steps
      exact changeSound sound good (iff_of_true (sound.gone.mpr other.1) nofun)
    · cases steps
  | finalize state exit =>
    simp only [World.step] at steps
    split at steps
    · rename_i ran
      cases Option.some.inj steps
      have fresh : ∀ {p : Prop} {row}, w.outcome = some row → p := by
        intro p row known
        rw [ran.2.2] at known
        cases known
      refine ⟨sound.kept, sound.known, iff_of_true nofun nofun, fun row same _ => (Option.some.inj same).symm,
        fun _ => nofun, fun row same => ?_, fun back => absurd ran.2.2 (sound.behind back).1, sound.next,
        fun row same => fresh (sound.seen row same), sound.still, fun ended => ?_⟩
      · cases Option.some.inj same
        exact ran.2.1
      · obtain ⟨row, -, known⟩ := sound.record ended
        exact fresh known
    · cases steps
  | returns session event =>
    simp only [World.step] at steps
    split at steps
    · cases steps
    · rename_i pending
      have ended := (not_or.mp pending).1
      split at steps
      · rename_i silent
        cases Option.some.inj steps
        simp only [Good, World.good, silent, Bool.not_true, Bool.false_or, Bool.not_eq_true'] at good
        exact ⟨sound.kept, sound.known, sound.gone, sound.shown, sound.left, sound.final, fun _ => ⟨ended, good⟩,
          sound.next, sound.seen, sound.still, sound.record⟩
      · obtain ⟨⟨envelope, log⟩, published, rfl⟩ := Option.map_eq_some_iff.mp steps
        obtain ⟨kept, sent⟩ := EventLog.keptPublish sound.kept published
        exact publishSound sound kept sent true fun _ => ended
  | subscribe =>
    simp only [World.step] at steps
    split at steps
    · rename_i s waits subscribed
      cases Option.some.inj steps
      exact subscribeBehind sound room waits subscribed
    · rename_i refused
      unfold EventLog.subscribe at refused
      split at refused
      · rename_i beyond
        exact absurd sound.known (Nat.not_le_of_lt beyond)
      · cases refused
    · cases steps
  | recv =>
    simp only [World.step] at steps
    split at steps
    · rename_i s receives
      have inside := sound.next s (by rw [receives]; rfl)
      have looks : w.stage.looks = true := by rw [receives]; rfl
      split at steps
      · rename_i event s' received
        cases Option.some.inj steps
        refine stageSound sound ⟨nofun, nofun, nofun⟩ looks nofun (fun s'' mine => ?_) (by intros; contradiction)
        cases Option.some.inj mine
        exact (FakeSessionSubscription.recvNext received).2 inside
      · rename_i error s' lagged
        cases Option.some.inj steps
        have ended : w.outcome ≠ none := by
          simp only [Good, World.good, overtakenLags receives lagged, Bool.not_true, Bool.or_false] at good
          exact Option.isSome_iff_ne_none.mp good
        exact stageSound sound ⟨nofun, nofun, nofun⟩ looks (fun _ => ended) (by intros; contradiction)
          (by intros; contradiction)
      · cases steps
    · cases steps
  | persist =>
    simp only [World.step] at steps
    split at steps
    · rename_i s stores
      cases Option.some.inj steps
      refine stageSound sound ⟨nofun, nofun, nofun⟩ (by rw [stores]; rfl) nofun (fun s' mine => ?_)
        (by intros; contradiction)
      exact sound.next s' (by rw [stores]; exact mine)
    · cases steps
  | check =>
    simp only [World.step] at steps
    split at steps
    · rename_i s checks
      have looks : w.stage.looks = true := by rw [checks]; rfl
      cases Option.some.inj steps
      by_cases same : w.active = some run
      · have running : w.outcome = none := by
          by_contra ended
          exact sound.gone.mp ended same
        rw [if_pos same]
        refine ⟨sound.kept, sound.known, sound.gone, fun row known _ => sound.shown row known looks,
          by intros; contradiction, sound.final, fun back => absurd running (sound.behind back).1,
          fun s' mine => ?_, by intros; contradiction,
          fun _ => sound.still (by rw [checks]; exact nofun), by intros; contradiction⟩
        exact sound.next s' (by rw [checks]; exact mine)
      · rw [if_neg same]
        exact stageSound sound ⟨nofun, nofun, nofun⟩ looks (fun _ => sound.gone.mpr same)
          (by intros; contradiction) (by intros; contradiction)
    · cases steps
  | snapshot =>
    simp only [World.step] at steps
    split at steps
    · rename_i completes
      cases Option.some.inj steps
      have looks : w.stage.looks = true := by rw [completes]; rfl
      refine stageSound sound ⟨nofun, nofun, nofun⟩ looks nofun (by intros; contradiction) fun row same => ?_
      cases same
      obtain ⟨row, known⟩ := Option.ne_none_iff_exists'.mp (sound.left completes)
      rw [known, sound.shown row known looks]
    · cases steps
  | finish stored =>
    simp only [World.step] at steps
    split at steps
    · rename_i row finishing
      cases Option.some.inj steps
      have taken : stored = true := good
      have empty := sound.still (by rw [finishing]; exact nofun)
      refine ⟨sound.kept, sound.known, sound.gone, by intros; contradiction, by intros; contradiction,
        sound.final, fun back => ⟨(sound.behind back).1, rfl⟩,
        by intros; contradiction, by intros; contradiction, fun open' => absurd rfl open',
        fun _ => ⟨row, ?_, sound.seen row finishing⟩⟩
      rw [taken, empty]
      rfl
    · cases steps

theorem reachSound {log : EventLog} (kept : log.Kept limit) (known : afterSequence ≤ log.latestSequence)
    (room : 0 < limit)
    (reached : Reach limit slots run afterSequence (Good slots afterSequence) (.start run log) w) :
    Sound limit run afterSequence w := by
  refine Stepping.reachInvariant reached ?_ fun sound good steps => stepSound sound room good steps
  refine ⟨kept, known, iff_of_false (fun none' => none' rfl) (fun other => other rfl), ?_, ?_, ?_, ?_, ?_, ?_,
    fun _ => rfl, ?_⟩ <;> (intros; contradiction)

theorem endsStep (own : event.own = true) (steps : w.step limit slots run afterSequence event = some w')
    (ends : Ends limit slots run afterSequence w') : Ends limit slots run afterSequence w := by
  obtain ⟨events, last, all, plays, ended⟩ := ends
  refine ⟨event :: events, last, fun other member => ?_, ?_, ended⟩
  · cases member with
    | head => exact own
    | tail _ later => exact all other later
  · exact (Stepping.runStep trivial steps).trans plays

theorem endsCompleting (completes : w.stage = .completing) : Ends limit slots run afterSequence w := by
  have shown : w.step limit slots run afterSequence .snapshot =
      some { w with stage := .finishing (w.state, w.lastExit) } := by
    simp only [World.step, completes]
  refine endsStep rfl shown ⟨[.finish true], _, fun event member => ?_, rfl, rfl⟩
  rw [List.mem_singleton.mp member]
  rfl

theorem endsChecking {s : FakeSessionSubscription} (checks : w.stage = .checking s)
    (other : w.active ≠ some run) : Ends limit slots run afterSequence w := by
  have left : w.step limit slots run afterSequence .check = some { w with stage := .completing } := by
    simp only [World.step, checks, if_neg other]
  exact endsStep rfl left (endsCompleting rfl)

theorem endsStoring {s : FakeSessionSubscription} (stores : w.stage = .storing s)
    (other : w.active ≠ some run) : Ends limit slots run afterSequence w := by
  have stored : w.step limit slots run afterSequence .persist = some { w with stage := .checking s } := by
    simp only [World.step, stores]
  exact endsStep rfl stored (endsChecking (s := s) rfl other)

theorem endsReceiving {s : FakeSessionSubscription} (receives : w.stage = .receiving s)
    (inside : s.next ≤ w.log.sent.length) (more : s.undelivered w.log ≠ [])
    (other : w.active ≠ some run) : Ends limit slots run afterSequence w := by
  cases received : s.recv slots w.log with
  | none => exact absurd ((FakeSessionSubscription.recvWaits inside).mp received) more
  | some result =>
    obtain ⟨answer, s'⟩ := result
    cases answer with
    | ok event =>
      have taken : w.step limit slots run afterSequence .recv = some { w with stage := .storing s' } := by
        simp only [World.step, receives, received]
      exact endsStep rfl taken (endsStoring (s := s') rfl other)
    | error error =>
      have broken : w.step limit slots run afterSequence .recv = some { w with stage := .completing } := by
        simp only [World.step, receives, received]
      exact endsStep rfl broken (endsCompleting rfl)

theorem soundEnds (sound : Sound limit run afterSequence w) (room : 0 < limit)
    (back : w.returned = true) : Ends limit slots run afterSequence w := by
  obtain ⟨ended, behind⟩ := sound.behind back
  have other := sound.gone.mp ended
  cases stage : w.stage with
  | waiting =>
    cases subscribed : w.log.subscribe afterSequence with
    | none =>
      unfold EventLog.subscribe at subscribed
      rw [if_neg (Nat.not_lt_of_le sound.known)] at subscribed
      cases subscribed
    | some s =>
      have begun : w.step limit slots run afterSequence .subscribe =
          some { w with stage := .receiving s } := by
        simp only [World.step, stage, subscribed]
      have sound' := subscribeBehind sound room stage subscribed
      have more := (sound'.behind back).2
      refine endsStep rfl begun (endsReceiving (s := s) rfl (sound'.next s rfl) (fun empty => ?_) other)
      simp only [World.caughtUp, empty, List.isEmpty_nil] at more
      cases more
  | receiving s =>
    refine endsReceiving stage (sound.next s (by rw [stage]; rfl)) (fun empty => ?_) other
    simp only [World.caughtUp, stage, empty, List.isEmpty_nil] at behind
    cases behind
  | storing s => exact endsStoring stage other
  | checking s => exact endsChecking stage other
  | completing => exact endsCompleting stage
  | finishing row =>
    have recorded : w.step limit slots run afterSequence (.finish true) =
        some { w with stage := .ended, recorded := w.recorded ++ [row] } := by
      simp only [World.step, stage, if_true]
    exact endsStep rfl recorded ⟨[], _, by intros; contradiction, rfl, rfl⟩
  | ended => exact ⟨[], w, by intros; contradiction, rfl, stage⟩

theorem soundDurable (sound : Sound limit run afterSequence w) (room : 0 < limit) :
    Durable limit slots run afterSequence w := by
  have rows : w.recorded = [] ∨ ∃ row, w.recorded = [row] ∧ w.outcome = some row := by
    by_cases ended : w.stage = .ended
    · exact .inr (sound.record ended)
    · exact .inl (sound.still ended)
  refine ⟨fun row member => ?_, ?_, fun ended => ?_, soundEnds sound room⟩
  · rcases rows with none' | ⟨_, one, known⟩
    · rw [none'] at member
      cases member
    · rw [one] at member
      cases List.mem_singleton.mp member
      exact ⟨known, sound.final row known⟩
  · rcases rows with none' | ⟨_, one, -⟩
    · rw [none']
      exact Nat.zero_le _
    · rw [one]
      exact Nat.le_refl _
  · obtain ⟨row, one, -⟩ := sound.record ended
    rw [one]
    exact nofun

end Invariant

def begun : List Event :=
  [.publish 0 (some 0) .cli (.user "agent_message" .null), .subscribe, .recv]

def finished : List Event :=
  [.finalize .completed (some (.exited 0)), .returns 0 (.user "run_completed" .null)]

theorem resumedRun : (Stepping.run (World.step 2048 256 0 0) AnyStep (World.start 0 .empty)
    (begun ++ finished ++ [.setState .starting, .launch, .resume 1, .persist, .check, .snapshot, .finish true])).map World.recorded =
      some [(.starting, none)] := by
  decide +kernel

theorem awaitedRun : (Stepping.run (World.step 2048 256 0 0) (Good 256 0) (World.start 0 .empty)
    (begun ++ [.persist, .check] ++ finished ++ [.recv, .persist, .check, .snapshot, .setState .starting,
      .launch, .resume 1, .finish true])).map World.recorded = some [(.completed, some (.exited 0))] := by
  decide +kernel

end Maestro.Finalizing
