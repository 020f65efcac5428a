import Maestro.Setting

/-! What the tasks of an earlier run can do to a session that a newer run was installed
in. All that they still reach is `set_state`, which compares no run. -/
namespace Maestro.Session
open Interleaving Prog Protocol

section Isolation
variable {sup : Supervisor}

def runOf (t : Task (machine sup)) : Option RunId := ((roles sup).place t).run

def EventOf (c : Config (machine sup)) (run : RunId) : Event (machine sup) → Prop
  | .call _ => False
  | .run index _ => ∃ t, c.tasks[index]? = some t ∧ runOf t = some run
  | .outside x => x.run = some run

structure EarlierRun (m : Memory) (session : SessionId) (run newer : RunId) : Prop where
  installed : ∃ record, m.sessions session = some record ∧ run ∈ record.installed ∧
    record.installed.getLast? = some newer
  different : newer ≠ run

def SessionData.shown (d : SessionData) :
    SessionState × Option String × Option MaestroError × Option ExitCause :=
  (d.state, d.binding, d.lastError, d.lastExit)

structure Untouched (m m' : Memory) (session : SessionId) (newer : RunId) : Prop where
  data : (m'.sessions session).map (fun record => record.data.shown) =
    (m.sessions session).map (fun record => record.data.shown)
  pending : (m'.runs newer).map RunControl.pending = (m.runs newer).map RunControl.pending

def MovesState (c : Config (machine sup)) (session : SessionId) : Event (machine sup) → Prop
  | .run index _ => ∃ t target next record, c.tasks[index]? = some t ∧
      t.rest = .act (.session session (.setState target)) next ∧
      c.memory.sessions session = some record ∧ record.data.state ≠ target ∧
      record.data.state.Accepts target
  | _ => False

/-! What each action leaves of the data. -/

def SessionCall.WritesData : SessionCall → Prop
  | .setState _ | .resetLaunch _ | .setBinding _ | .launchFailure _ | .protocolFailure ..
  | .finalize .. => True
  | _ => False

theorem dataKept {record record' : SessionRecord} {session call answer}
    (reads : ¬ SessionCall.WritesData call)
    (h : record.perform sup session call = some (answer, record')) :
    record'.data.shown = record.data.shown := by
  cases call <;> simp only [SessionRecord.perform] at h <;> try exact absurd trivial reads
  case install => split at h <;> cases Option.some.inj h <;> rfl
  case publish => split at h <;> cases Option.some.inj h <;> rfl
  case subscribe => split at h <;> cases Option.some.inj h <;> rfl
  case recv =>
    split at h
    · contradiction
    · split at h
      · contradiction
      · cases Option.some.inj h
        rfl
  all_goals
    cases Option.some.inj h
    rfl

structure Role.Past (q : Role) (run : RunId) : Prop where
  own : q.run = some run
  idle : q.launches = false
  free : q.holds = none

theorem earlierRole {c : Config (machine sup)} (holds : (lineage sup).Holds c) {index : Nat} {t}
    (present : c.tasks[index]? = some t) {session run newer}
    (earlier : EarlierRun c.memory session run newer) (own : runOf t = some run) :
    Role.Past ((roles sup).place t) run := by
  obtain ⟨record, found, installed, last⟩ := earlier.installed
  have history : c.memory.ledger.history session = some record.history := by
    simp [Memory.ledger, found]
  have consistent : c.memory.ledger.Consistent := holds.inv
  have backs : c.memory.ledger.Backs ((roles sup).place t) := holds.here present
  have idle : ∀ s h, c.memory.ledger.history s = some h → h.activeRun ≠ some run := by
    intro s h found' active
    have same := consistent.installedHere history found' installed (activeInstalled consistent found' active)
    subst same
    cases Option.some.inj (history.symm.trans found')
    exact earlier.different (Option.some.inj (last.symm.trans (consistent.activeLast found' active)))
  unfold runOf at own
  cases role : (roles sup).place t <;> rw [role] at own backs <;>
    simp only [Role.run, Option.some.injEq, reduceCtorEq] at own
  case reserved =>
    subst own
    have known := consistent.installedKnown history installed
    rw [backs.2] at known
    contradiction
  case spawned =>
    subst own
    exact absurd installed (backs.2.2 _ _ history)
  case starting | supervising | closing =>
    subst own
    obtain ⟨_, h, found', active⟩ := backs
    exact absurd active (idle _ _ found')
  all_goals
    subst own
    exact ⟨rfl, rfl, rfl⟩

theorem untouchedElsewhere {m m' : Memory} {session newer}
    (sessions : m'.sessions session = m.sessions session) (runs : m'.runs newer = m.runs newer) :
    Untouched m m' session newer := ⟨by rw [sessions], by rw [runs]⟩

theorem untouchedCall {m : Memory} {session newer s record record'} (found : m.sessions s = some record)
    (same : record'.data.shown = record.data.shown) : Untouched m
      { m with sessions := Function.update m.sessions s (some record') } session newer := by
  refine ⟨?_, rfl⟩
  by_cases here : session = s
  · subst here
    simp [found, same]
  · simp [Function.update, here]

def Act.Moves (o : Act) (m : Memory) (session : SessionId) : Prop :=
  ∃ target record, o = .session session (.setState target) ∧ m.sessions session = some record ∧
    record.data.state ≠ target ∧ record.data.state.Accepts target

theorem pastReads {q : Role} {run session call} (past : q.Past run) (may : q.mayCall session call)
    (moves : ∀ target, call ≠ .setState target) : ¬ SessionCall.WritesData call := by
  intro writes
  cases call <;> try exact writes.elim
  case setState target => exact moves target rfl
  case resetLaunch | launchFailure => simp [Role.mayCall, past.idle] at may
  case setBinding | protocolFailure => simp [Role.mayCall, past.free] at may
  case finalize r completion =>
    cases may
    cases past.free

theorem setStateUntouched {m : Memory} {session newer s target record} (found : m.sessions s = some record) :
    Untouched m { m with sessions := Function.update m.sessions s (some { record with
      data := { record.data with state := record.data.state.setTo target } }) } session newer ↔
    ¬ Act.Moves (.session s (.setState target)) m session := by
  constructor
  · rintro untouched ⟨target', record', same, found', different, accepts⟩
    cases same
    cases Option.some.inj (found.symm.trans found')
    have state := congrArg (Option.map Prod.fst) untouched.data
    simp only [Function.update_self, Option.map_some, found, SessionData.shown, Option.some.injEq] at state
    exact different (state.symm.trans accepts)
  · intro still
    by_cases here : session = s
    · subst here
      refine untouchedCall found ?_
      rcases SessionState.setToCases record.data.state target with accepted | refused
      · by_cases same : record.data.state = target
        · simp [SessionData.shown, accepted.trans same.symm]
        · exact absurd ⟨target, record, rfl, found, same, accepted⟩ still
      · simp [SessionData.shown, refused]
    · exact untouchedElsewhere (by simp [Function.update, here]) rfl

theorem pastAction {q : Role} {o choice m answer m' session run newer} (past : q.Past run)
    (different : newer ≠ run) (may : q.may o) (effect : apply sup o choice m = some (answer, m')) :
    Untouched m m' session newer ↔ ¬ o.Moves m session := by
  have still : (∀ s target, o ≠ .session s (.setState target)) → ¬ o.Moves m session :=
    fun other ⟨target, _, same, _⟩ => other session target same
  have kept : (∀ s call, o ≠ .session s call) → o ≠ .createSession →
      (∀ call, o ≠ .run newer call) →
      (∀ s token binding capture spec, o ≠ .spawnStructured s newer token binding capture spec) →
      (Untouched m m' session newer ↔ ¬ o.Moves m session) := by
    intro calls old elsewhere unspawned
    exact iff_of_true (untouchedElsewhere (sessionsKept effect old fun call => calls session call)
      (runsKept effect unspawned elsewhere)) (still fun s target => calls s _)
  cases o with
  | session s call =>
    obtain ⟨record, record', found, performed, rfl⟩ := applySession effect
    by_cases moves : ∃ target, call = .setState target
    · obtain ⟨target, rfl⟩ := moves
      cases Option.some.inj performed
      exact setStateUntouched found
    · have reads := pastReads past may fun target same => moves ⟨target, same⟩
      refine iff_of_true (untouchedCall found (dataKept reads performed)) (still ?_)
      rintro s' target same
      cases same
      exact moves ⟨target, rfl⟩
  | run r call =>
    have same : r = run := Option.some.inj ((ownRun may).symm.trans past.own)
    refine kept (by simp) (by simp) ?_ (by simp)
    rintro call' ⟨⟩
    exact different same
  | spawnStructured s r =>
    cases may
    cases past.idle
  | createSession =>
    rcases may with rfl | ⟨r, rfl⟩ <;> cases past.idle
  | _ => exact kept (by simp) (by simp) (by simp) (by simp)

/-- In every reachable configuration, a step of an earlier run leaves the session's
fields and the newer run's pending set alone unless it is a `set_state` that the session
accepts and that moves it. -/
theorem earlierRunIsolated {c c' : Config (machine sup)} {e session run newer}
    (reached : Reach Always (initially sup) c) (moves : Moves c e c')
    (earlier : EarlierRun c.memory session run newer) (own : EventOf c run e) :
    Untouched c.memory c'.memory session newer ↔ ¬ MovesState c session e := by
  have holds := reachLineage reached
  cases moves with
  | call allowed => exact own.elim
  | outside effect =>
    refine ⟨fun _ => id, fun _ => ?_⟩
    rcases outsideCases effect with ⟨elapsed, rfl, rfl⟩ | ⟨r, control, process, named, found, _, rfl⟩
    · exact untouchedElsewhere rfl rfl
    · have same : r = run := Option.some.inj (named.symm.trans own)
      refine untouchedElsewhere rfl ?_
      simp [Function.update, same, earlier.different]
  | @act index choice t o answer memory next performs =>
    obtain ⟨t', present, ownRun⟩ := own
    cases Option.some.inj (performs.present.symm.trans present)
    have obeys := performsObeys rolesSound holds.placed performs
    have past := earlierRole holds present earlier ownRun
    rw [show Untouched c.memory memory session newer ↔ ¬ o.Moves c.memory session from
      pastAction past earlier.different obeys.allowed performs.effect]
    obtain ⟨_, ⟨k, program, _⟩, _⟩ := performs
    refine not_congr ⟨?_, ?_⟩
    · rintro ⟨target, record, rfl, rest⟩
      exact ⟨t, target, k, record, present, program, rest⟩
    · rintro ⟨t', target, k', record, present', program', rest⟩
      cases Option.some.inj (present.symm.trans present')
      rw [program] at program'
      cases program'
      exact ⟨target, record, rfl, rest⟩

end Isolation

/-! A response of run 2 was delivered and its continuation waits for the session's lock;
run 2 ends, run 4 is resumed and its child asks for a permission. -/
section Late

def lateSchedule : List (Event (machine (plain [permissionFrame]))) :=
  startTurns 0 ++ turns 1 1 ++ readTurn 1 permissionFrame ++ turns 1 8 ++
  [.call (.respondPermission 0 2 "p1" .allow)] ++ turns 5 10 ++ [.outside (.pump 2 39)] ++
  turns 5 4 ++ endTurns 1 3 2 ++ finalizeTurns 1 ++ resumeTurns 6 0 ++ turns 7 1 ++
  readTurn 7 permissionFrame ++ turns 7 8

def lateView (c : Config (machine (plain [permissionFrame]))) :
    Option (List RunId × SessionState) × Option RunId :=
  ((c.memory.sessions 0).map (fun record => (record.installed, record.data.state)),
    (c.tasks[5]?).bind runOf)

theorem lateBefore : (runFrom (initially _) lateSchedule).map lateView =
    some (some ([2, 4], .awaitingPermission), some 2) := by decide +kernel

theorem lateAfter : (runFrom (initially _) (lateSchedule ++ turns 5 1)).map lateView =
    some (some ([2, 4], .running), some 2) := by decide +kernel

theorem lateStep : ∃ c c' : Config (machine (plain [permissionFrame])),
    Reach Always (initially _) c ∧ Moves c (.run 5 .go) c' ∧ EarlierRun c.memory 0 2 4 ∧
      EventOf c 2 (.run 5 .go) ∧
      (c.memory.sessions 0).map (fun record => record.data.state) = some .awaitingPermission ∧
      (c'.memory.sessions 0).map (fun record => record.data.state) = some .running := by
  obtain ⟨c', ran, after⟩ := Option.map_eq_some_iff.mp lateAfter
  obtain ⟨c, first, moves⟩ := runConcat ran
  have before := lateBefore
  rw [first, Option.map_some, Option.some.injEq] at before
  simp only [lateView, Prod.mk.injEq, Option.map_eq_some_iff] at before after
  obtain ⟨⟨record, found, shown⟩, own⟩ := before
  obtain ⟨⟨record', found', shown'⟩, _⟩ := after
  obtain ⟨t, present, ownRun⟩ := Option.bind_eq_some_iff.mp own
  refine ⟨c, c', reachRun .start (fun _ _ => trivial) first, moves,
    ⟨⟨record, found, by simp [shown.1], by simp [shown.1]⟩, by decide⟩, ⟨t, present, ownRun⟩, ?_, ?_⟩
  · rw [found, Option.map_some, shown.2]
  · rw [found', Option.map_some, shown'.2]

theorem earlierRunReaches : ¬ ∀ (sup : Supervisor) (c c' : Config (machine sup)) e session run newer,
    Reach Always (initially sup) c → Moves c e c' → EarlierRun c.memory session run newer →
      EventOf c run e → Untouched c.memory c'.memory session newer := by
  intro isolated
  obtain ⟨c, c', reached, moves, earlier, own, before, after⟩ := lateStep
  have untouched := isolated _ c c' _ 0 2 4 reached moves earlier own
  have state := congrArg (Option.map Prod.fst) untouched.data
  simp only [Option.map_map] at state
  rw [show (Prod.fst ∘ fun record : SessionRecord => record.data.shown) =
    fun record => record.data.state from rfl, before, after] at state
  cases state

theorem earlierRunIsolatedLate : ∃ c c' : Config (machine (plain [permissionFrame])),
    Moves c (.run 5 .go) c' ∧
      (Untouched c.memory c'.memory 0 4 ↔ ¬ MovesState c 0 (.run 5 .go)) := by
  obtain ⟨c, c', reached, moves, earlier, own, _⟩ := lateStep
  exact ⟨c, c', moves, earlierRunIsolated reached moves earlier own⟩

end Late
end Maestro.Session
