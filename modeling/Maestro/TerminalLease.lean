import Maestro.TerminalStages

/-! The writer lease of a terminal and the end of its child: who may drop the lease has
learned that the child ended, and what there is to learn comes from the supervisor. -/
namespace Maestro.Terminal
open Interleaving Prog Protocol

/-- A call that comes back although the child was not reaped: a signal of the output reader
that the system refuses, a wait that a stopped supervisor ends, a reap that fails. -/
def inconclusive : Entry → Act → TerminalSession → Bool
  | _, .childWait, m => m.reapFails
  | .outputReader, .groupTerminate, m | .outputReader, .groupSeal, m =>
    m.groupActive && m.signalFails && !m.reaped
  | .outputReader, .waitLifecycle, m | .outputReader, .waitGrace, m
  | .retain, .waitLifecycle, m | .retain, .waitGrace, m =>
    m.supervisorStopped && m.outcome == .running && !m.reaped
  | _, _, _ => false

def concludes (c : Config machine) : Event machine → Bool
  | .run index _ =>
    match c.tasks[index]? with
    | none => true
    | some t =>
      match t.next with
      | none => true
      | some o => !inconclusive t.entry o c.memory
  | _ => true

abbrev Conclusive (c : Config machine) (e : Event machine) : Prop := concludes c e = true

namespace Stage

def kind : Stage → Option Entry
  | .reading | .finishing _ => some .outputReader
  | .retaining _ => some .retain
  | _ => none

theorem afterKind {q : Stage} {o : Act} {answer : o.Answer} {e : Entry}
    (here : (q.after o answer).kind = some e) : q.kind = some e := by
  cases o
  case spawnOutputReader => cases here
  case completedResult | waitGrace =>
    cases answer <;> cases q <;> exact here
  case waitLifecycle | childWait | status | awaitChange | requestClose => cases q <;> exact here
  case groupTerminate | groupSeal => cases answer <;> cases q <;> exact here
  case poll a b => cases answer <;> cases q <;> exact here
  case readPty =>
    match answer with
    | some (_ :: _) => exact here
    | some [] => cases q <;> exact here
    | none => cases q <;> exact here
  all_goals exact here

theorem enterKind {e e' : Entry} (here : (enter e).kind = some e') : e = e' := by
  cases e <;> cases here <;> rfl

end Stage

theorem placeKind {t : Task machine} {e : Entry} (here : (stages.place t).kind = some e) :
    t.entry = e := by
  have start : ∀ (past : Past actions) (q : Stage),
      (past.foldl (fun q done => stages.after q done.1 done.2) q).kind = some e →
        q.kind = some e := by
    intro past
    induction past with
    | nil => exact fun q same => same
    | cons done past ih => exact fun q same => Stage.afterKind (ih _ same)
  exact Stage.enterKind (start t.past _ here)

structure Concludes (q : Stage) (o : Act) (m : TerminalSession) : Prop where
  calls : ∀ e, q.kind = some e → inconclusive e o m = false
  reap : o = .childWait → m.reapFails = false

theorem concludesHere {c : Config machine} {index : Nat} {choice : Choice} {t : Task machine}
    {o : Act} {answer : o.Answer} {memory : TerminalSession} {next : Program (Option Entry)}
    (good : Conclusive c (.run index choice))
    (performs : Performs c index choice t o answer memory next) :
    Concludes (stages.place t) o c.memory := by
  have here : inconclusive t.entry o c.memory = false := by
    have found := good
    simp only [Conclusive, concludes, performs.present, performsNext performs] at found
    simpa using found
  refine ⟨fun e kind => placeKind kind ▸ here, fun same => ?_⟩
  subst same
  cases entry : t.entry <;> rw [entry] at here <;> exact here

structure TerminalSession.Reaps (m : TerminalSession) : Prop where
  lease : m.lease = .released → m.reaped = true
  outcome : m.outcome ≠ .running → m.reaped = true

/-- The lease is not released, no outcome sent, and a reaped child stays reaped. -/
structure TerminalSession.Holds (m m' : TerminalSession) : Prop where
  lease : m'.lease = .released → m.lease = .released
  outcome : m'.outcome = m.outcome
  reaped : m.reaped = true → m'.reaped = true

abbrev leasing : Outline stages where
  Inv := TerminalSession.Reaps
  Here q m := q.told = true → m.reaped = true
  Apart _ _ := True

section Steps
variable {m m' : TerminalSession} {q q' : Stage}

open TerminalSession

theorem Reaps.hold (reaps : m.Reaps) (holds : m.Holds m') : m'.Reaps where
  lease := fun released => holds.reaped (reaps.lease (holds.lease released))
  outcome := fun ended => by
    rw [holds.outcome] at ended
    exact holds.reaped (reaps.outcome ended)

theorem holdsRefl (m : TerminalSession) : m.Holds m := ⟨id, rfl, id⟩

theorem keptLease {spawned : Option Entry} (inv : m'.Reaps)
    (monotone : m.reaped = true → m'.reaped = true)
    (here : q'.told = true → m'.reaped = true)
    (fresh : ∀ e, spawned = some e → (Stage.enter e).told = false) :
    leasing.Kept m m' q q' spawned where
  inv := inv
  here := here
  entered := fun e same => ⟨fun told => absurd told (by simp [fresh e same]), trivial⟩
  others := fun _ theirs _ => ⟨fun told => monotone (theirs told), trivial, fun _ _ => trivial⟩

theorem spawnsFresh {o : Act} (e : Entry) (spawned : spawns o = some e) :
    (Stage.enter e).told = false := by
  cases o <;> cases spawned <;> rfl

theorem keptHeld {o : Act} (reaps : m.Reaps) (holds : m.Holds m')
    (here : q'.told = true → m'.reaped = true) : leasing.Kept m m' q q' (spawns o) :=
  keptLease (Reaps.hold reaps holds) holds.reaped here spawnsFresh

theorem waitedReaped (reaps : m.Reaps) {result : Except String ExitCause}
    (waited : m.waited = some result) :
    m.reaped = true ∨ (m.supervisorStopped = true ∧ m.outcome = .running ∧ result.isOk = false) := by
  unfold TerminalSession.waited at waited
  cases ended : m.outcome with
  | running =>
    rw [ended] at waited
    simp only [outcomeResult, Option.ite_none_right_eq_some, Option.some.injEq] at waited
    exact .inr ⟨waited.1, rfl, by rw [← waited.2]; rfl⟩
  | exited cause => exact .inl (reaps.outcome (by simp [ended]))
  | failed message => exact .inl (reaps.outcome (by simp [ended]))

theorem learnTold (here : q.told = true → m.reaped = true) {ended : Bool}
    (reaped : m.reaped = true ∨ (ended = false ∧
      (q.kind ≠ none → m.reaped = true))) (told : (q.learn ended).told = true) :
    m.reaped = true := by
  cases reaped with
  | inl reaped => exact reaped
  | inr failed =>
    obtain ⟨rfl, calls⟩ := failed
    cases q
    case finishing => exact calls nofun
    case retaining => exact calls nofun
    case launching t | closing t => exact here (by simpa [Stage.learn, Stage.told] using told)
    all_goals exact here told

theorem waitTold {o : Act} (isWait : o = .waitLifecycle ∨ o = .waitGrace) (reaps : m.Reaps)
    (here : q.told = true → m.reaped = true) (concludes : Concludes q o m)
    {result : Except String ExitCause} (waited : m.waited = some result)
    (told : (q.learn result.isOk).told = true) : m.reaped = true := by
  refine learnTold here ?_ told
  cases waitedReaped reaps waited with
  | inl reaped => exact .inl reaped
  | inr stopped =>
    refine .inr ⟨stopped.2.2, fun kind => ?_⟩
    obtain ⟨e, same⟩ := Option.ne_none_iff_exists'.mp kind
    have conclusive := concludes.calls e same
    cases q <;> cases same <;> rcases isWait with rfl | rfl <;>
      simpa [inconclusive, stopped.1, stopped.2.1] using conclusive

theorem refuseTold {o : Act} (isSignal : o = .groupTerminate ∨ o = .groupSeal)
    (here : q.told = true → m.reaped = true) (concludes : Concludes q o m) {active : Bool}
    {message : String} (refused : (m.signal active).1 = .error message)
    (told : q.refuse.told = true) : m.reaped = true := by
  have failing : m.groupActive = true ∧ m.signalFails = true := by
    unfold TerminalSession.signal at refused
    split at refused
    · rename_i alive
      refine ⟨alive, ?_⟩
      by_contra fine
      rw [if_neg fine] at refused
      cases refused
    · cases refused
  cases q
  case finishing =>
    have conclusive := concludes.calls .outputReader rfl
    rcases isSignal with rfl | rfl <;>
      simpa [inconclusive, failing.1, failing.2] using conclusive
  all_goals exact here told

theorem signalHolds (active : Bool) : m.Holds (m.signal active).2 := by
  unfold TerminalSession.signal
  split <;> exact ⟨id, rfl, id⟩

theorem keptSignal {o : Act} (isSignal : o = .groupTerminate ∨ o = .groupSeal) (reaps : m.Reaps)
    (here : q.told = true → m.reaped = true) (concludes : Concludes q o m) {active : Bool}
    {answer : Except String Unit} (signalled : m.signal active = (answer, m'))
    (next : q' = q.after .groupSeal answer) : leasing.Kept m m' q q' none := by
  have holds : m.Holds m' := by
    have moved := signalHolds (m := m) active
    rwa [signalled] at moved
  refine keptLease (Reaps.hold reaps holds) holds.reaped (fun told => holds.reaped ?_) nofun
  rw [next] at told
  cases answer with
  | ok _ => exact here told
  | error message => exact refuseTold isSignal here concludes (congrArg Prod.fst signalled) told

def Act.Untold : Act → Prop
  | .dropLease _ | .completedResult | .groupTerminate | .groupSeal | .waitLifecycle | .waitGrace
  | .childWait | .sendOutcome _ => False
  | _ => True

theorem untoldStage {o : Act} {answer : o.Answer} (untold : o.Untold)
    (told : (q.after o answer).told = true) : q.told = true := by
  cases o
  case dropLease | completedResult | groupTerminate | groupSeal | waitLifecycle | waitGrace
      | childWait | sendOutcome => exact untold.elim
  case readPty =>
    match answer with
    | some (_ :: _) => exact told
    | some [] => cases q <;> exact told
    | none => cases q <;> exact told
  case spawnOutputReader => cases told
  case poll a b => cases answer <;> cases q <;> exact told
  case status | awaitChange | requestClose => cases q <;> exact told
  all_goals exact told

theorem untoldHolds {o : Act} {choice : Choice} {answer : o.Answer} (untold : o.Untold)
    (applied : apply o choice m = some (answer, m')) : m.Holds m' := by
  cases o
  case dropLease | completedResult | groupTerminate | groupSeal | waitLifecycle | waitGrace
      | childWait | sendOutcome => exact untold.elim
  case insert | retainWriterLease =>
    cases Option.some.inj applied
    refine ⟨fun released => ?_, rfl, id⟩
    dsimp only at released
    split at released
    · cases released
    · exact released
  case readPty =>
    cases choice <;> simp only [apply, reduceCtorEq] at applied
    case data bytes =>
      split at applied
      · cases Option.some.inj applied
        exact holdsRefl m
      · contradiction
    case fails message =>
      cases Option.some.inj applied
      exact holdsRefl m
  case lockFinalization | lockOperation =>
    simp only [apply] at applied
    split at applied
    · contradiction
    · cases Option.some.inj applied
      exact ⟨id, rfl, id⟩
  case registerTerminal | waitForLeaderExit =>
    cases choice <;> (cases Option.some.inj applied; exact holdsRefl m)
  case setFinal completion =>
    cases Option.some.inj applied
    cases completion <;> exact ⟨id, rfl, id⟩
  all_goals
    cases Option.some.inj applied
    exact ⟨id, rfl, id⟩

theorem dropTold {holder : Lease} (may : q.may (.dropLease holder)) : q.told = true := by
  cases holder <;> (first | rw [show q = _ from may]; rfl | skip)
  cases may with
  | inl finishing => rw [finishing]; rfl
  | inr closing => rw [closing]; rfl

theorem leasingAct {o : Act} {choice : Choice} {answer : o.Answer} (reaps : m.Reaps)
    (here : q.told = true → m.reaped = true) (may : q.may o) (concludes : Concludes q o m)
    (applied : apply o choice m = some (answer, m')) :
    leasing.Kept m m' q (q.after o answer) (spawns o) := by
  have holds : o.Untold → m.Holds m' := fun untold => untoldHolds untold applied
  have told : o.Untold → (q.after o answer).told = true → q.told = true := untoldStage
  cases o
  case dropLease holder =>
    have reaped := here (dropTold may)
    cases Option.some.inj applied
    have kept : (m.release holder).reaped = true := by
      unfold TerminalSession.release
      split <;> exact reaped
    exact keptLease ⟨fun _ => kept, fun _ => kept⟩ (fun _ => kept) (fun _ => kept) spawnsFresh
  case completedResult =>
    cases Option.some.inj applied
    refine keptHeld reaps (holdsRefl m) fun told => ?_
    cases ended : outcomeResult m.outcome with
    | none =>
      rw [ended] at told
      exact here told
    | some result =>
      refine reaps.outcome fun running => ?_
      rw [running] at ended
      cases ended
  case groupTerminate =>
    exact keptSignal (.inl rfl) reaps here concludes (Option.some.inj applied)
      (by cases answer <;> rfl)
  case groupSeal =>
    exact keptSignal (.inr rfl) reaps here concludes (Option.some.inj applied) rfl
  case waitLifecycle =>
    obtain ⟨result, waited, same⟩ := Option.map_eq_some_iff.mp applied
    cases same
    exact keptHeld reaps (holdsRefl m) (waitTold (.inl rfl) reaps here concludes waited)
  case waitGrace =>
    cases choice
    case elapsed =>
      cases Option.some.inj applied
      exact keptHeld reaps (holdsRefl m) here
    all_goals
      obtain ⟨result, waited, same⟩ := Option.map_eq_some_iff.mp applied
      cases same
      exact keptHeld reaps (holdsRefl m) (waitTold (.inr rfl) reaps here concludes waited)
  case childWait =>
    cases choice <;> simp only [apply, reduceCtorEq] at applied
    rw [concludes.reap rfl, if_neg Bool.false_ne_true] at applied
    cases Option.some.inj applied
    exact keptLease ⟨fun _ => rfl, fun _ => rfl⟩ (fun _ => rfl) (fun _ => rfl) spawnsFresh
  case sendOutcome outcome =>
    cases Option.some.inj applied
    cases (show q = .supervising true from may)
    have reaped := here rfl
    exact keptLease ⟨fun _ => reaped, fun _ => reaped⟩ (fun _ => reaped) (fun _ => reaped) spawnsFresh
  all_goals
    exact keptHeld reaps (holds trivial) fun now => (holds trivial).reaped (here (told trivial now))

theorem leasingValid : leasing.Valid Concludes where
  symm := fun _ => trivial
  call := fun {e m} called _ => by
    cases e <;> cases called <;> exact ⟨nofun, fun _ _ => trivial⟩
  act := fun reaps here may concludes applied => leasingAct reaps here may concludes applied
  outside := fun {x m m'} reaps happened => by
    have holds : m.Holds m' := by
      cases x
      case prune =>
        simp only [outside] at happened
        split at happened
        · cases Option.some.inj happened
          exact ⟨id, rfl, id⟩
        · contradiction
      all_goals
        cases Option.some.inj happened
        exact ⟨id, rfl, id⟩
    exact ⟨Reaps.hold reaps holds, fun _ theirs told => holds.reaped (theirs told)⟩

end Steps

theorem launchedLeasing (id : TerminalId) (leased persisted : Bool) :
    leasing.Holds (launched id leased persisted) := by
  refine Outline.holdsPair stagesSound (fun apart => apart) ⟨fun released => ?_, fun ended => absurd rfl ended⟩
    nofun nofun trivial
  cases leased <;> cases released

theorem reachLeasing {id : TerminalId} {leased persisted : Bool} {c : Config machine}
    (h : Reach Conclusive (launched id leased persisted) c) : leasing.Holds c :=
  Outline.reachHolds stagesSound leasingValid (launchedLeasing id leased persisted)
    (fun _ _ good performs => concludesHere good performs) h

theorem releasedReaped {id : TerminalId} {leased persisted : Bool} {c : Config machine}
    (reached : Reach Conclusive (launched id leased persisted) c)
    (released : c.memory.lease = .released) : c.memory.reaped = true :=
  (reachLeasing reached).inv.lease released

/-- The reader meets an error and its signal is refused while the child lives. -/
def refusedSchedule : List (Event machine) :=
  [.run 0 .go, .run 0 .go, .outside (.signals true), .run 2 (.fails "input/output error"),
    .run 2 .go, .run 2 .go, .run 2 .go, .run 2 .go]

theorem refusedRun : (runFrom (launched 0 true false) refusedSchedule).map
    (fun c => (c.memory.lease, c.memory.reaped)) = some (.released, false) := by
  decide

theorem releasedRunning : ¬ ∀ (id : TerminalId) (leased persisted : Bool) (c : Config machine),
    Reach Always (launched id leased persisted) c → c.memory.lease = .released →
      c.memory.reaped = true := by
  intro safe
  obtain ⟨c, ran, held⟩ := Option.map_eq_some_iff.mp refusedRun
  have released : c.memory.lease = .released := congrArg Prod.fst held
  have running : c.memory.reaped = false := congrArg Prod.snd held
  have reaped := safe 0 true false c (reachRun .start (fun _ _ => trivial) ran) released
  exact Bool.false_ne_true (running.symm.trans reaped)

/-- The reader meets an error, its signal arrives and the supervisor reaps the child. -/
def reapedSchedule : List (Event machine) :=
  [.run 0 .go, .run 0 .go, .run 2 (.fails "input/output error"), .run 2 .go, .run 2 .go,
    .run 1 .go, .run 1 .go, .run 1 (.code 0), .run 1 .go, .run 2 .go, .run 2 .go, .run 2 .go]

theorem reapedRun : (goodRun Conclusive (launched 0 true false) reapedSchedule).map
    (·.memory.lease) = some .released := by
  decide

theorem releasedReapedRead : ∃ c : Config machine,
    c.memory.lease = .released ∧ c.memory.reaped = true := by
  obtain ⟨c, ran, released⟩ := Option.map_eq_some_iff.mp reapedRun
  exact ⟨c, released, releasedReaped (reachGoodRun .start ran) released⟩

end Maestro.Terminal
