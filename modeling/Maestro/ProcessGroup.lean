import Maestro.Outline

/-! The process group of one child: who signals it, under which lock, and who reaps its leader. -/
namespace Maestro.ProcessGroup
open Interleaving Prog Protocol

inductive Signal where
  | term
  | kill
  deriving DecidableEq

inductive LifecycleOutcome where
  | running
  | exited
  | failed
  deriving DecidableEq

/-- The identity of the group with its lock, and the leader: `reaped`, or left to be reaped by
whoever comes by; `signals` are those sent to the group, each with whether the leader had been
reaped by then. -/
structure Group where
  active : Bool
  locked : Bool
  spawned : Bool
  outcome : LifecycleOutcome
  orphaned : Bool
  reaped : Bool
  signals : List (Signal × Bool)
  deriving DecidableEq

/-- `tryLock` knows whether the child is dropped behind it. -/
inductive Act where
  | verifyLeader
  | acquirePty
  | spawnSupervisor
  | lockIdentity
  | tryLock (dropsChild : Bool)
  | isActive
  | killpg (signal : Signal)
  | deactivate
  | unlock
  | leaderExit
  | startKill
  | kill
  | wait
  | waitBlocking
  | dropChild
  | sendOutcome (outcome : LifecycleOutcome)
  | completedResult
  | isRunning
  | waitOutcome

@[reducible] def Act.Answer : Act → Type
  | .verifyLeader | .acquirePty | .tryLock _ | .isActive | .killpg _ | .waitBlocking | .completedResult
  | .isRunning | .waitOutcome => Bool
  | .leaderExit | .wait => Option Bool
  | _ => Unit

abbrev actions : Actions := ⟨Act, Act.Answer⟩

inductive Entry where
  | spawnStructured
  | spawnPty
  | superviseStructured
  | supervisePty
  | terminate
  | dropProcess

abbrev Program := Prog actions

@[simp] def perform (o : Act) : Program o.Answer := .act (A := actions) o .done

def signalWith (signal : Signal) : Program Bool := do
  perform .lockIdentity
  if ← perform .isActive then
    let sent ← perform (.killpg signal)
    perform .unlock
    pure sent
  else
    perform .unlock
    pure true

def sealGroup : Program Bool := do
  perform .lockIdentity
  if ← perform .isActive then
    let sent ← perform (.killpg .kill)
    perform .deactivate
    perform .unlock
    pure sent
  else
    perform .unlock
    pure true

def trySeal (dropsChild : Bool) : Program Unit := do
  if ← perform (.tryLock dropsChild) then
    if ← perform .isActive then
      let _ ← perform (.killpg .kill)
      perform .deactivate
    perform .unlock

def claim : Program Bool := do
  if ← perform .verifyLeader then pure true
  else
    trySeal true
    pure false

/-- The guard of a structured child: its fields are dropped behind it. -/
def dropStructuredGuard : Program (Option Entry) := do
  trySeal true
  perform .dropChild
  pure none

def dropPtyGuard : Program (Option Entry) := do
  trySeal true
  perform .kill
  pure none

def spawnStructured : Program (Option Entry) := do
  if ← claim then perform .spawnSupervisor
  else perform .dropChild
  pure none

def cleanupBlocking : Program (Option Entry) := do
  if ← sealGroup then pure () else perform .kill
  let _ ← perform .waitBlocking
  pure none

def spawnPty : Program (Option Entry) := do
  if ← claim then
    if ← perform .acquirePty then
      if ← perform .acquirePty then
        perform .spawnSupervisor
        pure none
      else cleanupBlocking
    else cleanupBlocking
  else
    perform .kill
    let _ ← perform .waitBlocking
    pure none

/-- The task may be dropped while it waits for the exit or for the status. -/
def superviseStructured : Program (Option Entry) := do
  match ← perform .leaderExit with
  | none => dropStructuredGuard
  | some observed =>
    let cleanup ← sealGroup
    if cleanup then pure () else perform .startKill
    match ← perform .wait with
    | none => dropStructuredGuard
    | some reaped =>
      perform (.sendOutcome (if observed && cleanup && reaped then .exited else .failed))
      dropStructuredGuard

/-- On a thread of its own, which may never begin. -/
def supervisePty : Program (Option Entry) := do
  match ← perform .leaderExit with
  | none => dropPtyGuard
  | some observed =>
    let cleanup ← sealGroup
    if cleanup then pure () else perform .kill
    let reaped ← perform .waitBlocking
    perform (.sendOutcome (if observed && cleanup && reaped then .exited else .failed))
    pure none

def terminate : Program (Option Entry) := do
  if ← perform .completedResult then pure none
  else if ← signalWith .term then
    if ← perform .waitOutcome then pure none
    else
      if ← sealGroup then
        let _ ← perform .waitOutcome
      pure none
  else pure none

def dropProcess : Program (Option Entry) := do
  if ← perform .isRunning then trySeal false
  pure none

def body : Entry → Program (Option Entry)
  | .spawnStructured => spawnStructured
  | .spawnPty => spawnPty
  | .superviseStructured => superviseStructured
  | .supervisePty => supervisePty
  | .terminate => terminate
  | .dropProcess => dropProcess

/-- What the environment decides: a call fails, a task is dropped, a deadline passes, or a
kill that polls the child sees it end. -/
structure Choice where
  fails : Bool
  dropped : Bool
  reaps : Bool

def apply : (o : Act) → Choice → Group → Option (o.Answer × Group)
  | .verifyLeader, choice, m | .acquirePty, choice, m => some (!choice.fails, m)
  | .spawnSupervisor, _, m => some ((), { m with spawned := true })
  | .lockIdentity, _, m => if m.locked then none else some ((), { m with locked := true })
  | .tryLock _, _, m => if m.locked then some (false, m) else some (true, { m with locked := true })
  | .isActive, _, m => some (m.active, m)
  | .killpg signal, choice, m => some (!choice.fails, { m with signals := (signal, m.reaped) :: m.signals })
  | .deactivate, _, m => some ((), { m with active := false })
  | .unlock, _, m => some ((), { m with locked := false })
  | .leaderExit, choice, m => some (if choice.dropped then none else some (!choice.fails), m)
  | .startKill, _, m => some ((), m)
  | .kill, choice, m => some ((), { m with reaped := m.reaped || choice.reaps })
  | .wait, choice, m =>
    if choice.dropped then some (none, m)
    else some (some (!choice.fails), { m with reaped := m.reaped || !choice.fails })
  | .waitBlocking, choice, m => some (!choice.fails, { m with reaped := m.reaped || !choice.fails })
  | .dropChild, _, m => some ((), { m with orphaned := true })
  | .sendOutcome outcome, _, m => some ((), { m with outcome })
  | .completedResult, _, m => if m.spawned then some (decide (m.outcome ≠ .running), m) else none
  | .isRunning, _, m => if m.spawned then some (decide (m.outcome = .running), m) else none
  | .waitOutcome, choice, m => if choice.fails then some (false, m) else some (true, m)

def reapOrphan (_ : Unit) (m : Group) : Option Group :=
  if m.orphaned then some { m with reaped := true } else none

def callable : Entry → Bool
  | .terminate | .dropProcess => true
  | _ => false

abbrev machine (pty : Bool) : Machine actions where
  Memory := Group
  Entry := Entry
  Choice := Choice
  Outside := Unit
  body := body
  apply := apply
  spawns
    | .spawnSupervisor => some (if pty then .supervisePty else .superviseStructured)
    | _ => none
  callable := callable
  outside := reapOrphan

def spawning (pty : Bool) : Config (machine pty) :=
  ⟨⟨true, false, false, .running, false, false, []⟩, [.enter (if pty then .spawnPty else .spawnStructured)]⟩

/-- `closed` has seen that the identity is not active any more, `signalling` that it is. -/
inductive Place where
  | free
  | holding
  | signalling
  | closing
  | closed
  deriving DecidableEq

namespace Place

def holds : Place → Bool
  | .holding | .signalling | .closing => true
  | _ => false

def may (q : Place) : Act → Prop
  | .lockIdentity | .tryLock _ => q.holds = false
  | .isActive | .unlock => q.holds = true
  | .killpg _ | .deactivate => q = .signalling
  | .kill | .wait | .waitBlocking | .dropChild => q = .closed
  | _ => True

def after (q : Place) : (o : Act) → o.Answer → Place
  | .lockIdentity, _ => if q = .closed then .closing else .holding
  | .tryLock dropsChild, taken =>
    if taken then (if q = .closed then .closing else .holding) else if dropsChild then .closed else q
  | .isActive, active => if active then .signalling else .closing
  | .deactivate, _ => .closing
  | .unlock, _ => if q = .closing then .closed else .free
  | _, _ => q

end Place

abbrev knowledge (pty : Bool) : Protocol (machine pty) where
  Place := Place
  enter _ := .free
  may := Place.may
  after := Place.after
  ends _ := True

section Runs
variable {pty : Bool} {q : Place}

abbrev Idle (q : Place) : Prop := q = .free ∨ q = .closed

theorem signalKnows (idle : Idle q) (signal : Signal) :
    (knowledge pty).Follows (fun _ q' => Idle q') q (signalWith signal) := by
  rcases idle with rfl | rfl
  all_goals
    refine followsStep rfl fun _ => followsStep rfl fun active => ?_
    cases active with
    | true => exact followsStep rfl fun _ => followsStep rfl fun _ => .inl rfl
    | false => exact followsStep rfl fun _ => .inr rfl

theorem sealKnows (idle : Idle q) : (knowledge pty).Follows (fun _ q' => q' = .closed) q sealGroup := by
  rcases idle with rfl | rfl
  all_goals
    refine followsStep rfl fun _ => followsStep rfl fun active => ?_
    cases active with
    | true => exact followsStep rfl fun _ => followsStep rfl fun _ => followsStep rfl fun _ => rfl
    | false => exact followsStep rfl fun _ => rfl

theorem trySealKnows (idle : Idle q) (dropsChild : Bool) :
    (knowledge pty).Follows (fun _ q' => Idle q' ∧ (dropsChild = true → q' = .closed)) q (trySeal dropsChild) := by
  rcases idle with rfl | rfl
  all_goals
    refine followsStep rfl fun taken => ?_
    cases taken with
    | true =>
      refine followsStep rfl fun active => ?_
      cases active with
      | true => exact followsStep rfl fun _ => followsStep rfl fun _ => followsStep rfl fun _ => ⟨.inr rfl, fun _ => rfl⟩
      | false => exact followsStep rfl fun _ => ⟨.inr rfl, fun _ => rfl⟩
    | false =>
      cases dropsChild with
      | true => exact ⟨.inr rfl, fun _ => rfl⟩
      | false => exact ⟨by simp [Idle, Place.after], nofun⟩

theorem claimKnows : (knowledge pty).Follows (fun claimed q' => q' = if claimed then .free else .closed) .free claim := by
  refine followsStep trivial fun verified => ?_
  cases verified with
  | true => rfl
  | false => exact followsSeq (trySealKnows (.inl rfl) true) fun _ _ knows => knows.2 rfl

theorem dropStructuredKnows (idle : Idle q) :
    (knowledge pty).Follows (knowledge pty).EntryPost q dropStructuredGuard :=
  followsSeq (trySealKnows idle true) fun _ _ knows => followsStep (knows.2 rfl) fun _ => trivial

theorem dropPtyKnows (idle : Idle q) : (knowledge pty).Follows (knowledge pty).EntryPost q dropPtyGuard :=
  followsSeq (trySealKnows idle true) fun _ _ knows => followsStep (knows.2 rfl) fun _ => trivial

theorem cleanupKnows : (knowledge pty).Follows (knowledge pty).EntryPost .free cleanupBlocking := by
  refine followsSeq (sealKnows (.inl rfl)) fun cleanup _ closed => ?_
  subst closed
  cases cleanup with
  | true => exact followsStep rfl fun _ => trivial
  | false => exact followsStep rfl fun _ => followsStep rfl fun _ => trivial

theorem knowledgeSound : (knowledge pty).Sound := by
  intro e
  cases e with
  | spawnStructured =>
    refine followsSeq claimKnows fun claimed _ same => ?_
    subst same
    cases claimed <;> exact followsStep (by trivial) fun _ => trivial
  | spawnPty =>
    refine followsSeq claimKnows fun claimed _ same => ?_
    subst same
    cases claimed with
    | false => exact followsStep rfl fun _ => followsStep rfl fun _ => trivial
    | true =>
      refine followsStep trivial fun reader => ?_
      cases reader with
      | false => exact cleanupKnows
      | true =>
        refine followsStep trivial fun writer => ?_
        cases writer with
        | false => exact cleanupKnows
        | true => exact followsStep trivial fun _ => trivial
  | superviseStructured =>
    refine followsStep trivial fun observation => ?_
    cases observation with
    | none => exact dropStructuredKnows (.inl rfl)
    | some observed =>
      refine followsSeq (sealKnows (.inl rfl)) fun cleanup _ closed => ?_
      subst closed
      have rest : ∀ status : Option Bool, (knowledge pty).Follows (knowledge pty).EntryPost .closed
          (match status with
          | none => dropStructuredGuard
          | some reaped => do
            perform (.sendOutcome (if observed && cleanup && reaped then .exited else .failed))
            dropStructuredGuard) := fun status => by
        cases status with
        | none => exact dropStructuredKnows (.inr rfl)
        | some reaped => exact followsStep trivial fun _ => dropStructuredKnows (.inr rfl)
      cases cleanup with
      | true => exact followsStep rfl rest
      | false => exact followsStep trivial fun _ => followsStep rfl rest
  | supervisePty =>
    refine followsStep trivial fun observation => ?_
    cases observation with
    | none => exact dropPtyKnows (.inl rfl)
    | some observed =>
      refine followsSeq (sealKnows (.inl rfl)) fun cleanup _ closed => ?_
      subst closed
      cases cleanup with
      | true => exact followsStep rfl fun _ => followsStep trivial fun _ => trivial
      | false => exact followsStep rfl fun _ => followsStep rfl fun _ => followsStep trivial fun _ => trivial
  | terminate =>
    refine followsStep trivial fun completed => ?_
    cases completed with
    | true => trivial
    | false =>
      refine followsSeq (signalKnows (.inl rfl) .term) fun sent _ idle => ?_
      cases sent with
      | false => trivial
      | true =>
        refine followsStep trivial fun ended => ?_
        cases ended with
        | true => trivial
        | false =>
          refine followsSeq (sealKnows idle) fun sealed _ _ => ?_
          cases sealed with
          | true => exact followsStep trivial fun _ => trivial
          | false => trivial
  | dropProcess =>
    refine followsStep trivial fun running => ?_
    cases running with
    | true => exact followsSeq (trySealKnows (.inl rfl) false) fun _ _ _ => trivial
    | false => trivial

/-- A leader is only reaped, or left to be, once the identity is closed. -/
structure Anchored (m : Group) : Prop where
  reaped : m.reaped = true → m.active = false
  orphaned : m.orphaned = true → m.active = false
  signals : ∀ sent ∈ m.signals, sent.2 = false

namespace Place

def Here : Place → Group → Prop
  | .free, _ => True
  | .holding, m => m.locked = true
  | .signalling, m => m.locked = true ∧ m.active = true
  | .closing, m => m.locked = true ∧ m.active = false
  | .closed, m => m.active = false

theorem hereLocked {m : Group} (here : q.Here m) (holds : q.holds = true) : m.locked = true := by
  cases q with
  | free => cases holds
  | holding => exact here
  | signalling => exact here.1
  | closing => exact here.1
  | closed => cases holds

theorem hereOutside {m m' : Group} (outside : q.holds = false) (here : q.Here m)
    (closed : m.active = false → m'.active = false) : q.Here m' := by
  cases q with
  | free => trivial
  | closed => exact closed here
  | holding => cases outside
  | signalling => cases outside
  | closing => cases outside

theorem hereSame {m m' : Group} (here : q.Here m) (locked : m'.locked = m.locked) (active : m'.active = m.active) :
    q.Here m' := by
  cases q with
  | free => trivial
  | holding => exact locked.trans here
  | signalling => exact ⟨locked.trans here.1, active.trans here.2⟩
  | closing => exact ⟨locked.trans here.1, active.trans here.2⟩
  | closed => exact active.trans here

end Place

abbrev identity (pty : Bool) : Outline (knowledge pty) where
  Inv := Anchored
  Here := Place.Here
  Apart q other := ¬ (q.holds = true ∧ other.holds = true)

/-- The guard of the child does not find the lock of an open identity taken. -/
def unhindered (m : Group) : Act → Bool
  | .tryLock true => !(m.locked && m.active)
  | _ => true

theorem keptIdentity {m m' : Group} {q q' : Place} {new : Option Entry} (inv : Anchored m') (here : q'.Here m')
    (closed : m.active = false → m'.active = false)
    (apart : ∀ other : Place, other.Here m → ¬ (q.holds = true ∧ other.holds = true) → other.holds = false ∨
      (m'.locked = m.locked ∧ m'.active = m.active ∧ q'.holds = q.holds)) :
    (identity pty).Kept m m' q q' new where
  inv := inv
  here := here
  entered _ _ := ⟨trivial, fun both => Bool.false_ne_true both.2⟩
  others other there distinct := by
    have entered : ∀ e, new = some e →
        ¬ (((knowledge pty).enter e).holds = true ∧ other.holds = true) := fun _ _ both => Bool.false_ne_true both.1
    rcases apart other there distinct with outside | ⟨locked, active, same⟩
    · refine ⟨Place.hereOutside outside there closed, fun both => ?_, entered⟩
      rw [outside] at both
      exact Bool.false_ne_true both.2
    · refine ⟨Place.hereSame there locked active, fun both => distinct ?_, entered⟩
      rwa [same] at both

theorem keptElse {m m' : Group} {q : Place} {new : Option Entry} (inv : Anchored m') (here : q.Here m)
    (locked : m'.locked = m.locked) (active : m'.active = m.active) : (identity pty).Kept m m' q q new :=
  keptIdentity inv (Place.hereSame here locked active) (fun closed => active.trans closed)
    fun _ _ _ => .inr ⟨locked, active, rfl⟩

theorem keptHolder {m m' : Group} {q q' : Place} {new : Option Entry} (inv : Anchored m') (here : q'.Here m')
    (holds : q.holds = true) (closed : m.active = false → m'.active = false) : (identity pty).Kept m m' q q' new :=
  keptIdentity inv here closed fun _ _ distinct => .inl (Bool.eq_false_iff.mpr fun other => distinct ⟨holds, other⟩)

theorem keptTaken {m : Group} {q : Place} {new : Option Entry} (inv : Anchored m) (here : q.Here m)
    (outside : q.holds = false) (free : m.locked = false) :
    (identity pty).Kept m { m with locked := true } q (if q = .closed then .closing else .holding) new := by
  refine keptIdentity ⟨inv.reaped, inv.orphaned, inv.signals⟩ ?_ id fun other there _ => .inl ?_
  · cases q with
    | free => exact rfl
    | closed => exact ⟨rfl, here⟩
    | holding => cases outside
    | signalling => cases outside
    | closing => cases outside
  · refine Bool.eq_false_iff.mpr fun holds => ?_
    rw [Place.hereLocked there holds] at free
    cases free

theorem reapedAnchored {m : Group} (inv : Anchored m) (closed : m.active = false) (now : Bool) :
    Anchored { m with reaped := m.reaped || now } := ⟨fun _ => closed, inv.orphaned, inv.signals⟩

theorem identityValid : (identity pty).Valid fun _ o m => unhindered m o = true where
  symm distinct both := distinct ⟨both.2, both.1⟩
  call _ _ := ⟨trivial, fun _ _ both => Bool.false_ne_true both.1⟩
  act := by
    intro q o choice m answer m' inv here allowed free effect
    cases o with
    | lockIdentity =>
      simp only [apply] at effect
      split at effect
      · cases effect
      · rename_i untaken
        cases effect
        exact keptTaken inv here allowed (Bool.eq_false_iff.mpr untaken)
    | tryLock dropsChild =>
      simp only [apply] at effect
      split at effect
      · rename_i locked
        cases effect
        cases dropsChild with
        | false => exact keptElse inv here rfl rfl
        | true =>
          have closed : m.active = false := by simpa [unhindered, locked] using free
          exact keptIdentity inv closed id fun other _ _ => .inr ⟨rfl, rfl, allowed.symm⟩
      · rename_i untaken
        cases effect
        exact keptTaken inv here allowed (Bool.eq_false_iff.mpr untaken)
    | isActive =>
      cases effect
      refine keptHolder inv ?_ allowed id
      have locked := Place.hereLocked here allowed
      cases active : m.active with
      | true => exact ⟨locked, active⟩
      | false => exact ⟨locked, active⟩
    | killpg signal =>
      cases effect
      obtain rfl : q = .signalling := allowed
      have unreaped : m.reaped = false := Bool.eq_false_iff.mpr fun reaped => by
        cases here.2.symm.trans (inv.reaped reaped)
      refine keptElse ⟨inv.reaped, inv.orphaned, fun sent member => ?_⟩ here rfl rfl
      rcases List.mem_cons.mp member with rfl | earlier
      · exact unreaped
      · exact inv.signals sent earlier
    | deactivate =>
      cases effect
      obtain rfl : q = .signalling := allowed
      exact keptHolder ⟨fun _ => rfl, fun _ => rfl, inv.signals⟩ ⟨here.1, rfl⟩ rfl fun _ => rfl
    | unlock =>
      cases effect
      refine keptHolder ⟨inv.reaped, inv.orphaned, inv.signals⟩ ?_ allowed id
      cases q with
      | closing => exact here.2
      | _ => trivial
    | kill =>
      cases effect
      obtain rfl : q = .closed := allowed
      exact keptElse (reapedAnchored inv here _) here rfl rfl
    | wait =>
      obtain rfl : q = .closed := allowed
      simp only [apply] at effect
      split at effect <;> cases effect
      · exact keptElse inv here rfl rfl
      · exact keptElse (reapedAnchored inv here _) here rfl rfl
    | waitBlocking =>
      cases effect
      obtain rfl : q = .closed := allowed
      exact keptElse (reapedAnchored inv here _) here rfl rfl
    | dropChild =>
      cases effect
      obtain rfl : q = .closed := allowed
      exact keptElse ⟨inv.reaped, fun _ => here, inv.signals⟩ here rfl rfl
    | completedResult =>
      simp only [apply] at effect
      split at effect <;> cases effect
      exact keptElse inv here rfl rfl
    | isRunning =>
      simp only [apply] at effect
      split at effect <;> cases effect
      exact keptElse inv here rfl rfl
    | waitOutcome =>
      simp only [apply] at effect
      split at effect <;> cases effect <;> exact keptElse inv here rfl rfl
    | _ =>
      cases effect
      exact keptElse ⟨inv.reaped, inv.orphaned, inv.signals⟩ here rfl rfl
  outside := by
    intro x m m' inv happened
    simp only [reapOrphan] at happened
    split at happened <;> cases happened
    rename_i orphaned
    exact ⟨⟨fun _ => inv.orphaned orphaned, inv.orphaned, inv.signals⟩, fun q here => Place.hereSame here rfl rfl⟩

def isFree (c : Config (machine pty)) : Event (machine pty) → Bool
  | .run index _ => ((c.tasks[index]?).bind Task.next).all (unhindered c.memory)
  | _ => true

abbrev Free (c : Config (machine pty)) (e : Event (machine pty)) : Prop := isFree c e = true

theorem spawningHolds : (identity pty).Holds (spawning pty) where
  inv := ⟨fun reaped => (Bool.false_ne_true reaped).elim, fun orphaned => (Bool.false_ne_true orphaned).elim,
    fun sent member => (List.not_mem_nil member).elim⟩
  placed t member := by
    rw [List.mem_singleton.mp member]
    exact knowledgeSound _
  here {i t} found := by
    have only := List.mem_singleton.mp (List.mem_of_getElem? found)
    rw [only]
    trivial
  apart {i j t u} _ found _ both := by
    have only := List.mem_singleton.mp (List.mem_of_getElem? found)
    rw [only] at both
    exact Bool.false_ne_true both.1

/-- No signal goes to the group behind the reaping of its leader, unless the guard of the child
is dropped while somebody else holds the identity open. -/
theorem noSignalAfterReap {c : Config (machine pty)} (reached : Reach Free (spawning pty) c) :
    ∀ sent ∈ c.memory.signals, sent.2 = false := by
  have holds : (identity pty).Holds c := by
    refine Outline.reachHolds knowledgeSound identityValid spawningHolds (fun _ _ good performs => ?_) reached
    change Option.all (unhindered _) _ = true at good
    rwa [performs.present, Option.bind_some, performsNext performs, Option.all_some] at good
  exact holds.inv.signals

end Runs

def idle : Choice := ⟨false, false, false⟩

/-- The child is spawned, and a termination has the lock and is about to signal. -/
def terminating : List (Event (machine false)) :=
  List.replicate 2 (.run 0 idle) ++ [.call .terminate] ++ List.replicate 3 (.run 2 idle)

/-- The supervisor is dropped and the runtime reaps the child. -/
def dropped : List (Event (machine false)) := List.replicate 3 (.run 1 ⟨false, true, false⟩) ++ [.outside ()]

theorem droppedRun : (runFrom (spawning false) (terminating ++ dropped ++ [.run 2 idle])).map (·.memory.signals) =
    some [(.term, true)] := by
  decide +kernel

theorem signalAfterReap : ¬ ∀ (pty : Bool) (c : Config (machine pty)), Reach Always (spawning pty) c →
    ∀ sent ∈ c.memory.signals, sent.2 = false := by
  intro never
  obtain ⟨c, ran, signals⟩ := Option.map_eq_some_iff.mp droppedRun
  have late := never false c (reachRun .start (fun _ _ => trivial) ran) (.term, true)
    (signals ▸ List.mem_cons_self)
  cases late

/-- The child ends, its supervisor seals the group and reaps it, and the termination goes on. -/
def ends : List (Event (machine false)) :=
  List.replicate 3 (.run 2 idle) ++ List.replicate 7 (.run 1 idle)

theorem endsRun : (goodRun Free (spawning false) (terminating ++ ends ++ [.call .terminate, .run 3 idle])).map
    (fun c => (c.memory.reaped, c.memory.signals)) = some (true, [(.kill, false), (.term, false)]) := by
  decide +kernel

theorem noSignalAfterReapEnds : ∃ c : Config (machine false), c.memory.reaped = true ∧
    c.memory.signals = [(.kill, false), (.term, false)] ∧ ∀ sent ∈ c.memory.signals, sent.2 = false := by
  obtain ⟨c, ran, seen⟩ := Option.map_eq_some_iff.mp endsRun
  obtain ⟨reaped, signals⟩ := Prod.mk.inj seen
  exact ⟨c, reaped, signals, noSignalAfterReap (reachGoodRun .start ran)⟩

end Maestro.ProcessGroup
