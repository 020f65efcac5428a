import Maestro.OwnSteps
import Maestro.TerminalInput

/-! Whether a close of a terminal comes to the termination of the child without the child: what
each holder of the operation guard waits for. -/
namespace Maestro.TerminalInput
open Interleaving Prog Protocol

/-- Only a child that has ended is finalised or taken from the table. -/
structure Listing (m : TerminalSession) : Prop where
  finalized : m.finalized = true → m.alive = false
  removed : m.listed = false → m.alive = false

def Stage.Knows (m : TerminalSession) : Stage → Prop
  | .checking count => m.state = .running → count ≤ m.room
  | .writing count => count ≤ m.room
  | .ended | .reaped => m.alive = false
  | _ => True

structure Stage.Here (q : Stage) (m : TerminalSession) : Prop where
  guard : q.holds = true → m.operationGuard = true
  knows : q.Knows m

abbrev guarding : Outline stages where
  Inv := Listing
  Here := Stage.Here
  Apart q other := ¬ (q.holds = true ∧ other.holds = true)

/-- A write of a running terminal takes the guard when its bytes fit, and a terminal is finalised
without an exit when its child has ended. -/
def Fits (m : TerminalSession) : Act → Prop
  | .lockOperation (.write count) => m.state = .running → count ≤ m.room
  | .finalizeReaped false => m.alive = false
  | _ => True

instance (m : TerminalSession) (o : Act) : Decidable (Fits m o) :=
  match o with
  | .lockOperation (.write count) => inferInstanceAs (Decidable (m.state = .running → count ≤ m.room))
  | .finalizeReaped false => inferInstanceAs (Decidable (m.alive = false))
  | .lockOperation .resize | .lockOperation .close | .finalizeReaped true | .contains | .unlockOperation
  | .requireRunning | .writeSome _ | .applyResize | .requestClose | .isFinalized | .completedResult
  | .groupTerminate | .waitGrace | .groupSeal | .waitLifecycle | .noteTerminationFailure | .setClosed
  | .removeTerminal | .readPty => inferInstanceAs (Decidable True)

/-- What the actions between the lock and the unlock leave, the writing apart. -/
structure Steady (m m' : TerminalSession) : Prop where
  guard : m'.operationGuard = m.operationGuard
  room : m'.room = m.room
  alive : m'.alive = m.alive
  running : m'.state = .running → m.state = .running
  finalized : m'.finalized = true → m.finalized = true ∨ m.alive = false
  removed : m'.listed = false → m.listed = false ∨ m.alive = false

section Steps
variable {m m' : TerminalSession} {q q' other : Stage} {choice : Choice}

theorem steadyRefl : Steady m m := ⟨rfl, rfl, rfl, id, .inl, .inl⟩

theorem listingSteady (steady : Steady m m') (listing : Listing m) : Listing m' where
  finalized := fun finalized => steady.alive.trans ((steady.finalized finalized).elim listing.finalized id)
  removed := fun removed => steady.alive.trans ((steady.removed removed).elim listing.removed id)

theorem hereSteady (steady : Steady m m') (here : q.Here m) : q.Here m' where
  guard := fun holds => steady.guard.trans (here.guard holds)
  knows := by
    have knows := here.knows
    cases q with
    | checking count => exact fun running => steady.room ▸ knows (steady.running running)
    | writing count => exact Nat.le_trans knows (Nat.le_of_eq steady.room.symm)
    | ended | reaped => exact steady.alive.trans knows
    | _ => trivial

theorem keptSteady (steady : Steady m m') (inv : Listing m) (here : q'.Here m')
    (less : q'.holds = true → q.holds = true) : guarding.Kept m m' q q' none where
  inv := listingSteady steady inv
  here := here
  entered := nofun
  others := fun _ theirs apart => ⟨hereSteady steady theirs, fun both => apart ⟨less both.1, both.2⟩, nofun⟩

theorem graceApplied {answer : Option Bool} (applied : apply .waitGrace choice m = some (answer, m')) :
    m' = m ∧ ∀ reaped, answer = some reaped → m.waited choice = some reaped := by
  cases choice with
  | elapsed => cases applied; exact ⟨rfl, nofun⟩
  | fails => cases applied; exact ⟨rfl, fun _ same => same⟩
  | go | take =>
    obtain ⟨reaped, waited, same⟩ := Option.map_eq_some_iff.mp applied
    cases same
    exact ⟨rfl, fun _ same => waited.trans same⟩

/-- The actions that neither move the guard nor take from the room. -/
def Act.Still : Act → Prop
  | .lockOperation _ | .unlockOperation | .writeSome _ => False
  | _ => True

theorem appliedSteady {o : Act} {answer : o.Answer} (still : o.Still) (here : q.Here m) (allowed : q.may o)
    (fits : Fits m o) (applied : apply o choice m = some (answer, m')) : Steady m m' := by
  cases o
  case lockOperation | unlockOperation | writeSome => exact still.elim
  case requestClose =>
    cases applied
    refine ⟨rfl, rfl, rfl, fun running => ?_, .inl, .inl⟩
    simp only [TerminalSession.startClose] at running
    split at running
    · exact running
    · cases running
  case finalizeReaped reaped =>
    cases applied
    have dead : m.alive = false := by
      cases reaped with
      | true =>
        have knows := here.knows
        rcases allowed with rfl | rfl <;> exact knows
      | false => exact fits
    refine ⟨rfl, rfl, rfl, fun running => ?_, fun _ => .inr dead, .inl⟩
    simp only [TerminalSession.finish] at running
    split at running
    · split at running <;> cases running
    · cases running
  case noteTerminationFailure =>
    simp only [apply] at applied
    split at applied <;> cases applied
    · exact steadyRefl
    · exact ⟨rfl, rfl, rfl, nofun, .inl, .inl⟩
  case setClosed =>
    cases applied
    exact ⟨rfl, rfl, rfl, nofun, .inl, .inl⟩
  case removeTerminal =>
    cases applied
    have dead : m.alive = false := by
      have knows := here.knows
      cases allowed
      exact knows
    exact ⟨rfl, rfl, rfl, id, .inl, fun _ => .inr dead⟩
  case waitGrace =>
    obtain ⟨rfl, _⟩ := graceApplied applied
    exact steadyRefl
  case waitLifecycle =>
    obtain ⟨_, _, same⟩ := Option.map_eq_some_iff.mp applied
    cases same
    exact steadyRefl
  case readPty =>
    cases choice
    case take | fails => cases applied; exact steadyRefl
    all_goals
      simp only [apply] at applied
      split at applied <;> cases applied
      exact steadyRefl
  all_goals
    cases applied
    exact steadyRefl

theorem waitedDead {reaped : Bool} (waited : m.waited choice = some reaped) (ended : reaped = true) :
    m.alive = false := by
  subst ended
  unfold TerminalSession.waited at waited
  cases alive : m.alive with
  | false => rfl
  | true =>
    rw [alive] at waited
    cases choice <;> cases waited

theorem learnKnows {reaped : Bool} (dead : reaped = true → m.alive = false) : (q.learn reaped).Knows m := by
  cases reaped with
  | true => cases q <;> exact dead rfl
  | false => cases q <;> trivial

theorem learnHolds {reaped : Bool} (place : q = .terminating ∨ q = .reaping ∨ q = .reading)
    (holds : (q.learn reaped).holds = true) : q.holds = true := by
  rcases place with rfl | rfl | rfl
  · rfl
  · cases reaped <;> cases holds
  · cases reaped <;> cases holds

theorem stillAfter {o : Act} {answer : o.Answer} (still : o.Still) (inv : Listing m) (here : q.Here m)
    (allowed : q.may o) (applied : apply o choice m = some (answer, m')) :
    ((q.after o answer).holds = true → q.holds = true) ∧ (q.after o answer).Knows m := by
  have knows := here.knows
  cases o
  case lockOperation | unlockOperation | writeSome => exact still.elim
  case contains =>
    rcases allowed with rfl | rfl | rfl
    · exact ⟨id, trivial⟩
    · cases answer <;> exact ⟨nofun, trivial⟩
    · cases answer <;> exact ⟨fun _ => rfl, trivial⟩
  case requireRunning =>
    rcases allowed with rfl | ⟨count, rfl⟩
    · exact ⟨id, trivial⟩
    · have same : decide (m.state = .running) = answer := congrArg Prod.fst (Option.some.inj applied)
      cases answer with
      | true => exact ⟨fun _ => rfl, knows (of_decide_eq_true same)⟩
      | false => exact ⟨fun _ => rfl, trivial⟩
  case isFinalized =>
    cases allowed
    have same : m.finalized = answer := congrArg Prod.fst (Option.some.inj applied)
    cases answer with
    | true => exact ⟨fun _ => rfl, inv.finalized same⟩
    | false => exact ⟨fun _ => rfl, trivial⟩
  case completedResult =>
    have same : m.waited choice = answer := congrArg Prod.fst (Option.some.inj applied)
    cases answer with
    | none => rcases allowed with rfl | rfl <;> exact ⟨id, trivial⟩
    | some reaped =>
      have told : q.after .completedResult (some reaped) = q.learn reaped := by
        rcases allowed with rfl | rfl <;> rfl
      rw [told]
      exact ⟨learnHolds (allowed.imp_right .inl), learnKnows (waitedDead same)⟩
  case waitGrace =>
    cases answer with
    | none => rcases allowed with rfl | rfl <;> exact ⟨id, trivial⟩
    | some reaped =>
      have told : q.after .waitGrace (some reaped) = q.learn reaped := by
        rcases allowed with rfl | rfl <;> rfl
      rw [told]
      exact ⟨learnHolds (allowed.imp_right .inl),
        learnKnows (waitedDead ((graceApplied applied).2 reaped rfl))⟩
  case waitLifecycle =>
    obtain ⟨reaped, waited, same⟩ := Option.map_eq_some_iff.mp applied
    cases same
    have told : q.after .waitLifecycle answer = q.learn answer := by
      rcases allowed with rfl | rfl | rfl <;> rfl
    rw [told]
    exact ⟨learnHolds allowed, learnKnows (waitedDead waited)⟩
  case groupTerminate | groupSeal =>
    cases answer with
    | true => rcases allowed with rfl | rfl <;> exact ⟨id, trivial⟩
    | false => rcases allowed with rfl | rfl <;> exact ⟨by simp [Stage.after, Stage.learn, Stage.holds], trivial⟩
  case noteTerminationFailure =>
    cases allowed
    simp only [apply] at applied
    split at applied <;> cases applied
    · rename_i finalized
      exact ⟨fun _ => rfl, inv.finalized finalized⟩
    · exact ⟨fun _ => rfl, trivial⟩
  case finalizeReaped reaped =>
    cases reaped with
    | true =>
      rcases allowed with rfl | rfl
      · exact ⟨id, knows⟩
      · exact ⟨nofun, trivial⟩
    | false => cases allowed; exact ⟨nofun, trivial⟩
  case readPty =>
    cases allowed
    match answer with
    | none => exact ⟨nofun, trivial⟩
    | some true => exact ⟨id, trivial⟩
    | some false => exact ⟨id, trivial⟩
  case setClosed | removeTerminal =>
    cases allowed
    exact ⟨id, knows⟩
  case applyResize | requestClose =>
    cases allowed
    exact ⟨id, trivial⟩

theorem freeHere (here : other.Here m) (free : m.operationGuard = false) : other.holds = false := by
  cases holds : other.holds with
  | false => rfl
  | true => exact absurd (here.guard holds) (by simp [free])

theorem hereAway (away : other.holds = false) (here : other.Here m) (alive : m'.alive = m.alive) :
    other.Here m' where
  guard := fun holds => absurd holds (by simp [away])
  knows := by
    have knows := here.knows
    cases other with
    | ended | reaped => exact alive.trans knows
    | checking | writing => cases away
    | _ => trivial

theorem takenWrite {count : Nat} {answer : Option Nat}
    (applied : apply (.writeSome count) choice m = some (answer, m')) :
    (answer = none ∧ m' = m) ∨ ∃ taken, answer = some taken ∧ taken ≤ count ∧
      m' = { m with room := m.room - taken } := by
  cases choice
  all_goals
    simp only [apply] at applied
    split at applied
    · split at applied
      · cases applied
        exact .inr ⟨_, rfl, by omega, rfl⟩
      · cases applied
    · cases applied
      exact .inl ⟨rfl, rfl⟩

theorem guardingValid : guarding.Valid fun _ o m => Fits m o where
  symm := fun apart both => apart ⟨both.2, both.1⟩
  call := by
    intro e m _ _
    cases e <;> exact ⟨⟨nofun, trivial⟩, fun _ _ both => Bool.false_ne_true both.1⟩
  act := by
    intro q o choice m answer m' inv here allowed fits applied
    by_cases still : o.Still
    · have steady := appliedSteady still here allowed fits applied
      have leads := stillAfter still inv here allowed applied
      have kept : (q.after o answer).Here m := ⟨fun holds => here.guard (leads.1 holds), leads.2⟩
      exact keptSteady steady inv (hereSteady steady kept) leads.1
    cases o
    case lockOperation purpose =>
      simp only [apply] at applied
      split at applied
      · cases applied
      · rename_i open'
        cases applied
        have free : m.operationGuard = false := by simpa using open'
        refine ⟨⟨inv.finalized, inv.removed⟩, ?_, nofun, fun other theirs _ => ?_⟩
        · cases purpose with
          | write count =>
            cases allowed
            exact ⟨fun _ => rfl, fits⟩
          | resize => cases allowed; exact ⟨fun _ => rfl, trivial⟩
          | close => cases allowed; exact ⟨fun _ => rfl, trivial⟩
        · have away := freeHere theirs free
          exact ⟨hereAway away theirs rfl, fun both => absurd both.2 (by simp [away]), nofun⟩
    case unlockOperation =>
      cases applied
      have mine : q.holds = true := by
        rcases allowed with rfl | inputs
        · rfl
        · cases q <;> first | rfl | cases inputs
      have leaves : q.after .unlockOperation () = .plain := by cases q <;> rfl
      refine ⟨⟨inv.finalized, inv.removed⟩, ?_, nofun, fun other theirs apart => ?_⟩
      · change Stage.Here (q.after .unlockOperation ()) _
        rw [leaves]
        exact ⟨nofun, trivial⟩
      · have away : other.holds = false := by
          cases holds : other.holds with
          | false => rfl
          | true => exact absurd ⟨mine, holds⟩ apart
        refine ⟨hereAway away theirs rfl, fun both => ?_, nofun⟩
        exact absurd both.2 (by simp [away])
    case writeSome count =>
      obtain ⟨rfl, positive⟩ := allowed
      have away : ∀ other : Stage, ¬ ((Stage.writing count).holds = true ∧ other.holds = true) →
          other.holds = false := fun other apart => by
        cases holds : other.holds with
        | false => rfl
        | true => exact absurd ⟨rfl, holds⟩ apart
      have fitting : count ≤ m.room := here.knows
      rcases takenWrite applied with ⟨rfl, rfl⟩ | ⟨taken, rfl, less, rfl⟩
      · exact keptSteady steadyRefl inv ⟨fun _ => here.guard rfl, trivial⟩ fun _ => rfl
      · refine ⟨⟨inv.finalized, inv.removed⟩, ⟨fun _ => here.guard rfl, ?_⟩, nofun, fun other theirs apart => ?_⟩
        · change count - taken ≤ m.room - taken
          omega
        · exact ⟨hereAway (away other apart) theirs rfl,
            fun both => absurd both.2 (by simp [away other apart]), nofun⟩
    all_goals exact absurd trivial still
  outside := by
    intro x m m' inv effect
    cases x with
    | reads count =>
      simp only [childActs] at effect
      split at effect <;> cases effect
      refine ⟨⟨inv.finalized, inv.removed⟩, fun q here => ⟨here.guard, ?_⟩⟩
      have knows := here.knows
      cases q with
      | checking left => exact fun running => Nat.le_trans (knows running) (Nat.le_add_right _ _)
      | writing left => exact Nat.le_trans knows (Nat.le_add_right _ _)
      | ended | reaped => exact knows
      | _ => trivial
    | exits =>
      cases effect
      refine ⟨⟨fun _ => rfl, fun _ => rfl⟩, fun q here => ⟨here.guard, ?_⟩⟩
      have knows := here.knows
      cases q with
      | checking left => exact knows
      | writing left => exact knows
      | ended | reaped => exact rfl
      | _ => trivial

end Steps

/-- Every write that takes the guard fits, and every finalisation without an exit is one of an
ended child. -/

def Fitting (c : Config machine) : Event machine → Prop
  | .run index _ => ∀ t, c.tasks[index]? = some t → ∀ o, t.next = some o → Fits c.memory o
  | _ => True

instance (c : Config machine) (e : Event machine) : Decidable (Fitting c e) :=
  match e with
  | .run index _ => decidable_of_iff (∀ t ∈ c.tasks[index]?, ∀ o ∈ t.next, Fits c.memory o) Iff.rfl
  | .call _ | .outside _ => inferInstanceAs (Decidable True)

def Held (c : Config machine) : Prop :=
  c.memory.operationGuard = true → ∃ t ∈ c.tasks, (stages.place t).holds = true

section Runs
variable {room : Nat} {c : Config machine}

theorem bodiesAct (e : Entry) (last : Entry) : body e ≠ .done (some last) := by
  cases e <;> exact nofun

theorem reachGuarding (reach : Reach Fitting (opened room) c) : guarding.Holds c := by
  refine Outline.reachHolds stagesSound guardingValid ?_ ?_ reach
  · refine ⟨⟨nofun, nofun⟩, fun t member => ?_, fun {i t} found => ?_, fun {i j t u} different fi fj => ?_⟩
    · cases List.mem_singleton.mp member
      exact stagesSound .outputReader
    · cases List.mem_singleton.mp (List.mem_of_getElem? found)
      exact ⟨nofun, trivial⟩
    · cases List.mem_singleton.mp (List.mem_of_getElem? fi)
      exact fun both => Bool.false_ne_true both.1
  · intro c index choice t o answer memory next _ _ good performs
    exact good t performs.present o (performsNext performs)

theorem lockedAfter {q : Stage} {purpose : Purpose} :
    q.after (.lockOperation purpose) () = Stage.locked purpose := by
  cases q <;> rfl

theorem holdsStay {q : Stage} {o : Act} {answer : o.Answer} (still : o.Still) (allowed : q.may o)
    (stays : q.holds = true) : (q.after o answer).holds = true := by
  cases o
  case lockOperation | unlockOperation | writeSome => exact still.elim
  case contains =>
    rcases allowed with rfl | rfl | rfl
    · cases stays
    · cases stays
    · cases answer <;> rfl
  case requireRunning => rcases allowed with rfl | ⟨count, rfl⟩ <;> cases answer <;> rfl
  case isFinalized | noteTerminationFailure => cases allowed; cases answer <;> rfl
  case completedResult | waitGrace =>
    rcases allowed with rfl | rfl
    · match answer with
      | none => rfl
      | some true => rfl
      | some false => rfl
    · cases stays
  case groupTerminate | groupSeal =>
    rcases allowed with rfl | rfl
    · cases answer <;> rfl
    · cases stays
  case waitLifecycle =>
    rcases allowed with rfl | rfl | rfl
    · cases answer <;> rfl
    · cases stays
    · cases stays
  case finalizeReaped reaped =>
    cases reaped with
    | true =>
      rcases allowed with rfl | rfl
      · rfl
      · cases stays
    | false => cases allowed; cases stays
  case readPty => cases allowed; cases stays
  case applyResize | requestClose | setClosed | removeTerminal => cases allowed; rfl

theorem heldAct {index choice t o answer memory next} (holds : guarding.Holds c) (held : Held c)
    (performs : Performs c index choice t o answer memory next) (fits : Fits c.memory o) :
    Held ⟨memory, c.tasks.set index (t.advance o answer next) ++ spawned o⟩ := by
  have obeys := performsObeys stagesSound holds.placed performs
  have mine : (c.tasks.set index (t.advance o answer next) ++ spawned o)[index]? =
      some (t.advance o answer next) := movedTask performs.present
  intro guarded
  by_cases still : o.Still
  · have steady := @appliedSteady _ _ _ choice _ _ still (holds.here performs.present) obeys.allowed fits
      performs.effect
    exact @kindStays _ _ stages _ _ _ _ _ _ _ _ performs obeys (fun q => q.holds = true)
      (holdsStay still obeys.allowed) (held (steady.guard.symm.trans guarded))
  cases o
  case lockOperation purpose =>
    refine ⟨_, List.mem_of_getElem? mine, ?_⟩
    rw [obeys.reached]
    change ((stages.place t).after (.lockOperation purpose) ()).holds = true
    rw [lockedAfter]
    cases purpose <;> rfl
  case unlockOperation =>
    cases performs.effect
    cases guarded
  case writeSome count =>
    have place : stages.place t = .writing count := obeys.allowed.1
    refine ⟨_, List.mem_of_getElem? mine, ?_⟩
    rw [obeys.reached, place]
    cases answer <;> rfl
  all_goals exact absurd trivial still

theorem reachHeld (reach : Reach Fitting (opened room) c) : Held c := by
  refine @reachInvariant _ _ Fitting (opened room) Held ?_ (fun before held good moves => ?_) _ reach
  · exact nofun
  · cases moves with
    | call allowed =>
      intro guarded
      obtain ⟨t, member, holds⟩ := held guarded
      exact ⟨t, List.mem_append_left _ member, holds⟩
    | act performs =>
      exact heldAct (reachGuarding before) held performs
        (good _ performs.present _ (performsNext performs))
    | @outside x memory effect =>
      intro guarded
      refine held ?_
      cases x with
      | reads count =>
        simp only [machine, childActs] at effect
        split at effect <;> cases effect
        exact guarded
      | exits => cases effect; exact guarded

end Runs

section Holders
variable {m : TerminalSession} {q : Stage} {o : Act}

theorem unfinalized (inv : Listing m) (alive : m.alive = true) : m.finalized = false := by
  cases finalized : m.finalized with
  | false => rfl
  | true => exact absurd (inv.finalized finalized) (by simp [alive])

theorem stillListed (inv : Listing m) (alive : m.alive = true) : m.listed = true := by
  cases listed : m.listed with
  | true => rfl
  | false => exact absurd (inv.removed listed) (by simp [alive])

theorem requireLeads {count : Nat} {answer : Bool} :
    (Stage.after (.checking count) .requireRunning answer).holds = true ∧
      (Stage.after (.checking count) .requireRunning answer).inputs = true := by
  cases answer <;> exact ⟨rfl, rfl⟩

theorem holderEnabled (inv : Listing m) (here : q.Here m) (alive : m.alive = true) (holds : q.holds = true)
    (outside : q ≠ .terminating) (allowed : q.may o) :
    Fits m o ∧ ∃ answer m', apply o .go m = some (answer, m') ∧ m'.alive = true ∧
      ((q.after o answer = .plain ∧ m'.operationGuard = false) ∨
        ((q.after o answer).holds = true ∧ (q.inputs = true → (q.after o answer).inputs = true))) := by
  have knows := here.knows
  have lives : m.alive ≠ false := by simp [alive]
  cases o
  case contains =>
    rcases allowed with rfl | rfl | rfl
    · cases holds
    · cases holds
    · refine ⟨trivial, m.listed, m, rfl, alive, .inr ?_⟩
      rw [stillListed inv alive]
      exact ⟨rfl, nofun⟩
  case lockOperation purpose => cases purpose <;> cases allowed <;> cases holds
  case unlockOperation =>
    exact ⟨trivial, (), _, rfl, alive, .inl ⟨by cases q <;> rfl, rfl⟩⟩
  case requireRunning =>
    refine ⟨trivial, decide (m.state = .running), m, rfl, alive, .inr ?_⟩
    rcases allowed with rfl | ⟨count, rfl⟩
    · exact ⟨rfl, fun _ => rfl⟩
    · exact ⟨requireLeads.1, fun _ => requireLeads.2⟩
  case writeSome count =>
    obtain ⟨rfl, positive⟩ := allowed
    have whole : min count m.room = count := Nat.min_eq_left knows
    refine ⟨trivial, some count, { m with room := m.room - count }, ?_, alive, .inr ⟨rfl, fun _ => rfl⟩⟩
    simp only [apply, alive, whole, if_pos positive, if_true]
  case applyResize => cases allowed; exact ⟨trivial, true, m, rfl, alive, .inr ⟨rfl, fun _ => rfl⟩⟩
  case requestClose => cases allowed; exact ⟨trivial, (), _, rfl, alive, .inr ⟨rfl, nofun⟩⟩
  case isFinalized =>
    cases allowed
    refine ⟨trivial, m.finalized, m, rfl, alive, .inr ?_⟩
    rw [unfinalized inv alive]
    exact ⟨rfl, nofun⟩
  case completedResult | groupTerminate | waitGrace | groupSeal =>
    rcases allowed with rfl | rfl
    · exact absurd rfl outside
    · cases holds
  case waitLifecycle =>
    rcases allowed with rfl | rfl | rfl
    · exact absurd rfl outside
    · cases holds
    · cases holds
  case finalizeReaped reaped =>
    cases reaped with
    | true =>
      rcases allowed with rfl | rfl
      · exact absurd knows lives
      · cases holds
    | false => cases allowed; cases holds
  case noteTerminationFailure =>
    cases allowed
    refine ⟨trivial, true, { m with state := .failed }, ?_, alive, .inr ⟨rfl, nofun⟩⟩
    simp [apply, unfinalized inv alive]
  case setClosed | removeTerminal => cases allowed; exact absurd knows lives
  case readPty => cases allowed; cases holds

theorem enteringLeads (inv : Listing m) (alive : m.alive = true) (allowed : Stage.may .entering o) :
    Fits m o ∧ ∃ answer m', apply o .go m = some (answer, m') ∧ m'.alive = true ∧
      (Stage.after .entering o answer = .terminating ∨ Stage.after .entering o answer = .entering) := by
  cases o
  case contains =>
    refine ⟨trivial, m.listed, m, rfl, alive, .inr ?_⟩
    rw [stillListed inv alive]
    rfl
  case requestClose => exact ⟨trivial, (), _, rfl, alive, .inr rfl⟩
  case isFinalized =>
    refine ⟨trivial, m.finalized, m, rfl, alive, .inl ?_⟩
    rw [unfinalized inv alive]
    rfl
  case lockOperation purpose => cases purpose <;> cases allowed
  case finalizeReaped reaped => cases reaped <;> simp [Stage.may] at allowed
  all_goals simp [Stage.may, Stage.inputs] at allowed

end Holders

def Alive (m : TerminalSession) : Prop := m.alive = true

def Released (q : Stage) (m : TerminalSession) : Prop := q = .plain ∧ m.operationGuard = false

theorem holdsFresh {q : Stage} (holds : q.holds = true) (e : Entry) : q ≠ Stage.enter e := by
  rintro rfl
  cases e <;> cases holds

theorem inputsHold {q : Stage} (inputs : q.inputs = true) : q.holds = true ∧ q ≠ .terminating := by
  cases q <;> first | (cases inputs; done) | exact ⟨rfl, nofun⟩

theorem inputProceeds : guarding.Proceeds (fun _ o m => Fits m o) Alive (fun q => q.inputs = true) Released where
  enabled := fun inv here alive inputs allowed => by
    obtain ⟨fits, answer, m', applied, lives, leads⟩ :=
      holderEnabled inv here alive (inputsHold inputs).1 (inputsHold inputs).2 allowed
    refine ⟨fits, .go, answer, m', applied, lives, leads.imp id fun on => ?_⟩
    exact ⟨on.2 inputs, holdsFresh on.1⟩
  goesOn := fun inputs ended => by
    cases ended
    cases inputs

theorem holderProceeds : guarding.Proceeds (fun _ o m => Fits m o) Alive
    (fun q => q.holds = true ∧ q ≠ .terminating) (fun q m => Released q m ∨ q = .terminating) where
  enabled := fun {q o m} inv here alive inside allowed => by
    obtain ⟨fits, answer, m', applied, lives, leads⟩ :=
      holderEnabled inv here alive inside.1 inside.2 allowed
    refine ⟨fits, .go, answer, m', applied, lives, ?_⟩
    rcases leads with released | ⟨holds, _⟩
    · exact .inl (.inl released)
    · by_cases there : q.after o answer = .terminating
      · exact .inl (.inr there)
      · exact .inr ⟨⟨holds, there⟩, holdsFresh holds⟩
  goesOn := fun inside ended => by
    cases ended
    cases inside.1

theorem closeProceeds : guarding.Proceeds (fun _ o m => Fits m o) Alive (fun q => q = .entering)
    (fun q _ => q = .terminating) where
  enabled := fun inv here alive inside allowed => by
    subst inside
    obtain ⟨fits, answer, m', applied, lives, leads⟩ := enteringLeads inv alive allowed
    refine ⟨fits, .go, answer, m', applied, lives, leads.imp id fun stays => ⟨stays, ?_⟩⟩
    exact holdsFresh (congrArg Stage.holds stays)
  goesOn := fun inside ended => by
    cases ended
    cases inside

/-- Steps of the daemon's own tasks, with nothing from the child and no new call. -/
def OwnSteps (es : List (Event machine)) : Prop := ∀ e ∈ es, ∃ index choice, e = .run index choice

/-- Without the child some close comes to `terminate`. -/
def Terminates (c : Config machine) : Prop :=
  ∃ es c', OwnSteps es ∧ runFrom c es = some c' ∧ c'.memory.alive = true ∧
    ∃ u ∈ c'.tasks, stages.place u = .terminating

/-- A write or a resize that holds the guard gives it up by its own steps, and a close that is
called comes to `terminate` by steps of the tasks that are there. -/
structure ReachesChild (c : Config machine) : Prop where
  released : ∀ (i : Nat) t, c.tasks[i]? = some t → (stages.place t).inputs = true →
    ∃ (choices : List Choice) (c' : Config machine), runFrom c (choices.map (.run i)) = some c' ∧
      c'.memory.operationGuard = false
  terminates : ∀ (i : Nat) t, c.tasks[i]? = some t → (stages.place t).closes = true →
    Terminates c

section Closing
variable {c : Config machine} {i : Nat}

theorem ownChoices {choices : List Choice} : OwnSteps (choices.map (.run i)) := by
  intro e member
  obtain ⟨choice, _, rfl⟩ := List.mem_map.mp member
  exact ⟨i, choice, rfl⟩

theorem ownAppend {first rest : List (Event machine)} (steps : OwnSteps first) (more : OwnSteps rest) :
    OwnSteps (first ++ rest) := fun e member =>
  (List.mem_append.mp member).elim (steps e) (more e)

def Resumed (c : Config machine) : Prop := ∀ t ∈ c.tasks, ∀ last, t.rest ≠ .done (some last)

theorem runResumed {es : List (Event machine)} {c' : Config machine} (resumed : Resumed c)
    (ran : runFrom c es = some c') : Resumed c' :=
  reachRest bodiesAct resumed (@reachRun _ _ Always c c es c' .start (fun _ _ => trivial) ran)

theorem terminatesLater {es : List (Event machine)} {c' : Config machine} (steps : OwnSteps es)
    (ran : runFrom c es = some c') (later : Terminates c') : Terminates c := by
  obtain ⟨rest, c'', more, ran', alive, there⟩ := later
  exact ⟨es ++ rest, c'', ownAppend steps more, by rw [runAppend, ran]; exact ran', alive, there⟩

structure Stands (c : Config machine) : Prop where
  holds : guarding.Holds c
  resumed : Resumed c
  alive : c.memory.alive = true

theorem actsOnce {t o answer m'} (stands : Stands c) (present : c.tasks[i]? = some t)
    (only : ∀ o', (stages.place t).may o' → o' = o) (unended : stages.place t ≠ .plain)
    (fits : Fits c.memory o) (applied : apply o .go c.memory = some (answer, m')) :
    ∃ c' t', runFrom c [.run i .go] = some c' ∧ guarding.Holds c' ∧ c'.memory = m' ∧
      c'.tasks[i]? = some t' ∧ stages.place t' = (stages.place t).after o answer ∧
      ∀ {j : Nat} {u}, j ≠ i → c.tasks[j]? = some u → c'.tasks[j]? = some u := by
  have member := List.mem_of_getElem? present
  have placed := stands.holds.placed t member
  match left : t.rest with
  | .done (some e) => exact absurd left (stands.resumed t member e)
  | .done none => exact absurd (placedEnds placed left) unended
  | .act o' k =>
    have allowed := placedNext placed (show t.next = some o' by simp [Task.next, left])
    cases only o' allowed
    have performs : Performs c i .go t o answer m' (k answer) := ⟨present, ⟨k, left, rfl⟩, applied⟩
    have obeys := performsObeys stagesSound stands.holds.placed performs
    refine ⟨⟨m', c.tasks.set i (t.advance o answer (k answer)) ++ spawned o⟩, _, ?_,
      Outline.holdsAct stagesSound guardingValid stands.holds performs fits, rfl, movedTask present,
      obeys.reached, otherTask⟩
    simp only [runFrom, step, present, left, applied]

theorem onlyContains (o : Act) (allowed : Stage.may .approaching o) : o = .contains := by
  cases o
  case contains => rfl
  case lockOperation purpose => cases purpose <;> cases allowed
  case finalizeReaped reaped => cases reaped <;> simp [Stage.may] at allowed
  all_goals simp [Stage.may, Stage.inputs] at allowed

theorem onlyLock (o : Act) (allowed : Stage.may .sought o) : o = .lockOperation .close := by
  cases o
  case lockOperation purpose =>
    cases purpose
    case close => rfl
    all_goals cases allowed
  case finalizeReaped reaped => cases reaped <;> simp [Stage.may] at allowed
  all_goals simp [Stage.may, Stage.inputs] at allowed

theorem enteringTerminates {t} (stands : Stands c) (present : c.tasks[i]? = some t)
    (entering : stages.place t = .entering) : Terminates c := by
  obtain ⟨choices, c', ran, gets⟩ := Outline.proceeds stagesSound guardingValid closeProceeds stands.holds
    stands.alive present entering (stands.resumed t (List.mem_of_getElem? present))
  obtain ⟨u, found, there⟩ := gets.reached
  exact ⟨_, c', ownChoices, ran, gets.kept, u, List.mem_of_getElem? found, there⟩

theorem soughtTerminates {t} (stands : Stands c) (free : c.memory.operationGuard = false)
    (present : c.tasks[i]? = some t) (sought : stages.place t = .sought) : Terminates c := by
  obtain ⟨c', t', ran, holds, memory, present', place, _⟩ :=
    @actsOnce c i t (.lockOperation .close) () { c.memory with operationGuard := true } stands present
      (by rw [sought]; exact onlyLock) (by rw [sought]; exact nofun) trivial (by simp [apply, free])
  refine @terminatesLater c [.run i .go] c' (fun e member => ?_) ran ?_
  · exact ⟨i, .go, List.mem_singleton.mp member⟩
  · refine enteringTerminates ⟨holds, runResumed stands.resumed ran, ?_⟩ present' ?_
    · rw [memory]
      exact stands.alive
    · rw [place, sought]
      rfl

theorem waitingTerminates {t} (stands : Stands c) (held : Held c) (present : c.tasks[i]? = some t)
    (sought : stages.place t = .sought) : Terminates c := by
  cases guarded : c.memory.operationGuard with
  | false => exact soughtTerminates stands guarded present sought
  | true =>
    obtain ⟨u, member, holds⟩ := held guarded
    obtain ⟨j, found⟩ := List.getElem?_of_mem member
    by_cases there : stages.place u = .terminating
    · exact ⟨[], c, nofun, rfl, stands.alive, u, member, there⟩
    obtain ⟨choices, c', ran, gets⟩ := Outline.proceeds stagesSound guardingValid holderProceeds stands.holds
      stands.alive found ⟨holds, there⟩ (stands.resumed u member)
    have different : i ≠ j := fun same => by
      subst same
      cases Option.some.inj (present.symm.trans found)
      rw [sought] at holds
      cases holds
    obtain ⟨u', found', reached⟩ := gets.reached
    refine terminatesLater ownChoices ran ?_
    rcases reached with released | there'
    · exact soughtTerminates ⟨gets.holds, runResumed stands.resumed ran, gets.kept⟩ released.2
        (gets.others different present) sought
    · exact ⟨[], c', nofun, rfl, gets.kept, u', List.mem_of_getElem? found', there'⟩

end Closing

/-- A write holds the guard when a close is called; its bytes fit. -/
def closeBehindWrite : List (Event machine) :=
  [.call (.write 3), .run 1 .go, .run 1 .go, .call .close, .run 2 .go]

/-- The input queue is full, and a write has the guard. -/
def writeOnFull : List (Event machine) := [.call (.write 1), .run 1 .go, .run 1 .go, .run 1 .go]

end Maestro.TerminalInput
