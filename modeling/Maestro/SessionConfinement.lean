import Maestro.Outline
import Maestro.Domain

/-! The session requests of the daemon and the projects they name. The table of running
sessions knows no project; the rows of the storage do. -/
namespace Maestro.Confinement
open Interleaving Prog Protocol

abbrev ProjectId := Nat
abbrev TerminalId := Nat
abbrev Root := String

inductive IntegrationMode where
  | structured
  | ptyTui
  deriving DecidableEq, Repr

/-- What a request did, with the session and the project it named. -/
inductive Effect where
  | launched (session : SessionId) (project : ProjectId) (cwd : Root)
  | stopped (session : SessionId) (project : ProjectId)
  | attached (session : SessionId) (project : ProjectId)
  | responded (session : SessionId) (project : ProjectId)
  deriving DecidableEq, Repr

def Effect.session : Effect → SessionId
  | .launched session _ _ | .stopped session _ | .attached session _ | .responded session _ => session

def Effect.project : Effect → ProjectId
  | .launched _ project _ | .stopped _ project | .attached _ project | .responded _ project => project

/-- `registered` are the primary roots of all registrations, the latest last. `active` are the
sessions of the in-memory table with a flag for their active run, `rows` the persisted
sessions. No branch reads `origin`, the project a session was started for. -/
structure Daemon where
  registered : List (ProjectId × Root)
  active : SessionId → Option Bool
  rows : SessionId → Option (ProjectId × IntegrationMode)
  tuiSessions : SessionId → Option TerminalId
  terminals : TerminalId → Option ProjectId
  next : Nat
  origin : SessionId → Option ProjectId
  effects : List Effect

inductive Act where
  | primaryRoot (project : ProjectId)
  | createSession (project : ProjectId)
  | newSessionId (project : ProjectId)
  | findSession (session : SessionId)
  | launchRun (session : SessionId) (project : ProjectId) (cwd : Root)
  | removeSession (session : SessionId)
  | persist (session : SessionId) (project : ProjectId) (mode : IntegrationMode)
  | stopRun (session : SessionId) (project : ProjectId)
  | openTerminal (session : SessionId) (project : ProjectId) (cwd : Root)
  | closeTerminal (session : SessionId) (project : ProjectId) (terminal : TerminalId)
  | insertTui (session : SessionId) (terminal : TerminalId)
  | metadata (session : SessionId)
  | tuiSession (session : SessionId)
  | attachTui (session : SessionId) (project : ProjectId) (terminal : TerminalId)
  | attachActive (session : SessionId) (project : ProjectId)
  | respond (session : SessionId) (project : ProjectId)

/-- `metadata` answers `none` when the storage fails. -/
@[reducible] def Act.Answer : Act → Type
  | .primaryRoot _ => Option Root
  | .createSession _ | .newSessionId _ => SessionId
  | .findSession _ | .launchRun .. | .persist .. | .attachTui .. | .attachActive .. => Bool
  | .openTerminal .. | .tuiSession _ => Option TerminalId
  | .metadata _ => Option (Option (ProjectId × IntegrationMode))
  | _ => Unit

abbrev actions : Actions := ⟨Act, Act.Answer⟩

abbrev Program := Prog actions

@[simp] def perform (o : Act) : Program o.Answer := .act (A := actions) o .done

inductive Choice where
  | ok
  | fails
  deriving DecidableEq, Repr

def set {α : Type} (f : Nat → Option α) (key : Nat) (value : Option α) : Nat → Option α :=
  fun other => if other = key then value else f other

namespace Daemon
variable (m : Daemon)

def primaryRoot (project : ProjectId) : Option Root :=
  (m.registered.reverse.find? fun entry => entry.1 == project).map (·.2)

def record (effect : Effect) : Daemon := { m with effects := m.effects ++ [effect] }

/-- `upsert_session`: a row that exists keeps its project and its mode. -/
def upsert (session : SessionId) (project : ProjectId) (mode : IntegrationMode) : Daemon :=
  match m.rows session with
  | some _ => m
  | none => { m with rows := set m.rows session (some (project, mode)) }

end Daemon

def apply : (o : Act) → Choice → Daemon → Option (o.Answer × Daemon)
  | .primaryRoot project, _, m => some (m.primaryRoot project, m)
  | .createSession project, _, m =>
    some (m.next, { m with
      active := set m.active m.next (some false)
      origin := set m.origin m.next (some project)
      next := m.next + 1 })
  | .newSessionId project, _, m =>
    some (m.next, { m with origin := set m.origin m.next (some project), next := m.next + 1 })
  | .findSession session, _, m => some ((m.active session).isSome, m)
  | .launchRun session project cwd, .ok, m =>
    if m.active session = some false then
      some (true, ({ m with active := set m.active session (some true) } : Daemon).record
        (.launched session project cwd))
    else some (false, m)
  | .launchRun .., .fails, m => some (false, m)
  | .removeSession session, _, m => some ((), { m with active := set m.active session none })
  | .persist session project mode, .ok, m => some (true, m.upsert session project mode)
  | .persist .., .fails, m => some (false, m)
  | .stopRun session project, _, m => some ((), m.record (.stopped session project))
  | .openTerminal session project cwd, .ok, m =>
    some (some m.next, ({ m with
      terminals := set m.terminals m.next (some project)
      next := m.next + 1 } : Daemon).record (.launched session project cwd))
  | .openTerminal .., .fails, m => some (none, m)
  | .closeTerminal session project terminal, _, m =>
    some ((), ({ m with terminals := set m.terminals terminal none } : Daemon).record
      (.stopped session project))
  | .insertTui session terminal, _, m =>
    some ((), { m with tuiSessions := set m.tuiSessions session (some terminal) })
  | .metadata _, .fails, m => some (none, m)
  | .metadata session, .ok, m => some (some (m.rows session), m)
  | .tuiSession session, _, m => some (m.tuiSessions session, m)
  | .attachTui session project terminal, _, m =>
    if m.terminals terminal = some project then some (true, m.record (.attached session project))
    else some (false, m)
  | .attachActive session project, _, m =>
    if m.active session = some true then some (true, m.record (.attached session project))
    else some (false, m)
  | .respond session project, _, m => some ((), m.record (.responded session project))

inductive Request where
  | fakeSessionStart (project : ProjectId)
  | fakeSessionResume (session : SessionId) (project : ProjectId)
  | fakeTuiStart (project : ProjectId)
  | sessionTerminalAttach (session : SessionId) (project : ProjectId)
  | sessionStructuredAttach (session : SessionId) (project : ProjectId)
  deriving DecidableEq, Repr

/-- The end of a start or a resume: a run that cannot be persisted is stopped. -/
def persistStarted (session : SessionId) (project : ProjectId) : Program Unit := do
  if ← perform (.persist session project .structured) then perform (.respond session project)
  else perform (.stopRun session project)

def fakeSessionStart (project : ProjectId) : Program Unit := do
  match ← perform (.primaryRoot project) with
  | none => pure ()
  | some cwd =>
    let session ← perform (.createSession project)
    if ← perform (.launchRun session project cwd) then persistStarted session project
    else perform (.removeSession session)

def fakeSessionResume (session : SessionId) (project : ProjectId) : Program Unit := do
  if ← perform (.findSession session) then
    match ← perform (.primaryRoot project) with
    | none => pure ()
    | some cwd =>
      if ← perform (.launchRun session project cwd) then persistStarted session project
      else pure ()
  else pure ()

def fakeTuiStart (project : ProjectId) : Program Unit := do
  match ← perform (.primaryRoot project) with
  | none => pure ()
  | some cwd =>
    let session ← perform (.newSessionId project)
    match ← perform (.openTerminal session project cwd) with
    | none => pure ()
    | some terminal =>
      if ← perform (.persist session project .ptyTui) then
        perform (.insertTui session terminal)
        perform (.respond session project)
      else perform (.closeTerminal session project terminal)

def requireSessionOwnership (session : SessionId) (project : ProjectId) (mode : IntegrationMode) :
    Program Bool := do
  match ← perform (.metadata session) with
  | some (some row) => pure (row.1 == project && row.2 == mode)
  | _ => pure false

def sessionTerminalAttach (session : SessionId) (project : ProjectId) : Program Unit := do
  match ← perform (.primaryRoot project) with
  | none => pure ()
  | some _ =>
    if ← requireSessionOwnership session project .ptyTui then
      match ← perform (.tuiSession session) with
      | none => pure ()
      | some terminal =>
        if ← perform (.attachTui session project terminal) then perform (.respond session project)
        else pure ()
    else pure ()

def sessionStructuredAttach (session : SessionId) (project : ProjectId) : Program Unit := do
  match ← perform (.primaryRoot project) with
  | none => pure ()
  | some _ =>
    if ← requireSessionOwnership session project .structured then
      if ← perform (.attachActive session project) then perform (.respond session project)
      else pure ()
    else pure ()

def handle : Request → Program Unit
  | .fakeSessionStart project => fakeSessionStart project
  | .fakeSessionResume session project => fakeSessionResume session project
  | .fakeTuiStart project => fakeTuiStart project
  | .sessionTerminalAttach session project => sessionTerminalAttach session project
  | .sessionStructuredAttach session project => sessionStructuredAttach session project

def body (request : Request) : Program (Option Request) := do
  handle request
  pure none

/-- A project is registered, and registered again with other roots; a run or a terminal ends. -/
inductive Outside where
  | register (project : ProjectId) (root : Root)
  | runEnded (session : SessionId)
  | tuiEnded (session : SessionId)
  deriving DecidableEq, Repr

def outside : Outside → Daemon → Option Daemon
  | .register project root, m => some { m with registered := m.registered ++ [(project, root)] }
  | .runEnded session, m =>
    if m.active session = some true then some { m with active := set m.active session (some false) }
    else none
  | .tuiEnded session, m => some { m with tuiSessions := set m.tuiSessions session none }

abbrev machine : Machine actions where
  Memory := Daemon
  Entry := Request
  Choice := Choice
  Outside := Outside
  body := body
  apply := apply
  spawns _ := none
  callable _ := true
  outside := outside

/-- A daemon that has just started over the rows of its earlier lives. -/
def initially (rows : List (SessionId × ProjectId × IntegrationMode)) : Config machine :=
  ⟨{ registered := []
     active := fun _ => none
     rows := fun session => (rows.find? fun row => row.1 == session).map (·.2)
     tuiSessions := fun _ => none
     terminals := fun _ => none
     next := (rows.map (·.1 + 1)).foldl max 0
     origin := fun _ => none
     effects := [] }, []⟩

/-- The session and the project of a request as it goes on: `owner` as started for it,
`root` as registered, `checked` as persisted. -/
structure Standing where
  request : Request
  owner : Option (SessionId × ProjectId)
  root : Option (ProjectId × Root)
  checked : Option (SessionId × ProjectId)

namespace Standing

def may (q : Standing) : Act → Prop
  | .findSession session => ∃ project, q.request = .fakeSessionResume session project
  | .launchRun session project cwd | .openTerminal session project cwd =>
    q.owner = some (session, project) ∧ q.root = some (project, cwd)
  | .persist session project _ | .stopRun session project | .closeTerminal session project _ =>
    q.owner = some (session, project)
  | .attachTui session project _ | .attachActive session project =>
    q.checked = some (session, project)
  | .respond session project =>
    q.owner = some (session, project) ∨ q.checked = some (session, project)
  | _ => True

def after (q : Standing) : (o : Act) → o.Answer → Standing
  | .primaryRoot project, some root => { q with root := some (project, root) }
  | .createSession project, session | .newSessionId project, session =>
    { q with owner := some (session, project) }
  | .findSession session, true =>
    match q.request with
    | .fakeSessionResume _ project => { q with owner := some (session, project) }
    | _ => q
  | .metadata session, some (some row) => { q with checked := some (session, row.1) }
  | _, _ => q

end Standing

abbrev standings : Protocol machine where
  Place := Standing
  enter request := ⟨request, none, none, none⟩
  may := Standing.may
  after := Standing.after
  ends _ := True

section Follows
variable {q : Standing} {session : SessionId} {project : ProjectId}

theorem persistFollows (owns : q.owner = some (session, project)) :
    standings.Follows (fun _ _ => True) q (persistStarted session project) := by
  refine followsStep owns fun persisted => ?_
  cases persisted with
  | true => exact followsStep (.inl owns) fun _ => trivial
  | false => exact followsStep owns fun _ => trivial

theorem startFollows (project : ProjectId) :
    standings.Follows (fun _ _ => True) q (fakeSessionStart project) := by
  refine followsStep trivial fun root => ?_
  cases root with
  | none => trivial
  | some cwd =>
    refine followsStep trivial fun session => followsStep ⟨rfl, rfl⟩ fun launched => ?_
    cases launched with
    | true => exact persistFollows rfl
    | false => exact followsStep trivial fun _ => trivial

theorem resumeFollows (named : q.request = .fakeSessionResume session project) :
    standings.Follows (fun _ _ => True) q (fakeSessionResume session project) := by
  refine followsStep ⟨project, named⟩ fun found => ?_
  cases found with
  | false => trivial
  | true =>
    have owns : (q.after (.findSession session) true).owner = some (session, project) := by
      simp only [Standing.after, named]
    refine followsStep trivial fun root => ?_
    cases root with
    | none => trivial
    | some cwd =>
      refine followsStep ⟨owns, rfl⟩ fun launched => ?_
      cases launched with
      | true => exact persistFollows owns
      | false => trivial

theorem tuiFollows (project : ProjectId) :
    standings.Follows (fun _ _ => True) q (fakeTuiStart project) := by
  refine followsStep trivial fun root => ?_
  cases root with
  | none => trivial
  | some cwd =>
    refine followsStep trivial fun session => followsStep ⟨rfl, rfl⟩ fun terminal => ?_
    cases terminal with
    | none => trivial
    | some terminal =>
      refine followsStep rfl fun persisted => ?_
      cases persisted with
      | true => exact followsStep trivial fun _ => followsStep (.inl rfl) fun _ => trivial
      | false => exact followsStep rfl fun _ => trivial

theorem ownershipFollows (session : SessionId) (project : ProjectId) (mode : IntegrationMode) :
    standings.Follows (fun owned q => owned = true → q.checked = some (session, project)) q
      (requireSessionOwnership session project mode) := by
  refine followsStep trivial fun metadata => ?_
  match metadata with
  | none => exact nofun
  | some none => exact nofun
  | some (some row) =>
    intro owned
    have same : row.1 = project := beq_iff_eq.mp (Bool.and_eq_true_iff.mp owned).1
    exact congrArg (fun owner => some (session, owner)) same

theorem terminalAttachFollows (session : SessionId) (project : ProjectId) :
    standings.Follows (fun _ _ => True) q (sessionTerminalAttach session project) := by
  refine followsStep trivial fun root => ?_
  cases root with
  | none => trivial
  | some cwd =>
    refine followsSeq (ownershipFollows session project .ptyTui) fun owned q checked => ?_
    cases owned with
    | false => trivial
    | true =>
      refine followsStep trivial fun terminal => ?_
      cases terminal with
      | none => trivial
      | some terminal =>
        refine followsStep (checked rfl) fun attached => ?_
        cases attached with
        | true => exact followsStep (.inr (checked rfl)) fun _ => trivial
        | false => trivial

theorem structuredAttachFollows (session : SessionId) (project : ProjectId) :
    standings.Follows (fun _ _ => True) q (sessionStructuredAttach session project) := by
  refine followsStep trivial fun root => ?_
  cases root with
  | none => trivial
  | some cwd =>
    refine followsSeq (ownershipFollows session project .structured) fun owned q checked => ?_
    cases owned with
    | false => trivial
    | true =>
      refine followsStep (checked rfl) fun attached => ?_
      cases attached with
      | true => exact followsStep (.inr (checked rfl)) fun _ => trivial
      | false => trivial

end Follows

theorem standingsSound : standings.Sound := by
  intro request
  have handled : standings.Follows (fun _ _ => True) (standings.enter request) (handle request) := by
    cases request with
    | fakeSessionStart project => exact startFollows project
    | fakeSessionResume session project => exact resumeFollows rfl
    | fakeTuiStart project => exact tuiFollows project
    | sessionTerminalAttach session project => exact terminalAttachFollows session project
    | sessionStructuredAttach session project => exact structuredAttachFollows session project
  exact followsSeq handled fun _ _ _ => trivial

/-- A resume names the project its session was started for, where the table has the session. -/
def resumes (c : Config machine) : Event machine → Bool
  | .run index _ =>
    match c.tasks[index]? with
    | none => true
    | some t =>
      match t.next, t.entry with
      | some (.findSession _), .fakeSessionResume session project =>
        c.memory.active session == none || c.memory.origin session == some project
      | _, _ => true
  | _ => true

abbrev Resumes (c : Config machine) (e : Event machine) : Prop := resumes c e = true

def Own (q : Standing) (o : Act) (m : Daemon) : Prop :=
  ∀ session project, o = .findSession session → q.request = .fakeSessionResume session project →
    m.active session = none ∨ m.origin session = some project

def Belongs (m : Daemon) (effect : Effect) : Prop :=
  m.origin effect.session = some effect.project ∨
    ∃ mode, m.rows effect.session = some (effect.project, mode)

structure Owned (m : Daemon) : Prop where
  fresh : ∀ session, m.next ≤ session → m.origin session = none ∧ m.rows session = none
  rows : ∀ session project owner mode, m.rows session = some (project, mode) →
    m.origin session = some owner → project = owner
  effects : ∀ effect ∈ m.effects, Belongs m effect
  launched : ∀ session project cwd, .launched session project cwd ∈ m.effects →
    (project, cwd) ∈ m.registered ∧ m.origin session = some project

structure Knows (q : Standing) (m : Daemon) : Prop where
  owner : ∀ session project, q.owner = some (session, project) → m.origin session = some project
  root : ∀ entry, q.root = some entry → entry ∈ m.registered
  checked : ∀ session project, q.checked = some (session, project) →
    ∃ mode, m.rows session = some (project, mode)

abbrev owning : Outline standings where
  Inv := Owned
  Here := Knows
  Apart _ _ := True

structure Grows (m m' : Daemon) : Prop where
  origin : ∀ session project, m.origin session = some project → m'.origin session = some project
  rows : ∀ session row, m.rows session = some row → m'.rows session = some row
  registered : ∀ entry ∈ m.registered, entry ∈ m'.registered

section Steps
variable {m m' : Daemon} {q q' : Standing} {session : SessionId} {project : ProjectId}

theorem knowsGrows (knows : Knows q m) (grows : Grows m m') : Knows q m' where
  owner := fun session project mine => grows.origin session project (knows.owner session project mine)
  root := fun entry mine => grows.registered entry (knows.root entry mine)
  checked := fun session project mine =>
    (knows.checked session project mine).imp fun _ row => grows.rows session _ row

theorem belongsGrows {effect : Effect} (belongs : Belongs m effect) (grows : Grows m m') :
    Belongs m' effect :=
  belongs.imp (grows.origin _ _) fun ⟨mode, row⟩ => ⟨mode, grows.rows _ _ row⟩

theorem keptGrows (inv : Owned m') (here : Knows q' m') (grows : Grows m m') :
    owning.Kept m m' q q' none where
  inv := inv
  here := here
  entered := nofun
  others := fun _ theirs _ => ⟨knowsGrows theirs grows, trivial, nofun⟩

theorem growsSame (registered : m'.registered = m.registered) (rows : m'.rows = m.rows)
    (origin : m'.origin = m.origin) : Grows m m' := by
  refine ⟨?_, ?_, ?_⟩
  · rw [origin]
    exact fun _ _ same => same
  · rw [rows]
    exact fun _ _ same => same
  · rw [registered]
    exact fun _ same => same

theorem keptStill (inv : Owned m) (here : Knows q' m) : owning.Kept m m q q' none :=
  keptGrows inv here (growsSame rfl rfl rfl)

theorem ownedSame (inv : Owned m) (registered : m'.registered = m.registered)
    (rows : m'.rows = m.rows) (origin : m'.origin = m.origin) (effects : m'.effects = m.effects)
    (next : m.next ≤ m'.next) : Owned m' := by
  refine ⟨fun session later => ?_, ?_, ?_, ?_⟩
  · rw [origin, rows]
    exact inv.fresh session (Nat.le_trans next later)
  · rw [rows, origin]
    exact inv.rows
  · intro effect member
    rw [effects] at member
    exact belongsGrows (inv.effects effect member) (growsSame registered rows origin)
  · rw [effects, registered, origin]
    exact inv.launched

theorem knowsSame (knows : Knows q m) (registered : m'.registered = m.registered)
    (rows : m'.rows = m.rows) (origin : m'.origin = m.origin) : Knows q m' :=
  knowsGrows knows (growsSame registered rows origin)

theorem ownedRecord {effect : Effect} (inv : Owned m) (belongs : Belongs m effect)
    (launched : ∀ session project cwd, effect = .launched session project cwd →
      (project, cwd) ∈ m.registered ∧ m.origin session = some project) : Owned (m.record effect) where
  fresh := inv.fresh
  rows := inv.rows
  effects := fun other member => by
    rcases List.mem_append.mp member with old | new
    · exact inv.effects other old
    · cases List.mem_singleton.mp new
      exact belongs
  launched := fun session project cwd member => by
    rcases List.mem_append.mp member with old | new
    · exact inv.launched session project cwd old
    · exact launched session project cwd (List.mem_singleton.mp new).symm

theorem keptRecord {effect : Effect} (inv : Owned m') (here : Knows q' m) (belongs : Belongs m effect)
    (launched : ∀ session project cwd, effect = .launched session project cwd →
      (project, cwd) ∈ m.registered ∧ m.origin session = some project)
    (registered : m'.registered = m.registered) (rows : m'.rows = m.rows)
    (origin : m'.origin = m.origin) : owning.Kept m (m'.record effect) q q' none := by
  have grows : Grows m m' := growsSame registered rows origin
  refine keptGrows (ownedRecord inv (belongsGrows belongs grows) fun session project cwd same => ?_)
    (knowsSame here registered rows origin) (growsSame registered rows origin)
  obtain ⟨there, known⟩ := launched session project cwd same
  exact ⟨grows.registered _ there, grows.origin _ _ known⟩

theorem ownedCreate (inv : Owned m) (active : SessionId → Option Bool) (project : ProjectId) :
    Owned { m with active := active, origin := set m.origin m.next (some project), next := m.next + 1 } ∧
      Grows m { m with active := active, origin := set m.origin m.next (some project), next := m.next + 1 } := by
  have fresh := inv.fresh m.next (Nat.le_refl _)
  have grows : Grows m { m with
      active := active, origin := set m.origin m.next (some project), next := m.next + 1 } := by
    refine ⟨fun session owner known => ?_, fun _ _ same => same, fun _ same => same⟩
    have other : session ≠ m.next := fun same => by rw [same, fresh.1] at known; cases known
    exact (if_neg other).trans known
  refine ⟨⟨fun session later => ?_, fun session owner origin mode row known => ?_,
    fun effect member => belongsGrows (inv.effects effect member) grows,
    fun session owner cwd member => ?_⟩, grows⟩
  · have other : session ≠ m.next := Nat.ne_of_gt later
    obtain ⟨unknown, norow⟩ := inv.fresh session (Nat.le_of_succ_le later)
    exact ⟨(if_neg other).trans unknown, norow⟩
  · have other : session ≠ m.next := fun same => by rw [same, fresh.2] at row; cases row
    exact inv.rows session owner origin mode row ((if_neg other).symm.trans known)
  · obtain ⟨root, known⟩ := inv.launched session owner cwd member
    exact ⟨root, grows.origin session owner known⟩

theorem ownedUpsert (inv : Owned m) (known : m.origin session = some project) (mode : IntegrationMode) :
    Owned (m.upsert session project mode) ∧ Grows m (m.upsert session project mode) := by
  unfold Daemon.upsert
  cases row : m.rows session with
  | some _ => exact ⟨inv, growsSame rfl rfl rfl⟩
  | none =>
    have grows : Grows m { m with rows := set m.rows session (some (project, mode)) } := by
      refine ⟨fun _ _ same => same, fun other entry there => ?_, fun _ same => same⟩
      have different : other ≠ session := fun same => by rw [same, row] at there; cases there
      exact (if_neg different).trans there
    refine ⟨⟨fun other later => ?_, fun other owner origin mode' there known' => ?_,
      fun effect member => belongsGrows (inv.effects effect member) grows, inv.launched⟩, grows⟩
    · obtain ⟨unknown, norow⟩ := inv.fresh other later
      have different : other ≠ session := fun same => by rw [same, known] at unknown; cases unknown
      exact ⟨unknown, (if_neg different).trans norow⟩
    · by_cases same : other = session
      · subst same
        have written : (project, mode) = (owner, mode') := Option.some.inj ((if_pos rfl).symm.trans there)
        have owns : project = origin := Option.some.inj (known.symm.trans known')
        exact (congrArg Prod.fst written).symm.trans owns
      · exact inv.rows other owner origin mode' ((if_neg same).symm.trans there) known'

theorem owningAct {o : Act} {choice : Choice} {answer : o.Answer} (inv : Owned m) (here : Knows q m)
    (may : q.may o) (own : Own q o m) (applied : apply o choice m = some (answer, m')) :
    owning.Kept m m' q (q.after o answer) none := by
  cases o
  case primaryRoot project =>
    cases Option.some.inj applied
    cases root : m.primaryRoot project with
    | none => exact keptStill inv here
    | some cwd =>
      refine keptStill inv ⟨here.owner, fun entry same => ?_, here.checked⟩
      cases Option.some.inj same
      obtain ⟨entry, found, rfl⟩ := Option.map_eq_some_iff.mp root
      have named : (entry.1 == project) = true := @List.find?_some _ (fun e : ProjectId × Root => e.1 == project) _ _ found
      rw [← beq_iff_eq.mp named]
      exact List.mem_reverse.mp (List.mem_of_find?_eq_some found)
  case createSession project =>
    cases Option.some.inj applied
    obtain ⟨owned, grows⟩ := ownedCreate inv (set m.active m.next (some false)) project
    refine keptGrows owned ⟨fun session owner same => ?_, here.root, here.checked⟩ grows
    cases Option.some.inj same
    exact if_pos rfl
  case newSessionId project =>
    cases Option.some.inj applied
    obtain ⟨owned, grows⟩ := ownedCreate inv m.active project
    refine keptGrows owned ⟨fun session owner same => ?_, here.root, here.checked⟩ grows
    cases Option.some.inj same
    exact if_pos rfl
  case findSession session =>
    cases Option.some.inj applied
    obtain ⟨project, named⟩ := may
    cases present : m.active session with
    | none => exact keptStill inv here
    | some running =>
      have known := (own session project rfl named).resolve_left (by rw [present]; exact nofun)
      have place : q.after (.findSession session) true = { q with owner := some (session, project) } := by
        simp only [Standing.after, named]
      change owning.Kept m m q (q.after (.findSession session) true) none
      rw [place]
      refine keptStill inv ⟨fun other owner same => ?_, here.root, here.checked⟩
      cases Option.some.inj same
      exact known
  case launchRun session project cwd =>
    obtain ⟨owner, root⟩ := may
    cases choice with
    | fails =>
      cases Option.some.inj applied
      exact keptStill inv here
    | ok =>
      simp only [apply] at applied
      split at applied
      · cases Option.some.inj applied
        have known := here.owner session project owner
        have owned : Owned { m with active := set m.active session (some true) } :=
          ownedSame inv rfl rfl rfl rfl (Nat.le_refl _)
        refine keptRecord owned here (.inl known) (fun _ _ _ same => ?_) rfl rfl rfl
        cases same
        exact ⟨here.root _ root, known⟩
      · cases Option.some.inj applied
        exact keptStill inv here
  case removeSession session =>
    cases Option.some.inj applied
    exact keptGrows (ownedSame inv rfl rfl rfl rfl (Nat.le_refl _)) (knowsSame here rfl rfl rfl)
      (growsSame rfl rfl rfl)
  case persist session project mode =>
    cases choice with
    | fails =>
      cases Option.some.inj applied
      exact keptStill inv here
    | ok =>
      cases Option.some.inj applied
      obtain ⟨owned, grows⟩ := ownedUpsert inv (here.owner session project may) mode
      exact keptGrows owned (knowsGrows here grows) grows
  case stopRun session project =>
    cases Option.some.inj applied
    exact keptRecord inv here (.inl (here.owner session project may)) nofun rfl rfl rfl
  case openTerminal session project cwd =>
    obtain ⟨owner, root⟩ := may
    cases choice with
    | fails =>
      cases Option.some.inj applied
      exact keptStill inv here
    | ok =>
      cases Option.some.inj applied
      have known := here.owner session project owner
      have owned : Owned { m with
          terminals := set m.terminals m.next (some project), next := m.next + 1 } :=
        ownedSame inv rfl rfl rfl rfl (Nat.le_succ _)
      refine keptRecord owned here (.inl known) (fun _ _ _ same => ?_) rfl rfl rfl
      cases same
      exact ⟨here.root _ root, known⟩
  case closeTerminal session project terminal =>
    cases Option.some.inj applied
    have owned : Owned { m with terminals := set m.terminals terminal none } :=
      ownedSame inv rfl rfl rfl rfl (Nat.le_refl _)
    exact keptRecord owned here (.inl (here.owner session project may)) nofun rfl rfl rfl
  case insertTui session terminal =>
    cases Option.some.inj applied
    exact keptGrows (ownedSame inv rfl rfl rfl rfl (Nat.le_refl _)) (knowsSame here rfl rfl rfl)
      (growsSame rfl rfl rfl)
  case metadata session =>
    cases choice with
    | fails =>
      cases Option.some.inj applied
      exact keptStill inv here
    | ok =>
      cases Option.some.inj applied
      cases row : m.rows session with
      | none => exact keptStill inv here
      | some entry =>
        refine keptStill inv ⟨here.owner, here.root, fun other owner same => ?_⟩
        cases Option.some.inj same
        exact ⟨entry.2, row⟩
  case tuiSession session =>
    cases Option.some.inj applied
    exact keptStill inv here
  case attachTui session project terminal =>
    simp only [apply] at applied
    split at applied
    · cases Option.some.inj applied
      exact keptRecord inv here (.inr (here.checked session project may)) nofun rfl rfl rfl
    · cases Option.some.inj applied
      exact keptStill inv here
  case attachActive session project =>
    simp only [apply] at applied
    split at applied
    · cases Option.some.inj applied
      exact keptRecord inv here (.inr (here.checked session project may)) nofun rfl rfl rfl
    · cases Option.some.inj applied
      exact keptStill inv here
  case respond session project =>
    cases Option.some.inj applied
    have belongs : Belongs m (.responded session project) := by
      cases may with
      | inl owner => exact .inl (here.owner session project owner)
      | inr checked => exact .inr (here.checked session project checked)
    exact keptRecord inv here belongs nofun rfl rfl rfl

theorem owningValid : owning.Valid Own where
  symm := fun _ => trivial
  call := fun _ _ => ⟨⟨nofun, nofun, nofun⟩, fun _ _ => trivial⟩
  act := fun inv here may own applied => owningAct inv here may own applied
  outside := fun {x m m'} inv happened => by
    cases x with
    | register project root =>
      cases Option.some.inj happened
      have grows : Grows m { m with registered := m.registered ++ [(project, root)] } :=
        ⟨fun _ _ same => same, fun _ _ same => same, fun _ same => List.mem_append_left _ same⟩
      refine ⟨⟨inv.fresh, inv.rows, inv.effects, fun session owner cwd member => ?_⟩,
        fun q knows => knowsGrows knows grows⟩
      obtain ⟨there, known⟩ := inv.launched session owner cwd member
      exact ⟨List.mem_append_left _ there, known⟩
    | runEnded session =>
      simp only [outside] at happened
      split at happened
      · cases Option.some.inj happened
        exact ⟨ownedSame inv rfl rfl rfl rfl (Nat.le_refl _), fun q knows => knowsSame knows rfl rfl rfl⟩
      · cases happened
    | tuiEnded session =>
      cases Option.some.inj happened
      exact ⟨ownedSame inv rfl rfl rfl rfl (Nat.le_refl _), fun q knows => knowsSame knows rfl rfl rfl⟩

end Steps

theorem maxBound (rows : List (SessionId × ProjectId × IntegrationMode)) (first : Nat) :
    first ≤ (rows.map (·.1 + 1)).foldl max first ∧
      ∀ row ∈ rows, row.1 < (rows.map (·.1 + 1)).foldl max first := by
  induction rows generalizing first with
  | nil => exact ⟨Nat.le_refl _, nofun⟩
  | cons row rows ih =>
    obtain ⟨above, bounds⟩ := ih (max first (row.1 + 1))
    refine ⟨Nat.le_trans (Nat.le_max_left _ _) above, fun other member => ?_⟩
    rcases List.mem_cons.mp member with same | later
    · rw [same]
      exact Nat.lt_of_lt_of_le (Nat.lt_of_succ_le (Nat.le_max_right _ _)) above
    · exact bounds other later

theorem initiallyOwned (rows : List (SessionId × ProjectId × IntegrationMode)) :
    owning.Holds (initially rows) := by
  refine Outline.holdsEmpty ⟨fun session later => ⟨rfl, ?_⟩, nofun, nofun, nofun⟩
  refine Option.map_eq_none_iff.mpr (List.find?_eq_none.mpr fun row member same => ?_)
  have below : row.1 < _ := (maxBound rows 0).2 row member
  rw [beq_iff_eq.mp same] at below
  exact absurd below (Nat.not_lt_of_le later)

@[simp] theorem afterRequest (q : Standing) (o : Act) (answer : o.Answer) :
    (q.after o answer).request = q.request := by
  unfold Standing.after
  split <;> first | rfl | (split <;> rfl)

theorem placeRequest (t : Task machine) : (standings.place t).request = t.entry := by
  have kept : ∀ (past : Past actions) (q : Standing),
      (past.foldl (fun q done => q.after done.1 done.2) q).request = q.request := by
    intro past
    induction past with
    | nil => exact fun _ => rfl
    | cons done past ih => exact fun q => (ih _).trans (afterRequest q done.1 done.2)
  exact kept t.past _

theorem ownHere {c : Config machine} {index choice t o answer memory next}
    (good : Resumes c (.run index choice)) (performs : Performs c index choice t o answer memory next) :
    Own (standings.place t) o c.memory := by
  intro session project same named
  subst same
  have entry : t.entry = .fakeSessionResume session project := (placeRequest t).symm.trans named
  simp only [Resumes, resumes, performs.present, performsNext performs, entry, Bool.or_eq_true,
    beq_iff_eq] at good
  exact good

/-- A run is launched in a primary root of the project its session is persisted under, and
whatever a request did to a persisted session it did for the project of that session. -/
structure Confined (m : Daemon) : Prop where
  launched : ∀ session project cwd owner mode, .launched session project cwd ∈ m.effects →
    m.rows session = some (owner, mode) → (owner, cwd) ∈ m.registered
  denied : ∀ effect ∈ m.effects, ∀ owner mode, m.rows effect.session = some (owner, mode) →
    effect.project = owner

theorem ownedConfined {m : Daemon} (inv : Owned m) : Confined m where
  launched := fun session project cwd owner mode member row => by
    obtain ⟨there, known⟩ := inv.launched session project cwd member
    rw [inv.rows session owner project mode row known]
    exact there
  denied := fun effect member owner mode row => by
    cases inv.effects effect member with
    | inl known => exact (inv.rows effect.session owner effect.project mode row known).symm
    | inr persisted =>
      obtain ⟨mode', row'⟩ := persisted
      exact congrArg Prod.fst (Option.some.inj (row'.symm.trans row))

theorem sessionsConfined {rows : List (SessionId × ProjectId × IntegrationMode)} {c : Config machine}
    (reached : Reach Resumes (initially rows) c) : Confined c.memory :=
  ownedConfined (Outline.reachHolds standingsSound owningValid (initiallyOwned rows)
    (fun _ _ good performs => ownHere good performs) reached).inv

def turnsOf (index count : Nat) : List (Event machine) := List.replicate count (.run index .ok)

def resumed (project : ProjectId) : List (Event machine) :=
  [.outside (.register 1 "/work/one"), .outside (.register 2 "/work/two"),
    .call (.fakeSessionStart 1)] ++ turnsOf 0 5 ++
    [.outside (.runEnded 0), .call (.fakeSessionResume 0 project)] ++ turnsOf 1 5

def effectsOf (c : Config machine) : List Effect × Option (ProjectId × IntegrationMode) :=
  (c.memory.effects, c.memory.rows 0)

theorem resumedElsewhere : (runFrom (initially []) (resumed 2)).map effectsOf =
    some ([.launched 0 1 "/work/one", .responded 0 1, .launched 0 2 "/work/two", .responded 0 2],
      some (1, .structured)) := by
  decide

theorem resumedUnconfined :
    ¬ ∀ (rows : List (SessionId × ProjectId × IntegrationMode)) (c : Config machine),
      Reach Always (initially rows) c → Confined c.memory := by
  intro confined
  obtain ⟨c, ran, seen⟩ := Option.map_eq_some_iff.mp resumedElsewhere
  have effects : c.memory.effects = _ := congrArg Prod.fst seen
  have row : c.memory.rows 0 = some (1, .structured) := congrArg Prod.snd seen
  have member : .launched 0 2 "/work/two" ∈ c.memory.effects := by
    rw [effects]
    exact .tail _ (.tail _ (.head _))
  have kept := (confined [] c (reachRun .start (fun _ _ => trivial) ran)).denied _ member 1 _ row
  cases kept

theorem resumedAtHome : (goodRun Resumes (initially []) (resumed 1)).map effectsOf =
    some ([.launched 0 1 "/work/one", .responded 0 1, .launched 0 1 "/work/one", .responded 0 1],
      some (1, .structured)) := by
  decide

theorem sessionsConfinedResumed : ∃ c : Config machine,
    .launched 0 1 "/work/one" ∈ c.memory.effects ∧ Confined c.memory := by
  obtain ⟨c, ran, seen⟩ := Option.map_eq_some_iff.mp resumedAtHome
  have effects : c.memory.effects = _ := congrArg Prod.fst seen
  exact ⟨c, effects ▸ .head _, sessionsConfined (reachGoodRun .start ran)⟩

end Maestro.Confinement
