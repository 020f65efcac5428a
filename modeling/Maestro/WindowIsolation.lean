import Maestro.WindowGrants

/-! What the commands of one window do to the grants of another. -/
namespace Maestro.WindowIsolation
open Stepping WindowGrants DesktopHostState

variable {Id : Type} [DecidableEq Id]

/-- The checks of a command, one after the other. -/
def authorizes (h : DesktopHostState Id) (label : String) (command : Command Id) : Bool :=
  match command.check h label with
  | .ok (.resolves project _) => h.holdsProject label project
  | .ok _ => true
  | .error _ => false

/-- Commands that list, start, attach, read and write. -/
def gentle : Command Id → Bool
  | .sessionStop _ | .terminalClose _ | .openProject => false
  | _ => true

def Own (first : String) (_ : Desktop Id) : Event Id → Prop
  | .invoke label command => label = first ∧ gentle command = true
  | .destroyed _ => False
  | _ => True

instance (first : String) (d : Desktop Id) : (event : Event Id) → Decidable (Own first d event)
  | .invoke label command => inferInstanceAs (Decidable (label = first ∧ gentle command = true))
  | .destroyed _ => isFalse id
  | .check _ | .respond _ _ | .perform _ _ => isTrue trivial

def idle (h : DesktopHostState Id) : Desktop Id := ⟨h, [], []⟩

def Denies (second : String) (h : DesktopHostState Id) : Section Id → Prop
  | .insertTui sessionId _ _ | .registerSession sessionId _ => h.authorizeSession sessionId second = .error .sessionGrant
  | .unregisterTerminal terminalId => h.authorizeTerminal terminalId second = .error .terminalGrant
  | _ => True

/-- The session that is registered, or the terminal that is dropped, is none of the other window's. -/
def Spares (second : String) (d : Desktop Id) : Event Id → Prop
  | .perform index _ => ∀ label first, d.upcoming index = some (label, first) → Denies second d.host first
  | _ => True

instance (second : String) (h : DesktopHostState Id) : (performed : Section Id) → Decidable (Denies second h performed)
  | .insertTui sessionId _ _ | .registerSession sessionId _ =>
    inferInstanceAs (Decidable (h.authorizeSession sessionId second = .error .sessionGrant))
  | .unregisterTerminal terminalId =>
    inferInstanceAs (Decidable (h.authorizeTerminal terminalId second = .error .terminalGrant))
  | .grantProject _ _ | .retainTerminals _ | .retainSessions _ | .registerTerminal _ _ _ | .registerTui _ _ _
  | .unregisterTerminalProcess _ | .unregisterSession _ | .revokeTerminals | .revokeSessions => isTrue trivial

instance (second : String) (d : Desktop Id) : (event : Event Id) → Decidable (Spares second d event)
  | .perform index _ =>
    decidable_of_iff ((d.upcoming index).all (fun next => decide (Denies second d.host next.2)) = true)
      ((Option.all_eq_true _ _).trans ⟨fun all label first there => of_decide_eq_true (all (label, first) there),
        fun all next there => decide_eq_true (all next.1 next.2 there)⟩)
  | .invoke _ _ | .check _ | .respond _ _ | .destroyed _ => isTrue trivial

/-- The other window's grants stay, or it loses one of its sessions or terminals. -/
structure Shrinks (second : String) (h h' : DesktopHostState Id) : Prop where
  projects : h'.projects = h.projects
  sessions : ∀ id, h'.authorizeSession id second = h.authorizeSession id second ∨
    h'.authorizeSession id second = .error .sessionGrant
  terminals : ∀ id, h'.authorizeTerminal id second = h.authorizeTerminal id second ∨
    h'.authorizeTerminal id second = .error .terminalGrant

structure Same (second : String) (h h' : DesktopHostState Id) : Prop where
  projects : h'.projects = h.projects
  sessions : ∀ id, h'.authorizeSession id second = h.authorizeSession id second
  terminals : ∀ id, h'.authorizeTerminal id second = h.authorizeTerminal id second

section Authority
variable {second : String} {h h' h'' : DesktopHostState Id}

omit [DecidableEq Id] in
theorem Same.shrinks (same : Same second h h') : Shrinks second h h' :=
  ⟨same.projects, fun id => .inl (same.sessions id), fun id => .inl (same.terminals id)⟩

theorem authorizesSession {command : Command Id} {id : Id} (denied : h.authorizeSession id second = .error .sessionGrant)
    (about : (∃ project, command = .fakeSessionAttach project id ∨ command = .fakeSessionResume project id) ∨
      command = .fakeTuiAttach id ∨ command = .session id ∨ command = .sessionStop id) :
    authorizes h second command = false := by
  rcases about with ⟨project, rfl | rfl⟩ | rfl | rfl | rfl <;> simp only [authorizes, Command.check, denied] <;> rfl

theorem authorizesTerminal {command : Command Id} {id : Id}
    (denied : h.authorizeTerminal id second = .error .terminalGrant)
    (about : (∃ project, command = .terminalAttach project id) ∨ command = .terminal id ∨ command = .terminalClose id) :
    authorizes h second command = false := by
  rcases about with ⟨project, rfl⟩ | rfl | rfl <;> simp only [authorizes, Command.check, denied] <;> rfl

omit [DecidableEq Id] in
theorem projectsSame (projects : h'.projects = h.projects) (label : String) (id : Id) :
    h'.resolveProject id label = h.resolveProject id label ∧ h'.holdsProject label id = h.holdsProject label id := by
  simp only [resolveProject, holdsProject, projects, and_self]

theorem authorizesShrinks (shrinks : Shrinks second h h') (command : Command Id) :
    authorizes h' second command = authorizes h second command ∨ authorizes h' second command = false := by
  have projects (id : Id) := (projectsSame shrinks.projects second id).1
  have holds (id : Id) := (projectsSame shrinks.projects second id).2
  cases command with
  | fakeSessionStart _ | fakeTuiStart _ | sessionList _ | terminalOpen _ | terminalList _ | project _ =>
    left
    simp only [authorizes, Command.check, projects, holds]
  | openProject => exact .inl rfl
  | fakeTuiAttach id | session id | sessionStop id | fakeSessionAttach _ id | fakeSessionResume _ id =>
    rcases shrinks.sessions id with same | denied
    · left
      simp only [authorizes, Command.check, same, holds]
    · exact .inr (authorizesSession denied (by simp))
  | terminalAttach _ id | terminal id | terminalClose id =>
    rcases shrinks.terminals id with same | denied
    · left
      simp only [authorizes, Command.check, same, holds]
    · exact .inr (authorizesTerminal denied (by simp))

theorem authorizesSame (same : Same second h h') (command : Command Id) :
    authorizes h' second command = authorizes h second command := by
  have resolves (id : Id) := (projectsSame same.projects second id).1
  have holds (id : Id) := (projectsSame same.projects second id).2
  cases command <;>
    simp only [authorizes, Command.check, resolves, holds, same.sessions, same.terminals]

end Authority

section Sections
variable {Grant : Type} {first second : String} {h h' : DesktopHostState Id}

omit [DecidableEq Id] in
theorem ownedOther {windowLabel : Grant → String} {denied : Denied} {grant : Grant} (other : windowLabel grant ≠ second) :
    owned windowLabel denied second (some grant) = .error denied :=
  if_neg other

omit [DecidableEq Id] in
theorem ownedRetain {windowLabel : Grant → String} {denied : Denied} {keep : Grant → Bool} {map : Id → Option Grant}
    (keeps : ∀ grant, windowLabel grant = second → keep grant = true) (id : Id) :
    owned windowLabel denied second (retain keep map id) = owned windowLabel denied second (map id) := by
  rw [retain]
  cases map id with
  | none => rfl
  | some grant =>
    by_cases mine : windowLabel grant = second
    · rw [Option.filter_some_pos (keeps grant mine)]
    · rw [ownedOther mine, Option.filter_some]
      split
      · exact ownedOther mine
      · rfl

theorem ownedUpdate {windowLabel : Grant → String} {denied : Denied} {map : Id → Option Grant} {key : Id}
    {value : Option Grant} (other : owned windowLabel denied second value = .error denied)
    (before : owned windowLabel denied second (map key) = .error denied) (id : Id) :
    owned windowLabel denied second (Function.update map key value id) = owned windowLabel denied second (map id) := by
  by_cases same : id = key
  · rw [same, Function.update_self, other, before]
  · rw [Function.update_of_ne same]

theorem ownedUpdateAt {windowLabel : Grant → String} {denied : Denied} {map : Id → Option Grant} {key : Id}
    {value : Option Grant} (other : owned windowLabel denied second value = .error denied) :
    owned windowLabel denied second (Function.update map key value key) = .error denied := by
  rw [Function.update_self, other]

theorem registerTerminalSame (apart : first ≠ second) {candidate terminal project : Id} {discoveryOnly : Bool}
    (ran : h.registerTerminal candidate terminal project first discoveryOnly = some h') : Same second h h' := by
  simp only [registerTerminal] at ran
  split at ran
  · rename_i fresh
    cases Option.some.inj ran
    refine ⟨rfl, fun _ => rfl, fun id => (ownedUpdate (ownedOther apart) ?_ id).trans (ownedRetain ?_ id)⟩
    · rw [fresh.2]
      rfl
    · intro grant mine
      exact if_pos (.inl (mine ▸ apart.symm))
  · cases ran

theorem insertSession (apart : first ≠ second) (grant : SessionGrant Id) (mine : grant.windowLabel = first)
    (sessionId : Id) :
    (h.authorizeSession sessionId second = .error .sessionGrant →
      Same second h { h with sessions := Function.update h.sessions sessionId (some grant) }) ∧
    Shrinks second h { h with sessions := Function.update h.sessions sessionId (some grant) } ∧
    ({ h with sessions := Function.update h.sessions sessionId (some grant) } :
      DesktopHostState Id).authorizeSession sessionId second = .error .sessionGrant := by
  have other : owned (·.windowLabel) .sessionGrant second (some grant) = .error .sessionGrant :=
    ownedOther (mine ▸ apart)
  refine ⟨fun denied => ⟨rfl, ownedUpdate other denied, fun _ => rfl⟩, ⟨rfl, fun id => ?_, fun _ => .inl rfl⟩,
    ownedUpdateAt other⟩
  by_cases same : id = sessionId
  · subst same
    exact .inr (ownedUpdateAt other)
  · left
    simp only [authorizeSession, Function.update_of_ne same]

theorem dropTerminal (terminalId : Id) :
    (h.authorizeTerminal terminalId second = .error .terminalGrant → Same second h (h.unregisterTerminal terminalId)) ∧
    Shrinks second h (h.unregisterTerminal terminalId) ∧
    (h.unregisterTerminal terminalId).authorizeTerminal terminalId second = .error .terminalGrant := by
  refine ⟨fun denied => ⟨rfl, fun _ => rfl, ownedUpdate rfl denied⟩, ⟨rfl, fun _ => .inl rfl, fun id => ?_⟩,
    ownedUpdateAt rfl⟩
  by_cases same : id = terminalId
  · subst same
    exact .inr (ownedUpdateAt rfl)
  · left
    simp only [authorizeTerminal, unregisterTerminal, Function.update_of_ne same]

def gentleSection : Section Id → Bool
  | .registerTerminal _ _ _ | .registerTui _ _ _ | .insertTui _ _ _ | .registerSession _ _ | .unregisterTerminal _ => true
  | _ => false

/-- What a section of a gentle command leaves: everything if it spares the other window. -/
structure Leaves (second : String) (h h' : DesktopHostState Id) (performed : Section Id) : Prop where
  shrinks : Shrinks second h h'
  spares : Denies second h performed → Same second h h'
  takes : ¬ Denies second h performed → ∃ command, authorizes h second command = true ∧ authorizes h' second command = false

theorem Leaves.ofSame {performed : Section Id} (same : Same second h h') (spares : Denies second h performed) :
    Leaves second h h' performed :=
  ⟨same.shrinks, fun _ => same, fun denies => absurd spares denies⟩

omit [DecidableEq Id] in
theorem ownedHeld {windowLabel : Grant → String} {denied : Denied} {found : Option Grant}
    (held : owned windowLabel denied second found ≠ .error denied) : ∃ grant, owned windowLabel denied second found = .ok grant := by
  cases found with
  | none => exact absurd rfl held
  | some grant =>
    by_cases mine : windowLabel grant = second
    · exact ⟨grant, if_pos mine⟩
    · exact absurd (ownedOther mine) held

theorem takesSession {sessionId : Id} (held : h.authorizeSession sessionId second ≠ .error .sessionGrant)
    (lost : h'.authorizeSession sessionId second = .error .sessionGrant) :
    ∃ command, authorizes h second command = true ∧ authorizes h' second command = false := by
  obtain ⟨grant, ok⟩ := ownedHeld held
  refine ⟨.session sessionId, ?_, authorizesSession lost (by simp)⟩
  simp only [authorizes, Command.check, authorizeSession, ok]
  rfl

theorem takesTerminal {terminalId : Id} (held : h.authorizeTerminal terminalId second ≠ .error .terminalGrant)
    (lost : h'.authorizeTerminal terminalId second = .error .terminalGrant) :
    ∃ command, authorizes h second command = true ∧ authorizes h' second command = false := by
  obtain ⟨grant, ok⟩ := ownedHeld held
  refine ⟨.terminal terminalId, ?_, authorizesTerminal lost (by simp)⟩
  simp only [authorizes, Command.check, authorizeTerminal, ok]
  rfl

theorem performLeaves (apart : first ≠ second) {candidate : Id} {performed : Section Id} {next : List (Section Id)}
    (gentle : gentleSection performed = true) (ran : h.perform first candidate performed = some (h', next)) :
    Leaves second h h' performed ∧ ∀ s ∈ next, gentleSection s = true := by
  cases performed with
  | registerTerminal _ _ _ =>
    obtain ⟨next', registered, same⟩ := Option.map_eq_some_iff.mp ran
    cases same
    exact ⟨.ofSame (registerTerminalSame apart registered) trivial, fun _ member => nomatch member⟩
  | registerTui _ _ _ =>
    obtain ⟨next', registered, same⟩ := Option.map_eq_some_iff.mp ran
    cases same
    refine ⟨.ofSame (registerTerminalSame apart registered) trivial, fun s member => ?_⟩
    cases List.mem_singleton.mp member
    rfl
  | insertTui sessionId terminalGrant projectGrant =>
    cases Option.some.inj ran
    obtain ⟨spares, shrinks, lost⟩ := insertSession (h := h) apart ⟨projectGrant, some terminalGrant, first⟩ rfl sessionId
    refine ⟨⟨shrinks, spares, fun held => takesSession held lost⟩, fun s member => ?_⟩
    obtain ⟨terminal, _, rfl⟩ := List.mem_map.mp member
    rfl
  | registerSession sessionId projectGrant =>
    cases Option.some.inj ran
    obtain ⟨spares, shrinks, lost⟩ := insertSession (h := h) apart ⟨projectGrant, _, first⟩ rfl sessionId
    exact ⟨⟨shrinks, spares, fun held => takesSession held lost⟩, fun _ member => nomatch member⟩
  | unregisterTerminal terminalId =>
    cases Option.some.inj ran
    obtain ⟨spares, shrinks, lost⟩ := @dropTerminal Id _ second h terminalId
    exact ⟨⟨shrinks, spares, fun held => takesTerminal held lost⟩, fun _ member => nomatch member⟩
  | _ => cases gentle

end Sections

def gentleRequest : Request Id → Bool
  | .stopSession _ | .terminalClose _ | .projectRegister => false
  | _ => true

def gentleStage : Stage Id → Bool
  | .begins command => gentle command
  | .resolves _ request | .awaits request => gentleRequest request
  | .runs sections => sections.all gentleSection

/-- Only commands of the one window are under way. -/
def Mine (first : String) (d : Desktop Id) : Prop :=
  ∀ task ∈ d.tasks, task.label = first ∧ gentleStage task.stage = true

section Steps
variable {first second : String} {d d' : Desktop Id}

theorem checkGentle {h : DesktopHostState Id} {label : String} {command : Command Id} {stage : Stage Id}
    (allowed : gentle command = true) (checks : command.check h label = .ok stage) : gentleStage stage = true := by
  have mapped {Grant : Type} {found : Except Denied Grant} {f : Grant → Stage Id} (checks : found.map f = .ok stage)
      (all : ∀ grant, gentleStage (f grant) = true) : gentleStage stage = true := by
    cases found with
    | error denied => cases checks
    | ok grant =>
      cases checks
      exact all grant
  have bound {Grant : Type} {found : Except Denied Grant} {p : Grant → Prop} [DecidablePred p] {denied : Denied}
      {f : Grant → Stage Id}
      (checks : found.bind (fun grant => if p grant then .error denied else .ok (f grant)) = .ok stage)
      (all : ∀ grant, gentleStage (f grant) = true) : gentleStage stage = true := by
    cases found with
    | error denied => cases checks
    | ok grant =>
      by_cases refused : p grant
      · cases (if_pos refused).symm.trans checks
      · cases (if_neg refused).symm.trans checks
        exact all grant
  cases command with
  | sessionStop _ | terminalClose _ | openProject => cases allowed
  | fakeSessionAttach _ _ | fakeSessionResume _ _ | terminalAttach _ _ => exact bound checks fun _ => rfl
  | _ => exact mapped checks fun _ => rfl

theorem answeredGentle {request : Request Id} (allowed : gentleRequest request = true) (response : Response Id) :
    (request.answered response).all gentleSection = true := by
  refine List.all_eq_true.mpr fun performed member => ?_
  simp only [Request.answered] at member
  split at member <;> try split at member
  all_goals first
    | exact absurd allowed Bool.false_ne_true
    | exact absurd member List.not_mem_nil
    | (cases List.mem_singleton.mp member; rfl)
    | (obtain ⟨entry, _, rfl⟩ := List.mem_map.mp member; rfl)

omit [DecidableEq Id] in
theorem mineSet (mine : Mine first d) {index : Nat} {task : Invocation Id} (found : d.tasks[index]? = some task)
    {stage : Stage Id} (allowed : gentleStage stage = true) :
    ∀ task' ∈ d.tasks.set index ⟨task.label, stage⟩, task'.label = first ∧ gentleStage task'.stage = true := by
  intro task' member
  rcases List.mem_or_eq_of_mem_set member with earlier | rfl
  · exact mine task' earlier
  · exact ⟨(mine task (List.mem_of_getElem? found)).1, allowed⟩

omit [DecidableEq Id] in
theorem Same.refl (second : String) (h : DesktopHostState Id) : Same second h h := ⟨rfl, fun _ => rfl, fun _ => rfl⟩

/-- A step of the one window leaves the other's authority as it is exactly when it spares it. -/
structure Steps (second : String) (d : Desktop Id) (event : Event Id) (d' : Desktop Id) : Prop where
  shrinks : Shrinks second d.host d'.host
  spares : Spares second d event → Same second d.host d'.host
  takes : ¬ Spares second d event →
    ∃ command, authorizes d.host second command = true ∧ authorizes d'.host second command = false

theorem stepsWaiting {event : Event Id} (host : d'.host = d.host) (spares : Spares second d event) :
    Steps second d event d' :=
  ⟨host ▸ (Same.refl second d.host).shrinks, fun _ => host ▸ .refl second d.host, fun takes => absurd spares takes⟩

theorem stepMine (apart : first ≠ second) (mine : Mine first d) {event : Event Id} (own : Own first d event)
    (steps : step d event = some d') : Mine first d' ∧ Steps second d event d' := by
  cases event with
  | destroyed label => cases own
  | invoke label command =>
    cases Option.some.inj steps
    refine ⟨fun task member => ?_, stepsWaiting rfl trivial⟩
    rcases List.mem_append.mp member with earlier | last
    · exact mine task earlier
    · cases List.mem_singleton.mp last
      exact own
  | check index =>
    simp only [step] at steps
    split at steps
    · cases steps
    · rename_i task found
      have here := mine task (List.mem_of_getElem? found)
      split at steps
      · cases steps
      · cases Option.some.inj steps
        exact ⟨fun task' member => mine task' (List.mem_of_mem_eraseIdx member), stepsWaiting rfl trivial⟩
      · rename_i stage checks
        cases Option.some.inj steps
        refine ⟨mineSet mine found ?_, stepsWaiting rfl trivial⟩
        cases before : task.stage with
        | begins command =>
          rw [before] at checks here
          exact checkGentle here.2 (Option.some.inj checks)
        | resolves project request =>
          rw [before] at checks here
          cases resolved : d.host.resolveProject project task.label with
          | error denied => cases (resolved ▸ Option.some.inj checks : Except.map _ (Except.error denied) = _)
          | ok grant =>
            simp only [Stage.check, resolved, Except.map] at checks
            cases checks
            exact here.2
        | awaits _ | runs _ =>
          rw [before] at checks
          cases checks
  | respond index response =>
    simp only [step] at steps
    split at steps
    · rename_i label request found
      cases Option.some.inj steps
      have here := mine _ (List.mem_of_getElem? found)
      exact ⟨mineSet mine found (answeredGentle here.2 response), stepsWaiting rfl trivial⟩
    · cases steps
  | perform index candidate =>
    simp only [step] at steps
    split at steps
    · rename_i label performed rest found
      obtain ⟨⟨host, next⟩, ran, same⟩ := Option.map_eq_some_iff.mp steps
      cases same
      obtain ⟨rfl, allowed⟩ := mine _ (List.mem_of_getElem? found)
      obtain ⟨gentle, gentleRest⟩ := Bool.and_eq_true_iff.mp allowed
      obtain ⟨leaves, gentleNext⟩ := performLeaves apart gentle ran
      have upcoming : d.upcoming index = some (label, performed) := by
        rw [Desktop.upcoming, found]
        rfl
      have spares : Spares second d (.perform index candidate) ↔ Denies second d.host performed := by
        refine ⟨fun all => all _ performed upcoming, fun denies label' first' there => ?_⟩
        cases upcoming.symm.trans there
        exact denies
      refine ⟨mineSet mine found ?_, leaves.shrinks, fun all => leaves.spares (spares.mp all),
        fun takes => leaves.takes fun denies => takes (spares.mpr denies)⟩
      exact List.all_append.trans (Bool.and_eq_true_iff.mpr ⟨List.all_eq_true.mpr gentleNext, gentleRest⟩)
    · cases steps

end Steps

section Runs
variable {first second : String} {h h' h'' : DesktopHostState Id} {d : Desktop Id}

omit [DecidableEq Id] in
theorem Shrinks.trans (one : Shrinks second h h') (two : Shrinks second h' h'') : Shrinks second h h'' where
  projects := two.projects.trans one.projects
  sessions id := by
    rcases two.sessions id with same | lost
    · rw [same]
      exact one.sessions id
    · exact .inr lost
  terminals id := by
    rcases two.terminals id with same | lost
    · rw [same]
      exact one.terminals id
    · exact .inr lost

omit [DecidableEq Id] in
theorem Same.trans (one : Same second h h') (two : Same second h' h'') : Same second h h'' :=
  ⟨two.projects.trans one.projects, fun id => (two.sessions id).trans (one.sessions id),
    fun id => (two.terminals id).trans (one.terminals id)⟩

theorem reachMine (apart : first ≠ second) (reached : Reach step (Own first) (idle h) d) :
    Mine first d ∧ Shrinks second h d.host :=
  @reachInvariant _ _ step (Own first) (idle h) d (fun d => Mine first d ∧ Shrinks second h d.host) reached
    ⟨(fun _ member => nomatch member), (Same.refl second h).shrinks⟩ fun before own steps =>
      have after := stepMine apart before.1 own steps
      ⟨after.1, before.2.trans after.2.shrinks⟩

theorem sparingSame (apart : first ≠ second)
    (reached : Reach step (fun d event => Own first d event ∧ Spares second d event) (idle h) d) :
    Mine first d ∧ Same second h d.host :=
  @reachInvariant _ _ step _ (idle h) d (fun d => Mine first d ∧ Same second h d.host) reached
    ⟨(fun _ member => nomatch member), .refl second h⟩ fun before may steps =>
      have after := stepMine apart before.1 may.1 steps
      ⟨after.1, before.2.trans (after.2.spares may.2)⟩

/-- Whatever one window lists, starts and attaches, another is authorised for the same commands as
before if and only if each step spares it. -/
theorem windowIsolation (apart : first ≠ second) (reached : Reach step (Own first) (idle h) d) :
    (∀ command, authorizes d.host second command = authorizes h second command) ↔
      Reach step (fun d event => Own first d event ∧ Spares second d event) (idle h) d := by
  refine ⟨fun same => ?_, fun sparing => authorizesSame (sparingSame apart sparing).2⟩
  induction reached with
  | start => exact .start
  | @step before after event reached own steps ih =>
    obtain ⟨mine, shrinks⟩ := reachMine apart reached
    have done := (stepMine apart mine own steps).2
    by_cases spares : Spares second before event
    · refine .step event (ih fun command => ?_) ⟨own, spares⟩ steps
      exact (authorizesSame (done.spares spares) command).symm.trans (same command)
    · -- a command that the other window has lost was its own at the start, and stays lost
      obtain ⟨command, could, cannot⟩ := done.takes spares
      have earlier : authorizes h second command = true := by
        rcases authorizesShrinks shrinks command with kept | lost
        · exact kept.symm.trans could
        · cases lost.symm.trans could
      cases (cannot.symm.trans (same command)).trans earlier

end Runs

/-- Both windows open the project 1, and the second one starts the session 5. -/
def shared : List (Event Nat) :=
  [.invoke "a" .openProject, .check 0, .respond 0 (.projectRegistered 1 ["/a"]), .perform 0 10, .perform 0 0, .perform 0 0,
    .invoke "b" .openProject, .check 1, .respond 1 (.projectRegistered 1 ["/a"]), .perform 1 20, .perform 1 0, .perform 1 0,
    .invoke "b" (.fakeSessionStart 20), .check 2, .respond 2 (.session 5), .perform 2 0]

/-- The first window lists the sessions of the project. -/
def lists : List (Event Nat) :=
  [.invoke "a" (.sessionList 10), .check 0, .respond 0 (.sessionList [(5, 1)]), .perform 0 0]

theorem listsRun : ((run step (fun _ _ => True) started shared).bind fun d =>
    (run step (Own "a") (idle d.host) lists).map fun d' =>
      (authorizes d.host "b" (.session 5), authorizes d'.host "b" (.session 5))) = some (true, false) := by
  decide +kernel

/-- The session is the first window's now, and the second is denied it. -/
theorem listTakesSession : ¬ ∀ (first second : String) (c d : Desktop Nat), first ≠ second →
    Reach step (fun _ _ => True) started c → Reach step (Own first) (idle c.host) d →
      ∀ command, authorizes d.host second command = authorizes c.host second command := by
  intro same
  obtain ⟨c, ran, later⟩ := Option.bind_eq_some_iff.mp listsRun
  obtain ⟨d, ran', seen⟩ := Option.map_eq_some_iff.mp later
  obtain ⟨could, cannot⟩ := Prod.mk.inj seen
  have equal := same "a" "b" c d (by decide) (reachRun .start ran) (reachRun .start ran') (.session 5)
  cases (cannot.symm.trans equal).trans could

/-- The first window starts a session of its own. -/
def starts : List (Event Nat) :=
  [.invoke "a" (.fakeSessionStart 10), .check 0, .respond 0 (.session 6), .perform 0 0]

theorem startsRun : ((run step (fun _ _ => True) started shared).bind fun d =>
    (run step (fun d event => Own "a" d event ∧ Spares "b" d event) (idle d.host) starts).map fun d' =>
      (authorizes d.host "b" (.session 5), authorizes d'.host "a" (.session 6))) = some (true, true) := by
  decide +kernel

theorem windowIsolationStarts : ∃ c d : Desktop Nat, authorizes c.host "b" (.session 5) = true ∧
    authorizes d.host "a" (.session 6) = true ∧
      ∀ command, authorizes d.host "b" command = authorizes c.host "b" command := by
  obtain ⟨c, ran, later⟩ := Option.bind_eq_some_iff.mp startsRun
  obtain ⟨d, ran', seen⟩ := Option.map_eq_some_iff.mp later
  obtain ⟨could, own⟩ := Prod.mk.inj seen
  have sparing := reachRun .start ran'
  exact ⟨c, d, could, own,
    (windowIsolation (by decide) (reachMono (fun _ _ may => may.1) sparing)).mpr sparing⟩

end Maestro.WindowIsolation
