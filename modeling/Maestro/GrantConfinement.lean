import Maestro.Entries
import Maestro.WindowGrants

/-! Each session and terminal grant of a window belongs to a project grant that the window holds. -/
namespace Maestro.GrantConfinement
open Entries Stepping WindowGrants DesktopHostState

variable {Id : Type}

inductive Kind where | session | terminal
  deriving DecidableEq

/-- The project grant that a grant refers to, and the window that holds it. -/
def Kind.granted (h : DesktopHostState Id) : Kind → Id → Option (Id × String)
  | .session, id => (h.sessions id).map fun grant => (grant.projectGrant, grant.windowLabel)
  | .terminal, id => (h.terminals id).map fun grant => (grant.projectGrant, grant.windowLabel)

def drops (kind : Kind) (label : String) (project : Id) (holder : String) : Section Id → Bool
  | .retainSessions replaced => kind = .session ∧ replaced project
  | .retainTerminals replaced => kind = .terminal ∧ replaced project
  | .revokeSessions => kind = .session ∧ holder = label
  | .revokeTerminals => kind = .terminal ∧ holder = label
  | _ => false

def makes : Section Id → Option (Kind × Id)
  | .registerTerminal _ project _ | .registerTui _ _ project => some (.terminal, project)
  | .insertTui _ _ project | .registerSession _ project => some (.session, project)
  | _ => none

def grants : Section Id → Bool
  | .grantProject _ _ => true
  | _ => false

def sections (task : Invocation Id) : List (Section Id) :=
  match task.stage with
  | .runs sections => sections
  | _ => []

/-- A switch or a close that runs has still to remove the grant. -/
def due (tasks : List (Invocation Id)) (kind : Kind) (project : Id) (holder : String) : Bool :=
  tasks.any fun task => (sections task).any (drops kind task.label project holder)

def kept (d : Desktop Id) (kind : Kind) (project : Id) (holder : String) : Bool :=
  d.host.holdsProject holder project || due d.tasks kind project holder

def sound (d : Desktop Id) (label : String) (first : Section Id) : Bool :=
  ((makes first).all fun made => kept d made.1 made.2 label) && (!grants first || label ∉ d.destroyed)

/-- A session or a terminal is registered while the window holds the project grant that was
checked, and a project while the window is there. -/
def Held (d : Desktop Id) : Event Id → Prop
  | .perform index _ => (d.upcoming index).all (fun next => sound d next.1 next.2) = true
  | _ => True

instance (d : Desktop Id) : (event : Event Id) → Decidable (Held d event)
  | .perform index _ =>
    inferInstanceAs (Decidable ((d.upcoming index).all (fun next => sound d next.1 next.2) = true))
  | .invoke _ _ | .check _ | .respond _ _ | .destroyed _ => isTrue trivial

structure Confined (d : Desktop Id) : Prop where
  grants : ∀ kind id project holder, kind.granted d.host id = some (project, holder) →
    kept d kind project holder = true
  closed : ∀ label ∈ d.destroyed, ∀ project, d.host.holdsProject label project = false

section Sections
variable {h h' : DesktopHostState Id} {label : String} {candidate : Id} {first : Section Id}
variable {next : List (Section Id)} {Grant : Type}

theorem retained {keep : Grant → Bool} {map : Id → Option Grant} {f : Grant → Id × String} {id : Id} {found : Id × String}
    (there : (retain keep map id).map f = some found) :
    (map id).map f = some found ∧ ∃ grant, f grant = found ∧ keep grant = true := by
  obtain ⟨grant, here, same⟩ := Option.map_eq_some_iff.mp there
  obtain ⟨before, kept⟩ := Option.filter_eq_some_iff.mp here
  exact ⟨Option.map_eq_some_iff.mpr ⟨grant, before, same⟩, grant, same, kept⟩

theorem updated [DecidableEq Id] {map : Id → Option Grant} {f : Grant → Id × String} {key id : Id}
    {value : Option Grant} {found : Id × String} (there : (Function.update map key value id).map f = some found) :
    (map id).map f = some found ∨ value.map f = some found := by
  by_cases same : id = key
  · rw [same, Function.update_self] at there
    exact .inr there
  · rw [Function.update_of_ne same] at there
    exact .inl there

variable [DecidableEq Id]

theorem registerTerminalGranted {terminal project : Id} {discoveryOnly : Bool}
    (ran : h.registerTerminal candidate terminal project label discoveryOnly = some h') :
    h'.projects = h.projects ∧ h'.sessions = h.sessions ∧ ∀ id found,
      Kind.terminal.granted h' id = some found → Kind.terminal.granted h id = some found ∨ found = (project, label) := by
  simp only [DesktopHostState.registerTerminal] at ran
  split at ran
  · cases Option.some.inj ran
    refine ⟨rfl, rfl, fun id found there => ?_⟩
    rcases updated there with before | new
    · exact .inl (retained before).1
    · exact .inr (Option.some.inj new).symm
  · cases ran

theorem grantProjectTables {projectId : Id} {canonicalPath : String}
    (ran : h.grantProject candidate projectId canonicalPath label = some h') :
    h'.sessions = h.sessions ∧ h'.terminals = h.terminals ∧ h'.projects =
      Function.update (retain (·.windowLabel != label) h.projects) candidate (some ⟨canonicalPath, projectId, label⟩) ∧
      retain (·.windowLabel != label) h.projects candidate = none := by
  simp only [DesktopHostState.grantProject] at ran
  split at ran
  · rename_i fresh
    cases Option.some.inj ran
    exact ⟨rfl, rfl, rfl, fresh.2⟩
  · cases ran

omit [DecidableEq Id] in
theorem grantedSame (sessions : h'.sessions = h.sessions) (terminals : h'.terminals = h.terminals) (kind : Kind) (id : Id) :
    kind.granted h' id = kind.granted h id := by
  cases kind with
  | session => simp only [Kind.granted, sessions]
  | terminal => simp only [Kind.granted, terminals]

theorem performGranted (ran : h.perform label candidate first = some (h', next)) {kind : Kind} {id project : Id}
    {holder : String} (there : kind.granted h' id = some (project, holder)) :
    (kind.granted h id = some (project, holder) ∧ drops kind label project holder first = false) ∨
      (makes first = some (kind, project) ∧ holder = label) := by
  cases first with
  | grantProject projectId canonicalPath =>
    obtain ⟨next', granted, same⟩ := Option.map_eq_some_iff.mp ran
    cases same
    obtain ⟨sessions, terminals, _⟩ := grantProjectTables granted
    exact .inl ⟨grantedSame sessions terminals kind id ▸ there, rfl⟩
  | retainTerminals _ | revokeTerminals =>
    cases Option.some.inj ran
    cases kind with
    | session => exact .inl ⟨there, rfl⟩
    | terminal =>
      obtain ⟨before, grant, same, kept⟩ := retained there
      cases same
      exact .inl ⟨before, by simpa [drops] using kept⟩
  | retainSessions _ | revokeSessions =>
    cases Option.some.inj ran
    cases kind with
    | terminal => exact .inl ⟨there, rfl⟩
    | session =>
      obtain ⟨before, grant, same, kept⟩ := retained there
      cases same
      exact .inl ⟨before, by simpa [drops] using kept⟩
  | registerTerminal _ _ _ | registerTui _ _ _ =>
    obtain ⟨next', registered, same⟩ := Option.map_eq_some_iff.mp ran
    cases same
    obtain ⟨_, sessions, terminals⟩ := registerTerminalGranted registered
    cases kind with
    | session => exact .inl ⟨by rwa [Kind.granted, sessions] at there, rfl⟩
    | terminal =>
      rcases terminals id _ there with before | new
      · exact .inl ⟨before, rfl⟩
      · cases new
        exact .inr ⟨rfl, rfl⟩
  | insertTui _ _ _ | registerSession _ _ =>
    cases Option.some.inj ran
    cases kind with
    | terminal => exact .inl ⟨there, rfl⟩
    | session =>
      rcases updated there with before | new
      · exact .inl ⟨before, rfl⟩
      · cases new
        exact .inr ⟨rfl, rfl⟩
  | unregisterTerminal _ =>
    cases Option.some.inj ran
    cases kind with
    | session => exact .inl ⟨there, rfl⟩
    | terminal =>
      rcases updated there with before | new
      · exact .inl ⟨before, rfl⟩
      · cases new
  | unregisterTerminalProcess _ =>
    cases Option.some.inj ran
    cases kind with
    | session => exact .inl ⟨there, rfl⟩
    | terminal => exact .inl ⟨(retained there).1, rfl⟩
  | unregisterSession _ =>
    cases Option.some.inj ran
    cases kind with
    | terminal => exact .inl ⟨there, rfl⟩
    | session =>
      rcases updated there with before | new
      · exact .inl ⟨before, rfl⟩
      · cases new

theorem performMakes (ran : h.perform label candidate first = some (h', next)) {kind : Kind} {project : Id}
    (made : makes first = some (kind, project)) : ∃ id, kind.granted h' id = some (project, label) := by
  have registers {terminal projectGrant : Id} {discoveryOnly : Bool}
      (ran : h.registerTerminal candidate terminal projectGrant label discoveryOnly = some h') :
      Kind.terminal.granted h' candidate = some (projectGrant, label) := by
    simp only [DesktopHostState.registerTerminal] at ran
    split at ran
    · cases Option.some.inj ran
      simp only [Kind.granted, Function.update_self, Option.map_some]
    · cases ran
  cases first with
  | registerTerminal _ _ _ | registerTui _ _ _ =>
    obtain ⟨next', registered, same⟩ := Option.map_eq_some_iff.mp ran
    cases same
    cases made
    exact ⟨candidate, registers registered⟩
  | insertTui session _ _ | registerSession session _ =>
    cases Option.some.inj ran
    cases made
    exact ⟨session, by
      simp only [Kind.granted, DesktopHostState.registerSession, Function.update_self, Option.map_some]⟩
  | _ => cases made

theorem performProjects (ran : h.perform label candidate first = some (h', next)) (other : grants first = false) :
    h'.projects = h.projects := by
  cases first with
  | grantProject _ _ => cases other
  | registerTerminal _ _ _ | registerTui _ _ _ =>
    obtain ⟨next', registered, same⟩ := Option.map_eq_some_iff.mp ran
    cases same
    exact (registerTerminalGranted registered).1
  | _ =>
    cases Option.some.inj ran
    rfl

theorem grantHolds (ran : h.perform label candidate first = some (h', next)) (granting : grants first = true)
    {holder : String} {project : Id} (held : h.holdsProject holder project = true) :
    h'.holdsProject holder project = true ∨ ∀ kind, next.any (drops kind label project holder) = true := by
  cases first with
  | grantProject projectId canonicalPath =>
    obtain ⟨next', granted, same⟩ := Option.map_eq_some_iff.mp ran
    cases same
    by_cases mine : holder = label
    · refine .inr fun kind => ?_
      subst mine
      cases kind with
      | session | terminal => simp [drops, held]
    · obtain ⟨grant, here, rfl⟩ := holdsProjectIff.mp held
      have stays : retain (·.windowLabel != label) h.projects project = some grant :=
        Option.filter_eq_some_iff.mpr ⟨here, bne_iff_ne.mpr mine⟩
      obtain ⟨_, _, projects, fresh⟩ := grantProjectTables granted
      have apart : project ≠ candidate := by
        rintro rfl
        cases stays.symm.trans fresh
      refine .inl (holdsProjectIff.mpr ⟨grant, ?_, rfl⟩)
      rw [projects, Function.update_of_ne apart, stays]
  | _ => cases granting

theorem grantOwner (ran : h.perform label candidate first = some (h', next)) (granting : grants first = true) :
    h'.holdsProject label candidate = true ∧ ∀ holder project, h'.holdsProject holder project = true →
      h.holdsProject holder project = true ∨ holder = label := by
  cases first with
  | grantProject projectId canonicalPath =>
    obtain ⟨next', granted, same⟩ := Option.map_eq_some_iff.mp ran
    cases same
    obtain ⟨_, _, projects, _⟩ := grantProjectTables granted
    refine ⟨holdsProjectIff.mpr ⟨_, by rw [projects, Function.update_self], rfl⟩, fun holder project held => ?_⟩
    obtain ⟨grant, here, rfl⟩ := holdsProjectIff.mp held
    rw [projects] at here
    by_cases same : project = candidate
    · rw [same, Function.update_self] at here
      exact .inr (Option.some.inj here ▸ rfl)
    · rw [Function.update_of_ne same] at here
      exact .inl (holdsProjectIff.mpr ⟨grant, (Option.filter_eq_some_iff.mp here).1, rfl⟩)
  | _ => cases granting

theorem makesQuiet (ran : h.perform label candidate first = some (h', next)) {made : Kind × Id}
    (makes : makes first = some made) (kind : Kind) (project : Id) (holder : String) :
    next.any (drops kind label project holder) = false ∧ drops kind label project holder first = false := by
  cases first with
  | registerTerminal _ _ _ | registerTui _ _ _ =>
    obtain ⟨next', registered, same⟩ := Option.map_eq_some_iff.mp ran
    cases same
    exact ⟨rfl, rfl⟩
  | insertTui _ _ _ =>
    cases Option.some.inj ran
    refine ⟨List.any_eq_false.mpr fun unregisters member => ?_, rfl⟩
    obtain ⟨terminal, _, rfl⟩ := List.mem_map.mp member
    exact Bool.false_ne_true
  | registerSession _ _ =>
    cases Option.some.inj ran
    exact ⟨rfl, rfl⟩
  | _ => cases makes

end Sections

section Steps
variable {d d' : Desktop Id}

theorem waitingConfined (confined : Confined d) (host : d'.host = d.host) (destroyed : d'.destroyed = d.destroyed)
    (more : ∀ kind project holder, due d.tasks kind project holder = true → due d'.tasks kind project holder = true) :
    Confined d' where
  grants kind id project holder there := by
    rw [host] at there
    rcases Bool.or_eq_true_iff.mp (confined.grants kind id project holder there) with held | later
    · rw [kept, host, held, Bool.true_or]
    · rw [kept, more kind project holder later, Bool.or_true]
  closed label gone := host ▸ confined.closed label (destroyed ▸ gone)

variable [DecidableEq Id]

section Perform
variable {index : Nat} {label : String} {first : Section Id} {rest next : List (Section Id)} {candidate : Id}
variable {host : DesktopHostState Id}

omit [DecidableEq Id] in
theorem dueBefore (found : d.tasks[index]? = some ⟨label, .runs (first :: rest)⟩) (kind : Kind) (project : Id)
    (holder : String) : due d.tasks kind project holder =
      ((drops kind label project holder first || rest.any (drops kind label project holder)) ||
        due (d.tasks.eraseIdx index) kind project holder) :=
  anyAt found _

omit [DecidableEq Id] in
theorem dueAfter (found : d.tasks[index]? = some ⟨label, .runs (first :: rest)⟩) (kind : Kind) (project : Id)
    (holder : String) : due (d.tasks.set index ⟨label, .runs (next ++ rest)⟩) kind project holder =
      ((next.any (drops kind label project holder) || rest.any (drops kind label project holder)) ||
        due (d.tasks.eraseIdx index) kind project holder) := by
  rw [← List.any_append]
  exact anySet found _ _

theorem keptOn (found : d.tasks[index]? = some ⟨label, .runs (first :: rest)⟩)
    (ran : d.host.perform label candidate first = some (host, next)) {kind : Kind} {project : Id} {holder : String}
    (quiet : drops kind label project holder first = false) (before : kept d kind project holder = true) :
    kept { d with host, tasks := d.tasks.set index ⟨label, .runs (next ++ rest)⟩ } kind project holder = true := by
  rw [kept, dueAfter found, Bool.or_eq_true_iff]
  rcases Bool.or_eq_true_iff.mp before with held | later
  · cases granting : grants first with
    | false =>
      left
      rwa [holdsProject, performProjects ran granting]
    | true =>
      rcases grantHolds ran granting held with held' | removes
      · exact .inl held'
      · right
        rw [removes kind, Bool.true_or, Bool.true_or]
  · right
    rw [dueBefore found, quiet, Bool.false_or] at later
    rcases Bool.or_eq_true_iff.mp later with here | there
    · rw [here, Bool.or_true, Bool.true_or]
    · rw [there, Bool.or_true]

omit [DecidableEq Id] in
theorem makesGrantsNot {made : Kind × Id} (makes : makes first = some made) : grants first = false := by
  cases first with
  | grantProject _ _ => cases makes
  | _ => rfl

theorem performConfined (confined : Confined d) (found : d.tasks[index]? = some ⟨label, .runs (first :: rest)⟩)
    (ran : d.host.perform label candidate first = some (host, next)) :
    Confined { d with host, tasks := d.tasks.set index ⟨label, .runs (next ++ rest)⟩ } ↔ sound d label first = true := by
  refine ⟨fun confined' => Bool.and_eq_true_iff.mpr
    ⟨(Option.all_eq_true _ _).mpr fun made makes => ?_, ?_⟩, fun isSound => ?_⟩
  · -- the grant it makes is there behind it, and nothing new removes it
    obtain ⟨id, there⟩ := performMakes ran makes
    have kept' := confined'.grants made.1 id made.2 label there
    obtain ⟨quiet, _⟩ := makesQuiet ran makes made.1 made.2 label
    rw [kept, holdsProject, performProjects ran (makesGrantsNot makes), ← holdsProject, dueAfter found, quiet,
      Bool.false_or] at kept'
    rw [kept, dueBefore found]
    rcases Bool.or_eq_true_iff.mp kept' with held | later
    · rw [held, Bool.true_or]
    · rcases Bool.or_eq_true_iff.mp later with here | there
      · rw [here, Bool.or_true, Bool.true_or, Bool.or_true]
      · rw [there, Bool.or_true, Bool.or_true]
  · cases granting : grants first with
    | false => rfl
    | true =>
      refine decide_eq_true fun gone => ?_
      cases (grantOwner ran granting).1.symm.trans (confined'.closed label gone candidate)
  · obtain ⟨making, granting⟩ := Bool.and_eq_true_iff.mp isSound
    refine ⟨fun kind id project holder there => ?_, fun label' gone project => ?_⟩
    · rcases performGranted ran there with ⟨before, quiet⟩ | ⟨made, rfl⟩
      · exact keptOn found ran quiet (confined.grants kind id project holder before)
      · rw [made] at making
        exact keptOn found ran (makesQuiet ran made kind project holder).2 making
    · refine Bool.eq_false_iff.mpr fun held => ?_
      cases grants' : grants first with
      | false =>
        rw [holdsProject, performProjects ran grants', ← holdsProject, confined.closed label' gone project] at held
        cases held
      | true =>
        rcases (grantOwner ran grants').2 label' project held with before | rfl
        · cases before.symm.trans (confined.closed label' gone project)
        · rw [grants'] at granting
          exact of_decide_eq_true granting gone

end Perform

omit [DecidableEq Id] in
theorem dueStays {index : Nat} {task : Invocation Id} (found : d.tasks[index]? = some task) (waits : sections task = [])
    {kind : Kind} {project : Id} {holder : String} (before : due d.tasks kind project holder = true) :
    due (d.tasks.eraseIdx index) kind project holder = true := by
  rw [due, anyAt found, waits] at before
  exact before

omit [DecidableEq Id] in
theorem dueSet {index : Nat} {task new : Invocation Id} (found : d.tasks[index]? = some task)
    (waits : sections task = []) {kind : Kind} {project : Id} {holder : String}
    (before : due d.tasks kind project holder = true) : due (d.tasks.set index new) kind project holder = true := by
  have rest := dueStays found waits before
  rw [due] at rest
  rw [due, anySet found, rest, Bool.or_true]

omit [DecidableEq Id] in
theorem destroyedConfined (confined : Confined d) (label : String) :
    Confined ⟨d.host.revokeProjects label, label :: d.destroyed,
      d.tasks ++ [⟨label, .runs [.revokeTerminals, .revokeSessions]⟩]⟩ where
  grants kind id project holder there := by
    have before : kind.granted d.host id = some (project, holder) := (grantedSame rfl rfl kind id).symm.trans there
    rw [kept, due, List.any_append]
    rcases Bool.or_eq_true_iff.mp (confined.grants kind id project holder before) with held | later
    · by_cases mine : holder = label
      · cases kind with
        | session | terminal => simp [sections, drops, mine]
      · obtain ⟨grant, here, rfl⟩ := holdsProjectIff.mp held
        have stays : retain (·.windowLabel != label) d.host.projects project = some grant :=
          Option.filter_eq_some_iff.mpr ⟨here, bne_iff_ne.mpr mine⟩
        have held' : (d.host.revokeProjects label).holdsProject grant.windowLabel project = true :=
          holdsProjectIff.mpr ⟨grant, stays, rfl⟩
        rw [held', Bool.true_or]
    · rw [due] at later
      rw [later, Bool.true_or, Bool.or_true]
  closed label' gone project := by
    refine Bool.eq_false_iff.mpr fun held => ?_
    obtain ⟨grant, here, rfl⟩ := holdsProjectIff.mp held
    obtain ⟨before, other⟩ := Option.filter_eq_some_iff.mp here
    rcases List.mem_cons.mp gone with same | earlier
    · exact bne_iff_ne.mp other same
    · cases (holdsProjectIff.mpr ⟨grant, before, rfl⟩).symm.trans (confined.closed _ earlier project)

theorem stepConfined (confined : Confined d) {event : Event Id} (steps : step d event = some d') :
    Confined d' ↔ Held d event := by
  cases event with
  | invoke label command =>
    cases Option.some.inj steps
    refine iff_of_true (waitingConfined confined rfl rfl fun kind project holder later => ?_) trivial
    rw [due] at later
    rw [due, List.any_append, later, Bool.true_or]
  | check index =>
    simp only [step] at steps
    split at steps
    · cases steps
    · rename_i task found
      have waits {result : Except Denied (Stage Id)} (checks : task.stage.check d.host task.label = some result) :
          sections task = [] := by
        rw [sections]
        cases here : task.stage with
        | runs _ =>
          rw [here] at checks
          cases checks
        | _ => rfl
      split at steps
      · cases steps
      · rename_i checks
        cases Option.some.inj steps
        exact iff_of_true (waitingConfined confined rfl rfl fun _ _ _ => dueStays found (waits checks)) trivial
      · rename_i checks
        cases Option.some.inj steps
        exact iff_of_true (waitingConfined confined rfl rfl fun _ _ _ => dueSet found (waits checks)) trivial
  | respond index response =>
    simp only [step] at steps
    split at steps
    · rename_i found
      cases Option.some.inj steps
      exact iff_of_true (waitingConfined confined rfl rfl fun _ _ _ => dueSet found rfl) trivial
    · cases steps
  | perform index candidate =>
    simp only [step] at steps
    split at steps
    · rename_i label first rest found
      obtain ⟨⟨host, next⟩, ran, same⟩ := Option.map_eq_some_iff.mp steps
      cases same
      have upcoming : d.upcoming index = some (label, first) := by
        rw [Desktop.upcoming, found]
        rfl
      rw [performConfined confined found ran, Held, upcoming, Option.all_some]
    · cases steps
  | destroyed label =>
    cases Option.some.inj steps
    exact iff_of_true (destroyedConfined confined label) trivial

end Steps

/-- No switch and no close is on its way from the projects to what refers to them. -/
def Still (d : Desktop Id) : Prop := ∀ kind project holder, due d.tasks kind project holder = false

section Runs
variable {d : Desktop Id}

theorem startedConfined : Confined (started : Desktop Id) where
  grants kind _ _ _ there := by cases kind <;> cases there
  closed _ gone := nomatch gone

variable [DecidableEq Id]

/-- As long as each registration is made under a project grant that its window holds, or that a
revocation on its way will still see, all grants stay within the projects of their windows, and a
closed window has none. -/
theorem grantsConfined (reached : Reach step Held started d) :
    (∀ (kind : Kind) id project holder, kind.granted d.host id = some (project, holder) →
      d.host.holdsProject holder project = true ∨ due d.tasks kind project holder = true) ∧
    (Still d → (∀ (kind : Kind) id project holder, kind.granted d.host id = some (project, holder) →
        d.host.holdsProject holder project = true) ∧
      ∀ label ∈ d.destroyed, (∀ project, d.host.holdsProject label project = false) ∧
        ∀ (kind : Kind) id project, kind.granted d.host id ≠ some (project, label)) ∧
    ∀ event d', step d event = some d' → (Confined d' ↔ Held d event) := by
  have confined : Confined d :=
    @reachInvariant _ _ step Held started d Confined reached startedConfined
      fun before held steps => (stepConfined before steps).mpr held
  have within (still : Still d) (kind : Kind) (id project : Id) (holder : String)
      (there : kind.granted d.host id = some (project, holder)) : d.host.holdsProject holder project = true := by
    have held := confined.grants kind id project holder there
    rwa [kept, still kind project holder, Bool.or_false] at held
  refine ⟨fun kind id project holder there => Bool.or_eq_true_iff.mp (confined.grants kind id project holder there),
    fun still => ⟨within still, fun label gone => ⟨confined.closed label gone, fun kind id project there => ?_⟩⟩,
    fun event d' steps => stepConfined confined steps⟩
  cases (within still kind id project label there).symm.trans (confined.closed label gone project)

end Runs

theorem stillOf {d : Desktop Id} (ended : d.tasks.all (fun task => (sections task).isEmpty) = true) : Still d := by
  intro kind project holder
  refine List.any_eq_false.mpr fun task member => ?_
  rw [List.isEmpty_iff.mp (List.all_eq_true.mp ended task member)]
  exact Bool.false_ne_true

/-- A window opens the project 1 under the grant 10. -/
def opens : List (Event Nat) :=
  [.invoke "main" .openProject, .check 0, .respond 0 (.projectRegistered 1 ["/a"]), .perform 0 10, .perform 0 0, .perform 0 0]

/-- It starts a session there, and opens the project 2 before the daemon has answered. -/
def switches : List (Event Nat) :=
  [.invoke "main" (.fakeSessionStart 10), .check 1, .invoke "main" .openProject, .check 2,
    .respond 2 (.projectRegistered 2 ["/b"]), .perform 2 20, .perform 2 0, .perform 2 0, .respond 1 (.session 5), .perform 1 0]

theorem switchesRun : (run step (fun _ _ => True) started (opens ++ switches)).map (fun d =>
    (Kind.session.granted d.host 5, d.host.holdsProject "main" 10, d.tasks.all fun task => (sections task).isEmpty)) =
      some (some (10, "main"), false, true) := by
  decide +kernel

theorem switchedSession : ¬ ∀ d : Desktop Nat, Reach step (fun _ _ => True) started d → Still d →
    ∀ (kind : Kind) id project holder, kind.granted d.host id = some (project, holder) →
      d.host.holdsProject holder project = true := by
  intro confined
  obtain ⟨d, ran, seen⟩ := Option.map_eq_some_iff.mp switchesRun
  obtain ⟨granted, rest⟩ := Prod.mk.inj seen
  obtain ⟨lost, ended⟩ := Prod.mk.inj rest
  cases lost.symm.trans (confined d (reachRun .start ran) (stillOf ended) .session 5 10 "main" granted)

/-- The session is registered first here, and the window is closed in the end. -/
def closes : List (Event Nat) :=
  [.invoke "main" (.fakeSessionStart 10), .check 1, .respond 1 (.session 5), .perform 1 0, .destroyed "main",
    .perform 2 0, .perform 2 0]

theorem closesRun : (run step Held started (opens ++ closes)).map (fun d =>
    (d.destroyed, d.tasks.all fun task => (sections task).isEmpty)) = some (["main"], true) := by
  decide +kernel

theorem grantsConfinedClosed : ∃ d : Desktop Nat, d.destroyed = ["main"] ∧
    ∀ label ∈ d.destroyed, (∀ project, d.host.holdsProject label project = false) ∧
      ∀ (kind : Kind) id project, kind.granted d.host id ≠ some (project, label) := by
  obtain ⟨d, ran, seen⟩ := Option.map_eq_some_iff.mp closesRun
  obtain ⟨destroyed, ended⟩ := Prod.mk.inj seen
  exact ⟨d, destroyed, ((grantsConfined (reachRun .start ran)).2.1 (stillOf ended)).2⟩

end Maestro.GrantConfinement
