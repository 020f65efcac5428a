import Maestro.Domain
import Maestro.ProjectTables
import Maestro.SegmentStore
import Maestro.WorkspaceRoots

/-! The registration of projects: the roots are checked, the identity is found or stored, and
the project is opened in memory. -/
namespace Maestro.Registration
open Paths ProjectTables Redaction Workspace

/-- The text form of an identifier, which is parsed back to it. -/
structure ProjectIds where
  Id : Type
  decidable : DecidableEq Id
  text : Id → String
  parse : String → Option Id
  back : ∀ id, parse (text id) = some id

instance (ids : ProjectIds) : DecidableEq ids.Id := ids.decidable

structure ProjectRegistered (ids : ProjectIds) where
  projectId : ids.Id
  displayName : String
  canonicalRoots : List String

/-- `White_Space` of Unicode. -/
def whitespace (c : Char) : Bool :=
  c.toNat ∈ [0x20, 0x85, 0xA0, 0x1680, 0x2028, 0x2029, 0x202F, 0x205F, 0x3000] ∨
    (0x09 ≤ c.toNat ∧ c.toNat ≤ 0x0D) ∨ (0x2000 ≤ c.toNat ∧ c.toNat ≤ 0x200A)

def pathString (path : PathBuf) : String := SegmentStore.toStringLossy (PathBuf.bytes path)

def projectErrorText : ProjectError → String
  | .emptyRoots => "at least one workspace root is required"
  | .rootNotAbsolute index => "workspace root " ++ toString index ++ " must be absolute"
  | .rootUnavailable index => "workspace root " ++ toString index ++ " is unavailable"
  | .rootNotDirectory index => "workspace root " ++ toString index ++ " is not a directory"
  | .rootUnreadable index => "workspace root " ++ toString index ++ " is not readable and searchable"
  | .duplicateRoot first second =>
    "workspace roots " ++ toString first ++ " and " ++ toString second ++ " resolve to the same directory"
  | .nestedRoots outer inner => "workspace roots " ++ toString outer ++ " and " ++ toString inner ++ " are nested"
  | .unauthorizedPath => "the requested path is outside the authorized workspace roots"
  | .unsafePath => "the requested path traverses a symlink or unsafe component"
  | .io operation kind => "local " ++ operation ++ " failed with " ++ kind

def projectError (error : ProjectError) : MaestroError :=
  let code : ErrorCode := match error with
    | .unauthorizedPath | .unsafePath => .permissionDenied
    | .io _ _ => .internal
    | _ => .invalidPath
  .new code (projectErrorText error)

def databaseUnavailableError : MaestroError :=
  { MaestroError.new .databaseUnavailable "Maestro encrypted storage is unavailable" with
    userAction := some
      "Restart Maestro. If the problem continues, preserve the data directory for recovery." }

section Manager
variable (fs : FileSystem) (ids : ProjectIds)

abbrev ProjectManager := ids.Id → Option WorkspaceRoots

/-- The lock of the registrations is held from the storage to the end. -/
def registerWithPersistence {Store : Type} (projectId : ids.Id) (displayName : String) (roots : List String)
    (persist : ProjectRegistered ids → Store → Except MaestroError ids.Id × Store)
    (projects : ProjectManager ids) (store : Store) :
    Except MaestroError (ProjectRegistered ids) × ProjectManager ids × Store :=
  if displayName.toList.all whitespace ∨ 512 < (bytes displayName).length then
    (.error (.new .invalidRequest "The project display name is invalid."), projects, store)
  else
    match WorkspaceRoots.new fs (roots.map bytes) with
    | .error error => (.error (projectError error), projects, store)
    | .ok services =>
      let registered := ⟨projectId, displayName, services.canonicalRoots.map pathString⟩
      match persist registered store with
      | (.error error, store) => (.error error, projects, store)
      | (.ok persisted, store) =>
        (.ok { registered with projectId := persisted }, Function.update projects persisted (some services), store)

/-- A storage that is not ready, or that fails, changes nothing. -/
def persistRegistration (fails : Bool) (now : Nat) (registered : ProjectRegistered ids) (t : Tables) :
    Except MaestroError ids.Id × Tables :=
  match upsertProjectRegistration fails (ids.text registered.projectId) registered.displayName
      registered.canonicalRoots now t with
  | .error _ => (.error databaseUnavailableError, t)
  | .ok (persisted, t) =>
    match ids.parse persisted with
    | none => (.error databaseUnavailableError, t)
    | some id => (.ok id, t)

structure Daemon where
  tables : Tables
  projects : ProjectManager ids

structure ProjectRegister where
  projectId : ids.Id
  displayName : String
  roots : List String

def register (fails : Bool) (now : Nat) (request : ProjectRegister ids) (d : Daemon ids) :
    Except MaestroError (ProjectRegistered ids) × Daemon ids :=
  match registerWithPersistence fs ids request.projectId request.displayName request.roots
      (persistRegistration ids fails now) d.projects d.tables with
  | (result, projects, tables) => (result, ⟨tables, projects⟩)

/-- What the daemon does with its projects; it starts with none in memory. -/
inductive Step (d : Daemon ids) : Daemon ids → Prop where
  | register (fails : Bool) (now : Nat) (request : ProjectRegister ids) :
      Step d (register fs ids fails now request d).2
  | upsert {fails proposedId displayName canonicalRoots now id t} (given : canonicalRoots ≠ [])
      (stored : upsertProjectRegistration fails proposedId displayName canonicalRoots now d.tables = .ok (id, t)) :
      Step d { d with tables := t }
  | favorite {id favorite now t} (stored : setProjectFavorite id favorite now d.tables = .ok t) :
      Step d { d with tables := t }
  | layout {projectId windowKey layoutJson now t}
      (stored : saveWindowLayout projectId windowKey layoutJson now d.tables = .ok t) :
      Step d { d with tables := t }
  | restart : Step d { d with projects := fun _ => none }

inductive Reached (start : Daemon ids) : Daemon ids → Prop where
  | start : Reached start start
  | step {d d'} (before : Reached start d) (moves : Step fs ids d d') : Reached start d'

end Manager

section One
variable {fs : FileSystem} {ids : ProjectIds} {fails : Bool} {now : Nat} {request : ProjectRegister ids}
  {d d' : Daemon ids}

def Named (displayName : String) : Prop :=
  ¬ (displayName.toList.all whitespace ∨ 512 < (bytes displayName).length)

/-- A successful registration: what was checked, what was stored and what was opened. -/
structure Registers (fs : FileSystem) (ids : ProjectIds) (fails : Bool) (now : Nat) (request : ProjectRegister ids)
    (d d' : Daemon ids) (registered : ProjectRegistered ids) (w : WorkspaceRoots) (stored : String) : Prop where
  made : WorkspaceRoots.new fs (request.roots.map bytes) = .ok w
  roots : registered.canonicalRoots = w.canonicalRoots.map pathString
  persisted : upsertProjectRegistration fails (ids.text request.projectId) request.displayName
    (w.canonicalRoots.map pathString) now d.tables = .ok (stored, d'.tables)
  parsed : ids.parse stored = some registered.projectId
  opened : d'.projects = Function.update d.projects registered.projectId (some w)

theorem registerOk {registered : ProjectRegistered ids}
    (done : register fs ids fails now request d = (.ok registered, d')) :
    ∃ w stored, Registers fs ids fails now request d d' registered w stored := by
  unfold register registerWithPersistence at done
  by_cases bad : request.displayName.toList.all whitespace ∨ 512 < (bytes request.displayName).length
  · rw [if_pos bad] at done
    cases done
  · rw [if_neg bad] at done
    cases made : WorkspaceRoots.new fs (request.roots.map bytes) with
    | error error =>
      rw [made] at done
      cases done
    | ok w =>
      rw [made] at done
      dsimp only [persistRegistration] at done
      cases persisted : upsertProjectRegistration fails (ids.text request.projectId) request.displayName
          (w.canonicalRoots.map pathString) now d.tables with
      | error error =>
        rw [persisted] at done
        cases done
      | ok outcome =>
        obtain ⟨stored, t⟩ := outcome
        rw [persisted] at done
        dsimp only at done
        cases parsed : ids.parse stored with
        | none =>
          rw [parsed] at done
          cases done
        | some id =>
          rw [parsed] at done
          cases done
          exact ⟨w, stored, made, rfl, persisted, parsed, rfl⟩

theorem registerMade {w : WorkspaceRoots} {stored : String} {t : Tables} {id : ids.Id}
    (named : Named request.displayName) (made : WorkspaceRoots.new fs (request.roots.map bytes) = .ok w)
    (persisted : upsertProjectRegistration fails (ids.text request.projectId) request.displayName
      (w.canonicalRoots.map pathString) now d.tables = .ok (stored, t))
    (parsed : ids.parse stored = some id) :
    register fs ids fails now request d = (.ok ⟨id, request.displayName, w.canonicalRoots.map pathString⟩,
      ⟨t, Function.update d.projects id (some w)⟩) := by
  unfold register registerWithPersistence
  rw [if_neg named, made]
  dsimp only [persistRegistration]
  rw [persisted]
  dsimp only
  rw [parsed]

theorem registerError {error : MaestroError}
    (failed : register fs ids fails now request d = (.error error, d')) : d'.projects = d.projects := by
  unfold register registerWithPersistence at failed
  by_cases bad : request.displayName.toList.all whitespace ∨ 512 < (bytes request.displayName).length
  · rw [if_pos bad] at failed
    cases failed
    rfl
  · rw [if_neg bad] at failed
    cases made : WorkspaceRoots.new fs (request.roots.map bytes) with
    | error _ =>
      rw [made] at failed
      cases failed
      rfl
    | ok w =>
      rw [made] at failed
      dsimp only at failed
      split at failed
      · cases failed
        rfl
      · cases failed

theorem registerTables : (register fs ids fails now request d).2.tables = d.tables ∨
    ∃ w stored, WorkspaceRoots.new fs (request.roots.map bytes) = .ok w ∧
      upsertProjectRegistration fails (ids.text request.projectId) request.displayName
        (w.canonicalRoots.map pathString) now d.tables =
          .ok (stored, (register fs ids fails now request d).2.tables) := by
  unfold register registerWithPersistence
  by_cases bad : request.displayName.toList.all whitespace ∨ 512 < (bytes request.displayName).length
  · rw [if_pos bad]
    exact .inl rfl
  · rw [if_neg bad]
    cases made : WorkspaceRoots.new fs (request.roots.map bytes) with
    | error _ => exact .inl rfl
    | ok w =>
      dsimp only [persistRegistration]
      cases persisted : upsertProjectRegistration fails (ids.text request.projectId) request.displayName
          (w.canonicalRoots.map pathString) now d.tables with
      | error _ => exact .inl rfl
      | ok outcome =>
        obtain ⟨stored, t⟩ := outcome
        refine .inr ⟨w, stored, rfl, ?_⟩
        dsimp only
        cases ids.parse stored <;> exact persisted

theorem rootsGiven {w : WorkspaceRoots} {paths : List Bytes} (made : WorkspaceRoots.new fs paths = .ok w) :
    w.canonicalRoots.map pathString ≠ [] := by
  obtain ⟨given, _⟩ := newRoots made
  obtain ⟨canonical, same, sorted⟩ := newCanonical made
  rw [sorted]
  intro none'
  have empty : canonical = [] := by
    have lengths := congrArg List.length (List.map_eq_nil_iff.mp none')
    rw [List.length_mergeSort] at lengths
    exact List.length_eq_zero_iff.mp lengths
  rw [empty, List.map_nil] at same
  exact given (List.map_eq_nil_iff.mp same)

end One

section Runs
variable {fs : FileSystem} {ids : ProjectIds}

theorem identifiedSame {t t' : Tables} (keys : t'.projects.map (·.id) = t.projects.map (·.id))
    (roots : t'.workspaceRoots = t.workspaceRoots) (identified : Identified t) : Identified t' := by
  have rows : ∀ id, rowsOf t' id = rowsOf t id := fun id => by rw [rowsOf, roots, rowsOf]
  have paths : ∀ id, rootsOf t' id = rootsOf t id := fun id => by rw [rootsOf, rows, rootsOf]
  refine ⟨?_, ?_, ?_, ?_, ?_⟩
  · rw [roots]
    exact identified.keyed
  · simpa only [keys, rows] using identified.bounded
  · simpa only [keys, rows] using identified.ordered
  · simpa only [keys, rows] using identified.rooted
  · simpa only [keys, paths] using identified.distinct

theorem stepIdentified {d d' : Daemon ids} (identified : Identified d.tables) (moves : Step fs ids d d') :
    Identified d'.tables := by
  cases moves with
  | register fails now request =>
    rcases @registerTables fs ids fails now request d with same | ⟨w, stored, made, persisted⟩
    · rw [same]
      exact identified
    · exact (registered identified (rootsGiven made) persisted).1
  | upsert given stored => exact (registered identified given stored).1
  | favorite stored =>
    unfold setProjectFavorite at stored
    split at stored <;> cases stored
    exact identifiedSame (keysMap favoredKey) rfl identified
  | layout stored =>
    unfold saveWindowLayout at stored
    split at stored <;> cases stored
    exact identifiedSame (t := d.tables) rfl rfl identified
  | restart => exact identified

def Fresh (d : Daemon ids) : Prop := d.tables.projects = [] ∧ d.tables.workspaceRoots = []

theorem reachedIdentified {start d : Daemon ids} (fresh : Fresh start) (reached : Reached fs ids start d) :
    Identified d.tables := by
  induction reached with
  | start =>
    obtain ⟨projects, roots⟩ := fresh
    refine ⟨?_, ?_, ?_, ?_, ?_⟩
    · simp [roots]
    all_goals simp [projects]
  | step _ moves ih => exact stepIdentified ih moves

/-- The roots, in whatever order they are given, are those of a stored project. -/
structure Known (fs : FileSystem) (ids : ProjectIds) (d : Daemon ids) (roots : List String) (known : String) :
    Prop where
  stored : known ∈ d.tables.projects.map (·.id)
  same : ∃ given w, roots.Perm given ∧ WorkspaceRoots.new fs (given.map bytes) = .ok w ∧
    rootsOf d.tables known = w.canonicalRoots.map pathString

theorem knownRoots {d : Daemon ids} {roots : List String} {known : String} (here : Known fs ids d roots known) :
    ∃ w, WorkspaceRoots.new fs (roots.map bytes) = .ok w ∧
      rootsOf d.tables known = w.canonicalRoots.map pathString := by
  obtain ⟨given, w, perm, made, same⟩ := here.same
  obtain ⟨w', made', canonical⟩ := newPerm made (perm.map bytes)
  exact ⟨w', made', canonical ▸ same⟩

theorem knownRegistered {d : Daemon ids} {request : ProjectRegister ids} {known : String} {id : ids.Id}
    (identified : Identified d.tables) (here : Known fs ids d request.roots known) (named : Named request.displayName)
    (parsed : ids.parse known = some id) (now : Nat) :
    ∃ registered d', register fs ids false now request d = (.ok registered, d') := by
  obtain ⟨w, made, same⟩ := knownRoots here
  obtain ⟨t, persisted⟩ := @knownRegisters d.tables identified known (ids.text request.projectId)
    request.displayName _ now here.stored same
  exact ⟨_, _, registerMade named made persisted parsed⟩

/-- No two projects have the same ordered roots; known roots are registered as the project they
are, in whatever order; the project in memory has the roots returned, and a failed registration
leaves the memory alone. -/
theorem registrationIdentity {start d : Daemon ids} (fresh : Fresh start) (reached : Reached fs ids start d) :
    (∀ id ∈ d.tables.projects.map (·.id), ∀ other ∈ d.tables.projects.map (·.id),
      rootsOf d.tables id = rootsOf d.tables other → id = other) ∧
    (∀ fails now request known, Known fs ids d request.roots known →
      (∀ registered d', register fs ids fails now request d = (.ok registered, d') →
        ids.parse known = some registered.projectId ∧ favoriteOf d'.tables known = favoriteOf d.tables known ∧
        ∀ windowKey, windowLayout d'.tables known windowKey = windowLayout d.tables known windowKey) ∧
      ((ids.parse known).isSome → Named request.displayName →
        ∃ registered d', register fs ids false now request d = (.ok registered, d'))) ∧
    (∀ fails now request registered d', register fs ids fails now request d = (.ok registered, d') →
      ∃ w stored, d'.projects registered.projectId = some w ∧
        w.canonicalRoots.map pathString = registered.canonicalRoots ∧
        ids.parse stored = some registered.projectId ∧ rootsOf d'.tables stored = registered.canonicalRoots) ∧
    ∀ fails now request error d', register fs ids fails now request d = (.error error, d') →
      d'.projects = d.projects := by
  have identified := reachedIdentified fresh reached
  refine ⟨identified.distinct, fun fails now request known here => ⟨fun registered d' done => ?_,
    fun parsed named => ?_⟩, fun fails now request registered d' done => ?_, fun _ _ _ _ _ failed => registerError failed⟩
  · obtain ⟨w, stored, registers⟩ := registerOk done
    obtain ⟨w', made, same⟩ := knownRoots here
    cases registers.made.symm.trans made
    obtain ⟨_, _, _, others⟩ := ProjectTables.registered identified (rootsGiven registers.made) registers.persisted
    obtain ⟨mine, state⟩ := others known here.stored
    rw [mine same]
    exact ⟨registers.parsed, (mine same) ▸ state⟩
  · obtain ⟨id, parsed⟩ := Option.isSome_iff_exists.mp parsed
    exact knownRegistered identified here named parsed now
  · obtain ⟨w, stored, registers⟩ := registerOk done
    obtain ⟨_, mine, _⟩ := ProjectTables.registered identified (rootsGiven registers.made) registers.persisted
    exact ⟨w, stored, by rw [registers.opened, Function.update_self], registers.roots.symm, registers.parsed,
      by rw [mine, registers.roots]⟩

end Runs

def plainIds : ProjectIds := ⟨String, inferInstance, id, some, fun _ => rfl⟩

def newDaemon : Daemon plainIds := ⟨⟨[], [], [], List.nodup_nil, List.nodup_nil, List.nodup_nil⟩, fun _ => none⟩

abbrev registeredOnce : Daemon plainIds :=
  (register linked plainIds false 0 ⟨"a", "A", ["/y"]⟩ newDaemon).2

theorem onceRegistered : registeredOnce.tables.projects.map (·.id) = ["a"] ∧
    rootsOf registeredOnce.tables "a" = ["/x"] := by
  decide +kernel

theorem linkedRoots : (WorkspaceRoots.new linked (["/y"].map bytes)).toOption.map
    (fun w => w.canonicalRoots.map pathString) = some ["/x"] := by
  decide +kernel

theorem onceKnown : Known linked plainIds registeredOnce ["/y"] "a" := by
  obtain ⟨w, made, roots⟩ := Option.map_eq_some_iff.mp linkedRoots
  refine ⟨by rw [onceRegistered.1]; exact List.mem_cons_self, ["/y"], w, List.Perm.refl _, ?_, ?_⟩
  · cases outcome : WorkspaceRoots.new linked (["/y"].map bytes) with
    | error error =>
      rw [outcome] at made
      cases made
    | ok w' =>
      rw [outcome] at made
      cases made
      rfl
  · rw [onceRegistered.2, roots]

theorem registrationIdentityOnce : ∃ registered d',
    register linked plainIds false 1 ⟨"b", "B", ["/y"]⟩ registeredOnce = (.ok registered, d') ∧
      some registered.projectId = some "a" := by
  have moves : Step linked plainIds newDaemon registeredOnce := .register _ _ _
  have reached : Reached linked plainIds newDaemon registeredOnce := .step .start moves
  have known := (registrationIdentity ⟨rfl, rfl⟩ reached).2.1 false 1 ⟨"b", "B", ["/y"]⟩ "a" onceKnown
  obtain ⟨registered, d', done⟩ := known.2 rfl (by unfold Named; decide +kernel)
  exact ⟨registered, d', done, (known.1 registered d' done).1.symm⟩

end Maestro.Registration
