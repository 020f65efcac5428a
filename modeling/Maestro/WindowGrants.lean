import Mathlib.Logic.Function.Basic
import Maestro.Stepping

/-! The grants of the desktop host: what its windows may ask of the daemon, and how the commands
of a window check, make and revoke them. A step is what runs under one lock. -/
namespace Maestro.WindowGrants
open Stepping

structure ProjectGrant (Id : Type) where
  canonicalPath : String
  persistedProjectId : Id
  windowLabel : String
  deriving DecidableEq

structure TerminalGrant (Id : Type) where
  projectGrant : Id
  persistedTerminalId : Id
  discoveryOnly : Bool
  windowLabel : String
  deriving DecidableEq

structure SessionGrant (Id : Type) where
  projectGrant : Id
  terminalId : Option Id
  windowLabel : String
  deriving DecidableEq

structure DesktopHostState (Id : Type) where
  projects : Id → Option (ProjectGrant Id)
  sessions : Id → Option (SessionGrant Id)
  terminals : Id → Option (TerminalGrant Id)

inductive Denied where | projectGrant | terminalGrant | sessionGrant
  deriving DecidableEq, Repr

variable {Id Grant : Type}

/-- `HashMap::retain`. -/
def retain (keep : Grant → Bool) (map : Id → Option Grant) : Id → Option Grant :=
  fun id => (map id).filter keep

/-- What each of the three lookups does with the grant it finds. -/
def owned (windowLabel : Grant → String) (denied : Denied) (label : String) : Option Grant → Except Denied Grant
  | some grant => if windowLabel grant = label then .ok grant else .error denied
  | none => .error denied

namespace DesktopHostState

def resolveProject (h : DesktopHostState Id) (id : Id) (label : String) : Except Denied (ProjectGrant Id) :=
  owned (·.windowLabel) .projectGrant label (h.projects id)

def authorizeTerminal (h : DesktopHostState Id) (terminalId : Id) (label : String) : Except Denied (TerminalGrant Id) :=
  owned (·.windowLabel) .terminalGrant label (h.terminals terminalId)

def authorizeSession (h : DesktopHostState Id) (sessionId : Id) (label : String) : Except Denied (SessionGrant Id) :=
  owned (·.windowLabel) .sessionGrant label (h.sessions sessionId)

def holdsProject (h : DesktopHostState Id) (label : String) (id : Id) : Bool :=
  (h.projects id).any (·.windowLabel == label)

theorem holdsProjectIff {h : DesktopHostState Id} {label : String} {id : Id} :
    h.holdsProject label id = true ↔ ∃ grant, h.projects id = some grant ∧ grant.windowLabel = label := by
  simp only [holdsProject, Option.any_eq_true, beq_iff_eq]

def revokeProjects (h : DesktopHostState Id) (label : String) : DesktopHostState Id :=
  { h with projects := retain (·.windowLabel != label) h.projects }

def revokeTerminals (h : DesktopHostState Id) (label : String) : DesktopHostState Id :=
  { h with terminals := retain (·.windowLabel != label) h.terminals }

def revokeSessions (h : DesktopHostState Id) (label : String) : DesktopHostState Id :=
  { h with sessions := retain (·.windowLabel != label) h.sessions }

def retainTerminals (h : DesktopHostState Id) (replaced : Id → Bool) : DesktopHostState Id :=
  { h with terminals := retain (fun grant => !replaced grant.projectGrant) h.terminals }

def retainSessions (h : DesktopHostState Id) (replaced : Id → Bool) : DesktopHostState Id :=
  { h with sessions := retain (fun grant => !replaced grant.projectGrant) h.sessions }

variable [DecidableEq Id]

/-- The first section of `grant_registered_project`. A candidate that is taken is drawn again. -/
def grantProject (h : DesktopHostState Id) (candidate persistedProjectId : Id) (canonicalPath label : String) :
    Option (DesktopHostState Id) :=
  let projects := retain (·.windowLabel != label) h.projects
  if candidate ≠ persistedProjectId ∧ projects candidate = none then
    some { h with projects := Function.update projects candidate (some ⟨canonicalPath, persistedProjectId, label⟩) }
  else none

def registerTerminal (h : DesktopHostState Id) (candidate persistedTerminalId projectId : Id) (label : String)
    (discoveryOnly : Bool) : Option (DesktopHostState Id) :=
  let terminals := retain (fun grant =>
    if grant.windowLabel ≠ label ∨ grant.persistedTerminalId ≠ persistedTerminalId then true
    else discoveryOnly && !grant.discoveryOnly) h.terminals
  if candidate ≠ persistedTerminalId ∧ terminals candidate = none then
    let grant := ⟨projectId, persistedTerminalId, discoveryOnly, label⟩
    some { h with terminals := Function.update terminals candidate (some grant) }
  else none

def unregisterTerminal (h : DesktopHostState Id) (terminalId : Id) : DesktopHostState Id :=
  { h with terminals := Function.update h.terminals terminalId none }

def unregisterTerminalProcess (h : DesktopHostState Id) (persistedTerminalId : Id) : DesktopHostState Id :=
  { h with terminals := retain (·.persistedTerminalId ≠ persistedTerminalId) h.terminals }

def registerSession (h : DesktopHostState Id) (sessionId projectGrant : Id) (label : String) : DesktopHostState Id :=
  let terminalId := ((h.sessions sessionId).filter fun grant =>
    grant.projectGrant = projectGrant ∧ grant.windowLabel = label).bind (·.terminalId)
  { h with sessions := Function.update h.sessions sessionId (some ⟨projectGrant, terminalId, label⟩) }

/-- The second section of `register_tui_session`, with the terminal it has to unregister then. -/
def insertTui (h : DesktopHostState Id) (sessionId terminalGrant projectGrant : Id) (label : String) :
    DesktopHostState Id × Option Id :=
  ({ h with sessions := Function.update h.sessions sessionId (some ⟨projectGrant, some terminalGrant, label⟩) },
    ((h.sessions sessionId).bind (·.terminalId)).filter (· ≠ terminalGrant))

def unregisterSession (h : DesktopHostState Id) (sessionId : Id) : DesktopHostState Id × Option Id :=
  ({ h with sessions := Function.update h.sessions sessionId none }, (h.sessions sessionId).bind (·.terminalId))

end DesktopHostState

/-- `session` and `terminal` stand for the commands that read, write or answer, `project` for those
on files and Git, `openProject` for the three that register a project. -/
inductive Command (Id : Type) where
  | fakeSessionStart (projectGrant : Id)
  | fakeTuiStart (projectGrant : Id)
  | fakeTuiAttach (sessionId : Id)
  | fakeSessionAttach (projectGrant sessionId : Id)
  | sessionList (projectGrant : Id)
  | fakeSessionResume (projectGrant sessionId : Id)
  | session (sessionId : Id)
  | sessionStop (sessionId : Id)
  | terminalOpen (projectGrant : Id)
  | terminalList (projectGrant : Id)
  | terminalAttach (projectGrant terminalId : Id)
  | terminal (terminalId : Id)
  | terminalClose (terminalId : Id)
  | project (projectGrant : Id)
  | openProject

/-- A command that waits for the daemon, with what it needs of its checks afterwards. -/
inductive Request (Id : Type) where
  | fakeSessionStart (projectGrant : Id)
  | fakeTuiStart (projectGrant : Id)
  | sessionTerminalAttach (sessionId projectGrant : Id)
  | sessionList (projectGrant projectId : Id)
  | stopSession (sessionId : Id)
  | terminalOpen (projectGrant : Id)
  | terminalList (projectGrant projectId : Id)
  | terminalAttach (projectGrant terminalId : Id)
  | terminalClose (terminalId : Id)
  | projectRegister
  | other

/-- A response of the kind the command expects, by what the host reads of it. -/
inductive Response (Id : Type) where
  | session (sessionId : Id)
  | sessionTerminal (sessionId terminalId : Id)
  | sessionList (sessions : List (Id × Id))
  | terminal (terminalId : Id)
  | terminalList (terminals : List (Id × Id × String))
  | projectRegistered (projectId : Id) (canonicalRoots : List String)
  | unexpected

inductive Section (Id : Type) where
  | grantProject (projectId : Id) (canonicalPath : String)
  | retainTerminals (replaced : Id → Bool)
  | retainSessions (replaced : Id → Bool)
  | registerTerminal (terminalId projectGrant : Id) (discoveryOnly : Bool)
  | registerTui (sessionId terminalId projectGrant : Id)
  | insertTui (sessionId terminalGrant projectGrant : Id)
  | registerSession (sessionId projectGrant : Id)
  | unregisterTerminal (terminalId : Id)
  | unregisterTerminalProcess (terminalId : Id)
  | unregisterSession (sessionId : Id)
  | revokeTerminals
  | revokeSessions

inductive Stage (Id : Type) where
  | begins (command : Command Id)
  | resolves (projectGrant : Id) (request : Request Id)
  | awaits (request : Request Id)
  | runs (sections : List (Section Id))

section Commands
variable [DecidableEq Id]

def Command.check (h : DesktopHostState Id) (label : String) : Command Id → Except Denied (Stage Id)
  | .fakeSessionStart projectGrant => (h.resolveProject projectGrant label).map fun _ =>
      .awaits (.fakeSessionStart projectGrant)
  | .fakeTuiStart projectGrant => (h.resolveProject projectGrant label).map fun _ =>
      .awaits (.fakeTuiStart projectGrant)
  | .fakeTuiAttach sessionId => (h.authorizeSession sessionId label).map fun grant =>
      .resolves grant.projectGrant (.sessionTerminalAttach sessionId grant.projectGrant)
  | .fakeSessionAttach projectGrant sessionId => (h.authorizeSession sessionId label).bind fun grant =>
      if grant.projectGrant ≠ projectGrant ∨ grant.terminalId.isSome then .error .sessionGrant
      else .ok (.resolves projectGrant .other)
  | .sessionList projectGrant => (h.resolveProject projectGrant label).map fun grant =>
      .awaits (.sessionList projectGrant grant.persistedProjectId)
  | .fakeSessionResume projectGrant sessionId => (h.authorizeSession sessionId label).bind fun grant =>
      if grant.projectGrant ≠ projectGrant then .error .sessionGrant else .ok (.resolves projectGrant .other)
  | .session sessionId => (h.authorizeSession sessionId label).map fun _ => .awaits .other
  | .sessionStop sessionId => (h.authorizeSession sessionId label).map fun _ => .awaits (.stopSession sessionId)
  | .terminalOpen projectGrant => (h.resolveProject projectGrant label).map fun _ =>
      .awaits (.terminalOpen projectGrant)
  | .terminalList projectGrant => (h.resolveProject projectGrant label).map fun grant =>
      .awaits (.terminalList projectGrant grant.persistedProjectId)
  | .terminalAttach projectGrant terminalId => (h.authorizeTerminal terminalId label).bind fun grant =>
      if grant.projectGrant ≠ projectGrant then .error .terminalGrant
      else .ok (.resolves projectGrant (.terminalAttach projectGrant grant.persistedTerminalId))
  | .terminal terminalId => (h.authorizeTerminal terminalId label).map fun _ => .awaits .other
  | .terminalClose terminalId => (h.authorizeTerminal terminalId label).map fun grant =>
      .awaits (.terminalClose grant.persistedTerminalId)
  | .project projectGrant => (h.resolveProject projectGrant label).map fun _ => .awaits .other
  | .openProject => .ok (.awaits .projectRegister)

def Stage.check (h : DesktopHostState Id) (label : String) : Stage Id → Option (Except Denied (Stage Id))
  | .begins command => some (command.check h label)
  | .resolves project request => some ((h.resolveProject project label).map fun _ => .awaits request)
  | .awaits _ | .runs _ => none

/-- What a command does with the response. The lists stop at the first entry of another project. -/
def Request.answered : Request Id → Response Id → List (Section Id)
  | .fakeSessionStart project, .session session => [.registerSession session project]
  | .fakeTuiStart project, .sessionTerminal session terminal => [.registerTui session terminal project]
  | .sessionTerminalAttach session project, .sessionTerminal attached terminal =>
    if attached = session then [.registerTui session terminal project] else []
  | .sessionList project projectId, .sessionList sessions =>
    (sessions.takeWhile (·.2 = projectId)).map fun entry => .registerSession entry.1 project
  | .stopSession session, .session stopped => if stopped = session then [.unregisterSession session] else []
  | .terminalOpen project, .terminal terminal => [.registerTerminal terminal project false]
  | .terminalList project projectId, .terminalList terminals =>
    (terminals.takeWhile fun entry => entry.2.1 = projectId ∧ entry.2.2 = "shell").map fun entry =>
      .registerTerminal entry.1 project true
  | .terminalAttach project terminal, .terminal opened =>
    if opened = terminal then [.registerTerminal opened project false] else []
  | .terminalClose terminal, .terminal closed =>
    if closed = terminal then [.unregisterTerminalProcess terminal] else []
  | .projectRegister, .projectRegistered projectId (canonicalPath :: _) => [.grantProject projectId canonicalPath]
  | _, _ => []

/-- Runs a section, with the sections its function goes on with. -/
def DesktopHostState.perform (h : DesktopHostState Id) (label : String) (candidate : Id) :
    Section Id → Option (DesktopHostState Id × List (Section Id))
  | .grantProject projectId canonicalPath =>
    (h.grantProject candidate projectId canonicalPath label).map fun next =>
      (next, [.retainTerminals (h.holdsProject label), .retainSessions (h.holdsProject label)])
  | .retainTerminals replaced => some (h.retainTerminals replaced, [])
  | .retainSessions replaced => some (h.retainSessions replaced, [])
  | .registerTerminal terminal project discoveryOnly =>
    (h.registerTerminal candidate terminal project label discoveryOnly).map fun next => (next, [])
  | .registerTui session terminal project =>
    (h.registerTerminal candidate terminal project label false).map fun next =>
      (next, [.insertTui session candidate project])
  | .insertTui session terminalGrant project =>
    let (next, previous) := h.insertTui session terminalGrant project label
    some (next, previous.toList.map .unregisterTerminal)
  | .registerSession session project => some (h.registerSession session project label, [])
  | .unregisterTerminal terminal => some (h.unregisterTerminal terminal, [])
  | .unregisterTerminalProcess terminal => some (h.unregisterTerminalProcess terminal, [])
  | .unregisterSession session =>
    let (next, terminal) := h.unregisterSession session
    some (next, terminal.toList.map .unregisterTerminal)
  | .revokeTerminals => some (h.revokeTerminals label, [])
  | .revokeSessions => some (h.revokeSessions label, [])

end Commands

structure Invocation (Id : Type) where
  label : String
  stage : Stage Id

/-- `destroyed` are the windows whose revocation has begun. -/
structure Desktop (Id : Type) where
  host : DesktopHostState Id
  destroyed : List String
  tasks : List (Invocation Id)

inductive Event (Id : Type) where
  | invoke (label : String) (command : Command Id)
  | check (index : Nat)
  | respond (index : Nat) (response : Response Id)
  | perform (index : Nat) (candidate : Id)
  | destroyed (label : String)

def Invocation.upcoming (task : Invocation Id) : Option (Section Id) :=
  match task.stage with
  | .runs (first :: _) => some first
  | _ => none

def Desktop.upcoming (d : Desktop Id) (index : Nat) : Option (String × Section Id) :=
  (d.tasks[index]?).bind fun task => task.upcoming.map fun first => (task.label, first)

def started : Desktop Id := ⟨⟨fun _ => none, fun _ => none, fun _ => none⟩, [], []⟩

def step [DecidableEq Id] (d : Desktop Id) : Event Id → Option (Desktop Id)
  | .invoke label command => some { d with tasks := d.tasks ++ [⟨label, .begins command⟩] }
  | .check index =>
    match d.tasks[index]? with
    | none => none
    | some task =>
      match task.stage.check d.host task.label with
      | none => none
      | some (.error _) => some { d with tasks := d.tasks.eraseIdx index }
      | some (.ok stage) => some { d with tasks := d.tasks.set index ⟨task.label, stage⟩ }
  | .respond index response =>
    match d.tasks[index]? with
    | some ⟨label, .awaits request⟩ =>
      some { d with tasks := d.tasks.set index ⟨label, .runs (request.answered response)⟩ }
    | _ => none
  | .perform index candidate =>
    match d.tasks[index]? with
    | some ⟨label, .runs (first :: rest)⟩ =>
      (d.host.perform label candidate first).map fun (host, next) =>
        { d with host, tasks := d.tasks.set index ⟨label, .runs (next ++ rest)⟩ }
    | _ => none
  | .destroyed label => some { d with
      host := d.host.revokeProjects label
      destroyed := label :: d.destroyed
      tasks := d.tasks ++ [⟨label, .runs [.revokeTerminals, .revokeSessions]⟩] }

end Maestro.WindowGrants
