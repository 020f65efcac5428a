import Maestro.Ledger

/-! The terminal manager: permits, the table of terminals and the queue of the completed ones
under any number of opens, exits and closes. -/
namespace Maestro.TerminalTable
open Interleaving Prog Protocol

/-- A `TerminalSession` as far as the manager keeps books on it. -/
structure TerminalSession where
  terminalPermit : Bool
  retained : Bool
  operationGuard : Bool
  finalizationGuard : Bool
  deriving DecidableEq

/-- `sessions` holds every session ever made, at the place that is its terminal id. -/
structure TerminalManager where
  limit : Nat
  availablePermits : Nat
  terminals : List Nat
  completed : List Nat
  sessions : List TerminalSession
  deriving DecidableEq

inductive Act where
  | tryAcquire
  | terminalsFull
  | popCompleted
  | removeTerminal (id : Nat)
  | clearRetained (id : Nat)
  | spawnPty
  | registerTerminal
  | dropPermit
  | insertTerminal
  | spawnOutputReader (id : Nat)
  | processEnds (id : Nat)
  | containsKey (id : Nat)
  | lockOperation (id : Nat)
  | unlockOperation (id : Nat)
  | lockFinalization (id : Nat)
  | unlockFinalization (id : Nat)
  | permitIsNone (id : Nat)
  | takePermit (id : Nat)
  | pushCompleted (id : Nat)
  | releasePermit (id : Nat)
  | terminate (id : Nat)
  | markRemoved (id : Nat)
  deriving DecidableEq

@[reducible] def Act.Answer : Act → Type
  | .tryAcquire | .terminalsFull | .removeTerminal _ | .spawnPty | .registerTerminal
  | .containsKey _ | .permitIsNone _ | .takePermit _ | .terminate _ => Bool
  | .popCompleted => Option Nat
  | .insertTerminal => Nat
  | _ => Unit

abbrev actions : Actions := ⟨Act, Act.Answer⟩

inductive Entry where
  | prepareLaunch (persisted : Bool)
  | pruneCompletedForInsert (persisted : Bool)
  | spawnInner (persisted : Bool)
  | outputReader (id : Nat)
  | close (id : Nat)
  deriving DecidableEq

abbrev Program := Prog actions

@[simp] def perform (o : Act) : Program o.Answer := .act (A := actions) o .done

def prepareLaunch (persisted : Bool) : Program (Option Entry) := do
  if ← perform .tryAcquire then pure (some (.pruneCompletedForInsert persisted))
  else pure none

def pruneCompletedForInsert (persisted : Bool) : Program (Option Entry) := do
  if ← perform .terminalsFull then
    match ← perform .popCompleted with
    | none => pure (some (.spawnInner persisted))
    | some id =>
      if ← perform (.removeTerminal id) then perform (.clearRetained id)
      pure (some (.pruneCompletedForInsert persisted))
  else pure (some (.spawnInner persisted))

def spawnInner (persisted : Bool) : Program (Option Entry) := do
  if ← perform .spawnPty then
    let registered ← if persisted then perform .registerTerminal else pure true
    if registered then
      let id ← perform .insertTerminal
      perform (.spawnOutputReader id)
    else perform .dropPermit
  else perform .dropPermit
  pure none

def finalizeReaped (id : Nat) : Program Unit := do
  perform (.lockFinalization id)
  if ← perform (.takePermit id) then
    perform (.pushCompleted id)
    perform (.releasePermit id)
  perform (.unlockFinalization id)

/-- The reader reads to the end of the output and waits for the process, or terminates it;
either way it finalises. -/
def outputReader (id : Nat) : Program (Option Entry) := do
  perform (.processEnds id)
  finalizeReaped id
  pure none

def isFinalized (id : Nat) : Program Bool := do
  perform (.lockFinalization id)
  let finalized ← perform (.permitIsNone id)
  perform (.unlockFinalization id)
  pure finalized

def terminateReaped (id : Nat) : Program Bool := do
  if ← isFinalized id then pure true
  else if ← perform (.terminate id) then
    finalizeReaped id
    pure true
  else isFinalized id

def close (id : Nat) : Program (Option Entry) := do
  if ← perform (.containsKey id) then
    perform (.lockOperation id)
    if ← perform (.containsKey id) then
      if ← terminateReaped id then
        perform (.markRemoved id)
        let _ ← perform (.removeTerminal id)
    perform (.unlockOperation id)
  pure none

def body : Entry → Program (Option Entry)
  | .prepareLaunch persisted => prepareLaunch persisted
  | .pruneCompletedForInsert persisted => pruneCompletedForInsert persisted
  | .spawnInner persisted => spawnInner persisted
  | .outputReader id => outputReader id
  | .close id => close id

namespace TerminalManager
variable (m : TerminalManager)

def setSession (id : Nat) (s : TerminalSession) : TerminalManager :=
  { m with sessions := m.sessions.set id s }

/-- A new session goes into the table at the first free place. -/
def addTerminal : TerminalManager :=
  { m with
    terminals := m.terminals ++ [m.sessions.length]
    sessions := m.sessions ++ [⟨true, true, false, false⟩] }

/-- A step of one session; there is none without the session. -/
def onSession {α : Type} (id : Nat) (f : TerminalSession → Option (α × TerminalSession)) :
    Option (α × TerminalManager) :=
  match m.sessions[id]? with
  | none => none
  | some s => (f s).map fun (answer, s) => (answer, m.setSession id s)

def isRetained (id : Nat) : Bool := (m.sessions[id]?.map TerminalSession.retained).getD false

end TerminalManager

/-- The choice says whether spawning, registering or terminating succeeds. -/
def apply : (o : Act) → Bool → TerminalManager → Option (o.Answer × TerminalManager)
  | .tryAcquire, _, m =>
    if 0 < m.availablePermits then some (true, { m with availablePermits := m.availablePermits - 1 })
    else some (false, m)
  | .terminalsFull, _, m => some (decide (m.limit ≤ m.terminals.length), m)
  | .popCompleted, _, m =>
    match m.completed with
    | [] => some (none, m)
    | id :: rest => some (some id, { m with completed := rest })
  | .removeTerminal id, _, m =>
    some (decide (id ∈ m.terminals), { m with terminals := m.terminals.filter (· != id) })
  | .clearRetained id, _, m => m.onSession id fun s => some ((), { s with retained := false })
  | .spawnPty, succeeds, m | .registerTerminal, succeeds, m | .terminate _, succeeds, m =>
    some (succeeds, m)
  | .dropPermit, _, m => some ((), { m with availablePermits := m.availablePermits + 1 })
  | .insertTerminal, _, m => some (m.sessions.length, m.addTerminal)
  | .spawnOutputReader _, _, m | .processEnds _, _, m => some ((), m)
  | .containsKey id, _, m => some (decide (id ∈ m.terminals), m)
  | .lockOperation id, _, m => m.onSession id fun s =>
    if s.operationGuard then none else some ((), { s with operationGuard := true })
  | .unlockOperation id, _, m => m.onSession id fun s => some ((), { s with operationGuard := false })
  | .lockFinalization id, _, m => m.onSession id fun s =>
    if s.finalizationGuard then none else some ((), { s with finalizationGuard := true })
  | .unlockFinalization id, _, m => m.onSession id fun s =>
    some ((), { s with finalizationGuard := false })
  | .permitIsNone id, _, m => m.onSession id fun s => some (!s.terminalPermit, s)
  | .takePermit id, _, m => m.onSession id fun s =>
    some (s.terminalPermit, { s with terminalPermit := false })
  | .pushCompleted id, _, m =>
    some ((), if m.isRetained id then { m with completed := m.completed ++ [id] } else m)
  | .releasePermit _, _, m => some ((), { m with availablePermits := m.availablePermits + 1 })
  | .markRemoved id, _, m =>
    (m.onSession id fun s => some ((), { s with retained := false })).map fun (answer, m) =>
      (answer, { m with completed := m.completed.filter (· != id) })

def spawns : Act → Option Entry
  | .spawnOutputReader id => some (.outputReader id)
  | _ => none

def callable : Entry → Bool
  | .prepareLaunch _ | .close _ => true
  | _ => false

abbrev machine : Machine actions where
  Memory := TerminalManager
  Entry := Entry
  Choice := Bool
  Outside := Empty
  body := body
  apply := apply
  spawns := spawns
  callable := callable
  outside := fun x => nomatch x

def started (limit : Nat) : Config machine := ⟨⟨limit, limit, [], [], []⟩, []⟩

/-- A launch holds its permit from the semaphore to the table, `roomy` behind the loop that
makes room. `taking` and `returning` hold the permit of a session, and `removing` and
`unretaining` what was popped from the queue. -/
inductive Stage where
  | plain
  | holding
  | crowded
  | removing (id : Nat)
  | unretaining (id : Nat)
  | roomy
  | taking (id : Nat)
  | returning (id : Nat)
  | marked (id : Nat)
  deriving DecidableEq

structure Place where
  stage : Stage
  returned : List Nat
  deriving DecidableEq

namespace Place

def may (q : Place) : Act → Prop
  | .terminalsFull => q.stage = .holding
  | .popCompleted => q.stage = .crowded
  | .removeTerminal id => q.stage = .removing id ∨ q.stage = .marked id
  | .clearRetained id => q.stage = .unretaining id
  | .spawnPty | .registerTerminal | .dropPermit | .insertTerminal => q.stage = .roomy
  | .pushCompleted id => q.stage = .taking id
  | .releasePermit id => q.stage = .returning id
  | _ => q.stage = .plain

def stageAfter : Stage → (o : Act) → o.Answer → Stage
  | _, .tryAcquire, true => .holding
  | _, .terminalsFull, full => if full then .crowded else .roomy
  | _, .popCompleted, none => .roomy
  | _, .popCompleted, some id => .removing id
  | .removing id, .removeTerminal _, removed => if removed then .unretaining id else .holding
  | _, .removeTerminal _, _ => .plain
  | _, .clearRetained _, _ => .holding
  | _, .dropPermit, _ | _, .insertTerminal, _ => .plain
  | _, .takePermit id, true => .taking id
  | _, .pushCompleted id, _ => .returning id
  | _, .releasePermit _, _ => .plain
  | _, .markRemoved id, _ => .marked id
  | stage, _, _ => stage

def after (q : Place) (o : Act) (answer : o.Answer) : Place where
  stage := stageAfter q.stage o answer
  returned :=
    match o with
    | .releasePermit id => id :: q.returned
    | _ => q.returned

def enter : Entry → Place
  | .pruneCompletedForInsert _ => ⟨.holding, []⟩
  | .spawnInner _ => ⟨.roomy, []⟩
  | _ => ⟨.plain, []⟩

end Place

abbrev books : Protocol machine where
  Place := Place
  enter := Place.enter
  may := Place.may
  after := Place.after
  ends q := q.stage = .plain

section Soundness

theorem finalizeBooks {id : Nat} :
    books.Follows (fun _ q => q.stage = .plain) ⟨.plain, []⟩ (finalizeReaped id) := by
  refine followsStep rfl fun _ => followsStep rfl fun taken => ?_
  cases taken with
  | true => exact followsStep rfl fun _ => followsStep rfl fun _ => followsStep rfl fun _ => rfl
  | false => exact followsStep rfl fun _ => rfl

theorem isFinalizedBooks {id : Nat} :
    books.Follows (fun _ q => q.stage = .plain) ⟨.plain, []⟩ (isFinalized id) :=
  followsStep rfl fun _ => followsStep rfl fun _ => followsStep rfl fun _ => rfl

theorem pruneBooks (persisted : Bool) :
    books.Follows books.EntryPost ⟨.holding, []⟩ (pruneCompletedForInsert persisted) := by
  refine followsStep rfl fun full => ?_
  cases full with
  | false => rfl
  | true =>
    refine followsStep rfl fun popped => ?_
    cases popped with
    | none => rfl
    | some id =>
      refine followsStep (.inl rfl) fun removed => ?_
      cases removed with
      | false => rfl
      | true => exact followsStep rfl fun _ => rfl

theorem spawnBooks (persisted : Bool) :
    books.Follows books.EntryPost ⟨.roomy, []⟩ (spawnInner persisted) := by
  refine followsStep rfl fun spawned => ?_
  cases spawned with
  | false => exact followsStep rfl fun _ => rfl
  | true =>
    cases persisted with
    | false => exact followsStep rfl fun id => followsStep rfl fun _ => rfl
    | true =>
      refine followsStep rfl fun registered => ?_
      cases registered with
      | true => exact followsStep rfl fun id => followsStep rfl fun _ => rfl
      | false => exact followsStep rfl fun _ => rfl

theorem terminateBooks {id : Nat} :
    books.Follows (fun _ q => q.stage = .plain) ⟨.plain, []⟩ (terminateReaped id) := by
  refine followsStep rfl fun _ => followsStep rfl fun finalized => followsStep rfl fun _ => ?_
  cases finalized with
  | true => rfl
  | false =>
    refine followsStep rfl fun ended => ?_
    cases ended with
    | true => exact followsSeq finalizeBooks fun _ _ here => here
    | false => exact isFinalizedBooks

theorem closeBooks (id : Nat) : books.Follows books.EntryPost ⟨.plain, []⟩ (close id) := by
  refine followsStep rfl fun found => ?_
  cases found with
  | false => rfl
  | true =>
    refine followsStep rfl fun _ => followsStep rfl fun still => ?_
    cases still with
    | false => exact followsStep rfl fun _ => rfl
    | true =>
      refine followsSeq terminateBooks fun ended q here => ?_
      cases ended with
      | false => exact followsStep here fun _ => here
      | true =>
        exact followsStep here fun _ => followsStep (.inr rfl) fun _ => followsStep rfl fun _ => rfl

theorem booksSound : books.Sound := by
  intro e
  cases e with
  | prepareLaunch persisted =>
    refine followsStep rfl fun acquired => ?_
    cases acquired <;> rfl
  | pruneCompletedForInsert persisted => exact pruneBooks persisted
  | spawnInner persisted => exact spawnBooks persisted
  | outputReader id => exact followsStep rfl fun _ => followsSeq finalizeBooks fun _ _ here => here
  | close id => exact closeBooks id

end Soundness

namespace TerminalManager
variable (m : TerminalManager)

def unfinalized : Nat := (m.sessions.map fun s => s.terminalPermit.toNat).sum

/-- A terminal that is not made yet counts as one whose permit is in place. -/
def permitOf (id : Nat) : Nat := ((m.sessions[id]?.map TerminalSession.terminalPermit).getD true).toNat

def flag (id : Nat) : Option Bool := m.sessions[id]?.map TerminalSession.retained

end TerminalManager

structure SameBooks (m m' : TerminalManager) : Prop where
  limit : m'.limit = m.limit
  available : m'.availablePermits = m.availablePermits
  unfinalized : m'.unfinalized = m.unfinalized
  permitOf : ∀ id, m'.permitOf id = m.permitOf id
  flag : ∀ id, m'.flag id = m.flag id
  terminals : m'.terminals = m.terminals
  completed : m'.completed = m.completed
  sessions : m'.sessions.length = m.sessions.length

/-- One action and the place behind it, as far as the books go. -/
inductive Turn : TerminalManager → Place → TerminalManager → Place → Prop where
  | quiet {m q m'} (same : SameBooks m m') : Turn m q m' q
  | acquire {m returned} (free : 0 < m.availablePermits) :
      Turn m ⟨.plain, returned⟩ { m with availablePermits := m.availablePermits - 1 } ⟨.holding, returned⟩
  | full {m returned} : Turn m ⟨.holding, returned⟩ m ⟨.crowded, returned⟩
  | room {m returned} (fits : m.terminals.length < m.limit) :
      Turn m ⟨.holding, returned⟩ m ⟨.roomy, returned⟩
  | drained {m returned} (empty : m.completed = []) :
      Turn m ⟨.crowded, returned⟩ m ⟨.roomy, returned⟩
  | pop {m returned id rest} (first : m.completed = id :: rest) :
      Turn m ⟨.crowded, returned⟩ { m with completed := rest } ⟨.removing id, returned⟩
  | remove {m returned id} (found : id ∈ m.terminals) :
      Turn m ⟨.removing id, returned⟩ { m with terminals := m.terminals.filter (· != id) }
        ⟨.unretaining id, returned⟩
  | absent {m returned id} (missing : id ∉ m.terminals) :
      Turn m ⟨.removing id, returned⟩ { m with terminals := m.terminals.filter (· != id) }
        ⟨.holding, returned⟩
  | unretain {m returned id s} (present : m.sessions[id]? = some s) :
      Turn m ⟨.unretaining id, returned⟩ (m.setSession id { s with retained := false }) ⟨.holding, returned⟩
  | drop {m returned} :
      Turn m ⟨.roomy, returned⟩ { m with availablePermits := m.availablePermits + 1 } ⟨.plain, returned⟩
  | insert {m returned} :
      Turn m ⟨.roomy, returned⟩ m.addTerminal ⟨.plain, returned⟩
  | take {m returned id s} (present : m.sessions[id]? = some s) (permit : s.terminalPermit = true) :
      Turn m ⟨.plain, returned⟩ (m.setSession id { s with terminalPermit := false }) ⟨.taking id, returned⟩
  | push {m returned id} (retained : m.isRetained id = true) :
      Turn m ⟨.taking id, returned⟩ { m with completed := m.completed ++ [id] } ⟨.returning id, returned⟩
  | skip {m returned id} (dropped : m.isRetained id = false) :
      Turn m ⟨.taking id, returned⟩ m ⟨.returning id, returned⟩
  | release {m returned id} :
      Turn m ⟨.returning id, returned⟩ { m with availablePermits := m.availablePermits + 1 }
        ⟨.plain, id :: returned⟩
  | mark {m returned id s} (present : m.sessions[id]? = some s) :
      Turn m ⟨.plain, returned⟩
        { m.setSession id { s with retained := false } with completed := m.completed.filter (· != id) }
        ⟨.marked id, returned⟩
  | removed {m returned id} :
      Turn m ⟨.marked id, returned⟩ { m with terminals := m.terminals.filter (· != id) }
        ⟨.plain, returned⟩

section Turns
variable {m m' : TerminalManager} {q : Place} {choice : Bool}

theorem sameRefl : SameBooks m m := ⟨rfl, rfl, rfl, fun _ => rfl, fun _ => rfl, rfl, rfl, rfl⟩

theorem onSessionSome {α : Type} {id : Nat} {f : TerminalSession → Option (α × TerminalSession)}
    {answer : α} (applied : m.onSession id f = some (answer, m')) :
    ∃ s s', m.sessions[id]? = some s ∧ f s = some (answer, s') ∧
      m' = m.setSession id s' := by
  unfold TerminalManager.onSession at applied
  split at applied
  · contradiction
  · rename_i s present
    obtain ⟨⟨answer', s'⟩, done, same⟩ := Option.map_eq_some_iff.mp applied
    cases same
    exact ⟨s, s', present, done, rfl⟩

theorem setElsewhere {id other : Nat} {s : TerminalSession} (different : other ≠ id) :
    (m.setSession id s).sessions[other]? = m.sessions[other]? :=
  List.getElem?_set_ne (Ne.symm different)

theorem setHere {id : Nat} {s s' : TerminalSession} (present : m.sessions[id]? = some s) :
    (m.setSession id s').sessions[id]? = some s' :=
  List.getElem?_set_self (List.getElem?_eq_some_iff.mp present).1

theorem sameSession {id : Nat} {s s' : TerminalSession} (present : m.sessions[id]? = some s)
    (permit : s'.terminalPermit = s.terminalPermit) (retained : s'.retained = s.retained) :
    SameBooks m (m.setSession id s') where
  limit := rfl
  available := rfl
  unfinalized := by
    have moved := @sumSet _ (fun s : TerminalSession => s.terminalPermit.toNat) _ _ _ s' present
    simp only [permit] at moved
    exact Nat.add_right_cancel moved
  permitOf := fun other => by
    by_cases here : other = id
    · subst here
      simp [TerminalManager.permitOf, setHere present, present, permit]
    · simp [TerminalManager.permitOf, setElsewhere here]
  flag := fun other => by
    by_cases here : other = id
    · subst here
      simp [TerminalManager.flag, setHere present, present, retained]
    · simp [TerminalManager.flag, setElsewhere here]
  terminals := rfl
  completed := rfl
  sessions := by simp [TerminalManager.setSession]

theorem actTurns {o : Act} {answer : o.Answer} (allowed : q.may o)
    (applied : apply o choice m = some (answer, m')) : Turn m q m' (q.after o answer) := by
  obtain ⟨stage, returned⟩ := q
  cases o
  case tryAcquire =>
    cases allowed
    simp only [apply] at applied
    split at applied <;> cases applied
    · exact .acquire (by assumption)
    · exact .quiet sameRefl
  case terminalsFull =>
    cases allowed
    cases applied
    by_cases full : m.limit ≤ m.terminals.length
    · rw [decide_eq_true full]
      exact .full
    · rw [decide_eq_false full]
      exact .room (Nat.lt_of_not_le full)
  case popCompleted =>
    cases allowed
    simp only [apply] at applied
    split at applied <;> cases applied
    · exact .drained (by assumption)
    · exact .pop (by assumption)
  case removeTerminal id =>
    cases applied
    rcases allowed with removing | marked
    · cases removing
      by_cases found : id ∈ m.terminals
      · rw [decide_eq_true found]
        exact .remove found
      · rw [decide_eq_false found]
        exact .absent found
    · cases marked
      exact .removed
  case clearRetained id =>
    cases allowed
    obtain ⟨s, s', present, done, rfl⟩ := onSessionSome applied
    cases done
    exact .unretain present
  case dropPermit => cases allowed; cases applied; exact .drop
  case insertTerminal => cases allowed; cases applied; exact .insert
  case takePermit id =>
    cases allowed
    obtain ⟨s, s', present, done, rfl⟩ := onSessionSome applied
    cases permit : s.terminalPermit with
    | true =>
      rw [permit] at done
      cases done
      exact .take present permit
    | false =>
      rw [permit] at done
      cases done
      exact .quiet (sameSession present permit.symm rfl)
  case pushCompleted id =>
    cases allowed
    cases applied
    cases retained : m.isRetained id with
    | true => exact .push retained
    | false => exact .skip retained
  case releasePermit id => cases allowed; cases applied; exact .release
  case markRemoved id =>
    cases allowed
    obtain ⟨⟨answer', mid⟩, marked, same⟩ := Option.map_eq_some_iff.mp applied
    obtain ⟨s, s', present, done, rfl⟩ := onSessionSome marked
    cases done
    cases same
    exact .mark present
  case lockOperation | lockFinalization =>
    obtain ⟨s, s', present, done, rfl⟩ := onSessionSome applied
    split at done <;> cases done
    exact .quiet (sameSession present rfl rfl)
  case unlockOperation | unlockFinalization | permitIsNone =>
    obtain ⟨s, s', present, done, rfl⟩ := onSessionSome applied
    cases done
    exact .quiet (sameSession present rfl rfl)
  all_goals
    cases applied
    exact .quiet sameRefl

end Turns
end Maestro.TerminalTable
