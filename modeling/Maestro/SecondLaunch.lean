import Maestro.Interleaving

/-! A second launch on the data directory of a running daemon. `bind` opens the storage and
marks interrupted work before it asks for the socket. -/
namespace Maestro.Launch
open Interleaving

structure SessionRow where
  id : String
  state : String
  updatedAt : String
  deriving DecidableEq, Repr

structure RunRow where
  id : String
  state : String
  exitedAt : Option String
  recoveryJson : Option String
  deriving DecidableEq, Repr

structure TerminalRow where
  id : String
  state : String
  deriving DecidableEq, Repr

structure Rows where
  sessions : List SessionRow
  runs : List RunRow
  terminals : List TerminalRow
  deriving DecidableEq, Repr

/-- The states of `process_runs` and `sessions` that the recovery marks. -/
def unfinished : List String :=
  ["created", "starting", "ready", "running", "awaiting_permission", "awaiting_user_input",
    "background", "interrupting"]

def unfinishedTerminal : List String := ["running", "starting"]

def RunRow.interrupt (now : String) (row : RunRow) : RunRow :=
  if row.state ∈ unfinished then
    { row with
      state := "interrupted"
      exitedAt := some (row.exitedAt.getD now)
      recoveryJson := some "\x7b\"reason\":\"daemon_restart\"\x7d" }
  else row

def SessionRow.interrupt (now : String) (row : SessionRow) : SessionRow :=
  if row.state ∈ unfinished then { row with state := "interrupted", updatedAt := now } else row

def TerminalRow.interrupt (row : TerminalRow) : TerminalRow :=
  if row.state ∈ unfinishedTerminal then { row with state := "interrupted" } else row

/-- The transaction of `recover_interrupted_work`. -/
def Rows.recover (now : String) (rows : Rows) : Rows where
  runs := rows.runs.map (·.interrupt now)
  sessions := rows.sessions.map (·.interrupt now)
  terminals := rows.terminals.map (·.interrupt)

structure Rows.Settled (rows : Rows) : Prop where
  sessions : ∀ row ∈ rows.sessions, row.state ∉ unfinished
  runs : ∀ row ∈ rows.runs, row.state ∉ unfinished
  terminals : ∀ row ∈ rows.terminals, row.state ∉ unfinishedTerminal

instance (rows : Rows) : Decidable rows.Settled :=
  decidable_of_iff ((∀ row ∈ rows.sessions, row.state ∉ unfinished) ∧
      (∀ row ∈ rows.runs, row.state ∉ unfinished) ∧
      ∀ row ∈ rows.terminals, row.state ∉ unfinishedTerminal)
    ⟨fun h => ⟨h.1, h.2.1, h.2.2⟩, fun h => ⟨h.sessions, h.runs, h.terminals⟩⟩

theorem mapSame {α : Type} {f : α → α} {p : α → Prop} (marks : ∀ a, f a = a ↔ ¬ p a) (rows : List α) :
    rows.map f = rows ↔ ∀ row ∈ rows, ¬ p row := by
  induction rows with
  | nil => simp
  | cons row rest ih => simp [marks, ih]

theorem recoverSame (now : String) (rows : Rows) : rows.recover now = rows ↔ rows.Settled := by
  have marked : "interrupted" ∉ unfinished ∧ "interrupted" ∉ unfinishedTerminal := by decide
  have run : ∀ row : RunRow, row.interrupt now = row ↔ ¬ row.state ∈ unfinished := by
    intro row
    unfold RunRow.interrupt
    split
    · rename_i before
      refine ⟨fun same => ?_, fun clear => absurd before clear⟩
      rw [← congrArg RunRow.state same] at before
      exact absurd before marked.1
    · rename_i clear
      exact ⟨fun _ => clear, fun _ => rfl⟩
  have session : ∀ row : SessionRow, row.interrupt now = row ↔ ¬ row.state ∈ unfinished := by
    intro row
    unfold SessionRow.interrupt
    split
    · rename_i before
      refine ⟨fun same => ?_, fun clear => absurd before clear⟩
      rw [← congrArg SessionRow.state same] at before
      exact absurd before marked.1
    · rename_i clear
      exact ⟨fun _ => clear, fun _ => rfl⟩
  have terminal : ∀ row : TerminalRow, row.interrupt = row ↔ ¬ row.state ∈ unfinishedTerminal := by
    intro row
    unfold TerminalRow.interrupt
    split
    · rename_i before
      refine ⟨fun same => ?_, fun clear => absurd before clear⟩
      rw [← congrArg TerminalRow.state same] at before
      exact absurd before marked.2
    · rename_i clear
      exact ⟨fun _ => clear, fun _ => rfl⟩
  constructor
  · intro same
    exact ⟨(mapSame session _).mp (congrArg Rows.sessions same),
      (mapSame run _).mp (congrArg Rows.runs same),
      (mapSame terminal _).mp (congrArg Rows.terminals same)⟩
  · intro settled
    have runs := (mapSame run _).mpr settled.runs
    have sessions := (mapSame session _).mpr settled.sessions
    have terminals := (mapSame terminal _).mpr settled.terminals
    unfold Rows.recover
    rw [runs, sessions, terminals]

inductive RowWrite where
  | session (row : SessionRow)
  | run (row : RunRow)
  | terminal (row : TerminalRow)
  | deleteSession (id : String)
  | deleteRun (id : String)
  | deleteTerminal (id : String)
  deriving DecidableEq, Repr

def upsert {α : Type} (key : α → String) (row : α) (rows : List α) : List α :=
  if rows.any (key · == key row) then rows.map fun old => if key old == key row then row else old
  else rows ++ [row]

def Rows.write (rows : Rows) : RowWrite → Rows
  | .session row => { rows with sessions := upsert SessionRow.id row rows.sessions }
  | .run row => { rows with runs := upsert RunRow.id row rows.runs }
  | .terminal row => { rows with terminals := upsert TerminalRow.id row rows.terminals }
  | .deleteSession id => { rows with sessions := rows.sessions.filter (·.id != id) }
  | .deleteRun id => { rows with runs := rows.runs.filter (·.id != id) }
  | .deleteTerminal id => { rows with terminals := rows.terminals.filter (·.id != id) }

def Rows.commit (rows : Rows) (writes : List RowWrite) : Rows := writes.foldl Rows.write rows

inductive DaemonError where
  | invalidConfiguration (message : String)
  | io
  | storageInitialization
  | alreadyRunning
  deriving DecidableEq, Repr

structure DaemonConfig where
  maximumConnections : Nat
  maximumProcesses : Nat
  maximumTerminals : Nat
  deriving DecidableEq, Repr

inductive StorageState where
  | ready
  | passphraseRequired
  | unavailable
  deriving DecidableEq, Repr

/-- `log` are the frames in the write-ahead log, which the connection of the running daemon
keeps from being dropped, and `committed` its transactions since the second launch began. -/
structure Directory where
  rows : Rows
  log : Nat
  envelope : Bool
  database : Bool
  committed : List (List RowWrite)
  launched : Option (Except DaemonError Unit)

inductive Act where
  | prepare
  | envelopeExists
  | loadKey
  | databaseExists
  | dailySnapshot
  | walLength
  | openAndMigrate
  | recover
  | loadToken
  | bindSocket
  | connect
  | replaceSocket
  | return_ (result : Except DaemonError Unit)

@[reducible] def Act.Answer : Act → Type
  | .envelopeExists | .databaseExists => Bool
  | .walLength => Nat
  | .bindSocket => Except Bool Unit
  | .return_ _ => Unit
  | _ => Bool

abbrev actions : Actions := ⟨Act, Act.Answer⟩

abbrev Program := Prog actions

@[simp] def perform (o : Act) : Program o.Answer := .act (A := actions) o .done

inductive Choice where
  | ok
  | fails
  | at (now : String)
  deriving DecidableEq, Repr

/-- A call that may fail and leaves the directory as it is. -/
def attempt (choice : Choice) (d : Directory) : Option (Bool × Directory) :=
  some (choice != .fails, d)

/-- The listener of the running daemon holds the socket; the migrations only make tables. -/
def apply : (o : Act) → Choice → Directory → Option (o.Answer × Directory)
  | .envelopeExists, _, d => some (d.envelope, d)
  | .databaseExists, _, d => some (d.database, d)
  | .walLength, _, d => some (d.log, d)
  | .recover, .at now, d =>
    some (true, { d with
      rows := d.rows.recover now
      log := if d.rows.recover now = d.rows then d.log else d.log + 1 })
  | .recover, .fails, d => some (false, d)
  | .recover, .ok, _ => none
  | .bindSocket, _, d => some (.error true, d)
  | .return_ result, _, d => some ((), { d with launched := some result })
  | .prepare, choice, d | .loadKey, choice, d | .dailySnapshot, choice, d
  | .openAndMigrate, choice, d | .loadToken, choice, d | .connect, choice, d
  | .replaceSocket, choice, d => attempt choice d

/-- `Database::open` and `recover_interrupted_work`; a log with bytes is refused. -/
def readyDatabase : Program StorageState := do
  let present ← perform .databaseExists
  let bytes ← if present then perform .walLength else pure 0
  if bytes > 0 then pure .unavailable
  else if ← perform .openAndMigrate then
    if ← perform .recover then pure .ready else pure .unavailable
  else pure .unavailable

def openPersistentDatabase : Program StorageState := do
  if ← perform .databaseExists then
    if ← perform .dailySnapshot then readyDatabase else pure .unavailable
  else readyDatabase

def initializePersistent : Program StorageState := do
  if ← perform .envelopeExists then pure .passphraseRequired
  else if ← perform .loadKey then openPersistentDatabase
  else if ← perform .databaseExists then pure .unavailable
  else pure .passphraseRequired

def bindSingleInstance : Program (Except DaemonError Unit) := do
  match ← perform .bindSocket with
  | .ok () => pure (.ok ())
  | .error false => pure (.error .io)
  | .error true =>
    if ← perform .connect then pure (.error .alreadyRunning)
    else if ← perform .replaceSocket then pure (.ok ())
    else pure (.error .io)

def validate (config : DaemonConfig) : Except DaemonError Unit :=
  if config.maximumConnections = 0 then
    .error (.invalidConfiguration "connection limit must be nonzero")
  else if config.maximumProcesses = 0 then
    .error (.invalidConfiguration "process limit must be nonzero")
  else if config.maximumTerminals = 0 ∨ config.maximumTerminals > config.maximumProcesses then
    .error (.invalidConfiguration
      "terminal limit must be nonzero and no greater than the process limit")
  else .ok ()

def bind (config : DaemonConfig) : Program (Except DaemonError Unit) := do
  match validate config with
  | .error error => pure (.error error)
  | .ok () =>
    if ← perform .prepare then
      let _ ← initializePersistent
      if ← perform .loadToken then bindSingleInstance else pure (.error .io)
    else pure (.error .io)

abbrev Entry := DaemonConfig

def body (config : Entry) : Program (Option Entry) := do
  let result ← bind config
  perform (.return_ result)
  pure none

/-- The running daemon commits its own transactions beside the second launch. -/
abbrev machine : Machine actions where
  Memory := Directory
  Entry := Entry
  Choice := Choice
  Outside := List RowWrite
  body := body
  apply := apply
  spawns _ := none
  callable _ := true
  outside writes d := some { d with
    rows := d.rows.commit writes
    log := d.log + writes.length
    committed := d.committed ++ [writes] }

/-- The recovery, where a second launch gets to it, finds nothing to mark. -/
def recovers (c : Config machine) : Event machine → Bool
  | .run index (.at _) =>
    match c.tasks[index]?.bind Task.next with
    | some .recover => true
    | _ => false
  | _ => false

def Idle (c : Config machine) (e : Event machine) : Prop :=
  recovers c e = true → c.memory.rows.Settled

instance (c : Config machine) (e : Event machine) : Decidable (Idle c e) := by
  unfold Idle
  infer_instance

def started (d : Directory) : Config machine := ⟨{ d with committed := [], launched := none }, []⟩

section Runs
variable {d : Directory} {c c' : Config machine} {e : Event machine}

def replay (rows : Rows) (committed : List (List RowWrite)) : Rows :=
  committed.foldl Rows.commit rows

theorem replayCommit (rows : Rows) (committed : List (List RowWrite)) (writes : List RowWrite) :
    replay rows (committed ++ [writes]) = (replay rows committed).commit writes := by
  simp [replay]

theorem attemptKeeps {choice : Choice} {d d' : Directory} {answer : Bool}
    (tried : attempt choice d = some (answer, d')) : d' = d := by
  cases Option.some.inj tried
  rfl

theorem applyKeeps {o : Act} {choice : Choice} {d d' : Directory} {answer : o.Answer}
    (other : o ≠ .recover) (applied : apply o choice d = some (answer, d')) :
    d'.rows = d.rows ∧ d'.log = d.log ∧ d'.committed = d.committed := by
  cases o
  case recover => exact absurd rfl other
  case envelopeExists | databaseExists | walLength | bindSocket | return_ =>
    cases Option.some.inj applied
    exact ⟨rfl, rfl, rfl⟩
  all_goals
    have same := attemptKeeps applied
    subst same
    exact ⟨rfl, rfl, rfl⟩

theorem recoverApplies {choice : Choice} {d d' : Directory} {answer : Bool}
    (applied : apply .recover choice d = some (answer, d')) :
    d' = d ∨ ∃ now, choice = .at now ∧ d'.rows = d.rows.recover now ∧
      d'.committed = d.committed ∧ (d'.log = 0 → d.log = 0 ∧ d.rows.recover now = d.rows) := by
  cases choice with
  | ok => cases applied
  | fails =>
    cases Option.some.inj applied
    exact .inl rfl
  | «at» now =>
    cases Option.some.inj applied
    refine .inr ⟨now, rfl, rfl, rfl, fun empty => ?_⟩
    dsimp only at empty
    split at empty
    · rename_i same
      exact ⟨empty, same⟩
    · exact absurd empty (Nat.succ_ne_zero _)

theorem recoversHere {index : Nat} {now : String} {t : Task machine} {answer memory next}
    (performs : Performs c index (.at now) t .recover answer memory next) :
    recovers c (.run index (.at now)) = true := by
  simp only [recovers, performs.present, Option.bind_some, performsNext performs]

theorem idleReplays (reached : Reach Idle (started d) c) :
    c.memory.rows = replay d.rows c.memory.committed := by
  induction reached with
  | start => rfl
  | @step c e c' before idle moves ih =>
    cases moves with
    | call allowed => exact ih
    | @act index choice t o answer memory next performs =>
      by_cases recovery : o = .recover
      · subst recovery
        cases recoverApplies performs.effect with
        | inl same =>
          subst same
          exact ih
        | inr recovered =>
          obtain ⟨now, rfl, rows, committed, -⟩ := recovered
          have settled := idle (recoversHere performs)
          show memory.rows = replay d.rows memory.committed
          rw [rows, committed, (recoverSame now _).mpr settled]
          exact ih
      · obtain ⟨rows, -, committed⟩ := applyKeeps recovery performs.effect
        show memory.rows = replay d.rows memory.committed
        rw [rows, committed]
        exact ih
    | @outside writes memory effect =>
      cases Option.some.inj effect
      show c.memory.rows.commit writes = replay d.rows (c.memory.committed ++ [writes])
      rw [replayCommit, ← ih]

theorem recoveryMarks (moves : Moves c e c') (recovery : recovers c e = true) :
    c'.memory.rows = c.memory.rows ↔ c.memory.rows.Settled := by
  cases moves with
  | call allowed => cases recovery
  | outside effect => cases recovery
  | @act index choice t o answer memory next performs =>
    cases choice with
    | ok => cases recovery
    | fails => cases recovery
    | «at» now =>
      simp only [recovers, performs.present, Option.bind_some, performsNext performs] at recovery
      cases o
      case recover =>
        cases Option.some.inj performs.effect
        exact recoverSame now _
      all_goals cases recovery

theorem emptySettled (first : d.log = 0 → d.rows.Settled) (reached : Reach Always (started d) c)
    (empty : c.memory.log = 0) : c.memory.rows.Settled := by
  induction reached with
  | start => exact first empty
  | @step c e c' before _ moves ih =>
    cases moves with
    | call allowed => exact ih empty
    | @act index choice t o answer memory next performs =>
      by_cases recovery : o = .recover
      · subst recovery
        cases recoverApplies performs.effect with
        | inl same =>
          subst same
          exact ih empty
        | inr recovered =>
          obtain ⟨now, rfl, rows, -, quiet⟩ := recovered
          obtain ⟨before', same⟩ := quiet empty
          show memory.rows.Settled
          rw [rows, same]
          exact ih before'
      · obtain ⟨rows, log, -⟩ := applyKeeps recovery performs.effect
        show memory.rows.Settled
        rw [rows]
        exact ih (log.symm.trans empty)
    | @outside writes memory effect =>
      cases Option.some.inj effect
      have nothing : c.memory.log + writes.length = 0 := empty
      have none' : writes = [] := List.length_eq_zero_iff.mp (Nat.add_eq_zero_iff.mp nothing).2
      subst none'
      exact ih (Nat.add_eq_zero_iff.mp nothing).1

end Runs

/-- A second launch leaves the rows to the running daemon exactly as long as its recovery
finds nothing unfinished. -/
theorem secondLaunch {d : Directory} {c : Config machine} :
    (Reach Idle (started d) c → c.memory.rows = replay d.rows c.memory.committed) ∧
    (∀ e c', Moves c e c' → recovers c e = true →
      (c'.memory.rows = c.memory.rows ↔ c.memory.rows.Settled)) ∧
    ((d.log = 0 → d.rows.Settled) → Reach Always (started d) c → ¬ c.memory.rows.Settled →
      0 < c.memory.log) :=
  ⟨idleReplays, fun _ _ => recoveryMarks, fun first reached busy =>
    Nat.pos_of_ne_zero fun empty => busy (emptySettled first reached empty)⟩

def config : DaemonConfig := ⟨1, 1, 1⟩

def opened : Directory := ⟨⟨[], [], []⟩, 0, false, true, [], none⟩

def startsSession : List RowWrite := [.session ⟨"s1", "running", "t0"⟩]

def raceSchedule (writes : List RowWrite) : List (Event machine) :=
  .call config :: List.replicate 7 (.run 0 .ok) ++ [.outside writes, .run 0 .ok, .run 0 (.at "t1")] ++
    List.replicate 4 (.run 0 .ok)

theorem raceRun : (runFrom (started opened) (raceSchedule startsSession)).map
    (fun c => (c.memory.rows, c.memory.committed, c.memory.launched)) =
      some (⟨[⟨"s1", "interrupted", "t1"⟩], [], []⟩, [startsSession],
        some (.error .alreadyRunning)) := by
  decide

theorem secondLaunchMarks : ¬ ∀ (d : Directory) (c : Config machine),
    Reach Always (started d) c → c.memory.launched = some (.error .alreadyRunning) →
      c.memory.rows = replay d.rows c.memory.committed := by
  intro harmless
  obtain ⟨c, ran, seen⟩ := Option.map_eq_some_iff.mp raceRun
  have rows : c.memory.rows = _ := congrArg Prod.fst seen
  have committed : c.memory.committed = _ := congrArg (fun s => s.2.1) seen
  have launched : c.memory.launched = _ := congrArg (fun s => s.2.2) seen
  have same := harmless opened c (reachRun .start (fun _ _ => trivial) ran) launched
  rw [rows, committed] at same
  revert same
  decide

theorem quietRun : (goodRun Idle (started opened)
    (raceSchedule [.session ⟨"s1", "stopped", "t0"⟩])).map (·.memory.launched) =
      some (some (.error .alreadyRunning)) := by
  decide

theorem secondLaunchQuiet : ∃ c : Config machine, c.memory.launched = some (.error .alreadyRunning) ∧
    c.memory.rows = replay opened.rows c.memory.committed := by
  obtain ⟨c, ran, refused⟩ := Option.map_eq_some_iff.mp quietRun
  exact ⟨c, refused, secondLaunch.1 (reachGoodRun .start ran)⟩

end Maestro.Launch
