import Maestro.Database

/-! What a crash or a clean close can leave on disk, and what the next open makes of it. -/
namespace Maestro.Database
open Interleaving WriteAheadLog

variable {sql : Sqlite}

/-- The disks of all lives of the daemon: each starts with the open of the database and
ends anywhere. -/

inductive Disks (sql : Sqlite) : Disk sql → Prop
  | fresh : Disks sql (.blank sql)
  | life {d : Disk sql} {path : String} {key : DatabaseKey} {c : Config (engine sql)}
      (before : Disks sql d)
      (run : Reach Always ⟨d, [Task.enter (M := engine sql) (.launch path key)]⟩ c) :
      Disks sql c.memory

/-- What a connection reads is what was committed, and there is no log without its file. -/
structure Intact (d : Disk sql) : Prop where
  sound : d.files.Sound
  exact : d.files.view = d.committed
  whole : d.present = false → d.files.log = none

theorem blankIntact : Intact (.blank sql) :=
  ⟨nofun, rfl, fun _ => rfl⟩

theorem performSound {f : Files sql.Page sql.Data} (op : FileOp sql) (sound : f.Sound) :
    (op.perform f).Sound := by
  cases op with
  | openLog => exact openSound sound
  | beginWrite =>
    simp only [FileOp.perform]
    split
    · exact startSound
    · exact sound
  | spill first write => exact spillSound
  | commit => exact commitSound sound
  | backfill page => exact sound
  | truncate =>
    simp only [FileOp.perform]
    split
    · exact truncateSound
    · exact sound
  | removeLog =>
    simp only [FileOp.perform]
    split
    · exact removeSound
    · exact sound

theorem performView {f : Files sql.Page sql.Data} (op : FileOp sql) :
    (op.perform f).view = match op with
      | .commit => overlay f.view f.tail
      | _ => f.view := by
  cases op with
  | openLog => exact openView
  | beginWrite =>
    simp only [FileOp.perform]
    split
    · rename_i complete
      exact startView complete
    · rfl
  | spill first write => exact spillView
  | commit => exact commitView
  | backfill page => exact backfillView
  | truncate =>
    simp only [FileOp.perform]
    split
    · rename_i complete
      exact truncateView complete
    · rfl
  | removeLog =>
    simp only [FileOp.perform]
    split
    · rename_i complete
      exact removeView complete
    · rfl

theorem fileIntact {d : Disk sql} (op : FileOp sql) (intact : Intact d)
    (present : d.present = true) :
    Intact ({ d with
      files := op.perform d.files
      history := match op with
        | .commit => d.history ++ [d.files.tail]
        | _ => d.history } : Disk sql) := by
  refine ⟨performSound op intact.sound, (performView op).trans ?_, fun absent => ?_⟩
  · cases op with
    | commit =>
      simp only [Disk.committed, List.flatten_append, List.flatten_singleton, overlayAppend]
      rw [intact.exact, Disk.committed]
    | _ => exact intact.exact
  · simp [present] at absent

theorem applyIntact {o : Act sql} {choice : Choice sql} {d d' : Disk sql} {answer}
    (applied : Disk.apply o choice d = some (answer, d')) (intact : Intact d) : Intact d' := by
  cases o with
  | file op =>
    simp only [Disk.apply] at applied
    split at applied
    · rename_i present
      cases applied
      exact fileIntact op intact present
    · cases applied
  | createFile =>
    cases applied
    exact ⟨intact.sound, intact.exact, nofun⟩
  | enableWal key =>
    simp only [Disk.apply] at applied
    split at applied
    · cases applied
      exact ⟨intact.sound, intact.exact, intact.whole⟩
    · cases applied
      exact intact
  | command =>
    simp only [Disk.apply] at applied
    split at applied
    · cases applied
      exact intact
    · cases applied
  | _ =>
    cases applied
    exact intact

theorem disksIntact {d : Disk sql} (reached : Disks sql d) : Intact d := by
  induction reached with
  | fresh => exact blankIntact
  | life before run ih =>
    refine @reachInvariant _ _ _ _ (fun c => Intact c.memory) ih ?_ _ run
    intro c e c' _ intact _ moves
    cases moves with
    | call allowed => cases allowed
    | act performs => exact applyIntact performs.effect intact
    | @outside x _ effect => exact x.elim

abbrev alone {α : Type} (p : Program sql α) (d : Disk sql) : Option (α × Disk sql) :=
  p.exec (engine sql) .go d

theorem aloneIntact {α : Type} {p : Program sql α} {d d' : Disk sql} {value : α}
    (ran : alone p d = some (value, d')) (intact : Intact d) : Intact d' := by
  induction p generalizing d with
  | done v =>
    cases ran
    exact intact
  | act o next ih =>
    simp only [alone, Prog.exec] at ran
    split at ran
    · cases ran
    · rename_i answer mid effect
      exact ih answer ran (applyIntact effect intact)

theorem spillAllAlone (writes : Writes sql) {d : Disk sql} (present : d.present = true) :
    ∃ d', alone (spillAll writes) d = some ((), d') ∧ d'.present = true ∧ d'.key = d.key ∧
      d'.history = d.history ∧ d'.files.tail = d.files.tail ++ writes := by
  induction writes generalizing d with
  | nil => exact ⟨d, rfl, present, rfl, rfl, (List.append_nil _).symm⟩
  | cons write rest ih =>
    obtain ⟨d', ran, present', key, history, tail⟩ :=
      @ih { d with files := d.files.spill false write } present
    refine ⟨d', ?_, present', key, history, ?_⟩
    · simpa [alone, spillAll, Prog.exec, Disk.apply, present, FileOp.perform] using ran
    · rw [tail]
      cases found : d.files.log <;> simp [Files.spill, Files.tail, found, Log.empty]

theorem transactionAlone {writes : Writes sql} (some' : writes ≠ []) {d : Disk sql}
    (present : d.present = true) :
    ∃ d', alone (transaction writes true) d = some ((), d') ∧ d'.present = true ∧
      d'.key = d.key ∧ d'.history = d.history ++ [writes] := by
  cases writes with
  | nil => exact absurd rfl some'
  | cons write rest =>
    obtain ⟨d', ran, present', key, history, tail⟩ := spillAllAlone rest
      (d := { d with files := ((.beginWrite : FileOp sql).perform d.files).spill true write })
      present
    refine ⟨{ d' with files := d'.files.commit, history := d'.history ++ [d'.files.tail] }, ?_,
      present', key, ?_⟩
    · have start : alone (transaction (write :: rest) true) d =
          alone (spillAll rest >>= fun _ => onFile .commit) { d with
            files := ((.beginWrite : FileOp sql).perform d.files).spill true write } := by
        simp [alone, transaction, Prog.exec, Disk.apply, present, FileOp.perform]
      rw [start, alone, execBind ran]
      simp [Prog.exec, Disk.apply, present', FileOp.perform]
    · rw [tail, history]
      simp [Files.spill, Files.tail]

/-! The transactions a migration adds to what was committed. -/

section Schema
variable (sql)

def versionWrites (version : Int) (image : sql.Page → sql.Data) : List (Writes sql) :=
  if (sql.versions image).any (·.contains version) then [] else [sql.migration version image]

def tableWrites (image : sql.Page → sql.Data) : List (Writes sql) :=
  if (sql.versions image).isSome then [] else [sql.createMigrations image]

def pendingWrites : List Int → (sql.Page → sql.Data) → List (Writes sql)
  | [], _ => []
  | version :: rest, image =>
      versionWrites sql version image ++
        pendingWrites rest (overlay image (versionWrites sql version image).flatten)

def schemaWrites (image : sql.Page → sql.Data) : List (Writes sql) :=
  tableWrites sql image ++
    pendingWrites sql [1, 2, 3] (overlay image (tableWrites sql image).flatten)

def Supported (image : sql.Page → sql.Data) : Prop :=
  ∀ rows, sql.versions image = some rows → ∀ version ∈ rows, version ≤ currentSchemaVersion

end Schema

theorem committedAfter {d d' : Disk sql} {added : List (Writes sql)}
    (history : d'.history = d.history ++ added) :
    d'.committed = overlay d.committed added.flatten := by
  simp [Disk.committed, history, overlayAppend]

theorem applyMigrationAlone (version : Int) {d : Disk sql} {rows : List Int} (intact : Intact d)
    (present : d.present = true) (table : sql.versions d.committed = some rows) :
    ∃ d' rows', alone (applyMigration version) d = some ((), d') ∧ Intact d' ∧
      d'.present = true ∧ d'.key = d.key ∧
      d'.history = d.history ++ versionWrites sql version d.committed ∧
      sql.versions d'.committed = some rows' := by
  have reads : d.versions = some rows := by rw [Disk.versions, intact.exact, table]
  by_cases applied : version ∈ rows
  · have ran : alone (applyMigration version) d = some ((), d) := by
      simp [alone, applyMigration, Prog.exec, Disk.apply, reads, applied]
    exact ⟨d, rows, ran, intact, present, rfl, by simp [versionWrites, table, applied], table⟩
  · have after := sql.migrated table applied
    have some' : sql.migration version d.committed ≠ [] := by
      intro empty
      rw [empty, overlayNil, table] at after
      simp at after
    obtain ⟨d', ran, present', key, history⟩ := transactionAlone some' present
    have ran' : alone (applyMigration version) d = some ((), d') := by
      simpa [alone, applyMigration, Prog.exec, Disk.apply, reads, applied, intact.exact] using ran
    have added : d'.history = d.history ++ versionWrites sql version d.committed := by
      simp [versionWrites, table, applied, history]
    refine ⟨d', rows ++ [version], ran', aloneIntact ran intact, present', key, added, ?_⟩
    rw [committedAfter history]
    simpa using after

theorem tableAlone {d : Disk sql} (intact : Intact d) (present : d.present = true) :
    ∃ d' rows, alone createMigrationsTable d = some ((), d') ∧ Intact d' ∧
      d'.present = true ∧ d'.key = d.key ∧
      d'.history = d.history ++ tableWrites sql d.committed ∧
      sql.versions d'.committed = some rows ∧
      (sql.versions d.committed = none → rows = []) ∧
      (∀ before, sql.versions d.committed = some before → rows = before) := by
  have reads : d.versions = sql.versions d.committed := by rw [Disk.versions, intact.exact]
  cases table : sql.versions d.committed with
  | some rows =>
    refine ⟨d, rows, ?_, intact, present, rfl, by simp [tableWrites, table], table,
      fun absent => absurd absent (Option.some_ne_none rows), fun before same => Option.some.inj same⟩
    simp [alone, createMigrationsTable, Prog.exec, Disk.apply, reads, table]
  | none =>
    have after := sql.created table
    have some' : sql.createMigrations d.committed ≠ [] := by
      intro empty
      rw [empty, overlayNil, table] at after
      cases after
    obtain ⟨d', ran, present', key, history⟩ := transactionAlone some' present
    refine ⟨d', [], ?_, aloneIntact ran intact, present', key, by simp [tableWrites, table, history],
      ?_, fun _ => rfl, fun before same => absurd same.symm (Option.some_ne_none before)⟩
    · simpa [alone, createMigrationsTable, Prog.exec, Disk.apply, reads, table, intact.exact]
        using ran
    · rw [committedAfter history]
      simpa using after

theorem supportedLatest {rows : List Int} (supported : ∀ version ∈ rows, version ≤ currentSchemaVersion) :
    rejectFutureSchema rows.max? = .ok () := by
  cases latest : rows.max? with
  | none => rfl
  | some found =>
    have bounded := supported found (List.max?_mem latest)
    simp [rejectFutureSchema, Int.not_lt.mpr bounded]

theorem migrateAlone {d : Disk sql} (intact : Intact d) (present : d.present = true)
    (supported : Supported sql d.committed) :
    ∃ d', alone migrate d = some (.ok (), d') ∧ Intact d' ∧ d'.present = true ∧
      d'.history = d.history ++ schemaWrites sql d.committed := by
  obtain ⟨first, rows, ran, intact₀, present₀, -, history₀, table₀, fresh, kept⟩ :=
    tableAlone intact present
  obtain ⟨second, rows₁, ran₁, intact₁, present₁, -, history₁, table₁⟩ :=
    applyMigrationAlone 1 intact₀ present₀ table₀
  obtain ⟨third, rows₂, ran₂, intact₂, present₂, -, history₂, table₂⟩ :=
    applyMigrationAlone 2 intact₁ present₁ table₁
  obtain ⟨last, rows₃, ran₃, intact₃, present₃, -, history₃, table₃⟩ :=
    applyMigrationAlone 3 intact₂ present₂ table₂
  have latest : rejectFutureSchema (first.versions.bind List.max?) = .ok () := by
    have reads : first.versions = some rows := by rw [Disk.versions, intact₀.exact, table₀]
    rw [reads, Option.bind_some]
    apply supportedLatest
    cases before : sql.versions d.committed with
    | none => simp [fresh before]
    | some had => exact kept had before ▸ supported had before
  refine ⟨last, ?_, intact₃, present₃, ?_⟩
  · rw [migrate, alone, execBind ran]
    simp only [Prog.exec, perform, Prog.actBind, Prog.doneBind, Disk.apply, latest]
    rw [execBind ran₁, execBind ran₂, execBind ran₃]
    rfl
  · rw [history₃, history₂, history₁, history₀, schemaWrites, committedAfter history₂,
      committedAfter history₁, committedAfter history₀]
    simp [pendingWrites]

theorem verifyAlone (d : Disk sql) : alone verifySqlcipher d = some (.ok (), d) := by
  obtain ⟨version, known, c, member, visible⟩ := sql.encrypted
  have some' : ¬ ∀ x ∈ version.toList, x.isWhitespace = true := by
    intro all
    rw [all c member] at visible
    cases visible
  simp [alone, verifySqlcipher, Prog.exec, Disk.apply, known, some']

theorem probeRefuses {d : Disk sql} (path : String) (key : DatabaseKey)
    (left : 0 < d.files.logLength) :
    alone (probeSchemaCompatibility path key) d =
      some (.error (.uncheckpointedWal (path ++ "-wal")), d) := by
  cases log : d.files.log with
  | none => simp [Files.logLength, log] at left
  | some log' =>
    have positive : 0 < log'.length := by simpa [Files.logLength, log] using left
    simp [alone, probeSchemaCompatibility, Prog.exec, Disk.apply, log, positive, sidecarPath]

theorem probePasses {d : Disk sql} (intact : Intact d) (path : String) {key : DatabaseKey}
    (readable : d.Readable key) (supported : Supported sql d.committed)
    (empty : d.files.logLength = 0) :
    alone (probeSchemaCompatibility path key) d = some (.ok (), d) := by
  have short : (d.files.log.map Log.length).any (· > 0) = false := by
    unfold Files.logLength at empty
    cases log : d.files.log with
    | none => rfl
    | some log' => simpa [log] using empty
  have main : d.mainVersions = sql.versions d.committed := by
    rw [Disk.mainVersions, emptyView intact.sound empty, intact.exact]
  simp only [alone, probeSchemaCompatibility, perform, Prog.actBind, Prog.doneBind, Prog.exec,
    Disk.apply, short, Bool.false_eq_true, if_false]
  rw [execBind (verifyAlone d)]
  cases table : sql.versions d.committed with
  | none => simp [Prog.exec, Disk.apply, readable, main, table]
  | some rows =>
    have latest := supportedLatest (supported rows table)
    simp [Prog.exec, Disk.apply, readable, main, table, latest]

theorem openAlone {d : Disk sql} (intact : Intact d) (path : String) {key : DatabaseKey}
    (readable : d.Readable key) (supported : Supported sql d.committed)
    (empty : d.files.logLength = 0) :
    ∃ d', alone (openDatabase path key) d = some (.ok (), d') ∧ Intact d' ∧ d'.present = true ∧
      d'.history = d.history ++ schemaWrites sql d.committed := by
  let opened : Disk sql := { d with present := true, key := some key, files := d.files.openLog }
  have intact' : Intact opened := ⟨openSound intact.sound, openView.trans intact.exact, nofun⟩
  obtain ⟨d', ran, after, present, history⟩ := migrateAlone intact' rfl supported
  have readable' : ({ d with present := true } : Disk sql).Readable key := readable
  refine ⟨d', ?_, after, present, history⟩
  simp only [alone, openDatabase, perform, onFile, Prog.actBind, Prog.doneBind, Prog.pureDone,
    Prog.exec, Disk.apply]
  split
  · rw [execBind (probePasses intact path readable supported empty)]
    simp only [Prog.exec, Disk.apply]
    rw [execBind (verifyAlone _)]
    simpa [Prog.exec, Disk.apply, readable', FileOp.perform] using ran
  · simp only [Prog.exec, Disk.apply]
    rw [execBind (verifyAlone _)]
    simpa [Prog.exec, Disk.apply, readable', FileOp.perform] using ran

/-! A database with one page, the rows of `schema_migrations`. -/

def ledger : Sqlite where
  Page := Unit
  Data := Option (List Int)
  pages := inferInstance
  contents := inferInstance
  blank _ := none
  cipherVersion := some "4"
  versions image := image ()
  createMigrations _ := [((), some [])]
  migration version image := [((), some ((image ()).getD [] ++ [version]))]
  interrupted _ := []
  encrypted := ⟨"4", rfl, '4', by decide, by decide⟩
  unversioned := rfl
  created _ := rfl
  migrated table _ := by simp [overlay, table]

def crashed : Disk ledger :=
  let log := [((), some []), ((), some [1]), ((), some [1, 2]), ((), some [1, 2, 3])]
  ⟨true, some [7], ⟨fun _ => none, some ⟨log, [], 5⟩⟩, log.map fun write => [write]⟩

theorem crashedReached : Disks ledger crashed := by
  have ran : ((engine ledger).body (.launch "maestro.db" [7])).exec (engine ledger) .go
      (.blank ledger) = some (some .serve, crashed) := rfl
  have ends : ∃ tasks, Reach Always (⟨.blank ledger, [Task.enter (.launch "maestro.db" [7])]⟩ :
      Config (engine ledger)) ⟨crashed, tasks⟩ := execReach ran
  obtain ⟨tasks, reached⟩ := ends
  exact .life .fresh reached

theorem crashedSupported : Supported ledger crashed.committed := by
  intro rows table
  cases table
  decide

/-- The open succeeds exactly when the log holds no bytes, and then shows what was committed,
with the migrations that were not recorded; else it refuses and leaves the disk alone. -/
theorem openRecovers {d : Disk sql} (reached : Disks sql d) (path : String) (key : DatabaseKey)
    (readable : d.Readable key) (supported : Supported sql d.committed) :
    (d.files.logLength = 0 → ∃ d',
      (openDatabase path key).exec (engine sql) .go d = some (.ok (), d') ∧
      d'.history = d.history ++ schemaWrites sql d.committed ∧ d'.files.view = d'.committed ∧
      ∃ d'', (readyDatabase path key).exec (engine sql) .go d = some (.ok (), d'') ∧
        d''.files.view = d''.committed) ∧
    (0 < d.files.logLength →
      (openDatabase path key).exec (engine sql) .go d =
        some (.error (.uncheckpointedWal (path ++ "-wal")), d)) := by
  have intact := disksIntact reached
  constructor
  · intro empty
    obtain ⟨d', ran, intact', present, history⟩ := openAlone intact path readable supported empty
    obtain ⟨d'', recovered⟩ : ∃ d'', alone recoverInterruptedWork d' = some ((), d'') := by
      by_cases idle : sql.interrupted d'.files.view = []
      · exact ⟨d', by simp [alone, recoverInterruptedWork, Prog.exec, Disk.apply, idle, transaction]⟩
      · obtain ⟨d'', ran, -⟩ := transactionAlone idle present
        exact ⟨d'', by simpa [alone, recoverInterruptedWork, Prog.exec, Disk.apply] using ran⟩
    refine ⟨d', ran, history, intact'.exact, d'', ?_, (aloneIntact recovered intact').exact⟩
    rw [readyDatabase, execBind ran]
    exact execBind recovered
  · intro left
    have present : d.present = true := by
      by_contra absent
      have none' := intact.whole (by simpa using absent)
      simp [Files.logLength, none'] at left
    simp only [openDatabase, perform, Prog.actBind, Prog.doneBind, Prog.pureDone, Prog.exec,
      Disk.apply, present, if_true]
    rw [execBind (probeRefuses path key left)]
    rfl

theorem openRecoversLedger :
    (∃ d', (openDatabase "maestro.db" [7]).exec (engine ledger) .go (.blank ledger) =
        some (.ok (), d') ∧ d'.files.view = d'.committed) ∧
      (openDatabase "maestro.db" [7]).exec (engine ledger) .go crashed =
        some (.error (.uncheckpointedWal "maestro.db-wal"), crashed) := by
  obtain ⟨d', ran, -, shows, -⟩ :=
    (openRecovers (d := .blank ledger) .fresh "maestro.db" [7] (.inl rfl) nofun).1 rfl
  exact ⟨⟨d', ran, shows⟩,
    (openRecovers crashedReached "maestro.db" [7] (.inr rfl) crashedSupported).2 (by decide)⟩

theorem crashRefused : ¬ ∀ (sql : Sqlite) (d : Disk sql), Disks sql d →
    ∀ (path : String) (key : DatabaseKey), d.Readable key → Supported sql d.committed →
      ∃ d', (openDatabase path key).exec (engine sql) .go d = some (.ok (), d') ∧
        d'.history = d.history ++ schemaWrites sql d.committed ∧ d'.files.view = d'.committed := by
  intro opens
  obtain ⟨d', ran, -⟩ :=
    opens ledger crashed crashedReached "maestro.db" [7] (.inr rfl) crashedSupported
  have refused : (openDatabase "maestro.db" [7]).exec (engine ledger) .go crashed =
      some (.error (.uncheckpointedWal "maestro.db-wal"), crashed) := rfl
  rw [refused] at ran
  cases ran

end Maestro.Database
