import Maestro.RunRecords

/-! When the start and the end of a run take effect whole, and when the session row is left alone
with the change. -/
namespace Maestro.RunRecords
open Redaction

def Unchanged (t t' : Tables) : Prop :=
  t'.sessions = t.sessions ∧ t'.processRuns = t.processRuns

/-- Both rows are as the operation sets them, and the others are as they were. -/
def BothUpdated (session run : String) (sessionSet : SessionRow → Prop) (runSet : RunRow → Prop) (t t' : Tables) : Prop :=
  (∃ row ∈ t'.sessions, row.id = session ∧ sessionSet row) ∧
    (∃ row ∈ t'.processRuns, row.id = run ∧ runSet row) ∧
    t'.sessions.filter (·.id ≠ session) = t.sessions.filter (·.id ≠ session) ∧
    t'.processRuns.filter (·.id ≠ run) = t.processRuns.filter (·.id ≠ run)

def Atomic (updated : Tables → Tables → Prop) (operation : Tables → Except StorageRuntimeError Unit × Tables) (t : Tables) :
    Prop :=
  (operation t).1 = .ok () ∧ updated t (operation t).2 ∨
    ∃ error, (operation t).1 = .error error ∧ Unchanged t (operation t).2

def StartRecorded (now : Nat → Nat) (a : StartArguments) : Tables → Tables → Prop :=
  BothUpdated a.session a.run
    (fun row => row.state = "starting" ∧ row.title = some a.title ∧ row.updatedAt = now 0)
    (fun row => row = started a.run a.session a.processId a.invocation a.channel (now 1))

def FinishRecorded (now : Nat → Nat) (a : FinishArguments) : Tables → Tables → Prop :=
  BothUpdated a.session a.run
    (fun row => row.state = sessionStateName a.state ∧ row.updatedAt = now 0)
    (fun row => row.state = sessionStateName a.state ∧ row.exitedAt = some (now 1) ∧ row.exitCode = exitCode a.exit ∧
      row.recoveryJson = (mergedRecovery a.recovery a.exit).map toJson)

section Altered
variable {t : Tables} {id : String}

theorem alterSessionSame {change : SessionRow → SessionRow} (keepsId : ∀ row, (change row).id = row.id)
    (keepsProject : ∀ row, (change row).projectId = row.projectId) (row : SessionRow) :
    alterSession id change row = if row.id = id then change row else row := by
  unfold alterSession
  split
  · have kept : { change row with id := (change row).id, projectId := (change row).projectId } = change row := rfl
    rw [keepsId, keepsProject] at kept
    exact kept
  · rfl

theorem filterKept {α : Type} {key : α → String} {change : α → α} {rows : List α} (keys : ∀ row, key (change row) = key row)
    (others : ∀ row, key row ≠ id → change row = row) :
    (rows.map change).filter (fun row => decide (key row ≠ id)) = rows.filter (fun row => decide (key row ≠ id)) := by
  induction rows with
  | nil => rfl
  | cons row rest ih =>
    rw [List.map_cons, List.filter_cons, List.filter_cons, keys, ih]
    split
    · rename_i other
      rw [others row (of_decide_eq_true other)]
    · rfl

theorem sessionsKept {change : SessionRow → SessionRow} :
    (t.updateSession id change).sessions.filter (·.id ≠ id) = t.sessions.filter (·.id ≠ id) :=
  filterKept alterSessionId fun _ other => if_neg other

theorem runsKept {change : RunRow → RunRow} :
    (t.updateRun id change).processRuns.filter (·.id ≠ id) = t.processRuns.filter (·.id ≠ id) :=
  filterKept alterRunId fun _ other => if_neg other

theorem mapSame {α : Type} {change : α → α} {rows : List α} : rows.map change = rows ↔ ∀ row ∈ rows, change row = row := by
  induction rows with
  | nil => simp
  | cons row rest ih => rw [List.map_cons, List.cons_eq_cons, ih, List.forall_mem_cons]

theorem updateUnchanged {change : SessionRow → SessionRow} (keepsId : ∀ row, (change row).id = row.id)
    (keepsProject : ∀ row, (change row).projectId = row.projectId) :
    Unchanged t (t.updateSession id change) ↔ ∀ row ∈ t.sessions, row.id = id → change row = row := by
  have table : Unchanged t (t.updateSession id change) ↔ t.sessions.map (alterSession id change) = t.sessions :=
    and_iff_left rfl
  rw [table, mapSame]
  refine forall_congr' fun row => forall_congr' fun _ => ?_
  rw [alterSessionSame keepsId keepsProject]
  by_cases here : row.id = id
  · rw [if_pos here]
    exact ⟨fun kept _ => kept, fun kept => kept here⟩
  · rw [if_neg here]
    exact ⟨fun _ at' => absurd at' here, fun _ => rfl⟩

theorem refreshUnchanged {state : SessionState} {title : Option String} {now : Nat} :
    Unchanged t (t.updateSession id (refreshed state title now)) ↔
      ∀ row ∈ t.sessions, row.id = id → refreshed state title now row = row :=
  updateUnchanged (fun _ => rfl) fun _ => rfl

theorem moveUnchanged {state : SessionState} {now : Nat} :
    Unchanged t (t.updateSession id (moved state now)) ↔ ∀ row ∈ t.sessions, row.id = id → moved state now row = row :=
  updateUnchanged (fun _ => rfl) fun _ => rfl

theorem updatedRow {change : SessionRow → SessionRow} (keepsId : ∀ row, (change row).id = row.id)
    (keepsProject : ∀ row, (change row).projectId = row.projectId) (known : id ∈ t.sessions.map (·.id)) :
    ∃ before ∈ t.sessions, before.id = id ∧ change before ∈ (t.updateSession id change).sessions := by
  obtain ⟨row, member, rfl⟩ := List.mem_map.mp known
  refine ⟨row, member, rfl, List.mem_map.mpr ⟨row, member, ?_⟩⟩
  rw [alterSessionSame keepsId keepsProject, if_pos rfl]

end Altered

section Statement
variable {fault : Option String} {t t' : Tables} {effect : Tables → Except SessionStoreError Tables}

theorem statementRan : statement fault effect t = .ok t' ↔ fault = none ∧ effect t = .ok t' := by
  cases fault with
  | none => exact ⟨fun ran => ⟨rfl, ran⟩, fun ran => ran.2⟩
  | some message => exact ⟨nofun, fun ran => nomatch ran.1⟩

end Statement

section Store
variable {fault : Option String} {session project run : String} {kind : AgentKind} {mode : IntegrationMode}
  {state : SessionState} {title : Option String} {now pid : Nat} {invocation : Value} {channel : String}
  {t t' : Tables}

theorem upsertRan :
    upsertSession fault session project kind mode state title now t = .ok t' ↔
      fault = none ∧
        ((∃ fresh known, t' = t.insertSession
            ⟨session, project, kind.name, mode.name, sessionStateName state, title, now, now⟩ fresh known) ∨
          session ∈ t.sessions.map (·.id) ∧ t' = t.updateSession session (refreshed state title now)) := by
  rw [upsertSession, statementRan]
  refine and_congr_right fun _ => ?_
  by_cases fresh : session ∉ t.sessions.map (·.id)
  · rw [dif_pos fresh]
    by_cases known : project ∈ t.projects
    · rw [dif_pos known, Except.ok.injEq, eq_comm]
      exact ⟨fun same => .inl ⟨fresh, known, same⟩, fun stored => stored.elim (fun ⟨_, _, same⟩ => same)
        fun there => absurd there.1 fresh⟩
    · rw [dif_neg known]
      exact ⟨nofun, fun stored => stored.elim (fun ⟨_, there, _⟩ => absurd there known) fun there => absurd there.1 fresh⟩
  · rw [dif_neg fresh, Except.ok.injEq, eq_comm]
    exact ⟨fun same => .inr ⟨not_not.mp fresh, same⟩, fun stored => stored.elim (fun ⟨new, _⟩ => absurd new fresh) And.right⟩

theorem moveRan :
    updateSessionState fault session state now t = .ok t' ↔
      fault = none ∧ session ∈ t.sessions.map (·.id) ∧ t' = t.updateSession session (moved state now) := by
  rw [updateSessionState, statementRan]
  refine and_congr_right fun _ => ?_
  by_cases known : session ∈ t.sessions.map (·.id)
  · rw [if_pos known, Except.ok.injEq, eq_comm, and_iff_right known]
  · rw [if_neg known]
    exact ⟨nofun, fun there => absurd there.1 known⟩

theorem startRan :
    startRun fault run session pid invocation channel now t = .ok t' ↔
      fault = none ∧ ∃ fresh known, t' = t.insertRun (started run session pid invocation channel now) fresh known := by
  rw [startRun, statementRan]
  refine and_congr_right fun _ => ?_
  by_cases fresh : run ∉ t.processRuns.map (·.id)
  · rw [dif_pos fresh]
    by_cases known : ∀ session' ∈ (started run session pid invocation channel now).sessionId, session' ∈ t.sessions.map (·.id)
    · rw [dif_pos known, Except.ok.injEq, eq_comm]
      exact ⟨fun same => ⟨fresh, known, same⟩, fun ⟨_, _, same⟩ => same⟩
    · rw [dif_neg known]
      exact ⟨nofun, fun ⟨_, there, _⟩ => absurd there known⟩
  · rw [dif_neg fresh]
    exact ⟨nofun, fun ⟨there, _⟩ => absurd there fresh⟩

theorem finishRan {name : String} {exit : PersistedRunExit} {recovery : Option Value} :
    finishRun fault run name exit recovery now t = .ok t' ↔
      fault = none ∧ run ∈ t.processRuns.map (·.id) ∧ t' = t.updateRun run (finished name exit recovery now) := by
  rw [finishRun, statementRan]
  refine and_congr_right fun _ => ?_
  by_cases known : run ∈ t.processRuns.map (·.id)
  · rw [if_pos known, Except.ok.injEq, eq_comm, and_iff_right known]
  · rw [if_neg known]
    exact ⟨nofun, fun there => absurd there.1 known⟩

end Store

section Both
variable {first second : Tables → Except SessionStoreError Tables} {updated : Tables → Tables → Prop} {t : Tables}

theorem bothAtomic (recorded : ∀ t' t'', first t = .ok t' → second t' = .ok t'' → updated t t'') :
    Atomic updated (bothStatements first second) t ↔
      ∀ t', first t = .ok t' → (∃ t'', second t' = .ok t'') ∨ Unchanged t t' := by
  unfold Atomic bothStatements
  cases ran : first t with
  | error error => exact ⟨fun _ t' ran => (nomatch ran), fun _ => .inr ⟨_, rfl, rfl, rfl⟩⟩
  | ok t' =>
    dsimp only
    cases ended : second t' with
    | ok t'' =>
      refine ⟨fun _ other same => .inl ⟨t'', ?_⟩, fun _ => .inl ⟨rfl, recorded t' t'' ran ended⟩⟩
      rw [← Except.ok.inj same, ended]
    | error error =>
      constructor
      · rintro (⟨done, _⟩ | ⟨_, _, kept⟩) other same
        · cases done
        · exact .inr (Except.ok.inj same ▸ kept)
      · intro kept
        rcases kept t' rfl with ⟨t'', done⟩ | kept
        · rw [ended] at done
          cases done
        · exact .inr ⟨_, rfl, kept⟩

theorem readyAtomic {operation : Tables → Except StorageRuntimeError Unit × Tables} {ready : Bool} :
    Atomic updated (withReadySessionStore ready operation) t ↔ ready = false ∨ Atomic updated operation t := by
  cases ready with
  | false => exact ⟨fun _ => .inl rfl, fun _ => .inr ⟨_, rfl, rfl, rfl⟩⟩
  | true => exact (or_iff_right (by decide : ¬true = false)).symm

end Both

section Operations
variable (ready : Bool) (faults : Nat → Option String) (now : Nat → Nat) (t : Tables)

/-- The first statement of the start takes no effect, or the second one takes its own. -/
def StartWhole (a : StartArguments) : Prop :=
  ready = false ∨ faults 0 ≠ none ∨
    a.session ∉ t.sessions.map (·.id) ∧ a.project ∉ t.projects ∨
    faults 1 = none ∧ a.run ∉ t.processRuns.map (·.id) ∨
    a.session ∈ t.sessions.map (·.id) ∧
      ∀ row ∈ t.sessions, row.id = a.session → refreshed .starting (some a.title) (now 0) row = row

def FinishWhole (a : FinishArguments) : Prop :=
  ready = false ∨ faults 0 ≠ none ∨
    a.session ∉ t.sessions.map (·.id) ∨
    faults 1 = none ∧ a.run ∈ t.processRuns.map (·.id) ∨
    ∀ row ∈ t.sessions, row.id = a.session → moved a.state (now 0) row = row

variable {ready faults now t}

theorem concatKept {α : Type} {key : α → String} {rows : List α} {row : α} {id : String} (same : key row = id) :
    (rows ++ [row]).filter (fun other => decide (key other ≠ id)) = rows.filter (fun other => decide (key other ≠ id)) := by
  simp [List.filter_append, same]

theorem startStored {a : StartArguments} {t' : Tables}
    (stored : upsertSession (faults 0) a.session a.project .fake a.integrationMode .starting (some a.title) (now 0) t = .ok t') :
    t'.processRuns = t.processRuns ∧ t'.sessions.filter (·.id ≠ a.session) = t.sessions.filter (·.id ≠ a.session) ∧
      ∃ row ∈ t'.sessions, row.id = a.session ∧ row.state = "starting" ∧ row.title = some a.title ∧ row.updatedAt = now 0 := by
  obtain ⟨-, ⟨fresh, known, rfl⟩ | ⟨known, rfl⟩⟩ := upsertRan.mp stored
  · exact ⟨rfl, @concatKept _ SessionRow.id _ _ _ rfl, _, List.mem_append_right _ (List.mem_singleton_self _), rfl, rfl, rfl, rfl⟩
  · obtain ⟨before, -, same, member⟩ := @updatedRow _ _ (refreshed .starting (some a.title) (now 0))
      (fun _ => rfl) (fun _ => rfl) known
    exact ⟨rfl, sessionsKept, _, member, same, rfl, rfl, rfl⟩

theorem storedThere {a : StartArguments} {t' : Tables}
    (stored : upsertSession (faults 0) a.session a.project .fake a.integrationMode .starting (some a.title) (now 0) t = .ok t') :
    a.session ∈ t'.sessions.map (·.id) := by
  obtain ⟨-, -, row, member, same, -⟩ := startStored stored
  exact List.mem_map.mpr ⟨row, member, same⟩

theorem runTaken {run session channel : String} {pid at' : Nat} {invocation : Value} {fault : Option String}
    (known : session ∈ t.sessions.map (·.id)) :
    (∃ t', startRun fault run session pid invocation channel at' t = .ok t') ↔
      fault = none ∧ run ∉ t.processRuns.map (·.id) := by
  constructor
  · rintro ⟨t', ran⟩
    obtain ⟨clear, fresh, -⟩ := startRan.mp ran
    exact ⟨clear, fresh⟩
  · rintro ⟨clear, fresh⟩
    have of' : ∀ session' ∈ (started run session pid invocation channel at').sessionId,
        session' ∈ t.sessions.map (·.id) := fun session' same => Option.some.inj same ▸ known
    exact ⟨_, startRan.mpr ⟨clear, fresh, of', rfl⟩⟩

theorem startAtomic {a : StartArguments} :
    Atomic (StartRecorded now a) (startSessionRunWithMode ready faults now a) t ↔ StartWhole ready faults now t a := by
  unfold startSessionRunWithMode StartWhole
  rw [readyAtomic, bothAtomic]
  · refine or_congr_right ?_
    constructor
    · intro whole
      by_cases clear : faults 0 = none
      · refine .inr ?_
        by_cases known : a.session ∈ t.sessions.map (·.id)
        · rcases whole _ (upsertRan.mpr ⟨clear, .inr ⟨known, rfl⟩⟩) with ran | kept
          · have free := (runTaken (storedThere (upsertRan.mpr ⟨clear, .inr ⟨known, rfl⟩⟩))).mp ran
            exact .inr (.inl free)
          · exact .inr (.inr ⟨known, refreshUnchanged.mp kept⟩)
        · by_cases project : a.project ∈ t.projects
          · rcases whole _ (upsertRan.mpr ⟨clear, .inl ⟨known, project, rfl⟩⟩) with ran | kept
            · have free := (runTaken (storedThere (upsertRan.mpr ⟨clear, .inl ⟨known, project, rfl⟩⟩))).mp ran
              exact .inr (.inl free)
            · have longer := congrArg List.length kept.1
              rw [Tables.insertSession, List.length_append] at longer
              exact absurd longer (by simp)
          · exact .inl ⟨known, project⟩
      · exact .inl clear
    · intro whole t' stored
      obtain ⟨clear, _⟩ := upsertRan.mp stored
      have sameRuns := (startStored stored).1
      have there := storedThere stored
      rcases whole with faulty | ⟨absent, foreign⟩ | ⟨clear', fresh⟩ | ⟨known, already⟩
      · exact absurd clear faulty
      · obtain ⟨-, ⟨_, project, _⟩ | ⟨known, _⟩⟩ := upsertRan.mp stored
        · exact absurd project foreign
        · exact absurd known absent
      · exact .inl ((runTaken there).mpr ⟨clear', sameRuns ▸ fresh⟩)
      · obtain ⟨-, ⟨absent, _⟩ | ⟨_, rfl⟩⟩ := upsertRan.mp stored
        · exact absurd known absent
        · exact .inr (refreshUnchanged.mpr already)
  · intro t' t'' stored ran
    obtain ⟨sameRuns, others, row, member, same, set⟩ := startStored stored
    obtain ⟨-, fresh, known, rfl⟩ := startRan.mp ran
    refine ⟨⟨row, member, same, set⟩, ⟨_, List.mem_append_right _ (List.mem_singleton_self _), rfl, rfl⟩, others, ?_⟩
    rw [← sameRuns]
    exact @concatKept _ RunRow.id _ _ _ rfl

theorem runFinished {run name : String} {exit : PersistedRunExit} {recovery : Option Value} {at' : Nat}
    {fault : Option String} :
    (∃ t', finishRun fault run name exit recovery at' t = .ok t') ↔
      fault = none ∧ run ∈ t.processRuns.map (·.id) := by
  constructor
  · rintro ⟨t', ran⟩
    obtain ⟨clear, known, -⟩ := finishRan.mp ran
    exact ⟨clear, known⟩
  · rintro ⟨clear, known⟩
    exact ⟨_, finishRan.mpr ⟨clear, known, rfl⟩⟩

theorem finishAtomic {a : FinishArguments} :
    Atomic (FinishRecorded now a) (finishSessionRun ready faults now a) t ↔ FinishWhole ready faults now t a := by
  unfold finishSessionRun FinishWhole
  rw [readyAtomic, bothAtomic]
  · refine or_congr_right ?_
    constructor
    · intro whole
      by_cases clear : faults 0 = none
      · refine .inr ?_
        by_cases known : a.session ∈ t.sessions.map (·.id)
        · rcases whole _ (moveRan.mpr ⟨clear, known, rfl⟩) with ran | kept
          · have there := runFinished.mp ran
            exact .inr (.inl there)
          · exact .inr (.inr (moveUnchanged.mp kept))
        · exact .inl known
      · exact .inl clear
    · intro whole t' stored
      obtain ⟨clear, known, rfl⟩ := moveRan.mp stored
      rcases whole with faulty | absent | ⟨clear', there⟩ | already
      · exact absurd clear faulty
      · exact absurd known absent
      · exact .inl (runFinished.mpr ⟨clear', there⟩)
      · exact .inr (moveUnchanged.mpr already)
  · intro t' t'' stored ran
    obtain ⟨-, known, rfl⟩ := moveRan.mp stored
    obtain ⟨-, there, rfl⟩ := finishRan.mp ran
    obtain ⟨before, -, same, member⟩ := @updatedRow _ _ (moved a.state (now 0)) (fun _ => rfl) (fun _ => rfl) known
    obtain ⟨run, listed, identified⟩ := List.mem_map.mp there
    refine ⟨⟨_, member, same, rfl, rfl⟩, ⟨_, List.mem_map.mpr ⟨run, listed, rfl⟩, ?_⟩, sessionsKept, runsKept⟩
    rw [alterRun, if_pos identified]
    exact ⟨identified, rfl, rfl, rfl, rfl⟩

end Operations

theorem startAndFinishWhole (ready : Bool) (faults : Nat → Option String) (now : Nat → Nat) (t : Tables)
    (start : StartArguments) (finish : FinishArguments) :
    (Atomic (StartRecorded now start) (startSessionRunWithMode ready faults now start) t ↔
      StartWhole ready faults now t start) ∧
    (Atomic (FinishRecorded now finish) (finishSessionRun ready faults now finish) t ↔
      FinishWhole ready faults now t finish) :=
  ⟨startAtomic, finishAtomic⟩

def storedRow : SessionRow := ⟨"session", "project", "fake", "structured", "running", some "Fake agent", 1, 1⟩

def storedTables (rows : List SessionRow) (keys : (rows.map (·.id)).Nodup) (projects : ∀ row ∈ rows, row.projectId ∈ ["project"]) :
    Tables :=
  ⟨["project"], rows, [], keys, .nil, projects, fun _ member => absurd member List.not_mem_nil⟩

/-- A start whose second statement fails leaves the session starting, and the end of a run without
a row leaves its session completed. -/
theorem startAndFinishTorn :
    ¬Atomic (StartRecorded id ⟨"project", "session", "run", 42, "Fake agent", .null, .structured, "structured"⟩)
        (startSessionRunWithMode true (Nat.rec none fun _ _ => some "disk I/O error") id
          ⟨"project", "session", "run", 42, "Fake agent", .null, .structured, "structured"⟩)
        (storedTables [] (by decide) (by decide)) ∧
      ¬Atomic (FinishRecorded id ⟨"session", "run", .completed, .exited 0, none⟩)
        (finishSessionRun true (fun _ => none) id ⟨"session", "run", .completed, .exited 0, none⟩)
        (storedTables [storedRow] (by decide) (by decide)) := by
  constructor
  · rw [startAtomic, StartWhole]
    decide
  · rw [finishAtomic, FinishWhole]
    decide

end Maestro.RunRecords
