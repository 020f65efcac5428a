import Maestro.SegmentPruning

/-! Executing a plan batch by batch: a batch is committed whole or not at all, and the batches
together delete what is planned. -/
namespace Maestro.Retention

section Tables
variable {α : Type} {id path : α → String} {rows : List α} {key : String} {first later : List String}

def sweep (id : α → String) (keys : List String) (rows : List α) : List α :=
  rows.filter fun row => id row ∉ keys

def swept (id : α → String) (keys : List String) (rows : List α) : List α :=
  rows.filter fun row => id row ∈ keys

theorem sweepNothing : sweep id [] rows = rows :=
  List.filter_eq_self.mpr fun _ _ => decide_eq_true List.not_mem_nil

theorem sweepLogs {logs : Option (List α)} : logs.map (sweep id []) = logs := by
  cases logs with
  | none => rfl
  | some rows => exact congrArg some sweepNothing

theorem sweptNothing : swept id [] rows = [] :=
  List.filter_eq_nil_iff.mpr fun row _ => by simp

theorem sweepOne : withoutId id key rows = sweep id [key] rows := by
  simp [withoutId, sweep]

theorem sweepAppend : sweep id later (sweep id first rows) = sweep id (first ++ later) rows := by
  simp only [sweep, List.filter_filter, List.mem_append, not_or, Bool.decide_and, Bool.and_comm]

theorem sweptAppend : (swept id (first ++ later) rows).Perm
    (swept id first rows ++ swept id later (sweep id first rows)) := by
  have split := List.filter_append_perm (fun row => decide (id row ∈ first)) (swept id (first ++ later) rows)
  refine split.symm.trans (List.Perm.of_eq ?_)
  simp only [swept, sweep, List.filter_filter]
  congr 1
  · refine List.filter_congr fun row _ => ?_
    by_cases inside : id row ∈ first <;> simp [inside]
  · refine List.filter_congr fun row _ => ?_
    by_cases inside : id row ∈ first <;> simp [inside]

theorem sweptOne (key : String) (keys : (rows.map id).Nodup) :
    (affectedBy id key rows = 0 ∧ swept id [key] rows = []) ∨
      ∃ row ∈ rows, id row = key ∧ affectedBy id key rows = 1 ∧ swept id [key] rows = [row] := by
  have same : swept id [key] rows = rows.filter fun row => id row = key := by simp [swept]
  unfold affectedBy
  rw [same]
  induction rows with
  | nil => exact .inl ⟨rfl, rfl⟩
  | cons row rest ih =>
    obtain ⟨fresh, keys⟩ := List.nodup_cons.mp keys
    by_cases here : id row = key
    · have nothing : rest.filter (fun row => id row = key) = [] :=
        List.filter_eq_nil_iff.mpr fun other member => by
          simp only [decide_eq_true_eq]
          exact fun same => fresh (here.trans same.symm ▸ List.mem_map_of_mem member)
      refine .inr ⟨row, List.mem_cons_self, here, ?_⟩
      rw [List.filter_cons_of_pos (by simpa using here), nothing]
      exact ⟨rfl, rfl⟩
    · rw [List.filter_cons_of_neg (by simpa using here)]
      rcases ih keys (by simp [swept]) with nothing | ⟨other, member, found⟩
      · exact .inl nothing
      · exact .inr ⟨other, List.mem_cons_of_mem _ member, found⟩

end Tables

def idsOf (category : RetentionCategory) (batch : List RetentionRecord) : List String :=
  (batch.filter (·.category = category)).map (·.id)

/-- The rows of the planned ids carry the planned paths. -/
structure Describes (batch : List RetentionRecord) (d : Database) : Prop where
  terminal : ∀ c ∈ batch, c.category = .terminal → ∀ row ∈ d.terminalSegments, row.id = c.id →
    row.storagePath = c.storagePath
  raw : ∀ c ∈ batch, c.category = .rawProtocol → ∀ row ∈ d.rawSegments, row.id = c.id →
    row.storagePath = c.storagePath
  debug : ∀ c ∈ batch, c.category = .debugLog → ∀ logs, d.debugLogs = some logs → ∀ row ∈ logs,
    row.id = c.id → row.storagePath = c.storagePath

def deletedPaths (d : Database) (batch : List RetentionRecord) : List String :=
  (swept (·.id) (idsOf .terminal batch) d.terminalSegments).map (·.storagePath) ++
    (swept (·.id) (idsOf .rawProtocol batch) d.rawSegments).map (·.storagePath) ++
    (swept (·.id) (idsOf .debugLog batch) (d.debugLogs.getD [])).map (·.storagePath)

/-- The batch deleted the rows of its ids, released as many paths, and took the references of
the events to the captures it deleted. -/
structure Executed (d : Database) (batch : List RetentionRecord) (deleted : Nat)
    (released : List String) (d' : Database) : Prop where
  terminal : d'.terminalSegments = sweep (·.id) (idsOf .terminal batch) d.terminalSegments
  raw : d'.rawSegments = sweep (·.id) (idsOf .rawProtocol batch) d.rawSegments
  debug : d'.debugLogs = d.debugLogs.map (sweep (·.id) (idsOf .debugLog batch))
  events : ∃ nulled, d'.events = d.events.map (withoutReference nulled) ∧
    (∀ path ∈ nulled, ∃ c ∈ batch, c.category = .rawProtocol ∧ c.storagePath = path ∧
      ∃ row ∈ d.rawSegments, row.id = c.id) ∧
    (Describes batch d → nulled.Perm
      ((swept (·.id) (idsOf .rawProtocol batch) d.rawSegments).map (·.storagePath)))
  counted : deleted = released.length
  released : Describes batch d → released.Perm (deletedPaths d batch)

theorem withoutNothing (event : EventRow) : withoutReference [] event = event := by
  unfold withoutReference
  cases event.rawSegmentReference <;> simp

theorem withoutBoth {first later : List String} {event : EventRow} :
    withoutReference later (withoutReference first event) = withoutReference (first ++ later) event := by
  obtain ⟨id, payload, reference⟩ := event
  cases reference with
  | none => rfl
  | some path =>
    by_cases inside : path ∈ first <;> by_cases after : path ∈ later <;>
      simp [withoutReference, inside, after]

variable {d d' d'' : Database} {batch rest : List RetentionRecord}

theorem idsAppend {category : RetentionCategory} :
    idsOf category (batch ++ rest) = idsOf category batch ++ idsOf category rest := by
  simp [idsOf]

theorem executedNothing : Executed d [] 0 [] d where
  terminal := sweepNothing.symm
  raw := sweepNothing.symm
  debug := sweepLogs.symm
  events := ⟨[], by simp [funext withoutNothing], nofun,
    fun _ => by rw [show idsOf .rawProtocol [] = [] from rfl, sweptNothing]; exact .nil⟩
  counted := rfl
  released := fun _ => by
    simp only [deletedPaths, show ∀ category, idsOf category [] = [] from fun _ => rfl, sweptNothing]
    exact .nil

theorem describesPart {part : List RetentionRecord} (describes : Describes batch d)
    (inside : ∀ c ∈ part, c ∈ batch) (terminal : ∀ row ∈ d'.terminalSegments, row ∈ d.terminalSegments)
    (raw : ∀ row ∈ d'.rawSegments, row ∈ d.rawSegments)
    (debug : ∀ logs', d'.debugLogs = some logs' → ∃ logs, d.debugLogs = some logs ∧ ∀ row ∈ logs', row ∈ logs) :
    Describes part d' where
  terminal := fun c member same row here => describes.terminal c (inside c member) same row (terminal row here)
  raw := fun c member same row here => describes.raw c (inside c member) same row (raw row here)
  debug := fun c member same logs' found row here => by
    obtain ⟨logs, before, kept⟩ := debug logs' found
    exact describes.debug c (inside c member) same logs before row (kept row here)

theorem executedAppend {deleted more : Nat} {released later : List String}
    (first : Executed d batch deleted released d') (second : Executed d' rest more later d'') :
    Executed d (batch ++ rest) (deleted + more) (released ++ later) d'' := by
  have left : Describes (batch ++ rest) d → Describes batch d := fun describes =>
    describesPart describes (fun c member => List.mem_append_left _ member) (fun _ => id) (fun _ => id)
      fun logs found => ⟨logs, found, fun _ => id⟩
  have right : Describes (batch ++ rest) d → Describes rest d' := fun describes => by
    refine describesPart describes (fun c member => List.mem_append_right _ member) ?_ ?_ ?_
    · exact fun row here => (List.mem_filter.mp (first.terminal ▸ here)).1
    · exact fun row here => (List.mem_filter.mp (first.raw ▸ here)).1
    · intro logs' found
      rw [first.debug] at found
      obtain ⟨logs, before, rfl⟩ := Option.map_eq_some_iff.mp found
      exact ⟨logs, before, fun row here => (List.mem_filter.mp here).1⟩
  obtain ⟨nulled, events, from', alike⟩ := first.events
  obtain ⟨nulled', events', from'', alike'⟩ := second.events
  refine ⟨?_, ?_, ?_, ⟨nulled ++ nulled', ?_, ?_, fun describes => ?_⟩, ?_, fun describes => ?_⟩
  · rw [second.terminal, first.terminal, sweepAppend, idsAppend]
  · rw [second.raw, first.raw, sweepAppend, idsAppend]
  · rw [second.debug, first.debug, Option.map_map, idsAppend]
    exact congrArg (Option.map · d.debugLogs) (funext fun _ => sweepAppend)
  · rw [events', events, List.map_map]
    exact List.map_congr_left fun _ _ => withoutBoth
  · intro path member
    rcases List.mem_append.mp member with before | after
    · obtain ⟨c, inside, rawly, same, found⟩ := from' path before
      exact ⟨c, List.mem_append_left _ inside, rawly, same, found⟩
    · obtain ⟨c, inside, rawly, same, row, found, key⟩ := from'' path after
      exact ⟨c, List.mem_append_right _ inside, rawly, same, row,
        (List.mem_filter.mp (first.raw ▸ found)).1, key⟩
  · rw [idsAppend]
    refine ((alike (left describes)).append (alike' (right describes))).trans ?_
    rw [first.raw, ← List.map_append]
    exact (sweptAppend.map _).symm
  · rw [first.counted, second.counted, List.length_append]
  · refine ((first.released (left describes)).append (second.released (right describes))).trans ?_
    have debugs : d'.debugLogs.getD [] = sweep (·.id) (idsOf .debugLog batch) (d.debugLogs.getD []) := by
      rw [first.debug]
      cases d.debugLogs <;> rfl
    refine List.perm_iff_count.mpr fun path => ?_
    have whole : ∀ {α : Type} {id of : α → String} {rows : List α} {a b : List String},
        ((swept id (a ++ b) rows).map of).count path =
          ((swept id a rows).map of).count path + ((swept id b (sweep id a rows)).map of).count path := by
      intro α id of rows a b
      rw [(sweptAppend.map of).count_eq, List.map_append, List.count_append]
    simp only [deletedPaths, idsAppend, first.terminal, first.raw, debugs, List.count_append, whole]
    omega

section Statements
variable {fault : Fault} {t t' : Transaction} {candidate : RetentionRecord} {affected deleted count : Nat}
  {released paths : List String}

theorem executeOk {α : Type} {effect : Database → Except String (α × Database)} {value : α}
    (ran : execute fault effect t = .ok (value, t')) : effect t.view = .ok (value, t'.view) := by
  unfold execute at ran
  split at ran
  · cases ran
  · split at ran <;> cases ran
    assumption

def releasedBy (affected : Nat) (candidate : RetentionRecord) : List String :=
  if 0 < affected then [candidate.storagePath] else []

theorem idsOne {category : RetentionCategory} :
    idsOf category [candidate] = if candidate.category = category then [candidate.id] else [] := by
  by_cases same : candidate.category = category <;> simp [idsOf, same]

theorem executedTerminal (category : candidate.category = .terminal)
    (ran : deleteTerminalSegment candidate.id d = .ok (affected, d')) :
    Executed d [candidate] affected (releasedBy affected candidate) d' := by
  cases ran
  have mine : idsOf .terminal [candidate] = [candidate.id] := by rw [idsOne, if_pos category]
  have noRaw : idsOf .rawProtocol [candidate] = [] := by rw [idsOne, if_neg (by rw [category]; nofun)]
  have noDebug : idsOf .debugLog [candidate] = [] := by rw [idsOne, if_neg (by rw [category]; nofun)]
  refine ⟨by rw [mine, ← sweepOne], by rw [noRaw, sweepNothing], ?_,
    ⟨[], ?_, nofun, fun _ => by rw [noRaw, sweptNothing]; exact .nil⟩, ?_, fun describes => ?_⟩
  · rw [noDebug]
    exact sweepLogs.symm
  · simp [funext withoutNothing]
  · rcases sweptOne candidate.id d.terminalKeys with ⟨none', _⟩ | ⟨row, _, _, one, _⟩
    · rw [none']; rfl
    · rw [one]; rfl
  · rw [deletedPaths, mine, noRaw, noDebug, sweptNothing, sweptNothing]
    rcases sweptOne candidate.id d.terminalKeys with ⟨none', found⟩ | ⟨row, member, key, one, found⟩
    · rw [none', found]; exact .nil
    · rw [one, found]
      have path := describes.terminal candidate (List.mem_singleton_self _) category row member key
      exact List.Perm.of_eq (congrArg (fun p => [p]) path.symm)

theorem executedDebug (category : candidate.category = .debugLog)
    (ran : deleteDebugLog candidate.id d = .ok (affected, d')) :
    Executed d [candidate] affected (releasedBy affected candidate) d' := by
  unfold deleteDebugLog at ran
  split at ran <;> cases ran
  rename_i logs found
  have mine : idsOf .debugLog [candidate] = [candidate.id] := by rw [idsOne, if_pos category]
  have noRaw : idsOf .rawProtocol [candidate] = [] := by rw [idsOne, if_neg (by rw [category]; nofun)]
  have noTerminal : idsOf .terminal [candidate] = [] := by rw [idsOne, if_neg (by rw [category]; nofun)]
  have keys := d.debugKeys logs found
  refine ⟨by rw [noTerminal, sweepNothing], by rw [noRaw, sweepNothing], ?_,
    ⟨[], ?_, nofun, fun _ => by rw [noRaw, sweptNothing]; exact .nil⟩, ?_, fun describes => ?_⟩
  · change some (withoutId (·.id) candidate.id logs) = _
    rw [mine, found, Option.map_some, sweepOne]
  · simp [funext withoutNothing]
  · rcases sweptOne candidate.id keys with ⟨none', _⟩ | ⟨row, _, _, one, _⟩
    · rw [none']; rfl
    · rw [one]; rfl
  · rw [deletedPaths, mine, noRaw, noTerminal, sweptNothing, sweptNothing, found, Option.getD_some]
    rcases sweptOne candidate.id keys with ⟨none', gone⟩ | ⟨row, member, key, one, gone⟩
    · rw [none', gone]; exact .nil
    · rw [one, gone]
      have path := describes.debug candidate (List.mem_singleton_self _) category logs found row member key
      exact List.Perm.of_eq (congrArg (fun p => [p]) path.symm)

theorem executedRaw (category : candidate.category = .rawProtocol)
    (ran : deleteRawSegment candidate.id d = .ok (affected, d')) :
    Executed d [candidate] affected (releasedBy affected candidate)
      { d' with events := d.events.map (withoutReference (releasedBy affected candidate)) } := by
  cases ran
  have mine : idsOf .rawProtocol [candidate] = [candidate.id] := by rw [idsOne, if_pos category]
  have noTerminal : idsOf .terminal [candidate] = [] := by rw [idsOne, if_neg (by rw [category]; nofun)]
  have noDebug : idsOf .debugLog [candidate] = [] := by rw [idsOne, if_neg (by rw [category]; nofun)]
  have paths : Describes [candidate] d → (releasedBy (affectedBy (·.id) candidate.id d.rawSegments) candidate).Perm
      ((swept (·.id) [candidate.id] d.rawSegments).map (·.storagePath)) := fun describes => by
    rcases sweptOne candidate.id d.rawKeys with ⟨none', found⟩ | ⟨row, member, key, one, found⟩
    · rw [none', found]; exact .nil
    · rw [one, found]
      have path := describes.raw candidate (List.mem_singleton_self _) category row member key
      exact List.Perm.of_eq (congrArg (fun p => [p]) path.symm)
  refine ⟨by rw [noTerminal, sweepNothing], by rw [mine, ← sweepOne], ?_,
    ⟨_, rfl, fun path member => ?_, fun describes => by rw [mine]; exact paths describes⟩, ?_,
    fun describes => ?_⟩
  · rw [noDebug]
    exact sweepLogs.symm
  · rcases sweptOne candidate.id d.rawKeys with ⟨none', _⟩ | ⟨row, here, key, one, _⟩
    · rw [none'] at member; cases member
    · rw [one] at member
      exact ⟨candidate, List.mem_singleton_self _, category, (List.mem_singleton.mp member).symm,
        row, here, key⟩
  · rcases sweptOne candidate.id d.rawKeys with ⟨none', _⟩ | ⟨row, _, _, one, _⟩
    · rw [none']; rfl
    · rw [one]; rfl
  · rw [deletedPaths, mine, noTerminal, noDebug, sweptNothing, sweptNothing, List.map_nil, List.map_nil,
      List.nil_append, List.append_nil]
    exact paths describes

theorem stepBind {α β : Type} {p : Statements α} {f : α → Statements β} {value : β}
    (ran : (p >>= f) t = .ok (value, t')) : ∃ first mid, p t = .ok (first, mid) ∧ f first mid = .ok (value, t') := by
  change Except.bind (p t) _ = _ at ran
  cases here : p t with
  | error error => rw [here] at ran; cases ran
  | ok result =>
    rw [here] at ran
    exact ⟨result.1, result.2, rfl, ran⟩

theorem candidateExecuted (ran : executeCandidate fault candidate t = .ok (affected, t')) :
    Executed t.view [candidate] affected (releasedBy affected candidate) t'.view := by
  cases category : candidate.category with
  | terminal =>
    simp only [executeCandidate, category] at ran
    exact executedTerminal category (executeOk ran)
  | debugLog =>
    simp only [executeCandidate, category] at ran
    exact executedDebug category (executeOk ran)
  | rawProtocol =>
    simp only [executeCandidate, category] at ran
    obtain ⟨first, mid, deletes, later⟩ := stepBind ran
    have raw := executedRaw category (executeOk deletes)
    have deletion : _ = mid.view := (Prod.mk.inj (Except.ok.inj (executeOk deletes))).2
    have events : t.view.events = mid.view.events := by
      rw [← deletion]
    split at later
    · rename_i some'
      obtain ⟨_, last, nulls, done⟩ := stepBind later
      cases done
      have view : _ = t'.view := (Prod.mk.inj (Except.ok.inj (executeOk nulls))).2
      have whole : releasedBy affected candidate = [candidate.storagePath] := if_pos some'
      rw [whole, events] at raw
      rw [whole, ← view]
      exact raw
    · rename_i none'
      cases later
      have nothing : releasedBy affected candidate = [] := if_neg none'
      have same : t.view.events.map (withoutReference []) = t'.view.events := by
        rw [← events]
        simp [funext withoutNothing]
      rw [nothing, same] at raw
      rw [nothing]
      exact raw

theorem candidatesExecuted {batch : List RetentionRecord}
    (ran : executeCandidates fault deleted released batch t = .ok ((count, paths), t')) :
    ∃ more later, count = deleted + more ∧ paths = released ++ later ∧
      Executed t.view batch more later t'.view := by
  induction batch generalizing deleted released t with
  | nil =>
    cases ran
    exact ⟨0, [], rfl, (List.append_nil _).symm, executedNothing⟩
  | cons candidate rest ih =>
    obtain ⟨affected, mid, first, later⟩ := stepBind ran
    have here := candidateExecuted first
    split at later
    · rename_i some'
      obtain ⟨more, last, rfl, rfl, after⟩ := ih later
      have whole : releasedBy affected candidate = [candidate.storagePath] := if_pos some'
      rw [whole] at here
      exact ⟨affected + more, [candidate.storagePath] ++ last, Nat.add_assoc _ _ _,
        List.append_assoc _ _ _, executedAppend here after⟩
    · rename_i none'
      obtain ⟨more, last, rfl, rfl, after⟩ := ih later
      have nothing : releasedBy affected candidate = [] := if_neg none'
      rw [nothing] at here
      have joined := executedAppend here after
      rw [Nat.eq_zero_of_not_pos none', Nat.zero_add] at joined
      exact ⟨more, last, rfl, rfl, joined⟩

theorem transactionExecuted {batch : List RetentionRecord}
    (ran : inTransaction fault batch t = .ok ((count, paths), t')) :
    Executed t.view batch count paths t'.view := by
  obtain ⟨_, begun, begins, later⟩ := stepBind ran
  obtain ⟨⟨count', paths'⟩, mid, runs, last⟩ := stepBind later
  obtain ⟨_, committed, commits, done⟩ := stepBind last
  obtain ⟨more, later, rfl, rfl, executed⟩ := candidatesExecuted runs
  cases done
  have before : t.view = begun.view := (Prod.mk.inj (Except.ok.inj (executeOk begins))).2
  have after : mid.view = t'.view := (Prod.mk.inj (Except.ok.inj (executeOk commits))).2
  rw [← before, after] at executed
  rwa [Nat.zero_add]

end Statements

section Calls
variable {fault : Fault} {limit : Nat} {plan plan' : RetentionPlan}
  {result : Except RetentionError RetentionBatch}

theorem batchCommits (called : executeRetentionBatch fault limit d plan = (result, d', plan')) :
    (∃ error, result = .error error ∧ d' = d ∧ plan' = plan) ∨
      ∃ batch report, result = .ok report ∧ plan.candidates = batch ++ plan'.candidates ∧
        (batch = [] → plan.candidates = []) ∧ report.remainingCandidates = plan'.candidates.length ∧
        Executed d batch report.metadataRowsDeleted report.releasedStoragePaths d' := by
  unfold executeRetentionBatch at called
  dsimp only at called
  split at called
  · cases called
    exact .inl ⟨_, rfl, rfl, rfl⟩
  rename_i some'
  split at called
  · rename_i none'
    cases called
    have empty : plan.candidates = [] := by
      rw [← List.length_eq_zero_iff]
      unfold maxRetentionBatch at none'
      omega
    exact .inr ⟨[], _, rfl, rfl, fun _ => empty, by rw [empty]; rfl, executedNothing⟩
  rename_i more
  split at called
  · cases called
    exact .inl ⟨_, rfl, rfl, rfl⟩
  · rename_i deleted released t ran
    cases called
    refine .inr ⟨_, _, rfl, (List.take_append_drop _ _).symm, fun nothing => ?_, rfl,
      transactionExecuted ran⟩
    rcases List.take_eq_nil_iff.mp nothing with zero | empty
    · exact absurd zero more
    · exact empty

/-- Calls one after another, each with its faults and its limit. -/
def calls : List (Fault × Nat) → Database → RetentionPlan →
    List (Except RetentionError RetentionBatch) × Database × RetentionPlan
  | [], d, plan => ([], d, plan)
  | (fault, limit) :: rest, d, plan =>
    let called := executeRetentionBatch fault limit d plan
    let later := calls rest called.2.1 called.2.2
    (called.1 :: later.1, later.2)

def succeeded : List (Except RetentionError RetentionBatch) → List RetentionBatch
  | [] => []
  | .ok report :: rest => report :: succeeded rest
  | .error _ :: rest => succeeded rest

def deletedBy (reports : List RetentionBatch) : Nat := (reports.map (·.metadataRowsDeleted)).sum

def releasedPaths (reports : List RetentionBatch) : List String :=
  reports.flatMap (·.releasedStoragePaths)

theorem callsExecuted (d : Database) (plan : RetentionPlan) (requests : List (Fault × Nat)) :
    ∃ done, plan.candidates = done ++ (calls requests d plan).2.2.candidates ∧
      min (succeeded (calls requests d plan).1).length plan.candidates.length ≤ done.length ∧
      Executed d done (deletedBy (succeeded (calls requests d plan).1))
        (releasedPaths (succeeded (calls requests d plan).1)) (calls requests d plan).2.1 := by
  induction requests generalizing d plan with
  | nil => exact ⟨[], rfl, Nat.le_of_eq (Nat.zero_min _), executedNothing⟩
  | cons request rest ih =>
    obtain ⟨fault, limit⟩ := request
    have whole : calls ((fault, limit) :: rest) d plan =
        ((executeRetentionBatch fault limit d plan).1 ::
            (calls rest (executeRetentionBatch fault limit d plan).2.1
              (executeRetentionBatch fault limit d plan).2.2).1,
          (calls rest (executeRetentionBatch fault limit d plan).2.1
            (executeRetentionBatch fault limit d plan).2.2).2) := rfl
    rw [whole]
    generalize called : executeRetentionBatch fault limit d plan = outcome
    obtain ⟨result, d₁, plan₁⟩ := outcome
    obtain ⟨done, same, drained, executed⟩ := ih d₁ plan₁
    rcases batchCommits called with ⟨error, rfl, rfl, rfl⟩ | ⟨batch, report, rfl, split, empty, -, here⟩
    · exact ⟨done, same, drained, executed⟩
    · refine ⟨batch ++ done, ?_, ?_, executedAppend here executed⟩
      · rw [split, same, List.append_assoc]
      · have lengths := congrArg List.length split
        rw [List.length_append] at lengths
        rw [List.length_append, succeeded, List.length_cons]
        cases batch with
        | nil =>
          rw [empty rfl]
          exact Nat.le_trans (Nat.min_le_right _ _) (Nat.zero_le _)
        | cons first more =>
          rw [List.length_cons] at lengths ⊢
          dsimp only at drained ⊢
          omega

theorem databaseSame (terminal : d'.terminalSegments = d.terminalSegments)
    (raw : d'.rawSegments = d.rawSegments) (events : d'.events = d.events)
    (debug : d'.debugLogs = d.debugLogs) : d' = d := by
  cases d
  cases d'
  cases terminal
  cases raw
  cases events
  cases debug
  rfl

theorem sweptGone {α : Type} {id : α → String} {rows : List α} {keys part : List String}
    (inside : ∀ key ∈ part, key ∈ keys) : swept id part (sweep id keys rows) = [] :=
  List.filter_eq_nil_iff.mpr fun row member => by
    have gone := of_decide_eq_true (List.mem_filter.mp member).2
    simpa using fun found => gone (inside _ found)

theorem sweepGone {α : Type} {id : α → String} {rows : List α} {keys part : List String}
    (inside : ∀ key ∈ part, key ∈ keys) : sweep id part (sweep id keys rows) = sweep id keys rows :=
  List.filter_eq_self.mpr fun row member => by
    have gone := of_decide_eq_true (List.mem_filter.mp member).2
    simpa using fun found => gone (inside _ found)

theorem idsInside {category : RetentionCategory} {part : List RetentionRecord}
    (inside : ∀ c ∈ part, c ∈ batch) : ∀ key ∈ idsOf category part, key ∈ idsOf category batch := by
  intro key member
  obtain ⟨c, found, rfl⟩ := List.mem_map.mp member
  have here := List.mem_filter.mp found
  exact List.mem_map_of_mem (List.mem_filter.mpr ⟨inside c here.1, here.2⟩)

theorem executedAgain {part : List RetentionRecord} {deleted more : Nat} {released later : List String}
    (inside : ∀ c ∈ part, c ∈ batch) (first : Executed d batch deleted released d')
    (second : Executed d' part more later d'') : d'' = d' ∧ more = 0 ∧ later = [] := by
  have planned : ∀ {c category key}, c ∈ part → c.category = category → key = c.id →
      key ∈ idsOf category batch := fun member category same =>
    idsInside inside _ (same ▸ List.mem_map_of_mem
      (List.mem_filter.mpr ⟨member, decide_eq_true category⟩))
  have absent : ∀ c ∈ part, c.category = .rawProtocol → ∀ row ∈ d'.rawSegments, row.id ≠ c.id := by
    intro c member rawly row found same
    rw [first.raw] at found
    have gone := of_decide_eq_true (List.mem_filter.mp found).2
    exact gone (planned member rawly same)
  have describes : Describes part d' := by
    refine ⟨fun c member category row found same => ?_, fun c member category row found same => ?_,
      fun c member category logs' found' row found same => ?_⟩
    · rw [first.terminal] at found
      exact absurd (planned member category same) (of_decide_eq_true (List.mem_filter.mp found).2)
    · exact absurd same (absent c member category row found)
    · rw [first.debug] at found'
      obtain ⟨logs, _, rfl⟩ := Option.map_eq_some_iff.mp found'
      exact absurd (planned member category same) (of_decide_eq_true (List.mem_filter.mp found).2)
  have debugs : d'.debugLogs.getD [] = sweep (·.id) (idsOf .debugLog batch) (d.debugLogs.getD []) := by
    rw [first.debug]
    cases d.debugLogs <;> rfl
  have nothing : later = [] := by
    have perm := second.released describes
    rw [deletedPaths, first.terminal, first.raw, debugs, sweptGone (idsInside inside),
      sweptGone (idsInside inside), sweptGone (idsInside inside)] at perm
    exact perm.eq_nil
  refine ⟨databaseSame ?_ ?_ ?_ ?_, ?_, nothing⟩
  · rw [second.terminal, first.terminal, sweepGone (idsInside inside)]
  · rw [second.raw, first.raw, sweepGone (idsInside inside)]
  · obtain ⟨nulled, events, from', _⟩ := second.events
    have none' : nulled = [] := List.eq_nil_iff_forall_not_mem.mpr fun path member => by
      obtain ⟨c, here, rawly, _, row, found, same⟩ := from' path member
      exact absent c here rawly row found same
    rw [events, none']
    simp [funext withoutNothing]
  · rw [second.debug, first.debug, Option.map_map]
    exact congrArg (Option.map · d.debugLogs) (funext fun _ => sweepGone (idsInside inside))
  · rw [second.counted, nothing]
    rfl

/-! Calls in which no statement fails. -/

def noFault : Fault := fun _ => none

/-- Log files are planned only when their table is there. -/
def Installed (batch : List RetentionRecord) (d : Database) : Prop :=
  ∀ c ∈ batch, c.category = .debugLog → d.debugLogs ≠ none

theorem stepOk {α β : Type} {p : Statements α} {f : α → Statements β} {t mid : Transaction} {first : α}
    (here : p t = .ok (first, mid)) : (p >>= f) t = f first mid := by
  change Except.bind (p t) _ = _
  rw [here]
  rfl

theorem executeSucceeds {α : Type} {effect : Database → Except String (α × Database)} {value : α}
    {t : Transaction} {view : Database} (ran : effect t.view = .ok (value, view)) :
    execute noFault effect t = .ok (value, ⟨view, t.executed + 1⟩) := by
  simp only [execute, noFault, ran]

theorem candidateSucceeds {candidate : RetentionRecord} {t : Transaction}
    (installed : candidate.category = .debugLog → t.view.debugLogs ≠ none) :
    ∃ affected t', executeCandidate noFault candidate t = .ok (affected, t') := by
  cases category : candidate.category with
  | terminal =>
    simp only [executeCandidate, category]
    exact ⟨_, _, executeSucceeds rfl⟩
  | debugLog =>
    simp only [executeCandidate, category]
    obtain ⟨logs, found⟩ := Option.ne_none_iff_exists'.mp (installed category)
    have deletes : ∃ result, deleteDebugLog candidate.id t.view = .ok result := by
      unfold deleteDebugLog
      split
      · rename_i missing
        rw [found] at missing
        cases missing
      · exact ⟨_, rfl⟩
    obtain ⟨⟨affected, view⟩, ran⟩ := deletes
    exact ⟨affected, _, executeSucceeds ran⟩
  | rawProtocol =>
    simp only [executeCandidate, category]
    rw [stepOk (executeSucceeds rfl)]
    split
    · rw [stepOk (executeSucceeds rfl)]
      exact ⟨_, _, rfl⟩
    · exact ⟨_, _, rfl⟩

theorem candidatesSucceed (deleted : Nat) (released : List String) {batch : List RetentionRecord}
    {t : Transaction} (installed : Installed batch t.view) :
    ∃ result t', executeCandidates noFault deleted released batch t = .ok (result, t') := by
  induction batch generalizing deleted released t with
  | nil => exact ⟨_, _, rfl⟩
  | cons candidate rest ih =>
    obtain ⟨affected, mid, ran⟩ := candidateSucceeds (installed candidate List.mem_cons_self)
    have still : Installed rest mid.view := fun c member category missing => by
      rw [(candidateExecuted ran).debug, Option.map_eq_none_iff] at missing
      exact installed c (List.mem_cons_of_mem _ member) category missing
    rw [executeCandidates, stepOk ran]
    split
    · exact ih _ _ still
    · exact ih _ _ still

theorem batchSucceeds (positive : 0 < limit) (installed : Installed plan.candidates d) :
    ∃ report, (executeRetentionBatch noFault limit d plan).1 = .ok report := by
  unfold executeRetentionBatch
  rw [if_neg (Nat.ne_of_gt positive)]
  dsimp only
  split
  · exact ⟨_, rfl⟩
  have succeeds : ∃ result t', inTransaction noFault
      (plan.candidates.take (min (min limit maxRetentionBatch) plan.candidates.length)) ⟨d, 0⟩ =
        .ok (result, t') := by
    obtain ⟨result, t', ran⟩ := candidatesSucceed 0 [] (t := ⟨d, 1⟩) fun c (member : c ∈ plan.candidates.take
        (min (min limit maxRetentionBatch) plan.candidates.length)) => installed c (List.mem_of_mem_take member)
    refine ⟨result, ⟨t'.view, t'.executed + 1⟩, ?_⟩
    rw [inTransaction, stepOk (executeSucceeds rfl), stepOk ran, stepOk (executeSucceeds rfl)]
    rfl
  obtain ⟨⟨deleted, released⟩, t', ran⟩ := succeeds
  rw [ran]
  exact ⟨_, rfl⟩

theorem callsSucceed {count : Nat} (positive : 0 < limit) (installed : Installed plan.candidates d) :
    (succeeded (calls (List.replicate count (noFault, limit)) d plan).1).length = count := by
  induction count generalizing d plan with
  | zero => rfl
  | succ count ih =>
    obtain ⟨report, ok⟩ := batchSucceeds positive installed
    generalize called : executeRetentionBatch noFault limit d plan = outcome at ok
    obtain ⟨result, d₁, plan₁⟩ := outcome
    obtain rfl : result = .ok report := ok
    have later : Installed plan₁.candidates d₁ := by
      rcases batchCommits called with ⟨error, failed, _⟩ | ⟨batch, _, _, split, _, _, here⟩
      · cases failed
      · intro c member category missing
        rw [here.debug, Option.map_eq_none_iff] at missing
        exact installed c (split ▸ List.mem_append_right _ member) category missing
    have rest := ih later
    simp only [List.replicate_succ, calls, called, succeeded, List.length_cons, rest]

/-! A plan made from the database describes it. -/

theorem dedupSubset {α : Type} {same : α → α → Bool} {items : List α} {item : α}
    (member : item ∈ dedupBy same items) : item ∈ items := by
  cases items with
  | nil => exact member
  | cons first rest =>
    change item ∈ dedupFrom same first rest at member
    induction rest generalizing first with
    | nil => exact member
    | cons next rest ih =>
      unfold dedupFrom at member
      split at member
      · rcases List.mem_cons.mp (ih first member) with rfl | later
        · exact List.mem_cons_self
        · exact List.mem_cons_of_mem _ (List.mem_cons_of_mem _ later)
      · rcases List.mem_cons.mp member with rfl | later
        · exact List.mem_cons_self
        · exact List.mem_cons_of_mem _ (ih next later)

theorem selectSubset {policy : RetentionPolicy} {now : Nat} {records : List RetentionRecord} {c}
    (member : c ∈ selectCategory policy now records) : c ∈ records := by
  unfold selectCategory at member
  split at member
  · rcases List.mem_append.mp member with aged | excess
    · exact (List.mem_filter.mp aged).1
    · split at excess
      · cases excess
      · obtain ⟨owner, _, selected⟩ := List.mem_flatMap.mp excess
        have inside := memSort.mp (oldestSubset _ selected)
        exact (List.mem_filter.mp (List.mem_filter.mp inside).1).1
  · exact member

theorem candidatesLoaded {policies : RetentionPolicies} {now : Nat} {c : RetentionRecord}
    (member : c ∈ (planRetention d policies now).candidates) : c ∈ loadRecords d := by
  obtain ⟨category, _, selected⟩ := List.mem_flatMap.mp (memSort.mp (dedupSubset member))
  exact memSort.mp (dedupSubset (List.mem_filter.mp (selectSubset selected)).1)

theorem planDescribes {policies : RetentionPolicies} {now : Nat} :
    Describes (planRetention d policies now).candidates d := by
  have loaded : ∀ {c}, c ∈ (planRetention d policies now).candidates →
      (∃ row ∈ d.terminalSegments, terminalRecord row = c) ∨ (∃ row ∈ d.rawSegments, rawRecord row = c) ∨
        ∃ row ∈ d.debugLogs.getD [], debugRecord row = c := by
    intro c member
    have here := candidatesLoaded member
    simp only [loadRecords, List.mem_append, List.mem_map, or_assoc] at here
    exact here
  refine ⟨fun c member category row found same => ?_, fun c member category row found same => ?_,
    fun c member category logs table row found same => ?_⟩
  · rcases loaded member with ⟨own, here, rfl⟩ | ⟨own, _, rfl⟩ | ⟨own, _, rfl⟩
    · rw [List.inj_on_of_nodup_map d.terminalKeys found here same]
      rfl
    · cases category
    · cases category
  · rcases loaded member with ⟨own, _, rfl⟩ | ⟨own, here, rfl⟩ | ⟨own, _, rfl⟩
    · cases category
    · rw [List.inj_on_of_nodup_map d.rawKeys found here same]
      rfl
    · cases category
  · rcases loaded member with ⟨own, _, rfl⟩ | ⟨own, _, rfl⟩ | ⟨own, here, rfl⟩
    · cases category
    · cases category
    · rw [table, Option.getD_some] at here
      rw [List.inj_on_of_nodup_map (d.debugKeys logs table) found here same]
      rfl

end Calls

/-! A plan that names another path than the row has. -/

def loneRow : TerminalSegment := ⟨"s", "t", 0, 1, 1, "kept", 0⟩

theorem loneRowKey : ([loneRow].map (·.id)).Nodup := List.nodup_singleton _

theorem unlogged (logs : List DebugLog) (found : none = some logs) : (logs.map (·.id)).Nodup := by
  cases found

def oneSegment : Database := ⟨[loneRow], [], [], none, loneRowKey, List.nodup_nil, unlogged⟩

def elsewhere : RetentionRecord := ⟨"s", .terminal, "t", 0, 1, "other"⟩

end Maestro.Retention
