import Maestro.EventPolling
import Maestro.Outline
import Maestro.Registration

/-! The raw protocol capture of a run, the reads that store what they have copied of it, and the
last store of the run's monitor. -/
namespace Maestro.RawCapture
open Interleaving Prog Protocol

structure FakeRawProtocolCapture where
  bytes : Bytes
  observedByteCount : Nat
  truncated : Bool
  complete : Bool
  deriving DecidableEq

namespace FakeRawProtocolCapture

def new : FakeRawProtocolCapture := ⟨[], 0, false, false⟩

def maxCount : Nat := 2 ^ 64 - 1

def push (c : FakeRawProtocolCapture) (input : Bytes) (limit : Nat) : FakeRawProtocolCapture :=
  let nextObserved := min (c.observedByteCount + input.length) maxCount
  let retained := min (limit - c.bytes.length) input.length
  { c with
    bytes := c.bytes ++ input.take retained
    observedByteCount := nextObserved
    truncated := c.truncated || decide (nextObserved = maxCount ∧ input ≠ []) || decide (retained < input.length) }

end FakeRawProtocolCapture

/-- The capture of a run in memory; what it was before is there for the statements only. -/
structure RunCapture where
  capture : FakeRawProtocolCapture
  before : List FakeRawProtocolCapture

namespace RunCapture

def states (l : RunCapture) : List FakeRawProtocolCapture := l.before ++ [l.capture]

def set (l : RunCapture) (capture : FakeRawProtocolCapture) : RunCapture :=
  if capture = l.capture then l else ⟨capture, l.states⟩

end RunCapture

/-- A copy, and how often the capture had changed until then. -/
structure Copy where
  capture : FakeRawProtocolCapture
  seen : Nat
  deriving DecidableEq

structure RawSegment where
  sessionId : Nat
  copy : Copy
  deriving DecidableEq

/-- The database takes the sizes as `i64`. -/
def storable (capture : FakeRawProtocolCapture) : Bool :=
  capture.bytes.length ≤ capture.observedByteCount ∧ capture.observedByteCount < 2 ^ 63

/-- `slots` is what each session record has as its capture, and `results` what the workers that
have ended have returned. -/
structure Memory where
  slots : Nat → Option (Option Nat)
  live : Nat → Option RunCapture
  rows : Nat → Option RawSegment
  tickets : Nat
  results : Nat → Option Bool

structure SessionRawBatch where
  sessionId : Nat
  runId : Nat
  data : Bytes
  nextOffset : Nat
  capturedBytes : Nat
  observedBytes : Nat
  truncated : Bool
  complete : Bool

/-- The errors of the storage are not told apart: they all answer that it is unavailable. -/
inductive Act where
  | slot (sessionId : Nat)
  | copy (runId : Nat)
  | newTicket
  | spawnBlocking (ticket sessionId runId : Nat) (copy : Copy)
  | prepareDirectory
  | upsert (sessionId runId : Nat) (copy : Copy)
  | settle (ticket : Nat) (stored : Bool)
  | join (ticket : Nat)
  | persisted (sessionId runId : Nat)
  | respond (answer : Except MaestroError SessionRawBatch)

@[reducible] def Act.Answer : Act → Type
  | .slot _ => Option (Option Nat)
  | .copy _ => Copy
  | .newTicket => Nat
  | .prepareDirectory | .upsert _ _ _ | .join _ => Bool
  | .persisted _ _ => Option (Option FakeRawProtocolCapture)
  | .spawnBlocking _ _ _ _ | .settle _ _ | .respond _ => Unit

abbrev actions : Actions := ⟨Act, Act.Answer⟩

inductive Entry where
  | readSessionRaw (sessionId runId afterOffset maximumBytes : Nat)
  | persistSessionEvents (sessionId runId : Nat)
  | persistRawProtocolCapture (ticket sessionId runId : Nat) (copy : Copy)

abbrev Program := Prog actions

@[simp] def perform (o : Act) : Program o.Answer := .act (A := actions) o .done

/-- No session, or no capture of this run, or a copy of it. -/
def rawCapture (sessionId runId : Nat) : Program (Option (Option Copy)) := do
  match ← perform (.slot sessionId) with
  | none => pure none
  | some none => pure (some none)
  | some (some captured) =>
    let copy ← perform (.copy captured)
    pure (some (if captured = runId then some copy else none))

def persistRawProtocolCapture (ticket sessionId runId : Nat) (copy : Copy) : Program (Option Entry) := do
  if ← perform .prepareDirectory then
    let stored ← perform (.upsert sessionId runId copy)
    perform (.settle ticket stored)
  else perform (.settle ticket false)
  pure none

def spawnPersist (sessionId runId : Nat) (copy : Copy) : Program Bool := do
  let ticket ← perform .newTicket
  perform (.spawnBlocking ticket sessionId runId copy)
  perform (.join ticket)

def rawBatch (sessionId runId : Nat) (capture : FakeRawProtocolCapture) (afterOffset maximumBytes : Nat) :
    Except MaestroError SessionRawBatch :=
  if capture.bytes.length < afterOffset then
    .error (Polling.invalidSessionRequest "The raw protocol cursor is newer than the retained capture.")
  else
    let last := min (afterOffset + maximumBytes) capture.bytes.length
    .ok ⟨sessionId, runId, (capture.bytes.take last).drop afterOffset, last, capture.bytes.length,
      capture.observedByteCount, capture.truncated, capture.complete⟩

def readPersisted (sessionId runId afterOffset maximumBytes : Nat) : Program (Option Entry) := do
  match ← perform (.persisted sessionId runId) with
  | none => perform (.respond (.error Registration.databaseUnavailableError))
  | some none =>
    perform (.respond (.error (Polling.invalidSessionRequest
      "Raw protocol capture was not enabled for this run.")))
  | some (some capture) => perform (.respond (rawBatch sessionId runId capture afterOffset maximumBytes))
  pure none

def readSessionRaw (sessionId runId afterOffset maximumBytes : Nat) : Program (Option Entry) := do
  match ← rawCapture sessionId runId with
  | some (some copy) =>
    if ← spawnPersist sessionId runId copy then
      perform (.respond (rawBatch sessionId runId copy.capture afterOffset maximumBytes))
    else perform (.respond (.error Registration.databaseUnavailableError))
    pure none
  | some none | none => readPersisted sessionId runId afterOffset maximumBytes

/-- The end of the monitor, where a failure is only logged. -/
def persistSessionEvents (sessionId runId : Nat) : Program (Option Entry) := do
  match ← rawCapture sessionId runId with
  | some (some copy) =>
    let _ ← spawnPersist sessionId runId copy
    pure none
  | some none | none => pure none

def body : Entry → Program (Option Entry)
  | .readSessionRaw sessionId runId afterOffset maximumBytes =>
    readSessionRaw sessionId runId afterOffset maximumBytes
  | .persistSessionEvents sessionId runId => persistSessionEvents sessionId runId
  | .persistRawProtocolCapture ticket sessionId runId copy => persistRawProtocolCapture ticket sessionId runId copy

/-- The insert; on a conflict everything but the session is replaced. -/
def Memory.upsert (m : Memory) (sessionId runId : Nat) (copy : Copy) : Memory :=
  { m with
    rows := Function.update m.rows runId (some ⟨((m.rows runId).map (·.sessionId)).getD sessionId, copy⟩) }

def Memory.persisted (m : Memory) (sessionId runId : Nat) : Option (Option FakeRawProtocolCapture) :=
  match (m.rows runId).filter (·.sessionId = sessionId) with
  | none => some none
  | some row =>
    if row.copy.capture.observedByteCount < row.copy.capture.bytes.length then none
    else some (some row.copy.capture)

def apply : (o : Act) → Bool → Memory → Option (o.Answer × Memory)
  | .slot sessionId, _, m => some (m.slots sessionId, m)
  | .copy runId, _, m => (m.live runId).map fun l => (⟨l.capture, l.before.length⟩, m)
  | .newTicket, _, m => some (m.tickets, { m with tickets := m.tickets + 1 })
  | .spawnBlocking _ _ _ _, _, m => some ((), m)
  | .prepareDirectory, fails, m => some (!fails, m)
  | .upsert sessionId runId copy, fails, m =>
    if fails || !storable copy.capture then some (false, m) else some (true, m.upsert sessionId runId copy)
  | .settle ticket stored, _, m => some ((), { m with results := Function.update m.results ticket (some stored) })
  | .join ticket, fails, m => if fails then some (false, m) else (m.results ticket).map fun stored => (stored, m)
  | .persisted sessionId runId, fails, m => some (if fails then none else m.persisted sessionId runId, m)
  | .respond _, _, m => some ((), m)

def spawns : Act → Option Entry
  | .spawnBlocking ticket sessionId runId copy => some (.persistRawProtocolCapture ticket sessionId runId copy)
  | _ => none

def callable : Entry → Bool
  | .readSessionRaw _ _ _ _ | .persistSessionEvents _ _ => true
  | .persistRawProtocolCapture _ _ _ _ => false

/-- What the run's own tasks do. The reader of the output has ended before the run is finalized. -/
inductive Outside where
  | session (sessionId : Nat)
  | launch (sessionId runId : Nat) (captureRawProtocol : Bool)
  | push (runId : Nat) (input : Bytes)
  | finalize (runId : Nat)

def outside (limit : Nat) : Outside → Memory → Option Memory
  | .session sessionId, m =>
    if m.slots sessionId = none then some { m with slots := Function.update m.slots sessionId (some none) } else none
  | .launch sessionId runId captureRawProtocol, m =>
    if (m.slots sessionId).isSome ∧ m.live runId = none ∧ m.rows runId = none then
      if captureRawProtocol then
        some { m with
          slots := Function.update m.slots sessionId (some (some runId))
          live := Function.update m.live runId (some ⟨.new, []⟩) }
      else some { m with slots := Function.update m.slots sessionId (some none) }
    else none
  | .push runId input, m =>
    match m.live runId with
    | none => none
    | some l =>
      if l.capture.complete then none
      else some { m with live := Function.update m.live runId (some (l.set (l.capture.push input limit))) }
  | .finalize runId, m =>
    match m.live runId with
    | none => none
    | some l => some { m with
        live := Function.update m.live runId (some (l.set { l.capture with complete := true })) }

abbrev machine (limit : Nat) : Machine actions where
  Memory := Memory
  Entry := Entry
  Choice := Bool
  Outside := Outside
  body := body
  apply := apply
  spawns := spawns
  callable := callable
  outside := outside limit

/-- A daemon that has just started, over the rows of the ones before. -/
def started (limit : Nat) (rows : Nat → Option RawSegment) : Config (machine limit) :=
  ⟨⟨fun _ => none, fun _ => none, rows, 0, fun _ => none⟩, []⟩

structure Grown (old new : FakeRawProtocolCapture) : Prop where
  bytes : old.bytes <+: new.bytes
  observed : old.observedByteCount ≤ new.observedByteCount
  truncated : old.truncated = true → new.truncated = true
  complete : old.complete = true → new = old

namespace Grown
variable {a b c : FakeRawProtocolCapture}

theorem refl (a : FakeRawProtocolCapture) : Grown a a := ⟨List.prefix_refl _, Nat.le_refl _, id, fun _ => rfl⟩

theorem trans (first : Grown a b) (rest : Grown b c) : Grown a c where
  bytes := first.bytes.trans rest.bytes
  observed := Nat.le_trans first.observed rest.observed
  truncated := rest.truncated ∘ first.truncated
  complete whole := by
    have same := first.complete whole
    rw [← same]
    exact rest.complete (same ▸ whole)

theorem antisymm (first : Grown a b) (back : Grown b a) : a = b := by
  have bytes : a.bytes = b.bytes := first.bytes.eq_of_length_le back.bytes.length_le
  have observed := Nat.le_antisymm first.observed back.observed
  have truncated : a.truncated = b.truncated := Bool.eq_iff_iff.mpr ⟨first.truncated, back.truncated⟩
  cases whole : a.complete with
  | true => exact (first.complete whole).symm
  | false =>
    cases whole' : b.complete with
    | true => exact back.complete whole'
    | false =>
      cases a
      cases b
      simp_all

theorem push (l : FakeRawProtocolCapture) (input : Bytes) (limit : Nat) (running : l.complete = false)
    (bound : l.observedByteCount ≤ FakeRawProtocolCapture.maxCount) : Grown l (l.push input limit) where
  bytes := List.prefix_append _ _
  observed := Nat.le_min.mpr ⟨Nat.le_add_right _ _, bound⟩
  truncated cut := by simp [FakeRawProtocolCapture.push, cut]
  complete whole := by simp [running] at whole

theorem finalize (l : FakeRawProtocolCapture) : Grown l { l with complete := true } where
  bytes := List.prefix_refl _
  observed := Nat.le_refl _
  truncated := id
  complete whole := by
    cases l
    simp_all

end Grown

/-- Every state of a capture is a growth of those before it. -/
structure Chain (l : RunCapture) : Prop where
  grows : l.states.Pairwise fun old new => Grown old new ∧ old ≠ new
  bound : l.capture.observedByteCount ≤ FakeRawProtocolCapture.maxCount

namespace Chain
variable {l : RunCapture} {late : FakeRawProtocolCapture}

theorem new : Chain ⟨.new, []⟩ := ⟨List.pairwise_singleton _ _, Nat.zero_le _⟩

theorem set (chain : Chain l) (grown : Grown l.capture late)
    (bound : late.observedByteCount ≤ FakeRawProtocolCapture.maxCount) : Chain (l.set late) := by
  unfold RunCapture.set
  split
  · exact chain
  · rename_i different
    refine ⟨List.pairwise_append.mpr ⟨chain.grows, List.pairwise_singleton _ _, ?_⟩, bound⟩
    intro old member last here
    cases List.mem_singleton.mp here
    have before : Grown old l.capture := by
      rcases List.mem_append.mp member with earlier | now
      · exact ((List.pairwise_append.mp chain.grows).2.2 old earlier l.capture List.mem_cons_self).1
      · rw [List.mem_singleton.mp now]
        exact .refl _
    refine ⟨before.trans grown, fun same => different ?_⟩
    subst same
    exact before.antisymm grown

theorem order (chain : Chain l) {i j : Nat} {old late : FakeRawProtocolCapture} (first : l.states[i]? = some old)
    (second : l.states[j]? = some late) : Grown old late ↔ i ≤ j := by
  obtain ⟨boundI, rfl⟩ := List.getElem?_eq_some_iff.mp first
  obtain ⟨boundJ, rfl⟩ := List.getElem?_eq_some_iff.mp second
  have pairs := List.pairwise_iff_getElem.mp chain.grows
  constructor
  · intro grown
    refine Nat.le_of_not_lt fun less => ?_
    have back := pairs j i boundJ boundI less
    exact back.2 (back.1.antisymm grown)
  · intro le
    rcases Nat.lt_or_eq_of_le le with less | same
    · exact (pairs i j boundI boundJ less).1
    · subst same
      exact .refl _

end Chain

theorem setStates {l : RunCapture} {new : FakeRawProtocolCapture} : l.states <+: (l.set new).states := by
  unfold RunCapture.set
  split
  · exact List.prefix_refl _
  · exact List.prefix_append _ _

abbrev Place := Option (Nat × Copy)

def may (q : Place) : Act → Prop
  | .spawnBlocking _ _ runId copy | .upsert _ runId copy => q = some (runId, copy)
  | _ => True

def after (q : Place) : (o : Act) → o.Answer → Place
  | .copy runId, copy => some (runId, copy)
  | _, _ => q

abbrev holdings (limit : Nat) : Protocol (machine limit) where
  Place := Place
  enter
    | .persistRawProtocolCapture _ _ runId copy => some (runId, copy)
    | _ => none
  may := may
  after := after
  ends _ := True

section Runs
variable {limit : Nat}

theorem rawCaptureHolds (sessionId runId : Nat) :
    (holdings limit).Follows (fun found q => ∀ copy, found = some (some copy) → q = some (runId, copy)) none
      (rawCapture sessionId runId) := by
  refine followsStep trivial fun slot => ?_
  cases slot with
  | none => exact nofun
  | some slot =>
    cases slot with
    | none => exact nofun
    | some captured =>
      refine followsStep trivial fun copy => ?_
      intro held same
      split at same
      · rename_i mine
        cases same
        cases mine
        rfl
      · cases same

theorem spawnHolds {sessionId runId : Nat} {copy : Copy} :
    (holdings limit).Follows (fun _ _ => True) (some (runId, copy)) (spawnPersist sessionId runId copy) :=
  followsStep trivial fun _ => followsStep rfl fun _ => followsStep trivial fun _ => trivial

theorem readPersistedHolds {q : Place} (sessionId runId afterOffset maximumBytes : Nat) :
    (holdings limit).Follows (holdings limit).EntryPost q
      (readPersisted sessionId runId afterOffset maximumBytes) := by
  refine followsStep trivial fun found => ?_
  cases found with
  | none => exact followsStep trivial fun _ => trivial
  | some found => cases found <;> exact followsStep trivial fun _ => trivial

theorem holdingsSound : (holdings limit).Sound := by
  intro e
  cases e with
  | readSessionRaw sessionId runId afterOffset maximumBytes =>
    refine followsSeq (rawCaptureHolds sessionId runId) fun found q held => ?_
    cases found with
    | none => exact readPersistedHolds _ _ _ _
    | some found =>
      cases found with
      | none => exact readPersistedHolds _ _ _ _
      | some copy =>
        rw [held copy rfl]
        refine followsSeq spawnHolds fun stored _ _ => ?_
        cases stored <;> exact followsStep trivial fun _ => trivial
  | persistSessionEvents sessionId runId =>
    refine followsSeq (rawCaptureHolds sessionId runId) fun found q held => ?_
    cases found with
    | none => trivial
    | some found =>
      cases found with
      | none => trivial
      | some copy =>
        rw [held copy rfl]
        exact followsSeq spawnHolds fun _ _ _ => trivial
  | persistRawProtocolCapture ticket sessionId runId copy =>
    refine followsStep trivial fun prepared => ?_
    cases prepared with
    | false => exact followsStep trivial fun _ => trivial
    | true => exact followsStep rfl fun _ => followsStep trivial fun _ => trivial

/-- The copy is what the capture was when it had changed so often. -/
def Copied (m : Memory) (runId : Nat) (copy : Copy) : Prop :=
  ∃ l, m.live runId = some l ∧ l.states[copy.seen]? = some copy.capture

structure Captured (m : Memory) : Prop where
  chains : ∀ runId l, m.live runId = some l → Chain l
  rows : ∀ runId row, (m.live runId).isSome → m.rows runId = some row → Copied m runId row.copy

abbrev copies (limit : Nat) : Outline (holdings limit) where
  Inv := Captured
  Here q m := ∀ runId copy, q = some (runId, copy) → Copied m runId copy
  Apart _ _ := True

theorem copiedOn {m m' : Memory} (on : ∀ runId l, m.live runId = some l →
    ∃ l', m'.live runId = some l' ∧ l.states <+: l'.states) {runId : Nat} {copy : Copy}
    (copied : Copied m runId copy) : Copied m' runId copy := by
  obtain ⟨l, live, found⟩ := copied
  obtain ⟨l', live', longer⟩ := on runId l live
  obtain ⟨rest, same⟩ := longer
  refine ⟨l', live', ?_⟩
  rw [← same, List.getElem?_append_left (List.getElem?_eq_some_iff.mp found).1]
  exact found

theorem capturedSame {m m' : Memory} (live : m'.live = m.live) (rows : m'.rows = m.rows)
    (captured : Captured m) : Captured m' := by
  refine ⟨live ▸ captured.chains, fun runId row running here => ?_⟩
  rw [live] at running
  rw [rows] at here
  exact copiedOn (fun _ l there => ⟨l, live ▸ there, List.prefix_refl _⟩) (captured.rows runId row running here)

theorem upsertCaptured {m : Memory} {sessionId runId : Nat} {copy : Copy} (captured : Captured m)
    (copied : Copied m runId copy) : Captured (m.upsert sessionId runId copy) := by
  refine ⟨captured.chains, fun other row running here => ?_⟩
  by_cases same : other = runId
  · subst same
    simp only [Memory.upsert, Function.update_self, Option.some.injEq] at here
    rw [← here]
    exact copied
  · simp only [Memory.upsert, Function.update_of_ne same] at here
    exact captured.rows other row running here

theorem liveCaptured {m m' : Memory} {runId : Nat} {l : RunCapture} (captured : Captured m)
    (live : m'.live = Function.update m.live runId (some l)) (rows : m'.rows = m.rows) (chain : Chain l)
    (longer : ∀ k, m.live runId = some k → k.states <+: l.states)
    (known : ∀ row, m.rows runId = some row → (m.live runId).isSome) :
    Captured m' ∧ ∀ other copy, Copied m other copy → Copied m' other copy := by
  have on : ∀ other k, m.live other = some k → ∃ k', m'.live other = some k' ∧ k.states <+: k'.states := by
    intro other k there
    rw [live]
    by_cases same : other = runId
    · subst same
      exact ⟨l, Function.update_self _ _ _, longer k there⟩
    · exact ⟨k, by rw [Function.update_of_ne same, there], List.prefix_refl _⟩
  refine ⟨⟨fun other k there => ?_, fun other row running here => ?_⟩, fun other copy copied => copiedOn on copied⟩
  · rw [live] at there
    by_cases same : other = runId
    · subst same
      rw [Function.update_self] at there
      cases there
      exact chain
    · rw [Function.update_of_ne same] at there
      exact captured.chains other k there
  · rw [rows] at here
    refine copiedOn on (captured.rows other row ?_ here)
    by_cases same : other = runId
    · subst same
      exact known row here
    · rwa [live, Function.update_of_ne same] at running

theorem setCaptured {m m' : Memory} {runId : Nat} {l : RunCapture} {late : FakeRawProtocolCapture}
    (captured : Captured m) (here : m.live runId = some l) (grown : Grown l.capture late)
    (bound : late.observedByteCount ≤ FakeRawProtocolCapture.maxCount)
    (live : m'.live = Function.update m.live runId (some (l.set late))) (rows : m'.rows = m.rows) :
    Captured m' ∧ ∀ other copy, Copied m other copy → Copied m' other copy := by
  refine liveCaptured captured live rows ((captured.chains runId l here).set grown bound) (fun k there => ?_)
    fun _ _ => by rw [here]; rfl
  cases here.symm.trans there
  exact setStates

theorem pushBound (l : FakeRawProtocolCapture) (input : Bytes) (limit : Nat) :
    (l.push input limit).observedByteCount ≤ FakeRawProtocolCapture.maxCount := Nat.min_le_right _ _

theorem outsideCaptured {x : Outside} {m m' : Memory} (captured : Captured m)
    (happened : outside limit x m = some m') :
    m'.rows = m.rows ∧ Captured m' ∧ ∀ runId copy, Copied m runId copy → Copied m' runId copy := by
  have same : ∀ slots, Captured { m with slots } ∧
      ∀ runId copy, Copied m runId copy → Copied { m with slots } runId copy := fun slots =>
    ⟨@capturedSame m { m with slots } rfl rfl captured, fun _ _ => id⟩
  cases x with
  | session sessionId =>
    simp only [outside] at happened
    split at happened <;> cases happened
    exact ⟨rfl, same _⟩
  | launch sessionId runId captureRawProtocol =>
    simp only [outside] at happened
    split at happened
    · rename_i fresh
      obtain ⟨_, idle, unwritten⟩ := fresh
      split at happened <;> cases happened
      · refine ⟨rfl, liveCaptured captured rfl rfl .new (fun k there => ?_) fun row here => ?_⟩
        · rw [idle] at there
          cases there
        · rw [unwritten] at here
          cases here
      · exact ⟨rfl, same _⟩
    · cases happened
  | push runId input =>
    simp only [outside] at happened
    split at happened
    · cases happened
    · rename_i l live
      split at happened
      · cases happened
      · rename_i running
        cases happened
        have bound := (captured.chains runId l live).bound
        have grown : Grown l.capture (l.capture.push input limit) :=
          .push _ _ _ (Bool.eq_false_iff.mpr running) bound
        exact ⟨rfl, setCaptured captured live grown (pushBound _ _ _) rfl rfl⟩
  | finalize runId =>
    simp only [outside] at happened
    split at happened
    · cases happened
    · rename_i l live
      cases happened
      have bound := (captured.chains runId l live).bound
      exact ⟨rfl, setCaptured captured live (.finalize l.capture) bound rfl rfl⟩

theorem appliedSame {o : Act} {choice : Bool} {m m' : Memory} {answer : o.Answer}
    (still : ∀ sessionId runId copy, o ≠ .upsert sessionId runId copy)
    (effect : apply o choice m = some (answer, m')) : m'.live = m.live ∧ m'.rows = m.rows := by
  cases o with
  | upsert sessionId runId copy => exact absurd rfl (still sessionId runId copy)
  | copy runId =>
    obtain ⟨l, _, same⟩ := Option.map_eq_some_iff.mp effect
    cases same
    exact ⟨rfl, rfl⟩
  | join ticket =>
    simp only [apply] at effect
    split at effect
    · cases effect
      exact ⟨rfl, rfl⟩
    · obtain ⟨stored, _, same⟩ := Option.map_eq_some_iff.mp effect
      cases same
      exact ⟨rfl, rfl⟩
  | _ =>
    cases effect
    exact ⟨rfl, rfl⟩

theorem upsertCases {sessionId runId : Nat} {copy : Copy} {choice : Bool} {m m' : Memory} {stored : Bool}
    (effect : apply (.upsert sessionId runId copy) choice m = some (stored, m')) :
    ((choice || !storable copy.capture) = true ∧ m' = m) ∨
      ((choice || !storable copy.capture) = false ∧ m' = m.upsert sessionId runId copy) := by
  simp only [apply] at effect
  split at effect
  · rename_i refused
    cases effect
    exact .inl ⟨refused, rfl⟩
  · rename_i accepted
    cases effect
    exact .inr ⟨Bool.eq_false_iff.mpr accepted, rfl⟩

theorem copiedAct {o : Act} {choice : Bool} {m m' : Memory} {answer : o.Answer} {q : Place} (captured : Captured m)
    (here : ∀ runId copy, q = some (runId, copy) → Copied m runId copy) (allowed : may q o)
    (effect : apply o choice m = some (answer, m')) :
    Captured m' ∧ (∀ runId copy, Copied m runId copy → Copied m' runId copy) ∧
      ∀ runId copy, after q o answer = some (runId, copy) → Copied m' runId copy := by
  have same : (∀ sessionId runId copy, o ≠ .upsert sessionId runId copy) →
      Captured m' ∧ ∀ runId copy, Copied m runId copy → Copied m' runId copy := fun still => by
    obtain ⟨live, rows⟩ := appliedSame still effect
    exact ⟨capturedSame live rows captured, fun _ _ =>
      copiedOn fun _ l there => ⟨l, live ▸ there, List.prefix_refl _⟩⟩
  cases o with
  | upsert sessionId runId copy =>
    rcases upsertCases effect with ⟨_, rfl⟩ | ⟨_, rfl⟩
    · exact ⟨captured, fun _ _ => id, here⟩
    · exact ⟨upsertCaptured captured (here _ _ allowed), fun _ _ => id, here⟩
  | copy runId =>
    have kept := same (fun _ _ _ => Act.noConfusion)
    refine ⟨kept.1, kept.2, fun other held taken => ?_⟩
    obtain ⟨l, live, same⟩ := Option.map_eq_some_iff.mp effect
    cases same
    cases taken
    refine ⟨l, live, ?_⟩
    rw [RunCapture.states, List.getElem?_concat_length]
  | _ =>
    have kept := same (fun _ _ _ => Act.noConfusion)
    exact ⟨kept.1, kept.2, fun other held taken => kept.2 _ _ (here _ _ taken)⟩

theorem copiesValid : (copies limit).Valid fun _ _ _ => True where
  symm := id
  call := by
    intro e m allowed captured
    cases e with
    | persistRawProtocolCapture ticket sessionId runId copy => cases allowed
    | _ =>
      refine ⟨fun _ _ held => ?_, fun _ _ => trivial⟩
      cases held
  act := by
    intro q o choice m answer m' captured here allowed _ effect
    obtain ⟨inv, on, held⟩ := copiedAct captured here allowed effect
    refine ⟨inv, held, fun e spawned => ⟨?_, trivial⟩, fun other there _ =>
      ⟨fun runId copy same => on _ _ (there _ _ same), trivial, fun _ _ => trivial⟩⟩
    cases o with
    | spawnBlocking ticket sessionId runId copy =>
      cases spawned
      intro other mine same
      cases same
      exact on _ _ (here _ _ allowed)
    | _ => cases spawned
  outside := by
    intro x m m' captured happened
    obtain ⟨_, inv, on⟩ := outsideCaptured captured happened
    exact ⟨inv, fun q here runId copy same => on _ _ (here _ _ same)⟩

/-- No row is replaced by an earlier copy of the capture. -/
def ordered (m : Memory) (fails : Bool) : Act → Bool
  | .upsert _ runId copy => fails || !storable copy.capture ||
      (m.rows runId).all fun row => row.copy.seen ≤ copy.seen
  | _ => true

def inOrder (c : Config (machine limit)) : Event (machine limit) → Bool
  | .run index fails => ((c.tasks[index]?).bind Task.next).all (ordered c.memory fails)
  | _ => true

abbrev InOrder (c : Config (machine limit)) (e : Event (machine limit)) : Prop := inOrder c e = true

def RowsGrow (m m' : Memory) : Prop :=
  ∀ runId row, m.rows runId = some row → ∃ row', m'.rows runId = some row' ∧
    Grown row.copy.capture row'.copy.capture

theorem rowsSame {m m' : Memory} (rows : m'.rows = m.rows) : RowsGrow m m' := fun _ row here =>
  ⟨row, rows ▸ here, .refl _⟩

theorem upsertGrows {m : Memory} {sessionId runId : Nat} {copy : Copy} (captured : Captured m)
    (copied : Copied m runId copy) : RowsGrow m (m.upsert sessionId runId copy) ↔
      ∀ row, m.rows runId = some row → row.copy.seen ≤ copy.seen := by
  obtain ⟨l, live, found⟩ := copied
  have earlier : ∀ row, m.rows runId = some row →
      (Grown row.copy.capture copy.capture ↔ row.copy.seen ≤ copy.seen) := fun row here => by
    obtain ⟨l', live', found'⟩ := captured.rows runId row (by rw [live]; rfl) here
    cases live.symm.trans live'
    exact (captured.chains runId l live).order found' found
  constructor
  · intro grows row here
    obtain ⟨row', there, grown⟩ := grows runId row here
    simp only [Memory.upsert, Function.update_self, Option.some.injEq] at there
    rw [← there] at grown
    exact (earlier row here).mp grown
  · intro le other row here
    by_cases same : other = runId
    · subst same
      exact ⟨_, Function.update_self _ _ _, (earlier row here).mpr (le row here)⟩
    · exact ⟨row, by simp only [Memory.upsert, Function.update_of_ne same, here], .refl _⟩

theorem movesGrow {c c' : Config (machine limit)} {e : Event (machine limit)} (holds : (copies limit).Holds c)
    (moves : Moves c e c') : RowsGrow c.memory c'.memory ↔ InOrder c e := by
  cases moves with
  | call => exact iff_of_true (rowsSame rfl) rfl
  | outside effect => exact iff_of_true (rowsSame (outsideCaptured holds.inv effect).1) rfl
  | @act index fails t o answer memory next performs =>
    have shape : InOrder c (.run index fails) ↔ ordered c.memory fails o = true := by
      change Option.all (ordered c.memory fails) (c.tasks[index]?.bind Task.next) = true ↔ _
      rw [performs.present, Option.bind_some, performsNext performs, Option.all_some]
    have same : (∀ sessionId runId copy, o ≠ .upsert sessionId runId copy) → memory.rows = c.memory.rows :=
      fun still => (appliedSame still performs.effect).2
    rw [shape]
    cases o with
    | upsert sessionId runId copy =>
      rcases upsertCases performs.effect with ⟨refused, rfl⟩ | ⟨accepted, rfl⟩
      · refine iff_of_true (rowsSame rfl) ?_
        rw [ordered, refused, Bool.true_or]
      · have mine := (performsObeys holdingsSound holds.placed performs).allowed
        have copied := holds.here performs.present _ _ mine
        rw [upsertGrows holds.inv copied, ordered, accepted, Bool.false_or, Option.all_eq_true]
        simp only [decide_eq_true_eq]
    | _ => exact iff_of_true (rowsSame (same fun _ _ _ => Act.noConfusion)) rfl

theorem startedHolds (rows : Nat → Option RawSegment) : (copies limit).Holds (started limit rows) :=
  Outline.holdsEmpty ⟨fun _ _ none' => (Option.some_ne_none _ none'.symm).elim,
    fun _ _ running => (Bool.false_ne_true running).elim⟩

theorem reachedHolds {Good : Config (machine limit) → Event (machine limit) → Prop}
    {start c : Config (machine limit)} (first : (copies limit).Holds start) (reached : Reach Good start c) :
    (copies limit).Holds c :=
  Outline.reachHolds holdingsSound copiesValid first (fun _ _ _ _ => trivial) reached

/-- Whatever has been stored grows as long as no store comes behind that of a later copy, and a
store that does takes something back. -/
theorem rawCaptureGrows {rows : Nat → Option RawSegment} {c : Config (machine limit)}
    (reached : Reach Always (started limit rows) c) :
    (∀ c', Reach InOrder c c' → RowsGrow c.memory c'.memory) ∧
      ∀ e c', Moves c e c' → (RowsGrow c.memory c'.memory ↔ InOrder c e) := by
  have holds := reachedHolds (startedHolds rows) reached
  refine ⟨fun c' later => ?_, fun e c' moves => movesGrow holds moves⟩
  induction later with
  | start => exact rowsSame rfl
  | step before good moves ih =>
    have grows := (movesGrow (reachedHolds holds before) moves).mpr good
    intro runId row here
    obtain ⟨row', there, grown⟩ := ih runId row here
    obtain ⟨row'', last, grown'⟩ := grows runId row' there
    exact ⟨row'', last, grown.trans grown'⟩

end Runs

def captures : List (Event (machine 8)) :=
  [.outside (.session 0), .outside (.launch 0 1 true), .outside (.push 1 [7]), .call (.readSessionRaw 0 1 0 4)] ++
    List.replicate 4 (.run 0 false)

/-- The read has its copy and its worker is to begin; the run ends, and its monitor stores all. -/
def ends : List (Event (machine 8)) :=
  [.outside (.push 1 [8]), .outside (.finalize 1), .call (.persistSessionEvents 0 1)] ++
    List.replicate 4 (.run 2 false) ++ List.replicate 2 (.run 3 false)

def stores : List (Event (machine 8)) := List.replicate 2 (.run 1 false)

def stored (c : Config (machine 8)) : Option FakeRawProtocolCapture := (c.memory.rows 1).map (·.copy.capture)

theorem overtakenRun :
    (runFrom (started 8 fun _ => none) (captures ++ ends)).map stored = some (some ⟨[7, 8], 2, false, true⟩) ∧
      (runFrom (started 8 fun _ => none) (captures ++ ends ++ stores)).map stored =
        some (some ⟨[7], 1, false, false⟩) := by
  decide +kernel

/-- The complete capture has been stored and is replaced by a shorter one. -/
theorem rawCaptureShrinks : ∃ c c' : Config (machine 8), Reach Always (started 8 fun _ => none) c ∧
    Reach Always c c' ∧ stored c = some ⟨[7, 8], 2, false, true⟩ ∧ stored c' = some ⟨[7], 1, false, false⟩ := by
  obtain ⟨whole, shrunk⟩ := overtakenRun
  obtain ⟨c, ran, here⟩ := Option.map_eq_some_iff.mp whole
  obtain ⟨c', ran', there⟩ := Option.map_eq_some_iff.mp shrunk
  rw [runAppend, ran, Option.bind_some] at ran'
  exact ⟨c, c', reachRun .start (fun _ _ => trivial) ran, reachRun .start (fun _ _ => trivial) ran', here, there⟩

theorem growsRun : ((goodRun InOrder (started 8 fun _ => none) (captures ++ stores)).bind fun c =>
    (goodRun InOrder c ends).map fun c' => (stored c, stored c')) =
      some (some ⟨[7], 1, false, false⟩, some ⟨[7, 8], 2, false, true⟩) := by
  decide +kernel

theorem rawCaptureGrowsStored : ∃ c c' : Config (machine 8), Reach InOrder c c' ∧ RowsGrow c.memory c'.memory ∧
    stored c = some ⟨[7], 1, false, false⟩ ∧ stored c' = some ⟨[7, 8], 2, false, true⟩ := by
  obtain ⟨c, ran, later⟩ := Option.bind_eq_some_iff.mp growsRun
  obtain ⟨c', ran', seen⟩ := Option.map_eq_some_iff.mp later
  obtain ⟨here, there⟩ := Prod.mk.inj seen
  have reached : Reach Always (started 8 fun _ => none) c := reachMono (fun _ _ _ => trivial) (reachGoodRun .start ran)
  have onward : Reach InOrder c c' := reachGoodRun .start ran'
  exact ⟨c, c', onward, (rawCaptureGrows reached).1 c' onward, here, there⟩

end Maestro.RawCapture
