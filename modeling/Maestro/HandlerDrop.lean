import Maestro.Teardown
import Maestro.ProcessLock
import Maestro.PendingDuty

/-! Handlers that are dropped. A connection that fails aborts the handlers of its requests at
whatever they wait for; a run they worked on stays usable when they owe it nothing there. -/
namespace Maestro.Session
open Interleaving Prog Protocol Teardown

/-! The teardown of a connection. -/

def Act.waits : Act → Bool
  | .findSession _ | .session .. | .run _ (.tracker _) | .run _ (.lock _) | .run _ .awaitFlush
  | .run _ .waitWithin | .run _ .waitExit => true
  | _ => false

def Entry.handles : Entry → Bool
  | .respondPermission .. | .respondUserInput .. | .sendGuiAction .. | .stop .. => true
  | _ => false

/-- A launch whose row could not be stored executes a stop. -/
def unstored : ((o : Act) × o.Answer) → Bool
  | ⟨.store (.startSessionRun ..), stored⟩ => stored == false
  | _ => false

def Process.abandonLine (p : Process) : Process :=
  { p with
    locked := none
    flushing := false
    stdin := p.stdin.map fun stdin => { stdin with direct := [] } }

def Process.abandonLock (p : Process) : Process := { p with locked := none }

def Memory.within (m : Memory) (run : RunId) (f : Process → Process) : Memory :=
  match m.runs run with
  | none => m
  | some control =>
      { m with runs := Function.update m.runs run (some { control with process := f control.process }) }

/-- The guard of the lock is dropped, and with a write the rest of its line that the buffer
does not hold. -/
def Act.release : Act → Memory → Memory
  | .run r .awaitFlush, m => m.within r Process.abandonLine
  | .run r .waitWithin, m | .run r .waitExit, m => m.within r Process.abandonLock
  | _, m => m

def teardown (sup : Supervisor) : Teardown (machine sup) where
  suspended t o := (t.entry.handles || t.past.any unstored) && o.waits
  release := Act.release

/-! What a dropped handler may leave behind. -/

/-- A request it took in flight, or one it put back whose deadline has passed. -/
def Duty.owes : Duty → Bool
  | .claimed .. | .late .. | .due .. => true
  | _ => false

def Grip.stops : Grip → Option RunId
  | .stopping run | .holding run .stop | .killed run .stop | .exited run .stop | .failed run .stop
  | .stopped run => some run
  | _ => none

def Grip.tears (q : Grip) (m : Memory) : Bool :=
  match q with
  | .flushing run bytes =>
      match (m.runs run).bind fun control => control.process.stdin with
      | some stdin => stdin.direct ≠ [] && stdin.direct ≠ bytes
      | none => false
  | _ => false

def Act.endsChild : Act → Bool
  | .run _ .waitWithin | .run _ .waitExit => true
  | _ => false

structure Spared (sup : Supervisor) (t : Task (machine sup)) (o : Act) (m : Memory) : Prop where
  settled : ((duties sup).place t).owes = false
  running : ((locks sup).place t).stops = none
  alive : o.endsChild = false
  whole : ((locks sup).place t).tears m = false
instance (sup : Supervisor) (t : Task (machine sup)) (o m) : Decidable (Spared sup t o m) :=
  decidable_of_iff (((duties sup).place t).owes = false ∧ ((locks sup).place t).stops = none ∧
    o.endsChild = false ∧ ((locks sup).place t).tears m = false)
    ⟨fun ⟨a, b, c, d⟩ => ⟨a, b, c, d⟩, fun ⟨a, b, c, d⟩ => ⟨a, b, c, d⟩⟩

def Act.Settles (run : RunId) (requestId : String) (kind : PendingKind) : Act → Prop
  | .run r (.tracker call) => r = run ∧ call.Returns requestId kind
  | _ => False

def Act.Expires (run : RunId) (requestId : String) (kind : PendingKind) (deadline : Instant) :
    (o : Act) → o.Answer → Prop
  | .run r (.tracker (.expire id k)), _ => r = run ∧ id = requestId ∧ k = kind
  | .run r .loadFinalized, finalized => r = run ∧ finalized = true
  | .spawn (.expiry _ r id k d), _ => r = run ∧ id = requestId ∧ k = kind ∧ d = deadline
  | _, _ => False

def Act.Waits (run : RunId) (requestId : String) (kind : PendingKind) (deadline : Instant) : Act → Prop
  | .sleepUntil d => d = deadline
  | .spawn (.expiry _ r id k d) => r = run ∧ id = requestId ∧ k = kind ∧ d = deadline
  | _ => False

/-- The tasks that will settle the requests in flight and expire the active ones are still
there, the stop call that set the flag was not cut short, and the child was sent whole lines
and at most the beginning of one. -/
structure Usable {sup : Supervisor} (c : Config (machine sup)) : Prop where
  settled : ∀ {run control requestId pending}, c.memory.runs run = some control →
    control.pending.inFlight.lookup requestId = some pending →
    ∃ t ∈ c.tasks, t.rest.Meets (fun o _ => Act.Settles run requestId pending.kind o) (fun _ => False)
  expires : ∀ {run control requestId pending}, c.memory.runs run = some control →
    control.finalized = false → control.pending.active.lookup requestId = some pending →
    ∃ t ∈ c.tasks,
      t.rest.Meets (Act.Expires run requestId pending.kind pending.deadline) (fun _ => False) ∧
      (pending.deadline ≤ c.memory.now ∨
        ∃ o, t.next = some o ∧ Act.Waits run requestId pending.kind pending.deadline o)
  stoppable : ∀ {run control}, c.memory.runs run = some control → control.stopRequested = true →
    ∃ t ∈ c.tasks, (⟨.run run .swapStopRequested, false⟩ : (o : Act) × o.Answer) ∈ t.past
  whole : ∀ {run control stdin}, c.memory.runs run = some control → control.process.stdin = some stdin →
    ∃ lines : List Bytes, (∀ line ∈ lines, Line sup line) ∧ stdin.sent <+: lines.flatten

section Dropping
variable {sup : Supervisor} {m : Memory} {run : RunId}

abbrev TornRun (sup : Supervisor) : Config (machine sup) → Prop :=
  Torn (teardown sup) (Spared sup) (initially sup)

theorem withinRun {f : Process → Process} {r control} (h : (m.within run f).runs r = some control) :
    ∃ old, m.runs r = some old ∧ control.pending = old.pending ∧ control.finalized = old.finalized ∧
      control.stopRequested = old.stopRequested ∧
      (control.process = old.process ∨ (r = run ∧ control.process = f old.process)) := by
  unfold Memory.within at h
  split at h
  · exact ⟨control, h, rfl, rfl, rfl, .inl rfl⟩
  · rename_i old found
    rcases updatedControl h with ⟨rfl, rfl⟩ | ⟨_, same⟩
    · exact ⟨old, found, rfl, rfl, rfl, .inr ⟨rfl, rfl⟩⟩
    · exact ⟨control, same, rfl, rfl, rfl, .inl rfl⟩

theorem releaseRun {o : Act} {r control} (h : (o.release m).runs r = some control) :
    ∃ old, m.runs r = some old ∧ control.pending = old.pending ∧ control.finalized = old.finalized ∧
      control.stopRequested = old.stopRequested := by
  have within : ∀ {f : Process → Process} {run}, (m.within run f).runs r = some control →
      ∃ old, m.runs r = some old ∧ control.pending = old.pending ∧
        control.finalized = old.finalized ∧ control.stopRequested = old.stopRequested := by
    intro f run h
    obtain ⟨old, found, pending, finalized, stops, _⟩ := withinRun h
    exact ⟨old, found, pending, finalized, stops⟩
  unfold Act.release at h
  split at h
  · exact within h
  · exact within h
  · exact within h
  · exact ⟨control, h, rfl, rfl, rfl⟩

theorem withinLedger {f : Process → Process} : (m.within run f).ledger = m.ledger := by
  unfold Memory.within
  split
  · rfl
  · rename_i control found
    unfold Memory.ledger
    congr 1
    · funext r
      by_cases same : r = run
      · subst same
        simp [found]
      · simp [same]
    · funext r
      by_cases same : r = run
      · subst same
        simp [found]
      · simp [same]

theorem releaseLedger {o : Act} : (o.release m).ledger = m.ledger := by
  unfold Act.release
  split <;> first | exact withinLedger | rfl

theorem releaseNow {o : Act} : (o.release m).now = m.now := by
  unfold Act.release Memory.within
  split <;> first | rfl | (split <;> rfl)

theorem tornLineage {c} (h : TornRun sup c) : (lineage sup).Holds c := by
  refine @tornHolds _ _ _ _ _ _ _ (fun _ _ _ => True) (fun _ _ _ => True) rolesSound lineageValid ?_
    initiallyHolds (fun _ _ _ => trivial) (fun _ _ _ _ => trivial) _ h
  intro q o m inv here _ _
  have same : ((teardown sup).release o m).ledger = m.ledger := releaseLedger
  refine ⟨?_, fun other otherHere _ => ?_⟩
  · change ((teardown sup).release o m).ledger.Consistent
    rw [same]
    exact inv
  · change ((teardown sup).release o m).ledger.Backs other
    rw [same]
    exact otherHere

theorem withinHold {f : Process → Process} {r hold} (h : (m.within run f).hold r = some hold) :
    (m.hold r = some hold) ∨ ∃ control, r = run ∧ m.runs run = some control ∧
      hold = (f control.process).hold := by
  obtain ⟨control, found, rfl⟩ := holdControl h
  obtain ⟨old, found', _, _, _, same | ⟨rfl, same⟩⟩ := withinRun found
  · left
    rw [holdFound found', same]
  · exact .inr ⟨old, rfl, found', by rw [same]⟩

theorem withinOther {f : Process → Process} {r} (different : r ≠ run) :
    (m.within run f).hold r = m.hold r := by
  unfold Memory.within
  split
  · rfl
  · rw [holdUpdated, if_neg different]

theorem abandonedLine {control : RunControl} {bytes : Bytes} (sane : control.process.hold.Sane sup)
    (held : control.process.hold.Held sup (some bytes))
    (untorn : ∀ stdin, control.process.stdin = some stdin → stdin.direct = [] ∨ stdin.direct = bytes) :
    control.process.abandonLine.hold.Sane sup := by
  have emptied : ∀ {s}, control.process.abandonLine.stdin = some s →
      ∃ stdin, control.process.stdin = some stdin ∧ s = { stdin with direct := [] } := by
    intro s same
    obtain ⟨stdin, present, rfl⟩ := Option.map_eq_some_iff.mp same
    exact ⟨stdin, present, rfl⟩
  refine ⟨fun _ => rfl, ?_, ?_⟩
  · intro _ s same
    obtain ⟨stdin, _, rfl⟩ := emptied same
    rfl
  · intro s same
    obtain ⟨stdin, present, rfl⟩ := emptied same
    rcases untorn stdin present with none | all
    · obtain ⟨lines, complete, sent, whole⟩ := sane.whole stdin present
      refine ⟨lines, complete, sent, fun reads => ?_⟩
      have whole := whole reads
      simp only [Stdin.unsent, none] at whole
      simpa [Stdin.unsent] using whole
    · obtain ⟨lines, complete, sent, whole⟩ := held.carries bytes rfl stdin present
      have begun : control.process.hold.readEndOpen = true →
          stdin.sent ++ stdin.buffered = lines.flatten := by
        intro reads
        have whole := whole reads
        simp only [Stdin.unsent, all, ← List.append_assoc] at whole
        exact List.append_cancel_right whole
      by_cases reads : control.process.hold.readEndOpen = true
      · refine ⟨lines, complete, ?_, fun _ => ?_⟩
        · rw [List.append_nil]
          exact ⟨_, begun reads⟩
        · simp [Stdin.unsent, begun reads]
      · obtain ⟨lines, complete, sent, _⟩ := sane.whole stdin present
        exact ⟨lines, complete, sent, fun open' => absurd open' reads⟩

def SparedGrip (q : Grip) (o : Act) (m : Memory) : Prop := o.endsChild = false ∧ q.tears m = false

theorem lockingKeeps : Keeps (teardown sup) (locking sup) SparedGrip := by
  intro q o m inv here may spared
  have still : (teardown sup).release o m = m → (locking sup).Inv ((teardown sup).release o m) ∧
      ∀ other, (locking sup).Here other m → (locking sup).Apart q other →
        (locking sup).Here other ((teardown sup).release o m) := by
    intro same
    rw [same]
    exact ⟨inv, fun _ here _ => here⟩
  cases o with
  | run run call =>
    cases call with
    | awaitFlush =>
      obtain ⟨bytes, rfl⟩ := may
      obtain ⟨hold, found, held⟩ := here run rfl
      obtain ⟨control, owned, rfl⟩ := holdControl found
      have untorn : ∀ stdin, control.process.stdin = some stdin →
          stdin.direct = [] ∨ stdin.direct = bytes := by
        intro stdin present
        have whole := spared.2
        simp only [Grip.tears, owned, Option.bind_some, present] at whole
        simpa [Classical.or_iff_not_imp_left] using whole
      refine ⟨?_, ?_⟩
      · intro r hold same
        rcases withinHold same with old | ⟨control', rfl, found', rfl⟩
        · exact inv r hold old
        · cases Option.some.inj (owned.symm.trans found')
          exact abandonedLine (inv r _ (holdFound owned)) held untorn
      · intro other otherHere apart r holds
        have different : r ≠ run := by
          rintro rfl
          exact apart r rfl holds
        obtain ⟨hold, same, held'⟩ := otherHere r holds
        exact ⟨hold, (withinOther different).trans same, held'⟩
    | waitWithin | waitExit => cases spared.1
    | _ => exact still rfl
  | _ => exact still rfl

theorem tornLocking {c} (h : TornRun sup c) : (locking sup).Holds c := by
  refine @tornHolds _ _ _ _ _ _ _ Unknown SparedGrip locksSound lockingValid lockingKeeps
    initiallyLocking ?_ ?_ _ h
  · intro c index choice t o answer memory next before _ performs
    cases o with
    | spawnStructured => exact spawnsUnknown (tornLineage before) performs
    | _ => trivial
  · intro c index t o _ _ _ spare
    exact ⟨spare.alive, spare.whole⟩

theorem someoneLeft {c : Config (machine sup)} {index t o kind memory}
    (drops : (teardown sup).Drops c index t o) (before : Someone c kind)
    (innocent : ¬ kind ((duties sup).place t)) :
    Someone (⟨memory, c.tasks.eraseIdx index⟩ : Config (machine sup)) kind := by
  obtain ⟨u, member, here⟩ := before
  rcases otherLeft drops.present member with rfl | left
  · exact absurd here innocent
  · exact ⟨u, left, here⟩

theorem droppedWaits {c : Config (machine sup)} {index t o}
    (drops : (teardown sup).Drops c index t o) (placed : (duties sup).Placed t) {id kind deadline} :
    ¬ Duty.Waits run id kind deadline ((duties sup).place t) := by
  have may := placedNext placed drops.next
  have waits : o.waits = true := by
    have suspended := drops.suspended
    simp only [teardown, Bool.and_eq_true] at suspended
    exact suspended.2
  rintro (here | here)
  · rw [here] at may
    obtain ⟨_, rfl⟩ := mayRegistered may
    cases waits
  · rw [here] at may
    obtain rfl := mayAsleep may
    cases waits

theorem dropTended {c : Config (machine sup)} {index t o} (tended : Tended c)
    (placed : (duties sup).Placed t) (drops : (teardown sup).Drops c index t o)
    (spare : Spared sup t o c.memory) :
    Tended ⟨(teardown sup).release o c.memory, c.tasks.eraseIdx index⟩ := by
  have unclaimed : ∀ {run id kind}, ¬ Duty.Claims run id kind ((duties sup).place t) := by
    intro run id kind here
    have settled := spare.settled
    rw [show (duties sup).place t = _ from here] at settled
    cases settled
  have unexpired : ∀ {run id kind}, ¬ Duty.Expires run id kind ((duties sup).place t) := by
    intro run id kind here
    have settled := spare.settled
    rcases here with here | here <;> rw [here] at settled <;> cases settled
  have now : ((teardown sup).release o c.memory).now = c.memory.now := releaseNow
  refine ⟨?_, ?_, ?_, ?_⟩
  · intro run control found
    obtain ⟨old, found', pending, _⟩ := releaseRun found
    rw [pending]
    exact tended.wellformed found'
  · intro run control id pending found flying
    obtain ⟨old, found', same, _⟩ := releaseRun found
    rw [same] at flying
    exact someoneLeft drops (tended.claimed found' flying) unclaimed
  · intro run control id pending found open' flying
    obtain ⟨old, found', same, finalized, _⟩ := releaseRun found
    rw [same] at flying
    rw [finalized] at open'
    refine (tended.timed found' open' flying).imp (fun waits => ?_) fun passed => ?_
    · exact someoneLeft drops waits (droppedWaits drops placed)
    · exact now.symm ▸ passed
  · intro run control id pending found open' active
    obtain ⟨old, found', same, finalized, _⟩ := releaseRun found
    rw [same] at active
    rw [finalized] at open'
    refine (tended.expiring found' open' active).imp (fun waits => ?_) fun late => ⟨?_, ?_⟩
    · exact someoneLeft drops waits (droppedWaits drops placed)
    · exact now.symm ▸ late.1
    · exact someoneLeft drops late.2 unexpired

theorem tornDuties {c} (h : TornRun sup c) : ∀ t ∈ c.tasks, (duties sup).Placed t :=
  tornPlaced dutiesSound (by simp [initially]) h

theorem tornTended {c} (h : TornRun sup c) : Tended c := by
  induction h with
  | start => exact initiallyTended
  | step before moves ih => exact movesTended ih (tornDuties before) moves
  | drop before drops spare ih =>
    exact dropTended ih (tornDuties before _ (List.mem_of_getElem? drops.present)) drops spare

/-! The flag of a stop call. -/

theorem stopsCases {q : Grip} (stops : q.stops = some run) :
    q = .stopping run ∨ q = .holding run .stop ∨ q = .killed run .stop ∨ q = .exited run .stop ∨
      q = .failed run .stop ∨ q = .stopped run := by
  unfold Grip.stops at stops
  split at stops
  all_goals first | contradiction | (cases stops; simp)

theorem stopsAfter {q : Grip} {o : Act} (may : q.may sup o) (stops : q.stops = some run)
    (answer : o.Answer) : (q.after o answer).stops = some run := by
  have finished : q.finish.stops = some run := by
    rcases stopsCases stops with rfl | rfl | rfl | rfl | rfl | rfl <;> rfl
  have failed : q.fail.stops = some run := by
    rcases stopsCases stops with rfl | rfl | rfl | rfl | rfl | rfl <;> rfl
  have killed : q.kill.stops = some run := by
    rcases stopsCases stops with rfl | rfl | rfl | rfl | rfl | rfl <;> rfl
  cases o with
  | session s call =>
    cases call with
    | publish => cases answer <;> first | exact failed | exact stops
    | _ => exact stops
  | run r call =>
    cases call with
    | swapStopRequested =>
      obtain rfl : q = .free := may
      cases stops
    | lock use =>
      obtain rfl : q = use.calls r := may
      cases use <;> cases stops
      rfl
    | unlock =>
      rcases may with rfl | ⟨use, rfl | rfl⟩
      · cases stops
      · cases use <;> cases stops
        rfl
      · cases use <;> cases stops
        rfl
    | stdinWrite =>
      obtain ⟨rfl, _⟩ := may
      cases stops
    | awaitFlush =>
      obtain ⟨bytes, rfl⟩ := may
      cases stops
    | completedResult | waitWithin => cases answer <;> first | exact finished | exact stops
    | waitExit => exact finished
    | signalGroup => cases answer <;> first | exact failed | exact stops
    | sealGroup => cases answer <;> first | exact failed | exact killed
    | _ => exact stops
  | _ => exact stops

def Swaps (run : RunId) : (o : Act) × o.Answer := ⟨.run run .swapStopRequested, false⟩

def Stopper (run : RunId) (t : Task (machine sup)) : Prop :=
  Swaps run ∈ t.past ∧ ((locks sup).place t).stops = some run

def Stoppable (c : Config (machine sup)) : Prop := ∀ {run control}, c.memory.runs run = some control →
  control.stopRequested = true → ∃ t ∈ c.tasks, Stopper run t

theorem pastAdvance {t : Task (machine sup)} {o answer next}
    (stays : ∀ e, next ≠ (.done (some e) : Program (Option Entry))) :
    (t.advance o answer next).past = t.past ++ [⟨o, answer⟩] := by
  cases next with
  | done last =>
    cases last with
    | none => rfl
    | some e => exact absurd rfl (stays e)
  | act o' next' => rfl

theorem stopperAdvance {t : Task (machine sup)} {o answer next}
    (obeys : (locks sup).Obeys t o answer next) (placed : (locks sup).Placed t)
    (program : ∃ k, t.rest = .act o k ∧ next = k answer)
    (stops : (((locks sup).place t).after o answer).stops = some run)
    (swapped : Swaps run ∈ t.past ++ [⟨o, answer⟩]) : Stopper run (t.advance o answer next) := by
  have stays : ∀ e, next ≠ (.done (some e) : Program (Option Entry)) := by
    rintro e rfl
    obtain ⟨k, rest, ended⟩ := program
    unfold Placed at placed
    rw [rest] at placed
    have follows := placed.2 answer
    rw [← ended] at follows
    have free : ((locks sup).place t).after o answer = .free := follows
    rw [free] at stops
    cases stops
  refine ⟨?_, ?_⟩
  · rw [pastAdvance stays]
    exact swapped
  · rw [obeys.reached]
    exact stops

theorem stopRequestedKept {now choice call} {c c' : RunControl} {answer : RunCall.Answer call}
    (h : c.perform sup now choice call = some (answer, c')) (other : call ≠ .swapStopRequested) :
    c'.stopRequested = c.stopRequested := by
  cases call with
  | swapStopRequested => exact absurd rfl other
  | _ =>
    simp only [RunControl.perform] at h
    repeat' split at h
    all_goals first | contradiction | (cases Option.some.inj h; rfl)

theorem movesStoppable {c : Config (machine sup)} {e c'} (stoppable : Stoppable c)
    (placed : ∀ t ∈ c.tasks, (locks sup).Placed t) (moves : Moves c e c') : Stoppable c' := by
  cases moves with
  | call allowed =>
    intro run control found requested
    obtain ⟨t, member, stopper⟩ := stoppable found requested
    exact ⟨t, List.mem_append_left _ member, stopper⟩
  | @act index choice t o answer memory next performs =>
    have obeys := performsObeys locksSound placed performs
    have placedHere := placed t (List.mem_of_getElem? performs.present)
    intro run control found requested
    -- The stop call that set the flag before is where it was or took this action.
    have kept : (∃ u ∈ c.tasks, Stopper run u) →
        ∃ u ∈ c.tasks.set index (t.advance o answer next) ++ spawned o, Stopper run u := by
      rintro ⟨u, member, swapped, stops⟩
      obtain ⟨j, present⟩ := List.getElem?_of_mem member
      by_cases same : j = index
      · subst same
        cases Option.some.inj (present.symm.trans performs.present)
        exact ⟨_, List.mem_of_getElem? (movedTask present),
          stopperAdvance obeys placedHere performs.program (stopsAfter obeys.allowed stops answer)
            (List.mem_append_left _ swapped)⟩
      · exact ⟨u, List.mem_of_getElem? (otherTask same present), swapped, stops⟩
    rcases controlCases performs.effect found with old | ⟨call, old, answer', same, found', performed⟩ |
      ⟨_, _, _, _, _, _, rfl⟩
    · exact kept (stoppable old requested)
    · by_cases swaps : call = .swapStopRequested
      · subst swaps
        subst same
        have effect : apply sup (.run run .swapStopRequested) choice c.memory = some (answer, memory) :=
          performs.effect
        obtain ⟨control₁, control₁', found₁, performed₁, rfl⟩ := applyRun effect
        cases Option.some.inj (found'.symm.trans found₁)
        have asked : old.stopRequested = answer := congrArg Prod.fst (Option.some.inj performed₁)
        cases answer with
        | true => exact kept (stoppable found' asked)
        | false =>
          refine ⟨_, List.mem_of_getElem? (movedTask performs.present),
            stopperAdvance obeys placedHere performs.program ?_ ?_⟩
          · have free : (locks sup).place t = .free := obeys.allowed
            rw [free]
            rfl
          · exact List.mem_append_right _ (List.mem_singleton.mpr rfl)
      · rw [stopRequestedKept performed swaps] at requested
        exact kept (stoppable found' requested)
    · cases requested
  | outside effect =>
    intro run control found requested
    rcases outsideCases effect with ⟨_, _, rfl⟩ | ⟨r, control₁, process, _, found₁, _, rfl⟩
    · exact stoppable found requested
    · rcases updatedControl found with ⟨rfl, rfl⟩ | ⟨_, old⟩
      · exact stoppable found₁ requested
      · exact stoppable old requested

theorem tornStoppable {c} (h : TornRun sup c) : Stoppable c := by
  induction h with
  | start =>
    intro run control found
    cases found
  | step before moves ih =>
    exact movesStoppable ih (tornPlaced locksSound (by simp [initially]) before) moves
  | drop before drops spare ih =>
    intro run control found requested
    obtain ⟨old, found', _, _, same⟩ := releaseRun found
    rw [same] at requested
    obtain ⟨u, member, swapped, stops⟩ := ih found' requested
    rcases otherLeft drops.present member with rfl | left
    · rw [spare.running] at stops
      cases stops
    · exact ⟨u, left, swapped, stops⟩

/-! What the tasks at their places will do. -/

theorem bodyActs (e e' : Entry) : body sup e ≠ .done (some e') := by
  have replies : ∀ call : Program (Except MaestroError Unit), reply call ≠ .done (some e') := by
    intro call same
    cases call <;> cases same
  cases e with
  | start request => exact replies _
  | resume session request => exact replies _
  | respondPermission => exact replies _
  | respondUserInput => exact replies _
  | sendGuiAction => exact replies _
  | stop => exact replies _
  | finish session run failure =>
    intro same
    cases failure <;> cases same
  | _ =>
    intro same
    cases same

theorem tornRests {c} (h : TornRun sup c) : ∀ t ∈ c.tasks, ∀ e, t.rest ≠ .done (some e) := by
  induction h with
  | start => simp [initially]
  | step before moves ih =>
    intro t member
    cases moves with
    | call allowed =>
      rcases List.mem_append.mp member with old | new
      · exact ih t old
      · cases List.mem_singleton.mp new
        exact bodyActs _
    | @act index choice t' o answer memory next performs =>
      obtain ⟨j, found⟩ := List.getElem?_of_mem member
      rcases taskCases found with ⟨_, rfl⟩ | ⟨_, old⟩ | ⟨_, e, _, rfl⟩
      · intro e same
        cases next with
        | done last =>
          cases last with
          | none => cases same
          | some e' => exact bodyActs e' e same
        | act => cases same
      · exact ih t (List.mem_of_getElem? old)
      · exact bodyActs e
    | outside => exact ih t member
  | drop before drops spare ih => exact fun t member => ih t (List.mem_of_mem_eraseIdx member)

theorem claimedMeets {t : Task (machine sup)} (placed : (duties sup).Placed t) {id kind}
    (here : Duty.Claims run id kind ((duties sup).place t)) :
    t.rest.Meets (fun o _ => Act.Settles run id kind o) (fun _ => False) := by
  refine @followsMeets _ _ (duties sup) _ _ _ _ (Duty.Claims run id kind) ?_ ?_ _ _ here placed
  · intro q o answer here may
    obtain rfl : q = .claimed run id kind := here
    rcases mayClaimed may with still | ⟨call, rfl, returns⟩
    · exact .inr still
    · exact .inl ⟨rfl, returns⟩
  · intro last q here ends
    obtain rfl : q = .claimed run id kind := here
    cases last with
    | none => cases ends
    | some e =>
      have enters : Duty.claimed run id kind = Duty.ofEntry e := ends
      cases e <;> cases enters

theorem expiresMeets {p : Program (Option Entry)} {q : Duty} {id kind deadline}
    (follows : (duties sup).Follows (duties sup).EntryPost q p) (here : Duty.Expires run id kind q) :
    p.Meets (Act.Expires run id kind deadline) (fun _ => False) := by
  refine @followsMeets _ _ (duties sup) _ _ _ _ (Duty.Expires run id kind) ?_ ?_ _ _ here follows
  · rintro q o answer (rfl | rfl) may
    · obtain rfl := mayLate may
      cases answer with
      | true => exact .inl ⟨rfl, rfl⟩
      | false => exact .inr (.inr rfl)
    · obtain rfl := mayDue may
      exact .inl ⟨rfl, rfl, rfl⟩
  · intro last q here ends
    cases last with
    | none => rcases here with rfl | rfl <;> cases ends
    | some e =>
      have enters : q = Duty.ofEntry e := ends
      rcases here with rfl | rfl <;> cases e <;> cases enters

theorem waitsMeets {t : Task (machine sup)} (placed : (duties sup).Placed t)
    (rests : ∀ e, t.rest ≠ .done (some e)) {id kind deadline}
    (here : Duty.Waits run id kind deadline ((duties sup).place t)) :
    t.rest.Meets (Act.Expires run id kind deadline) (fun _ => False) ∧
      ∃ o, t.next = some o ∧ Act.Waits run id kind deadline o := by
  unfold Placed at placed
  unfold Task.next
  split
  · rename_i last program
    rw [program] at placed
    cases last with
    | none =>
      have free : (duties sup).place t = .free := placed
      rw [free] at here
      rcases here with here | here <;> cases here
    | some e => exact absurd program (rests e)
  · rename_i o next program
    rw [program] at placed ⊢
    rcases here with here | here <;> rw [here] at placed
    · obtain ⟨session, rfl⟩ := mayRegistered placed.1
      exact ⟨fun _ => .inl ⟨rfl, rfl, rfl, rfl⟩, _, rfl, rfl, rfl, rfl, rfl⟩
    · obtain rfl := mayAsleep placed.1
      exact ⟨fun answer => .inr (expiresMeets (placed.2 answer) (.inl rfl)), _, rfl, rfl⟩

/-- Whatever handlers are dropped while they owe nothing to their run, it stays usable. -/
theorem handlersDroppable {c} (h : TornRun sup c) : Usable c := by
  have tended := tornTended h
  have placed := tornDuties h
  have locking := tornLocking h
  refine ⟨?_, ?_, ?_, ?_⟩
  · intro run control id pending found flying
    obtain ⟨t, member, here⟩ := tended.claimed found flying
    exact ⟨t, member, claimedMeets (placed t member) here⟩
  · intro run control id pending found open' active
    rcases tended.expiring found open' active with ⟨t, member, here⟩ | ⟨passed, t, member, here⟩
    · have waits := waitsMeets (placed t member) (tornRests h t member) here
      exact ⟨t, member, waits.1, .inr waits.2⟩
    · exact ⟨t, member, expiresMeets (placed t member) here, .inl passed⟩
  · intro run control found requested
    obtain ⟨t, member, swapped, _⟩ := tornStoppable h found requested
    exact ⟨t, member, swapped⟩
  · intro run control stdin found present
    obtain ⟨lines, complete, sent, _⟩ := (locking.inv run _ (holdFound found)).whole stdin present
    rw [List.append_nil] at sent
    exact ⟨lines, complete, sent⟩

end Dropping

section Dropped

def undropped {sup : Supervisor} (events : List (Event (machine sup))) : List (Event (machine sup) ⊕ Nat) :=
  events.map .inl

/-- One handler is dropped at its first wait, and one behind the claim that it has settled. -/
def droppedTurns : List (Event (machine mixed) ⊕ Nat) :=
  undropped (startTurns 0 ++ turns 1 1 ++ askTurns permissionFrame ++ [.call (.sendGuiAction 0 2 "open" .null)] ++
    turns 5 1) ++ [.inr 5] ++ undropped ([.call (.respondPermission 0 2 "p1" .allow)] ++ turns 5 10 ++
    [.outside (.pump 2 39)] ++ turns 5 3) ++ [.inr 5]

def droppedView (c : Config (machine mixed)) : Bool :=
  c.tasks.length == 5 && (c.memory.runs 2).any fun control =>
    decide (("p1", PendingKind.permission) ∈ control.pending.resolved)

theorem droppedRun : (tornRun (teardown _) (Spared _) (initially _) droppedTurns).map droppedView =
    some true := by decide +kernel

theorem handlersDroppableCall : ∃ c : Config (machine mixed), c.tasks.length = 5 ∧
    (∃ control, c.memory.runs 2 = some control ∧ ("p1", PendingKind.permission) ∈ control.pending.resolved) ∧
    Usable c := by
  obtain ⟨c, ran, seen⟩ := Option.map_eq_some_iff.mp droppedRun
  simp only [droppedView, Bool.and_eq_true, beq_iff_eq, Option.any_eq_true, decide_eq_true_eq] at seen
  exact ⟨c, seen.1, seen.2, handlersDroppable (runTorn .start ran)⟩

def cutShortTurns : List (Event (machine (plain [])) ⊕ Nat) :=
  undropped (startTurns 0 ++ [.call (.stop 0 2)] ++ turns 3 4) ++ [.inr 3]

def swapsHere : ((o : Act) × o.Answer) → Bool
  | ⟨.run 2 .swapStopRequested, requested⟩ => requested == false
  | _ => false

def cutShortView (c : Config (machine (plain []))) : Bool :=
  ((c.memory.runs 2).any fun control => control.stopRequested) &&
    c.tasks.all fun t => t.past.all fun done => !swapsHere done

theorem cutShortRun : (tornRun (teardown _) (fun _ _ _ => True) (initially _) cutShortTurns).map
    cutShortView = some true := by decide +kernel

theorem stopCutShort : ¬ ∀ (sup : Supervisor) (c : Config (machine sup)),
    Torn (teardown sup) (fun _ _ _ => True) (initially sup) c → Usable c := by
  intro usable
  obtain ⟨c, ran, seen⟩ := Option.map_eq_some_iff.mp cutShortRun
  simp only [cutShortView, Bool.and_eq_true, Option.any_eq_true, List.all_eq_true] at seen
  obtain ⟨⟨control, found, requested⟩, none⟩ := seen
  obtain ⟨t, member, swapped⟩ := (usable _ c (runTorn .start ran)).stoppable found requested
  have unswapped := none t member _ swapped
  cases unswapped

end Dropped
end Maestro.Session
