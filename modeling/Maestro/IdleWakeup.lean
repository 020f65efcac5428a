import Maestro.Stepping

/-! The run loop of the daemon and the wake-ups that tell it of a change: when the daemon is
idle, and what the loop knows of it. -/
namespace Maestro.IdleWakeup
open Stepping

/-- A future of `Notify`: it hears `notify_waiters` once it is there, and `notify_one` once it
has been polled. -/
inductive Notified where
  | created
  | waiting
  | one
  | all
  deriving DecidableEq

/-- The counters in the order in which `is_idle` reads them. -/
inductive Counter where
  | connectedClients
  | activeSessions
  | activeProcesses
  deriving DecidableEq

def Counter.next : Counter → Option Counter
  | .connectedClients => some .activeSessions
  | .activeSessions => some .activeProcesses
  | .activeProcesses => none

inductive Check where
  | activity
  | deadline
  deriving DecidableEq

/-- Where the loop is: behind a branch, at the select, reading the counters one after the other,
or with a client it has accepted. -/
inductive Loop where
  | handling
  | selecting (notified : Notified)
  | checking (check : Check) (counter : Counter)
  | accepted
  | admitted
  | stopped
  deriving DecidableEq

/-- The counters, the notification, and the tasks between a counter and their notification:
`ones` are to call `notify_one`, `alls` to call `notify_waiters`; a monitor is `starting` until
its start has been notified, and then `running`. -/
structure Daemon where
  connectedClients : Nat
  activeSessions : Nat
  activeProcesses : Nat
  permit : Bool
  loop : Loop
  idleSince : Bool
  ones : Nat
  alls : Nat
  starting : Nat
  running : Nat
  deriving DecidableEq

namespace Daemon

def started : Daemon := ⟨0, 0, 0, false, .handling, true, 0, 0, 0, 0⟩

def count (d : Daemon) : Counter → Nat
  | .connectedClients => d.connectedClients
  | .activeSessions => d.activeSessions
  | .activeProcesses => d.activeProcesses

def isIdle (d : Daemon) : Bool := d.connectedClients = 0 ∧ d.activeSessions = 0 ∧ d.activeProcesses = 0

def notifyOne (d : Daemon) : Daemon :=
  match d.loop with
  | .selecting .waiting => { d with loop := .selecting .one }
  | _ => { d with permit := true }

def notifyWaiters (d : Daemon) : Daemon :=
  match d.loop with
  | .selecting .created | .selecting .waiting => { d with loop := .selecting .all }
  | _ => d

/-- Another branch is taken: a single notification goes back, one to all does not. -/
def dropNotified (d : Daemon) (loop : Loop) : Daemon :=
  match d.loop with
  | .selecting .one => { d with loop, permit := true }
  | _ => { d with loop }

/-- One counter of `is_idle`, and what the loop makes of the last one. -/
def load (d : Daemon) (check : Check) (counter : Counter) : Daemon :=
  if d.count counter ≠ 0 then { d with loop := .handling, idleSince := false }
  else
    match counter.next, check with
    | some counter, check => { d with loop := .checking check counter }
    | none, .activity => { d with loop := .handling, idleSince := true }
    | none, .deadline => { d with loop := .stopped }

end Daemon

/-- What the loop does, and what the others do: a task that has lowered a counter notifies in a
step of its own. -/
inductive Event where
  | select
  | register
  | notified
  | joined
  | accepts (capacity : Bool)
  | admits
  | deadline
  | loads
  | shutdown
  | disconnects
  | notifiesOne
  | monitorStarts
  | monitorStarted
  | monitorEnds
  | notifiesWaiters
  | processStarts
  | processEnds
  | terminalStarts
  | terminalEnds

def step (d : Daemon) : Event → Option Daemon
  | .select => if d.loop = .handling then some { d with loop := .selecting .created } else none
  | .register =>
    if d.loop = .selecting .created ∧ d.permit = false then some { d with loop := .selecting .waiting } else none
  | .notified =>
    match d.loop with
    | .selecting .one | .selecting .all => some { d with loop := .checking .activity .connectedClients }
    | .selecting .created =>
      if d.permit then some { d with loop := .checking .activity .connectedClients, permit := false } else none
    | _ => none
  | .joined =>
    match d.loop with
    | .selecting _ => some (d.dropNotified .handling)
    | _ => none
  | .accepts capacity =>
    match d.loop with
    | .selecting _ => some (d.dropNotified (if capacity then .accepted else .handling))
    | _ => none
  | .admits =>
    match d.loop with
    | .accepted => some { d with loop := .admitted, connectedClients := d.connectedClients + 1 }
    | .admitted => some { d with loop := .handling, permit := true }
    | _ => none
  | .deadline =>
    match d.loop with
    | .selecting _ => if d.idleSince then some (d.dropNotified (.checking .deadline .connectedClients)) else none
    | _ => none
  | .loads =>
    match d.loop with
    | .checking check counter => some (d.load check counter)
    | _ => none
  | .shutdown =>
    match d.loop with
    | .selecting _ => some { d with loop := .stopped }
    | _ => none
  | .disconnects =>
    if 0 < d.connectedClients then some { d with connectedClients := d.connectedClients - 1, ones := d.ones + 1 }
    else none
  | .notifiesOne => if 0 < d.ones then some { d with ones := d.ones - 1 }.notifyOne else none
  | .monitorStarts => some { d with activeSessions := d.activeSessions + 1, starting := d.starting + 1 }
  | .monitorStarted =>
    if 0 < d.starting then some { d with starting := d.starting - 1, running := d.running + 1 }.notifyWaiters
    else none
  | .monitorEnds =>
    if 0 < d.running then
      some { d with running := d.running - 1, activeSessions := d.activeSessions - 1, alls := d.alls + 1 }
    else none
  | .notifiesWaiters => if 0 < d.alls then some { d with alls := d.alls - 1 }.notifyWaiters else none
  | .processStarts => some { d with activeProcesses := d.activeProcesses + 1 }
  | .processEnds =>
    if 0 < d.activeProcesses then some { d with activeProcesses := d.activeProcesses - 1 } else none
  | .terminalStarts => some { d with activeProcesses := d.activeProcesses + 1, ones := d.ones + 1 }
  | .terminalEnds =>
    if 0 < d.activeProcesses then some { d with activeProcesses := d.activeProcesses - 1, ones := d.ones + 1 }
    else none

/-- The loop looks at the counters, or notifies itself, before it waits again. -/
def Loop.attends : Loop → Bool
  | .handling | .selecting .created | .selecting .waiting => false
  | _ => true

/-- A wake-up is stored, has been received, or is about to be sent. -/
def Daemon.pending (d : Daemon) : Bool := d.permit || d.loop.attends || decide (0 < d.ones) || decide (0 < d.alls)

/-- An idle daemon has its idle period recorded, or a wake-up to come. -/
def Records (d : Daemon) : Prop := d.isIdle = true → d.pending = true ∨ d.idleSince = true

def Daemon.forgotten (d : Daemon) : Bool := !d.idleSince && !d.permit && d.ones = 0

/-- A monitor's end does not notify an idle daemon whose loop is between two waits, the loop does
not leave its wait over a monitor's end for another branch, and no process is the last to go
behind the back of everybody. -/
def heeds (d : Daemon) : Event → Bool
  | .notifiesWaiters => !(d.isIdle && d.forgotten && d.alls = 1 && d.loop = .handling)
  | .joined | .accepts false => !(d.isIdle && d.forgotten && d.alls = 0 && d.loop = .selecting .all)
  | .processEnds => !({ d with activeProcesses := d.activeProcesses - 1 }.isIdle && d.forgotten && d.alls = 0 &&
      d.loop.attends = false)
  | _ => true

abbrev Heeded (d : Daemon) (event : Event) : Prop := heeds d event = true

def Counted (d : Daemon) : Prop := d.activeSessions = d.starting + d.running

section Steps
variable {d d' : Daemon}

theorem pendingRecords (pending : d.pending = true) : Records d := fun _ => .inl pending

theorem busyRecords (busy : d.isIdle = false) : Records d := fun idle => by
  rw [busy] at idle
  cases idle

theorem keptRecords (records : Records d) (idle : d'.isIdle = true → d.isIdle = true)
    (pending : d.pending = true → d'.pending = true) (since : d'.idleSince = d.idleSince) : Records d' := fun still => by
  rcases records (idle still) with before | before
  · exact .inl (pending before)
  · exact .inr (since.trans before)

theorem attendsPending (attends : d.loop.attends = true) : d.pending = true := by
  simp [Daemon.pending, attends]

theorem onesPending (some' : 0 < d.ones) : d.pending = true := by
  simp [Daemon.pending, some']

theorem allsPending (some' : 0 < d.alls) : d.pending = true := by
  simp [Daemon.pending, some']

theorem permitPending (permit : d.permit = true) : d.pending = true := by
  simp [Daemon.pending, permit]

theorem notifyOnePending : d.notifyOne.pending = true := by
  unfold Daemon.notifyOne
  split
  · exact attendsPending rfl
  · exact permitPending rfl

theorem recordsIff : Records d ↔
    ¬ (d.isIdle = true ∧ d.forgotten = true ∧ d.alls = 0 ∧ d.loop.attends = false) := by
  unfold Records Daemon.pending Daemon.forgotten
  cases d.isIdle <;> cases d.permit <;> cases d.idleSince <;> cases d.loop.attends <;> simp
  all_goals omega

theorem droppedRecords {loop : Loop} (records : Records d) {notified : Notified} (here : d.loop = .selecting notified)
    (away : loop.attends = false) : Records (d.dropNotified loop) ↔
      ¬ (d.isIdle = true ∧ d.forgotten = true ∧ d.alls = 0 ∧ d.loop = .selecting .all) := by
  have quiet : notified ≠ .one → d.dropNotified loop = { d with loop } := fun other => by
    unfold Daemon.dropNotified
    split
    · rename_i one
      exact absurd (Loop.selecting.inj (here.symm.trans one)) other
    · rfl
  have kept : d.loop.attends = false → notified ≠ .one → Records (d.dropNotified loop) := fun before other => by
    rw [quiet other]
    refine keptRecords records id (fun pending => ?_) rfl
    simpa [Daemon.pending, before, away] using pending
  cases notified with
  | one =>
    have back : (d.dropNotified loop).permit = true := by
      unfold Daemon.dropNotified
      rw [here]
    refine iff_of_true (pendingRecords (permitPending back)) fun lost => ?_
    cases here.symm.trans lost.2.2.2
  | all =>
    rw [quiet nofun, recordsIff]
    exact not_congr (and_congr Iff.rfl (and_congr Iff.rfl (and_congr Iff.rfl (iff_of_true away here))))
  | created =>
    refine iff_of_true (kept (here ▸ rfl) nofun) fun lost => ?_
    cases here.symm.trans lost.2.2.2
  | waiting =>
    refine iff_of_true (kept (here ▸ rfl) nofun) fun lost => ?_
    cases here.symm.trans lost.2.2.2

theorem handlingDeaf (here : d.loop = .handling) : d.notifyWaiters = d := by
  unfold Daemon.notifyWaiters
  rw [here]

theorem waitersHeard (other : d.loop ≠ .handling) : d.notifyWaiters.loop.attends = true := by
  obtain ⟨_, _, _, _, loop, _, _, _, _, _⟩ := d
  cases loop with
  | handling => exact absurd rfl other
  | selecting notified => cases notified <;> rfl
  | _ => rfl

theorem waitersRecords (some' : 0 < d.alls) : Records { d with alls := d.alls - 1 }.notifyWaiters ↔
    ¬ (d.isIdle = true ∧ d.forgotten = true ∧ d.alls = 1 ∧ d.loop = .handling) := by
  by_cases handling : d.loop = .handling
  · rw [@handlingDeaf { d with alls := d.alls - 1 } handling, recordsIff]
    refine not_congr (and_congr Iff.rfl (and_congr Iff.rfl (and_congr ?_ (iff_of_true ?_ handling))))
    · change d.alls - 1 = 0 ↔ d.alls = 1
      omega
    · change d.loop.attends = false
      rw [handling, Loop.attends]
  · have heard := @waitersHeard { d with alls := d.alls - 1 } handling
    exact iff_of_true (pendingRecords (attendsPending heard)) fun lost => handling lost.2.2.2

theorem countIdle (idle : d.isIdle = true) (counter : Counter) : d.count counter = 0 := by
  simp only [Daemon.isIdle, decide_eq_true_eq] at idle
  cases counter with
  | connectedClients => exact idle.1
  | activeSessions => exact idle.2.1
  | activeProcesses => exact idle.2.2

theorem loadRecords (check : Check) (counter : Counter) : Records (d.load check counter) := by
  unfold Daemon.load
  split
  · rename_i busy
    exact busyRecords (Bool.eq_false_iff.mpr fun idle => busy (countIdle (d := d) idle counter))
  · split
    · exact pendingRecords (attendsPending rfl)
    · exact fun _ => .inr rfl
    · exact pendingRecords (attendsPending rfl)

theorem notifyWaitersKeeps (records : Records d) : Records d.notifyWaiters := by
  unfold Daemon.notifyWaiters
  split
  · exact pendingRecords (attendsPending rfl)
  · exact pendingRecords (attendsPending rfl)
  · exact records

theorem lostBool {a b : Bool} {p q : Prop} [Decidable p] [Decidable q] :
    ¬ (a = true ∧ b = true ∧ p ∧ q) ↔ (!(a && b && decide p && decide q)) = true := by
  cases a <;> cases b <;> simp [Decidable.imp_iff_not_or]

theorem notifyOneCounted (counted : Counted d) : Counted d.notifyOne := by
  unfold Daemon.notifyOne
  split <;> exact counted

theorem notifyWaitersCounted (counted : Counted d) : Counted d.notifyWaiters := by
  unfold Daemon.notifyWaiters
  split <;> exact counted

theorem droppedCounted (counted : Counted d) (loop : Loop) : Counted (d.dropNotified loop) := by
  unfold Daemon.dropNotified
  split <;> exact counted

theorem loadCounted (counted : Counted d) (check : Check) (counter : Counter) : Counted (d.load check counter) := by
  unfold Daemon.load
  split
  · exact counted
  · split <;> exact counted

theorem countedStep (counted : Counted d) {event : Event} (steps : step d event = some d') : Counted d' := by
  cases event with
  | joined =>
    simp only [step] at steps
    split at steps <;> cases steps
    exact droppedCounted counted _
  | accepts capacity =>
    simp only [step] at steps
    split at steps <;> cases steps
    exact droppedCounted counted _
  | deadline =>
    simp only [step] at steps
    split at steps
    · split at steps <;> cases steps
      exact droppedCounted counted _
    · cases steps
  | loads =>
    simp only [step] at steps
    split at steps <;> cases steps
    exact loadCounted counted _ _
  | notifiesOne =>
    simp only [step] at steps
    split at steps <;> cases steps
    exact @notifyOneCounted { d with ones := d.ones - 1 } counted
  | notifiesWaiters =>
    simp only [step] at steps
    split at steps <;> cases steps
    exact @notifyWaitersCounted { d with alls := d.alls - 1 } counted
  | monitorStarts =>
    cases steps
    unfold Counted at *
    dsimp only
    omega
  | monitorStarted =>
    simp only [step] at steps
    split at steps <;> cases steps
    refine notifyWaitersCounted ?_
    unfold Counted at *
    dsimp only
    omega
  | monitorEnds =>
    simp only [step] at steps
    split at steps <;> cases steps
    unfold Counted at *
    dsimp only
    omega
  | notified =>
    simp only [step] at steps
    split at steps
    · cases steps
      exact counted
    · cases steps
      exact counted
    · split at steps <;> cases steps
      exact counted
    · cases steps
  | admits =>
    simp only [step] at steps
    split at steps <;> cases steps <;> exact counted
  | select | register | shutdown | disconnects | processEnds | terminalEnds =>
    simp only [step] at steps
    split at steps <;> cases steps
    exact counted
  | processStarts | terminalStarts =>
    cases steps
    exact counted

theorem stepRecords (records : Records d) (counted : Counted d) {event : Event} (steps : step d event = some d') :
    Records d' ↔ Heeded d event := by
  cases event with
  | notifiesWaiters =>
    simp only [step] at steps
    split at steps
    · rename_i some'
      cases steps
      exact (waitersRecords some').trans lostBool
    · cases steps
  | joined =>
    simp only [step] at steps
    split at steps
    · rename_i here
      cases steps
      exact (droppedRecords records here rfl).trans lostBool
    · cases steps
  | accepts capacity =>
    simp only [step] at steps
    split at steps
    · rename_i here
      cases steps
      cases capacity with
      | false =>
        rw [if_neg Bool.false_ne_true]
        exact (droppedRecords records here rfl).trans lostBool
      | true =>
        refine iff_of_true (pendingRecords (attendsPending ?_)) rfl
        unfold Daemon.dropNotified
        split <;> rfl
    · cases steps
  | processEnds =>
    simp only [step] at steps
    split at steps
    · cases steps
      exact recordsIff.trans lostBool
    · cases steps
  | select =>
    simp only [step] at steps
    split at steps <;> cases steps
    rename_i here
    refine iff_of_true (keptRecords records id (fun pending => ?_) rfl) rfl
    have before : d.loop.attends = false := by rw [here, Loop.attends]
    have waits : (Loop.selecting .created).attends = false := rfl
    simpa [Daemon.pending, before, waits] using pending
  | register =>
    simp only [step] at steps
    split at steps <;> cases steps
    rename_i here
    refine iff_of_true (keptRecords records id (fun pending => ?_) rfl) rfl
    have before : d.loop.attends = false := by rw [here.1, Loop.attends]
    have waits : (Loop.selecting .waiting).attends = false := rfl
    simpa [Daemon.pending, before, waits] using pending
  | notified =>
    simp only [step] at steps
    refine iff_of_true (pendingRecords (attendsPending ?_)) rfl
    split at steps
    · cases steps
      rfl
    · cases steps
      rfl
    · split at steps <;> cases steps
      rfl
    · cases steps
  | admits =>
    simp only [step] at steps
    refine iff_of_true (pendingRecords ?_) rfl
    split at steps <;> cases steps
    · exact attendsPending rfl
    · exact permitPending rfl
  | deadline =>
    simp only [step] at steps
    split at steps
    · split at steps <;> cases steps
      refine iff_of_true (pendingRecords (attendsPending ?_)) rfl
      unfold Daemon.dropNotified
      split <;> rfl
    · cases steps
  | loads =>
    simp only [step] at steps
    split at steps <;> cases steps
    exact iff_of_true (loadRecords _ _) rfl
  | shutdown =>
    simp only [step] at steps
    split at steps <;> cases steps
    exact iff_of_true (pendingRecords (attendsPending rfl)) rfl
  | disconnects =>
    simp only [step] at steps
    split at steps <;> cases steps
    exact iff_of_true (pendingRecords (onesPending (Nat.succ_pos _))) rfl
  | notifiesOne =>
    simp only [step] at steps
    split at steps <;> cases steps
    exact iff_of_true (pendingRecords notifyOnePending) rfl
  | monitorStarts =>
    cases steps
    exact iff_of_true (busyRecords (by simp [Daemon.isIdle])) rfl
  | monitorStarted =>
    simp only [step] at steps
    split at steps <;> cases steps
    rename_i some'
    refine iff_of_true (notifyWaitersKeeps (busyRecords ?_)) rfl
    have sessions : d.activeSessions ≠ 0 := by
      unfold Counted at counted
      omega
    simp [Daemon.isIdle, sessions]
  | monitorEnds =>
    simp only [step] at steps
    split at steps <;> cases steps
    exact iff_of_true (pendingRecords (allsPending (Nat.succ_pos _))) rfl
  | processStarts =>
    cases steps
    exact iff_of_true (busyRecords (by simp [Daemon.isIdle])) rfl
  | terminalStarts =>
    cases steps
    exact iff_of_true (busyRecords (by simp [Daemon.isIdle])) rfl
  | terminalEnds =>
    simp only [step] at steps
    split at steps <;> cases steps
    exact iff_of_true (pendingRecords (onesPending (Nat.succ_pos _))) rfl

end Steps

theorem startedRecords : Records Daemon.started := fun _ => .inr rfl

/-- In every run in which the ends that nobody stores a wake-up for find the loop, an idle daemon
has its idle period recorded or a wake-up to come; a step in which one does not find it leaves the
daemon idle without either. -/
theorem idleRecorded {d : Daemon} (reached : Reach step Heeded .started d) :
    Records d ∧ ∀ event d', step d event = some d' → (Records d' ↔ Heeded d event) := by
  have both : Records d ∧ Counted d :=
    @reachInvariant _ _ step Heeded .started d (fun d => Records d ∧ Counted d) reached ⟨startedRecords, rfl⟩
      fun before heeded steps => ⟨(stepRecords before.1 before.2 steps).mpr heeded, countedStep before.2 steps⟩
  exact ⟨both.1, fun event d' steps => stepRecords both.1 both.2 steps⟩

/-- A client starts a session and leaves; the session ends while the loop is behind the task of
the client it has joined. -/
def unheard : List Event :=
  [.select, .register, .accepts true, .admits, .admits, .monitorStarts, .monitorStarted, .select, .notified, .loads,
    .select, .register, .disconnects, .notifiesOne, .notified, .loads, .loads, .select, .register, .joined,
    .monitorEnds, .notifiesWaiters]

theorem unheardRun : (run step (fun _ _ => True) .started (unheard ++ [.select, .register])).map
    (fun d => (d.isIdle, d.pending, d.idleSince)) = some (true, false, false) := by
  decide +kernel

theorem idleForgotten : ¬ ∀ d : Daemon, Reach step (fun _ _ => True) .started d → Records d := by
  intro recorded
  obtain ⟨d, ran, seen⟩ := Option.map_eq_some_iff.mp unheardRun
  obtain ⟨idle, rest⟩ := Prod.mk.inj seen
  obtain ⟨pending, since⟩ := Prod.mk.inj rest
  rcases recorded d (reachRun .start ran) idle with found | found
  · cases pending.symm.trans found
  · cases since.symm.trans found

def heard : List Event :=
  [.select, .register, .accepts true, .admits, .admits, .monitorStarts, .monitorStarted, .select, .notified, .loads,
    .select, .register, .disconnects, .notifiesOne, .notified, .loads, .loads, .select, .register, .joined,
    .select, .register, .monitorEnds, .notifiesWaiters, .notified, .loads, .loads, .loads]

theorem heardRun : (run step Heeded .started heard).map (fun d => (d.isIdle, d.idleSince)) = some (true, true) := by
  decide +kernel

theorem idleRecordedHeard : ∃ d : Daemon, d.isIdle = true ∧ d.idleSince = true ∧ Records d := by
  obtain ⟨d, ran, seen⟩ := Option.map_eq_some_iff.mp heardRun
  obtain ⟨idle, since⟩ := Prod.mk.inj seen
  exact ⟨d, idle, since, (idleRecorded (reachRun .start ran)).1⟩

end Maestro.IdleWakeup
