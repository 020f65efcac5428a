import Maestro.Ledger

/-! The operation guard of a terminal: writes wait for room in the input queue of the PTY, which
only the child empties, and closes wait for the guard. -/
namespace Maestro.TerminalInput
open Interleaving Prog Protocol

inductive TerminalState where
  | running
  | closing
  | exited
  | failed
  | closed
  deriving DecidableEq

/-- `room` is what the input queue still takes. -/
structure TerminalSession where
  listed : Bool
  state : TerminalState
  closeRequested : Bool
  operationGuard : Bool
  finalized : Bool
  room : Nat
  alive : Bool
  deriving DecidableEq

inductive Purpose where
  | write (count : Nat)
  | resize
  | close
  deriving DecidableEq

/-- A section under the finalisation guard is one action. -/
inductive Act where
  | contains
  | lockOperation (purpose : Purpose)
  | unlockOperation
  | requireRunning
  | writeSome (count : Nat)
  | applyResize
  | requestClose
  | isFinalized
  | completedResult
  | groupTerminate
  | waitGrace
  | groupSeal
  | waitLifecycle
  | finalizeReaped (reaped : Bool)
  | noteTerminationFailure
  | setClosed
  | removeTerminal
  | readPty
  deriving DecidableEq

@[reducible] def Act.Answer : Act → Type
  | .contains | .requireRunning | .isFinalized | .groupTerminate | .groupSeal | .waitLifecycle
  | .noteTerminationFailure | .applyResize => Bool
  | .writeSome _ => Option Nat
  | .completedResult | .waitGrace | .readPty => Option Bool
  | _ => Unit

abbrev actions : Actions := ⟨Act, Act.Answer⟩

inductive Entry where
  | write (count : Nat)
  | resize
  | read
  | close
  | outputReader
  deriving DecidableEq

abbrev Program := Prog actions

@[simp] def perform (o : Act) : Program o.Answer := .act (A := actions) o .done

/-- `write_all`: each call takes at least one byte, so that as many calls as there are bytes do. -/
def writeAll : Nat → Nat → Program Unit
  | 0, _ => pure ()
  | fuel + 1, count =>
    if count = 0 then pure ()
    else do
      match ← perform (.writeSome count) with
      | none => pure ()
      | some taken => writeAll fuel (count - taken)

def write (count : Nat) : Program (Option Entry) := do
  if ← perform .contains then
    perform (.lockOperation (.write count))
    if ← perform .requireRunning then writeAll count count
    perform .unlockOperation
  pure none

def resize : Program (Option Entry) := do
  if ← perform .contains then
    perform (.lockOperation .resize)
    if ← perform .requireRunning then
      let _ ← perform .applyResize
    perform .unlockOperation
  pure none

def read : Program (Option Entry) := do
  let _ ← perform .contains
  pure none

def terminate : Program Bool := do
  match ← perform .completedResult with
  | some reaped => pure reaped
  | none =>
    if ← perform .groupTerminate then
      match ← perform .waitGrace with
      | some reaped => pure reaped
      | none => if ← perform .groupSeal then perform .waitLifecycle else pure false
    else pure false

def closeRemoved : Program Unit := do
  perform .setClosed
  perform .removeTerminal

def closeListed : Program Unit := do
  perform .requestClose
  if ← perform .isFinalized then closeRemoved
  else if ← terminate then
    perform (.finalizeReaped true)
    closeRemoved
  else if ← perform .noteTerminationFailure then pure ()
  else closeRemoved

def close : Program (Option Entry) := do
  if ← perform .contains then
    perform (.lockOperation .close)
    if ← perform .contains then closeListed
    perform .unlockOperation
  pure none

/-- The end of the output waits for the process; a failed read terminates it. -/
def outputReader : Program (Option Entry) := do
  match ← perform .readPty with
  | some true => pure (some .outputReader)
  | some false =>
    let reaped ← perform .waitLifecycle
    perform (.finalizeReaped reaped)
    pure none
  | none =>
    let reaped ← terminate
    perform (.finalizeReaped reaped)
    pure none

def body : Entry → Program (Option Entry)
  | .write count => write count
  | .resize => resize
  | .read => read
  | .close => close
  | .outputReader => outputReader

inductive Choice where
  | go
  | take (count : Nat)
  | fails
  | elapsed
  deriving DecidableEq

namespace TerminalSession
variable (m : TerminalSession)

def finish (reaped : Bool) : TerminalSession :=
  { m with
    finalized := true
    state := if reaped then (if m.closeRequested then .closed else .exited) else .failed }

def startClose : TerminalSession :=
  { m with
    closeRequested := true
    state := if m.state = .exited ∨ m.state = .closed then m.state else .closing }

/-- What a wait for the end answers: nothing as long as the child runs, unless it fails. -/
def waited : Choice → Option Bool
  | .fails => some false
  | _ => if m.alive then none else some true

end TerminalSession

/-- A write to the terminal of a dead child fails; otherwise it takes what there is room for,
and waits while there is none. -/
def apply : (o : Act) → Choice → TerminalSession → Option (o.Answer × TerminalSession)
  | .contains, _, m => some (m.listed, m)
  | .lockOperation _, _, m =>
    if m.operationGuard then none else some ((), { m with operationGuard := true })
  | .unlockOperation, _, m => some ((), { m with operationGuard := false })
  | .requireRunning, _, m => some (decide (m.state = .running), m)
  | .writeSome count, choice, m =>
    if m.alive then
      let taken := match choice with
        | .take wanted => min wanted (min count m.room)
        | _ => min count m.room
      if 0 < taken then some (some taken, { m with room := m.room - taken }) else none
    else some (none, m)
  | .applyResize, choice, m => some (decide (choice ≠ .fails), m)
  | .requestClose, _, m => some ((), m.startClose)
  | .isFinalized, _, m => some (m.finalized, m)
  | .completedResult, choice, m => some (m.waited choice, m)
  | .groupTerminate, choice, m | .groupSeal, choice, m => some (decide (choice ≠ .fails), m)
  | .waitGrace, .elapsed, m => some (none, m)
  | .waitGrace, choice, m => (m.waited choice).map fun reaped => (some reaped, m)
  | .waitLifecycle, choice, m => (m.waited choice).map fun reaped => (reaped, m)
  | .finalizeReaped reaped, _, m => some ((), m.finish reaped)
  | .noteTerminationFailure, _, m =>
    if m.finalized then some (false, m) else some (true, { m with state := .failed })
  | .setClosed, _, m => some ((), { m with state := .closed })
  | .removeTerminal, _, m => some ((), { m with listed := false })
  | .readPty, .fails, m => some (none, m)
  | .readPty, .take _, m => some (some true, m)
  | .readPty, _, m => if m.alive then none else some (some false, m)

inductive Child where
  | reads (count : Nat)
  | exits

def childActs : Child → TerminalSession → Option TerminalSession
  | .reads count, m => if m.alive then some { m with room := m.room + count } else none
  | .exits, m => some { m with alive := false }

def callable : Entry → Bool
  | .outputReader => false
  | _ => true

abbrev machine : Machine actions where
  Memory := TerminalSession
  Entry := Entry
  Choice := Choice
  Outside := Child
  body := body
  apply := apply
  spawns := fun _ => none
  callable := callable
  outside := childActs

def opened (room : Nat) : Config machine :=
  ⟨⟨true, .running, false, false, false, room, true⟩, [.enter .outputReader]⟩

/-- From `checking` to `ended` a task holds the guard; `writing` counts the bytes left. -/
inductive Stage where
  | plain
  | approaching
  | sought
  | checking (count : Nat)
  | writing (count : Nat)
  | resizing
  | entering
  | terminating
  | failing
  | ended
  | releasing
  | reading
  | reaping
  | reaped
  | unreaped
  deriving DecidableEq

namespace Stage

def holds : Stage → Bool
  | .checking _ | .writing _ | .resizing | .entering | .terminating | .failing | .ended
  | .releasing => true
  | _ => false

/-- A write or a resize that holds the guard; a close comes to `releasing` too. -/
def inputs : Stage → Bool
  | .checking _ | .writing _ | .resizing | .releasing => true
  | _ => false

/-- A close that has not come to `terminate`. -/
def closes : Stage → Bool
  | .approaching | .sought | .entering => true
  | _ => false

def learn (dead : Bool) : Stage → Stage
  | .reaping | .reading => if dead then .reaped else .unreaped
  | _ => if dead then .ended else .failing

def locked : Purpose → Stage
  | .write count => .checking count
  | .resize => .resizing
  | .close => .entering

def may : Stage → Act → Prop
  | q, .contains => q = .plain ∨ q = .approaching ∨ q = .entering
  | q, .lockOperation .close => q = .sought
  | q, .lockOperation _ => q = .plain
  | q, .unlockOperation => q = .ended ∨ q.inputs = true
  | q, .requireRunning => q = .resizing ∨ ∃ count, q = .checking count
  | q, .writeSome count => q = .writing count ∧ 0 < count
  | q, .applyResize => q = .resizing
  | q, .requestClose | q, .isFinalized => q = .entering
  | q, .completedResult | q, .groupTerminate | q, .waitGrace | q, .groupSeal =>
    q = .terminating ∨ q = .reaping
  | q, .waitLifecycle => q = .terminating ∨ q = .reaping ∨ q = .reading
  | q, .finalizeReaped true => q = .ended ∨ q = .reaped
  | q, .finalizeReaped false => q = .unreaped
  | q, .noteTerminationFailure => q = .failing
  | q, .setClosed | q, .removeTerminal => q = .ended
  | q, .readPty => q = .reading

def after : Stage → (o : Act) → o.Answer → Stage
  | .approaching, .contains, listed => if listed then .sought else .plain
  | .entering, .contains, listed => if listed then .entering else .releasing
  | _, .lockOperation purpose, _ => locked purpose
  | _, .unlockOperation, _ => .plain
  | .checking count, .requireRunning, running => if running then .writing count else .releasing
  | .writing count, .writeSome _, some taken => .writing (count - taken)
  | .writing _, .writeSome _, none => .releasing
  | _, .isFinalized, finalized => if finalized then .ended else .terminating
  | q, .completedResult, some dead | q, .waitGrace, some dead => q.learn dead
  | q, .groupTerminate, false | q, .groupSeal, false => q.learn false
  | q, .waitLifecycle, dead => q.learn dead
  | _, .noteTerminationFailure, noted => if noted then .releasing else .ended
  | .reading, .readPty, none => .reaping
  | .reaped, .finalizeReaped _, _ | .unreaped, .finalizeReaped _, _ => .plain
  | q, _, _ => q

def enter : Entry → Stage
  | .close => .approaching
  | .outputReader => .reading
  | _ => .plain

end Stage

abbrev stages : Protocol machine where
  Place := Stage
  enter := Stage.enter
  may := Stage.may
  after := Stage.after
  ends q := q = .plain

section Soundness

theorem terminateStages {q : Stage} (here : q = .terminating ∨ q = .reaping) :
    stages.Follows (fun reaped q' => q' = q.learn reaped) q terminate := by
  have told : ∀ reaped, q.after .completedResult (some reaped) = q.learn reaped ∧
      q.after .waitGrace (some reaped) = q.learn reaped ∧ q.after .waitLifecycle reaped = q.learn reaped := by
    rcases here with rfl | rfl <;> exact fun _ => ⟨rfl, rfl, rfl⟩
  have stays : q.after .completedResult none = q ∧ q.after .groupTerminate true = q ∧
      q.after .waitGrace none = q ∧ q.after .groupSeal true = q := by
    rcases here with rfl | rfl <;> exact ⟨rfl, rfl, rfl, rfl⟩
  have refused : q.after .groupTerminate false = q.learn false ∧ q.after .groupSeal false = q.learn false := by
    rcases here with rfl | rfl <;> exact ⟨rfl, rfl⟩
  refine followsStep (by rcases here with rfl | rfl <;> simp [Stage.may]) fun completed => ?_
  cases completed with
  | some reaped => exact (told reaped).1
  | none =>
    refine followsFrom stays.1 (followsStep (by rcases here with rfl | rfl <;> simp [Stage.may]) fun signalled => ?_)
    cases signalled with
    | false => exact refused.1
    | true =>
      refine followsFrom stays.2.1 (followsStep (by rcases here with rfl | rfl <;> simp [Stage.may]) fun waited => ?_)
      cases waited with
      | some reaped => exact (told reaped).2.1
      | none =>
        refine followsFrom stays.2.2.1
          (followsStep (by rcases here with rfl | rfl <;> simp [Stage.may]) fun sealed => ?_)
        cases sealed with
        | false => exact refused.2
        | true =>
          refine followsFrom stays.2.2.2 ⟨?_, fun reaped => (told reaped).2.2⟩
          rcases here with rfl | rfl <;> simp [Stage.may]

theorem writeAllStages (fuel count : Nat) :
    stages.Follows (fun _ q => q = .releasing ∨ ∃ left, q = .writing left) (.writing count)
      (writeAll fuel count) := by
  induction fuel generalizing count with
  | zero => exact .inr ⟨count, rfl⟩
  | succ fuel ih =>
    unfold writeAll
    split
    · exact .inr ⟨count, rfl⟩
    · refine followsStep ⟨rfl, Nat.pos_of_ne_zero (by assumption)⟩ fun taken => ?_
      cases taken with
      | none => exact .inl rfl
      | some taken => exact ih (count - taken)

theorem writeStages (count : Nat) : stages.Follows stages.EntryPost .plain (write count) := by
  refine followsStep (.inl rfl) fun listed => ?_
  cases listed with
  | false => rfl
  | true =>
    refine followsStep rfl fun _ => followsStep (.inr ⟨count, rfl⟩) fun running => ?_
    cases running with
    | false => exact followsStep (.inr rfl) fun _ => rfl
    | true =>
      refine followsSeq (writeAllStages count count) fun _ q here => ?_
      rcases here with rfl | ⟨left, rfl⟩ <;> exact followsStep (.inr rfl) fun _ => rfl

theorem resizeStages : stages.Follows stages.EntryPost .plain resize := by
  refine followsStep (.inl rfl) fun listed => ?_
  cases listed with
  | false => rfl
  | true =>
    refine followsStep rfl fun _ => followsStep (.inl rfl) fun running => ?_
    cases running with
    | false => exact followsStep (.inr rfl) fun _ => rfl
    | true => exact followsStep rfl fun _ => followsStep (.inr rfl) fun _ => rfl

theorem closeRemovedStages :
    stages.Follows (fun _ q => q = .ended ∨ q.inputs = true) .ended closeRemoved :=
  followsStep rfl fun _ => followsStep rfl fun _ => .inl rfl

theorem closeListedStages :
    stages.Follows (fun _ q => q = .ended ∨ q.inputs = true) .entering closeListed := by
  refine followsStep rfl fun _ => followsStep rfl fun finalized => ?_
  cases finalized with
  | true => exact closeRemovedStages
  | false =>
    refine followsSeq (terminateStages (.inl rfl)) fun reaped q here => ?_
    subst here
    cases reaped with
    | true => exact followsStep (.inl rfl) fun _ => closeRemovedStages
    | false =>
      refine followsStep rfl fun noted => ?_
      cases noted with
      | true => exact .inr rfl
      | false => exact closeRemovedStages

theorem closeStages : stages.Follows stages.EntryPost .approaching close := by
  refine followsStep (.inr (.inl rfl)) fun listed => ?_
  cases listed with
  | false => rfl
  | true =>
    refine followsStep rfl fun _ => followsStep (.inr (.inr rfl)) fun still => ?_
    cases still with
    | false => exact followsStep (.inr rfl) fun _ => rfl
    | true => exact followsSeq closeListedStages fun _ q here => followsStep here fun _ => by cases q <;> rfl

theorem readerStages : stages.Follows stages.EntryPost .reading outputReader := by
  refine followsStep rfl fun data => ?_
  match data with
  | some true => rfl
  | some false =>
    refine followsStep (.inr (.inr rfl)) fun reaped => ?_
    cases reaped with
    | true => exact followsStep (.inr rfl) fun _ => rfl
    | false => exact followsStep rfl fun _ => rfl
  | none =>
    refine followsSeq (terminateStages (.inr rfl)) fun reaped q here => ?_
    subst here
    cases reaped with
    | true => exact followsStep (.inr rfl) fun _ => rfl
    | false => exact followsStep rfl fun _ => rfl

theorem stagesSound : stages.Sound := by
  intro e
  cases e with
  | write count => exact writeStages count
  | resize => exact resizeStages
  | read => exact followsStep (.inl rfl) fun _ => rfl
  | close => exact closeStages
  | outputReader => exact readerStages

end Soundness
end Maestro.TerminalInput
