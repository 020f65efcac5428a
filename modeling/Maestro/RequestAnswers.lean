import Mathlib.Data.List.InsertIdx
import Mathlib.Data.List.Nodup
import Maestro.Entries
import Maestro.Framing
import Maestro.Traces

/-! A connection the daemon serves: the requests it reads, the tasks that handle them, and the
response frames that it writes. -/
namespace Maestro.RequestAnswers
open Entries Stepping Framing

/-- `failed` is a task that joins with an error: its handler panicked, or it was aborted. -/
inductive Outcome (Response : Type) where
  | running
  | returned (response : Except MaestroError Response)
  | failed

/-- A task of the connection's set; `number` is the place of its request among those read. -/
structure Handler (Id Request Response : Type) where
  number : Nat
  envelope : RequestEnvelope Id Request
  outcome : Outcome Response

structure Answer (Id Response : Type) where
  number : Nat
  envelope : ResponseEnvelope Id Response

/-- `left` is behind the loop, where the tasks are aborted or go on without the connection. -/
inductive Loop (Id Response : Type) where
  | selecting
  | writing (answer : Answer Id Response)
  | left

/-- `read` are all requests so far; `unanswered` those whose task is gone, or whose answer was
not written. -/
structure Connection (Id Request Response : Type) where
  read : List (RequestEnvelope Id Request)
  handlers : List (Handler Id Request Response)
  loop : Loop Id Response
  written : List (Answer Id Response)
  unanswered : List Nat

inductive Event (Hello Id Request Response : Type) where
  | frame (frame : ClientFrame Hello Id Request)
  | ends (index : Nat) (response : Option (Except MaestroError Response))
  | joined (index : Nat)
  | written (success : Bool)
  | leave

variable {Hello Id Request Response : Type}

namespace Connection

def authenticated : Connection Id Request Response := ⟨[], [], .selecting, [], []⟩

/-- A second hello is answered with a fatal frame, and the loop is left. -/
def onFrame (c : Connection Id Request Response) : ClientFrame Hello Id Request → Connection Id Request Response
  | .hello _ => { c with loop := .left }
  | .request envelope =>
    let read := { c with read := c.read ++ [envelope] }
    if c.handlers.length ≥ maxInFlightRequestsPerConnection then
      { read with loop := .writing ⟨c.read.length, envelope.requestId, .error Serving.tooManyInFlight⟩ }
    else { read with handlers := c.handlers ++ [⟨c.read.length, envelope, .running⟩] }

def onJoined (c : Connection Id Request Response) (index : Nat) (handler : Handler Id Request Response) :
    Option (Connection Id Request Response) :=
  let rest := { c with handlers := c.handlers.eraseIdx index }
  match c.loop, handler.outcome with
  | .selecting, .returned response =>
    some { rest with loop := .writing ⟨handler.number, handler.envelope.requestId, response⟩ }
  | .writing _, _ | _, .running => none
  | .selecting, .failed | .left, _ => some { rest with unanswered := handler.number :: c.unanswered }

def onWritten (c : Connection Id Request Response) (answer : Answer Id Response) (success : Bool) :
    Connection Id Request Response :=
  if success then { c with loop := .selecting, written := answer :: c.written }
  else { c with loop := .left, unanswered := answer.number :: c.unanswered }

end Connection

def Outcome.ofJoin : Option (Except MaestroError Response) → Outcome Response
  | some response => .returned response
  | none => .failed

/-- The loop is left at the end of the stream, at an error of a read and when the daemon shuts
down; while it writes, nothing else is polled. -/
def step (c : Connection Id Request Response) :
    Event Hello Id Request Response → Option (Connection Id Request Response)
  | .frame frame =>
    match c.loop with
    | .selecting => some (c.onFrame frame)
    | _ => none
  | .ends index response =>
    match c.handlers[index]? with
    | some ⟨number, envelope, .running⟩ =>
      some { c with handlers := c.handlers.set index ⟨number, envelope, .ofJoin response⟩ }
    | _ => none
  | .joined index =>
    match c.handlers[index]? with
    | some handler => c.onJoined index handler
    | none => none
  | .written success =>
    match c.loop with
    | .writing answer => some (c.onWritten answer success)
    | _ => none
  | .leave =>
    match c.loop with
    | .selecting => some { c with loop := .left }
    | _ => none

section Agreement
variable {ServerHello ServerEvent : Type} {c : Connection Id Request Response}

/-- The connection as the model of the frames has it, where a write is part of the branch. -/
def Connection.serving (c : Connection Id Request Response) :
    Serving ServerHello Id Request Response ServerEvent :=
  ⟨c.handlers.map (·.envelope), [], c.written.reverse.map fun answer => .response answer.envelope⟩

def Connection.settled (c : Connection Id Request Response) (success : Bool) : Connection Id Request Response :=
  match c.loop with
  | .writing answer => c.onWritten answer success
  | _ => c

theorem writtenServing (c : Connection Id Request Response) (answer : Answer Id Response) (success : Bool) :
    (c.onWritten answer success).serving =
      ((c.serving : Serving ServerHello Id Request Response ServerEvent).writeFrame (.response answer.envelope)
        success none).1 := by
  cases success with
  | false => rfl
  | true =>
    simp only [Connection.onWritten, Connection.serving, Serving.writeFrame, if_true, List.reverse_cons, List.map_append,
      List.map_cons, List.map_nil]

theorem requestServing (selecting : c.loop = .selecting) (envelope : RequestEnvelope Id Request) (success : Bool) :
    ((c.onFrame (.request envelope : ClientFrame Hello Id Request)).settled success).serving =
      ((c.serving : Serving ServerHello Id Request Response ServerEvent).onFrame success
        (.request envelope : ClientFrame Hello Id Request)).1 := by
  by_cases full : c.handlers.length ≥ maxInFlightRequestsPerConnection
  · simp only [Connection.onFrame, Serving.onFrame, Connection.settled, Connection.serving, List.length_map, if_pos full]
    exact writtenServing { c with read := c.read ++ [envelope] } _ success
  · simp only [Connection.onFrame, Serving.onFrame, Connection.settled, Connection.serving, List.length_map, if_neg full,
      selecting, List.map_append, List.map_cons, List.map_nil]

theorem joinedServing (selecting : c.loop = .selecting) {index : Nat} {handler : Handler Id Request Response}
    {response : Option (Except MaestroError Response)} (found : c.handlers[index]? = some handler)
    (ended : handler.outcome = .ofJoin response) (success : Bool) :
    (c.onJoined index handler).map (fun next => (next.settled success).serving) =
      ((c.serving : Serving ServerHello Id Request Response ServerEvent).onBranch success
        (.joined index response)).map (·.1) := by
  have there : (c.handlers.map (·.envelope))[index]? = some handler.envelope := by
    rw [List.getElem?_map, found]
    rfl
  have erased : (c.handlers.eraseIdx index).map (·.envelope) = (c.handlers.map (·.envelope)).eraseIdx index :=
    (List.eraseIdx_map _ _ _).symm
  cases response with
  | none =>
    simp only [Outcome.ofJoin] at ended
    simp only [Connection.onJoined, selecting, ended, Serving.onBranch, Connection.serving, there, Connection.settled,
      Option.map_some, bind, Option.bind, erased]
  | some response =>
    simp only [Outcome.ofJoin] at ended
    simp only [Connection.onJoined, selecting, ended, Serving.onBranch, Connection.settled, Option.map_some,
      bind, Option.bind, writtenServing]
    simp only [Connection.serving, there, erased]
    rfl

end Agreement

def Loop.numbers : Loop Id Response → List Nat
  | .writing answer => [answer.number]
  | _ => []

def Connection.placed (c : Connection Id Request Response) : List Nat :=
  c.written.map (·.number) ++ (c.loop.numbers ++ (c.handlers.map (·.number) ++ c.unanswered))

def Own (read : List (RequestEnvelope Id Request)) (answer : Answer Id Response) : Prop :=
  (read[answer.number]?).map (·.requestId) = some answer.envelope.requestId

/-- Every request that was read is in one place, and its answer is for its own identifier. -/
structure Serves (c : Connection Id Request Response) : Prop where
  everyone : c.placed.Perm (List.range c.read.length)
  handled : ∀ handler ∈ c.handlers, c.read[handler.number]? = some handler.envelope
  writing : ∀ answer, c.loop = .writing answer → Own c.read answer
  written : ∀ answer ∈ c.written, Own c.read answer
  limited : c.handlers.length ≤ maxInFlightRequestsPerConnection

def Failed (c : Connection Id Request Response) (n : Nat) : Prop :=
  ∃ handler ∈ c.handlers, handler.number = n ∧ handler.outcome = .failed

inductive Turn (c : Connection Id Request Response) : Connection Id Request Response → Prop
  | left (selecting : c.loop = .selecting) : Turn c { c with loop := .left }
  | refused (envelope : RequestEnvelope Id Request) (selecting : c.loop = .selecting) :
    Turn c { c with
      read := c.read ++ [envelope]
      loop := .writing ⟨c.read.length, envelope.requestId, .error Serving.tooManyInFlight⟩ }
  | spawned (envelope : RequestEnvelope Id Request) (selecting : c.loop = .selecting)
      (room : c.handlers.length < maxInFlightRequestsPerConnection) :
    Turn c { c with
      read := c.read ++ [envelope]
      handlers := c.handlers ++ [⟨c.read.length, envelope, .running⟩] }
  | ended {index number : Nat} {envelope : RequestEnvelope Id Request} {response : Option (Except MaestroError Response)}
      (found : c.handlers[index]? = some ⟨number, envelope, .running⟩) :
    Turn c { c with handlers := c.handlers.set index ⟨number, envelope, .ofJoin response⟩ }
  | answered {index : Nat} {handler : Handler Id Request Response} {response : Except MaestroError Response}
      (selecting : c.loop = .selecting) (found : c.handlers[index]? = some handler)
      (returned : handler.outcome = .returned response) :
    Turn c { c with
      handlers := c.handlers.eraseIdx index
      loop := .writing ⟨handler.number, handler.envelope.requestId, response⟩ }
  | failed {index : Nat} {handler : Handler Id Request Response} (selecting : c.loop = .selecting)
      (found : c.handlers[index]? = some handler) (failed : handler.outcome = .failed) :
    Turn c { c with handlers := c.handlers.eraseIdx index, unanswered := handler.number :: c.unanswered }
  | reaped {index : Nat} {handler : Handler Id Request Response} (left : c.loop = .left)
      (found : c.handlers[index]? = some handler) :
    Turn c { c with handlers := c.handlers.eraseIdx index, unanswered := handler.number :: c.unanswered }
  | written {answer : Answer Id Response} (writing : c.loop = .writing answer) :
    Turn c { c with loop := .selecting, written := answer :: c.written }
  | lost {answer : Answer Id Response} (writing : c.loop = .writing answer) :
    Turn c { c with loop := .left, unanswered := answer.number :: c.unanswered }

section Steps
variable {c c' : Connection Id Request Response}

theorem joinedTurn {index : Nat} {handler : Handler Id Request Response} (found : c.handlers[index]? = some handler)
    (steps : c.onJoined index handler = some c') : Turn c c' := by
  simp only [Connection.onJoined] at steps
  split at steps
  · rename_i selecting returned
    cases Option.some.inj steps
    exact .answered selecting found returned
  · cases steps
  · cases steps
  · rename_i selecting failed
    cases Option.some.inj steps
    exact .failed selecting found failed
  · rename_i left _
    cases Option.some.inj steps
    exact .reaped left found

theorem stepTurn {event : Event Hello Id Request Response} (steps : step c event = some c') : Turn c c' := by
  cases event with
  | frame frame =>
    simp only [step] at steps
    split at steps
    · rename_i selecting
      cases Option.some.inj steps
      cases frame with
      | hello hello => exact .left selecting
      | request envelope =>
        simp only [Connection.onFrame]
        split
        · exact .refused envelope selecting
        · rename_i room
          exact .spawned envelope selecting (Nat.lt_of_not_le room)
    · cases steps
  | ends index response =>
    simp only [step] at steps
    split at steps
    · rename_i found
      cases Option.some.inj steps
      exact .ended found
    · cases steps
  | joined index =>
    simp only [step] at steps
    split at steps
    · rename_i found
      exact joinedTurn found steps
    · cases steps
  | written success =>
    simp only [step] at steps
    split at steps
    · rename_i writing
      cases Option.some.inj steps
      cases success with
      | false => exact .lost writing
      | true => exact .written writing
    · cases steps
  | leave =>
    simp only [step] at steps
    split at steps
    · rename_i selecting
      cases Option.some.inj steps
      exact .left selecting
    · cases steps

theorem ownMore {read : List (RequestEnvelope Id Request)} {answer : Answer Id Response} (own : Own read answer)
    (envelope : RequestEnvelope Id Request) : Own (read ++ [envelope]) answer := by
  obtain ⟨mine, here, same⟩ := Option.map_eq_some_iff.mp own
  rw [Own, List.getElem?_append_left (List.getElem?_eq_some_iff.mp here).1]
  exact own

theorem ownLast {read : List (RequestEnvelope Id Request)} (envelope : RequestEnvelope Id Request)
    (response : Except MaestroError Response) :
    Own (read ++ [envelope]) ⟨read.length, envelope.requestId, response⟩ := by
  rw [Own, List.getElem?_concat_length]
  rfl

theorem handledMore {read : List (RequestEnvelope Id Request)} {handlers : List (Handler Id Request Response)}
    (handled : ∀ handler ∈ handlers, read[handler.number]? = some handler.envelope)
    (envelope : RequestEnvelope Id Request) :
    ∀ handler ∈ handlers, (read ++ [envelope])[handler.number]? = some handler.envelope := by
  intro handler member
  have here := handled handler member
  rw [List.getElem?_append_left (List.getElem?_eq_some_iff.mp here).1, here]

theorem onlyMore (read : List (RequestEnvelope Id Request)) (envelope : RequestEnvelope Id Request)
    {placed placed' : List Nat} (everyone : placed.Perm (List.range read.length))
    (one : placed'.Perm (read.length :: placed)) : placed'.Perm (List.range (read ++ [envelope]).length) := by
  rw [List.length_append, List.length_singleton, List.range_succ]
  exact one.trans ((everyone.cons _).trans (List.perm_append_singleton _ _).symm)

theorem numbersErased {handlers : List (Handler Id Request Response)} {index : Nat}
    {handler : Handler Id Request Response} (found : handlers[index]? = some handler) :
    (handlers.map (·.number)).Perm (handler.number :: (handlers.eraseIdx index).map (·.number)) :=
  (erased found).map _

theorem movedServes (serves : Serves c) (read : c'.read = c.read) (moved : c'.placed.Perm c.placed)
    (handlers : ∀ handler ∈ c'.handlers, ∃ handler' ∈ c.handlers,
      handler'.number = handler.number ∧ handler'.envelope = handler.envelope)
    (fewer : c'.handlers.length ≤ c.handlers.length)
    (writing : ∀ answer, c'.loop = .writing answer → Own c.read answer)
    (written : ∀ answer ∈ c'.written, Own c.read answer) : Serves c' where
  everyone := read ▸ moved.trans serves.everyone
  handled handler member := by
    obtain ⟨handler', member', number, envelope⟩ := handlers handler member
    rw [read, ← number, ← envelope]
    exact serves.handled handler' member'
  writing := read ▸ writing
  written := read ▸ written
  limited := fewer.trans serves.limited

theorem kept (handlers : List (Handler Id Request Response)) :
    ∀ handler ∈ handlers, ∃ handler' ∈ handlers,
      handler'.number = handler.number ∧ handler'.envelope = handler.envelope :=
  fun handler member => ⟨handler, member, rfl, rfl⟩

theorem keptErased (handlers : List (Handler Id Request Response)) (index : Nat) :
    ∀ handler ∈ handlers.eraseIdx index, ∃ handler' ∈ handlers,
      handler'.number = handler.number ∧ handler'.envelope = handler.envelope :=
  fun handler member => ⟨handler, List.mem_of_mem_eraseIdx member, rfl, rfl⟩

theorem goneServes (serves : Serves c) {index : Nat} {handler : Handler Id Request Response}
    (found : c.handlers[index]? = some handler) :
    Serves { c with handlers := c.handlers.eraseIdx index, unanswered := handler.number :: c.unanswered } := by
  refine movedServes serves rfl ?_ (keptErased _ _) (List.length_eraseIdx_le _ _) serves.writing serves.written
  exact ((List.perm_middle.trans ((numbersErased found).symm.append_right _)).append_left _).append_left _

theorem turnServes (serves : Serves c) (turn : Turn c c') : Serves c' := by
  have everyone := serves.everyone
  cases turn with
  | left selecting =>
    refine movedServes serves rfl ?_ (kept _) (Nat.le_refl _) (fun _ there => nomatch there) serves.written
    simp only [Connection.placed, selecting, Loop.numbers]
    exact .refl _
  | refused envelope selecting =>
    simp only [Connection.placed, selecting, Loop.numbers] at everyone
    refine ⟨onlyMore c.read envelope everyone List.perm_middle, handledMore serves.handled envelope,
      fun answer there => ?_, fun answer member => ownMore (serves.written answer member) envelope, serves.limited⟩
    cases there
    exact ownLast envelope _
  | spawned envelope selecting room =>
    simp only [Connection.placed, selecting, Loop.numbers] at everyone
    refine ⟨onlyMore c.read envelope everyone ?_, fun handler member => ?_, fun answer there => ?_,
      fun answer member => ownMore (serves.written answer member) envelope, ?_⟩
    · simp only [Connection.placed, selecting, Loop.numbers, List.nil_append, List.map_append, List.map_cons,
        List.map_nil, List.append_assoc, List.singleton_append]
      rw [← List.append_assoc, ← List.append_assoc]
      exact List.perm_middle
    · rcases List.mem_append.mp member with earlier | last
      · exact handledMore serves.handled envelope handler earlier
      · cases List.mem_singleton.mp last
        exact List.getElem?_concat_length
    · cases selecting.symm.trans there
    · rw [List.length_append, List.length_singleton]
      exact room
  | @ended index number envelope response found =>
    refine movedServes serves rfl ?_ (fun handler member => ?_) (Nat.le_of_eq List.length_set) serves.writing serves.written
    · have numbers : (c.handlers.set index ⟨number, envelope, .ofJoin response⟩).map (·.number) =
          c.handlers.map (·.number) := mapSet found rfl
      simp only [Connection.placed, numbers]
      exact .refl _
    · rcases List.mem_or_eq_of_mem_set member with earlier | rfl
      · exact ⟨handler, earlier, rfl, rfl⟩
      · exact ⟨_, List.mem_of_getElem? found, rfl, rfl⟩
  | answered selecting found returned =>
    refine movedServes serves rfl ?_ (keptErased _ _) (List.length_eraseIdx_le _ _) (fun answer there => ?_)
      serves.written
    · simp only [Connection.placed, selecting, Loop.numbers, List.nil_append]
      exact ((numbersErased found).symm.append_right _).append_left _
    · cases there
      rw [Own, serves.handled _ (List.mem_of_getElem? found)]
      rfl
  | failed _ found _ => exact goneServes serves found
  | reaped _ found => exact goneServes serves found
  | written writing =>
    refine movedServes serves rfl ?_ (kept _) (Nat.le_refl _) (fun _ there => nomatch there) fun other member => ?_
    · simp only [Connection.placed, writing, Loop.numbers, List.nil_append, List.map_cons, List.cons_append]
      exact List.perm_middle.symm
    · rcases List.mem_cons.mp member with rfl | earlier
      · exact serves.writing _ writing
      · exact serves.written other earlier
  | lost writing =>
    refine movedServes serves rfl ?_ (kept _) (Nat.le_refl _) (fun _ there => nomatch there) serves.written
    simp only [Connection.placed, writing, Loop.numbers, List.nil_append]
    exact List.perm_middle.append_left _

theorem turnMore (turn : Turn c c') :
    c.read.length ≤ c'.read.length ∧ (∀ answer ∈ c.written, answer ∈ c'.written) ∧
      (c.loop = .left → c'.loop = .left) := by
  cases turn with
  | left _ => exact ⟨Nat.le_refl _, fun _ => id, fun _ => rfl⟩
  | refused envelope selecting =>
    exact ⟨by simp only [List.length_append, Nat.le_add_right], fun _ => id, fun left => nomatch selecting.symm.trans left⟩
  | spawned envelope selecting _ =>
    exact ⟨by simp only [List.length_append, Nat.le_add_right], fun _ => id, fun left => nomatch selecting.symm.trans left⟩
  | ended _ => exact ⟨Nat.le_refl _, fun _ => id, id⟩
  | answered selecting _ _ => exact ⟨Nat.le_refl _, fun _ => id, fun left => nomatch selecting.symm.trans left⟩
  | failed _ _ _ => exact ⟨Nat.le_refl _, fun _ => id, id⟩
  | reaped _ _ => exact ⟨Nat.le_refl _, fun _ => id, id⟩
  | written writing =>
    exact ⟨Nat.le_refl _, fun _ => List.mem_cons_of_mem _, fun left => nomatch writing.symm.trans left⟩
  | lost _ => exact ⟨Nat.le_refl _, fun _ => id, fun _ => rfl⟩

theorem turnWrites {answer : Answer Id Response} (turn : Turn c c')
    (there : c.loop = .writing answer ∨ answer ∈ c.written) :
    c'.loop = .left ∨ c'.loop = .writing answer ∨ answer ∈ c'.written := by
  rcases there with writing | written
  · cases turn with
    | left selecting => exact .inl rfl
    | refused _ selecting | spawned _ selecting _ => cases selecting.symm.trans writing
    | ended _ => exact .inr (.inl writing)
    | answered selecting _ _ | failed selecting _ _ => cases selecting.symm.trans writing
    | reaped left _ => cases left.symm.trans writing
    | written writing' =>
      cases writing.symm.trans writing'
      exact .inr (.inr List.mem_cons_self)
    | lost _ => exact .inl rfl
  · exact .inr (.inr ((turnMore turn).2.1 answer written))

theorem turnUnanswered {n : Nat} (turn : Turn c c') (there : n ∈ c'.unanswered) :
    c'.loop = .left ∨ n ∈ c.unanswered ∨ Failed c n := by
  cases turn with
  | left _ | lost _ => exact .inl rfl
  | refused _ _ | spawned _ _ _ | ended _ | answered _ _ _ | written _ => exact .inr (.inl there)
  | failed _ found failed =>
    rcases List.mem_cons.mp there with rfl | earlier
    · exact .inr (.inr ⟨_, List.mem_of_getElem? found, rfl, failed⟩)
    · exact .inr (.inl earlier)
  | reaped left _ => exact .inl left

theorem turnFailed {n : Nat} (turn : Turn c c') (failed : Failed c n ∨ n ∈ c.unanswered) :
    Failed c' n ∨ n ∈ c'.unanswered := by
  rcases failed with ⟨handler, member, numbered, failed⟩ | unanswered
  · have stays (there : handler ∈ c'.handlers) : Failed c' n ∨ n ∈ c'.unanswered :=
      .inl ⟨handler, there, numbered, failed⟩
    cases turn with
    | left _ | refused _ _ | written _ | lost _ => exact stays member
    | spawned envelope _ _ => exact stays (List.mem_append_left _ member)
    | @ended index number envelope response found =>
      obtain ⟨at', here⟩ := List.getElem?_of_mem member
      have apart : index ≠ at' := by
        rintro rfl
        cases here.symm.trans found
        cases failed
      exact stays (List.mem_of_getElem? ((List.getElem?_set_ne apart).trans here))
    | answered _ found returned =>
      rcases List.mem_cons.mp ((erased found).mem_iff.mp member) with rfl | other
      · cases failed.symm.trans returned
      · exact stays other
    | failed _ found _ | reaped _ found =>
      rcases List.mem_cons.mp ((erased found).mem_iff.mp member) with rfl | other
      · exact .inr (numbered ▸ List.mem_cons_self)
      · exact stays other
  · cases turn with
    | left _ | refused _ _ | spawned _ _ _ | ended _ | answered _ _ _ | written _ => exact .inr unanswered
    | failed _ _ _ | reaped _ _ | lost _ => exact .inr (List.mem_cons_of_mem _ unanswered)

end Steps

section Traces
variable {trace : Nat → Connection Id Request Response}

/-- A connection behind its authentication, from which frames of any kind are read. -/
def Served (Hello : Type) (trace : Nat → Connection Id Request Response) : Prop :=
  Behaves (fun c (event : Event Hello Id Request Response) => step c event) .authenticated trace

def Open (trace : Nat → Connection Id Request Response) : Prop := ∀ t, (trace t).loop ≠ .left

/-- A task comes to its end, one at its end is reaped, and the write of a frame ends. -/
structure Fair (trace : Nat → Connection Id Request Response) : Prop where
  ends : ∀ t, ∀ handler ∈ (trace t).handlers, Eventually trace t fun c =>
    ∀ handler' ∈ c.handlers, handler'.number = handler.number → handler'.outcome ≠ .running
  reaped : ∀ t, ∀ handler ∈ (trace t).handlers, handler.outcome ≠ .running →
    Eventually trace t fun c => handler.number ∉ c.handlers.map (·.number)
  writes : ∀ t answer, (trace t).loop = .writing answer → Eventually trace t fun c => c.loop ≠ .writing answer

def Answered (n : Nat) (c : Connection Id Request Response) : Prop := n ∈ c.written.map (·.number)

theorem authenticatedServes : Serves (.authenticated : Connection Id Request Response) where
  everyone := .refl _
  handled _ member := nomatch member
  writing _ there := nomatch there
  written _ member := nomatch member
  limited := Nat.zero_le _

theorem servedServes (served : Served Hello trace) (t : Nat) : Serves (trace t) :=
  served.stays (fun serves steps => turnServes serves (stepTurn steps)) (Nat.zero_le t) (served.begins ▸ authenticatedServes)

theorem servedRead (served : Served Hello trace) {t t' n : Nat} (later : t ≤ t') (read : n < (trace t).read.length) :
    n < (trace t').read.length :=
  Behaves.stays (P := fun c => n < c.read.length) served
    (fun holds steps => Nat.lt_of_lt_of_le holds (turnMore (stepTurn steps)).1) later read

theorem servedWrites (served : Served Hello trace) (opened : Open trace) (fair : Fair trace) {t : Nat}
    {answer : Answer Id Response} (writing : (trace t).loop = .writing answer) :
    Eventually trace t (Answered answer.number) := by
  obtain ⟨t', later, ended⟩ := fair.writes t answer writing
  have kept := Behaves.stays (P := fun c => c.loop = .left ∨ c.loop = .writing answer ∨ answer ∈ c.written) served
    (fun holds steps => by
      rcases holds with left | there
      · exact .inl ((turnMore (stepTurn steps)).2.2 left)
      · exact turnWrites (stepTurn steps) there) later (.inr (.inl writing))
  rcases kept with left | still | written
  · exact absurd left (opened t')
  · exact absurd still ended
  · exact ⟨t', later, List.mem_map_of_mem written⟩

theorem servedReaps (fair : Fair trace) (t n : Nat) : Eventually trace t fun c => n ∉ c.handlers.map (·.number) := by
  by_cases there : n ∈ (trace t).handlers.map (·.number)
  · obtain ⟨handler, member, rfl⟩ := List.mem_map.mp there
    obtain ⟨t', later, ended⟩ := fair.ends t handler member
    by_cases there' : handler.number ∈ (trace t').handlers.map (·.number)
    · obtain ⟨handler', member', same⟩ := List.mem_map.mp there'
      obtain ⟨t'', later', gone⟩ := fair.reaped t' handler' member' (ended handler' member' same)
      exact ⟨t'', later.trans later', same ▸ gone⟩
    · exact ⟨t', later, there'⟩
  · exact ⟨t, Nat.le_refl t, there⟩

theorem servedUnanswered (served : Served Hello trace) (opened : Open trace) {n : Nat}
    (sound : ∀ t, ¬ Failed (trace t) n) (t : Nat) : n ∉ (trace t).unanswered := by
  induction t with
  | zero =>
    rw [served.begins]
    exact List.not_mem_nil
  | succ t ih =>
    intro there
    rcases served.moves t with rests | ⟨event, steps⟩
    · exact ih (rests ▸ there)
    · rcases turnUnanswered (stepTurn steps) there with left | earlier | failed
      · exact opened (t + 1) left
      · exact ih earlier
      · exact sound t failed

theorem placedOnce {c : Connection Id Request Response} (serves : Serves c) {n : Nat} (answered : Answered n c) :
    ¬ (Failed c n ∨ n ∈ c.unanswered) := by
  have apart := (List.nodup_append.mp (serves.everyone.nodup_iff.mpr List.nodup_range)).2.2
  intro failed
  refine apart n answered n (List.mem_append_right _ ?_) rfl
  rcases failed with ⟨handler, member, rfl, _⟩ | unanswered
  · exact List.mem_append_left _ (List.mem_map_of_mem member)
  · exact List.mem_append_right _ unanswered

/-- On every connection each request has one answer at most, for its own identifier; while the
connection stays open a request is answered if and only if its handler does not panic. -/
theorem requestsAnswered (served : Served Hello trace) :
    (∀ t, ((trace t).written.map (·.number)).Nodup ∧ (∀ answer ∈ (trace t).written, Own (trace t).read answer) ∧
      (trace t).handlers.length ≤ maxInFlightRequestsPerConnection) ∧
    (Open trace → Fair trace → ∀ t n, n < (trace t).read.length →
      (Eventually trace t (Answered n) ↔ ∀ t', ¬ Failed (trace t') n)) := by
  refine ⟨fun t => ?_, fun opened fair t n read => ⟨fun ⟨t', _, answered⟩ t'' failed => ?_, fun sound => ?_⟩⟩
  · have serves := servedServes served t
    exact ⟨(List.nodup_append.mp (serves.everyone.nodup_iff.mpr List.nodup_range)).1, serves.written, serves.limited⟩
  · -- both an answer and a failure stay, so they would meet
    have answered' : Answered n (trace (max t' t'')) := by
      obtain ⟨answer, member, numbered⟩ := List.mem_map.mp answered
      have kept := Behaves.stays (P := fun c => answer ∈ c.written) served
        (fun holds steps => (turnMore (stepTurn steps)).2.1 _ holds) (Nat.le_max_left t' t'') member
      exact List.mem_map.mpr ⟨answer, kept, numbered⟩
    have failed' := Behaves.stays (P := fun c => Failed c n ∨ n ∈ c.unanswered) served
      (fun holds steps => turnFailed (stepTurn steps) holds) (Nat.le_max_right t' t'') (.inl failed)
    exact placedOnce (servedServes served _) answered' failed'
  · obtain ⟨t', later, reaped⟩ := servedReaps fair t n
    have placed := (servedServes served t').everyone.mem_iff.mpr (List.mem_range.mpr (servedRead served later read))
    rcases List.mem_append.mp placed with written | rest
    · exact ⟨t', later, written⟩
    rcases List.mem_append.mp rest with writing | rest
    · cases there : (trace t').loop with
      | writing answer =>
        rw [there] at writing
        cases List.mem_singleton.mp writing
        obtain ⟨t'', later', answered⟩ := servedWrites served opened fair there
        exact ⟨t'', later.trans later', answered⟩
      | selecting | left => exact absurd (there ▸ writing) List.not_mem_nil
    rcases List.mem_append.mp rest with handled | unanswered
    · exact absurd handled reaped
    · exact absurd unanswered (servedUnanswered served opened sound t')

end Traces

section Played
variable {events : List (Event Hello Id Request Response)} {last : Connection Id Request Response}

theorem playedFair (ends : played step .authenticated events events.length = last) (idle : last.handlers = [])
    (selecting : last.loop = .selecting) : Fair (played step .authenticated events) where
  ends t _ _ := playedEventually ends (fun _ member => nomatch idle ▸ member) t
  reaped t _ _ _ := playedEventually ends (idle ▸ List.not_mem_nil) t
  writes t _ _ := playedEventually ends (fun same => nomatch selecting.symm.trans same) t

theorem playedOpen (ends : played step .authenticated events events.length = last)
    (selecting : last.loop = .selecting) : Open (played step .authenticated events) := by
  intro t left
  have served : Served Hello (played step .authenticated events) := playedBehaves events
  have stays := Behaves.stays (P := fun c => c.loop = .left) served
    (fun holds steps => (turnMore (stepTurn steps)).2.2 holds) (Nat.le_add_right t events.length) left
  rw [playedRests (Nat.le_add_left _ t), ends, selecting] at stays
  cases stays

end Played

abbrev Small := Connection Nat Unit Unit

def panics : List (Event Unit Nat Unit Unit) := [.frame (.request ⟨7, ()⟩), .ends 0 none, .joined 0]

/-- The request 7 is read, its handler panics, and nothing is written. -/
theorem panicUnanswered : ¬ ∀ trace : Nat → Small, Served Unit trace → Open trace → Fair trace →
    ∀ t n, n < (trace t).read.length → Eventually trace t (Answered n) := by
  intro answers
  have ends : played step .authenticated panics panics.length = (⟨[⟨7, ()⟩], [], .selecting, [], [0]⟩ : Small) := rfl
  obtain ⟨t, later, answered⟩ := answers _ (playedBehaves panics) (playedOpen ends rfl) (playedFair ends rfl rfl) 3 0
    Nat.one_pos
  rw [playedRests later, ends] at answered
  exact List.not_mem_nil answered

def replies : List (Event Unit Nat Unit Unit) :=
  [.frame (.request ⟨7, ()⟩), .frame (.request ⟨7, ()⟩), .ends 1 (some (.ok ())), .joined 1, .written true,
    .ends 0 (some (.error Serving.tooManyInFlight)), .joined 0, .written true]

theorem requestsAnsweredTwo : ∃ trace : Nat → Small, (trace 8).written.map (·.number) = [0, 1] ∧
    ((trace 8).written.map (·.number)).Nodup ∧
    (∀ t n, n < (trace t).read.length → (Eventually trace t (Answered n) ↔ ∀ t', ¬ Failed (trace t') n)) := by
  have ends : played step .authenticated replies replies.length = (⟨[⟨7, ()⟩, ⟨7, ()⟩], [], .selecting,
    [⟨0, 7, .error Serving.tooManyInFlight⟩, ⟨1, 7, .ok ()⟩], []⟩ : Small) := rfl
  obtain ⟨safe, live⟩ := requestsAnswered (playedBehaves replies : Served Unit (played step .authenticated replies))
  exact ⟨_, rfl, (safe 8).1, live (playedOpen ends rfl) (playedFair ends rfl rfl)⟩

end Maestro.RequestAnswers
