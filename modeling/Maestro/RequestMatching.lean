import Mathlib.Data.List.Nodup
import Maestro.Domain
import Maestro.Entries
import Maestro.Stepping

/-! The client of one daemon connection: its requests, its driver with the table of those that
wait for their response, and how each request comes to its end. -/
namespace Maestro.RequestMatching
open Entries Stepping

inductive IpcError where
  | fatal (error : MaestroError)
  | disconnected

/-- `completion` is the request's own one-shot channel. -/
structure OutboundRequest (Id : Type) where
  requestId : Id
  completion : Nat
  deriving DecidableEq

/-- What a read of the socket yields; `unexpected` is a hello, the end of the stream or an error. -/
inductive ServerFrame (Id Response : Type) where
  | response (requestId : Id) (response : Except MaestroError Response)
  | event
  | fatal (error : MaestroError)
  | unexpected

/-- A value sent on a one-shot channel, or its sender dropped, with the number of the response
frame it came from. -/
structure Resolution (Response : Type) where
  completion : Nat
  frame : Option Nat
  result : Except IpcError Response

/-- `leaving` is behind the loop, `closing` drops the receiver. -/
inductive Driver where
  | selecting
  | writing
  | draining (error : MaestroError)
  | leaving
  | closing
  | ended

/-- `requests` are all requests so far with their identifiers, and `frames` all frames read. -/
structure Client (Id Response : Type) where
  requests : List Id
  sending : List (OutboundRequest Id)
  queue : List (OutboundRequest Id)
  pending : List (OutboundRequest Id)
  driver : Driver
  frames : List (ServerFrame Id Response)
  resolutions : List (Resolution Response)

inductive Event (Id Response : Type) where
  | request (requestId : Id)
  | send (index : Nat)
  | receive
  | clientsDropped
  | written (success : Bool)
  | frame (frame : ServerFrame Id Response)
  | drain (index : Nat)
  | fail (index : Nat)
  | close
  | dropped

def channelCapacity : Nat := 128

variable {Id Response : Type}

namespace Client

def connected : Client Id Response := ⟨[], [], [], [], .selecting, [], []⟩

def resolve (c : Client Id Response) (request : OutboundRequest Id) (frame : Option Nat)
    (result : Except IpcError Response) : Client Id Response :=
  { c with resolutions := ⟨request.completion, frame, result⟩ :: c.resolutions }

def disconnect (c : Client Id Response) : List (OutboundRequest Id) → Client Id Response
  | [] => c
  | request :: rest => (c.resolve request none (.error .disconnected)).disconnect rest

end Client

def Driver.closed : Driver → Bool
  | .closing | .ended => true
  | _ => false

section Semantics
variable [DecidableEq Id]

/-- `HashMap::remove`. -/
def removeRequest (requestId : Id) : List (OutboundRequest Id) →
    Option (OutboundRequest Id × List (OutboundRequest Id))
  | [] => none
  | request :: rest =>
    if request.requestId = requestId then some (request, rest)
    else (removeRequest requestId rest).map fun found => (found.1, request :: found.2)

/-- `HashMap::insert`: the entry that was there is dropped. -/
def insertRequest (request : OutboundRequest Id) (pending : List (OutboundRequest Id)) :
    List (OutboundRequest Id) × List (OutboundRequest Id) :=
  match removeRequest request.requestId pending with
  | none => ([], request :: pending)
  | some (displaced, rest) => ([displaced], request :: rest)

def readFrame (c : Client Id Response) (frame : ServerFrame Id Response) : Client Id Response :=
  let read := { c with frames := c.frames ++ [frame] }
  match frame with
  | .response requestId response =>
    match removeRequest requestId c.pending with
    | none => read
    | some (request, rest) =>
      { read with pending := rest }.resolve request (some c.frames.length) (response.mapError .fatal)
  | .event => read
  | .fatal error => { read with driver := .draining error }
  | .unexpected => { read with driver := .leaving }

def step (c : Client Id Response) : Event Id Response → Option (Client Id Response)
  | .request requestId => some { c with
      requests := c.requests ++ [requestId]
      sending := c.sending ++ [⟨requestId, c.requests.length⟩] }
  | .send index =>
    match c.sending[index]? with
    | none => none
    | some request =>
      if c.driver.closed then
        some ({ c with sending := c.sending.eraseIdx index }.resolve request none (.error .disconnected))
      else if c.queue.length < channelCapacity then
        some { c with sending := c.sending.eraseIdx index, queue := c.queue ++ [request] }
      else none
  | .receive =>
    match c.driver, c.queue with
    | .selecting, request :: rest =>
      let (displaced, pending) := insertRequest request c.pending
      some ({ c with queue := rest, pending, driver := .writing }.disconnect displaced)
    | _, _ => none
  | .clientsDropped =>
    match c.driver, c.sending, c.queue with
    | .selecting, [], [] => some { c with driver := .leaving }
    | _, _, _ => none
  | .written success =>
    match c.driver with
    | .writing => some { c with driver := if success then .selecting else .leaving }
    | _ => none
  | .frame frame =>
    match c.driver with
    | .selecting => some (readFrame c frame)
    | _ => none
  | .drain index =>
    match c.driver, c.pending[index]? with
    | .draining error, some request =>
      some ({ c with pending := c.pending.eraseIdx index }.resolve request none (.error (.fatal error)))
    | .draining _, none => if c.pending = [] then some { c with driver := .leaving } else none
    | _, _ => none
  | .fail index =>
    match c.driver, c.pending[index]? with
    | .leaving, some request =>
      some ({ c with pending := c.pending.eraseIdx index }.resolve request none (.error .disconnected))
    | .leaving, none => if c.pending = [] then some { c with driver := .closing } else none
    | _, _ => none
  | .close =>
    match c.driver, c.queue with
    | .closing, request :: rest => some ({ c with queue := rest }.resolve request none (.error .disconnected))
    | .closing, [] => some { c with driver := .ended }
    | _, _ => none
  | .dropped =>
    match c.driver with
    | .selecting | .writing => some { c with driver := .leaving }
    | _ => none

example (c : Client Id Response) (ended : c.driver = .ended) : step c .dropped = none := by
  simp only [step, ended]

end Semantics

def Client.outstanding (c : Client Id Response) : List (OutboundRequest Id) := c.sending ++ c.queue ++ c.pending

/-- The caller keeps the identifiers of requests in flight apart. -/
def Distinct (c : Client Id Response) : Event Id Response → Prop
  | .request requestId => requestId ∉ c.outstanding.map (·.requestId)
  | _ => True

instance [DecidableEq Id] (c : Client Id Response) : (event : Event Id Response) → Decidable (Distinct c event)
  | .request requestId => inferInstanceAs (Decidable (requestId ∉ c.outstanding.map (·.requestId)))
  | .send _ | .receive | .clientsDropped | .written _ | .frame _ | .drain _ | .fail _ | .close | .dropped =>
    isTrue trivial

/-- Every request is outstanding or resolved, once. -/
structure Placed (requests : List Id) (outstanding : List (OutboundRequest Id)) (resolved : List Nat) : Prop where
  everyone : (outstanding.map (·.completion) ++ resolved).Perm (List.range requests.length)
  own : ∀ request ∈ outstanding, requests[request.completion]? = some request.requestId
  distinct : (outstanding.map (·.requestId)).Nodup

namespace Placed
variable {requests : List Id} {outstanding outstanding' : List (OutboundRequest Id)} {resolved : List Nat}

theorem perm (placed : Placed requests outstanding resolved) (moved : outstanding'.Perm outstanding) :
    Placed requests outstanding' resolved where
  everyone := ((moved.map _).append_right _).trans placed.everyone
  own request member := placed.own request (moved.mem_iff.mp member)
  distinct := (moved.map _).nodup_iff.mpr placed.distinct

theorem resolve {request : OutboundRequest Id} (placed : Placed requests outstanding resolved)
    (moved : outstanding.Perm (request :: outstanding')) :
    Placed requests outstanding' (request.completion :: resolved) where
  everyone := by
    have shuffled := ((moved.map (·.completion)).append_right resolved).symm.trans placed.everyone
    exact List.perm_middle.trans shuffled
  own other member := placed.own other (moved.mem_iff.mpr (List.mem_cons_of_mem _ member))
  distinct := (List.nodup_cons.mp ((moved.map (·.requestId)).nodup_iff.mp placed.distinct)).2

theorem request {requestId : Id} (placed : Placed requests outstanding resolved)
    (fresh : requestId ∉ outstanding.map (·.requestId)) :
    Placed (requests ++ [requestId]) (⟨requestId, requests.length⟩ :: outstanding) resolved where
  everyone := by
    rw [List.length_append, List.length_singleton, List.range_succ]
    exact (placed.everyone.cons requests.length).trans (List.perm_append_singleton _ _).symm
  own other member := by
    rcases List.mem_cons.mp member with rfl | earlier
    · exact List.getElem?_concat_length
    · have before := placed.own other earlier
      rw [List.getElem?_append_left (List.getElem?_eq_some_iff.mp before).1, before]
  distinct := List.nodup_cons.mpr ⟨fresh, placed.distinct⟩

end Placed

/-- A request is told its own response, or an error, and no response is told twice. -/
structure Told (requests : List Id) (frames : List (ServerFrame Id Response))
    (resolutions : List (Resolution Response)) : Prop where
  answered : ∀ r ∈ resolutions, ∀ n, r.frame = some n → ∃ requestId response,
    frames[n]? = some (.response requestId response) ∧ requests[r.completion]? = some requestId ∧
      r.result = response.mapError .fatal
  failed : ∀ r ∈ resolutions, r.frame = none → ∃ error, r.result = .error error
  once : (resolutions.filterMap (·.frame)).Nodup

namespace Told
variable {requests : List Id} {frames : List (ServerFrame Id Response)} {resolutions : List (Resolution Response)}

theorem more (told : Told requests frames resolutions) (later : List Id) (read : List (ServerFrame Id Response)) :
    Told (requests ++ later) (frames ++ read) resolutions where
  answered r member n from' := by
    obtain ⟨requestId, response, frame, mine, result⟩ := told.answered r member n from'
    refine ⟨requestId, response, ?_, ?_, result⟩
    · rw [List.getElem?_append_left (List.getElem?_eq_some_iff.mp frame).1, frame]
    · rw [List.getElem?_append_left (List.getElem?_eq_some_iff.mp mine).1, mine]
  failed := told.failed
  once := told.once

theorem fail (told : Told requests frames resolutions) (completion : Nat) (error : IpcError) :
    Told requests frames (⟨completion, none, .error error⟩ :: resolutions) where
  answered r member n from' := by
    rcases List.mem_cons.mp member with rfl | earlier
    · cases from'
    · exact told.answered r earlier n from'
  failed r member none' := by
    rcases List.mem_cons.mp member with rfl | earlier
    · exact ⟨error, rfl⟩
    · exact told.failed r earlier none'
  once := told.once

theorem answer {requestId : Id} {response : Except MaestroError Response} (told : Told requests frames resolutions)
    {completion : Nat} (mine : requests[completion]? = some requestId) :
    Told requests (frames ++ [.response requestId response])
      (⟨completion, some frames.length, response.mapError .fatal⟩ :: resolutions) where
  answered r member n from' := by
    rcases List.mem_cons.mp member with rfl | earlier
    · cases from'
      exact ⟨requestId, response, List.getElem?_concat_length, mine, rfl⟩
    · have old := (told.more [] [.response requestId response]).answered r earlier n from'
      rwa [List.append_nil] at old
  failed r member none' := by
    rcases List.mem_cons.mp member with rfl | earlier
    · cases none'
    · exact told.failed r earlier none'
  once := by
    refine List.nodup_cons.mpr ⟨fun member => ?_, told.once⟩
    obtain ⟨r, earlier, from'⟩ := List.mem_filterMap.mp member
    obtain ⟨_, _, frame, _⟩ := told.answered r earlier _ from'
    exact absurd (List.getElem?_eq_some_iff.mp frame).1 (Nat.lt_irrefl _)

end Told

def Shut (driver : Driver) (queue pending : List (OutboundRequest Id)) : Prop :=
  (driver.closed = true → pending = []) ∧ (driver = .ended → queue = [])

structure Matched (c : Client Id Response) : Prop where
  placed : Placed c.requests c.outstanding (c.resolutions.map (·.completion))
  told : Told c.requests c.frames c.resolutions
  shut : Shut c.driver c.queue c.pending

section Moves
variable {c c' : Client Id Response}

theorem failMatched {left : Client Id Response} {request : OutboundRequest Id} {error : IpcError}
    (matched : Matched c) (moved : c.outstanding.Perm (request :: left.outstanding))
    (requests : left.requests = c.requests) (frames : left.frames = c.frames)
    (resolutions : left.resolutions = c.resolutions) (shut : Shut left.driver left.queue left.pending) :
    Matched (left.resolve request none (.error error)) where
  placed := by
    change Placed left.requests left.outstanding (request.completion :: left.resolutions.map (·.completion))
    rw [requests, resolutions]
    exact matched.placed.resolve moved
  told := by
    change Told left.requests left.frames (_ :: left.resolutions)
    rw [requests, frames, resolutions]
    exact matched.told.fail _ _
  shut := shut

theorem movedMatched (matched : Matched c) (moved : c'.outstanding.Perm c.outstanding)
    (requests : c'.requests = c.requests) (frames : ∃ read, c'.frames = c.frames ++ read)
    (resolutions : c'.resolutions = c.resolutions) (shut : Shut c'.driver c'.queue c'.pending) : Matched c' where
  placed := by
    rw [requests, resolutions]
    exact matched.placed.perm moved
  told := by
    obtain ⟨read, frames⟩ := frames
    rw [requests, frames, resolutions, ← List.append_nil c.requests]
    exact matched.told.more [] read
  shut := shut

theorem openShut {driver : Driver} {queue pending : List (OutboundRequest Id)} (away : driver.closed = false) :
    Shut driver queue pending := by
  refine ⟨fun closed => ?_, fun ended => ?_⟩
  · rw [away] at closed
    cases closed
  · rw [ended] at away
    cases away

theorem notedMatched (matched : Matched c) {driver : Driver} (away : driver.closed = false)
    (read : List (ServerFrame Id Response)) : Matched { c with frames := c.frames ++ read, driver } :=
  movedMatched matched (List.Perm.refl _) rfl ⟨read, rfl⟩ rfl (openShut away)

theorem drivenMatched (matched : Matched c) {driver : Driver} (shut : Shut driver c.queue c.pending) :
    Matched { c with driver } :=
  movedMatched matched (List.Perm.refl _) rfl ⟨[], (List.append_nil _).symm⟩ rfl shut

theorem erasedLess {list : List (OutboundRequest Id)} {index : Nat} {request : OutboundRequest Id}
    (found : list[index]? = some request) : (list.eraseIdx index).length < list.length := by
  have bound := (List.getElem?_eq_some_iff.mp found).1
  rw [List.length_eraseIdx_of_lt bound]
  omega

theorem outstandingOr (matched : Matched c) {completion : Nat} (called : completion < c.requests.length) :
    completion ∈ c.resolutions.map (·.completion) ∨ ∃ request ∈ c.outstanding, request.completion = completion := by
  have here := matched.placed.everyone.mem_iff.mpr (List.mem_range.mpr called)
  rcases List.mem_append.mp here with waits | resolved
  · obtain ⟨request, member, same⟩ := List.mem_map.mp waits
    exact .inr ⟨request, member, same⟩
  · exact .inl resolved

theorem pendingExactly (matched : Matched c) {requestId : Id} {completion : Nat} :
    ⟨requestId, completion⟩ ∈ c.pending ↔ c.requests[completion]? = some requestId ∧
      completion ∉ c.resolutions.map (·.completion) ∧ completion ∉ (c.sending ++ c.queue).map (·.completion) := by
  have nodup := matched.placed.everyone.nodup_iff.mpr List.nodup_range
  obtain ⟨outside, _, apart⟩ := List.nodup_append.mp nodup
  rw [Client.outstanding, List.map_append] at outside
  constructor
  · intro member
    have inside : ⟨requestId, completion⟩ ∈ c.outstanding := List.mem_append_right _ member
    refine ⟨matched.placed.own _ inside, fun resolved => ?_, fun waits => ?_⟩
    · exact apart completion (List.mem_map.mpr ⟨_, inside, rfl⟩) completion resolved rfl
    · exact (List.nodup_append.mp outside).2.2 completion waits completion (List.mem_map.mpr ⟨_, member, rfl⟩) rfl
  · rintro ⟨own, unresolved, taken⟩
    rcases outstandingOr matched (List.getElem?_eq_some_iff.mp own).1 with resolved | ⟨request, waits, rfl⟩
    · exact absurd resolved unresolved
    · rcases List.mem_append.mp waits with before | member
      · exact absurd (List.mem_map_of_mem before) taken
      · have same := matched.placed.own _ waits
        cases own.symm.trans same
        exact member

theorem connectedMatched : Matched (Client.connected : Client Id Response) :=
  ⟨⟨List.Perm.refl _, fun _ member => (List.not_mem_nil member).elim, List.nodup_nil⟩,
    ⟨fun _ member => (List.not_mem_nil member).elim, fun _ member => (List.not_mem_nil member).elim, List.nodup_nil⟩,
    openShut rfl⟩

end Moves

section Steps
variable [DecidableEq Id] {c c' : Client Id Response}

theorem removeFound {requestId : Id} {pending rest : List (OutboundRequest Id)} {request : OutboundRequest Id}
    (found : removeRequest requestId pending = some (request, rest)) :
    request.requestId = requestId ∧ pending.Perm (request :: rest) := by
  induction pending generalizing rest with
  | nil => cases found
  | cons first pending ih =>
    unfold removeRequest at found
    split at found
    · rename_i same
      cases found
      exact ⟨same, List.Perm.refl _⟩
    · obtain ⟨⟨other, later⟩, inside, same⟩ := Option.map_eq_some_iff.mp found
      cases same
      obtain ⟨mine, perm⟩ := ih inside
      exact ⟨mine, (perm.cons first).trans (List.Perm.swap _ _ _)⟩

theorem removeNone {requestId : Id} {pending : List (OutboundRequest Id)}
    (none' : removeRequest requestId pending = none) : requestId ∉ pending.map (·.requestId) := by
  induction pending with
  | nil => exact List.not_mem_nil
  | cons first pending ih =>
    unfold removeRequest at none'
    split at none'
    · cases none'
    · rename_i different
      intro member
      rcases List.mem_cons.mp member with same | later
      · exact different same.symm
      · exact ih (Option.map_eq_none_iff.mp none') later

theorem readMatched (matched : Matched c) (selecting : c.driver = .selecting) (frame : ServerFrame Id Response) :
    Matched (readFrame c frame) := by
  have away : c.driver.closed = false := by
    rw [selecting]
    rfl
  cases frame with
  | event => exact @notedMatched _ _ c matched c.driver away [.event]
  | fatal error => exact @notedMatched _ _ c matched (.draining error) rfl [.fatal error]
  | unexpected => exact @notedMatched _ _ c matched .leaving rfl [.unexpected]
  | response requestId response =>
    simp only [readFrame]
    split
    · exact @notedMatched _ _ c matched c.driver away [.response requestId response]
    · rename_i request rest found
      obtain ⟨mine, perm⟩ := removeFound found
      have moved : c.outstanding.Perm (request :: (c.sending ++ c.queue ++ rest)) :=
        (perm.append_left _).trans List.perm_middle
      have own := matched.placed.own request (moved.mem_iff.mpr List.mem_cons_self)
      rw [mine] at own
      exact ⟨matched.placed.resolve moved, matched.told.answer own, openShut away⟩

theorem insertApart {request : OutboundRequest Id} {rest : List (OutboundRequest Id)} (matched : Matched c)
    (queue : c.queue = request :: rest) : insertRequest request c.pending = ([], request :: c.pending) := by
  have apart : removeRequest request.requestId c.pending = none := by
    cases found : removeRequest request.requestId c.pending with
    | none => rfl
    | some outcome =>
      obtain ⟨other, left⟩ := outcome
      obtain ⟨same, perm⟩ := removeFound found
      have distinct := matched.placed.distinct
      rw [Client.outstanding, queue, List.append_assoc, List.map_append] at distinct
      have later := (List.nodup_append.mp distinct).2.1
      rw [List.cons_append, List.map_cons, List.map_append] at later
      refine absurd (List.mem_append_right _ ?_) (List.nodup_cons.mp later).1
      exact List.mem_map.mpr ⟨other, perm.mem_iff.mpr List.mem_cons_self, same⟩
  rw [insertRequest, apart]

theorem receiveMatched {request : OutboundRequest Id} {rest : List (OutboundRequest Id)} (matched : Matched c)
    (queue : c.queue = request :: rest) :
    Matched ({ c with queue := rest, pending := (insertRequest request c.pending).2, driver := .writing }.disconnect
      (insertRequest request c.pending).1) := by
  rw [insertApart matched queue]
  refine movedMatched matched ?_ rfl ⟨[], (List.append_nil _).symm⟩ rfl (openShut rfl)
  rw [Client.outstanding, Client.outstanding, queue, List.append_assoc, List.append_assoc]
  exact List.perm_middle.append_left _

theorem stepMatched (matched : Matched c) {event : Event Id Response} (distinct : Distinct c event)
    (steps : step c event = some c') : Matched c' := by
  cases event with
  | request requestId =>
    cases steps
    refine ⟨?_, ?_, matched.shut⟩
    · refine (matched.placed.request distinct).perm ?_
      simp only [Client.outstanding, List.append_assoc, List.singleton_append]
      exact List.perm_middle
    · have more := matched.told.more [requestId] []
      rwa [List.append_nil] at more
  | send index =>
    simp only [step] at steps
    split at steps
    · cases steps
    · rename_i request found
      have moved := erased found
      split at steps
      · rename_i closed
        cases steps
        refine failMatched matched ?_ rfl rfl rfl matched.shut
        simp only [Client.outstanding, List.append_assoc]
        exact moved.append_right _
      · rename_i away
        split at steps
        · cases steps
          refine movedMatched matched ?_ rfl ⟨[], (List.append_nil _).symm⟩ rfl (openShut (Bool.eq_false_iff.mpr away))
          simp only [Client.outstanding, List.append_assoc, List.singleton_append]
          exact (List.perm_middle.append_left _).trans (List.perm_middle.trans (moved.symm.append_right _))
        · cases steps
  | receive =>
    simp only [step] at steps
    split at steps
    · rename_i queue
      cases steps
      exact receiveMatched matched queue
    · cases steps
  | clientsDropped =>
    simp only [step] at steps
    split at steps
    · cases steps
      exact drivenMatched matched (openShut rfl)
    · cases steps
  | written success =>
    simp only [step] at steps
    split at steps
    · cases steps
      exact drivenMatched matched (openShut (by cases success <;> rfl))
    · cases steps
  | frame frame =>
    simp only [step] at steps
    split at steps
    · rename_i selecting
      cases steps
      exact readMatched matched selecting frame
    · cases steps
  | drain index =>
    simp only [step] at steps
    split at steps
    · rename_i error request draining found
      cases steps
      refine failMatched matched ?_ rfl rfl rfl (openShut ?_)
      · exact ((erased found).append_left _).trans List.perm_middle
      · change c.driver.closed = false
        rw [draining]
        rfl
    · split at steps <;> cases steps
      exact drivenMatched matched (openShut rfl)
    · cases steps
  | fail index =>
    simp only [step] at steps
    split at steps
    · rename_i request leaving found
      cases steps
      refine failMatched matched ?_ rfl rfl rfl (openShut ?_)
      · exact ((erased found).append_left _).trans List.perm_middle
      · change c.driver.closed = false
        rw [leaving]
        rfl
    · split at steps
      · rename_i empty
        cases steps
        exact drivenMatched matched ⟨fun _ => empty, nofun⟩
      · cases steps
    · cases steps
  | close =>
    simp only [step] at steps
    split at steps
    · rename_i request rest closing queue
      cases steps
      refine failMatched matched ?_ rfl rfl rfl ⟨matched.shut.1, fun ended => ?_⟩
      · rw [Client.outstanding, Client.outstanding, queue, List.append_assoc, List.append_assoc]
        exact List.perm_middle
      · cases closing.symm.trans ended
    · rename_i closing queue
      cases steps
      refine drivenMatched matched ⟨fun _ => matched.shut.1 ?_, fun _ => queue⟩
      rw [closing, Driver.closed]
    · cases steps
  | dropped =>
    simp only [step] at steps
    split at steps <;> cases steps <;> exact drivenMatched matched (openShut rfl)

theorem reachedMatched (reached : Reach step Distinct .connected c) : Matched c :=
  reachInvariant reached connectedMatched fun matched distinct steps => stepMatched matched distinct steps

def Driver.leaves : Driver → Bool
  | .selecting | .writing => false
  | _ => true

def Event.finishes : Event Id Response → Bool
  | .send _ | .drain _ | .fail _ | .close => true
  | _ => false

def Driver.remaining : Driver → Nat
  | .draining _ => 3
  | .leaving => 2
  | .closing => 1
  | _ => 0

def Client.remaining (c : Client Id Response) : Nat :=
  2 * c.sending.length + c.queue.length + c.pending.length + c.driver.remaining

theorem finishesOn (matched : Matched c) (leaves : c.driver.leaves = true) {request : OutboundRequest Id}
    (waits : request ∈ c.outstanding) :
    ∃ event : Event Id Response, event.finishes = true ∧ (step c event).isSome := by
  cases driver : c.driver with
  | selecting | writing =>
    rw [driver] at leaves
    cases leaves
  | draining error =>
    refine ⟨.drain 0, ?_⟩
    cases pending : c.pending with
    | nil => exact ⟨rfl, by simp [step, driver, pending]⟩
    | cons first rest => exact ⟨rfl, by simp [step, driver, pending]⟩
  | leaving =>
    refine ⟨.fail 0, ?_⟩
    cases pending : c.pending with
    | nil => exact ⟨rfl, by simp [step, driver, pending]⟩
    | cons first rest => exact ⟨rfl, by simp [step, driver, pending]⟩
  | closing =>
    refine ⟨.close, ?_⟩
    cases queue : c.queue with
    | nil => exact ⟨rfl, by simp [step, driver, queue]⟩
    | cons first rest => exact ⟨rfl, by simp [step, driver, queue]⟩
  | ended =>
    have closed : c.driver.closed = true := by
      rw [driver]
      rfl
    rw [Client.outstanding, matched.shut.1 closed, matched.shut.2 driver, List.append_nil, List.append_nil] at waits
    refine ⟨.send 0, ?_⟩
    cases sending : c.sending with
    | nil =>
      rw [sending] at waits
      cases waits
    | cons first rest => exact ⟨rfl, by simp [step, sending, closed]⟩

theorem finishesLess {event : Event Id Response} (leaves : c.driver.leaves = true) (finishes : event.finishes = true)
    (steps : step c event = some c') : c'.driver.leaves = true ∧ c'.remaining < c.remaining := by
  cases event with
  | send index =>
    simp only [step] at steps
    split at steps
    · cases steps
    · rename_i request found
      have less := erasedLess found
      split at steps
      · cases steps
        refine ⟨leaves, ?_⟩
        simp only [Client.remaining, Client.resolve]
        omega
      · split at steps <;> cases steps
        refine ⟨leaves, ?_⟩
        simp only [Client.remaining, List.length_append, List.length_singleton]
        omega
  | drain index =>
    simp only [step] at steps
    split at steps
    · rename_i error request draining found
      have less := erasedLess found
      cases steps
      refine ⟨leaves, ?_⟩
      simp only [Client.remaining, Client.resolve]
      omega
    · rename_i error draining none'
      split at steps <;> cases steps
      refine ⟨rfl, ?_⟩
      simp only [Client.remaining, draining, Driver.remaining]
      omega
    · cases steps
  | fail index =>
    simp only [step] at steps
    split at steps
    · rename_i request leaving found
      have less := erasedLess found
      cases steps
      refine ⟨leaves, ?_⟩
      simp only [Client.remaining, Client.resolve]
      omega
    · rename_i leaving none'
      split at steps <;> cases steps
      refine ⟨rfl, ?_⟩
      simp only [Client.remaining, leaving, Driver.remaining]
      omega
    · cases steps
  | close =>
    simp only [step] at steps
    split at steps
    · rename_i request rest closing queue
      cases steps
      refine ⟨leaves, ?_⟩
      simp only [Client.remaining, Client.resolve, queue, List.length_cons]
      omega
    · rename_i closing queue
      cases steps
      refine ⟨rfl, ?_⟩
      simp only [Client.remaining, closing, Driver.remaining]
      omega
    · cases steps
  | _ => cases finishes

theorem responseResolves {requestId : Id} {response : Except MaestroError Response} (matched : Matched c)
    {completion : Nat} (waits : ⟨requestId, completion⟩ ∈ c.pending)
    (steps : step c (.frame (.response requestId response)) = some c') :
    ⟨completion, some c.frames.length, response.mapError .fatal⟩ ∈ c'.resolutions := by
  simp only [step] at steps
  split at steps
  · cases steps
    simp only [readFrame]
    split
    · rename_i none'
      exact absurd (List.mem_map.mpr ⟨_, waits, rfl⟩) (removeNone none')
    · rename_i request rest found
      obtain ⟨mine, perm⟩ := removeFound found
      have same : request.completion = completion := by
        have distinct := matched.placed.distinct
        rw [Client.outstanding, List.map_append] at distinct
        have one := List.inj_on_of_nodup_map (List.nodup_append.mp distinct).2.1
          (perm.mem_iff.mpr List.mem_cons_self) waits mine
        rw [one]
      rw [← same]
      exact List.mem_cons_self
  · cases steps

/-- Every request is resolved at most once, with the response to itself or an error, and no
response resolves two; the table has the unresolved requests that the driver has taken; a response
to one of them resolves it; and behind the driver's loop every request is resolved by the steps
that are left. -/
theorem requestsMatched (reached : Reach step Distinct .connected c) :
    (c.resolutions.map (·.completion)).Nodup ∧
    (∀ r ∈ c.resolutions, (∃ n requestId response, r.frame = some n ∧
        c.frames[n]? = some (.response requestId response) ∧ c.requests[r.completion]? = some requestId ∧
        r.result = response.mapError .fatal) ∨ ∃ error, r.result = .error error) ∧
    (c.resolutions.filterMap (·.frame)).Nodup ∧
    (∀ requestId completion, ⟨requestId, completion⟩ ∈ c.pending ↔ c.requests[completion]? = some requestId ∧
      completion ∉ c.resolutions.map (·.completion) ∧ completion ∉ (c.sending ++ c.queue).map (·.completion)) ∧
    (∀ requestId completion response c', ⟨requestId, completion⟩ ∈ c.pending →
      step c (.frame (.response requestId response)) = some c' →
        ⟨completion, some c.frames.length, response.mapError .fatal⟩ ∈ c'.resolutions) ∧
    (c.driver.leaves = true →
      (∀ completion < c.requests.length, completion ∉ c.resolutions.map (·.completion) →
        ∃ event : Event Id Response, event.finishes = true ∧ (step c event).isSome) ∧
      ∀ event c', event.finishes = true → step c event = some c' →
        c'.driver.leaves = true ∧ c'.remaining < c.remaining) := by
  have matched := reachedMatched reached
  refine ⟨?_, fun r member => ?_, matched.told.once, fun _ _ => pendingExactly matched,
    fun _ _ _ _ waits steps => responseResolves matched waits steps, fun leaves => ⟨fun completion called unresolved => ?_,
    fun _ _ finishes steps => finishesLess leaves finishes steps⟩⟩
  · exact (List.nodup_append.mp (matched.placed.everyone.nodup_iff.mpr List.nodup_range)).2.1
  · cases from' : r.frame with
    | none => exact .inr (matched.told.failed r member from')
    | some n =>
      obtain ⟨requestId, response, frame, mine, result⟩ := matched.told.answered r member n from'
      exact .inl ⟨n, requestId, response, rfl, frame, mine, result⟩
  · rcases outstandingOr matched called with resolved | ⟨request, waits, _⟩
    · exact absurd resolved unresolved
    · exact finishesOn matched leaves waits

end Steps

def answered : List (Event Nat Unit) :=
  [.request 7, .request 8, .send 0, .send 0, .receive, .written true, .receive, .written true,
    .frame (.response 8 (.ok ())), .frame (.response 8 (.ok ())), .frame .unexpected, .fail 0, .fail 0, .close]

theorem answeredRun : (run step Distinct (Client.connected : Client Nat Unit) answered).map
    (fun c => c.resolutions.map fun r => (r.completion, r.frame)) = some [(0, none), (1, some 0)] := by
  decide +kernel

theorem requestsMatchedTwo : ∃ c : Client Nat Unit,
    c.resolutions.map (fun r => (r.completion, r.frame)) = [(0, none), (1, some 0)] ∧
      (c.resolutions.map (·.completion)).Nodup ∧ (c.resolutions.filterMap (·.frame)).Nodup ∧
      (∀ r ∈ c.resolutions, (∃ n requestId response, r.frame = some n ∧
        c.frames[n]? = some (.response requestId response) ∧ c.requests[r.completion]? = some requestId ∧
        r.result = response.mapError .fatal) ∨ ∃ error, r.result = .error error) ∧
      ∀ requestId completion, ⟨requestId, completion⟩ ∈ c.pending ↔ c.requests[completion]? = some requestId ∧
        completion ∉ c.resolutions.map (·.completion) ∧ completion ∉ (c.sending ++ c.queue).map (·.completion) := by
  obtain ⟨c, ran, seen⟩ := Option.map_eq_some_iff.mp answeredRun
  obtain ⟨once, told, frames, listed, _⟩ := requestsMatched (reachRun .start ran)
  exact ⟨c, seen, once, frames, told, listed⟩

theorem queuedRun : (run step Distinct (Client.connected : Client Nat Unit) [.request 7, .send 0]).map
    (fun c => (c.requests, c.resolutions.map (·.completion), c.pending)) = some ([7], [], []) := by
  decide +kernel

/-- A request in the channel is not resolved and not in the table. -/
theorem queuedUnlisted : ¬ ∀ c : Client Nat Unit, Reach step Distinct .connected c →
    ∀ requestId completion, ⟨requestId, completion⟩ ∈ c.pending ↔
      c.requests[completion]? = some requestId ∧ completion ∉ c.resolutions.map (·.completion) := by
  intro listed
  obtain ⟨c, ran, seen⟩ := Option.map_eq_some_iff.mp queuedRun
  obtain ⟨requests, rest⟩ := Prod.mk.inj seen
  obtain ⟨resolutions, pending⟩ := Prod.mk.inj rest
  have member := (listed c (reachRun .start ran) 7 0).mpr
  rw [requests, resolutions, pending] at member
  exact List.not_mem_nil (member ⟨rfl, List.not_mem_nil⟩)

end Maestro.RequestMatching
