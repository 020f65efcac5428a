import Maestro.RequestAnswers
import Maestro.RequestMatching

/-! A client of the daemon and the connection that serves it, with the frames on their way between
the two: whose answer a call is told, and where a call is that is not told yet. -/
namespace Maestro.RequestPath
open Entries Stepping Framing

/-- `calls` are the requests of all calls so far, by the number of the call; `writing` is the frame
that the driver writes, with its call, and `sent` are the calls whose frames reached the socket.
A torn reader abandoned a frame half way, and takes the bytes behind it for a new one. -/
structure Path (Id Request Response : Type) where
  client : RequestMatching.Client Id Response
  calls : List Request
  writing : Option (Nat × RequestEnvelope Id Request)
  sent : List Nat
  up : List (RequestEnvelope Id Request)
  connection : RequestAnswers.Connection Id Request Response
  down : List (RequestAnswers.Answer Id Response)
  upTorn : Bool
  downTorn : Bool

/-- A write that fails, or is dropped, may have passed on the whole frame: `arrived`. -/
inductive Event (Hello Id Request Response : Type) where
  | call (requestId : Id) (request : Request)
  | client (event : RequestMatching.Event Id Response)
  | receive
  | requestWritten (success arrived : Bool)
  | dropped (arrived : Bool)
  | requestRead
  | daemon (event : RequestAnswers.Event Hello Id Request Response)
  | responseWritten (success arrived : Bool)
  | responseRead
  | tearUp
  | tearDown
  | noiseUp (frame : ClientFrame Hello Id Request)
  | noiseDown (frame : RequestMatching.ServerFrame Id Response)

variable {Hello Id Request Response : Type}

/-- What the client does beside the frames of requests and responses. -/
def aside : RequestMatching.Event Id Response → Bool
  | .frame (.response _ _) => false
  | .send _ | .clientsDropped | .drain _ | .fail _ | .close | .frame _ => true
  | .request _ | .receive | .written _ | .dropped => false

def inside : RequestAnswers.Event Hello Id Request Response → Bool
  | .ends _ _ | .joined _ | .leave => true
  | .frame _ | .written _ => false

namespace Path

def connected : Path Id Request Response := ⟨.connected, [], none, [], [], .authenticated, [], false, false⟩

/-- The frame the driver makes of the request at the head of its channel. -/
def outgoing (p : Path Id Request Response) : Option (Nat × RequestEnvelope Id Request) := do
  let request ← p.client.queue.head?
  let body ← p.calls[request.completion]?
  some (request.completion, ⟨request.requestId, body⟩)

def passOn (p : Path Id Request Response) (arrived : Bool) : Path Id Request Response :=
  match p.writing, arrived with
  | some (call, envelope), true => { p with writing := none, sent := p.sent ++ [call], up := p.up ++ [envelope] }
  | _, _ => { p with writing := none }

end Path

def step [DecidableEq Id] (p : Path Id Request Response) :
    Event Hello Id Request Response → Option (Path Id Request Response)
  | .call requestId request =>
    (RequestMatching.step p.client (.request requestId)).map fun client =>
      { p with client, calls := p.calls ++ [request] }
  | .client event =>
    if aside event then (RequestMatching.step p.client event).map fun client => { p with client } else none
  | .receive =>
    (RequestMatching.step p.client .receive).map fun client => { p with client, writing := p.outgoing }
  | .requestWritten success arrived =>
    if success && !arrived then none
    else (RequestMatching.step p.client (.written success)).map fun client => { p.passOn arrived with client }
  | .dropped arrived =>
    (RequestMatching.step p.client .dropped).map fun client => { p.passOn arrived with client }
  | .requestRead =>
    match p.up with
    | [] => none
    | envelope :: rest =>
      (RequestAnswers.step p.connection (.frame (.request envelope : ClientFrame Hello Id Request))).map
        fun connection => { p with connection, up := rest }
  | .daemon event =>
    if inside event then (RequestAnswers.step p.connection event).map fun connection => { p with connection }
    else none
  | .responseWritten success arrived =>
    match p.connection.loop with
    | .writing answer =>
      if success && !arrived then none
      else some { p with
        connection := p.connection.onWritten answer success
        down := if arrived then p.down ++ [answer] else p.down }
    | _ => none
  | .responseRead =>
    match p.down with
    | [] => none
    | answer :: rest =>
      (RequestMatching.step p.client (.frame (.response answer.envelope.requestId answer.envelope.response))).map
        fun client => { p with client, down := rest }
  | .tearUp => some { p with upTorn := true }
  | .tearDown => some { p with downTorn := true }
  | .noiseUp frame =>
    if p.upTorn then (RequestAnswers.step p.connection (.frame frame)).map fun connection => { p with connection }
    else none
  | .noiseDown frame =>
    if p.downTorn then (RequestMatching.step p.client (.frame frame)).map fun client => { p with client } else none

/-- The identifiers in flight are distinct, a handler returns what it may for its request, and no
read of a frame is abandoned half way. -/
def May (Handles : Request → Except MaestroError Response → Prop) (p : Path Id Request Response) :
    Event Hello Id Request Response → Prop
  | .call requestId _ => RequestMatching.Distinct p.client (.request requestId)
  | .daemon (.ends index (some response)) =>
    ∀ handler ∈ p.connection.handlers[index]?, Handles handler.envelope.request response
  | .tearUp | .tearDown => False
  | _ => True

instance (Handles : Request → Except MaestroError Response → Prop)
    [∀ request response, Decidable (Handles request response)] [DecidableEq Id] (p : Path Id Request Response) :
    (event : Event Hello Id Request Response) → Decidable (May Handles p event)
  | .call requestId _ => inferInstanceAs (Decidable (RequestMatching.Distinct p.client (.request requestId)))
  | .daemon (.ends index (some response)) =>
    inferInstanceAs (Decidable (∀ handler ∈ p.connection.handlers[index]?, Handles handler.envelope.request response))
  | .tearUp | .tearDown => .isFalse not_false
  | .client _ | .receive | .requestWritten _ _ | .dropped _ | .requestRead | .daemon (.frame _)
  | .daemon (.ends _ none) | .daemon (.joined _) | .daemon (.written _) | .daemon .leave | .responseWritten _ _
  | .responseRead | .noiseUp _ | .noiseDown _ => .isTrue trivial

def Reached (Hello : Type) [DecidableEq Id] (Handles : Request → Except MaestroError Response → Prop)
    (p : Path Id Request Response) : Prop :=
  Reach (fun p (event : Event Hello Id Request Response) => step p event) (May Handles) .connected p

/-- The call behind the `n`-th frame of a request. -/
def Origin (requests : List Id) (calls : List Request) (sent : List Nat) (n : Nat)
    (envelope : RequestEnvelope Id Request) : Prop :=
  ∃ call, sent[n]? = some call ∧ requests[call]? = some envelope.requestId ∧ calls[call]? = some envelope.request

/-- The frames of requests, by their number, that are on their way to an answer or whose answer
is on its way back. -/
def waiting (up : List (RequestEnvelope Id Request)) (connection : RequestAnswers.Connection Id Request Response)
    (down : List (RequestAnswers.Answer Id Response)) : List Nat :=
  down.map (·.number) ++ (connection.loop.numbers ++ (connection.handlers.map (·.number) ++
    List.range' connection.read.length up.length))

section Invariant
variable (Handles : Request → Except MaestroError Response → Prop)

def Answers (read : List (RequestEnvelope Id Request)) (answer : RequestAnswers.Answer Id Response) : Prop :=
  ∃ envelope, read[answer.number]? = some envelope ∧ envelope.requestId = answer.envelope.requestId ∧
    (Handles envelope.request answer.envelope.response ∨ answer.envelope.response = .error Serving.tooManyInFlight)

structure Frames (requests : List Id) (calls : List Request) (sent : List Nat)
    (up : List (RequestEnvelope Id Request)) (connection : RequestAnswers.Connection Id Request Response)
    (down : List (RequestAnswers.Answer Id Response)) : Prop where
  origin : ∀ n envelope, (connection.read ++ up)[n]? = some envelope → Origin requests calls sent n envelope
  length : connection.read.length + up.length = sent.length
  handlers : ∀ handler ∈ connection.handlers, connection.read[handler.number]? = some handler.envelope ∧
    ∀ response, handler.outcome = .returned response → Handles handler.envelope.request response
  answers : ∀ answer, connection.loop = .writing answer ∨ answer ∈ down → Answers Handles connection.read answer
  once : (waiting up connection down).Nodup

/-- While the driver is in its loop, the pending calls are those whose frames are under way, the
one being written, and those the daemon has left without an answer. -/
structure Linked (pending : List (RequestMatching.OutboundRequest Id))
    (writing : Option (Nat × RequestEnvelope Id Request)) (sent waiting unanswered : List Nat) : Prop where
  waits : ∀ n ∈ waiting, ∃ request ∈ pending, sent[n]? = some request.completion
  somewhere : ∀ request ∈ pending, (∃ envelope, writing = some (request.completion, envelope)) ∨
    ∃ n, sent[n]? = some request.completion ∧ (n ∈ waiting ∨ n ∈ unanswered)

def unsent (c : RequestMatching.Client Id Response) (writing : Option (Nat × RequestEnvelope Id Request))
    (sent : List Nat) : List Nat :=
  (c.sending ++ c.queue).map (·.completion) ++ ((writing.map (·.1)).toList ++ sent)

structure Told (calls : List Request) (resolutions : List (RequestMatching.Resolution Response)) : Prop where
  answered : ∀ r ∈ resolutions, r.frame ≠ none → ∃ request response, calls[r.completion]? = some request ∧
    r.result = response.mapError .fatal ∧ (Handles request response ∨ response = .error Serving.tooManyInFlight)

structure Sound (p : Path Id Request Response) : Prop where
  matched : RequestMatching.Matched p.client
  whole : p.upTorn = false ∧ p.downTorn = false
  sized : p.calls.length = p.client.requests.length
  written : ∀ call envelope, p.writing = some (call, envelope) → p.client.driver = .writing ∧
    ⟨envelope.requestId, call⟩ ∈ p.client.pending ∧ p.calls[call]? = some envelope.request
  sentOnce : (unsent p.client p.writing p.sent).Nodup
  called : ∀ call ∈ p.sent, call < p.client.requests.length
  frames : Frames Handles p.client.requests p.calls p.sent p.up p.connection p.down
  linked : p.client.driver.leaves = false → Linked p.client.pending p.writing p.sent
    (waiting p.up p.connection p.down) p.connection.unanswered
  told : Told Handles p.calls p.client.resolutions

end Invariant

theorem still {α : Type} {list : List α} {n : Nat} {a : α} (there : list[n]? = some a) (more : List α) :
    (list ++ more)[n]? = some a := by
  rw [List.getElem?_append_left (List.getElem?_eq_some_iff.mp there).1, there]

theorem Origin.more {requests : List Id} {calls : List Request} {sent : List Nat} {n : Nat}
    {envelope : RequestEnvelope Id Request} (origin : Origin requests calls sent n envelope) (requests' : List Id)
    (calls' : List Request) (sent' : List Nat) :
    Origin (requests ++ requests') (calls ++ calls') (sent ++ sent') n envelope := by
  obtain ⟨call, there, requestId, request⟩ := origin
  exact ⟨call, still there _, still requestId _, still request _⟩

section Daemon
variable {Handles : Request → Except MaestroError Response → Prop} {p : Path Id Request Response}
  {requests : List Id} {calls : List Request} {sent : List Nat} {up : List (RequestEnvelope Id Request)}
  {connection connection' : RequestAnswers.Connection Id Request Response}
  {down : List (RequestAnswers.Answer Id Response)}

theorem Frames.within (frames : Frames Handles requests calls sent up connection down) {n : Nat}
    (member : n ∈ waiting up connection down) : n < sent.length := by
  have length := frames.length
  have before : ∀ {n : Nat} {envelope : RequestEnvelope Id Request},
      connection.read[n]? = some envelope → n < sent.length := by
    intro n envelope there
    have bound := (List.getElem?_eq_some_iff.mp there).1
    omega
  simp only [waiting, List.mem_append, List.mem_map, List.mem_range'_1] at member
  rcases member with ⟨answer, member, rfl⟩ | writing | ⟨handler, member, rfl⟩ | ⟨_, less⟩
  · obtain ⟨envelope, there, _⟩ := frames.answers answer (.inr member)
    exact before there
  · cases loop : connection.loop with
    | writing answer =>
      rw [loop] at writing
      cases List.mem_singleton.mp writing
      obtain ⟨envelope, there, _⟩ := frames.answers answer (.inl loop)
      exact before there
    | selecting | left =>
      rw [loop] at writing
      cases writing
  · exact before (frames.handlers handler member).1
  · omega

theorem Answers.more {read : List (RequestEnvelope Id Request)} {answer : RequestAnswers.Answer Id Response}
    (answers : Answers Handles read answer) (later : List (RequestEnvelope Id Request)) :
    Answers Handles (read ++ later) answer := by
  obtain ⟨envelope, there, same, handled⟩ := answers
  exact ⟨envelope, still there _, same, handled⟩

/-- What a step of the daemon does to the frames under way. -/
structure Passes (waits waits' left left' : List Nat) : Prop where
  fewer : ∀ n ∈ waits', n ∈ waits
  kept : ∀ n ∈ waits, n ∈ waits' ∨ n ∈ left'
  more : ∀ n ∈ left, n ∈ left'

theorem Passes.same {waits waits' left : List Nat} (moved : waits'.Perm waits) : Passes waits waits' left left where
  fewer _ := moved.mem_iff.mp
  kept _ member := .inl (moved.mem_iff.mpr member)
  more _ := id

theorem Passes.gone {waits waits' left : List Nat} {n : Nat} (moved : waits.Perm (n :: waits')) :
    Passes waits waits' left (n :: left) where
  fewer n member := moved.mem_iff.mpr (List.mem_cons_of_mem _ member)
  kept n member := by
    rcases List.mem_cons.mp (moved.mem_iff.mp member) with rfl | other
    · exact .inr List.mem_cons_self
    · exact .inl other
  more n := List.mem_cons_of_mem _

theorem daemonSound (sound : Sound Handles p)
    (frames : Frames Handles p.client.requests p.calls p.sent up connection' down)
    (passes : Passes (waiting p.up p.connection p.down) (waiting up connection' down) p.connection.unanswered
      connection'.unanswered) : Sound Handles { p with up, connection := connection', down } where
  matched := sound.matched
  whole := sound.whole
  sized := sound.sized
  written := sound.written
  sentOnce := sound.sentOnce
  called := sound.called
  frames := frames
  linked inside' := by
    have linked := sound.linked inside'
    refine ⟨fun n member => linked.waits n (passes.fewer n member), fun request member => ?_⟩
    rcases linked.somewhere request member with writing | ⟨n, there, waits | left⟩
    · exact .inl writing
    · exact .inr ⟨n, there, passes.kept n waits⟩
    · exact .inr ⟨n, there, .inr (passes.more n left)⟩
  told := sound.told

theorem readSound {envelope : RequestEnvelope Id Request} {rest : List (RequestEnvelope Id Request)}
    (sound : Sound Handles p) (first : p.up = envelope :: rest)
    (steps : RequestAnswers.step p.connection (.frame (.request envelope : ClientFrame Hello Id Request)) =
      some connection') : Sound Handles { p with connection := connection', up := rest } := by
  simp only [RequestAnswers.step] at steps
  split at steps
  case h_2 => cases steps
  rename_i selecting
  cases Option.some.inj steps
  have frames := sound.frames
  rw [first] at frames
  have origin := frames.origin
  rw [← List.singleton_append, ← List.append_assoc] at origin
  have length : (p.connection.read ++ [envelope]).length + rest.length = p.sent.length := by
    have before := frames.length
    simp only [List.length_cons, List.length_append, List.length_nil] at before ⊢
    omega
  have fresh : (p.connection.read ++ [envelope])[p.connection.read.length]? = some envelope :=
    List.getElem?_concat_length
  have handlers := fun handler member => (frames.handlers handler member).imp_left (still · [envelope])
  have answers := fun answer member => (frames.answers answer (.inr member)).more [envelope]
  simp only [RequestAnswers.Connection.onFrame]
  split
  · have moved : (waiting p.up p.connection p.down).Perm (waiting rest { p.connection with
        read := p.connection.read ++ [envelope]
        loop := .writing ⟨p.connection.read.length, envelope.requestId, .error Serving.tooManyInFlight⟩ } p.down) := by
      simp only [waiting, first, selecting, RequestAnswers.Loop.numbers, List.nil_append, List.length_cons,
        List.range'_succ, List.length_append, List.length_nil, List.singleton_append]
      exact List.perm_middle.append_left _
    refine daemonSound sound ⟨origin, length, handlers, fun answer there => ?_, ?_⟩ (.same moved.symm)
    · rcases there with same | member
      · cases same
        exact ⟨envelope, fresh, rfl, .inr rfl⟩
      · exact answers answer member
    · exact moved.nodup_iff.mp sound.frames.once
  · have same : waiting rest { p.connection with
        read := p.connection.read ++ [envelope]
        handlers := p.connection.handlers ++ [⟨p.connection.read.length, envelope, .running⟩] } p.down =
          waiting p.up p.connection p.down := by
      simp only [waiting, first, selecting, RequestAnswers.Loop.numbers, List.nil_append, List.length_cons,
        List.range'_succ, List.length_append, List.length_nil, List.map_append, List.map_cons, List.map_nil,
        List.append_assoc, List.singleton_append]
    refine daemonSound sound ⟨origin, length, fun handler member => ?_, fun answer there => ?_, ?_⟩
      (.same (same ▸ .refl _))
    · rcases List.mem_append.mp member with earlier | last
      · exact handlers handler earlier
      · cases List.mem_singleton.mp last
        exact ⟨fresh, fun _ returned => (by cases returned)⟩
    · rcases there with writing | member
      · cases selecting.symm.trans writing
      · exact answers answer member
    · rw [same]
      exact sound.frames.once

theorem goneWaiting {index : Nat} {handler : RequestAnswers.Handler Id Request Response}
    (found : connection.handlers[index]? = some handler) :
    (waiting up connection down).Perm (handler.number :: waiting up
      { connection with handlers := connection.handlers.eraseIdx index } down) := by
  have numbers := RequestAnswers.numbersErased found
  exact ((((numbers.append_right _).append_left _).trans List.perm_middle).append_left _).trans List.perm_middle

theorem daemonStep {event : RequestAnswers.Event Hello Id Request Response} (sound : Sound Handles p)
    (may : May Handles p (.daemon event)) (inner : inside event = true)
    (steps : RequestAnswers.step p.connection event = some connection') :
    Sound Handles { p with connection := connection' } := by
  have frames := sound.frames
  cases event with
  | frame _ | written _ => cases inner
  | leave =>
    simp only [RequestAnswers.step] at steps
    split at steps
    · rename_i selecting
      cases Option.some.inj steps
      have same : waiting p.up { p.connection with loop := .left } p.down = waiting p.up p.connection p.down := by
        simp only [waiting, selecting, RequestAnswers.Loop.numbers]
      refine daemonSound sound ⟨frames.origin, frames.length, frames.handlers, fun answer there => ?_, ?_⟩
        (.same (same ▸ .refl _))
      · exact frames.answers answer (there.imp_left (by intros; contradiction))
      · exact same ▸ frames.once
    · cases steps
  | ends index response =>
    simp only [RequestAnswers.step] at steps
    split at steps
    · rename_i number envelope found
      cases Option.some.inj steps
      have numbers : (p.connection.handlers.set index ⟨number, envelope, .ofJoin response⟩).map (·.number) =
          p.connection.handlers.map (·.number) := mapSet found rfl
      have same : waiting p.up { p.connection with
          handlers := p.connection.handlers.set index ⟨number, envelope, .ofJoin response⟩ } p.down =
            waiting p.up p.connection p.down := by
        simp only [waiting, numbers]
      refine daemonSound sound ⟨frames.origin, frames.length, fun handler member => ?_, frames.answers, ?_⟩
        (.same (same ▸ .refl _))
      · rcases List.mem_or_eq_of_mem_set member with earlier | rfl
        · exact frames.handlers handler earlier
        · refine ⟨(frames.handlers _ (List.mem_of_getElem? found)).1, fun returned there => ?_⟩
          cases response with
          | none => cases there
          | some response =>
            cases there
            exact may ⟨number, envelope, .running⟩ found
      · exact same ▸ frames.once
    · cases steps
  | joined index =>
    simp only [RequestAnswers.step] at steps
    split at steps
    case h_2 => cases steps
    rename_i handler found
    have moved : (waiting p.up p.connection p.down).Perm (handler.number :: waiting p.up
        { p.connection with handlers := p.connection.handlers.eraseIdx index } p.down) := goneWaiting found
    have handlers : ∀ handler' ∈ p.connection.handlers.eraseIdx index, _ :=
      fun handler' member => frames.handlers handler' (List.mem_of_mem_eraseIdx member)
    simp only [RequestAnswers.Connection.onJoined] at steps
    split at steps
    · rename_i response selecting returned
      cases Option.some.inj steps
      have whole : (waiting p.up p.connection p.down).Perm (waiting p.up { p.connection with
          handlers := p.connection.handlers.eraseIdx index
          loop := .writing ⟨handler.number, handler.envelope.requestId, response⟩ } p.down) := by
        refine moved.trans ?_
        simp only [waiting, selecting, RequestAnswers.Loop.numbers, List.nil_append, List.singleton_append]
        exact List.perm_middle.symm
      have own := frames.handlers handler (List.mem_of_getElem? found)
      refine daemonSound sound ⟨frames.origin, frames.length, handlers, fun answer there => ?_, ?_⟩ (.same whole.symm)
      · rcases there with same | member
        · cases same
          exact ⟨handler.envelope, own.1, rfl, .inl (own.2 response returned)⟩
        · exact frames.answers answer (.inr member)
      · exact whole.nodup_iff.mp frames.once
    · cases steps
    · cases steps
    all_goals
      cases Option.some.inj steps
      exact daemonSound sound ⟨frames.origin, frames.length, handlers, frames.answers,
        (List.nodup_cons.mp (moved.nodup_iff.mp frames.once)).2⟩ (.gone moved)

theorem answeredSound {answer : RequestAnswers.Answer Id Response} {success arrived : Bool} (sound : Sound Handles p)
    (writing : p.connection.loop = .writing answer) (whole : success = true → arrived = true) :
    Sound Handles { p with
      connection := p.connection.onWritten answer success
      down := if arrived then p.down ++ [answer] else p.down } := by
  have frames := sound.frames
  have read : (p.connection.onWritten answer success).read = p.connection.read := by
    cases success <;> rfl
  have handled : (p.connection.onWritten answer success).handlers = p.connection.handlers := by
    cases success <;> rfl
  have numbers : (p.connection.onWritten answer success).loop.numbers = [] := by
    cases success <;> rfl
  have away : ∀ other, (p.connection.onWritten answer success).loop ≠ .writing other := by
    intro other same
    cases success <;> cases same
  have parts : waiting p.up p.connection p.down = p.down.map (·.number) ++
      (answer.number :: (p.connection.handlers.map (·.number) ++
        List.range' p.connection.read.length p.up.length)) := by
    simp only [waiting, writing, RequestAnswers.Loop.numbers, List.singleton_append]
  have own := frames.answers answer (.inl writing)
  cases arrived with
  | true =>
    have same : waiting p.up (p.connection.onWritten answer success) (p.down ++ [answer]) =
        waiting p.up p.connection p.down := by
      rw [parts]
      simp only [waiting, numbers, handled, read, List.map_append, List.map_cons, List.map_nil, List.nil_append,
        List.append_assoc, List.singleton_append]
    refine daemonSound sound ⟨?_, ?_, ?_, fun other there => ?_, same ▸ frames.once⟩ ⟨?_, ?_, ?_⟩
    · exact read ▸ frames.origin
    · exact read ▸ frames.length
    · exact read ▸ handled ▸ frames.handlers
    · rw [read]
      rcases there with same | member
      · exact absurd same (away other)
      · rcases List.mem_append.mp member with earlier | last
        · exact frames.answers other (.inr earlier)
        · cases List.mem_singleton.mp last
          exact own
    · exact fun n member => same ▸ member
    · exact fun n member => .inl (same ▸ member)
    · intro n member
      cases success
      · exact List.mem_cons_of_mem _ member
      · exact member
  | false =>
    cases success with
    | true => cases whole rfl
    | false =>
      have moved : (waiting p.up p.connection p.down).Perm (answer.number ::
          waiting p.up (p.connection.onWritten answer false) p.down) := by
        rw [parts]
        simp only [waiting, numbers, handled, read, List.nil_append]
        exact List.perm_middle
      exact daemonSound sound ⟨frames.origin, frames.length, frames.handlers,
        fun other there => frames.answers other (there.imp_left (by intros; contradiction)),
        (List.nodup_cons.mp (moved.nodup_iff.mp frames.once)).2⟩ (.gone moved)

end Daemon

section Client
variable {Handles : Request → Except MaestroError Response → Prop} {p : Path Id Request Response}
  {c c' : RequestMatching.Client Id Response}

/-- What the client's steps beside the frames of requests and responses leave as it is. -/
structure Beside (c c' : RequestMatching.Client Id Response) : Prop where
  requests : c'.requests = c.requests
  unsent : ∃ gone, (c.sending ++ c.queue).Perm (gone ++ (c'.sending ++ c'.queue))
  loop : c'.driver.leaves = false → c.driver.leaves = false ∧ c'.pending = c.pending
  writing : c.driver = .writing → c'.driver = .writing ∧ c'.pending = c.pending
  resolutions : ∀ r ∈ c'.resolutions, r ∈ c.resolutions ∨ r.frame = none

theorem failed {r : RequestMatching.Resolution Response} {resolutions : List (RequestMatching.Resolution Response)}
    {completion : Nat} {result : Except RequestMatching.IpcError Response}
    (member : r ∈ (⟨completion, none, result⟩ :: resolutions : List (RequestMatching.Resolution Response))) :
    r ∈ resolutions ∨ r.frame = none := by
  rcases List.mem_cons.mp member with rfl | earlier
  · exact .inr rfl
  · exact .inl earlier

theorem besideSound (sound : Sound Handles p) (beside : Beside p.client c') (matched : RequestMatching.Matched c') :
    Sound Handles { p with client := c' } where
  matched := matched
  whole := sound.whole
  sized := sound.sized.trans (congrArg List.length beside.requests.symm)
  written call envelope there := by
    obtain ⟨driver, pending, request⟩ := sound.written call envelope there
    obtain ⟨driver', same⟩ := beside.writing driver
    exact ⟨driver', same ▸ pending, request⟩
  sentOnce := by
    obtain ⟨gone, moved⟩ := beside.unsent
    have all := ((moved.map (·.completion)).append_right ((p.writing.map (·.1)).toList ++ p.sent)).nodup_iff.mp
      sound.sentOnce
    rw [List.map_append, List.append_assoc] at all
    exact (List.nodup_append.mp all).2.1
  called call member := beside.requests ▸ sound.called call member
  frames := beside.requests ▸ sound.frames
  linked stays := by
    obtain ⟨before, same⟩ := beside.loop stays
    have linked := sound.linked before
    rw [← same] at linked
    exact linked
  told := ⟨fun r member framed => (beside.resolutions r member).elim
    (fun earlier => sound.told.answered r earlier framed) (fun none' => absurd none' framed)⟩

theorem Sound.idle (sound : Sound Handles p) (selecting : p.client.driver ≠ .writing) : p.writing = none := by
  cases writing : p.writing with
  | none => rfl
  | some outgoing => exact absurd (sound.written outgoing.1 outgoing.2 writing).1 selecting

theorem Sound.bounded (sound : Sound Handles p) {call : Nat} (member : call ∈ unsent p.client p.writing p.sent) :
    call < p.client.requests.length := by
  have own := fun request member => (List.getElem?_eq_some_iff.mp (sound.matched.placed.own request member)).1
  rcases List.mem_append.mp member with waits | later
  · obtain ⟨request, inside, rfl⟩ := List.mem_map.mp waits
    exact own request (List.mem_append_left _ inside)
  · rcases List.mem_append.mp later with writing | sent
    · obtain ⟨⟨call', envelope⟩, there, rfl⟩ := Option.map_eq_some_iff.mp (Option.mem_toList.mp writing)
      exact own ⟨envelope.requestId, call'⟩ (List.mem_append_right _ (sound.written call' envelope there).2.1)
    · exact sound.called call sent

theorem passSound {arrived : Bool} (sound : Sound Handles p) (matched : RequestMatching.Matched c')
    (same : c'.requests = p.client.requests ∧ c'.sending = p.client.sending ∧ c'.queue = p.client.queue ∧
      c'.pending = p.client.pending ∧ c'.resolutions = p.client.resolutions)
    (stays : c'.driver.leaves = false → p.client.driver.leaves = false ∧ (p.writing = none ∨ arrived = true)) :
    Sound Handles { p.passOn arrived with client := c' } := by
  obtain ⟨requests, sending, queue, pending, resolutions⟩ := same
  have gone : (∀ call envelope, (none : Option (Nat × RequestEnvelope Id Request)) = some (call, envelope) →
      c'.driver = .writing ∧ ⟨envelope.requestId, call⟩ ∈ c'.pending ∧ p.calls[call]? = some envelope.request) := by
    intros
    contradiction
  have sized : p.calls.length = c'.requests.length := requests ▸ sound.sized
  have told : Told Handles p.calls c'.resolutions := resolutions ▸ sound.told
  have unsent' : ∀ (writing : Option (Nat × RequestEnvelope Id Request)) sent,
      unsent c' writing sent = unsent p.client writing sent := by
    intro writing sent
    simp only [unsent, sending, queue]
  have fewer : (unsent c' (none : Option (Nat × RequestEnvelope Id Request)) p.sent).Nodup := by
    rw [unsent']
    refine sound.sentOnce.sublist ((List.Sublist.refl _).append ?_)
    exact (List.nil_sublist _).append (.refl _)
  cases writing : p.writing with
  | none =>
    have same : p.passOn arrived = { p with writing := none } := by
      simp only [Path.passOn, writing]
    rw [same]
    refine ⟨matched, sound.whole, sized, gone, fewer, requests ▸ sound.called, requests ▸ sound.frames,
      fun inside' => ?_, told⟩
    have linked := sound.linked (stays inside').1
    rw [writing, ← pending] at linked
    exact linked
  | some outgoing =>
    obtain ⟨call, envelope⟩ := outgoing
    obtain ⟨_, waits, body⟩ := sound.written call envelope writing
    have own := sound.matched.placed.own _ (List.mem_append_right (p.client.sending ++ p.client.queue) waits)
    cases arrived with
    | false =>
      have same : p.passOn false = { p with writing := none } := by
        simp only [Path.passOn, writing]
      rw [same]
      refine ⟨matched, sound.whole, sized, gone, fewer, requests ▸ sound.called, requests ▸ sound.frames,
        fun inside' => ?_, told⟩
      rcases (stays inside').2 with none' | arrived
      · cases writing.symm.trans none'
      · cases arrived
    | true =>
      have same : p.passOn true = { p with
          writing := none, sent := p.sent ++ [call], up := p.up ++ [envelope] } := by
        simp only [Path.passOn, writing]
      rw [same]
      have frames := sound.frames
      have length := frames.length
      have range : waiting (p.up ++ [envelope]) p.connection p.down =
          waiting p.up p.connection p.down ++ [p.sent.length] := by
        simp only [waiting, List.length_append, List.length_cons, List.length_nil, List.range'_1_concat, length,
          List.append_assoc]
      have last : (p.sent ++ [call])[p.sent.length]? = some call := List.getElem?_concat_length
      refine ⟨matched, sound.whole, sized, gone, ?_, fun other member => ?_, ⟨fun n other there => ?_, ?_,
        frames.handlers, frames.answers, ?_⟩, fun inside' => ?_, told⟩
      · rw [unsent']
        have before := sound.sentOnce
        rw [writing] at before
        refine (List.Perm.nodup_iff ?_).mp before
        exact (List.perm_append_singleton _ _).symm.append_left _
      · rw [requests]
        rcases List.mem_append.mp member with earlier | new
        · exact sound.called other earlier
        · cases List.mem_singleton.mp new
          exact (List.getElem?_eq_some_iff.mp own).1
      · rw [requests]
        rw [← List.append_assoc] at there
        rcases Nat.lt_or_ge n (p.connection.read ++ p.up).length with less | beyond
        · rw [List.getElem?_append_left less] at there
          have more := (frames.origin n other there).more [] [] [call]
          rwa [List.append_nil, List.append_nil] at more
        · have bound := (List.getElem?_eq_some_iff.mp there).1
          simp only [List.length_append, List.length_cons, List.length_nil] at bound beyond
          have here : n = (p.connection.read ++ p.up).length := by
            rw [List.length_append]
            omega
          rw [here, List.getElem?_concat_length] at there
          cases there
          refine ⟨call, ?_, own, body⟩
          rw [here, List.length_append, length]
          exact last
      · simp only [List.length_append, List.length_cons, List.length_nil]
        omega
      · rw [range]
        refine List.nodup_append.mpr ⟨frames.once, List.nodup_singleton _, fun n member other new => ?_⟩
        cases List.mem_singleton.mp new
        exact Nat.ne_of_lt (frames.within member)
      · have linked := sound.linked (stays inside').1
        rw [range, pending]
        refine ⟨fun n member => ?_, fun request member => ?_⟩
        · rcases List.mem_append.mp member with earlier | new
          · obtain ⟨request, inside', there⟩ := linked.waits n earlier
            exact ⟨request, inside', still there _⟩
          · cases List.mem_singleton.mp new
            exact ⟨_, waits, last⟩
        · right
          rcases linked.somewhere request member with ⟨other, written⟩ | ⟨n, there, place⟩
          · cases writing.symm.trans written
            exact ⟨_, last, .inl (List.mem_append_right _ List.mem_cons_self)⟩
          · exact ⟨n, still there _, place.imp_left (List.mem_append_left _)⟩

variable [DecidableEq Id]

theorem besideFollows {event : RequestMatching.Event Id Response} (beside : aside event = true)
    (steps : RequestMatching.step c event = some c') : Beside c c' := by
  cases event with
  | request _ | receive | written _ | dropped => cases beside
  | send index =>
    simp only [RequestMatching.step] at steps
    split at steps
    · cases steps
    · rename_i request found
      have moved := erased found
      split at steps
      · cases steps
        exact ⟨rfl, ⟨[request], moved.append_right _⟩, fun stays => ⟨stays, rfl⟩, fun writing => ⟨writing, rfl⟩,
          fun r member => failed member⟩
      · split at steps
        · cases steps
          refine ⟨rfl, ⟨[], ?_⟩, fun stays => ⟨stays, rfl⟩, fun writing => ⟨writing, rfl⟩, fun r => .inl⟩
          rw [List.nil_append, ← List.append_assoc]
          exact (moved.append_right _).trans (List.perm_append_singleton _ _).symm
        · cases steps
  | clientsDropped =>
    simp only [RequestMatching.step] at steps
    split at steps
    · rename_i selecting _ _
      cases steps
      exact ⟨rfl, ⟨[], .refl _⟩, (by intros; contradiction),
        fun writing => (by cases selecting.symm.trans writing), fun r => .inl⟩
    · cases steps
  | drain index =>
    simp only [RequestMatching.step] at steps
    split at steps
    · rename_i error request draining found
      cases steps
      refine ⟨rfl, ⟨[], .refl _⟩, fun stays => ?_, fun writing => (by cases draining.symm.trans writing),
        fun r member => failed member⟩
      exact absurd (show c.driver.leaves = false from stays) (by rw [draining]; intro same; cases same)
    · rename_i error draining _
      split at steps <;> cases steps
      exact ⟨rfl, ⟨[], .refl _⟩, (by intros; contradiction),
        fun writing => (by cases draining.symm.trans writing), fun r => .inl⟩
    · cases steps
  | fail index =>
    simp only [RequestMatching.step] at steps
    split at steps
    · rename_i request leaving found
      cases steps
      refine ⟨rfl, ⟨[], .refl _⟩, fun stays => ?_, fun writing => (by cases leaving.symm.trans writing),
        fun r member => failed member⟩
      exact absurd (show c.driver.leaves = false from stays) (by rw [leaving]; intro same; cases same)
    · rename_i leaving _
      split at steps <;> cases steps
      exact ⟨rfl, ⟨[], .refl _⟩, (by intros; contradiction),
        fun writing => (by cases leaving.symm.trans writing), fun r => .inl⟩
    · cases steps
  | close =>
    simp only [RequestMatching.step] at steps
    split at steps
    · rename_i request rest closing queue
      cases steps
      refine ⟨rfl, ⟨[request], ?_⟩, fun stays => ?_, fun writing => (by cases closing.symm.trans writing),
        fun r member => failed member⟩
      · rw [queue]
        exact List.perm_middle
      · exact absurd (show c.driver.leaves = false from stays) (by rw [closing]; intro same; cases same)
    · rename_i closing _
      cases steps
      exact ⟨rfl, ⟨[], .refl _⟩, (by intros; contradiction),
        fun writing => (by cases closing.symm.trans writing), fun r => .inl⟩
    · cases steps
  | frame frame =>
    simp only [RequestMatching.step] at steps
    split at steps
    case h_2 => cases steps
    rename_i selecting
    cases steps
    have apart : c.driver = .writing → False := fun writing => by cases selecting.symm.trans writing
    cases frame with
    | response requestId response => cases beside
    | event => exact ⟨rfl, ⟨[], .refl _⟩, fun stays => ⟨stays, rfl⟩, fun writing => (apart writing).elim, fun r => .inl⟩
    | fatal error =>
      exact ⟨rfl, ⟨[], .refl _⟩, (by intros; contradiction),
        fun writing => (apart writing).elim, fun r => .inl⟩
    | unexpected =>
      exact ⟨rfl, ⟨[], .refl _⟩, (by intros; contradiction),
        fun writing => (apart writing).elim, fun r => .inl⟩

theorem callSound {requestId : Id} (sound : Sound Handles p) (request : Request)
    (distinct : RequestMatching.Distinct p.client (.request requestId : RequestMatching.Event Id Response))
    (steps : RequestMatching.step p.client (.request requestId) = some c') :
    Sound Handles { p with client := c', calls := p.calls ++ [request] } := by
  have matched := RequestMatching.stepMatched sound.matched distinct steps
  cases Option.some.inj steps
  refine ⟨matched, sound.whole, ?_, fun call envelope there => ?_, ?_, fun call member => ?_, ?_, sound.linked, ?_⟩
  · simp only [List.length_append, sound.sized, List.length_cons, List.length_nil]
  · obtain ⟨driver, pending, body⟩ := sound.written call envelope there
    exact ⟨driver, pending, still body _⟩
  · have moved : (unsent { p.client with
          requests := p.client.requests ++ [requestId]
          sending := p.client.sending ++ [⟨requestId, p.client.requests.length⟩] } p.writing p.sent).Perm
        (p.client.requests.length :: unsent p.client p.writing p.sent) := by
      simp only [unsent, List.map_append, List.map_cons, List.append_assoc, List.singleton_append]
      exact List.perm_middle
    refine moved.nodup_iff.mpr (List.nodup_cons.mpr ⟨fun member => ?_, sound.sentOnce⟩)
    exact absurd (sound.bounded member) (Nat.lt_irrefl _)
  · simp only [List.length_append]
    exact Nat.lt_add_right _ (sound.called call member)
  · have frames := sound.frames
    refine ⟨fun n envelope there => ?_, frames.length, frames.handlers, frames.answers, frames.once⟩
    have more := (frames.origin n envelope there).more [requestId] [request] []
    rwa [List.append_nil] at more
  · refine ⟨fun r member framed => ?_⟩
    obtain ⟨request', response, there, same⟩ := sound.told.answered r member framed
    exact ⟨request', response, still there _, same⟩

theorem receiveSound (sound : Sound Handles p)
    (steps : RequestMatching.step p.client .receive = some c') :
    Sound Handles { p with client := c', writing := p.outgoing } := by
  have matched := RequestMatching.stepMatched sound.matched (by trivial) steps
  simp only [RequestMatching.step] at steps
  split at steps
  case h_2 => cases steps
  rename_i request rest selecting queue
  rw [RequestMatching.insertApart sound.matched queue] at steps
  cases Option.some.inj steps
  have idle := sound.idle (by rw [selecting]; intro same; cases same)
  have own := sound.matched.placed.own request
    (List.mem_append_left _ (List.mem_append_right _ (queue ▸ List.mem_cons_self)))
  obtain ⟨body, there⟩ : ∃ body, p.calls[request.completion]? = some body := by
    refine ⟨_, List.getElem?_eq_getElem ?_⟩
    rw [sound.sized]
    exact (List.getElem?_eq_some_iff.mp own).1
  have outgoing : p.outgoing = some (request.completion, ⟨request.requestId, body⟩) := by
    simp only [Path.outgoing, queue, List.head?_cons, there, bind, Option.bind]
  rw [outgoing]
  refine ⟨matched, sound.whole, sound.sized, fun call envelope same => ?_, ?_, sound.called, sound.frames,
    fun _ => ?_, sound.told⟩
  · cases same
    exact ⟨rfl, List.mem_cons_self, there⟩
  · have moved : (unsent p.client p.writing p.sent).Perm ((p.client.sending ++ rest).map (·.completion) ++
        ([request.completion] ++ p.sent)) := by
      simp only [unsent, idle, queue, List.map_append, List.map_cons, Option.map_none, Option.toList_none,
        List.nil_append, List.append_assoc, List.cons_append]
      exact (List.perm_middle.symm).append_left _
    exact moved.nodup_iff.mp sound.sentOnce
  · have linked := sound.linked (by rw [selecting]; rfl)
    refine ⟨fun n member => ?_, fun other member => ?_⟩
    · obtain ⟨other, pending, same⟩ := linked.waits n member
      exact ⟨other, List.mem_cons_of_mem _ pending, same⟩
    · rcases List.mem_cons.mp member with rfl | earlier
      · exact .inl ⟨_, rfl⟩
      · rcases linked.somewhere other earlier with ⟨envelope, writing⟩ | away
        · cases idle.symm.trans writing
        · exact .inr away

theorem responseSound {answer : RequestAnswers.Answer Id Response} {rest : List (RequestAnswers.Answer Id Response)}
    (sound : Sound Handles p) (first : p.down = answer :: rest)
    (steps : RequestMatching.step p.client
      (.frame (.response answer.envelope.requestId answer.envelope.response)) = some c') :
    Sound Handles { p with client := c', down := rest } := by
  have matched := RequestMatching.stepMatched sound.matched (by trivial) steps
  simp only [RequestMatching.step] at steps
  split at steps
  case h_2 => cases steps
  rename_i selecting
  cases Option.some.inj steps
  have inside' : p.client.driver.leaves = false := by
    rw [selecting]
    rfl
  have idle := sound.idle (by rw [selecting]; intro same; cases same)
  have frames := sound.frames
  have linked := sound.linked inside'
  have shape : waiting p.up p.connection p.down = answer.number :: waiting p.up p.connection rest := by
    simp only [waiting, first, List.map_cons, List.cons_append]
  rw [shape, idle] at linked
  have once := frames.once
  rw [shape] at once
  -- the frame behind the answer is the one of a pending call with the answer's identifier
  obtain ⟨request, waits, there⟩ := linked.waits answer.number List.mem_cons_self
  obtain ⟨envelope, read, identifier, handled⟩ := frames.answers answer (.inr (first ▸ List.mem_cons_self))
  obtain ⟨call, there', requestId, body⟩ := frames.origin answer.number envelope (still read _)
  cases there.symm.trans there'
  have own := sound.matched.placed.own request (List.mem_append_right _ waits)
  have mine : request.requestId = answer.envelope.requestId :=
    (Option.some.inj (own.symm.trans requestId)).trans identifier
  have frames' : Frames Handles p.client.requests p.calls p.sent p.up p.connection rest :=
    ⟨frames.origin, frames.length, frames.handlers,
      fun other member => frames.answers other (member.imp_right fun member => first ▸ List.mem_cons_of_mem _ member),
      (List.nodup_cons.mp once).2⟩
  simp only [RequestMatching.readFrame] at matched ⊢
  cases found : RequestMatching.removeRequest answer.envelope.requestId p.client.pending with
  | none => exact absurd (List.mem_map.mpr ⟨request, waits, mine⟩) (RequestMatching.removeNone found)
  | some outcome =>
    obtain ⟨request', others⟩ := outcome
    rw [found] at matched
    obtain ⟨same, moved⟩ := RequestMatching.removeFound found
    have distinct := sound.matched.placed.distinct
    rw [RequestMatching.Client.outstanding, List.map_append] at distinct
    have one : request' = request := List.inj_on_of_nodup_map (List.nodup_append.mp distinct).2.1
      (moved.mem_iff.mpr List.mem_cons_self) waits (same.trans mine.symm)
    subst one
    have completions := sound.matched.placed.everyone.nodup_iff.mpr List.nodup_range
    rw [RequestMatching.Client.outstanding, List.map_append] at completions
    have pendingOnce := (List.nodup_append.mp (List.nodup_append.mp completions).1).2.1
    have apart : ∀ other ∈ others, other.completion ≠ request'.completion := by
      intro other member equal
      have listed := (moved.map (·.completion)).nodup_iff.mp pendingOnce
      rw [List.map_cons] at listed
      exact (List.nodup_cons.mp listed).1 (equal ▸ List.mem_map_of_mem member)
    have sentOnce : p.sent.Nodup := by
      have all := (List.nodup_append.mp sound.sentOnce).2.1
      exact (List.nodup_append.mp all).2.1
    refine ⟨matched, sound.whole, sound.sized, fun call envelope writing => ?_, sound.sentOnce, sound.called, frames',
      fun _ => ⟨fun n member => ?_, fun other member => ?_⟩, ⟨fun r member framed => ?_⟩⟩
    · cases idle.symm.trans writing
    · obtain ⟨other, inside', place⟩ := linked.waits n (List.mem_cons_of_mem _ member)
      rcases List.mem_cons.mp (moved.mem_iff.mp inside') with rfl | remains
      · have equal := (List.getElem?_inj (List.getElem?_eq_some_iff.mp place).1 sentOnce).mp (place.trans there.symm)
        subst equal
        exact absurd member (List.nodup_cons.mp once).1
      · exact ⟨other, remains, place⟩
    · rcases linked.somewhere other (moved.mem_iff.mpr (List.mem_cons_of_mem _ member)) with
        ⟨_, writing⟩ | ⟨n, place, away⟩
      · cases writing
      · refine .inr ⟨n, place, away.imp_left fun waits => ?_⟩
        rcases List.mem_cons.mp waits with rfl | remains
        · exact absurd (Option.some.inj (place.symm.trans there)) (apart other member)
        · exact remains
    · rcases List.mem_cons.mp member with rfl | earlier
      · exact ⟨envelope.request, answer.envelope.response, body, rfl, handled⟩
      · exact sound.told.answered r earlier framed

end Client

section Runs
variable {Handles : Request → Except MaestroError Response → Prop} {p p' : Path Id Request Response}

theorem connectedSound : Sound Handles (.connected : Path Id Request Response) where
  matched := RequestMatching.connectedMatched
  whole := ⟨rfl, rfl⟩
  sized := rfl
  written _ _ there := (by cases there)
  sentOnce := List.nodup_nil
  called _ member := (by cases member)
  frames := ⟨fun _ _ there => (by cases there), rfl, fun _ member => (by cases member),
    fun _ there => there.elim (by intros; contradiction) (by intros; contradiction), List.nodup_nil⟩
  linked _ := ⟨fun _ member => (by cases member), fun _ member => (by cases member)⟩
  told := ⟨fun _ member => (by cases member)⟩

variable [DecidableEq Id]

theorem stepSound {event : Event Hello Id Request Response} (sound : Sound Handles p) (may : May Handles p event)
    (steps : step p event = some p') : Sound Handles p' := by
  cases event with
  | call requestId request =>
    simp only [step] at steps
    obtain ⟨c', stepped, rfl⟩ := Option.map_eq_some_iff.mp steps
    exact callSound sound request may stepped
  | client event =>
    simp only [step] at steps
    split at steps
    · rename_i beside
      obtain ⟨c', stepped, rfl⟩ := Option.map_eq_some_iff.mp steps
      refine besideSound sound (besideFollows beside stepped) (RequestMatching.stepMatched sound.matched ?_ stepped)
      cases event <;> first | exact trivial | cases beside
    · cases steps
  | receive =>
    simp only [step] at steps
    obtain ⟨c', stepped, rfl⟩ := Option.map_eq_some_iff.mp steps
    exact receiveSound sound stepped
  | requestWritten success arrived =>
    simp only [step] at steps
    split at steps
    · cases steps
    · rename_i whole
      obtain ⟨c', stepped, rfl⟩ := Option.map_eq_some_iff.mp steps
      have matched := RequestMatching.stepMatched sound.matched (by trivial) stepped
      simp only [RequestMatching.step] at stepped
      split at stepped
      · rename_i writing
        cases Option.some.inj stepped
        refine passSound sound matched ⟨rfl, rfl, rfl, rfl, rfl⟩ fun stays => ⟨by rw [writing]; rfl, .inr ?_⟩
        cases success with
        | false => cases stays
        | true => simpa using whole
      · cases stepped
  | dropped arrived =>
    simp only [step] at steps
    obtain ⟨c', stepped, rfl⟩ := Option.map_eq_some_iff.mp steps
    have matched := RequestMatching.stepMatched sound.matched (by trivial) stepped
    simp only [RequestMatching.step] at stepped
    split at stepped <;> cases stepped
      <;> exact passSound sound matched ⟨rfl, rfl, rfl, rfl, rfl⟩ (by intros; contradiction)
  | requestRead =>
    simp only [step] at steps
    split at steps
    · cases steps
    · rename_i envelope rest first
      obtain ⟨connection', stepped, rfl⟩ := Option.map_eq_some_iff.mp steps
      exact readSound sound first stepped
  | daemon event =>
    simp only [step] at steps
    split at steps
    · rename_i inner
      obtain ⟨connection', stepped, rfl⟩ := Option.map_eq_some_iff.mp steps
      exact daemonStep sound may inner stepped
    · cases steps
  | responseWritten success arrived =>
    simp only [step] at steps
    split at steps
    · rename_i answer writing
      split at steps
      · cases steps
      · rename_i whole
        cases Option.some.inj steps
        exact answeredSound sound writing fun success => by simpa [success] using whole
    · cases steps
  | responseRead =>
    simp only [step] at steps
    split at steps
    · cases steps
    · rename_i answer rest first
      obtain ⟨c', stepped, rfl⟩ := Option.map_eq_some_iff.mp steps
      exact responseSound sound first stepped
  | tearUp | tearDown => exact may.elim
  | noiseUp frame | noiseDown frame =>
    simp only [step, sound.whole.1, sound.whole.2] at steps
    cases steps

theorem reachedSound (reached : Reached Hello Handles p) : Sound Handles p :=
  reachInvariant reached connectedSound fun sound may steps => stepSound sound may steps

/-- The daemon reads each request of a client at most once and as it was called, and what a call
is told is an answer to its own request: one its handler may return, or that there are too many. A
call that is pending while the driver runs is being written, on its way to the daemon, with its
handler or on its way back; or the daemon has left it without an answer. -/
theorem callsAnswered (reached : Reached Hello Handles p) :
    (∃ reads : List Nat, reads.Nodup ∧ reads.length = p.connection.read.length ∧
      ∀ (n : Nat) (envelope : RequestEnvelope Id Request), p.connection.read[n]? = some envelope →
        ∃ call, reads[n]? = some call ∧ p.client.requests[call]? = some envelope.requestId ∧
          p.calls[call]? = some envelope.request) ∧
    (p.client.resolutions.map (·.completion)).Nodup ∧
    (∀ r ∈ p.client.resolutions, (∃ request response, p.calls[r.completion]? = some request ∧
        r.result = response.mapError .fatal ∧
        (Handles request response ∨ response = .error Serving.tooManyInFlight)) ∨
      r.frame = none ∧ ∃ error, r.result = .error error) ∧
    (p.client.driver.leaves = false → ∀ request ∈ p.client.pending,
      (∃ envelope, p.writing = some (request.completion, envelope)) ∨
      ∃ n, p.sent[n]? = some request.completion ∧
        (n ∈ waiting p.up p.connection p.down ∨ n ∈ p.connection.unanswered)) := by
  have sound := reachedSound reached
  have sentOnce := (List.nodup_append.mp (List.nodup_append.mp sound.sentOnce).2.1).2.1
  have within : p.connection.read.length ≤ p.sent.length := by
    have length := sound.frames.length
    omega
  refine ⟨⟨p.sent.take p.connection.read.length, sentOnce.sublist (List.take_sublist _ _), ?_, ?_⟩,
    ?_, fun r member => ?_, fun stays => (sound.linked stays).somewhere⟩
  · rw [List.length_take, Nat.min_eq_left within]
  · intro n envelope read
    obtain ⟨call, there, requestId, request⟩ := sound.frames.origin n envelope (still read _)
    refine ⟨call, ?_, requestId, request⟩
    rw [List.getElem?_take_of_lt (List.getElem?_eq_some_iff.mp read).1, there]
  · exact (List.nodup_append.mp (sound.matched.placed.everyone.nodup_iff.mpr List.nodup_range)).2.1
  · cases from' : r.frame with
    | none => exact .inr ⟨rfl, sound.matched.told.failed r member from'⟩
    | some n => exact .inl (sound.told.answered r member (by rw [from']; intro same; cases same))

end Runs

abbrev Doubled (request : Nat) (response : Except MaestroError Nat) : Prop := response.toOption = some (2 * request)

def crossing : List (Event Unit Nat Nat Nat) :=
  [.call 7 10, .call 8 20, .client (.send 0), .client (.send 0), .receive, .requestWritten true true, .receive,
    .requestWritten true true, .requestRead, .requestRead, .daemon (.ends 1 (some (.ok 40))), .daemon (.joined 1),
    .responseWritten true true, .responseRead, .daemon (.ends 0 (some (.ok 20))), .daemon (.joined 0),
    .responseWritten true true, .responseRead]

theorem crossingRun :
    (run (fun p (event : Event Unit Nat Nat Nat) => step p event) (May Doubled) .connected crossing).map
    (fun p => p.client.resolutions.map fun r => (r.completion, r.result.toOption)) =
      some [(0, some 20), (1, some 40)] := by
  decide +kernel

theorem callsAnsweredTwo : ∃ p : Path Nat Nat Nat,
    p.client.resolutions.map (fun r => (r.completion, r.result.toOption)) = [(0, some 20), (1, some 40)] ∧
      (p.client.resolutions.map (·.completion)).Nodup := by
  obtain ⟨p, ran, seen⟩ := Option.map_eq_some_iff.mp crossingRun
  have reached : Reached Unit Doubled p := reachRun .start ran
  exact ⟨p, seen, (callsAnswered reached).2.1⟩

end Maestro.RequestPath
