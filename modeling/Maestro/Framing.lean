import Mathlib.Algebra.Group.Nat.Defs
import Mathlib.Data.List.Infix
import Mathlib.Data.List.Flatten
import Maestro.Domain

/-! Frames on the connection of a client and the daemon. Both ends read them in a
`select!` loop whose other branches can win at any time, and the future of `read_frame`,
with the bytes it has taken from the stream, is dropped whenever one of them does. -/
namespace Maestro.Framing

def maxFrameBytes : Nat := 16 * 1024 * 1024

def maxInFlightRequestsPerConnection : Nat := 64

inductive CodecError where
  | frameTooLarge (actual maximum : Nat)
  | encode (text : String)
  | decode (text : String)
  deriving DecidableEq, Repr

def CodecError.text : CodecError → String
  | .frameTooLarge actual maximum => s!"frame length {actual} exceeds maximum {maximum}"
  | .encode text => "messagepack encoding failed: " ++ text
  | .decode text => "messagepack decoding failed: " ++ text

inductive IoKind where | unexpectedEof | connectionReset
  deriving DecidableEq, Repr

inductive IpcError where
  | io (kind : IoKind)
  | codec (text : String)
  | truncatedPrefix (actual : Nat)
  | fatal (error : MaestroError)
  | disconnected

def toBeBytes (n : Nat) : Bytes :=
  [.ofNat (n / 2 ^ 24), .ofNat (n / 2 ^ 16), .ofNat (n / 2 ^ 8), .ofNat n]

def fromBeBytes (bytes : Bytes) : Nat := bytes.foldl (fun n byte => n * 256 + byte.toNat) 0

theorem fromToBeBytes {n : Nat} (fits : n < 2 ^ 32) : fromBeBytes (toBeBytes n) = n := by
  simp only [fromBeBytes, toBeBytes, List.foldl, UInt8.toNat_ofNat']
  omega

structure Codec (Frame : Type) where
  toVecNamed : Frame → Except String Bytes
  fromRead : Bytes → Except String Frame

namespace Codec

variable {Frame : Type} (codec : Codec Frame)

def RoundTrips : Prop :=
  ∀ {frame payload}, codec.toVecNamed frame = .ok payload → codec.fromRead payload = .ok frame

def encodeFrame (frame : Frame) : Except CodecError Bytes :=
  match codec.toVecNamed frame with
  | .error text => .error (.encode text)
  | .ok payload =>
    if payload.length > maxFrameBytes then .error (.frameTooLarge payload.length maxFrameBytes)
    else if payload.length ≥ 2 ^ 32 then .error (.frameTooLarge payload.length maxFrameBytes)
    else .ok (toBeBytes payload.length ++ payload)

def decodePayload (payload : Bytes) : Except CodecError Frame :=
  if payload.length > maxFrameBytes then .error (.frameTooLarge payload.length maxFrameBytes)
  else (codec.fromRead payload).mapError .decode

/-- `write_frame` sends nothing of a frame that it cannot encode. -/
def sends (frame : Frame) : Bytes :=
  match codec.encodeFrame frame with
  | .ok bytes => bytes
  | .error _ => []

def stream (frames : List Frame) : Bytes := frames.flatMap codec.sends

def encodes (frame : Frame) : Bool :=
  match codec.encodeFrame frame with
  | .ok _ => true
  | .error _ => false

def written (frames : List Frame) : List Frame := frames.filter codec.encodes

variable {codec}

theorem encoded {frame bytes} (h : codec.encodeFrame frame = .ok bytes) :
    ∃ payload, codec.toVecNamed frame = .ok payload ∧ payload.length ≤ maxFrameBytes ∧
      bytes = toBeBytes payload.length ++ payload := by
  unfold encodeFrame at h
  cases vec : codec.toVecNamed frame with
  | error => simp [vec] at h
  | ok payload =>
    simp only [vec] at h
    split at h
    · contradiction
    · rename_i within
      split at h
      · contradiction
      · cases h
        exact ⟨payload, rfl, Nat.le_of_not_lt within, rfl⟩

theorem streamWritten (frames : List Frame) :
    codec.stream (codec.written frames) = codec.stream frames := by
  induction frames with
  | nil => rfl
  | cons frame frames ih =>
    simp only [stream, written, List.filter_cons, List.flatMap_cons] at ih ⊢
    cases sent : codec.encodeFrame frame with
    | ok bytes => simp [encodes, sent, ih]
    | error e => simp [encodes, sends, sent, ih]

theorem writtenCons {frames left} {frame : Frame} {before}
    (h : codec.written frames = before ++ frame :: left) :
    ∃ payload, codec.toVecNamed frame = .ok payload ∧ payload.length ≤ maxFrameBytes ∧
      codec.stream (frame :: left) =
        toBeBytes payload.length ++ (payload ++ codec.stream left) := by
  have member : frame ∈ codec.written frames := by simp [h]
  have ok := (List.mem_filter.mp member).2
  cases sent : codec.encodeFrame frame with
  | error e => simp [encodes, sent] at ok
  | ok bytes =>
    obtain ⟨payload, vec, within, rfl⟩ := encoded sent
    exact ⟨payload, vec, within, by simp [stream, sends, sent]⟩

end Codec

section Reading

variable {Frame : Type} (codec : Codec Frame)

/-- Where the future of `read_frame_with_limit` waits, with the bytes it has taken. -/
inductive Reading where
  | prefixBytes (read : Bytes)
  | payload (lengthPrefix read : Bytes)
  deriving DecidableEq, Repr

inductive Progress (Frame : Type) where
  | pending (reading : Reading)
  | ready (result : Except IpcError (Option Frame))

namespace Reading

def fresh : Reading := .prefixBytes []

def bytes : Reading → Bytes
  | .prefixBytes read => read
  | .payload lengthPrefix read => lengthPrefix ++ read

def wanted : Reading → Nat
  | .prefixBytes read => 4 - read.length
  | .payload lengthPrefix read => fromBeBytes lengthPrefix - read.length

end Reading

def payloadRead (payload : Bytes) : Progress Frame :=
  .ready (((codec.decodePayload payload).map some).mapError fun error => .codec error.text)

def prefixRead (maximumBytes : Nat) (lengthPrefix : Bytes) : Progress Frame :=
  let length := fromBeBytes lengthPrefix
  let maximumBytes := min maximumBytes maxFrameBytes
  if length > maximumBytes then
    .ready (.error (.codec s!"frame length {length} exceeds maximum {maximumBytes}"))
  else if length = 0 then payloadRead codec []
  else .pending (.payload lengthPrefix [])

/-- One read of the future returned `chunk`, which is empty at the end of the stream only. -/
def readFrameWithLimit (maximumBytes : Nat) (chunk : Bytes) : Reading → Progress Frame
  | .prefixBytes read =>
    if chunk = [] then
      if read = [] then .ready (.ok none) else .ready (.error (.truncatedPrefix read.length))
    else if (read ++ chunk).length < 4 then .pending (.prefixBytes (read ++ chunk))
    else prefixRead codec maximumBytes (read ++ chunk)
  | .payload lengthPrefix read =>
    if chunk = [] then .ready (.error (.io .unexpectedEof))
    else if (read ++ chunk).length < fromBeBytes lengthPrefix then
      .pending (.payload lengthPrefix (read ++ chunk))
    else payloadRead codec (read ++ chunk)

def readFrame (chunk : Bytes) (reading : Reading) : Progress Frame :=
  readFrameWithLimit codec maxFrameBytes chunk reading

end Reading

section Loop

inductive Stop where | shutdown | fatal | outboundClosed | unexpectedFrame | writeFailed
  deriving DecidableEq, Repr

inductive Ending where
  | eof
  | readFailed (error : IpcError)
  | stopped (stop : Stop)

/-- A `select!` loop that reads frames. `onBranch` is the handler of the other branches,
and undefined where none of them is ready. The truth value says whether the handler's
write succeeds. -/
structure SelectLoop (Frame : Type) where
  State : Type
  Branch : Type
  onFrame : Frame → Bool → State → State × Option Stop
  onBranch : Branch → Bool → State → Option (State × Option Stop)
  onLeave : Ending → State → State

variable {Frame : Type} {L : SelectLoop Frame}

/-- One end of a connection: `unsent` are the bytes of the peer that have not arrived. -/
structure Connection (L : SelectLoop Frame) where
  unsent : Bytes
  arrived : Bytes
  closed : Bool
  reading : Reading
  decoded : List Frame
  state : L.State
  ended : Option Ending

inductive Event (L : SelectLoop Frame) where
  | arrive (count : Nat)
  | close
  | read (count : Nat) (written : Bool)
  | readFails
  | branch (branch : L.Branch) (written : Bool)

namespace Connection

def start (codec : Codec Frame) (frames : List Frame) (state : L.State) : Connection L :=
  ⟨codec.stream frames, [], false, .fresh, [], state, none⟩

def leave (c : Connection L) : Option Ending → Connection L
  | none => c
  | some ending => { c with ended := some ending, state := L.onLeave ending c.state }

def take (c : Connection L) (count : Nat) : Connection L :=
  { c with arrived := c.arrived.drop count }

/-- The future is dropped with the bytes that it has taken. -/
def branch (c : Connection L) (ran : L.State × Option Stop) : Connection L :=
  { c with reading := .fresh, state := ran.1 }.leave (ran.2.map .stopped)

def progress (c : Connection L) (written : Bool) : Progress Frame → Connection L
  | .pending reading => { c with reading }
  | .ready (.ok none) => c.leave (some .eof)
  | .ready (.ok (some frame)) =>
    { c with decoded := c.decoded ++ [frame] }.branch (L.onFrame frame written c.state)
  | .ready (.error error) => c.leave (some (.readFailed error))

/-- A read returns some of what has arrived, and nothing only when no more will. -/
def CanRead (c : Connection L) (count : Nat) : Prop :=
  count ≤ c.arrived.length ∧ count ≤ c.reading.wanted ∧
    (count = 0 → c.arrived = [] ∧ c.closed = true)

instance (c : Connection L) (count : Nat) : Decidable (c.CanRead count) :=
  inferInstanceAs (Decidable (_ ∧ _ ∧ _))

def act (codec : Codec Frame) (c : Connection L) : Event L → Option (Connection L)
  | .arrive count =>
    if c.closed = false then
      some { c with unsent := c.unsent.drop count, arrived := c.arrived ++ c.unsent.take count }
    else none
  | .close => some { c with closed := true }
  | .read count written =>
    if c.CanRead count then
      some ((c.take count).progress written (readFrame codec (c.arrived.take count) c.reading))
    else none
  | .readFails => some (c.leave (some (.readFailed (.io .connectionReset))))
  | .branch branch written => (L.onBranch branch written c.state).map c.branch

def step (codec : Codec Frame) (c : Connection L) (event : Event L) : Option (Connection L) :=
  match c.ended with
  | some _ => none
  | none => c.act codec event

def run (codec : Codec Frame) (c : Connection L) : List (Event L) → Option (Connection L)
  | [] => some c
  | event :: events => (c.step codec event).bind fun next => next.run codec events

end Connection

inductive Reach (codec : Codec Frame) (May : Connection L → Event L → Prop)
    (begin : Connection L) : Connection L → Prop where
  | start : Reach codec May begin begin
  | step {c d : Connection L} (event : Event L) (before : Reach codec May begin c)
      (may : May c event) (steps : c.step codec event = some d) : Reach codec May begin d

end Loop

section Serve

variable {RequestId Request Response ClientHello ServerHello ServerEvent : Type}

structure RequestEnvelope (RequestId Request : Type) where
  requestId : RequestId
  request : Request
  deriving DecidableEq, Repr

structure ResponseEnvelope (RequestId Response : Type) where
  requestId : RequestId
  response : Except MaestroError Response

inductive ClientFrame (ClientHello RequestId Request : Type) where
  | hello (hello : ClientHello)
  | request (envelope : RequestEnvelope RequestId Request)
  deriving DecidableEq, Repr

inductive ServerFrame (ServerHello RequestId Response ServerEvent : Type) where
  | hello (hello : ServerHello)
  | response (envelope : ResponseEnvelope RequestId Response)
  | event (event : ServerEvent)
  | fatal (error : MaestroError)

structure Serving (ServerHello RequestId Request Response ServerEvent : Type) where
  requests : List (RequestEnvelope RequestId Request)
  detached : List (RequestEnvelope RequestId Request)
  written : List (ServerFrame ServerHello RequestId Response ServerEvent)

/-- A request's task that panicked joins without a response. -/
inductive ServeBranch (Response : Type) where
  | shutdownChanged (shuttingDown : Bool)
  | joined (index : Nat) (response : Option (Except MaestroError Response))

namespace Serving

def writeFrame (s : Serving ServerHello RequestId Request Response ServerEvent)
    (frame : ServerFrame ServerHello RequestId Response ServerEvent) (written : Bool)
    (stop : Option Stop) :
    Serving ServerHello RequestId Request Response ServerEvent × Option Stop :=
  if written then ({ s with written := s.written ++ [frame] }, stop)
  else (s, some .writeFailed)

def tooManyInFlight : MaestroError :=
  { MaestroError.new .invalidRequest "this client has too many requests in flight" with
    details := some (.object
      [("maximum_in_flight_requests", .number (.posInt maxInFlightRequestsPerConnection))]) }

def onFrame (s : Serving ServerHello RequestId Request Response ServerEvent) (written : Bool) :
    ClientFrame ClientHello RequestId Request →
      Serving ServerHello RequestId Request Response ServerEvent × Option Stop
  | .hello _ =>
    s.writeFrame (.fatal (.new .invalidRequest "system.hello was already completed")) written
      (some .fatal)
  | .request envelope =>
    if s.requests.length ≥ maxInFlightRequestsPerConnection then
      s.writeFrame (.response ⟨envelope.requestId, .error tooManyInFlight⟩) written none
    else ({ s with requests := s.requests ++ [envelope] }, none)

def onBranch (s : Serving ServerHello RequestId Request Response ServerEvent) (written : Bool) :
    ServeBranch Response →
      Option (Serving ServerHello RequestId Request Response ServerEvent × Option Stop)
  | .shutdownChanged shuttingDown => some (s, if shuttingDown then some .shutdown else none)
  | .joined index result => do
    let envelope ← s.requests[index]?
    let rest := { s with requests := s.requests.eraseIdx index }
    match result with
    | some response =>
      some (rest.writeFrame (.response ⟨envelope.requestId, response⟩) written none)
    | none => some (rest, none)

/-- The tasks go on without the connection after its end and after a second hello, and
are aborted otherwise. -/
def onLeave (s : Serving ServerHello RequestId Request Response ServerEvent) :
    Ending → Serving ServerHello RequestId Request Response ServerEvent
  | .eof | .stopped .fatal => { s with requests := [], detached := s.detached ++ s.requests }
  | _ => { s with requests := [] }

end Serving

def serveConnection (ClientHello ServerHello RequestId Request Response ServerEvent : Type) :
    SelectLoop (ClientFrame ClientHello RequestId Request) where
  State := Serving ServerHello RequestId Request Response ServerEvent
  Branch := ServeBranch Response
  onFrame frame written s := s.onFrame written frame
  onBranch branch written s := s.onBranch written branch
  onLeave ending s := s.onLeave ending

/-- `completed` are the completions that were sent, with `disconnected` for those that
were dropped: their waiter reads it so. -/
structure Driving (ClientHello RequestId Request Response ServerEvent : Type) where
  pending : List RequestId
  completed : List (RequestId × Except IpcError Response)
  events : List ServerEvent
  written : List (ClientFrame ClientHello RequestId Request)

inductive DriverBranch (RequestId Request : Type) where
  | outboundRequest (envelope : RequestEnvelope RequestId Request)
  | outboundClosed

namespace Driving

def complete (s : Driving ClientHello RequestId Request Response ServerEvent) (id : RequestId)
    (result : Except IpcError Response) :
    Driving ClientHello RequestId Request Response ServerEvent :=
  { s with completed := s.completed ++ [(id, result)] }

def drain (s : Driving ClientHello RequestId Request Response ServerEvent) (error : IpcError) :
    Driving ClientHello RequestId Request Response ServerEvent :=
  { s with pending := [], completed := s.completed ++ s.pending.map fun id => (id, .error error) }

variable [DecidableEq RequestId]

def onFrame (s : Driving ClientHello RequestId Request Response ServerEvent) :
    ServerFrame ServerHello RequestId Response ServerEvent →
      Driving ClientHello RequestId Request Response ServerEvent × Option Stop
  | .response envelope =>
    if envelope.requestId ∈ s.pending then
      ({ s with pending := s.pending.erase envelope.requestId }.complete envelope.requestId
        (envelope.response.mapError .fatal), none)
    else (s, none)
  | .event event => ({ s with events := s.events ++ [event] }, none)
  | .fatal error => (s.drain (.fatal error), some .fatal)
  | .hello _ => (s, some .unexpectedFrame)

/-- A second request of one id takes the first one's place, whose completion is dropped. -/
def onBranch (s : Driving ClientHello RequestId Request Response ServerEvent) (written : Bool) :
    DriverBranch RequestId Request →
      Driving ClientHello RequestId Request Response ServerEvent × Option Stop
  | .outboundClosed => (s, some .outboundClosed)
  | .outboundRequest envelope =>
    let s :=
      if envelope.requestId ∈ s.pending then s.complete envelope.requestId (.error .disconnected)
      else { s with pending := s.pending ++ [envelope.requestId] }
    if written then ({ s with written := s.written ++ [.request envelope] }, none)
    else (s, some .writeFailed)

end Driving

def runMultiplexedDriver
    (ClientHello ServerHello RequestId Request Response ServerEvent : Type)
    [DecidableEq RequestId] :
    SelectLoop (ServerFrame ServerHello RequestId Response ServerEvent) where
  State := Driving ClientHello RequestId Request Response ServerEvent
  Branch := DriverBranch RequestId Request
  onFrame frame _ s := s.onFrame frame
  onBranch branch written s := some (s.onBranch written branch)
  onLeave _ s := s.drain .disconnected

end Serve

section Whole

variable {Frame : Type} {L : SelectLoop Frame} {codec : Codec Frame} {frames before left : List Frame}

namespace Reading

def Partial : Reading → Prop
  | .prefixBytes read => read.length < 4
  | .payload lengthPrefix read => lengthPrefix.length = 4 ∧ read.length < fromBeBytes lengthPrefix

end Reading

theorem beBytesLength (n : Nat) : (toBeBytes n).length = 4 := rfl

theorem frameAt {got rest : Bytes} (here : codec.written frames = before ++ left)
    (same : codec.stream left = got ++ rest) (four : got.length = 4) :
    ∃ frame left' payload, left = frame :: left' ∧ codec.toVecNamed frame = .ok payload ∧
      payload.length ≤ maxFrameBytes ∧ fromBeBytes got = payload.length ∧
      rest = payload ++ codec.stream left' := by
  cases left with
  | nil =>
    have short : 0 = (got ++ rest).length := congrArg List.length same
    rw [List.length_append] at short
    omega
  | cons frame left' =>
    obtain ⟨payload, vec, within, begins⟩ := Codec.writtenCons here
    obtain ⟨rfl, rfl⟩ := List.append_inj (same.symm.trans begins) four
    refine ⟨frame, left', payload, rfl, vec, within, fromToBeBytes ?_, rfl⟩
    unfold maxFrameBytes at within
    omega

theorem payloadDecoded (faithful : codec.RoundTrips) {frame payload}
    (vec : codec.toVecNamed frame = .ok payload) (within : payload.length ≤ maxFrameBytes) :
    payloadRead codec payload = .ready (.ok (some frame)) := by
  have small : ¬ payload.length > maxFrameBytes := Nat.not_lt.mpr within
  simp [payloadRead, Codec.decodePayload, small, faithful vec, Except.map, Except.mapError]

theorem readFrameSpec (faithful : codec.RoundTrips) {reading : Reading} {chunk rest : Bytes}
    (here : codec.written frames = before ++ left) (waits : reading.Partial) (some' : chunk ≠ [])
    (room : chunk.length ≤ reading.wanted)
    (same : codec.stream left = reading.bytes ++ (chunk ++ rest)) :
    (∃ next, readFrame codec chunk reading = .pending next ∧ next.Partial ∧
      next.bytes = reading.bytes ++ chunk) ∨
    ∃ frame left', left = frame :: left' ∧
      readFrame codec chunk reading = .ready (.ok (some frame)) ∧ codec.stream left' = rest := by
  cases reading with
  | prefixBytes read =>
    simp only [Reading.Partial, Reading.wanted, Reading.bytes] at waits room same
    simp only [readFrame, readFrameWithLimit, if_neg some']
    by_cases short : (read ++ chunk).length < 4
    · exact .inl ⟨_, if_pos short, short, rfl⟩
    · have four : (read ++ chunk).length = 4 := by
        rw [List.length_append] at short ⊢
        omega
      rw [← List.append_assoc] at same
      obtain ⟨frame, left', payload, rfl, vec, within, length, rfl⟩ := frameAt here same four
      have fits : ¬ payload.length > min maxFrameBytes maxFrameBytes := by simpa using within
      simp only [if_neg short, prefixRead, length, if_neg fits]
      by_cases empty : payload.length = 0
      · obtain rfl := List.eq_nil_of_length_eq_zero empty
        exact .inr ⟨frame, left', rfl, by simp [payloadDecoded faithful vec within], rfl⟩
      · refine .inl ⟨_, if_neg empty, ⟨four, ?_⟩, by simp [Reading.bytes]⟩
        rw [length]
        exact Nat.pos_of_ne_zero empty
  | payload lengthPrefix read =>
    obtain ⟨four, fewer⟩ := waits
    simp only [Reading.wanted, Reading.bytes, List.append_assoc] at room same
    simp only [readFrame, readFrameWithLimit, if_neg some']
    by_cases short : (read ++ chunk).length < fromBeBytes lengthPrefix
    · exact .inl ⟨_, if_pos short, ⟨four, short⟩, by simp [Reading.bytes]⟩
    · obtain ⟨frame, left', payload, rfl, vec, within, length, behind⟩ := frameAt here same four
      have full : (read ++ chunk).length = payload.length := by
        rw [List.length_append] at short ⊢
        omega
      rw [← List.append_assoc] at behind
      obtain ⟨rfl, rfl⟩ := List.append_inj behind full
      exact .inr ⟨frame, left', rfl, by rw [if_neg short, payloadDecoded faithful vec within], rfl⟩

theorem readFrameEnd {reading : Reading} {missing : Bytes}
    (here : codec.written frames = before ++ left) (waits : reading.Partial)
    (same : codec.stream left = reading.bytes ++ missing) :
    (reading = .fresh ∧ readFrame codec [] reading = .ready (.ok none)) ∨
    ∃ error, readFrame codec [] reading = .ready (.error error) ∧ missing ≠ [] := by
  cases reading with
  | prefixBytes read =>
    cases read with
    | nil => exact .inl ⟨rfl, rfl⟩
    | cons byte read =>
      refine .inr ⟨_, rfl, ?_⟩
      rintro rfl
      cases left with
      | nil => simp [Codec.stream, Reading.bytes] at same
      | cons frame left' =>
        obtain ⟨payload, -, -, begins⟩ := Codec.writtenCons here
        have lengths := congrArg List.length (same.symm.trans begins)
        have few : (byte :: read).length < 4 := waits
        simp only [Reading.bytes, List.append_nil, List.length_append, beBytesLength] at lengths
        omega
  | payload lengthPrefix read =>
    obtain ⟨four, fewer⟩ := waits
    refine .inr ⟨_, rfl, ?_⟩
    rintro rfl
    simp only [Reading.bytes, List.append_nil] at same
    obtain ⟨_, left', payload, rfl, -, -, length, rfl⟩ := frameAt here same four
    rw [length, List.length_append] at fewer
    omega

theorem runReaches {May : Connection L → Event L → Prop} {begin c d : Connection L}
    {events : List (Event L)} (before : Reach codec May begin c)
    (may : ∀ event ∈ events, ∀ c, May c event) (ran : c.run codec events = some d) :
    Reach codec May begin d := by
  induction events generalizing c with
  | nil =>
    cases ran
    exact before
  | cons event events ih =>
    obtain ⟨next, steps, ran⟩ := Option.bind_eq_some_iff.mp ran
    have reached := Reach.step event before (may event List.mem_cons_self c) steps
    exact ih reached (fun event member => may event (List.mem_cons_of_mem _ member)) ran

structure Whole (codec : Codec Frame) (frames : List Frame) (c : Connection L) : Prop where
  inOrder : c.decoded <+: codec.written frames
  complete : c.ended = some .eof → c.unsent = [] → c.decoded = codec.written frames
  kept : c.ended = none → codec.stream frames =
    codec.stream c.decoded ++ (c.reading.bytes ++ (c.arrived ++ c.unsent))
  clean : ∀ error, c.ended = some (.readFailed error) →
    error = .io .connectionReset ∨ c.unsent ≠ []

structure Follows (codec : Codec Frame) (frames : List Frame) (c : Connection L)
    (left : List Frame) : Prop where
  split : codec.written frames = c.decoded ++ left
  rest : codec.stream left = c.reading.bytes ++ (c.arrived ++ c.unsent)
  waits : c.reading.Partial

theorem Follows.whole {c : Connection L} (h : Follows codec frames c left)
    (runs : c.ended = none) : Whole codec frames c where
  inOrder := ⟨left, h.split.symm⟩
  complete := by simp [runs]
  kept _ := by
    rw [← h.rest, ← Codec.streamWritten, h.split]
    exact List.flatMap_append
  clean := by simp [runs]

def Sound (codec : Codec Frame) (frames : List Frame) (c : Connection L) : Prop :=
  Whole codec frames c ∧ (c.ended = none → ∃ left, Follows codec frames c left)

theorem Follows.sound {c : Connection L} (h : Follows codec frames c left)
    (runs : c.ended = none) : Sound codec frames c := ⟨h.whole runs, fun _ => ⟨left, h⟩⟩

theorem startSound (state : L.State) :
    Sound codec frames (Connection.start codec frames state) :=
  Follows.sound ⟨rfl, Codec.streamWritten frames, Nat.zero_lt_succ 3⟩ rfl

theorem branchSound {c : Connection L} (split : codec.written frames = c.decoded ++ left)
    (runs : c.ended = none) (ran : L.State × Option Stop)
    (goesOn : ran.2 = none → codec.stream left = c.arrived ++ c.unsent) :
    Sound codec frames (c.branch ran) := by
  obtain ⟨state, stop⟩ := ran
  cases stop with
  | none =>
    have follows : Follows codec frames (c.branch (state, none)) left :=
      ⟨split, goesOn rfl, Nat.zero_lt_succ 3⟩
    exact follows.sound runs
  | some stop =>
    refine ⟨⟨⟨left, split.symm⟩, ?_, ?_, ?_⟩, ?_⟩ <;> simp [Connection.branch, Connection.leave]

theorem leaveSound {c : Connection L} {ending : Ending} (h : Follows codec frames c left)
    (complete : ending = .eof → c.unsent = [] → left = [])
    (clean : ∀ error, ending = .readFailed error →
      error = .io .connectionReset ∨ c.unsent ≠ []) :
    Sound codec frames (c.leave (some ending)) := by
  refine ⟨⟨⟨left, h.split.symm⟩, ?_, ?_, ?_⟩, ?_⟩
  · intro eof sent
    have none' := complete (Option.some.inj eof) sent
    have split := h.split
    rw [none', List.append_nil] at split
    exact split.symm
  · intro runs
    cases runs
  · intro error failed
    exact clean error (Option.some.inj failed)
  · intro runs
    cases runs

theorem streamEmpty (here : codec.written frames = before ++ left)
    (empty : codec.stream left = []) : left = [] := by
  cases left with
  | nil => rfl
  | cons frame left' =>
    obtain ⟨payload, -, -, begins⟩ := Codec.writtenCons here
    rw [empty] at begins
    cases begins

/-- The future of the read is dropped with no bytes in it, or the loop is left. -/
def Connection.Spares (c : Connection L) : Event L → Prop
  | .branch branch written =>
    c.reading = .fresh ∨
      ∃ state stop, L.onBranch branch written c.state = some (state, some stop)
  | _ => True

theorem readSound (faithful : codec.RoundTrips) {c : Connection L} {count : Nat} {written : Bool}
    (h : Follows codec frames c left) (runs : c.ended = none) (can : c.CanRead count) :
    Sound codec frames ((c.take count).progress written
      (readFrame codec (c.arrived.take count) c.reading)) := by
  obtain ⟨arrived, room, atEnd⟩ := can
  cases count with
  | zero =>
    obtain ⟨nothing, -⟩ := atEnd rfl
    have same : codec.stream left = c.reading.bytes ++ c.unsent := by
      have rest := h.rest
      rwa [nothing] at rest
    have kept : Follows codec frames (c.take 0) left := ⟨h.split, h.rest, h.waits⟩
    rw [List.take_zero]
    rcases readFrameEnd h.split h.waits same with ⟨fresh, result⟩ | ⟨error, result, missing⟩
    · rw [result]
      refine leaveSound kept (fun _ sent => streamEmpty h.split ?_) (by simp)
      have sent : c.unsent = [] := sent
      rw [same, fresh, sent]
      rfl
    · rw [result]
      exact leaveSound kept (by simp) fun _ _ => .inr missing
  | succ count =>
    have taken : (c.arrived.take (count + 1)).length = count + 1 := by
      rw [List.length_take]
      omega
    have same : codec.stream left = c.reading.bytes ++
        (c.arrived.take (count + 1) ++ (c.arrived.drop (count + 1) ++ c.unsent)) := by
      rw [h.rest, ← List.append_assoc (c.arrived.take _), List.take_append_drop]
    rcases readFrameSpec faithful h.split h.waits (List.ne_nil_of_length_eq_add_one taken)
      (taken.symm ▸ room) same with ⟨next, result, waits, bytes⟩ | ⟨frame, left', rfl, result, rest⟩
    · rw [result]
      have follows : Follows codec frames
          ((c.take (count + 1)).progress written (.pending next)) left := by
        refine ⟨h.split, ?_, waits⟩
        change codec.stream left = next.bytes ++ (c.arrived.drop (count + 1) ++ c.unsent)
        rw [bytes, same, List.append_assoc]
      exact follows.sound runs
    · rw [result]
      have split : codec.written frames = (c.decoded ++ [frame]) ++ left' := by simp [h.split]
      let d : Connection L := { c.take (count + 1) with decoded := c.decoded ++ [frame] }
      have running : d.ended = none := runs
      have decoded : Sound codec frames (d.branch (L.onFrame frame written c.state)) :=
        branchSound split running _ fun _ => rest
      exact decoded

theorem stepRuns {c d : Connection L} {event : Event L} (steps : c.step codec event = some d) :
    c.ended = none ∧ c.act codec event = some d := by
  unfold Connection.step at steps
  split at steps
  · contradiction
  · rename_i runs
    exact ⟨runs, steps⟩

theorem stepSound (faithful : codec.RoundTrips) {c d : Connection L} {event : Event L}
    (sound : Sound codec frames c) (spares : c.Spares event)
    (steps : c.step codec event = some d) : Sound codec frames d := by
  obtain ⟨runs, acts⟩ := stepRuns steps
  obtain ⟨left, follows⟩ := sound.2 runs
  cases event with
  | arrive count =>
    simp only [Connection.act, Option.ite_none_right_eq_some, Option.some.injEq] at acts
    obtain ⟨-, rfl⟩ := acts
    have moved : Follows codec frames
        { c with unsent := c.unsent.drop count, arrived := c.arrived ++ c.unsent.take count }
        left := ⟨follows.split, by simp [follows.rest], follows.waits⟩
    exact moved.sound runs
  | close =>
    cases acts
    have shut : Follows codec frames { c with closed := true } left :=
      ⟨follows.split, follows.rest, follows.waits⟩
    exact shut.sound runs
  | read count written =>
    simp only [Connection.act, Option.ite_none_right_eq_some, Option.some.injEq] at acts
    obtain ⟨can, rfl⟩ := acts
    exact readSound faithful follows runs can
  | readFails =>
    cases acts
    exact leaveSound follows (by simp) fun _ same => by cases same; exact .inl rfl
  | branch branch written =>
    simp only [Connection.act, Option.map_eq_some_iff] at acts
    obtain ⟨ran, wins, rfl⟩ := acts
    refine branchSound follows.split runs ran fun goesOn => ?_
    rcases spares with fresh | ⟨state, stop, stops⟩
    · rw [follows.rest, fresh]
      rfl
    · rw [wins] at stops
      cases stops
      cases goesOn

theorem reachSound (faithful : codec.RoundTrips) {state : L.State} {c : Connection L}
    (reached : Reach codec Connection.Spares (.start codec frames state) c) :
    Sound codec frames c := by
  induction reached with
  | start => exact startSound state
  | step event before spares steps ih => exact stepSound faithful ih spares steps

theorem unsparedLoses {c d : Connection L} {event : Event L} (sound : Sound codec frames c)
    (steps : c.step codec event = some d) (taken : ¬ c.Spares event) : ¬ Whole codec frames d := by
  intro whole
  obtain ⟨runs, acts⟩ := stepRuns steps
  obtain ⟨left, follows⟩ := sound.2 runs
  cases event with
  | branch branch written =>
    obtain ⟨partly, stays⟩ := not_or.mp taken
    simp only [Connection.act, Option.map_eq_some_iff] at acts
    obtain ⟨⟨state, stop⟩, wins, rfl⟩ := acts
    cases stop with
    | some stop => exact stays ⟨state, stop, wins⟩
    | none =>
      have after := whole.kept runs
      rw [sound.1.kept runs] at after
      have nothing : c.reading.bytes = [] :=
        List.append_left_eq_self.mp (List.append_cancel_left after)
      have waits := follows.waits
      cases reading : c.reading with
      | prefixBytes read =>
        rw [reading] at nothing
        obtain rfl : read = [] := nothing
        exact partly reading
      | payload lengthPrefix read =>
        rw [reading] at nothing waits
        rw [(List.append_eq_nil_iff.mp nothing).1] at waits
        cases waits.1
  | arrive => exact taken trivial
  | close => exact taken trivial
  | read => exact taken trivial
  | readFails => exact taken trivial

/-- Every state of a run whose steps spare the reads is whole, and the next one is whole
exactly if its step does. -/
def KeepsFrames (L : SelectLoop Frame) (codec : Codec Frame) : Prop :=
  ∀ frames state c, Reach codec Connection.Spares (.start codec frames state) c →
    Whole (L := L) codec frames c ∧
    ∀ event d, c.step codec event = some d → (Whole codec frames d ↔ c.Spares event)

theorem keepsFrames (faithful : codec.RoundTrips) : KeepsFrames L codec := by
  intro frames state c reached
  have sound := reachSound faithful reached
  refine ⟨sound.1, fun event d steps => ⟨fun whole => ?_, fun spares => ?_⟩⟩
  · by_contra taken
    exact unsparedLoses sound steps taken whole
  · exact (stepSound faithful sound spares steps).1

end Whole

section Main

variable {RequestId Request Response ClientHello ServerHello ServerEvent : Type}
  [DecidableEq RequestId]

theorem framesKept {requests : Codec (ClientFrame ClientHello RequestId Request)}
    {responses : Codec (ServerFrame ServerHello RequestId Response ServerEvent)}
    (read : requests.RoundTrips) (answered : responses.RoundTrips) :
    KeepsFrames (serveConnection ClientHello ServerHello RequestId Request Response ServerEvent)
      requests ∧
    KeepsFrames (runMultiplexedDriver ClientHello ServerHello RequestId Request Response ServerEvent)
      responses :=
  ⟨keepsFrames read, keepsFrames answered⟩

end Main

section Pings

structure Uuid where
  bytes : Bytes
  sized : bytes.length = 16
  deriving DecidableEq, Repr

def enveloped (head tail : Bytes) (id : Uuid) : Bytes := head ++ (id.bytes ++ tail)

def envelopedId (head tail payload : Bytes) : Option Uuid :=
  let bytes := (payload.drop head.length).take 16
  if sized : bytes.length = 16 then
    if payload = enveloped head tail ⟨bytes, sized⟩ then some ⟨bytes, sized⟩ else none
  else none

theorem envelopedIdOf (head tail : Bytes) (id : Uuid) :
    envelopedId head tail (enveloped head tail id) = some id := by
  have bytes : ((enveloped head tail id).drop head.length).take 16 = id.bytes := by
    rw [enveloped, List.drop_left, ← id.sized, List.take_left]
  simp [envelopedId, bytes, id.sized]

-- `{"type": "request", "payload": {"request_id": id, "request": {"method": "ping"}}}`
def pingHead : Bytes :=
  [0x82, 0xa4, 0x74, 0x79, 0x70, 0x65, 0xa7, 0x72, 0x65, 0x71, 0x75, 0x65, 0x73, 0x74, 0xa7, 0x70,
    0x61, 0x79, 0x6c, 0x6f, 0x61, 0x64, 0x82, 0xaa, 0x72, 0x65, 0x71, 0x75, 0x65, 0x73, 0x74, 0x5f,
    0x69, 0x64, 0xc4, 0x10]

def pingTail : Bytes :=
  [0xa7, 0x72, 0x65, 0x71, 0x75, 0x65, 0x73, 0x74, 0x81, 0xa6, 0x6d, 0x65, 0x74, 0x68, 0x6f, 0x64,
    0xa4, 0x70, 0x69, 0x6e, 0x67]

-- `{"type": "response", "payload": {"request_id": id, "response": {"Ok": {"result": "pong"}}}}`
def pongHead : Bytes :=
  [0x82, 0xa4, 0x74, 0x79, 0x70, 0x65, 0xa8, 0x72, 0x65, 0x73, 0x70, 0x6f, 0x6e, 0x73, 0x65, 0xa7,
    0x70, 0x61, 0x79, 0x6c, 0x6f, 0x61, 0x64, 0x82, 0xaa, 0x72, 0x65, 0x71, 0x75, 0x65, 0x73, 0x74,
    0x5f, 0x69, 0x64, 0xc4, 0x10]

def pongTail : Bytes :=
  [0xa8, 0x72, 0x65, 0x73, 0x70, 0x6f, 0x6e, 0x73, 0x65, 0x81, 0xa2, 0x4f, 0x6b, 0x81, 0xa6, 0x72,
    0x65, 0x73, 0x75, 0x6c, 0x74, 0xa4, 0x70, 0x6f, 0x6e, 0x67]

def ping (id : Uuid) : ClientFrame Empty Uuid Unit := .request ⟨id, ()⟩

def pong (id : Uuid) : ServerFrame Empty Uuid Unit Empty := .response ⟨id, .ok ()⟩

def pings : Codec (ClientFrame Empty Uuid Unit) where
  toVecNamed
    | .request envelope => .ok (enveloped pingHead pingTail envelope.requestId)
  fromRead payload :=
    match envelopedId pingHead pingTail payload with
    | some id => .ok (ping id)
    | none => .error "not a ping"

def pongs : Codec (ServerFrame Empty Uuid Unit Empty) where
  toVecNamed
    | .response ⟨id, .ok ()⟩ => .ok (enveloped pongHead pongTail id)
    | _ => .error "not a pong"
  fromRead payload :=
    match envelopedId pongHead pongTail payload with
    | some id => .ok (pong id)
    | none => .error "not a pong"

theorem pingsRoundTrip : pings.RoundTrips := by
  rintro ⟨⟨⟩ | ⟨id, ⟨⟩⟩⟩ payload ⟨⟩
  simp [pings, envelopedIdOf, ping]

theorem pongsRoundTrip : pongs.RoundTrips := by
  intro frame payload vec
  simp only [pongs] at vec
  split at vec
  · cases vec
    simp [pongs, envelopedIdOf, pong]
  · contradiction

abbrev Daemon := serveConnection Empty Empty Uuid Unit Unit Empty

def first : Uuid := ⟨List.replicate 16 1, rfl⟩

def second : Uuid := ⟨List.replicate 16 2, rfl⟩

def idle : Daemon.State := ⟨[], [], []⟩

def sawUnexpectedEof : Option Ending → Bool
  | some (.readFailed (.io .unexpectedEof)) => true
  | _ => false

/-- The first request completes while two bytes of the second one's length are read. -/
def halfRead : List (Event Daemon) :=
  [.arrive 77, .read 4 true, .read 73 true, .arrive 2, .read 2 true,
    .branch (.joined 0 (some (.ok ()))) true, .arrive 75, .close, .read 4 true, .read 71 true,
    .read 0 true]

def halfReadView (c : Connection Daemon) : Bool :=
  c.closed && c.unsent == [] && c.state.requests == [] && c.decoded == [ping first] &&
    sawUnexpectedEof c.ended

theorem halfReadRun : ∃ c, (Connection.start pings [ping first, ping second] idle).run pings
    halfRead = some c ∧ halfReadView c = true := by
  have seen : (((Connection.start pings [ping first, ping second] idle).run pings halfRead).map
      halfReadView) = some true := by decide +kernel
  exact Option.map_eq_some_iff.mp seen

theorem frameCutShort : ∃ c : Connection Daemon,
    Reach pings (fun _ _ => True) (.start pings [ping first, ping second] idle) c ∧
      c.closed = true ∧ c.unsent = [] ∧ c.state.requests = [] ∧ c.decoded = [ping first] ∧
      pings.written [ping first, ping second] = [ping first, ping second] ∧
      ¬ Whole pings [ping first, ping second] c := by
  obtain ⟨c, ran, seen⟩ := halfReadRun
  simp only [halfReadView, Bool.and_eq_true, beq_iff_eq] at seen
  obtain ⟨⟨⟨⟨closed, sent⟩, idle⟩, decoded⟩, failed⟩ := seen
  refine ⟨c, runReaches .start (fun _ _ _ => trivial) ran, closed, sent, idle, decoded,
    by decide +kernel, fun whole => ?_⟩
  cases ended : c.ended with
  | none => simp [ended, sawUnexpectedEof] at failed
  | some ending =>
    cases ending with
    | readFailed error =>
      rcases whole.clean error ended with rfl | missing
      · simp [ended, sawUnexpectedEof] at failed
      · exact missing sent
    | eof => simp [ended, sawUnexpectedEof] at failed
    | stopped stop => simp [ended, sawUnexpectedEof] at failed

/-- The first frame comes in pieces, and its task is joined before the second one is read. -/
def inPieces : List (Event Daemon) :=
  [.arrive 2, .read 2 true, .arrive 50, .read 2 true, .read 48 true, .arrive 25, .read 25 true]

def joinedFirst : Event Daemon := .branch (.joined 0 (some (.ok ()))) true

def secondWhole : List (Event Daemon) := [.arrive 77, .read 4 true, .read 73 true, .close, .read 0 true]

def betweenView (c : Connection Daemon) : Bool :=
  c.decoded == [ping first, ping second] && c.unsent == [] && c.state.requests == [] && c.closed

theorem betweenRun : ∃ c d e, (Connection.start pings [ping first, ping second] idle).run pings inPieces = some c ∧
    c.reading = .fresh ∧ c.step pings joinedFirst = some d ∧ d.run pings secondWhole = some e ∧
    betweenView e = true := by
  have seen : ((((Connection.start pings [ping first, ping second] idle).run pings inPieces).filter
      fun c => c.reading = .fresh).bind fun c => (c.step pings joinedFirst).bind fun d =>
        d.run pings secondWhole).map betweenView = some true := by decide +kernel
  obtain ⟨e, ran, view⟩ := Option.map_eq_some_iff.mp seen
  obtain ⟨c, kept, ran⟩ := Option.bind_eq_some_iff.mp ran
  obtain ⟨d, joined, ran⟩ := Option.bind_eq_some_iff.mp ran
  obtain ⟨ran', fresh⟩ := Option.filter_eq_some_iff.mp kept
  exact ⟨c, d, e, ran', of_decide_eq_true fresh, joined, ran, view⟩

theorem framesKeptPing : ∃ c : Connection Daemon, c.decoded = [ping first, ping second] ∧ c.unsent = [] ∧
    c.state.requests = [] ∧ Whole pings [ping first, ping second] c := by
  obtain ⟨c, d, e, pieces, fresh, joined, rest, seen⟩ := betweenRun
  simp only [betweenView, Bool.and_eq_true, beq_iff_eq] at seen
  have before : Reach pings Connection.Spares (.start pings [ping first, ping second] idle) c := by
    refine runReaches .start (fun event member c => ?_) pieces
    simp only [inPieces, List.mem_cons, List.not_mem_nil, or_false] at member
    rcases member with rfl | rfl | rfl | rfl | rfl | rfl | rfl <;> trivial
  have between : Reach pings Connection.Spares (.start pings [ping first, ping second] idle) d :=
    .step joinedFirst before (.inl fresh) joined
  have reached : Reach pings Connection.Spares (.start pings [ping first, ping second] idle) e := by
    refine runReaches between (fun event member c => ?_) rest
    simp only [secondWhole, List.mem_cons, List.not_mem_nil, or_false] at member
    rcases member with rfl | rfl | rfl | rfl | rfl <;> trivial
  exact ⟨e, seen.1.1.1, seen.1.1.2, seen.1.2, ((framesKept pingsRoundTrip pongsRoundTrip).1 _ _ _ reached).1⟩

end Pings

end Maestro.Framing
