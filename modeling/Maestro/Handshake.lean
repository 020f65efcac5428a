import Maestro.FrameCodec
import Maestro.RequestAnswers
import Maestro.TokenFile

/-! A connection from its first byte on: the hello that authenticates it, and the requests that are
read behind it. -/
namespace Maestro.Handshake
open FrameCodec Framing Stepping
open Redaction (bytes)
open TokenFile (SecretToken)

def protocolVersion : Nat := 9

def maxHelloFrameBytes : Nat := 16 * 1024

structure ClientHello where
  protocolVersion : Nat
  clientName : String
  clientVersion : String
  authenticationToken : String
  deriving DecidableEq, Repr

/-- `SecretToken::matches`, which takes the same time wherever the bytes differ. -/
def matches' (token : SecretToken) (candidate : String) : Bool :=
  if (bytes candidate).length ≠ (bytes token.text).length then false
  else ((bytes token.text).zip (bytes candidate)).foldl (fun difference (expected, actual) =>
    difference ||| (expected ^^^ actual)) (0 : UInt8) == 0

variable {Id Request Response : Type}

def helloFirst : MaestroError := .new .authenticationRequired "system.hello must be the first frame"

def authenticationFailed : MaestroError := .new .authenticationRequired "daemon authentication failed"

def incompatible (clientVersion : Nat) : MaestroError :=
  { MaestroError.new .cliProtocolIncompatible "the client and daemon protocol versions are incompatible" with
    userAction := some "UPDATE_MAESTRO"
    details := some (.object [("client_protocol_version", .number (.posInt clientVersion)),
      ("daemon_protocol_version", .number (.posInt protocolVersion))]) }

/-- What the first frame is answered with: a hello, or a fatal error. -/
def authenticate (token : SecretToken) : Option (ClientFrame ClientHello Id Request) → Except MaestroError Unit
  | some (.hello hello) =>
    if !matches' token hello.authenticationToken then .error authenticationFailed
    else if hello.protocolVersion ≠ protocolVersion then .error (incompatible hello.protocolVersion)
    else .ok ()
  | some (.request _) | none => .error helloFirst

inductive Phase (Id Request Response : Type) where
  | greeting
  | serving (connection : RequestAnswers.Connection Id Request Response)
  | closed

/-- `chunks` are the reads of the stream that are left, and `reading` is where the loop's future of
`read_frame` waits; `torn` when one was dropped with bytes of a frame. `greetings` are the frames
written so far that answer the first frame. -/
structure Session (Id Request Response : Type) where
  chunks : List Bytes
  phase : Phase Id Request Response
  reading : Reading
  torn : Bool
  greetings : List (Except MaestroError Unit)

/-- `late` when the hello did not come within its time; a frame that is `written` arrives whole. -/
inductive Event (Id Request Response : Type) where
  | greet (late written : Bool)
  | read
  | serve (event : RequestAnswers.Event ClientHello Id Request Response)

def Session.accepted (chunks : List Bytes) : Session Id Request Response := ⟨chunks, .greeting, .fresh, false, []⟩

section Steps
variable (codec : Codec (ClientFrame ClientHello Id Request)) (token : SecretToken)

/-- `authenticate_connection`; the caller serves the connection where it succeeds. -/
def Session.greet (s : Session Id Request Response) (late written : Bool) : Option (Session Id Request Response) :=
  if late then some { s with phase := .closed }
  else
    match readOne codec maxHelloFrameBytes s.chunks with
    | none => none
    | some (.error _, rest) => some { s with chunks := rest, phase := .closed }
    | some (.ok first, rest) =>
      let answer := authenticate token first
      let greetings := if written then s.greetings ++ [answer] else s.greetings
      match answer, written with
      | .ok (), true => some { s with chunks := rest, phase := .serving .authenticated, greetings }
      | _, _ => some { s with chunks := rest, phase := .closed, greetings }

def Session.read (s : Session Id Request Response) (connection : RequestAnswers.Connection Id Request Response) :
    Option (Session Id Request Response) :=
  match connection.loop, readFrame codec (takeChunk s.reading.wanted s.chunks).1 s.reading with
  | .selecting, .pending reading => some { s with chunks := (takeChunk s.reading.wanted s.chunks).2, reading }
  | .selecting, .ready (.ok (some frame)) =>
    (RequestAnswers.step connection (.frame frame)).map fun connection =>
      { s with
        chunks := (takeChunk s.reading.wanted s.chunks).2
        phase := .serving connection
        reading := .fresh }
  | .selecting, .ready _ =>
    (RequestAnswers.step connection (.leave : RequestAnswers.Event ClientHello Id Request Response)).map
      fun connection =>
        { s with
          chunks := (takeChunk s.reading.wanted s.chunks).2
          phase := .serving connection
          reading := .fresh }
  | _, _ => none

/-- Another branch of the `select!`, which drops the future with what it has taken. -/
def branches : RequestAnswers.Event ClientHello Id Request Response → Bool
  | .joined _ | .leave => true
  | .frame _ | .ends _ _ | .written _ => false

def Session.served (s : Session Id Request Response) (event : RequestAnswers.Event ClientHello Id Request Response)
    (connection : RequestAnswers.Connection Id Request Response) : Session Id Request Response :=
  if branches event then
    { s with phase := .serving connection, reading := .fresh, torn := s.torn || !s.reading.bytes.isEmpty }
  else { s with phase := .serving connection }

def inner : RequestAnswers.Event ClientHello Id Request Response → Bool
  | .frame _ => false
  | .ends _ _ | .joined _ | .written _ | .leave => true

def step (s : Session Id Request Response) : Event Id Request Response → Option (Session Id Request Response)
  | .greet late written =>
    match s.phase with
    | .greeting => s.greet codec token late written
    | _ => none
  | .read =>
    match s.phase with
    | .serving connection => s.read codec connection
    | _ => none
  | .serve event =>
    match s.phase with
    | .serving connection =>
      if inner event then
        (RequestAnswers.step connection event).map (s.served event)
      else none
    | _ => none

abbrev Reached (chunks : List Bytes) (s : Session Id Request Response) : Prop :=
  Reach (step codec token) Any (.accepted chunks) s

end Steps

theorem differenceFold (pairs : List (UInt8 × UInt8)) (difference : UInt8) :
    pairs.foldl (fun difference (expected, actual) => difference ||| (expected ^^^ actual)) difference = 0 ↔
      difference = 0 ∧ ∀ pair ∈ pairs, pair.1 = pair.2 := by
  induction pairs generalizing difference with
  | nil => simp
  | cons pair pairs ih =>
    rw [List.foldl_cons, ih, List.forall_mem_cons, ← and_assoc]
    refine and_congr_left fun _ => ?_
    rw [UInt8.or_eq_zero_iff, UInt8.xor_eq_zero_iff]

theorem zipSame {left right : Bytes} (length : left.length = right.length)
    (same : ∀ pair ∈ left.zip right, pair.1 = pair.2) : left = right := by
  induction left generalizing right with
  | nil => exact (List.length_eq_zero_iff.mp length.symm).symm
  | cons byte left ih =>
    cases right with
    | nil => cases length
    | cons other right =>
      rw [List.zip_cons_cons, List.forall_mem_cons] at same
      exact congrArg₂ List.cons same.1 (ih (Nat.succ.inj length) same.2)

theorem zipSelf (left : Bytes) : ∀ pair ∈ left.zip left, pair.1 = pair.2 := by
  induction left with
  | nil =>
    intros
    contradiction
  | cons byte left ih => exact List.forall_mem_cons.mpr ⟨rfl, ih⟩

theorem matchesIff (token : SecretToken) (candidate : String) :
    matches' token candidate = true ↔ candidate = token.text := by
  unfold matches'
  constructor
  · intro matched
    split at matched
    · cases matched
    · rename_i length
      have pairs := ((differenceFold _ 0).mp (beq_iff_eq.mp matched)).2
      have same := zipSame (Decidable.not_not.mp length).symm pairs
      have text := congrArg Redaction.ofBytes same
      rw [Redaction.ofBytesText, Redaction.ofBytesText] at text
      exact (Option.some.inj text).symm
  · rintro rfl
    rw [if_neg (fun other => other rfl)]
    exact beq_iff_eq.mpr ((differenceFold _ 0).mpr ⟨rfl, zipSelf _⟩)

section Reads
variable {Frame : Type} {codec : Codec Frame} {maximumBytes fuel : Nat} {chunks rest : List Bytes} {frame : Frame}

/-- The bytes begin with the frame: its length, and a payload within the limit. -/
structure Begins (codec : Codec Frame) (maximumBytes : Nat) (frame : Frame) (stream rest : Bytes) : Prop where
  found : ∃ lengthPrefix payload, stream = lengthPrefix ++ (payload ++ rest) ∧ lengthPrefix.length = 4 ∧
    fromBeBytes lengthPrefix = payload.length ∧ payload.length ≤ maximumBytes ∧ codec.fromRead payload = .ok frame

theorem payloadReady {payload : Bytes} {result : Except IpcError (Option Frame)}
    (ready : payloadRead codec payload = .ready result) (read : result = .ok (some frame)) :
    codec.fromRead payload = .ok frame := by
  subst read
  unfold payloadRead Codec.decodePayload at ready
  split at ready
  · cases ready
  · cases decoded : codec.fromRead payload with
    | error text =>
      rw [decoded] at ready
      cases ready
    | ok other =>
      rw [decoded] at ready
      cases ready
      rfl

def Underway (maximumBytes : Nat) : Reading → Prop
  | .prefixBytes read => read.length < 4
  | .payload lengthPrefix read => lengthPrefix.length = 4 ∧ read.length < fromBeBytes lengthPrefix ∧
    fromBeBytes lengthPrefix ≤ maximumBytes

theorem underwayWanted {reading : Reading} (underway : Underway maximumBytes reading) : 0 < reading.wanted := by
  cases reading with
  | prefixBytes read => exact Nat.sub_pos_of_lt underway
  | payload lengthPrefix read => exact Nat.sub_pos_of_lt underway.2.1

theorem freshUnderway : Underway maximumBytes Reading.fresh := Nat.zero_lt_succ 3

/-- What one read makes of the future: it goes on, or has a frame. -/
structure Reads (codec : Codec Frame) (maximumBytes : Nat) (before : Bytes) (progress : Progress Frame) : Prop where
  pending : ∀ reading, progress = .pending reading → Underway maximumBytes reading ∧ reading.bytes = before
  ready : ∀ frame, progress = .ready (.ok (some frame)) → ∀ rest,
    Begins codec maximumBytes frame (before ++ rest) rest

theorem endedReads {before : Bytes} {result : Except IpcError (Option Frame)} (other : ∀ frame, result ≠ .ok (some frame)) :
    Reads codec maximumBytes before (.ready result) :=
  ⟨fun _ same => (by cases same), fun frame same => absurd (Progress.ready.inj same) (other frame)⟩

theorem payloadReads {lengthPrefix payload : Bytes} (four : lengthPrefix.length = 4)
    (length : fromBeBytes lengthPrefix = payload.length) (within : payload.length ≤ maximumBytes) :
    Reads codec maximumBytes (lengthPrefix ++ payload) (payloadRead codec payload) := by
  refine ⟨fun reading same => (by cases same), fun frame same rest => ?_⟩
  exact ⟨lengthPrefix, payload, List.append_assoc .., four, length, within, payloadReady same rfl⟩

theorem prefixReads {lengthPrefix : Bytes} (four : lengthPrefix.length = 4) :
    Reads codec maximumBytes lengthPrefix (prefixRead codec maximumBytes lengthPrefix) := by
  unfold prefixRead
  dsimp only
  split
  · exact endedReads fun _ same => by cases same
  · rename_i within
    have limit := (Nat.le_of_not_lt within).trans (Nat.min_le_left _ _)
    split
    · rename_i zero
      have reads : Reads codec maximumBytes (lengthPrefix ++ []) (payloadRead codec []) :=
        payloadReads four zero (Nat.zero_le _)
      rwa [List.append_nil] at reads
    · rename_i some'
      refine ⟨fun reading same => ?_, fun frame same => by cases same⟩
      cases same
      exact ⟨⟨four, Nat.pos_of_ne_zero some', limit⟩, List.append_nil _⟩

theorem readReads {reading : Reading} {chunk : Bytes} (underway : Underway maximumBytes reading)
    (bound : chunk.length ≤ reading.wanted) :
    Reads codec maximumBytes (reading.bytes ++ chunk) (readFrameWithLimit codec maximumBytes chunk reading) := by
  cases reading with
  | prefixBytes read =>
    have low : read.length < 4 := underway
    have high : chunk.length ≤ 4 - read.length := bound
    simp only [readFrameWithLimit, Reading.bytes]
    split
    · split <;> exact endedReads fun _ same => by cases same
    · split
      · rename_i short
        refine ⟨fun reading same => ?_, fun frame same => by cases same⟩
        cases same
        exact ⟨short, rfl⟩
      · rename_i whole
        refine prefixReads ?_
        rw [List.length_append] at whole ⊢
        omega
  | payload lengthPrefix read =>
    obtain ⟨four, low, limit⟩ := underway
    have high : chunk.length ≤ fromBeBytes lengthPrefix - read.length := bound
    simp only [readFrameWithLimit, Reading.bytes, List.append_assoc]
    split
    · exact endedReads fun _ same => by cases same
    · split
      · rename_i short
        refine ⟨fun reading same => ?_, fun frame same => by cases same⟩
        cases same
        exact ⟨⟨four, short, limit⟩, rfl⟩
      · rename_i whole
        have length : fromBeBytes lengthPrefix = (read ++ chunk).length := by
          rw [List.length_append] at whole ⊢
          omega
        exact payloadReads four length (length ▸ limit)

theorem readFromInverted {reading : Reading} (pieces : Pieces chunks) (underway : Underway maximumBytes reading)
    (result : readFrom codec maximumBytes fuel chunks reading = some (.ok (some frame), rest)) :
    Pieces rest ∧ Begins codec maximumBytes frame (reading.bytes ++ chunks.flatten) rest.flatten := by
  induction fuel generalizing chunks reading with
  | zero => cases result
  | succ fuel ih =>
    obtain ⟨chunk, left, took, takes⟩ := takes (underwayWanted underway) pieces
    have reads : Reads codec maximumBytes _ _ := readReads underway takes.bound
    rw [readFromStep reading took] at result
    cases progress : readFrameWithLimit codec maximumBytes chunk reading with
    | pending reading' =>
      rw [progress] at result
      obtain ⟨underway', bytes⟩ := reads.pending reading' progress
      have inverted := ih takes.pieces underway' result
      rwa [bytes, List.append_assoc, takes.whole] at inverted
    | ready outcome =>
      rw [progress] at result
      cases Option.some.inj result
      have begins := reads.ready frame progress rest.flatten
      rw [List.append_assoc, takes.whole] at begins
      exact ⟨takes.pieces, begins⟩

theorem readInverted (pieces : Pieces chunks)
    (result : readOne codec maximumBytes chunks = some (.ok (some frame), rest)) :
    Pieces rest ∧ Begins codec maximumBytes frame chunks.flatten rest.flatten :=
  readFromInverted pieces freshUnderway result

end Reads

section Sessions
variable {codec : Codec (ClientFrame ClientHello Id Request)} {token : SecretToken} {first : List Bytes}
  {s s' : Session Id Request Response}

/-- The requests in the order of their frames on the stream. -/
inductive Follows (codec : Codec (ClientFrame ClientHello Id Request)) (stream : Bytes) :
    List (RequestEnvelope Id Request) → Bytes → Prop
  | none : Follows codec stream [] stream
  | next {envelopes middle envelope rest} (before : Follows codec stream envelopes middle)
      (begins : Begins codec maxFrameBytes (.request envelope) middle rest) :
      Follows codec stream (envelopes ++ [envelope]) rest

/-- The stream begins with a hello that carries the token. -/
def Greets (codec : Codec (ClientFrame ClientHello Id Request)) (token : SecretToken) (stream : Bytes)
    (hello : ClientHello) (rest : Bytes) : Prop :=
  Begins codec maxHelloFrameBytes (.hello hello) stream rest ∧ hello.authenticationToken = token.text

theorem authenticateKnown {frame : Option (ClientFrame ClientHello Id Request)} {answer : Except MaestroError Unit}
    (answers : authenticate token frame = answer) (other : answer ≠ .error helloFirst)
    (other' : answer ≠ .error authenticationFailed) : ∃ hello, frame = some (.hello hello) ∧
      hello.authenticationToken = token.text ∧ (answer = .ok () → hello.protocolVersion = protocolVersion) := by
  unfold authenticate at answers
  split at answers
  · rename_i hello
    refine ⟨hello, rfl, ?_⟩
    split at answers
    · exact absurd answers.symm other'
    · rename_i matched
      rw [Bool.not_eq_true, Bool.not_eq_false', matchesIff] at matched
      refine ⟨matched, fun accepted => ?_⟩
      split at answers
      · rw [accepted] at answers
        cases answers
      · rename_i same
        exact Decidable.not_not.mp same
  · exact absurd answers.symm other
  · exact absurd answers.symm other

/-- Until a read is torn, a connection that the loop has not left reads on behind the last request. -/
structure Serves (codec : Codec (ClientFrame ClientHello Id Request)) (token : SecretToken) (stream : Bytes)
    (s : Session Id Request Response) (connection : RequestAnswers.Connection Id Request Response) : Prop where
  course : ∃ hello rest, Greets codec token stream hello rest ∧ hello.protocolVersion = protocolVersion ∧
    (s.torn = false → ∃ left, Follows codec rest connection.read left ∧
      (connection.loop ≠ .left → left = s.reading.bytes ++ s.chunks.flatten))
  pieces : Pieces s.chunks
  underway : Underway maxFrameBytes s.reading
  handled : ∀ handler ∈ connection.handlers, handler.envelope ∈ connection.read

structure Sound (codec : Codec (ClientFrame ClientHello Id Request)) (token : SecretToken) (first : List Bytes)
    (s : Session Id Request Response) : Prop where
  unread : s.phase = .greeting → s.chunks = first ∧ s.reading = .fresh ∧ s.greetings = []
  once : s.greetings.length ≤ 1
  known : ∀ answer ∈ s.greetings, answer ≠ .error helloFirst → answer ≠ .error authenticationFailed →
    ∃ hello rest, Greets codec token first.flatten hello rest
  served : ∀ connection, s.phase = .serving connection →
    s.greetings = [.ok ()] ∧ Serves codec token first.flatten s connection

theorem closedSound (sound : Sound codec token first s) (chunks : List Bytes) :
    Sound codec token first ({ s with chunks, phase := .closed } : Session Id Request Response) where
  unread closed := by cases closed
  once := sound.once
  known := sound.known
  served connection closed := by cases closed

theorem greetSound (pieces : Pieces first) (sound : Sound codec token first s) (greeting : s.phase = .greeting)
    {late written : Bool} (greets : s.greet codec token late written = some s') : Sound codec token first s' := by
  obtain ⟨unread, fresh, none'⟩ := sound.unread greeting
  unfold Session.greet at greets
  split at greets
  · cases greets
    exact closedSound sound s.chunks
  · split at greets
    · cases greets
    · cases greets
      exact closedSound sound _
    · rename_i frame rest read
      rw [unread] at read
      have known : ∀ answer, authenticate token frame = answer → answer ≠ .error helloFirst →
          answer ≠ .error authenticationFailed → ∃ hello, Greets codec token first.flatten hello rest.flatten ∧
            Pieces rest ∧ (answer = .ok () → hello.protocolVersion = protocolVersion) := by
        intro answer answers other other'
        obtain ⟨hello, rfl, token', version⟩ := authenticateKnown answers other other'
        obtain ⟨pieces', begins⟩ := readInverted pieces read
        exact ⟨hello, ⟨begins, token'⟩, pieces', version⟩
      have length : (if written = true then s.greetings ++ [authenticate token frame] else s.greetings).length ≤ 1 := by
        rw [none']
        split
        · exact Nat.le_refl 1
        · exact Nat.zero_le 1
      have each : ∀ answer ∈ (if written = true then s.greetings ++ [authenticate token frame] else s.greetings),
          answer ≠ .error helloFirst → answer ≠ .error authenticationFailed →
            ∃ hello rest, Greets codec token first.flatten hello rest := by
        intro answer member other other'
        rw [none'] at member
        split at member
        · have same := List.mem_singleton.mp member
          obtain ⟨hello, greets, -⟩ := known answer same.symm other other'
          exact ⟨hello, _, greets⟩
        · cases member
      dsimp only at greets
      split at greets
      · rename_i accepted
        cases greets
        refine ⟨fun greeting => (by cases greeting), length, each, fun connection serving => ?_⟩
        cases serving
        obtain ⟨hello, greets, pieces', version⟩ := known _ accepted (by intro same; cases same)
          (by intro same; cases same)
        refine ⟨?_, ⟨hello, _, greets, version rfl, fun _ => ⟨_, .none, fun _ => ?_⟩⟩, pieces',
          show Underway _ s.reading by rw [fresh]; exact freshUnderway, (by intros; contradiction)⟩
        · rw [if_pos rfl, none', accepted]
          rfl
        · change _ = s.reading.bytes ++ _
          rw [fresh]
          rfl
      · cases greets
        exact ⟨fun greeting => (by cases greeting), length, each, fun connection serving => (by cases serving)⟩

theorem servesSound (sound : Sound codec token first s) {connection : RequestAnswers.Connection Id Request Response}
    (serving : s.phase = .serving connection) {connection' : RequestAnswers.Connection Id Request Response}
    (serves' : s'.phase = .serving connection') (same : s'.greetings = s.greetings)
    (serves : Serves codec token first.flatten s' connection') : Sound codec token first s' where
  unread greeting := by rw [serves'] at greeting; cases greeting
  once := same ▸ sound.once
  known := same ▸ sound.known
  served other phase := by
    rw [serves'] at phase
    cases phase
    exact ⟨same ▸ (sound.served connection serving).1, serves⟩

section Connections
variable {c c' : RequestAnswers.Connection Id Request Response} {stream : Bytes}

theorem frameServes {frame : ClientFrame ClientHello Id Request} {chunk : Bytes} {rest : List Bytes}
    (serves : Serves codec token stream s c) (takes : Takes s.reading.wanted s.chunks chunk rest)
    (read : readFrame codec chunk s.reading = .ready (.ok (some frame)))
    (steps : RequestAnswers.step c (.frame frame) = some c') :
    Serves codec token stream { s with chunks := rest, phase := .serving c', reading := .fresh } c' := by
  simp only [RequestAnswers.step] at steps
  split at steps
  · rename_i selecting
    cases Option.some.inj steps
    obtain ⟨hello, behind, greets, version, course⟩ := serves.course
    have begins := (readReads serves.underway takes.bound).ready frame read rest.flatten
    rw [List.append_assoc, takes.whole] at begins
    cases frame with
    | hello again =>
      refine ⟨⟨hello, behind, greets, version, fun whole => ?_⟩, takes.pieces, freshUnderway, serves.handled⟩
      obtain ⟨left, follows, -⟩ := course whole
      exact ⟨left, follows, fun open' => absurd rfl open'⟩
    | request envelope =>
      have next : s.torn = false → ∃ left, Follows codec behind (c.read ++ [envelope]) left ∧
          left = Reading.fresh.bytes ++ rest.flatten := by
        intro whole
        obtain ⟨left, follows, goes⟩ := course whole
        have same := goes (by rw [selecting]; intro same; cases same)
        exact ⟨_, .next follows (same ▸ begins), rfl⟩
      have follows : s.torn = false → ∀ loop : Prop, ∃ left, Follows codec behind (c.read ++ [envelope]) left ∧
          (loop → left = Reading.fresh.bytes ++ rest.flatten) := fun whole loop =>
        (next whole).imp fun left here => ⟨here.1, fun _ => here.2⟩
      simp only [RequestAnswers.Connection.onFrame]
      split
      · exact ⟨⟨hello, behind, greets, version, fun whole => follows whole _⟩, takes.pieces, freshUnderway,
          fun handler member => List.mem_append_left _ (serves.handled handler member)⟩
      · refine ⟨⟨hello, behind, greets, version, fun whole => follows whole _⟩, takes.pieces, freshUnderway,
          fun handler member => ?_⟩
        rcases List.mem_append.mp member with old | new
        · exact List.mem_append_left _ (serves.handled handler old)
        · rw [List.mem_singleton.mp new]
          exact List.mem_append_right _ (List.mem_singleton_self _)
  · cases steps

theorem pendingServes {reading : Reading} {chunk : Bytes} {rest : List Bytes}
    (serves : Serves codec token stream s c) (takes : Takes s.reading.wanted s.chunks chunk rest)
    (read : readFrame codec chunk s.reading = .pending reading) :
    Serves codec token stream { s with chunks := rest, reading } c := by
  obtain ⟨underway, bytes⟩ := (readReads serves.underway takes.bound).pending reading read
  obtain ⟨hello, behind, greets, version, course⟩ := serves.course
  refine ⟨⟨hello, behind, greets, version, fun whole => ?_⟩, takes.pieces, underway, serves.handled⟩
  obtain ⟨left, follows, goes⟩ := course whole
  refine ⟨left, follows, fun open' => ?_⟩
  rw [goes open', bytes, List.append_assoc, takes.whole]

theorem leftServes {chunks : List Bytes} (pieces : Pieces chunks) (serves : Serves codec token stream s c)
    (steps : RequestAnswers.step c (.leave : RequestAnswers.Event ClientHello Id Request Response) = some c') :
    Serves codec token stream { s with chunks, phase := .serving c', reading := .fresh } c' := by
  simp only [RequestAnswers.step] at steps
  split at steps
  · cases Option.some.inj steps
    obtain ⟨hello, behind, greets, version, course⟩ := serves.course
    refine ⟨⟨hello, behind, greets, version, fun whole => ?_⟩, pieces, freshUnderway, serves.handled⟩
    obtain ⟨left, follows, -⟩ := course whole
    exact ⟨left, follows, fun open' => absurd rfl open'⟩
  · cases steps

theorem innerKept {event : RequestAnswers.Event ClientHello Id Request Response} (inside : inner event = true)
    (steps : RequestAnswers.step c event = some c') : c'.read = c.read ∧ (c.loop = .left → c'.loop = .left) ∧
      ∀ handler ∈ c'.handlers, ∃ before ∈ c.handlers, handler.envelope = before.envelope := by
  cases event with
  | frame frame => cases inside
  | ends index response =>
    simp only [RequestAnswers.step] at steps
    split at steps
    · rename_i number envelope found
      cases Option.some.inj steps
      refine ⟨rfl, id, fun handler member => ?_⟩
      rcases List.mem_or_eq_of_mem_set member with old | rfl
      · exact ⟨handler, old, rfl⟩
      · exact ⟨_, List.mem_of_getElem? found, rfl⟩
    · cases steps
  | joined index =>
    simp only [RequestAnswers.step] at steps
    split at steps
    · rename_i handler found
      have rest : ∀ handler ∈ c.handlers.eraseIdx index, ∃ before ∈ c.handlers, handler.envelope = before.envelope :=
        fun handler member => ⟨handler, (List.eraseIdx_sublist _ _).subset member, rfl⟩
      unfold RequestAnswers.Connection.onJoined at steps
      dsimp only at steps
      split at steps
      · rename_i selecting _
        cases Option.some.inj steps
        exact ⟨rfl, fun left => (by cases selecting.symm.trans left), rest⟩
      · cases steps
      · cases steps
      · cases Option.some.inj steps
        exact ⟨rfl, id, rest⟩
      · cases Option.some.inj steps
        exact ⟨rfl, id, rest⟩
    · cases steps
  | written success =>
    simp only [RequestAnswers.step] at steps
    split at steps
    · rename_i answer writing
      cases Option.some.inj steps
      unfold RequestAnswers.Connection.onWritten
      split <;> exact ⟨rfl, fun left => (by cases writing.symm.trans left),
        fun handler member => ⟨handler, member, rfl⟩⟩
    · cases steps
  | leave =>
    simp only [RequestAnswers.step] at steps
    split at steps
    · cases Option.some.inj steps
      exact ⟨rfl, fun _ => rfl, fun handler member => ⟨handler, member, rfl⟩⟩
    · cases steps

theorem innerServes {event : RequestAnswers.Event ClientHello Id Request Response} (inside : inner event = true)
    (serves : Serves codec token stream s c) (steps : RequestAnswers.step c event = some c') :
    Serves codec token stream (s.served event c') c' := by
  obtain ⟨read, left, handlers⟩ := innerKept inside steps
  obtain ⟨hello, behind, greets, version, course⟩ := serves.course
  have handled : ∀ handler ∈ c'.handlers, handler.envelope ∈ c'.read := by
    intro handler member
    obtain ⟨before, old, same⟩ := handlers handler member
    rw [read, same]
    exact serves.handled before old
  unfold Session.served
  split
  · refine ⟨⟨hello, behind, greets, version, fun whole => ?_⟩, serves.pieces, freshUnderway, handled⟩
    -- a branch that finds the future fresh drops nothing
    obtain ⟨whole, nothing⟩ := Bool.or_eq_false_iff.mp whole
    have empty : s.reading.bytes = [] := List.isEmpty_iff.mp ((Bool.not_eq_false' _).mp nothing)
    obtain ⟨rest, follows, goes⟩ := course whole
    refine ⟨rest, read ▸ follows, fun open' => ?_⟩
    rw [goes fun gone => open' (left gone), empty]
    rfl
  · refine ⟨⟨hello, behind, greets, version, fun whole => ?_⟩, serves.pieces, serves.underway, handled⟩
    obtain ⟨rest, follows, goes⟩ := course whole
    exact ⟨rest, read ▸ follows, fun open' => goes fun gone => open' (left gone)⟩

end Connections

theorem stepSound (pieces : Pieces first) {event : Event Id Request Response} (sound : Sound codec token first s)
    (steps : step codec token s event = some s') : Sound codec token first s' := by
  cases event with
  | greet late written =>
    simp only [step] at steps
    split at steps
    · rename_i greeting
      exact greetSound pieces sound greeting steps
    · cases steps
  | read =>
    simp only [step] at steps
    split at steps
    · rename_i connection serving
      have serves := (sound.served connection serving).2
      obtain ⟨chunk, rest, took, takes⟩ := takes (underwayWanted serves.underway) serves.pieces
      simp only [Session.read, took] at steps
      split at steps
      · rename_i reading _ read
        cases Option.some.inj steps
        exact servesSound sound serving serving rfl (pendingServes serves takes read)
      · rename_i frame _ read
        obtain ⟨connection', stepped, rfl⟩ := Option.map_eq_some_iff.mp steps
        exact servesSound sound serving rfl rfl (frameServes serves takes read stepped)
      · obtain ⟨connection', stepped, rfl⟩ := Option.map_eq_some_iff.mp steps
        exact servesSound sound serving rfl rfl (leftServes takes.pieces serves stepped)
      · cases steps
    · cases steps
  | serve event =>
    simp only [step] at steps
    split at steps
    · rename_i connection serving
      split at steps
      · rename_i inside
        obtain ⟨connection', stepped, rfl⟩ := Option.map_eq_some_iff.mp steps
        have phase : (s.served event connection').phase = .serving connection' := by
          unfold Session.served
          split <;> rfl
        have greetings : (s.served event connection').greetings = s.greetings := by
          unfold Session.served
          split <;> rfl
        exact servesSound sound serving phase greetings
          (innerServes inside (sound.served connection serving).2 stepped)
      · cases steps
    · cases steps

theorem reachedSound (pieces : Pieces first) (reached : Reached codec token first s) : Sound codec token first s :=
  reachInvariant reached
    ⟨fun _ => ⟨rfl, rfl, rfl⟩, Nat.zero_le 1, (by intros; contradiction), fun connection serving => by cases serving⟩
    fun sound _ steps => stepSound pieces sound steps

theorem helloServed (faithful : codec.RoundTrips) (pieces : Pieces first) {hello : ClientHello}
    {frames : List (ClientFrame ClientHello Id Request)} (fits : Fits codec maxHelloFrameBytes (.hello hello))
    (known : hello.authenticationToken = token.text) (version : hello.protocolVersion = protocolVersion)
    (bytes : first.flatten = codec.stream (.hello hello :: frames)) :
    ∃ rest, step codec token (.accepted first : Session Id Request Response) (.greet false true) =
      some ⟨rest, .serving .authenticated, .fresh, false, [.ok ()]⟩ ∧ Pieces rest ∧ rest.flatten = codec.stream frames := by
  obtain ⟨payload, encodes, some', within⟩ := fits
  have small : payload.length ≤ maxFrameBytes := within.trans (Nat.min_le_right _ _)
  have sent : codec.sends (.hello hello) = toBeBytes payload.length ++ payload := by
    rw [Codec.sends, Codec.encodeFrame, encodes]
    dsimp only
    rw [if_neg (Nat.not_lt.mpr small), if_neg (Nat.not_le.mpr (Nat.lt_of_le_of_lt small (by decide)))]
  rw [Codec.stream, List.flatMap_cons, sent, List.append_assoc] at bytes
  obtain ⟨rest, pieces', bytes', read⟩ := frameRead faithful encodes some' within pieces bytes
  refine ⟨rest, ?_, pieces', bytes'⟩
  have accepted : authenticate token (some (.hello hello : ClientFrame ClientHello Id Request)) = .ok () := by
    simp only [authenticate, (matchesIff token hello.authenticationToken).mpr known, version, Bool.not_true,
      Bool.false_eq_true, if_false, ne_eq, not_true_eq_false]
  simp only [step, Session.accepted, Session.greet, Bool.false_eq_true, if_false, read, accepted, if_true,
    List.nil_append]

/-- A connection is served only behind a first frame that is a hello with the daemon's token and
version, at most one frame answers it, and only a peer with the token learns more than that it is
refused. Every handler runs a request that was read, and until a read is dropped with bytes of a frame
those are the requests of the frames behind the hello, in their order; and a client with the token and
the version is served. -/
theorem handshakeGates : (∀ {first s}, Pieces first → Reached codec token first s →
      (s : Session Id Request Response).greetings.length ≤ 1 ∧
      (∀ answer ∈ s.greetings, answer ≠ .error helloFirst → answer ≠ .error authenticationFailed →
        ∃ hello rest, Greets codec token first.flatten hello rest) ∧
      ∀ connection, s.phase = .serving connection → s.greetings = [.ok ()] ∧
        (∃ hello rest, Greets codec token first.flatten hello rest ∧ hello.protocolVersion = protocolVersion ∧
          (s.torn = false → ∃ left, Follows codec rest connection.read left)) ∧
        ∀ handler ∈ connection.handlers, handler.envelope ∈ connection.read) ∧
    (codec.RoundTrips → ∀ {first hello frames}, Pieces first → Fits codec maxHelloFrameBytes (.hello hello) →
      hello.authenticationToken = token.text → hello.protocolVersion = protocolVersion →
      first.flatten = codec.stream (.hello hello :: frames) →
      ∃ rest, step codec token (.accepted first : Session Id Request Response) (.greet false true) =
        some ⟨rest, .serving .authenticated, .fresh, false, [.ok ()]⟩ ∧ Pieces rest ∧ rest.flatten = codec.stream frames) := by
  refine ⟨fun {first s} pieces reached => ?_, fun faithful {first hello frames} pieces fits known version bytes =>
    helloServed faithful pieces fits known version bytes⟩
  have sound := reachedSound pieces reached
  refine ⟨sound.once, sound.known, fun connection serving => ?_⟩
  obtain ⟨greeted, serves⟩ := sound.served connection serving
  obtain ⟨hello, rest, greets, version, course⟩ := serves.course
  exact ⟨greeted, ⟨hello, rest, greets, version, fun whole => (course whole).imp fun _ => And.left⟩, serves.handled⟩

end Sessions

def token : SecretToken := ⟨"5a"⟩

def greeting : ClientHello := ⟨protocolVersion, "", "", "5a"⟩

-- `{"type": "hello", "payload": {"protocol_version": 9, "client_name": "", "client_version": "",
-- "authentication_token": "5a"}}`
def helloPayload : Bytes :=
  [0x82, 0xa4, 0x74, 0x79, 0x70, 0x65, 0xa5, 0x68, 0x65, 0x6c, 0x6c, 0x6f, 0xa7, 0x70, 0x61, 0x79, 0x6c, 0x6f, 0x61,
    0x64, 0x84, 0xb0, 0x70, 0x72, 0x6f, 0x74, 0x6f, 0x63, 0x6f, 0x6c, 0x5f, 0x76, 0x65, 0x72, 0x73, 0x69, 0x6f, 0x6e,
    0x09, 0xab, 0x63, 0x6c, 0x69, 0x65, 0x6e, 0x74, 0x5f, 0x6e, 0x61, 0x6d, 0x65, 0xa0, 0xae, 0x63, 0x6c, 0x69, 0x65,
    0x6e, 0x74, 0x5f, 0x76, 0x65, 0x72, 0x73, 0x69, 0x6f, 0x6e, 0xa0, 0xb4, 0x61, 0x75, 0x74, 0x68, 0x65, 0x6e, 0x74,
    0x69, 0x63, 0x61, 0x74, 0x69, 0x6f, 0x6e, 0x5f, 0x74, 0x6f, 0x6b, 0x65, 0x6e, 0xa2, 0x35, 0x61]

def greets : Codec (ClientFrame ClientHello Uuid Unit) where
  toVecNamed
    | .hello hello => if hello = greeting then .ok helloPayload else .error "not the hello"
    | .request envelope => .ok (enveloped pingHead pingTail envelope.requestId)
  fromRead payload :=
    if payload = helloPayload then .ok (.hello greeting)
    else
      match envelopedId pingHead pingTail payload with
      | some id => .ok (.request ⟨id, ()⟩)
      | none => .error "neither the hello nor a ping"

theorem pingOther (id : Uuid) : enveloped pingHead pingTail id ≠ helloPayload := fun same => by
  have third := congrArg (fun bytes => bytes[6]?) same
  have head : (enveloped pingHead pingTail id)[6]? = pingHead[6]? := by
    unfold enveloped
    exact List.getElem?_append_left (by decide)
  exact absurd (head.symm.trans third) (by decide)

theorem greetsRoundTrip : greets.RoundTrips := by
  intro frame payload vec
  simp only [greets] at vec ⊢
  split at vec
  · split at vec
    · rename_i same
      cases vec
      rw [if_pos rfl, same]
    · cases vec
  · rename_i envelope
    cases vec
    rw [if_neg (pingOther _), envelopedIdOf]

def sent : List Bytes := [greets.stream [.hello greeting, .request ⟨Framing.first, ()⟩, .request ⟨Framing.second, ()⟩]]

/-- The first ping is answered before the second one is read. -/
def answeredBetween : List (Event Uuid Unit Unit) :=
  [.greet false true, .read, .read, .serve (.ends 0 (some (.ok ()))), .serve (.joined 0), .serve (.written true),
    .read, .read]

def Phase.read : Phase Id Request Response → List (RequestEnvelope Id Request)
  | .serving connection => connection.read
  | .greeting | .closed => []

theorem servedRun : (run (step greets token) Any (.accepted sent) answeredBetween).map
    (fun s => (s.phase.read.map (·.requestId), s.torn)) = some ([Framing.first, Framing.second], false) := by
  decide +kernel

theorem handshakeGatesOne : (∃ connection : RequestAnswers.Connection Uuid Unit Unit,
      connection.read.map (·.requestId) = [Framing.first, Framing.second] ∧
      ∃ hello rest left, Greets greets token sent.flatten hello rest ∧ hello.protocolVersion = protocolVersion ∧
        Follows greets rest connection.read left) ∧
    ∃ rest, step greets token (.accepted sent : Session Uuid Unit Unit) (.greet false true) =
      some ⟨rest, .serving .authenticated, .fresh, false, [.ok ()]⟩ ∧ Pieces rest ∧
        rest.flatten = greets.stream [.request ⟨Framing.first, ()⟩, .request ⟨Framing.second, ()⟩] := by
  have fits : Fits greets maxHelloFrameBytes (.hello greeting) := ⟨helloPayload, rfl, by decide, by decide⟩
  have pieces : Pieces sent := by
    unfold Pieces sent
    decide +kernel
  refine ⟨?_, handshakeGates.2 greetsRoundTrip pieces fits rfl rfl (List.append_nil _)⟩
  obtain ⟨s, ran, seen⟩ := Option.map_eq_some_iff.mp servedRun
  obtain ⟨ids, whole⟩ := Prod.mk.inj seen
  have reached : Reached greets token sent s := reachRun .start ran
  cases phase : s.phase with
  | greeting | closed =>
    rw [phase] at ids
    cases ids
  | serving connection =>
    rw [phase] at ids
    obtain ⟨hello, rest, greets, version, course⟩ := ((handshakeGates.1 pieces reached).2.2 connection phase).2.1
    obtain ⟨left, follows⟩ := course whole
    exact ⟨connection, ids, hello, rest, left, greets, version, follows⟩

end Maestro.Handshake
