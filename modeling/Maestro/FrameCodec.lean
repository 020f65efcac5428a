import Maestro.Framing

/-! The length-prefixed codec on its own: `decode_frame` against `encode_frame`, and the
frames that uninterrupted calls of `read_frame_with_limit` take from a stream, whatever the
pieces are that its bytes arrive in. -/
namespace Maestro.FrameCodec
open Framing

variable {Frame : Type} (codec : Codec Frame)

inductive DecodeError where
  | codec (error : CodecError)
  | incompleteFrame (expected actual : Nat)
  deriving DecidableEq, Repr

def decodeFrame (frame : Bytes) : Except DecodeError Frame :=
  if frame.length < 4 then .error (.incompleteFrame 4 frame.length)
  else
    let length := fromBeBytes (frame.take 4)
    if length > maxFrameBytes then .error (.codec (.frameTooLarge length maxFrameBytes))
    else if frame.length ≠ length + 4 then .error (.incompleteFrame (length + 4) frame.length)
    else (codec.decodePayload (frame.drop 4)).mapError .codec

/-- A read returns at most the bytes that are wanted of the first chunk; without a chunk
the stream is at its end. -/
def takeChunk (wanted : Nat) : List Bytes → Bytes × List Bytes
  | [] => ([], [])
  | chunk :: chunks =>
    if wanted < chunk.length then (chunk.take wanted, chunk.drop wanted :: chunks) else (chunk, chunks)

/-- The reads of one call, with the chunks that are left behind it. -/
def readFrom (maximumBytes : Nat) : Nat → List Bytes → Reading →
    Option (Except IpcError (Option Frame) × List Bytes)
  | 0, _, _ => none
  | fuel + 1, chunks, reading =>
    match readFrameWithLimit codec maximumBytes (takeChunk reading.wanted chunks).1 reading with
    | .pending reading' => readFrom maximumBytes fuel (takeChunk reading.wanted chunks).2 reading'
    | .ready result => some (result, (takeChunk reading.wanted chunks).2)

def readOne (maximumBytes : Nat) (chunks : List Bytes) : Option (Except IpcError (Option Frame) × List Bytes) :=
  readFrom codec maximumBytes (chunks.flatten.length + 1) chunks .fresh

def readAll (maximumBytes : Nat) : Nat → List Bytes → Option (List Frame × Except IpcError Unit)
  | 0, _ => none
  | fuel + 1, chunks =>
    match readOne codec maximumBytes chunks with
    | none => none
    | some (.error error, _) => some ([], .error error)
    | some (.ok none, _) => some ([], .ok ())
    | some (.ok (some frame), rest) =>
      (readAll maximumBytes fuel rest).map fun (frames, ending) => (frame :: frames, ending)

/-- No value of the format is encoded in no bytes at all. -/
def TakesBytes : Prop := ∀ frame, codec.fromRead [] ≠ .ok frame

/-- The payload of the frame is not empty and within the limit. -/
def Fits (maximumBytes : Nat) (frame : Frame) : Prop :=
  ∃ payload, codec.toVecNamed frame = .ok payload ∧ payload ≠ [] ∧ payload.length ≤ min maximumBytes maxFrameBytes

/-- A length prefix that is cut off, or that announces nothing, too much, or more than follows. -/
inductive Faulty (maximumBytes : Nat) : Bytes → Prop
  | prefixCut {cut} (some' : cut ≠ []) (short : cut.length < 4) : Faulty maximumBytes cut
  | zero {rest} : Faulty maximumBytes (toBeBytes 0 ++ rest)
  | tooLarge {length rest} (encodes : length < 2 ^ 32) (beyond : min maximumBytes maxFrameBytes < length) :
      Faulty maximumBytes (toBeBytes length ++ rest)
  | payloadCut {length part} (encodes : length < 2 ^ 32) (short : part.length < length) :
      Faulty maximumBytes (toBeBytes length ++ part)

section Decode
variable {codec} {frame : Frame} {bytes : Bytes}

theorem payloadDecoded (faithful : codec.RoundTrips) {payload : Bytes} (encodes : codec.toVecNamed frame = .ok payload)
    (within : payload.length ≤ maxFrameBytes) : codec.decodePayload payload = .ok frame := by
  rw [Codec.decodePayload, if_neg (Nat.not_lt.mpr within), faithful encodes]
  rfl

theorem decodeEncoded (faithful : codec.RoundTrips) (encodes : codec.encodeFrame frame = .ok bytes) :
    decodeFrame codec bytes = .ok frame := by
  obtain ⟨payload, vec, within, rfl⟩ := Codec.encoded encodes
  have small : payload.length < 2 ^ 32 := Nat.lt_of_le_of_lt within (by decide)
  have length : (toBeBytes payload.length ++ payload).length = payload.length + 4 := by
    rw [List.length_append, Nat.add_comm]
    rfl
  have front : (toBeBytes payload.length ++ payload).take 4 = toBeBytes payload.length := List.take_left' rfl
  have back : (toBeBytes payload.length ++ payload).drop 4 = payload := List.drop_left' rfl
  rw [decodeFrame, length, front, back, fromToBeBytes small, if_neg (by omega)]
  dsimp only
  rw [if_neg (Nat.not_lt.mpr within), if_neg (fun other => other rfl), payloadDecoded faithful vec within]
  rfl

end Decode

section Reads
variable {codec} {maximumBytes fuel : Nat} {chunks : List Bytes} {tail : Bytes}

/-- A read returns nothing at the end of the stream only. -/
def Pieces (chunks : List Bytes) : Prop := ∀ chunk ∈ chunks, chunk ≠ []

structure Takes (wanted : Nat) (chunks : List Bytes) (chunk : Bytes) (rest : List Bytes) : Prop where
  whole : chunk ++ rest.flatten = chunks.flatten
  bound : chunk.length ≤ wanted
  pieces : Pieces rest
  ended : chunk = [] → chunks.flatten = []

theorem takes {wanted : Nat} (positive : 0 < wanted) (pieces : Pieces chunks) :
    ∃ chunk rest, takeChunk wanted chunks = (chunk, rest) ∧ Takes wanted chunks chunk rest := by
  cases chunks with
  | nil => exact ⟨[], [], rfl, rfl, Nat.zero_le _, fun chunk member => (by cases member), fun _ => rfl⟩
  | cons chunk chunks =>
    have later : Pieces chunks := fun other member => pieces other (List.mem_cons_of_mem _ member)
    by_cases more : wanted < chunk.length
    · refine ⟨_, _, if_pos more, ?_, List.length_take_le _ _, ?_, ?_⟩
      · rw [List.flatten_cons, List.flatten_cons, ← List.append_assoc, List.take_append_drop]
      · intro other member
        rcases List.mem_cons.mp member with rfl | old
        · exact fun none' => Nat.not_le.mpr more (List.drop_eq_nil_iff.mp none')
        · exact later other old
      · intro none'
        have length := congrArg List.length none'
        rw [List.length_take, List.length_nil] at length
        omega
    · exact ⟨_, _, if_neg more, rfl, Nat.not_lt.mp more, later,
        fun none' => absurd none' (pieces chunk List.mem_cons_self)⟩

section Takes
variable {wanted : Nat} {chunk read whole : Bytes} {rest : List Bytes}

theorem takesShrink (took : Takes wanted chunks chunk rest) (some' : chunk ≠ [])
    (enough : chunks.flatten.length < fuel + 1) : rest.flatten.length < fuel := by
  have positive := List.length_pos_iff.mpr some'
  rw [← took.whole, List.length_append] at enough
  omega

theorem takesSome (took : Takes wanted chunks chunk rest) (short : read.length < whole.length)
    (bytes : read ++ chunks.flatten = whole ++ tail) : chunk ≠ [] := fun none' => by
  have lengths := congrArg List.length bytes
  rw [took.ended none', List.append_nil, List.length_append] at lengths
  omega

theorem takesWhole (took : Takes (whole.length - read.length) chunks chunk rest) (short : read.length < whole.length)
    (full : ¬ (read ++ chunk).length < whole.length) (bytes : read ++ chunks.flatten = whole ++ tail) :
    read ++ chunk = whole ∧ rest.flatten = tail := by
  have bound := took.bound
  rw [← took.whole, ← List.append_assoc] at bytes
  refine List.append_inj bytes ?_
  rw [List.length_append] at full ⊢
  omega

end Takes

def goesOn (codec : Codec Frame) (maximumBytes fuel : Nat) (chunks : List Bytes) :
    Progress Frame → Option (Except IpcError (Option Frame) × List Bytes)
  | .pending reading => readFrom codec maximumBytes fuel chunks reading
  | .ready result => some (result, chunks)

theorem readFromStep (reading : Reading) {chunk : Bytes} {rest : List Bytes}
    (took : takeChunk reading.wanted chunks = (chunk, rest)) : readFrom codec maximumBytes (fuel + 1) chunks reading =
      goesOn codec maximumBytes fuel rest (readFrameWithLimit codec maximumBytes chunk reading) := by
  rw [readFrom, goesOn.eq_def, took]

theorem prefixComplete (codec : Codec Frame) (maximumBytes : Nat) {lengthPrefix read : Bytes}
    (four : lengthPrefix.length = 4) (pieces : Pieces chunks)
    (short : read.length < 4) (bytes : read ++ chunks.flatten = lengthPrefix ++ tail)
    (enough : chunks.flatten.length < fuel) : ∃ fuel' chunks', Pieces chunks' ∧ chunks'.flatten = tail ∧
      tail.length < fuel' ∧ readFrom codec maximumBytes fuel chunks (.prefixBytes read) =
        goesOn codec maximumBytes fuel' chunks' (prefixRead codec maximumBytes lengthPrefix) := by
  induction fuel generalizing chunks read with
  | zero => exact absurd enough (Nat.not_lt_zero _)
  | succ fuel ih =>
    obtain ⟨chunk, rest, took, takes⟩ := takes (Nat.sub_pos_of_lt short) pieces
    have short' : read.length < lengthPrefix.length := four ▸ short
    have some' := takesSome takes short' bytes
    have less := takesShrink takes some' enough
    rw [readFromStep (.prefixBytes read) took, readFrameWithLimit, if_neg some']
    by_cases more : (read ++ chunk).length < 4
    · rw [if_pos more]
      rw [← takes.whole, ← List.append_assoc] at bytes
      exact ih takes.pieces more bytes less
    · rw [if_neg more]
      rw [← four] at takes more
      obtain ⟨rfl, same⟩ := takesWhole takes short' more bytes
      exact ⟨fuel, rest, takes.pieces, same, same ▸ less, rfl⟩

theorem prefixCut {read : Bytes} (pieces : Pieces chunks) (some' : read ++ chunks.flatten ≠ [])
    (short : (read ++ chunks.flatten).length < 4) (enough : chunks.flatten.length < fuel) :
    ∃ error rest, readFrom codec maximumBytes fuel chunks (.prefixBytes read) = some (.error error, rest) := by
  induction fuel generalizing chunks read with
  | zero => exact absurd enough (Nat.not_lt_zero _)
  | succ fuel ih =>
    have fewer : read.length < 4 := by
      rw [List.length_append] at short
      omega
    obtain ⟨chunk, rest, took, takes⟩ := takes (Nat.sub_pos_of_lt fewer) pieces
    rw [readFromStep (.prefixBytes read) took, readFrameWithLimit]
    by_cases ended : chunk = []
    · have begun : read ≠ [] := by
        rwa [takes.ended ended, List.append_nil] at some'
      rw [if_pos ended, if_neg begun]
      exact ⟨_, _, rfl⟩
    · have less := takesShrink takes ended enough
      rw [← takes.whole, ← List.append_assoc] at some' short
      have few : (read ++ chunk).length < 4 := by
        rw [List.length_append] at short
        omega
      rw [if_neg ended, if_pos few]
      exact ih takes.pieces some' short less

theorem payloadComplete (codec : Codec Frame) (maximumBytes : Nat) {lengthPrefix payload read : Bytes}
    (length : payload.length = fromBeBytes lengthPrefix)
    (pieces : Pieces chunks) (short : read.length < payload.length)
    (bytes : read ++ chunks.flatten = payload ++ tail) (enough : chunks.flatten.length < fuel) :
    ∃ chunks', Pieces chunks' ∧ chunks'.flatten = tail ∧
      readFrom codec maximumBytes fuel chunks (.payload lengthPrefix read) =
        goesOn codec maximumBytes 0 chunks' (payloadRead codec payload) := by
  induction fuel generalizing chunks read with
  | zero => exact absurd enough (Nat.not_lt_zero _)
  | succ fuel ih =>
    have wanted : payload.length - read.length = (Reading.payload lengthPrefix read).wanted := length ▸ rfl
    obtain ⟨chunk, rest, took, takes⟩ := takes (Nat.sub_pos_of_lt short) pieces
    have some' := takesSome takes short bytes
    have less := takesShrink takes some' enough
    rw [readFromStep (.payload lengthPrefix read) (wanted ▸ took), readFrameWithLimit, if_neg some', ← length]
    by_cases more : (read ++ chunk).length < payload.length
    · rw [if_pos more]
      rw [← takes.whole, ← List.append_assoc] at bytes
      exact ih takes.pieces more bytes less
    · rw [if_neg more]
      obtain ⟨rfl, same⟩ := takesWhole takes short more bytes
      exact ⟨rest, takes.pieces, same, rfl⟩

theorem payloadCut {lengthPrefix read : Bytes} (pieces : Pieces chunks)
    (short : (read ++ chunks.flatten).length < fromBeBytes lengthPrefix) (enough : chunks.flatten.length < fuel) :
    ∃ error rest, readFrom codec maximumBytes fuel chunks (.payload lengthPrefix read) = some (.error error, rest) := by
  induction fuel generalizing chunks read with
  | zero => exact absurd enough (Nat.not_lt_zero _)
  | succ fuel ih =>
    have fewer : read.length < fromBeBytes lengthPrefix := by
      rw [List.length_append] at short
      omega
    obtain ⟨chunk, rest, took, takes⟩ := takes (Nat.sub_pos_of_lt fewer) pieces
    rw [readFromStep (.payload lengthPrefix read) took, readFrameWithLimit]
    by_cases ended : chunk = []
    · rw [if_pos ended]
      exact ⟨_, _, rfl⟩
    · have less := takesShrink takes ended enough
      rw [← takes.whole, ← List.append_assoc] at short
      have few : (read ++ chunk).length < fromBeBytes lengthPrefix := by
        rw [List.length_append] at short
        omega
      rw [if_neg ended, if_pos few]
      exact ih takes.pieces short less

theorem prefixFirst (codec : Codec Frame) (maximumBytes : Nat) {lengthPrefix : Bytes} (four : lengthPrefix.length = 4)
    (pieces : Pieces chunks) (bytes : chunks.flatten = lengthPrefix ++ tail) :
    ∃ fuel chunks', Pieces chunks' ∧ chunks'.flatten = tail ∧ tail.length < fuel ∧
      readOne codec maximumBytes chunks =
        goesOn codec maximumBytes fuel chunks' (prefixRead codec maximumBytes lengthPrefix) := by
  have none' : ([] : Bytes).length < 4 := by decide
  exact prefixComplete codec maximumBytes four pieces none' bytes (Nat.lt_succ_self _)

theorem frameRead (faithful : codec.RoundTrips) {frame : Frame} {payload : Bytes}
    (encodes : codec.toVecNamed frame = .ok payload) (some' : payload ≠ [])
    (within : payload.length ≤ min maximumBytes maxFrameBytes) (pieces : Pieces chunks)
    (bytes : chunks.flatten = toBeBytes payload.length ++ (payload ++ tail)) :
    ∃ chunks', Pieces chunks' ∧ chunks'.flatten = tail ∧
      readOne codec maximumBytes chunks = some (.ok (some frame), chunks') := by
  have small : payload.length ≤ maxFrameBytes := within.trans (Nat.min_le_right _ _)
  have announced : fromBeBytes (toBeBytes payload.length) = payload.length :=
    fromToBeBytes (Nat.lt_of_le_of_lt small (by decide))
  have positive := List.length_pos_iff.mpr some'
  obtain ⟨fuel, middle, pieces', bytes', enough, first⟩ := prefixFirst codec maximumBytes rfl pieces bytes
  have waits : prefixRead codec maximumBytes (toBeBytes payload.length) =
      .pending (.payload (toBeBytes payload.length) []) := by
    rw [prefixRead, announced, if_neg (Nat.not_lt.mpr within), if_neg (Nat.pos_iff_ne_zero.mp positive)]
  obtain ⟨chunks', pieces'', bytes'', second⟩ :=
    payloadComplete codec maximumBytes announced.symm pieces'
      (show ([] : Bytes).length < payload.length from positive) bytes' (bytes' ▸ enough)
  refine ⟨chunks', pieces'', bytes'', ?_⟩
  rw [first, waits, goesOn, second, payloadRead, payloadDecoded faithful encodes small]
  rfl

theorem faultyRead (takesBytes : TakesBytes codec) (pieces : Pieces chunks)
    (faulty : Faulty maximumBytes chunks.flatten) :
    ∃ error rest, readOne codec maximumBytes chunks = some (.error error, rest) := by
  generalize bytes : chunks.flatten = tail at faulty
  cases faulty with
  | prefixCut some' short =>
    exact prefixCut pieces (by rwa [List.nil_append, bytes]) (by rwa [List.nil_append, bytes]) (Nat.lt_succ_self _)
  | @zero rest =>
    obtain ⟨fuel, middle, _, _, _, first⟩ := prefixFirst codec maximumBytes rfl pieces bytes
    rw [first]
    have nothing : prefixRead codec maximumBytes (toBeBytes 0) = payloadRead codec [] := by
      rw [prefixRead, fromToBeBytes (by decide)]
      rfl
    rw [nothing, payloadRead, Codec.decodePayload, if_neg (show ¬ ([] : Bytes).length > maxFrameBytes by decide)]
    cases decoded : codec.fromRead [] with
    | ok frame => exact absurd decoded (takesBytes frame)
    | error text => exact ⟨_, _, rfl⟩
  | @tooLarge length rest encodes beyond =>
    obtain ⟨fuel, middle, _, _, _, first⟩ := prefixFirst codec maximumBytes rfl pieces bytes
    rw [first, prefixRead, fromToBeBytes encodes, if_pos beyond]
    exact ⟨_, _, rfl⟩
  | @payloadCut length part encodes short =>
    obtain ⟨fuel, middle, pieces', bytes', enough, first⟩ := prefixFirst codec maximumBytes rfl pieces bytes
    rw [first, prefixRead, fromToBeBytes encodes]
    by_cases beyond : min maximumBytes maxFrameBytes < length
    · rw [if_pos beyond]
      exact ⟨_, _, rfl⟩
    · rw [if_neg beyond, if_neg (Nat.ne_of_gt (Nat.zero_lt_of_lt short))]
      exact payloadCut pieces' (by rwa [List.nil_append, bytes', fromToBeBytes encodes]) (bytes' ▸ enough)

theorem endRead (pieces : Pieces chunks) (bytes : chunks.flatten = []) :
    readOne codec maximumBytes chunks = some (.ok none, []) := by
  cases chunks with
  | nil => rfl
  | cons chunk chunks =>
    rw [List.flatten_cons, List.append_eq_nil_iff] at bytes
    exact absurd bytes.1 (pieces chunk List.mem_cons_self)

theorem streamRead (faithful : codec.RoundTrips) {frames : List Frame}
    (fits : ∀ frame ∈ frames, Fits codec maximumBytes frame) (pieces : Pieces chunks)
    (bytes : chunks.flatten = codec.stream frames ++ tail) : ∃ chunks', Pieces chunks' ∧ chunks'.flatten = tail ∧
      ∀ ending, readAll codec maximumBytes 1 chunks' = some ([], ending) →
        readAll codec maximumBytes (frames.length + 1) chunks = some (frames, ending) := by
  induction frames generalizing chunks with
  | nil => exact ⟨chunks, pieces, bytes, fun ending last => last⟩
  | cons frame frames ih =>
    obtain ⟨payload, encodes, some', within⟩ := fits frame List.mem_cons_self
    have small : payload.length ≤ maxFrameBytes := within.trans (Nat.min_le_right _ _)
    have sent : codec.sends frame = toBeBytes payload.length ++ payload := by
      rw [Codec.sends, Codec.encodeFrame, encodes]
      dsimp only
      rw [if_neg (Nat.not_lt.mpr small), if_neg (Nat.not_le.mpr (Nat.lt_of_le_of_lt small (by decide)))]
    rw [Codec.stream, List.flatMap_cons, sent, List.append_assoc, List.append_assoc] at bytes
    obtain ⟨middle, pieces', bytes', first⟩ := frameRead faithful encodes some' within pieces bytes
    obtain ⟨chunks', pieces'', bytes'', rest⟩ :=
      ih (fun other member => fits other (List.mem_cons_of_mem _ member)) pieces' bytes'
    refine ⟨chunks', pieces'', bytes'', fun ending last => ?_⟩
    rw [List.length_cons, readAll, first]
    dsimp only
    rw [rest ending last]
    rfl

end Reads

/-- The frames of a stream, however its bytes are split, and the clean or the faulty end. -/
theorem framesRead (faithful : codec.RoundTrips) (takesBytes : TakesBytes codec) :
    (∀ {maximumBytes frames chunks}, (∀ frame ∈ frames, Fits codec maximumBytes frame) → Pieces chunks →
      chunks.flatten = codec.stream frames →
      readAll codec maximumBytes (frames.length + 1) chunks = some (frames, .ok ())) ∧
    (∀ {maximumBytes frames chunks tail}, (∀ frame ∈ frames, Fits codec maximumBytes frame) → Pieces chunks →
      chunks.flatten = codec.stream frames ++ tail → Faulty maximumBytes tail →
      ∃ error, readAll codec maximumBytes (frames.length + 1) chunks = some (frames, .error error)) ∧
    ∀ {frame bytes}, codec.encodeFrame frame = .ok bytes → decodeFrame codec bytes = .ok frame := by
  refine ⟨fun {maximumBytes frames chunks} fits pieces bytes => ?_,
    fun {maximumBytes frames chunks tail} fits pieces bytes faulty => ?_, decodeEncoded faithful⟩
  · obtain ⟨rest, pieces', bytes', reads⟩ := streamRead faithful fits pieces (bytes.trans (List.append_nil _).symm)
    refine reads (.ok ()) ?_
    rw [readAll, endRead pieces' bytes']
  · obtain ⟨rest, pieces', bytes', reads⟩ := streamRead faithful fits pieces bytes
    obtain ⟨error, rest', failed⟩ := faultyRead takesBytes pieces' (bytes' ▸ faulty)
    refine ⟨error, reads (.error error) ?_⟩
    rw [readAll, failed]

theorem pingsTakeBytes : TakesBytes pings := fun frame decoded => by
  have nothing : pings.fromRead [] = .error "not a ping" := by decide
  cases nothing.symm.trans decoded

def twoPings : Bytes := pings.stream [ping first, ping second]

def threeChunks : List Bytes := [twoPings.take 2, (twoPings.drop 2).take 90, twoPings.drop 92]

theorem framesReadPings : readAll pings 1024 ([ping first, ping second].length + 1) threeChunks =
    some ([ping first, ping second], .ok ()) := by
  have fits : ∀ frame ∈ [ping first, ping second], Fits pings 1024 frame := fun frame member => by
    simp only [List.mem_cons, List.not_mem_nil, or_false] at member
    rcases member with rfl | rfl
    · exact ⟨enveloped pingHead pingTail first, rfl, by decide, by decide⟩
    · exact ⟨enveloped pingHead pingTail second, rfl, by decide, by decide⟩
  have pieces : Pieces threeChunks := by
    unfold Pieces
    decide +kernel
  have bytes : threeChunks.flatten = pings.stream [ping first, ping second] := by decide +kernel
  exact (framesRead pings pingsRoundTrip pingsTakeBytes).1 fits pieces bytes

end Maestro.FrameCodec
