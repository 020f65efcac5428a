import Mathlib.Algebra.BigOperators.Group.List.Basic
import Mathlib.Algebra.GroupWithZero.Nat
import Mathlib.Logic.Relation
import Maestro.Domain

/-! The output of one terminal. Its buffer keeps the last chunks of the stream within a
bound on their bytes, and a client follows the stream by a cursor. -/
namespace Maestro.Terminal

def minTerminalPollBytes : Nat := 4 * 1024

def maxTerminalPollBytes : Nat := 256 * 1024

def maxTerminalReadWaitMilliseconds : Nat := 30000

def terminalReadChunkBytes : Nat := minTerminalPollBytes

def maxBufferedTerminalBytes : Nat := 1024 * 1024

abbrev TerminalId := Nat

inductive TerminalState where
  | running
  | closing
  | exited
  | failed
  | closed
  deriving DecidableEq, Repr

structure TerminalExit where
  code : Option Int
  signal : Option Int
  deriving DecidableEq, Repr

structure TerminalStatus where
  terminalId : TerminalId
  state : TerminalState
  exit : Option TerminalExit
  deriving DecidableEq, Repr

structure TerminalOutputChunk where
  sequence : Nat
  data : Bytes
  deriving DecidableEq, Repr

structure OutputBuffer where
  chunks : List TerminalOutputChunk
  bufferedBytes : Nat
  latestSequence : Nat
  droppedThroughSequence : Nat
  deriving DecidableEq, Repr

structure PollResult where
  chunks : List TerminalOutputChunk
  nextSequence : Nat
  latestSequence : Nat
  overflowed : Bool
  droppedThroughSequence : Option Nat
  deriving DecidableEq, Repr

def bytesOf (chunks : List TerminalOutputChunk) : Nat := (chunks.map (·.data.length)).sum

namespace OutputBuffer

def default : OutputBuffer := ⟨[], 0, 0, 0⟩

/-- The loop of `push` that drops the oldest chunks. -/
def evict : List TerminalOutputChunk → Nat → Nat → List TerminalOutputChunk × Nat × Nat
  | [], bytes, dropped => ([], bytes, dropped)
  | first :: rest, bytes, dropped =>
    if bytes > maxBufferedTerminalBytes then
      evict rest (bytes - first.data.length) first.sequence
    else (first :: rest, bytes, dropped)

def push (b : OutputBuffer) (data : Bytes) : OutputBuffer × Option Nat :=
  if data = [] then (b, none)
  else
    let sequence := b.latestSequence + 1
    let kept := evict (b.chunks ++ [⟨sequence, data⟩]) (b.bufferedBytes + data.length)
      b.droppedThroughSequence
    (⟨kept.1, kept.2.1, sequence, kept.2.2⟩, some sequence)

/-- The loop of `poll` over the chunks behind the cursor. -/
def collect (maximumBytes : Nat) : List TerminalOutputChunk → Nat → List TerminalOutputChunk
  | [], _ => []
  | chunk :: rest, bytes =>
    if bytes + chunk.data.length > maximumBytes then []
    else chunk :: collect maximumBytes rest (bytes + chunk.data.length)

def poll (b : OutputBuffer) (afterSequence maximumBytes : Nat) : Except MaestroError PollResult :=
  if afterSequence > b.latestSequence then
    .error (.new .invalidRequest "terminal cursor is newer than the available output")
  else
    let overflowed := decide (afterSequence < b.droppedThroughSequence)
    let cursor := max afterSequence b.droppedThroughSequence
    let chunks := collect maximumBytes (b.chunks.filter fun chunk => chunk.sequence > cursor) 0
    .ok {
      chunks
      nextSequence := (chunks.getLast?.map (·.sequence)).getD cursor
      latestSequence := b.latestSequence
      overflowed
      droppedThroughSequence := if overflowed then some b.droppedThroughSequence else none }

end OutputBuffer

structure TerminalReadResult where
  terminalId : TerminalId
  chunks : List TerminalOutputChunk
  nextSequence : Nat
  latestSequence : Nat
  overflowed : Bool
  droppedThroughSequence : Option Nat
  state : TerminalState
  exit : Option TerminalExit
  deriving DecidableEq, Repr

def PollResult.withStatus (r : PollResult) (status : TerminalStatus) : TerminalReadResult :=
  ⟨status.terminalId, r.chunks, r.nextSequence, r.latestSequence, r.overflowed,
    r.droppedThroughSequence, status.state, status.exit⟩

/-- The status is read first and the output under its own lock afterwards. -/
def terminalReadSnapshot (status : TerminalStatus) (output : OutputBuffer)
    (afterSequence maximumBytes : Nat) : Except MaestroError TerminalReadResult :=
  match output.poll afterSequence maximumBytes with
  | .error error => .error error
  | .ok r => .ok (r.withStatus status)

/-- When `read` answers with its first snapshot instead of waiting for output. -/
def answersAtOnce (waitMilliseconds : Nat) (initial : TerminalReadResult) : Bool :=
  waitMilliseconds == 0 || !initial.chunks.isEmpty || initial.overflowed ||
    initial.state != .running

/-- The checks of `read` before it looks for the terminal. -/
def validateRead (maximumBytes waitMilliseconds : Nat) : Except MaestroError Unit :=
  if ¬ (minTerminalPollBytes ≤ maximumBytes ∧ maximumBytes ≤ maxTerminalPollBytes) then
    .error { MaestroError.new .invalidRequest "terminal poll size is outside the supported range" with
      details := some (.object [("maximum_bytes", .number (.posInt maxTerminalPollBytes)),
        ("minimum_bytes", .number (.posInt minTerminalPollBytes))]) }
  else if waitMilliseconds > maxTerminalReadWaitMilliseconds then
    .error { MaestroError.new .invalidRequest "terminal read wait exceeds the supported maximum" with
      details := some (.object
        [("maximum_wait_milliseconds", .number (.posInt maxTerminalReadWaitMilliseconds))]) }
  else .ok ()

theorem validateReadAccepts {maximumBytes wait : Nat}
    (accepted : validateRead maximumBytes wait = .ok ()) :
    minTerminalPollBytes ≤ maximumBytes ∧ maximumBytes ≤ maxTerminalPollBytes := by
  unfold validateRead at accepted
  split at accepted
  · contradiction
  · rename_i inside
    exact not_not.mp inside

def numberFrom (count : Nat) : List Bytes → List TerminalOutputChunk
  | [] => []
  | data :: rest => ⟨count + 1, data⟩ :: numberFrom (count + 1) rest

theorem numberAppend (count : Nat) (front back : List Bytes) :
    numberFrom count (front ++ back) =
      numberFrom count front ++ numberFrom (count + front.length) back := by
  induction front generalizing count with
  | nil => rfl
  | cons data front ih =>
    simp only [List.cons_append, numberFrom, ih, List.length_cons]
    congr 3
    omega

theorem numberDrop (count skip : Nat) (stream : List Bytes) :
    (numberFrom count stream).drop skip = numberFrom (count + skip) (stream.drop skip) := by
  induction stream generalizing count skip with
  | nil => simp [numberFrom]
  | cons data rest ih =>
    cases skip with
    | zero => rfl
    | succ skip =>
      simp only [numberFrom, List.drop_succ_cons, ih]
      congr 1
      omega

theorem numberSequences (count : Nat) (stream : List Bytes) :
    (numberFrom count stream).map (·.sequence) = List.range' (count + 1) stream.length := by
  induction stream generalizing count with
  | nil => rfl
  | cons data rest ih => simp [numberFrom, ih, List.range'_succ]

theorem numberLength (count : Nat) (stream : List Bytes) :
    (numberFrom count stream).length = stream.length := by
  induction stream generalizing count with
  | nil => rfl
  | cons data rest ih => simp [numberFrom, ih]

theorem numberLater {count : Nat} {stream : List Bytes} {chunk : TerminalOutputChunk}
    (member : chunk ∈ numberFrom count stream) : count < chunk.sequence := by
  induction stream generalizing count with
  | nil => cases member
  | cons data rest ih =>
    cases member with
    | head => exact Nat.lt_succ_self count
    | tail _ later => exact Nat.lt_of_succ_lt (ih later)

theorem numberFilter (count cursor : Nat) (stream : List Bytes) :
    (numberFrom count stream).filter (fun chunk => chunk.sequence > cursor) =
      (numberFrom count stream).drop (cursor - count) := by
  induction stream generalizing count with
  | nil => simp [numberFrom]
  | cons data rest ih =>
    by_cases later : count + 1 > cursor
    · have none' : cursor - count = 0 := by omega
      rw [none', List.drop_zero, List.filter_eq_self]
      intro chunk member
      have behind := numberLater member
      simp only [decide_eq_true_eq]
      omega
    · have some' : cursor - count = (cursor - (count + 1)) + 1 := by omega
      rw [numberFrom, List.filter_cons_of_neg (by simpa using later), ih, some',
        List.drop_succ_cons]

theorem numberSorted (count : Nat) (stream : List Bytes) :
    (numberFrom count stream).Pairwise fun a b => a.sequence < b.sequence := by
  induction stream generalizing count with
  | nil => exact .nil
  | cons data rest ih => exact .cons (fun chunk member => numberLater member) (ih (count + 1))

theorem numberTake (count keep : Nat) (stream : List Bytes) :
    (numberFrom count stream).take keep = numberFrom count (stream.take keep) := by
  induction stream generalizing count keep with
  | nil => simp [numberFrom]
  | cons data rest ih =>
    cases keep with
    | zero => rfl
    | succ keep => simp only [numberFrom, List.take_succ_cons, ih]

theorem numberLast (count : Nat) (stream : List Bytes) :
    ((numberFrom count stream).getLast?.map (·.sequence)).getD count = count + stream.length := by
  induction stream generalizing count with
  | nil => rfl
  | cons data rest ih =>
    have later := ih (count + 1)
    rw [numberFrom, List.getLast?_cons]
    cases last : (numberFrom (count + 1) rest).getLast? with
    | none =>
      rw [last] at later
      simp only [Option.map_none, Option.getD_none] at later
      simp only [Option.getD_none, Option.map_some, Option.getD_some, List.length_cons]
      omega
    | some chunk =>
      rw [last] at later
      simp only [Option.map_some, Option.getD_some] at later
      simp only [Option.getD_some, Option.map_some, List.length_cons]
      omega

theorem numberWithin {count : Nat} {stream : List Bytes} {chunk : TerminalOutputChunk}
    (member : chunk ∈ numberFrom count stream) : chunk.sequence ≤ count + stream.length := by
  have listed := List.mem_map_of_mem (f := (·.sequence)) member
  rw [numberSequences, List.mem_range'_1] at listed
  omega

theorem numberHas {count sequence : Nat} {stream : List Bytes} (later : count < sequence)
    (within : sequence ≤ count + stream.length) :
    ∃ chunk ∈ numberFrom count stream, chunk.sequence = sequence := by
  have listed : sequence ∈ (numberFrom count stream).map (·.sequence) := by
    rw [numberSequences, List.mem_range'_1]
    omega
  exact List.mem_map.mp listed

namespace OutputBuffer

/-- The buffer holds the stream behind the chunks it dropped. -/
structure Kept (stream : List Bytes) (b : OutputBuffer) : Prop where
  dropped : b.droppedThroughSequence ≤ stream.length
  chunks : b.chunks = numberFrom b.droppedThroughSequence (stream.drop b.droppedThroughSequence)
  latest : b.latestSequence = stream.length
  counted : b.bufferedBytes = bytesOf b.chunks
  bounded : b.bufferedBytes ≤ maxBufferedTerminalBytes

theorem evictKept (dropped : Nat) (stream : List Bytes) :
    ∃ more ≤ stream.length,
      evict (numberFrom dropped stream) (bytesOf (numberFrom dropped stream)) dropped =
        (numberFrom (dropped + more) (stream.drop more),
          bytesOf (numberFrom (dropped + more) (stream.drop more)), dropped + more) ∧
      bytesOf (numberFrom (dropped + more) (stream.drop more)) ≤ maxBufferedTerminalBytes := by
  induction stream generalizing dropped with
  | nil => exact ⟨0, Nat.le_refl 0, rfl, Nat.zero_le _⟩
  | cons data rest ih =>
    rw [numberFrom, evict]
    split
    · obtain ⟨more, within, same, bounded⟩ := ih (dropped + 1)
      have bytes : bytesOf (⟨dropped + 1, data⟩ :: numberFrom (dropped + 1) rest) - data.length =
          bytesOf (numberFrom (dropped + 1) rest) := by
        simp [bytesOf]
      have shifted : dropped + (more + 1) = dropped + 1 + more := by omega
      refine ⟨more + 1, Nat.succ_le_succ within, ?_⟩
      rw [bytes, shifted, List.drop_succ_cons]
      exact ⟨same, bounded⟩
    · rename_i fits
      exact ⟨0, Nat.zero_le _, rfl, Nat.le_of_not_lt fits⟩

theorem evictSubset {chunk : TerminalOutputChunk} (chunks : List TerminalOutputChunk)
    (bytes dropped : Nat) (member : chunk ∈ (evict chunks bytes dropped).1) :
    chunk ∈ chunks := by
  induction chunks generalizing bytes dropped with
  | nil => exact member
  | cons first rest ih =>
    rw [evict] at member
    split at member
    · exact List.mem_cons_of_mem _ (ih _ _ member)
    · exact member

theorem defaultKept : default.Kept [] := ⟨Nat.le_refl 0, rfl, rfl, rfl, Nat.zero_le _⟩

theorem Kept.push {stream : List Bytes} {b : OutputBuffer} (kept : b.Kept stream) {data : Bytes}
    (some' : data ≠ []) : (b.push data).1.Kept (stream ++ [data]) := by
  have grown : (stream ++ [data]).drop b.droppedThroughSequence =
      stream.drop b.droppedThroughSequence ++ [data] :=
    List.drop_append_of_le_length kept.dropped
  have appended : b.chunks ++ [⟨b.latestSequence + 1, data⟩] =
      numberFrom b.droppedThroughSequence
        ((stream ++ [data]).drop b.droppedThroughSequence) := by
    have reach : b.droppedThroughSequence + (stream.length - b.droppedThroughSequence) =
        stream.length := Nat.add_sub_cancel' kept.dropped
    rw [grown, numberAppend, List.length_drop, reach, ← kept.chunks, kept.latest]
    rfl
  have bytes : b.bufferedBytes + data.length =
      bytesOf (b.chunks ++ [⟨b.latestSequence + 1, data⟩]) := by
    rw [kept.counted]
    simp [bytesOf]
  obtain ⟨more, within, same, bounded⟩ := evictKept b.droppedThroughSequence
    ((stream ++ [data]).drop b.droppedThroughSequence)
  rw [List.length_drop, List.length_append, List.length_singleton] at within
  rw [List.drop_drop] at same bounded
  have total := kept.dropped
  unfold OutputBuffer.push
  rw [if_neg some', bytes]
  dsimp only
  rw [appended, same]
  refine ⟨?_, rfl, ?_, rfl, bounded⟩
  · rw [List.length_append, List.length_singleton]
    dsimp only
    omega
  · rw [List.length_append, List.length_singleton, ← kept.latest]

def start (b : OutputBuffer) (afterSequence : Nat) : Nat :=
  max afterSequence b.droppedThroughSequence

theorem Kept.behind {stream : List Bytes} {b : OutputBuffer} (kept : b.Kept stream)
    (afterSequence : Nat) :
    (b.chunks.filter fun chunk => chunk.sequence > b.start afterSequence) =
      numberFrom (b.start afterSequence) (stream.drop (b.start afterSequence)) := by
  have behind : b.droppedThroughSequence ≤ b.start afterSequence := Nat.le_max_right _ _
  rw [kept.chunks, numberFilter, numberDrop, List.drop_drop, Nat.add_sub_cancel' behind]

theorem collectTake (maximumBytes : Nat) (chunks : List TerminalOutputChunk) (bytes : Nat) :
    ∃ keep ≤ chunks.length, collect maximumBytes chunks bytes = chunks.take keep := by
  induction chunks generalizing bytes with
  | nil => exact ⟨0, Nat.le_refl 0, rfl⟩
  | cons chunk rest ih =>
    rw [collect]
    split
    · exact ⟨0, Nat.zero_le _, rfl⟩
    · obtain ⟨keep, within, same⟩ := ih (bytes + chunk.data.length)
      exact ⟨keep + 1, Nat.succ_le_succ within, by rw [same, List.take_succ_cons]⟩

theorem collectSome {maximumBytes : Nat} {first : TerminalOutputChunk}
    {rest : List TerminalOutputChunk} (fits : first.data.length ≤ maximumBytes) :
    collect maximumBytes (first :: rest) 0 ≠ [] := by
  rw [collect, Nat.zero_add, if_neg (Nat.not_lt.mpr fits)]
  exact List.cons_ne_nil _ _

/-- The answer to a poll behind `afterSequence`: a piece of the stream from where it starts. -/
structure Answers (stream : List Bytes) (b : OutputBuffer) (afterSequence : Nat) (got : List Bytes)
    (r : PollResult) : Prop where
  piece : got <+: stream.drop (b.start afterSequence)
  chunks : r.chunks = numberFrom (b.start afterSequence) got
  next : r.nextSequence = b.start afterSequence + got.length
  latest : r.latestSequence = b.latestSequence
  overflowed : r.overflowed = decide (afterSequence < b.droppedThroughSequence)
  reported : r.droppedThroughSequence =
    if afterSequence < b.droppedThroughSequence then some b.droppedThroughSequence else none

theorem Kept.poll {stream : List Bytes} {b : OutputBuffer} (kept : b.Kept stream)
    {afterSequence : Nat} (known : afterSequence ≤ stream.length) (maximumBytes : Nat) :
    ∃ got r, b.poll afterSequence maximumBytes = .ok r ∧ b.Answers stream afterSequence got r ∧
      (b.start afterSequence < stream.length →
        (∀ data ∈ stream, data.length ≤ maximumBytes) → got ≠ []) := by
  have current : ¬ afterSequence > b.latestSequence := by
    rw [kept.latest]
    exact Nat.not_lt.mpr known
  obtain ⟨keep, -, taken⟩ := collectTake maximumBytes
    (b.chunks.filter fun chunk => chunk.sequence > b.start afterSequence) 0
  have cut := taken
  rw [kept.behind] at taken
  conv_rhs at cut => rw [kept.behind, numberTake]
  refine ⟨_, _, if_neg current, ⟨List.take_prefix keep _, cut, ?_, rfl, rfl, ?_⟩, ?_⟩
  · exact (congrArg (fun l => (List.getLast? l |>.map (·.sequence)).getD _) cut).trans
      (numberLast _ _)
  · by_cases behind : afterSequence < b.droppedThroughSequence <;> simp [behind]
  · intro unread fit empty
    rw [numberTake, empty] at taken
    obtain ⟨data, rest, split⟩ := List.exists_cons_of_length_pos
      (l := stream.drop (b.start afterSequence)) (by rw [List.length_drop]; omega)
    rw [split, numberFrom] at taken
    have held : data ∈ stream := List.mem_of_mem_drop (split ▸ List.mem_cons_self)
    exact collectSome (fit data held) taken

end OutputBuffer

structure Reader where
  cursor : Nat
  received : List TerminalOutputChunk
  gaps : List (Nat × Nat)

def Reader.receive (r : Reader) (answer : TerminalReadResult) : Reader where
  cursor := answer.nextSequence
  received := r.received ++ answer.chunks
  gaps := r.gaps ++ (answer.droppedThroughSequence.map fun dropped => (r.cursor, dropped)).toList

structure Reader.Sound (stream : List Bytes) (r : Reader) : Prop where
  known : r.cursor ≤ stream.length
  ordered : r.received.Pairwise fun a b => a.sequence < b.sequence
  original : ∀ chunk ∈ r.received, chunk ∈ numberFrom 0 stream ∧ chunk.sequence ≤ r.cursor
  covered : ∀ sequence, 0 < sequence → sequence ≤ r.cursor →
    (∃ chunk ∈ r.received, chunk.sequence = sequence) ∨
      ∃ gap ∈ r.gaps, gap.1 < sequence ∧ sequence ≤ gap.2

theorem numberPiece {count : Nat} {stream got : List Bytes} {chunk : TerminalOutputChunk}
    (piece : got <+: stream.drop count) (member : chunk ∈ numberFrom count got) :
    chunk ∈ numberFrom 0 stream := by
  obtain ⟨back, whole⟩ := piece
  have listed : chunk ∈ numberFrom count (stream.drop count) := by
    rw [← whole, numberAppend]
    exact List.mem_append_left _ member
  have dropped := numberDrop 0 count stream
  rw [Nat.zero_add] at dropped
  rw [← dropped] at listed
  exact List.mem_of_mem_drop listed

theorem Reader.Sound.grows {stream : List Bytes} {r : Reader} (sound : r.Sound stream)
    (data : Bytes) : r.Sound (stream ++ [data]) where
  known := by
    rw [List.length_append]
    exact Nat.le_add_right_of_le sound.known
  ordered := sound.ordered
  original := fun chunk member => by
    rw [numberAppend]
    exact ⟨List.mem_append_left _ (sound.original chunk member).1,
      (sound.original chunk member).2⟩
  covered := sound.covered

theorem Reader.Sound.receives {stream got : List Bytes} {b : OutputBuffer} {r : Reader}
    {answer : PollResult} (sound : r.Sound stream) (kept : b.Kept stream)
    (answers : b.Answers stream r.cursor got answer) (status : TerminalStatus) :
    (r.receive (answer.withStatus status)).Sound stream := by
  have behind : r.cursor ≤ b.start r.cursor := Nat.le_max_left _ _
  have within : b.start r.cursor ≤ stream.length := Nat.max_le.mpr ⟨sound.known, kept.dropped⟩
  have fits := answers.piece.length_le
  rw [List.length_drop] at fits
  refine ⟨?_, ?_, ?_, ?_⟩
  · show answer.nextSequence ≤ stream.length
    rw [answers.next]
    omega
  · show (r.received ++ answer.chunks).Pairwise _
    rw [answers.chunks]
    refine List.pairwise_append.mpr ⟨sound.ordered, numberSorted _ _, ?_⟩
    intro old held new fresh
    have earlier := (sound.original old held).2
    have later := numberLater fresh
    omega
  · show ∀ chunk ∈ r.received ++ answer.chunks, _ ∧ chunk.sequence ≤ answer.nextSequence
    rw [answers.chunks, answers.next]
    intro chunk member
    cases List.mem_append.mp member with
    | inl held =>
      have earlier := sound.original chunk held
      exact ⟨earlier.1, by omega⟩
    | inr fresh => exact ⟨numberPiece answers.piece fresh, numberWithin fresh⟩
  · show ∀ sequence, 0 < sequence → sequence ≤ answer.nextSequence →
      (∃ chunk ∈ r.received ++ answer.chunks, chunk.sequence = sequence) ∨
        ∃ gap ∈ r.gaps ++ (answer.droppedThroughSequence.map fun d => (r.cursor, d)).toList,
          gap.1 < sequence ∧ sequence ≤ gap.2
    rw [answers.chunks, answers.next, answers.reported]
    intro sequence positive reached
    by_cases old : sequence ≤ r.cursor
    · cases sound.covered sequence positive old with
      | inl held =>
        obtain ⟨chunk, member, same⟩ := held
        exact .inl ⟨chunk, List.mem_append_left _ member, same⟩
      | inr missed =>
        obtain ⟨gap, member, inside⟩ := missed
        exact .inr ⟨gap, List.mem_append_left _ member, inside⟩
    · by_cases missed : sequence ≤ b.start r.cursor
      · have lost : r.cursor < b.droppedThroughSequence ∧ sequence ≤ b.droppedThroughSequence := by
          unfold OutputBuffer.start at missed
          omega
        rw [if_pos lost.1]
        exact .inr ⟨_, List.mem_append_right _ (List.mem_singleton_self _), Nat.lt_of_not_le old,
          lost.2⟩
      · obtain ⟨chunk, member, same⟩ := numberHas (by omega) reached
        exact .inl ⟨chunk, List.mem_append_right _ member, same⟩

/-- One terminal and one of its clients. A read that found nothing at first waits. -/
structure Following where
  stream : List Bytes
  output : OutputBuffer
  client : Reader
  waiting : Option Nat

def Following.start : Following := ⟨[], .default, ⟨0, [], []⟩, none⟩

inductive Follows (f : Following) : Following → Prop
  | output {data : Bytes} (some' : data ≠ []) (small : data.length ≤ terminalReadChunkBytes) :
      Follows f { f with stream := f.stream ++ [data], output := (f.output.push data).1 }
  | answered {status : TerminalStatus} {maximumBytes wait : Nat} {answer : TerminalReadResult}
      (idle : f.waiting = none) (accepted : validateRead maximumBytes wait = .ok ())
      (initial : terminalReadSnapshot status f.output f.client.cursor maximumBytes = .ok answer)
      (now : answersAtOnce wait answer) :
      Follows f { f with client := f.client.receive answer }
  | waits {status : TerminalStatus} {maximumBytes wait : Nat} {answer : TerminalReadResult}
      (idle : f.waiting = none) (accepted : validateRead maximumBytes wait = .ok ())
      (initial : terminalReadSnapshot status f.output f.client.cursor maximumBytes = .ok answer)
      (later : ¬ answersAtOnce wait answer) :
      Follows f { f with waiting := some maximumBytes }
  | woken {status : TerminalStatus} {maximumBytes : Nat} {answer : TerminalReadResult}
      (pending : f.waiting = some maximumBytes)
      (final : terminalReadSnapshot status f.output f.client.cursor maximumBytes = .ok answer) :
      Follows f { f with client := f.client.receive answer, waiting := none }
  | abandoned : Follows f { f with waiting := none }

structure Following.Sound (f : Following) : Prop where
  kept : f.output.Kept f.stream
  small : ∀ data ∈ f.stream, data.length ≤ terminalReadChunkBytes
  client : f.client.Sound f.stream

theorem startSound : Following.start.Sound where
  kept := OutputBuffer.defaultKept
  small := fun data member => by cases member
  client := ⟨Nat.le_refl 0, .nil, fun chunk member => (by cases member),
    fun sequence positive reached => absurd (Nat.lt_of_lt_of_le positive reached) (Nat.lt_irrefl 0)⟩

theorem Following.Sound.snapshot {f : Following} (sound : f.Sound) (status : TerminalStatus)
    (maximumBytes : Nat) :
    ∃ got r, terminalReadSnapshot status f.output f.client.cursor maximumBytes =
        .ok (PollResult.withStatus r status) ∧
      f.output.Answers f.stream f.client.cursor got r ∧
      (f.output.start f.client.cursor < f.stream.length →
        (∀ data ∈ f.stream, data.length ≤ maximumBytes) → got ≠ []) := by
  obtain ⟨got, r, polled, answers, advances⟩ := sound.kept.poll sound.client.known maximumBytes
  exact ⟨got, r, by rw [terminalReadSnapshot, polled], answers, advances⟩

theorem Following.Sound.received {f : Following} (sound : f.Sound) {status : TerminalStatus}
    {maximumBytes : Nat} {answer : TerminalReadResult}
    (read : terminalReadSnapshot status f.output f.client.cursor maximumBytes = .ok answer) :
    (f.client.receive answer).Sound f.stream := by
  obtain ⟨got, r, same, answers, -⟩ := sound.snapshot status maximumBytes
  cases (Except.ok.inj (read.symm.trans same))
  exact sound.client.receives sound.kept answers status

theorem followsSound {f next : Following} (sound : f.Sound) (step : Follows f next) :
    next.Sound := by
  cases step with
  | @output data some' small =>
    refine ⟨sound.kept.push some', ?_, sound.client.grows data⟩
    intro bytes member
    cases List.mem_append.mp member with
    | inl old => exact sound.small bytes old
    | inr new => rwa [List.mem_singleton.mp new]
  | answered idle accepted initial now => exact ⟨sound.kept, sound.small, sound.received initial⟩
  | waits idle accepted initial later => exact ⟨sound.kept, sound.small, sound.client⟩
  | woken pending final => exact ⟨sound.kept, sound.small, sound.received final⟩
  | abandoned => exact ⟨sound.kept, sound.small, sound.client⟩

theorem reachedSound {f : Following}
    (reached : Relation.ReflTransGen Follows Following.start f) : f.Sound := by
  induction reached with
  | refl => exact startSound
  | tail before step ih => exact followsSound ih step

structure OutputBuffer.Contiguous (b : OutputBuffer) : Prop where
  sequences : b.chunks.map (·.sequence) =
    List.range' (b.droppedThroughSequence + 1) (b.latestSequence - b.droppedThroughSequence)
  dropped : b.droppedThroughSequence ≤ b.latestSequence
  counted : b.bufferedBytes = bytesOf b.chunks
  bounded : b.bufferedBytes ≤ maxBufferedTerminalBytes

theorem OutputBuffer.Kept.contiguous {stream : List Bytes} {b : OutputBuffer}
    (kept : b.Kept stream) : b.Contiguous where
  sequences := by rw [kept.chunks, numberSequences, List.length_drop, kept.latest]
  dropped := by
    rw [kept.latest]
    exact kept.dropped
  counted := kept.counted
  bounded := kept.bounded

theorem Following.Sound.advances {f : Following} (sound : f.Sound) {maximumBytes wait : Nat}
    (accepted : validateRead maximumBytes wait = .ok ())
    (unread : ∃ chunk ∈ f.output.chunks, f.client.cursor < chunk.sequence)
    (status : TerminalStatus) :
    ∃ answer, terminalReadSnapshot status f.output f.client.cursor maximumBytes = .ok answer ∧
      answersAtOnce wait answer ∧ f.client.cursor < answer.nextSequence := by
  obtain ⟨got, r, same, answers, some'⟩ := sound.snapshot status maximumBytes
  obtain ⟨chunk, member, later⟩ := unread
  rw [sound.kept.chunks] at member
  have behind := numberLater member
  have within := numberWithin member
  rw [List.length_drop] at within
  have dropped := sound.kept.dropped
  have start : f.output.start f.client.cursor < f.stream.length := by
    unfold OutputBuffer.start
    omega
  have large : ∀ data ∈ f.stream, data.length ≤ maximumBytes := fun data held =>
    Nat.le_trans (sound.small data held) (validateReadAccepts accepted).1
  have filled := some' start large
  have count := List.length_pos_of_ne_nil filled
  have reach : f.client.cursor ≤ f.output.start f.client.cursor := Nat.le_max_left _ _
  refine ⟨_, same, ?_, ?_⟩
  · have here : r.chunks ≠ [] := by
      intro empty
      rw [answers.chunks] at empty
      have short := congrArg List.length empty
      rw [numberLength, List.length_nil] at short
      omega
    unfold answersAtOnce PollResult.withStatus
    simp [here]
  · show f.client.cursor < r.nextSequence
    rw [answers.next]
    omega

theorem cursorProtocol {f : Following}
    (reached : Relation.ReflTransGen Follows Following.start f) :
    f.output.Contiguous ∧
    (f.client.received.Pairwise (fun a b => a.sequence < b.sequence) ∧
      ∀ chunk ∈ f.client.received, chunk ∈ numberFrom 0 f.stream) ∧
    (∀ sequence, 0 < sequence → sequence ≤ f.client.cursor →
      (∃ chunk ∈ f.client.received, chunk.sequence = sequence) ∨
        ∃ gap ∈ f.client.gaps, gap.1 < sequence ∧ sequence ≤ gap.2) ∧
    (∀ status maximumBytes, ∃ answer,
      terminalReadSnapshot status f.output f.client.cursor maximumBytes = .ok answer ∧
        f.client.cursor ≤ answer.nextSequence) ∧
    ∀ maximumBytes wait, validateRead maximumBytes wait = .ok () →
      (∃ chunk ∈ f.output.chunks, f.client.cursor < chunk.sequence) →
      ∀ status, ∃ answer,
        terminalReadSnapshot status f.output f.client.cursor maximumBytes = .ok answer ∧
          answersAtOnce wait answer ∧ f.client.cursor < answer.nextSequence := by
  have sound := reachedSound reached
  refine ⟨sound.kept.contiguous, ⟨sound.client.ordered, ?_⟩, sound.client.covered, ?_, ?_⟩
  · exact fun chunk member => (sound.client.original chunk member).1
  · intro status maximumBytes
    obtain ⟨got, r, same, answers, -⟩ := sound.snapshot status maximumBytes
    have reach : f.client.cursor ≤ f.output.start f.client.cursor := Nat.le_max_left _ _
    have next : f.client.cursor ≤ r.nextSequence := by
      rw [answers.next]
      exact Nat.le_trans reach (Nat.le_add_right _ _)
    exact ⟨_, same, next⟩
  · exact fun maximumBytes wait accepted unread status => sound.advances accepted unread status

theorem cursorProtocolOnce :
    let f : Following := ⟨[[104, 105]], (OutputBuffer.default.push [104, 105]).1,
      ⟨1, [⟨1, [104, 105]⟩], []⟩, none⟩
    f.output.Contiguous ∧
    (f.client.received.Pairwise (fun a b => a.sequence < b.sequence) ∧
      ∀ chunk ∈ f.client.received, chunk ∈ numberFrom 0 f.stream) ∧
    (∀ sequence, 0 < sequence → sequence ≤ f.client.cursor →
      (∃ chunk ∈ f.client.received, chunk.sequence = sequence) ∨
        ∃ gap ∈ f.client.gaps, gap.1 < sequence ∧ sequence ≤ gap.2) ∧
    (∀ status maximumBytes, ∃ answer,
      terminalReadSnapshot status f.output f.client.cursor maximumBytes = .ok answer ∧
        f.client.cursor ≤ answer.nextSequence) ∧
    ∀ maximumBytes wait, validateRead maximumBytes wait = .ok () →
      (∃ chunk ∈ f.output.chunks, f.client.cursor < chunk.sequence) →
      ∀ status, ∃ answer,
        terminalReadSnapshot status f.output f.client.cursor maximumBytes = .ok answer ∧
          answersAtOnce wait answer ∧ f.client.cursor < answer.nextSequence :=
  cursorProtocol
    (.tail (.tail .refl
      (@Follows.output .start [104, 105] (by decide) (by decide)))
      (@Follows.answered ⟨[[104, 105]], (OutputBuffer.default.push [104, 105]).1, ⟨0, [], []⟩, none⟩
        ⟨0, .running, none⟩ 4096 0 ⟨0, [⟨1, [104, 105]⟩], 1, 1, false, none, .running, none⟩
        rfl rfl rfl rfl))

end Maestro.Terminal
