import Mathlib.Data.List.DropRight
import Maestro.RawCapture

/-! What the supervisor keeps of a child's output: the end of its standard error, and the
beginning of its protocol, which a client reads in pages while it grows. -/
namespace Maestro.RetainedOutput
open RawCapture

structure BoundedBytes where
  bytes : Bytes
  truncated : Bool
  deriving DecidableEq, Repr

namespace BoundedBytes

def default : BoundedBytes := ⟨[], false⟩

/-- The loop of `push` that drops the oldest bytes. -/
def popFront (limit : Nat) (truncated : Bool) : Bytes → BoundedBytes
  | [] => ⟨[], truncated⟩
  | byte :: rest => if limit < (byte :: rest).length then popFront limit true rest else ⟨byte :: rest, truncated⟩

def push (b : BoundedBytes) (data : Bytes) (limit : Nat) : BoundedBytes :=
  if limit = 0 then { b with truncated := b.truncated || data ≠ [] }
  else if limit ≤ data.length then ⟨data.drop (data.length - limit), true⟩
  else popFront limit b.truncated (b.bytes ++ data)

def pushAll (limit : Nat) (chunks : List Bytes) : BoundedBytes :=
  chunks.foldl (fun b chunk => b.push chunk limit) default

end BoundedBytes

/-- One chunk carries a whole stream of exactly the limit. -/
def Filled (limit : Nat) (chunks : List Bytes) : Prop :=
  0 < limit ∧ chunks.flatten.length = limit ∧ ∃ chunk ∈ chunks, chunk.length = limit

theorem popFrontDrop (limit : Nat) (truncated : Bool) (bytes : Bytes) :
    BoundedBytes.popFront limit truncated bytes =
      ⟨bytes.rtake limit, truncated || decide (limit < bytes.length)⟩ := by
  induction bytes generalizing truncated with
  | nil => simp [BoundedBytes.popFront, List.rtake]
  | cons byte rest ih =>
    unfold BoundedBytes.popFront
    split
    · rename_i beyond
      have more : (byte :: rest).length - limit = rest.length - limit + 1 := by
        rw [List.length_cons] at beyond ⊢
        omega
      rw [ih, List.rtake, List.rtake, more, List.drop_succ_cons, decide_eq_true beyond, Bool.true_or, Bool.or_true]
    · rename_i fits
      have none' : (byte :: rest).length - limit = 0 := by omega
      rw [List.rtake, none', List.drop_zero, decide_eq_false fits, Bool.or_false]

theorem rtakeLong {limit : Nat} {stream chunk : Bytes} (long : limit ≤ chunk.length) :
    (stream ++ chunk).rtake limit = chunk.drop (chunk.length - limit) := by
  have inside : (stream ++ chunk).length - limit = stream.length + (chunk.length - limit) := by
    rw [List.length_append]
    omega
  rw [List.rtake, inside, List.drop_append, List.drop_eq_nil_of_le (Nat.le_add_right _ _), Nat.add_sub_cancel_left,
    List.nil_append]

theorem rtakeLength (limit : Nat) (stream : Bytes) : (stream.rtake limit).length = min limit stream.length := by
  rw [List.rtake, List.length_drop]
  omega

theorem rtakeAppend (limit : Nat) (stream chunk : Bytes) :
    (stream.rtake limit ++ chunk).rtake limit = (stream ++ chunk).rtake limit := by
  have same : stream.rtake limit ++ chunk = (stream ++ chunk).drop (stream.length - limit) := by
    rw [List.rtake, List.drop_append_of_le_length (Nat.sub_le _ _)]
  have amount : stream.length - limit + ((stream.length + chunk.length - (stream.length - limit)) - limit) =
      stream.length + chunk.length - limit := by
    omega
  rw [same, List.rtake, List.rtake, List.drop_drop, List.length_drop, List.length_append, amount]

theorem filledConcat {limit : Nat} {chunks : List Bytes} {chunk : Bytes} (short : chunk.length < limit) :
    limit < (chunks.flatten ++ chunk).length ∨ Filled limit (chunks ++ [chunk]) ↔
      (limit < chunks.flatten.length ∨ Filled limit chunks) ∨ limit < min limit chunks.flatten.length + chunk.length := by
  have whole : (chunks ++ [chunk]).flatten.length = chunks.flatten.length + chunk.length := by simp
  have carried : (∃ other ∈ chunks ++ [chunk], other.length = limit) ↔ ∃ other ∈ chunks, other.length = limit := by
    constructor
    · rintro ⟨other, member, same⟩
      rcases List.mem_append.mp member with before | here
      · exact ⟨other, before, same⟩
      · rw [List.mem_singleton.mp here] at same
        omega
    · rintro ⟨other, member, same⟩
      exact ⟨other, List.mem_append_left _ member, same⟩
  have inside : (∃ other ∈ chunks, other.length = limit) → limit ≤ chunks.flatten.length := by
    rintro ⟨other, member, rfl⟩
    exact (List.sublist_flatten_of_mem member).length_le
  unfold Filled
  rw [carried, whole, List.length_append]
  constructor
  · rintro (beyond | ⟨positive, total, one⟩)
    · omega
    · have := inside one
      exact .inl (.inr ⟨positive, by omega, one⟩)
  · rintro ((beyond | ⟨positive, total, one⟩) | beyond)
    · omega
    · by_cases empty : chunk.length = 0
      · exact .inr ⟨positive, by omega, one⟩
      · omega
    · omega

theorem pushAllKeeps (limit : Nat) (chunks : List Bytes) :
    (BoundedBytes.pushAll limit chunks).bytes = chunks.flatten.rtake limit ∧
      ((BoundedBytes.pushAll limit chunks).truncated = true ↔ limit < chunks.flatten.length ∨ Filled limit chunks) := by
  induction chunks using List.reverseRecOn with
  | nil => simp [BoundedBytes.pushAll, BoundedBytes.default, List.rtake, Filled]
  | append_singleton chunks chunk ih =>
    obtain ⟨content, flag⟩ := ih
    have last : BoundedBytes.pushAll limit (chunks ++ [chunk]) = (BoundedBytes.pushAll limit chunks).push chunk limit := by
      simp [BoundedBytes.pushAll]
    have joined : (chunks ++ [chunk]).flatten = chunks.flatten ++ chunk := by simp
    rw [last, joined, BoundedBytes.push]
    split
    · rename_i none'
      subst none'
      have empty : ∀ stream : Bytes, stream.rtake 0 = [] := fun stream => by simp [List.rtake]
      refine ⟨by rw [content, empty, empty], ?_⟩
      simp only [Bool.or_eq_true, flag, decide_eq_true_eq, Filled, Nat.lt_irrefl, false_and, or_false,
        List.length_append, ne_eq, ← List.length_eq_zero_iff]
      omega
    · rename_i positive
      split
      · rename_i long
        refine ⟨(rtakeLong long).symm, ?_⟩
        simp only [true_iff]
        rcases Nat.lt_or_ge limit (chunks.flatten ++ chunk).length with beyond | exact'
        · exact .inl beyond
        · rw [List.length_append] at exact'
          refine .inr ⟨by omega, ?_, chunk, by simp, by omega⟩
          rw [joined, List.length_append]
          omega
      · rename_i short
        have short := Nat.lt_of_not_le short
        rw [popFrontDrop, content]
        refine ⟨rtakeAppend _ _ _, ?_⟩
        rw [filledConcat short, Bool.or_eq_true, flag, decide_eq_true_eq, List.length_append, rtakeLength]

/-- The content is always right; the flag is, unless one chunk fills the limit exactly. -/
theorem stderrTail (limit : Nat) (chunks : List Bytes) :
    (BoundedBytes.pushAll limit chunks).bytes = chunks.flatten.rtake limit ∧
      ((BoundedBytes.pushAll limit chunks).truncated = decide (limit < chunks.flatten.length) ↔ ¬ Filled limit chunks) ∧
      ∀ other, other.flatten = chunks.flatten →
        (BoundedBytes.pushAll limit other).bytes = (BoundedBytes.pushAll limit chunks).bytes ∧
          ((BoundedBytes.pushAll limit other).truncated = (BoundedBytes.pushAll limit chunks).truncated ↔
            (Filled limit other ↔ Filled limit chunks)) := by
  obtain ⟨content, flag⟩ := pushAllKeeps limit chunks
  have exactly : ∀ {chunks : List Bytes}, Filled limit chunks → ¬ limit < chunks.flatten.length := fun filled => by
    rw [filled.2.1]
    exact Nat.lt_irrefl _
  refine ⟨content, ?_, fun other same => ?_⟩
  · rw [Bool.eq_iff_iff, flag, decide_eq_true_eq]
    constructor
    · exact fun right filled => exactly filled (right.mp (.inr filled))
    · exact fun unfilled => or_iff_left unfilled
  · obtain ⟨content', flag'⟩ := pushAllKeeps limit other
    refine ⟨by rw [content', content, same], ?_⟩
    rw [Bool.eq_iff_iff, flag', flag, same]
    constructor
    · intro right
      constructor
      · exact fun filled => (right.mp (.inr filled)).resolve_left (same ▸ exactly filled)
      · exact fun filled => (right.mpr (.inr filled)).resolve_left (exactly filled)
    · exact fun filled => or_congr_right filled

/-- Five bytes in one chunk are kept whole within a limit of five, and marked as truncated. -/
theorem filledMarked : (BoundedBytes.pushAll 5 [[1, 2, 3, 4, 5]]).bytes = [1, 2, 3, 4, 5] ∧
    (BoundedBytes.pushAll 5 [[1, 2, 3, 4, 5]]).truncated = true ∧
    (BoundedBytes.pushAll 5 [[1, 2], [3, 4, 5]]).truncated = false := by
  decide

def maxSessionRawReadBytes : Nat := 256 * 1024

structure PageSize where
  bytes : Nat
  positive : 0 < bytes
  bounded : bytes ≤ maxSessionRawReadBytes

inductive Turn where
  | push (input : Bytes)
  | finalize
  | page (size : PageSize)

def Turn.input : Turn → Bytes
  | .push input => input
  | .finalize | .page _ => []

/-- A capture, and a client that reads it: the cursor of its next page, and what its pages held. -/
structure Paging where
  capture : FakeRawProtocolCapture
  offset : Nat
  received : Bytes
  refused : Bool

namespace Paging

def start : Paging := ⟨.new, 0, [], false⟩

def turn (limit sessionId runId : Nat) (p : Paging) : Turn → Paging
  | .push input => { p with capture := p.capture.push input limit }
  | .finalize => { p with capture := { p.capture with complete := true } }
  | .page size =>
    match rawBatch sessionId runId p.capture p.offset size.bytes with
    | .error _ => { p with refused := true }
    | .ok batch => { p with offset := batch.nextOffset, received := p.received ++ batch.data }

def run (limit sessionId runId : Nat) (turns : List Turn) : Paging := turns.foldl (turn limit sessionId runId) start

end Paging

/-- What a capture holds of the bytes pushed into it. -/
structure Captures (limit : Nat) (pushed : Bytes) (capture : FakeRawProtocolCapture) : Prop where
  bytes : capture.bytes = pushed.take limit
  observed : capture.observedByteCount = min pushed.length FakeRawProtocolCapture.maxCount
  truncated : capture.truncated = true ↔ limit < pushed.length ∨ FakeRawProtocolCapture.maxCount ≤ pushed.length

theorem capturesPush {limit : Nat} {pushed : Bytes} {capture : FakeRawProtocolCapture}
    (captures : Captures limit pushed capture) (input : Bytes) :
    Captures limit (pushed ++ input) (capture.push input limit) := by
  have held : capture.bytes.length = min limit pushed.length := by rw [captures.bytes, List.length_take]
  refine ⟨?_, ?_, ?_⟩
  · have part : input.take (min (limit - capture.bytes.length) input.length) = input.take (limit - pushed.length) := by
      rw [List.take_eq_take_iff, held]
      omega
    rw [FakeRawProtocolCapture.push]
    dsimp only
    rw [part, captures.bytes, List.take_append]
  · rw [FakeRawProtocolCapture.push]
    dsimp only
    rw [captures.observed, List.length_append]
    omega
  · rw [FakeRawProtocolCapture.push]
    simp only [Bool.or_eq_true, captures.truncated, decide_eq_true_eq, captures.observed, held, List.length_append,
      ne_eq, ← List.length_eq_zero_iff]
    omega

/-- What a client has received is the beginning of the capture up to its cursor. -/
structure Follows (p : Paging) : Prop where
  accepted : p.refused = false
  inside : p.offset ≤ p.capture.bytes.length
  received : p.received = p.capture.bytes.take p.offset

theorem pageAt (sessionId runId size : Nat) {offset : Nat} {capture : FakeRawProtocolCapture}
    (inside : offset ≤ capture.bytes.length) :
    ∃ batch, rawBatch sessionId runId capture offset size = .ok batch ∧
      batch.nextOffset = min (offset + size) capture.bytes.length ∧
      batch.data = (capture.bytes.drop offset).take size ∧
      (capture.bytes.take offset) ++ batch.data = capture.bytes.take batch.nextOffset := by
  refine ⟨_, if_neg (Nat.not_lt.mpr inside), rfl, ?_, ?_⟩
  · dsimp only
    rw [List.drop_take, List.take_eq_take_iff, List.length_drop]
    omega
  · dsimp only
    have back := List.take_append_drop offset (capture.bytes.take (min (offset + size) capture.bytes.length))
    rwa [List.take_take, Nat.min_eq_left (by omega)] at back

variable {limit sessionId runId : Nat}

theorem followsTurn {p : Paging} (follows : Follows p) (turn : Turn) :
    Follows (p.turn limit sessionId runId turn) := by
  cases turn with
  | push input =>
    have grown : p.capture.bytes <+: (p.capture.push input limit).bytes := List.prefix_append _ _
    refine ⟨follows.accepted, follows.inside.trans grown.length_le, ?_⟩
    have same : (p.capture.push input limit).bytes.take p.offset = p.capture.bytes.take p.offset :=
      List.take_append_of_le_length follows.inside
    exact follows.received.trans same.symm
  | finalize => exact ⟨follows.accepted, follows.inside, follows.received⟩
  | page size =>
    obtain ⟨batch, answered, next, _, joined⟩ := pageAt sessionId runId size.bytes follows.inside
    rw [Paging.turn, answered]
    refine ⟨follows.accepted, ?_, ?_⟩ <;> dsimp only
    · rw [next]
      exact Nat.min_le_right _ _
    · rw [← joined, ← follows.received]

theorem turnCaptures {p : Paging} {pushed : Bytes} (captures : Captures limit pushed p.capture) (turn : Turn) :
    Captures limit (pushed ++ turn.input) (p.turn limit sessionId runId turn).capture := by
  cases turn with
  | push input => exact capturesPush captures input
  | finalize =>
    rw [Turn.input, List.append_nil]
    exact ⟨captures.bytes, captures.observed, captures.truncated⟩
  | page size =>
    rw [Turn.input, List.append_nil, Paging.turn]
    split <;> exact captures

theorem runFollows (turns : List Turn) : Follows (Paging.run limit sessionId runId turns) ∧
    Captures limit (turns.flatMap Turn.input) (Paging.run limit sessionId runId turns).capture := by
  induction turns using List.reverseRecOn with
  | nil =>
    refine ⟨⟨rfl, Nat.zero_le _, rfl⟩, List.take_nil.symm, rfl, ?_⟩
    constructor
    · exact fun flag => absurd flag Bool.false_ne_true
    · rintro (beyond | full)
      · exact absurd beyond (Nat.not_lt_zero _)
      · exact absurd full (by decide)
  | append_singleton turns turn ih =>
    have last : Paging.run limit sessionId runId (turns ++ [turn]) =
        (Paging.run limit sessionId runId turns).turn limit sessionId runId turn := by
      simp [Paging.run]
    rw [last, List.flatMap_append, List.flatMap_singleton]
    exact ⟨followsTurn ih.1 turn, turnCaptures ih.2 turn⟩

theorem pagesReach {p : Paging} (follows : Follows p) (sizes : List PageSize)
    (enough : p.capture.bytes.length ≤ p.offset + sizes.length) :
    ((sizes.map Turn.page).foldl (Paging.turn limit sessionId runId) p).received = p.capture.bytes := by
  induction sizes generalizing p with
  | nil => exact follows.received.trans (List.take_of_length_le enough)
  | cons size sizes ih =>
    obtain ⟨batch, answered, next, _, _⟩ := pageAt sessionId runId size.bytes follows.inside
    have turned : p.turn limit sessionId runId (.page size) =
        { p with offset := batch.nextOffset, received := p.received ++ batch.data } := by
      rw [Paging.turn, answered]
    have still : (p.turn limit sessionId runId (.page size)).capture = p.capture := by rw [turned]
    have positive := size.positive
    rw [List.length_cons] at enough
    rw [List.map_cons, List.foldl_cons, ih (followsTurn follows _), still]
    rw [turned]
    dsimp only
    omega

/-- After any pushes and pages the capture is the beginning of what was pushed, and the client has the
beginning of the capture up to its cursor. Its next page goes on from there, with at least a byte
where there is one, and enough pages end with the whole capture. -/
theorem capturePaged (limit sessionId runId : Nat) (turns : List Turn) :
    let p := Paging.run limit sessionId runId turns
    Captures limit (turns.flatMap Turn.input) p.capture ∧ p.refused = false ∧
      p.offset ≤ p.capture.bytes.length ∧ p.received = p.capture.bytes.take p.offset ∧
      (∀ size : PageSize, ∃ batch, rawBatch sessionId runId p.capture p.offset size.bytes = .ok batch ∧
        batch.data = (p.capture.bytes.drop p.offset).take size.bytes ∧
        batch.nextOffset = p.offset + batch.data.length ∧ (p.offset < p.capture.bytes.length → batch.data ≠ [])) ∧
      ∀ sizes : List PageSize, p.capture.bytes.length ≤ p.offset + sizes.length →
        (Paging.run limit sessionId runId (turns ++ sizes.map Turn.page)).received = p.capture.bytes := by
  intro p
  obtain ⟨follows, captures⟩ : Follows p ∧ Captures limit (turns.flatMap Turn.input) p.capture := runFollows turns
  refine ⟨captures, follows.accepted, follows.inside, follows.received, fun size => ?_, fun sizes enough => ?_⟩
  · obtain ⟨batch, answered, next, data, _⟩ := pageAt sessionId runId size.bytes follows.inside
    have positive := size.positive
    have length : batch.data.length = min size.bytes (p.capture.bytes.length - p.offset) := by
      rw [data, List.length_take, List.length_drop]
    have inside := follows.inside
    refine ⟨batch, answered, data, by omega, fun more empty => ?_⟩
    rw [empty, List.length_nil] at length
    omega
  · rw [Paging.run, List.foldl_append]
    exact pagesReach follows sizes enough

end Maestro.RetainedOutput
