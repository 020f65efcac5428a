import Maestro.JsonLines
import Maestro.LineReading

/-! The adapters' decoder of JSON lines, which bounds what one push may hold, and the
encoder of a line. It reads a stream as the decoder of the child's output does. -/
namespace Maestro

open LineReading

def maximumJsonlFrameBytes : Nat := 1024 * 1024

def maximumJsonlFramesPerPush : Nat := 1024

def maximumJsonlBatchBytes : Nat := (maximumJsonlFrameBytes + 1) * 4

inductive JsonLineError where
  | invalidFrameLimit (requested maximum : Nat)
  | frameTooLarge (limit : Nat)
  | batchTooLarge (limit : Nat)
  | tooManyFrames (limit : Nat)
  | invalidJson (text : String)
  | incompleteFrame
  | poisoned
  deriving DecidableEq, Repr

structure DecodedJsonLines where
  frames : List Value
  terminalError : Option JsonLineError
  deriving Repr

def validateFrameLimit (maximumFrameBytes : Nat) : Except JsonLineError Unit :=
  if maximumFrameBytes = 0 ∨ maximumFrameBytes > maximumJsonlFrameBytes then
    .error (.invalidFrameLimit maximumFrameBytes maximumJsonlFrameBytes)
  else .ok ()

structure BoundedJsonLineDecoder where
  maximumFrameBytes : Nat
  maximumBatchBytes : Nat
  maximumFramesPerPush : Nat
  buffer : Bytes
  poisoned : Bool
  deriving DecidableEq, Repr

/-- What the code relies on of the JSON parser and printer. -/
structure Serde where
  fromSlice : Bytes → Except String Value
  toVec : Value → Except String Bytes

namespace BoundedJsonLineDecoder

def new (maximumFrameBytes : Nat) : Except JsonLineError BoundedJsonLineDecoder := do
  validateFrameLimit maximumFrameBytes
  return {
    maximumFrameBytes
    maximumBatchBytes := min ((maximumFrameBytes + 1) * 4) maximumJsonlBatchBytes
    maximumFramesPerPush := maximumJsonlFramesPerPush
    buffer := []
    poisoned := false }

def clearBuffer (d : BoundedJsonLineDecoder) : BoundedJsonLineDecoder := { d with buffer := [] }

def poison (d : BoundedJsonLineDecoder) : BoundedJsonLineDecoder :=
  { d with poisoned := true }.clearBuffer

def extendChecked (d : BoundedJsonLineDecoder) (bytes : Bytes) :
    BoundedJsonLineDecoder × Option JsonLineError :=
  if bytes.length > d.maximumFrameBytes - d.buffer.length then
    (d.poison, some (.frameTooLarge d.maximumFrameBytes))
  else ({ d with buffer := d.buffer ++ bytes }, none)

/-- The loop of `push` over the segments that end in a newline. -/
def pushSegments (serde : Serde) (d : BoundedJsonLineDecoder) (frames : List Value) :
    List Bytes → BoundedJsonLineDecoder × DecodedJsonLines
  | [] => (d, ⟨frames, none⟩)
  | segment :: more =>
    if frames.length ≥ d.maximumFramesPerPush then
      (d.poison, ⟨frames, some (.tooManyFrames d.maximumFramesPerPush)⟩)
    else
      match d.extendChecked segment with
      | (d, some error) => (d, ⟨frames, some error⟩)
      | (d, none) =>
        match serde.fromSlice (JsonLineDecoder.line d.buffer) with
        | .error text => (d.poison, ⟨frames, some (.invalidJson text)⟩)
        | .ok frame => d.clearBuffer.pushSegments serde (frames ++ [frame]) more

def push (serde : Serde) (d : BoundedJsonLineDecoder) (chunk : Bytes) :
    BoundedJsonLineDecoder × DecodedJsonLines :=
  if d.poisoned then (d, ⟨[], some .poisoned⟩)
  else
    let cut := segments (chunk.take d.maximumBatchBytes)
    match d.pushSegments serde [] cut.1 with
    | (d, ⟨frames, some error⟩) => (d, ⟨frames, some error⟩)
    | (d, ⟨frames, none⟩) =>
      if chunk.length > d.maximumBatchBytes then
        (d.poison, ⟨frames, some (.batchTooLarge d.maximumBatchBytes)⟩)
      else
        let extended := d.extendChecked cut.2
        (extended.1, ⟨frames, extended.2⟩)

def finish (d : BoundedJsonLineDecoder) : BoundedJsonLineDecoder × Option JsonLineError :=
  if d.poisoned then (d, some .poisoned)
  else if d.buffer = [] then (d, none)
  else (d.poison, some .incompleteFrame)

def Admits (d : BoundedJsonLineDecoder) (chunk : Bytes) : Prop :=
  chunk.length ≤ d.maximumBatchBytes ∧ chunk.count 10 ≤ d.maximumFramesPerPush

instance (d : BoundedJsonLineDecoder) (chunk : Bytes) : Decidable (d.Admits chunk) :=
  inferInstanceAs (Decidable (_ ∧ _))

def pushes (serde : Serde) (d : BoundedJsonLineDecoder) :
    List Bytes → BoundedJsonLineDecoder × List DecodedJsonLines
  | [] => (d, [])
  | chunk :: more =>
    let pushed := d.push serde chunk
    let after := pushed.1.pushes serde more
    (after.1, pushed.2 :: after.2)

end BoundedJsonLineDecoder

def encodeJsonLine (serde : Serde) (value : Value) (maximumFrameBytes : Nat) :
    Except JsonLineError Bytes := do
  validateFrameLimit maximumFrameBytes
  let bytes ← (serde.toVec value).mapError JsonLineError.invalidJson
  if bytes.length > maximumFrameBytes then .error (.frameTooLarge maximumFrameBytes)
  else return bytes ++ [10]

namespace JsonLineDecoder

def pushes (fromSlice : Bytes → Option Value) (maximumFrameBytes : Nat) (d : JsonLineDecoder) :
    List Bytes → JsonLineDecoder × List DecodeBatch
  | [] => (d, [])
  | chunk :: more =>
    let pushed := d.push fromSlice maximumFrameBytes chunk
    let after := pushed.1.pushes fromSlice maximumFrameBytes more
    (after.1, pushed.2 :: after.2)

end JsonLineDecoder

section Reads

variable {serde : Serde} {d : BoundedJsonLineDecoder}

def Serde.decodeLine (serde : Serde) (raw : Bytes) : Except String Value :=
  serde.fromSlice (JsonLineDecoder.line raw)

namespace BoundedJsonLineDecoder

def blame (d : BoundedJsonLineDecoder) : Fault String → JsonLineError
  | .tooLong => .frameTooLarge d.maximumFrameBytes
  | .malformed text => .invalidJson text

def took (d : BoundedJsonLineDecoder) (reading : Reading Value String) :
    BoundedJsonLineDecoder × DecodedJsonLines :=
  match reading.fault with
  | none => ({ d with buffer := reading.pending }, ⟨reading.values, none⟩)
  | some fault => (d.poison, ⟨reading.values, some (d.blame fault)⟩)

structure Open (d : BoundedJsonLineDecoder) : Prop where
  clean : d.poisoned = false
  fits : d.buffer.length ≤ d.maximumFrameBytes

theorem extendFits {bytes : Bytes} (room : d.buffer.length + bytes.length ≤ d.maximumFrameBytes) :
    d.extendChecked bytes = ({ d with buffer := d.buffer ++ bytes }, none) := by
  have small : ¬ bytes.length > d.maximumFrameBytes - d.buffer.length := by omega
  rw [extendChecked, if_neg small]

theorem extendOver {bytes : Bytes} (isOpen : d.Open)
    (long : ¬ d.buffer.length + bytes.length ≤ d.maximumFrameBytes) :
    d.extendChecked bytes = (d.poison, some (.frameTooLarge d.maximumFrameBytes)) := by
  have large : bytes.length > d.maximumFrameBytes - d.buffer.length := by
    have fits := isOpen.fits
    omega
  rw [extendChecked, if_pos large]

theorem pushSegmentsReads (isOpen : d.Open) {complete : List Bytes} {frames : List Value}
    (inside : ∀ segment ∈ complete, (10 : UInt8) ∉ segment)
    (few : frames.length + complete.length ≤ d.maximumFramesPerPush) :
    d.pushSegments serde frames complete =
      let reading := d.took (readBytes serde.decodeLine d.maximumFrameBytes d.buffer
        (complete.flatMap (· ++ [10])))
      (reading.1, { reading.2 with frames := frames ++ reading.2.frames }) := by
  induction complete generalizing d frames with
  | nil => simp [pushSegments, readBytes, took]
  | cons segment more ih =>
    obtain ⟨here, later⟩ := List.forall_mem_cons.mp inside
    rw [List.length_cons] at few
    have spare : ¬ frames.length ≥ d.maximumFramesPerPush := by omega
    have line := readLine serde.decodeLine here d.buffer
      (more.flatMap (· ++ [10])) isOpen.fits
    rw [List.flatMap_cons, List.append_assoc, List.singleton_append, line, pushSegments,
      if_neg spare]
    by_cases room : d.buffer.length + segment.length ≤ d.maximumFrameBytes
    · rw [if_pos room, extendFits room]
      simp only [Serde.decodeLine]
      cases parsed : serde.fromSlice (JsonLineDecoder.line (d.buffer ++ segment)) with
      | error text => simp [took, blame, poison, clearBuffer]
      | ok frame =>
        have cleared : ({ d with buffer := d.buffer ++ segment } : BoundedJsonLineDecoder).clearBuffer
            = { d with buffer := [] } := rfl
        have fresh : ({ d with buffer := [] } : BoundedJsonLineDecoder).Open :=
          ⟨isOpen.clean, Nat.zero_le _⟩
        simp only [cleared]
        rw [ih fresh later (by simp only [List.length_append, List.length_singleton]; omega)]
        simp only [took]
        split <;> simp_all [poison, clearBuffer, blame]
    · rw [if_neg room, extendOver isOpen room]
      simp [took, blame]

theorem pushReads (isOpen : d.Open) {chunk : Bytes} (admits : d.Admits chunk) :
    d.push serde chunk = d.took (readBytes serde.decodeLine d.maximumFrameBytes d.buffer chunk) := by
  obtain ⟨short, few⟩ := admits
  have small : ¬ chunk.length > d.maximumBatchBytes := Nat.not_lt.mpr short
  have inside := segmentsInside chunk
  have counted : ([] : List Value).length + (segments chunk).1.length ≤ d.maximumFramesPerPush := by
    rw [segmentsLength]
    simpa using few
  have whole : readBytes serde.decodeLine d.maximumFrameBytes d.buffer chunk = _ :=
    (congrArg _ (segmentsJoined chunk).symm).trans (readAppend _ _ _ _)
  rw [push, isOpen.clean, whole]
  simp only [Bool.false_eq_true, if_false, List.take_of_length_le short,
    pushSegmentsReads isOpen inside.1 counted, List.nil_append]
  have fits := readPending serde.decodeLine
    ((segments chunk).1.flatMap (· ++ [10])) isOpen.fits
  generalize readBytes serde.decodeLine d.maximumFrameBytes d.buffer
    ((segments chunk).1.flatMap (· ++ [10])) = reading at fits
  obtain ⟨pending, values, fault⟩ := reading
  cases fault with
  | some fault => simp [took, Reading.andThen]
  | none =>
    have later : ({ d with buffer := pending } : BoundedJsonLineDecoder).Open :=
      ⟨isOpen.clean, fits⟩
    have rest := readInside serde.decodeLine inside.2 pending fits
    simp only [took, Reading.andThen, if_neg small, rest]
    by_cases room : pending.length + (segments chunk).2.length ≤ d.maximumFrameBytes
    · rw [extendFits room, if_pos room]
      simp
    · rw [extendOver later room, if_neg room]
      simp [blame, poison, clearBuffer]

theorem tookOpen (isOpen : d.Open) {reading : Reading Value String}
    (fits : reading.pending.length ≤ d.maximumFrameBytes) (fine : reading.fault = none) :
    (d.took reading).1.Open := by
  rw [took, fine]
  exact ⟨isOpen.clean, fits⟩

structure SameLimits (d e : BoundedJsonLineDecoder) : Prop where
  frame : e.maximumFrameBytes = d.maximumFrameBytes
  batch : e.maximumBatchBytes = d.maximumBatchBytes
  frames : e.maximumFramesPerPush = d.maximumFramesPerPush

theorem SameLimits.trans {e f : BoundedJsonLineDecoder} (first : d.SameLimits e)
    (second : e.SameLimits f) : d.SameLimits f :=
  ⟨second.frame.trans first.frame, second.batch.trans first.batch, second.frames.trans first.frames⟩

theorem SameLimits.poison {e : BoundedJsonLineDecoder} (limits : d.SameLimits e) :
    d.SameLimits e.poison := ⟨limits.frame, limits.batch, limits.frames⟩

theorem SameLimits.admits {e : BoundedJsonLineDecoder} (limits : d.SameLimits e) (chunk : Bytes) :
    e.Admits chunk ↔ d.Admits chunk := by
  rw [Admits, Admits, limits.batch, limits.frames]

theorem tookLimits (reading : Reading Value String) : d.SameLimits (d.took reading).1 := by
  unfold took
  split <;> exact ⟨rfl, rfl, rfl⟩

def decoded (answers : List DecodedJsonLines) : List Value := answers.flatMap (·.frames)

def firstError (answers : List DecodedJsonLines) : Option JsonLineError :=
  answers.findSome? (·.terminalError)

theorem pushesPoisoned (poisoned : d.poisoned = true) (chunks : List Bytes) :
    d.pushes serde chunks = (d, chunks.map fun _ => ⟨[], some .poisoned⟩) := by
  induction chunks with
  | nil => rfl
  | cons chunk more ih =>
    have refused : d.push serde chunk = (d, ⟨[], some .poisoned⟩) := by rw [push, if_pos poisoned]
    simp only [pushes, refused, ih, List.map_cons]

theorem pushesRead (isOpen : d.Open) {chunks : List Bytes}
    (admits : ∀ chunk ∈ chunks, d.Admits chunk) :
    let reading := readBytes serde.decodeLine d.maximumFrameBytes d.buffer chunks.flatten
    (d.pushes serde chunks).1 = (d.took reading).1 ∧
    decoded (d.pushes serde chunks).2 = reading.values ∧
    firstError (d.pushes serde chunks).2 = reading.fault.map d.blame := by
  induction chunks generalizing d with
  | nil => exact ⟨rfl, rfl, rfl⟩
  | cons chunk more ih =>
    obtain ⟨here, later⟩ := List.forall_mem_cons.mp admits
    have fits := readPending serde.decodeLine chunk isOpen.fits
    simp only [pushes, pushReads isOpen here, List.flatten_cons, readAppend]
    generalize readBytes serde.decodeLine d.maximumFrameBytes d.buffer chunk = reading at fits
    cases fault : reading.fault with
    | none =>
      have limits : d.SameLimits (d.took reading).1 := tookLimits reading
      have next := ih (tookOpen isOpen fits fault) fun chunk member =>
        (limits.admits chunk).mpr (later chunk member)
      rw [limits.frame] at next
      simp only [took, fault] at next ⊢
      obtain ⟨last, values, error⟩ := next
      refine ⟨?_, ?_, ?_⟩
      · rw [last]
        simp only [Reading.andThen, fault]
        split <;> rfl
      · simp only [decoded, List.flatMap_cons, Reading.andThen, fault] at values ⊢
        rw [values]
      · simp only [firstError, List.findSome?_cons, Reading.andThen, fault] at error ⊢
        rw [error]
        rfl
    | some fault' =>
      have poisoned : (d.took reading).1.poisoned = true := by
        rw [took, fault]
        rfl
      simp only [pushesPoisoned poisoned, Reading.andThen, fault]
      simp only [took, fault, decoded, firstError, List.flatMap_cons, List.findSome?_cons]
      exact ⟨trivial, by simp, rfl⟩

theorem newOpen {limit : Nat} (made : new limit = .ok d) :
    d.Open ∧ d.maximumFrameBytes = limit ∧ d.buffer = [] ∧ d.poisoned = false := by
  unfold new at made
  cases valid : validateFrameLimit limit with
  | error error => simp [valid, bind, Except.bind] at made
  | ok =>
    simp only [valid, bind, Except.bind, pure, Except.pure, Except.ok.injEq] at made
    subst made
    exact ⟨⟨rfl, Nat.zero_le _⟩, rfl, rfl, rfl⟩

inductive Uses (serde : Serde) (d : BoundedJsonLineDecoder) : BoundedJsonLineDecoder → Prop where
  | none : Uses serde d d
  | push {e : BoundedJsonLineDecoder} (chunk : Bytes) (before : Uses serde d e) :
      Uses serde d (e.push serde chunk).1
  | finish {e : BoundedJsonLineDecoder} (before : Uses serde d e) : Uses serde d e.finish.1

def Settled (d : BoundedJsonLineDecoder) (error : Option JsonLineError) : Prop :=
  d.buffer.length ≤ d.maximumFrameBytes ∧ (error ≠ none → d.poisoned = true)

theorem settledPoison (error : Option JsonLineError) : d.poison.Settled error :=
  ⟨Nat.zero_le _, fun _ => rfl⟩

theorem extendSettled (fits : d.buffer.length ≤ d.maximumFrameBytes) (bytes : Bytes) :
    (d.extendChecked bytes).1.Settled (d.extendChecked bytes).2 := by
  unfold extendChecked
  split
  · exact settledPoison _
  · have room : (d.buffer ++ bytes).length ≤ d.maximumFrameBytes := by
      rw [List.length_append]
      omega
    exact ⟨room, fun failed => absurd rfl failed⟩

theorem pushSegmentsSettled (fits : d.buffer.length ≤ d.maximumFrameBytes) (frames : List Value)
    (complete : List Bytes) :
    (d.pushSegments serde frames complete).1.Settled
      (d.pushSegments serde frames complete).2.terminalError := by
  induction complete generalizing d frames with
  | nil => exact ⟨fits, fun failed => absurd rfl failed⟩
  | cons segment more ih =>
    have extended := extendSettled fits segment
    rw [pushSegments]
    split
    · exact settledPoison _
    · split
      · rename_i next error same
        rwa [same] at extended
      · split
        · exact settledPoison _
        · exact ih (Nat.zero_le _) _

theorem pushSettled (fits : d.buffer.length ≤ d.maximumFrameBytes) (chunk : Bytes) :
    (d.push serde chunk).1.Settled (d.push serde chunk).2.terminalError := by
  have cut : (d.pushSegments serde [] (segments (chunk.take d.maximumBatchBytes)).1).1.Settled _ :=
    pushSegmentsSettled fits [] _
  unfold push
  split
  · rename_i poisoned
    exact ⟨fits, fun _ => poisoned⟩
  · dsimp only
    split
    · rename_i next frames error same
      rwa [same] at cut
    · rename_i next frames same
      rw [same] at cut
      split
      · exact settledPoison _
      · exact extendSettled cut.1 _

theorem extendLimits (d : BoundedJsonLineDecoder) (bytes : Bytes) :
    d.SameLimits (d.extendChecked bytes).1 := by
  unfold extendChecked
  split <;> exact ⟨rfl, rfl, rfl⟩

theorem pushSegmentsLimits (d : BoundedJsonLineDecoder) (frames : List Value)
    (complete : List Bytes) : d.SameLimits (d.pushSegments serde frames complete).1 := by
  induction complete generalizing d frames with
  | nil => exact ⟨rfl, rfl, rfl⟩
  | cons segment more ih =>
    have extended := extendLimits d segment
    rw [pushSegments]
    split
    · exact ⟨rfl, rfl, rfl⟩
    · split
      · rename_i next error same
        rwa [same] at extended
      · rename_i next same
        rw [same] at extended
        split
        · exact SameLimits.poison extended
        · have cleared : d.SameLimits next.clearBuffer :=
            ⟨extended.frame, extended.batch, extended.frames⟩
          exact cleared.trans (ih next.clearBuffer _)

theorem pushLimits (d : BoundedJsonLineDecoder) (chunk : Bytes) :
    d.SameLimits (d.push serde chunk).1 := by
  have cut : d.SameLimits (d.pushSegments serde [] (segments (chunk.take d.maximumBatchBytes)).1).1 :=
    pushSegmentsLimits d [] _
  unfold push
  split
  · exact ⟨rfl, rfl, rfl⟩
  · dsimp only
    split
    · rename_i next frames error same
      rwa [same] at cut
    · rename_i next frames same
      rw [same] at cut
      split
      · exact SameLimits.poison cut
      · exact SameLimits.trans cut (extendLimits next _)

theorem finishSettled (fits : d.buffer.length ≤ d.maximumFrameBytes) :
    d.finish.1.Settled d.finish.2 := by
  unfold finish
  split
  · rename_i poisoned
    exact ⟨fits, fun _ => poisoned⟩
  · split
    · exact ⟨fits, fun failed => absurd rfl failed⟩
    · exact settledPoison _

theorem usesFit {e : BoundedJsonLineDecoder} (fits : d.buffer.length ≤ d.maximumFrameBytes)
    (uses : Uses serde d e) : e.buffer.length ≤ e.maximumFrameBytes := by
  induction uses with
  | none => exact fits
  | push chunk before ih => exact (pushSettled ih chunk).1
  | finish before ih => exact (finishSettled ih).1

theorem usesPoisoned {e : BoundedJsonLineDecoder} (poisoned : d.poisoned = true)
    (uses : Uses serde d e) : e = d := by
  induction uses with
  | none => rfl
  | push chunk before ih =>
    subst ih
    rw [push, if_pos poisoned]
  | finish before ih =>
    subst ih
    rw [finish, if_pos poisoned]

end BoundedJsonLineDecoder

/-- The parser reads back what the printer prints, which has no control characters. -/
def Serde.Faithful (serde : Serde) : Prop :=
  ∀ value bytes, serde.toVec value = .ok bytes →
    serde.fromSlice bytes = .ok value ∧ ∀ byte ∈ bytes, 32 ≤ byte

theorem encodedLine {value : Value} {limit : Nat} {encoded : Bytes} (faithful : serde.Faithful)
    (ok : encodeJsonLine serde value limit = .ok encoded) :
    ∃ bytes, encoded = bytes ++ [10] ∧ bytes.length ≤ limit ∧ (10 : UInt8) ∉ bytes ∧
      serde.decodeLine bytes = .ok value := by
  unfold encodeJsonLine at ok
  cases valid : validateFrameLimit limit with
  | error error => simp [valid, bind, Except.bind] at ok
  | ok =>
    cases vec : serde.toVec value with
    | error text => simp [valid, vec, bind, Except.bind, Except.mapError] at ok
    | ok bytes =>
      simp only [valid, vec, bind, Except.bind, Except.mapError] at ok
      split at ok
      · contradiction
      · rename_i within
        obtain ⟨back, printable⟩ := faithful value bytes vec
        have noFeed : (10 : UInt8) ∉ bytes := fun member => absurd (printable 10 member) (by decide)
        have bare : JsonLineDecoder.line bytes = bytes := by
          unfold JsonLineDecoder.line
          split
          · rename_i last
            exact absurd (printable 13 (List.mem_of_getLast? last)) (by decide)
          · rfl
        cases ok
        exact ⟨bytes, rfl, Nat.le_of_not_lt within, noFeed, by rw [Serde.decodeLine, bare, back]⟩

theorem encodedLinesRead {limit : Nat} {values : List Value} {lines : List Bytes}
    (faithful : serde.Faithful)
    (encoded : List.Forall₂ (fun value line => encodeJsonLine serde value limit = .ok line)
      values lines) :
    readBytes serde.decodeLine limit [] lines.flatten = ⟨[], values, none⟩ := by
  induction encoded with
  | nil => rfl
  | @cons value line values lines ok more ih =>
    obtain ⟨bytes, rfl, within, inside, back⟩ := encodedLine faithful ok
    have line := readLine serde.decodeLine inside [] lines.flatten (Nat.zero_le limit)
    simp only [List.nil_append, List.length_nil, Nat.zero_add, if_pos within, back] at line
    rw [List.flatten_cons, List.append_assoc, List.singleton_append, line, ih]

def Serde.parsed (serde : Serde) (bytes : Bytes) : Option Value := (serde.fromSlice bytes).toOption

def SameFault : Option JsonLineError → Option ProtocolFailure → Prop
  | none, none => True
  | some (.frameTooLarge _), some failure => failure.category = "oversized_frame"
  | some (.invalidJson _), some failure =>
    failure.category = "empty_frame" ∨ failure.category = "malformed_json"
  | some .incompleteFrame, some failure => failure.category = "truncated_frame"
  | some .poisoned, some failure => failure.category = "decoder_already_failed"
  | _, _ => False

def SameAnswer (bounded : DecodedJsonLines) (child : DecodeBatch) : Prop :=
  bounded.frames = child.frames ∧ SameFault bounded.terminalError child.failure

structure SameState (d : BoundedJsonLineDecoder) (child : JsonLineDecoder) : Prop where
  failed : d.poisoned = child.failed
  frame : d.buffer = child.frame

theorem childReads (empty : ∀ value, serde.fromSlice [] ≠ .ok value) (bytes : Bytes)
    {child : JsonLineDecoder} (isOpen : d.Open) (same : SameState d child) :
    let reading := readBytes serde.decodeLine d.maximumFrameBytes child.frame bytes
    let pushed := child.pushBytes serde.parsed d.maximumFrameBytes bytes
    SameAnswer (d.took reading).2 pushed.2 ∧ SameState (d.took reading).1 pushed.1 := by
  induction bytes generalizing d child with
  | nil => exact ⟨⟨rfl, trivial⟩, ⟨same.failed, rfl⟩⟩
  | cons byte rest ih =>
    have running : child.failed = false := same.failed ▸ isOpen.clean
    simp only [readBytes, JsonLineDecoder.pushBytes]
    split
    · simp only [Serde.decodeLine, Serde.parsed]
      by_cases blank : JsonLineDecoder.line child.frame = []
      · rw [if_pos blank, blank]
        cases parsed : serde.fromSlice [] with
        | ok value => exact absurd parsed (empty value)
        | error text => exact ⟨⟨rfl, .inl rfl⟩, ⟨rfl, rfl⟩⟩
      · rw [if_neg blank]
        cases parsed : serde.fromSlice (JsonLineDecoder.line child.frame) with
        | error text => exact ⟨⟨rfl, .inr rfl⟩, ⟨rfl, rfl⟩⟩
        | ok value =>
          have cleared : d.clearBuffer.Open := ⟨isOpen.clean, Nat.zero_le _⟩
          have clearedSame : SameState d.clearBuffer { child with frame := [] } := ⟨same.failed, rfl⟩
          obtain ⟨⟨frames, fault⟩, state⟩ := ih cleared clearedSame
          simp only [BoundedJsonLineDecoder.took, Except.toOption] at frames fault state ⊢
          split at frames <;> simp_all [SameAnswer, BoundedJsonLineDecoder.clearBuffer,
            BoundedJsonLineDecoder.poison, BoundedJsonLineDecoder.blame]
    · split
      · exact ⟨⟨rfl, rfl⟩, ⟨rfl, rfl⟩⟩
      · rename_i room
        have grown : ({ d with buffer := d.buffer ++ [byte] } : BoundedJsonLineDecoder).Open := by
          refine ⟨isOpen.clean, ?_⟩
          simp only [same.frame, List.length_append, List.length_singleton]
          omega
        have grownSame : SameState { d with buffer := d.buffer ++ [byte] }
            { child with frame := child.frame ++ [byte] } :=
          ⟨same.failed, congrArg (· ++ [byte]) same.frame⟩
        exact ih grown grownSame

theorem childPushes (empty : ∀ value, serde.fromSlice [] ≠ .ok value) {chunks : List Bytes}
    {child : JsonLineDecoder} (admits : ∀ chunk ∈ chunks, d.Admits chunk)
    (fits : d.buffer.length ≤ d.maximumFrameBytes) (same : SameState d child) :
    List.Forall₂ SameAnswer (d.pushes serde chunks).2
      (child.pushes serde.parsed d.maximumFrameBytes chunks).2 ∧
    SameState (d.pushes serde chunks).1
      (child.pushes serde.parsed d.maximumFrameBytes chunks).1 := by
  induction chunks generalizing d child with
  | nil => exact ⟨.nil, same⟩
  | cons chunk more ih =>
    obtain ⟨here, later⟩ := List.forall_mem_cons.mp admits
    have pushed : SameAnswer (d.push serde chunk).2
          (child.push serde.parsed d.maximumFrameBytes chunk).2 ∧
        SameState (d.push serde chunk).1
          (child.push serde.parsed d.maximumFrameBytes chunk).1 := by
      cases poisoned : d.poisoned with
      | true =>
        have failed : child.failed = true := same.failed ▸ poisoned
        rw [BoundedJsonLineDecoder.push, if_pos poisoned, JsonLineDecoder.push, if_pos failed]
        exact ⟨⟨rfl, rfl⟩, same⟩
      | false =>
        have running : ¬ child.failed = true := by simp [← same.failed, poisoned]
        have isOpen : d.Open := ⟨poisoned, fits⟩
        have reads := childReads empty chunk isOpen same
        rw [BoundedJsonLineDecoder.pushReads isOpen here, same.frame, JsonLineDecoder.push,
          if_neg running]
        exact reads
    have limits : d.SameLimits (d.push serde chunk).1 := BoundedJsonLineDecoder.pushLimits d chunk
    have settled : (d.push serde chunk).1.Settled _ := BoundedJsonLineDecoder.pushSettled fits chunk
    have rest := ih (fun chunk member => (limits.admits chunk).mpr (later chunk member)) settled.1
      pushed.2
    rw [limits.frame] at rest
    exact ⟨.cons pushed.1 rest.1, rest.2⟩

/-- A push of both decoders gives the same frames and fails at the same line, and so does
the end of the input. -/
theorem decodersAgree {limit : Nat} {chunks : List Bytes}
    (empty : ∀ value, serde.fromSlice [] ≠ .ok value)
    (made : BoundedJsonLineDecoder.new limit = .ok d) (admits : ∀ chunk ∈ chunks, d.Admits chunk) :
    List.Forall₂ SameAnswer (d.pushes serde chunks).2
      (JsonLineDecoder.new.pushes serde.parsed limit chunks).2 ∧
    SameFault (d.pushes serde chunks).1.finish.2
      (JsonLineDecoder.new.pushes serde.parsed limit chunks).1.finish := by
  obtain ⟨isOpen, rfl, buffer, clean⟩ := BoundedJsonLineDecoder.newOpen made
  have same : SameState d JsonLineDecoder.new := ⟨clean, buffer⟩
  obtain ⟨answers, last⟩ := childPushes empty admits isOpen.fits same
  refine ⟨answers, ?_⟩
  rw [BoundedJsonLineDecoder.finish, JsonLineDecoder.finish, last.failed, last.frame]
  split
  · exact rfl
  · split
    · exact trivial
    · exact rfl

def BoundedJsonLineDecoder.Dead (serde : Serde) (d : BoundedJsonLineDecoder) : Prop :=
  ∀ e, Uses serde d e →
    (∀ chunk, (e.push serde chunk).2.terminalError ≠ none) ∧ e.finish.2 ≠ none

theorem poisonedDead (poisoned : d.poisoned = true) : d.Dead serde := by
  intro e uses
  obtain rfl := BoundedJsonLineDecoder.usesPoisoned poisoned uses
  refine ⟨fun chunk => ?_, ?_⟩
  · rw [BoundedJsonLineDecoder.push, if_pos poisoned]
    exact nofun
  · rw [BoundedJsonLineDecoder.finish, if_pos poisoned]
    exact nofun

open BoundedJsonLineDecoder in
theorem usesLimits {e : BoundedJsonLineDecoder} (uses : Uses serde d e) : d.SameLimits e := by
  induction uses with
  | none => exact ⟨rfl, rfl, rfl⟩
  | push chunk before ih => exact ih.trans (pushLimits _ chunk)
  | finish before ih =>
    refine ih.trans ?_
    unfold finish
    split
    · exact ⟨rfl, rfl, rfl⟩
    · split <;> exact ⟨rfl, rfl, rfl⟩

open BoundedJsonLineDecoder in
theorem boundedDecoderExact {limit : Nat} (faithful : serde.Faithful) (made : new limit = .ok d) :
    (∀ values lines chunks,
      List.Forall₂ (fun value line => encodeJsonLine serde value limit = .ok line) values lines →
      chunks.flatten = lines.flatten → (∀ chunk ∈ chunks, d.Admits chunk) →
        decoded (d.pushes serde chunks).2 = values ∧ firstError (d.pushes serde chunks).2 = none ∧
        (d.pushes serde chunks).1.finish.2 = none) ∧
    (∀ chunks chunks', chunks.flatten = chunks'.flatten →
      (∀ chunk ∈ chunks, d.Admits chunk) → (∀ chunk ∈ chunks', d.Admits chunk) →
        decoded (d.pushes serde chunks).2 = decoded (d.pushes serde chunks').2 ∧
        firstError (d.pushes serde chunks).2 = firstError (d.pushes serde chunks').2 ∧
        (d.pushes serde chunks).1.finish.2 = (d.pushes serde chunks').1.finish.2) ∧
    ∀ e, Uses serde d e → e.buffer.length ≤ limit ∧
      (∀ chunk, (e.push serde chunk).2.terminalError ≠ none → (e.push serde chunk).1.Dead serde) ∧
      (e.finish.2 ≠ none → e.finish.1.Dead serde) := by
  obtain ⟨isOpen, rfl, buffer, clean⟩ := newOpen made
  refine ⟨?_, ?_, ?_⟩
  · intro values lines chunks encoded cut admits
    obtain ⟨last, frames, error⟩ := pushesRead isOpen admits
    rw [cut, buffer, encodedLinesRead faithful encoded] at last frames error
    refine ⟨frames, error, ?_⟩
    rw [last]
    simp [took, finish, clean]
  · intro chunks chunks' same admits admits'
    obtain ⟨last, frames, error⟩ := @pushesRead serde d isOpen chunks admits
    obtain ⟨last', frames', error'⟩ := @pushesRead serde d isOpen chunks' admits'
    rw [same] at last frames error
    exact ⟨frames.trans frames'.symm, error.trans error'.symm, by rw [last, last']⟩
  · intro e uses
    have fits := usesFit isOpen.fits uses
    refine ⟨(usesLimits uses).frame ▸ fits, fun chunk failed => ?_, fun failed => ?_⟩
    · exact poisonedDead ((pushSettled fits chunk).2 failed)
    · exact poisonedDead ((finishSettled fits).2 failed)

end Reads

section Example

def bare : Serde where
  fromSlice bytes :=
    if bytes = [110, 117, 108, 108] then .ok .null
    else if bytes = [123, 125] then .ok (.object [])
    else .error "expected value at line 1 column 1"
  toVec
    | .null => .ok [110, 117, 108, 108]
    | .object [] => .ok [123, 125]
    | _ => .error "not printed"

theorem bareFaithful : bare.Faithful := by
  intro value bytes printed
  simp only [bare] at printed ⊢
  split at printed
  · cases printed
    exact ⟨rfl, by decide +kernel⟩
  · cases printed
    exact ⟨rfl, by decide +kernel⟩
  · cases printed

def four : BoundedJsonLineDecoder := ⟨4, 20, 1024, [], false⟩

theorem fourMade : BoundedJsonLineDecoder.new 4 = .ok four := by
  simp [BoundedJsonLineDecoder.new, validateFrameLimit, maximumJsonlFrameBytes,
    maximumJsonlBatchBytes, maximumJsonlFramesPerPush, four, bind, Except.bind, pure, Except.pure]

theorem bareEmpty (value : Value) : bare.fromSlice [] ≠ .ok value := by
  intro parsed
  cases parsed

def pieces : List Bytes := [[110, 117], [108, 108, 10, 123], [125, 10]]

def blankLine : List Bytes := [[110, 117], [108, 108, 13, 10], [123, 125, 10, 10]]

theorem decodersAgreeBare :
    List.Forall₂ SameAnswer (four.pushes bare blankLine).2
      (JsonLineDecoder.new.pushes bare.parsed 4 blankLine).2 :=
  (decodersAgree bareEmpty fourMade (by decide)).1

open BoundedJsonLineDecoder in
theorem boundedDecoderExactBare :
    decoded (four.pushes bare pieces).2 = [.null, .object []] := by
  have encoded : List.Forall₂ (fun value line => encodeJsonLine bare value 4 = .ok line)
      [.null, .object []] [[110, 117, 108, 108, 10], [123, 125, 10]] :=
    .cons (by simp [encodeJsonLine, validateFrameLimit, maximumJsonlFrameBytes, bare, bind,
      Except.bind, Except.mapError, pure, Except.pure]) (.cons (by simp [encodeJsonLine,
      validateFrameLimit, maximumJsonlFrameBytes, bare, bind, Except.bind, Except.mapError, pure,
      Except.pure]) .nil)
  exact ((boundedDecoderExact bareFaithful fourMade).1 _ _ pieces encoded (by decide)
    (by decide)).1

end Example
end Maestro
