import Mathlib.Data.List.Chain
import Maestro.TerminalOutput

/-! The task that persists the output of a terminal in segments: chunks gather in its buffer until
their size, a pause or the end of the stream has them written. -/
namespace Maestro.Terminal

def persistedSegmentBytes : Nat := 64 * 1024

structure PersistedTerminalChunk where
  sequence : Nat
  data : Bytes
  deriving DecidableEq, Repr

/-- What one call of `persist_terminal_segment` is given. -/
structure PersistedSegment where
  sequenceStart : Nat
  sequenceEnd : Nat
  data : Bytes
  deriving DecidableEq, Repr

/-- The chunks the reader sends for the results of its reads, up to the first that is empty or fails. -/
def spawnOutputReader (output : OutputBuffer) : List (Except Unit Bytes) → List PersistedTerminalChunk
  | [] => []
  | .error () :: _ => []
  | .ok data :: rest =>
    if data = [] then []
    else
      match output.push data with
      | (output', some sequence) => ⟨sequence, data⟩ :: spawnOutputReader output' rest
      | (output', none) => spawnOutputReader output' rest

/-- The task's variables, what its channel has still to deliver, and the calls that succeeded and failed. -/
structure Writing where
  incoming : List PersistedTerminalChunk
  sequenceStart : Option Nat
  sequenceEnd : Nat
  buffer : Bytes
  segments : List PersistedSegment
  lost : List PersistedSegment
  ended : Bool
  deriving DecidableEq, Repr

def opened (chunks : List PersistedTerminalChunk) : Writing := ⟨chunks, none, 0, [], [], [], false⟩

def appendPersistedChunk (chunk : PersistedTerminalChunk) (w : Writing) : Writing :=
  { w with
    sequenceStart := some (w.sequenceStart.getD chunk.sequence)
    sequenceEnd := chunk.sequence
    buffer := w.buffer ++ chunk.data }

def persistBuffer (persisted : Bool) (w : Writing) : Writing :=
  let segment := ⟨w.sequenceStart.getD w.sequenceEnd, w.sequenceEnd, w.buffer⟩
  { w with
    sequenceStart := none
    buffer := []
    segments := if persisted then w.segments ++ [segment] else w.segments
    lost := if persisted then w.lost else w.lost ++ [segment] }

/-- What the task wakes up for: a chunk, the end of its channel, or the delay. -/
inductive Wake where
  | received
  | closed
  | elapsed
  deriving DecidableEq, Repr

/-- One turn of the loop; with an empty buffer there is no delay, and the size is not looked at. -/
def turn (wake : Wake) (persisted : Bool) (w : Writing) : Option Writing :=
  if w.ended then none
  else
    match wake, w.incoming with
    | .received, [] => none
    | .received, chunk :: rest =>
      let appended := appendPersistedChunk chunk { w with incoming := rest }
      if w.buffer = [] then some appended
      else if persistedSegmentBytes ≤ appended.buffer.length then some (persistBuffer persisted appended)
      else some appended
    | .closed, _ :: _ => none
    | .closed, [] =>
      if w.buffer = [] then some { w with ended := true }
      else some { persistBuffer persisted w with ended := true }
    | .elapsed, _ => if w.buffer = [] then none else some (persistBuffer persisted w)

def turns : List (Wake × Bool) → Writing → Option Writing
  | [], w => some w
  | (wake, persisted) :: rest, w => (turn wake persisted w).bind (turns rest)

def Next (left right : PersistedTerminalChunk) : Prop := right.sequence = left.sequence + 1

theorem readerNumbers {output : OutputBuffer} {reads : List (Except Unit Bytes)} :
    (∀ chunk ∈ spawnOutputReader output reads, chunk.data ≠ []) ∧ (spawnOutputReader output reads).IsChain Next ∧
      ∀ chunk ∈ (spawnOutputReader output reads).head?, chunk.sequence = output.latestSequence + 1 := by
  induction reads generalizing output with
  | nil => exact ⟨nofun, .nil, nofun⟩
  | cons read rest ih =>
    cases read with
    | error failed => exact ⟨nofun, .nil, nofun⟩
    | ok data =>
      unfold spawnOutputReader
      split
      · exact ⟨nofun, .nil, nofun⟩
      · rename_i some'
        obtain ⟨output', pushed, latest⟩ : ∃ output', output.push data = (output', some (output.latestSequence + 1)) ∧
            output'.latestSequence = output.latestSequence + 1 := by
          rw [OutputBuffer.push, if_neg some']
          exact ⟨_, rfl, rfl⟩
        rw [pushed]
        obtain ⟨filled, numbered, first⟩ := @ih output'
        refine ⟨fun chunk member => ?_, List.isChain_cons.mpr ⟨fun chunk member => ?_, numbered⟩, fun chunk member => ?_⟩
        · rcases List.mem_cons.mp member with rfl | later
          · exact some'
          · exact filled chunk later
        · rw [Next, first chunk member, latest]
        · cases member
          rfl

def dataOf (chunks : List PersistedTerminalChunk) : Bytes := chunks.flatMap (·.data)

def segmentOf (group : List PersistedTerminalChunk) : PersistedSegment :=
  ⟨(group.head?.map (·.sequence)).getD 0, (group.getLast?.map (·.sequence)).getD 0, dataOf group⟩

/-- The chunks fall into groups, of which each is a segment, what is in the buffer and what is to come. -/
structure Grouped (chunks : List PersistedTerminalChunk) (w : Writing) (groups : List (List PersistedTerminalChunk))
    (pending : List PersistedTerminalChunk) : Prop where
  whole : chunks = groups.flatten ++ (pending ++ w.incoming)
  segments : w.segments = groups.map segmentOf
  nonempty : [] ∉ groups
  buffer : w.buffer = dataOf pending
  first : w.sequenceStart = pending.head?.map (·.sequence)
  last : ∀ chunk ∈ pending.getLast?, w.sequenceEnd = chunk.sequence
  done : w.ended = true → pending = [] ∧ w.incoming = []

section Writers
variable {chunks pending : List PersistedTerminalChunk} {groups : List (List PersistedTerminalChunk)} {w w' : Writing}

theorem openedGrouped (chunks : List PersistedTerminalChunk) : Grouped chunks (opened chunks) [] [] :=
  ⟨rfl, rfl, List.not_mem_nil, rfl, rfl, nofun, nofun⟩

theorem appendGrouped {chunk : PersistedTerminalChunk} {rest : List PersistedTerminalChunk}
    (grouped : Grouped chunks w groups pending) (running : w.ended = false) (head : w.incoming = chunk :: rest) :
    Grouped chunks (appendPersistedChunk chunk { w with incoming := rest }) groups (pending ++ [chunk]) := by
  refine ⟨?_, grouped.segments, grouped.nonempty, ?_, ?_, fun last member => ?_, fun ended => ?_⟩
  · rw [grouped.whole, head]
    simp [appendPersistedChunk]
  · simp [appendPersistedChunk, grouped.buffer, dataOf]
  · cases pending <;> simp [appendPersistedChunk, grouped.first]
  · rw [List.getLast?_concat] at member
    cases member
    rfl
  · exact absurd (running.symm.trans ended) Bool.false_ne_true

theorem persistGrouped (grouped : Grouped chunks w groups pending) (some' : pending ≠ []) :
    Grouped chunks (persistBuffer true w) (groups ++ [pending]) [] := by
  obtain ⟨last, final⟩ : ∃ last, pending.getLast? = some last := ⟨_, List.getLast?_eq_some_getLast some'⟩
  obtain ⟨first, head⟩ : ∃ first, pending.head? = some first := ⟨_, List.head?_eq_some_head some'⟩
  refine ⟨?_, ?_, ?_, rfl, rfl, nofun, fun ended => ⟨rfl, (grouped.done ended).2⟩⟩
  · rw [grouped.whole, List.flatten_append, List.flatten_singleton, List.append_assoc]
    rfl
  · rw [List.map_append, ← grouped.segments]
    simp only [persistBuffer, if_true, List.map_singleton, segmentOf, final, head, Option.map_some, Option.getD_some,
      grouped.first, grouped.buffer, grouped.last last final]
  · simp only [List.mem_append, List.mem_singleton, not_or]
    exact ⟨grouped.nonempty, fun empty => some' empty.symm⟩

theorem bufferSome (filled : ∀ chunk ∈ chunks, chunk.data ≠ []) (grouped : Grouped chunks w groups pending) :
    w.buffer = [] ↔ pending = [] := by
  constructor
  · intro empty
    cases pending with
    | nil => rfl
    | cons chunk pending =>
      have member : chunk ∈ chunks := grouped.whole ▸ by simp
      have data := grouped.buffer.symm.trans empty
      rw [dataOf, List.flatMap_cons, List.append_eq_nil_iff] at data
      exact absurd data.1 (filled chunk member)
  · rintro rfl
    exact grouped.buffer

theorem turnGrouped (filled : ∀ chunk ∈ chunks, chunk.data ≠ []) (grouped : Grouped chunks w groups pending)
    {wake : Wake} (turned : turn wake true w = some w') :
    ∃ groups' pending', Grouped chunks w' groups' pending' := by
  have empties := bufferSome filled grouped
  unfold turn at turned
  split at turned
  · cases turned
  · rename_i running
    have running : w.ended = false := by simpa using running
    split at turned
    · cases turned
    · rename_i chunk rest head
      have appended := appendGrouped grouped running head
      dsimp only at turned
      split at turned
      · cases turned
        exact ⟨_, _, appended⟩
      · split at turned
        · cases turned
          exact ⟨_, _, persistGrouped appended (by simp)⟩
        · cases turned
          exact ⟨_, _, appended⟩
    · cases turned
    · rename_i nothing
      split at turned
      · rename_i empty
        cases turned
        have none' := empties.mp empty
        exact ⟨groups, pending, grouped.whole, grouped.segments, grouped.nonempty, grouped.buffer, grouped.first,
          grouped.last, fun _ => ⟨none', nothing⟩⟩
      · rename_i some'
        cases turned
        have flushed := persistGrouped grouped fun none' => some' (empties.mpr none')
        exact ⟨_, _, flushed.whole, flushed.segments, flushed.nonempty, rfl, rfl, nofun, fun _ => ⟨rfl, nothing⟩⟩
    · split at turned
      · cases turned
      · rename_i some'
        cases turned
        exact ⟨_, _, persistGrouped grouped fun none' => some' (empties.mpr none')⟩

theorem turnsGrouped (filled : ∀ chunk ∈ chunks, chunk.data ≠ []) {wakes : List Wake}
    (grouped : Grouped chunks w groups pending) (ran : turns (wakes.map fun wake => (wake, true)) w = some w') :
    ∃ groups' pending', Grouped chunks w' groups' pending' := by
  induction wakes generalizing w groups pending with
  | nil =>
    cases ran
    exact ⟨groups, pending, grouped⟩
  | cons wake wakes ih =>
    rw [List.map_cons, turns] at ran
    obtain ⟨next, turned, later⟩ := Option.bind_eq_some_iff.mp ran
    obtain ⟨groups', pending', grouped'⟩ := turnGrouped filled grouped turned
    exact ih grouped' later

theorem segmentsData : (groups.map segmentOf).flatMap (·.data) = dataOf groups.flatten := by
  induction groups with
  | nil => rfl
  | cons group groups ih =>
    rw [List.map_cons, List.flatMap_cons, ih, List.flatten_cons, dataOf, dataOf, List.flatMap_append]
    rfl

theorem segmentsContiguous (nonempty : [] ∉ groups) (numbered : groups.flatten.IsChain Next) :
    (groups.map segmentOf).IsChain fun left right => right.sequenceStart = left.sequenceEnd + 1 := by
  obtain ⟨_, across⟩ := (List.isChain_flatten nonempty).mp numbered
  rw [List.isChain_map]
  refine across.imp_of_mem_imp fun left right here there next => ?_
  obtain ⟨front, last, rfl⟩ := List.eq_nil_or_concat' left |>.resolve_left fun none' => nonempty (none' ▸ here)
  obtain ⟨first, rest, rfl⟩ := List.exists_cons_of_ne_nil fun none' : right = [] => nonempty (none' ▸ there)
  have follows := next last (by rw [List.getLast?_concat]; rfl) first rfl
  simpa [segmentOf, Next] using follows

end Writers

/-- While every call succeeds, the segments are groups of chunks in their order, each following the
one before, and when the task has ended they are all of the chunks. -/
theorem segmentsPartition {reads : List (Except Unit Bytes)} {wakes : List Wake} {w : Writing}
    (ran : turns (wakes.map fun wake => (wake, true)) (opened (spawnOutputReader .default reads)) = some w) :
    ∃ (groups : List (List PersistedTerminalChunk)) (pending : List PersistedTerminalChunk), [] ∉ groups ∧
      spawnOutputReader .default reads = groups.flatten ++ (pending ++ w.incoming) ∧
      w.segments = groups.map segmentOf ∧ w.buffer = dataOf pending ∧
      (w.segments.IsChain fun left right => right.sequenceStart = left.sequenceEnd + 1) ∧
      (w.ended = true → groups.flatten = spawnOutputReader .default reads ∧
        w.segments.flatMap (·.data) = dataOf (spawnOutputReader .default reads)) := by
  obtain ⟨filled, numbered, _⟩ := @readerNumbers .default reads
  obtain ⟨groups, pending, grouped⟩ := turnsGrouped filled (openedGrouped _) ran
  refine ⟨groups, pending, grouped.nonempty, grouped.whole, grouped.segments, grouped.buffer, ?_, fun ended => ?_⟩
  · rw [grouped.segments]
    exact segmentsContiguous grouped.nonempty ( numbered.prefix ⟨_, grouped.whole.symm⟩)
  · obtain ⟨rfl, none'⟩ := grouped.done ended
    have whole := grouped.whole
    rw [none', List.append_nil, List.append_nil] at whole
    exact ⟨whole.symm, by rw [grouped.segments, segmentsData, whole]⟩

theorem segmentsPartitionPaused : ∃ w,
    turns ([.received, .received, .elapsed, .received, .closed].map fun wake => (wake, true))
      (opened (spawnOutputReader .default [.ok [1], .ok [2, 3], .ok [4], .ok []])) = some w ∧
    w.segments = [⟨1, 2, [1, 2, 3]⟩, ⟨3, 3, [4]⟩] ∧
    w.segments.flatMap (·.data) = [1, 2, 3, 4] := by
  obtain ⟨w, ran, segments, ended⟩ : ∃ w,
      turns ([.received, .received, .elapsed, .received, .closed].map fun wake => (wake, true))
        (opened (spawnOutputReader .default [.ok [1], .ok [2, 3], .ok [4], .ok []])) = some w ∧
      w.segments = [⟨1, 2, [1, 2, 3]⟩, ⟨3, 3, [4]⟩] ∧ w.ended = true := ⟨_, rfl, rfl, rfl⟩
  obtain ⟨_, _, _, _, _, _, _, finished⟩ := segmentsPartition ran
  exact ⟨w, ran, segments, (finished ended).2⟩

end Maestro.Terminal
