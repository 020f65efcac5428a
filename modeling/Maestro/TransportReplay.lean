import Maestro.Entries
import Maestro.Stepping
import Maestro.TerminalTransport

/-! The subscribers of a terminal transport. What they have missed is replayed to them, and
their acknowledgements hold the polling back and set it going again. -/
namespace Maestro.TransportReplay
open Stepping Terminal

/-- `stream` is all that was appended. -/
structure Replay where
  chunks : List Bytes
  byteCount : Nat
  truncated : Bool
  deriving DecidableEq, Repr

namespace Replay

def empty : Replay := ⟨[], 0, false⟩

def shift (limit : Nat) : List Bytes → Nat → Bool → Replay
  | [], byteCount, truncated => ⟨[], byteCount, truncated⟩
  | removed :: chunks, byteCount, truncated =>
    if byteCount > limit then shift limit chunks (byteCount - removed.length) true
    else ⟨removed :: chunks, byteCount, truncated⟩

def append (r : Replay) (limit : Nat) (bytes : Bytes) : Replay :=
  if bytes.length = 0 ∨ limit = 0 then r
  else
    let retained := if bytes.length > limit then bytes.drop (bytes.length - limit) else bytes
    shift limit (r.chunks ++ [retained]) (r.byteCount + retained.length)
      (r.truncated || retained.length ≠ bytes.length)

/-- The chunks are the end of the stream, within the limit, and marked unless they are all of it. -/
structure Holds (limit : Nat) (stream : Bytes) (r : Replay) : Prop where
  tail : r.chunks.flatten <:+ stream
  filled : ∀ chunk ∈ r.chunks, chunk ≠ []
  counted : r.byteCount = r.chunks.flatten.length
  bounded : r.byteCount ≤ limit
  marked : r.truncated = true ↔ r.chunks.flatten ≠ stream

theorem emptyHolds (limit : Nat) : empty.Holds limit [] :=
  ⟨List.suffix_rfl, by simp [empty], rfl, Nat.zero_le _, by simp [empty]⟩

theorem shiftHolds {limit : Nat} {stream : Bytes} (chunks : List Bytes) (truncated : Bool)
    (tail : chunks.flatten <:+ stream) (filled : ∀ chunk ∈ chunks, chunk ≠ [])
    (marked : truncated = true ↔ chunks.flatten ≠ stream) :
    (shift limit chunks chunks.flatten.length truncated).Holds limit stream := by
  induction chunks generalizing truncated with
  | nil => exact ⟨tail, filled, rfl, Nat.zero_le _, marked⟩
  | cons removed chunks ih =>
    have length : (removed :: chunks).flatten.length - removed.length = chunks.flatten.length := by simp
    unfold shift
    split
    · rw [length]
      have nonempty := List.length_pos_iff.mpr (filled removed List.mem_cons_self)
      have long := tail.length_le
      refine ih true ((List.suffix_append removed _).trans (by simpa using tail))
        (fun chunk mem => filled chunk (List.mem_cons_of_mem _ mem)) ⟨fun _ same => ?_, fun _ => rfl⟩
      rw [← same, List.flatten_cons, List.length_append] at long
      omega
    · rename_i fits
      exact ⟨tail, filled, rfl, Nat.le_of_not_lt fits, marked⟩

theorem shiftAlone {limit : Nat} {retained : Bytes} (full : retained.length = limit) (older : List Bytes)
    (filled : ∀ chunk ∈ older, chunk ≠ []) :
    shift limit (older ++ [retained]) (older.flatten.length + retained.length) true = ⟨[retained], limit, true⟩ := by
  induction older with
  | nil => simp [shift, full]
  | cons removed older ih =>
    have nonempty := List.length_pos_iff.mpr (filled removed List.mem_cons_self)
    have length : (removed :: older).flatten.length = removed.length + older.flatten.length := by simp
    rw [List.cons_append, shift, if_pos (by omega), length, Nat.add_assoc, Nat.add_sub_cancel_left]
    exact ih fun chunk mem => filled chunk (List.mem_cons_of_mem _ mem)

theorem appendHolds {limit : Nat} (positive : 0 < limit) {stream : Bytes} {r : Replay} (holds : r.Holds limit stream)
    (bytes : Bytes) : (r.append limit bytes).Holds limit (stream ++ bytes) := by
  unfold append
  split
  · rename_i nothing
    rw [List.length_eq_zero_iff.mp (nothing.resolve_right (by omega)), List.append_nil]
    exact holds
  · rename_i some'
    rw [not_or] at some'
    dsimp only
    split
    · rename_i long
      have full : (bytes.drop (bytes.length - limit)).length = limit := by
        rw [List.length_drop]
        omega
      have marked : (r.truncated || decide ((bytes.drop (bytes.length - limit)).length ≠ bytes.length)) = true := by
        rw [full]
        simp only [Bool.or_eq_true, decide_eq_true_eq]
        omega
      rw [marked, holds.counted, shiftAlone full r.chunks holds.filled]
      have alone : [bytes.drop (bytes.length - limit)].flatten = bytes.drop (bytes.length - limit) := by simp
      refine ⟨?_, fun chunk mem => ?_, ?_, Nat.le_refl _, ⟨fun _ same => ?_, fun _ => rfl⟩⟩
      · rw [alone]
        exact (List.drop_suffix _ _).trans (List.suffix_append _ _)
      · rw [List.mem_singleton.mp mem, ← List.length_pos_iff, full]
        exact positive
      · rw [alone, full]
      · have short := congrArg List.length same
        rw [alone, full, List.length_append] at short
        omega
    · have length : (r.chunks ++ [bytes]).flatten.length = r.byteCount + bytes.length := by
        rw [holds.counted]
        simp
      have whole : (r.chunks ++ [bytes]).flatten = r.chunks.flatten ++ bytes := by simp
      rw [← length]
      refine shiftHolds _ _ ?_ (fun chunk mem => ?_) ?_
      · rw [whole]
        obtain ⟨dropped, same⟩ := holds.tail
        exact ⟨dropped, by rw [← same, List.append_assoc]⟩
      · rcases List.mem_append.mp mem with old | new
        · exact holds.filled chunk old
        · rw [List.mem_singleton.mp new]
          exact fun empty => some'.1 (by rw [empty]; rfl)
      · simpa [whole] using holds.marked

end Replay

abbrev Listener := Nat

/-- `timers` counts the timers armed at the runtime, `reads` are the cursors of the reads in
flight and `outstanding` the bytes of each delivery that is not acknowledged. `received` is
what each listener was called with. -/
structure DaemonTerminalTransport extends Transport where
  replayByteLimit : Nat
  replay : Replay
  listeners : List Listener
  timers : Nat
  reads : List Nat
  closes : Nat
  outstanding : List Nat
  started : Bool
  received : Listener → List Bytes

inductive Label where
  | startPolling
  | fire
  | answer (index : Nat) (waits : Nat → Bool) (result : TerminalReadResult)
  | rejected (index : Nat) (reason : String)
  | subscribe (listener : Listener) (waits : Nat → Bool)
  | unsubscribe (listener : Listener)
  | settle (index : Nat)
  | detach
  | close
  | closed (status : TerminalStatus)
  | closeFailed (reason : String)
  | interactionFailed (reason : String)

namespace DaemonTerminalTransport

def opened (terminalId : TerminalId) (state : TerminalState) (maximumReadBytes rendererHighWaterBytes replayBytes : Nat) :
    DaemonTerminalTransport where
  toTransport := .new terminalId state maximumReadBytes rendererHighWaterBytes
  replayByteLimit := replayBytes
  replay := .empty
  listeners := []
  timers := 0
  reads := []
  closes := 0
  outstanding := []
  started := false
  received := fun _ => []

variable (t : DaemonTerminalTransport)

def schedulePoll : DaemonTerminalTransport :=
  if t.detached || isTerminal t.snapshot.state || t.rendererBackpressured then t
  else { t with pollTimer := true, timers := t.timers + 1 }

def clearPollTimer : DaemonTerminalTransport :=
  { t with pollTimer := false, timers := t.timers - t.pollTimer.toNat }

def disconnect (reason : String) : DaemonTerminalTransport :=
  { t.clearPollTimer with toTransport := t.toTransport.disconnect reason }

def startPolling : DaemonTerminalTransport :=
  let started := { t with started := true }
  if t.detached || t.pollTimer || t.readInFlight || isTerminal t.snapshot.state then started
  else started.schedulePoll

def poll : DaemonTerminalTransport :=
  let fired := { t with pollTimer := false, timers := t.timers - 1 }
  if t.detached || t.readInFlight || isTerminal t.snapshot.state then fired
  else { fired with readInFlight := true, reads := t.reads ++ [t.cursor] }

/-- `waits` when one of the listeners returned a promise. -/
def deliver (bytes : Bytes) (listeners : List Listener) (waits : Bool) : DaemonTerminalTransport :=
  let acknowledgements := if listeners ≠ [] ∧ waits = true then [bytes.length] else []
  { t with
    received := fun listener =>
      if listener ∈ listeners then t.received listener ++ [bytes] else t.received listener
    pendingRendererBytes := t.pendingRendererBytes + acknowledgements.sum
    outstanding := t.outstanding ++ acknowledgements }

/-- One turn of the loop over the chunks of an answer. -/
def receiveChunk (waits : Nat → Bool) (chunk : TerminalOutputChunk) : DaemonTerminalTransport :=
  if chunk.sequence ≤ t.lastDeliveredSequence then t
  else
    let kept := { t with
      replay := t.replay.append t.replayByteLimit chunk.data
      lastDeliveredSequence := chunk.sequence
      delivered := t.delivered ++ [chunk] }
    kept.deliver chunk.data t.listeners (waits chunk.sequence)

/-- `catch` and `finally` of a poll. -/
def failed (reason : String) : DaemonTerminalTransport :=
  let landed :=
    if !t.detached && !t.closeRequested && !isTerminal t.snapshot.state then t.disconnect reason else t
  { landed with readInFlight := false }

def receive (waits : Nat → Bool) (requestedCursor : Nat) (result : TerminalReadResult) : DaemonTerminalTransport :=
  if t.detached || isTerminal t.snapshot.state then { t with readInFlight := false }
  else
    match t.validateRead result requestedCursor with
    | .error reason => t.failed reason
    | .ok _ =>
      let told := result.chunks.foldl (fun t chunk => t.receiveChunk waits chunk) t
      let shown := { told with toTransport := told.toTransport.show' result }
      let again :=
        if !isTerminal (.terminal result.state) && !shown.rendererBackpressured then shown.schedulePoll else shown
      { again with readInFlight := false }

def subscribe (listener : Listener) (waits : Nat → Bool) : DaemonTerminalTransport :=
  let added := { t with
    listeners := if listener ∈ t.listeners then t.listeners else t.listeners ++ [listener] }
  t.replay.chunks.zipIdx.foldl (fun t entry => t.deliver entry.1 [listener] (waits entry.2)) added

def unsubscribe (listener : Listener) : DaemonTerminalTransport :=
  { t with listeners := t.listeners.filter (· ≠ listener) }

def acknowledge (index bytes : Nat) : DaemonTerminalTransport :=
  let drained := { t with
    pendingRendererBytes := t.pendingRendererBytes - bytes
    outstanding := t.outstanding.eraseIdx index }
  if !drained.rendererBackpressured && !t.pollTimer && !t.readInFlight then drained.schedulePoll else drained

def detach : DaemonTerminalTransport :=
  { t.clearPollTimer with toTransport := t.toTransport.detach, listeners := [] }

def close : DaemonTerminalTransport :=
  { t.clearPollTimer with toTransport := t.toTransport.close, closes := t.closes + 1 }

end DaemonTerminalTransport

def step (t : DaemonTerminalTransport) : Label → Option DaemonTerminalTransport
  | .startPolling => some t.startPolling
  | .fire => if 0 < t.timers then some t.poll else none
  | .answer index waits result => t.reads[index]?.map fun cursor =>
    { t with reads := t.reads.eraseIdx index }.receive waits cursor result
  | .rejected index reason => t.reads[index]?.map fun _ => { t with reads := t.reads.eraseIdx index }.failed reason
  | .subscribe listener waits => some (t.subscribe listener waits)
  | .unsubscribe listener => some (t.unsubscribe listener)
  | .settle index => t.outstanding[index]?.map fun bytes => t.acknowledge index bytes
  | .detach => some t.detach
  | .close => some t.close
  | .closed status =>
    if 0 < t.closes then some { t with toTransport := t.toTransport.closed status, closes := t.closes - 1 } else none
  | .closeFailed reason => if 0 < t.closes then some { t.disconnect reason with closes := t.closes - 1 } else none
  | .interactionFailed reason =>
    some (if !t.closeRequested && !isTerminal t.snapshot.state then t.disconnect reason else t)

section Deliveries
variable {t t' t'' : DaemonTerminalTransport}

theorem receiveChunks (waits : Nat → Bool) (chunks : List TerminalOutputChunk) (t : DaemonTerminalTransport) :
    ∃ later acknowledgements replay last,
      chunks.foldl (fun t chunk => t.receiveChunk waits chunk) t = { t with
        replay := replay
        lastDeliveredSequence := last
        delivered := t.delivered ++ later
        received := fun listener =>
          if listener ∈ t.listeners then t.received listener ++ later.map (·.data) else t.received listener
        pendingRendererBytes := t.pendingRendererBytes + acknowledgements.sum
        outstanding := t.outstanding ++ acknowledgements } ∧
      (∀ stream, 0 < t.replayByteLimit → t.replay.Holds t.replayByteLimit stream →
        replay.Holds t.replayByteLimit (stream ++ (later.map (·.data)).flatten)) ∧
      later.Pairwise (·.sequence < ·.sequence) ∧ t.lastDeliveredSequence ≤ last ∧
      ∀ chunk ∈ later, t.lastDeliveredSequence < chunk.sequence ∧ chunk.sequence ≤ last := by
  induction chunks generalizing t with
  | nil => exact ⟨[], [], t.replay, t.lastDeliveredSequence, by simp, by simp, .nil, Nat.le_refl _, by simp⟩
  | cons chunk chunks ih =>
    rw [List.foldl_cons]
    by_cases known : chunk.sequence ≤ t.lastDeliveredSequence
    · rw [DaemonTerminalTransport.receiveChunk, if_pos known]
      exact ih t
    · rw [DaemonTerminalTransport.receiveChunk, if_neg known]
      obtain ⟨later, acknowledgements, replay, last, same, holds, ordered, grows, within⟩ := ih
        (({ t with
          replay := t.replay.append t.replayByteLimit chunk.data
          lastDeliveredSequence := chunk.sequence
          delivered := t.delivered ++ [chunk] }).deliver chunk.data t.listeners (waits chunk.sequence))
      refine ⟨chunk :: later, (if t.listeners ≠ [] ∧ waits chunk.sequence = true then [chunk.data.length] else []) ++
        acknowledgements, replay, last, ?_, fun stream positive before => ?_, ?_, ?_, fun other mem => ?_⟩
      · rw [same]
        simp only [DaemonTerminalTransport.deliver, List.append_assoc, List.singleton_append, List.sum_append,
          Nat.add_assoc, List.map_cons]
        congr 1
        funext listener
        split <;> simp
      · have after := holds (stream ++ chunk.data) positive (Replay.appendHolds positive before chunk.data)
        rwa [List.append_assoc] at after
      · exact List.pairwise_cons.mpr ⟨fun other mem => (within other mem).1, ordered⟩
      · exact Nat.le_trans (Nat.le_of_not_le known) grows
      · rcases List.mem_cons.mp mem with rfl | mem
        · exact ⟨Nat.lt_of_not_le known, grows⟩
        · exact ⟨Nat.lt_trans (Nat.lt_of_not_le known) (within other mem).1, (within other mem).2⟩

theorem receiveTold (waits : Nat → Bool) (cursor : Nat) (result : TerminalReadResult) :
    (t.receive waits cursor result = { t with readInFlight := false } ∧ (t.detached || isTerminal t.snapshot.state)) ∨
      (∃ reason, t.receive waits cursor result = t.failed reason) ∨
      ∃ told : DaemonTerminalTransport, told = result.chunks.foldl (fun t chunk => t.receiveChunk waits chunk) t ∧
        t.detached = false ∧ isTerminal t.snapshot.state = false ∧
        let shown := { told with toTransport := told.toTransport.show' result }
        t.receive waits cursor result = { (if !isTerminal (.terminal result.state) && !shown.rendererBackpressured
          then shown.schedulePoll else shown) with readInFlight := false } := by
  unfold DaemonTerminalTransport.receive
  split
  · rename_i stopped
    exact .inl ⟨rfl, stopped⟩
  · rename_i going
    rw [Bool.or_eq_true, not_or, Bool.not_eq_true, Bool.not_eq_true] at going
    split
    · exact .inr (.inl ⟨_, rfl⟩)
    · exact .inr (.inr ⟨_, rfl, going.1, going.2, rfl⟩)

structure Kept (t t' : DaemonTerminalTransport) : Prop where
  limit : t'.replayByteLimit = t.replayByteLimit
  replay : t'.replay = t.replay
  delivered : t'.delivered = t.delivered
  last : t'.lastDeliveredSequence = t.lastDeliveredSequence
  listeners : t'.listeners = t.listeners
  received : t'.received = t.received
  detached : t'.detached = t.detached

theorem keptRefl (t : DaemonTerminalTransport) : Kept t t := ⟨rfl, rfl, rfl, rfl, rfl, rfl, rfl⟩

theorem Kept.schedule (kept : Kept t t') : Kept t t'.schedulePoll := by
  unfold DaemonTerminalTransport.schedulePoll
  split
  · exact kept
  · exact ⟨kept.limit, kept.replay, kept.delivered, kept.last, kept.listeners, kept.received, kept.detached⟩

theorem keptDisconnect (t : DaemonTerminalTransport) (reason : String) : Kept t (t.disconnect reason) :=
  ⟨rfl, rfl, rfl, rfl, rfl, rfl, rfl⟩

theorem Kept.failed (kept : Kept t t') (reason : String) : Kept t (t'.failed reason) := by
  unfold DaemonTerminalTransport.failed
  split
  all_goals exact ⟨kept.limit, kept.replay, kept.delivered, kept.last, kept.listeners, kept.received, kept.detached⟩

/-- The steps that deliver nothing and leave the listeners alone. -/
def Label.quiet : Label → Bool
  | .answer .. | .subscribe .. | .unsubscribe _ | .detach => false
  | _ => true

theorem keptStep {label : Label} (quiet : label.quiet = true) (steps : step t label = some t') : Kept t t' := by
  cases label with
  | answer index waits result => cases quiet
  | subscribe listener waits => cases quiet
  | unsubscribe listener => cases quiet
  | detach => cases quiet
  | startPolling =>
    cases Option.some.inj steps
    unfold DaemonTerminalTransport.startPolling
    dsimp only
    split
    · exact ⟨rfl, rfl, rfl, rfl, rfl, rfl, rfl⟩
    · have started : Kept t { t with started := true } := ⟨rfl, rfl, rfl, rfl, rfl, rfl, rfl⟩
      exact started.schedule
  | fire =>
    simp only [step] at steps
    split at steps
    · cases Option.some.inj steps
      unfold DaemonTerminalTransport.poll
      dsimp only
      split <;> exact ⟨rfl, rfl, rfl, rfl, rfl, rfl, rfl⟩
    · cases steps
  | rejected index reason =>
    obtain ⟨cursor, -, rfl⟩ := Option.map_eq_some_iff.mp steps
    have landed : Kept t { t with reads := t.reads.eraseIdx index } := ⟨rfl, rfl, rfl, rfl, rfl, rfl, rfl⟩
    exact landed.failed reason
  | settle index =>
    obtain ⟨bytes, -, rfl⟩ := Option.map_eq_some_iff.mp steps
    unfold DaemonTerminalTransport.acknowledge
    have drained : Kept t { t with
        pendingRendererBytes := t.pendingRendererBytes - bytes
        outstanding := t.outstanding.eraseIdx index } := ⟨rfl, rfl, rfl, rfl, rfl, rfl, rfl⟩
    dsimp only
    split
    · exact drained.schedule
    · exact drained
  | close =>
    cases Option.some.inj steps
    exact ⟨rfl, rfl, rfl, rfl, rfl, rfl, rfl⟩
  | closed status =>
    simp only [step] at steps
    split at steps
    · cases Option.some.inj steps
      exact ⟨rfl, rfl, rfl, rfl, rfl, rfl, rfl⟩
    · cases steps
  | closeFailed reason =>
    simp only [step] at steps
    split at steps
    · cases Option.some.inj steps
      exact ⟨rfl, rfl, rfl, rfl, rfl, rfl, rfl⟩
    · cases steps
  | interactionFailed reason =>
    cases Option.some.inj steps
    split
    · exact keptDisconnect t reason
    · exact keptRefl t

structure Delivers (t t' : DaemonTerminalTransport) (later : List TerminalOutputChunk) : Prop where
  limit : t'.replayByteLimit = t.replayByteLimit
  replay : ∀ stream, 0 < t.replayByteLimit → t.replay.Holds t.replayByteLimit stream →
    t'.replay.Holds t.replayByteLimit (stream ++ (later.map (·.data)).flatten)
  delivered : t'.delivered = t.delivered ++ later
  ordered : later.Pairwise (·.sequence < ·.sequence)
  grows : t.lastDeliveredSequence ≤ t'.lastDeliveredSequence
  within : ∀ chunk ∈ later, t.lastDeliveredSequence < chunk.sequence ∧ chunk.sequence ≤ t'.lastDeliveredSequence
  listeners : t'.listeners = t.listeners
  detached : t'.detached = t.detached
  received : t'.received = fun listener =>
    if listener ∈ t.listeners then t.received listener ++ later.map (·.data) else t.received listener

theorem Delivers.kept {later : List TerminalOutputChunk} (delivers : Delivers t t' later) (kept : Kept t' t'') :
    Delivers t t'' later where
  limit := kept.limit.trans delivers.limit
  replay := kept.replay ▸ delivers.replay
  delivered := kept.delivered.trans delivers.delivered
  ordered := delivers.ordered
  grows := kept.last ▸ delivers.grows
  within := kept.last ▸ delivers.within
  listeners := kept.listeners.trans delivers.listeners
  detached := kept.detached.trans delivers.detached
  received := kept.received.trans delivers.received

theorem answerDelivers {index : Nat} {waits : Nat → Bool} {result : TerminalReadResult}
    (steps : step t (.answer index waits result) = some t') :
    Kept t t' ∨ (t.detached = false ∧ ∃ later, Delivers t t' later) := by
  obtain ⟨cursor, -, rfl⟩ := Option.map_eq_some_iff.mp steps
  have landed : Kept t { t with reads := t.reads.eraseIdx index } := ⟨rfl, rfl, rfl, rfl, rfl, rfl, rfl⟩
  rcases receiveTold (t := { t with reads := t.reads.eraseIdx index }) waits cursor result with
    ⟨same, -⟩ | ⟨reason, same⟩ | ⟨told, chunks, attached, -, same⟩
  · rw [same]
    exact .inl ⟨rfl, rfl, rfl, rfl, rfl, rfl, rfl⟩
  · rw [same]
    exact .inl (landed.failed reason)
  · obtain ⟨later, acknowledgements, replay, last, shape, holds, ordered, grows, within⟩ :=
      receiveChunks waits result.chunks { t with reads := t.reads.eraseIdx index }
    rw [shape] at chunks
    have delivers : Delivers t told later := by
      subst chunks
      exact ⟨rfl, holds, rfl, ordered, grows, within, rfl, rfl, rfl⟩
    have shown : Kept told { told with toTransport := told.toTransport.show' result } :=
      ⟨rfl, rfl, rfl, rfl, rfl, rfl, rfl⟩
    refine .inr ⟨attached, later, delivers.kept ?_⟩
    rw [same]
    have again : Kept told (if !isTerminal (.terminal result.state) &&
        !({ told with toTransport := told.toTransport.show' result } : DaemonTerminalTransport).rendererBackpressured
        then ({ told with toTransport := told.toTransport.show' result } : DaemonTerminalTransport).schedulePoll
        else { told with toTransport := told.toTransport.show' result }) := by
      split
      · exact shown.schedule
      · exact shown
    exact ⟨again.limit, again.replay, again.delivered, again.last, again.listeners, again.received, again.detached⟩

theorem deliverEach (listener : Listener) (waits : Nat → Bool) (entries : List (Bytes × Nat)) (t : DaemonTerminalTransport) :
    ∃ acknowledgements, entries.foldl (fun t entry => t.deliver entry.1 [listener] (waits entry.2)) t = { t with
      received := fun other => if other = listener then t.received other ++ entries.map Prod.fst else t.received other
      pendingRendererBytes := t.pendingRendererBytes + acknowledgements.sum
      outstanding := t.outstanding ++ acknowledgements } := by
  induction entries generalizing t with
  | nil => exact ⟨[], by simp⟩
  | cons entry entries ih =>
    obtain ⟨acknowledgements, same⟩ := ih (t.deliver entry.1 [listener] (waits entry.2))
    refine ⟨(if [listener] ≠ [] ∧ waits entry.2 = true then [entry.1.length] else []) ++ acknowledgements, ?_⟩
    rw [List.foldl_cons, same]
    simp only [DaemonTerminalTransport.deliver, List.append_assoc, List.sum_append, Nat.add_assoc, List.map_cons,
      List.mem_singleton]
    congr 1
    funext other
    split <;> simp

theorem subscribeShape (listener : Listener) (waits : Nat → Bool) (t : DaemonTerminalTransport) :
    ∃ acknowledgements, t.subscribe listener waits = { t with
      listeners := if listener ∈ t.listeners then t.listeners else t.listeners ++ [listener]
      received := fun other => if other = listener then t.received other ++ t.replay.chunks else t.received other
      pendingRendererBytes := t.pendingRendererBytes + acknowledgements.sum
      outstanding := t.outstanding ++ acknowledgements } := by
  obtain ⟨acknowledgements, same⟩ := deliverEach listener waits t.replay.chunks.zipIdx { t with
    listeners := if listener ∈ t.listeners then t.listeners else t.listeners ++ [listener] }
  rw [List.zipIdx_map_fst] at same
  exact ⟨acknowledgements, same⟩

end Deliveries

section Forgetting
variable (t : DaemonTerminalTransport)

def DaemonTerminalTransport.awaits (waits : Bool) : Bool := t.listeners ≠ [] ∧ waits = true

theorem scheduleForgets : t.schedulePoll.toTransport = t.toTransport.schedulePoll := by
  unfold DaemonTerminalTransport.schedulePoll Transport.schedulePoll
  split <;> rfl

theorem startPollingForgets : t.startPolling.toTransport = t.toTransport.startPolling := by
  unfold DaemonTerminalTransport.startPolling Transport.startPolling
  dsimp only
  split
  · rfl
  · exact scheduleForgets _

theorem pollForgets : t.poll.toTransport = t.toTransport.poll := by
  unfold DaemonTerminalTransport.poll Transport.poll
  dsimp only
  split <;> rfl

theorem acknowledgeForgets (index bytes : Nat) :
    (t.acknowledge index bytes).toTransport = t.toTransport.acknowledge bytes := by
  unfold DaemonTerminalTransport.acknowledge Transport.acknowledge
  dsimp only
  split
  · exact scheduleForgets _
  · rfl

theorem failedForgets (reason : String) : (t.failed reason).toTransport = t.toTransport.failed reason := by
  unfold DaemonTerminalTransport.failed Transport.failed
  dsimp only
  split <;> rfl

theorem receiveChunkForgets (waits : Bool) (chunk : TerminalOutputChunk) :
    (t.receiveChunk (fun _ => waits) chunk).toTransport = t.toTransport.deliver (t.awaits waits) chunk ∧
      (t.receiveChunk (fun _ => waits) chunk).listeners = t.listeners := by
  unfold DaemonTerminalTransport.receiveChunk Transport.deliver
  split
  · exact ⟨rfl, rfl⟩
  · refine ⟨?_, rfl⟩
    simp only [DaemonTerminalTransport.deliver, DaemonTerminalTransport.awaits, decide_eq_true_eq]
    split <;> rfl

theorem receiveChunksForget (waits : Bool) (chunks : List TerminalOutputChunk) :
    (chunks.foldl (fun t chunk => t.receiveChunk (fun _ => waits) chunk) t).toTransport =
      t.toTransport.deliverAll (t.awaits waits) chunks := by
  induction chunks generalizing t with
  | nil => rfl
  | cons chunk chunks ih =>
    obtain ⟨same, listeners⟩ := receiveChunkForgets t waits chunk
    have awaits : (t.receiveChunk (fun _ => waits) chunk).awaits waits = t.awaits waits := by
      unfold DaemonTerminalTransport.awaits
      rw [listeners]
    rw [List.foldl_cons, ih, same, awaits]
    rfl

theorem receiveForgets (waits : Bool) (cursor : Nat) (result : TerminalReadResult) :
    (t.receive (fun _ => waits) cursor result).toTransport =
      t.toTransport.receive (t.awaits waits) cursor result := by
  unfold DaemonTerminalTransport.receive Transport.receive
  split
  · rfl
  · cases checked : t.toTransport.validateRead result cursor with
    | error reason => exact failedForgets t reason
    | ok _ =>
      have told := receiveChunksForget t waits result.chunks
      dsimp only
      rw [← told]
      generalize result.chunks.foldl (fun t chunk => t.receiveChunk (fun _ => waits) chunk) t = told
      split
      · exact congrArg (fun t => { t with readInFlight := false }) (scheduleForgets _)
      · rfl

end Forgetting

structure Stored (limit : Nat) (t : DaemonTerminalTransport) : Prop where
  bound : t.replayByteLimit = limit
  holds : t.replay.Holds limit (t.delivered.map (·.data)).flatten
  ordered : t.delivered.Pairwise (·.sequence < ·.sequence)
  last : ∀ chunk ∈ t.delivered, chunk.sequence ≤ t.lastDeliveredSequence

section Storing
variable {t t' : DaemonTerminalTransport} {limit : Nat}

theorem storedKept (stored : Stored limit t) (kept : Kept t t') : Stored limit t' where
  bound := kept.limit.trans stored.bound
  holds := by
    rw [kept.replay, kept.delivered]
    exact stored.holds
  ordered := by
    rw [kept.delivered]
    exact stored.ordered
  last := by
    rw [kept.delivered, kept.last]
    exact stored.last

theorem storedDelivers {later : List TerminalOutputChunk} (positive : 0 < limit) (stored : Stored limit t)
    (delivers : Delivers t t' later) : Stored limit t' := by
  have holds := delivers.replay _ (stored.bound.symm ▸ positive) (stored.bound.symm ▸ stored.holds)
  rw [stored.bound, ← List.flatten_append, ← List.map_append, ← delivers.delivered] at holds
  refine ⟨delivers.limit.trans stored.bound, holds, ?_, fun chunk mem => ?_⟩
  · rw [delivers.delivered]
    exact List.pairwise_append.mpr ⟨stored.ordered, delivers.ordered, fun earlier before chunk mem =>
      Nat.lt_of_le_of_lt (stored.last earlier before) (delivers.within chunk mem).1⟩
  · rw [delivers.delivered] at mem
    rcases List.mem_append.mp mem with before | after
    · exact Nat.le_trans (stored.last chunk before) delivers.grows
    · exact (delivers.within chunk after).2

theorem storedStep {label : Label} (positive : 0 < limit) (stored : Stored limit t) (steps : step t label = some t') :
    Stored limit t' := by
  by_cases quiet : label.quiet = true
  · exact storedKept stored (keptStep quiet steps)
  cases label with
  | answer index waits result =>
    rcases answerDelivers steps with kept | ⟨-, later, delivers⟩
    · exact storedKept stored kept
    · exact storedDelivers positive stored delivers
  | subscribe listener waits =>
    cases Option.some.inj steps
    obtain ⟨acknowledgements, same⟩ := subscribeShape listener waits t
    rw [same]
    exact ⟨stored.bound, stored.holds, stored.ordered, stored.last⟩
  | unsubscribe listener =>
    cases Option.some.inj steps
    exact ⟨stored.bound, stored.holds, stored.ordered, stored.last⟩
  | detach =>
    cases Option.some.inj steps
    exact ⟨stored.bound, stored.holds, stored.ordered, stored.last⟩
  | startPolling => exact absurd rfl quiet
  | fire => exact absurd rfl quiet
  | rejected index reason => exact absurd rfl quiet
  | settle index => exact absurd rfl quiet
  | close => exact absurd rfl quiet
  | closed status => exact absurd rfl quiet
  | closeFailed reason => exact absurd rfl quiet
  | interactionFailed reason => exact absurd rfl quiet

end Storing

/-- Attached, started, and neither closing nor in a final state. -/
def Active (t : DaemonTerminalTransport) : Prop :=
  t.detached = false ∧ t.started = true ∧ t.closeRequested = false ∧ isTerminal t.snapshot.state = false

structure Polling (t : DaemonTerminalTransport) : Prop where
  pending : t.pendingRendererBytes = t.outstanding.sum
  timers : t.timers = t.pollTimer.toNat
  reads : t.reads.length = t.readInFlight.toNat
  apart : t.readInFlight = true → t.pollTimer = false
  closing : 0 < t.closes → t.closeRequested = true
  alive : Active t → t.pollTimer = true ∨ t.readInFlight = true ∨ t.rendererBackpressured = true

structure Idle (t : DaemonTerminalTransport) : Prop where
  pending : t.pendingRendererBytes = t.outstanding.sum
  unarmed : t.pollTimer = false
  timers : t.timers = 0
  reads : t.reads = []
  closing : 0 < t.closes → t.closeRequested = true

section Polls
variable {t t' : DaemonTerminalTransport}

theorem idleQuiet (idle : Idle t) (stopped : Active t → t.rendererBackpressured = true) :
    Polling { t with readInFlight := false } where
  pending := idle.pending
  timers := by rw [idle.timers, idle.unarmed]; rfl
  reads := by rw [idle.reads]; rfl
  apart _ := idle.unarmed
  closing := idle.closing
  alive active := .inr (.inr (stopped active))

theorem idleSchedule (idle : Idle t) : Polling { t.schedulePoll with readInFlight := false } := by
  unfold DaemonTerminalTransport.schedulePoll
  split
  · rename_i stopped
    refine idleQuiet idle fun active => ?_
    simpa [active.1, active.2.2.2] using stopped
  · exact ⟨idle.pending, by rw [idle.timers]; rfl, by rw [idle.reads]; rfl, (fun reading => by cases reading),
      idle.closing, fun _ => .inl rfl⟩

theorem pollingIdle (polling : Polling t) (free : t.readInFlight = false) (unarmed : t.pollTimer = false) : Idle t where
  pending := polling.pending
  unarmed := unarmed
  timers := by rw [polling.timers, unarmed]; rfl
  reads := List.length_eq_zero_iff.mp (by rw [polling.reads, free]; rfl)
  closing := polling.closing

theorem answerIdle {index cursor : Nat} (polling : Polling t) (here : t.reads[index]? = some cursor) :
    t.readInFlight = true ∧ Idle { t with reads := t.reads.eraseIdx index } := by
  have less := (List.getElem?_eq_some_iff.mp here).1
  have length := polling.reads
  have reading : t.readInFlight = true := by
    cases flying : t.readInFlight with
    | true => rfl
    | false =>
      rw [flying, Bool.toNat_false] at length
      omega
  rw [reading, Bool.toNat_true] at length
  have unarmed := polling.apart reading
  refine ⟨reading, polling.pending, unarmed, by rw [polling.timers, unarmed]; rfl, ?_, polling.closing⟩
  exact List.length_eq_zero_iff.mp (by rw [List.length_eraseIdx_of_lt less, length])

theorem idleFailed (idle : Idle t) (reason : String) : Polling (t.failed reason) := by
  unfold DaemonTerminalTransport.failed
  dsimp only
  split
  · have idle' : Idle (t.disconnect reason) :=
      ⟨idle.pending, rfl, by simp [DaemonTerminalTransport.disconnect, DaemonTerminalTransport.clearPollTimer, idle.timers],
        idle.reads, idle.closing⟩
    exact idleQuiet idle' fun active => by cases active.2.2.2
  · rename_i stopped
    refine idleQuiet idle fun active => absurd ?_ stopped
    simp [active.1, active.2.2.1, active.2.2.2]

theorem idleReceive {waits : Nat → Bool} {cursor : Nat} {result : TerminalReadResult} (idle : Idle t) :
    Polling (t.receive waits cursor result) := by
  rcases receiveTold (t := t) waits cursor result with ⟨same, stopped⟩ | ⟨reason, same⟩ | ⟨told, chunks, -, -, same⟩
  · rw [same]
    refine idleQuiet idle fun active => ?_
    simp [active.1, active.2.2.2] at stopped
  · rw [same]
    exact idleFailed idle reason
  · obtain ⟨later, acknowledgements, replay, last, shape, -⟩ := receiveChunks waits result.chunks t
    rw [shape] at chunks
    have shown : Idle { told with toTransport := told.toTransport.show' result } := by
      subst chunks
      refine ⟨?_, idle.unarmed, idle.timers, idle.reads, idle.closing⟩
      simp [Transport.show', idle.pending]
    rw [same]
    dsimp only
    split
    · exact idleSchedule shown
    · rename_i stays
      refine idleQuiet shown fun active => ?_
      have going : isTerminal (.terminal result.state) = false := by
        have final := active.2.2.2
        simp only [Transport.show'] at final
        split at final
        · rename_i closing
          simp only [Bool.and_eq_true, beq_iff_eq] at closing
          rw [closing.2]
          rfl
        · exact final
      simpa [going] using stays

theorem landedSame {t : DaemonTerminalTransport} (free : t.readInFlight = false) : { t with readInFlight := false } = t := by
  rw [← free]

theorem scheduleFree (free : t.readInFlight = false) : t.schedulePoll.readInFlight = false := by
  unfold DaemonTerminalTransport.schedulePoll
  split <;> exact free

theorem idlePolls (idle : Idle t) (free : t.readInFlight = false) : Polling t.schedulePoll := by
  have polling := idleSchedule idle
  rwa [landedSame (scheduleFree free)] at polling

theorem idleStops (idle : Idle t) (free : t.readInFlight = false) (stopped : Active t → t.rendererBackpressured = true) :
    Polling t := by
  have polling := idleQuiet idle stopped
  rwa [landedSame free] at polling

theorem stoppedPolling (polling : Polling t) (pending : t'.pendingRendererBytes = t.pendingRendererBytes)
    (outstanding : t'.outstanding = t.outstanding) (unarmed : t'.pollTimer = false)
    (timers : t'.timers = t.timers - t.pollTimer.toNat) (reads : t'.reads = t.reads)
    (reading : t'.readInFlight = t.readInFlight) (closing : 0 < t'.closes → t'.closeRequested = true)
    (stopped : ¬ Active t') : Polling t' where
  pending := by rw [pending, outstanding, polling.pending]
  timers := by rw [timers, polling.timers, unarmed, Nat.sub_self]; rfl
  reads := by rw [reads, reading, polling.reads]
  apart _ := unarmed
  closing := closing
  alive active := absurd active stopped

theorem disconnectPolling (polling : Polling t) (reason : String) : Polling (t.disconnect reason) :=
  stoppedPolling polling rfl rfl rfl rfl rfl rfl polling.closing fun active => by cases active.2.2.2

theorem startPolls (polling : Polling t) : Polling t.startPolling := by
  unfold DaemonTerminalTransport.startPolling
  dsimp only
  split
  · rename_i busy
    refine ⟨polling.pending, polling.timers, polling.reads, polling.apart, polling.closing, fun active => ?_⟩
    have attached : t.detached = false := active.1
    have going : isTerminal t.snapshot.state = false := active.2.2.2
    simp only [attached, going, Bool.false_or, Bool.or_false, Bool.or_eq_true] at busy
    exact busy.imp_right .inl
  · rename_i idle
    simp only [Bool.or_eq_true, not_or, Bool.not_eq_true] at idle
    have same := pollingIdle polling idle.1.2 idle.1.1.2
    exact idlePolls (t := { t with started := true })
      ⟨same.pending, same.unarmed, same.timers, same.reads, same.closing⟩ idle.1.2

theorem firePolls (polling : Polling t) (armed : 0 < t.timers) : Polling t.poll := by
  have set : t.pollTimer = true := by
    rw [polling.timers] at armed
    cases timer : t.pollTimer with
    | true => rfl
    | false => simp [timer] at armed
  have free : t.readInFlight = false := Bool.eq_false_iff.mpr fun reading => by
    have := polling.apart reading
    simp [set] at this
  have timers : t.timers - 1 = 0 := by rw [polling.timers, set]; rfl
  have reads := polling.reads
  rw [free, Bool.toNat_false, List.length_eq_zero_iff] at reads
  unfold DaemonTerminalTransport.poll
  dsimp only
  split
  · rename_i stopped
    refine idleStops ⟨polling.pending, rfl, timers, reads, polling.closing⟩ free fun active => ?_
    have attached : t.detached = false := active.1
    have going : isTerminal t.snapshot.state = false := active.2.2.2
    simp [free, attached, going] at stopped
  · refine ⟨polling.pending, timers, by rw [reads]; rfl, fun _ => rfl, polling.closing, fun _ => .inr (.inl rfl)⟩

theorem settlePolls {index bytes : Nat} (polling : Polling t) (here : t.outstanding[index]? = some bytes) :
    Polling (t.acknowledge index bytes) := by
  have total := (Entries.erased here).sum_nat
  rw [List.sum_cons] at total
  have pending : t.pendingRendererBytes - bytes = (t.outstanding.eraseIdx index).sum := by
    rw [polling.pending]
    omega
  unfold DaemonTerminalTransport.acknowledge
  dsimp only
  split
  · rename_i idle
    simp only [Bool.and_eq_true, Bool.not_eq_true'] at idle
    have same := pollingIdle polling idle.2 idle.1.2
    exact idlePolls ⟨pending, same.unarmed, same.timers, same.reads, same.closing⟩ idle.2
  · rename_i busy
    refine ⟨pending, polling.timers, polling.reads, polling.apart, polling.closing, fun _ => ?_⟩
    simp only [Bool.and_eq_true, Bool.not_eq_true', not_and, Bool.not_eq_false] at busy
    by_cases held : ({ t with
        pendingRendererBytes := t.pendingRendererBytes - bytes
        outstanding := t.outstanding.eraseIdx index } : DaemonTerminalTransport).rendererBackpressured = true
    · exact .inr (.inr held)
    · cases timer : t.pollTimer with
      | true => exact .inl rfl
      | false => exact .inr (.inl (busy ⟨Bool.eq_false_iff.mpr held, timer⟩))

theorem backpressureGrows {bytes more : Nat} {t : Transport} (held : t.rendererBackpressured = true)
    (grown : bytes = t.pendingRendererBytes + more) :
    { t with pendingRendererBytes := bytes }.rendererBackpressured = true := by
  simp only [Transport.rendererBackpressured, decide_eq_true_eq] at held ⊢
  omega

theorem pollingStep {label : Label} (polling : Polling t) (steps : step t label = some t') : Polling t' := by
  cases label with
  | startPolling =>
    cases Option.some.inj steps
    exact startPolls polling
  | fire =>
    simp only [step] at steps
    split at steps
    · rename_i armed
      cases Option.some.inj steps
      exact firePolls polling armed
    · cases steps
  | answer index waits result =>
    obtain ⟨cursor, here, rfl⟩ := Option.map_eq_some_iff.mp steps
    exact idleReceive (answerIdle polling here).2
  | rejected index reason =>
    obtain ⟨cursor, here, rfl⟩ := Option.map_eq_some_iff.mp steps
    exact idleFailed (answerIdle polling here).2 reason
  | subscribe listener waits =>
    cases Option.some.inj steps
    obtain ⟨acknowledgements, same⟩ := subscribeShape listener waits t
    rw [same]
    refine ⟨?_, polling.timers, polling.reads, polling.apart, polling.closing, fun active => ?_⟩
    · simp [polling.pending]
    · exact (polling.alive active).imp_right fun busy => busy.imp_right fun held => backpressureGrows held rfl
  | unsubscribe listener =>
    cases Option.some.inj steps
    exact ⟨polling.pending, polling.timers, polling.reads, polling.apart, polling.closing, polling.alive⟩
  | settle index =>
    obtain ⟨bytes, here, rfl⟩ := Option.map_eq_some_iff.mp steps
    exact settlePolls polling here
  | detach =>
    cases Option.some.inj steps
    exact stoppedPolling polling rfl rfl rfl rfl rfl rfl polling.closing fun active => by cases active.1
  | close =>
    cases Option.some.inj steps
    exact stoppedPolling polling rfl rfl rfl rfl rfl rfl (fun _ => rfl) fun active => by cases active.2.2.1
  | closed status =>
    simp only [step] at steps
    split at steps
    · rename_i closing
      cases Option.some.inj steps
      have requested := polling.closing closing
      exact ⟨polling.pending, polling.timers, polling.reads, polling.apart, fun _ => requested, fun active =>
        absurd (requested.symm.trans active.2.2.1) (by decide)⟩
    · cases steps
  | closeFailed reason =>
    simp only [step] at steps
    split at steps
    · rename_i closing
      cases Option.some.inj steps
      exact stoppedPolling polling rfl rfl rfl rfl rfl rfl (fun _ => polling.closing closing) fun active => by
        cases active.2.2.2
    · cases steps
  | interactionFailed reason =>
    cases Option.some.inj steps
    split
    · exact disconnectPolling polling reason
    · exact polling

end Polls

/-- The listener is neither subscribed again nor unsubscribed. -/
def Keeps (listener : Listener) (_ : DaemonTerminalTransport) : Label → Prop
  | .subscribe other _ | .unsubscribe other => other ≠ listener
  | _ => True

structure Hears (listener : Listener) (before t : DaemonTerminalTransport) : Prop where
  joined : listener ∈ t.listeners ∨ t.detached = true
  heard : ∃ later, t.delivered = before.delivered ++ later ∧
    t.received listener = before.received listener ++ before.replay.chunks ++ later.map (·.data)

section Subscribers
variable {t t' before : DaemonTerminalTransport} {listener : Listener}

theorem hearsJoined {waits : Nat → Bool} (steps : step t (.subscribe listener waits) = some t') : Hears listener t t' := by
  cases Option.some.inj steps
  obtain ⟨acknowledgements, same⟩ := subscribeShape listener waits t
  rw [same]
  refine ⟨.inl ?_, [], (List.append_nil _).symm, ?_⟩
  · dsimp only
    split
    · assumption
    · exact List.mem_append_right _ (List.mem_singleton.mpr rfl)
  · simp

theorem hearsKept (hears : Hears listener before t) (kept : Kept t t') : Hears listener before t' := by
  refine ⟨?_, ?_⟩
  · rw [kept.listeners, kept.detached]
    exact hears.joined
  · rw [kept.delivered, kept.received]
    exact hears.heard

theorem hearsStep {label : Label} (hears : Hears listener before t) (keeps : Keeps listener t label)
    (steps : step t label = some t') : Hears listener before t' := by
  by_cases quiet : label.quiet = true
  · exact hearsKept hears (keptStep quiet steps)
  cases label with
  | answer index waits result =>
    rcases answerDelivers steps with kept | ⟨attached, later, delivers⟩
    · exact hearsKept hears kept
    · have member := hears.joined.resolve_right (by simp [attached])
      obtain ⟨earlier, delivered, received⟩ := hears.heard
      refine ⟨.inl (delivers.listeners ▸ member), earlier ++ later, ?_, ?_⟩
      · rw [delivers.delivered, delivered, List.append_assoc]
      · rw [delivers.received]
        dsimp only
        rw [if_pos member, received, List.map_append, List.append_assoc]
  | subscribe other waits =>
    cases Option.some.inj steps
    obtain ⟨acknowledgements, same⟩ := subscribeShape other waits t
    rw [same]
    refine ⟨hears.joined.imp_left fun member => ?_, ?_⟩
    · dsimp only
      split
      · exact member
      · exact List.mem_append_left _ member
    · dsimp only
      rw [if_neg (Ne.symm keeps)]
      exact hears.heard
  | unsubscribe other =>
    cases Option.some.inj steps
    refine ⟨hears.joined.imp_left fun member => ?_, hears.heard⟩
    exact List.mem_filter.mpr ⟨member, decide_eq_true (Ne.symm keeps)⟩
  | detach =>
    cases Option.some.inj steps
    exact ⟨.inr rfl, hears.heard⟩
  | startPolling => exact absurd rfl quiet
  | fire => exact absurd rfl quiet
  | rejected index reason => exact absurd rfl quiet
  | settle index => exact absurd rfl quiet
  | close => exact absurd rfl quiet
  | closed status => exact absurd rfl quiet
  | closeFailed reason => exact absurd rfl quiet
  | interactionFailed reason => exact absurd rfl quiet

end Subscribers

section Runs
variable {terminalId : TerminalId} {state : TerminalState} {maximumReadBytes rendererHighWaterBytes replayBytes : Nat}
  {t : DaemonTerminalTransport}

theorem storedOpened : Stored replayBytes (.opened terminalId state maximumReadBytes rendererHighWaterBytes replayBytes) :=
  ⟨rfl, Replay.emptyHolds _, .nil, fun _ mem => by cases mem⟩

theorem pollingOpened :
    Polling (.opened terminalId state maximumReadBytes rendererHighWaterBytes replayBytes) :=
  ⟨rfl, rfl, rfl, fun _ => rfl, fun closing => absurd closing (Nat.lt_irrefl 0), fun active => by cases active.2.1⟩

/-- The replay is the end of what was delivered, each subscriber hears it and what follows, one
read at most is in flight, and an active transport polls or waits for acknowledgements. -/
theorem replaysAndPolls (positive : 0 < replayBytes)
    (reached : Reach step Any (.opened terminalId state maximumReadBytes rendererHighWaterBytes replayBytes) t) :
    (t.replay.chunks.flatten <:+ (t.delivered.map (·.data)).flatten ∧ t.replay.chunks.flatten.length ≤ replayBytes ∧
        (t.replay.truncated = true ↔ t.replay.chunks.flatten ≠ (t.delivered.map (·.data)).flatten)) ∧
      t.delivered.Pairwise (·.sequence < ·.sequence) ∧
      (∀ listener waits joined u, step t (.subscribe listener waits) = some joined →
        Reach step (Keeps listener) joined u → ∃ later, u.delivered = t.delivered ++ later ∧
          u.received listener = t.received listener ++ t.replay.chunks ++ later.map (·.data)) ∧
      t.reads.length ≤ 1 ∧
      (Active t → t.timers = 1 ∨ t.reads.length = 1 ∨ t.rendererHighWaterBytes ≤ t.outstanding.sum) := by
  have stored : Stored replayBytes t :=
    reachInvariant reached storedOpened fun stored _ steps => storedStep positive stored steps
  have polling : Polling t := reachInvariant reached pollingOpened fun polling _ steps => pollingStep polling steps
  refine ⟨⟨stored.holds.tail, ?_, stored.holds.marked⟩, stored.ordered, ?_, ?_, fun active => ?_⟩
  · rw [← stored.holds.counted]
    exact stored.holds.bounded
  · intro listener waits joined u steps follows
    exact (reachInvariant follows (hearsJoined steps) hearsStep).heard
  · rw [polling.reads]
    exact Bool.toNat_le _
  · rcases polling.alive active with armed | reading | held
    · exact .inl (by rw [polling.timers, armed]; rfl)
    · exact .inr (.inl (by rw [polling.reads, reading]; rfl))
    · refine .inr (.inr ?_)
      rw [← polling.pending]
      exact of_decide_eq_true held

/-- Two chunks for one subscriber and a replay of four bytes. -/
def twoChunks : List Label :=
  [.startPolling, .subscribe 0 fun _ => true, .fire,
    .answer 0 (fun _ => true) ⟨1, [⟨1, [65, 66, 67]⟩, ⟨2, [68, 69]⟩], 2, 2, false, none, .running, none⟩]

theorem replaysAndPollsTwo : ∃ t, run step Any (.opened 1 .running 65536 4 4) twoChunks = some t ∧
    t.replay = ⟨[[68, 69]], 2, true⟩ ∧ t.received 0 = [[65, 66, 67], [68, 69]] ∧
    t.replay.chunks.flatten <:+ (t.delivered.map (·.data)).flatten ∧ 4 ≤ t.outstanding.sum := by
  have ran : (run step Any (.opened 1 .running 65536 4 4) twoChunks).any (fun t => t.replay = ⟨[[68, 69]], 2, true⟩ ∧
      t.received 0 = [[65, 66, 67], [68, 69]] ∧ t.timers = 0 ∧ t.reads.length = 0 ∧ t.rendererHighWaterBytes = 4 ∧
      t.detached = false ∧ t.started = true ∧ t.closeRequested = false ∧ isTerminal t.snapshot.state = false) = true := by
    decide
  obtain ⟨t, reached, shows⟩ := (Option.any_eq_true _ _).mp ran
  obtain ⟨replay, received, unarmed, unread, high, active⟩ := of_decide_eq_true shows
  obtain ⟨⟨tail, -⟩, -, -, -, alive⟩ := replaysAndPolls (by decide) (reachRun .start reached)
  refine ⟨t, reached, replay, received, tail, ?_⟩
  rcases alive active with armed | reading | held
  · omega
  · omega
  · rwa [high] at held

end Runs

end Maestro.TransportReplay
