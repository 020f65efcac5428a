import Maestro.TerminalOutput

/-! The terminal transport of the desktop application. It polls the output of one terminal
behind its cursor and stops with the first answer that shows a final state. -/
namespace Maestro.Terminal

inductive ConnectionState where
  | terminal (state : TerminalState)
  | disconnected
  deriving DecidableEq, Repr

def isTerminal : ConnectionState → Bool
  | .terminal .exited | .terminal .failed | .terminal .closed | .disconnected => true
  | _ => false

structure ConnectionSnapshot where
  droppedThroughSequence : Option Nat
  error : Option String
  exit : Option TerminalExit
  overflowed : Bool
  state : ConnectionState
  deriving DecidableEq, Repr

/-- `delivered` is what the transport handed to its subscribers. -/
structure Transport where
  terminalId : TerminalId
  maximumReadBytes : Nat
  rendererHighWaterBytes : Nat
  cursor : Nat
  lastDeliveredSequence : Nat
  pendingRendererBytes : Nat
  closeRequested : Bool
  detached : Bool
  pollTimer : Bool
  readInFlight : Bool
  snapshot : ConnectionSnapshot
  delivered : List TerminalOutputChunk
  deriving DecidableEq, Repr

namespace Transport

def new (terminalId : TerminalId) (state : TerminalState)
    (maximumReadBytes rendererHighWaterBytes : Nat) : Transport where
  terminalId
  maximumReadBytes
  rendererHighWaterBytes
  cursor := 0
  lastDeliveredSequence := 0
  pendingRendererBytes := 0
  closeRequested := false
  detached := false
  pollTimer := false
  readInFlight := false
  snapshot := ⟨none, none, none, false, .terminal state⟩
  delivered := []

variable (t : Transport)

def rendererBackpressured : Bool := t.pendingRendererBytes ≥ t.rendererHighWaterBytes

def schedulePoll : Transport :=
  if t.detached || isTerminal t.snapshot.state || t.rendererBackpressured then t
  else { t with pollTimer := true }

def startPolling : Transport :=
  if t.detached || t.pollTimer || t.readInFlight || isTerminal t.snapshot.state then t
  else t.schedulePoll

def poll : Transport :=
  let fired := { t with pollTimer := false }
  if t.detached || t.readInFlight || isTerminal t.snapshot.state then fired
  else { fired with readInFlight := true }

def disconnect (reason : String) : Transport :=
  { t with
    pollTimer := false
    snapshot := { t.snapshot with error := some reason, state := .disconnected } }

def validateRead (result : TerminalReadResult) (requestedCursor : Nat) : Except String Unit :=
  if result.terminalId ≠ t.terminalId then
    .error "The daemon returned output for a different terminal."
  else if result.nextSequence < requestedCursor then
    .error "The daemon terminal cursor moved backwards."
  else if result.latestSequence < result.nextSequence then
    .error "The daemon returned an invalid terminal cursor."
  else .ok ()

/-- One turn of the loop over the chunks; `waits` when a subscriber acknowledges later. -/
def deliver (waits : Bool) (chunk : TerminalOutputChunk) : Transport :=
  if chunk.sequence ≤ t.lastDeliveredSequence then t
  else
    { t with
      lastDeliveredSequence := chunk.sequence
      pendingRendererBytes := t.pendingRendererBytes + if waits then chunk.data.length else 0
      delivered := t.delivered ++ [chunk] }

def deliverAll (waits : Bool) (chunks : List TerminalOutputChunk) : Transport :=
  chunks.foldl (fun t chunk => t.deliver waits chunk) t

def show' (result : TerminalReadResult) : Transport :=
  { t with
    cursor := result.nextSequence
    snapshot := {
      droppedThroughSequence := result.droppedThroughSequence.or t.snapshot.droppedThroughSequence
      error := none
      exit := result.exit
      overflowed := t.snapshot.overflowed || result.overflowed
      state :=
        if t.closeRequested && result.state == .running then .terminal .closing
        else .terminal result.state } }

/-- What `poll` does with a rejected read or an invalid answer. -/
def failed (reason : String) : Transport :=
  let landed := { t with readInFlight := false }
  if !t.detached && !t.closeRequested && !isTerminal t.snapshot.state then landed.disconnect reason
  else landed

/-- What `poll` does with the answer to its read. -/
def receive (waits : Bool) (requestedCursor : Nat) (result : TerminalReadResult) : Transport :=
  if t.detached || isTerminal t.snapshot.state then { t with readInFlight := false }
  else
    match t.validateRead result requestedCursor with
    | .error reason => t.failed reason
    | .ok _ =>
      let shown := (t.deliverAll waits result.chunks).show' result
      let again :=
        if !isTerminal (.terminal result.state) && !shown.rendererBackpressured then
          shown.schedulePoll
        else shown
      { again with readInFlight := false }

def acknowledge (bytes : Nat) : Transport :=
  let drained := { t with pendingRendererBytes := t.pendingRendererBytes - bytes }
  if !drained.rendererBackpressured && !t.pollTimer && !t.readInFlight then drained.schedulePoll
  else drained

def detach : Transport := { t with detached := true, pollTimer := false }

def close : Transport :=
  { t with
    pollTimer := false
    closeRequested := true
    snapshot := { t.snapshot with state := .terminal .closing } }

def closed (status : TerminalStatus) : Transport :=
  { t with snapshot := { t.snapshot with
      error := none, exit := status.exit, state := .terminal status.state } }

def interactionFailed (reason : String) : Transport :=
  if !t.closeRequested && !isTerminal t.snapshot.state then t.disconnect reason else t

end Transport

/-- An answer of the daemon, with the cursor it was asked behind and its buffer then. -/
structure Served where
  asked : Nat
  output : OutputBuffer
  result : TerminalReadResult

structure Linked where
  stream : List Bytes
  output : OutputBuffer
  transport : Transport
  asked : Option Nat
  served : Option Served
  last : Option Served

def Linked.start (transport : Transport) : Linked := ⟨[], .default, transport, none, none, none⟩

def Transport.accepts (t : Transport) (s : Served) : Bool :=
  !t.detached && !isTerminal t.snapshot.state && (t.validateRead s.result s.asked).isOk

/-- A timer that another one replaced may still fire, so a poll can come at any time. -/
inductive Links (f : Linked) : Linked → Prop
  | output {data : Bytes} (some' : data ≠ []) (small : data.length ≤ terminalReadChunkBytes) :
      Links f { f with stream := f.stream ++ [data], output := (f.output.push data).1 }
  | startPolling : Links f { f with transport := f.transport.startPolling }
  | idle (busy : f.transport.poll.readInFlight = f.transport.readInFlight) :
      Links f { f with transport := f.transport.poll }
  | poll (free : f.transport.readInFlight = false) (sent : f.transport.poll.readInFlight = true) :
      Links f { f with transport := f.transport.poll, asked := some f.transport.cursor }
  | answer {asked wait : Nat} {state : TerminalState} {exit : Option TerminalExit}
      {result : TerminalReadResult} (pending : f.asked = some asked)
      (accepted : Terminal.validateRead f.transport.maximumReadBytes wait = .ok ())
      (read : terminalReadSnapshot ⟨f.transport.terminalId, state, exit⟩ f.output asked
        f.transport.maximumReadBytes = .ok result) :
      Links f { f with asked := none, served := some ⟨asked, f.output, result⟩ }
  | receive {waits : Bool} {s : Served} (arrived : f.served = some s) :
      Links f { f with
        transport := f.transport.receive waits s.asked s.result
        served := none
        last := if f.transport.accepts s then some s else f.last }
  | reject {reason : String} (flying : f.asked ≠ none ∨ f.served ≠ none) :
      Links f { f with transport := f.transport.failed reason, asked := none, served := none }
  | acknowledge (bytes : Nat) : Links f { f with transport := f.transport.acknowledge bytes }
  | detach : Links f { f with transport := f.transport.detach }
  | close : Links f { f with transport := f.transport.close }
  | closed (status : TerminalStatus) : Links f { f with transport := f.transport.closed status }
  | disconnect (reason : String) : Links f { f with transport := f.transport.disconnect reason }
  | interactionFailed (reason : String) :
      Links f { f with transport := f.transport.interactionFailed reason }

def Served.unread (s : Served) : List TerminalOutputChunk :=
  s.output.chunks.filter fun chunk => chunk.sequence > s.asked

def Served.Fits (s : Served) (maximumReadBytes : Nat) : Prop :=
  bytesOf s.unread ≤ maximumReadBytes

/-- What the daemon retained up to the latest sequence it answered is delivered, in order. -/
structure Linked.Complete (f : Linked) (s : Served) : Prop where
  all : ∀ chunk ∈ s.output.chunks, chunk.sequence ≤ s.result.latestSequence →
    chunk ∈ f.transport.delivered
  ordered : f.transport.delivered.Pairwise fun a b => a.sequence < b.sequence

theorem bytesCons (chunk : TerminalOutputChunk) (rest : List TerminalOutputChunk) :
    bytesOf (chunk :: rest) = chunk.data.length + bytesOf rest := by
  simp [bytesOf]

theorem collectAll (maximumBytes : Nat) (chunks : List TerminalOutputChunk) (bytes : Nat)
    (within : bytes ≤ maximumBytes) :
    OutputBuffer.collect maximumBytes chunks bytes = chunks ↔
      bytes + bytesOf chunks ≤ maximumBytes := by
  induction chunks generalizing bytes with
  | nil => exact ⟨fun _ => within, fun _ => rfl⟩
  | cons chunk rest ih =>
    rw [OutputBuffer.collect, bytesCons]
    split
    · rename_i large
      refine ⟨fun cut => absurd cut.symm (List.cons_ne_nil _ _), fun fits => ?_⟩
      omega
    · rename_i fits
      have later := ih (bytes + chunk.data.length) (Nat.le_of_not_lt fits)
      rw [List.cons.injEq, ← Nat.add_assoc]
      exact ⟨fun same => later.mp same.2, fun small => ⟨rfl, later.mpr small⟩⟩

theorem OutputBuffer.Kept.unread {stream : List Bytes} {b : OutputBuffer} (kept : b.Kept stream)
    (asked : Nat) :
    (b.chunks.filter fun chunk => chunk.sequence > asked) =
      numberFrom (b.start asked) (stream.drop (b.start asked)) := by
  have reach : b.droppedThroughSequence + (asked - b.droppedThroughSequence) = b.start asked := by
    unfold OutputBuffer.start
    omega
  rw [kept.chunks, numberFilter, numberDrop, List.drop_drop, reach]

structure Served.Sound (s : Served) (stream : List Bytes) (maximumBytes : Nat) : Prop where
  kept : s.output.Kept stream
  known : s.asked ≤ stream.length
  collected : s.result.chunks = OutputBuffer.collect maximumBytes s.unread 0
  piece : ∃ got, got <+: stream.drop (s.output.start s.asked) ∧
    s.result.chunks = numberFrom (s.output.start s.asked) got ∧
    s.result.nextSequence = s.output.start s.asked + got.length
  latest : s.result.latestSequence = stream.length

theorem servedSound {stream : List Bytes} {b : OutputBuffer} {asked maximumBytes : Nat}
    {status : TerminalStatus} {result : TerminalReadResult} (kept : b.Kept stream)
    (known : asked ≤ stream.length)
    (read : terminalReadSnapshot status b asked maximumBytes = .ok result) :
    (⟨asked, b, result⟩ : Served).Sound stream maximumBytes := by
  obtain ⟨got, r, polled, answers, -⟩ := kept.poll known maximumBytes
  have same : result = r.withStatus status := by
    rw [terminalReadSnapshot, polled] at read
    exact (Except.ok.inj read).symm
  subst same
  refine ⟨kept, known, ?_, ⟨got, answers.piece, answers.chunks, answers.next⟩, ?_⟩
  · have current : ¬ asked > b.latestSequence := by
      rw [kept.latest]
      exact Nat.not_lt.mpr known
    have chunks := polled
    rw [OutputBuffer.poll, if_neg current] at chunks
    have listed : r.chunks = OutputBuffer.collect maximumBytes
        (b.chunks.filter fun chunk => chunk.sequence > b.start asked) 0 := by
      rw [← Except.ok.inj chunks]
      rfl
    show r.chunks = _
    rw [listed, kept.behind, Served.unread, kept.unread]
  · exact answers.latest.trans kept.latest

namespace Served.Sound

variable {s : Served} {stream : List Bytes} {maximumBytes : Nat}

theorem later (sound : s.Sound stream maximumBytes) :
    ∀ chunk ∈ s.result.chunks, s.asked < chunk.sequence ∧ chunk.sequence ≤ s.result.nextSequence := by
  obtain ⟨got, -, chunks, next⟩ := sound.piece
  rw [chunks, next]
  intro chunk member
  have behind : s.asked ≤ s.output.start s.asked := Nat.le_max_left _ _
  exact ⟨Nat.lt_of_le_of_lt behind (numberLater member), numberWithin member⟩

theorem sorted (sound : s.Sound stream maximumBytes) :
    s.result.chunks.Pairwise fun a b => a.sequence < b.sequence := by
  obtain ⟨got, -, chunks, -⟩ := sound.piece
  rw [chunks]
  exact numberSorted _ _

theorem bounds (sound : s.Sound stream maximumBytes) :
    s.asked ≤ s.result.nextSequence ∧ s.result.nextSequence ≤ stream.length := by
  obtain ⟨got, piece, -, next⟩ := sound.piece
  have fits := piece.length_le
  rw [List.length_drop] at fits
  have known := sound.known
  have dropped := sound.kept.dropped
  rw [next]
  unfold OutputBuffer.start at fits ⊢
  omega

theorem answered (sound : s.Sound stream maximumBytes) {chunk : TerminalOutputChunk}
    (retained : chunk ∈ s.output.chunks) (after : s.asked < chunk.sequence)
    (within : chunk.sequence ≤ s.result.nextSequence) : chunk ∈ s.result.chunks := by
  obtain ⟨got, ⟨back, whole⟩, chunks, next⟩ := sound.piece
  have listed : chunk ∈ s.output.chunks.filter fun chunk => chunk.sequence > s.asked :=
    List.mem_filter.mpr ⟨retained, decide_eq_true after⟩
  rw [sound.kept.unread, ← whole, numberAppend] at listed
  rw [chunks]
  cases List.mem_append.mp listed with
  | inl here => exact here
  | inr cut =>
    have behind := numberLater cut
    omega

theorem whole (sound : s.Sound stream maximumBytes) :
    (∀ chunk ∈ s.unread, chunk ∈ s.result.chunks) ↔ s.Fits maximumBytes := by
  have all := collectAll maximumBytes s.unread 0 (Nat.zero_le _)
  rw [Nat.zero_add] at all
  rw [sound.collected, Served.Fits, ← all]
  refine ⟨fun inside => ?_, fun same chunk member => same.symm ▸ member⟩
  obtain ⟨keep, within, taken⟩ := OutputBuffer.collectTake maximumBytes s.unread 0
  have distinct : s.unread.Nodup := by
    have ordered : s.unread.Pairwise fun a b => a.sequence < b.sequence := by
      rw [Served.unread, sound.kept.unread]
      exact numberSorted _ _
    exact ordered.imp fun before same => absurd (same ▸ before) (Nat.lt_irrefl _)
  have count := (List.subperm_of_subset distinct inside).length_le
  rw [taken, List.length_take] at count
  rw [taken, List.take_of_length_le (by omega)]

end Served.Sound

namespace Transport

structure SameFeed (t t' : Transport) : Prop where
  cursor : t'.cursor = t.cursor
  last : t'.lastDeliveredSequence = t.lastDeliveredSequence
  delivered : t'.delivered = t.delivered
  maximum : t'.maximumReadBytes = t.maximumReadBytes

variable {t : Transport}

theorem scheduleFeed : t.SameFeed t.schedulePoll ∧ t.schedulePoll.readInFlight = t.readInFlight := by
  unfold schedulePoll
  split <;> exact ⟨⟨rfl, rfl, rfl, rfl⟩, rfl⟩

theorem startFeed : t.SameFeed t.startPolling ∧ t.startPolling.readInFlight = t.readInFlight := by
  unfold startPolling
  split
  · exact ⟨⟨rfl, rfl, rfl, rfl⟩, rfl⟩
  · exact scheduleFeed

theorem pollFeed : t.SameFeed t.poll := by
  unfold poll
  dsimp only
  split <;> exact ⟨rfl, rfl, rfl, rfl⟩

theorem failedFeed (reason : String) : t.SameFeed (t.failed reason) := by
  unfold failed
  dsimp only
  split <;> exact ⟨rfl, rfl, rfl, rfl⟩

theorem acknowledgeFeed (bytes : Nat) :
    t.SameFeed (t.acknowledge bytes) ∧ (t.acknowledge bytes).readInFlight = t.readInFlight := by
  unfold acknowledge
  dsimp only
  split
  · have feed := scheduleFeed (t := { t with pendingRendererBytes := t.pendingRendererBytes - bytes })
    exact ⟨⟨feed.1.cursor, feed.1.last, feed.1.delivered, feed.1.maximum⟩, feed.2⟩
  · exact ⟨⟨rfl, rfl, rfl, rfl⟩, rfl⟩

theorem interactionFeed (reason : String) : t.SameFeed (t.interactionFailed reason) ∧
    (t.interactionFailed reason).readInFlight = t.readInFlight := by
  unfold interactionFailed
  split <;> exact ⟨⟨rfl, rfl, rfl, rfl⟩, rfl⟩

theorem deliverAllFeeds (waits : Bool) (chunks : List TerminalOutputChunk)
    (sorted : chunks.Pairwise fun a b => a.sequence < b.sequence)
    (later : ∀ chunk ∈ chunks, t.lastDeliveredSequence < chunk.sequence) :
    (t.deliverAll waits chunks).delivered = t.delivered ++ chunks := by
  induction chunks generalizing t with
  | nil => exact (List.append_nil _).symm
  | cons chunk rest ih =>
    have first := later chunk List.mem_cons_self
    have ordered := List.pairwise_cons.mp sorted
    have step := ih (t := t.deliver waits chunk) ordered.2 fun next member => by
      rw [deliver, if_neg (Nat.not_le.mpr first)]
      exact ordered.1 next member
    show ((t.deliver waits chunk).deliverAll waits rest).delivered = _
    rw [step, deliver, if_neg (Nat.not_le.mpr first), List.append_assoc]
    rfl

theorem deliverAllLast (waits : Bool) (chunks : List TerminalOutputChunk) {bound : Nat}
    (start : t.lastDeliveredSequence ≤ bound) (within : ∀ chunk ∈ chunks, chunk.sequence ≤ bound) :
    (t.deliverAll waits chunks).lastDeliveredSequence ≤ bound := by
  induction chunks generalizing t with
  | nil => exact start
  | cons chunk rest ih =>
    refine ih ?_ fun next member => within next (List.mem_cons_of_mem _ member)
    show (t.deliver waits chunk).lastDeliveredSequence ≤ bound
    rw [deliver]
    by_cases old : chunk.sequence ≤ t.lastDeliveredSequence
    · rw [if_pos old]
      exact start
    · rw [if_neg old]
      exact within chunk List.mem_cons_self

theorem deliverAllRest (waits : Bool) (chunks : List TerminalOutputChunk) :
    ∃ last pending delivered, t.deliverAll waits chunks = { t with
      lastDeliveredSequence := last, pendingRendererBytes := pending, delivered := delivered } := by
  induction chunks generalizing t with
  | nil => exact ⟨_, _, _, rfl⟩
  | cons chunk rest ih =>
    obtain ⟨last, pending, delivered, same⟩ := ih (t := t.deliver waits chunk)
    refine ⟨last, pending, delivered, ?_⟩
    show (t.deliver waits chunk).deliverAll waits rest = _
    rw [same, deliver]
    by_cases old : chunk.sequence ≤ t.lastDeliveredSequence
    · rw [if_pos old]
    · rw [if_neg old]

theorem receiveRefused (waits : Bool) {s : Served} (refused : t.accepts s = false) :
    t.SameFeed (t.receive waits s.asked s.result) := by
  unfold receive
  split
  · exact ⟨rfl, rfl, rfl, rfl⟩
  · rename_i live
    cases valid : t.validateRead s.result s.asked with
    | error reason => exact failedFeed reason
    | ok _ =>
      simp only [Bool.or_eq_true, not_or, Bool.not_eq_true] at live
      rw [accepts, live.1, live.2, valid] at refused
      cases refused

theorem receiveAccepted {waits : Bool} {s : Served} (accepted : t.accepts s = true) :
    ((t.deliverAll waits s.result.chunks).show' s.result).SameFeed
      (t.receive waits s.asked s.result) := by
  simp only [accepts, Bool.and_eq_true, Bool.not_eq_true'] at accepted
  obtain ⟨⟨attached, live⟩, valid⟩ := accepted
  unfold receive
  rw [attached, live, if_neg (by simp)]
  cases checked : t.validateRead s.result s.asked with
  | error reason =>
    rw [checked] at valid
    cases valid
  | ok _ =>
    dsimp only
    split
    · have feed := scheduleFeed (t := (t.deliverAll waits s.result.chunks).show' s.result)
      exact ⟨feed.1.cursor, feed.1.last, feed.1.delivered, feed.1.maximum⟩
    · exact ⟨rfl, rfl, rfl, rfl⟩

theorem receiveFinal (waits : Bool) {s : Served} (accepted : t.accepts s = true)
    (final : isTerminal (.terminal s.result.state) = true) :
    ∃ last pending delivered, t.receive waits s.asked s.result =
      { ({ t with
          lastDeliveredSequence := last
          pendingRendererBytes := pending
          delivered := delivered } : Transport).show' s.result with readInFlight := false } := by
  obtain ⟨last, pending, delivered, same⟩ := deliverAllRest (t := t) waits s.result.chunks
  simp only [accepts, Bool.and_eq_true, Bool.not_eq_true'] at accepted
  obtain ⟨⟨attached, live⟩, valid⟩ := accepted
  refine ⟨last, pending, delivered, ?_⟩
  unfold receive
  rw [if_neg (by simp [attached, live])]
  cases checked : t.validateRead s.result s.asked with
  | error reason =>
    rw [checked] at valid
    cases valid
  | ok _ =>
    dsimp only
    rw [if_neg (by simp [final]), same]

end Transport

structure Fed (stream : List Bytes) (output : OutputBuffer) (t : Transport) : Prop where
  known : t.cursor ≤ stream.length
  behind : t.lastDeliveredSequence ≤ t.cursor
  ordered : t.delivered.Pairwise fun a b => a.sequence < b.sequence
  below : ∀ chunk ∈ t.delivered, chunk.sequence ≤ t.cursor
  retained : ∀ chunk ∈ output.chunks, chunk.sequence ≤ t.cursor → chunk ∈ t.delivered

/-- An answer in flight, or the last one taken, of a daemon that has gone on since. -/
structure Past (stream : List Bytes) (output : OutputBuffer) (t : Transport) (s : Served) : Prop where
  sound : ∃ earlier, s.Sound earlier t.maximumReadBytes ∧ earlier <+: stream
  kept : ∀ chunk ∈ output.chunks, chunk.sequence ≤ s.result.latestSequence →
    chunk ∈ s.output.chunks

structure Took (s : Served) (old delivered : List TerminalOutputChunk) : Prop where
  all : delivered = old ++ s.result.chunks
  below : ∀ chunk ∈ old, chunk.sequence ≤ s.asked
  retained : ∀ chunk ∈ s.output.chunks, chunk.sequence ≤ s.asked → chunk ∈ old

structure Linked.Sound (f : Linked) : Prop where
  kept : f.output.Kept f.stream
  fed : Fed f.stream f.output f.transport
  asked : ∀ asked, f.asked = some asked → f.transport.readInFlight = true ∧
    f.transport.cursor = asked ∧ f.served = none
  served : ∀ s, f.served = some s → f.transport.readInFlight = true ∧
    f.transport.cursor = s.asked ∧ f.asked = none ∧ Past f.stream f.output f.transport s ∧
    ∀ chunk ∈ s.output.chunks, chunk.sequence ≤ s.asked → chunk ∈ f.transport.delivered
  last : ∀ s, f.last = some s → Past f.stream f.output f.transport s ∧
    ∃ old, Took s old f.transport.delivered

theorem startLinked (terminalId : TerminalId) (state : TerminalState)
    (maximumReadBytes highWater : Nat) :
    (Linked.start (.new terminalId state maximumReadBytes highWater)).Sound where
  kept := OutputBuffer.defaultKept
  fed := ⟨Nat.le_refl 0, Nat.le_refl 0, .nil, by intros; contradiction, by intros; contradiction⟩
  asked := by intros; contradiction
  served := by intros; contradiction
  last := by intros; contradiction

section Steps
variable {f : Linked} {stream : List Bytes} {output : OutputBuffer} {t t' : Transport} {s : Served}

theorem Fed.feed (fed : Fed stream output t) (feed : t.SameFeed t') : Fed stream output t' where
  known := by
    rw [feed.cursor]
    exact fed.known
  behind := by
    rw [feed.last, feed.cursor]
    exact fed.behind
  ordered := by
    rw [feed.delivered]
    exact fed.ordered
  below := by
    rw [feed.delivered, feed.cursor]
    exact fed.below
  retained := by
    rw [feed.delivered, feed.cursor]
    exact fed.retained

theorem Past.feed (past : Past stream output t s) (feed : t.SameFeed t') :
    Past stream output t' s where
  sound := by
    obtain ⟨earlier, sound, before⟩ := past.sound
    exact ⟨earlier, feed.maximum.symm ▸ sound, before⟩
  kept := past.kept

theorem Linked.Sound.feed (sound : f.Sound) (feed : f.transport.SameFeed t)
    (flight : t.readInFlight = f.transport.readInFlight) :
    ({ f with transport := t } : Linked).Sound where
  kept := sound.kept
  fed := sound.fed.feed feed
  asked := fun asked same => by
    obtain ⟨flying, cursor, free⟩ := sound.asked asked same
    exact ⟨flight.trans flying, feed.cursor.trans cursor, free⟩
  served := fun s same => by
    obtain ⟨flying, cursor, free, past, old⟩ := sound.served s same
    exact ⟨flight.trans flying, feed.cursor.trans cursor, free, past.feed feed,
      feed.delivered.symm ▸ old⟩
  last := fun s same => by
    obtain ⟨past, old, took⟩ := sound.last s same
    exact ⟨past.feed feed, old, feed.delivered.symm ▸ took⟩

theorem pushChunks {b : OutputBuffer} (kept : b.Kept stream) {data : Bytes}
    (some' : data ≠ []) {chunk : TerminalOutputChunk} (member : chunk ∈ (b.push data).1.chunks)
    (old : chunk.sequence ≤ stream.length) : chunk ∈ b.chunks := by
  rw [OutputBuffer.push, if_neg some'] at member
  cases List.mem_append.mp (OutputBuffer.evictSubset _ _ _ member) with
  | inl here => exact here
  | inr new =>
    rw [List.mem_singleton.mp new, kept.latest] at old
    exact absurd old (Nat.not_succ_le_self _)

theorem Past.push (past : Past stream output t s) (kept : output.Kept stream) {data : Bytes}
    (some' : data ≠ []) : Past (stream ++ [data]) (output.push data).1 t s where
  sound := by
    obtain ⟨earlier, sound, before⟩ := past.sound
    exact ⟨earlier, sound, before.trans (List.prefix_append _ _)⟩
  kept := fun chunk member within => by
    obtain ⟨earlier, sound, before⟩ := past.sound
    have short := before.length_le
    rw [sound.latest] at within
    refine past.kept chunk (pushChunks kept some' member (Nat.le_trans within short)) ?_
    rwa [sound.latest]

theorem Linked.Sound.push (sound : f.Sound) {data : Bytes} (some' : data ≠ []) :
    ({ f with stream := f.stream ++ [data], output := (f.output.push data).1 } : Linked).Sound where
  kept := sound.kept.push some'
  fed := {
    known := by
      rw [List.length_append]
      exact Nat.le_add_right_of_le sound.fed.known
    behind := sound.fed.behind
    ordered := sound.fed.ordered
    below := sound.fed.below
    retained := fun chunk member within => sound.fed.retained chunk
      (pushChunks sound.kept some' member (Nat.le_trans within sound.fed.known)) within }
  asked := sound.asked
  served := fun s same => by
    obtain ⟨flying, cursor, free, past, old⟩ := sound.served s same
    exact ⟨flying, cursor, free, past.push sound.kept some', old⟩
  last := fun s same => by
    obtain ⟨past, old, took⟩ := sound.last s same
    exact ⟨past.push sound.kept some', old, took⟩

theorem Linked.Sound.answers (sound : f.Sound) {asked : Nat} {status : TerminalStatus}
    {result : TerminalReadResult} (pending : f.asked = some asked)
    (read : terminalReadSnapshot status f.output asked f.transport.maximumReadBytes = .ok result) :
    ({ f with asked := none, served := some ⟨asked, f.output, result⟩ } : Linked).Sound where
  kept := sound.kept
  fed := sound.fed
  asked := by intros; contradiction
  served := fun s same => by
    cases Option.some.inj same
    obtain ⟨flying, cursor, -⟩ := sound.asked asked pending
    have known : asked ≤ f.stream.length := cursor ▸ sound.fed.known
    refine ⟨flying, cursor, rfl, ⟨⟨f.stream, servedSound sound.kept known read,
      List.prefix_refl _⟩, fun chunk member _ => member⟩, fun chunk member within => ?_⟩
    exact sound.fed.retained chunk member (cursor.symm ▸ within)
  last := sound.last

theorem Linked.Sound.drops (sound : f.Sound) (feed : f.transport.SameFeed t) :
    ({ f with transport := t, asked := none, served := none } : Linked).Sound where
  kept := sound.kept
  fed := sound.fed.feed feed
  asked := by intros; contradiction
  served := by intros; contradiction
  last := fun s same => by
    obtain ⟨past, old, took⟩ := sound.last s same
    exact ⟨past.feed feed, old, feed.delivered.symm ▸ took⟩

theorem Linked.Sound.takes (sound : f.Sound) (arrived : f.served = some s)
    (waits : Bool)
    (feed : ((f.transport.deliverAll waits s.result.chunks).show' s.result).SameFeed t) :
    ({ f with transport := t, asked := none, served := none, last := some s } : Linked).Sound := by
  obtain ⟨-, cursor, -, past, old⟩ := sound.served s arrived
  obtain ⟨stream, answer, earlier⟩ := past.sound
  have later := answer.later
  have bounds := answer.bounds
  have short := earlier.length_le
  have fresh : ∀ chunk ∈ s.result.chunks, f.transport.lastDeliveredSequence < chunk.sequence := by
    intro chunk member
    have behind := sound.fed.behind
    rw [cursor] at behind
    exact Nat.lt_of_le_of_lt behind (later chunk member).1
  have delivered : t.delivered = f.transport.delivered ++ s.result.chunks :=
    feed.delivered.trans (Transport.deliverAllFeeds waits _ answer.sorted fresh)
  have next : t.cursor = s.result.nextSequence := feed.cursor
  have below : ∀ chunk ∈ f.transport.delivered, chunk.sequence ≤ s.asked := cursor ▸ sound.fed.below
  have maximum : t.maximumReadBytes = f.transport.maximumReadBytes :=
    feed.maximum.trans (by
      obtain ⟨_, _, _, same⟩ := Transport.deliverAllRest (t := f.transport) waits s.result.chunks
      rw [same]
      rfl)
  refine ⟨sound.kept, ⟨?_, ?_, ?_, ?_, ?_⟩, by intros; contradiction, by intros; contradiction, ?_⟩
  · show t.cursor ≤ f.stream.length
    rw [next]
    exact Nat.le_trans bounds.2 short
  · show t.lastDeliveredSequence ≤ t.cursor
    rw [next, feed.last]
    refine Transport.deliverAllLast waits _ ?_ fun chunk member => (later chunk member).2
    exact Nat.le_trans (cursor ▸ sound.fed.behind) bounds.1
  · show t.delivered.Pairwise _
    rw [delivered]
    refine List.pairwise_append.mpr ⟨sound.fed.ordered, answer.sorted, fun a before b after => ?_⟩
    exact Nat.lt_of_le_of_lt (below a before) (later b after).1
  · show ∀ chunk ∈ t.delivered, chunk.sequence ≤ t.cursor
    rw [delivered, next]
    intro chunk member
    cases List.mem_append.mp member with
    | inl before => exact Nat.le_trans (below chunk before) bounds.1
    | inr after => exact (later chunk after).2
  · show ∀ chunk ∈ f.output.chunks, chunk.sequence ≤ t.cursor → chunk ∈ t.delivered
    rw [delivered, next]
    intro chunk member within
    by_cases read : chunk.sequence ≤ s.asked
    · exact List.mem_append_left _ (sound.fed.retained chunk member (cursor.symm ▸ read))
    · have there := past.kept chunk member (by
        rw [answer.latest]
        exact Nat.le_trans within bounds.2)
      exact List.mem_append_right _ (answer.answered there (Nat.lt_of_not_le read) within)
  · intro s' same
    cases Option.some.inj same
    exact ⟨⟨⟨stream, maximum.symm ▸ answer, earlier⟩, past.kept⟩, f.transport.delivered, delivered,
      below, old⟩

theorem linksSound {next : Linked} (sound : f.Sound) (step : Links f next) : next.Sound := by
  cases step with
  | output some' small => exact sound.push some'
  | startPolling => exact sound.feed Transport.startFeed.1 Transport.startFeed.2
  | idle busy => exact sound.feed Transport.pollFeed busy
  | poll free sent =>
    have quiet : f.asked = none ∧ f.served = none := by
      refine ⟨Option.eq_none_iff_forall_ne_some.mpr fun asked same => ?_,
        Option.eq_none_iff_forall_ne_some.mpr fun s same => ?_⟩
      · exact absurd ((sound.asked asked same).1.symm.trans free) (by simp)
      · exact absurd ((sound.served s same).1.symm.trans free) (by simp)
    refine ⟨sound.kept, sound.fed.feed Transport.pollFeed, fun asked same => ?_, fun s same => ?_,
      fun s same => ?_⟩
    · cases Option.some.inj same
      exact ⟨sent, Transport.pollFeed.cursor, quiet.2⟩
    · exact absurd (quiet.2.symm.trans same) (by simp)
    · obtain ⟨past, old, took⟩ := sound.last s same
      exact ⟨past.feed Transport.pollFeed, old, Transport.pollFeed.delivered.symm ▸ took⟩
  | answer pending accepted read => exact sound.answers pending read
  | @receive waits s arrived =>
    have idle := (sound.served s arrived).2.2.1
    cases accepted : f.transport.accepts s with
    | true =>
      have taken := sound.takes arrived waits (Transport.receiveAccepted accepted)
      rw [← idle] at taken
      exact taken
    | false =>
      have dropped := sound.drops (Transport.receiveRefused waits accepted)
      rw [← idle] at dropped
      exact dropped
  | reject flying => exact sound.drops (Transport.failedFeed _)
  | acknowledge bytes =>
    exact sound.feed (Transport.acknowledgeFeed bytes).1 (Transport.acknowledgeFeed bytes).2
  | detach => exact sound.feed ⟨rfl, rfl, rfl, rfl⟩ rfl
  | close => exact sound.feed ⟨rfl, rfl, rfl, rfl⟩ rfl
  | closed status => exact sound.feed ⟨rfl, rfl, rfl, rfl⟩ rfl
  | disconnect reason => exact sound.feed ⟨rfl, rfl, rfl, rfl⟩ rfl
  | interactionFailed reason =>
    exact sound.feed (Transport.interactionFeed reason).1 (Transport.interactionFeed reason).2

theorem linkedSound {terminalId : TerminalId} {state : TerminalState}
    {maximumReadBytes highWater : Nat}
    (reached : Relation.ReflTransGen Links
      (.start (.new terminalId state maximumReadBytes highWater)) f) : f.Sound := by
  induction reached with
  | refl => exact startLinked _ _ _ _
  | tail before step ih => exact linksSound ih step

end Steps

structure Linked.Stopped (f : Linked) (s : Served) : Prop where
  last : f.last = some s
  final : s.result.state = .exited ∨ s.result.state = .failed
  shown : f.transport.snapshot.state = .terminal s.result.state
  attached : f.transport.detached = false
  kept : f.transport.closeRequested = false

theorem OutputBuffer.Kept.within {stream : List Bytes} {b : OutputBuffer} (kept : b.Kept stream)
    {chunk : TerminalOutputChunk} (member : chunk ∈ b.chunks) : chunk.sequence ≤ stream.length := by
  rw [kept.chunks] at member
  have within := numberWithin member
  have dropped := kept.dropped
  rw [List.length_drop] at within
  omega

theorem stoppedComplete {terminalId : TerminalId} {state : TerminalState}
    {maximumReadBytes highWater : Nat} {f : Linked} {s : Served}
    (reached : Relation.ReflTransGen Links
      (.start (.new terminalId state maximumReadBytes highWater)) f)
    (stopped : f.Stopped s) : f.Complete s ↔ s.Fits f.transport.maximumReadBytes := by
  have sound := linkedSound reached
  obtain ⟨past, old, took⟩ := sound.last s stopped.last
  obtain ⟨stream, answer, -⟩ := past.sound
  rw [← answer.whole]
  constructor
  · intro complete chunk member
    obtain ⟨retained, after⟩ := List.mem_filter.mp member
    have within : chunk.sequence ≤ s.result.latestSequence := by
      rw [answer.latest]
      exact answer.kept.within retained
    have delivered := complete.all chunk retained within
    rw [took.all] at delivered
    cases List.mem_append.mp delivered with
    | inl before => exact absurd (took.below chunk before) (Nat.not_le.mpr (of_decide_eq_true after))
    | inr here => exact here
  · refine fun whole => ⟨fun chunk retained _ => ?_, sound.fed.ordered⟩
    rw [took.all]
    by_cases before : chunk.sequence ≤ s.asked
    · exact List.mem_append_left _ (took.retained chunk retained before)
    · have unread : chunk ∈ s.unread :=
        List.mem_filter.mpr ⟨retained, decide_eq_true (Nat.lt_of_not_le before)⟩
      exact List.mem_append_right _ (whole chunk unread)

def pushAll (b : OutputBuffer) (backlog : List Bytes) : OutputBuffer :=
  backlog.foldl (fun b data => (b.push data).1) b

theorem outputReaches (f : Linked) (backlog : List Bytes)
    (fine : ∀ data ∈ backlog, data ≠ [] ∧ data.length ≤ terminalReadChunkBytes) :
    Relation.ReflTransGen Links f
      { f with stream := f.stream ++ backlog, output := pushAll f.output backlog } := by
  induction backlog generalizing f with
  | nil =>
    rw [List.append_nil]
    exact .refl
  | cons data rest ih =>
    have first := fine data List.mem_cons_self
    have later := ih { f with stream := f.stream ++ [data], output := (f.output.push data).1 }
      fun next member => fine next (List.mem_cons_of_mem _ member)
    dsimp only at later
    rw [List.append_assoc] at later
    exact .head (.output first.1 first.2) later

theorem exitBehind (backlog : List Bytes)
    (fine : ∀ data ∈ backlog, data ≠ [] ∧ data.length ≤ terminalReadChunkBytes) :
    ∃ f s, Relation.ReflTransGen Links (.start (.new 0 .running 4096 262144)) f ∧ f.Stopped s ∧
      s.output = pushAll .default backlog ∧ s.asked = 0 ∧ s.output.Kept backlog ∧
      f.transport.maximumReadBytes = 4096 := by
  have filled := outputReaches (.start (.new 0 .running 4096 262144)) backlog fine
  have kept : (pushAll .default backlog).Kept backlog := (linkedSound filled).kept
  obtain ⟨got, r, polled, -⟩ := kept.poll (Nat.zero_le _) 4096
  have read : terminalReadSnapshot ⟨0, .exited, none⟩ (pushAll .default backlog) 0 4096 =
      .ok (r.withStatus ⟨0, .exited, none⟩) := by
    rw [terminalReadSnapshot, polled]
  have polls : Relation.ReflTransGen Links _ _ :=
    ((filled.tail .startPolling).tail (.poll rfl rfl)).tail
      (@Links.answer _ 0 0 .exited none _ rfl rfl read)
  have answer := servedSound kept (Nat.zero_le _) read
  have bounds := answer.bounds
  have latest : r.latestSequence = backlog.length := answer.latest
  have next : ¬ (r.withStatus ⟨0, .exited, none⟩).latestSequence <
      (r.withStatus ⟨0, .exited, none⟩).nextSequence :=
    Nat.not_lt.mpr (Nat.le_trans bounds.2 (Nat.le_of_eq latest.symm))
  have accepted : (Transport.poll (Transport.startPolling (.new 0 .running 4096 262144))).accepts
      ⟨0, pushAll .default backlog, r.withStatus ⟨0, .exited, none⟩⟩ = true := by
    have valid : (Transport.poll (Transport.startPolling (.new 0 .running 4096 262144))).validateRead
        (r.withStatus ⟨0, .exited, none⟩) 0 = .ok () := by
      unfold Transport.validateRead
      rw [if_neg (by exact fun other => other rfl), if_neg (Nat.not_lt_zero _), if_neg next]
    unfold Transport.accepts
    rw [valid]
    rfl
  obtain ⟨last, pending, delivered, same⟩ := Transport.receiveFinal false accepted rfl
  refine ⟨_, _, polls.tail (@Links.receive _ false _ rfl), ⟨if_pos accepted, .inl rfl, ?_, ?_, ?_⟩,
    rfl, rfl, kept, ?_⟩
  · exact congrArg (·.snapshot.state) same
  · exact congrArg (·.detached) same
  · exact congrArg (·.closeRequested) same
  · exact congrArg (·.maximumReadBytes) same

theorem fitsBacklog {s : Served} {backlog : List Bytes} (kept : s.output.Kept backlog)
    (asked : s.asked = 0) (whole : s.output.droppedThroughSequence = 0) {maximumReadBytes : Nat} :
    s.Fits maximumReadBytes ↔ bytesOf (numberFrom 0 backlog) ≤ maximumReadBytes := by
  have start : s.output.start s.asked = 0 := by
    rw [OutputBuffer.start, asked, whole]
    rfl
  rw [Served.Fits, Served.unread, kept.unread, start, List.drop_zero]

def pollful : Bytes := List.replicate 4096 0

theorem stoppedBehind : ¬ ∀ (terminalId : TerminalId) (state : TerminalState)
    (maximumReadBytes highWater : Nat) (f : Linked) (s : Served),
    Relation.ReflTransGen Links
      (.start (.new terminalId state maximumReadBytes highWater)) f →
    f.Stopped s → f.Complete s := by
  intro complete
  have size : pollful.length = 4096 := List.length_replicate
  have some' : pollful ≠ [] := List.ne_nil_of_length_pos (by rw [size]; decide)
  obtain ⟨f, s, reached, stopped, output, asked, kept, maximum⟩ :=
    exitBehind [pollful, pollful] (fun data member => by
      have same : data = pollful := by simpa using member
      rw [same]
      exact ⟨some', Nat.le_of_eq size⟩)
  have whole : s.output.droppedThroughSequence = 0 := by
    rw [output]
    simp [pushAll, OutputBuffer.push, OutputBuffer.default, OutputBuffer.evict, some', size,
      maxBufferedTerminalBytes]
  have fits := (stoppedComplete reached stopped).mp (complete 0 _ 4096 _ f s reached stopped)
  rw [fitsBacklog kept asked whole, maximum] at fits
  simp [numberFrom, bytesOf, size] at fits

theorem stoppedCompleteByte : ∃ (f : Linked) (s : Served), f.Stopped s ∧
    (f.Complete s ↔ s.Fits f.transport.maximumReadBytes) := by
  obtain ⟨f, s, reached, stopped, -⟩ := exitBehind [[104]] (by decide)
  exact ⟨f, s, stopped, stoppedComplete reached stopped⟩

end Maestro.Terminal
