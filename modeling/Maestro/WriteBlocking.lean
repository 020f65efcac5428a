import Maestro.Framing
import Maestro.Stepping

/-! Both ends of a connection and the buffers of its socket. An end that writes a frame reads
again when the last byte of the frame is in the buffer, and not before. -/
namespace Maestro.WriteBlocking
open Framing

section Ends

variable {In Out : Type}

/-- A loop, the frames its states have written, and the capacity of the buffer it writes to. -/
structure Peer (In Out : Type) where
  loop : SelectLoop In
  written : loop.State → List Out
  reads : Codec In
  writes : Codec Out
  capacity : Nat

/-- `sending` is the rest of the frame `write_all` is in, `stop` what the loop does behind it. -/
structure End (P : Peer In Out) where
  reading : Reading
  state : P.loop.State
  sending : Bytes
  stop : Option Stop
  ended : Option Ending

/-- `written` is false where a write fails before its first byte. -/
inductive Turn (P : Peer In Out) where
  | read (count : Nat) (written : Bool)
  | branch (branch : P.loop.Branch) (written : Bool)
  | flush (count : Nat)
  | leave
  | fails (ending : Ending)

variable {P : Peer In Out}

/-- The frames a handler has written between two states. -/
def Peer.frames (P : Peer In Out) (before after : P.loop.State) : List Out :=
  (P.written after).drop (P.written before).length

/-- A frame that cannot be encoded fails its write. -/
def Peer.sendable (P : Peer In Out) (before : P.loop.State) :
    Option (P.loop.State × Option Stop) → Bool
  | some ran => (P.frames before ran.1).all P.writes.encodes
  | none => false

namespace End
variable (e : End P)

def idle (state : P.loop.State) : End P := ⟨.fresh, state, [], none, none⟩

def free : Bool := e.ended.isNone && e.sending.isEmpty && e.stop.isNone

def leave (ending : Ending) : End P :=
  { e with sending := [], ended := some ending, state := P.loop.onLeave ending e.state }

/-- The handler of a branch has run up to its `write_frame`. -/
def began (ran : P.loop.State × Option Stop) : End P :=
  { e with
    reading := .fresh
    state := ran.1
    sending := P.writes.stream (P.frames e.state ran.1)
    stop := ran.2 }

def onFrame (frame : In) (written : Bool) : End P :=
  e.began (P.loop.onFrame frame
    (written && P.sendable e.state (some (P.loop.onFrame frame true e.state))) e.state)

def progress (written : Bool) : Progress In → End P
  | .pending reading => { e with reading }
  | .ready (.ok none) => e.leave .eof
  | .ready (.ok (some frame)) => e.onFrame frame written
  | .ready (.error error) => e.leave (.readFailed error)

def afterRead (inbound : Bytes) (count : Nat) (written : Bool) : End P :=
  e.progress written (readFrame P.reads (inbound.take count) e.reading)

def afterBranch (branch : P.loop.Branch) (written : Bool) : Option (End P) :=
  (P.loop.onBranch branch (written && P.sendable e.state (P.loop.onBranch branch true e.state))
    e.state).map e.began

def opens (inbound : Bytes) : Turn P → Bytes
  | .read count written => (e.afterRead inbound count written).sending
  | .branch branch written => ((e.afterBranch branch written).map End.sending).getD []
  | _ => []

/-- A turn takes from the `inbound` buffer or adds to the `outbound` one. -/
def turn (inbound outbound : Bytes) (closed : Bool) : Turn P → Option (End P × Bytes × Bytes)
  | .read count written =>
    if e.free = true ∧ count ≤ inbound.length ∧ count ≤ e.reading.wanted ∧
        (count = 0 → inbound = [] ∧ closed = true) then
      some (e.afterRead inbound count written, inbound.drop count, outbound)
    else none
  | .branch branch written =>
    if e.free = true then
      (e.afterBranch branch written).map fun after => (after, inbound, outbound)
    else none
  | .flush count =>
    if 0 < count ∧ count ≤ e.sending.length ∧ outbound.length + count ≤ P.capacity then
      some ({ e with sending := e.sending.drop count }, inbound, outbound ++ e.sending.take count)
    else none
  | .leave =>
    match e.stop, e.sending, e.ended with
    | some stop, [], none => some (e.leave (.stopped stop), inbound, outbound)
    | _, _, _ => none
  | .fails ending => if e.ended.isNone then some (e.leave ending, inbound, outbound) else none

/-- Inside `write_all`, with no room in the buffer. -/
def Blocked (outbound : Bytes) : Prop := e.sending ≠ [] ∧ P.capacity ≤ outbound.length

/-- What is left of the frame fits into the buffer. -/
def Fits (outbound : Bytes) : Prop := outbound.length + e.sending.length ≤ P.capacity
instance (outbound : Bytes) : Decidable (e.Fits outbound) := inferInstanceAs (Decidable (_ ≤ _))

end End

def heard (inbound : Bytes) : Turn P → Bytes
  | .read count _ => inbound.drop count
  | _ => inbound

theorem turnCases {e e' : End P} {inbound inbound' outbound outbound' : Bytes} {closed : Bool}
    {t : Turn P} (turned : e.turn inbound outbound closed t = some (e', inbound', outbound')) :
    inbound' = heard inbound t ∧
      ((outbound' = outbound ∧ e'.sending = e.opens inbound t) ∨
        (outbound'.length + e'.sending.length = outbound.length + e.sending.length ∧
          outbound'.length ≤ P.capacity ∧ e.opens inbound t = [])) := by
  cases t with
  | read count written =>
    simp only [End.turn] at turned
    split at turned
    · cases Option.some.inj turned
      exact ⟨rfl, .inl ⟨rfl, rfl⟩⟩
    · cases turned
  | branch branch written =>
    simp only [End.turn] at turned
    split at turned
    · obtain ⟨after, ran, same⟩ := Option.map_eq_some_iff.mp turned
      cases same
      refine ⟨rfl, .inl ⟨rfl, ?_⟩⟩
      rw [End.opens, ran]
      rfl
    · cases turned
  | flush count =>
    simp only [End.turn] at turned
    split at turned
    · rename_i room
      cases Option.some.inj turned
      refine ⟨rfl, .inr ⟨?_, ?_, rfl⟩⟩
      · simp only [List.length_append, List.length_take, List.length_drop]
        omega
      · simp only [List.length_append, List.length_take]
        omega
    · cases turned
  | leave =>
    simp only [End.turn] at turned
    split at turned
    · cases Option.some.inj turned
      exact ⟨rfl, .inl ⟨rfl, rfl⟩⟩
    · cases turned
  | fails ending =>
    simp only [End.turn] at turned
    split at turned
    · cases Option.some.inj turned
      exact ⟨rfl, .inl ⟨rfl, rfl⟩⟩
    · cases turned

theorem fitsUnblocked {e : End P} {outbound : Bytes} (fits : e.Fits outbound) :
    ¬ e.Blocked outbound := by
  intro blocked
  have some' := List.length_pos_iff.mpr blocked.1
  have full := blocked.2
  unfold End.Fits at fits
  omega

end Ends

section Links

variable {Up Down : Type} {P : Peer Down Up} {Q : Peer Up Down}

/-- `up` are the bytes between the client and the daemon, `down` those on their way back. -/
structure Link (P : Peer Down Up) (Q : Peer Up Down) where
  client : End P
  daemon : End Q
  up : Bytes
  down : Bytes

inductive Event (P : Peer Down Up) (Q : Peer Up Down) where
  | client (t : Turn P)
  | daemon (t : Turn Q)

namespace Link
variable (c : Link P Q)

def start (state : P.loop.State) (state' : Q.loop.State) : Link P Q :=
  ⟨.idle state, .idle state', [], []⟩

def step : Event P Q → Option (Link P Q)
  | .client t =>
    (c.client.turn c.down c.up c.daemon.ended.isSome t).map fun (client, down, up) =>
      ⟨client, c.daemon, up, down⟩
  | .daemon t =>
    (c.daemon.turn c.up c.down c.client.ended.isSome t).map fun (daemon, up, down) =>
      ⟨c.client, daemon, up, down⟩

/-- Both ends are inside `write_frame` and wait for the other one to read. -/
def Deadlocked : Prop := c.client.Blocked c.up ∧ c.daemon.Blocked c.down

/-- A frame that is begun fits into the buffer, or what the other end still writes does. -/
def Fitting : Event P Q → Prop
  | .client t =>
    c.up.length + (c.client.opens c.down t).length ≤ P.capacity ∨ c.daemon.Fits (heard c.down t)
  | .daemon t =>
    c.down.length + (c.daemon.opens c.up t).length ≤ Q.capacity ∨ c.client.Fits (heard c.up t)

instance (event : Event P Q) : Decidable (c.Fitting event) :=
  match event with
  | .client _ => inferInstanceAs (Decidable (_ ∨ _))
  | .daemon _ => inferInstanceAs (Decidable (_ ∨ _))

end Link

abbrev Reach (May : Link P Q → Event P Q → Prop) (begin' : Link P Q) : Link P Q → Prop :=
  Stepping.Reach Link.step May begin'

abbrev AnyTurn (_ : Link P Q) (_ : Event P Q) : Prop := True

structure Link.Sound (c : Link P Q) : Prop where
  up : c.up.length ≤ P.capacity
  down : c.down.length ≤ Q.capacity

section Steps
variable {May : Link P Q → Event P Q → Prop} {begin' c d : Link P Q} {event : Event P Q}

theorem heardShorter (inbound : Bytes) (t : Turn P) : (heard inbound t).length ≤ inbound.length := by
  cases t with
  | read count written => exact (List.drop_sublist _ _).length_le
  | _ => exact Nat.le_refl _

theorem turnBounded {e e' : End P} {inbound inbound' outbound outbound' : Bytes} {closed : Bool}
    {t : Turn P} (turned : e.turn inbound outbound closed t = some (e', inbound', outbound'))
    (bounded : outbound.length ≤ P.capacity) :
    inbound'.length ≤ inbound.length ∧ outbound'.length ≤ P.capacity := by
  obtain ⟨read, moved⟩ := turnCases turned
  refine ⟨read ▸ heardShorter inbound t, ?_⟩
  rcases moved with ⟨same, -⟩ | ⟨-, room, -⟩
  · rw [same]
    exact bounded
  · exact room

theorem turnFits {e e' : End P} {o : End Q} {inbound inbound' outbound outbound' : Bytes} {closed : Bool}
    {t : Turn P} (turned : e.turn inbound outbound closed t = some (e', inbound', outbound'))
    (fitting : outbound.length + (e.opens inbound t).length ≤ P.capacity ∨ o.Fits (heard inbound t))
    (either : e.Fits outbound ∨ o.Fits inbound) : e'.Fits outbound' ∨ o.Fits inbound' := by
  have shorter := heardShorter inbound t
  obtain ⟨read, moved⟩ := turnCases turned
  rcases moved with ⟨same, sending⟩ | ⟨conserved, -, -⟩
  · unfold End.Fits
    rw [same, sending, read]
    exact fitting
  · unfold End.Fits at *
    rw [conserved, read]
    omega

theorem stepSound (sound : c.Sound) (steps : c.step event = some d) : d.Sound := by
  cases event with
  | client t =>
    obtain ⟨⟨client, down, up⟩, turned, rfl⟩ := Option.map_eq_some_iff.mp steps
    obtain ⟨shorter, bounded⟩ := turnBounded turned sound.up
    exact ⟨bounded, Nat.le_trans shorter sound.down⟩
  | daemon t =>
    obtain ⟨⟨daemon, up, down⟩, turned, rfl⟩ := Option.map_eq_some_iff.mp steps
    obtain ⟨shorter, bounded⟩ := turnBounded turned sound.down
    exact ⟨Nat.le_trans shorter sound.up, bounded⟩

theorem stepFits (either : c.client.Fits c.up ∨ c.daemon.Fits c.down) (fitting : c.Fitting event)
    (steps : c.step event = some d) : d.client.Fits d.up ∨ d.daemon.Fits d.down := by
  cases event with
  | client t =>
    obtain ⟨⟨client, down, up⟩, turned, rfl⟩ := Option.map_eq_some_iff.mp steps
    exact turnFits turned fitting either
  | daemon t =>
    obtain ⟨⟨daemon, up, down⟩, turned, rfl⟩ := Option.map_eq_some_iff.mp steps
    exact (turnFits turned fitting either.symm).symm

theorem reachFits (first : begin'.client.Fits begin'.up) (reached : Reach Link.Fitting begin' c) :
    c.client.Fits c.up ∨ c.daemon.Fits c.down := by
  induction reached with
  | start => exact .inl first
  | step event before fitting steps ih => exact stepFits ih fitting steps

theorem reachLive (first : begin'.client.Fits begin'.up) (reached : Reach Link.Fitting begin' c) :
    ¬ c.Deadlocked := by
  intro deadlocked
  cases reachFits first reached with
  | inl fits => exact fitsUnblocked fits deadlocked.1
  | inr fits => exact fitsUnblocked fits deadlocked.2

theorem reachSound (first : begin'.Sound) (reached : Reach May begin' c) : c.Sound :=
  Stepping.reachInvariant reached first fun sound _ steps => stepSound sound steps

/-! A frame that does not fit is written until its buffer is full. -/

theorem fillsUp {e : End P} {outbound : Bytes} (bounded : outbound.length ≤ P.capacity)
    (beyond : ¬ e.Fits outbound) :
    e.Blocked outbound ∨ ∃ (count : Nat) (e' : End P) (outbound' : Bytes),
      (∀ inbound closed, e.turn inbound outbound closed (.flush count) = some (e', inbound, outbound')) ∧
        e'.Blocked outbound' := by
  unfold End.Fits at beyond
  have some' : e.sending ≠ [] := by
    intro empty
    rw [empty] at beyond
    exact beyond bounded
  rcases Nat.lt_or_eq_of_le bounded with room | full
  · have positive : 0 < P.capacity - outbound.length := Nat.sub_pos_of_lt room
    have inside : P.capacity - outbound.length ≤ e.sending.length := by omega
    have fits : outbound.length + (P.capacity - outbound.length) ≤ P.capacity := by omega
    refine .inr ⟨P.capacity - outbound.length, _, _,
      fun inbound closed => if_pos ⟨positive, inside, fits⟩, fun empty => ?_, ?_⟩
    · have short : e.sending.length ≤ P.capacity - outbound.length := List.drop_eq_nil_iff.mp empty
      omega
    · rw [List.length_append, List.length_take]
      omega
  · exact .inl ⟨some', Nat.le_of_eq full.symm⟩

theorem reachDeadlock (sound : c.Sound) (reached : Reach AnyTurn begin' c)
    (client : ¬ c.client.Fits c.up) (daemon : ¬ c.daemon.Fits c.down) :
    ∃ d, Reach AnyTurn begin' d ∧ d.Deadlocked := by
  have filled : ∃ d : Link P Q, Reach AnyTurn begin' d ∧ d.client.Blocked d.up ∧
      d.daemon = c.daemon ∧ d.down = c.down := by
    rcases fillsUp sound.up client with blocked | ⟨count, e', up', turns, blocked⟩
    · exact ⟨c, reached, blocked, rfl, rfl⟩
    · refine ⟨⟨e', c.daemon, up', c.down⟩, .step (.client (.flush count)) reached trivial ?_, blocked, rfl, rfl⟩
      simp only [Link.step, turns]
      rfl
  obtain ⟨d, reached', blocked, same, down⟩ := filled
  rw [← same, ← down] at daemon
  rcases fillsUp (down ▸ sound.down) daemon with blocked' | ⟨count, e', down', turns, blocked'⟩
  · exact ⟨d, reached', blocked, blocked'⟩
  · refine ⟨⟨d.client, e', d.up, down'⟩, .step (.daemon (.flush count)) reached' trivial ?_, blocked, blocked'⟩
    simp only [Link.step, turns]
    rfl

theorem unfittingStuck (sound : c.Sound) (steps : c.step event = some d) (beyond : ¬ c.Fitting event) :
    ¬ d.client.Fits d.up ∧ ¬ d.daemon.Fits d.down := by
  cases event with
  | client t =>
    obtain ⟨⟨client, down, up⟩, turned, rfl⟩ := Option.map_eq_some_iff.mp steps
    obtain ⟨first, second⟩ := not_or.mp beyond
    obtain ⟨read, ⟨same, sending⟩ | ⟨-, -, none'⟩⟩ := turnCases turned
    · unfold End.Fits
      rw [same, sending, read]
      exact ⟨first, second⟩
    · rw [none'] at first
      exact absurd sound.up first
  | daemon t =>
    obtain ⟨⟨daemon, up, down⟩, turned, rfl⟩ := Option.map_eq_some_iff.mp steps
    obtain ⟨first, second⟩ := not_or.mp beyond
    obtain ⟨read, ⟨same, sending⟩ | ⟨-, -, none'⟩⟩ := turnCases turned
    · unfold End.Fits
      rw [same, sending, read]
      exact ⟨second, first⟩
    · rw [none'] at first
      exact absurd sound.down first

end Steps

end Links

section Main

variable {RequestId Request Response ClientHello ServerHello ServerEvent : Type}
  [DecidableEq RequestId]
  (requests : Codec (ClientFrame ClientHello RequestId Request))
  (responses : Codec (ServerFrame ServerHello RequestId Response ServerEvent))

abbrev driverEnd (capacity : Nat) : Peer (ServerFrame ServerHello RequestId Response ServerEvent)
    (ClientFrame ClientHello RequestId Request) where
  loop := runMultiplexedDriver ClientHello ServerHello RequestId Request Response ServerEvent
  written := Driving.written
  reads := responses
  writes := requests
  capacity := capacity

abbrev daemonEnd (capacity : Nat) : Peer (ClientFrame ClientHello RequestId Request)
    (ServerFrame ServerHello RequestId Response ServerEvent) where
  loop := serveConnection ClientHello ServerHello RequestId Request Response ServerEvent
  written := Serving.written
  reads := requests
  writes := responses
  capacity := capacity

/-- No deadlock as long as every frame fits when it is begun or the other end's still does, and
a frame that is begun against that can end in one. -/
theorem connectionLive {up down : Nat}
    {state : Driving ClientHello RequestId Request Response ServerEvent}
    {state' : Serving ServerHello RequestId Request Response ServerEvent}
    {c : Link (driverEnd requests responses up) (daemonEnd requests responses down)}
    (reached : Reach Link.Fitting (.start state state') c) :
    ¬ c.Deadlocked ∧ ∀ event d, c.step event = some d → ¬ c.Fitting event →
      ∃ d' : Link (driverEnd requests responses up) (daemonEnd requests responses down),
        Reach AnyTurn (.start state state') d' ∧ d'.Deadlocked := by
  have first : (Link.start state state' : Link (driverEnd requests responses up)
      (daemonEnd requests responses down)).client.Fits [] := Nat.zero_le _
  have empty : (Link.start state state' : Link (driverEnd requests responses up)
      (daemonEnd requests responses down)).Sound := ⟨Nat.zero_le _, Nat.zero_le _⟩
  refine ⟨reachLive first reached, fun event d steps beyond => ?_⟩
  have sound := reachSound empty reached
  have any : Reach AnyTurn (.start state state') c := Stepping.reachMono (fun _ _ _ => trivial) reached
  obtain ⟨client, daemon⟩ := unfittingStuck sound steps beyond
  exact reachDeadlock (stepSound sound steps) (.step event any trivial steps) client daemon

end Main

abbrev pingLink (capacity : Nat) := Link (driverEnd pings pongs capacity) (daemonEnd pings pongs capacity)

def opened {capacity : Nat} : pingLink capacity := .start ⟨[], [], [], []⟩ idle

/-- The second request and the first response meet on their way. -/
def meeting : List (Event (driverEnd pings pongs 76) (daemonEnd pings pongs 76)) :=
  [.client (.branch (.outboundRequest ⟨first, ()⟩) true), .client (.flush 76), .daemon (.read 4 true),
    .client (.flush 1), .daemon (.read 73 true),
    .client (.branch (.outboundRequest ⟨second, ()⟩) true), .client (.flush 76),
    .daemon (.branch (.joined 0 (some (.ok ()))) true), .daemon (.flush 76)]

def lengths {capacity : Nat} (c : pingLink capacity) : Nat × Nat × Nat × Nat :=
  (c.client.sending.length, c.up.length, c.daemon.sending.length, c.down.length)

theorem meetingRun : (Stepping.run Link.step AnyTurn (opened : pingLink 76) meeting).map lengths =
    some (1, 76, 7, 76) := by
  decide +kernel

theorem connectionDeadlocks : ¬ ∀ (capacity : Nat) (c : pingLink capacity),
    Reach AnyTurn opened c → ¬ c.Deadlocked := by
  intro live
  obtain ⟨c, ran, seen⟩ := Option.map_eq_some_iff.mp meetingRun
  simp only [lengths, Prod.mk.injEq] at seen
  obtain ⟨sending, up, sending', down⟩ := seen
  refine live 76 c (Stepping.reachRun .start ran) ⟨⟨fun empty => ?_, Nat.le_of_eq up.symm⟩,
    fun empty => ?_, Nat.le_of_eq down.symm⟩
  · rw [empty] at sending
    cases sending
  · rw [empty] at sending'
    cases sending'

/-- A request and its response through buffers that hold them. -/
def roundTrip : List (Event (driverEnd pings pongs 4096) (daemonEnd pings pongs 4096)) :=
  [.client (.branch (.outboundRequest ⟨first, ()⟩) true), .client (.flush 77), .daemon (.read 4 true),
    .daemon (.read 73 true), .daemon (.branch (.joined 0 (some (.ok ()))) true), .daemon (.flush 83),
    .client (.read 4 true), .client (.read 79 true)]

theorem roundTripRun : (Stepping.run Link.step Link.Fitting (opened : pingLink 4096) roundTrip).map
    (·.client.state.completed.length) = some 1 := by
  decide +kernel

theorem connectionLiveRoundTrip : ∃ c : pingLink 4096,
    c.client.state.completed.length = 1 ∧ ¬ c.Deadlocked := by
  obtain ⟨c, ran, completed⟩ := Option.map_eq_some_iff.mp roundTripRun
  exact ⟨c, completed, (connectionLive pings pongs (Stepping.reachRun .start ran)).1⟩

end Maestro.WriteBlocking
