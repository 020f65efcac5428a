import Mathlib.Algebra.Group.Nat.Defs
import Mathlib.Data.List.Basic
import Mathlib.Data.List.DropRight
import Maestro.Domain

/-! The ordered event log of one session and its subscriptions. The replay ring and
the broadcast channel are cut at the same point because both move under the log's
lock. `sent` is the whole stream the channel was given; its slots are the last ones. -/
namespace Maestro

def u64Max : Nat := 2 ^ 64 - 1

structure EventLog where
  retained : List EventEnvelope
  latestSequence : Nat
  droppedThroughSequence : Nat
  sent : List EventEnvelope
  deriving Repr

structure ReplayGap where
  requestedAfterSequence : Nat
  availableAfterSequence : Nat
  deriving DecidableEq, Repr

inductive FakeSubscriptionError where
  | lagged (missed : Nat)
  | closed
  deriving DecidableEq, Repr

/-- `next` is the position of the live receiver in the stream. -/
structure FakeSessionSubscription where
  replay : List EventEnvelope
  next : Nat
  gap : Option ReplayGap
  deriving Repr

/-- A broadcast channel rounds its capacity up to a power of two. -/
def channelSlots (capacity : Nat) : Nat :=
  match (List.range 64).find? (fun k => capacity ≤ 2 ^ k) with
  | some k => 2 ^ k
  | none => 2 ^ 63

namespace EventLog

def empty : EventLog := ⟨[], 0, 0, []⟩

def trim (limit : Nat) : List EventEnvelope → Nat → List EventEnvelope × Nat
  | [], dropped => ([], dropped)
  | first :: rest, dropped =>
      if (first :: rest).length > limit then trim limit rest first.sequence
      else (first :: rest, dropped)

def publish (replayEvents : Nat) (log : EventLog) (session : SessionId) (run : Option RunId)
    (source : EventSource) (event : NormalizedEvent) : Option (EventEnvelope × EventLog) :=
  if log.latestSequence ≥ u64Max then none
  else
    let envelope := EventEnvelope.mk session run (log.latestSequence + 1) source event
    let kept := trim replayEvents (log.retained ++ [envelope]) log.droppedThroughSequence
    some (envelope, ⟨kept.1, log.latestSequence + 1, kept.2, log.sent ++ [envelope]⟩)

def subscribe (log : EventLog) (afterSequence : Nat) : Option FakeSessionSubscription :=
  if afterSequence > log.latestSequence then none
  else
    let gap := if afterSequence < log.droppedThroughSequence then
      some ⟨afterSequence, log.droppedThroughSequence⟩ else none
    let cursor := max afterSequence log.droppedThroughSequence
    some ⟨log.retained.filter (fun event => event.sequence > cursor), log.sent.length, gap⟩

end EventLog

namespace FakeSessionSubscription

def lags (slots : Nat) (log : EventLog) (s : FakeSessionSubscription) : Bool :=
  s.replay.isEmpty && decide (s.next + slots < log.sent.length)

/-- `none` waits for the next event of the stream. -/
def recv (slots : Nat) (log : EventLog) (s : FakeSessionSubscription) :
    Option (Except FakeSubscriptionError EventEnvelope × FakeSessionSubscription) :=
  match s.replay with
  | event :: rest => some (.ok event, { s with replay := rest })
  | [] =>
      if s.next + slots < log.sent.length then
        some (.error (.lagged (log.sent.length - slots - s.next)),
          { s with next := log.sent.length - slots })
      else
        match log.sent[s.next]? with
        | some event => some (.ok event, { s with next := s.next + 1 })
        | none => none

def undelivered (log : EventLog) (s : FakeSessionSubscription) : List EventEnvelope :=
  s.replay ++ log.sent.drop s.next

end FakeSessionSubscription
end Maestro
