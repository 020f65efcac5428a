import Mathlib.Data.List.AList
import Mathlib.Data.Finset.Basic
import Mathlib.Tactic.Tauto
import Maestro.Domain

/-! The pending structured requests of one run. A request is active until a client
claims it, in flight while its response is delivered, and remembered as resolved or
uncertain in a ring of the tracker's capacity afterwards. -/
namespace Maestro

def maxLaunchTextBytes : Nat := 1024

def invalidRequest (message : String) : MaestroError := .new .invalidRequest message

def validateIdentifier (value label : String) : Except MaestroError Unit :=
  if value = "" ∨ value.utf8ByteSize > maxLaunchTextBytes ∨ '\n' ∈ value.toList ∨
      '\r' ∈ value.toList then
    .error (invalidRequest (label ++ " is empty or too large"))
  else .ok ()

inductive PendingKind where | permission | userInput | guiAction
  deriving DecidableEq, Repr

def PendingKind.label : PendingKind → String
  | .permission => "permission"
  | .userInput => "user_input"
  | .guiAction => "gui_action"

/-- `registration` numbers the call of `register` that made the entry. It and the
two histories of the tracker are read by no branch: they name requests in proofs. -/
structure PendingRequest where
  kind : PendingKind
  deadline : Instant
  registration : Nat
  deriving DecidableEq, Repr

abbrev PendingKey := String × PendingKind
abbrev PendingTable := AList (fun _ : String => PendingRequest)

structure PendingTracker where
  active : PendingTable
  inFlight : PendingTable
  resolvedOrder : List PendingKey
  resolved : Finset PendingKey
  deliveryUncertain : Finset PendingKey
  capacity : Nat
  registered : List PendingKey
  remembered : List PendingKey

namespace PendingTracker

def new (capacity : Nat) : PendingTracker := ⟨∅, ∅, [], ∅, ∅, capacity, [], []⟩

def holds (table : PendingTable) (requestId : String) (kind : PendingKind) : Bool :=
  (table.lookup requestId).any (fun pending => pending.kind == kind)

def evict (capacity : Nat) : List PendingKey → Finset PendingKey → Finset PendingKey →
    List PendingKey × Finset PendingKey × Finset PendingKey
  | [], resolved, uncertain => ([], resolved, uncertain)
  | expired :: rest, resolved, uncertain =>
      if (expired :: rest).length > capacity then
        evict capacity rest (resolved.erase expired) (uncertain.erase expired)
      else (expired :: rest, resolved, uncertain)

def shrink (t : PendingTracker) : PendingTracker :=
  let kept := evict t.capacity t.resolvedOrder t.resolved t.deliveryUncertain
  { t with resolvedOrder := kept.1, resolved := kept.2.1, deliveryUncertain := kept.2.2 }

def pushOrder (t : PendingTracker) (key : PendingKey) : PendingTracker :=
  { t with resolvedOrder := t.resolvedOrder ++ [key], remembered := t.remembered ++ [key] }

def rememberResolved (t : PendingTracker) (key : PendingKey) : PendingTracker :=
  if key ∈ t.resolved then t.shrink
  else ({ t with resolved := insert key t.resolved }.pushOrder key).shrink

def rememberDeliveryUncertain (t : PendingTracker) (key : PendingKey) : PendingTracker :=
  if key ∈ t.deliveryUncertain then t.shrink
  else ({ t with deliveryUncertain := insert key t.deliveryUncertain }.pushOrder key).shrink

def register (t : PendingTracker) (requestId : String) (kind : PendingKind) (deadline : Instant) :
    Except MaestroError Unit × PendingTracker :=
  if t.active.keys.length + t.inFlight.keys.length ≥ t.capacity then
    (.error (invalidRequest "too many pending structured requests"), t)
  else if requestId ∈ t.active ∨ requestId ∈ t.inFlight ∨ (requestId, kind) ∈ t.resolved ∨
      (requestId, kind) ∈ t.deliveryUncertain then
    (.error (invalidRequest "the structured request ID is not unique"), t)
  else
    (.ok (), { t with
      active := t.active.insert requestId ⟨kind, deadline, t.registered.length⟩
      registered := t.registered ++ [(requestId, kind)] })

def claimActive (t : PendingTracker) (requestId : String) (kind : PendingKind) (now : Instant) :
    Except MaestroError Nat × PendingTracker :=
  match t.active.lookup requestId with
  | none => (.error (invalidRequest "the structured request is unknown or already used"), t)
  | some pending =>
      if pending.kind ≠ kind ∨ pending.deadline ≤ now then
        (.error (invalidRequest "the structured request is expired or has the wrong type"), t)
      else
        (.ok pending.registration, { t with
          active := t.active.erase requestId
          inFlight := t.inFlight.insert requestId pending })

def restoreInFlight (t : PendingTracker) (requestId : String) (kind : PendingKind) :
    Bool × PendingTracker :=
  match t.inFlight.lookup requestId with
  | none => (false, t)
  | some pending =>
      if pending.kind = kind then
        (true, { t with
          inFlight := t.inFlight.erase requestId
          active := t.active.insert requestId pending })
      else (false, t)

def resolveInFlight (t : PendingTracker) (requestId : String) (kind : PendingKind) :
    Except MaestroError Unit × PendingTracker :=
  if (requestId, kind) ∈ t.resolved then (.ok (), t)
  else if holds t.inFlight requestId kind then
    (.ok (), { t with inFlight := t.inFlight.erase requestId }.rememberResolved (requestId, kind))
  else (.error (invalidRequest "the structured request is no longer in flight"), t)

/-- True when a child result already proved that delivery completed. -/
def markDeliveryUncertain (t : PendingTracker) (requestId : String) (kind : PendingKind) :
    Bool × PendingTracker :=
  if (requestId, kind) ∈ t.resolved then (true, t)
  else if holds t.inFlight requestId kind then
    (false, { t with inFlight := t.inFlight.erase requestId }.rememberDeliveryUncertain
      (requestId, kind))
  else (false, t)

def resolveActive (t : PendingTracker) (requestId : String) (kind : PendingKind) (now : Instant) :
    Except MaestroError Unit × PendingTracker :=
  match t.active.lookup requestId with
  | none => (.error (invalidRequest "the structured request is unknown or already used"), t)
  | some pending =>
      if pending.kind ≠ kind ∨ pending.deadline ≤ now then
        (.error (invalidRequest "the structured request is expired or has the wrong type"), t)
      else
        (.ok (), { t with active := t.active.erase requestId }.rememberResolved (requestId, kind))

def forceResolve (t : PendingTracker) (requestId : String) (kind : PendingKind) : PendingTracker :=
  if holds t.active requestId kind then
    { t with active := t.active.erase requestId }.rememberResolved (requestId, kind)
  else t

/-- `some registration` stands for `true` and names the request that expired. -/
def expire (t : PendingTracker) (requestId : String) (kind : PendingKind) (now : Instant) :
    Option Nat × PendingTracker :=
  match t.active.lookup requestId with
  | none => (none, t)
  | some pending =>
      if pending.kind = kind ∧ pending.deadline ≤ now then
        (some pending.registration,
          { t with active := t.active.erase requestId }.rememberResolved (requestId, kind))
      else (none, t)

def confirmResolved (t : PendingTracker) (requestId : String) (kind : PendingKind) :
    Bool × PendingTracker :=
  if (requestId, kind) ∈ t.resolved then (true, t)
  else if (requestId, kind) ∈ t.deliveryUncertain then
    (true, { t with
      deliveryUncertain := t.deliveryUncertain.erase (requestId, kind)
      resolved := insert (requestId, kind) t.resolved })
  else if holds t.inFlight requestId kind then
    (true, { t with inFlight := t.inFlight.erase requestId }.rememberResolved (requestId, kind))
  else (false, t)

def pendingOf (t : PendingTracker) (kind : PendingKind) : Bool :=
  (t.active.entries ++ t.inFlight.entries).any (fun entry => entry.2.kind == kind)

def waitingState (t : PendingTracker) : Option SessionState :=
  if t.pendingOf .permission then some .awaitingPermission
  else if t.pendingOf .userInput then some .awaitingUserInput
  else none

def clearActive (t : PendingTracker) : PendingTracker := { t with active := ∅, inFlight := ∅ }

inductive Call where
  | register (requestId : String) (kind : PendingKind) (deadline : Instant)
  | claimActive (requestId : String) (kind : PendingKind)
  | restoreInFlight (requestId : String) (kind : PendingKind)
  | resolveInFlight (requestId : String) (kind : PendingKind)
  | markDeliveryUncertain (requestId : String) (kind : PendingKind)
  | resolveActive (requestId : String) (kind : PendingKind)
  | forceResolve (requestId : String) (kind : PendingKind)
  | expire (requestId : String) (kind : PendingKind)
  | confirmResolved (requestId : String) (kind : PendingKind)
  | waitingState
  | clearActive
  deriving DecidableEq, Repr

@[reducible] def Call.Answer : Call → Type
  | .register .. => Except MaestroError Unit
  | .claimActive .. => Except MaestroError Nat
  | .restoreInFlight .. => Bool
  | .resolveInFlight .. => Except MaestroError Unit
  | .markDeliveryUncertain .. => Bool
  | .resolveActive .. => Except MaestroError Unit
  | .forceResolve .. => Unit
  | .expire .. => Option Nat
  | .confirmResolved .. => Bool
  | .waitingState => Option SessionState
  | .clearActive => Unit

def perform (t : PendingTracker) (now : Instant) : (call : Call) → call.Answer × PendingTracker
  | .register requestId kind deadline => t.register requestId kind deadline
  | .claimActive requestId kind => t.claimActive requestId kind now
  | .restoreInFlight requestId kind => t.restoreInFlight requestId kind
  | .resolveInFlight requestId kind => t.resolveInFlight requestId kind
  | .markDeliveryUncertain requestId kind => t.markDeliveryUncertain requestId kind
  | .resolveActive requestId kind => t.resolveActive requestId kind now
  | .forceResolve requestId kind => ((), t.forceResolve requestId kind)
  | .expire requestId kind => t.expire requestId kind now
  | .confirmResolved requestId kind => t.confirmResolved requestId kind
  | .waitingState => (t.waitingState, t)
  | .clearActive => ((), t.clearActive)

def Pending (t : PendingTracker) (requestId : String) (pending : PendingRequest) : Prop :=
  t.active.lookup requestId = some pending ∨ t.inFlight.lookup requestId = some pending

def Asks (t : PendingTracker) (kind : PendingKind) : Prop :=
  ∃ requestId pending, t.Pending requestId pending ∧ pending.kind = kind

theorem asksPendingOf {t : PendingTracker} {kind : PendingKind} :
    t.pendingOf kind = true ↔ t.Asks kind := by
  simp only [pendingOf, Asks, Pending, List.any_eq_true, List.mem_append, beq_iff_eq]
  constructor
  · rintro ⟨⟨requestId, pending⟩, present, same⟩
    refine ⟨requestId, pending, ?_, same⟩
    rcases present with active | flying
    · exact .inl (AList.mem_lookup_iff.mpr active)
    · exact .inr (AList.mem_lookup_iff.mpr flying)
  · rintro ⟨requestId, pending, present, same⟩
    refine ⟨⟨requestId, pending⟩, ?_, same⟩
    rcases present with active | flying
    · exact .inl (AList.mem_lookup_iff.mp active)
    · exact .inr (AList.mem_lookup_iff.mp flying)

instance (t : PendingTracker) (kind) : Decidable (t.Asks kind) := decidable_of_iff _ asksPendingOf

structure Wellformed (t : PendingTracker) : Prop where
  apart : ∀ {requestId}, requestId ∈ t.active → requestId ∉ t.inFlight
  named : ∀ {requestId pending}, t.Pending requestId pending →
    t.registered[pending.registration]? = some (requestId, pending.kind)
  ring : t.resolvedOrder = t.remembered.drop (t.remembered.length - t.capacity)
  kept : ∀ {key}, key ∈ t.resolvedOrder ↔ key ∈ t.resolved ∨ key ∈ t.deliveryUncertain
  once : t.resolvedOrder.Nodup
  settled : ∀ {requestId pending}, t.Pending requestId pending →
    (requestId, pending.kind) ∉ t.resolvedOrder
  known : ∀ {key}, key ∈ t.remembered → key ∈ t.registered

theorem newWellformed (capacity : Nat) : (new capacity).Wellformed := by
  refine ⟨?_, ?_, ?_, ?_, ?_, ?_, ?_⟩ <;> simp [new, Pending]

theorem evictOrder (capacity : Nat) (order : List PendingKey) (resolved uncertain) :
    (evict capacity order resolved uncertain).1 = order.drop (order.length - capacity) := by
  induction order generalizing resolved uncertain with
  | nil => simp [evict]
  | cons expired rest ih =>
    simp only [evict]
    split
    · rename_i full
      rw [ih]
      have count : (expired :: rest).length - capacity = (rest.length - capacity) + 1 := by
        simp only [List.length_cons] at full ⊢
        omega
      rw [count, List.drop_succ_cons]
    · rename_i fits
      rw [Nat.sub_eq_zero_of_le (Nat.le_of_not_lt fits), List.drop_zero]

theorem evictSets (capacity : Nat) (order : List PendingKey) (resolved uncertain) (key : PendingKey) :
    (key ∈ (evict capacity order resolved uncertain).2.1 ↔
      key ∈ resolved ∧ key ∉ order.take (order.length - capacity)) ∧
    (key ∈ (evict capacity order resolved uncertain).2.2 ↔
      key ∈ uncertain ∧ key ∉ order.take (order.length - capacity)) := by
  induction order generalizing resolved uncertain with
  | nil => simp [evict]
  | cons expired rest ih =>
    simp only [evict]
    split
    · rename_i full
      have count : (expired :: rest).length - capacity = (rest.length - capacity) + 1 := by
        simp only [List.length_cons] at full ⊢
        omega
      rw [count, List.take_succ_cons]
      have inner := ih (resolved.erase expired) (uncertain.erase expired)
      constructor
      · rw [inner.1, Finset.mem_erase, List.mem_cons]
        tauto
      · rw [inner.2, Finset.mem_erase, List.mem_cons]
        tauto
    · rename_i fits
      rw [Nat.sub_eq_zero_of_le (Nat.le_of_not_lt fits)]
      simp

theorem ringPush {remembered order : List PendingKey} {capacity : Nat} (key : PendingKey)
    (ring : order = remembered.drop (remembered.length - capacity)) :
    (order ++ [key]).drop ((order ++ [key]).length - capacity) =
      (remembered ++ [key]).drop ((remembered ++ [key]).length - capacity) := by
  have pushed : order ++ [key] = (remembered ++ [key]).drop (remembered.length - capacity) := by
    rw [List.drop_append_of_le_length (Nat.sub_le _ _), ← ring]
  rw [pushed, List.drop_drop]
  congr 1
  simp only [List.length_drop, List.length_append, List.length_singleton]
  omega

section Remember
variable {t : PendingTracker} {key : PendingKey}

structure Remembers (t t' : PendingTracker) (key : PendingKey) : Prop where
  active : t'.active = t.active
  inFlight : t'.inFlight = t.inFlight
  capacity : t'.capacity = t.capacity
  registered : t'.registered = t.registered
  remembered : t'.remembered = t.remembered ++ [key]
  order : t'.resolvedOrder = (t.resolvedOrder ++ [key]).drop
    ((t.resolvedOrder ++ [key]).length - t.capacity)
  sets : ∀ k, (k ∈ t'.resolved ∨ k ∈ t'.deliveryUncertain) ↔
    (k ∈ t.resolved ∨ k ∈ t.deliveryUncertain ∨ k = key) ∧
      k ∉ (t.resolvedOrder ++ [key]).take ((t.resolvedOrder ++ [key]).length - t.capacity)

theorem rememberResolvedSpec (fresh : key ∉ t.resolved) : t.Remembers (t.rememberResolved key) key := by
  have sets := evictSets t.capacity (t.resolvedOrder ++ [key]) (insert key t.resolved)
    t.deliveryUncertain
  have order := evictOrder t.capacity (t.resolvedOrder ++ [key]) (insert key t.resolved)
    t.deliveryUncertain
  simp only [rememberResolved, fresh, if_false, shrink, pushOrder]
  refine ⟨rfl, rfl, rfl, rfl, rfl, order, fun k => ?_⟩
  rw [(sets k).1, (sets k).2, Finset.mem_insert]
  tauto

theorem rememberUncertainSpec (fresh : key ∉ t.deliveryUncertain) :
    t.Remembers (t.rememberDeliveryUncertain key) key := by
  have sets := evictSets t.capacity (t.resolvedOrder ++ [key]) t.resolved
    (insert key t.deliveryUncertain)
  have order := evictOrder t.capacity (t.resolvedOrder ++ [key]) t.resolved
    (insert key t.deliveryUncertain)
  simp only [rememberDeliveryUncertain, fresh, if_false, shrink, pushOrder]
  refine ⟨rfl, rfl, rfl, rfl, rfl, order, fun k => ?_⟩
  rw [(sets k).1, (sets k).2, Finset.mem_insert]
  tauto

theorem remembersWellformed {t' : PendingTracker} (wf : t.Wellformed) (registered : key ∈ t.registered)
    (new : key ∉ t.resolvedOrder) (gone : ∀ pending, t.Pending key.1 pending → pending.kind ≠ key.2)
    (remembers : t.Remembers t' key) : t'.Wellformed := by
  have same : ∀ requestId pending, t'.Pending requestId pending ↔ t.Pending requestId pending := by
    intro requestId pending
    simp [Pending, remembers.active, remembers.inFlight]
  have nodup : (t.resolvedOrder ++ [key]).Nodup :=
    List.nodup_append.mpr ⟨wf.once, by simp, by
      intro k old _ last equal
      cases List.mem_singleton.mp last
      exact new (equal ▸ old)⟩
  refine ⟨?_, ?_, ?_, ?_, ?_, ?_, ?_⟩
  · rw [remembers.active, remembers.inFlight]
    exact wf.apart
  · intro requestId pending found
    rw [remembers.registered]
    exact wf.named ((same _ _).mp found)
  · rw [remembers.order, remembers.remembered, remembers.capacity]
    exact ringPush key wf.ring
  · intro k
    rw [remembers.sets, remembers.order]
    have split := List.take_append_drop ((t.resolvedOrder ++ [key]).length - t.capacity)
      (t.resolvedOrder ++ [key])
    have member : k ∈ t.resolvedOrder ++ [key] ↔
        k ∈ t.resolved ∨ k ∈ t.deliveryUncertain ∨ k = key := by
      rw [List.mem_append, List.mem_singleton, wf.kept]
      tauto
    rw [← member, ← split]
    rw [← split] at nodup
    have disjoint := (List.nodup_append.mp nodup).2.2
    rw [split]
    constructor
    · intro kept
      exact ⟨List.mem_of_mem_drop kept, fun dropped => disjoint _ dropped _ kept rfl⟩
    · rintro ⟨present, notDropped⟩
      rw [← split, List.mem_append] at present
      exact present.resolve_left notDropped
  · rw [remembers.order]
    exact (List.drop_sublist _ _).nodup nodup
  · intro requestId pending found member
    rw [remembers.order] at member
    have before := (same _ _).mp found
    rcases List.mem_append.mp (List.mem_of_mem_drop member) with old | last
    · exact wf.settled before old
    · have equal := List.mem_singleton.mp last
      subst equal
      exact gone pending before rfl
  · intro k member
    rw [remembers.remembered] at member
    rw [remembers.registered]
    rcases List.mem_append.mp member with old | last
    · exact wf.known old
    · cases List.mem_singleton.mp last
      exact registered

end Remember

section Operations
variable {t : PendingTracker} {requestId : String} {kind : PendingKind} {pending : PendingRequest}

structure Takes (t t' : PendingTracker) (requestId : String) (pending : PendingRequest) : Prop where
  had : t.Pending requestId pending
  left : ∀ {other p}, t'.Pending other p ↔ t.Pending other p ∧ other ≠ requestId
  active : ∀ {other p}, t'.active.lookup other = some p → t.active.lookup other = some p
  inFlight : ∀ {other p}, t'.inFlight.lookup other = some p → t.inFlight.lookup other = some p
  same : t'.resolvedOrder = t.resolvedOrder ∧ t'.resolved = t.resolved ∧
    t'.deliveryUncertain = t.deliveryUncertain ∧ t'.capacity = t.capacity ∧
    t'.registered = t.registered ∧ t'.remembered = t.remembered

theorem eraseLookup {table : PendingTable} {other : String} {p : PendingRequest} :
    (table.erase requestId).lookup other = some p ↔ table.lookup other = some p ∧ other ≠ requestId := by
  by_cases same : other = requestId
  · subst same
    simp
  · simp [AList.lookup_erase_ne same, same]

theorem lookupMember {table : PendingTable} (found : table.lookup requestId = some pending) :
    requestId ∈ table := AList.lookup_isSome.mp (by simp [found])

theorem memberLookup {table : PendingTable} (member : requestId ∈ table) :
    ∃ pending, table.lookup requestId = some pending :=
  Option.isSome_iff_exists.mp (AList.lookup_isSome.mpr member)

theorem notMember {table : PendingTable} (absent : requestId ∉ table) :
    table.lookup requestId = none := AList.lookup_eq_none.mpr absent

theorem takesActive (wf : t.Wellformed) (found : t.active.lookup requestId = some pending) :
    t.Takes { t with active := t.active.erase requestId } requestId pending := by
  have absent := notMember (wf.apart (lookupMember found))
  refine ⟨.inl found, ?_, fun active => (eraseLookup.mp active).1, id,
    ⟨rfl, rfl, rfl, rfl, rfl, rfl⟩⟩
  intro other p
  simp only [Pending, eraseLookup]
  constructor
  · rintro (⟨active, different⟩ | flying)
    · exact ⟨.inl active, different⟩
    · refine ⟨.inr flying, ?_⟩
      intro same
      rw [same, absent] at flying
      contradiction
  · rintro ⟨active | flying, different⟩
    · exact .inl ⟨active, different⟩
    · exact .inr flying

theorem takesInFlight (wf : t.Wellformed) (found : t.inFlight.lookup requestId = some pending) :
    t.Takes { t with inFlight := t.inFlight.erase requestId } requestId pending := by
  have absent : t.active.lookup requestId = none :=
    notMember fun member => wf.apart member (lookupMember found)
  refine ⟨.inr found, ?_, id, fun flying => (eraseLookup.mp flying).1,
    ⟨rfl, rfl, rfl, rfl, rfl, rfl⟩⟩
  intro other p
  simp only [Pending, eraseLookup]
  constructor
  · rintro (active | ⟨flying, different⟩)
    · refine ⟨.inl active, ?_⟩
      intro same
      rw [same, absent] at active
      contradiction
    · exact ⟨.inr flying, different⟩
  · rintro ⟨active | flying, different⟩
    · exact .inl active
    · exact .inr ⟨flying, different⟩

theorem takesWellformed {t' : PendingTracker} (wf : t.Wellformed)
    (takes : t.Takes t' requestId pending) : t'.Wellformed := by
  obtain ⟨order, resolved, uncertain, capacity, registered, remembered⟩ := takes.same
  refine ⟨?_, ?_, ?_, ?_, ?_, ?_, ?_⟩
  · intro other active flying
    obtain ⟨p, active⟩ := memberLookup active
    obtain ⟨p', flying⟩ := memberLookup flying
    exact wf.apart (lookupMember (takes.active active)) (lookupMember (takes.inFlight flying))
  · intro other p found
    rw [registered]
    exact wf.named (takes.left.mp found).1
  · rw [order, remembered, capacity]
    exact wf.ring
  · rw [order, resolved, uncertain]
    exact wf.kept
  · rw [order]
    exact wf.once
  · intro other p found
    rw [order]
    exact wf.settled (takes.left.mp found).1
  · rw [remembered, registered]
    exact wf.known

structure Settles (t t' : PendingTracker) (requestId : String) (pending : PendingRequest) : Prop where
  had : t.Pending requestId pending
  left : ∀ {other p}, t'.Pending other p ↔ t.Pending other p ∧ other ≠ requestId
  active : ∀ {other p}, t'.active.lookup other = some p → t.active.lookup other = some p
  inFlight : ∀ {other p}, t'.inFlight.lookup other = some p → t.inFlight.lookup other = some p
  wellformed : t'.Wellformed
  registered : t'.registered = t.registered
  remembered : t'.remembered = t.remembered ++ [(requestId, pending.kind)]
  capacity : t'.capacity = t.capacity

theorem settlesAfter {t' t'' : PendingTracker} (wf : t.Wellformed)
    (takes : t.Takes t' requestId pending)
    (remembers : t'.Remembers t'' (requestId, pending.kind)) : t.Settles t'' requestId pending := by
  obtain ⟨order, resolved, uncertain, capacity, registered, remembered⟩ := takes.same
  refine ⟨takes.had, ?_, ?_, ?_, ?_, remembers.registered.trans registered, ?_,
    remembers.capacity.trans capacity⟩
  · intro other p
    rw [← takes.left]
    simp [Pending, remembers.active, remembers.inFlight]
  · intro other p active
    rw [remembers.active] at active
    exact takes.active active
  · intro other p flying
    rw [remembers.inFlight] at flying
    exact takes.inFlight flying
  · refine remembersWellformed (takesWellformed wf takes) ?_ ?_ ?_ remembers
    · rw [registered]
      exact List.mem_of_getElem? (wf.named takes.had)
    · rw [order]
      exact wf.settled takes.had
    · intro p found
      exact absurd rfl (takes.left.mp found).2
  · rw [remembers.remembered, remembered]

theorem settledKey (wf : t.Wellformed) (found : t.Pending requestId pending) :
    (requestId, pending.kind) ∉ t.resolved ∧ (requestId, pending.kind) ∉ t.deliveryUncertain := by
  have absent := wf.settled found
  rw [wf.kept] at absent
  exact not_or.mp absent

theorem settlesActive (wf : t.Wellformed) (found : t.active.lookup requestId = some pending) :
    t.Settles ({ t with active := t.active.erase requestId }.rememberResolved
      (requestId, pending.kind)) requestId pending :=
  settlesAfter wf (takesActive wf found) (rememberResolvedSpec (settledKey wf (.inl found)).1)

theorem settlesInFlight (wf : t.Wellformed) (found : t.inFlight.lookup requestId = some pending) :
    t.Settles ({ t with inFlight := t.inFlight.erase requestId }.rememberResolved
      (requestId, pending.kind)) requestId pending :=
  settlesAfter wf (takesInFlight wf found) (rememberResolvedSpec (settledKey wf (.inr found)).1)

theorem settlesUncertain (wf : t.Wellformed) (found : t.inFlight.lookup requestId = some pending) :
    t.Settles ({ t with inFlight := t.inFlight.erase requestId }.rememberDeliveryUncertain
      (requestId, pending.kind)) requestId pending :=
  settlesAfter wf (takesInFlight wf found) (rememberUncertainSpec (settledKey wf (.inr found)).2)

theorem holdsLookup {table : PendingTable} (h : holds table requestId kind = true) :
    ∃ pending, table.lookup requestId = some pending ∧ pending.kind = kind := by
  unfold holds at h
  cases found : table.lookup requestId with
  | none => simp [found] at h
  | some pending => exact ⟨pending, rfl, by simpa [found] using h⟩

end Operations

def Call.Idle : (call : Call) → call.Answer → Prop
  | .register .., .ok _ | .claimActive .., .ok _ | .restoreInFlight .., true | .expire .., some _ => False
  | _, _ => True

def Call.Settling : (call : Call) → call.Answer → Prop
  | .resolveInFlight .., .ok _ | .markDeliveryUncertain .., false | .resolveActive .., .ok _
  | .forceResolve .., _ | .confirmResolved .., true => True
  | _, _ => False

def Call.key : Call → Option PendingKey
  | .register requestId kind _ | .claimActive requestId kind | .restoreInFlight requestId kind
  | .resolveInFlight requestId kind | .markDeliveryUncertain requestId kind
  | .resolveActive requestId kind | .forceResolve requestId kind | .expire requestId kind
  | .confirmResolved requestId kind => some (requestId, kind)
  | .waitingState | .clearActive => none

inductive Outcome (t : PendingTracker) (now : Instant) :
    (call : Call) → call.Answer → PendingTracker → Prop where
  | unchanged {call answer} (idle : call.Idle answer) : Outcome t now call answer t
  | registered {requestId kind deadline} (free : ∀ pending, ¬ t.Pending requestId pending)
      (new : (requestId, kind) ∉ t.resolvedOrder) :
      Outcome t now (.register requestId kind deadline) (.ok ()) { t with
        active := t.active.insert requestId ⟨kind, deadline, t.registered.length⟩
        registered := t.registered ++ [(requestId, kind)] }
  | claimed {requestId pending} (found : t.active.lookup requestId = some pending)
      (early : now < pending.deadline) :
      Outcome t now (.claimActive requestId pending.kind) (.ok pending.registration) { t with
        active := t.active.erase requestId
        inFlight := t.inFlight.insert requestId pending }
  | restored {requestId pending} (found : t.inFlight.lookup requestId = some pending) :
      Outcome t now (.restoreInFlight requestId pending.kind) true { t with
        inFlight := t.inFlight.erase requestId
        active := t.active.insert requestId pending }
  | expired {requestId pending t'} (found : t.active.lookup requestId = some pending)
      (due : pending.deadline ≤ now) (settles : t.Settles t' requestId pending) :
      Outcome t now (.expire requestId pending.kind) (some pending.registration) t'
  | settled {call answer requestId pending t'} (settling : call.Settling answer)
      (names : call.key = some (requestId, pending.kind))
      (settles : t.Settles t' requestId pending) : Outcome t now call answer t'
  | confirmed {requestId kind} (uncertain : (requestId, kind) ∈ t.deliveryUncertain) :
      Outcome t now (.confirmResolved requestId kind) true { t with
        deliveryUncertain := t.deliveryUncertain.erase (requestId, kind)
        resolved := insert (requestId, kind) t.resolved }
  | cleared {answer} : Outcome t now .clearActive answer t.clearActive

section Outcomes
variable {t : PendingTracker} {requestId : String} {kind : PendingKind} {pending : PendingRequest}

theorem performOutcome (wf : t.Wellformed) (now : Instant) (call : Call) :
    Outcome t now call (t.perform now call).1 (t.perform now call).2 := by
  cases call with
  | register requestId kind deadline =>
    simp only [perform, register]
    split
    · exact .unchanged trivial
    · split
      · exact .unchanged trivial
      · rename_i unique
        simp only [not_or] at unique
        refine .registered ?_ ?_
        · rintro pending (active | flying)
          · exact unique.1 (lookupMember active)
          · exact unique.2.1 (lookupMember flying)
        · rw [wf.kept]
          tauto
  | claimActive requestId kind =>
    simp only [perform, claimActive]
    split
    · exact .unchanged trivial
    · rename_i pending found
      split
      · exact .unchanged trivial
      · rename_i valid
        obtain ⟨same, early⟩ := not_or.mp valid
        obtain rfl := not_not.mp same
        exact .claimed found (Nat.lt_of_not_le early)
  | restoreInFlight requestId kind =>
    simp only [perform, restoreInFlight]
    split
    · exact .unchanged trivial
    · rename_i pending found
      split
      · rename_i same
        subst same
        exact .restored found
      · exact .unchanged trivial
  | resolveInFlight requestId kind =>
    simp only [perform, resolveInFlight]
    split
    · exact .unchanged trivial
    · split
      · rename_i held
        obtain ⟨pending, found, rfl⟩ := holdsLookup held
        exact .settled trivial rfl (settlesInFlight wf found)
      · exact .unchanged trivial
  | markDeliveryUncertain requestId kind =>
    simp only [perform, markDeliveryUncertain]
    split
    · exact .unchanged trivial
    · split
      · rename_i held
        obtain ⟨pending, found, rfl⟩ := holdsLookup held
        exact .settled trivial rfl (settlesUncertain wf found)
      · exact .unchanged trivial
  | resolveActive requestId kind =>
    simp only [perform, resolveActive]
    split
    · exact .unchanged trivial
    · rename_i pending found
      split
      · exact .unchanged trivial
      · rename_i valid
        obtain rfl := not_not.mp (not_or.mp valid).1
        exact .settled trivial rfl (settlesActive wf found)
  | forceResolve requestId kind =>
    simp only [perform, forceResolve]
    split
    · rename_i held
      obtain ⟨pending, found, rfl⟩ := holdsLookup held
      exact .settled trivial rfl (settlesActive wf found)
    · exact .unchanged trivial
  | expire requestId kind =>
    simp only [perform, expire]
    split
    · exact .unchanged trivial
    · rename_i pending found
      split
      · rename_i due
        obtain ⟨rfl, due⟩ := due
        exact .expired found due (settlesActive wf found)
      · exact .unchanged trivial
  | confirmResolved requestId kind =>
    simp only [perform, confirmResolved]
    split
    · exact .unchanged trivial
    · split
      · rename_i uncertain
        exact .confirmed uncertain
      · split
        · rename_i held
          obtain ⟨pending, found, rfl⟩ := holdsLookup held
          exact .settled trivial rfl (settlesInFlight wf found)
        · exact .unchanged trivial
  | waitingState => exact .unchanged trivial
  | clearActive => exact .cleared

theorem insertLookup {table : PendingTable} {other : String} {p : PendingRequest} :
    (table.insert requestId pending).lookup other = some p ↔
      (other = requestId ∧ p = pending) ∨ (other ≠ requestId ∧ table.lookup other = some p) := by
  by_cases same : other = requestId
  · subst same
    simp [eq_comm]
  · simp [AList.lookup_insert_ne same, same]

theorem claimedPending (wf : t.Wellformed) (found : t.active.lookup requestId = some pending)
    {other : String} {p : PendingRequest} :
    Pending { t with
      active := t.active.erase requestId
      inFlight := t.inFlight.insert requestId pending } other p ↔ t.Pending other p := by
  have absent := notMember (wf.apart (lookupMember found))
  simp only [Pending, eraseLookup, insertLookup]
  by_cases same : other = requestId
  · subst same
    simp [found, absent, eq_comm]
  · simp [same]

theorem restoredPending (wf : t.Wellformed) (found : t.inFlight.lookup requestId = some pending)
    {other : String} {p : PendingRequest} :
    Pending { t with
      inFlight := t.inFlight.erase requestId
      active := t.active.insert requestId pending } other p ↔ t.Pending other p := by
  have absent : t.active.lookup requestId = none :=
    notMember fun member => wf.apart member (lookupMember found)
  simp only [Pending, eraseLookup, insertLookup]
  by_cases same : other = requestId
  · subst same
    simp [found, absent, eq_comm]
  · simp [same]

theorem registeredPending {deadline : Instant} {other : String} {p : PendingRequest}
    (found : Pending { t with
      active := t.active.insert requestId ⟨kind, deadline, t.registered.length⟩
      registered := t.registered ++ [(requestId, kind)] } other p) :
    (other = requestId ∧ p = ⟨kind, deadline, t.registered.length⟩) ∨ t.Pending other p := by
  simp only [Pending, insertLookup] at found
  rcases found with (new | ⟨_, active⟩) | flying
  · exact .inl new
  · exact .inr (.inl active)
  · exact .inr (.inr flying)

theorem moveWellformed {active inFlight : PendingTable} (wf : t.Wellformed)
    (apart : ∀ {other}, other ∈ active → other ∉ inFlight)
    (same : ∀ {other p}, Pending { t with active := active, inFlight := inFlight } other p ↔
      t.Pending other p) : Wellformed { t with active := active, inFlight := inFlight } where
  apart := apart
  named found := wf.named (same.mp found)
  ring := wf.ring
  kept := wf.kept
  once := wf.once
  settled found := wf.settled (same.mp found)
  known := wf.known

theorem registerWellformed {deadline : Instant} (wf : t.Wellformed)
    (free : ∀ pending, ¬ t.Pending requestId pending) (new : (requestId, kind) ∉ t.resolvedOrder) :
    Wellformed { t with
      active := t.active.insert requestId ⟨kind, deadline, t.registered.length⟩
      registered := t.registered ++ [(requestId, kind)] } := by
  refine ⟨?_, ?_, wf.ring, wf.kept, wf.once, ?_, ?_⟩
  · intro other active flying
    rcases (AList.mem_insert _).mp active with same | old
    · subst same
      obtain ⟨pending, found⟩ := memberLookup flying
      exact free pending (.inr found)
    · exact wf.apart old flying
  · intro other p found
    rcases registeredPending found with ⟨rfl, rfl⟩ | old
    · simp
    · have named := wf.named old
      rw [List.getElem?_append_left (List.getElem?_eq_some_iff.mp named).1]
      exact named
  · intro other p found
    rcases registeredPending found with ⟨rfl, rfl⟩ | old
    · exact new
    · exact wf.settled old
  · exact fun member => List.mem_append_left _ (wf.known member)

theorem outcomeWellformed (wf : t.Wellformed) {now : Instant} {call : Call} {answer : call.Answer}
    {t' : PendingTracker} (outcome : Outcome t now call answer t') : t'.Wellformed := by
  cases outcome with
  | unchanged _ => exact wf
  | registered free new => exact registerWellformed wf free new
  | claimed found _ =>
    refine moveWellformed wf ?_ (claimedPending wf found)
    intro other active flying
    obtain ⟨different, active⟩ := AList.mem_erase.mp active
    exact ((AList.mem_insert _).mp flying).elim different (wf.apart active)
  | restored found =>
    refine moveWellformed wf ?_ (restoredPending wf found)
    intro other active flying
    obtain ⟨different, flying⟩ := AList.mem_erase.mp flying
    exact ((AList.mem_insert _).mp active).elim different fun old => wf.apart old flying
  | expired _ _ settles => exact settles.wellformed
  | settled _ _ settles => exact settles.wellformed
  | @confirmed requestId kind uncertain =>
    refine ⟨wf.apart, wf.named, wf.ring, ?_, wf.once, wf.settled, wf.known⟩
    intro key
    simp only [Finset.mem_insert, Finset.mem_erase]
    rw [wf.kept]
    by_cases same : key = (requestId, kind)
    · simp [same, uncertain]
    · simp [same]
  | cleared =>
    refine ⟨by simp [clearActive], ?_, wf.ring, wf.kept, wf.once, ?_, wf.known⟩ <;>
      simp [clearActive, Pending]

theorem outcomePending (wf : t.Wellformed) {now : Instant} {call : Call} {answer : call.Answer}
    {t' : PendingTracker} (outcome : Outcome t now call answer t') {other : String} {p}
    (found : t'.Pending other p) : t.Pending other p ∨ p.registration = t.registered.length := by
  cases outcome with
  | unchanged _ => exact .inl found
  | registered _ _ =>
    rcases registeredPending found with ⟨_, rfl⟩ | old
    · exact .inr rfl
    · exact .inl old
  | claimed active _ => exact .inl ((claimedPending wf active).mp found)
  | restored flying => exact .inl ((restoredPending wf flying).mp found)
  | expired _ _ settles => exact .inl (settles.left.mp found).1
  | settled _ _ settles => exact .inl (settles.left.mp found).1
  | confirmed _ => exact .inl found
  | cleared => simp [clearActive, Pending] at found

def Call.Moves : (call : Call) → call.Answer → Prop
  | .register _ kind _, .ok _ => kind ≠ .guiAction
  | .resolveInFlight .., .ok _ | .markDeliveryUncertain .., _ | .expire .., some _
  | .confirmResolved .., true | .clearActive, _ => True
  | .resolveActive _ kind, _ | .forceResolve _ kind, _ => kind ≠ .guiAction
  | _, _ => False

theorem pendingUnique (wf : t.Wellformed) {p : PendingRequest} (one : t.Pending requestId pending)
    (other : t.Pending requestId p) : p = pending := by
  rcases one with active | flying <;> rcases other with active' | flying'
  · exact Option.some.inj (active'.symm.trans active)
  · exact absurd (lookupMember flying') (wf.apart (lookupMember active))
  · exact absurd (lookupMember flying) (wf.apart (lookupMember active'))
  · exact Option.some.inj (flying'.symm.trans flying)

theorem registeredKeeps {deadline : Instant} (free : ∀ pending, ¬ t.Pending requestId pending)
    {other : String} {p : PendingRequest} (found : t.Pending other p) : Pending { t with
      active := t.active.insert requestId ⟨kind, deadline, t.registered.length⟩
      registered := t.registered ++ [(requestId, kind)] } other p := by
  have different : other ≠ requestId := by
    rintro rfl
    exact free p found
  rcases found with active | flying
  · exact .inl (insertLookup.mpr (.inr ⟨different, active⟩))
  · exact .inr flying

theorem settlesAsks {t' : PendingTracker} (wf : t.Wellformed) (settles : t.Settles t' requestId pending)
    (other : pending.kind ≠ kind) : t'.Asks kind ↔ t.Asks kind := by
  constructor
  · rintro ⟨name, p, found, same⟩
    exact ⟨name, p, (settles.left.mp found).1, same⟩
  · rintro ⟨name, p, found, same⟩
    refine ⟨name, p, settles.left.mpr ⟨found, ?_⟩, same⟩
    rintro rfl
    rw [pendingUnique wf settles.had found] at same
    exact other same

theorem outcomeAsks (wf : t.Wellformed) {now : Instant} {call : Call} {answer : call.Answer}
    {t' : PendingTracker} (outcome : Outcome t now call answer t') (still : ¬ call.Moves answer)
    (waits : kind ≠ .guiAction) : t'.Asks kind ↔ t.Asks kind := by
  cases outcome with
  | unchanged _ => exact Iff.rfl
  | @registered name made deadline free _ =>
    have action : made = .guiAction := not_not.mp still
    constructor
    · rintro ⟨other, p, found, same⟩
      rcases registeredPending found with ⟨_, rfl⟩ | old
      · exact absurd (same.symm.trans action) waits
      · exact ⟨other, p, old, same⟩
    · rintro ⟨other, p, found, same⟩
      exact ⟨other, p, registeredKeeps free found, same⟩
  | claimed active _ => simp only [Asks, claimedPending wf active]
  | restored flying => simp only [Asks, restoredPending wf flying]
  | expired _ _ _ => exact absurd trivial still
  | @settled call answer name p _ settling names settles =>
    refine settlesAsks wf settles fun same => ?_
    cases call <;> cases answer <;> first | exact absurd trivial still | exact settling.elim | skip
    all_goals
      cases names
      exact waits (same.symm.trans (not_not.mp still))
  | confirmed _ => exact absurd trivial still
  | cleared => exact absurd trivial still

theorem outcomeRegisters {now : Instant} {call : Call} {answer : call.Answer}
    {t' : PendingTracker} (outcome : Outcome t now call answer t') :
    t'.registered = t.registered ∨ ∃ requestId kind deadline,
      call = .register requestId kind deadline ∧
      t'.registered = t.registered ++ [(requestId, kind)] ∧
      t'.Pending requestId ⟨kind, deadline, t.registered.length⟩ := by
  cases outcome with
  | @registered requestId kind deadline _ _ =>
    exact .inr ⟨requestId, kind, deadline, rfl, rfl, .inl (insertLookup.mpr (.inl ⟨rfl, rfl⟩))⟩
  | expired _ _ settles => exact .inl settles.registered
  | settled _ _ settles => exact .inl settles.registered
  | _ => exact .inl rfl

theorem outcomeRegistered {now : Instant} {call : Call} {answer : call.Answer}
    {t' : PendingTracker} (outcome : Outcome t now call answer t') :
    t.registered <+: t'.registered := by
  rcases outcomeRegisters outcome with same | ⟨requestId, kind, _, _, longer, _⟩
  · rw [same]
  · rw [longer]
    exact List.prefix_append _ _

theorem outcomeRemembered {now : Instant} {call : Call} {answer : call.Answer}
    {t' : PendingTracker} (outcome : Outcome t now call answer t') :
    t.remembered <+: t'.remembered := by
  cases outcome with
  | expired _ _ settles =>
    rw [settles.remembered]
    exact List.prefix_append _ _
  | settled _ _ settles =>
    rw [settles.remembered]
    exact List.prefix_append _ _
  | _ => exact List.prefix_refl _

theorem outcomeKeeps (wf : t.Wellformed) {now : Instant} {call : Call} {answer : call.Answer}
    {t' : PendingTracker} (outcome : Outcome t now call answer t') (lasting : call ≠ .clearActive)
    {other : String} {p : PendingRequest} (found : t.Pending other p) :
    t'.Pending other p ∨ (other, p.kind) ∈ t'.remembered := by
  have settled : ∀ {name pending}, t.Settles t' name pending →
      t'.Pending other p ∨ (other, p.kind) ∈ t'.remembered := by
    intro name pending settles
    by_cases same : other = name
    · subst same
      rw [pendingUnique wf settles.had found, settles.remembered]
      exact .inr (by simp)
    · exact .inl (settles.left.mpr ⟨found, same⟩)
  cases outcome with
  | unchanged _ => exact .inl found
  | registered free _ => exact .inl (registeredKeeps free found)
  | claimed active _ => exact .inl ((claimedPending wf active).mpr found)
  | restored flying => exact .inl ((restoredPending wf flying).mpr found)
  | expired _ _ settles => exact settled settles
  | settled _ _ settles => exact settled settles
  | confirmed _ => exact .inl found
  | cleared => exact absurd rfl lasting

theorem outcomeInFlight {now : Instant} {call : Call} {answer : call.Answer}
    {t' : PendingTracker} (outcome : Outcome t now call answer t') {other : String} {p : PendingRequest}
    (found : t'.inFlight.lookup other = some p) :
    t.inFlight.lookup other = some p ∨ call = .claimActive other p.kind := by
  cases outcome with
  | claimed active _ =>
    rcases insertLookup.mp found with ⟨rfl, rfl⟩ | ⟨_, old⟩
    · exact .inr rfl
    · exact .inl old
  | restored _ => exact .inl (eraseLookup.mp found).1
  | expired _ _ settles => exact .inl (settles.inFlight found)
  | settled _ _ settles => exact .inl (settles.inFlight found)
  | cleared => simp [clearActive] at found
  | _ => exact .inl found

/-! When a frame of the child is accepted. -/

theorem freshRegisters (wf : t.Wellformed) {deadline : Instant}
    (room : t.active.keys.length + t.inFlight.keys.length < t.capacity)
    (fresh : requestId ∉ t.registered.map Prod.fst) :
    (t.register requestId kind deadline).1 = .ok () := by
  have named : ∀ {kind}, (requestId, kind) ∉ t.registered := fun member =>
    fresh (List.mem_map.mpr ⟨_, member, rfl⟩)
  have absent : ∀ pending, ¬ t.Pending requestId pending := fun pending found =>
    named (List.mem_of_getElem? (wf.named found))
  have inactive : requestId ∉ t.active := fun member => by
    obtain ⟨pending, found⟩ := memberLookup member
    exact absent pending (.inl found)
  have grounded : requestId ∉ t.inFlight := fun member => by
    obtain ⟨pending, found⟩ := memberLookup member
    exact absent pending (.inr found)
  have unknown : (requestId, kind) ∉ t.resolvedOrder := by
    intro member
    rw [wf.ring] at member
    exact named (wf.known (List.mem_of_mem_drop member))
  rw [wf.kept, not_or] at unknown
  unfold register
  rw [if_neg (Nat.not_le_of_lt room), if_neg (by simp [inactive, grounded, unknown])]

theorem answeredConfirms (wf : t.Wellformed)
    (answered : holds t.inFlight requestId kind = true ∨ (requestId, kind) ∈ t.resolvedOrder) :
    (t.confirmResolved requestId kind).1 = true := by
  unfold confirmResolved
  split
  · rfl
  · rename_i unresolved
    split
    · rfl
    · rename_i certain
      rcases answered with flying | member
      · rw [if_pos flying]
      · rcases wf.kept.mp member with resolved | uncertain
        · exact absurd resolved unresolved
        · exact absurd uncertain certain

theorem activeResolves {now : Instant} (found : t.active.lookup requestId = some pending)
    (early : now < pending.deadline) :
    (t.resolveActive requestId pending.kind now).1 = .ok () := by
  unfold resolveActive
  rw [found]
  simp [Nat.not_le_of_lt early]

def Call.Returns (requestId : String) (kind : PendingKind) : Call → Prop
  | .restoreInFlight id k | .resolveInFlight id k | .markDeliveryUncertain id k =>
      id = requestId ∧ k = kind
  | _ => False

theorem returnedGone (wf : t.Wellformed) {now : Instant} {call : Call} (returns : call.Returns requestId kind)
    (found : (t.perform now call).2.inFlight.lookup requestId = some pending) : pending.kind ≠ kind := by
  -- Either nothing of the key was in flight, or the call took it from there.
  have unresolved : (requestId, kind) ∈ t.resolved → t.inFlight.lookup requestId = some pending →
      pending.kind ≠ kind := by
    rintro resolved flying rfl
    exact (settledKey wf (.inr flying)).1 resolved
  have unheld : ¬ holds t.inFlight requestId kind = true → t.inFlight.lookup requestId = some pending →
      pending.kind ≠ kind := by
    rintro absent flying rfl
    exact absent (by simp [holds, flying])
  have settled : ∀ {t' p}, t.Settles t' requestId p → t'.inFlight.lookup requestId ≠ some pending :=
    fun settles flying => (settles.left.mp (.inr flying)).2 rfl
  cases call with
  | restoreInFlight =>
    obtain ⟨rfl, rfl⟩ := returns
    simp only [perform, restoreInFlight] at found
    split at found
    · rename_i absent
      rw [absent] at found
      cases found
    · rename_i p flying
      split at found
      · simp at found
      · rename_i different
        rw [flying] at found
        cases Option.some.inj found
        exact different
  | resolveInFlight =>
    obtain ⟨rfl, rfl⟩ := returns
    simp only [perform, resolveInFlight] at found
    split at found
    · rename_i resolved
      exact unresolved resolved found
    · split at found
      · rename_i held
        obtain ⟨p, flying, rfl⟩ := holdsLookup held
        exact absurd found (settled (settlesInFlight wf flying))
      · rename_i absent
        exact unheld absent found
  | markDeliveryUncertain =>
    obtain ⟨rfl, rfl⟩ := returns
    simp only [perform, markDeliveryUncertain] at found
    split at found
    · rename_i resolved
      exact unresolved resolved found
    · split at found
      · rename_i held
        obtain ⟨p, flying, rfl⟩ := holdsLookup held
        exact absurd found (settled (settlesUncertain wf flying))
      · rename_i absent
        exact unheld absent found
  | _ => exact returns.elim

theorem expiredGone (wf : t.Wellformed) {now : Instant}
    (found : (t.expire requestId kind now).2.active.lookup requestId = some pending)
    (same : pending.kind = kind) : now < pending.deadline := by
  unfold expire at found
  split at found
  · rename_i absent
    rw [absent] at found
    cases found
  · rename_i p active
    split at found
    · rename_i due
      obtain ⟨rfl, _⟩ := due
      exact absurd rfl ((settlesActive wf active).left.mp (.inl found)).2
    · rename_i early
      rw [active] at found
      cases Option.some.inj found
      exact Nat.lt_of_not_le fun due => early ⟨same, due⟩

theorem performWellformed (wf : t.Wellformed) (now : Instant) (call : Call) :
    (t.perform now call).2.Wellformed := outcomeWellformed wf (performOutcome wf now call)

end Outcomes

end PendingTracker
end Maestro
