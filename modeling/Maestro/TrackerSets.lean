import Maestro.PendingTracker

/-! The collections of the tracker over any history of its calls: what is pending fits the
capacity, and the ring lists what is remembered, once, under one outcome. -/
namespace Maestro.PendingTracker

def size (t : PendingTracker) : Nat := t.active.keys.length + t.inFlight.keys.length

/-- The calls one after another, each at its time. -/
def performAll (t : PendingTracker) : List (Instant × Call) → PendingTracker
  | [] => t
  | (now, call) :: calls => (t.perform now call).2.performAll calls

def Apart (t : PendingTracker) : Prop := ∀ key ∈ t.resolved, key ∉ t.deliveryUncertain

section Sizes
variable {t t' : PendingTracker} {requestId : String} {pending : PendingRequest}

def ids (t : PendingTracker) : List String := t.active.keys ++ t.inFlight.keys

theorem idsLength : t.ids.length = t.size := List.length_append

theorem memberIds : requestId ∈ t.ids ↔ ∃ pending, t.Pending requestId pending := by
  rw [ids, List.mem_append, AList.mem_keys.symm, AList.mem_keys.symm]
  constructor
  · rintro (active | flying)
    · obtain ⟨pending, found⟩ := memberLookup active
      exact ⟨pending, .inl found⟩
    · obtain ⟨pending, found⟩ := memberLookup flying
      exact ⟨pending, .inr found⟩
  · rintro ⟨pending, found | found⟩
    · exact .inl (lookupMember found)
    · exact .inr (lookupMember found)

theorem idsNodup (wf : t.Wellformed) : t.ids.Nodup := by
  refine List.nodup_append.mpr ⟨t.active.keys_nodup, t.inFlight.keys_nodup, fun one active other flying same => ?_⟩
  subst same
  exact wf.apart (AList.mem_keys.mpr active) (AList.mem_keys.mpr flying)

theorem sizeWithin (wf : t'.Wellformed) (list : List String)
    (within : ∀ requestId pending, t'.Pending requestId pending → requestId ∈ list) : t'.size ≤ list.length := by
  rw [← idsLength]
  refine ((idsNodup wf).subperm fun requestId member => ?_).length_le
  obtain ⟨pending, found⟩ := memberIds.mp member
  exact within requestId pending found

theorem sizeLess (wf : t'.Wellformed)
    (less : ∀ requestId pending, t'.Pending requestId pending → t.Pending requestId pending) : t'.size ≤ t.size := by
  rw [← idsLength (t := t)]
  exact sizeWithin wf t.ids fun requestId pending found => memberIds.mpr ⟨pending, less requestId pending found⟩

theorem outcomeCapacity {now : Instant} {call : Call} {answer : call.Answer} (outcome : t.Outcome now call answer t') :
    t'.capacity = t.capacity := by
  cases outcome with
  | unchanged _ => rfl
  | registered _ _ => rfl
  | claimed _ _ => rfl
  | restored _ => rfl
  | expired _ _ settles => exact settles.capacity
  | settled _ _ settles => exact settles.capacity
  | confirmed _ => rfl
  | cleared => rfl

theorem outcomeShrinks (wf : t.Wellformed) {now : Instant} {call : Call} {answer : call.Answer}
    (outcome : t.Outcome now call answer t') (other : ∀ requestId kind deadline, call ≠ .register requestId kind deadline)
    (found : t'.Pending requestId pending) : t.Pending requestId pending := by
  cases outcome with
  | unchanged _ => exact found
  | registered _ _ => exact absurd rfl (other _ _ _)
  | claimed active _ => exact (claimedPending wf active).mp found
  | restored flying => exact (restoredPending wf flying).mp found
  | expired _ _ settles => exact (settles.left.mp found).1
  | settled _ _ settles => exact (settles.left.mp found).1
  | confirmed _ => exact found
  | cleared => simp [clearActive, Pending] at found

theorem registerSize (wf : t.Wellformed) (kind : PendingKind) (deadline : Instant) (fits : t.size ≤ t.capacity) :
    (t.register requestId kind deadline).2.size ≤ t.capacity := by
  have wf' : (t.register requestId kind deadline).2.Wellformed := performWellformed wf 0 (.register requestId kind deadline)
  rw [register] at wf' ⊢
  split
  · exact fits
  · rename_i full
    have room : t.size < t.capacity := Nat.lt_of_not_le full
    rw [if_neg full] at wf'
    split
    · exact fits
    · rename_i unique
      rw [if_neg unique] at wf'
      have grown := sizeWithin wf' (requestId :: t.ids) fun other pending found => by
        rcases registeredPending found with ⟨rfl, _⟩ | old
        · exact List.mem_cons_self
        · exact List.mem_cons_of_mem _ (memberIds.mpr ⟨pending, old⟩)
      rw [List.length_cons, idsLength] at grown
      exact grown.trans room

theorem performSize (wf : t.Wellformed) (now : Instant) (call : Call) (fits : t.size ≤ t.capacity) :
    (t.perform now call).2.size ≤ (t.perform now call).2.capacity := by
  have outcome := performOutcome wf now call
  rw [outcomeCapacity outcome]
  by_cases registers : ∃ requestId kind deadline, call = .register requestId kind deadline
  · obtain ⟨requestId, kind, deadline, rfl⟩ := registers
    exact registerSize wf kind deadline fits
  · have other : ∀ requestId kind deadline, call ≠ .register requestId kind deadline :=
      fun requestId kind deadline same => registers ⟨requestId, kind, deadline, same⟩
    exact (sizeLess (outcomeWellformed wf outcome) fun _ _ => outcomeShrinks wf outcome other).trans fits

end Sizes

section Outcomes
variable {t : PendingTracker} {key : PendingKey}

theorem rememberResolvedApart (apart : t.Apart) (fresh : key ∉ t.deliveryUncertain) :
    (t.rememberResolved key).Apart := by
  intro other resolved uncertain
  rw [rememberResolved] at resolved uncertain
  split at resolved
  · rename_i known
    rw [if_pos known] at uncertain
    exact apart other ((evictSets _ _ _ _ other).1.mp resolved).1 ((evictSets _ _ _ _ other).2.mp uncertain).1
  · rename_i new
    rw [if_neg new] at uncertain
    have left := ((evictSets _ _ _ _ other).1.mp resolved).1
    have right : other ∈ t.deliveryUncertain := ((evictSets _ _ _ _ other).2.mp uncertain).1
    rcases Finset.mem_insert.mp left with rfl | old
    · exact fresh right
    · exact apart other old right

theorem rememberUncertainApart (apart : t.Apart) (fresh : key ∉ t.resolved) :
    (t.rememberDeliveryUncertain key).Apart := by
  intro other resolved uncertain
  rw [rememberDeliveryUncertain] at resolved uncertain
  split at resolved
  · rename_i known
    rw [if_pos known] at uncertain
    exact apart other ((evictSets _ _ _ _ other).1.mp resolved).1 ((evictSets _ _ _ _ other).2.mp uncertain).1
  · rename_i new
    rw [if_neg new] at uncertain
    have left : other ∈ t.resolved := ((evictSets _ _ _ _ other).1.mp resolved).1
    have right := ((evictSets _ _ _ _ other).2.mp uncertain).1
    rcases Finset.mem_insert.mp right with rfl | old
    · exact fresh left
    · exact apart other left old

theorem performApart (wf : t.Wellformed) (now : Instant) (call : Call) (apart : t.Apart) :
    (t.perform now call).2.Apart := by
  cases call with
  | register requestId kind deadline =>
    simp only [perform, register]
    split
    · exact apart
    · split <;> exact apart
  | claimActive requestId kind =>
    simp only [perform, claimActive]
    split
    · exact apart
    · split <;> exact apart
  | restoreInFlight requestId kind =>
    simp only [perform, restoreInFlight]
    split
    · exact apart
    · split <;> exact apart
  | resolveInFlight requestId kind =>
    simp only [perform, resolveInFlight]
    split
    · exact apart
    · split
      · rename_i held
        obtain ⟨pending, found, rfl⟩ := holdsLookup held
        exact rememberResolvedApart apart (settledKey wf (.inr found)).2
      · exact apart
  | markDeliveryUncertain requestId kind =>
    simp only [perform, markDeliveryUncertain]
    split
    · exact apart
    · split
      · rename_i held
        obtain ⟨pending, found, rfl⟩ := holdsLookup held
        exact rememberUncertainApart apart (settledKey wf (.inr found)).1
      · exact apart
  | resolveActive requestId kind =>
    simp only [perform, resolveActive]
    split
    · exact apart
    · rename_i pending found
      split
      · exact apart
      · rename_i valid
        obtain rfl := not_not.mp (not_or.mp valid).1
        exact rememberResolvedApart apart (settledKey wf (.inl found)).2
  | forceResolve requestId kind =>
    simp only [perform, forceResolve]
    split
    · rename_i held
      obtain ⟨pending, found, rfl⟩ := holdsLookup held
      exact rememberResolvedApart apart (settledKey wf (.inl found)).2
    · exact apart
  | expire requestId kind =>
    simp only [perform, expire]
    split
    · exact apart
    · rename_i pending found
      split
      · rename_i due
        obtain ⟨rfl, _⟩ := due
        exact rememberResolvedApart apart (settledKey wf (.inl found)).2
      · exact apart
  | confirmResolved requestId kind =>
    simp only [perform, confirmResolved]
    split
    · exact apart
    · split
      · intro other resolved uncertain
        obtain ⟨different, uncertain⟩ := Finset.mem_erase.mp uncertain
        exact apart other ((Finset.mem_insert.mp resolved).resolve_left different) uncertain
      · split
        · rename_i uncertain held
          obtain ⟨pending, found, rfl⟩ := holdsLookup held
          exact rememberResolvedApart apart uncertain
        · exact apart
  | waitingState => exact apart
  | clearActive => exact apart

structure Kept (t : PendingTracker) : Prop where
  wellformed : t.Wellformed
  fits : t.size ≤ t.capacity
  apart : t.Apart

theorem newKept (capacity : Nat) : (new capacity).Kept :=
  ⟨newWellformed capacity, Nat.zero_le _, fun _ resolved => (by cases Finset.notMem_empty _ resolved)⟩

theorem performKept (kept : t.Kept) (now : Instant) (call : Call) : (t.perform now call).2.Kept :=
  ⟨performWellformed kept.wellformed now call, performSize kept.wellformed now call kept.fits,
    performApart kept.wellformed now call kept.apart⟩

theorem performAllKept (calls : List (Instant × Call)) (kept : t.Kept) :
    (t.performAll calls).Kept ∧ (t.performAll calls).capacity = t.capacity := by
  induction calls generalizing t with
  | nil => exact ⟨kept, rfl⟩
  | cons first calls ih =>
    obtain ⟨now, call⟩ := first
    have ⟨later, same⟩ := ih (performKept kept now call)
    exact ⟨later, same.trans (outcomeCapacity (performOutcome kept.wellformed now call))⟩

end Outcomes

/-- The collections of a tracker after any calls. -/
theorem trackerSets (capacity : Nat) (calls : List (Instant × Call)) :
    let t := (new capacity).performAll calls
    (∀ requestId ∈ t.active, requestId ∉ t.inFlight) ∧ t.active.keys.length + t.inFlight.keys.length ≤ capacity ∧
    (∀ requestId pending, t.Pending requestId pending →
      (requestId, pending.kind) ∉ t.resolved ∧ (requestId, pending.kind) ∉ t.deliveryUncertain) ∧
    Disjoint t.resolved t.deliveryUncertain ∧ t.resolvedOrder.Nodup ∧
    (∀ key, key ∈ t.resolvedOrder ↔ key ∈ t.resolved ∪ t.deliveryUncertain) ∧ t.resolvedOrder.length ≤ capacity := by
  intro t
  obtain ⟨kept, same⟩ : t.Kept ∧ t.capacity = capacity := performAllKept calls (newKept capacity)
  have wf := kept.wellformed
  refine ⟨fun _ => wf.apart, same ▸ kept.fits, fun _ _ => settledKey wf, ?_, wf.once, fun key => ?_, ?_⟩
  · exact Finset.disjoint_left.mpr kept.apart
  · rw [Finset.mem_union, wf.kept]
  · rw [wf.ring, List.length_drop, same]
    omega

end Maestro.PendingTracker
