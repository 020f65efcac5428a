import Maestro.Domain
import Mathlib.Data.List.Sort

/-! The bounded history of one session in its window, and the newest request in it that waits
for a response. -/
namespace Maestro.SessionWindow

structure WindowEvent extends EventEnvelope where
  eventId : String
  deriving Repr

structure PendingSessionRequest where
  eventId : String
  payload : List (String × Value)
  requestId : String
  runId : RunId
  deriving Repr

/-- `Map.set`: a known sequence keeps its place. -/
def setSequence (bySequence : List WindowEvent) (event : WindowEvent) : List WindowEvent :=
  if bySequence.any (·.sequence == event.sequence) then
    bySequence.map fun known => if known.sequence = event.sequence then event else known
  else bySequence ++ [event]

def NoLater (a b : WindowEvent) : Prop := a.sequence ≤ b.sequence
instance : DecidableRel NoLater := fun _ _ => inferInstanceAs (Decidable (_ ≤ _))

def mergeSessionEvents (current incoming : List WindowEvent) (maximumEvents : Nat) : List WindowEvent :=
  if maximumEvents = 0 then []
  else
    let bySequence := (current ++ incoming).foldl setSequence []
    let ordered := bySequence.insertionSort NoLater
    ordered.drop (ordered.length - maximumEvents)

def objectPayload (value : Value) : List (String × Value) := value.asObject.getD []

def payloadString (value : Value) (key : String) : Option String :=
  (Value.get (objectPayload value) key).bind Value.asStr

def requestIdOf (envelope : WindowEvent) : Option String :=
  (payloadString envelope.event.payload "request_id").filter (· ≠ "")

def resolves (responseKinds : List String) (envelope : WindowEvent) : Bool :=
  (responseKinds ++ ["request_expired"]).contains envelope.event.kind

def resolvedIds (events : List WindowEvent) (responseKinds : List String) : List String :=
  (events.filter (resolves responseKinds)).filterMap requestIdOf

def requestOf (requestKind : String) (envelope : WindowEvent) : Option PendingSessionRequest :=
  if envelope.event.kind ≠ requestKind then none
  else do
    let runId ← envelope.runId
    let requestId ← requestIdOf envelope
    return { eventId := envelope.eventId, payload := objectPayload envelope.event.payload, requestId, runId }

def asked (requestKind : String) (events : List WindowEvent) : List PendingSessionRequest :=
  events.filterMap (requestOf requestKind)

def findPendingRequest (events : List WindowEvent) (requestKind : String) (responseKinds : List String) :
    Option PendingSessionRequest :=
  let resolved := resolvedIds events responseKinds
  (asked requestKind events).reverse.find? fun request => !resolved.contains request.requestId

def permissionResponses : List String := ["gui_permission_response", "permission_result"]
def userInputResponses : List String := ["gui_user_input_response", "user_input_result"]

def pendingPermission (events : List WindowEvent) : Option PendingSessionRequest :=
  findPendingRequest events "permission_request" permissionResponses

def pendingInput (events : List WindowEvent) : Option PendingSessionRequest :=
  findPendingRequest events "user_input_request" userInputResponses

section History
variable {events incoming : List WindowEvent} {limit : Nat}

instance : Std.Total NoLater := ⟨fun a b => Nat.le_total a.sequence b.sequence⟩
instance : IsTrans WindowEvent NoLater := ⟨fun _ _ _ => Nat.le_trans⟩

theorem setNodup {bySequence : List WindowEvent} (event : WindowEvent)
    (apart : (bySequence.map (·.sequence)).Nodup) : ((setSequence bySequence event).map (·.sequence)).Nodup := by
  unfold setSequence
  split
  · have same : (bySequence.map fun known => if known.sequence = event.sequence then event else known).map
        (·.sequence) = bySequence.map (·.sequence) := by
      rw [List.map_map]
      refine List.map_congr_left fun known _ => ?_
      simp only [Function.comp]
      split
      · rename_i equal
        exact equal.symm
      · rfl
    rwa [same]
  · rename_i fresh
    rw [List.map_append, List.map_singleton]
    refine apart.append (List.nodup_singleton _) ?_
    simp only [List.any_eq_true, beq_iff_eq, not_exists, not_and] at fresh
    simpa using fun known mem equal => fresh known mem equal

theorem foldNodup (incoming : List WindowEvent) {bySequence : List WindowEvent}
    (apart : (bySequence.map (·.sequence)).Nodup) :
    ((incoming.foldl setSequence bySequence).map (·.sequence)).Nodup := by
  induction incoming generalizing bySequence with
  | nil => exact apart
  | cons event rest ih => exact ih (setNodup event apart)

theorem mergeOrdered : (mergeSessionEvents events incoming limit).Pairwise (·.sequence < ·.sequence) ∧
    (mergeSessionEvents events incoming limit).length ≤ limit := by
  unfold mergeSessionEvents
  split
  · exact ⟨List.Pairwise.nil, Nat.zero_le _⟩
  · have apart : (((events ++ incoming).foldl setSequence []).map (·.sequence)).Nodup :=
      foldNodup (events ++ incoming) List.nodup_nil
    generalize (events ++ incoming).foldl setSequence [] = bySequence at apart
    have sorted := List.pairwise_insertionSort NoLater bySequence
    have distinct := ((List.perm_insertionSort NoLater bySequence).map (·.sequence)).nodup_iff.mpr apart
    have strict : (bySequence.insertionSort NoLater).Pairwise (·.sequence < ·.sequence) := by
      have both := sorted.and (List.pairwise_map.mp distinct)
      exact both.imp fun ⟨noLater, other⟩ => Nat.lt_of_le_of_ne noLater other
    refine ⟨strict.sublist (List.drop_sublist _ _), ?_⟩
    rw [List.length_drop]
    omega

end History

/-- The last member with the property, if there is one. -/
inductive Last {α : Type*} (P : α → Prop) : List α → Option α → Prop
  | none {list : List α} (all : ∀ a ∈ list, ¬ P a) : Last P list none
  | some {before after : List α} {a : α} (here : P a) (later : ∀ b ∈ after, ¬ P b) :
      Last P (before ++ a :: after) (some a)

theorem lastFind {α : Type*} {P : α → Prop} [DecidablePred P] {list : List α} {found : Option α} :
    Last P list found ↔ list.reverse.find? (fun a => P a) = found := by
  constructor
  · intro last
    cases last with
    | none all => simpa using all
    | @some before after a here later =>
      refine List.find?_eq_some_iff_append.mpr
        ⟨by simpa using here, after.reverse, before.reverse, by simp, fun b mem => ?_⟩
      simpa using later b (List.mem_reverse.mp mem)
  · intro found'
    cases found with
    | none => exact .none (by simpa using found')
    | some a =>
      obtain ⟨here, after, before, shape, later⟩ := List.find?_eq_some_iff_append.mp found'
      have shape' : list = before.reverse ++ a :: after.reverse := by
        rw [← List.reverse_reverse list, shape]
        simp
      rw [shape']
      exact .some (by simpa using here) fun b mem => by simpa using later b (List.mem_reverse.mp mem)

theorem lastSome {α : Type*} {P : α → Prop} {list : List α} {a : α} (last : Last P list (some a)) : P a := by
  cases last with
  | some here _ => exact here

theorem lastNarrow {α : Type*} {P Q : α → Prop} (narrower : ∀ a, Q a → P a) {list : List α} {found : Option α}
    (last : Last P list found) (keeps : ∀ a, found = some a → Q a) : Last Q list found := by
  cases last with
  | none all => exact .none fun a mem here => all a mem (narrower a here)
  | some here later => exact .some (keeps _ rfl) fun b mem here => later b mem (narrower b here)

section Lookup
variable {responseKinds : List String} {events : List WindowEvent} {request : PendingSessionRequest}

/-- A response, a result or an expiry of its own run names the request. -/
def Answered (responseKinds : List String) (events : List WindowEvent) (request : PendingSessionRequest) : Prop :=
  ∃ envelope ∈ events, resolves responseKinds envelope = true ∧ requestIdOf envelope = some request.requestId ∧
    envelope.runId = some request.runId

def AnsweredElsewhere (responseKinds : List String) (events : List WindowEvent)
    (request : PendingSessionRequest) : Prop :=
  ∃ envelope ∈ events, resolves responseKinds envelope = true ∧ requestIdOf envelope = some request.requestId ∧
    envelope.runId ≠ some request.runId

instance : Decidable (Answered responseKinds events request) := List.decidableBEx _ _

theorem resolvedMember : request.requestId ∈ resolvedIds events responseKinds ↔
    Answered responseKinds events request ∨ AnsweredElsewhere responseKinds events request := by
  simp only [resolvedIds, List.mem_filterMap, List.mem_filter]
  constructor
  · rintro ⟨envelope, ⟨mem, kind⟩, names⟩
    by_cases own : envelope.runId = some request.runId
    · exact .inl ⟨envelope, mem, kind, names, own⟩
    · exact .inr ⟨envelope, mem, kind, names, own⟩
  · rintro (⟨envelope, mem, kind, names, -⟩ | ⟨envelope, mem, kind, names, -⟩)
    all_goals exact ⟨envelope, ⟨mem, kind⟩, names⟩

theorem unresolvedUnanswered (unresolved : request.requestId ∉ resolvedIds events responseKinds) :
    ¬ Answered responseKinds events request :=
  fun answered => unresolved (resolvedMember.mpr (.inl answered))

theorem findLast (events : List WindowEvent) (requestKind : String) (responseKinds : List String) :
    Last (fun request => request.requestId ∉ resolvedIds events responseKinds)
    (asked requestKind events) (findPendingRequest events requestKind responseKinds) := by
  rw [lastFind]
  simp [findPendingRequest]

/-- The lookup finds the newest request no resolution of its run names exactly when no
resolution of another run names it. -/
theorem findNewest (events : List WindowEvent) (requestKind : String) (responseKinds : List String) :
    Last (fun request => ¬ Answered responseKinds events request) (asked requestKind events)
        (findPendingRequest events requestKind responseKinds) ↔
      ∀ request, Last (fun request => ¬ Answered responseKinds events request) (asked requestKind events) (some request) →
        ¬ AnsweredElsewhere responseKinds events request := by
  have found := findLast events requestKind responseKinds
  constructor
  · intro right request newest elsewhere
    rw [(lastFind.mp right).symm.trans (lastFind.mp newest)] at found
    exact lastSome found (resolvedMember.mpr (.inr elsewhere))
  · intro plain
    have newest := lastFind.mpr (Eq.refl
      ((asked requestKind events).reverse.find? fun request => ¬ Answered responseKinds events request))
    have narrowed := lastNarrow (fun _ => unresolvedUnanswered) newest fun request same => by
      rw [same] at newest
      intro resolved
      rcases resolvedMember.mp resolved with answered | elsewhere
      · exact lastSome newest answered
      · exact plain request newest elsewhere
    rw [(lastFind.mp found).symm.trans (lastFind.mp narrowed)]
    exact newest

theorem findUnanswered {requestKind : String} (found : findPendingRequest events requestKind responseKinds = some request) :
    ¬ Answered responseKinds events request := by
  have last := findLast events requestKind responseKinds
  rw [found] at last
  intro answered
  exact lastSome last (resolvedMember.mpr (.inl answered))

/-- An earlier run asked under an id and was answered, and a later run asks under it again. -/
def reusedId : List WindowEvent :=
  let payload := Value.object [("request_id", .string "p1")]
  [⟨⟨1, some 1, 1, .cli, .user "permission_request" payload⟩, "e1"⟩,
    ⟨⟨1, some 1, 2, .cli, .user "permission_result" payload⟩, "e2"⟩,
    ⟨⟨1, some 2, 3, .cli, .user "permission_request" payload⟩, "e3"⟩]

/-- The request of the later run waits, and is not found. -/
theorem reusedIdHidden : findPendingRequest reusedId "permission_request" permissionResponses = none ∧
    ∃ request ∈ asked "permission_request" reusedId,
      request.runId = 2 ∧ ¬ Answered permissionResponses reusedId request := by
  have missed : (findPendingRequest reusedId "permission_request" permissionResponses).isNone = true := by decide
  exact ⟨Option.isNone_iff_eq_none.mp missed, by decide⟩

end Lookup
end Maestro.SessionWindow
