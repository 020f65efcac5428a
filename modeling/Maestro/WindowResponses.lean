import Maestro.PendingLookup
import Maestro.Stepping

/-! The responses of a session's window. A set of ids keeps a request from being answered
twice; an effect clears it when other requests become the newest ones. -/
namespace Maestro.SessionWindow
open Stepping

inductive RequestKind where | permission | userInput
  deriving DecidableEq, Repr

inductive Launch where | start | attach | resume
  deriving DecidableEq, Repr

structure SessionRun where
  sessionId : SessionId
  runId : RunId
  deriving DecidableEq, Repr

inductive Reply where
  | delivered
  | failed (reason : Value)
  deriving Repr

/-- A call of `client.respondPermission` or `client.respondUserInput`; one without a reply is
outstanding. -/
structure Call where
  kind : RequestKind
  sessionId : SessionId
  runId : RunId
  requestId : String
  answer : Value
  reply : Option Reply
  deriving Repr

/-- What the last commit rendered and its callbacks close on. -/
structure Rendered where
  run : Option SessionRun
  launching : Bool
  permission : Option PendingSessionRequest
  input : Option PendingSessionRequest
  deriving Repr

/-- `cleaned` are the dependencies the clean-up effect ran with last, `calls` all calls of the
client so far, oldest first. -/
structure Window where
  run : Option SessionRun
  launching : Bool
  launches : List Launch
  events : List WindowEvent
  rendered : Rendered
  cleaned : Option String × Option String
  resolvedRequestIds : List String
  error : Option String
  calls : List Call
  deriving Repr

inductive Label where
  | batch (incoming : List WindowEvent)
  | commit
  | effect
  | launch (how : Launch)
  | launched (how : Launch) (run : SessionRun)
  | launchFailed (how : Launch)
  | respond (kind : RequestKind) (request : PendingSessionRequest) (answer : Value)
  | reply (index : Nat) (reply : Reply)

def defaultUiEventLimit : Nat := 500

def isRetrySafeDeliveryError (reason : Value) : Bool :=
  match Value.get (objectPayload reason) "details" with
  | some details =>
    match Value.get (objectPayload details) "retry_safe" with
    | some (.bool safe) => safe
    | _ => false
  | none => false

def launchError : Launch → String
  | .start => "Maestro could not start the deterministic fake session."
  | .attach => "Maestro could not attach to the active structured fake session."
  | .resume => "Maestro could not resume this deterministic fake session."

def notDelivered : RequestKind → String
  | .permission => "The permission response was not delivered. Retry it while the request remains active."
  | .userInput => "The user-input response was not delivered. Retry it while the request remains active."

def mayHaveReached : RequestKind → String
  | .permission =>
    "Permission delivery may have reached the CLI. Retry is disabled until the session reports the result."
  | .userInput =>
    "User-input delivery may have reached the CLI. Retry is disabled until the session reports the result."

def Rendered.requests (rendered : Rendered) : List PendingSessionRequest :=
  rendered.permission.toList ++ rendered.input.toList

def Rendered.dependencies (rendered : Rendered) : Option String × Option String :=
  (rendered.input.map (·.requestId), rendered.permission.map (·.requestId))

def Rendered.pendingIds (rendered : Rendered) : List String := rendered.requests.map (·.requestId)

namespace Window

def first : Window := ⟨none, false, [], [], ⟨none, false, none, none⟩, (none, none), [], none, []⟩

variable (w : Window)

def render : Rendered := ⟨w.run, w.launching, pendingPermission w.events, pendingInput w.events⟩

/-- `start` and `attach` empty the history, `resume` needs a run and keeps it. -/
def begin (how : Launch) : Option Window :=
  if w.rendered.launching = true ∨ (how = .resume ∧ w.rendered.run = none) then none
  else some { w with
    launching := true
    launches := how :: w.launches
    events := if how = .resume then w.events else []
    resolvedRequestIds := []
    error := none }

/-- `none` where the callback returns at once. -/
def send (kind : RequestKind) (request : PendingSessionRequest) (answer : Value) : Option Window := do
  let run ← w.rendered.run
  if request.requestId ∈ w.resolvedRequestIds then none
  else some { w with
    resolvedRequestIds := w.resolvedRequestIds ++ [request.requestId]
    error := none
    calls := w.calls ++ [⟨kind, run.sessionId, request.runId, request.requestId, answer, none⟩] }

def settle (index : Nat) (call : Call) (reply : Reply) : Window :=
  let answered := { w with calls := w.calls.set index { call with reply := some reply } }
  match reply with
  | .delivered => answered
  | .failed reason =>
    if isRetrySafeDeliveryError reason then
      { answered with
        resolvedRequestIds := w.resolvedRequestIds.filter (· ≠ call.requestId)
        error := some (notDelivered call.kind) }
    else { answered with error := some (mayHaveReached call.kind) }

end Window

/-- The effects of a commit run before the next one. -/
def step (w : Window) : Label → Option Window
  | .batch incoming => some { w with events := mergeSessionEvents w.events incoming defaultUiEventLimit }
  | .commit => if w.cleaned = w.rendered.dependencies then some { w with rendered := w.render } else none
  | .effect =>
    if w.cleaned = w.rendered.dependencies then none
    else some { w with
      cleaned := w.rendered.dependencies
      resolvedRequestIds := w.resolvedRequestIds.filter (· ∈ w.rendered.pendingIds) }
  | .launch how => w.begin how
  | .launched how run =>
    if how ∈ w.launches then
      some { w with run := some run, launching := false, launches := w.launches.erase how }
    else none
  | .launchFailed how =>
    if how ∈ w.launches then
      some { w with launching := false, launches := w.launches.erase how, error := some (launchError how) }
    else none
  | .respond kind request answer => some ((w.send kind request answer).getD w)
  | .reply index reply => do
    let call ← w.calls[index]?
    if call.reply.isSome then none else some (w.settle index call reply)

def Call.retrySafe (call : Call) : Bool :=
  match call.reply with
  | some (.failed reason) => isRetrySafeDeliveryError reason
  | _ => false

/-- A call of the request has not failed in a way that allows another. -/
def Window.Sent (w : Window) (request : PendingSessionRequest) : Prop :=
  ∃ call ∈ w.calls, call.runId = request.runId ∧ call.requestId = request.requestId ∧ call.retrySafe = false

/-- A request is called for again only after its earlier calls have failed so. -/
def Window.Once (w : Window) : Prop :=
  w.calls.Pairwise fun earlier later =>
    earlier.runId = later.runId → earlier.requestId = later.requestId → earlier.retrySafe = true

/-- The steps on which the set still guards what is shown. -/
def Guarded (w : Window) : Label → Prop
  | .commit => ∀ request ∈ w.render.requests, w.Sent request → request.requestId ∈ w.resolvedRequestIds
  | .launch _ => ∀ request ∈ w.rendered.requests, ¬ w.Sent request
  | .respond _ request _ =>
    (∃ shown ∈ w.rendered.requests, shown.runId = request.runId ∧ shown.requestId = request.requestId) ∨
      ¬ w.Sent request ∨ request.requestId ∈ w.resolvedRequestIds
  | .reply index (.failed reason) => isRetrySafeDeliveryError reason = true →
    ∀ call ∈ w.calls[index]?, ∀ request ∈ w.rendered.requests,
      request.requestId = call.requestId → request.runId ≠ call.runId → ¬ w.Sent request
  | _ => True

instance (w : Window) (request : PendingSessionRequest) : Decidable (w.Sent request) := List.decidableBEx _ _
instance (w : Window) : Decidable w.Once := inferInstanceAs (Decidable (List.Pairwise _ _))

instance (w : Window) : (label : Label) → Decidable (Guarded w label)
  | .commit => inferInstanceAs (Decidable (∀ request ∈ w.render.requests, _ → _))
  | .launch _ => inferInstanceAs (Decidable (∀ request ∈ w.rendered.requests, ¬ _))
  | .respond _ _ _ => inferInstanceAs (Decidable (_ ∨ ¬ _ ∨ _))
  | .reply _ (.failed _) => inferInstanceAs (Decidable (_ = true → ∀ call ∈ w.calls[_]?, _))
  | .reply _ .delivered | .batch _ | .effect | .launched _ _ | .launchFailed _ => .isTrue trivial

section Steps
variable {w w' : Window} {kind : RequestKind} {request : PendingSessionRequest} {answer : Value}

structure Sends (w : Window) (kind : RequestKind) (request : PendingSessionRequest) (answer : Value)
    (w' : Window) (run : SessionRun) : Prop where
  running : w.rendered.run = some run
  fresh : request.requestId ∉ w.resolvedRequestIds
  result : w' = { w with
    resolvedRequestIds := w.resolvedRequestIds ++ [request.requestId]
    error := none
    calls := w.calls ++ [⟨kind, run.sessionId, request.runId, request.requestId, answer, none⟩] }

theorem sendShape (sent : w.send kind request answer = some w') : ∃ run, Sends w kind request answer w' run := by
  obtain ⟨run, running, rest⟩ := Option.bind_eq_some_iff.mp sent
  split at rest
  · cases rest
  · rename_i fresh
    exact ⟨run, running, fresh, (Option.some.inj rest).symm⟩

theorem sendTwice (kind : RequestKind) (answer : Value) (running : w.rendered.run.isSome) (sent : w.Sent request)
    (dropped : request.requestId ∉ w.resolvedRequestIds) :
    ∃ w', step w (.respond kind request answer) = some w' ∧ ¬ w'.Once := by
  obtain ⟨run, running⟩ := Option.isSome_iff_exists.mp running
  refine ⟨_, rfl, ?_⟩
  simp only [Window.send, running, Option.bind_eq_bind, Option.bind_some, if_neg dropped, Option.getD_some]
  intro once
  obtain ⟨call, mem, sameRun, sameId, unsafe'⟩ := sent
  have safe := (List.pairwise_append.mp once).2.2 call mem _ (List.mem_singleton.mpr rfl) sameRun sameId
  rw [unsafe'] at safe
  cases safe

theorem sendOnce {run : SessionRun} (sends : Sends w kind request answer w' run) (once : w.Once)
    (unsent : ¬ w.Sent request) : w'.Once := by
  rw [sends.result]
  refine List.pairwise_append.mpr ⟨once, List.pairwise_singleton _ _, fun earlier mem later single => ?_⟩
  cases List.mem_singleton.mp single
  intro sameRun sameId
  by_contra unsafe'
  exact unsent ⟨earlier, mem, sameRun, sameId, Bool.eq_false_iff.mpr unsafe'⟩

theorem sendSent {run : SessionRun} (sends : Sends w kind request answer w' run) {other : PendingSessionRequest}
    (sent : w'.Sent other) : w.Sent other ∨ other.requestId = request.requestId := by
  rw [sends.result] at sent
  obtain ⟨call, mem, sameRun, sameId, unsafe'⟩ := sent
  rcases List.mem_append.mp mem with old | new
  · exact .inl ⟨call, old, sameRun, sameId, unsafe'⟩
  · cases List.mem_singleton.mp new
    exact .inr sameId.symm

theorem settleCalls (index : Nat) (call : Call) (reply : Reply) :
    (w.settle index call reply).calls = w.calls.set index { call with reply := some reply } := by
  unfold Window.settle
  cases reply with
  | delivered => rfl
  | failed reason =>
    dsimp only
    split <;> rfl

theorem settleRendered (index : Nat) (call : Call) (reply : Reply) :
    (w.settle index call reply).rendered = w.rendered ∧ (w.settle index call reply).run = w.run := by
  unfold Window.settle
  cases reply with
  | delivered => exact ⟨rfl, rfl⟩
  | failed reason =>
    dsimp only
    split <;> exact ⟨rfl, rfl⟩

theorem settleIds (index : Nat) (call : Call) (reply : Reply) {id : String} (held : id ∈ w.resolvedRequestIds) :
    id ∈ (w.settle index call reply).resolvedRequestIds ∨
      id = call.requestId ∧ ∃ reason, reply = .failed reason ∧ isRetrySafeDeliveryError reason = true := by
  unfold Window.settle
  cases reply with
  | delivered => exact .inl held
  | failed reason =>
    dsimp only
    split
    · rename_i safe
      by_cases same : id = call.requestId
      · exact .inr ⟨same, reason, rfl, safe⟩
      · exact .inl (List.mem_filter.mpr ⟨held, by simpa using same⟩)
    · exact .inl held

theorem outstandingUnsafe {call : Call} (outstanding : call.reply = none) : call.retrySafe = false := by
  simp [Call.retrySafe, outstanding]

theorem settledCall {index position : Nat} {call found : Call} {reply : Reply} (here : w.calls[index]? = some call)
    (there : (w.settle index call reply).calls[position]? = some found) :
    (position = index ∧ found = { call with reply := some reply }) ∨
      (position ≠ index ∧ w.calls[position]? = some found) := by
  rw [settleCalls, List.getElem?_set] at there
  split at there
  · rename_i same
    rw [if_pos (same ▸ (List.getElem?_eq_some_iff.mp here).1)] at there
    exact .inl ⟨same.symm, (Option.some.inj there).symm⟩
  · rename_i other
    exact .inr ⟨fun same => other same.symm, there⟩

theorem settleSent {index : Nat} {call : Call} {reply : Reply} (here : w.calls[index]? = some call)
    (outstanding : call.reply = none) (sent : (w.settle index call reply).Sent request) : w.Sent request := by
  obtain ⟨found, mem, sameRun, sameId, unsafe'⟩ := sent
  obtain ⟨position, there⟩ := List.mem_iff_getElem?.mp mem
  rcases settledCall here there with ⟨-, rfl⟩ | ⟨-, there⟩
  · exact ⟨call, List.mem_of_getElem? here, sameRun, sameId, outstandingUnsafe outstanding⟩
  · exact ⟨found, List.mem_of_getElem? there, sameRun, sameId, unsafe'⟩

theorem onceAt (once : w.Once) {i j : Nat} {earlier later : Call} (order : i < j) (first : w.calls[i]? = some earlier)
    (second : w.calls[j]? = some later) (sameRun : earlier.runId = later.runId)
    (sameId : earlier.requestId = later.requestId) : earlier.retrySafe = true := by
  obtain ⟨lessI, rfl⟩ := List.getElem?_eq_some_iff.mp first
  obtain ⟨lessJ, rfl⟩ := List.getElem?_eq_some_iff.mp second
  exact List.pairwise_iff_getElem.mp once i j lessI lessJ order sameRun sameId

theorem settleOnce {index : Nat} {call : Call} {reply : Reply} (here : w.calls[index]? = some call)
    (outstanding : call.reply = none) (once : w.Once) : (w.settle index call reply).Once := by
  refine List.pairwise_iff_getElem.mpr fun i j lessI lessJ order sameRun sameId => ?_
  have first := settledCall here (List.getElem?_eq_getElem lessI)
  have second := settledCall here (List.getElem?_eq_getElem lessJ)
  rcases first with ⟨rfl, earlier⟩ | ⟨-, earlier⟩
  · rcases second with ⟨same, -⟩ | ⟨-, later⟩
    · omega
    · -- An outstanding call has none behind it.
      rw [earlier] at sameRun sameId
      have safe := onceAt once order here later sameRun sameId
      rw [outstandingUnsafe outstanding] at safe
      cases safe
  · rcases second with ⟨rfl, later⟩ | ⟨-, later⟩
    · rw [later] at sameRun sameId
      exact onceAt once order earlier here sameRun sameId
    · exact onceAt once order earlier later sameRun sameId

end Steps

structure Sound (w : Window) : Prop where
  once : w.Once
  kept : ∀ request ∈ w.rendered.requests, w.Sent request → request.requestId ∈ w.resolvedRequestIds
  called : w.calls ≠ [] → w.rendered.run.isSome = true
  started : w.rendered.run.isSome = true → w.run.isSome = true

section Runs
variable {w w' : Window}

theorem soundFirst : Sound Window.first :=
  ⟨List.Pairwise.nil, fun _ mem => by simp [Window.first, Rendered.requests] at mem, fun called => absurd rfl called,
    fun started => by simp [Window.first] at started⟩

theorem soundCommit (sound : Sound w) (guarded : Guarded w .commit) : Sound { w with rendered := w.render } where
  once := sound.once
  kept := guarded
  called := fun called => sound.started (sound.called called)
  started := id

theorem soundEffect (sound : Sound w) : Sound { w with
    cleaned := w.rendered.dependencies
    resolvedRequestIds := w.resolvedRequestIds.filter (· ∈ w.rendered.pendingIds) } where
  once := sound.once
  kept := fun request mem sent =>
    List.mem_filter.mpr ⟨sound.kept request mem sent, decide_eq_true (List.mem_map_of_mem mem)⟩
  called := sound.called
  started := sound.started

theorem soundBegin {how : Launch} (sound : Sound w) (guarded : Guarded w (.launch how))
    (begun : w.begin how = some w') : Sound w' := by
  unfold Window.begin at begun
  split at begun
  · cases begun
  · cases Option.some.inj begun
    exact ⟨sound.once, fun request mem sent => absurd sent (guarded request mem), sound.called, sound.started⟩

theorem soundSend {kind : RequestKind} {request : PendingSessionRequest} {answer : Value} {run : SessionRun}
    (sound : Sound w) (guarded : Guarded w (.respond kind request answer))
    (sends : Sends w kind request answer w' run) : Sound w' := by
  have unsent : ¬ w.Sent request := by
    intro sent
    rcases guarded with ⟨shown, mem, sameRun, sameId⟩ | unsent | held
    · have sent' : w.Sent shown := by
        obtain ⟨call, called, callRun, callId, unsafe'⟩ := sent
        exact ⟨call, called, callRun.trans sameRun.symm, callId.trans sameId.symm, unsafe'⟩
      exact sends.fresh (sameId ▸ sound.kept shown mem sent')
    · exact unsent sent
    · exact sends.fresh held
  have once := sendOnce sends sound.once unsent
  have kept (other : PendingSessionRequest) (mem : other ∈ w.rendered.requests) (sent : w'.Sent other) :
      other.requestId ∈ w'.resolvedRequestIds := by
    have grown : w'.resolvedRequestIds = w.resolvedRequestIds ++ [request.requestId] := by rw [sends.result]
    rw [grown]
    rcases sendSent sends sent with old | same
    · exact List.mem_append_left _ (sound.kept other mem old)
    · exact List.mem_append_right _ (List.mem_singleton.mpr same)
  rw [sends.result] at once kept ⊢
  exact ⟨once, kept, fun _ => by rw [sends.running]; rfl, sound.started⟩

theorem soundSettle {index : Nat} {call : Call} {reply : Reply} (sound : Sound w)
    (guarded : Guarded w (.reply index reply)) (here : w.calls[index]? = some call) (outstanding : call.reply = none) :
    Sound (w.settle index call reply) := by
  have ⟨rendered, run⟩ := settleRendered (w := w) index call reply
  refine ⟨settleOnce here outstanding sound.once, fun request mem sent => ?_, fun _ => ?_, ?_⟩
  · rw [rendered] at mem
    have sent' := settleSent here outstanding sent
    rcases settleIds index call reply (sound.kept request mem sent') with held | ⟨sameId, reason, rfl, safe⟩
    · exact held
    · -- The released id is the failed call's own, and no other call of its request is left.
      have sameRun : request.runId = call.runId := by
        by_contra other
        exact guarded safe call here request mem sameId other sent'
      obtain ⟨found, mem', foundRun, foundId, unsafe'⟩ := sent
      obtain ⟨position, there⟩ := List.mem_iff_getElem?.mp mem'
      rcases settledCall here there with ⟨-, rfl⟩ | ⟨other, there⟩
      · simp [Call.retrySafe, safe] at unsafe'
      · rcases Nat.lt_or_gt_of_ne other with before | after
        · have safe' := onceAt sound.once before there here (foundRun.trans sameRun) (foundId.trans sameId)
          rw [unsafe'] at safe'
          cases safe'
        · have safe' := onceAt sound.once after here there (foundRun.trans sameRun).symm (foundId.trans sameId).symm
          rw [outstandingUnsafe outstanding] at safe'
          cases safe'
  · rw [rendered]
    refine sound.called fun empty => ?_
    simp [empty] at here
  · rw [rendered, run]
    exact sound.started

theorem soundStep {label : Label} (sound : Sound w) (guarded : Guarded w label) (steps : step w label = some w') :
    Sound w' := by
  cases label with
  | batch incoming =>
    simp only [step, Option.some.injEq] at steps
    generalize mergeSessionEvents w.events incoming defaultUiEventLimit = events at steps
    subst steps
    exact ⟨sound.once, sound.kept, sound.called, sound.started⟩
  | commit =>
    simp only [step] at steps
    split at steps
    · cases Option.some.inj steps
      exact soundCommit sound guarded
    · cases steps
  | effect =>
    simp only [step] at steps
    split at steps
    · cases steps
    · cases Option.some.inj steps
      exact soundEffect sound
  | launch how => exact soundBegin sound guarded steps
  | launched how run =>
    simp only [step] at steps
    split at steps
    · cases Option.some.inj steps
      exact ⟨sound.once, sound.kept, sound.called, fun _ => rfl⟩
    · cases steps
  | launchFailed how =>
    simp only [step] at steps
    split at steps
    · cases Option.some.inj steps
      exact ⟨sound.once, sound.kept, sound.called, sound.started⟩
    · cases steps
  | respond kind request answer =>
    simp only [step, Option.some.injEq] at steps
    subst steps
    cases sent : w.send kind request answer with
    | none => exact sound
    | some next =>
      obtain ⟨run, sends⟩ := sendShape sent
      exact soundSend sound guarded sends
  | reply index reply =>
    obtain ⟨call, here, rest⟩ := Option.bind_eq_some_iff.mp steps
    split at rest
    · cases rest
    · rename_i outstanding
      cases Option.some.inj rest
      exact soundSettle sound guarded here (by simpa using outstanding)

theorem soundRun (reached : Reach step Guarded Window.first w) : Sound w :=
  reachInvariant reached soundFirst soundStep

theorem sentCalled {request : PendingSessionRequest} (sent : w.Sent request) : w.calls ≠ [] := by
  obtain ⟨call, mem, -⟩ := sent
  exact List.ne_nil_of_mem mem

def Repeats (w : Window) : Prop :=
  ∃ w', (w' = w ∨ ∃ kind request answer, step w (.respond kind request answer) = some w') ∧ ¬ w'.Once

theorem repeatsShown {request : PendingSessionRequest} (running : w.rendered.run.isSome = true) (sent : w.Sent request)
    (dropped : request.requestId ∉ w.resolvedRequestIds) : Repeats w := by
  obtain ⟨w', steps, twice⟩ := sendTwice .permission .null running sent dropped
  exact ⟨w', .inr ⟨_, _, _, steps⟩, twice⟩

theorem settleElsewhere {index : Nat} {call : Call} {request : PendingSessionRequest} (reply : Reply)
    (here : w.calls[index]? = some call) (other : request.runId ≠ call.runId) (sent : w.Sent request) :
    (w.settle index call reply).Sent request := by
  obtain ⟨found, mem, sameRun, sameId, unsafe'⟩ := sent
  obtain ⟨position, there⟩ := List.mem_iff_getElem?.mp mem
  refine ⟨found, List.mem_of_getElem? (i := position) ?_, sameRun, sameId, unsafe'⟩
  rw [settleCalls, List.getElem?_set]
  split
  · rename_i same
    rw [same] at here
    cases here.symm.trans there
    exact absurd sameRun.symm other
  · exact there

theorem unguardedRepeats {label : Label} (sound : Sound w) (steps : step w label = some w')
    (unguarded : ¬ Guarded w label) : Repeats w' := by
  cases label with
  | batch incoming => exact absurd trivial unguarded
  | effect => exact absurd trivial unguarded
  | launched how run => exact absurd trivial unguarded
  | launchFailed how => exact absurd trivial unguarded
  | commit =>
    simp only [step] at steps
    split at steps
    · cases Option.some.inj steps
      simp only [Guarded, not_forall] at unguarded
      obtain ⟨request, -, sent, dropped⟩ := unguarded
      exact repeatsShown (sound.started (sound.called (sentCalled sent))) sent dropped
    · cases steps
  | launch how =>
    simp only [Guarded, not_forall, not_not] at unguarded
    obtain ⟨request, -, sent⟩ := unguarded
    have running := sound.called (sentCalled sent)
    simp only [step, Window.begin] at steps
    split at steps
    · cases steps
    · cases Option.some.inj steps
      exact repeatsShown running sent List.not_mem_nil
  | respond kind request answer =>
    simp only [Guarded, not_or, not_not] at unguarded
    obtain ⟨-, sent, dropped⟩ := unguarded
    obtain ⟨next, steps', twice⟩ :=
      sendTwice kind answer (sound.called (sentCalled sent)) sent dropped
    cases steps.symm.trans steps'
    exact ⟨w', .inl rfl, twice⟩
  | reply index reply =>
    cases reply with
    | delivered => exact absurd trivial unguarded
    | failed reason =>
      simp only [Guarded, not_forall, not_not] at unguarded
      obtain ⟨safe, call, here, request, -, sameId, other, sent⟩ := unguarded
      obtain ⟨call', here', rest⟩ := Option.bind_eq_some_iff.mp steps
      cases here.symm.trans here'
      split at rest
      · cases rest
      · cases Option.some.inj rest
        refine repeatsShown ?_ (settleElsewhere _ here other sent) ?_
        · rw [(settleRendered index call _).1]
          exact sound.called (sentCalled sent)
        · simp [Window.settle, safe, sameId]

/-- In a run of guarded steps no request is called for twice, and a first step that is not
guarded lets the next response be a second one. -/
theorem respondsOnce (reached : Reach step Guarded Window.first w) :
    w.Once ∧ ∀ label w', step w label = some w' → ¬ Guarded w label → Repeats w' :=
  ⟨(soundRun reached).once, fun _ _ steps unguarded => unguardedRepeats (soundRun reached) steps unguarded⟩

end Runs

def permissionEvent (kind : String) (sequence : Nat) (requestId : String) : WindowEvent :=
  ⟨⟨1, some 1, sequence, .cli, .user kind (.object [("request_id", .string requestId)])⟩, requestId⟩

def allow (requestId : String) : Label :=
  .respond .permission ⟨requestId, [("request_id", .string requestId)], requestId, 1⟩ (.string "allow")

/-- A session with one request, which is answered. -/
def answered : List Label :=
  [.launch .start, .launched .start ⟨1, 1⟩, .commit, .batch [permissionEvent "permission_request" 1 "p1"], .commit,
    .effect, allow "p1"]

/-- Its response has failed before it reached anyone, and is sent again. -/
def retried : List Label :=
  answered ++ [.reply 0 (.failed (.object [("details", .object [("retry_safe", .bool true)])])), allow "p1"]

theorem respondsOnceRetried : ∃ w, run step Guarded Window.first retried = some w ∧ w.calls.length = 2 ∧ w.Once := by
  have ran : (run step Guarded Window.first retried).any (fun w => w.calls.length = 2) = true := by decide
  obtain ⟨w, reached, twice⟩ := (Option.any_eq_true _ _).mp ran
  exact ⟨w, reached, of_decide_eq_true twice, (respondsOnce (reachRun .start reached)).1⟩

/-- While its call is outstanding a second request is the newest and is resolved; then the first
is the newest again, and may be answered again. -/
def newestAgain : List Label :=
  answered ++ [.batch [permissionEvent "permission_request" 2 "p2"], .commit, .effect,
    .batch [permissionEvent "permission_result" 3 "p2"], .commit, .effect, allow "p1"]

theorem newestAgainTwice : ∃ w, run step Any Window.first newestAgain = some w ∧ w.calls.length = 2 ∧ ¬ w.Once := by
  have ran : (run step Any Window.first newestAgain).any (fun w => w.calls.length = 2 ∧ ¬ w.Once) = true := by decide
  obtain ⟨w, reached, twice⟩ := (Option.any_eq_true _ _).mp ran
  exact ⟨w, reached, of_decide_eq_true twice⟩

end Maestro.SessionWindow
