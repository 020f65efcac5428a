import Mathlib.Data.List.Nodup
import Maestro.TransportReplay

/-! The shell terminal of a project window: which transport it polls and shows, when the answers to
its starts and attachments come back in any order, or behind its end. -/
namespace Maestro.ShellTerminal
open Stepping Terminal
open TransportReplay (DaemonTerminalTransport Label)

structure TerminalOpened where
  terminalId : TerminalId
  runId : Nat
  processId : Nat
  canonicalCwd : String
  state : TerminalState
  deriving DecidableEq

inductive ShellTerminalPhase where
  | idle
  | starting
  | attaching
  | running
  | stopping
  | exited
  | failed
  | closed
  | disconnected
  deriving DecidableEq

/-- Transports are named by their place in the order in which they were made. -/
structure ShellTerminalState where
  canonicalCwd : Option String
  droppedThroughSequence : Option Nat
  error : Option String
  exitCode : Option Int
  overflowed : Bool
  phase : ShellTerminalPhase
  processId : Option Nat
  replayTruncated : Bool
  runId : Option Nat
  terminalId : Option TerminalId
  transport : Option Nat
  deriving DecidableEq

def idleState : ShellTerminalState := ⟨none, none, none, none, false, .idle, none, false, none, none, none⟩

def phaseOf : ConnectionState → ShellTerminalPhase
  | .terminal .running => .running
  | .terminal .closing => .stopping
  | .terminal .exited => .exited
  | .terminal .failed => .failed
  | .terminal .closed => .closed
  | .disconnected => .disconnected

/-- A transport, with the operation whose answer it was made for. -/
structure Opened where
  operation : Nat
  opened : TerminalOpened
  transport : DaemonTerminalTransport

def Opened.shown (o : Opened) : ConnectionSnapshot × Bool := (o.transport.snapshot, o.transport.replay.truncated)

/-- Every field is given by the identity or the snapshot. -/
def statusToState (index : Nat) (o : Opened) : ShellTerminalState where
  canonicalCwd := some o.opened.canonicalCwd
  droppedThroughSequence := o.shown.1.droppedThroughSequence
  error := o.shown.1.error
  exitCode := o.shown.1.exit.bind (·.code)
  overflowed := o.shown.1.overflowed
  phase := phaseOf o.shown.1.state
  processId := some o.opened.processId
  replayTruncated := o.shown.2
  runId := some o.opened.runId
  terminalId := some o.opened.terminalId
  transport := some index

def stateText : TerminalState → String
  | .running => "running"
  | .closing => "closing"
  | .exited => "exited"
  | .failed => "failed"
  | .closed => "closed"

def unexpectedState (opened : TerminalOpened) : ShellTerminalState :=
  { idleState with
    canonicalCwd := some opened.canonicalCwd
    error := some ("The shell opened in an unexpected " ++ stateText opened.state ++ " state.")
    phase := match opened.state with
      | .exited => .exited
      | .closed => .closed
      | .failed | .running | .closing => .failed
    processId := some opened.processId
    runId := some opened.runId
    terminalId := some opened.terminalId }

/-- `pending` are the operations whose answer is awaited. -/
structure Hook where
  mounted : Bool
  operation : Nat
  transports : List Opened
  transportRef : Option Nat
  subscribed : Option Nat
  state : ShellTerminalState
  pending : List Nat

inductive Event where
  | start
  | attach
  | answer (index : Nat) (result : Except String TerminalOpened)
  | stop
  | transport (index : Nat) (label : Label)
  | unmount

namespace Hook

def opened : Hook := ⟨true, 0, [], none, none, idleState, []⟩

def change (h : Hook) (index : Nat) (f : DaemonTerminalTransport → DaemonTerminalTransport) : List Opened :=
  h.transports.modify index fun o => { o with transport := f o.transport }

def detachCurrent (h : Hook) : Hook :=
  { h with
    transports := match h.transportRef with
      | some index => h.change index (·.detach)
      | none => h.transports
    subscribed := none
    transportRef := none }

/-- The next operation, which leaves the transport of the last one. -/
def operate (h : Hook) (phase : ShellTerminalPhase) : Hook :=
  { h.detachCurrent with operation := h.operation + 1, state := { idleState with phase } }

def await (h : Hook) : Hook := { h with pending := h.pending ++ [h.operation] }

def start (h : Hook) : Hook := if h.mounted then (h.operate .starting).await else h.operate .starting

def attach (h : Hook) : Hook := (h.operate .attaching).await

def unmount (h : Hook) : Hook := { h.detachCurrent with mounted := false, operation := h.operation + 1 }

/-- The listener of the status is called where the snapshot has changed. -/
def publish (h : Hook) (index : Nat) (before after : Opened) : Hook :=
  if after.shown ≠ before.shown ∧ h.subscribed = some index ∧ h.mounted ∧ h.transportRef = some index then
    { h with state := statusToState index after }
  else h

def move (h : Hook) (index : Nat) (o : Opened) (transport : DaemonTerminalTransport) : Hook :=
  { h with transports := h.transports.set index { o with transport } }.publish index o { o with transport }

def stale (h : Hook) (operation : Nat) : Bool := !h.mounted || h.operation ≠ operation

/-- A new transport is subscribed, which shows its first snapshot, and starts to poll. -/
def show' (h : Hook) (operation : Nat) (opened : TerminalOpened) : Hook :=
  let index := h.transports.length
  let first : Opened :=
    ⟨operation, opened, .opened opened.terminalId opened.state (64 * 1024) (256 * 1024) (1024 * 1024)⟩
  { h with
    transports := h.transports ++ [{ first with transport := first.transport.startPolling }]
    transportRef := some index
    subscribed := some index
    state := statusToState index first }

def activateOpened (h : Hook) (operation : Nat) (opened : TerminalOpened) : Hook :=
  if h.stale operation then h
  else if opened.state ≠ .running then { h with state := unexpectedState opened }
  else h.show' operation opened

def answered (h : Hook) (operation : Nat) : Except String TerminalOpened → Hook
  | .ok opened => h.activateOpened operation opened
  | .error reason =>
    if h.stale operation then h else { h with state := { idleState with error := some reason, phase := .failed } }

def stop (h : Hook) : Hook :=
  match h.transportRef with
  | none => h
  | some index =>
    match h.transports[index]? with
    | none => h
    | some o => { h with state := { h.state with phase := .stopping } }.move index o o.transport.close

end Hook

/-- The steps of a transport that the hook leaves to its timers, its answers and its listeners. -/
def outside : Label → Bool
  | .startPolling | .detach | .close => false
  | _ => true

def step (h : Hook) : Event → Option Hook
  | .start => some h.start
  | .attach => some h.attach
  | .answer index result =>
    h.pending[index]?.map fun operation => { h with pending := h.pending.eraseIdx index }.answered operation result
  | .stop => some h.stop
  | .transport index label =>
    if outside label then
      h.transports[index]?.bind fun o => (TransportReplay.step o.transport label).map fun t => h.move index o t
    else none
  | .unmount => if h.mounted then some h.unmount else none

abbrev Reached (h : Hook) : Prop := Reach step Any .opened h

section Left
variable {t t' : DaemonTerminalTransport} {label : Label}

structure Left (t : DaemonTerminalTransport) : Prop where
  detached : t.detached = true
  unarmed : t.pollTimer = false

/-- No read is begun and nothing is delivered to the listeners there were. -/
structure Silent (t t' : DaemonTerminalTransport) : Prop where
  reads : t'.reads.Sublist t.reads
  delivered : t'.delivered = t.delivered

theorem silentRefl (t : DaemonTerminalTransport) : Silent t t := ⟨.refl _, rfl⟩

theorem scheduleLeft (left : Left t) : t.schedulePoll = t := by
  unfold DaemonTerminalTransport.schedulePoll
  rw [left.detached, Bool.true_or, Bool.true_or, if_pos rfl]

theorem disconnectLeft (left : Left t) (reason : String) :
    Left (t.disconnect reason) ∧ Silent t (t.disconnect reason) :=
  ⟨⟨left.detached, rfl⟩, .refl _, rfl⟩

theorem leftStep (left : Left t) (out : outside label = true) (steps : TransportReplay.step t label = some t') :
    Left t' ∧ Silent t t' := by
  obtain ⟨detached, unarmed⟩ := left
  cases label with
  | startPolling | detach | close => cases out
  | fire =>
    simp only [TransportReplay.step] at steps
    split at steps
    · cases Option.some.inj steps
      simp only [DaemonTerminalTransport.poll, detached, Bool.true_or, if_true]
      exact ⟨⟨rfl, rfl⟩, .refl _, rfl⟩
    · cases steps
  | answer index waits result =>
    obtain ⟨cursor, -, rfl⟩ := Option.map_eq_some_iff.mp steps
    simp only [DaemonTerminalTransport.receive, detached, Bool.true_or, if_true]
    exact ⟨⟨rfl, unarmed⟩, List.eraseIdx_sublist _ _, rfl⟩
  | rejected index reason =>
    obtain ⟨cursor, -, rfl⟩ := Option.map_eq_some_iff.mp steps
    simp only [DaemonTerminalTransport.failed, detached, Bool.not_true, Bool.false_and, Bool.false_eq_true, if_false]
    exact ⟨⟨rfl, unarmed⟩, List.eraseIdx_sublist _ _, rfl⟩
  | subscribe listener waits =>
    cases Option.some.inj steps
    obtain ⟨acknowledgements, same⟩ := TransportReplay.subscribeShape listener waits t
    rw [same]
    exact ⟨⟨detached, unarmed⟩, .refl _, rfl⟩
  | unsubscribe listener =>
    cases Option.some.inj steps
    exact ⟨⟨detached, unarmed⟩, .refl _, rfl⟩
  | settle index =>
    obtain ⟨bytes, -, rfl⟩ := Option.map_eq_some_iff.mp steps
    unfold DaemonTerminalTransport.acknowledge
    dsimp only
    have drained : Left { t with
        pendingRendererBytes := t.pendingRendererBytes - bytes
        outstanding := t.outstanding.eraseIdx index } := ⟨detached, unarmed⟩
    split
    · rw [scheduleLeft drained]
      exact ⟨drained, .refl _, rfl⟩
    · exact ⟨drained, .refl _, rfl⟩
  | closed status =>
    simp only [TransportReplay.step] at steps
    split at steps
    · cases Option.some.inj steps
      exact ⟨⟨detached, unarmed⟩, .refl _, rfl⟩
    · cases steps
  | closeFailed reason =>
    simp only [TransportReplay.step] at steps
    split at steps
    · cases Option.some.inj steps
      exact ⟨⟨detached, rfl⟩, .refl _, rfl⟩
    · cases steps
  | interactionFailed reason =>
    cases Option.some.inj steps
    split
    · exact disconnectLeft ⟨detached, unarmed⟩ reason
    · exact ⟨⟨detached, unarmed⟩, silentRefl t⟩

theorem attachedStep (out : outside label = true) (steps : TransportReplay.step t label = some t') :
    t'.detached = t.detached := by
  cases label with
  | startPolling | detach | close => cases out
  | answer index waits result =>
    rcases TransportReplay.answerDelivers steps with kept | ⟨_, later, delivers⟩
    · exact kept.detached
    · exact delivers.detached
  | subscribe listener waits =>
    cases Option.some.inj steps
    obtain ⟨acknowledgements, same⟩ := TransportReplay.subscribeShape listener waits t
    rw [same]
  | unsubscribe listener =>
    cases Option.some.inj steps
    rfl
  | fire | rejected _ _ | settle _ | closed _ | closeFailed _ | interactionFailed _ =>
    exact (TransportReplay.keptStep rfl steps).detached

end Left

section Hooks
variable {h h' : Hook} {index : Nat} {o : Opened} {t : DaemonTerminalTransport}

structure Held (h : Hook) : Prop where
  current : ∀ {i}, h.transportRef = some i → ∃ o, h.transports[i]? = some o ∧ o.operation = h.operation ∧
    o.transport.detached = false
  others : ∀ {i} {o : Opened}, h.transports[i]? = some o → h.transportRef ≠ some i → Left o.transport
  subscribed : h.subscribed = h.transportRef
  gone : h.mounted = false → h.transportRef = none
  asked : ∀ operation ∈ h.pending, operation ≤ h.operation
  once : h.pending.Nodup

/-- The state is that of the transport; without one it waits while the answer to the last operation does. -/
structure Shown (h : Hook) : Prop where
  transport : h.mounted = true → h.state.transport = h.transportRef
  status : ∀ {i} {o : Opened}, h.transportRef = some i → h.transports[i]? = some o → h.state = statusToState i o
  waits : h.mounted = true → (h.state.phase = .starting ∨ h.state.phase = .attaching ↔ h.operation ∈ h.pending)

theorem phaseSettled (state : ConnectionState) : ¬ (phaseOf state = .starting ∨ phaseOf state = .attaching) := by
  cases state with
  | terminal state => cases state <;> simp [phaseOf]
  | disconnected => simp [phaseOf]

theorem changedAt (found : h.transports[index]? = some o) (i : Nat) (new : Opened) :
    (h.transports.set index new)[i]? = if index = i then some new else h.transports[i]? := by
  rw [List.getElem?_set, if_pos (List.getElem?_eq_some_iff.mp found).1]

theorem detachLeft (held : Held h) {i : Nat} (found : h.detachCurrent.transports[i]? = some o) : Left o.transport := by
  cases current : h.transportRef with
  | none =>
    simp only [Hook.detachCurrent, current] at found
    exact held.others found (by rw [current]; exact nofun)
  | some index =>
    simp only [Hook.detachCurrent, current, Hook.change, List.getElem?_modify] at found
    obtain ⟨o', there, same⟩ := Option.map_eq_some_iff.mp found
    split at same
    · cases same
      exact ⟨rfl, rfl⟩
    · rename_i other
      cases same
      exact held.others there fun same => other (Option.some.inj (current.symm.trans same))

theorem operateHeld (held : Held h) (phase : ShellTerminalPhase) : Held (h.operate phase) where
  current := nofun
  others found _ := detachLeft held found
  subscribed := rfl
  gone _ := rfl
  asked operation member := Nat.le_succ_of_le (held.asked operation member)
  once := held.once

theorem awaitHeld (held : Held h) (phase : ShellTerminalPhase) : Held (h.operate phase).await where
  current := nofun
  others found _ := detachLeft held found
  subscribed := rfl
  gone _ := rfl
  asked operation member := by
    rcases List.mem_append.mp member with old | new
    · exact Nat.le_succ_of_le (held.asked operation old)
    · exact Nat.le_of_eq (List.mem_singleton.mp new)
  once := by
    refine List.nodup_append.mpr ⟨held.once, List.nodup_singleton _, fun operation member other new => ?_⟩
    have bound := held.asked operation member
    cases List.mem_singleton.mp new
    exact Nat.ne_of_lt (Nat.lt_succ_of_le bound)

theorem awaitShown (phase : ShellTerminalPhase) (waiting : phase = .starting ∨ phase = .attaching) :
    Shown (h.operate phase).await where
  transport _ := rfl
  status := nofun
  waits _ := ⟨fun _ => List.mem_append_right _ (List.mem_singleton_self _), fun _ => waiting⟩

theorem moveHeld (held : Held h) (found : h.transports[index]? = some o) (attached : t.detached = o.transport.detached)
    (left : Left o.transport → Left t) : Held (h.move index o t) := by
  have kept : Held { h with transports := h.transports.set index { o with transport := t } } := by
    refine ⟨fun {i} current => ?_, fun {i o'} found' other => ?_, held.subscribed, held.gone, held.asked, held.once⟩
    · obtain ⟨o', there, operation, open'⟩ := held.current current
      by_cases same : index = i
      · subst same
        cases found.symm.trans there
        exact ⟨_, (changedAt found index _).trans (if_pos rfl), operation, attached.trans open'⟩
      · exact ⟨o', (changedAt found i _).trans ((if_neg same).trans there), operation, open'⟩
    · rw [changedAt found] at found'
      split at found'
      · rename_i same
        subst same
        cases found'
        exact left (held.others found other)
      · exact held.others found' other
  unfold Hook.move Hook.publish
  split
  · exact ⟨kept.current, kept.others, kept.subscribed, kept.gone, kept.asked, kept.once⟩
  · exact kept

theorem currentMounted (held : Held h) (current : h.transportRef = some index) : h.mounted = true := by
  cases mounted : h.mounted with
  | true => rfl
  | false =>
    rw [held.gone mounted] at current
    cases current

theorem currentAnswered (held : Held h) (shown : Shown h) (current : h.transportRef = some index) :
    h.operation ∉ h.pending := fun member => by
  obtain ⟨o, found, -⟩ := held.current current
  have phase := (shown.waits (currentMounted held current)).mpr member
  rw [shown.status current found] at phase
  exact phaseSettled _ phase

theorem moveCurrent (held : Held h) (found : h.transports[index]? = some o) (current : h.transportRef = some index)
    (answered : h.operation ∉ h.pending)
    (same : ({ o with transport := t } : Opened).shown = o.shown →
      h.state = statusToState index { o with transport := t }) :
    Shown (h.move index o t) := by
  have mounted := currentMounted held current
  have state : (h.move index o t).state = statusToState index { o with transport := t } := by
    unfold Hook.move Hook.publish
    split
    · rfl
    · rename_i silent
      refine same (Classical.byContradiction fun changed => silent ⟨changed, ?_, mounted, current⟩)
      exact held.subscribed.trans current
  have fields : (h.move index o t).transportRef = h.transportRef ∧ (h.move index o t).operation = h.operation ∧
      (h.move index o t).pending = h.pending ∧
      (h.move index o t).transports = h.transports.set index { o with transport := t } := by
    unfold Hook.move Hook.publish
    split <;> exact ⟨rfl, rfl, rfl, rfl⟩
  refine ⟨fun _ => ?_, fun {i o'} current' there => ?_, fun _ => ?_⟩
  · rw [state, fields.1, current]
    rfl
  · rw [fields.1, current] at current'
    cases current'
    rw [fields.2.2.2, changedAt found, if_pos rfl] at there
    cases there
    exact state
  · rw [state, fields.2.1, fields.2.2.1]
    exact ⟨fun phase => absurd phase (phaseSettled _), fun member => absurd member answered⟩

theorem moveAside (shown : Shown h) (found : h.transports[index]? = some o) (other : h.transportRef ≠ some index) :
    Shown (h.move index o t) := by
  unfold Hook.move Hook.publish
  rw [if_neg fun published => other published.2.2.2]
  refine ⟨shown.transport, fun {i o'} current there => shown.status current ?_, shown.waits⟩
  dsimp only at there
  rwa [changedAt found, if_neg] at there
  rintro rfl
  exact other current

theorem transportSound {label : Label} (held : Held h) (shown : Shown h) (found : h.transports[index]? = some o)
    (out : outside label = true) (steps : TransportReplay.step o.transport label = some t) :
    Held (h.move index o t) ∧ Shown (h.move index o t) := by
  refine ⟨moveHeld held found (attachedStep out steps) fun left => (leftStep left out steps).1, ?_⟩
  by_cases current : h.transportRef = some index
  · refine moveCurrent held found current (currentAnswered held shown current) fun same => ?_
    rw [shown.status current found]
    simp only [statusToState, same]
  · exact moveAside shown found current

theorem stopSound (held : Held h) (shown : Shown h) : Held h.stop ∧ Shown h.stop := by
  unfold Hook.stop
  split
  · exact ⟨held, shown⟩
  · rename_i index current
    split
    · exact ⟨held, shown⟩
    · rename_i o found
      have stopping : Held { h with state := { h.state with phase := .stopping } } :=
        ⟨held.current, held.others, held.subscribed, held.gone, held.asked, held.once⟩
      refine ⟨moveHeld stopping found rfl fun left => ⟨left.detached, rfl⟩, ?_⟩
      have answered := currentAnswered held shown current
      refine moveCurrent stopping found current answered fun same => ?_
      have before : o.shown = (o.transport.close.snapshot, o.transport.replay.truncated) := same.symm
      simp only [shown.status current found, statusToState, same]
      rw [before]
      rfl

theorem takenHeld (held : Held h) : Held { h with pending := h.pending.eraseIdx index } where
  current := held.current
  others := held.others
  subscribed := held.subscribed
  gone := held.gone
  asked operation member := held.asked operation ((List.eraseIdx_sublist _ _).subset member)
  once := held.once.sublist (List.eraseIdx_sublist _ _)

theorem takenRest (held : Held h) {operation other : Nat} (found : h.pending[index]? = some operation) :
    other ∈ h.pending.eraseIdx index ↔ other ∈ h.pending ∧ other ≠ operation := by
  have perm := Entries.erased found
  have once := List.nodup_cons.mp (perm.nodup_iff.mp held.once)
  rw [perm.mem_iff, List.mem_cons]
  refine ⟨fun member => ⟨.inr member, fun same => once.1 (same ▸ member)⟩, fun ⟨member, different⟩ => ?_⟩
  exact member.resolve_left different

theorem takenShown (held : Held h) (shown : Shown h) {operation : Nat} (found : h.pending[index]? = some operation)
    (stale : h.stale operation = true) : Shown { h with pending := h.pending.eraseIdx index } where
  transport := shown.transport
  status := shown.status
  waits mounted := by
    have other : h.operation ≠ operation := by simpa [Hook.stale, show h.mounted = true from mounted] using stale
    change _ ↔ h.operation ∈ h.pending.eraseIdx index
    rw [takenRest held found, and_iff_left other]
    exact shown.waits mounted

theorem showHeld (held : Held h) (mounted : h.mounted = true) (empty : h.transportRef = none)
    (opened : TerminalOpened) : Held (h.show' h.operation opened) where
  current {i} current := by
    cases current
    refine ⟨_, List.getElem?_concat_length, rfl, ?_⟩
    dsimp only
    unfold DaemonTerminalTransport.startPolling DaemonTerminalTransport.schedulePoll
    dsimp only
    split
    · rfl
    · split <;> rfl
  others {i o} found other := by
    rcases Nat.lt_or_ge i h.transports.length with old | new
    · rw [Hook.show', List.getElem?_append_left old] at found
      exact held.others found (by rw [empty]; exact nofun)
    · rw [Hook.show', List.getElem?_append_right new] at found
      obtain ⟨zero, -⟩ := List.getElem?_eq_some_iff.mp found
      rw [List.length_singleton] at zero
      exact absurd (congrArg some (by omega : h.transports.length = i)) other
  subscribed := rfl
  gone unmounted := by
    change h.mounted = false at unmounted
    rw [mounted] at unmounted
    cases unmounted
  asked := held.asked
  once := held.once

theorem startedShown (o : Opened) (index : Nat) :
    statusToState index { o with transport := o.transport.startPolling } = statusToState index o := by
  have shown : ({ o with transport := o.transport.startPolling } : Opened).shown = o.shown := by
    unfold Opened.shown DaemonTerminalTransport.startPolling DaemonTerminalTransport.schedulePoll
    dsimp only
    split
    · rfl
    · split <;> rfl
  simp only [statusToState, shown]

theorem showShown (answered : h.operation ∉ h.pending) (opened : TerminalOpened) :
    Shown (h.show' h.operation opened) where
  transport _ := rfl
  status {i o} current found := by
    cases current
    cases List.getElem?_concat_length.symm.trans found
    exact (startedShown _ _).symm
  waits _ := ⟨fun phase => absurd phase (phaseSettled _), fun member => absurd member answered⟩

theorem settledSound (held : Held h) (empty : h.transportRef = none) (answered : h.operation ∉ h.pending)
    {state : ShellTerminalState} (without : state.transport = none)
    (settled : ¬ (state.phase = .starting ∨ state.phase = .attaching)) :
    Held { h with state } ∧ Shown { h with state } := by
  refine ⟨⟨held.current, held.others, held.subscribed, held.gone, held.asked, held.once⟩, ?_, fun current => ?_, ?_⟩
  · exact fun _ => without.trans empty.symm
  · rw [show h.transportRef = some _ from current] at empty
    cases empty
  · exact fun _ => ⟨fun phase => absurd phase settled, fun member => absurd member answered⟩

theorem answeredSound (held : Held h) (shown : Shown h) {operation : Nat} (found : h.pending[index]? = some operation)
    (result : Except String TerminalOpened) :
    Held ({ h with pending := h.pending.eraseIdx index }.answered operation result) ∧
      Shown ({ h with pending := h.pending.eraseIdx index }.answered operation result) := by
  have taken : Held { h with pending := h.pending.eraseIdx index } := takenHeld held
  cases stale : h.stale operation with
  | true =>
    have same : { h with pending := h.pending.eraseIdx index }.answered operation result =
        { h with pending := h.pending.eraseIdx index } := by
      cases result with
      | error reason => exact if_pos stale
      | ok opened => exact if_pos stale
    rw [same]
    exact ⟨taken, takenShown held shown found stale⟩
  | false =>
    have current : h.mounted = true ∧ h.operation = operation := by simpa [Hook.stale] using stale
    obtain ⟨mounted, rfl⟩ := current
    have member := List.mem_of_getElem? found
    have empty : h.transportRef = none := by
      cases current : h.transportRef with
      | none => rfl
      | some i => exact absurd member (currentAnswered held shown current)
    have answered : h.operation ∉ h.pending.eraseIdx index := fun rest => ((takenRest held found).mp rest).2 rfl
    have fresh : ¬ { h with pending := h.pending.eraseIdx index }.stale h.operation = true := by
      change ¬ h.stale h.operation = true
      rw [stale]
      exact Bool.false_ne_true
    cases result with
    | error reason =>
      simp only [Hook.answered, if_neg fresh]
      exact settledSound taken empty answered rfl fun phase => by rcases phase with phase | phase <;> cases phase
    | ok opened =>
      simp only [Hook.answered, Hook.activateOpened, if_neg fresh]
      split
      · refine settledSound taken empty answered rfl ?_
        unfold unexpectedState
        dsimp only
        split <;> decide
      · exact ⟨showHeld taken mounted empty opened, showShown answered opened⟩

theorem unmountSound (held : Held h) : Held h.unmount ∧ Shown h.unmount where
  left := ⟨nofun, fun found _ => detachLeft held found, rfl, fun _ => rfl,
    fun operation member => Nat.le_succ_of_le (held.asked operation member), held.once⟩
  right := ⟨nofun, nofun, nofun⟩

theorem stepSound {event : Event} (held : Held h) (shown : Shown h) (steps : step h event = some h') :
    Held h' ∧ Shown h' := by
  cases event with
  | start =>
    cases Option.some.inj steps
    unfold Hook.start
    split
    · exact ⟨awaitHeld held .starting, awaitShown .starting (.inl rfl)⟩
    · rename_i unmounted
      refine ⟨operateHeld held .starting, fun _ => rfl, nofun, fun mounted => absurd mounted unmounted⟩
  | attach =>
    cases Option.some.inj steps
    exact ⟨awaitHeld held .attaching, awaitShown .attaching (.inr rfl)⟩
  | answer index result =>
    obtain ⟨operation, found, rfl⟩ := Option.map_eq_some_iff.mp steps
    exact answeredSound held shown found result
  | stop =>
    cases Option.some.inj steps
    exact stopSound held shown
  | transport index label =>
    simp only [step] at steps
    split at steps
    · rename_i out
      obtain ⟨o, found, moved⟩ := Option.bind_eq_some_iff.mp steps
      obtain ⟨t, stepped, rfl⟩ := Option.map_eq_some_iff.mp moved
      exact transportSound held shown found out stepped
    · cases steps
  | unmount =>
    simp only [step] at steps
    split at steps
    · cases Option.some.inj steps
      exact unmountSound held
    · cases steps

end Hooks

section Runs
variable {h h' : Hook}

theorem openedSound : Held .opened ∧ Shown .opened where
  left := ⟨nofun, nofun, rfl, fun _ => rfl, nofun, List.nodup_nil⟩
  right := by
    refine ⟨fun _ => rfl, nofun, fun _ => ⟨fun phase => ?_, nofun⟩⟩
    rcases phase with phase | phase <;> cases phase

theorem reachedSound (reached : Reached h) : Held h ∧ Shown h := by
  induction reached with
  | start => exact openedSound
  | step event before _ steps ih => exact stepSound ih.1 ih.2 steps

/-- A transport that was left stays so, whatever the hook does later. -/
def LeftAt (i : Nat) (o : Opened) (h : Hook) : Prop :=
  ∃ o' : Opened, h.transports[i]? = some o' ∧ Left o'.transport ∧ Silent o.transport o'.transport

section LeftAt
variable {i : Nat} {o : Opened}

theorem leftSame (left : LeftAt i o h) (same : h'.transports[i]? = h.transports[i]?) : LeftAt i o h' := by
  obtain ⟨o', found, rest⟩ := left
  exact ⟨o', same.trans found, rest⟩

theorem leftSet (left : LeftAt i o h) {index : Nat} {o' : Opened} {t : DaemonTerminalTransport}
    (found : h.transports[index]? = some o')
    (moves : Left o'.transport → Left t ∧ Silent o'.transport t) : LeftAt i o (h.move index o' t) := by
  obtain ⟨o'', there, left, silent⟩ := left
  have transports : (h.move index o' t).transports = h.transports.set index { o' with transport := t } := by
    unfold Hook.move Hook.publish
    split <;> rfl
  unfold LeftAt
  rw [transports, changedAt found]
  split
  · rename_i same
    subst same
    cases found.symm.trans there
    obtain ⟨left', silent'⟩ := moves left
    exact ⟨_, rfl, left', silent'.reads.trans silent.reads, silent'.delivered.trans silent.delivered⟩
  · exact ⟨o'', there, left, silent⟩

theorem leftDetach (left : LeftAt i o h) {h' : Hook} (transports : h'.transports = h.detachCurrent.transports) :
    LeftAt i o h' := by
  obtain ⟨o', found, left, silent⟩ := left
  cases current : h.transportRef with
  | none =>
    simp only [Hook.detachCurrent, current] at transports
    exact ⟨o', transports ▸ found, left, silent⟩
  | some index =>
    simp only [Hook.detachCurrent, current, Hook.change] at transports
    unfold LeftAt
    rw [transports, List.getElem?_modify, found]
    by_cases same : index = i
    · simp only [if_pos same]
      exact ⟨_, rfl, ⟨rfl, rfl⟩, silent.reads, silent.delivered⟩
    · simp only [if_neg same]
      exact ⟨o', rfl, left, silent⟩

theorem leftKept {event : Event} (left : LeftAt i o h) (steps : step h event = some h') : LeftAt i o h' := by
  cases event with
  | start =>
    cases Option.some.inj steps
    unfold Hook.start
    split <;> exact leftDetach left rfl
  | attach =>
    cases Option.some.inj steps
    exact leftDetach left rfl
  | answer index result =>
    obtain ⟨operation, -, rfl⟩ := Option.map_eq_some_iff.mp steps
    refine leftSame left ?_
    obtain ⟨o', found, -⟩ := left
    have bound := (List.getElem?_eq_some_iff.mp found).1
    cases result with
    | error reason =>
      simp only [Hook.answered]
      split <;> rfl
    | ok opened =>
      simp only [Hook.answered, Hook.activateOpened]
      split
      · rfl
      · split
        · rfl
        · exact List.getElem?_append_left bound
  | stop =>
    cases Option.some.inj steps
    unfold Hook.stop
    split
    · exact left
    · split
      · exact left
      · rename_i found
        have before : LeftAt i o { h with state := { h.state with phase := .stopping } } := left
        exact leftSet before found fun left => ⟨⟨left.detached, rfl⟩, .refl _, rfl⟩
  | transport index label =>
    simp only [step] at steps
    split at steps
    · rename_i out
      obtain ⟨o', found, moved⟩ := Option.bind_eq_some_iff.mp steps
      obtain ⟨t, stepped, rfl⟩ := Option.map_eq_some_iff.mp moved
      exact leftSet left found fun left => leftStep left out stepped
    · cases steps
  | unmount =>
    simp only [step] at steps
    split at steps
    · cases Option.some.inj steps
      exact leftDetach left rfl
    · cases steps

theorem leftForGood (later : Reach step Any h h') (left : LeftAt i o h) : LeftAt i o h' := by
  induction later with
  | start => exact left
  | step event before _ steps ih => exact leftKept ih steps

end LeftAt

/-- At most one transport is attached: that of the answer to the last operation, until the window
ends. The others are detached, and never again begin a read or deliver anything. What a mounted
window shows is the snapshot of that transport; without one it waits exactly while the answer to the
last operation is out. -/
theorem shellShowsLast (reached : Reached h) :
    (∀ i o, h.transports[i]? = some o → (o.transport.detached = false ↔ h.transportRef = some i)) ∧
    (∀ i, h.transportRef = some i → h.mounted = true ∧
      ∃ o, h.transports[i]? = some o ∧ o.operation = h.operation ∧ h.state = statusToState i o) ∧
    (h.mounted = true → h.state.transport = h.transportRef ∧
      (h.state.phase = .starting ∨ h.state.phase = .attaching ↔ h.operation ∈ h.pending)) ∧
    ∀ i o, h.transports[i]? = some o → h.transportRef ≠ some i → ∀ h', Reach step Any h h' →
      ∃ o', h'.transports[i]? = some o' ∧ o'.transport.detached = true ∧
        o'.transport.reads.Sublist o.transport.reads ∧ o'.transport.delivered = o.transport.delivered := by
  obtain ⟨held, shown⟩ := reachedSound reached
  refine ⟨fun i o found => ⟨fun open' => ?_, fun current => ?_⟩, fun i current => ?_, fun mounted => ?_,
    fun i o found other h' later => ?_⟩
  · by_contra other
    rw [(held.others found other).detached] at open'
    cases open'
  · obtain ⟨o', there, -, open'⟩ := held.current current
    cases found.symm.trans there
    exact open'
  · obtain ⟨o, found, operation, -⟩ := held.current current
    exact ⟨currentMounted held current, o, found, operation, shown.status current found⟩
  · exact ⟨shown.transport mounted, shown.waits mounted⟩
  · have left : LeftAt i o h := ⟨o, found, held.others found other, silentRefl _⟩
    obtain ⟨o', found', left', silent⟩ := leftForGood later left
    exact ⟨o', found', left'.detached, silent.reads, silent.delivered⟩

end Runs

def shellAt (terminalId : TerminalId) : TerminalOpened := ⟨terminalId, 0, 0, "/", .running⟩

/-- The first answer comes behind the second, and the second shell is left for a third. -/
def crossed : List Event :=
  [.start, .attach, .answer 1 (.ok (shellAt 2)), .answer 0 (.ok (shellAt 1)), .transport 0 .fire, .start]

theorem crossedRun : (run step Any .opened crossed).map
    (fun h => (h.mounted, h.pending, h.state.phase, h.transports.map fun o => o.transport.detached)) =
      some (true, [3], .starting, [true]) := by
  decide +kernel

theorem shellShowsLastCrossed : ∃ h : Hook, h.mounted = true ∧ h.pending = [3] ∧
    (h.state.phase = .starting ∨ h.state.phase = .attaching ↔ h.operation ∈ h.pending) := by
  obtain ⟨h, ran, seen⟩ := Option.map_eq_some_iff.mp crossedRun
  simp only [Prod.mk.injEq] at seen
  have reached : Reached h := reachRun .start ran
  exact ⟨h, seen.1, seen.2.1, ((shellShowsLast reached).2.2.1 seen.1).2⟩

end Maestro.ShellTerminal
