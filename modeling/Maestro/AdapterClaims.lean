import Mathlib.Logic.Function.Basic
import Maestro.Stepping
import Maestro.Text

/-! The fake adapter's table of binding claims: which run may write to a vendor
conversation, as a structured session or as the lease of a TUI. -/
namespace Maestro.AdapterClaims
open Stepping Text

abbrev RunId := Nat

abbrev SessionId := String

inductive AgentKind where
  | codex
  | claude
  | agy
  | fake
  deriving DecidableEq, Repr

inductive IntegrationMode where
  | structured
  | cliManaged
  | ptyTui
  deriving DecidableEq, Repr

inductive AdapterErrorKind where
  | invalidRequest
  | bindingInUse
  deriving DecidableEq, Repr

inductive AdapterRetrySafety where
  | notApplicable
  | safe
  | unsafeDeliveryUncertain
  deriving DecidableEq, Repr

structure AdapterError where
  kind : AdapterErrorKind
  message : String
  retrySafety : AdapterRetrySafety := .notApplicable
  fallbackMode : Option IntegrationMode := none
  deriving DecidableEq, Repr

structure VendorBinding where
  agentKind : AgentKind
  vendorSessionId : String
  deriving DecidableEq, Repr

structure StartSessionRequest where
  sessionId : SessionId
  runId : RunId
  executable : String
  workingDirectory : String
  integrationMode : IntegrationMode
  deriving DecidableEq, Repr

structure ResumeSessionRequest where
  start : StartSessionRequest
  binding : VendorBinding
  deriving DecidableEq, Repr

structure TuiLaunchRequest where
  start : StartSessionRequest
  binding : Option VendorBinding
  deriving DecidableEq, Repr

abbrev BindingClaims := String → Option RunId

structure FakeAdapter where
  operationLog : List String
  bindingClaims : BindingClaims

inductive LifecycleSignal where
  | ready
  | stopped
  deriving DecidableEq, Repr

structure FakeAdapterSession where
  sessionId : SessionId
  runId : RunId
  binding : VendorBinding
  bindingKey : String
  events : List (LifecycleSignal × String)
  stopped : Bool
  deriving DecidableEq, Repr

structure FakeBindingLease where
  bindingKey : String
  runId : RunId
  deriving DecidableEq, Repr

structure TuiLaunchPlan where
  executable : String
  arguments : List String
  workingDirectory : String
  writerLease : Option FakeBindingLease
  deriving DecidableEq, Repr

def claimBinding (claims : BindingClaims) (binding : VendorBinding) (runId : RunId) : Except AdapterError BindingClaims :=
  if (claims binding.vendorSessionId).isSome then
    .error { kind := .bindingInUse, message := "the vendor binding already has an active writer", retrySafety := .safe }
  else .ok (Function.update claims binding.vendorSessionId (some runId))

def releaseBindingClaim (claims : BindingClaims) (bindingKey : String) (runId : RunId) : BindingClaims :=
  if claims bindingKey = some runId then Function.update claims bindingKey none else claims

namespace FakeAdapter

def record (a : FakeAdapter) (operation : String) : FakeAdapter :=
  { a with operationLog := a.operationLog ++ [operation] }

def session (a : FakeAdapter) (request : StartSessionRequest) (binding : VendorBinding) (resumed : Bool) :
    Except AdapterError FakeAdapterSession × FakeAdapter :=
  if request.integrationMode ≠ .structured then
    (.error { kind := .invalidRequest
              message := "the fake structured adapter requires structured integration mode"
              fallbackMode := some .ptyTui }, a)
  else if binding.agentKind ≠ .fake ∨ blank binding.vendorSessionId then
    (.error { kind := .invalidRequest
              message := "the fake adapter requires a non-empty fake vendor binding" }, a)
  else match claimBinding a.bindingClaims binding request.runId with
    | .error error => (.error error, a)
    | .ok claims =>
      (.ok ⟨request.sessionId, request.runId, binding, binding.vendorSessionId,
        [(.ready, if resumed then "fake session resumed" else "fake session started")], false⟩,
        { a with bindingClaims := claims })

def startSession (a : FakeAdapter) (request : StartSessionRequest) : Except AdapterError FakeAdapterSession × FakeAdapter :=
  (a.record "start_session").session request ⟨.fake, "fake-" ++ request.sessionId⟩ false

def resumeSession (a : FakeAdapter) (request : ResumeSessionRequest) :
    Except AdapterError FakeAdapterSession × FakeAdapter :=
  (a.record "resume_session").session request.start request.binding true

def launchTui (a : FakeAdapter) (request : TuiLaunchRequest) : Except AdapterError TuiLaunchPlan × FakeAdapter :=
  let a := a.record "launch_tui"
  let plan (arguments : List String) (lease : Option FakeBindingLease) : TuiLaunchPlan :=
    ⟨request.start.executable, ["--scenario", "tui/vt-baseline"] ++ arguments, request.start.workingDirectory, lease⟩
  if request.start.integrationMode ≠ .ptyTui then
    (.error { kind := .invalidRequest
              message := "the exact fake TUI requires PTY/TUI integration mode" }, a)
  else match request.binding with
    | none => (.ok (plan [] none), a)
    | some binding =>
      if binding.agentKind ≠ .fake ∨ blank binding.vendorSessionId then
        (.error { kind := .invalidRequest
                  message := "the exact fake TUI cannot use this vendor binding" }, a)
      else match claimBinding a.bindingClaims binding request.start.runId with
        | .error error => (.error error, a)
        | .ok claims =>
          (.ok (plan ["--binding", binding.vendorSessionId] (some ⟨binding.vendorSessionId, request.start.runId⟩)),
            { a with bindingClaims := claims })

def release (a : FakeAdapter) (bindingKey : String) (runId : RunId) : FakeAdapter :=
  { a with bindingClaims := releaseBindingClaim a.bindingClaims bindingKey runId }

/-- `stop_run`, which can be called again. -/
def stopRun (a : FakeAdapter) (s : FakeAdapterSession) : FakeAdapterSession × FakeAdapter :=
  let stopped := if s.stopped then s
    else { s with stopped := true, events := s.events ++ [(.stopped, "fake adapter process run stopped")] }
  (stopped, (a.record "stop_run").release s.bindingKey s.runId)

def dropSession (a : FakeAdapter) (s : FakeAdapterSession) : FakeAdapter := a.release s.bindingKey s.runId

def dropLease (a : FakeAdapter) (l : FakeBindingLease) : FakeAdapter := a.release l.bindingKey l.runId

end FakeAdapter

inductive Writer where
  | session (s : FakeAdapterSession)
  | lease (l : FakeBindingLease)

namespace Writer

def key : Writer → String
  | .session s => s.bindingKey
  | .lease l => l.bindingKey

def run : Writer → RunId
  | .session s => s.runId
  | .lease l => l.runId

def live : Writer → Bool
  | .session s => !s.stopped
  | .lease _ => true

end Writer

/-- `writers` are the sessions and leases that were not dropped, by their runs, and `used`
the runs of all requests so far. -/
structure World where
  adapter : FakeAdapter
  writers : RunId → Option Writer
  used : List RunId

def first : World := ⟨⟨[], fun _ => none⟩, fun _ => none, []⟩

inductive Label where
  | startSession (request : StartSessionRequest)
  | resumeSession (request : ResumeSessionRequest)
  | launchTui (request : TuiLaunchRequest)
  | stopRun (run : RunId)
  | drop (run : RunId)

def World.opened (w : World) (run : RunId) (writer : Option Writer) (a : FakeAdapter) : World :=
  ⟨a, match writer with
    | some writer => Function.update w.writers run (some writer)
    | none => w.writers, run :: w.used⟩

def started : Except AdapterError FakeAdapterSession → Option Writer
  | .ok s => some (.session s)
  | .error _ => none

def launched : Except AdapterError TuiLaunchPlan → Option Writer
  | .ok plan => plan.writerLease.map .lease
  | .error _ => none

/-- A launch that fails behind its plan drops the lease. -/
def step (w : World) : Label → Option World
  | .startSession request =>
    let ran := w.adapter.startSession request
    some (w.opened request.runId (started ran.1) ran.2)
  | .resumeSession request =>
    let ran := w.adapter.resumeSession request
    some (w.opened request.start.runId (started ran.1) ran.2)
  | .launchTui request =>
    let ran := w.adapter.launchTui request
    some (w.opened request.start.runId (launched ran.1) ran.2)
  | .stopRun run =>
    match w.writers run with
    | some (.session s) =>
      some { w with adapter := (w.adapter.stopRun s).2
                    writers := Function.update w.writers run (some (.session (w.adapter.stopRun s).1)) }
    | _ => none
  | .drop run =>
    match w.writers run with
    | some (.session s) =>
      some { w with adapter := w.adapter.dropSession s, writers := Function.update w.writers run none }
    | some (.lease l) =>
      some { w with adapter := w.adapter.dropLease l, writers := Function.update w.writers run none }
    | none => none

def Distinct (w : World) : Label → Prop
  | .startSession request => request.runId ∉ w.used
  | .resumeSession request => request.start.runId ∉ w.used
  | .launchTui request => request.start.runId ∉ w.used
  | _ => True

instance (w : World) (label : Label) : Decidable (Distinct w label) := by
  cases label <;> unfold Distinct <;> infer_instance

def World.Writes (w : World) (key : String) (run : RunId) : Prop :=
  ∃ writer, w.writers run = some writer ∧ writer.live = true ∧ writer.key = key

structure Sound (w : World) : Prop where
  owner : ∀ {run writer}, w.writers run = some writer → writer.run = run
  unused : ∀ {run}, run ∉ w.used → w.writers run = none
  table : ∀ {key run}, w.adapter.bindingClaims key = some run ↔ w.Writes key run

/-- What a request comes to: a claim with its writer, or nothing. -/
inductive Opens (a : FakeAdapter) (run : RunId) : Option Writer → FakeAdapter → Prop
  | refused {a'} (claims : a'.bindingClaims = a.bindingClaims) : Opens a run none a'
  | claimed {writer a'} (free : a.bindingClaims writer.key = none)
      (claims : a'.bindingClaims = Function.update a.bindingClaims writer.key (some run))
      (owner : writer.run = run) (live : writer.live = true) : Opens a run (some writer) a'

section Operations
variable {a : FakeAdapter} {w w' : World}

theorem claimFree {claims claims' : BindingClaims} {binding : VendorBinding} {runId : RunId}
    (claimed : claimBinding claims binding runId = .ok claims') :
    claims binding.vendorSessionId = none ∧ claims' = Function.update claims binding.vendorSessionId (some runId) := by
  rw [claimBinding] at claimed
  split at claimed
  · cases claimed
  · rename_i free
    exact ⟨Option.not_isSome_iff_eq_none.mp free, (Except.ok.inj claimed).symm⟩

theorem opensRecorded {run : RunId} {writer : Option Writer} {a' : FakeAdapter} {operation : String}
    (opens : Opens (a.record operation) run writer a') : Opens a run writer a' := by
  cases opens with
  | refused claims => exact .refused claims
  | claimed free claims owner live => exact .claimed free claims owner live

theorem sessionOpens (request : StartSessionRequest) (binding : VendorBinding) (resumed : Bool) :
    Opens a request.runId (started (a.session request binding resumed).1) (a.session request binding resumed).2 := by
  rw [FakeAdapter.session]
  by_cases mode : request.integrationMode ≠ .structured
  · rw [if_pos mode]
    exact .refused rfl
  rw [if_neg mode]
  by_cases unfit : binding.agentKind ≠ .fake ∨ blank binding.vendorSessionId
  · rw [if_pos unfit]
    exact .refused rfl
  rw [if_neg unfit]
  cases claimed : claimBinding a.bindingClaims binding request.runId with
  | error error => exact .refused rfl
  | ok claims =>
    obtain ⟨free, rfl⟩ := claimFree claimed
    exact .claimed free rfl rfl rfl

theorem launchOpens (request : TuiLaunchRequest) :
    Opens a request.start.runId (launched (a.launchTui request).1) (a.launchTui request).2 := by
  have recorded : Opens (a.record "launch_tui") request.start.runId (launched (a.launchTui request).1)
      (a.launchTui request).2 := by
    rw [FakeAdapter.launchTui]
    dsimp only
    by_cases mode : request.start.integrationMode ≠ .ptyTui
    · rw [if_pos mode]
      exact .refused rfl
    rw [if_neg mode]
    cases request.binding with
    | none => exact .refused rfl
    | some binding =>
      dsimp only
      by_cases unfit : binding.agentKind ≠ .fake ∨ blank binding.vendorSessionId
      · rw [if_pos unfit]
        exact .refused rfl
      rw [if_neg unfit]
      cases claimed : claimBinding (a.record "launch_tui").bindingClaims binding request.start.runId with
      | error error => exact .refused rfl
      | ok claims =>
        obtain ⟨free, rfl⟩ := claimFree claimed
        exact .claimed free rfl rfl rfl
  exact opensRecorded recorded

theorem soundOpened (sound : Sound w) {run : RunId} {writer : Option Writer} {a : FakeAdapter} (fresh : run ∉ w.used)
    (opens : Opens w.adapter run writer a) : Sound (w.opened run writer a) := by
  have absent := sound.unused fresh
  cases opens with
  | refused claims =>
    refine ⟨sound.owner, fun new => sound.unused fun old => new (List.mem_cons_of_mem _ old), fun {key own} => ?_⟩
    change a.bindingClaims key = some own ↔ _
    rw [claims]
    exact sound.table
  | @claimed writer _ free claims owner live =>
    have other : ∀ {own}, own ≠ run → (w.opened run (some writer) a).writers own = w.writers own :=
      fun different => Function.update_of_ne different ..
    have here : (w.opened run (some writer) a).writers run = some writer := Function.update_self ..
    refine ⟨fun {own writer'} found => ?_, fun {own} new => ?_, fun {key own} => ?_⟩
    · by_cases same : own = run
      · rw [same, here] at found
        cases Option.some.inj found
        exact owner.trans same.symm
      · exact sound.owner ((other same).symm.trans found)
    · rw [other fun same => new (same ▸ List.mem_cons_self)]
      exact sound.unused fun old => new (List.mem_cons_of_mem _ old)
    · change a.bindingClaims key = some own ↔ _
      rw [claims]
      by_cases same : own = run
      · rw [same]
        constructor
        · intro held
          by_cases its : key = writer.key
          · exact ⟨writer, here, live, its.symm⟩
          · rw [Function.update_of_ne its] at held
            obtain ⟨old, found, _⟩ := sound.table.mp held
            cases absent.symm.trans found
        · rintro ⟨writer', found, _, rfl⟩
          cases Option.some.inj (here.symm.trans found)
          rw [Function.update_self]
      · have unchanged : (w.opened run (some writer) a).Writes key own ↔ w.Writes key own := by
          rw [World.Writes, World.Writes, other same]
        rw [unchanged, ← sound.table]
        by_cases its : key = writer.key
        · rw [its, Function.update_self, free]
          exact ⟨fun held => absurd (Option.some.inj held).symm same, fun held => (by cases held)⟩
        · rw [Function.update_of_ne its]

theorem soundClosed (sound : Sound w) {run : RunId} {writer : Writer} {after : Option Writer} {a : FakeAdapter}
    (present : w.writers run = some writer)
    (claims : a.bindingClaims = releaseBindingClaim w.adapter.bindingClaims writer.key run)
    (ends : ∀ writer', after = some writer' → writer'.live = false ∧ writer'.run = run) :
    Sound { w with adapter := a, writers := Function.update w.writers run after } := by
  have other : ∀ {own}, own ≠ run → Function.update w.writers run after own = w.writers own :=
    fun different => Function.update_of_ne different ..
  have here : Function.update w.writers run after run = after := Function.update_self ..
  refine ⟨fun {own writer'} found => ?_, fun {own} new => ?_, fun {key own} => ?_⟩
  · by_cases same : own = run
    · subst same
      exact (ends writer' (here.symm.trans found)).2
    · exact sound.owner ((other same).symm.trans found)
  · have absent := sound.unused new
    by_cases same : own = run
    · cases (same ▸ absent).symm.trans present
    · exact (other same).trans absent
  · change a.bindingClaims key = some own ↔ _
    rw [claims, releaseBindingClaim]
    by_cases same : own = run
    · subst same
      constructor
      · intro held
        by_cases owns : w.adapter.bindingClaims writer.key = some own
        · rw [if_pos owns] at held
          by_cases its : key = writer.key
          · rw [its, Function.update_self] at held
            cases held
          · rw [Function.update_of_ne its] at held
            obtain ⟨writer', found, _, same⟩ := sound.table.mp held
            cases Option.some.inj (present.symm.trans found)
            exact absurd same.symm its
        · rw [if_neg owns] at held
          obtain ⟨writer', found, live, rfl⟩ := sound.table.mp held
          cases Option.some.inj (present.symm.trans found)
          exact absurd held owns
      · rintro ⟨writer', found, live, _⟩
        have ended := (ends writer' (here.symm.trans found)).1
        cases live.symm.trans ended
    · have unchanged : World.Writes { w with adapter := a, writers := Function.update w.writers run after } key own ↔
          w.Writes key own := by
        rw [World.Writes, World.Writes]
        dsimp only
        rw [other same]
      rw [unchanged, ← sound.table]
      by_cases owns : w.adapter.bindingClaims writer.key = some run
      · rw [if_pos owns]
        by_cases its : key = writer.key
        · rw [its, Function.update_self, owns]
          exact ⟨fun held => (by cases held), fun held => absurd (Option.some.inj held).symm same⟩
        · rw [Function.update_of_ne its]
      · rw [if_neg owns]

/-- What a step makes of the writers and their claims. -/
inductive Moves (w : World) (label : Label) : World → Prop
  | opened {run : RunId} {writer : Option Writer} {a : FakeAdapter} (fresh : Distinct w label → run ∉ w.used)
    (opens : Opens w.adapter run writer a) : Moves w label (w.opened run writer a)
  | closed {run : RunId} {writer : Writer} {after : Option Writer} {a : FakeAdapter}
    (gives : label = .stopRun run ∨ label = .drop run) (present : w.writers run = some writer)
    (claims : a.bindingClaims = releaseBindingClaim w.adapter.bindingClaims writer.key run)
    (ends : ∀ writer', after = some writer' → writer'.live = false ∧ writer'.run = run) :
    Moves w label { w with adapter := a, writers := Function.update w.writers run after }

theorem stepMoves {label : Label} (sound : Sound w) (steps : step w label = some w') : Moves w label w' := by
  cases label with
  | startSession request =>
    cases Option.some.inj steps
    exact .opened id (opensRecorded (sessionOpens request _ false))
  | resumeSession request =>
    cases Option.some.inj steps
    exact .opened id (opensRecorded (sessionOpens request.start _ true))
  | launchTui request =>
    cases Option.some.inj steps
    exact .opened id (launchOpens request)
  | stopRun run =>
    simp only [step] at steps
    split at steps
    · rename_i s present
      cases Option.some.inj steps
      have owner : s.runId = run := sound.owner present
      refine .closed (.inl rfl) present (by rw [← owner]; rfl) fun writer' same => ?_
      cases Option.some.inj same
      cases stopped : s.stopped with
      | true =>
        rw [FakeAdapter.stopRun, stopped, if_pos rfl]
        exact ⟨congrArg (!·) stopped, owner⟩
      | false =>
        rw [FakeAdapter.stopRun, stopped, if_neg Bool.false_ne_true]
        exact ⟨rfl, owner⟩
    · cases steps
  | drop run =>
    simp only [step] at steps
    split at steps
    · rename_i s present
      cases Option.some.inj steps
      have owner : s.runId = run := sound.owner present
      exact .closed (.inr rfl) present (by rw [← owner]; rfl) fun writer' same => by cases same
    · rename_i l present
      cases Option.some.inj steps
      have owner : l.runId = run := sound.owner present
      exact .closed (.inr rfl) present (by rw [← owner]; rfl) fun writer' same => by cases same
    · cases steps

theorem soundStep {label : Label} (sound : Sound w) (distinct : Distinct w label) (steps : step w label = some w') :
    Sound w' := by
  cases stepMoves sound steps with
  | opened fresh opens => exact soundOpened sound (fresh distinct) opens
  | closed _ present claims ends => exact soundClosed sound present claims ends

theorem firstSound : Sound first :=
  ⟨fun found => (by cases found), fun _ => rfl, fun {key run} =>
    ⟨fun held => (by cases held), fun ⟨_, found, _⟩ => (by cases found)⟩⟩

theorem reachSound (reached : Reach step Distinct first w) : Sound w :=
  reachInvariant reached firstSound fun sound distinct steps => soundStep sound distinct steps

theorem opensHeld {run : RunId} {writer : Option Writer} {a' : FakeAdapter} (opens : Opens a run writer a')
    {key : String} {holder : RunId} (held : a.bindingClaims key = some holder) : a'.bindingClaims key = some holder := by
  cases opens with
  | refused claims => exact claims ▸ held
  | claimed free claims owner live =>
    rw [claims, Function.update_of_ne]
    · exact held
    · rintro rfl
      cases free.symm.trans held

theorem releaseHeld {claims : BindingClaims} {key other : String} {holder run : RunId} (held : claims key = some holder)
    (different : holder ≠ run) : releaseBindingClaim claims other run key = some holder := by
  rw [releaseBindingClaim]
  split
  · rename_i owns
    rw [Function.update_of_ne]
    · exact held
    · rintro rfl
      exact different (Option.some.inj (held.symm.trans owns))
  · exact held

theorem stepHeld {label : Label} (sound : Sound w) (steps : step w label = some w') {key : String} {holder : RunId}
    (held : w.adapter.bindingClaims key = some holder) (stops : label ≠ .stopRun holder) (drops : label ≠ .drop holder) :
    w'.adapter.bindingClaims key = some holder := by
  cases stepMoves sound steps with
  | opened _ opens => exact opensHeld opens held
  | @closed run _ _ a gives _ claims _ =>
    change a.bindingClaims key = some holder
    rw [claims]
    refine releaseHeld held fun same => ?_
    rcases gives with stopped | dropped
    · exact stops (same ▸ stopped)
    · exact drops (same ▸ dropped)

end Operations

/-- The table is that of the live writers, of which there is one for a binding at most. -/
theorem claimTable {w : World} (reached : Reach step Distinct first w) :
    (∀ key run, w.adapter.bindingClaims key = some run ↔ w.Writes key run) ∧
    (∀ key run other, w.Writes key run → w.Writes key other → run = other) ∧
    ∀ label w' key holder, step w label = some w' → w.adapter.bindingClaims key = some holder →
      label ≠ .stopRun holder → label ≠ .drop holder → w'.adapter.bindingClaims key = some holder := by
  have sound := reachSound reached
  refine ⟨fun key run => sound.table, fun key run other writes writes' => ?_,
    fun label w' key holder steps held => stepHeld sound steps held⟩
  exact Option.some.inj ((sound.table.mpr writes).symm.trans (sound.table.mpr writes'))

/-- A session is stopped, a TUI takes its binding over, and then the session is dropped. -/
def takenOver : List Label :=
  [.startSession ⟨"s", 1, "agent", "/w", .structured⟩, .stopRun 1,
    .launchTui ⟨⟨"s", 2, "agent", "/w", .ptyTui⟩, some ⟨.fake, "fake-s"⟩⟩, .drop 1]

theorem claimTableTakenOver : ∃ w, Stepping.run step Distinct first takenOver = some w ∧ w.Writes "fake-s" 2 := by
  have seen : (Stepping.run step Distinct first takenOver).map (·.adapter.bindingClaims "fake-s") = some (some 2) := by
    decide
  obtain ⟨w, ran, held⟩ := Option.map_eq_some_iff.mp seen
  exact ⟨w, ran, ((claimTable (reachRun .start ran)).1 "fake-s" 2).mp held⟩

end Maestro.AdapterClaims
