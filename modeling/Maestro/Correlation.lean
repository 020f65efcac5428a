import Maestro.ResponseOnce

/-! The identifiers in the frames of a well-behaved child, and when the supervisor
fails a run because of one of them. -/
namespace Maestro.Session
open Interleaving Prog Protocol

/-- The failures of `handle_frame` that are about a request or action identifier. -/
def correlationCategories : List String :=
  ["invalid_request_id", "invalid_permission_request", "invalid_user_input_request",
    "uncorrelated_permission_result", "uncorrelated_user_input_result", "uncorrelated_action_ack"]

def Blames (failure : ProtocolFailure) : Prop := failure.category ∈ correlationCategories
instance (failure : ProtocolFailure) : Decidable (Blames failure) :=
  inferInstanceAs (Decidable (_ ∈ _))

def Frame.asks (frame : Frame) : Option PendingKind :=
  match frame.kind with
  | .permissionRequest => some .permission
  | .userInputRequest => some .userInput
  | _ => none

def Frame.settles (frame : Frame) : Option PendingKind :=
  match frame.kind with
  | .permissionResult => some .permission
  | .userInputResult => some .userInput
  | .actionAck => some .guiAction
  | _ => none

def Frame.key (frame : Frame) : Option PendingKey :=
  match frame.settles with
  | none => none
  | some .guiAction => frame.actionId.map fun actionId => (actionId, .guiAction)
  | some kind => frame.requestId.toOption.map fun requestId => (requestId, kind)

def Frame.Misnamed (frame : Frame) : Prop :=
  (frame.asks.isSome ∧ frame.requestId.toOption.all
    fun requestId => !(validateIdentifier requestId "request ID").isOk) ∨
  (frame.settles.isSome ∧ frame.key = none)
instance (frame : Frame) : Decidable frame.Misnamed := by unfold Frame.Misnamed; infer_instance

def Misnamed (value : Value) : Prop := ∃ frame ∈ (readFrame value).toOption, frame.Misnamed
instance (value : Value) : Decidable (Misnamed value) := by unfold Misnamed; infer_instance

/-! The reader's way to its verdict. -/

/-- What the reader of standard output has to say of the identifiers it saw; the other
tasks judge nothing. -/
inductive Verdict where
  | away
  | fine
  | blamed
  deriving DecidableEq, Repr

namespace Verdict

def ofFailure : Option ProtocolFailure → Verdict
  | some failure => if Blames failure then .blamed else .fine
  | none => .fine

def ofEntry : Entry → Verdict
  | .supervise .. | .stdoutReader .. => .fine
  | .finish _ _ failure => .ofFailure failure
  | _ => .away

def afterCall : (call : RunCall) → call.Answer → Verdict
  | .beginFrame value, _ => if Misnamed value then .blamed else .fine
  | .tracker (.register _ kind _), .error _ => if kind = .guiAction then .fine else .blamed
  | .tracker (.confirmResolved _ kind), false => if kind = .guiAction then .fine else .blamed
  | .tracker (.resolveActive _ kind), .error _ => if kind = .guiAction then .blamed else .fine
  | _, _ => .fine

def after : Verdict → (o : Act) → o.Answer → Verdict
  | .fine, .run _ call, answer => afterCall call answer
  | q, _, _ => q

end Verdict

abbrev judgments (sup : Supervisor) : Protocol (machine sup) where
  Place := Verdict
  enter := Verdict.ofEntry
  may _ _ := True
  after := Verdict.after
  ends _ := True

section Soundness
variable {sup : Supervisor} {session : SessionId} {run : RunId} {q : Verdict}

def Judges (result : Except ProtocolFailure Unit) (q : Verdict) : Prop :=
  q = .ofFailure (match result with | .ok () => none | .error failure => some failure)

theorem judgesOk : Judges (.ok ()) .fine := rfl

theorem judgesBlame {failure : ProtocolFailure} (blames : Blames failure) :
    Judges (.error failure) .blamed := (if_pos blames).symm

theorem judgesOther {failure : ProtocolFailure} (other : ¬ Blames failure) :
    Judges (.error failure) .fine := (if_neg other).symm

theorem requiredBlames {value : Option Value} {failure}
    (h : requiredString value "request_id" = .error failure) : Blames failure := by
  unfold requiredString at h
  split at h
  · split at h
    · cases h
    · cases h
      decide
  · cases h
    decide

theorem misnamedRefused {frame : Frame} (misnamed : frame.Misnamed) :
    ∃ failure, Blames failure ∧ applyFrame sup session run frame = pure (.error failure) := by
  have request : ∀ {kind waiting category}, category ∈ correlationCategories →
      (frame.requestId.toOption.all
        fun requestId => !(validateIdentifier requestId "request ID").isOk) = true →
      ∃ failure, Blames failure ∧
        handleRequest sup session run kind waiting category frame = pure (.error failure) := by
    intro kind waiting category blames invalid
    unfold handleRequest
    cases named : frame.requestId with
    | error failure => exact ⟨failure, requiredBlames named, rfl⟩
    | ok requestId =>
      refine ⟨⟨category, false⟩, blames, ?_⟩
      unfold registerPending
      cases valid : validateIdentifier requestId "request ID" with
      | error error =>
        dsimp only
        rw [valid]
        rfl
      | ok _ => simp [named, valid, Except.toOption, Except.isOk, Except.toBool] at invalid
  have result : ∀ {kind category}, (frame.requestId.toOption.map fun requestId => (requestId, kind)) =
      none → ∃ failure, Blames failure ∧
        handleResult session run kind category frame = pure (.error failure) := by
    intro kind category unnamed
    unfold handleResult
    cases named : frame.requestId with
    | error failure => exact ⟨failure, requiredBlames named, rfl⟩
    | ok requestId => simp [named, Except.toOption] at unnamed
  unfold Frame.Misnamed Frame.asks Frame.settles Frame.key Frame.settles at misnamed
  unfold applyFrame
  cases kind : frame.kind <;> simp only [kind, Option.isSome_some, Option.isSome_none, true_and,
    false_and, or_false, false_or, Bool.false_eq_true] at misnamed ⊢
  case permissionRequest => exact request (by decide) misnamed
  case userInputRequest => exact request (by decide) misnamed
  case permissionResult => exact result misnamed
  case userInputResult => exact result misnamed
  case actionAck =>
    refine ⟨⟨"uncorrelated_action_ack", false⟩, by decide, ?_⟩
    unfold handleAck
    rw [Option.map_eq_none_iff.mp misnamed]

theorem readerFine {α : Type} {p : Program α} (only : p.Only (fun o : Act =>
    ∀ answer : o.Answer, Verdict.after .fine o answer = .fine)) : (judgments sup).Stays .fine p :=
  staysOnly only fun _ stays => ⟨trivial, stays⟩

theorem registerPendingVerdict {requestId kind} (asks : kind ≠ .guiAction)
    (valid : validateIdentifier requestId "request ID" = .ok ()) :
    (judgments sup).Follows (fun result q => (result = .ok () ∧ q = .fine) ∨
      ((∃ error, result = .error error) ∧ q = .blamed)) .fine
      (registerPending sup session run requestId kind) := by
  unfold registerPending
  rw [valid]
  refine followsStep trivial fun start => followsStep trivial fun registered => ?_
  cases registered with
  | error error => exact .inr ⟨⟨error, rfl⟩, if_neg asks⟩
  | ok _ => exact followsStep trivial fun _ => .inl ⟨rfl, rfl⟩

theorem handleRequestVerdict {kind waiting category} {frame : Frame} (asks : kind ≠ .guiAction)
    (blames : category ∈ correlationCategories)
    (named : ∀ requestId, frame.requestId = .ok requestId →
      validateIdentifier requestId "request ID" = .ok ())
    (present : ∃ requestId, frame.requestId = .ok requestId) :
    (judgments sup).Follows Judges .fine
      (handleRequest sup session run kind waiting category frame) := by
  obtain ⟨requestId, found⟩ := present
  unfold handleRequest
  rw [found]
  refine followsSeq (registerPendingVerdict asks (named requestId found)) fun registered q' ends => ?_
  obtain ⟨rfl, rfl⟩ | ⟨⟨error, rfl⟩, rfl⟩ := ends
  · exact followsStep trivial fun _ => judgesOk
  · exact judgesBlame blames

theorem updateWaitingStateVerdict : (judgments sup).Stays .fine (updateWaitingState session run) :=
  readerFine ⟨fun _ => rfl, fun _ => ⟨fun _ => rfl, fun _ => trivial⟩⟩

theorem handleResultVerdict {kind category} {frame : Frame} (asks : kind ≠ .guiAction)
    (blames : category ∈ correlationCategories)
    (present : ∃ requestId, frame.requestId = .ok requestId) :
    (judgments sup).Follows Judges .fine (handleResult session run kind category frame) := by
  obtain ⟨requestId, found⟩ := present
  unfold handleResult
  rw [found]
  refine followsStep trivial fun confirmed => ?_
  cases confirmed with
  | true => exact staysSeq updateWaitingStateVerdict fun _ => judgesOk
  | false =>
    have blamed : Verdict.after .fine (.run run (.tracker (.confirmResolved requestId kind))) false =
        .blamed := if_neg asks
    exact followsFrom blamed (judgesBlame blames)

theorem handleAckVerdict {frame : Frame} (present : ∃ actionId, frame.actionId = some actionId) :
    (judgments sup).Follows Judges .fine (handleAck run frame) := by
  obtain ⟨actionId, found⟩ := present
  unfold handleAck
  rw [found]
  refine followsStep trivial fun acknowledged => ?_
  cases acknowledged with
  | ok _ => exact judgesOk
  | error error => exact judgesBlame (by decide)

theorem adoptBindingVerdict {frame : Frame} :
    (judgments sup).Follows Judges .fine (adoptBinding session run frame) := by
  unfold adoptBinding
  split
  · rename_i failure missing
    refine judgesOther ?_
    unfold requiredString at missing
    split at missing
    · split at missing
      · cases missing
      · cases missing
        decide
    · cases missing
      decide
  split
  · exact judgesOther (by decide)
  refine followsStep trivial fun existing => ?_
  split
  · split
    · exact judgesOther (by decide)
    · exact followsStep trivial fun _ => judgesOk
  · refine followsStep trivial fun token => followsStep trivial fun claimed => ?_
    split
    · exact judgesOther (by decide)
    · exact followsStep trivial fun _ => followsStep trivial fun _ => judgesOk

theorem applyFrameVerdict {frame : Frame} (named : ¬ frame.Misnamed) :
    (judgments sup).Follows Judges .fine (applyFrame sup session run frame) := by
  have present : ∀ {kind : PendingKind}, (frame.requestId.toOption.map fun requestId =>
      (requestId, kind)) ≠ none → ∃ requestId, frame.requestId = .ok requestId := by
    intro kind named
    cases found : frame.requestId with
    | ok requestId => exact ⟨requestId, rfl⟩
    | error failure => simp [found, Except.toOption] at named
  have request : ¬ (frame.requestId.toOption.all
      fun requestId => !(validateIdentifier requestId "request ID").isOk) = true →
      ∃ requestId, frame.requestId = .ok requestId ∧
        validateIdentifier requestId "request ID" = .ok () := by
    intro valid
    cases found : frame.requestId with
    | error failure => simp [found, Except.toOption] at valid
    | ok requestId =>
      refine ⟨requestId, rfl, ?_⟩
      cases checked : validateIdentifier requestId "request ID" with
      | ok _ => rfl
      | error error => simp [found, checked, Except.toOption, Except.isOk, Except.toBool] at valid
  unfold Frame.Misnamed Frame.asks Frame.settles Frame.key Frame.settles at named
  unfold applyFrame
  cases kind : frame.kind <;> simp only [kind, Option.isSome_some, Option.isSome_none, true_and,
    false_and, or_false, false_or, Bool.false_eq_true] at named ⊢
  case permissionRequest =>
    obtain ⟨requestId, found, valid⟩ := request named
    exact handleRequestVerdict (by decide) (by decide) (fun _ same => by
      cases found.symm.trans same; exact valid) ⟨requestId, found⟩
  case userInputRequest =>
    obtain ⟨requestId, found, valid⟩ := request named
    exact handleRequestVerdict (by decide) (by decide) (fun _ same => by
      cases found.symm.trans same; exact valid) ⟨requestId, found⟩
  case permissionResult => exact handleResultVerdict (by decide) (by decide) (present named)
  case userInputResult => exact handleResultVerdict (by decide) (by decide) (present named)
  case actionAck =>
    refine handleAckVerdict ?_
    cases found : frame.actionId with
    | some actionId => exact ⟨actionId, rfl⟩
    | none => simp [found] at named
  case binding => exact adoptBindingVerdict
  case resumed => exact adoptBindingVerdict
  all_goals exact judgesOk

theorem publishFrameVerdict {frame : Frame} :
    (judgments sup).Follows Judges .fine (publishFrame sup session run frame) := by
  refine followsStep trivial fun published => ?_
  split
  · exact judgesOther (by decide)
  refine followsStep trivial fun state => ?_
  split
  · exact followsStep trivial fun _ => judgesOk
  · exact judgesOk

theorem readFrameOther {value : Value} {failure} (h : readFrame value = .error failure) :
    ¬ Blames failure := by
  unfold readFrame at h
  repeat' split at h
  all_goals
    cases h
    try decide

theorem handleFrameVerdict {value} :
    (judgments sup).Follows Judges .fine (handleFrame sup session run value) := by
  refine followsStep trivial fun _ => ?_
  cases read : readFrame value with
  | error failure =>
    have named : Verdict.after .fine (.run run (.beginFrame value)) () = .fine :=
      if_neg (by simp [Misnamed, read, Except.toOption])
    exact followsFrom named (judgesOther (readFrameOther read))
  | ok frame =>
    by_cases misnamed : frame.Misnamed
    · have blamed : Verdict.after .fine (.run run (.beginFrame value)) () = .blamed :=
        if_pos ⟨frame, by simp [read, Except.toOption], misnamed⟩
      obtain ⟨failure, blames, refused⟩ : ∃ failure, Blames failure ∧
          applyFrame sup session run frame = pure (.error failure) := misnamedRefused misnamed
      refine followsFrom blamed ?_
      dsimp only
      rw [refused]
      exact judgesBlame blames
    · have named : Verdict.after .fine (.run run (.beginFrame value)) () = .fine :=
        if_neg (by simpa [Misnamed, read, Except.toOption] using misnamed)
      refine followsFrom named (followsSeq (applyFrameVerdict misnamed) fun applied q' judged => ?_)
      cases applied with
      | error failure => exact judged
      | ok _ =>
        cases judged
        exact publishFrameVerdict

theorem handleFramesVerdict {frames} :
    (judgments sup).Follows Judges .fine (handleFrames sup session run frames) := by
  induction frames with
  | nil => exact judgesOk
  | cons value rest ih =>
    refine followsSeq handleFrameVerdict fun handled q' judged => ?_
    cases handled with
    | error failure => exact judged
    | ok _ =>
      cases judged
      exact ih

theorem decoderOther {failure : ProtocolFailure}
    (decoder : failure.category ∈ JsonLineDecoder.categories ∧ failure.incompatible = false) :
    ¬ Blames failure := by
  have apart : ∀ category ∈ JsonLineDecoder.categories, category ∉ correlationCategories := by decide
  exact apart _ decoder.1

theorem readStdoutVerdict {decoder} : (judgments sup).Follows (judgments sup).EntryPost .fine
    (readStdout sup session run decoder) := by
  refine followsStep trivial fun read => ?_
  split
  · have other : ¬ Blames ⟨"stdout_io", false⟩ := by decide
    exact judgesOther other
  · change Verdict.fine = Verdict.ofFailure decoder.finish
    cases finished : decoder.finish with
    | none => rfl
    | some failure => exact judgesOther (decoderOther (JsonLineDecoder.finishCategory finished))
  refine followsStep trivial fun _ => followsSeq handleFramesVerdict fun handled q' judged => ?_
  cases handled with
  | error failure => exact judged
  | ok _ =>
    cases judged
    dsimp only
    split
    · rename_i failure failed
      exact judgesOther (decoderOther (JsonLineDecoder.pushCategory failed))
    · rfl

theorem settledStays {α : Type} {p : Program α} (settled : q ≠ .fine) : (judgments sup).Stays q p := by
  induction p with
  | done value => rfl
  | act o next ih =>
    have stays : ∀ answer : o.Answer, q.after o answer = q := by
      intro answer
      cases q <;> first | rfl | exact absurd rfl settled
    exact ⟨trivial, fun answer => followsFrom (stays answer) (ih answer)⟩

theorem finishVerdict {failure} : (judgments sup).Stays q (finishRun sup session run failure) := by
  by_cases fine : q = .fine
  · subst fine
    have calls : (finishRun sup session run failure).Only (FinishAct session run) := finishRunFinish
    refine readerFine (onlyImp calls fun o finishes answer => ?_)
    cases o <;> try rfl
    case run r call =>
      cases call <;> first | rfl | exact finishes.2.elim | skip
      case tracker call => cases call <;> first | rfl | exact finishes.2.elim
  · exact settledStays fine

theorem awayReturns {p : Program (Option Entry)}
    (returns : p.Returns (fun next => ∀ e, next = some e → Verdict.ofEntry e = .away)) :
    (judgments sup).Follows (judgments sup).EntryPost .away p := by
  induction p with
  | done next =>
    cases next with
    | none => trivial
    | some e => exact (returns e rfl).symm
  | act o next ih => exact ⟨trivial, fun answer => ih answer (returns answer)⟩

theorem judgmentsSound : (judgments sup).Sound := by
  have ended : ∀ {next : Option Entry}, next = none → ∀ e, next = some e → Verdict.ofEntry e = .away := by
    rintro _ rfl e same
    cases same
  have replied : ∀ {call : Program (Except MaestroError Unit)},
      (judgments sup).Follows (judgments sup).EntryPost .away (reply call) :=
    awayReturns (returnsImp replyReturns fun _ => ended)
  intro e
  cases e with
  | supervise session run => exact followsStep trivial fun _ => rfl
  | stdoutReader session run decoder => exact readStdoutVerdict
  | finish session run failure => exact staysSeq finishVerdict fun _ => trivial
  | expiry =>
    exact awayReturns (returnsThen fun _ => returnsThen fun _ => ended rfl)
  | stderrReader =>
    refine awayReturns (returnsImp readStderrReturns ?_)
    rintro _ (rfl | rfl) e same <;> cases same
    rfl
  | monitor =>
    refine awayReturns (returnsImp monitorReturns ?_)
    rintro _ (rfl | ⟨state, rfl⟩) e same <;> cases same
    rfl
  | monitorLoop =>
    refine awayReturns (returnsImp monitorLoopReturns ?_)
    rintro _ (rfl | ⟨state, rfl⟩) e same <;> cases same
    rfl
  | _ => exact replied

end Soundness

/-! The child that behaves, and the frames that come in time. -/

/-- The requests and actions whose lines the child has read to their end. -/
def RunControl.received (c : RunControl) : List PendingKey :=
  match c.process.stdin with
  | none => []
  | some stdin =>
      (c.process.lines.take ((stdin.sent.take stdin.consumed).count 10)).map Purpose.key

def RunControl.settlements (c : RunControl) (key : PendingKey) : Nat :=
  c.process.frames.countP fun value => (readFrame value).toOption.bind Frame.key = some key

def RunControl.outstanding (c : RunControl) : Nat :=
  c.pending.registered.countP fun key => key.2 ≠ .guiAction ∧ c.settlements key = 0

/-- The frame keeps the promises of the child: its identifiers are well formed, a new
request has an identifier of its own and room, and what the child received it answers once.
The identifiers the supervisor draws for actions are new as well. -/
def RunControl.WellBehaved (c : RunControl) : RunCall → Prop
  | .beginFrame value => ¬ Misnamed value
  | .tracker (.register requestId kind _) => requestId ∉ c.pending.registered.map Prod.fst ∧
      (kind ≠ .guiAction → c.outstanding < c.pending.capacity)
  | .tracker (.confirmResolved requestId kind) | .tracker (.resolveActive requestId kind) =>
      (requestId, kind) ∈ c.received ∧ c.settlements (requestId, kind) = 1
  | _ => True
instance (c : RunControl) (call) : Decidable (c.WellBehaved call) := by
  unfold RunControl.WellBehaved
  split <;> infer_instance

/-- The tracker has room for the request, has not forgotten the answered one, and has
neither settled nor outlived the action. -/
def RunControl.InTime (c : RunControl) (now : Instant) : RunCall → Prop
  | .tracker (.register _ kind _) => kind ≠ .guiAction →
      c.pending.active.keys.length + c.pending.inFlight.keys.length < c.pending.capacity
  | .tracker (.confirmResolved requestId kind) =>
      (requestId, kind) ∈ c.pending.remembered → (requestId, kind) ∈ c.pending.resolvedOrder
  | .tracker (.resolveActive requestId kind) => (requestId, kind) ∉ c.pending.remembered ∧
      ∀ pending ∈ c.pending.active.lookup requestId, now < pending.deadline
  | _ => True
instance (c : RunControl) (now call) : Decidable (c.InTime now call) := by
  unfold RunControl.InTime
  split <;> infer_instance

def Act.WellBehaved (m : Memory) : Act → Prop
  | .run r call => ∀ control ∈ m.runs r, control.WellBehaved call
  | _ => True
instance (m : Memory) (o : Act) : Decidable (o.WellBehaved m) := by
  unfold Act.WellBehaved
  split <;> infer_instance

def Act.InTime (m : Memory) : Act → Prop
  | .run r call => ∀ control ∈ m.runs r, control.InTime m.now call
  | _ => True
instance (m : Memory) (o : Act) : Decidable (o.InTime m) := by
  unfold Act.InTime
  split <;> infer_instance

/-! Every identifier has one registration, which is pending or remembered. -/

def Purpose.Names (registered : List PendingKey) : Purpose → Prop
  | .response requestId kind registration | .cancellation requestId kind registration =>
      registered[registration]? = some (requestId, kind)
  | .action actionId => (actionId, .guiAction) ∈ registered

def Delivery.line : Delivery → Option (RunId × Purpose)
  | .idle | .offered => none
  | .claimed run requestId kind registration => some (run, .response requestId kind registration)
  | .expired run requestId kind registration => some (run, .cancellation requestId kind registration)
  | .acting run actionId => some (run, .action actionId)

structure Named (c : RunControl) : Prop where
  wellformed : c.pending.Wellformed
  unique : (c.pending.registered.map Prod.fst).Nodup
  lines : ∀ purpose ∈ c.process.lines, purpose.Names c.pending.registered
  answerable : ∀ {requestId pending}, c.pending.inFlight.lookup requestId = some pending →
    pending.kind ≠ .guiAction
  known : c.finalized = false → ∀ key ∈ c.pending.registered,
    (∃ pending, c.pending.Pending key.1 pending ∧ pending.kind = key.2) ∨ key ∈ c.pending.remembered

section Naming
variable {sup : Supervisor} {c c' : RunControl} {run : RunId} {q : Delivery}

theorem namesLonger {registered longer : List PendingKey} (grown : registered <+: longer)
    {purpose : Purpose} (names : purpose.Names registered) : purpose.Names longer := by
  have still : ∀ {n : Nat} {key}, registered[n]? = some key → longer[n]? = some key := by
    obtain ⟨rest, rfl⟩ := grown
    intro n key found
    rw [List.getElem?_append_left (List.getElem?_eq_some_iff.mp found).1, found]
  cases purpose with
  | action actionId => exact grown.subset names
  | response requestId kind n => exact still names
  | cancellation requestId kind n => exact still names

structure NamedCall (run : RunId) (c c' : RunControl) (q' : Delivery) : Prop where
  named : Named c'
  own : ∀ purpose, q'.line = some (run, purpose) → purpose.Names c'.pending.registered
  grown : c.pending.registered <+: c'.pending.registered

theorem outcomeUnique {now : Instant} {call : PendingTracker.Call} {answer : call.Answer}
    {t t' : PendingTracker} (unique : (t.registered.map Prod.fst).Nodup)
    (fresh : ∀ requestId kind deadline, call = .register requestId kind deadline →
      requestId ∉ t.registered.map Prod.fst)
    (outcome : PendingTracker.Outcome t now call answer t') : (t'.registered.map Prod.fst).Nodup := by
  rcases PendingTracker.outcomeRegisters outcome with same | ⟨requestId, kind, deadline, rfl, longer, _⟩
  · rwa [same]
  · rw [longer, List.map_append]
    refine List.nodup_append.mpr ⟨unique, List.nodup_singleton _, ?_⟩
    intro name old _ last equal
    cases List.mem_singleton.mp last
    have same : name = requestId := equal
    exact fresh requestId kind deadline rfl (same ▸ old)

theorem outcomeKnown {now : Instant} {call : PendingTracker.Call} {answer : call.Answer}
    {t t' : PendingTracker} (wf : t.Wellformed) (lasting : call ≠ .clearActive)
    (known : ∀ key ∈ t.registered,
      (∃ pending, t.Pending key.1 pending ∧ pending.kind = key.2) ∨ key ∈ t.remembered)
    (outcome : PendingTracker.Outcome t now call answer t') : ∀ key ∈ t'.registered,
      (∃ pending, t'.Pending key.1 pending ∧ pending.kind = key.2) ∨ key ∈ t'.remembered := by
  have old : ∀ key ∈ t.registered,
      (∃ pending, t'.Pending key.1 pending ∧ pending.kind = key.2) ∨ key ∈ t'.remembered := by
    rintro ⟨requestId, kind⟩ member
    rcases known _ member with ⟨pending, found, rfl⟩ | settled
    · rcases PendingTracker.outcomeKeeps wf outcome lasting found with still | settled
      · exact .inl ⟨pending, still, rfl⟩
      · exact .inr settled
    · exact .inr ((PendingTracker.outcomeRemembered outcome).subset settled)
  intro key member
  rcases PendingTracker.outcomeRegisters outcome with same | ⟨requestId, kind, deadline, rfl, longer, new⟩
  · exact old key (same ▸ member)
  · rw [longer] at member
    rcases List.mem_append.mp member with before | last
    · exact old key before
    · cases List.mem_singleton.mp last
      exact .inl ⟨_, new, rfl⟩

theorem outcomeOwn {now : Instant} {call : PendingTracker.Call} {answer : call.Answer}
    {t : PendingTracker} (wf : c.pending.Wellformed)
    (own : ∀ purpose, q.line = some (run, purpose) → purpose.Names c.pending.registered)
    (outcome : PendingTracker.Outcome c.pending now call answer t) :
    ∀ purpose, (q.afterCall run (.tracker call) answer).line = some (run, purpose) →
      purpose.Names t.registered := by
  have still : ∀ purpose, q.line = some (run, purpose) → purpose.Names t.registered :=
    fun purpose line => namesLonger (PendingTracker.outcomeRegistered outcome) (own purpose line)
  cases outcome with
  | @registered requestId kind deadline free new =>
    intro purpose line
    dsimp only [Delivery.afterCall] at line
    split at line
    · rename_i action
      cases line
      change (requestId, PendingKind.guiAction) ∈ _
      simp [action]
    · exact still purpose line
  | @claimed requestId pending found early =>
    intro purpose line
    cases line
    exact wf.named (.inl found)
  | @expired requestId pending _ found due settles =>
    intro purpose line
    cases line
    change t.registered[pending.registration]? = some (requestId, pending.kind)
    rw [settles.registered]
    exact wf.named (.inl found)
  | restored found =>
    intro purpose line
    cases line
  | unchanged idle =>
    cases call <;> first | exact still | skip
    case register => cases answer <;> first | exact idle.elim | exact still
    case claimActive => cases answer <;> first | exact idle.elim | exact still
    case expire => cases answer <;> first | exact idle.elim | exact still
    case restoreInFlight =>
      intro purpose line
      cases line
  | @settled call answer _ _ _ settling _ settles =>
    have stays : q.afterCall run (.tracker call) answer = q := by
      cases call <;> cases answer <;> first | rfl | exact settling.elim
    rw [stays]
    exact still
  | confirmed => exact still
  | cleared => exact still

theorem trackerNamed {now : Instant} {call : PendingTracker.Call} (named : Named c)
    (own : ∀ purpose, q.line = some (run, purpose) → purpose.Names c.pending.registered)
    (may : q.mayCall run (.tracker call))
    (fresh : ∀ requestId kind deadline, call = .register requestId kind deadline →
      requestId ∉ c.pending.registered.map Prod.fst)
    (ended : call = .clearActive → c.finalized = true) :
    NamedCall run c { c with pending := (c.pending.perform now call).2 }
      (q.afterCall run (.tracker call) (c.pending.perform now call).1) := by
  have wf := named.wellformed
  have outcome := PendingTracker.performOutcome wf now call
  have grown := PendingTracker.outcomeRegistered outcome
  refine ⟨⟨PendingTracker.performWellformed wf now call, outcomeUnique named.unique fresh outcome,
    fun purpose member => namesLonger grown (named.lines purpose member), ?_, ?_⟩,
    outcomeOwn wf own outcome, grown⟩
  · intro requestId pending found
    rcases PendingTracker.outcomeInFlight outcome found with old | rfl
    · exact named.answerable old
    · exact may.2
  · intro opened
    refine outcomeKnown wf ?_ (named.known opened) outcome
    rintro rfl
    rw [ended rfl] at opened
    cases opened

theorem writeNamed {bytes purpose now choice} {answer : Bool} (named : Named c)
    (own : ∀ purpose, q.line = some (run, purpose) → purpose.Names c.pending.registered)
    (may : q.mayCall run (.stdinWrite bytes purpose))
    (h : c.perform sup now choice (.stdinWrite bytes purpose) = some (answer, c')) :
    NamedCall run c c' (q.afterCall run (.stdinWrite bytes purpose) answer) := by
  have line : q.line = some (run, purpose) := by
    cases purpose <;> (cases may; rfl)
  have after : ∀ p, (q.afterCall run (.stdinWrite bytes purpose) answer).line = some (run, p) →
      q.line = some (run, p) := by
    intro p same
    cases purpose <;> cases answer <;> first | exact same | cases same
  simp only [RunControl.perform] at h
  split at h <;> cases Option.some.inj h
  · exact ⟨named, fun p same => own p (after p same), List.prefix_refl _⟩
  · refine ⟨⟨named.wellformed, named.unique, ?_, named.answerable, named.known⟩,
      fun p same => own p (after p same), List.prefix_refl _⟩
    intro p member
    rcases List.mem_append.mp member with old | last
    · exact named.lines p old
    · cases List.mem_singleton.mp last
      exact own purpose line

theorem performNamed {now choice call} {answer : RunCall.Answer call} (named : Named c)
    (own : ∀ purpose, q.line = some (run, purpose) → purpose.Names c.pending.registered)
    (may : q.mayCall run call)
    (fresh : ∀ requestId kind deadline, call = .tracker (.register requestId kind deadline) →
      requestId ∉ c.pending.registered.map Prod.fst)
    (ended : call = .tracker .clearActive → c.finalized = true)
    (h : c.perform sup now choice call = some (answer, c')) :
    NamedCall run c c' (q.afterCall run call answer) := by
  cases call with
  | tracker call =>
    cases Option.some.inj h
    exact trackerNamed named own may (fun requestId kind deadline same => fresh requestId kind deadline
      (congrArg RunCall.tracker same)) fun same => ended (congrArg RunCall.tracker same)
  | stdinWrite bytes purpose => exact writeNamed named own may h
  | _ =>
    have kept : c'.pending = c.pending ∧ c'.process.lines = c.process.lines ∧
        (c'.finalized = false → c.finalized = false) := by
      simp only [RunControl.perform] at h
      repeat' split at h
      all_goals first | contradiction | (cases Option.some.inj h; simp)
    obtain ⟨pending, lines, opened⟩ := kept
    refine ⟨⟨?_, ?_, ?_, ?_, ?_⟩, ?_, ?_⟩
    all_goals rw [pending]
    · exact named.wellformed
    · exact named.unique
    · rw [lines]
      exact named.lines
    · exact named.answerable
    · exact fun closed => named.known (opened closed)
    · exact own

end Naming

abbrev naming (sup : Supervisor) : Outline (deliveries sup) where
  Inv m := ∀ run control, m.runs run = some control → Named control
  Here q m := ∀ run purpose, q.line = some (run, purpose) →
    ∃ control, m.runs run = some control ∧ purpose.Names control.pending.registered
  Apart _ _ := True

/-- A new child starts with a run of its own, identifiers are new, and a run's entries are
dropped only after it ended. -/
def Act.Names (m : Memory) : Act → Prop
  | .spawnStructured _ r .. => m.runs r = none
  | .run r (.tracker (.register requestId _ _)) => ∀ control ∈ m.runs r,
      requestId ∉ control.pending.registered.map Prod.fst
  | .run r (.tracker .clearActive) => ∀ control ∈ m.runs r, control.finalized = true
  | _ => True

section Validity
variable {sup : Supervisor}

theorem lineElsewhere {q : Delivery} {run call} {answer : RunCall.Answer call} {r purpose}
    (different : r ≠ run) (line : (q.afterCall run call answer).line = some (r, purpose)) :
    q.line = some (r, purpose) := by
  have mine : ∀ {purpose'}, some (run, purpose') = some (r, purpose) → q.line = some (r, purpose) := by
    intro purpose' same
    cases same
    exact absurd rfl different
  cases call <;> try exact line
  case tracker call =>
    cases call <;> try exact line
    case register requestId kind deadline =>
      cases answer with
      | error error => exact line
      | ok _ =>
        dsimp only [Delivery.afterCall] at line
        split at line
        · exact mine line
        · exact line
    case claimActive => cases answer <;> first | exact line | exact mine line
    case expire => cases answer <;> first | exact line | exact mine line
    case restoreInFlight => cases line
  case stdinWrite bytes purpose =>
    cases purpose <;> cases answer <;> first | exact line | cases line

theorem grownNaming {m m' : Memory} {q q' : Delivery} {new : Option Entry}
    (inv : (naming sup).Inv m') (here : (naming sup).Here q' m')
    (grown : ∀ run control, m.runs run = some control → ∃ control', m'.runs run = some control' ∧
      control.pending.registered <+: control'.pending.registered) :
    (naming sup).Kept m m' q q' new := by
  refine ⟨inv, here, fun e _ => ⟨fun _ _ line => (by cases line), trivial⟩, ?_⟩
  intro other otherHere _
  refine ⟨fun run purpose line => ?_, trivial, fun _ _ => trivial⟩
  obtain ⟨control, found, names⟩ := otherHere run purpose line
  obtain ⟨control', found', longer⟩ := grown run control found
  exact ⟨control', found', namesLonger longer names⟩

theorem sameNaming {m m' : Memory} {q : Delivery} {new : Option Entry}
    (same : ∀ run, m'.runs run = m.runs run) (inv : (naming sup).Inv m) (here : (naming sup).Here q m) :
    (naming sup).Kept m m' q q new := by
  refine grownNaming (fun run control found => inv run control ((same run).symm.trans found)) ?_
    fun run control found => ⟨control, (same run).trans found, List.prefix_refl _⟩
  intro run purpose line
  obtain ⟨control, found, names⟩ := here run purpose line
  exact ⟨control, (same run).trans found, names⟩

theorem callNaming {m : Memory} {q q' : Delivery} {run control control'} (inv : (naming sup).Inv m)
    (here : (naming sup).Here q m) (found : m.runs run = some control)
    (elsewhere : ∀ r purpose, r ≠ run → q'.line = some (r, purpose) → q.line = some (r, purpose))
    (moved : NamedCall run control control' q') :
    (naming sup).Kept m { m with runs := Function.update m.runs run (some control') } q q' none := by
  refine grownNaming ?_ ?_ ?_
  · intro r c found'
    rcases updatedControl found' with ⟨rfl, rfl⟩ | ⟨_, old⟩
    · exact moved.named
    · exact inv r c old
  · intro r purpose line
    by_cases same : r = run
    · subst same
      exact ⟨control', Function.update_self .., moved.own purpose line⟩
    · obtain ⟨c, found', names⟩ := here r purpose (elsewhere r purpose same line)
      exact ⟨c, (Function.update_of_ne same ..).trans found', names⟩
  · intro r c found'
    by_cases same : r = run
    · subst same
      cases Option.some.inj (found.symm.trans found')
      exact ⟨control', Function.update_self .., moved.grown⟩
    · exact ⟨c, (Function.update_of_ne same ..).trans found', List.prefix_refl _⟩

theorem newNamed {session token binding capture} : Named (.new sup session token binding capture) := by
  refine ⟨PendingTracker.newWellformed _, ?_, ?_, ?_, ?_⟩ <;>
    simp [RunControl.new, PendingTracker.new, Process.spawned]

theorem namingValid : (naming sup).Valid fun _ o m => o.Names m where
  symm := id
  call := fun _ _ => ⟨fun _ _ line => (by cases line), fun _ _ => trivial⟩
  act := by
    intro q o choice m answer m' inv here may names effect
    change apply sup o choice m = some (answer, m') at effect
    cases o with
    | run run call =>
      obtain ⟨control, control', found, performed, rfl⟩ := applyRun effect
      refine callNaming inv here found (fun r purpose => lineElsewhere)
        (performNamed (inv run control found) ?_ may ?_ ?_ performed)
      · intro purpose line
        obtain ⟨control₁, found₁, own⟩ := here run purpose line
        cases Option.some.inj (found.symm.trans found₁)
        exact own
      · rintro requestId kind deadline rfl
        exact names control found
      · rintro rfl
        exact names control found
    | spawnStructured session run token binding capture spec =>
      have unknown : m.runs run = none := names
      simp only [apply] at effect
      split at effect
      · cases Option.some.inj effect
        have beside : ∀ r c, m.runs r = some c → r ≠ run := by
          rintro r c found rfl
          rw [unknown] at found
          cases found
        refine grownNaming ?_ ?_ fun r c found => ⟨c, ?_, List.prefix_refl _⟩
        · intro r c found
          rcases updatedControl found with ⟨rfl, rfl⟩ | ⟨_, old⟩
          · exact newNamed
          · exact inv r c old
        · intro r purpose line
          obtain ⟨c, found, named⟩ := here r purpose line
          exact ⟨c, (Function.update_of_ne (beside r c found) ..).trans found, named⟩
        · exact (Function.update_of_ne (beside r c found) ..).trans found
      · cases Option.some.inj effect
        exact sameNaming (fun _ => rfl) inv here
      · contradiction
    | _ => exact sameNaming (fun run => runsKept effect (by simp) (by simp)) inv here
  outside := by
    intro x m m' inv effect
    rcases outsideCases effect with ⟨elapsed, rfl, rfl⟩ | ⟨run, control, process, _, found, moved, rfl⟩
    · exact ⟨inv, fun _ here => here⟩
    · have lines := outsideControl moved
      have kept : ∀ {q : Delivery}, (naming sup).Here q m → (naming sup).Kept m { m with
          runs := Function.update m.runs run (some { control with process := process }) } q q none := by
        intro q here
        have named := inv run control found
        refine callNaming inv here found (fun _ _ _ line => line) ⟨⟨named.wellformed, named.unique, ?_,
          named.answerable, named.known⟩, ?_, List.prefix_refl _⟩
        · rw [lines]
          exact named.lines
        · intro purpose line
          obtain ⟨control₁, found₁, names⟩ := here run purpose line
          cases Option.some.inj (found.symm.trans found₁)
          exact names
      exact ⟨(kept (q := .idle) fun _ _ line => (by cases line)).inv, fun q here => (kept here).here⟩

end Validity

section Judging
variable {sup : Supervisor} {c : RunControl} {requestId : String} {kind : PendingKind}

theorem registeredOnce {registered : List PendingKey} (unique : (registered.map Prod.fst).Nodup)
    {i j : Nat} {key key' : PendingKey} (one : registered[i]? = some key)
    (other : registered[j]? = some key') (same : key.1 = key'.1) : i = j := by
  have bound : i < (registered.map Prod.fst).length := by
    simpa using (List.getElem?_eq_some_iff.mp one).1
  refine (List.getElem?_inj bound unique).mp ?_
  simp [one, other, same]

theorem receivedLine (received : (requestId, kind) ∈ c.received) :
    ∃ purpose ∈ c.process.lines, purpose.key = (requestId, kind) := by
  unfold RunControl.received at received
  split at received
  · cases received
  · obtain ⟨purpose, member, same⟩ := List.mem_map.mp received
    exact ⟨purpose, List.mem_of_mem_take member, same⟩

theorem receivedRequest (named : Named c) (answerable : Answerable c) (opened : c.finalized = false)
    (asks : kind ≠ .guiAction) (received : (requestId, kind) ∈ c.received) :
    PendingTracker.holds c.pending.inFlight requestId kind = true ∨
      (requestId, kind) ∈ c.pending.remembered := by
  obtain ⟨purpose, member, key⟩ := receivedLine received
  have names := named.lines purpose member
  have registered : ∃ n, purpose.registration = some n ∧
      c.pending.registered[n]? = some (requestId, kind) := by
    cases purpose with
    | action actionId =>
      cases key
      exact absurd rfl asks
    | response name k n =>
      cases key
      exact ⟨n, rfl, names⟩
    | cancellation name k n =>
      cases key
      exact ⟨n, rfl, names⟩
  obtain ⟨n, answers, found⟩ := registered
  rcases named.known opened _ (List.mem_of_getElem? found) with ⟨pending, present, same⟩ | settled
  · refine .inl ?_
    rcases present with active | flying
    · -- Its right to an answer is spent, so the entry cannot be active again.
      have spent : n ∈ c.answered := List.mem_filterMap.mpr ⟨purpose, member, answers⟩
      have here := named.wellformed.named (.inl active)
      exact absurd (registeredOnce named.unique here found rfl)
        ((answerable.spent spent).inactive active)
    · unfold PendingTracker.holds
      rw [flying]
      simpa using same
  · exact .inr settled

theorem receivedAction (named : Named c) (opened : c.finalized = false)
    (received : (requestId, PendingKind.guiAction) ∈ c.received)
    (unsettled : (requestId, PendingKind.guiAction) ∉ c.pending.remembered) :
    ∃ pending, c.pending.active.lookup requestId = some pending ∧ pending.kind = .guiAction := by
  obtain ⟨purpose, member, key⟩ := receivedLine received
  have names := named.lines purpose member
  have registered : (requestId, PendingKind.guiAction) ∈ c.pending.registered := by
    cases purpose with
    | action actionId =>
      cases key
      exact names
    | response name k n =>
      cases key
      exact List.mem_of_getElem? names
    | cancellation name k n =>
      cases key
      exact List.mem_of_getElem? names
  rcases named.known opened _ registered with ⟨pending, active | flying, same⟩ | settled
  · exact ⟨pending, active, same⟩
  · exact absurd same (named.answerable flying)
  · exact absurd settled unsettled

theorem performFine {now choice call} {answer : RunCall.Answer call} {c' : RunControl}
    (named : Named c) (answerable : Answerable c)
    (opened : (∃ id k, call = .tracker (.confirmResolved id k) ∨ call = .tracker (.resolveActive id k)) →
      c.finalized = false)
    (behaves : c.WellBehaved call) (inTime : c.InTime now call)
    (h : c.perform sup now choice call = some (answer, c')) :
    Verdict.afterCall call answer = .fine := by
  have wf := named.wellformed
  cases call <;> try rfl
  case beginFrame value => exact if_neg behaves
  case tracker call =>
    cases Option.some.inj h
    cases call <;> try rfl
    case register requestId kind deadline =>
      by_cases action : kind = .guiAction
      · dsimp only [PendingTracker.perform]
        cases (c.pending.register requestId kind deadline).1 with
        | ok _ => rfl
        | error error => exact if_pos action
      · dsimp only [PendingTracker.perform]
        rw [PendingTracker.freshRegisters wf (inTime action) behaves.1]
        rfl
    case confirmResolved requestId kind =>
      by_cases action : kind = .guiAction
      · dsimp only [PendingTracker.perform]
        cases (c.pending.confirmResolved requestId kind).1 with
        | true => rfl
        | false => exact if_pos action
      · have confirmed := PendingTracker.answeredConfirms wf
          ((receivedRequest named answerable (opened ⟨requestId, kind, .inl rfl⟩) action behaves.1).imp
            id inTime)
        dsimp only [PendingTracker.perform]
        rw [confirmed]
        rfl
    case resolveActive requestId kind =>
      by_cases action : kind = .guiAction
      · subst action
        obtain ⟨pending, active, same⟩ := receivedAction named
          (opened ⟨requestId, .guiAction, .inr rfl⟩) behaves.1 inTime.1
        have resolved := PendingTracker.activeResolves active (inTime.2 pending active)
        rw [same] at resolved
        dsimp only [PendingTracker.perform]
        rw [resolved]
        rfl
      · dsimp only [PendingTracker.perform]
        cases (c.pending.resolveActive requestId kind now).1 with
        | ok _ => rfl
        | error error => exact if_neg action

end Judging

section Correlating
variable {sup : Supervisor}

def Behaves (c : Config (machine sup)) : Event (machine sup) → Prop
  | .run index _ => ∀ t ∈ c.tasks[index]?, ∀ o ∈ t.next, o.WellBehaved c.memory
  | _ => True
instance (c : Config (machine sup)) (e) : Decidable (Behaves c e) :=
  match e with
  | .run index _ => inferInstanceAs (Decidable (∀ t ∈ c.tasks[index]?, ∀ o ∈ t.next, o.WellBehaved c.memory))
  | .call _ | .outside _ => .isTrue trivial

def Correlated (c : Config (machine sup)) : Event (machine sup) → Prop
  | .run index _ => ∀ t ∈ c.tasks[index]?, ∀ o ∈ t.next, o.WellBehaved c.memory ∧ o.InTime c.memory
  | _ => True
instance (c : Config (machine sup)) (e) : Decidable (Correlated c e) :=
  match e with
  | .run index _ => inferInstanceAs (Decidable (∀ t ∈ c.tasks[index]?, ∀ o ∈ t.next, _ ∧ _))
  | .call _ | .outside _ => .isTrue trivial

theorem finalizedHere {c : Config (machine sup)} (holds : (lineage sup).Holds c)
    {index choice t r call answer memory next control}
    (performs : Performs c index choice t (.run r call) answer memory next)
    (found : c.memory.runs r = some control) :
    ((∃ session, (roles sup).place t = .supervising session r) → control.finalized = false) ∧
    ((∃ session, (roles sup).place t = .closing session r) → control.finalized = true) := by
  have backs : c.memory.ledger.Backs ((roles sup).place t) := holds.here performs.present
  have same : c.memory.ledger.finalized r = control.finalized := by simp [Memory.ledger, found]
  constructor
  · rintro ⟨session, place⟩
    rw [place] at backs
    exact same.symm.trans backs.1
  · rintro ⟨session, place⟩
    rw [place] at backs
    exact same.symm.trans backs.1

theorem correlatedNames {c : Config (machine sup)} {index choice t o answer memory next}
    (holds : (lineage sup).Holds c) (good : Correlated c (.run index choice))
    (performs : Performs c index choice t o answer memory next) : o.Names c.memory := by
  have behaves := (good t performs.present o (performsNext performs)).1
  have may := (performsObeys rolesSound holds.placed performs).allowed
  cases o <;> try exact trivial
  case spawnStructured => exact spawnsUnknown holds performs
  case run r call =>
    cases call <;> try exact trivial
    case tracker call =>
      cases call <;> try exact trivial
      case register => exact fun control found => (behaves control found).1
      case clearActive => exact fun control found => (finalizedHere holds performs found).2 may

theorem reachNaming {c : Config (machine sup)} (h : Reach Correlated (initially sup) c) :
    (naming sup).Holds c := by
  have first : (naming sup).Holds (initially sup) :=
    Outline.holdsEmpty fun run control found => by cases found
  exact Outline.reachHolds deliveriesSound namingValid first
    (fun reached _ good performs => correlatedNames (reachLineage reached) good performs) h

theorem restoresNamed {c : Config (machine sup)} (holds : (naming sup).Holds c) (e) :
    RestoresOwn c e := by
  cases e with
  | call e => trivial
  | outside x => trivial
  | run index choice =>
    intro t present o next
    have may := placedNext (holds.placed t (List.mem_of_getElem? present)) next
    have here := holds.here present
    cases o <;> try exact trivial
    case run run call =>
      cases call <;> try exact trivial
      case tracker call =>
        cases call <;> try exact trivial
        case restoreInFlight requestId kind =>
          rintro control found pending inFlight rfl
          obtain ⟨n, claimed⟩ := may
          have named := holds.inv run control found
          rw [claimed] at here ⊢
          obtain ⟨control₁, found₁, names⟩ := here run _ rfl
          cases Option.some.inj (found.symm.trans found₁)
          rw [registeredOnce named.unique names (named.wellformed.named (.inr inFlight)) rfl]

theorem reachRestores {c : Config (machine sup)} (h : Reach Correlated (initially sup) c) :
    Reach RestoresOwn (initially sup) c := by
  induction h with
  | start => exact .start
  | step before _ moves ih => exact .step ih (restoresNamed (reachNaming before) _) moves

theorem correlatedFine {c : Config (machine sup)} (h : Reach Correlated (initially sup) c)
    {index choice t run call answer memory next} (good : Correlated c (.run index choice))
    (performs : Performs c index choice t (.run run call) answer memory next) :
    Verdict.afterCall call answer = .fine := by
  have effect : apply sup (.run run call) choice c.memory = some (answer, memory) := performs.effect
  obtain ⟨control, control', found, performed, _⟩ := applyRun effect
  obtain ⟨behaves, inTime⟩ := good t performs.present _ (performsNext performs)
  have holds := reachLineage h
  refine performFine ((reachNaming h).inv run control found)
    ((reachAnswering (reachRestores h)).inv run control found) ?_ (behaves control found)
    (inTime control found) performed
  have may := (performsObeys rolesSound holds.placed performs).allowed
  rintro ⟨requestId, kind, rfl | rfl⟩
  · exact (finalizedHere holds performs found).1 may
  · exact (finalizedHere holds performs found).1 may

def Judged (c : Config (machine sup)) : Prop := ∀ t ∈ c.tasks, (judgments sup).place t ≠ .blamed

theorem spawnedFine {q : Role} {e : Entry} (may : q.maySpawn e) : Verdict.ofEntry e ≠ .blamed := by
  cases e <;> first | exact may.elim | exact Verdict.noConfusion

theorem calledFine {e : Entry} (callable : e.isCall = true) : Verdict.ofEntry e ≠ .blamed := by
  cases e <;> first | exact Verdict.noConfusion | cases callable

theorem judgedMoves {c c' : Config (machine sup)} {e} (h : Reach Correlated (initially sup) c)
    (fine : Judged c) (good : Correlated c e) (moves : Moves c e c') : Judged c' := by
  have placed : ∀ t ∈ c.tasks, (judgments sup).Placed t := reachPlaced judgmentsSound (by simp [initially]) h
  intro t member
  cases moves with
  | call allowed =>
    rcases List.mem_append.mp member with old | new
    · exact fine t old
    · cases List.mem_singleton.mp new
      exact calledFine allowed
  | outside => exact fine t member
  | @act index choice u o answer memory next performs =>
    obtain ⟨j, found⟩ := List.getElem?_of_mem member
    rcases taskCases found with ⟨_, rfl⟩ | ⟨_, old⟩ | ⟨_, e, spawn, rfl⟩
    · rw [(performsObeys judgmentsSound placed performs).reached]
      have before := fine u (List.mem_of_getElem? performs.present)
      cases place : (judgments sup).place u with
      | blamed => exact absurd place before
      | away => exact Verdict.noConfusion
      | fine =>
        cases o with
        | run run call =>
          change Verdict.afterCall call answer ≠ .blamed
          rw [correlatedFine h good performs]
          exact Verdict.noConfusion
        | _ => exact Verdict.noConfusion
    · exact fine t (List.mem_of_getElem? old)
    · cases o <;> cases spawn
      exact spawnedFine (performsObeys rolesSound (reachLineage h).placed performs).allowed

theorem blamedStays (past : Past actions) :
    past.foldl (fun q done => (judgments sup).after q done.1 done.2) .blamed = .blamed := by
  induction past with
  | nil => rfl
  | cons done past ih => exact ih

/-- The run of a child that behaves, and whose frames come in time, is never failed because of
an identifier. -/
theorem neverBlamed {c : Config (machine sup)} (h : Reach Correlated (initially sup) c) :
    ∀ t ∈ c.tasks, ∀ session run failure, t.entry = .finish session run (some failure) →
      ¬ Blames failure := by
  intro t member session run failure entry blames
  have first : Judged (initially sup) := by simp [Judged, initially]
  have judged : Judged c := reachInvariant first judgedMoves h
  have enters : Verdict.ofEntry t.entry = .blamed := by
    rw [entry]
    exact if_pos blames
  refine judged t member ?_
  change t.past.foldl _ (Verdict.ofEntry t.entry) = .blamed
  rw [enters]
  exact blamedStays t.past

end Correlating

/-! The child acknowledges an action after its timer went off. -/
section Late

def actionAck : Value :=
  .object [("action", .object [("action_id", .string "a1")]), ("type", .string "action_ack")]
def permissionResult : Value :=
  .object [("request_id", .string "p1"), ("type", .string "permission_result")]

abbrev acknowledging : Supervisor := plain [permissionFrame, permissionResult, actionAck]

def actedTurns (task : Nat) : List (Event (machine acknowledging)) :=
  [.call (.sendGuiAction 0 2 "poke" .null)] ++ turns task 3 ++ turn task (.id "a1") ++ turns task 10 ++
  [.outside (.pump 2 50), .outside (.childReads 2 50)]

def lateAckSchedule : List (Event (machine acknowledging)) :=
  startTurns 0 ++ turns 1 1 ++ actedTurns 4 ++ turns 4 3 ++ [.outside (.tick 300000)] ++ turns 5 6 ++
  readTurn 1 actionAck ++ turns 1 3

def failureOf (c : Config (machine acknowledging)) (task : Nat) : Option ProtocolFailure :=
  match (c.tasks[task]?).map Task.entry with
  | some (.finish _ _ failure) => failure
  | _ => none

theorem lateAckFailure : (goodRun Behaves (initially _) lateAckSchedule).bind (fun c => failureOf c 1) =
    some ⟨"uncorrelated_action_ack", false⟩ := by
  decide +kernel

theorem lateAckBlamed : ¬ ∀ (sup : Supervisor) (c : Config (machine sup)),
    Reach Behaves (initially sup) c → ∀ t ∈ c.tasks, ∀ session run failure,
      t.entry = .finish session run (some failure) → ¬ Blames failure := by
  intro never
  obtain ⟨c, ran, failed⟩ := Option.bind_eq_some_iff.mp lateAckFailure
  cases present : c.tasks[1]? with
  | none =>
    unfold failureOf at failed
    rw [present] at failed
    cases failed
  | some t =>
    have blames := never acknowledging c (reachGoodRun .start ran) t (List.mem_of_getElem? present)
    unfold failureOf at failed
    rw [present, Option.map_some] at failed
    split at failed
    · rename_i session run failure entry
      subst failed
      exact blames session run _ (Option.some.inj entry) (by decide)
    · cases failed

/-- A result and an acknowledgement that come before the calls they answer have ended. -/
def timelySchedule : List (Event (machine acknowledging)) :=
  startTurns 0 ++ turns 1 1 ++ readTurn 1 permissionFrame ++ turns 1 8 ++
  [.call (.respondPermission 0 2 "p1" .allow)] ++ turns 5 10 ++
  [.outside (.pump 2 39), .outside (.childReads 2 39)] ++ turns 5 2 ++ actedTurns 6 ++
  readTurn 1 permissionResult ++ turns 1 7 ++ readTurn 1 actionAck ++ turns 1 4 ++ turns 5 5 ++ turns 6 3

theorem timelyRun : (goodRun Correlated (initially _) timelySchedule).map (fun c => c.tasks.length) =
    some 8 := by
  decide +kernel

theorem neverBlamedTimely : ∃ c : Config (machine acknowledging), c.tasks.length = 8 ∧
    ∀ t ∈ c.tasks, ∀ session run failure, t.entry = .finish session run (some failure) →
      ¬ Blames failure := by
  obtain ⟨c, ran, tasks⟩ := Option.map_eq_some_iff.mp timelyRun
  exact ⟨c, tasks, neverBlamed (reachGoodRun .start ran)⟩

end Late
end Maestro.Session
