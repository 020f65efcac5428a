import Maestro.Setting

/-! One response for each registration. The right to answer a registration is held by
its active entry, then by the task that claimed it or saw it expire, and is spent with
the line that task writes. -/
namespace Maestro.Session
open Interleaving Prog Protocol

/-! A line on its way to the child, whatever a protocol makes of it. -/

section Lines
variable {sup : Supervisor} {run : RunId} {P : Protocol (machine sup)} {unsent sent : P.Place} {bytes : Bytes}
  {purpose : Purpose}

/-- What `write_json_bytes` does around the write. -/
def Act.Around (run : RunId) (o : Act) : Prop :=
  o = .run run .loadFinalized ∨ o = .run run .loadStopRequested ∨ o = .run run (.lock .write) ∨
    o = .run run .unlock ∨ o = .run run .awaitFlush

theorem refusesInputAround : (refusesInput run).Only (Act.Around run) := by
  refine onlyBind (onlyOne (.inl rfl)) fun finalized => ?_
  split
  · trivial
  · exact onlyOne (.inr (.inl rfl))

theorem writeJsonBytesFollows (quiet : ∀ p o, Act.Around run o → P.may p o ∧ ∀ answer, P.after p o answer = p)
    (may : P.may unsent (.run run (.stdinWrite bytes purpose)))
    (missing : P.after unsent (.run run (.stdinWrite bytes purpose)) false = unsent)
    (reached : P.after unsent (.run run (.stdinWrite bytes purpose)) true = sent) :
    P.Follows (fun result p => ((∃ error, result = .error (.definite error)) ∧ p = unsent) ∨
      ((∀ error, result ≠ .error (.definite error)) ∧ p = sent)) unsent (writeJsonBytes run bytes purpose) := by
  have step : ∀ {β : Type} {post : β → P.Place → Prop} {p : P.Place} {o : Act} {f : o.Answer → Program β},
      Act.Around run o → (∀ answer, P.Follows post p (f answer)) → P.Follows post p (Prog.act (A := actions) o .done >>= f) := by
    intro β post p o f around rest
    refine followsStep (quiet p o around).1 fun answer => ?_
    exact followsFrom ((quiet p o around).2 answer) (rest answer)
  have refuses : P.Stays unsent (refusesInput run) := staysOnly refusesInputAround (quiet unsent)
  have written : P.Follows (fun result p => (result = .error .missingStream ∧ p = unsent) ∨
      (result ≠ .error .missingStream ∧ p = sent)) unsent (processWrite run bytes purpose) := by
    refine followsStep may fun present => ?_
    cases present with
    | false => exact .inl ⟨rfl, missing⟩
    | true =>
      refine followsFrom reached (step (.inr (.inr (.inr (.inr rfl)))) fun flushed => ?_)
      cases flushed <;> exact .inr ⟨nofun, rfl⟩
  refine staysSeq refuses fun refused => ?_
  split
  · exact .inl ⟨⟨_, rfl⟩, rfl⟩
  refine step (.inr (.inr (.inl rfl))) fun _ => staysSeq refuses fun refused => ?_
  split
  · exact step (.inr (.inr (.inr (.inl rfl)))) fun _ => .inl ⟨⟨_, rfl⟩, rfl⟩
  refine followsSeq written fun result p wrote => step (.inr (.inr (.inr (.inl rfl)))) fun _ => ?_
  rcases wrote with ⟨rfl, same⟩ | ⟨present, same⟩
  · exact .inl ⟨⟨_, rfl⟩, same⟩
  · split
    · exact .inr ⟨nofun, same⟩
    · exact absurd rfl present
    · exact .inr ⟨nofun, same⟩

end Lines

/-- Where a task is with the line it delivers: it holds a right to answer, it offered the
child its response, or it registered an action. -/
inductive Delivery where
  | idle
  | claimed (run : RunId) (requestId : String) (kind : PendingKind) (registration : Nat)
  | expired (run : RunId) (requestId : String) (kind : PendingKind) (registration : Nat)
  | offered
  | acting (run : RunId) (actionId : String)
  deriving DecidableEq, Repr

def RetrySafe (error : MaestroError) : Prop :=
  ∃ details, error.details = some (.object details) ∧
    Value.get details "retry_safe" = some (.bool true)

namespace Delivery

def right : Delivery → Option (RunId × Nat)
  | .idle | .offered | .acting .. => none
  | .claimed run _ _ registration | .expired run _ _ registration => some (run, registration)

def mayCall (q : Delivery) (run : RunId) : RunCall → Prop
  | .tracker (.register _ kind _) => kind = .guiAction → q = .idle
  | .tracker (.claimActive _ kind) => q = .idle ∧ kind ≠ .guiAction
  | .tracker (.expire ..) => q = .idle
  | .tracker (.restoreInFlight requestId kind) => ∃ registration, q = .claimed run requestId kind registration
  | .stdinWrite _ (.response requestId kind registration) => q = .claimed run requestId kind registration
  | .stdinWrite _ (.cancellation requestId kind registration) =>
      q = .expired run requestId kind registration
  | .stdinWrite _ (.action actionId) => q = .acting run actionId
  | _ => True

def mayAnswer (q : Delivery) : Except MaestroError Unit → Prop
  | .ok () => True
  | .error error => q = .offered → ¬ RetrySafe error

def may (q : Delivery) : Act → Prop
  | .run run call => q.mayCall run call
  | .answer result => q.mayAnswer result
  | _ => True

def afterCall (q : Delivery) (run : RunId) : (call : RunCall) → call.Answer → Delivery
  | .tracker (.register actionId kind _), .ok () => if kind = .guiAction then .acting run actionId else q
  | .tracker (.claimActive requestId kind), .ok registration => .claimed run requestId kind registration
  | .tracker (.expire requestId kind), some registration => .expired run requestId kind registration
  | .tracker (.restoreInFlight ..), _ => .idle
  | .stdinWrite _ (.response ..), true => .offered
  | .stdinWrite _ (.cancellation ..), true => .idle
  | _, _ => q

def after (q : Delivery) : (o : Act) → o.Answer → Delivery
  | .run run call, answer => q.afterCall run call answer
  | _, _ => q

end Delivery

abbrev deliveries (sup : Supervisor) : Protocol (machine sup) where
  Place := Delivery
  enter _ := .idle
  may := Delivery.may
  after := Delivery.after
  ends _ := True

section Soundness
variable {sup : Supervisor} {session : SessionId} {run : RunId} {q : Delivery}

def Delivery.Quiet (q : Delivery) (o : Act) : Prop := q.may o ∧ ∀ answer, q.after o answer = q

theorem silentDelivery {o : Act} (silent : ¬ o.Delivers)
    (answers : ∀ result, o = .answer result → q.mayAnswer result) : q.Quiet o := by
  cases o <;> first | exact ⟨trivial, fun _ => rfl⟩ | skip
  case answer result => exact ⟨answers result rfl, fun _ => rfl⟩
  case run r call =>
    cases call <;> first | exact ⟨trivial, fun _ => rfl⟩ | exact absurd trivial silent | skip
    case tracker call =>
      cases call <;> first | exact ⟨trivial, fun _ => rfl⟩ | exact absurd trivial silent | skip
      case register requestId kind deadline =>
        refine ⟨fun action => absurd action silent, fun answer => ?_⟩
        cases answer with
        | error error => rfl
        | ok _ => exact if_neg silent

theorem unofferedAnswers (different : q ≠ .offered) {result} : q.mayAnswer result := by
  cases result with
  | ok => trivial
  | error error => exact fun same => absurd same different

theorem idleAnswers {result} : Delivery.idle.mayAnswer result := unofferedAnswers Delivery.noConfusion

theorem calmStays {α : Type} {p : Program α} (session : SessionId) (only : p.Only (CalmAct session run)) :
    (deliveries sup).Stays q p := by
  refine staysOnly only fun o calm => silentDelivery (calmSilent calm) ?_
  rintro result rfl
  exact calm.elim

/-- A written line spends the right to it; a refused one leaves it with the task. -/
def Wrote (q sent : Delivery) (result : Except StructuredWriteError Unit) (q' : Delivery) : Prop :=
  ((∃ error, result = .error (.definite error)) ∧ q' = q) ∨
  ((∀ error, result ≠ .error (.definite error)) ∧ q' = sent)

theorem writeJsonBytesDelivery {bytes purpose} (may : q.mayCall run (.stdinWrite bytes purpose)) :
    (deliveries sup).Follows (Wrote q (q.afterCall run (.stdinWrite bytes purpose) true)) q
      (writeJsonBytes run bytes purpose) := by
  have unsent : q.afterCall run (.stdinWrite bytes purpose) false = q := by cases purpose <;> rfl
  refine writeJsonBytesFollows (fun p o around => ?_) may unsent rfl
  obtain rfl | rfl | rfl | rfl | rfl := around <;> exact ⟨trivial, fun _ => rfl⟩

theorem writeJsonDelivery {value purpose}
    (may : ∀ bytes, q.mayCall run (.stdinWrite bytes purpose)) :
    (deliveries sup).Follows (fun _ q' =>
      q' = q ∨ ∃ bytes, q' = q.afterCall run (.stdinWrite bytes purpose) true) q
      (writeJson sup run value purpose) := by
  unfold writeJson
  split
  · exact .inl rfl
  · rename_i bytes encoded
    refine followsSeq (writeJsonBytesDelivery (may bytes)) fun written q' wrote => ?_
    have ends : q' = q ∨ ∃ bytes, q' = q.afterCall run (.stdinWrite bytes purpose) true := by
      rcases wrote with ⟨_, same⟩ | ⟨_, same⟩
      · exact .inl same
      · exact .inr ⟨bytes, same⟩
    split <;> exact ends

theorem expireRequestDelivery {requestId kind} :
    (deliveries sup).Follows (fun _ q' => q' ≠ .offered) .idle
      (expireRequest sup session run requestId kind) := by
  have update : ∀ {q : Delivery}, q ≠ .offered →
      (deliveries sup).Follows (fun _ q' => q' ≠ .offered) q (updateWaitingState session run) :=
    fun different => staysEnd (calmStays session updateWaitingStateCalm) fun _ => different
  refine followsStep trivial fun finalized => ?_
  split
  · exact Delivery.noConfusion
  refine followsStep rfl fun expired => ?_
  cases expired with
  | none => exact Delivery.noConfusion
  | some registration =>
    refine staysSeq (calmStays session publishCalm) fun _ => ?_
    split
    · refine followsSeq (writeJsonDelivery fun _ => rfl) fun _ q' ends => update ?_
      rcases ends with rfl | ⟨_, rfl⟩ <;> exact Delivery.noConfusion
    · exact update Delivery.noConfusion

theorem restoreAndExpireDelivery {requestId kind registration} :
    (deliveries sup).Follows (fun _ q' => q' ≠ .offered) (.claimed run requestId kind registration)
      (restoreAndExpire sup session run requestId kind) := by
  refine followsStep ⟨registration, rfl⟩ fun restored => ?_
  split
  · exact expireRequestDelivery
  · exact Delivery.noConfusion

theorem annotatedUnsafe {error : MaestroError} {delivery} :
    ¬ RetrySafe (annotateDeliveryError error delivery false) := by
  rintro ⟨details, same, safe⟩
  simp only [annotateDeliveryError, Option.some.injEq, Value.object.injEq] at same
  rw [← same, Value.getInsert] at safe
  simp at safe

theorem concludeDeliveryReport {audit} : (deliveries sup).Follows (fun result q' => q'.mayAnswer result)
    .offered (concludeDelivery sup session run audit) := by
  refine staysSeq (calmStays session updateWaitingStateCalm) fun _ =>
    staysSeq (calmStays session publishCalm) fun published => ?_
  split
  · exact fun _ => annotatedUnsafe
  · trivial

theorem deliverPendingResponseDelivery {requestId kind response audit} (answers : kind ≠ .guiAction) :
    (deliveries sup).Follows (fun result q' => q'.mayAnswer result) .idle
      (deliverPendingResponse sup session run requestId kind response audit) := by
  refine followsStep ⟨rfl, answers⟩ fun claimed => ?_
  cases claimed with
  | error error => exact followsPure.mpr idleAnswers
  | ok registration =>
    dsimp only [Delivery.after, Delivery.afterCall]
    split
    · exact followsSeq restoreAndExpireDelivery fun _ _ ends => followsPure.mpr (unofferedAnswers ends)
    refine followsSeq (writeJsonBytesDelivery rfl) fun written q' wrote => ?_
    split
    · obtain ⟨⟨_, same⟩, _⟩ | ⟨_, rfl⟩ := wrote
      · cases same
      refine followsStep trivial fun completed => ?_
      split
      · exact fun _ => annotatedUnsafe
      · exact concludeDeliveryReport
    · obtain ⟨_, rfl⟩ | ⟨sent, _⟩ := wrote
      · exact followsSeq restoreAndExpireDelivery fun _ _ ends => followsPure.mpr (unofferedAnswers ends)
      · exact absurd rfl (sent _)
    · obtain ⟨⟨_, same⟩, _⟩ | ⟨_, rfl⟩ := wrote
      · cases same
      refine followsStep trivial fun resolved => ?_
      split
      · exact concludeDeliveryReport
      · exact staysSeq (calmStays session updateWaitingStateCalm) fun _ _ => annotatedUnsafe

theorem activeRunDelivery : (deliveries sup).Stays q (activeRun session run) :=
  calmStays session activeRunCalm

theorem respondPermissionDelivery {requestId decision} :
    (deliveries sup).Follows (fun result q' => q'.mayAnswer result) .idle
      (respondPermission sup session run requestId decision) := by
  unfold respondPermission
  split
  · exact followsPure.mpr idleAnswers
  refine staysSeq activeRunDelivery fun active => ?_
  split
  · exact followsPure.mpr idleAnswers
  · exact deliverPendingResponseDelivery (by decide)

theorem respondUserInputDelivery {requestId value} :
    (deliveries sup).Follows (fun result q' => q'.mayAnswer result) .idle
      (respondUserInput sup session run requestId value) := by
  unfold respondUserInput
  split
  · exact followsPure.mpr idleAnswers
  refine staysSeq activeRunDelivery fun active => ?_
  split
  · exact followsPure.mpr idleAnswers
  · exact deliverPendingResponseDelivery (by decide)

theorem registerActionDelivery {actionId} : (deliveries sup).Follows (fun result q' =>
    ((∃ error, result = .error error) ∧ q' = .idle) ∨ (result = .ok () ∧ q' = .acting run actionId))
    .idle (registerPending sup session run actionId .guiAction) := by
  unfold registerPending
  split
  · exact .inl ⟨⟨_, rfl⟩, rfl⟩
  refine followsStep trivial fun start => followsStep (fun _ => rfl) fun registered => ?_
  cases registered with
  | error error => exact .inl ⟨⟨error, rfl⟩, rfl⟩
  | ok _ =>
    have acts : Delivery.idle.afterCall run (.tracker (.register actionId .guiAction
        (start + sup.limits.requestTimeout))) (.ok ()) = .acting run actionId := by
      simp [Delivery.afterCall]
    exact followsStep trivial fun _ => .inr ⟨rfl, acts⟩

theorem sendGuiActionDelivery {action payload} :
    (deliveries sup).Follows (fun _ q' => q' ≠ .offered) .idle
      (sendGuiAction sup session run action payload) := by
  unfold sendGuiAction
  split
  · exact Delivery.noConfusion
  refine staysSeq activeRunDelivery fun active => ?_
  split
  · exact Delivery.noConfusion
  refine followsStep trivial fun actionId =>
    followsSeq registerActionDelivery fun registered q' ends => ?_
  rcases ends with ⟨⟨error, rfl⟩, rfl⟩ | ⟨rfl, rfl⟩
  · exact Delivery.noConfusion
  refine staysSeq (calmStays session publishCalm) fun published => ?_
  split
  · exact Delivery.noConfusion
  refine followsSeq (writeJsonDelivery fun _ => rfl) fun written q' ends => ?_
  obtain rfl : q' = .acting run actionId := by rcases ends with rfl | ⟨_, rfl⟩ <;> rfl
  split
  · exact followsStep trivial fun _ => Delivery.noConfusion
  · exact Delivery.noConfusion

theorem replyDelivery {call : Program (Except MaestroError Unit)}
    (follows : (deliveries sup).Follows (fun result q' => q'.mayAnswer result) .idle call) :
    (deliveries sup).Follows (deliveries sup).EntryPost .idle (reply call) :=
  followsSeq follows fun _ _ may => followsStep may fun _ => trivial

theorem deliveriesSound : (deliveries sup).Sound := by
  intro e
  cases delivers : e.delivers with
  | false =>
    have stays : (deliveries sup).Stays .idle (body sup e) := staysOnly (bodySilent delivers)
      fun o silent => silentDelivery silent fun _ _ => idleAnswers
    refine staysEnd stays fun next => ?_
    cases next with
    | none => trivial
    | some e => rfl
  | true =>
    cases e with
    | respondPermission => exact replyDelivery respondPermissionDelivery
    | respondUserInput => exact replyDelivery respondUserInputDelivery
    | sendGuiAction =>
      exact replyDelivery (followsImp sendGuiActionDelivery fun _ _ ends => unofferedAnswers ends)
    | expiry =>
      exact followsStep trivial fun _ => followsSeq expireRequestDelivery fun _ _ _ => trivial
    | _ => cases delivers

end Soundness

/-! The right to answer is nowhere twice. -/

def RunControl.answered (c : RunControl) : List Nat := c.process.lines.filterMap Purpose.registration

structure Unused (c : RunControl) (registration : Nat) : Prop where
  registered : registration < c.pending.registered.length
  inactive : ∀ {requestId pending}, c.pending.active.lookup requestId = some pending →
    pending.registration ≠ registration

structure Answerable (c : RunControl) : Prop where
  wellformed : c.pending.Wellformed
  once : c.answered.Nodup
  spent : ∀ {registration}, registration ∈ c.answered → Unused c registration

structure Owns (c : RunControl) (registration : Nat) : Prop extends Unused c registration where
  unanswered : registration ∉ c.answered

def Delivery.Faithful (q : Delivery) (m : Memory) : Act → Prop
  | .run run (.tracker (.restoreInFlight requestId kind)) => ∀ control ∈ m.runs run,
      ∀ pending ∈ control.pending.inFlight.lookup requestId, pending.kind = kind →
      q = .claimed run requestId kind pending.registration
  | _ => True
instance (q : Delivery) (m o) : Decidable (q.Faithful m o) := by
  unfold Delivery.Faithful
  split <;> infer_instance

section Answering
variable {sup : Supervisor} {c c' : RunControl} {run : RunId} {q : Delivery}

theorem activeOnce (wf : c.pending.Wellformed) {one other pending p}
    (found : c.pending.active.lookup one = some pending)
    (found' : c.pending.active.lookup other = some p) (same : p.registration = pending.registration) :
    other = one := by
  have named := wf.named (.inl found)
  have named' := wf.named (.inl found')
  rw [same, named] at named'
  exact (congrArg Prod.fst (Option.some.inj named')).symm

theorem registrationBound (wf : c.pending.Wellformed) {requestId pending}
    (found : c.pending.Pending requestId pending) :
    pending.registration < c.pending.registered.length :=
  (List.getElem?_eq_some_iff.mp (wf.named found)).1

structure CallKept (run : RunId) (c c' : RunControl) (q q' : Delivery) : Prop where
  answerable : Answerable c'
  own : ∀ n, q'.right = some (run, n) → Owns c' n
  others : ∀ n, Owns c n → q.right ≠ some (run, n) → Owns c' n ∧ q'.right ≠ some (run, n)

theorem sameKept (answerable : Answerable c) (own : ∀ n, q.right = some (run, n) → Owns c n)
    (pending : c'.pending = c.pending) (answered : c'.answered = c.answered) :
    CallKept run c c' q q := by
  have unused : ∀ {n}, Unused c n → Unused c' n := fun h =>
    ⟨by rw [pending]; exact h.registered, by rw [pending]; exact h.inactive⟩
  have owns : ∀ {n}, Owns c n → Owns c' n := fun h =>
    ⟨unused h.toUnused, by rw [answered]; exact h.unanswered⟩
  refine ⟨⟨by rw [pending]; exact answerable.wellformed, by rw [answered]; exact answerable.once, ?_⟩,
    fun n same => owns (own n same), fun n h other => ⟨owns h, other⟩⟩
  intro n member
  rw [answered] at member
  exact unused (answerable.spent member)

theorem trackerKept {t : PendingTracker} {q' : Delivery} (answerable : Answerable c)
    (wf : t.Wellformed)
    (grown : c.pending.registered.length ≤ t.registered.length)
    (own : ∀ n, q'.right = some (run, n) → Owns { c with pending := t } n)
    (inactive : ∀ n, Unused c n → (∀ {requestId pending}, t.active.lookup requestId = some pending →
      pending.registration ≠ n) ∨ (q.right = some (run, n) ∧ n ∉ c.answered))
    (free : ∀ n, Owns c n → q.right ≠ some (run, n) → q'.right ≠ some (run, n)) :
    CallKept run c { c with pending := t } q q' := by
  refine ⟨⟨wf, answerable.once, ?_⟩, own, ?_⟩
  · intro n member
    have spent := answerable.spent member
    rcases inactive n spent with still | ⟨_, unanswered⟩
    · exact ⟨Nat.lt_of_lt_of_le spent.registered grown, still⟩
    · exact absurd member unanswered
  · intro n owns other
    rcases inactive n owns.toUnused with still | ⟨same, _⟩
    · exact ⟨⟨⟨Nat.lt_of_lt_of_le owns.registered grown, still⟩, owns.unanswered⟩, free n owns other⟩
    · exact absurd same other

theorem stillKept {q' : Delivery} (answerable : Answerable c)
    (own : ∀ n, q.right = some (run, n) → Owns c n) (same : q' = q ∨ q' = .idle) :
    CallKept run c c q q' := by
  refine ⟨answerable, fun n right => ?_, fun n owns other => ⟨owns, fun right => ?_⟩⟩ <;>
    rcases same with rfl | rfl <;> first | exact own n right | exact other right | cases right

theorem fewerKept {t : PendingTracker} (answerable : Answerable c)
    (own : ∀ n, q.right = some (run, n) → Owns c n) (wf : t.Wellformed)
    (registered : t.registered = c.pending.registered)
    (active : ∀ {requestId pending}, t.active.lookup requestId = some pending →
      c.pending.active.lookup requestId = some pending) :
    CallKept run c { c with pending := t } q q := by
  refine trackerKept answerable wf (by rw [registered]) (fun n right => ?_) (fun n unused => .inl ?_)
    fun n _ other => other
  · have owns := own n right
    exact ⟨⟨by rw [registered]; exact owns.registered, fun found => owns.inactive (active found)⟩,
      owns.unanswered⟩
  · exact fun found => unused.inactive (active found)

theorem takenKept {t : PendingTracker} {requestId pending} {q' : Delivery}
    (answerable : Answerable c) (found : c.pending.active.lookup requestId = some pending)
    (wf : t.Wellformed) (registered : t.registered = c.pending.registered)
    (active : ∀ {other p}, t.active.lookup other = some p →
      c.pending.active.lookup other = some p ∧ other ≠ requestId)
    (right : q'.right = some (run, pending.registration)) :
    CallKept run c { c with pending := t } q q' := by
  refine trackerKept answerable wf (by rw [registered]) (fun n same => ?_) (fun n unused => .inl ?_)
    fun n owns _ same => ?_
  · rw [right] at same
    cases same
    refine ⟨⟨?_, fun found' equal => ?_⟩, fun member => ?_⟩
    · rw [registered]
      exact registrationBound answerable.wellformed (.inl found)
    · exact (active found').2 (activeOnce answerable.wellformed found (active found').1 equal)
    · exact (answerable.spent member).inactive found rfl
  · exact fun found' => unused.inactive (active found').1
  · rw [right] at same
    cases same
    exact owns.inactive found rfl

theorem outcomeKept {now : Instant} {call : PendingTracker.Call} {answer : call.Answer}
    {t : PendingTracker} (answerable : Answerable c) (own : ∀ n, q.right = some (run, n) → Owns c n)
    (may : q.mayCall run (.tracker call))
    (faithful : ∀ requestId pending, call = .restoreInFlight requestId pending.kind →
      c.pending.inFlight.lookup requestId = some pending →
      q = .claimed run requestId pending.kind pending.registration)
    (outcome : PendingTracker.Outcome c.pending now call answer t) :
    CallKept run c { c with pending := t } q (q.afterCall run (.tracker call) answer) := by
  have wf := PendingTracker.outcomeWellformed answerable.wellformed outcome
  cases outcome with
  | unchanged idle =>
    refine stillKept answerable own ?_
    cases call <;> first | exact .inl rfl | exact .inr rfl | skip
    case register => cases answer <;> first | exact idle.elim | exact .inl rfl
    case claimActive => cases answer <;> first | exact idle.elim | exact .inl rfl
    case expire => cases answer <;> first | exact idle.elim | exact .inl rfl
  | @registered requestId kind deadline free new =>
    have distinct : ∀ {n other p}, Unused c n → (c.pending.active.insert requestId
        ⟨kind, deadline, c.pending.registered.length⟩).lookup other = some p → p.registration ≠ n := by
      intro n other p unused found
      rcases PendingTracker.insertLookup.mp found with ⟨_, rfl⟩ | ⟨_, old⟩
      · exact Nat.ne_of_gt unused.registered
      · exact unused.inactive old
    have grown : c.pending.registered.length ≤ (c.pending.registered ++ [(requestId, kind)]).length := by
      simp
    have keeps : ∀ {n}, (q.afterCall run (.tracker (.register requestId kind deadline)) (.ok ())).right =
        some (run, n) → q.right = some (run, n) := by
      intro n right
      dsimp only [Delivery.afterCall] at right
      split at right
      · cases right
      · exact right
    refine trackerKept answerable wf grown (fun n right => ?_) (fun n unused => .inl (distinct unused))
      fun n _ other right => other (keeps right)
    have owns := own n (keeps right)
    exact ⟨⟨Nat.lt_of_lt_of_le owns.registered grown, distinct owns.toUnused⟩, owns.unanswered⟩
  | claimed found _ =>
    exact takenKept answerable found wf rfl PendingTracker.eraseLookup.mp rfl
  | @restored requestId pending found =>
    obtain rfl := faithful requestId pending rfl found
    have owns := own pending.registration rfl
    refine trackerKept answerable wf (Nat.le_refl _) (fun n right => by cases right)
      (fun n unused => ?_) fun n _ _ right => by cases right
    by_cases same : pending.registration = n
    · exact .inr ⟨by rw [← same]; rfl, same ▸ owns.unanswered⟩
    · refine .inl fun found' => ?_
      rcases PendingTracker.insertLookup.mp found' with ⟨_, rfl⟩ | ⟨_, old⟩
      · exact same
      · exact unused.inactive old
  | expired found _ settles =>
    refine takenKept answerable found wf settles.registered (fun found' => ?_) rfl
    exact ⟨settles.active found', (settles.left.mp (.inl found')).2⟩
  | @settled call answer _ _ _ settling _ settles =>
    have stays : q.afterCall run (.tracker call) answer = q := by
      cases call <;> cases answer <;> first | rfl | exact settling.elim
    rw [stays]
    exact fewerKept answerable own wf settles.registered settles.active
  | confirmed => exact fewerKept answerable own wf rfl id
  | cleared => exact fewerKept answerable own wf rfl (by simp [PendingTracker.clearActive])

theorem writeKept {bytes purpose now choice} {answer : Bool}
    (answerable : Answerable c) (own : ∀ n, q.right = some (run, n) → Owns c n)
    (may : q.mayCall run (.stdinWrite bytes purpose))
    (h : c.perform sup now choice (.stdinWrite bytes purpose) = some (answer, c')) :
    CallKept run c c' q (q.afterCall run (.stdinWrite bytes purpose) answer) := by
  simp only [RunControl.perform] at h
  split at h <;> cases Option.some.inj h
  · have stays : q.afterCall run (.stdinWrite bytes purpose) false = q := by cases purpose <;> rfl
    rw [stays]
    exact stillKept answerable own (.inl rfl)
  · -- The line is the last one, and answers the registration whose right the task spends.
    have spends : ∀ n, q.right = some (run, n) → purpose.registration = some n →
        (q.afterCall run (.stdinWrite bytes purpose) true).right = none →
        CallKept run c { c with process := { c.process with
          stdin := some (Stdin.offer sup.stdinBuffer ‹Stdin› bytes), flushing := true,
          lines := c.process.lines ++ [purpose] } } q
          (q.afterCall run (.stdinWrite bytes purpose) true) := by
      intro n right named spent
      have owns := own n right
      have answered : List.filterMap Purpose.registration (c.process.lines ++ [purpose]) =
          c.answered ++ [n] := by simp [RunControl.answered, named]
      have member : ∀ {k}, k ∈ c.answered ++ [n] → k ∈ c.answered ∨ k = n := by simp
      refine ⟨⟨answerable.wellformed, ?_, ?_⟩, fun k right => ?_, fun k others different => ?_⟩
      · change (List.filterMap _ _).Nodup
        rw [answered]
        refine List.nodup_append.mpr ⟨answerable.once, by simp, ?_⟩
        intro k old _ last same
        cases List.mem_singleton.mp last
        exact owns.unanswered (same ▸ old)
      · intro k written
        change k ∈ List.filterMap _ _ at written
        rw [answered] at written
        rcases member written with old | rfl
        · exact ⟨(answerable.spent old).registered, (answerable.spent old).inactive⟩
        · exact ⟨owns.registered, owns.inactive⟩
      · rw [spent] at right
        cases right
      · refine ⟨⟨⟨others.registered, others.inactive⟩, fun written => ?_⟩, by rw [spent]; simp⟩
        change k ∈ List.filterMap _ _ at written
        rw [answered] at written
        rcases member written with old | rfl
        · exact others.unanswered old
        · exact different right
    cases purpose with
    | response requestId kind n =>
      cases may
      exact spends n rfl rfl rfl
    | cancellation requestId kind n =>
      cases may
      exact spends n rfl rfl rfl
    | action actionId =>
      exact sameKept answerable own rfl (by simp [RunControl.answered, Purpose.registration])

theorem performKept {now choice call} {answer : RunCall.Answer call} (answerable : Answerable c)
    (own : ∀ n, q.right = some (run, n) → Owns c n) (may : q.mayCall run call)
    (faithful : ∀ requestId pending, call = .tracker (.restoreInFlight requestId pending.kind) →
      c.pending.inFlight.lookup requestId = some pending →
      q = .claimed run requestId pending.kind pending.registration)
    (h : c.perform sup now choice call = some (answer, c')) :
    CallKept run c c' q (q.afterCall run call answer) := by
  cases call with
  | tracker call =>
    cases Option.some.inj h
    refine outcomeKept answerable own may ?_ (PendingTracker.performOutcome answerable.wellformed now call)
    exact fun requestId pending same => faithful requestId pending (congrArg RunCall.tracker same)
  | stdinWrite bytes purpose => exact writeKept answerable own may h
  | _ =>
    have kept : c'.pending = c.pending ∧ c'.answered = c.answered := by
      simp only [RunControl.perform] at h
      repeat' split at h
      all_goals first | contradiction | (cases Option.some.inj h; exact ⟨rfl, rfl⟩)
    exact sameKept answerable own kept.1 kept.2

end Answering

abbrev answering (sup : Supervisor) : Outline (deliveries sup) where
  Inv m := ∀ run control, m.runs run = some control → Answerable control
  Here q m := ∀ run n, q.right = some (run, n) → ∃ control, m.runs run = some control ∧ Owns control n
  Apart q q' := ∀ right, q.right = some right → q'.right ≠ some right

def Delivery.Allowed (q : Delivery) (o : Act) (m : Memory) : Prop :=
  (∀ session run token binding capture spec,
    o = .spawnStructured session run token binding capture spec → m.runs run = none) ∧
  q.Faithful m o

section Validity
variable {sup : Supervisor}

theorem newAnswerable {session token binding capture} :
    Answerable (.new sup session token binding capture) :=
  ⟨PendingTracker.newWellformed _, by simp [RunControl.new, RunControl.answered, Process.spawned],
    by simp [RunControl.new, RunControl.answered, Process.spawned]⟩

theorem idleHere {m : Memory} : (answering sup).Here .idle m := by
  intro run n right
  cases right

theorem idleApart {q : Delivery} : (answering sup).Apart .idle q := by
  intro _ right
  cases right

theorem runsAnswering {m m' : Memory} {q : Delivery} (same : ∀ run, m'.runs run = m.runs run)
    (inv : (answering sup).Inv m) (here : (answering sup).Here q m) {new : Option Entry} :
    (answering sup).Kept m m' q q new := by
  have moved : ∀ {q}, (answering sup).Here q m → (answering sup).Here q m' := by
    intro q here run n right
    obtain ⟨control, found, owns⟩ := here run n right
    exact ⟨control, (same run).trans found, owns⟩
  refine ⟨?_, moved here, ?_, ?_⟩
  · intro run control found
    exact inv run control ((same run).symm.trans found)
  · exact fun e _ => ⟨idleHere, fun _ _ right => by cases right⟩
  · exact fun other otherHere apart => ⟨moved otherHere, apart, fun _ _ => idleApart⟩

theorem callAnswering {m : Memory} {q q' : Delivery} {run control control'}
    (inv : (answering sup).Inv m) (here : (answering sup).Here q m)
    (found : m.runs run = some control)
    (elsewhere : ∀ r n, r ≠ run → q'.right = some (r, n) → q.right = some (r, n))
    (kept : CallKept run control control' q q') :
    (answering sup).Kept m { m with runs := Function.update m.runs run (some control') } q q' none := by
  have beside : ∀ {r c}, r ≠ run → m.runs r = some c →
      Function.update m.runs run (some control') r = some c := by
    intro r c different found'
    rw [Function.update_of_ne different, found']
  refine ⟨?_, ?_, by simp, ?_⟩
  · intro r c found'
    rcases updatedControl found' with ⟨rfl, rfl⟩ | ⟨_, old⟩
    · exact kept.answerable
    · exact inv r c old
  · intro r n right
    by_cases same : r = run
    · subst same
      exact ⟨control', Function.update_self .., kept.own n right⟩
    · obtain ⟨c, found', owns⟩ := here r n (elsewhere r n same right)
      exact ⟨c, beside same found', owns⟩
  · intro other otherHere apart
    have mine : ∀ n, other.right = some (run, n) → Owns control' n ∧ q'.right ≠ some (run, n) := by
      intro n right
      obtain ⟨c, found', owns⟩ := otherHere run n right
      cases Option.some.inj (found.symm.trans found')
      exact kept.others n owns fun right' => apart _ right' right
    refine ⟨fun r n right => ?_, fun pair right right' => ?_, by simp⟩
    · by_cases same : r = run
      · subst same
        exact ⟨control', Function.update_self .., (mine n right).1⟩
      · obtain ⟨c, found', owns⟩ := otherHere r n right
        exact ⟨c, beside same found', owns⟩
    · obtain ⟨r, n⟩ := pair
      by_cases same : r = run
      · subst same
        exact (mine n right').2 right
      · exact apart _ (elsewhere r n same right) right'

theorem spawnAnswering {m : Memory} {q : Delivery} {run control} (inv : (answering sup).Inv m)
    (here : (answering sup).Here q m) (unknown : m.runs run = none) (new : Answerable control) :
    (answering sup).Kept m { m with runs := Function.update m.runs run (some control) } q q none := by
  have moved : ∀ {q}, (answering sup).Here q m →
      (answering sup).Here q { m with runs := Function.update m.runs run (some control) } := by
    intro q here r n right
    obtain ⟨c, found, owns⟩ := here r n right
    have different : r ≠ run := by
      intro same
      rw [same, unknown] at found
      cases found
    exact ⟨c, by simp [Function.update_of_ne different, found], owns⟩
  refine ⟨?_, moved here, by simp, fun other otherHere apart => ⟨moved otherHere, apart, by simp⟩⟩
  intro r c found
  rcases updatedControl found with ⟨rfl, rfl⟩ | ⟨_, old⟩
  · exact new
  · exact inv r c old

theorem afterElsewhere {q : Delivery} {run call} {answer : RunCall.Answer call} {r n}
    (different : r ≠ run) (right : (q.afterCall run call answer).right = some (r, n)) :
    q.right = some (r, n) := by
  have mine : ∀ {n'}, some (run, n') = some (r, n) → q.right = some (r, n) := by
    intro n' same
    cases same
    exact absurd rfl different
  cases call <;> try exact right
  case tracker call =>
    cases call <;> try exact right
    case register requestId kind deadline =>
      cases answer with
      | error error => exact right
      | ok _ =>
        dsimp only [Delivery.afterCall] at right
        split at right
        · cases right
        · exact right
    case claimActive => cases answer <;> first | exact right | exact mine right
    case expire => cases answer <;> first | exact right | exact mine right
    case restoreInFlight => cases right
  case stdinWrite bytes purpose =>
    cases purpose <;> cases answer <;> first | exact right | cases right

theorem outsideControl {x} {control : RunControl} {process}
    (h : control.process.outside sup x = some process) : process.lines = control.process.lines := by
  cases x <;> simp only [Process.outside] at h
  case tick => contradiction
  case pump =>
    split at h
    · simp only [Option.bind_eq_bind, Option.bind_eq_some_iff] at h
      obtain ⟨_, _, _, _, same⟩ := h
      cases Option.some.inj same
      rfl
    · contradiction
  case childReads =>
    simp only [Option.bind_eq_bind, Option.bind_eq_some_iff] at h
    obtain ⟨_, _, same⟩ := h
    split at same
    · cases Option.some.inj same
      rfl
    · contradiction
  case childClosesStdin =>
    cases Option.some.inj h
    rfl
  case childExits =>
    split at h
    · contradiction
    · cases Option.some.inj h
      rfl

theorem answeringValid : (answering sup).Valid Delivery.Allowed where
  symm apart := fun right here there => apart right there here
  call := fun _ _ => ⟨idleHere, fun _ _ => idleApart⟩
  act := by
    intro q o choice m answer m' inv here may allowed effect
    change apply sup o choice m = some (answer, m') at effect
    have still : (∀ run session token binding capture spec,
        o ≠ .spawnStructured session run token binding capture spec) →
        (∀ run call, o ≠ .run run call) → ∀ run, m'.runs run = m.runs run :=
      fun unspawned elsewhere run => runsKept effect (unspawned run) (elsewhere run)
    cases o with
    | run run call =>
      obtain ⟨control, control', found, performed, rfl⟩ := applyRun effect
      refine callAnswering inv here found (fun r n => afterElsewhere)
        (performKept (inv run control found) ?_ may ?_ performed)
      · intro n right
        obtain ⟨control₁, found₁, owns⟩ := here run n right
        cases Option.some.inj (found.symm.trans found₁)
        exact owns
      · rintro requestId pending rfl inFlight
        exact allowed.2 control found pending inFlight rfl
    | spawnStructured session run token binding capture spec =>
      have unknown := allowed.1 session run token binding capture spec rfl
      simp only [machine, apply] at effect
      split at effect
      · cases Option.some.inj effect
        exact spawnAnswering inv here unknown newAnswerable
      · cases Option.some.inj effect
        exact runsAnswering (fun _ => rfl) inv here
      · contradiction
    | _ => exact runsAnswering (still (by simp) (by simp)) inv here
  outside := by
    intro x m m' inv effect
    rcases outsideCases effect with ⟨elapsed, rfl, rfl⟩ | ⟨run, control, process, _, found, moved, rfl⟩
    · exact ⟨inv, fun _ here => here⟩
    · have answered : RunControl.answered { control with process := process } = control.answered := by
        simp [RunControl.answered, outsideControl moved]
      have kept : ∀ {q : Delivery}, (answering sup).Here q m → (answering sup).Kept m { m with
          runs := Function.update m.runs run (some { control with process := process }) } q q none := by
        intro q here
        refine callAnswering inv here found (fun _ _ _ right => right)
          (sameKept (inv run control found) ?_ rfl answered)
        intro n right
        obtain ⟨control₁, found₁, owns⟩ := here run n right
        cases Option.some.inj (found.symm.trans found₁)
        exact owns
      exact ⟨(kept idleHere).inv, fun q here => (kept here).here⟩

end Validity

section Once
variable {sup : Supervisor}

def RestoresOwn (c : Config (machine sup)) : Event (machine sup) → Prop
  | .run index _ => ∀ t ∈ c.tasks[index]?, ∀ o ∈ t.next,
      Delivery.Faithful ((deliveries sup).place t) c.memory o
  | _ => True
instance (c : Config (machine sup)) (e) : Decidable (RestoresOwn c e) :=
  match e with
  | .run index _ => inferInstanceAs (Decidable (∀ t ∈ c.tasks[index]?, ∀ o ∈ t.next,
      Delivery.Faithful ((deliveries sup).place t) c.memory o))
  | .call _ | .outside _ => .isTrue trivial

theorem reachAnswering {c : Config (machine sup)} (h : Reach RestoresOwn (initially sup) c) :
    (answering sup).Holds c := by
  have first : (answering sup).Holds (initially sup) :=
    Outline.holdsEmpty fun run control found => by cases found
  refine Outline.reachHolds deliveriesSound answeringValid first ?_ h
  intro c index choice t o answer memory next reached holds good performs
  constructor
  · rintro run session token binding capture spec rfl
    exact spawnsUnknown (reachLineage reached) performs
  · exact good t performs.present o (performsNext performs)

def Gone (m : Memory) (run : RunId) (n : Nat) : Prop :=
  ∃ control, m.runs run = some control ∧ n < control.pending.registered.length ∧
    ∀ requestId pending, control.pending.Pending requestId pending → pending.registration ≠ n

theorem goneCall {now choice call n} {control control' : RunControl} {answer : RunCall.Answer call}
    (wf : control.pending.Wellformed) (registered : n < control.pending.registered.length)
    (absent : ∀ requestId pending, control.pending.Pending requestId pending →
      pending.registration ≠ n)
    (performed : control.perform sup now choice call = some (answer, control')) :
    n < control'.pending.registered.length ∧ ∀ requestId pending,
      control'.pending.Pending requestId pending → pending.registration ≠ n := by
  by_cases tracker : ∃ call', call = .tracker call'
  · obtain ⟨call, rfl⟩ := tracker
    cases Option.some.inj performed
    have outcome := PendingTracker.performOutcome wf now call
    refine ⟨Nat.lt_of_lt_of_le registered (PendingTracker.outcomeRegistered outcome).length_le, ?_⟩
    intro requestId pending found
    rcases PendingTracker.outcomePending wf outcome found with old | new
    · exact absent requestId pending old
    · exact new ▸ Nat.ne_of_gt registered
  · rw [pendingKept performed fun call' same => tracker ⟨call', same⟩]
    exact ⟨registered, absent⟩

theorem goneMoves {c c' : Config (machine sup)} {e run n} (reached : Reach Always (initially sup) c)
    (gone : Gone c.memory run n) (moves : Moves c e c') : Gone c'.memory run n := by
  obtain ⟨control, found, registered, absent⟩ := gone
  cases moves with
  | call allowed => exact ⟨control, found, registered, absent⟩
  | @act index choice t o answer memory next performs =>
    by_cases mine : ∃ call, o = .run run call
    · obtain ⟨call, rfl⟩ := mine
      obtain ⟨control₁, control', found₁, performed, rfl⟩ := applyRun performs.effect
      cases Option.some.inj (found.symm.trans found₁)
      exact ⟨control', Function.update_self .., goneCall (reachWellformed reached found) registered
        absent performed⟩
    · refine ⟨control, ?_, registered, absent⟩
      refine (runsKept performs.effect ?_ fun call same => mine ⟨call, same⟩).trans found
      rintro session token binding capture spec rfl
      rw [spawnsUnknown (reachLineage reached) performs] at found
      cases found
  | outside effect =>
    rcases outsideCases effect with ⟨_, _, rfl⟩ | ⟨r, control₁, process, _, found₁, _, rfl⟩
    · exact ⟨control, found, registered, absent⟩
    · by_cases same : r = run
      · subst same
        cases Option.some.inj (found.symm.trans found₁)
        exact ⟨_, Function.update_self .., registered, absent⟩
      · exact ⟨control, (Function.update_of_ne (Ne.symm same) ..).trans found, registered, absent⟩

theorem goneForever {c c' : Config (machine sup)} {run n} (reached : Reach Always (initially sup) c)
    (gone : Gone c.memory run n) (later : Reach Always c c') : Gone c'.memory run n := by
  induction later with
  | start => exact gone
  | step before _ moves ih => exact goneMoves (reachTrans reached before) ih moves

theorem goneSettled {m : Memory} {run control requestId kind} {n : Nat} (wf : control.pending.Wellformed)
    (found : m.runs run = some control)
    (settled : (requestId, kind) ∈ control.pending.resolved ∨
      (requestId, kind) ∈ control.pending.deliveryUncertain)
    (request : control.pending.registered[n]? = some (requestId, kind)) : Gone m run n := by
  refine ⟨control, found, (List.getElem?_eq_some_iff.mp request).1, ?_⟩
  rintro other pending present rfl
  have named := wf.named present
  rw [request] at named
  cases named
  exact wf.settled present (wf.kept.mpr settled)

theorem claimedPresent {m m' : Memory} {run requestId kind choice} {answer : Except MaestroError Nat} {n}
    (h : apply sup (.run run (.tracker (.claimActive requestId kind))) choice m = some (answer, m'))
    (claimed : answer = .ok n) : ∃ control pending, m.runs run = some control ∧
      control.pending.Pending requestId pending ∧ pending.registration = n := by
  obtain ⟨control, _, found, performed, _⟩ := applyRun h
  have claim : (control.pending.claimActive requestId kind m.now).1 = .ok n :=
    (congrArg Prod.fst (Option.some.inj performed)).trans claimed
  unfold PendingTracker.claimActive at claim
  split at claim
  · cases claim
  · rename_i pending active
    split at claim
    · cases claim
    · exact ⟨control, pending, found, .inl active, Except.ok.inj claim⟩

theorem offeredStays {past : Past actions} (legal : (deliveries sup).Legal .offered past) :
    past.foldl (fun q done => (deliveries sup).after q done.1 done.2) .offered = .offered := by
  induction past with
  | nil => rfl
  | cons done past ih =>
    obtain ⟨o, answer⟩ := done
    obtain ⟨may, rest⟩ := legal
    have stays : Delivery.offered.after o answer = .offered := by
      cases o <;> try rfl
      case run run call =>
        cases call <;> try rfl
        case tracker call =>
          cases call <;> first | rfl | (obtain ⟨_, same⟩ := may; cases same) |
            (obtain ⟨same, _⟩ := may; cases same) | cases may | skip
          case register requestId kind deadline =>
            cases answer with
            | error error => rfl
            | ok _ => exact if_neg fun action => by cases may action
        case stdinWrite bytes purpose => cases purpose <;> cases answer <;> first | rfl | cases may
    simp only [List.foldl_cons]
    change (deliveries sup).Legal (Delivery.offered.after o answer) past at rest
    rw [stays] at rest ⊢
    exact ih rest

theorem offeredPast {past : Past actions} {q : Delivery} (legal : (deliveries sup).Legal q past)
    {run bytes requestId kind n}
    (wrote : ⟨.run run (.stdinWrite bytes (.response requestId kind n)), true⟩ ∈ past) :
    past.foldl (fun q done => (deliveries sup).after q done.1 done.2) q = .offered := by
  obtain ⟨before, rest, rfl⟩ := List.append_of_mem wrote
  have after := (legalAppend.mp legal).2
  rw [List.foldl_append, List.foldl_cons]
  exact offeredStays after.2

structure AnswersOnce (c : Config (machine sup)) : Prop where
  lines : ∀ run control, c.memory.runs run = some control → control.answered.Nodup
  settled : ∀ run control requestId kind (n : Nat), c.memory.runs run = some control →
    (requestId, kind) ∈ control.pending.resolved ∨
      (requestId, kind) ∈ control.pending.deliveryUncertain →
    control.pending.registered[n]? = some (requestId, kind) →
    ∀ c' : Config (machine sup), Reach Always c c' →
    ∀ index choice t requestId' kind' answer memory next,
    Performs c' index choice t (.run run (.tracker (.claimActive requestId' kind'))) answer memory next →
    answer ≠ .ok n
  retrySafe : ∀ index choice t error answer memory next,
    Performs c index choice t (.answer (.error error)) answer memory next → RetrySafe error →
    ∀ run bytes requestId kind n,
      ⟨.run run (.stdinWrite bytes (.response requestId kind n)), true⟩ ∉ t.past

/-- Every registered request is answered at most once in a run that restores only what
was claimed. -/
theorem responsesOnce {c : Config (machine sup)} (h : Reach RestoresOwn (initially sup) c) :
    AnswersOnce c := by
  have reached : Reach Always (initially sup) c := reachMono (fun _ _ _ => trivial) h
  have holds := reachAnswering h
  refine ⟨?_, ?_, ?_⟩
  · intro run control found
    exact (holds.inv run control found).once
  · rintro run control requestId kind n found settled request c' later
      index choice t requestId' kind' answer memory next performs claimed
    have gone := goneForever reached
      (goneSettled (reachWellformed reached found) found settled request) later
    obtain ⟨control', found', _, absent⟩ := gone
    have effect : apply sup (.run run (.tracker (.claimActive requestId' kind'))) choice c'.memory =
        some (answer, memory) := performs.effect
    obtain ⟨control₁, pending, found₁, present, same⟩ := claimedPresent effect claimed
    cases Option.some.inj (found'.symm.trans found₁)
    exact absent requestId' pending present same
  · intro index choice t error answer memory next performs safe run bytes requestId kind n wrote
    have legal := reachLegal deliveriesSound rfl h t (List.mem_of_getElem? performs.present)
    have offered : (deliveries sup).place t = .offered := offeredPast legal wrote
    have may := (performsObeys deliveriesSound holds.placed performs).allowed
    exact may offered safe

end Once

/-! One client claims u1 with a value that is too long; the child answers u1 itself, the
tracker forgets it and u1 is asked for again. The first client then restores the entry a
second one is answering, and a third answers it once more. -/
section Restored

def narrow (frames : List Value) : Supervisor :=
  { plain frames with limits :=
      { FakeSessionLimits.default with pendingRequests := 1, maximumInputBytes := 64 } }

def longText : Value := .string "0123456789012345678901234567890123456789"

abbrev restoring : Supervisor := narrow [inputRequest, inputResult]

def claimedSchedule : List (Event (machine restoring)) :=
  startTurns 0 ++ turns 1 1 ++ readTurn 1 inputRequest ++ turns 1 8 ++
  [.call (.respondUserInput 0 2 "u1" longText)] ++ turns 5 4

def restoredSchedule : List (Event (machine restoring)) :=
  claimedSchedule ++ readTurn 1 inputResult ++ turns 1 7 ++
  [.call (.sendGuiAction 0 2 "poke" longText)] ++ turns 6 3 ++ turn 6 (.id "a1") ++ turns 6 5 ++
  readTurn 1 inputRequest ++ turns 1 8 ++ [.call (.respondUserInput 0 2 "u1" .null)] ++ turns 9 10 ++
  [.outside (.pump 2 33)] ++ turns 9 2 ++ turns 5 1 ++ [.call (.respondUserInput 0 2 "u1" .null)] ++
  turns 10 10

def answeredOf (c : Config (machine restoring)) : Option (List Nat) :=
  (c.memory.runs 2).map RunControl.answered

theorem restoredAnswers : (runFrom (initially _) restoredSchedule).bind answeredOf = some [2, 2] := by
  decide +kernel

theorem responsesTwice : ¬ ∀ (sup : Supervisor) (c : Config (machine sup)),
    Reach Always (initially sup) c → AnswersOnce c := by
  intro once
  obtain ⟨c, ran, answered⟩ := Option.bind_eq_some_iff.mp restoredAnswers
  obtain ⟨control, found, twice⟩ := Option.map_eq_some_iff.mp answered
  have lines := (once restoring c (reachRun .start (fun _ _ => trivial) ran)).lines 2 control found
  rw [twice] at lines
  exact absurd lines (by decide)

def ownSchedule : List (Event (machine restoring)) :=
  claimedSchedule ++ turns 5 3 ++ [.call (.respondUserInput 0 2 "u1" .null)] ++ turns 6 10

theorem ownAnswers : (goodRun RestoresOwn (initially _) ownSchedule).bind answeredOf = some [0] := by
  decide +kernel

theorem responsesOnceOwn : ∃ c : Config (machine restoring),
    answeredOf c = some [0] ∧ AnswersOnce c := by
  obtain ⟨c, ran, answered⟩ := Option.bind_eq_some_iff.mp ownAnswers
  exact ⟨c, answered, responsesOnce (reachGoodRun .start ran)⟩

end Restored
end Maestro.Session
