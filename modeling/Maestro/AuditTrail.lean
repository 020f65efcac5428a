import Maestro.ResponseOnce

/-! The events that record what the user sent to the child: a call offers the child one message,
and publishes one event about it, in the order of its kind. -/
namespace Maestro.Session
open Interleaving Prog Protocol

/-- The messages that a user sends; a cancellation is the daemon's own. -/
def Purpose.message : Purpose → Bool
  | .cancellation .. => false
  | _ => true

def auditKinds : List String := ["gui_permission_response", "gui_user_input_response", "gui_action"]

def records : EventSource → NormalizedEvent → Bool
  | .gui, event => event.kind ∈ auditKinds
  | _, _ => false

/-- What a call sends to the child, and the event that records it. -/
structure Matter where
  session : SessionId
  run : RunId
  message : Value
  event : NormalizedEvent

def Entry.matter : Entry → Option String → Option Matter
  | .respondPermission session run requestId decision, _ =>
    let response := Value.object [("decision", .string decision.asStr), ("request_id", .string requestId)]
    some ⟨session, run, response, .user "gui_permission_response" response⟩
  | .respondUserInput session run requestId value, _ =>
    some ⟨session, run, .object [("request_id", .string requestId), ("value", value)],
      ⟨"gui_user_input_response", .sensitive,
        .object [("request_id", .string requestId), ("value_recorded", .bool false)], none, none⟩⟩
  | .sendGuiAction session run action payload, some actionId =>
    some ⟨session, run,
      .object [("action", .string action), ("action_id", .string actionId), ("payload", payload)],
      .user "gui_action" (.object [("action", .string action), ("action_id", .string actionId)])⟩
  | _, _ => none

def Entry.responds : Entry → Bool
  | .respondPermission .. | .respondUserInput .. => true
  | _ => false

def Entry.acts : Entry → Bool
  | .sendGuiAction .. => true
  | _ => false

/-- The call, when it is one that sends a message. -/
def Entry.sender (e : Entry) : Option Entry := if e.responds || e.acts then some e else none

section Records
variable (sup : Supervisor)

def Matter.Carries (matter : Matter) (o : Act) : Prop :=
  ∃ bytes purpose, encodeJson sup matter.message = .ok bytes ∧ o = .run matter.run (.stdinWrite bytes purpose)

def Matter.Announces (matter : Matter) (o : Act) : Prop :=
  o = .session matter.session (.publish (some matter.run) .gui
    { matter.event with payload := sup.redactJson matter.event.payload })

end Records

/-- A message handed to the child's standard input. -/
def wrote : ((o : Act) × o.Answer) → Bool
  | ⟨.run _ (.stdinWrite _ purpose), true⟩ => purpose.message
  | _ => false

def audited : ((o : Act) × o.Answer) → Bool
  | ⟨.session _ (.publish _ source event), .ok _⟩ => records source event
  | _ => false

def answers : ((o : Act) × o.Answer) → Bool
  | ⟨.answer _, _⟩ => true
  | _ => false

def writesOf (past : Past actions) : List Act := (past.filter wrote).map (·.1)

def auditsOf (past : Past actions) : List Act := (past.filter audited).map (·.1)

/-- The caller learns that its message was, or may have been, delivered. -/
def Reports (error : MaestroError) : Prop :=
  ∃ details, error.details = some (.object details) ∧
    (Value.get details "delivery" = some (.string "delivered") ∨ Value.get details "delivery" = some (.string "uncertain"))

structure Mailing where
  entry : Option Entry
  drawn : Option String
  written : Bool
  recorded : Bool
  answered : Bool

namespace Mailing

def matter (q : Mailing) : Option Matter := q.entry.bind (·.matter q.drawn)

def responds (q : Mailing) : Bool := q.entry.any Entry.responds

def acts (q : Mailing) : Bool := q.entry.any Entry.acts

/-- What an answer of the call says of the message and its record. -/
def Tells (q : Mailing) : Except MaestroError Unit → Prop
  | .ok () => q.responds = true ∨ q.acts = true → q.written = true ∧ q.recorded = true
  | .error error => q.responds = true → q.recorded = false ∧ (q.written = true → Reports error)

def may (sup : Supervisor) (q : Mailing) : Act → Prop
  | .newActionId => q.acts = true ∧ q.drawn = none
  | .run run (.stdinWrite bytes purpose) => purpose.message = true →
    q.answered = false ∧ q.written = false ∧ (q.acts = true → q.recorded = true) ∧
      ∃ matter, q.matter = some matter ∧ matter.Carries sup (.run run (.stdinWrite bytes purpose))
  | .session session (.publish run source event) => records source event = true →
    q.answered = false ∧ q.recorded = false ∧ (q.responds = true → q.written = true) ∧
      ∃ matter, q.matter = some matter ∧ matter.Announces sup (.session session (.publish run source event))
  | .answer result => q.answered = false ∧ q.Tells result
  | _ => True

def after (q : Mailing) : (o : Act) → o.Answer → Mailing
  | .newActionId, actionId => { q with drawn := some actionId }
  | .run _ (.stdinWrite _ purpose), true => if purpose.message then { q with written := true } else q
  | .session _ (.publish _ source event), .ok _ => if records source event then { q with recorded := true } else q
  | .answer _, _ => { q with answered := true }
  | _, _ => q

end Mailing

abbrev mailings (sup : Supervisor) : Protocol (machine sup) where
  Place := Mailing
  enter e := ⟨e.sender, none, false, false, false⟩
  may := Mailing.may sup
  after := Mailing.after
  ends q := q.entry = none ∨ q.answered = true

/-- What the acts of a call amount to at the place they lead to. -/
structure Mailed (sup : Supervisor) (past : Past actions) (q : Mailing) : Prop where
  writes : (writesOf past).length = q.written.toNat
  audits : (auditsOf past).length = q.recorded.toNat
  message : ∀ o ∈ writesOf past, ∃ matter, q.matter = some matter ∧ matter.Carries sup o
  event : ∀ o ∈ auditsOf past, ∃ matter, q.matter = some matter ∧ matter.Announces sup o
  backed : q.responds = true → q.recorded = true → q.written = true
  announced : q.acts = true → q.written = true → q.recorded = true
  drawn : ∀ actionId, q.drawn = some actionId → (⟨.newActionId, actionId⟩ : (o : Act) × o.Answer) ∈ past
  told : ∀ result, (⟨.answer result, ()⟩ : (o : Act) × o.Answer) ∈ past → q.answered = true ∧ q.Tells result
  answer : q.answered = true → ∃ result, (⟨.answer result, ()⟩ : (o : Act) × o.Answer) ∈ past

section Pasts
variable {sup : Supervisor} {past : Past actions} {q : Mailing} {o : Act} {answer : o.Answer}

theorem writesSame {done : (o : Act) × o.Answer} (silent : wrote done = false) : writesOf (past ++ [done]) = writesOf past := by
  simp [writesOf, silent]

theorem writesMore {done : (o : Act) × o.Answer} (writes : wrote done = true) :
    writesOf (past ++ [done]) = writesOf past ++ [done.1] := by
  simp [writesOf, writes]

theorem auditsSame {done : (o : Act) × o.Answer} (quiet : audited done = false) : auditsOf (past ++ [done]) = auditsOf past := by
  simp [auditsOf, quiet]

theorem auditsMore {done : (o : Act) × o.Answer} (audits : audited done = true) :
    auditsOf (past ++ [done]) = auditsOf past ++ [done.1] := by
  simp [auditsOf, audits]

theorem answeredLater {more : Past actions} (answered : ∃ result, (⟨.answer result, ()⟩ : (o : Act) × o.Answer) ∈ past) :
    ∃ result, (⟨.answer result, ()⟩ : (o : Act) × o.Answer) ∈ past ++ more := by
  obtain ⟨result, member⟩ := answered
  exact ⟨result, List.mem_append_left _ member⟩

theorem mailedStill {done : (o : Act) × o.Answer} (mailed : Mailed sup past q) (silent : wrote done = false)
    (quiet : audited done = false) (unanswered : answers done = false) : Mailed sup (past ++ [done]) q := by
  have writes := @writesSame past done silent
  have audits := @auditsSame past done quiet
  refine ⟨writes ▸ mailed.writes, audits ▸ mailed.audits, writes ▸ mailed.message, audits ▸ mailed.event, mailed.backed,
    mailed.announced, fun actionId found => List.mem_append_left _ (mailed.drawn actionId found), fun result member => ?_,
    fun answered => answeredLater (mailed.answer answered)⟩
  rcases List.mem_append.mp member with before | now
  · exact mailed.told result before
  · rw [← List.mem_singleton.mp now] at unanswered
    cases unanswered

theorem undrawnMatter (acts : q.acts = true) (undrawn : q.drawn = none) : q.matter = none := by
  obtain ⟨e, entry, acts⟩ := (Option.any_eq_true _ _).mp acts
  simp only [Mailing.matter, entry, undrawn, Option.bind_some]
  cases e with
  | sendGuiAction => rfl
  | _ => cases acts

theorem mailedDrawn {actionId : String} (mailed : Mailed sup past q) (may : q.may sup .newActionId) :
    Mailed sup (past ++ [⟨.newActionId, actionId⟩]) { q with drawn := some actionId } := by
  obtain ⟨acts, undrawn⟩ := may
  have unmattered : q.matter = none := undrawnMatter acts undrawn
  have still : Mailed sup (past ++ [⟨.newActionId, actionId⟩]) q := mailedStill mailed rfl rfl rfl
  have silent : writesOf (past ++ [⟨.newActionId, actionId⟩]) = [] := by
    refine List.eq_nil_iff_forall_not_mem.mpr fun o member => ?_
    obtain ⟨matter, found, _⟩ := still.message o member
    rw [unmattered] at found
    cases found
  have quiet : auditsOf (past ++ [⟨.newActionId, actionId⟩]) = [] := by
    refine List.eq_nil_iff_forall_not_mem.mpr fun o member => ?_
    obtain ⟨matter, found, _⟩ := still.event o member
    rw [unmattered] at found
    cases found
  refine ⟨still.writes, still.audits, silent ▸ List.forall_mem_nil _, quiet ▸ List.forall_mem_nil _, still.backed, still.announced, fun id found => ?_,
    still.told, still.answer⟩
  cases found
  exact List.mem_append_right _ (List.mem_singleton_self _)

theorem mailedWritten {run bytes purpose} (mailed : Mailed sup past q) (sends : purpose.message = true)
    (may : q.may sup (.run run (.stdinWrite bytes purpose))) :
    Mailed sup (past ++ [⟨.run run (.stdinWrite bytes purpose), true⟩]) { q with written := true } := by
  obtain ⟨open', unwritten, announced, matter, found, carries⟩ := may sends
  have writes : writesOf (past ++ [⟨.run run (.stdinWrite bytes purpose), true⟩]) =
      writesOf past ++ [.run run (.stdinWrite bytes purpose)] := writesMore sends
  have audits : auditsOf (past ++ [⟨.run run (.stdinWrite bytes purpose), true⟩]) = auditsOf past :=
    auditsSame rfl
  refine ⟨?_, audits ▸ mailed.audits, ?_, audits ▸ mailed.event, fun _ _ => rfl, fun acts _ => announced acts,
    fun actionId same => List.mem_append_left _ (mailed.drawn actionId same), fun result member => ?_,
    fun answered => answeredLater (mailed.answer answered)⟩
  · rw [writes, List.length_append, mailed.writes, unwritten]
    rfl
  · intro o member
    rw [writes] at member
    rcases List.mem_append.mp member with before | now
    · exact mailed.message o before
    · rw [List.mem_singleton.mp now]
      exact ⟨matter, found, carries⟩
  · rcases List.mem_append.mp member with before | now
    · exact absurd ((mailed.told result before).1.symm.trans open') nofun
    · cases List.mem_singleton.mp now

theorem mailedRecorded {session run source event envelope} (mailed : Mailed sup past q) (audit : records source event = true)
    (may : q.may sup (.session session (.publish run source event))) :
    Mailed sup (past ++ [⟨.session session (.publish run source event), .ok envelope⟩]) { q with recorded := true } := by
  obtain ⟨open', unrecorded, backed, matter, found, announces⟩ := may audit
  have audits : auditsOf (past ++ [⟨.session session (.publish run source event), .ok envelope⟩]) =
      auditsOf past ++ [.session session (.publish run source event)] := auditsMore audit
  have writes : writesOf (past ++ [⟨.session session (.publish run source event), .ok envelope⟩]) = writesOf past :=
    writesSame rfl
  refine ⟨writes ▸ mailed.writes, ?_, writes ▸ mailed.message, ?_, fun responds _ => backed responds, fun _ _ => rfl,
    fun actionId same => List.mem_append_left _ (mailed.drawn actionId same), fun result member => ?_,
    fun answered => answeredLater (mailed.answer answered)⟩
  · rw [audits, List.length_append, mailed.audits, unrecorded]
    rfl
  · intro o member
    rw [audits] at member
    rcases List.mem_append.mp member with before | now
    · exact mailed.event o before
    · rw [List.mem_singleton.mp now]
      exact ⟨matter, found, announces⟩
  · rcases List.mem_append.mp member with before | now
    · exact absurd ((mailed.told result before).1.symm.trans open') nofun
    · cases List.mem_singleton.mp now

theorem mailedAnswered {result} (mailed : Mailed sup past q) (may : q.may sup (.answer result)) :
    Mailed sup (past ++ [⟨.answer result, ()⟩]) { q with answered := true } := by
  have writes : writesOf (past ++ [⟨.answer result, ()⟩]) = writesOf past := writesSame rfl
  have audits : auditsOf (past ++ [⟨.answer result, ()⟩]) = auditsOf past := auditsSame rfl
  refine ⟨writes ▸ mailed.writes, audits ▸ mailed.audits, writes ▸ mailed.message, audits ▸ mailed.event, mailed.backed,
    mailed.announced, fun actionId same => List.mem_append_left _ (mailed.drawn actionId same), fun other member => ?_,
    fun _ => ⟨result, List.mem_append_right _ (List.mem_singleton_self _)⟩⟩
  rcases List.mem_append.mp member with before | now
  · exact ⟨rfl, (mailed.told other before).2⟩
  · cases List.mem_singleton.mp now
    exact ⟨rfl, may.2⟩

theorem mailedKept (mailed : Mailed sup past q) (may : q.may sup o) :
    Mailed sup (past ++ [⟨o, answer⟩]) (q.after o answer) := by
  cases o with
  | newActionId => exact mailedDrawn mailed may
  | answer result => exact mailedAnswered mailed may
  | session session call =>
    cases call with
    | publish run source event =>
      cases answer with
      | error error => exact mailedStill mailed rfl rfl rfl
      | ok envelope =>
        cases audit : records source event with
        | false =>
          have still : Mailed sup (past ++ [⟨.session session (.publish run source event), .ok envelope⟩]) q :=
            mailedStill mailed rfl audit rfl
          simpa [Mailing.after, audit] using still
        | true => simpa [Mailing.after, audit] using mailedRecorded mailed audit may
    | _ => exact mailedStill mailed rfl rfl rfl
  | run run call =>
    cases call with
    | stdinWrite bytes purpose =>
      cases answer with
      | false => exact mailedStill mailed rfl rfl rfl
      | true =>
        cases sends : purpose.message with
        | false =>
          have still : Mailed sup (past ++ [⟨.run run (.stdinWrite bytes purpose), true⟩]) q :=
            mailedStill mailed sends rfl rfl
          simpa [Mailing.after, sends] using still
        | true => simpa [Mailing.after, sends] using mailedWritten mailed sends may
    | _ => exact mailedStill mailed rfl rfl rfl
  | _ => exact mailedStill mailed rfl rfl rfl

theorem mailedFirst (e : Entry) : Mailed sup [] ((mailings sup).enter e) :=
  ⟨rfl, rfl, List.forall_mem_nil _, List.forall_mem_nil _, fun _ recorded => Bool.noConfusion recorded,
    fun _ written => Bool.noConfusion written, fun _ drawn => absurd drawn.symm (Option.some_ne_none _), fun _ member => absurd member List.not_mem_nil,
    fun answered => Bool.noConfusion answered⟩

end Pasts

section Others
variable {sup : Supervisor} {session : SessionId} {run : RunId}

def Act.Mute : Act → Prop
  | .newActionId | .answer _ => False
  | .run _ (.stdinWrite _ purpose) => purpose.message = false
  | .session _ (.publish _ source event) => records source event = false
  | _ => True

theorem refusesInputMute : (refusesInput run).Only Act.Mute := by
  refine onlyBind (onlyOne trivial) fun finalized => ?_
  split
  · trivial
  · exact onlyOne trivial

theorem updateWaitingStateMute : (updateWaitingState session run).Only Act.Mute :=
  onlyBind (onlyOne trivial) fun _ => onlyOne trivial

theorem activeRunMute : (activeRun session run).Only Act.Mute := by
  refine onlyBind (onlyOne trivial) fun found => ?_
  split
  · trivial
  refine onlyBind (onlyOne trivial) fun active => ?_
  split
  · trivial
  refine onlyBind (onlyOne trivial) fun finalized => ?_
  split <;> trivial

theorem terminateMute : (terminate run).Only Act.Mute := terminateOnly ⟨trivial, trivial, trivial, trivial, trivial⟩

theorem publishMute {target : Option RunId} {source event} (unrecorded : ∀ payload, records source { event with payload } = false) :
    (publish sup session target source event).Only Act.Mute := onlyOne (unrecorded _)

theorem stopMute : (stop sup session run).Only Act.Mute := by
  refine onlyBind activeRunMute fun active => ?_
  split
  · trivial
  refine onlyBind (onlyOne trivial) fun stopping => ?_
  split
  · trivial
  have asked : ∀ payload, records .gui (.user "gui_stop_requested" payload) = false := fun payload => by
    simp [records, auditKinds, NormalizedEvent.user]
  refine onlyBind (onlyOne trivial) fun _ => onlyBind (publishMute asked) fun published => ?_
  split
  · trivial
  refine onlyBind (onlyOne trivial) fun _ => onlyBind terminateMute fun result => onlyBind (onlyOne trivial) fun _ => ?_
  split <;> trivial

theorem recordLaunchFailureMute {error} : (recordLaunchFailure sup session error).Only Act.Mute :=
  onlyBind (onlyOne trivial) fun _ => onlyBind (onlyOne rfl) fun _ => trivial

theorem dropLaunchGuardMute {token reserved committed} :
    (dropLaunchGuard session token reserved committed).Only Act.Mute := by
  refine onlyBind (onlyOne trivial) fun _ => ?_
  split
  · exact onlyOne trivial
  · trivial

theorem abandonLaunchMute {error operation} : (abandonLaunch sup session run error operation).Only Act.Mute :=
  onlyBind terminateMute fun _ => onlyBind recordLaunchFailureMute fun _ => trivial

theorem claimLaunchBindingMute {token binding} : (claimLaunchBinding session token binding).Only Act.Mute := by
  cases binding with
  | none => trivial
  | some value => exact onlyOne trivial

theorem launchMute {request binding} : (launch sup session request binding).Only Act.Mute := by
  have drop : ∀ {token reserved committed} {result : Except MaestroError RunId},
      Only Act.Mute (do dropLaunchGuard session token reserved committed; pure result) :=
    onlyBind dropLaunchGuardMute fun _ => trivial
  unfold launch
  split
  · trivial
  refine onlyBind (onlyOne trivial) fun began => ?_
  split
  · trivial
  refine onlyBind (onlyOne trivial) fun token => onlyBind claimLaunchBindingMute fun claimed => ?_
  split
  · exact onlyBind (onlyOne trivial) fun _ => trivial
  refine onlyBind (onlyOne trivial) fun _ => onlyBind (onlyOne trivial) fun _ => onlyBind (onlyOne trivial) fun _ =>
    onlyBind (onlyOne trivial) fun run => onlyBind (onlyOne trivial) fun spawned => ?_
  split
  · exact onlyBind recordLaunchFailureMute fun _ => drop
  refine onlyBind (onlyOne trivial) fun taken => ?_
  split
  · exact onlyBind abandonLaunchMute fun _ => drop
  refine onlyBind (onlyOne trivial) fun taken => ?_
  split
  · exact onlyBind abandonLaunchMute fun _ => drop
  refine onlyBind (onlyOne trivial) fun installed => ?_
  split
  · refine onlyBind (onlyOne trivial) fun _ => onlyBind dropLaunchGuardMute fun _ => onlyBind (onlyOne rfl) fun published => ?_
    split
    · trivial
    · exact onlyBind (onlyOne trivial) fun _ => trivial
  · exact onlyBind (onlyOne trivial) fun _ => onlyBind terminateMute fun _ => onlyBind (onlyOne trivial) fun _ => drop

theorem superviseDurablyMute {afterSequence} : (superviseDurably sup session run afterSequence).Only Act.Mute := by
  refine onlyBind (onlyOne trivial) fun stored => ?_
  split
  · exact onlyBind (onlyOne trivial) fun _ => trivial
  · exact onlyBind stopMute fun _ => trivial

theorem handleStartMute {request} : (handleStart sup request).Only Act.Mute := by
  have started : (Session.start sup request).Only Act.Mute := by
    refine onlyBind (onlyOne trivial) fun created => ?_
    split
    · trivial
    refine onlyBind launchMute fun launched => ?_
    split
    · trivial
    · refine onlyBind (onlyOne trivial) fun state => ?_
      split
      · exact onlyBind (onlyOne trivial) fun _ => trivial
      · trivial
  refine onlyBind started fun result => ?_
  split
  · trivial
  · exact superviseDurablyMute

theorem handleResumeMute {request} : (handleResume sup session request).Only Act.Mute := by
  have resumed : (resume sup session request).Only Act.Mute := by
    refine onlyBind (onlyOne trivial) fun found => ?_
    split
    · trivial
    refine onlyBind (onlyOne trivial) fun binding => ?_
    split
    · trivial
    · exact launchMute
  refine onlyBind (onlyOne trivial) fun found => ?_
  split
  · trivial
  refine onlyBind (onlyOne trivial) fun before => onlyBind resumed fun result => ?_
  split
  · trivial
  · exact superviseDurablyMute

/-! The expiry of a request. -/

theorem writeJsonMute {value purpose} (own : Purpose.message purpose = false) : (writeJson sup run value purpose).Only Act.Mute := by
  unfold writeJson
  split
  · trivial
  refine onlyBind (onlyBind refusesInputMute fun refused => ?_) fun written => ?_
  · split
    · trivial
    refine onlyBind (onlyOne trivial) fun _ => onlyBind refusesInputMute fun refused => ?_
    split
    · exact onlyBind (onlyOne trivial) fun _ => trivial
    refine onlyBind (onlyBind (onlyOne own) fun present => ?_) fun written => onlyBind (onlyOne trivial) fun _ => ?_
    · split
      · refine onlyBind (onlyOne trivial) fun flushed => ?_
        split <;> trivial
      · trivial
    · split <;> trivial
  · split <;> trivial

theorem expireRequestMute {requestId kind} : (expireRequest sup session run requestId kind).Only Act.Mute := by
  refine onlyBind (onlyOne trivial) fun finalized => ?_
  split
  · trivial
  refine onlyBind (onlyOne trivial) fun expired => ?_
  split
  · trivial
  refine onlyBind (onlyOne rfl) fun _ => ?_
  split
  · exact onlyBind (writeJsonMute rfl) fun _ => updateWaitingStateMute
  · exact updateWaitingStateMute

theorem restoreAndExpireMute {requestId kind} : (restoreAndExpire sup session run requestId kind).Only Act.Mute := by
  refine onlyBind (onlyOne trivial) fun restored => ?_
  split
  · exact expireRequestMute
  · trivial

/-! The reader of standard output. -/

theorem registerPendingMute {requestId kind} : (registerPending sup session run requestId kind).Only Act.Mute := by
  unfold registerPending
  split
  · trivial
  refine onlyBind (onlyOne trivial) fun _ => onlyBind (onlyOne trivial) fun registered => ?_
  split
  · trivial
  · exact onlyBind (onlyOne trivial) fun _ => trivial

theorem applyFrameMute {frame} : (applyFrame sup session run frame).Only Act.Mute := by
  have adopts : (adoptBinding session run frame).Only Act.Mute := by
    unfold adoptBinding
    split
    · trivial
    split
    · trivial
    refine onlyBind (onlyOne trivial) fun existing => ?_
    split
    · split
      · trivial
      · exact onlyBind (onlyOne trivial) fun _ => trivial
    · refine onlyBind (onlyOne trivial) fun token => onlyBind (onlyOne trivial) fun claimed => ?_
      split
      · trivial
      · exact onlyBind (onlyOne trivial) fun _ => onlyBind (onlyOne trivial) fun _ => trivial
  have asks : ∀ {kind waiting category}, (handleRequest sup session run kind waiting category frame).Only Act.Mute := by
    intro kind waiting category
    unfold handleRequest
    split
    · trivial
    refine onlyBind registerPendingMute fun registered => ?_
    split
    · trivial
    · exact onlyBind (onlyOne trivial) fun _ => trivial
  have results : ∀ {kind category}, (handleResult session run kind category frame).Only Act.Mute := by
    intro kind category
    unfold handleResult
    split
    · trivial
    refine onlyBind (onlyOne trivial) fun confirmed => ?_
    split
    · exact onlyBind updateWaitingStateMute fun _ => trivial
    · trivial
  have acknowledges : (handleAck run frame).Only Act.Mute := by
    unfold handleAck
    split
    · trivial
    refine onlyBind (onlyOne trivial) fun acknowledged => ?_
    split <;> trivial
  unfold applyFrame
  split <;> first
    | exact adopts
    | exact asks
    | exact results
    | exact acknowledges
    | trivial

theorem handleFrameMute {value} : (handleFrame sup session run value).Only Act.Mute := by
  refine onlyBind (onlyOne trivial) fun _ => ?_
  split
  · trivial
  refine onlyBind applyFrameMute fun applied => ?_
  split
  · trivial
  refine onlyBind (onlyOne rfl) fun published => ?_
  split
  · trivial
  refine onlyBind (onlyOne trivial) fun state => ?_
  split
  · exact onlyBind (onlyOne trivial) fun _ => trivial
  · trivial

theorem handleFramesMute {frames} : (handleFrames sup session run frames).Only Act.Mute := by
  induction frames with
  | nil => trivial
  | cons value rest ih =>
    refine onlyBind handleFrameMute fun handled => ?_
    split
    · trivial
    · exact ih

theorem readStdoutMute {decoder} : (readStdout sup session run decoder).Only Act.Mute := by
  refine onlyBind (onlyOne trivial) fun read => ?_
  split
  · trivial
  · trivial
  refine onlyBind (onlyOne trivial) fun _ => onlyBind handleFramesMute fun handled => ?_
  split
  · trivial
  · split <;> trivial

/-! The end of a run. -/

theorem reapRunMute {failure} : (reapRun sup session run failure).Only Act.Mute := by
  refine onlyBind (onlyOne trivial) fun stderrFailed => onlyBind (onlyOne trivial) fun _ =>
    onlyBind (onlyOne trivial) fun exit => onlyBind (onlyOne trivial) fun _ => onlyBind (onlyOne trivial) fun finalized => ?_
  split
  · trivial
  refine onlyBind (onlyOne trivial) fun _ => onlyBind (onlyOne trivial) fun _ => onlyBind ?_ fun _ =>
    onlyBind (onlyOne trivial) fun stopRequested => onlyBind (onlyOne trivial) fun _ => ?_
  · refine onlyBind (onlyOne trivial) fun leased => ?_
    split
    · exact onlyBind (onlyOne trivial) fun _ => onlyOne trivial
    · trivial
  · split
    · trivial
    · exact onlyBind (onlyOne rfl) fun _ => trivial

theorem finishRunMute {failure} : (finishRun sup session run failure).Only Act.Mute := by
  unfold finishRun
  split
  · exact onlyBind (onlyBind (onlyOne trivial) fun _ => onlyBind (onlyOne rfl) fun _ => trivial) fun _ =>
      onlyBind (onlyOne trivial) fun _ => onlyBind terminateMute fun _ => onlyBind (onlyOne trivial) fun _ => reapRunMute
  · exact reapRunMute

theorem monitorMute {o : Act} (monitor : MonitorAct session run o) : o.Mute := by
  cases o with
  | session s call => cases call <;> first | exact trivial | exact monitor.elim
  | run r call => cases call <;> first | exact trivial | exact monitor.elim
  | newActionId | answer => exact monitor.elim
  | _ => exact trivial

theorem stderrMute {o : Act} (stderr : StderrAct session run o) : o.Mute := by
  cases o with
  | session s call => cases call <;> first | exact trivial | exact stderr.elim
  | run r call => cases call <;> first | exact trivial | exact stderr.elim
  | newActionId | answer => exact stderr.elim
  | _ => exact trivial

end Others

section Calls
variable {sup : Supervisor} {session : SessionId} {run : RunId} {q : Mailing}

theorem muteQuiet {o : Act} (mute : o.Mute) : q.may sup o ∧ ∀ answer, q.after o answer = q := by
  cases o with
  | newActionId | answer => exact mute.elim
  | session s call =>
    cases call with
    | publish target source event =>
      have silent : records source event = false := mute
      refine ⟨fun audit => absurd (audit.symm.trans silent) nofun, fun answer => ?_⟩
      cases answer with
      | error error => rfl
      | ok envelope => exact if_neg fun audit => absurd (audit.symm.trans silent) nofun
    | _ => exact ⟨trivial, fun _ => rfl⟩
  | run r call =>
    cases call with
    | stdinWrite bytes purpose =>
      have own : purpose.message = false := mute
      refine ⟨fun sends => absurd (sends.symm.trans own) nofun, fun answer => ?_⟩
      cases answer with
      | false => rfl
      | true => exact if_neg fun sends => absurd (sends.symm.trans own) nofun
    | _ => exact ⟨trivial, fun _ => rfl⟩
  | _ => exact ⟨trivial, fun _ => rfl⟩

theorem muteStays {α : Type} {p : Program α} (only : p.Only Act.Mute) : (mailings sup).Stays q p :=
  staysOnly only fun _ => muteQuiet

def Told (result : Except MaestroError Unit) (q : Mailing) : Prop := q.answered = false ∧ q.Tells result

theorem replyMail {call : Program (Except MaestroError Unit)} (follows : (mailings sup).Follows Told q call) :
    (mailings sup).Follows (mailings sup).EntryPost q (reply call) :=
  followsSeq follows fun _ _ told => followsStep told fun _ => .inr rfl

/-- A written line is at the child's standard input, a refused one is not. -/
def Wrought (q : Mailing) (result : Except StructuredWriteError Unit) (q' : Mailing) : Prop :=
  ((∃ error, result = .error (.definite error)) ∧ q' = q) ∨
    (∀ error, result ≠ .error (.definite error)) ∧ q' = { q with written := true }

theorem writeJsonBytesMail {bytes purpose} (sends : Purpose.message purpose = true)
    (may : q.may sup (.run run (.stdinWrite bytes purpose))) :
    (mailings sup).Follows (Wrought q) q (writeJsonBytes run bytes purpose) := by
  refine writeJsonBytesFollows (fun p o around => ?_) may rfl (if_pos sends)
  obtain rfl | rfl | rfl | rfl | rfl := around <;> exact ⟨trivial, fun _ => rfl⟩

theorem writeJsonMail {value purpose} (sends : Purpose.message purpose = true)
    (may : ∀ bytes, encodeJson sup value = .ok bytes → q.may sup (.run run (.stdinWrite bytes purpose))) :
    (mailings sup).Follows (fun result q' =>
      (∃ error, result = .error error) ∧ (q' = q ∨ q' = { q with written := true }) ∨
        result = .ok () ∧ q' = { q with written := true }) q (writeJson sup run value purpose) := by
  unfold writeJson
  split
  · exact .inl ⟨⟨_, rfl⟩, .inl rfl⟩
  · rename_i bytes encoded
    refine followsSeq (writeJsonBytesMail sends (may bytes encoded)) fun written q' wrote => ?_
    split
    · obtain ⟨⟨_, same⟩, _⟩ | ⟨_, reached⟩ := wrote
      · cases same
      · exact .inr ⟨rfl, reached⟩
    · obtain ⟨_, reached⟩ | ⟨_, reached⟩ := wrote
      · exact .inl ⟨⟨_, rfl⟩, .inl reached⟩
      · exact .inl ⟨⟨_, rfl⟩, .inr reached⟩
    · obtain ⟨_, reached⟩ | ⟨_, reached⟩ := wrote
      · exact .inl ⟨⟨_, rfl⟩, .inl reached⟩
      · exact .inl ⟨⟨_, rfl⟩, .inr reached⟩

theorem unsentTold {error : MaestroError} (unanswered : q.answered = false) (unwritten : q.written = false)
    (unrecorded : q.recorded = false) : Told (.error error) q :=
  ⟨unanswered, fun _ => ⟨unrecorded, fun written => absurd (written.symm.trans unwritten) nofun⟩⟩

theorem annotatedReports {error : MaestroError} {delivery : String} (named : delivery = "delivered" ∨ delivery = "uncertain") :
    Reports (annotateDeliveryError error delivery false) := by
  refine ⟨_, rfl, ?_⟩
  rw [Value.getInsertOther (by decide), Value.getInsert]
  rcases named with rfl | rfl
  · exact .inl rfl
  · exact .inr rfl

/-- A call that has its message and has recorded nothing yet. -/
structure Pending (q : Mailing) (session : SessionId) (run : RunId) (message : Value) (audit : NormalizedEvent) : Prop where
  unanswered : q.answered = false
  unrecorded : q.recorded = false
  matter : q.matter = some ⟨session, run, message, audit⟩
  kind : audit.kind ∈ auditKinds

variable {message : Value} {audit : NormalizedEvent}

theorem announceMail {post : Except MaestroError EventEnvelope → Mailing → Prop} (pending : Pending q session run message audit)
    (backed : q.responds = true → q.written = true) (failed : ∀ error, post (.error error) q)
    (recorded : ∀ envelope, post (.ok envelope) { q with recorded := true }) :
    (mailings sup).Follows post q (publish sup session (some run) .gui audit) := by
  have named : ∀ payload, records .gui { audit with payload := payload } = true := fun payload => by
    simpa [records] using pending.kind
  refine ⟨fun _ => ⟨pending.unanswered, pending.unrecorded, backed, _, pending.matter, rfl⟩, fun published => ?_⟩
  cases published with
  | error error => exact failed error
  | ok envelope =>
    have reached : Mailing.after q (.session session (.publish (some run) .gui
        { audit with payload := sup.redactJson audit.payload })) (.ok envelope) = { q with recorded := true } :=
      if_pos (named _)
    exact followsFrom reached (recorded envelope)

theorem unrecordedSame (unrecorded : q.recorded = false) : q = { q with recorded := false } := by
  cases q
  cases unrecorded
  rfl

theorem concludeDeliveryMail (pending : Pending q session run message audit) (written : q.written = true) :
    (mailings sup).Follows Told q (concludeDelivery sup session run audit) := by
  have announced : (mailings sup).Follows (fun result q' => q' = { q with recorded := result.isOk }) q
      (publish sup session (some run) .gui audit) :=
    announceMail pending (fun _ => written) (fun _ => unrecordedSame pending.unrecorded) fun _ => rfl
  refine staysSeq (muteStays updateWaitingStateMute) fun _ => followsSeq announced fun published q' reached => ?_
  subst reached
  cases published with
  | error error => exact ⟨pending.unanswered, fun _ => ⟨rfl, fun _ => annotatedReports (.inl rfl)⟩⟩
  | ok envelope => exact ⟨pending.unanswered, fun _ => ⟨written, rfl⟩⟩

theorem deliverPendingResponseMail {requestId kind} (pending : Pending q session run message audit)
    (answering : q.acts = false) (unwritten : q.written = false) :
    (mailings sup).Follows Told q (deliverPendingResponse sup session run requestId kind message audit) := by
  have unsent : ∀ {error : MaestroError}, Told (.error error) q :=
    unsentTold pending.unanswered unwritten pending.unrecorded
  have restored : ∀ {error : MaestroError}, (mailings sup).Follows Told q (do
      restoreAndExpire sup session run requestId kind
      return (.error error : Except MaestroError Unit)) :=
    staysSeq (muteStays restoreAndExpireMute) fun _ => unsent
  have sent : Pending { q with written := true } session run message audit :=
    ⟨pending.unanswered, pending.unrecorded, pending.matter, pending.kind⟩
  refine followsStep trivial fun claimed => ?_
  cases claimed with
  | error error => exact unsent
  | ok registration =>
    dsimp only [Mailing.after]
    split
    · exact restored
    rename_i bytes encoded
    have allowed : q.may sup (.run run (.stdinWrite bytes (.response requestId kind registration))) := fun _ =>
      ⟨pending.unanswered, unwritten, fun acts => absurd (acts.symm.trans answering) nofun, _, pending.matter, bytes, _,
        encoded, rfl⟩
    refine followsSeq (writeJsonBytesMail rfl allowed) fun written q' wrote => ?_
    split
    · obtain ⟨⟨_, same⟩, _⟩ | ⟨_, rfl⟩ := wrote
      · cases same
      refine followsStep trivial fun completed => ?_
      split
      · exact ⟨pending.unanswered, fun _ => ⟨pending.unrecorded, fun _ => annotatedReports (.inl rfl)⟩⟩
      · exact concludeDeliveryMail sent rfl
    · obtain ⟨_, rfl⟩ | ⟨wrong, _⟩ := wrote
      · exact restored
      · exact absurd rfl (wrong _)
    · obtain ⟨⟨_, same⟩, _⟩ | ⟨_, rfl⟩ := wrote
      · cases same
      refine followsStep trivial fun resolved => ?_
      split
      · exact concludeDeliveryMail sent rfl
      · exact staysSeq (muteStays updateWaitingStateMute) fun _ =>
          ⟨pending.unanswered, fun _ => ⟨pending.unrecorded, fun _ => annotatedReports (.inr rfl)⟩⟩

theorem respondPermissionMail {requestId decision} :
    (mailings sup).Follows Told ((mailings sup).enter (.respondPermission session run requestId decision))
      (respondPermission sup session run requestId decision) := by
  unfold respondPermission
  split
  · exact unsentTold rfl rfl rfl
  refine staysSeq (muteStays activeRunMute) fun active => ?_
  split
  · exact unsentTold rfl rfl rfl
  · exact deliverPendingResponseMail ⟨rfl, rfl, rfl, by simp [auditKinds, NormalizedEvent.user]⟩ rfl rfl

theorem respondUserInputMail {requestId value} :
    (mailings sup).Follows Told ((mailings sup).enter (.respondUserInput session run requestId value))
      (respondUserInput sup session run requestId value) := by
  unfold respondUserInput
  split
  · exact unsentTold rfl rfl rfl
  refine staysSeq (muteStays activeRunMute) fun active => ?_
  split
  · exact unsentTold rfl rfl rfl
  · exact deliverPendingResponseMail ⟨rfl, rfl, rfl, by simp [auditKinds]⟩ rfl rfl

theorem actionTold {error} (acting : q.responds = false) (unanswered : q.answered = false) : Told (.error error) q :=
  ⟨unanswered, fun responds => absurd (responds.symm.trans acting) nofun⟩

theorem sendGuiActionMail {action payload} :
    (mailings sup).Follows Told ((mailings sup).enter (.sendGuiAction session run action payload))
      (sendGuiAction sup session run action payload) := by
  unfold sendGuiAction
  split
  · exact actionTold rfl rfl
  refine staysSeq (muteStays activeRunMute) fun active => ?_
  split
  · exact actionTold rfl rfl
  refine followsStep ⟨rfl, rfl⟩ fun actionId => staysSeq (muteStays registerPendingMute) fun registered => ?_
  split
  · exact actionTold rfl rfl
  have announced : (mailings sup).Follows (fun result q' => q' = ⟨some (.sendGuiAction session run action payload), some actionId, false,
      result.isOk, false⟩) ⟨some (.sendGuiAction session run action payload), some actionId, false, false, false⟩
      (publish sup session (some run) .gui
        (.user "gui_action" (.object [("action", .string action), ("action_id", .string actionId)]))) :=
    announceMail ⟨rfl, rfl, rfl, by simp [auditKinds, NormalizedEvent.user]⟩ nofun (fun _ => rfl) fun _ => rfl
  refine followsSeq announced fun published q' reached => ?_
  subst reached
  split
  · exact actionTold rfl rfl
  refine followsSeq (writeJsonMail rfl fun bytes encoded => ?_) fun written q' reached => ?_
  · exact fun _ => ⟨rfl, rfl, fun _ => rfl, _, rfl, bytes, _, encoded, rfl⟩
  · cases written with
    | error error =>
      refine followsStep trivial fun _ => actionTold ?_ ?_
      · obtain ⟨_, rfl | rfl⟩ | ⟨same, _⟩ := reached
        · rfl
        · rfl
        · cases same
      · obtain ⟨_, rfl | rfl⟩ | ⟨same, _⟩ := reached
        · rfl
        · rfl
        · cases same
    | ok _ =>
      obtain ⟨⟨_, same⟩, _⟩ | ⟨_, rfl⟩ := reached
      · cases same
      · exact ⟨rfl, fun _ => ⟨rfl, rfl⟩⟩

abbrev Mailing.idle : Mailing := ⟨none, none, false, false, false⟩

theorem replyMute {call : Program (Except MaestroError Unit)} (only : call.Only Act.Mute) :
    (mailings sup).Follows (mailings sup).EntryPost .idle (reply call) := by
  refine replyMail (staysEnd (muteStays only) fun result => ⟨rfl, ?_⟩)
  cases result with
  | error error => exact fun responds => Bool.noConfusion responds
  | ok _ =>
    rintro (responds | acts)
    · cases responds
    · cases acts

theorem muteEnds {p : Program (Option Entry)} (only : p.Only Act.Mute)
    (returns : p.Returns fun next => ∀ e, next = some e → e.sender = none) :
    (mailings sup).Follows (mailings sup).EntryPost .idle p := by
  refine staysReturns only (fun _ => muteQuiet) returns fun next silent => ?_
  cases next with
  | none => exact .inl rfl
  | some e =>
    change Mailing.idle = ⟨e.sender, none, false, false, false⟩
    rw [silent e rfl]

theorem mailingsSound : (mailings sup).Sound := by
  intro e
  cases e with
  | start => exact replyMute handleStartMute
  | resume => exact replyMute handleResumeMute
  | respondPermission => exact replyMail respondPermissionMail
  | respondUserInput => exact replyMail respondUserInputMail
  | sendGuiAction => exact replyMail sendGuiActionMail
  | stop => exact replyMute stopMute
  | expiry => exact followsStep trivial fun _ => staysSeq (muteStays expireRequestMute) fun _ => .inl rfl
  | stderrReader session run =>
    refine muteEnds (onlyImp readStderrOnly fun _ => stderrMute) (returnsImp readStderrReturns ?_)
    rintro _ (rfl | rfl) e same <;> cases same
    rfl
  | supervise => exact followsStep trivial fun _ => rfl
  | stdoutReader session run decoder =>
    refine muteEnds readStdoutMute (returnsImp readStdoutReturns ?_)
    rintro _ (⟨_, rfl⟩ | ⟨_, rfl⟩) e same <;> cases same <;> rfl
  | finish => exact staysSeq (muteStays finishRunMute) fun _ => .inl rfl
  | monitor session run afterSequence =>
    refine muteEnds (onlyImp monitorMonitor fun _ => monitorMute) (returnsImp monitorReturns ?_)
    rintro _ (rfl | ⟨_, rfl⟩) e same <;> cases same
    rfl
  | monitorLoop session run lastPersisted =>
    refine muteEnds (onlyImp monitorLoopMonitor fun _ => monitorMute) (returnsImp monitorLoopReturns ?_)
    rintro _ (rfl | ⟨_, rfl⟩) e same <;> cases same
    rfl

end Calls

/-- A message of the call; an action's has the identifier that the call drew. -/
def Entry.Matters (e : Entry) (past : Past actions) (matter : Matter) : Prop :=
  e.matter none = some matter ∨
    ∃ actionId, (⟨.newActionId, actionId⟩ : (o : Act) × o.Answer) ∈ past ∧ e.matter (some actionId) = some matter

/-- What the answer of a call says of its message and its record. -/
def Entry.Tells (e : Entry) (past : Past actions) : Except MaestroError Unit → Prop
  | .ok () => e.responds = true ∨ e.acts = true → (writesOf past).length = 1 ∧ (auditsOf past).length = 1
  | .error error => e.responds = true → auditsOf past = [] ∧ (writesOf past = [] ∨ Reports error)

/-- A task sends and records its own message only, and each at most once. -/
structure Audited {sup : Supervisor} (t : Task (machine sup)) : Prop where
  message : ∀ o ∈ writesOf t.past, ∃ matter, t.entry.Matters t.past matter ∧ matter.Carries sup o
  event : ∀ o ∈ auditsOf t.past, ∃ matter, t.entry.Matters t.past matter ∧ matter.Announces sup o
  once : (writesOf t.past).length ≤ 1 ∧ (auditsOf t.past).length ≤ 1
  responds : t.entry.responds = true → (auditsOf t.past).length ≤ (writesOf t.past).length
  acts : t.entry.acts = true → (writesOf t.past).length ≤ (auditsOf t.past).length
  told : ∀ result, (⟨.answer result, ()⟩ : (o : Act) × o.Answer) ∈ t.past → t.entry.Tells t.past result
  answers : t.rest = .done none → t.entry.responds = true ∨ t.entry.acts = true →
    ∃ result, (⟨.answer result, ()⟩ : (o : Act) × o.Answer) ∈ t.past

section Runs
variable {sup : Supervisor} {e : Entry} {q : Mailing} {past : Past actions}

theorem senderResponds (entry : q.entry = e.sender) (responds : e.responds = true) : q.responds = true := by
  unfold Mailing.responds
  rw [entry, Entry.sender, responds]
  exact responds

theorem senderActs (entry : q.entry = e.sender) (acts : e.acts = true) : q.acts = true := by
  unfold Mailing.acts
  rw [entry, Entry.sender, acts, Bool.or_true]
  exact acts

theorem senderMatter (entry : q.entry = e.sender) (mailed : Mailed sup past q) {matter : Matter} (found : q.matter = some matter) :
    e.Matters past matter := by
  unfold Mailing.matter at found
  rw [entry] at found
  unfold Entry.sender at found
  split at found
  · rw [Option.bind_some] at found
    cases drawn : q.drawn with
    | none =>
      rw [drawn] at found
      exact .inl found
    | some actionId =>
      rw [drawn] at found
      exact .inr ⟨actionId, mailed.drawn actionId drawn, found⟩
  · cases found

theorem afterEntry {o : Act} {answer : o.Answer} : (q.after o answer).entry = q.entry := by
  unfold Mailing.after
  split
  · rfl
  · split <;> rfl
  · split <;> rfl
  · rfl
  · rfl

theorem toldTells (entry : q.entry = e.sender) (mailed : Mailed sup past q) {result} (told : q.Tells result) : e.Tells past result := by
  cases result with
  | ok _ =>
    intro sends
    obtain ⟨written, recorded⟩ := told (sends.imp (senderResponds entry) (senderActs entry))
    exact ⟨mailed.writes.trans (by rw [written]; rfl), mailed.audits.trans (by rw [recorded]; rfl)⟩
  | error error =>
    intro responds
    obtain ⟨unrecorded, reports⟩ := told (senderResponds entry responds)
    refine ⟨List.length_eq_zero_iff.mp (mailed.audits.trans (by rw [unrecorded]; rfl)), ?_⟩
    cases written : q.written with
    | false => exact .inl (List.length_eq_zero_iff.mp (mailed.writes.trans (by rw [written]; rfl)))
    | true => exact .inr (reports written)

theorem mailedAudited {t : Task (machine sup)} (entry : q.entry = t.entry.sender) (mailed : Mailed sup t.past q)
    (ends : t.rest = .done none → q.entry = none ∨ q.answered = true) : Audited t where
  message o member := by
    obtain ⟨matter, found, carries⟩ := mailed.message o member
    exact ⟨matter, senderMatter entry mailed found, carries⟩
  event o member := by
    obtain ⟨matter, found, announces⟩ := mailed.event o member
    exact ⟨matter, senderMatter entry mailed found, announces⟩
  once := by
    rw [mailed.writes, mailed.audits]
    exact ⟨Bool.toNat_le _, Bool.toNat_le _⟩
  responds responds := by
    rw [mailed.writes, mailed.audits]
    exact Bool.toNat_le_toNat (mailed.backed (senderResponds entry responds))
  acts acts := by
    rw [mailed.writes, mailed.audits]
    exact Bool.toNat_le_toNat (mailed.announced (senderActs entry acts))
  told result member := toldTells entry mailed (mailed.told result member).2
  answers ended sends := by
    rcases ends ended with silent | answered
    · rw [entry, Entry.sender, if_pos (Bool.or_eq_true_iff.mpr sends)] at silent
      cases silent
    · exact mailed.answer answered

theorem auditTrail {c : Config (machine sup)} (reached : Reach Always (initially sup) c) {t} (member : t ∈ c.tasks) :
    Audited t := by
  have placed := reachPlaced mailingsSound (by simp [initially]) reached
  obtain ⟨entry, mailed⟩ := @legalHolds _ _ (mailings sup) (fun past q => q.entry = t.entry.sender ∧ Mailed sup past q)
    (fun ⟨entry, mailed⟩ may => ⟨afterEntry.trans entry, mailedKept mailed may⟩) t ⟨rfl, mailedFirst _⟩
    (reachLegal mailingsSound rfl reached t member)
  exact mailedAudited entry mailed (placedEnds (placed t member))

end Runs

section Examples

def responseSchedule : List (Event (machine (plain [permissionFrame]))) :=
  startTurns 0 ++ turns 1 1 ++ readTurn 1 permissionFrame ++ turns 1 8 ++
  [.call (.respondPermission 0 2 "p1" .allow)] ++ turns 5 10 ++ [.outside (.pump 2 39)] ++ turns 5 7

/-- How many messages and records a task has, and if it has ended. -/
def mailView (index : Nat) (c : Config (machine (plain [permissionFrame]))) : Option (Bool × Bool × Nat × Nat) :=
  (c.tasks[index]?).map fun t =>
    ((match t.rest with
      | .done none => true
      | _ => false), t.entry.responds, (writesOf t.past).length, (auditsOf t.past).length)

theorem auditTrailResponse : ∃ (c : Config (machine (plain [permissionFrame]))) (t : Task (machine (plain [permissionFrame]))),
    t ∈ c.tasks ∧ (writesOf t.past).length = 1 ∧ (auditsOf t.past).length = 1 ∧ Audited t := by
  have view : (runFrom (initially (plain [permissionFrame])) responseSchedule).map (mailView 5) =
      some (some (true, true, 1, 1)) := by decide +kernel
  obtain ⟨c, ran, seen⟩ := Option.map_eq_some_iff.mp view
  obtain ⟨t, present, seen⟩ := Option.map_eq_some_iff.mp seen
  simp only [Prod.mk.injEq] at seen
  have member := List.mem_of_getElem? present
  exact ⟨c, t, member, seen.2.2.1, seen.2.2.2, auditTrail (reachRun .start (fun _ _ => trivial) ran) member⟩

/-- The child exits with the response half written: the call reports it as uncertain, and no event
records it. -/
def uncertainSchedule : List (Event (machine (plain [permissionFrame]))) :=
  startTurns 0 ++ turns 1 1 ++ readTurn 1 permissionFrame ++ turns 1 8 ++
  [.call (.respondPermission 0 2 "p1" .allow)] ++ turns 5 10 ++ [.outside (.childExits 2 (.ok (.exited 0)))] ++ turns 5 6

/-- A stop call comes between the event of an action and its write. -/
def stoppedSchedule : List (Event (machine (plain [permissionFrame]))) :=
  startTurns 0 ++ [.call (.sendGuiAction 0 2 "open" .null)] ++ turns 3 3 ++ turn 3 (.id "a1") ++ turns 3 4 ++
  [.call (.stop 0 2)] ++ turns 5 4 ++ turns 3 4

theorem unevenTrail :
    (¬∀ (sup : Supervisor) (c : Config (machine sup)), Reach Always (initially sup) c → ∀ t ∈ c.tasks, t.Ended →
      t.entry.responds = true → (auditsOf t.past).length = (writesOf t.past).length) ∧
    ¬∀ (sup : Supervisor) (c : Config (machine sup)), Reach Always (initially sup) c → ∀ t ∈ c.tasks, t.Ended →
      t.entry.responds = false → (auditsOf t.past).length = (writesOf t.past).length := by
  have reaches : ∀ {schedule : List (Event (machine (plain [permissionFrame])))} {index responds writes audits},
      (runFrom (initially (plain [permissionFrame])) schedule).map (mailView index) = some (some (true, responds, writes, audits)) →
      ∃ c, Reach Always (initially (plain [permissionFrame])) c ∧ ∃ t ∈ c.tasks, t.Ended ∧ t.entry.responds = responds ∧
        (writesOf t.past).length = writes ∧ (auditsOf t.past).length = audits := by
    intro schedule index responds writes audits view
    obtain ⟨c, ran, seen⟩ := Option.map_eq_some_iff.mp view
    obtain ⟨t, present, seen⟩ := Option.map_eq_some_iff.mp seen
    simp only [Prod.mk.injEq] at seen
    refine ⟨c, reachRun .start (fun _ _ => trivial) ran, t, List.mem_of_getElem? present, ?_, seen.2⟩
    obtain ⟨ended, _⟩ := seen
    split at ended
    · rename_i rest
      exact ⟨none, rest⟩
    · cases ended
  have uncertain : (runFrom (initially (plain [permissionFrame])) uncertainSchedule).map (mailView 5) =
      some (some (true, true, 1, 0)) := by decide +kernel
  have stopped : (runFrom (initially (plain [permissionFrame])) stoppedSchedule).map (mailView 3) =
      some (some (true, false, 0, 1)) := by decide +kernel
  constructor
  · intro claimed
    obtain ⟨c, reached, t, member, ended, responds, writes, audits⟩ := reaches uncertain
    have even := claimed _ c reached t member ended responds
    omega
  · intro claimed
    obtain ⟨c, reached, t, member, ended, responds, writes, audits⟩ := reaches stopped
    have even := claimed _ c reached t member ended responds
    omega

end Examples

end Maestro.Session
