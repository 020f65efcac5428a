import Maestro.HandlerDrop

/-! A request past its deadline: as long as its run is not finalized it is pending only while its
timer or a delivery of it is under way. -/
namespace Maestro.Session
open Interleaving Prog Protocol

section Owners
variable {sup : Supervisor} {run : RunId} {requestId : String} {kind : PendingKind} {deadline : Instant}

def ClaimedIn (run : RunId) (requestId : String) (kind : PendingKind) (past : Past actions) : Prop :=
  ∃ registration, (⟨.run run (.tracker (.claimActive requestId kind)), .ok registration⟩ : (o : Act) × o.Answer) ∈ past

/-- Where a duty comes from: a timer's is its entry, a delivery's its claim. -/
def Owner (entry : Entry) (past : Past actions) : Duty → Prop
  | .free | .registered .. => True
  | .asleep run requestId kind deadline => ∃ session, entry = .expiry session run requestId kind deadline
  | .claimed run requestId kind => ClaimedIn run requestId kind past
  | .late run requestId kind | .due run requestId kind =>
    (∃ session deadline, entry = .expiry session run requestId kind deadline) ∨ ClaimedIn run requestId kind past

theorem claimedLater {past more : Past actions} (claimed : ClaimedIn run requestId kind past) :
    ClaimedIn run requestId kind (past ++ more) := by
  obtain ⟨registration, member⟩ := claimed
  exact ⟨registration, List.mem_append_left _ member⟩

theorem ownerLater {entry : Entry} {past more : Past actions} {q : Duty} (owner : Owner entry past q) :
    Owner entry (past ++ more) q := by
  cases q with
  | free | registered => trivial
  | asleep => exact owner
  | claimed => exact claimedLater owner
  | late | due => exact owner.imp_right claimedLater

theorem ownerAfter {entry : Entry} {past : Past actions} {q : Duty} {o : Act} {answer : o.Answer}
    (owner : Owner entry past q) (may : q.may o) : Owner entry (past ++ [⟨o, answer⟩]) (q.after o answer) := by
  have later := @ownerLater _ _ [⟨o, answer⟩] _ owner
  by_cases same : q.after o answer = q
  · rw [same]
    exact later
  cases o with
  | sleepUntil =>
    cases q with
    | asleep run requestId kind deadline =>
      obtain ⟨session, entered⟩ := owner
      exact .inl ⟨session, deadline, entered⟩
    | _ => exact absurd rfl same
  | spawn e =>
    cases e with
    | expiry =>
      cases q with
      | registered => trivial
      | _ => exact absurd rfl same
    | _ => exact absurd rfl same
  | run r call =>
    cases call with
    | loadFinalized =>
      cases q with
      | late =>
        cases answer with
        | true => trivial
        | false => exact later
      | _ => exact absurd rfl same
    | tracker call =>
      cases call with
      | register =>
        cases answer with
        | ok => trivial
        | error => exact absurd rfl same
      | claimActive requestId kind =>
        cases answer with
        | ok registration => exact ⟨registration, List.mem_append_right _ (List.mem_singleton_self _)⟩
        | error => exact absurd rfl same
      | restoreInFlight requestId kind =>
        have claimed : q = .claimed r requestId kind := may
        subst claimed
        cases answer with
        | true => exact .inr (claimedLater owner)
        | false => trivial
      | resolveInFlight | markDeliveryUncertain | expire => trivial
      | _ => exact absurd rfl same
    | _ => exact absurd rfl same
  | _ => exact absurd rfl same

def Owned (c : Config (machine sup)) : Prop := ∀ t ∈ c.tasks, Owner t.entry t.past ((duties sup).place t)

theorem ownerEntered (e : Entry) : Owner e [] (Duty.ofEntry e) := by
  cases e with
  | expiry session run requestId kind deadline => exact ⟨session, rfl⟩
  | _ => trivial

theorem advanceKeeps {t : Task (machine sup)} {o : Act} {answer : o.Answer} {next : Program (Option Entry)} :
    ((t.advance o answer next).entry = t.entry ∧ (t.advance o answer next).past = t.past ++ [⟨o, answer⟩]) ∨
      ∃ e, t.advance o answer next = .enter e := by
  unfold Task.advance
  split
  · exact .inr ⟨_, rfl⟩
  · exact .inl ⟨rfl, rfl⟩

theorem reachOwned {c : Config (machine sup)} (reached : Reach Always (initially sup) c) : Owned c := fun t member =>
  legalHolds ownerAfter (ownerEntered t.entry) (reachLegal dutiesSound rfl reached t member)

end Owners

section Expiring
variable {sup : Supervisor} {run : RunId} {requestId : String} {kind : PendingKind} {deadline : Instant}
  {c : Config (machine sup)}

/-- A task on the way to expire the request: the timer of its deadline, or a delivery of it. -/
def Attends (run : RunId) (requestId : String) (kind : PendingKind) (deadline : Instant) (t : Task (machine sup)) : Prop :=
  Duty.Expires run requestId kind ((duties sup).place t) ∧
    ((∃ session, t.entry = .expiry session run requestId kind deadline) ∨ ClaimedIn run requestId kind t.past)

def Attended (c : Config (machine sup)) (run : RunId) (requestId : String) (kind : PendingKind) (deadline : Instant) : Prop :=
  Someone c (Duty.Waits run requestId kind deadline) ∨
    deadline ≤ c.memory.now ∧ ∃ t ∈ c.tasks, Attends run requestId kind deadline t

def Expiring (c : Config (machine sup)) : Prop :=
  ∀ run control requestId pending, c.memory.runs run = some control → control.finalized = false →
    control.pending.active.lookup requestId = some pending → Attended c run requestId pending.kind pending.deadline

section Step
variable {index : Nat} {choice : Choice} {t : Task (machine sup)} {o : Act} {answer : o.Answer} {memory : Memory}
  {next : Program (Option Entry)}

theorem attendsMoved (obeys : (duties sup).Obeys t o answer next)
    (here : Duty.Expires run requestId kind (((duties sup).place t).after o answer))
    (owner : (∃ session, t.entry = .expiry session run requestId kind deadline) ∨ ClaimedIn run requestId kind t.past) :
    Attends run requestId kind deadline (t.advance o answer next) := by
  have reached : (duties sup).place (t.advance o answer next) = Duty.after ((duties sup).place t) o answer := obeys.reached
  rw [← reached] at here
  refine ⟨here, ?_⟩
  rcases @advanceKeeps sup t o answer next with ⟨entry, past⟩ | ⟨e, same⟩
  · rw [entry, past]
    exact owner.imp_right claimedLater
  · rw [same, placeEnter] at here
    rcases here with here | here <;> cases e <;> cases here

theorem waitsAttended (owned : Owned c) (performs : Performs c index choice t o answer memory next)
    (obeys : (duties sup).Obeys t o answer next) (before : Someone c (Duty.Waits run requestId kind deadline)) :
    Attended (afterwards c index t o answer memory next) run requestId kind deadline := by
  by_cases stays : Duty.Waits run requestId kind deadline ((duties sup).place t) →
      Duty.Waits run requestId kind deadline (((duties sup).place t).after o answer)
  · exact .inl (kindStays performs obeys stays before)
  obtain ⟨here, _⟩ := Classical.not_imp.mp stays
  have may := obeys.allowed
  rcases here with here | here
  · rw [here] at may
    obtain ⟨session, rfl⟩ := mayRegistered may
    exact .inl ⟨_, List.mem_append_right _ (List.mem_singleton.mpr rfl), .inr (placeEnter _)⟩
  · rw [here] at may
    obtain rfl := mayAsleep may
    have effect := performs.effect
    simp only [apply] at effect
    split at effect
    · rename_i passed
      cases Option.some.inj effect
      have owner := owned t (List.mem_of_getElem? performs.present)
      rw [here] at owner
      refine .inr ⟨passed, _, List.mem_of_getElem? (movedTask performs.present), attendsMoved obeys (.inl ?_) (.inl owner)⟩
      rw [here]
      rfl
    · contradiction

theorem attendsKept (performs : Performs c index choice t o answer memory next)
    (obeys : (duties sup).Obeys t o answer next) (before : ∃ u ∈ c.tasks, Attends run requestId kind deadline u) :
    (∃ u ∈ (afterwards c index t o answer memory next).tasks, Attends run requestId kind deadline u) ∨
      (∃ control, memory.runs run = some control ∧ control.finalized = true) ∨
      o = .run run (.tracker (.expire requestId kind)) := by
  obtain ⟨u, member, here, owner⟩ := before
  obtain ⟨j, found⟩ := List.getElem?_of_mem member
  by_cases moved : j = index
  · subst moved
    cases Option.some.inj (found.symm.trans performs.present)
    by_cases stays : Duty.Expires run requestId kind (((duties sup).place t).after o answer)
    · exact .inl ⟨_, List.mem_of_getElem? (movedTask found), attendsMoved obeys stays owner⟩
    have may := obeys.allowed
    rcases here with here | here
    · rw [here] at may
      obtain rfl := mayLate may
      have effect : apply sup (.run run .loadFinalized) choice c.memory = some (answer, memory) := performs.effect
      obtain ⟨control, control', found, performed, rfl⟩ := applyRun effect
      cases Option.some.inj performed
      cases finalized : control.finalized with
      | true => exact .inr (.inl ⟨control, Function.update_self .., finalized⟩)
      | false =>
        refine absurd (.inr ?_) stays
        rw [here, finalized]
        rfl
    · rw [here] at may
      exact .inr (.inr (mayDue may))
  · exact .inl ⟨u, List.mem_of_getElem? (otherTask moved found), here, owner⟩

theorem attendedKept (owned : Owned c) (performs : Performs c index choice t o answer memory next)
    (obeys : (duties sup).Obeys t o answer next)
    (unfinalized : ∀ control, memory.runs run = some control → control.finalized = false)
    (early : o = .run run (.tracker (.expire requestId kind)) → c.memory.now < deadline)
    (before : Attended c run requestId kind deadline) :
    Attended (afterwards c index t o answer memory next) run requestId kind deadline := by
  rcases before with waits | ⟨passed, attends⟩
  · exact waitsAttended owned performs obeys waits
  · rcases attendsKept performs obeys attends with kept | ⟨control, found, finalized⟩ | same
    · refine .inr ⟨?_, kept⟩
      change deadline ≤ memory.now
      rw [nowKept performs.effect]
      exact passed
    · rw [unfinalized control found] at finalized
      cases finalized
    · exact absurd passed (Nat.not_le_of_lt (early same))

theorem restoredFrom {q : Duty} {call : PendingTracker.Call} {answer : call.Answer} (may : q.mayTrack run call)
    (late : Duty.afterTrack .free run call answer = .late run requestId kind) : q = .claimed run requestId kind := by
  cases call with
  | restoreInFlight id k =>
    cases answer with
    | true =>
      cases late
      exact may
    | false => cases late
  | register | claimActive => cases answer <;> cases late
  | _ => cases late

theorem trackerExpiring {call : PendingTracker.Call} {answer : call.Answer} (tended : Tended c) (owned : Owned c)
    (expiring : Expiring c) (performs : Performs c index choice t (.run run (.tracker call)) answer memory next)
    (obeys : (duties sup).Obeys t (.run run (.tracker call)) answer next) :
    Expiring (afterwards c index t (.run run (.tracker call)) answer memory next) := by
  have effect : apply sup (.run run (.tracker call)) choice c.memory = some (answer, memory) := performs.effect
  obtain ⟨control, control', found, performed, rfl⟩ := applyRun effect
  cases Option.some.inj performed
  have wf := tended.wellformed found
  have outcome := PendingTracker.performOutcome wf c.memory.now call
  intro r control₁ id pending found₁ unfinalized active
  have alike : ∀ control₂, Function.update c.memory.runs run (some { control with
      pending := (control.pending.perform c.memory.now call).2 }) r = some control₂ → control₂.finalized = false := by
    intro control₂ found₂
    cases Option.some.inj (found₁.symm.trans found₂)
    exact unfinalized
  have early : (.run run (.tracker call) : Act) = .run r (.tracker (.expire id pending.kind)) →
      c.memory.now < pending.deadline := by
    rintro ⟨⟩
    rcases updatedControl found₁ with ⟨_, rfl⟩ | ⟨different, _⟩
    · exact PendingTracker.expiredGone wf active rfl
    · exact absurd rfl different
  have kept := fun before => attendedKept owned performs obeys alike early before
  rcases updatedControl found₁ with ⟨rfl, rfl⟩ | ⟨different, old⟩
  · rcases trackerActive r outcome active with still | here | ⟨flying, here⟩
    · exact kept (expiring _ _ _ _ found unfinalized still)
    · exact .inl (someoneHere performs obeys (.inl (here _)))
    · rcases tended.timed found unfinalized flying with waits | passed
      · exact kept (.inl waits)
      · have owner := owned t (List.mem_of_getElem? performs.present)
        rw [restoredFrom obeys.allowed (here .free)] at owner
        exact .inr ⟨passed, _, List.mem_of_getElem? (movedTask performs.present),
          attendsMoved obeys (.inl (here _)) (.inr owner)⟩
  · exact kept (expiring _ _ _ _ old unfinalized active)

theorem otherExpiring (owned : Owned c) (expiring : Expiring c) (performs : Performs c index choice t o answer memory next)
    (obeys : (duties sup).Obeys t o answer next) (untracked : ∀ r call, o ≠ .run r (.tracker call)) :
    Expiring (afterwards c index t o answer memory next) := by
  intro run control id pending found unfinalized active
  have alike : ∀ control₂, memory.runs run = some control₂ → control₂.finalized = false := by
    intro control₂ found₂
    cases Option.some.inj (found.symm.trans found₂)
    exact unfinalized
  have kept : Attended c run id pending.kind pending.deadline → _ :=
    attendedKept owned performs obeys alike fun same => absurd same (untracked _ _)
  rcases controlCases performs.effect found with old | ⟨call, old, answer, same, found', performed⟩ | ⟨_, _, _, _, _, _, rfl⟩
  · exact kept (expiring _ _ _ _ old unfinalized active)
  · have pendings : control.pending = old.pending := by
      refine pendingKept performed ?_
      rintro call' rfl
      exact untracked run call' same
    have opened : old.finalized = false := by
      by_cases closes : call = .swapFinalized
      · subst closes
        cases Option.some.inj performed
        cases unfinalized
      · exact (finalizedKept performed closes).symm.trans unfinalized
    rw [pendings] at active
    exact kept (expiring _ _ _ _ found' opened active)
  · cases active

end Step

theorem attendedElsewhere {c c' : Config (machine sup)} (tasks : ∀ t ∈ c.tasks, t ∈ c'.tasks)
    (later : c.memory.now ≤ c'.memory.now) (before : Attended c run requestId kind deadline) :
    Attended c' run requestId kind deadline := by
  rcases before with ⟨t, member, waits⟩ | ⟨passed, t, member, attends⟩
  · exact .inl ⟨t, tasks t member, waits⟩
  · exact .inr ⟨le_trans passed later, t, tasks t member, attends⟩

theorem movesExpiring {e c'} (tended : Tended c) (owned : Owned c) (expiring : Expiring c)
    (placed : ∀ t ∈ c.tasks, (duties sup).Placed t) (moves : Moves c e c') : Expiring c' := by
  cases moves with
  | call allowed =>
    intro run control id pending found opened active
    exact attendedElsewhere (fun _ member => List.mem_append_left _ member) (le_refl _) (expiring _ _ _ _ found opened active)
  | @act index choice t o answer memory next performs =>
    have obeys := performsObeys dutiesSound placed performs
    by_cases tracked : ∃ r call, o = .run r (.tracker call)
    · obtain ⟨r, call, rfl⟩ := tracked
      exact trackerExpiring tended owned expiring performs obeys
    · exact otherExpiring owned expiring performs obeys fun r call same => tracked ⟨r, call, same⟩
  | outside effect =>
    intro r control id pending found opened active
    rcases outsideCases effect with ⟨elapsed, _, rfl⟩ | ⟨run, old, process, _, before, _, rfl⟩
    · exact @attendedElsewhere _ _ _ _ _ c _ (fun _ member => member) (Nat.le_add_right _ _) (expiring _ _ _ _ found opened active)
    · rcases updatedControl found with ⟨rfl, rfl⟩ | ⟨_, kept⟩
      · exact attendedElsewhere (fun _ member => member) (le_refl _) (expiring _ _ _ _ before opened active)
      · exact attendedElsewhere (fun _ member => member) (le_refl _) (expiring _ _ _ _ kept opened active)

theorem reachTorn (reached : Reach Always (initially sup) c) : TornRun sup c := by
  induction reached with
  | start => exact .start
  | step _ _ moves ih => exact .step ih moves

theorem reachExpiring (reached : Reach Always (initially sup) c) : Expiring c := by
  induction reached with
  | start => exact fun _ _ _ _ found => nomatch found
  | step before _ moves ih =>
    have torn := reachTorn before
    exact movesExpiring (tornTended torn) (reachOwned before) ih (tornDuties torn) moves

/-- The timer of the request is about to be set, or has not come to its end. -/
def Timing (c : Config (machine sup)) (run : RunId) (requestId : String) (kind : PendingKind) (deadline : Instant) : Prop :=
  ∃ t ∈ c.tasks, (∃ session, t.next = some (.spawn (.expiry session run requestId kind deadline))) ∨
    (∃ session, t.entry = .expiry session run requestId kind deadline) ∧ ¬t.Ended

/-- A delivery that has claimed the request has not come to its end. -/
def Delivering (c : Config (machine sup)) (run : RunId) (requestId : String) (kind : PendingKind) : Prop :=
  ∃ t ∈ c.tasks, ClaimedIn run requestId kind t.past ∧ ¬t.Ended

theorem underWay {t : Task (machine sup)} (placed : (duties sup).Placed t) (rests : ∀ e, t.rest ≠ .done (some e))
    (busy : (duties sup).place t ≠ .free) : ¬t.Ended := by
  rintro ⟨last, ended⟩
  unfold Placed at placed
  rw [ended] at placed
  cases last with
  | none => exact busy placed
  | some e => exact rests e ended

theorem waitsTiming {t : Task (machine sup)} (owned : Owned c) (placed : (duties sup).Placed t)
    (rests : ∀ e, t.rest ≠ .done (some e)) (member : t ∈ c.tasks)
    (waits : Duty.Waits run requestId kind deadline ((duties sup).place t)) : Timing c run requestId kind deadline := by
  refine ⟨t, member, ?_⟩
  rcases waits with here | here
  · left
    have busy := underWay placed rests (by rw [here]; exact nofun)
    unfold Placed at placed
    unfold Task.next
    split
    · rename_i last program
      exact absurd ⟨last, program⟩ busy
    · rename_i o next program
      rw [program, here] at placed
      obtain ⟨session, rfl⟩ := mayRegistered placed.1
      exact ⟨session, rfl⟩
  · have owner := owned t member
    rw [here] at owner
    exact .inr ⟨owner, underWay placed rests (by rw [here]; exact nofun)⟩

theorem attendsBusy {t : Task (machine sup)} (placed : (duties sup).Placed t) (rests : ∀ e, t.rest ≠ .done (some e))
    (member : t ∈ c.tasks) (attends : Attends run requestId kind deadline t) :
    Timing c run requestId kind deadline ∨ Delivering c run requestId kind := by
  obtain ⟨here, owner⟩ := attends
  have busy := underWay placed rests (by rcases here with here | here <;> (rw [here]; exact nofun))
  rcases owner with timer | claimed
  · exact .inl ⟨t, member, .inr ⟨timer, busy⟩⟩
  · exact .inr ⟨t, member, claimed, busy⟩

theorem claimsDelivering (owned : Owned c) (placed : ∀ t ∈ c.tasks, (duties sup).Placed t)
    (rests : ∀ t ∈ c.tasks, ∀ e, t.rest ≠ .done (some e)) (claims : Someone c (Duty.Claims run requestId kind)) :
    Delivering c run requestId kind := by
  obtain ⟨t, member, here⟩ := claims
  have place : (duties sup).place t = .claimed run requestId kind := here
  have owner := owned t member
  rw [place] at owner
  exact ⟨t, member, owner, underWay (placed t member) (rests t member) (by rw [place]; exact nofun)⟩

theorem lateRefused {tracker : PendingTracker} {pending : PendingRequest} {now : Instant}
    (active : tracker.active.lookup requestId = some pending) (passed : pending.deadline ≤ now) (kind : PendingKind) :
    ∃ error, (tracker.claimActive requestId kind now).1 = .error error := by
  unfold PendingTracker.claimActive
  simp only [active, if_pos (Or.inr passed)]
  exact ⟨_, rfl⟩

/-- The claims of a request end with it or put it back, so one of the timer and the last of them
finds it active. -/
theorem expiryCarried (reached : Reach Always (initially sup) c) {control : RunControl} {pending : PendingRequest}
    (found : c.memory.runs run = some control) (passed : pending.deadline ≤ c.memory.now)
    (fired : ¬Timing c run requestId pending.kind pending.deadline) (idle : ¬Delivering c run requestId pending.kind) :
    control.pending.inFlight.lookup requestId ≠ some pending ∧
    (control.pending.active.lookup requestId = some pending → control.finalized = true ∧
      ∀ kind, ∃ error, (control.pending.claimActive requestId kind c.memory.now).1 = .error error) := by
  have torn := reachTorn reached
  have owned := reachOwned reached
  refine ⟨fun flying => idle (claimsDelivering owned (tornDuties torn) (tornRests torn) ((tornTended torn).claimed found flying)),
    fun active => ⟨?_, lateRefused active passed⟩⟩
  cases finalized : control.finalized with
  | true => rfl
  | false =>
    rcases reachExpiring reached _ _ _ _ found finalized active with ⟨t, member, waits⟩ | ⟨_, t, member, attends⟩
    · exact absurd (waitsTiming owned (tornDuties torn t member) (tornRests torn t member) member waits) fired
    · rcases attendsBusy (tornDuties torn t member) (tornRests torn t member) member attends with timing | delivering
      · exact absurd timing fired
      · exact absurd delivering idle

end Expiring

section Examples

/-- What a task may have to do with a timer or a delivery that is under way. -/
def lingers {sup : Supervisor} (t : Task (machine sup)) : Bool :=
  (match t.next with
    | some (.spawn (.expiry ..)) => true
    | _ => false) ||
  (match t.rest with
    | .done _ => false
    | .act _ _ =>
      (match t.entry with
        | .expiry .. => true
        | _ => false) ||
      t.past.any fun
        | ⟨.run _ (.tracker (.claimActive ..)), _⟩ => true
        | _ => false)

theorem nothingLingers {sup : Supervisor} {c : Config (machine sup)} (still : c.tasks.all (!lingers ·) = true) (run : RunId)
    (requestId : String) (kind : PendingKind) (deadline : Instant) :
    ¬Timing c run requestId kind deadline ∧ ¬Delivering c run requestId kind := by
  have none : ∀ t ∈ c.tasks, lingers t = false := fun t member => by simpa using List.all_eq_true.mp still t member
  have underway : ∀ t : Task (machine sup), ¬t.Ended → ∃ o next, t.rest = .act o next := by
    intro t busy
    cases rest : t.rest with
    | done last => exact absurd ⟨last, rest⟩ busy
    | act o next => exact ⟨o, next, rfl⟩
  refine ⟨?_, ?_⟩
  · rintro ⟨t, member, ⟨session, next⟩ | ⟨⟨session, entry⟩, busy⟩⟩
    · simpa [lingers, next] using none t member
    · obtain ⟨o, next, rest⟩ := underway t busy
      simpa [lingers, rest, entry] using none t member
  · rintro ⟨t, member, ⟨registration, claimed⟩, busy⟩
    obtain ⟨o, next, rest⟩ := underway t busy
    have quiet := none t member
    simp only [lingers, rest, Bool.or_eq_false_iff, List.any_eq_false] at quiet
    exact quiet.2.2 _ claimed rfl

/-- The timer fires while the response is in flight; a stop call then keeps it from the child. -/
def putBackSchedule : List (Event (machine (plain [permissionFrame]))) :=
  startTurns 0 ++ turns 1 1 ++ readTurn 1 permissionFrame ++ turns 1 8 ++
  [.call (.respondPermission 0 2 "p1" .allow)] ++ turns 5 4 ++ [.outside (.tick 300000)] ++ turns 4 3 ++
  [.call (.stop 0 2)] ++ turns 6 4 ++ turns 5 11

def putBackView (c : Config (machine (plain [permissionFrame]))) : Bool × Instant × Option (Bool × Nat × Nat) :=
  (c.tasks.all (!lingers ·), c.memory.now, (c.memory.runs 2).map fun control =>
    (control.finalized, control.pending.active.keys.length, control.pending.inFlight.keys.length))

theorem expiryCarriedBack : ∃ (c : Config (machine (plain [permissionFrame]))) (control : RunControl),
    c.memory.runs 2 = some control ∧ control.finalized = false ∧
    control.pending.inFlight.lookup "p1" ≠ some ⟨.permission, 300000, 0⟩ ∧
    (control.pending.active.lookup "p1" = some ⟨.permission, 300000, 0⟩ → control.finalized = true ∧
      ∀ kind, ∃ error, (control.pending.claimActive "p1" kind c.memory.now).1 = .error error) := by
  have view : (runFrom (initially (plain [permissionFrame])) putBackSchedule).map putBackView =
      some (true, 300000, some (false, 0, 0)) := by decide +kernel
  obtain ⟨c, ran, seen⟩ := Option.map_eq_some_iff.mp view
  simp only [putBackView, Prod.mk.injEq, Option.map_eq_some_iff] at seen
  obtain ⟨still, now, control, found, finalized, _⟩ := seen
  obtain ⟨fired, idle⟩ := nothingLingers still 2 "p1" .permission 300000
  exact ⟨c, control, found, finalized,
    expiryCarried (reachRun .start (fun _ _ => trivial) ran) found (Nat.le_of_eq now.symm) fired idle⟩

/-- The child exits and the run is finalized at the deadline: the timer leaves its request to the
clearing of the active ones, which the reader has not come to yet. -/
def finalizingSchedule : List (Event (machine (plain [permissionFrame]))) :=
  startTurns 0 ++ turns 1 1 ++ readTurn 1 permissionFrame ++ turns 1 8 ++ [.outside (.tick 300000)] ++
  endTurns 1 3 2 ++ turns 1 1 ++ turns 4 2

def finalizingView (c : Config (machine (plain [permissionFrame]))) : Bool × Instant × Option (Option Instant) :=
  (c.tasks.all (!lingers ·), c.memory.now,
    (c.memory.runs 2).map fun control => (control.pending.active.lookup "p1").map (·.deadline))

theorem activeLate : ¬∀ (sup : Supervisor) (c : Config (machine sup)), Reach Always (initially sup) c →
    ∀ run control requestId (pending : PendingRequest), c.memory.runs run = some control → pending.deadline ≤ c.memory.now →
      ¬Timing c run requestId pending.kind pending.deadline → ¬Delivering c run requestId pending.kind →
      control.pending.active.lookup requestId ≠ some pending ∧ control.pending.inFlight.lookup requestId ≠ some pending := by
  intro claimed
  have view : (runFrom (initially (plain [permissionFrame])) finalizingSchedule).map finalizingView =
      some (true, 300000, some (some 300000)) := by decide +kernel
  obtain ⟨c, ran, seen⟩ := Option.map_eq_some_iff.mp view
  simp only [finalizingView, Prod.mk.injEq, Option.map_eq_some_iff] at seen
  obtain ⟨still, now, control, found, pending, active, deadline⟩ := seen
  obtain ⟨fired, idle⟩ := nothingLingers still 2 "p1" pending.kind pending.deadline
  exact (claimed _ c (reachRun .start (fun _ _ => trivial) ran) 2 control "p1" pending found
    (Nat.le_of_eq (deadline.trans now.symm)) fired idle).1 active

end Examples
end Maestro.Session
