import Maestro.Outline

/-! The socket of the daemon as its single-instance claim. Binding, probing, removing and
rebinding the path are separate operations of separate processes. -/
namespace Maestro.Instance
open Interleaving Prog Protocol

abbrev SocketId := Nat

/-- What is at the socket path; a socket is named by the bind that made it. -/
inductive Path where
  | absent
  | socket (id : SocketId)
  | other
  deriving DecidableEq, Repr

/-- A listener from its bind to its close; a closed one may leave its socket behind. -/
inductive Listener where
  | bound
  | listening
  | closed
  deriving DecidableEq, Repr

/-- `refusing` while the system refuses every connection (a full backlog, no descriptors). -/
structure FileSystem where
  path : Path
  listeners : SocketId → Listener
  next : SocketId
  refusing : Bool

inductive DaemonError where
  | alreadyRunning
  | addressInUse
  | permissionDenied
  | io
  deriving DecidableEq, Repr

inductive Probe where
  | connected
  | refused (seen : Path)
  deriving DecidableEq, Repr

inductive Act where
  | bindSocket
  | listen (id : SocketId)
  | connect
  | symlinkMetadata
  | removeStale
  | serve (id : SocketId)
  | removeOwned (id : SocketId)
  | dropListener (id : SocketId)

@[reducible] def Act.Answer : Act → Type
  | .bindSocket => Except DaemonError SocketId
  | .listen _ | .removeStale => Bool
  | .connect => Probe
  | .symlinkMetadata => Option Bool
  | .serve _ | .removeOwned _ | .dropListener _ => Unit

abbrev actions : Actions := ⟨Act, Act.Answer⟩

abbrev Program := Prog actions

@[simp] def perform (o : Act) : Program o.Answer := .act (A := actions) o .done

inductive Choice where
  | ok
  | fails
  deriving DecidableEq, Repr

namespace FileSystem
variable (m : FileSystem)

def setListener (id : SocketId) (state : Listener) : FileSystem :=
  { m with listeners := fun other => if other = id then state else m.listeners other }

def Alive (id : SocketId) : Prop := m.listeners id ≠ .closed
instance (id : SocketId) : Decidable (m.Alive id) := inferInstanceAs (Decidable (_ ≠ _))

def Reachable (id : SocketId) : Prop := m.path = .socket id ∧ m.listeners id = .listening
instance (id : SocketId) : Decidable (m.Reachable id) := inferInstanceAs (Decidable (_ ∧ _))

def accepts : Bool :=
  match m.path with
  | .socket id => m.listeners id == .listening && !m.refusing
  | _ => false

end FileSystem

/-- A call of a daemon that is gone does not happen any more. -/
def apply : (o : Act) → Choice → FileSystem → Option (o.Answer × FileSystem)
  | .bindSocket, .ok, m =>
    if m.path = .absent then
      some (.ok m.next,
        { m.setListener m.next .bound with path := .socket m.next, next := m.next + 1 })
    else some (.error .addressInUse, m)
  | .bindSocket, .fails, m => some (.error .io, m)
  | .listen id, choice, m =>
    if m.listeners id = .bound then
      match choice with
      | .ok => some (true, m.setListener id .listening)
      | .fails => some (false, m)
    else none
  | .connect, _, m => some (if m.accepts then .connected else .refused m.path, m)
  | .symlinkMetadata, _, m =>
    some (match m.path with
      | .absent => none
      | .socket _ => some true
      | .other => some false, m)
  | .removeStale, .ok, m =>
    if m.path = .absent then some (false, m) else some (true, { m with path := .absent })
  | .removeStale, .fails, m => some (false, m)
  | .serve id, _, m => if m.listeners id = .closed then none else some ((), m)
  | .removeOwned id, .ok, m =>
    if m.listeners id = .closed then none else some ((), { m with path := .absent })
  | .removeOwned id, .fails, m => if m.listeners id = .closed then none else some ((), m)
  | .dropListener id, _, m => some ((), m.setListener id .closed)

/-- `UnixListener::bind`: the socket is bound to the path first and listens then. -/
def bindListener : Program (Except DaemonError SocketId) := do
  match ← perform .bindSocket with
  | .error error => pure (.error error)
  | .ok id =>
    if ← perform (.listen id) then pure (.ok id)
    else
      perform (.dropListener id)
      pure (.error .io)

def bindSingleInstance : Program (Except DaemonError SocketId) := do
  match ← bindListener with
  | .ok id => pure (.ok id)
  | .error .addressInUse =>
    match ← perform .connect with
    | .connected => pure (.error .alreadyRunning)
    | .refused _ =>
      match ← perform .symlinkMetadata with
      | none => pure (.error .io)
      | some false => pure (.error .permissionDenied)
      | some true =>
        if ← perform .removeStale then bindListener else pure (.error .io)
  | .error error => pure (.error error)

/-- One daemon, from its bind over its accept loop to the end of `run`. -/
def daemon : Program (Option Unit) := do
  match ← bindSingleInstance with
  | .error _ => pure none
  | .ok id =>
    perform (.serve id)
    perform (.removeOwned id)
    perform (.dropListener id)
    pure none

inductive Outside where
  | killed (id : SocketId)
  | refuses (refusing : Bool)
  deriving DecidableEq, Repr

abbrev machine : Machine actions where
  Memory := FileSystem
  Entry := Unit
  Choice := Choice
  Outside := Outside
  body _ := daemon
  apply := apply
  spawns _ := none
  callable _ := true
  outside
    | .killed id, m => some (m.setListener id .closed)
    | .refuses refusing, m => some { m with refusing := refusing }

/-- Before the first daemon: no socket, a stale one, or another file. -/
def initially (path : Path) : Config machine :=
  ⟨⟨path, fun _ => .closed, match path with
    | .socket id => id + 1
    | _ => 0, false⟩, []⟩

inductive Seat where
  | free
  | refused (seen : Path)
  | bound (id : SocketId)
  | serving (id : SocketId)
  | leaving (id : SocketId)
  | left (id : SocketId)
  deriving DecidableEq, Repr

namespace Seat

/-- The listener of a daemon that believes it owns the instance. -/
def owns : Seat → Option SocketId
  | .bound id | .serving id | .leaving id => some id
  | _ => none

def may (q : Seat) : Act → Prop
  | .bindSocket => q.owns = none ∧ ∀ id, q ≠ .left id
  | .listen id => q = .bound id
  | .removeStale => ∃ seen, q = .refused seen
  | .serve id => q = .serving id
  | .removeOwned id => q = .leaving id
  | .dropListener id => q = .left id ∨ q = .bound id
  | .connect | .symlinkMetadata => q.owns = none

def after (q : Seat) : (o : Act) → o.Answer → Seat
  | .bindSocket, .ok id => .bound id
  | .listen id, true => .serving id
  | .connect, .refused seen => .refused seen
  | .removeStale, _ => .free
  | .serve id, _ => .leaving id
  | .removeOwned id, _ => .left id
  | .dropListener _, _ => .free
  | _, _ => q

end Seat

abbrev seats : Protocol machine where
  Place := Seat
  enter _ := .free
  may := Seat.may
  after := Seat.after
  ends _ := True

theorem bindListenerFollows : seats.Follows
    (fun bound q => (∀ id, bound = .ok id → q = .serving id) ∧
      (bound = .error .addressInUse → q = .free)) .free bindListener := by
  refine followsStep ⟨rfl, nofun⟩ fun bound => ?_
  cases bound with
  | error error => exact ⟨nofun, fun _ => rfl⟩
  | ok id =>
    refine followsStep rfl fun listened => ?_
    cases listened with
    | true =>
      refine ⟨fun id' same => ?_, nofun⟩
      rw [Except.ok.inj same]
      rfl
    | false => exact followsStep (.inr rfl) fun _ => ⟨nofun, fun _ => rfl⟩

theorem bindSingleInstanceFollows : seats.Follows
    (fun bound q => ∀ id, bound = .ok id → q = .serving id) .free bindSingleInstance := by
  refine followsSeq bindListenerFollows fun bound q here => ?_
  cases bound with
  | ok id => exact here.1
  | error error =>
    cases error with
    | addressInUse =>
      cases here.2 rfl
      refine followsStep rfl fun probe => ?_
      cases probe with
      | connected => exact nofun
      | refused seen =>
        refine followsStep rfl fun kind => ?_
        match kind with
        | none => exact nofun
        | some false => exact nofun
        | some true =>
          refine followsStep ⟨seen, rfl⟩ fun removed => ?_
          cases removed with
          | true => exact followsImp bindListenerFollows fun _ _ listening => listening.1
          | false => exact nofun
    | alreadyRunning | permissionDenied | io => exact nofun

theorem seatsSound : seats.Sound := by
  intro _
  refine followsSeq bindSingleInstanceFollows fun bound q here => ?_
  cases bound with
  | error error => trivial
  | ok id =>
    cases here id rfl
    exact followsStep rfl fun _ => followsStep rfl fun _ => followsStep (.inl rfl) fun _ => trivial

/-- A connection is refused only where the listener of the socket is closed. -/
def FileSystem.honest (m : FileSystem) : Bool :=
  m.accepts || (match m.path with
    | .socket id => m.listeners id == .closed
    | _ => true)

/-- The path holds no other socket than the one whose probe was refused. -/
def Seat.current (m : FileSystem) : Seat → Bool
  | .refused seen => m.path == seen || m.path == .absent
  | _ => true

def probes (c : Config machine) : Event machine → Bool
  | .run index _ =>
    match c.tasks[index]? with
    | none => true
    | some t =>
      match t.next with
      | some .connect => c.memory.honest
      | some .removeStale => (seats.place t).current c.memory
      | _ => true
  | _ => true

abbrev Probes (c : Config machine) (e : Event machine) : Prop := probes c e = true

structure Trusts (q : Seat) (o : Act) (m : FileSystem) : Prop where
  connect : o = .connect → m.honest = true
  remove : o = .removeStale → q.current m = true

theorem trustsHere {c : Config machine} {index choice t o answer memory next}
    (good : Probes c (.run index choice))
    (performs : Performs c index choice t o answer memory next) :
    Trusts (seats.place t) o c.memory := by
  simp only [Probes, probes, performs.present, performsNext performs] at good
  refine ⟨fun same => ?_, fun same => ?_⟩ <;> subst same <;> exact good

namespace Seat

def claims : Seat → Option SocketId
  | .bound id | .serving id | .leaving id | .left id => some id
  | _ => none

theorem ownsClaims {q : Seat} {id : SocketId} (owns : q.owns = some id) : q.claims = some id := by
  cases q <;> first | exact owns | cases owns

end Seat

structure Issued (m : FileSystem) : Prop where
  path : ∀ id, m.path = .socket id → id < m.next
  later : ∀ id, m.next ≤ id → m.listeners id = .closed

structure Stands (q : Seat) (m : FileSystem) : Prop where
  issued : ∀ id, q.claims = some id → id < m.next
  holds : ∀ id, q.owns = some id → m.Alive id → m.path = .socket id
  serving : ∀ id, q = .serving id → m.Alive id → m.listeners id = .listening
  refused : ∀ id, q = .refused (.socket id) → id < m.next ∧ m.listeners id = .closed

abbrev claiming : Outline seats where
  Inv := Issued
  Here := Stands
  Apart q q' := ∀ id, q.claims = some id → q'.claims ≠ some id

section Steps
variable {m m' : FileSystem} {q q' : Seat} {id : SocketId}

theorem standsFree (m : FileSystem) : Stands .free m := ⟨nofun, nofun, nofun, nofun⟩

theorem keptApart (inv : Issued m') (here : Stands q' m')
    (claims : ∀ id, q'.claims = some id → q.claims = some id)
    (others : ∀ other, Stands other m → (∀ id, q.claims = some id → other.claims ≠ some id) →
      Stands other m') : claiming.Kept m m' q q' none where
  inv := inv
  here := here
  entered := nofun
  others := fun other theirs apart =>
    ⟨others other theirs apart, fun id mine => apart id (claims id mine), nofun⟩

theorem keptStill (inv : Issued m) (here : Stands q' m)
    (claims : ∀ id, q'.claims = some id → q.claims = some id) : claiming.Kept m m q q' none :=
  keptApart inv here claims fun _ theirs _ => theirs

theorem keptBind (inv : Issued m) (free : m.path = .absent) :
    claiming.Kept m { m.setListener m.next .bound with path := .socket m.next, next := m.next + 1 }
      q (.bound m.next) none where
  inv := by
    refine ⟨fun id same => ?_, fun id later => ?_⟩
    · cases same
      exact Nat.lt_succ_self _
    · have other : id ≠ m.next := Nat.ne_of_gt later
      exact (if_neg other).trans (inv.later id (Nat.le_of_succ_le later))
  here := by
    refine ⟨fun id mine => ?_, fun id mine _ => ?_, nofun, nofun⟩
    · cases mine
      exact Nat.lt_succ_self _
    · cases mine
      rfl
  entered := nofun
  others := fun other theirs _ => by
    have old : ∀ {id}, id < m.next → (m.setListener m.next .bound).listeners id = m.listeners id :=
      fun before => if_neg (Nat.ne_of_lt before)
    refine ⟨⟨fun id mine => Nat.lt_succ_of_lt (theirs.issued id mine), fun id mine alive => ?_,
      fun id mine alive => ?_, fun id mine => ?_⟩, fun id mine theirs' => ?_, nofun⟩
    · have before := theirs.issued id (Seat.ownsClaims mine)
      have alive' : m.Alive id := fun closed => alive ((old before).trans closed)
      exact absurd ((theirs.holds id mine alive').symm.trans free) Path.noConfusion
    · have owns : other.owns = some id := by rw [mine]; rfl
      have before := theirs.issued id (Seat.ownsClaims owns)
      have alive' : m.Alive id := fun closed => alive ((old before).trans closed)
      exact absurd ((theirs.holds id owns alive').symm.trans free) Path.noConfusion
    · obtain ⟨before, closed⟩ := theirs.refused id mine
      exact ⟨Nat.lt_succ_of_lt before, (old before).trans closed⟩
    · cases mine
      exact absurd (theirs.issued _ theirs') (Nat.lt_irrefl _)

theorem keptListener (inv : Issued m) (here : Stands q m) (state : Listener)
    (mine : q.claims = some id) (claims : ∀ id, q'.claims = some id → q.claims = some id)
    (stands : Stands q' (m.setListener id state)) (alive : state ≠ .closed → m.Alive id) :
    claiming.Kept m (m.setListener id state) q q' none := by
  have before := here.issued id mine
  refine keptApart ⟨inv.path, fun later bound => ?_⟩ stands claims fun other theirs apart => ?_
  · have different : later ≠ id := Nat.ne_of_gt (Nat.lt_of_lt_of_le before bound)
    exact (if_neg different).trans (inv.later later bound)
  · have same : ∀ {id'}, other.claims = some id' →
        (m.setListener id state).listeners id' = m.listeners id' := by
      intro id' theirs'
      refine if_neg fun equal => apart id mine ?_
      rw [← equal, theirs']
    refine ⟨theirs.issued, fun id' owns alive' => ?_, fun id' serves alive' => ?_, fun id' seen => ?_⟩
    · refine theirs.holds id' owns fun closed => alive' ?_
      exact (same (Seat.ownsClaims owns)).trans closed
    · have owned : other.claims = some id' := by rw [serves]; rfl
      refine (same owned).trans (theirs.serving id' serves fun closed => alive' ?_)
      exact (same owned).trans closed
    · obtain ⟨before', closed⟩ := theirs.refused id' seen
      refine ⟨before', ?_⟩
      by_cases equal : id' = id
      · subst equal
        by_cases stays : state = .closed
        · exact (if_pos rfl).trans stays
        · exact absurd closed (alive stays)
      · exact (if_neg equal).trans closed

theorem keptRemove (inv : Issued m) (stands : Stands q' { m with path := .absent })
    (claims : ∀ id, q'.claims = some id → q.claims = some id)
    (dead : ∀ id, m.path = .socket id → q.claims ≠ some id → m.listeners id = .closed) :
    claiming.Kept m { m with path := .absent } q q' none := by
  refine keptApart ⟨nofun, inv.later⟩ stands claims fun other theirs apart => ?_
  refine ⟨theirs.issued, fun id owns alive => ?_, theirs.serving, theirs.refused⟩
  have there := theirs.holds id owns alive
  have others : q.claims ≠ some id := fun mine => apart id mine (Seat.ownsClaims owns)
  exact absurd (dead id there others) alive

theorem claimingAct {o : Act} {choice : Choice} {answer : o.Answer} (inv : Issued m)
    (here : Stands q m) (may : q.may o) (trusts : Trusts q o m)
    (applied : apply o choice m = some (answer, m')) :
    claiming.Kept m m' q (q.after o answer) none := by
  cases o
  case bindSocket =>
    cases choice with
    | fails =>
      cases Option.some.inj applied
      exact keptStill inv here fun _ mine => mine
    | ok =>
      simp only [apply] at applied
      split at applied
      · rename_i free
        cases Option.some.inj applied
        exact keptBind inv free
      · cases Option.some.inj applied
        exact keptStill inv here fun _ mine => mine
  case listen id =>
    cases (show q = .bound id from may)
    simp only [apply] at applied
    split at applied
    · rename_i bound
      have alive : m.Alive id := fun closed => by rw [bound] at closed; cases closed
      cases choice with
      | fails =>
        cases Option.some.inj applied
        exact keptStill inv here fun _ mine => mine
      | ok =>
        cases Option.some.inj applied
        have there := here.holds id rfl alive
        refine keptListener inv here .listening rfl (fun _ mine => mine)
          ⟨here.issued, fun id' owns _ => ?_, fun id' serves _ => ?_, nofun⟩ fun _ => alive
        · cases owns
          exact there
        · cases serves
          exact if_pos rfl
    · cases applied
  case connect =>
    cases Option.some.inj applied
    have honest := trusts.connect rfl
    cases accepted : m.accepts with
    | true => exact keptStill inv here fun _ mine => mine
    | false =>
      refine keptStill inv ⟨nofun, nofun, nofun, fun id seen => ?_⟩ nofun
      have path : m.path = .socket id := Seat.refused.inj seen
      rw [FileSystem.honest, accepted, path, Bool.false_or, beq_iff_eq] at honest
      exact ⟨inv.path id path, honest⟩
  case symlinkMetadata =>
    cases Option.some.inj applied
    exact keptStill inv here fun _ mine => mine
  case removeStale =>
    obtain ⟨seen, rfl⟩ := may
    have current := trusts.remove rfl
    cases choice with
    | fails =>
      cases Option.some.inj applied
      exact keptStill inv (standsFree m) nofun
    | ok =>
      simp only [apply] at applied
      split at applied
      · cases Option.some.inj applied
        exact keptStill inv (standsFree m) nofun
      · rename_i present
        cases Option.some.inj applied
        refine keptRemove inv (standsFree _) nofun fun id path _ => ?_
        simp only [Seat.current, Bool.or_eq_true, beq_iff_eq, present, or_false] at current
        exact (here.refused id (by rw [← current, path])).2
  case serve id =>
    cases (show q = .serving id from may)
    simp only [apply] at applied
    split at applied
    · cases applied
    · cases Option.some.inj applied
      exact keptStill inv ⟨here.issued, here.holds, nofun, nofun⟩ fun _ mine => mine
  case removeOwned id =>
    cases (show q = .leaving id from may)
    have left : Stands (.left id) m := ⟨here.issued, nofun, nofun, nofun⟩
    cases choice <;> simp only [apply] at applied <;> split at applied
    · cases applied
    · rename_i alive
      cases Option.some.inj applied
      refine keptRemove inv ⟨here.issued, nofun, nofun, nofun⟩ (fun _ mine => mine) fun id' path others => ?_
      have there := here.holds id rfl alive
      exact absurd (congrArg some (Path.socket.inj (there.symm.trans path))) others
    · cases applied
    · cases Option.some.inj applied
      exact keptStill inv left fun _ mine => mine
  case dropListener id =>
    cases Option.some.inj applied
    have mine : q.claims = some id := by
      cases may with
      | inl left => rw [left]; rfl
      | inr bound => rw [bound]; rfl
    exact keptListener inv here .closed mine nofun (standsFree _) fun open' => absurd rfl open'

theorem killedStands (id : SocketId) (stands : Stands q m) : Stands q (m.setListener id .closed) := by
  have fewer : ∀ {id'}, (m.setListener id .closed).Alive id' →
      m.Alive id' ∧ (m.setListener id .closed).listeners id' = m.listeners id' := by
    intro id' alive
    by_cases equal : id' = id
    · exact absurd (if_pos equal) alive
    · have same : (m.setListener id .closed).listeners id' = m.listeners id' := if_neg equal
      exact ⟨fun closed => alive (same.trans closed), same⟩
  refine ⟨stands.issued, fun id' owns alive => stands.holds id' owns (fewer alive).1,
    fun id' serves alive => (fewer alive).2.trans (stands.serving id' serves (fewer alive).1),
    fun id' seen => ?_⟩
  obtain ⟨before, closed⟩ := stands.refused id' seen
  refine ⟨before, ?_⟩
  by_cases equal : id' = id
  · exact if_pos equal
  · exact (if_neg equal).trans closed

theorem claimingValid : claiming.Valid Trusts where
  symm := fun apart id theirs mine => apart id mine theirs
  call := fun _ _ => ⟨standsFree _, nofun⟩
  act := fun inv here may trusts applied => claimingAct inv here may trusts applied
  outside := fun {x m m'} inv happened => by
    cases x with
    | killed id =>
      cases Option.some.inj happened
      refine ⟨⟨inv.path, fun later bound => ?_⟩, fun q stands => killedStands id stands⟩
      by_cases equal : later = id
      · exact if_pos equal
      · exact (if_neg equal).trans (inv.later later bound)
    | refuses refusing =>
      cases Option.some.inj happened
      exact ⟨⟨inv.path, inv.later⟩, fun q stands =>
        ⟨stands.issued, stands.holds, stands.serving, stands.refused⟩⟩

end Steps

theorem initiallyClaiming (path : Path) : claiming.Holds (initially path) := by
  refine Outline.holdsEmpty ⟨fun id same => ?_, fun _ _ => rfl⟩
  have held : path = .socket id := same
  subst held
  exact Nat.lt_succ_self id

theorem reachClaiming {path : Path} {c : Config machine} (h : Reach Probes (initially path) c) :
    claiming.Holds c :=
  Outline.reachHolds seatsSound claimingValid (initiallyClaiming path)
    (fun _ _ good performs => trustsHere good performs) h

def Owns (c : Config machine) (index : Nat) (id : SocketId) : Prop :=
  ∃ t, c.tasks[index]? = some t ∧ (seats.place t).owns = some id

def Serves (c : Config machine) (index : Nat) (id : SocketId) : Prop :=
  ∃ t, c.tasks[index]? = some t ∧ seats.place t = .serving id ∧ c.memory.Alive id

structure Single (c : Config machine) : Prop where
  one : ∀ i j id id', Owns c i id → Owns c j id' → c.memory.Reachable id → c.memory.Reachable id' →
    i = j
  served : ∀ i id, Serves c i id → c.memory.Reachable id
  kept : ∀ index choice c', Probes c (.run index choice) → Moves c (.run index choice) c' →
    ∀ j id, j ≠ index → Owns c j id → c'.memory.Alive id → c'.memory.path = .socket id

theorem ownsStays {c c' : Config machine} {index choice} (moves : Moves c (.run index choice) c')
    {j : Nat} {id : SocketId} (other : j ≠ index) (owns : Owns c j id) : Owns c' j id := by
  obtain ⟨t, found, place⟩ := owns
  cases moves with
  | act performs => exact ⟨t, otherTask other found, place⟩

theorem claimingSingle {c : Config machine} (holds : claiming.Holds c) : Single c where
  one := fun i j id id' ⟨t, foundI, owns⟩ ⟨u, foundJ, owns'⟩ reached reached' => by
    by_contra different
    have same : id = id' := Path.socket.inj (reached.1.symm.trans reached'.1)
    subst same
    exact holds.apart different foundI foundJ id (Seat.ownsClaims owns) (Seat.ownsClaims owns')
  served := fun i id ⟨t, found, serving, alive⟩ => by
    have stands : Stands (seats.place t) c.memory := holds.here found
    exact ⟨stands.holds id (by rw [serving]; rfl) alive, stands.serving id serving alive⟩
  kept := fun index choice c' good moves j id other owns alive => by
    have holds' : claiming.Holds c' := Outline.holdsMoves seatsSound claimingValid holds moves
      fun same performs => trustsHere (same ▸ good) performs
    obtain ⟨t, found, place⟩ := ownsStays moves other owns
    exact (holds'.here found : Stands _ _).holds id place alive

theorem singleInstance {path : Path} {c : Config machine}
    (reached : Reach Probes (initially path) c) : Single c :=
  claimingSingle (reachClaiming reached)

def turnsOf (index count : Nat) : List (Event machine) := List.replicate count (.run index .ok)

/-- Two daemons find the same stale socket; the second removes the one the first has bound. -/
def staleSchedule : List (Event machine) :=
  [.call (), .call ()] ++ turnsOf 0 2 ++ turnsOf 1 3 ++ turnsOf 0 4 ++ turnsOf 1 3

def staleView (c : Config machine) : Option (Seat × Path × Listener) :=
  c.tasks[0]?.map fun t => (seats.place t, c.memory.path, c.memory.listeners 1)

theorem staleRun : (runFrom (initially (.socket 0)) staleSchedule).map staleView =
    some (some (.serving 1, .socket 2, .listening)) := by
  decide

theorem instanceStolen : ¬ ∀ (path : Path) (c : Config machine),
    Reach Always (initially path) c → Single c := by
  intro single
  obtain ⟨c, ran, seen⟩ := Option.map_eq_some_iff.mp staleRun
  obtain ⟨t, found, view⟩ := Option.map_eq_some_iff.mp seen
  have place : seats.place t = .serving 1 := congrArg Prod.fst view
  have path : c.memory.path = .socket 2 := congrArg (fun v => v.2.1) view
  have listening : c.memory.listeners 1 = .listening := congrArg (fun v => v.2.2) view
  have alive : c.memory.Alive 1 := fun closed => by
    rw [listening] at closed
    cases closed
  have reachable := (single _ c (reachRun .start (fun _ _ => trivial) ran)).served 0 1
    ⟨t, found, place, alive⟩
  cases path.symm.trans reachable.1

/-- The first daemon replaces the stale socket before the second one looks. -/
def orderedSchedule : List (Event machine) :=
  [.call (), .call ()] ++ turnsOf 0 6 ++ turnsOf 1 2

theorem orderedRun : (goodRun Probes (initially (.socket 0)) orderedSchedule).map staleView =
    some (some (.serving 1, .socket 1, .listening)) := by
  decide

theorem singleInstanceStale : ∃ c : Config machine, Serves c 0 1 ∧ Single c := by
  obtain ⟨c, ran, seen⟩ := Option.map_eq_some_iff.mp orderedRun
  obtain ⟨t, found, view⟩ := Option.map_eq_some_iff.mp seen
  have place : seats.place t = .serving 1 := congrArg Prod.fst view
  have listening : c.memory.listeners 1 = .listening := congrArg (fun v => v.2.2) view
  have alive : c.memory.Alive 1 := fun closed => by
    rw [listening] at closed
    cases closed
  exact ⟨c, ⟨t, found, place, alive⟩, singleInstance (reachGoodRun .start ran)⟩

end Maestro.Instance
