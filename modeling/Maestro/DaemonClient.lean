import Mathlib.Data.List.Dedup
import Mathlib.Data.List.Perm.Subperm
import Mathlib.Data.List.Range
import Maestro.Domain
import Maestro.Stepping

/-! The connection the desktop host keeps to the daemon: its requests take it from a cell behind a
lock, open it where there is none, and clear the cell when it has failed them. -/
namespace Maestro.DaemonClient
open Stepping

inductive IpcError where
  | io
  | codec (text : String)
  | truncatedPrefix (actual : Nat)
  | fatal (error : MaestroError)
  | unexpectedFrame
  | disconnected

def shouldLaunchAfter : IpcError → Bool
  | .io | .disconnected => true
  | .codec _ | .truncatedPrefix _ | .fatal _ | .unexpectedFrame => false

def daemonUnavailable : MaestroError :=
  { MaestroError.new .internal "The Maestro service is unavailable. Start maestrod and try again." with
    userAction := some "Start the Maestro service and retry the operation." }

def commandError : IpcError → MaestroError
  | .fatal error => error
  | _ => daemonUnavailable

/-- Connections are numbered as they are opened. From `connecting` on to the connection, or to the
error, a request holds the lock; `launched` is behind the spawn of a daemon. -/
inductive Place (Response : Type) where
  | waiting
  | connecting
  | launched
  | calling (connection : Nat)
  | invalidating (connection : Nat)
  | returned (result : Except MaestroError Response)
  | dropped

variable {Response : Type}

def Place.holds : Place Response → Bool
  | .connecting | .launched => true
  | .waiting | .calling _ | .invalidating _ | .returned _ | .dropped => false

/-- The connection of the call that a request makes, or whose failure it deals with. -/
def Place.uses : Place Response → Option Nat
  | .calling connection | .invalidating connection => some connection
  | .waiting | .connecting | .launched | .returned _ | .dropped => none

/-- `launches` are the requests that spawned a daemon, `calls` the calls made so far, each with its
request and connection, and `failures` those of them that failed below the protocol. -/
structure Host (Response : Type) where
  requests : List (Place Response)
  daemon : Option Nat
  opened : Nat
  launches : List Nat
  calls : List (Nat × Nat)
  failures : List (Nat × Nat)

/-- `connect` is one attempt; `spawned` tells how a spawn behind the first attempt goes, and `late`
whether the deadline of the later ones has passed. -/
inductive Event (Response : Type) where
  | request
  | acquire (index : Nat)
  | connect (index : Nat) (result : Except IpcError Unit) (spawned late : Bool)
  | answer (index : Nat) (result : Except IpcError Response)
  | invalidate (index : Nat)
  | drop (index : Nat)

namespace Host

def started : Host Response := ⟨[], none, 0, [], [], []⟩

def free (h : Host Response) : Bool := h.requests.all fun place => !place.holds

def move (h : Host Response) (index : Nat) (place : Place Response) : Host Response :=
  { h with requests := h.requests.set index place }

def call (h : Host Response) (index connection : Nat) : Host Response :=
  { h.move index (.calling connection) with calls := h.calls ++ [(index, connection)] }

/-- The lock is released behind the connection, before the call. -/
def acquire (h : Host Response) (index : Nat) : Host Response :=
  match h.daemon with
  | some connection => h.call index connection
  | none => h.move index .connecting

def adopt (h : Host Response) (index : Nat) : Host Response :=
  { h with daemon := some h.opened, opened := h.opened + 1 }.call index h.opened

def refuse (h : Host Response) (index : Nat) (error : IpcError) : Host Response :=
  h.move index (.returned (.error (commandError error)))

def launch (h : Host Response) (index : Nat) (spawned : Bool) : Host Response :=
  if spawned then { h.move index .launched with launches := h.launches ++ [index] } else h.refuse index .io

/-- `DaemonLauncher::connect`, attempt by attempt. -/
def connect (h : Host Response) (index : Nat) (behind : Bool) (result : Except IpcError Unit) (spawned late : Bool) :
    Host Response :=
  match result with
  | .ok () => h.adopt index
  | .error error =>
    if !shouldLaunchAfter error then h.refuse index error
    else if !behind then h.launch index spawned
    else if late then h.refuse index .io
    else h

def answer (h : Host Response) (index connection : Nat) (result : Except IpcError Response) : Host Response :=
  match result with
  | .ok response => h.move index (.returned (.ok response))
  | .error (.fatal error) => h.move index (.returned (.error error))
  | .error _ => { h.move index (.invalidating connection) with failures := h.failures ++ [(index, connection)] }

/-- `invalidate_daemon_client`: the cell keeps a connection that is not the failed one. -/
def invalidate (h : Host Response) (index connection : Nat) : Host Response :=
  { h.move index (.returned (.error daemonUnavailable)) with
    daemon := if h.daemon = some connection then none else h.daemon }

end Host

def step (h : Host Response) : Event Response → Option (Host Response)
  | .request => some { h with requests := h.requests ++ [.waiting] }
  | .acquire index =>
    match h.requests[index]? with
    | some .waiting => if h.free then some (h.acquire index) else none
    | _ => none
  | .connect index result spawned late =>
    match h.requests[index]? with
    | some .connecting => some (h.connect index false result spawned late)
    | some .launched => some (h.connect index true result spawned late)
    | _ => none
  | .answer index result =>
    match h.requests[index]? with
    | some (.calling connection) => some (h.answer index connection result)
    | _ => none
  | .invalidate index =>
    match h.requests[index]? with
    | some (.invalidating connection) => if h.free then some (h.invalidate index connection) else none
    | _ => none
  | .drop index =>
    match h.requests[index]? with
    | none | some (.returned _) | some .dropped => none
    | some _ => some (h.move index .dropped)

abbrev Reached (h : Host Response) : Prop := Reach step Any .started h

def Place.ended : Place Response → Prop
  | .returned _ | .dropped => True
  | .waiting | .connecting | .launched | .calling _ | .invalidating _ => False

inductive Moves (h : Host Response) : Host Response → Prop where
  | request : Moves h { h with requests := h.requests ++ [.waiting] }
  | take {index connection} (there : h.requests[index]? = some .waiting) (cached : h.daemon = some connection) :
      Moves h (h.call index connection)
  | begin {index} (there : h.requests[index]? = some .waiting) (free : h.free) (empty : h.daemon = none) :
      Moves h (h.move index .connecting)
  | launch {index} (there : h.requests[index]? = some .connecting) :
      Moves h { h.move index .launched with launches := h.launches ++ [index] }
  | adopt {index place} (there : h.requests[index]? = some place) (holds : place.holds) : Moves h (h.adopt index)
  | retry : Moves h h
  | fail {index connection} (there : h.requests[index]? = some (.calling connection)) :
      Moves h { h.move index (.invalidating connection) with failures := h.failures ++ [(index, connection)] }
  | clear {index connection} (there : h.requests[index]? = some (.invalidating connection)) (free : h.free) :
      Moves h (h.invalidate index connection)
  | finish {index place result} (there : h.requests[index]? = some place)
      (busy : place.holds ∨ ∃ connection, place = .calling connection) : Moves h (h.move index (.returned result))
  | drop {index place} (there : h.requests[index]? = some place) (unended : ¬ place.ended) :
      Moves h (h.move index .dropped)

section Inversion
variable {h h' : Host Response}

theorem connectMoves {index : Nat} {place : Place Response} (there : h.requests[index]? = some place)
    (holds : place.holds) (behind : Bool) (first : behind = false → place = .connecting)
    (result : Except IpcError Unit) (spawned late : Bool) : Moves h (h.connect index behind result spawned late) := by
  unfold Host.connect
  cases result with
  | ok connected => exact .adopt there holds
  | error error =>
    dsimp only
    split
    · exact .finish there (.inl holds)
    · split
      · rename_i ahead
        have place' := first (by simpa using ahead)
        unfold Host.launch
        split
        · exact .launch (place' ▸ there)
        · exact .finish there (.inl holds)
      · split
        · exact .finish there (.inl holds)
        · exact .retry

theorem moves {event : Event Response} (steps : step h event = some h') : Moves h h' := by
  cases event with
  | request =>
    cases steps
    exact .request
  | acquire index =>
    simp only [step] at steps
    split at steps
    · rename_i there
      split at steps
      · rename_i free
        cases steps
        unfold Host.acquire
        cases cached : h.daemon with
        | some connection => exact .take there cached
        | none => exact .begin there free cached
      · cases steps
    · cases steps
  | connect index result spawned late =>
    simp only [step] at steps
    split at steps
    · rename_i there
      cases steps
      exact connectMoves there rfl false (fun _ => rfl) result spawned late
    · rename_i there
      cases steps
      exact connectMoves there rfl true (fun other => by cases other) result spawned late
    · cases steps
  | answer index result =>
    simp only [step] at steps
    split at steps
    · rename_i connection there
      cases steps
      unfold Host.answer
      split
      · exact .finish there (.inr ⟨_, rfl⟩)
      · exact .finish there (.inr ⟨_, rfl⟩)
      · exact .fail there
    · cases steps
  | invalidate index =>
    simp only [step] at steps
    split at steps
    · rename_i connection there
      split at steps
      · rename_i free
        cases steps
        exact .clear there free
      · cases steps
    · cases steps
  | drop index =>
    simp only [step] at steps
    split at steps
    · cases steps
    · cases steps
    · cases steps
    · rename_i place other gone there
      cases steps
      refine .drop there fun ended => ?_
      cases place with
      | returned result => exact other result rfl
      | dropped => exact gone rfl
      | waiting | connecting | launched | calling _ | invalidating _ => exact ended

end Inversion

section Places
variable {h h' : Host Response} {requests : List (Place Response)} {index : Nat} {place new : Place Response}

theorem setAt (there : requests[index]? = some place) (j : Nat) :
    (requests.set index new)[j]? = if index = j then some new else requests[j]? := by
  rw [List.getElem?_set, if_pos (List.getElem?_eq_some_iff.mp there).1]

theorem addedAt {j : Nat} {p : Place Response} (found : (requests ++ [new])[j]? = some p) :
    requests[j]? = some p ∨ p = new := by
  rcases List.getElem?_eq_some_iff.mp found with ⟨bound, rfl⟩
  rw [List.getElem_append]
  split
  · exact .inl (List.getElem?_eq_getElem _)
  · exact .inr (List.getElem_singleton _)

theorem addedOld {j : Nat} {p : Place Response} (found : requests[j]? = some p) : (requests ++ [new])[j]? = some p := by
  rw [List.getElem?_append_left (List.getElem?_eq_some_iff.mp found).1, found]

def Fewer (requests requests' : List (Place Response)) : Prop :=
  ∀ (j : Nat) (p : Place Response), requests'[j]? = some p → p.holds = true →
    ∃ q : Place Response, requests[j]? = some q ∧ q.holds = true

theorem fewerSet (there : requests[index]? = some place) (quiet : new.holds = true → place.holds = true) :
    Fewer requests (requests.set index new) := by
  intro j p found holds
  rw [setAt there] at found
  split at found
  · rename_i same
    cases found
    exact ⟨place, same ▸ there, quiet holds⟩
  · exact ⟨p, found, holds⟩

structure Locked (h : Host Response) : Prop where
  alone : ∀ {i j : Nat} {p q : Place Response}, h.requests[i]? = some p → p.holds = true →
    h.requests[j]? = some q → q.holds = true → i = j
  empty : ∀ {i : Nat} {p : Place Response}, h.requests[i]? = some p → p.holds = true → h.daemon = none
  newest : ∀ {connection}, h.daemon = some connection → connection + 1 = h.opened

theorem Locked.fewer (locked : Locked h) (fewer : Fewer h.requests h'.requests)
    (cell : h'.daemon = h.daemon ∨ h'.daemon = none) (opened : h'.opened = h.opened) : Locked h' where
  alone found holds found' holds' := by
    obtain ⟨p, before, held⟩ := fewer _ _ found holds
    obtain ⟨q, before', held'⟩ := fewer _ _ found' holds'
    exact locked.alone before held before' held'
  empty found holds := by
    obtain ⟨p, before, held⟩ := fewer _ _ found holds
    rcases cell with same | cleared
    · exact same.trans (locked.empty before held)
    · exact cleared
  newest cached := by
    rcases cell with same | cleared
    · exact opened ▸ locked.newest (same ▸ cached)
    · rw [cleared] at cached
      cases cached

theorem freeNone (free : h.free = true) {j : Nat} {p : Place Response} (found : h.requests[j]? = some p) :
    p.holds = false := by
  have all := List.all_eq_true.mp free p (List.mem_of_getElem? found)
  simpa using all

theorem lockedBegin (locked : Locked h) (there : h.requests[index]? = some .waiting) (free : h.free = true)
    (empty : h.daemon = none) : Locked (h.move index .connecting) := by
  have only : ∀ {j : Nat} {p : Place Response}, (h.move index .connecting).requests[j]? = some p →
      p.holds = true → index = j := by
    intro j p found holds
    rw [Host.move, setAt there] at found
    split at found
    · assumption
    · rw [freeNone free found] at holds
      cases holds
  exact ⟨fun found holds found' holds' => (only found holds).symm.trans (only found' holds'), fun _ _ => empty,
    locked.newest⟩

theorem lockedAdopt (locked : Locked h) (there : h.requests[index]? = some place) (holds : place.holds = true) :
    Locked (h.adopt index) := by
  have nobody : ∀ {j : Nat} {p : Place Response}, (h.adopt index).requests[j]? = some p → p.holds ≠ true := by
    intro j p found held
    simp only [Host.adopt, Host.call, Host.move] at found
    rw [setAt there] at found
    split at found
    · cases found
      cases held
    · rename_i other
      exact other (locked.alone there holds found held)
  refine ⟨fun found held => absurd held (nobody found), fun found held => absurd held (nobody found), fun cached => ?_⟩
  cases cached
  rfl

theorem lockedStep (locked : Locked h) (moves : Moves h h') : Locked h' := by
  cases moves with
  | request =>
    refine locked.fewer (fun j p found holds => ?_) (.inl rfl) rfl
    rcases addedAt found with old | rfl
    · exact ⟨p, old, holds⟩
    · cases holds
  | take there cached => exact locked.fewer (fewerSet there nofun) (.inl rfl) rfl
  | begin there free empty => exact lockedBegin locked there free empty
  | launch there => exact locked.fewer (fewerSet there fun _ => rfl) (.inl rfl) rfl
  | adopt there holds => exact lockedAdopt locked there holds
  | retry => exact locked
  | fail there => exact locked.fewer (fewerSet there nofun) (.inl rfl) rfl
  | clear there free =>
    refine locked.fewer (fewerSet there nofun) ?_ rfl
    simp only [Host.invalidate]
    split
    · exact .inr rfl
    · exact .inl rfl
  | finish there busy => exact locked.fewer (fewerSet there nofun) (.inl rfl) rfl
  | drop there unended => exact locked.fewer (fewerSet there nofun) (.inl rfl) rfl

/-- A request that has made its call, or has ended. -/
def Place.past : Place Response → Bool
  | .calling _ | .invalidating _ | .returned _ | .dropped => true
  | .waiting | .connecting | .launched => false

def Past (requests : List (Place Response)) (index : Nat) : Prop :=
  ∃ p : Place Response, requests[index]? = some p ∧ p.past = true

theorem pastSet {j : Nat} (past : Past requests j) (there : requests[index]? = some place)
    (stays : place.past = true → new.past = true) : Past (requests.set index new) j := by
  obtain ⟨p, found, gone⟩ := past
  by_cases same : index = j
  · subst same
    cases there.symm.trans found
    exact ⟨new, by rw [setAt there, if_pos rfl], stays gone⟩
  · exact ⟨p, by rw [setAt there, if_neg same, found], gone⟩

theorem pastStep {j : Nat} (past : Past h.requests j) (moves : Moves h h') : Past h'.requests j := by
  cases moves with
  | request =>
    obtain ⟨p, found, gone⟩ := past
    exact ⟨p, addedOld found, gone⟩
  | take there cached => exact pastSet past there fun _ => rfl
  | begin there free empty => exact pastSet past there nofun
  | launch there => exact pastSet past there nofun
  | adopt there holds => exact pastSet past there fun _ => rfl
  | retry => exact past
  | fail there => exact pastSet past there fun _ => rfl
  | clear there free => exact pastSet past there fun _ => rfl
  | finish there busy => exact pastSet past there fun _ => rfl
  | drop there unended => exact pastSet past there fun _ => rfl

structure Called (h : Host Response) : Prop where
  made : ∀ {i connection}, (i, connection) ∈ h.calls → connection < h.opened ∧ Past h.requests i
  once : (h.calls.map (·.1)).Nodup
  uses : ∀ {i connection} {p : Place Response}, h.requests[i]? = some p → p.uses = some connection →
    (i, connection) ∈ h.calls

theorem Called.silent (called : Called h) (moves : Moves h h') (calls : h'.calls = h.calls)
    (opened : h'.opened = h.opened)
    (uses : ∀ {i connection} {p : Place Response}, h'.requests[i]? = some p → p.uses = some connection →
      (i, connection) ∈ h.calls) : Called h' where
  made member := by
    obtain ⟨known, past⟩ := called.made (calls ▸ member)
    exact ⟨opened ▸ known, pastStep past moves⟩
  once := calls ▸ called.once
  uses found use := calls ▸ uses found use

theorem usesSet (called : Called h) (there : h.requests[index]? = some place)
    (same : new.uses = none ∨ new.uses = place.uses) {i connection : Nat} {p : Place Response}
    (found : (h.requests.set index new)[i]? = some p) (use : p.uses = some connection) :
    (i, connection) ∈ h.calls := by
  rw [setAt there] at found
  split at found
  · rename_i here
    cases found
    rcases same with none' | same
    · rw [none'] at use
      cases use
    · exact called.uses (here ▸ there) (same ▸ use)
  · exact called.uses found use

theorem Called.call (called : Called h) {connection : Nat} (there : h.requests[index]? = some place)
    (early : place.past = false) (moves : Moves h h') (calls : h'.calls = h.calls ++ [(index, connection)])
    (requests : h'.requests = h.requests.set index (.calling connection))
    (opened : connection < h'.opened ∧ h.opened ≤ h'.opened) : Called h' where
  made {i connection'} member := by
    rcases List.mem_append.mp (calls ▸ member) with old | fresh
    · obtain ⟨known, past⟩ := called.made old
      exact ⟨Nat.lt_of_lt_of_le known opened.2, pastStep past moves⟩
    · obtain ⟨rfl, rfl⟩ := Prod.mk.injEq .. ▸ List.mem_singleton.mp fresh
      exact ⟨opened.1, .calling connection', by rw [requests, setAt there, if_pos rfl], rfl⟩
  once := by
    rw [calls, List.map_append]
    refine List.Nodup.append called.once (List.nodup_singleton _) fun i member again => ?_
    obtain ⟨⟨i', connection'⟩, old, rfl⟩ := List.mem_map.mp member
    cases List.mem_singleton.mp again
    obtain ⟨p, found, past⟩ := (called.made old).2
    cases there.symm.trans found
    rw [early] at past
    cases past
  uses {i connection' p} found use := by
    rw [requests, setAt there] at found
    rw [calls]
    split at found
    · rename_i here
      cases found
      cases use
      exact List.mem_append_right _ (here ▸ List.mem_singleton_self _)
    · exact List.mem_append_left _ (called.uses found use)

theorem earlyHolds (holds : place.holds = true) : place.past = false := by
  cases place with
  | connecting | launched => rfl
  | waiting | calling _ | invalidating _ | returned _ | dropped => cases holds

theorem calledStep (locked : Locked h) (called : Called h) (moves : Moves h h') : Called h' := by
  have all := moves
  cases moves with
  | request =>
    refine called.silent all rfl rfl fun found use => ?_
    rcases addedAt found with old | rfl
    · exact called.uses old use
    · cases use
  | take there cached =>
    have newest := locked.newest cached
    exact called.call there rfl all rfl rfl ⟨newest ▸ Nat.lt_succ_self _, Nat.le_refl _⟩
  | begin there free empty => exact called.silent all rfl rfl fun found use => usesSet called there (.inl rfl) found use
  | launch there => exact called.silent all rfl rfl fun found use => usesSet called there (.inl rfl) found use
  | adopt there holds =>
    exact called.call there (earlyHolds holds) all rfl rfl ⟨Nat.lt_succ_self _, Nat.le_succ _⟩
  | retry => exact called
  | @fail index connection there =>
    have same : (Place.invalidating connection : Place Response).uses =
        (Place.calling connection : Place Response).uses := rfl
    exact called.silent all rfl rfl fun found use => usesSet called there (.inr same) found use
  | clear there free => exact called.silent all rfl rfl fun found use => usesSet called there (.inl rfl) found use
  | finish there busy => exact called.silent all rfl rfl fun found use => usesSet called there (.inl rfl) found use
  | drop there unended => exact called.silent all rfl rfl fun found use => usesSet called there (.inl rfl) found use

/-- What a request whose call failed on the connection has come to. -/
def Knows (daemon : Option Nat) (connection : Nat) : Place Response → Prop
  | .invalidating failed => failed = connection
  | .returned result => result = .error daemonUnavailable ∧ daemon ≠ some connection
  | .dropped => True
  | .waiting | .connecting | .launched | .calling _ => False

structure Failed (h : Host Response) : Prop where
  called : ∀ {failure}, failure ∈ h.failures → failure ∈ h.calls
  replaced : ∀ {connection}, connection < h.opened → h.daemon = some connection ∨ ∃ i, (i, connection) ∈ h.failures
  knows : ∀ {i connection}, (i, connection) ∈ h.failures →
    ∃ p : Place Response, h.requests[i]? = some p ∧ Knows h.daemon connection p
  deals : ∀ {i connection}, h.requests[i]? = some (.invalidating connection) → (i, connection) ∈ h.failures

theorem knowsCell {daemon daemon' : Option Nat} {connection : Nat} {p : Place Response}
    (knows : Knows daemon connection p) (stays : daemon ≠ some connection → daemon' ≠ some connection) :
    Knows daemon' connection p := by
  cases p with
  | returned result => exact ⟨knows.1, stays knows.2⟩
  | waiting | connecting | launched | calling _ | invalidating _ | dropped => exact knows

theorem knowsElse (failed : Failed h) (there : h.requests[index]? = some place)
    (other : ∀ connection, ¬ Knows h.daemon connection place) {daemon : Option Nat} {i connection : Nat}
    (member : (i, connection) ∈ h.failures) (stays : h.daemon ≠ some connection → daemon ≠ some connection) :
    ∃ p : Place Response, (h.requests.set index new)[i]? = some p ∧ Knows daemon connection p := by
  obtain ⟨p, found, knows⟩ := failed.knows member
  refine ⟨p, ?_, knowsCell knows stays⟩
  rw [setAt there, if_neg, found]
  rintro rfl
  cases there.symm.trans found
  exact other connection knows

theorem dealsElse (failed : Failed h) (there : h.requests[index]? = some place)
    (other : ∀ connection, new ≠ .invalidating connection) {i connection : Nat}
    (found : (h.requests.set index new)[i]? = some (.invalidating connection)) : (i, connection) ∈ h.failures := by
  rw [setAt there] at found
  split at found
  · cases found
    exact absurd rfl (other connection)
  · exact failed.deals found

theorem Failed.aside (failed : Failed h) (there : h.requests[index]? = some place)
    (other : ∀ connection, ¬ Knows h.daemon connection place) (other' : ∀ connection, new ≠ .invalidating connection)
    (requests : h'.requests = h.requests.set index new) (cell : h'.daemon = h.daemon) (opened : h'.opened = h.opened)
    (failures : h'.failures = h.failures) (calls : ∀ call ∈ h.calls, call ∈ h'.calls) : Failed h' where
  called member := calls _ (failed.called (failures ▸ member))
  replaced known := by
    rw [cell, failures]
    exact failed.replaced (opened ▸ known)
  knows member := by
    rw [requests]
    exact knowsElse failed there other (failures ▸ member) fun stays => cell ▸ stays
  deals found := failures ▸ dealsElse failed there other' (requests ▸ found)

theorem failedAdopt (locked : Locked h) (called : Called h) (failed : Failed h)
    (there : h.requests[index]? = some place) (holds : place.holds = true) : Failed (h.adopt index) where
  called member := List.mem_append_left _ (failed.called member)
  replaced {connection} known := by
    rcases Nat.lt_succ_iff_lt_or_eq.mp known with older | rfl
    · rcases failed.replaced older with cached | lost
      · rw [locked.empty there holds] at cached
        cases cached
      · exact .inr lost
    · exact .inl rfl
  knows {i connection} member := by
    refine knowsElse failed there (fun other knows => ?_) member fun stays same => ?_
    · cases place with
      | connecting | launched => exact knows
      | waiting | calling _ | invalidating _ | returned _ | dropped => cases holds
    · cases same
      exact Nat.lt_irrefl _ (called.made (failed.called member)).1
  deals found := dealsElse failed there (fun _ other => by cases other) found

theorem failedFail (called : Called h) (failed : Failed h) {connection : Nat}
    (there : h.requests[index]? = some (.calling connection)) :
    Failed { h.move index (.invalidating connection) with failures := h.failures ++ [(index, connection)] } where
  called member := by
    rcases List.mem_append.mp member with old | fresh
    · exact failed.called old
    · cases List.mem_singleton.mp fresh
      exact called.uses there rfl
  replaced known := (failed.replaced known).imp_right fun ⟨i, member⟩ => ⟨i, List.mem_append_left _ member⟩
  knows member := by
    rcases List.mem_append.mp member with old | fresh
    · exact knowsElse failed there (fun _ knows => knows) old fun stays => stays
    · cases List.mem_singleton.mp fresh
      exact ⟨.invalidating connection, (setAt there index).trans (if_pos rfl), rfl⟩
  deals found := by
    rw [Host.move, setAt there] at found
    split at found
    · rename_i here
      cases found
      exact List.mem_append_right _ (here ▸ List.mem_singleton_self _)
    · exact List.mem_append_left _ (failed.deals found)

theorem clearedCell (h : Host Response) (index connection : Nat) :
    (h.invalidate index connection).daemon ≠ some connection ∧
    ∀ other, (h.invalidate index connection).daemon = some other ↔ h.daemon = some other ∧ other ≠ connection := by
  simp only [Host.invalidate]
  split
  · rename_i cached
    refine ⟨nofun, fun other => ⟨nofun, fun ⟨kept, different⟩ => ?_⟩⟩
    rw [cached] at kept
    exact absurd (Option.some.inj kept).symm different
  · rename_i kept
    exact ⟨kept, fun other => ⟨fun same => ⟨same, fun equal => kept (equal ▸ same)⟩, fun both => both.1⟩⟩

theorem failedClear (failed : Failed h) {connection : Nat}
    (there : h.requests[index]? = some (.invalidating connection)) : Failed (h.invalidate index connection) where
  called member := failed.called member
  replaced {known} bound := by
    by_cases same : known = connection
    · subst same
      exact .inr ⟨index, failed.deals there⟩
    · exact (failed.replaced bound).imp_left fun cached => ((clearedCell h index connection).2 known).mpr ⟨cached, same⟩
  knows {i lost} member := by
    obtain ⟨p, found, knows⟩ := failed.knows member
    change ∃ q, (h.requests.set index _)[i]? = some q ∧ _
    rw [setAt there]
    split
    · rename_i same
      subst same
      cases there.symm.trans found
      cases knows
      exact ⟨_, rfl, rfl, (clearedCell h index connection).1⟩
    · exact ⟨p, found, knowsCell knows fun stays cached =>
        stays (((clearedCell h index connection).2 lost).mp cached).1⟩
  deals found := dealsElse failed there (fun _ other => by cases other) found

theorem failedDrop (failed : Failed h) (there : h.requests[index]? = some place) : Failed (h.move index .dropped) where
  called member := failed.called member
  replaced known := failed.replaced known
  knows {i connection} member := by
    obtain ⟨p, found, knows⟩ := failed.knows member
    by_cases same : index = i
    · exact ⟨.dropped, (setAt there i).trans (if_pos same), trivial⟩
    · exact ⟨p, (setAt there i).trans ((if_neg same).trans found), knows⟩
  deals found := dealsElse failed there (fun _ other => by cases other) found

theorem failedStep (locked : Locked h) (called : Called h) (failed : Failed h) (moves : Moves h h') : Failed h' := by
  cases moves with
  | request =>
    refine ⟨failed.called, failed.replaced, fun member => ?_, fun found => ?_⟩
    · obtain ⟨p, found, knows⟩ := failed.knows member
      exact ⟨p, addedOld found, knows⟩
    · rcases addedAt found with old | other
      · exact failed.deals old
      · cases other
  | take there cached =>
    exact failed.aside there (fun _ knows => knows) (fun _ other => by cases other) rfl rfl rfl rfl
      fun _ member => List.mem_append_left _ member
  | begin there free empty =>
    exact failed.aside there (fun _ knows => knows) (fun _ other => by cases other) rfl rfl rfl rfl
      fun _ member => member
  | launch there =>
    exact failed.aside there (fun _ knows => knows) (fun _ other => by cases other) rfl rfl rfl rfl
      fun _ member => member
  | adopt there holds => exact failedAdopt locked called failed there holds
  | retry => exact failed
  | fail there => exact failedFail called failed there
  | clear there free => exact failedClear failed there
  | @finish index place result there busy =>
    refine failed.aside there (fun connection knows => ?_) (fun _ other => by cases other) rfl rfl rfl rfl
      fun _ member => member
    rcases busy with holds | ⟨other, rfl⟩
    · have early := earlyHolds holds
      revert knows
      cases place with
      | waiting | connecting | launched | calling _ => exact fun knows => knows
      | invalidating _ | returned _ | dropped => cases early
    · exact knows
  | drop there unended => exact failedDrop failed there

structure Launched (h : Host Response) : Prop where
  once : h.launches.Nodup
  behind : ∀ {i}, i ∈ h.launches → ∃ p : Place Response, h.requests[i]? = some p ∧ p ≠ .waiting ∧ p ≠ .connecting

theorem Launched.aside (launched : Launched h) (there : h.requests[index]? = some place)
    (requests : h'.requests = h.requests.set index new) (launches : h'.launches = h.launches)
    (ahead : new ≠ .waiting ∧ (new = .connecting → place = .waiting)) : Launched h' where
  once := launches ▸ launched.once
  behind {i} member := by
    obtain ⟨p, found, launching, connecting⟩ := launched.behind (launches ▸ member)
    rw [requests, setAt there]
    split
    · rename_i same
      subst same
      cases there.symm.trans found
      exact ⟨new, rfl, ahead.1, fun again => launching (ahead.2 again)⟩
    · exact ⟨p, found, launching, connecting⟩

theorem launchedStep (launched : Launched h) (moves : Moves h h') : Launched h' := by
  cases moves with
  | request =>
    refine ⟨launched.once, fun member => ?_⟩
    obtain ⟨p, found, behind⟩ := launched.behind member
    exact ⟨p, addedOld found, behind⟩
  | take there cached => exact launched.aside there rfl rfl ⟨nofun, nofun⟩
  | begin there free empty => exact launched.aside there rfl rfl ⟨nofun, fun _ => rfl⟩
  | @launch index there =>
    refine ⟨List.Nodup.append launched.once (List.nodup_singleton _) fun i member again => ?_, fun {i} member => ?_⟩
    · cases List.mem_singleton.mp again
      obtain ⟨p, found, launching, connecting⟩ := launched.behind member
      exact connecting (Option.some.inj (found.symm.trans there))
    · change ∃ p, (h.requests.set index _)[i]? = some p ∧ _
      rw [setAt there]
      rcases List.mem_append.mp member with old | fresh
      · split
        · exact ⟨_, rfl, nofun, nofun⟩
        · exact launched.behind old
      · exact ⟨_, if_pos (List.mem_singleton.mp fresh).symm, nofun, nofun⟩
  | adopt there holds => exact launched.aside there rfl rfl ⟨nofun, nofun⟩
  | retry => exact launched
  | fail there => exact launched.aside there rfl rfl ⟨nofun, nofun⟩
  | clear there free => exact launched.aside there rfl rfl ⟨nofun, nofun⟩
  | finish there busy => exact launched.aside there rfl rfl ⟨nofun, nofun⟩
  | drop there unended => exact launched.aside there rfl rfl ⟨nofun, nofun⟩

theorem lostStep {connection : Nat} (moves : Moves h h') (bound : connection < h.opened)
    (lost : h.daemon ≠ some connection) : connection < h'.opened ∧ h'.daemon ≠ some connection ∧
      ∀ j, (j, connection) ∈ h'.calls → (j, connection) ∈ h.calls := by
  cases moves with
  | request | begin _ _ _ | launch _ | retry | fail _ | finish _ _ | drop _ _ =>
    exact ⟨bound, lost, fun _ member => member⟩
  | take there cached =>
    refine ⟨bound, lost, fun j member => (List.mem_append.mp member).resolve_right fun fresh => lost ?_⟩
    cases List.mem_singleton.mp fresh
    exact cached
  | adopt there holds =>
    refine ⟨Nat.lt_succ_of_lt bound, fun same => ?_,
      fun j member => (List.mem_append.mp member).resolve_right fun fresh => ?_⟩
    · cases same
      exact Nat.lt_irrefl _ bound
    · cases List.mem_singleton.mp fresh
      exact Nat.lt_irrefl _ bound
  | @clear index failed there free =>
    exact ⟨bound, fun cached => lost (((clearedCell h index failed).2 _).mp cached).1, fun _ member => member⟩

end Places

section Runs
variable {h h' : Host Response}

structure Sound (h : Host Response) : Prop where
  locked : Locked h
  called : Called h
  failed : Failed h
  launched : Launched h

theorem soundStep (sound : Sound h) (moves : Moves h h') : Sound h' :=
  ⟨lockedStep sound.locked moves, calledStep sound.locked sound.called moves,
    failedStep sound.locked sound.called sound.failed moves, launchedStep sound.launched moves⟩

theorem startedSound : Sound (.started : Host Response) where
  locked := ⟨nofun, nofun, nofun⟩
  called := ⟨nofun, List.nodup_nil, nofun⟩
  failed := ⟨nofun, nofun, nofun, nofun⟩
  launched := ⟨List.nodup_nil, nofun⟩

theorem reachedSound (reached : Reached h) : Sound h :=
  reachInvariant reached startedSound fun sound _ steps => soundStep sound (moves steps)

theorem lostForGood {connection : Nat} (later : Reach step Any h h') (bound : connection < h.opened)
    (lost : h.daemon ≠ some connection) : connection < h'.opened ∧ h'.daemon ≠ some connection ∧
      ∀ j, (j, connection) ∈ h'.calls → (j, connection) ∈ h.calls := by
  induction later with
  | start => exact ⟨bound, lost, fun _ member => member⟩
  | step event before _ steps ih =>
    obtain ⟨bound', lost', calls⟩ := lostStep (moves steps) ih.1 ih.2.1
    exact ⟨bound', lost', fun j member => ih.2.2 j (calls j member)⟩

theorem openedBound (sound : Sound h) : h.opened ≤ (h.failures.map (·.2)).dedup.length + 1 := by
  have lost : ∀ {connection}, connection < h.opened → h.daemon ≠ some connection →
      connection ∈ (h.failures.map (·.2)).dedup := fun bound other => by
    obtain ⟨i, member⟩ := (sound.failed.replaced bound).resolve_left other
    exact List.mem_dedup.mpr (List.mem_map.mpr ⟨_, member, rfl⟩)
  have older : ∀ connection ∈ List.range (h.opened - 1), connection ∈ (h.failures.map (·.2)).dedup := by
    intro connection member
    have bound := List.mem_range.mp member
    refine lost (by omega) fun cached => ?_
    have newest := sound.locked.newest cached
    omega
  have fewer := (List.subperm_of_subset List.nodup_range older).length_le
  rw [List.length_range] at fewer
  omega

def Host.Connects (h : Host Response) (index : Nat) : Prop :=
  ∃ place : Place Response, h.requests[index]? = some place ∧ place.holds = true

/-- At most one request connects at a time, with an empty cell, and each spawns at most one daemon
and makes at most one call. A connection is replaced only where a call failed on it, the cell never
loses a newer one for it, and behind the end of a request that it failed no call is made on it. -/
theorem connectionsReplaced (reached : Reached h) :
    (∀ i j, h.Connects i → h.Connects j → i = j ∧ h.daemon = none) ∧ h.launches.Nodup ∧
    (h.calls.map (·.1)).Nodup ∧
    (∀ connection, h.daemon = some connection → connection + 1 = h.opened) ∧
    (∀ connection < h.opened, h.daemon = some connection ∨ ∃ i, (i, connection) ∈ h.failures) ∧
    h.opened ≤ (h.failures.map (·.2)).dedup.length + 1 ∧
    ∀ i connection result, (i, connection) ∈ h.failures → h.requests[i]? = some (.returned result) →
      result = .error daemonUnavailable ∧ ∀ h', Reach step Any h h' → h'.daemon ≠ some connection ∧
        ∀ j, (j, connection) ∈ h'.calls → (j, connection) ∈ h.calls := by
  have sound := reachedSound reached
  refine ⟨?_, sound.launched.once, sound.called.once, fun _ => sound.locked.newest, fun _ => sound.failed.replaced,
    openedBound sound, fun i connection result member returned => ?_⟩
  · rintro i j ⟨p, found, holds⟩ ⟨q, found', holds'⟩
    exact ⟨sound.locked.alone found holds found' holds', sound.locked.empty found holds⟩
  · obtain ⟨p, found, knows⟩ := sound.failed.knows member
    cases returned.symm.trans found
    refine ⟨knows.1, fun h' later => ?_⟩
    exact (lostForGood later (sound.called.made (sound.failed.called member)).1 knows.2).2

end Runs

/-- The daemon is spawned, both calls fail, and the second of them ends behind a new connection. -/
def replacing : List (Event Nat) :=
  [.request, .request, .acquire 0, .connect 0 (.error .io) true false, .connect 0 (.error .io) true false,
    .connect 0 (.ok ()) true false, .acquire 1, .answer 1 (.error .disconnected), .answer 0 (.error .disconnected),
    .invalidate 1, .request, .acquire 2, .connect 2 (.ok ()) true false, .invalidate 0]

theorem replacingRun : (run step Any .started replacing).map (fun h => (h.daemon, h.opened, h.failures, h.launches)) =
    some (some 1, 2, [(1, 0), (0, 0)], [0]) := by
  decide +kernel

theorem connectionsReplacedOnce : ∃ h : Host Nat, h.daemon = some 1 ∧ h.failures = [(1, 0), (0, 0)] ∧
    h.opened ≤ (h.failures.map (·.2)).dedup.length + 1 := by
  obtain ⟨h, ran, seen⟩ := Option.map_eq_some_iff.mp replacingRun
  have reached : Reached h := reachRun .start ran
  simp only [Prod.mk.injEq] at seen
  exact ⟨h, seen.1, seen.2.2.1, (connectionsReplaced reached).2.2.2.2.2.1⟩

end Maestro.DaemonClient
