import Maestro.Interleaving
import Maestro.Stepping
import Maestro.TextSearch

/-! Searches and the requests that cancel them. The handler of a search registers its
cancellation flag, runs the search and removes the flag again; the cancel of another handler
finds the flag in the registry. -/
namespace Maestro.SearchCancel
open Interleaving (Actions Prog)
open Interleaving.Prog TextSearch Stepping

abbrev ProjectId := Nat
abbrev RequestId := Nat
abbrev CancellationFlag := Nat

inductive SearchError where
  | daemonLocked
  | permissionDenied
  | project (error : ProjectError)
  deriving DecidableEq

abbrev SearchOutcome := Except SearchError (List SearchMatch × SearchSummary)

inductive Act where
  | snapshot
  | project (id : ProjectId)
  | insert (id : RequestId)
  | isCancelled (flag : CancellationFlag)
  | remove (id : RequestId)

def acts : Actions where
  Act := Act
  Answer
    | .snapshot => Bool
    | .project _ => Bool
    | .insert _ => CancellationFlag
    | .isCancelled _ => Bool
    | .remove _ => Unit

abbrev Work (α : Type) := Prog acts α

def snapshot : Work Bool := .act Act.snapshot .done
def findProject (id : ProjectId) : Work Bool := .act (Act.project id) .done
def insert (id : RequestId) : Work CancellationFlag := .act (Act.insert id) .done
def isCancelled (flag : CancellationFlag) : Work Bool := .act (Act.isCancelled flag) .done
def remove (id : RequestId) : Work Unit := .act (Act.remove id) .done

def push (found : SearchMatch) : StateT (List SearchMatch) Work Bool := do
  modify (· ++ [found])
  return true

def check (flag : CancellationFlag) : StateT (List SearchMatch) Work Bool :=
  StateT.lift (isCancelled flag)

structure SearchRequest where
  project : ProjectId
  options : SearchOptions
  /-- What the walker of each root yields. -/
  walks : List (List WalkResult)

section Programs
variable (crate : RegexCrate)

def outcome : Except ProjectError SearchSummary × List SearchMatch → SearchOutcome
  | (.error error, _) => .error (.project error)
  | (.ok summary, found) => .ok (found, summary)

def leave (id : RequestId) (result : Except ProjectError SearchSummary × List SearchMatch) : Work SearchOutcome := do
  remove id
  return outcome result

def searching (flag : CancellationFlag) (request : SearchRequest) :
    Work (Except ProjectError SearchSummary × List SearchMatch) :=
  (TextSearch.run (check flag) push crate request.options request.walks).run []

def registered (id : RequestId) (request : SearchRequest) : Work SearchOutcome := do
  let flag ← insert id
  searching crate flag request >>= leave id

/-- `ProjectManager::search`. -/
def search (id : RequestId) (request : SearchRequest) : Work SearchOutcome := do
  if ← findProject request.project then registered crate id request
  else return .error .permissionDenied

/-- `handle_request` up to the blocking task of the search. -/
def handle (id : RequestId) (request : SearchRequest) : Work SearchOutcome := do
  if ← snapshot then return .error .daemonLocked
  else search crate id request

end Programs

/-- `searches` holds what is left of every search that was accepted. -/
structure State where
  locked : Bool
  projects : List ProjectId
  active : RequestId → Option CancellationFlag
  flags : List Bool
  searches : RequestId → Option (Work SearchOutcome)

def first : State := ⟨false, [], fun _ => none, [], fun _ => none⟩

inductive Label where
  | accept (id : RequestId) (request : SearchRequest)
  | act (id : RequestId)
  | cancel (id : RequestId)
  | register (project : ProjectId)
  | lock (locked : Bool)

def State.apply (s : State) : (o : Act) → acts.Answer o × State
  | .snapshot => (s.locked, s)
  | .project id => (decide (id ∈ s.projects), s)
  | .insert id =>
    (s.flags.length, { s with active := Function.update s.active id (some s.flags.length), flags := s.flags ++ [false] })
  | .isCancelled flag => (s.flags[flag]?.getD false, s)
  | .remove id => ((), { s with active := Function.update s.active id none })

/-- `cancel_search`. -/
def State.cancelSearch (s : State) (id : RequestId) : State :=
  match s.active id with
  | some flag => { s with flags := s.flags.set flag true }
  | none => s

def State.put (s : State) (id : RequestId) (rest : Work SearchOutcome) : State :=
  { s with searches := Function.update s.searches id (some rest) }

/-- The ids of the searches are distinct; a locked daemon refuses to cancel. -/
def step (crate : RegexCrate) (s : State) : Label → Option State
  | .accept id request =>
    match s.searches id with
    | some _ => none
    | none => some (s.put id (handle crate id request))
  | .act id =>
    match s.searches id with
    | some (.act o next) => some ((s.apply o).2.put id (next (s.apply o).1))
    | _ => none
  | .cancel id => if s.locked then none else some (s.cancelSearch id)
  | .register project => some { s with projects := project :: s.projects }
  | .lock locked => some { s with locked := locked }

/-! What a search does with its flag. -/

/-- A program that only looks at the flag, and stops where it finds it raised. -/
def Looks {α : Type} (flag : CancellationFlag) (ends : Bool → α → Prop) : Work α → Prop
  | .done value => ends false value
  | .act (.isCancelled seen) next =>
    seen = flag ∧ (∃ value, next true = .done value ∧ ends true value) ∧ Looks flag ends (next false)
  | .act _ _ => False

section Looks
variable {α β : Type} {flag : CancellationFlag} {ends : Bool → α → Prop} {wider : Bool → β → Prop}

theorem looksBind {p : Work α} {f : α → Work β} (looks : Looks flag ends p)
    (stopped : ∀ value, ends true value → ∃ last, f value = .done last ∧ wider true last)
    (goes : ∀ value, ends false value → Looks flag wider (f value)) : Looks flag wider (p >>= f) := by
  induction p with
  | done value => exact goes value looks
  | act o next ih =>
    cases o with
    | isCancelled seen =>
      obtain ⟨same, ⟨value, last, ended⟩, rest⟩ := looks
      obtain ⟨last', done, ended'⟩ := stopped value ended
      refine ⟨same, ⟨last', ?_, ended'⟩, ih false rest⟩
      change (next true >>= f) = _
      rw [last]
      exact done
    | snapshot => exact looks.elim
    | project id => exact looks.elim
    | insert id => exact looks.elim
    | remove id => exact looks.elim

/-- What the part of a search that has ended says of the flag. -/
def Halts (stopped : Bool) (value : (Bool × SearchSummary) × List SearchMatch) : Prop :=
  value.1.2.cancelled = stopped ∧ (stopped = true → value.1.1 = false)

def HaltsRoot (stopped : Bool) (value : Except ProjectError (Bool × SearchSummary) × List SearchMatch) : Prop :=
  match value.1 with
  | .ok part => part.2.cancelled = stopped ∧ (stopped = true → part.1 = false)
  | .error _ => stopped = false

def Tells (stopped : Bool) (value : Except ProjectError SearchSummary × List SearchMatch) : Prop :=
  match value.1 with
  | .ok summary => summary.cancelled = stopped
  | .error _ => stopped = false

theorem searchLineLooks (path line : Bytes) (index maximum : Nat) (found : List (Nat × Nat)) (s : SearchSummary)
    (out : List SearchMatch) (fresh : s.cancelled = false) :
    Looks flag Halts (searchLine (check flag) push path line index maximum found s out) := by
  induction found generalizing s out with
  | nil => exact ⟨fresh, fun stopped => by cases stopped⟩
  | cons first found ih =>
    rw [searchLine]
    by_cases full : s.matched = maximum
    · rw [if_pos full]
      exact ⟨fresh, fun stopped => by cases stopped⟩
    · rw [if_neg full]
      exact ⟨rfl, ⟨_, rfl, rfl, fun _ => rfl⟩, ih { s with matched := s.matched + 1 } _ fresh⟩

theorem searchLinesLooks (path : Bytes) (expression : Expression) (maximum : Nat) (lines : List Bytes) (index : Nat)
    (s : SearchSummary) (out : List SearchMatch) (fresh : s.cancelled = false) :
    Looks flag Halts (searchLines (check flag) push path expression maximum lines index s out) := by
  induction lines generalizing index s out with
  | nil => exact ⟨fresh, fun stopped => by cases stopped⟩
  | cons line lines ih =>
    rw [searchLines]
    refine ⟨rfl, ⟨_, rfl, rfl, fun _ => rfl⟩, ?_⟩
    change Looks flag Halts (searchLine (check flag) push path line index maximum (expression line) s out >>=
      fun ended => (if ended.1.1 then searchLines (check flag) push path expression maximum lines (index + 1) ended.1.2
        else pure (false, ended.1.2) : StateT (List SearchMatch) Work _) ended.2)
    refine looksBind (searchLineLooks path line index maximum (expression line) s out fresh) ?_ ?_
    · rintro ⟨⟨goesOn, s'⟩, out'⟩ ⟨cancelled, stops⟩
      cases stops rfl
      exact ⟨_, rfl, cancelled, fun _ => rfl⟩
    · rintro ⟨⟨goesOn, s'⟩, out'⟩ ⟨cancelled, _⟩
      cases goesOn with
      | true => exact ih (index + 1) s' out' cancelled
      | false => exact ⟨cancelled, fun stopped => by cases stopped⟩

theorem searchRootLooks (options : SearchOptions) (expression : Expression) (walk : List WalkResult)
    (s : SearchSummary) (out : List SearchMatch) (fresh : s.cancelled = false) :
    Looks flag HaltsRoot (searchRoot (check flag) push options expression walk s out) := by
  induction walk generalizing s out with
  | nil => exact ⟨fresh, fun stopped => by cases stopped⟩
  | cons result walk ih =>
    rw [searchRoot.eq_def]
    refine ⟨rfl, ⟨_, rfl, rfl, fun _ => rfl⟩, ?_⟩
    cases result with
    | failed => exact ih s.skip out fresh
    | entry path isFile opened =>
      cases isFile with
      | false => exact ih s out fresh
      | true =>
        simp only [Bool.not_true, Bool.false_eq_true, if_false]
        cases read : readSearchBytes options.maximumFileBytes opened with
        | error error =>
          dsimp only
          split
          · exact ih s.scan.skip out fresh
          · exact rfl
        | ok content =>
          dsimp only
          split
          · exact ih s.scan.skip out fresh
          · cases decoded : Redaction.ofBytes content with
            | none => exact ih s.scan.skip out fresh
            | some text =>
              change Looks flag HaltsRoot (searchFile (check flag) push path (Redaction.bytes text) expression
                options.maximumResults s.scan out >>= fun ended =>
                  (if ended.1.1 then searchRoot (check flag) push options expression walk ended.1.2
                    else pure (.ok (false, ended.1.2)) : StateT (List SearchMatch) Work _) ended.2)
              refine looksBind (searchLinesLooks path expression options.maximumResults
                (splitInclusive (Redaction.bytes text)) 0 s.scan out fresh) ?_ ?_
              · rintro ⟨⟨goesOn, s'⟩, out'⟩ ⟨cancelled, stops⟩
                cases stops rfl
                exact ⟨_, rfl, cancelled, fun _ => rfl⟩
              · rintro ⟨⟨goesOn, s'⟩, out'⟩ ⟨cancelled, _⟩
                cases goesOn with
                | true => exact ih s' out' cancelled
                | false => exact ⟨cancelled, fun stopped => by cases stopped⟩

theorem searchRootsLooks (options : SearchOptions) (expression : Expression) (walks : List (List WalkResult))
    (s : SearchSummary) (out : List SearchMatch) (fresh : s.cancelled = false) :
    Looks flag Tells (searchRoots (check flag) push options expression walks s out) := by
  induction walks generalizing s out with
  | nil => exact fresh
  | cons walk walks ih =>
    rw [searchRoots]
    refine looksBind (searchRootLooks options expression walk s out fresh) ?_ ?_
    · rintro ⟨ended, out'⟩ halts
      cases ended with
      | error error => cases halts
      | ok part =>
        obtain ⟨goesOn, s'⟩ := part
        cases halts.2 rfl
        exact ⟨_, rfl, halts.1⟩
    · rintro ⟨ended, out'⟩ halts
      cases ended with
      | error error => exact rfl
      | ok part =>
        obtain ⟨goesOn, s'⟩ := part
        cases goesOn with
        | true => exact ih s' out' halts.1
        | false => exact halts.1

theorem searchingLooks (crate : RegexCrate) (request : SearchRequest) :
    Looks flag Tells (searching crate flag request) := by
  rw [searching, TextSearch.run]
  cases validateOptions request.options with
  | error error => exact rfl
  | ok valid =>
    cases compileExpression crate request.options with
    | error error => exact rfl
    | ok expression => exact searchRootsLooks request.options expression request.walks {} [] rfl

end Looks

def State.raised (s : State) (flag : CancellationFlag) : Prop := s.flags[flag]? = some true

def Waits (crate : RegexCrate) (id : RequestId) (rest : Work SearchOutcome) : Prop :=
  ∃ request, rest = handle crate id request ∨ rest = search crate id request ∨ rest = registered crate id request

inductive At (crate : RegexCrate) (s : State) (id : RequestId) : Work SearchOutcome → Prop
  | waiting {rest} (absent : s.active id = none) (waits : Waits crate id rest) : At crate s id rest
  | running {flag part} (entered : s.active id = some flag) (looks : Looks flag Tells part) :
      At crate s id (part >>= leave id)
  | stopped {flag value} (entered : s.active id = some flag) : At crate s id (leave id value)
  | ended {result} (absent : s.active id = none) : At crate s id (.done result)

structure Kept (id : RequestId) (s s' : State) : Prop where
  active : s'.active id = s.active id
  searches : s'.searches id = s.searches id
  raised : ∀ {flag}, s.raised flag → s'.raised flag

structure Sound (crate : RegexCrate) (s : State) : Prop where
  absent : ∀ {id}, s.searches id = none → s.active id = none
  located : ∀ {id rest}, s.searches id = some rest → At crate s id rest
  fresh : ∀ {id flag}, s.active id = some flag → flag < s.flags.length
  apart : ∀ {id other flag}, s.active id = some flag → s.active other = some flag → id = other

inductive Steps (crate : RegexCrate) (s : State) : Label → State → Prop
  | accept {id request} (absent : s.searches id = none) : Steps crate s (.accept id request) (s.put id (handle crate id request))
  | act {id o next} (present : s.searches id = some (.act o next)) :
      Steps crate s (.act id) ((s.apply o).2.put id (next (s.apply o).1))
  | cancel {id} : Steps crate s (.cancel id) (s.cancelSearch id)
  | register {project} : Steps crate s (.register project) { s with projects := project :: s.projects }
  | lock {locked} : Steps crate s (.lock locked) { s with locked := locked }

/-- What the next step of a search does, and where it leads. -/
inductive Own (crate : RegexCrate) (s : State) (id : RequestId) : (o : acts.Act) → (acts.Answer o → Work SearchOutcome) → Prop
  | snapshot {request} (absent : s.active id = none) :
      Own crate s id Act.snapshot fun (locked : Bool) =>
        if locked then .done (.error .daemonLocked) else search crate id request
  | project {request} (absent : s.active id = none) :
      Own crate s id (Act.project request.project) fun (found : Bool) =>
        if found then registered crate id request else .done (.error .permissionDenied)
  | insert {request} (absent : s.active id = none) :
      Own crate s id (Act.insert id) fun flag => searching crate flag request >>= leave id
  | look {flag value} {next : Bool → Work _} (entered : s.active id = some flag) (last : next true = .done value)
      (tells : Tells true value) (looks : Looks flag Tells (next false)) :
      Own crate s id (Act.isCancelled flag) fun raised => next raised >>= leave id
  | remove {flag value} (entered : s.active id = some flag) : Own crate s id (Act.remove id) fun _ => .done (outcome value)

section Steps
variable {crate : RegexCrate} {s s' : State} {id other : RequestId} {rest : Work SearchOutcome}

theorem stepSteps {label : Label} (stepped : step crate s label = some s') : Steps crate s label s' := by
  cases label with
  | accept id request =>
    simp only [step] at stepped
    split at stepped
    · cases stepped
    · rename_i absent
      cases Option.some.inj stepped
      exact .accept absent
  | act id =>
    simp only [step] at stepped
    split at stepped
    · rename_i o next present
      cases Option.some.inj stepped
      exact .act present
    · cases stepped
  | cancel id =>
    simp only [step] at stepped
    split at stepped
    · cases stepped
    · cases Option.some.inj stepped
      exact .cancel
  | register project =>
    cases Option.some.inj stepped
    exact .register
  | lock locked =>
    cases Option.some.inj stepped
    exact .lock

theorem ownNext {o : acts.Act} {next : acts.Answer o → Work SearchOutcome} (here : At crate s id (.act o next)) :
    Own crate s id o next := by
  generalize same : Prog.act o next = rest at here
  cases here with
  | waiting absent waits =>
    obtain ⟨request, rfl | rfl | rfl⟩ := waits
    · change _ = Prog.act (A := acts) Act.snapshot _ at same
      cases same
      exact .snapshot absent
    · change _ = Prog.act (A := acts) (Act.project request.project) _ at same
      cases same
      exact .project absent
    · change _ = Prog.act (A := acts) (Act.insert id) _ at same
      cases same
      exact .insert absent
  | @running flag part entered looks =>
    cases part with
    | done value =>
      change _ = Prog.act (A := acts) (Act.remove id) _ at same
      cases same
      exact .remove entered
    | act o' next' =>
      cases o' with
      | isCancelled seen =>
        obtain ⟨rfl, ⟨value, last, tells⟩, goes⟩ := looks
        cases same
        exact .look entered last tells goes
      | snapshot => exact looks.elim
      | project id => exact looks.elim
      | insert id => exact looks.elim
      | remove id => exact looks.elim
  | stopped entered =>
    change _ = Prog.act (A := acts) (Act.remove id) _ at same
    cases same
    exact .remove entered
  | ended absent => cases same

@[simp] theorem putActive : (s.put id rest).active = s.active := rfl
@[simp] theorem putFlags : (s.put id rest).flags = s.flags := rfl
theorem putHere : (s.put id rest).searches id = some rest := Function.update_self ..
theorem putOther (different : other ≠ id) : (s.put id rest).searches other = s.searches other :=
  Function.update_of_ne different ..

theorem raisedInside {flag : CancellationFlag} (raised : s.raised flag) : flag < s.flags.length :=
  (List.getElem?_eq_some_iff.mp raised).1

theorem keptPut (different : other ≠ id) : Kept other s (s.put id rest) := ⟨rfl, putOther different, fun raised => raised⟩

theorem keptInsert (different : other ≠ id) : Kept other s ((s.apply (.insert id)).2.put id rest) := by
  refine ⟨Function.update_of_ne different .., putOther different, fun {flag} raised => ?_⟩
  change (s.flags ++ [false])[flag]? = some true
  rw [List.getElem?_append_left (raisedInside raised)]
  exact raised

theorem keptRemove (different : other ≠ id) : Kept other s ((s.apply (.remove id)).2.put id rest) :=
  ⟨Function.update_of_ne different .., putOther different, fun raised => raised⟩

theorem keptCancel : Kept other s (s.cancelSearch id) := by
  rw [State.cancelSearch]
  split
  · rename_i flag entered
    refine ⟨rfl, rfl, fun {seen} raised => ?_⟩
    have inside := raisedInside raised
    rw [State.raised, List.getElem?_set]
    split
    · rename_i same
      rw [if_pos (same ▸ inside)]
    · exact raised
  · exact ⟨rfl, rfl, fun raised => raised⟩

theorem cancelLength : (s.cancelSearch id).flags.length = s.flags.length := by
  rw [State.cancelSearch]
  split
  · exact List.length_set
  · rfl

theorem cancelRaises (sound : Sound crate s) {flag : CancellationFlag} (entered : s.active id = some flag) :
    (s.cancelSearch id).raised flag := by
  have inside := sound.fresh entered
  rw [State.cancelSearch, entered, State.raised, List.getElem?_set_self inside]

theorem keptAct {o : acts.Act} {next : acts.Answer o → Work SearchOutcome} (own : Own crate s id o next)
    (different : other ≠ id) : Kept other s ((s.apply o).2.put id (next (s.apply o).1)) := by
  cases own with
  | snapshot absent => exact keptPut different
  | project absent => exact keptPut different
  | insert absent => exact keptInsert different
  | look entered last tells looks => exact keptPut different
  | remove entered => exact keptRemove different

theorem atKept (kept : Kept id s s') (here : At crate s id rest) : At crate s' id rest := by
  cases here with
  | waiting absent waits => exact .waiting (kept.active.trans absent) waits
  | running entered looks => exact .running (kept.active.trans entered) looks
  | stopped entered => exact .stopped (kept.active.trans entered)
  | ended absent => exact .ended (kept.active.trans absent)

theorem atOwn {o : acts.Act} {next : acts.Answer o → Work SearchOutcome} (own : Own crate s id o next) :
    At crate ((s.apply o).2.put id (next (s.apply o).1)) id (next (s.apply o).1) := by
  cases own with
  | @snapshot request absent =>
    change At crate _ id (if s.locked then _ else _)
    split
    · exact .ended absent
    · exact .waiting absent ⟨request, .inr (.inl rfl)⟩
  | @project request absent =>
    change At crate _ id (if decide (request.project ∈ s.projects) then _ else _)
    split
    · exact .waiting absent ⟨request, .inr (.inr rfl)⟩
    · exact .ended absent
  | insert absent => exact .running (Function.update_self ..) (searchingLooks crate _)
  | @look flag value next entered last tells looks =>
    change At crate _ id (next (s.flags[flag]?.getD false) >>= leave id)
    cases s.flags[flag]?.getD false with
    | true =>
      rw [last]
      exact .stopped entered
    | false => exact .running entered looks
  | remove entered => exact .ended (Function.update_self ..)

theorem soundMoved (sound : Sound crate s) (kept : ∀ other, other ≠ id → Kept other s s')
    (present : s'.searches id = some rest) (here : At crate s' id rest) (grows : s.flags.length ≤ s'.flags.length)
    (flag : ∀ flag, s'.active id = some flag →
      flag < s'.flags.length ∧ ∀ other, other ≠ id → s.active other ≠ some flag) : Sound crate s' := by
  refine ⟨fun {other} none' => ?_, fun {other last} found => ?_, fun {other own} entered => ?_,
    fun {other third own} entered entered' => ?_⟩
  · by_cases same : other = id
    · rw [same, present] at none'
      cases none'
    · exact (kept other same).active.trans (sound.absent ((kept other same).searches ▸ none'))
  · by_cases same : other = id
    · rw [same, present] at found
      cases Option.some.inj found
      exact same ▸ here
    · exact atKept (kept other same) (sound.located ((kept other same).searches ▸ found))
  · by_cases same : other = id
    · exact (flag own (same ▸ entered)).1
    · exact (sound.fresh ((kept other same).active ▸ entered)).trans_le grows
  · by_cases same : other = id
    · by_cases same' : third = id
      · rw [same, same']
      · exact absurd ((kept third same').active ▸ entered') ((flag own (same ▸ entered)).2 third same')
    · by_cases same' : third = id
      · exact absurd ((kept other same).active ▸ entered) ((flag own (same' ▸ entered')).2 other same)
      · exact sound.apart ((kept other same).active ▸ entered) ((kept third same').active ▸ entered')

theorem soundKept (sound : Sound crate s) (kept : ∀ other, Kept other s s')
    (length : s'.flags.length = s.flags.length) : Sound crate s' := by
  refine ⟨fun {other} none' => ?_, fun {other last} found => ?_, fun {other own} entered => ?_,
    fun {other third own} entered entered' => ?_⟩
  · exact (kept other).active.trans (sound.absent ((kept other).searches ▸ none'))
  · exact atKept (kept other) (sound.located ((kept other).searches ▸ found))
  · exact length ▸ sound.fresh ((kept other).active ▸ entered)
  · exact sound.apart ((kept other).active ▸ entered) ((kept third).active ▸ entered')

theorem soundSteps {label : Label} (sound : Sound crate s) (steps : Steps crate s label s') : Sound crate s' := by
  cases steps with
  | @accept id request absent =>
    have unregistered := sound.absent absent
    refine soundMoved sound (fun other different => keptPut different) putHere
      (.waiting unregistered ⟨request, .inl rfl⟩) (Nat.le_refl _) fun flag entered => ?_
    cases unregistered.symm.trans entered
  | @act id o next present =>
    have own := ownNext (sound.located present)
    refine soundMoved sound (fun other different => keptAct own different) putHere (atOwn own) ?_ fun flag entered => ?_
    · cases own with
      | insert absent => simp [State.apply]
      | snapshot absent => exact Nat.le_refl _
      | project absent => exact Nat.le_refl _
      | look entered last tells looks => exact Nat.le_refl _
      | remove entered => exact Nat.le_refl _
    · have same : ∀ {own}, s.active id = some own →
          own < s.flags.length ∧ ∀ other, other ≠ id → s.active other ≠ some own := fun entered =>
        ⟨sound.fresh entered, fun other different entered' => different (sound.apart entered' entered)⟩
      cases own with
      | insert absent =>
        have here : Function.update s.active id (some s.flags.length) id = some flag := entered
        rw [Function.update_self] at here
        cases Option.some.inj here
        refine ⟨by simp [State.apply], fun other different entered' => ?_⟩
        exact Nat.lt_irrefl _ (sound.fresh entered')
      | snapshot absent => exact same entered
      | project absent => exact same entered
      | look entered' last tells looks => exact same entered
      | remove entered' =>
        have here : Function.update s.active id none id = some flag := entered
        rw [Function.update_self] at here
        cases here
  | cancel => exact soundKept sound (fun other => keptCancel) cancelLength
  | register => exact soundKept sound (fun other => ⟨rfl, rfl, fun raised => raised⟩) rfl
  | lock => exact soundKept sound (fun other => ⟨rfl, rfl, fun raised => raised⟩) rfl

end Steps

/-! Cancels that are heard, and cancels that are not. -/

def Cancelled (result : SearchOutcome) : Prop := ∃ found summary, result = .ok (found, summary) ∧ summary.cancelled = true

/-- The flag of the search is in the registry, and the search looks at it next or it was
raised before. -/
def Hears (s : State) (id : RequestId) (o : Act) : Prop :=
  ∃ flag, s.active id = some flag ∧ (o = .isCancelled flag ∨ s.raised flag)

def Heeded (s : State) : Label → Prop
  | .cancel id => ∀ o next, s.searches id = some (.act o next) → Hears s id o
  | _ => True

/-- No cancel of `id` comes before a look at its flag. -/
def Unheeded (id : RequestId) (s : State) (label : Label) : Prop :=
  label = .cancel id → ∀ flag next, s.searches id ≠ some (.act (Act.isCancelled flag) next)

/-- From the insertion of the flag to its removal. -/
def inSearch : Act → Bool
  | .isCancelled _ | .remove _ => true
  | _ => false

inductive Stopping (s : State) (id : RequestId) : Work SearchOutcome → Prop
  | looking {flag value} {next : Bool → Work _} (entered : s.active id = some flag) (raised : s.raised flag)
      (last : next true = .done value) (tells : Tells true value) :
      Stopping s id (.act (Act.isCancelled flag) fun raised => next raised >>= leave id)
  | leaving {value} (tells : Tells true value) : Stopping s id (leave id value)
  | ended {result} (cancelled : Cancelled result) : Stopping s id (.done result)

inductive Unseen (crate : RegexCrate) (s : State) (id : RequestId) : Work SearchOutcome → Prop
  | waiting {rest} (absent : s.active id = none) (waits : Waits crate id rest) : Unseen crate s id rest
  | looking {flag} {next : Bool → Work _} (entered : s.active id = some flag) (low : ¬ s.raised flag)
      (looks : Looks flag Tells (next false)) :
      Unseen crate s id (.act (Act.isCancelled flag) fun raised => next raised >>= leave id)
  | leaving {value} (tells : Tells false value) : Unseen crate s id (leave id value)
  | ended {result} (told : ¬ Cancelled result) : Unseen crate s id (.done result)

section Hearing
variable {crate : RegexCrate} {s s' : State} {id : RequestId} {rest : Work SearchOutcome} {label : Label}
  {flag : CancellationFlag}

theorem tellsCancelled {value : Except ProjectError SearchSummary × List SearchMatch} (tells : Tells true value) :
    Cancelled (outcome value) := by
  obtain ⟨ended, found⟩ := value
  cases ended with
  | error error => cases tells
  | ok summary => exact ⟨found, summary, rfl, tells⟩

theorem tellsGoing {value : Except ProjectError SearchSummary × List SearchMatch} (tells : Tells false value) :
    ¬ Cancelled (outcome value) := by
  rintro ⟨found, summary, same, cancelled⟩
  obtain ⟨ended, found'⟩ := value
  cases ended with
  | error error => cases same
  | ok summary' =>
    cases Except.ok.inj same
    exact Bool.false_ne_true (tells.symm.trans cancelled)

theorem raisedBack (steps : Steps crate s label s') (sound : Sound crate s) (raised : s'.raised flag) :
    s.raised flag ∨ ∃ id, label = .cancel id ∧ s.active id = some flag := by
  cases steps with
  | accept absent => exact .inl raised
  | @act id o next present =>
    have own := ownNext (sound.located present)
    refine .inl ?_
    cases own with
    | insert absent =>
      have here : (s.flags ++ [false])[flag]? = some true := raised
      by_cases inside : flag < s.flags.length
      · rwa [List.getElem?_append_left inside] at here
      · rw [List.getElem?_append_right (Nat.not_lt.mp inside)] at here
        cases List.mem_singleton.mp (List.mem_of_getElem? here)
    | snapshot absent => exact raised
    | project absent => exact raised
    | look entered last tells looks => exact raised
    | remove entered => exact raised
  | @cancel id =>
    rw [State.cancelSearch] at raised
    split at raised
    · rename_i own entered
      rw [State.raised, List.getElem?_set] at raised
      split at raised
      · rename_i same
        exact .inr ⟨id, rfl, same ▸ entered⟩
      · exact .inl raised
    · exact .inl raised
  | register => exact .inl raised
  | lock => exact .inl raised

theorem activeBack (steps : Steps crate s label s') (sound : Sound crate s) (entered : s'.active id = some flag)
    (old : flag < s.flags.length) : s.active id = some flag := by
  cases steps with
  | accept absent => exact entered
  | @act moved o next present =>
    have own := ownNext (sound.located present)
    by_cases same : id = moved
    · subst same
      cases own with
      | insert absent =>
        have here : Function.update s.active id (some s.flags.length) id = some flag := entered
        rw [Function.update_self] at here
        cases Option.some.inj here
        exact absurd old (Nat.lt_irrefl _)
      | snapshot absent => exact entered
      | project absent => exact entered
      | look entered' last tells looks => exact entered
      | remove entered' =>
        have here : Function.update s.active id none id = some flag := entered
        rw [Function.update_self] at here
        cases here
    · exact (keptAct own same).active.symm.trans entered
  | @cancel moved =>
    have kept : Kept id s (s.cancelSearch moved) := keptCancel
    exact kept.active.symm.trans entered
  | register => exact entered
  | lock => exact entered

theorem keptSteps (steps : Steps crate s label s') (sound : Sound crate s) (present : s.searches id = some rest) :
    Kept id s s' ∨ ∃ o next, rest = .act o next ∧ s'.searches id = some (next (s.apply o).1) ∧
      Own crate s id o next ∧ s' = (s.apply o).2.put id (next (s.apply o).1) := by
  cases steps with
  | @accept accepted request absent =>
    refine .inl (keptPut fun same => ?_)
    cases absent.symm.trans (same ▸ present)
  | @act moved o next there =>
    have own := ownNext (sound.located there)
    by_cases same : id = moved
    · subst same
      cases Option.some.inj (present.symm.trans there)
      exact .inr ⟨o, next, rfl, putHere, own, rfl⟩
    · exact .inl (keptAct own same)
  | cancel => exact .inl keptCancel
  | register => exact .inl ⟨rfl, rfl, fun raised => raised⟩
  | lock => exact .inl ⟨rfl, rfl, fun raised => raised⟩

theorem stoppingKept (kept : Kept id s s') (stopping : Stopping s id rest) : Stopping s' id rest := by
  cases stopping with
  | looking entered raised last tells => exact .looking (kept.active.trans entered) (kept.raised raised) last tells
  | leaving tells => exact .leaving tells
  | ended cancelled => exact .ended cancelled

theorem stoppingOwn {o : acts.Act} {next : acts.Answer o → Work SearchOutcome} (stopping : Stopping s id (.act o next)) :
    Stopping s' id (next (s.apply o).1) := by
  generalize same : Prog.act o next = rest at stopping
  cases stopping with
  | @looking flag value next' entered raised last tells =>
    cases same
    change Stopping s' id (next' (s.flags[flag]?.getD false) >>= leave id)
    rw [raised, Option.getD_some, last]
    exact .leaving tells
  | leaving tells =>
    change _ = Prog.act (A := acts) (Act.remove id) _ at same
    cases same
    exact .ended (tellsCancelled tells)
  | ended cancelled => cases same

theorem stoppingSteps (steps : Steps crate s label s') (sound : Sound crate s) (present : s.searches id = some rest)
    (stopping : Stopping s id rest) : ∃ rest', s'.searches id = some rest' ∧ Stopping s' id rest' := by
  rcases keptSteps steps sound present with kept | ⟨o, next, rfl, there, _, _⟩
  · exact ⟨rest, kept.searches.trans present, stoppingKept kept stopping⟩
  · exact ⟨_, there, stoppingOwn stopping⟩

def Heard (s : State) : Prop :=
  ∀ {id flag rest}, s.searches id = some rest → s.active id = some flag → s.raised flag → Stopping s id rest

theorem heedsStopping (sound : Sound crate s) (heard : Heard s) (present : s.searches id = some rest)
    (heeded : Heeded s (.cancel id)) (entered : s.active id = some flag) :
    Stopping (s.cancelSearch id) id rest := by
  have raised := cancelRaises sound entered
  have here := sound.located present
  cases rest with
  | done result =>
    generalize same : Prog.done result = rest at here
    cases here with
    | waiting absent => cases absent.symm.trans entered
    | @running own part =>
      cases part with
      | done value => cases same
      | act o next => cases same
    | stopped => cases same
    | ended absent => cases absent.symm.trans entered
  | act o next =>
    obtain ⟨own, entered', looks | already⟩ := heeded o next present
    · cases entered.symm.trans entered'
      subst looks
      cases ownNext here with
      | look entered last tells looks => exact .looking (keptCancel.active.trans entered) raised last tells
    · exact stoppingKept keptCancel (heard present entered' already)

theorem heardSteps (steps : Steps crate s label s') (sound : Sound crate s) (heard : Heard s) (heeded : Heeded s label) :
    Heard s' := by
  intro id flag rest present entered raised
  have inside : flag < s.flags.length := by
    rcases raisedBack steps sound raised with before | ⟨own, _, active⟩
    · exact raisedInside before
    · exact sound.fresh active
  have before := activeBack steps sound entered inside
  obtain ⟨rest', present'⟩ : ∃ rest', s.searches id = some rest' := by
    cases there : s.searches id with
    | none => cases (sound.absent there).symm.trans before
    | some rest' => exact ⟨rest', rfl⟩
  rcases raisedBack steps sound raised with old | ⟨own, rfl, active⟩
  · obtain ⟨after, found, stopping⟩ := stoppingSteps steps sound present' (heard present' before old)
    cases Option.some.inj (present.symm.trans found)
    exact stopping
  · cases sound.apart active before
    cases steps with
    | cancel =>
      cases Option.some.inj (present.symm.trans (keptCancel.searches.trans present'))
      exact heedsStopping sound heard present' heeded active

theorem unseenPart {part : Work _} (entered : s.active id = some flag) (low : ¬ s.raised flag)
    (looks : Looks flag Tells part) : Unseen crate s id (part >>= leave id) := by
  cases part with
  | done value => exact .leaving looks
  | act o next =>
    cases o with
    | isCancelled seen =>
      obtain ⟨rfl, _, goes⟩ := looks
      exact .looking entered low goes
    | snapshot => exact looks.elim
    | project id => exact looks.elim
    | insert id => exact looks.elim
    | remove id => exact looks.elim

theorem unseenKept (kept : Kept id s s') (low : ∀ {flag}, s.active id = some flag → s'.raised flag → s.raised flag ∨
      ∀ next, rest ≠ .act (Act.isCancelled flag) next) (unseen : Unseen crate s id rest) : Unseen crate s' id rest := by
  cases unseen with
  | waiting absent waits => exact .waiting (kept.active.trans absent) waits
  | looking entered down looks =>
    refine .looking (kept.active.trans entered) (fun raised => ?_) looks
    rcases low entered raised with before | other
    · exact down before
    · exact other _ rfl
  | leaving tells => exact .leaving tells
  | ended told => exact .ended told

theorem unseenOwn {o : acts.Act} {next : acts.Answer o → Work SearchOutcome} (own : Own crate s id o next)
    (unseen : Unseen crate s id (.act o next)) :
    Unseen crate ((s.apply o).2.put id (next (s.apply o).1)) id (next (s.apply o).1) := by
  generalize same : Prog.act o next = rest at unseen
  cases unseen with
  | waiting absent waits =>
    cases own with
    | @snapshot request absent =>
      change Unseen crate _ id (if s.locked then _ else _)
      split
      · exact .ended fun ⟨_, _, same, _⟩ => by cases same
      · exact .waiting absent ⟨request, .inr (.inl rfl)⟩
    | @project request absent =>
      change Unseen crate _ id (if decide (request.project ∈ s.projects) then _ else _)
      split
      · exact .waiting absent ⟨request, .inr (.inr rfl)⟩
      · exact .ended fun ⟨_, _, same, _⟩ => by cases same
    | insert absent =>
      refine unseenPart (Function.update_self ..) (fun raised => ?_) (searchingLooks crate _)
      have here : (s.flags ++ [false])[s.flags.length]? = some true := raised
      rw [List.getElem?_append_right (Nat.le_refl _), Nat.sub_self] at here
      cases here
    | look entered last tells looks => cases absent.symm.trans entered
    | remove entered => cases absent.symm.trans entered
  | @looking flag next' entered low looks =>
    cases same
    change Unseen crate _ id (next' (s.flags[flag]?.getD false) >>= leave id)
    cases answer : s.flags[flag]?.getD false with
    | false => exact unseenPart entered low looks
    | true =>
      refine absurd ?_ low
      rw [State.raised]
      cases there : s.flags[flag]? with
      | none => rw [there] at answer; cases answer
      | some raised => rw [there] at answer; exact congrArg some answer
  | leaving tells =>
    change _ = Prog.act (A := acts) (Act.remove id) _ at same
    cases same
    exact .ended (tellsGoing tells)
  | ended told => cases same

theorem unseenSteps (steps : Steps crate s label s') (sound : Sound crate s)
    (unseen : ∀ rest, s.searches id = some rest → Unseen crate s id rest) (unheeded : Unheeded id s label) :
    ∀ rest, s'.searches id = some rest → Unseen crate s' id rest := by
  intro rest found
  cases before : s.searches id with
  | none =>
    have absent := sound.absent before
    cases steps with
    | @accept accepted request free =>
      by_cases same : id = accepted
      · subst same
        cases Option.some.inj (putHere.symm.trans found)
        exact .waiting absent ⟨request, .inl rfl⟩
      · cases before.symm.trans ((putOther same).symm.trans found)
    | @act moved o next there =>
      by_cases same : id = moved
      · cases (same ▸ before).symm.trans there
      · cases before.symm.trans ((keptAct (ownNext (sound.located there)) same).searches.symm.trans found)
    | cancel => cases before.symm.trans (keptCancel.searches.symm.trans found)
    | register => cases before.symm.trans found
    | lock => cases before.symm.trans found
  | some rest' =>
    rcases keptSteps steps sound before with kept | ⟨o, next, rfl, there, own, rfl⟩
    · cases Option.some.inj ((kept.searches.trans before).symm.trans found)
      refine unseenKept kept (fun {flag} entered raised => ?_) (unseen _ before)
      rcases raisedBack steps sound raised with old | ⟨other, rfl, active⟩
      · exact .inl old
      · cases sound.apart entered active
        exact .inr fun next same => unheeded rfl flag next (same ▸ before)
    · cases Option.some.inj (there.symm.trans found)
      exact unseenOwn own (unseen _ before)

theorem firstSound (crate : RegexCrate) : Sound crate first :=
  ⟨fun _ => rfl, fun found => (by cases found), fun entered => (by cases entered), fun entered => (by cases entered)⟩

theorem reachSound {May : State → Label → Prop} (reached : Reach (step crate) May first s) : Sound crate s :=
  reachInvariant reached (firstSound crate) fun sound _ stepped => soundSteps sound (stepSteps stepped)

theorem reachHeard (reached : Reach (step crate) Heeded first s) : Sound crate s ∧ Heard s := by
  induction reached with
  | start => exact ⟨firstSound crate, fun found => by cases found⟩
  | step label before may stepped ih =>
    exact ⟨soundSteps ih.1 (stepSteps stepped), heardSteps (stepSteps stepped) ih.1 ih.2 may⟩

theorem reachUnseen (reached : Reach (step crate) (Unheeded id) first s) :
    Sound crate s ∧ ∀ rest, s.searches id = some rest → Unseen crate s id rest := by
  induction reached with
  | start => exact ⟨firstSound crate, fun rest found => by cases found⟩
  | step label before may stepped ih =>
    exact ⟨soundSteps ih.1 (stepSteps stepped), unseenSteps (stepSteps stepped) ih.1 ih.2 may⟩

theorem reachStopping {May : State → Label → Prop} (reached : Reach (step crate) May s s')
    (stops : Sound crate s ∧ ∃ rest, s.searches id = some rest ∧ Stopping s id rest) :
    Sound crate s' ∧ ∃ rest, s'.searches id = some rest ∧ Stopping s' id rest := by
  induction reached with
  | start => exact stops
  | step label before may stepped ih =>
    obtain ⟨sound, rest, there, stopping⟩ := ih
    exact ⟨soundSteps sound (stepSteps stepped), stoppingSteps (stepSteps stepped) sound there stopping⟩

theorem registryExact (sound : Sound crate s) : (∃ flag, s.active id = some flag) ↔
    ∃ o next, s.searches id = some (.act o next) ∧ inSearch o = true := by
  constructor
  · rintro ⟨flag, entered⟩
    cases there : s.searches id with
    | none => cases (sound.absent there).symm.trans entered
    | some rest =>
      cases sound.located there with
      | waiting absent waits => cases absent.symm.trans entered
      | @running own part _ looks =>
        cases part with
        | done value => exact ⟨_, _, rfl, rfl⟩
        | act o next =>
          cases o with
          | isCancelled seen => exact ⟨_, _, rfl, rfl⟩
          | snapshot => exact looks.elim
          | project id => exact looks.elim
          | insert id => exact looks.elim
          | remove id => exact looks.elim
      | stopped _ => exact ⟨_, _, rfl, rfl⟩
      | ended absent => cases absent.symm.trans entered
  · rintro ⟨o, next, there, inside⟩
    cases ownNext (sound.located there) with
    | snapshot absent => cases inside
    | project absent => cases inside
    | insert absent => cases inside
    | look entered last tells looks => exact ⟨_, entered⟩
    | remove entered => exact ⟨_, entered⟩

theorem stoppingEnds (present : s.searches id = some rest) (stopping : Stopping s id rest) :
    ∃ steps ≤ 2, ∃ last result, Stepping.run (step crate) Any s (List.replicate steps (.act id)) = some last ∧
      last.searches id = some (.done result) ∧ Cancelled result := by
  have leaves : ∀ {s : State} {value : Except ProjectError SearchSummary × List SearchMatch}, Tells true value →
      s.searches id = some (leave id value) → ∃ last, Stepping.run (step crate) Any s [.act id] = some last ∧
        last.searches id = some (.done (outcome value)) := fun {s value} tells there => by
    have stepped : step crate s (.act id) = some ((s.apply (.remove id)).2.put id (.done (outcome value))) := by
      simp only [step, there]
      rfl
    exact ⟨_, (runStep trivial stepped).trans rfl, putHere⟩
  cases stopping with
  | @looking flag value next entered raised last tells =>
    have stepped : step crate s (.act id) = some (s.put id (leave id value)) := by
      simp only [step, present, State.apply]
      rw [raised, Option.getD_some, last]
      rfl
    obtain ⟨end', ran, ended⟩ := leaves tells putHere
    exact ⟨2, Nat.le_refl _, end', _, (runStep trivial stepped).trans ran, ended, tellsCancelled tells⟩
  | leaving tells =>
    obtain ⟨last, ran, ended⟩ := leaves tells present
    exact ⟨1, by decide, last, _, ran, ended, tellsCancelled tells⟩
  | ended cancelled => exact ⟨0, Nat.zero_le _, s, _, rfl, present, cancelled⟩

end Hearing

/-- A search that is cancelled while its flag is registered and looked at again stops as
cancelled, and no other does. -/
theorem cancelHeard (crate : RegexCrate) :
    (∀ {s s' s'' : State} {id o next}, Reach (step crate) Heeded first s → s.searches id = some (.act o next) →
      Heeded s (.cancel id) → step crate s (.cancel id) = some s' → Reach (step crate) Heeded s' s'' →
      (∀ result, s''.searches id = some (.done result) → Cancelled result) ∧
        ∃ steps ≤ 2, ∃ last result, Stepping.run (step crate) Any s'' (List.replicate steps (.act id)) = some last ∧
          last.searches id = some (.done result) ∧ Cancelled result) ∧
    (∀ {s : State} {id result}, Reach (step crate) (Unheeded id) first s → s.searches id = some (.done result) →
      ¬ Cancelled result) ∧
    ∀ {s : State} {id}, Reach (step crate) Any first s →
      ((∃ flag, s.active id = some flag) ↔ ∃ o next, s.searches id = some (.act o next) ∧ inSearch o = true) := by
  refine ⟨fun {s s' s'' id o next} reached present heeded stepped later => ?_,
    fun {s id result} reached present => ?_, fun reached => registryExact (reachSound reached)⟩
  · have both := reachHeard reached
    have stops : Sound crate s' ∧ ∃ rest, s'.searches id = some rest ∧ Stopping s' id rest := by
      have steps := stepSteps stepped
      refine ⟨soundSteps both.1 steps, ?_⟩
      obtain ⟨flag, entered, _⟩ := heeded o next present
      cases steps
      exact ⟨_, keptCancel.searches.trans present, heedsStopping both.1 both.2 present heeded entered⟩
    obtain ⟨-, rest, there, stopping⟩ := reachStopping later stops
    refine ⟨fun result ended => ?_, stoppingEnds there stopping⟩
    cases Option.some.inj (there.symm.trans ended)
    generalize same : Prog.done result = rest at stopping
    cases stopping with
    | looking => cases same
    | leaving => cases same
    | ended cancelled =>
      cases same
      exact cancelled
  · obtain ⟨-, unseen⟩ := reachUnseen reached
    have here := unseen _ present
    generalize same : Prog.done result = rest at here
    cases here with
    | waiting absent waits =>
      obtain ⟨request, rfl | rfl | rfl⟩ := waits
      · cases same
      · cases same
      · cases same
    | looking => cases same
    | leaving => cases same
    | ended told =>
      cases same
      exact told

def oneFile : SearchRequest := ⟨1, forB 10, [[bytesAt "one" "b"]]⟩

theorem cancelHeardOnce : ∃ s s' last result, Reach (step onlyB) Heeded first s ∧ s.active 7 = some 0 ∧
    step onlyB s (.cancel 7) = some s' ∧
    (∃ steps ≤ 2, Stepping.run (step onlyB) Any s' (List.replicate steps (.act 7)) = some last) ∧
    last.searches 7 = some (.done result) ∧ Cancelled result := by
  obtain ⟨s, reached, ⟨next, present⟩, active, unlocked⟩ : ∃ s, Reach (step onlyB) Heeded first s ∧
      (∃ next, s.searches 7 = some (.act (Act.isCancelled 0) next)) ∧ s.active 7 = some 0 ∧ s.locked = false := by
    have accepted : Reach (step onlyB) Heeded first _ :=
      .step (.accept 7 oneFile) (.step (.register 1) .start trivial rfl) trivial rfl
    exact ⟨_, .step (.act 7) (.step (.act 7) (.step (.act 7) accepted trivial rfl) trivial rfl) trivial rfl,
      ⟨_, rfl⟩, rfl, rfl⟩
  have heeded : Heeded s (.cancel 7) := by
    intro o next' here
    cases present.symm.trans here
    exact ⟨0, active, .inl rfl⟩
  have stepped : step onlyB s (.cancel 7) = some (s.cancelSearch 7) := by
    rw [step, unlocked]
    rfl
  obtain ⟨-, steps, few, last, result, ran, ended, cancelled⟩ :=
    (cancelHeard onlyB).1 reached present heeded stepped .start
  exact ⟨s, _, last, result, reached, active, stepped, ⟨steps, few, ran⟩, ended, cancelled⟩

/-- The search is accepted, and cancelled before its task has registered the flag. -/
theorem cancelLost : ∃ s s' s'' o next found summary,
    Stepping.run (step onlyB) Any first [.register 1, .accept 7 oneFile] = some s ∧
      s.searches 7 = some (.act o next) ∧ step onlyB s (.cancel 7) = some s' ∧
      Stepping.run (step onlyB) Any s' (List.replicate 7 (.act 7)) = some s'' ∧
      s''.searches 7 = some (.done (.ok (found, summary))) ∧ summary.cancelled = false :=
  ⟨_, _, _, _, _, _, _, rfl, rfl, rfl, rfl, rfl, rfl⟩

end Maestro.SearchCancel
