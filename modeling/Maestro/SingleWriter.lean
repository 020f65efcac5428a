import Maestro.BindingLease

/-! The table of binding writers against its owners: it lists exactly the bindings that the
launches and the runs in progress hold, each of them once, whatever the schedule is. -/
namespace Maestro.Session
open Interleaving Prog Protocol

/-! The memory as far as leases depend on it. -/

structure RunLease where
  session : SessionId
  token : LeaseToken
  binding : Option String
  finalized : Bool

def RunControl.lease (r : RunControl) : RunLease :=
  ⟨r.session, r.leaseToken, r.leasedBinding, r.finalized⟩

structure LeaseView where
  fresh : Nat
  writers : AList (fun _ : String => BindingWriter)
  runs : RunId → Option RunLease
  active : SessionId → Option (Option RunId)

def Memory.leaseView (m : Memory) : LeaseView where
  fresh := m.fresh
  writers := m.bindingWriters
  runs run := (m.runs run).map RunControl.lease
  active session := (m.sessions session).map fun record => record.data.activeRun

namespace LeaseView

def setRun (v : LeaseView) (run : RunId) (k : RunLease) : LeaseView :=
  { v with runs := Function.update v.runs run (some k) }

def setActive (v : LeaseView) (session : SessionId) (run : Option RunId) : LeaseView :=
  { v with active := Function.update v.active session (some run) }

def setWriters (v : LeaseView) (writers : AList (fun _ : String => BindingWriter)) : LeaseView :=
  { v with writers := writers }

end LeaseView

inductive Deals : LeaseView → (o : Act) → o.Answer → LeaseView → Prop where
  | quiet {v o answer} (quiet : o.LeaseFree) (old : o ≠ .createSession) : Deals v o answer v
  | endLaunch {v session answer} : Deals v (.session session .endLaunch) answer v
  | spawn {v entry answer} : Deals v (.spawn entry) answer v
  | fresh {v} : Deals v .fresh v.fresh { v with fresh := v.fresh + 1 }
  | createRefused {v error} : Deals v .createSession (.error error) v
  | created {v} : Deals v .createSession (.ok v.fresh)
      { v.setActive v.fresh none with fresh := v.fresh + 1 }
  | claimRefused {v binding token session error} :
      Deals v (.claimBinding binding token session) (.error error) v
  | claimed {v binding token session} (unowned : v.writers.lookup binding = none) :
      Deals v (.claimBinding binding token session) (.ok ())
        (v.setWriters (v.writers.insert binding ⟨token, session⟩))
  | released {v binding token answer} : Deals v (.releaseBinding binding token) answer
      (v.setWriters (releaseBinding v.writers binding token))
  | spawnFailed {v session run token binding capture spec error} :
      Deals v (.spawnStructured session run token binding capture spec) (.error error) v
  | spawned {v session run token binding capture spec processId} :
      Deals v (.spawnStructured session run token binding capture spec) (.ok processId)
        (v.setRun run ⟨session, token, binding, false⟩)
  | installRefused {v session run} : Deals v (.session session (.install run)) false v
  | installed {v session run} (idle : v.active session = some none) :
      Deals v (.session session (.install run)) true (v.setActive session (some run))
  | finalized {v session run completion before answer} (found : v.active session = some before) :
      Deals v (.session session (.finalize run completion)) answer
        (v.setActive session (if before = some run then none else before))
  | read {v run k} (found : v.runs run = some k) : Deals v (.run run .leasedBinding) k.binding v
  | named {v run k} (found : v.runs run = some k) : Deals v (.run run .leaseToken) k.token v
  | recorded {v run k binding answer} (found : v.runs run = some k) :
      Deals v (.run run (.setLeasedBinding binding)) answer
        (v.setRun run { k with binding := some binding })
  | taken {v run k} (found : v.runs run = some k) : Deals v (.run run .takeLeasedBinding) k.binding
      (v.setRun run { k with binding := none })
  | swapped {v run k} (found : v.runs run = some k) : Deals v (.run run .swapFinalized) k.finalized
      (v.setRun run { k with finalized := true })

section Views
variable {sup : Supervisor}

theorem viewSession {m : Memory} {session record} :
    Memory.leaseView { m with sessions := Function.update m.sessions session (some record) } =
      m.leaseView.setActive session record.data.activeRun := by
  simp only [Memory.leaseView, LeaseView.setActive, LeaseView.mk.injEq, true_and]
  funext s
  by_cases same : s = session <;> simp [Function.update, same]

theorem viewRun {m : Memory} {run control} :
    Memory.leaseView { m with runs := Function.update m.runs run (some control) } =
      m.leaseView.setRun run control.lease := by
  simp only [Memory.leaseView, LeaseView.setRun, LeaseView.mk.injEq, true_and, and_true]
  funext r
  by_cases same : r = run <;> simp [Function.update, same]

theorem setActiveSame {v : LeaseView} {session before} (found : v.active session = some before) :
    v.setActive session before = v := by
  have unchanged : Function.update v.active session (some before) = v.active := by
    rw [← found, Function.update_eq_self]
  simp [LeaseView.setActive, unchanged]

theorem setRunSame {v : LeaseView} {run k} (found : v.runs run = some k) : v.setRun run k = v := by
  have unchanged : Function.update v.runs run (some k) = v.runs := by
    rw [← found, Function.update_eq_self]
  simp [LeaseView.setRun, unchanged]

theorem leaseKept {now choice call} {c c' : RunControl} {answer : RunCall.Answer call}
    (h : c.perform sup now choice call = some (answer, c'))
    (quiet : ∀ run, Act.LeaseFree (.run run call)) : c'.lease = c.lease := by
  cases call <;> simp only [RunControl.perform] at h
  case leasedBinding | leaseToken | setLeasedBinding | takeLeasedBinding | swapFinalized =>
    exact (quiet 0).elim
  all_goals
    repeat' split at h
    all_goals first | contradiction | (cases Option.some.inj h; rfl)

theorem sessionDeals {m : Memory} {session call record record'} {answer : SessionCall.Answer call}
    (found : m.sessions session = some record)
    (h : record.perform sup session call = some (answer, record')) :
    Deals m.leaseView (.session session call) answer
      (m.leaseView.setActive session record'.data.activeRun) := by
  have before : m.leaseView.active session = some record.data.activeRun := by
    simp [Memory.leaseView, found]
  cases call with
  | install run =>
    simp only [SessionRecord.perform] at h
    split at h
    · cases Option.some.inj h
      rw [setActiveSame before]
      exact .installRefused
    · rename_i idle
      cases Option.some.inj h
      exact .installed (by simpa [Option.not_isSome_iff_eq_none.mp idle] using before)
  | finalize run completion =>
    cases Option.some.inj h
    exact .finalized before
  | endLaunch =>
    cases Option.some.inj h
    rw [setActiveSame before]
    exact .endLaunch
  | _ =>
    have kept : record'.data.activeRun = record.data.activeRun :=
      congrArg History.activeRun (quietHistory (by trivial) h)
    rw [kept, setActiveSame before]
    exact .quiet trivial (fun same => by cases same)

theorem runDeals {m : Memory} {run call choice control control'} {answer : RunCall.Answer call}
    (found : m.runs run = some control)
    (h : control.perform sup m.now choice call = some (answer, control')) :
    Deals m.leaseView (.run run call) answer (m.leaseView.setRun run control'.lease) := by
  have before : m.leaseView.runs run = some control.lease := by simp [Memory.leaseView, found]
  cases call with
  | leasedBinding =>
    cases Option.some.inj h
    rw [setRunSame before]
    exact .read before
  | leaseToken =>
    cases Option.some.inj h
    rw [setRunSame before]
    exact .named before
  | setLeasedBinding binding =>
    cases Option.some.inj h
    exact .recorded before
  | takeLeasedBinding =>
    cases Option.some.inj h
    exact .taken before
  | swapFinalized =>
    cases Option.some.inj h
    exact .swapped before
  | _ =>
    rw [leaseKept h fun _ => trivial, setRunSame before]
    exact .quiet trivial (fun same => by cases same)

theorem claimDeals {m : Memory} {binding token session} :
    Deals m.leaseView (.claimBinding binding token session)
      (claimBinding m.bindingWriters binding token session).1
      (m.leaseView.setWriters (claimBinding m.bindingWriters binding token session).2) := by
  unfold claimBinding
  split
  · exact .claimRefused
  split
  · exact .claimRefused
  · rename_i unowned
    exact .claimed unowned

theorem applyDeals {o choice m answer m'} (h : apply sup o choice m = some (answer, m')) :
    Deals m.leaseView o answer m'.leaseView := by
  have quiet : ∀ {o : Act} {answer}, o.LeaseFree → o ≠ .createSession →
      Deals m.leaseView o answer m.leaseView := fun free old => .quiet free old
  cases o with
  | fresh =>
    cases Option.some.inj h
    exact .fresh
  | createSession =>
    simp only [apply] at h
    split at h <;> cases Option.some.inj h
    · exact .createRefused
    · rw [show Memory.leaseView _ = _ from viewSession
        (m := { m with fresh := m.fresh + 1, listed := m.listed ++ [m.fresh] })]
      exact .created
  | claimBinding binding token session =>
    cases Option.some.inj h
    exact claimDeals
  | releaseBinding binding token =>
    cases Option.some.inj h
    exact .released
  | spawnStructured session run token binding capture spec =>
    simp only [apply] at h
    split at h
    · cases Option.some.inj h
      rw [viewRun]
      exact .spawned
    · cases Option.some.inj h
      exact .spawnFailed
    · contradiction
  | spawn entry =>
    cases Option.some.inj h
    exact .spawn
  | session id call =>
    obtain ⟨record, record', found, performed, rfl⟩ := applySession h
    rw [viewSession]
    exact sessionDeals found performed
  | run id call =>
    obtain ⟨control, control', found, performed, rfl⟩ := applyRun h
    rw [viewRun]
    exact runDeals found performed
  | store call =>
    obtain ⟨healthy, rfl, rfl, rfl⟩ := applyStore h
    exact quiet trivial (fun same => by cases same)
  | sleepUntil | newActionId | takeStream =>
    simp only [apply] at h
    split at h <;> first | contradiction | (cases Option.some.inj h; exact quiet trivial (fun same => by cases same))
  | now | answer | findSession | removeSession =>
    cases Option.some.inj h
    exact quiet trivial (fun same => by cases same)

theorem outsideView {x} {m m' : Memory} (h : outside sup x m = some m') :
    m'.leaseView = m.leaseView := by
  rcases outsideCases h with ⟨elapsed, rfl, rfl⟩ | ⟨run, control, process, _, found, _, rfl⟩
  · rfl
  · rw [viewRun]
    exact setRunSame (by simp [Memory.leaseView, found, RunControl.lease])

end Views

/-! What the leases in the memory look like from each place. -/

namespace LeaseView

structure Ordered (v : LeaseView) : Prop where
  runDrawn : ∀ {run k}, v.runs run = some k → run < v.fresh ∧ k.token < v.fresh
  sessionDrawn : ∀ {session run}, v.active session = some run → session < v.fresh
  tokenOnce : ∀ {run run' k k'}, v.runs run = some k → v.runs run' = some k' →
    k.token = k'.token → run = run'
  activeLeased : ∀ {session run}, v.active session = some (some run) →
    ∃ k, v.runs run = some k ∧ k.session = session ∧
      ∀ binding, k.binding = some binding → v.writers.lookup binding = some ⟨k.token, session⟩

def Owned (v : LeaseView) (token : LeaseToken) (lease : Option (SessionId × String)) : Prop :=
  ∀ session binding, lease = some (session, binding) →
    v.writers.lookup binding = some ⟨token, session⟩

def Unused (v : LeaseView) (token : LeaseToken) : Prop :=
  token < v.fresh ∧ ∀ run k, v.runs run = some k → k.token ≠ token

def BacksPhase (v : LeaseView) (k : RunLease) : LeasePhase → Prop
  | .idle => k.finalized = false
  | .vacant => k.finalized = false ∧ k.binding = none
  | .claiming token => k.finalized = false ∧ k.binding = none ∧ k.token = token
  | .adopting token binding => k.finalized = false ∧ k.binding = none ∧ k.token = token ∧
      v.writers.lookup binding = some ⟨k.token, k.session⟩
  | .closing => True
  | .taken binding => k.binding = none ∧ v.writers.lookup binding = some ⟨k.token, k.session⟩
  | .releasing token binding => k.binding = none ∧ k.token = token ∧
      v.writers.lookup binding = some ⟨k.token, k.session⟩
  | .closed => k.binding = none

def Backs (v : LeaseView) : LeasePlace → Prop
  | .free => True
  | .guard token lease => v.Unused token ∧ v.Owned token lease
  | .named token lease run => v.Unused token ∧ v.Owned token lease ∧ run < v.fresh ∧ v.runs run = none
  | .spawned session token binding run => v.runs run = some ⟨session, token, binding, false⟩ ∧
      (∀ other, v.active other ≠ some (some run)) ∧
      v.Owned token (binding.map fun value => (session, value))
  | .installed session token binding run => v.runs run = some ⟨session, token, binding, false⟩ ∧
      v.active session = some (some run)
  | .dropping token session binding => token < v.fresh ∧
      (∀ run k other, v.runs run = some k → k.token = token → v.active other ≠ some (some run)) ∧
      v.writers.lookup binding = some ⟨token, session⟩
  | .held session run phase => ∃ k, v.runs run = some k ∧ k.session = session ∧
      v.active session = some (some run) ∧ v.BacksPhase k phase

def holder (v : LeaseView) : LeasePlace → Option LeaseToken
  | .held _ run _ => (v.runs run).map RunLease.token
  | q => q.token

end LeaseView

def LeasePlace.Apart (q q' : LeasePlace) : Prop :=
  (∀ token, q.token = some token → q'.token ≠ some token) ∧
  (∀ run, q.run = some run → q'.run ≠ some run)

section Places
variable {v v' : LeaseView} {q q' : LeasePlace}

theorem leaseApartSymm (h : q.Apart q') : q'.Apart q :=
  ⟨fun token same same' => h.1 token same' same, fun run same same' => h.2 run same' same⟩

theorem leaseApartNone (token : q.token = none) (run : q.run = none) : q.Apart q' := by
  simp [LeasePlace.Apart, token, run]

theorem leaseApartLess {less : LeasePlace} (h : q.Apart q')
    (token : less.token = none ∨ less.token = q.token) (run : less.run = none ∨ less.run = q.run) :
    less.Apart q' := by
  refine ⟨fun t same => ?_, fun r same => ?_⟩
  · rcases token with token | token <;> rw [token] at same
    · cases same
    · exact h.1 t same
  · rcases run with run | run <;> rw [run] at same
    · cases same
    · exact h.2 r same

theorem placeTokenDrawn {t} (ordered : v.Ordered) (backs : v.Backs q) (same : q.token = some t) :
    t < v.fresh := by
  cases q <;> simp only [LeasePlace.token, Option.some.injEq, reduceCtorEq] at same <;> subst same
  case guard => exact backs.1.1
  case named => exact backs.1.1
  case spawned => exact (ordered.runDrawn backs.1).2
  case installed => exact (ordered.runDrawn backs.1).2
  case dropping => exact backs.1

theorem placeRunDrawn {run} (ordered : v.Ordered) (backs : v.Backs q) (same : q.run = some run) :
    run < v.fresh := by
  cases q <;> simp only [LeasePlace.run, Option.some.injEq, reduceCtorEq] at same <;> subst same
  case named => exact backs.2.2.1
  case spawned => exact (ordered.runDrawn backs.1).1
  case installed => exact (ordered.runDrawn backs.1).1
  case held =>
    obtain ⟨k, found, _⟩ := backs
    exact (ordered.runDrawn found).1

theorem tokenUnsupervised {t run k session} (ordered : v.Ordered) (backs : v.Backs q)
    (same : q.token = some t) (found : v.runs run = some k) (named : k.token = t)
    (active : v.active session = some (some run)) : q.run = some run := by
  cases q <;> simp only [LeasePlace.token, Option.some.injEq, reduceCtorEq] at same <;> subst same
  case guard => exact absurd named (backs.1.2 run k found)
  case named => exact absurd named (backs.1.2 run k found)
  case spawned =>
    cases ordered.tokenOnce backs.1 found named.symm
    exact absurd active (backs.2.1 session)
  case installed => exact congrArg some (ordered.tokenOnce backs.1 found named.symm)
  case dropping => exact absurd active (backs.2.1 run k session found named)

theorem holderApart {t} (ordered : v.Ordered) (backs : v.Backs q) (backs' : v.Backs q')
    (apart : q.Apart q') (holds : v.holder q = some t) : v.holder q' ≠ some t := by
  have supervised : ∀ {p p' : LeasePlace} {session run phase}, v.Backs p → v.Backs p' →
      p.Apart p' → p = .held session run phase → v.holder p = some t → p'.token ≠ some t := by
    intro p p' session run phase backs backs' apart place holds token
    subst place
    obtain ⟨k, found, _, active, _⟩ := backs
    have named : k.token = t := by simpa [LeaseView.holder, found] using holds
    exact apart.2 run rfl (tokenUnsupervised ordered backs' token found named active)
  intro holds'
  by_cases held : ∃ session run phase, q = .held session run phase
  · obtain ⟨session, run, phase, rfl⟩ := held
    by_cases held' : ∃ session run phase, q' = .held session run phase
    · obtain ⟨session', run', phase', rfl⟩ := held'
      obtain ⟨k, found, _⟩ := backs
      obtain ⟨k', found', _⟩ := backs'
      simp only [LeaseView.holder, found, found', Option.map_some, Option.some.injEq] at holds holds'
      exact apart.2 run rfl (congrArg some (ordered.tokenOnce found' found (holds'.trans holds.symm)))
    · refine supervised backs backs' apart rfl holds ?_
      cases q' <;> first | exact holds' | exact absurd ⟨_, _, _, rfl⟩ held'
  · have token : q.token = some t := by
      cases q <;> first | exact holds | exact absurd ⟨_, _, _, rfl⟩ held
    by_cases held' : ∃ session run phase, q' = .held session run phase
    · obtain ⟨session, run, phase, rfl⟩ := held'
      exact supervised backs' backs (leaseApartSymm apart) rfl holds' token
    · refine apart.1 t token ?_
      cases q' <;> first | exact holds' | exact absurd ⟨_, _, _, rfl⟩ held'

structure LeaseFrame (v v' : LeaseView) (q : LeasePlace) : Prop where
  fresh : v.fresh ≤ v'.fresh
  own : ∀ {run}, q.run = some run → v'.runs run = v.runs run
  tokens : ∀ {token run k}, q.token = some token → v'.runs run = some k → k.token = token →
    ∃ k', v.runs run = some k' ∧ k'.token = token
  running : ∀ {run session}, q.run = some run →
    (v'.active session = some (some run) ↔ v.active session = some (some run))
  dropped : ∀ {token run k session}, q.token = some token → v.runs run = some k → k.token = token →
    v'.active session = some (some run) → v.active session = some (some run)
  writers : ∀ {binding token session}, v.holder q = some token →
    v.writers.lookup binding = some ⟨token, session⟩ → v'.writers.lookup binding = some ⟨token, session⟩

theorem backsFrame (frame : LeaseFrame v v' q) (backs : v.Backs q) : v'.Backs q := by
  have unused : ∀ {t}, q.token = some t → v.Unused t → v'.Unused t := by
    intro t token unused
    refine ⟨Nat.lt_of_lt_of_le unused.1 frame.fresh, fun run k found named => ?_⟩
    obtain ⟨k', found', named'⟩ := frame.tokens token found named
    exact unused.2 run k' found' named'
  have owned : ∀ {t lease}, v.holder q = some t → v.Owned t lease → v'.Owned t lease :=
    fun holds owned session binding same => frame.writers holds (owned session binding same)
  cases q with
  | free => trivial
  | guard t lease => exact ⟨unused rfl backs.1, owned rfl backs.2⟩
  | named t lease run =>
    exact ⟨unused rfl backs.1, owned rfl backs.2.1, Nat.lt_of_lt_of_le backs.2.2.1 frame.fresh,
      (frame.own rfl).trans backs.2.2.2⟩
  | spawned session t binding run =>
    exact ⟨(frame.own rfl).trans backs.1,
      fun other active => backs.2.1 other ((frame.running rfl).mp active), owned rfl backs.2.2⟩
  | installed session t binding run =>
    exact ⟨(frame.own rfl).trans backs.1, (frame.running rfl).mpr backs.2⟩
  | dropping t session binding =>
    refine ⟨Nat.lt_of_lt_of_le backs.1 frame.fresh, fun run k other found named active => ?_,
      frame.writers rfl backs.2.2⟩
    obtain ⟨k', found', named'⟩ := frame.tokens rfl found named
    exact backs.2.1 run k' other found' named' (frame.dropped rfl found' named' active)
  | held session run phase =>
    obtain ⟨k, found, home, active, backs⟩ := backs
    refine ⟨k, (frame.own rfl).trans found, home, (frame.running rfl).mpr active, ?_⟩
    have writers : ∀ {binding}, v.writers.lookup binding = some ⟨k.token, k.session⟩ →
        v'.writers.lookup binding = some ⟨k.token, k.session⟩ :=
      fun owner => frame.writers (by simp [LeaseView.holder, found]) owner
    cases phase with
    | adopting t binding => exact ⟨backs.1, backs.2.1, backs.2.2.1, writers backs.2.2.2⟩
    | taken binding => exact ⟨backs.1, writers backs.2⟩
    | releasing t binding => exact ⟨backs.1, backs.2.1, writers backs.2.2⟩
    | _ => exact backs

theorem frameSame : LeaseFrame v v q :=
  ⟨Nat.le_refl _, fun _ => rfl, fun _ found named => ⟨_, found, named⟩, fun _ => Iff.rfl,
    fun _ _ _ active => active, fun _ owner => owner⟩

structure LeaseKept (v v' : LeaseView) (q q' : LeasePlace) (new : Option Entry) : Prop where
  ordered : v'.Ordered
  backs : v'.Backs q'
  entered : ∀ e, new = some e → v'.Backs (.ofEntry e) ∧ q'.Apart (.ofEntry e)
  others : ∀ other, v.Backs other → q.Apart other →
    v'.Backs other ∧ q'.Apart other ∧ ∀ e, new = some e → (LeasePlace.ofEntry e).Apart other

theorem keptLess (ordered : v'.Ordered) (backs : v'.Backs q')
    (token : q'.token = none ∨ q'.token = q.token) (run : q'.run = none ∨ q'.run = q.run)
    (frames : ∀ other, v.Backs other → q.Apart other → LeaseFrame v v' other) :
    LeaseKept v v' q q' none :=
  ⟨ordered, backs, by simp, fun other backs apart =>
    ⟨backsFrame (frames other backs apart) backs, leaseApartLess apart token run, by simp⟩⟩

theorem keptView (ordered : v.Ordered) (backs : v.Backs q')
    (token : q'.token = none ∨ q'.token = q.token) (run : q'.run = none ∨ q'.run = q.run) :
    LeaseKept v v q q' none := keptLess ordered backs token run fun _ _ _ => frameSame

theorem keptSpawn {entry} (ordered : v.Ordered) (backs : v.Backs q) (may : q.may (.spawn entry)) :
    LeaseKept v v q (q.after (.spawn entry) ()) (some entry) := by
  have free : ∀ {p : LeasePlace}, LeasePlace.ofEntry entry = .free → q.after (.spawn entry) () = q →
      LeaseKept v v q (q.after (.spawn entry) ()) (some entry) := by
    intro p free stays
    rw [stays]
    refine ⟨ordered, backs, ?_, fun other backs apart => ⟨backs, apart, ?_⟩⟩
    · rintro _ ⟨⟩
      rw [free]
      exact ⟨trivial, leaseApartSymm (leaseApartNone rfl rfl)⟩
    · rintro _ ⟨⟩
      rw [free]
      exact leaseApartNone rfl rfl
  cases entry with
  | supervise session run =>
    cases (show q = .held session run .idle from may)
    refine ⟨ordered, trivial, ?_, fun other others apart => ⟨others, leaseApartNone rfl rfl, ?_⟩⟩
    · rintro _ ⟨⟩
      exact ⟨backs, leaseApartNone rfl rfl⟩
    · rintro _ ⟨⟩
      exact apart
  | stdoutReader => cases may
  | finish => cases may
  | _ => exact free (p := q) rfl rfl

theorem orderedFresh (ordered : v.Ordered) : LeaseView.Ordered { v with fresh := v.fresh + 1 } where
  runDrawn found := by
    have drawn := ordered.runDrawn found
    exact ⟨Nat.lt_succ_of_lt drawn.1, Nat.lt_succ_of_lt drawn.2⟩
  sessionDrawn found := Nat.lt_succ_of_lt (ordered.sessionDrawn found)
  tokenOnce := ordered.tokenOnce
  activeLeased := ordered.activeLeased

theorem frameFresh : LeaseFrame v { v with fresh := v.fresh + 1 } q :=
  { (frameSame : LeaseFrame v v q) with fresh := Nat.le_succ _ }

theorem keptFresh (ordered : v.Ordered) (backs : v.Backs q) (may : q.may .fresh) :
    LeaseKept v { v with fresh := v.fresh + 1 } q (q.after .fresh v.fresh) none := by
  have backs' : ∀ {other}, v.Backs other → LeaseView.Backs { v with fresh := v.fresh + 1 } other :=
    fun backs => backsFrame frameFresh backs
  rcases may with rfl | ⟨token, lease, rfl⟩
  · refine ⟨orderedFresh ordered, ⟨⟨Nat.lt_succ_self _, fun run k found same => ?_⟩, ?_⟩, by simp,
      fun other others apart => ⟨backs' others, ⟨?_, fun _ same => by cases same⟩, by simp⟩⟩
    · exact Nat.lt_irrefl _ (same ▸ (ordered.runDrawn found).2)
    · rintro _ _ ⟨⟩
    · rintro _ ⟨⟩ same
      exact Nat.lt_irrefl _ (placeTokenDrawn ordered others same)
  · obtain ⟨unused, owned⟩ := backs' backs
    refine ⟨orderedFresh ordered, ⟨unused, owned, Nat.lt_succ_self _, ?_⟩, by simp,
      fun other others apart => ⟨backs' others, ⟨apart.1, ?_⟩, by simp⟩⟩
    · cases found : v.runs v.fresh with
      | none => rfl
      | some k => exact absurd (ordered.runDrawn found).1 (Nat.lt_irrefl _)
    · rintro _ ⟨⟩ same
      exact Nat.lt_irrefl _ (placeRunDrawn ordered others same)

theorem activeUpdated {session session' : SessionId} {run run'} (h :
    (v.setActive session run).active session' = some run') :
    (session' = session ∧ run' = run) ∨ (session' ≠ session ∧ v.active session' = some run') := by
  by_cases same : session' = session
  · subst same
    simp only [LeaseView.setActive, Function.update_self, Option.some.injEq] at h
    exact .inl ⟨rfl, h.symm⟩
  · simp only [LeaseView.setActive, Function.update_of_ne same] at h
    exact .inr ⟨same, h⟩

theorem activeElsewhere {session session' : SessionId} {run} (other : session' ≠ session) :
    (v.setActive session run).active session' = v.active session' := by
  simp [LeaseView.setActive, other]

theorem keptCreated (ordered : v.Ordered) (backs : v.Backs q) :
    LeaseKept v { v.setActive v.fresh none with fresh := v.fresh + 1 } q q none := by
  have old : ∀ {session run}, v.active session = some run → session ≠ v.fresh :=
    fun found same => Nat.lt_irrefl _ (same ▸ ordered.sessionDrawn found)
  have frames : ∀ other, LeaseFrame v { v.setActive v.fresh none with fresh := v.fresh + 1 } other := by
    refine fun other => { (frameSame : LeaseFrame v v other) with
      fresh := Nat.le_succ _, running := ?_, dropped := ?_ }
    · intro run session _
      constructor
      · intro active
        rcases activeUpdated active with ⟨_, same⟩ | ⟨_, active⟩
        · cases same
        · exact active
      · exact fun active => (activeElsewhere (old active)).trans active
    · intro token run k session _ _ _ active
      rcases activeUpdated active with ⟨_, same⟩ | ⟨_, active⟩
      · cases same
      · exact active
  refine keptLess ?_ (backsFrame (frames q) backs) (.inr rfl) (.inr rfl) fun other _ _ => frames other
  exact {
    runDrawn := (orderedFresh ordered).runDrawn
    sessionDrawn := fun found => by
      rcases activeUpdated found with ⟨rfl, _⟩ | ⟨_, found⟩
      · exact Nat.lt_succ_self _
      · exact Nat.lt_succ_of_lt (ordered.sessionDrawn found)
    tokenOnce := ordered.tokenOnce
    activeLeased := fun found => by
      rcases activeUpdated found with ⟨_, same⟩ | ⟨_, found⟩
      · cases same
      · exact ordered.activeLeased found }

section Writers
variable {binding : String} {token : LeaseToken} {session : SessionId}

theorem insertKeeps (unowned : v.writers.lookup binding = none) {binding' : String} {w w' : BindingWriter}
    (owner : v.writers.lookup binding' = some w) :
    (v.writers.insert binding w').lookup binding' = some w := by
  have other : binding' ≠ binding := by
    rintro rfl
    rw [unowned] at owner
    cases owner
  rw [AList.lookup_insert_ne other, owner]

theorem orderedWriters {writers} (ordered : v.Ordered)
    (kept : ∀ {session run k binding}, v.active session = some (some run) → v.runs run = some k →
      k.binding = some binding → v.writers.lookup binding = some ⟨k.token, session⟩ →
      writers.lookup binding = some ⟨k.token, session⟩) : (v.setWriters writers).Ordered where
  runDrawn := ordered.runDrawn
  sessionDrawn := ordered.sessionDrawn
  tokenOnce := ordered.tokenOnce
  activeLeased active := by
    obtain ⟨k, found, home, leased⟩ := ordered.activeLeased active
    exact ⟨k, found, home, fun binding same => kept active found same (leased binding same)⟩

theorem frameWriters {writers} (kept : ∀ {binding token session}, v.holder q = some token →
    v.writers.lookup binding = some ⟨token, session⟩ →
    writers.lookup binding = some ⟨token, session⟩) : LeaseFrame v (v.setWriters writers) q :=
  { (frameSame : LeaseFrame v v q) with writers := kept }

theorem keptClaimed (ordered : v.Ordered) (backs : v.Backs q)
    (may : q.may (.claimBinding binding token session))
    (unowned : v.writers.lookup binding = none) :
    LeaseKept v (v.setWriters (v.writers.insert binding ⟨token, session⟩)) q
      (q.after (.claimBinding binding token session) (.ok ())) none := by
  have frames : ∀ other, LeaseFrame v
      (v.setWriters (v.writers.insert binding ⟨token, session⟩)) other :=
    fun _ => frameWriters fun _ owner => insertKeeps unowned owner
  have ordered' : (v.setWriters (v.writers.insert binding ⟨token, session⟩)).Ordered :=
    orderedWriters ordered fun _ _ _ owner => insertKeeps unowned owner
  have claimed : (v.writers.insert binding ⟨token, session⟩).lookup binding =
      some ⟨token, session⟩ := AList.lookup_insert _
  have backs' := backsFrame (frames q) backs
  rcases may with rfl | ⟨run, rfl⟩
  · refine keptLess ordered' ⟨backs'.1, ?_⟩ (.inr rfl) (.inr rfl) fun other _ _ => frames other
    rintro _ _ ⟨⟩
    exact claimed
  · obtain ⟨k, found, home, active, ⟨unfinished, vacant, named⟩⟩ := backs'
    refine keptLess ordered' ⟨k, found, home, active, unfinished, vacant, named, ?_⟩ (.inr rfl)
      (.inr rfl) fun other _ _ => frames other
    rw [home, named]
    exact claimed

theorem releaseKeeps {binding' : String} {w : BindingWriter}
    (owner : v.writers.lookup binding' = some w) (other : w.token ≠ token) :
    (releaseBinding v.writers binding token).lookup binding' = some w := by
  unfold releaseBinding
  split
  · rename_i found held
    split
    · rename_i same
      have apart : binding' ≠ binding := by
        rintro rfl
        exact other ((congrArg BindingWriter.token (Option.some.inj (owner.symm.trans held))).trans same)
      rw [AList.lookup_erase_ne apart, owner]
    · exact owner
  · exact owner

theorem keptReleased {q'} (ordered : v.Ordered) (backs : v.Backs q) (holds : v.holder q = some token)
    (unrecorded : ∀ {session run k}, v.active session = some (some run) → v.runs run = some k →
      k.token = token → k.binding = none)
    (backs' : (v.setWriters (releaseBinding v.writers binding token)).Backs q')
    (token' : q'.token = none ∨ q'.token = q.token) (run' : q'.run = none ∨ q'.run = q.run) :
    LeaseKept v (v.setWriters (releaseBinding v.writers binding token)) q q' none := by
  refine keptLess (orderedWriters ordered ?_) backs' token' run' fun other others apart =>
    frameWriters fun holds' owner => releaseKeeps owner ?_
  · intro session run k binding active found recorded owner
    refine releaseKeeps owner fun same => ?_
    rw [unrecorded active found same] at recorded
    cases recorded
  · rintro rfl
    exact holderApart ordered backs others apart holds holds'

theorem keptGivenBack {answer} (ordered : v.Ordered) (backs : v.Backs q)
    (may : q.may (.releaseBinding binding token)) :
    LeaseKept v (v.setWriters (releaseBinding v.writers binding token)) q
      (q.after (.releaseBinding binding token) answer) none := by
  rcases may with ⟨session, rfl⟩ | ⟨session, run, rfl⟩
  · refine keptReleased ordered backs rfl ?_ trivial (.inl rfl) (.inl rfl)
    exact fun active found named => absurd active (backs.2.1 _ _ _ found named)
  · obtain ⟨k, found, home, active, vacant, named, owner⟩ := id backs
    refine keptReleased ordered backs (by simp [LeaseView.holder, found, named]) ?_
      ⟨k, found, home, active, vacant⟩ (.inr rfl) (.inr rfl)
    intro session' run' k' active' found' named'
    cases ordered.tokenOnce found found' (named.trans named'.symm)
    cases Option.some.inj (found.symm.trans found')
    exact vacant

end Writers

section Runs
variable {session : SessionId} {run : RunId} {token : LeaseToken} {binding : Option String}

theorem runUpdated {k k' : RunLease} {run'} (h : (v.setRun run k).runs run' = some k') :
    (run' = run ∧ k' = k) ∨ (run' ≠ run ∧ v.runs run' = some k') := by
  by_cases same : run' = run
  · subst same
    simp only [LeaseView.setRun, Function.update_self, Option.some.injEq] at h
    exact .inl ⟨rfl, h.symm⟩
  · simp only [LeaseView.setRun, Function.update_of_ne same] at h
    exact .inr ⟨same, h⟩

theorem runSet {k : RunLease} : (v.setRun run k).runs run = some k := by
  simp [LeaseView.setRun]

theorem runElsewhere {k : RunLease} {run'} (other : run' ≠ run) :
    (v.setRun run k).runs run' = v.runs run' := by
  simp [LeaseView.setRun, other]

theorem keptSpawned {capture spec processId} (ordered : v.Ordered) (backs : v.Backs q)
    (may : q.may (.spawnStructured session run token binding capture spec)) :
    LeaseKept v (v.setRun run ⟨session, token, binding, false⟩) q
      (q.after (.spawnStructured session run token binding capture spec) (.ok processId)) none := by
  cases (show q = .named token (binding.map fun value => (session, value)) run from may)
  obtain ⟨unused, owned, drawn, unknown⟩ := backs
  have inactive : ∀ session', v.active session' ≠ some (some run) := by
    intro session' active
    obtain ⟨k, found, _⟩ := ordered.activeLeased active
    rw [unknown] at found
    cases found
  have known : ∀ {run' k}, v.runs run' = some k → run' ≠ run := by
    rintro run' k found rfl
    rw [unknown] at found
    cases found
  refine keptLess ?_ ⟨runSet, inactive, owned⟩ (.inr rfl) (.inr rfl) fun other others apart => ?_
  · exact {
      runDrawn := fun found => by
        rcases runUpdated found with ⟨rfl, rfl⟩ | ⟨_, found⟩
        · exact ⟨drawn, unused.1⟩
        · exact ordered.runDrawn found
      sessionDrawn := ordered.sessionDrawn
      tokenOnce := fun found found' same => by
        rcases runUpdated found with ⟨rfl, rfl⟩ | ⟨_, old⟩ <;>
          rcases runUpdated found' with ⟨rfl, rfl⟩ | ⟨_, old'⟩
        · rfl
        · exact absurd same.symm (unused.2 _ _ old')
        · exact absurd same (unused.2 _ _ old)
        · exact ordered.tokenOnce old old' same
      activeLeased := fun active => by
        obtain ⟨k, found, rest⟩ := ordered.activeLeased active
        exact ⟨k, (runElsewhere (known found)).trans found, rest⟩ }
  · exact { (frameSame : LeaseFrame v v other) with
      own := fun same => runElsewhere fun here => apart.2 run rfl (here ▸ same)
      tokens := fun same found named => by
        rcases runUpdated found with ⟨_, rfl⟩ | ⟨_, found⟩
        · exact absurd (same.trans (congrArg some named.symm)) (apart.1 token rfl)
        · exact ⟨_, found, named⟩
      dropped := fun _ _ _ active => active }

theorem keptRecord {k k' : RunLease} {phase phase'} (ordered : v.Ordered)
    (backs : v.Backs (.held session run phase)) (found : v.runs run = some k)
    (home : k'.session = k.session) (named : k'.token = k.token)
    (leased : ∀ value, k'.binding = some value →
      v.writers.lookup value = some ⟨k.token, session⟩)
    (backs' : v.BacksPhase k' phase') :
    LeaseKept v (v.setRun run k') (.held session run phase) (.held session run phase') none := by
  obtain ⟨k₀, found₀, home₀, active, -⟩ := backs
  cases Option.some.inj (found.symm.trans found₀)
  refine keptLess ?_ ⟨k', runSet, home.trans home₀, active, ?_⟩ (.inr rfl) (.inr rfl)
    fun other others apart => ?_
  · exact {
      runDrawn := fun found' => by
        rcases runUpdated found' with ⟨rfl, rfl⟩ | ⟨_, found'⟩
        · exact ⟨(ordered.runDrawn found).1, named ▸ (ordered.runDrawn found).2⟩
        · exact ordered.runDrawn found'
      sessionDrawn := ordered.sessionDrawn
      tokenOnce := fun found₁ found₂ same => by
        rcases runUpdated found₁ with ⟨rfl, rfl⟩ | ⟨_, old₁⟩ <;>
          rcases runUpdated found₂ with ⟨rfl, rfl⟩ | ⟨_, old₂⟩
        · rfl
        · exact ordered.tokenOnce found old₂ (named.symm.trans same)
        · exact ordered.tokenOnce old₁ found (same.trans named)
        · exact ordered.tokenOnce old₁ old₂ same
      activeLeased := fun active' => by
        rename_i session' run'
        obtain ⟨k₁, found₁, home₁, leased₁⟩ := ordered.activeLeased active'
        by_cases here : run' = run
        · subst here
          cases Option.some.inj (found.symm.trans found₁)
          refine ⟨k', runSet, home.trans home₁, fun value same => ?_⟩
          rw [named, ← home₁, home₀]
          exact leased value same
        · exact ⟨k₁, (runElsewhere here).trans found₁, home₁, leased₁⟩ }
  · cases phase' <;> exact backs'
  · refine { (frameSame : LeaseFrame v v other) with
      own := fun same => runElsewhere fun here => apart.2 run rfl (here ▸ same)
      tokens := fun same found' named' => ?_
      dropped := fun _ _ _ active => active }
    rcases runUpdated found' with ⟨rfl, rfl⟩ | ⟨_, found'⟩
    · exact ⟨k, found, named.symm.trans named'⟩
    · exact ⟨_, found', named'⟩

theorem keptInstalled (ordered : v.Ordered) (backs : v.Backs q)
    (may : q.may (.session session (.install run))) (idle : v.active session = some none) :
    LeaseKept v (v.setActive session (some run)) q
      (q.after (.session session (.install run)) true) none := by
  obtain ⟨token, binding, rfl⟩ := may
  obtain ⟨found, inactive, owned⟩ := backs
  have here : (v.setActive session (some run)).active session = some (some run) := by
    simp [LeaseView.setActive]
  have kept : ∀ {session' run'}, v.active session' = some (some run') → session' ≠ session := by
    rintro session' run' active rfl
    rw [idle] at active
    cases active
  refine keptLess ?_ ⟨found, here⟩ (.inr rfl) (.inr rfl) fun other others apart => ?_
  · exact {
      runDrawn := ordered.runDrawn
      sessionDrawn := fun active => by
        rcases activeUpdated active with ⟨rfl, _⟩ | ⟨_, active⟩
        · exact ordered.sessionDrawn idle
        · exact ordered.sessionDrawn active
      tokenOnce := ordered.tokenOnce
      activeLeased := fun active => by
        rcases activeUpdated active with ⟨rfl, same⟩ | ⟨_, active⟩
        · cases Option.some.inj same
          refine ⟨_, found, rfl, fun value same => owned _ _ ?_⟩
          rw [show binding = some value from same]
          rfl
        · exact ordered.activeLeased active }
  · refine { (frameSame : LeaseFrame v v other) with running := ?_, dropped := ?_ }
    · intro run' session' same
      constructor
      · intro active
        rcases activeUpdated active with ⟨_, here⟩ | ⟨_, active⟩
        · cases Option.some.inj here
          exact absurd same (apart.2 _ rfl)
        · exact active
      · exact fun active => (activeElsewhere (kept active)).trans active
    · intro t run' k session' same found' named active
      rcases activeUpdated active with ⟨_, here⟩ | ⟨_, active⟩
      · cases Option.some.inj here
        cases Option.some.inj (found.symm.trans found')
        exact absurd (same.trans (congrArg some named.symm)) (apart.1 token rfl)
      · exact active

theorem keptFinalized {completion before answer} (ordered : v.Ordered) (backs : v.Backs q)
    (may : q.may (.session session (.finalize run completion)))
    (found : v.active session = some before) :
    LeaseKept v (v.setActive session (if before = some run then none else before)) q
      (q.after (.session session (.finalize run completion)) answer) none := by
  cases (show q = .held session run .closed from may)
  obtain ⟨k, known, home, active, vacant⟩ := backs
  cases Option.some.inj (found.symm.trans active)
  rw [if_pos rfl]
  have ended : ∀ {session' run'}, (v.setActive session none).active session' = some (some run') →
      v.active session' = some (some run') := by
    intro session' run' active
    rcases activeUpdated active with ⟨_, same⟩ | ⟨_, active⟩
    · cases same
    · exact active
  refine keptLess ?_ trivial (.inl rfl) (.inl rfl) fun other others apart => ?_
  · exact {
      runDrawn := ordered.runDrawn
      sessionDrawn := fun active' => by
        rcases activeUpdated active' with ⟨rfl, _⟩ | ⟨_, active'⟩
        · exact ordered.sessionDrawn active
        · exact ordered.sessionDrawn active'
      tokenOnce := ordered.tokenOnce
      activeLeased := fun active => ordered.activeLeased (ended active) }
  · refine { (frameSame : LeaseFrame v v other) with
      running := fun {run' session'} same => ⟨ended, fun active' => ?_⟩
      dropped := fun _ _ _ active => ended active }
    by_cases here : session' = session
    · subst here
      cases Option.some.inj (Option.some.inj (active.symm.trans active'))
      exact absurd same (apart.2 run rfl)
    · exact (activeElsewhere here).trans active'

end Runs

theorem keptEndLaunch {session answer} (ordered : v.Ordered) (backs : v.Backs q) :
    LeaseKept v v q (q.after (.session session .endLaunch) answer) none := by
  have dropped : ∀ {token lease}, token < v.fresh → (∀ run k other, v.runs run = some k →
      k.token = token → v.active other ≠ some (some run)) → v.Owned token lease →
      q.token = some token →
      LeaseKept v v q (LeasePlace.drop token lease) none := by
    intro token lease drawn inactive owned same
    cases lease with
    | none => exact keptView ordered trivial (.inl rfl) (.inl rfl)
    | some lease =>
      exact keptView ordered ⟨drawn, inactive, owned _ _ rfl⟩ (.inr same.symm) (.inl rfl)
  cases q with
  | guard token lease =>
    exact dropped backs.1.1 (fun run k _ found named => absurd named (backs.1.2 run k found))
      backs.2 rfl
  | named token lease run =>
    exact dropped backs.1.1 (fun run k _ found named => absurd named (backs.1.2 run k found))
      backs.2.1 rfl
  | spawned session token binding run =>
    refine dropped (ordered.runDrawn backs.1).2 (fun run' k other found named active => ?_)
      backs.2.2 rfl
    cases ordered.tokenOnce backs.1 found named.symm
    exact backs.2.1 other active
  | installed session token binding run =>
    exact keptView ordered ⟨_, backs.1, rfl, backs.2, rfl⟩ (.inl rfl) (.inr rfl)
  | free | dropping | held => exact keptView ordered backs (.inr rfl) (.inr rfl)

theorem dealsKept {o answer} (ordered : v.Ordered) (backs : v.Backs q) (may : q.may o)
    (deals : Deals v o answer v') : LeaseKept v v' q (q.after o answer) o.spawned := by
  cases deals with
  | quiet quiet old =>
    by_cases spawns : ∃ entry, o = .spawn entry
    · obtain ⟨entry, rfl⟩ := spawns
      exact keptSpawn ordered backs may
    · rw [(leaseFreeQuiet quiet).2 answer]
      have none : o.spawned = none := by
        cases o <;> first | rfl | exact absurd ⟨_, rfl⟩ spawns
      rw [none]
      exact keptView ordered backs (.inr rfl) (.inr rfl)
  | endLaunch => exact keptEndLaunch ordered backs
  | spawn => exact keptSpawn ordered backs may
  | fresh => exact keptFresh ordered backs may
  | createRefused => exact keptView ordered backs (.inr rfl) (.inr rfl)
  | created => exact keptCreated ordered backs
  | claimRefused =>
    rcases may with rfl | ⟨run, rfl⟩
    · exact keptView ordered backs (.inr rfl) (.inr rfl)
    · obtain ⟨k, found, home, active, unfinished, _⟩ := backs
      exact keptView ordered ⟨k, found, home, active, unfinished⟩ (.inr rfl) (.inr rfl)
  | claimed unowned => exact keptClaimed ordered backs may unowned
  | released => exact keptGivenBack ordered backs may
  | spawnFailed => exact keptView ordered backs (.inr rfl) (.inr rfl)
  | spawned => exact keptSpawned ordered backs may
  | installRefused => exact keptView ordered backs (.inr rfl) (.inr rfl)
  | installed idle => exact keptInstalled ordered backs may idle
  | finalized found => exact keptFinalized ordered backs may found
  | @read run k found =>
    obtain ⟨session, rfl⟩ := may
    obtain ⟨k', known, home, active, unfinished⟩ := id backs
    cases Option.some.inj (found.symm.trans known)
    obtain ⟨home', token, binding, finalized⟩ := k
    cases binding with
    | none =>
      exact keptView ordered ⟨_, known, home, active, unfinished, rfl⟩ (.inr rfl) (.inr rfl)
    | some value => exact keptView ordered backs (.inr rfl) (.inr rfl)
  | @named run k found =>
    obtain ⟨session, rfl | ⟨binding, rfl⟩⟩ := may
    · obtain ⟨k', known, home, active, unfinished, vacant⟩ := backs
      cases Option.some.inj (found.symm.trans known)
      exact keptView ordered ⟨k, known, home, active, unfinished, vacant, rfl⟩ (.inr rfl) (.inr rfl)
    · obtain ⟨k', known, home, active, vacant, owner⟩ := backs
      cases Option.some.inj (found.symm.trans known)
      exact keptView ordered ⟨k, known, home, active, vacant, rfl, owner⟩ (.inr rfl) (.inr rfl)
  | @recorded run k binding answer found =>
    obtain ⟨session, token, rfl⟩ := may
    obtain ⟨k', known, home, active, unfinished, vacant, named, owner⟩ := id backs
    cases Option.some.inj (found.symm.trans known)
    refine keptRecord ordered backs found rfl rfl ?_ unfinished
    rintro _ ⟨⟩
    rw [← home]
    exact owner
  | @taken run k found =>
    obtain ⟨session, rfl⟩ := may
    obtain ⟨k', known, home, active, -⟩ := id backs
    cases Option.some.inj (found.symm.trans known)
    have recorded : ∀ value, k.binding = some value →
        v.writers.lookup value = some ⟨k.token, session⟩ := by
      intro value same
      obtain ⟨k', known', -, leased⟩ := ordered.activeLeased active
      cases Option.some.inj (known.symm.trans known')
      exact leased value same
    obtain ⟨home', token, binding, finalized⟩ := k
    cases binding with
    | none => exact keptRecord ordered backs found rfl rfl (fun _ same => by cases same) rfl
    | some value =>
      refine keptRecord ordered backs found rfl rfl (fun _ same => by cases same) ⟨rfl, ?_⟩
      rw [show home' = session from home]
      exact recorded value rfl
  | @swapped run k found =>
    obtain ⟨session, rfl⟩ := may
    obtain ⟨k', known, home, active, unfinished⟩ := id backs
    cases Option.some.inj (found.symm.trans known)
    have recorded : ∀ value, k.binding = some value →
        v.writers.lookup value = some ⟨k.token, session⟩ := by
      intro value same
      obtain ⟨k', known', -, leased⟩ := ordered.activeLeased active
      cases Option.some.inj (known.symm.trans known')
      exact leased value same
    rw [show k.finalized = false from unfinished]
    exact keptRecord ordered backs found rfl rfl recorded trivial

end Places

/-! Where the entries of the table come from. -/

namespace LeaseView

def Claims (v : LeaseView) (q : LeasePlace) (binding : String) (w : BindingWriter) : Prop :=
  (q.token = some w.token ∧ q.reserved = some (w.session, binding)) ∨
  ∃ run k, v.runs run = some k ∧ k.token = w.token ∧ v.active w.session = some (some run) ∧
    q.moving = some (run, binding)

def Records (v : LeaseView) (binding : String) (w : BindingWriter) : Prop :=
  ∃ run k, v.runs run = some k ∧ k.token = w.token ∧ v.active w.session = some (some run) ∧
    k.binding = some binding

def Traced (v : LeaseView) (places : LeasePlace → Prop) : Prop :=
  ∀ binding w, v.writers.lookup binding = some w →
    (∃ q, places q ∧ v.Claims q binding w) ∨ v.Records binding w

end LeaseView

structure Traces (v v' : LeaseView) (q q' : LeasePlace) : Prop where
  old : ∀ {binding w}, v'.writers.lookup binding = some w →
    v.writers.lookup binding = some w ∨ v'.Claims q' binding w
  own : ∀ {binding w}, v'.writers.lookup binding = some w → v.Claims q binding w →
    v'.Claims q' binding w ∨ v'.Records binding w
  others : ∀ {binding w other}, q.Apart other → v.Claims other binding w →
    v'.Claims other binding w
  recorded : ∀ {binding w}, v.Records binding w → v'.Claims q' binding w ∨ v'.Records binding w

section Tracing
variable {v v' : LeaseView} {q q' : LeasePlace}

theorem tracedStep {places places' : LeasePlace → Prop} (traced : v.Traced places)
    (kept : ∀ {other}, places other → other = q ∨ (places' other ∧ q.Apart other))
    (here : places' q') (traces : Traces v v' q q') : v'.Traced places' := by
  intro binding w listed
  have settled : v'.Claims q' binding w ∨ v'.Records binding w →
      (∃ q, places' q ∧ v'.Claims q binding w) ∨ v'.Records binding w := by
    rintro (claims | records)
    · exact .inl ⟨q', here, claims⟩
    · exact .inr records
  rcases traces.old listed with before | claims
  · rcases traced _ _ before with ⟨other, present, claims⟩ | records
    · rcases kept present with rfl | ⟨still, apart⟩
      · exact settled (traces.own listed claims)
      · exact .inl ⟨other, still, traces.others apart claims⟩
    · exact settled (traces.recorded records)
  · exact .inl ⟨q', here, claims⟩

theorem claimsKept {binding w} (runs : ∀ {run k}, v.runs run = some k → v'.runs run = some k)
    (active : ∀ {session run}, v.active session = some (some run) →
      v'.active session = some (some run)) (claims : v.Claims q binding w) :
    v'.Claims q binding w := by
  rcases claims with held | ⟨run, k, found, named, alive, moving⟩
  · exact .inl held
  · exact .inr ⟨run, k, runs found, named, active alive, moving⟩

theorem recordsStay {binding w} (runs : ∀ {run k}, v.runs run = some k → v'.runs run = some k)
    (active : ∀ {session run}, v.active session = some (some run) →
      v'.active session = some (some run)) (records : v.Records binding w) :
    v'.Records binding w := by
  obtain ⟨run, k, found, named, alive, recorded⟩ := records
  exact ⟨run, k, runs found, named, active alive, recorded⟩

theorem tracesKept (writers : v'.writers = v.writers)
    (runs : ∀ {run k}, v.runs run = some k → v'.runs run = some k)
    (active : ∀ {session run}, v.active session = some (some run) →
      v'.active session = some (some run))
    (reserved : ∀ {token lease}, q.token = some token → q.reserved = some lease →
      q'.token = some token ∧ q'.reserved = some lease)
    (moving : ∀ {lease}, q.moving = some lease → q'.moving = some lease) : Traces v v' q q' where
  old listed := .inl (writers ▸ listed)
  own _ claims := by
    rcases claims with ⟨token, held⟩ | ⟨run, k, found, named, alive, held⟩
    · exact .inl (.inl (reserved token held))
    · exact .inl (.inr ⟨run, k, runs found, named, active alive, moving held⟩)
  others _ claims := claimsKept runs active claims
  recorded records := .inr (recordsStay runs active records)

theorem tracesView (reserved : ∀ {token lease}, q.token = some token → q.reserved = some lease →
      q'.token = some token ∧ q'.reserved = some lease)
    (moving : ∀ {lease}, q.moving = some lease → q'.moving = some lease) : Traces v v q q' :=
  tracesKept rfl (fun h => h) (fun h => h) reserved moving

theorem tracesSame : Traces v v q q := tracesView (fun token held => ⟨token, held⟩) (fun h => h)

theorem dropTraces {token lease} (same : q.token = some token) (held : q.reserved = lease)
    (still : q.moving = none) : Traces v v q (LeasePlace.drop token lease) := by
  refine tracesView (fun {t l} token' held' => ?_) fun moving => ?_
  · cases Option.some.inj (same.symm.trans token')
    rw [held] at held'
    subst held'
    exact ⟨rfl, rfl⟩
  · rw [still] at moving
    cases moving

theorem endLaunchTraces {session answer} (backs : v.Backs q) :
    Traces v v q (q.after (.session session .endLaunch) answer) := by
  cases q with
  | guard token lease => exact dropTraces rfl rfl rfl
  | named token lease run => exact dropTraces rfl rfl rfl
  | spawned session token binding run => exact dropTraces rfl rfl rfl
  | installed session token binding run =>
    obtain ⟨found, active⟩ := backs
    refine { (tracesSame : Traces v v _ _) with own := ?_, old := .inl, recorded := .inr }
    rintro value ⟨token', session'⟩ listed (⟨same, held⟩ | ⟨_, _, _, _, _, moving⟩)
    · cases Option.some.inj same
      obtain ⟨_, asked, same⟩ := Option.map_eq_some_iff.mp held
      cases same
      exact .inr ⟨run, _, found, rfl, active, asked⟩
    · cases moving
  | free | dropping | held => exact tracesSame

theorem claimTraces {binding token session} (backs : v.Backs q)
    (may : q.may (.claimBinding binding token session)) :
    Traces v (v.setWriters (v.writers.insert binding ⟨token, session⟩)) q
      (q.after (.claimBinding binding token session) (.ok ())) := by
  have claims : LeaseView.Claims (v.setWriters (v.writers.insert binding ⟨token, session⟩))
      (q.after (.claimBinding binding token session) (.ok ())) binding ⟨token, session⟩ := by
    rcases may with rfl | ⟨run, rfl⟩
    · exact .inl ⟨rfl, rfl⟩
    · obtain ⟨k, found, home, active, -, -, named⟩ := backs
      exact .inr ⟨run, k, found, named, active, rfl⟩
  refine ⟨fun {value w} listed => ?_, fun {value w} _ held => ?_, fun _ claims => claims, .inr⟩
  · by_cases same : value = binding
    · subst same
      have owner : (v.writers.insert value ⟨token, session⟩).lookup value = some w := listed
      rw [AList.lookup_insert] at owner
      cases Option.some.inj owner
      exact .inr claims
    · refine .inl ?_
      rw [← AList.lookup_insert_ne same]
      exact listed
  · rcases may with rfl | ⟨run, rfl⟩
    · rcases held with ⟨_, held⟩ | ⟨_, _, _, _, _, moving⟩
      · cases held
      · cases moving
    · rcases held with ⟨same, _⟩ | ⟨_, _, _, _, _, moving⟩
      · cases same
      · cases moving

theorem releaseListed {binding binding' : String} {token : LeaseToken} {w : BindingWriter}
    {writers : AList (fun _ : String => BindingWriter)}
    (listed : (releaseBinding writers binding token).lookup binding' = some w) :
    writers.lookup binding' = some w ∧ ∀ owner, writers.lookup binding = some owner →
      owner.token = token → binding' ≠ binding := by
  unfold releaseBinding at listed
  split at listed
  · rename_i owner found
    split at listed
    · rename_i same
      have apart : binding' ≠ binding := by
        rintro rfl
        rw [AList.lookup_erase] at listed
        cases listed
      rw [AList.lookup_erase_ne apart] at listed
      exact ⟨listed, fun _ _ _ => apart⟩
    · rename_i different
      refine ⟨listed, fun owner' found' same => ?_⟩
      cases Option.some.inj (found.symm.trans found')
      exact absurd same different
  · rename_i absent
    refine ⟨listed, fun owner found _ => ?_⟩
    rw [absent] at found
    cases found

theorem releaseTraces {binding token answer} (backs : v.Backs q)
    (may : q.may (.releaseBinding binding token)) :
    Traces v (v.setWriters (releaseBinding v.writers binding token)) q
      (q.after (.releaseBinding binding token) answer) := by
  refine ⟨fun listed => .inl (releaseListed listed).1, fun {value w} listed held => ?_,
    fun _ claims => claims, .inr⟩
  have given := (releaseListed listed).2
  rcases may with ⟨session, rfl⟩ | ⟨session, run, rfl⟩
  · rcases held with ⟨_, held⟩ | ⟨_, _, _, _, _, moving⟩
    · cases held
      exact absurd rfl (given _ backs.2.2 rfl)
    · cases moving
  · rcases held with ⟨same, _⟩ | ⟨_, _, _, _, _, moving⟩
    · cases same
    · cases moving
      obtain ⟨k, _, _, _, _, named, owner⟩ := backs
      exact absurd rfl (given _ owner named)

theorem movingRun {run binding} (moving : q.moving = some (run, binding)) : q.run = some run := by
  cases q with
  | held session run' phase => cases phase <;> cases moving <;> rfl
  | _ => cases moving

theorem recordTraces {session run phase phase' k k'} (backs : v.Backs (.held session run phase)) (found : v.runs run = some k)
    (named : k'.token = k.token)
    (moves : ∀ binding, (LeasePlace.held session run phase).moving = some (run, binding) →
      (LeasePlace.held session run phase').moving = some (run, binding) ∨ k'.binding = some binding)
    (records : ∀ binding, k.binding = some binding →
      (LeasePlace.held session run phase').moving = some (run, binding) ∨ k'.binding = some binding) :
    Traces v (v.setRun run k') (.held session run phase) (.held session run phase') := by
  obtain ⟨k₀, found₀, home, active, -⟩ := backs
  cases Option.some.inj (found.symm.trans found₀)
  have settled : ∀ {binding w}, k.token = w.token → v.active w.session = some (some run) →
      (LeasePlace.held session run phase').moving = some (run, binding) ∨ k'.binding = some binding →
      LeaseView.Claims (v.setRun run k') (.held session run phase') binding w ∨
        LeaseView.Records (v.setRun run k') binding w := by
    rintro binding w same alive (moving | recorded)
    · exact .inl (.inr ⟨run, k', runSet, named.trans same, alive, moving⟩)
    · exact .inr ⟨run, k', runSet, named.trans same, alive, recorded⟩
  refine ⟨.inl, fun {value w} _ held => ?_, fun {value w other} apart held => ?_,
    fun {value w} held => ?_⟩
  · rcases held with ⟨same, _⟩ | ⟨run', k₁, found₁, same, alive, moving⟩
    · cases same
    · cases Option.some.inj (movingRun moving)
      cases Option.some.inj (found.symm.trans found₁)
      exact settled same alive (moves value moving)
  · rcases held with held | ⟨run', k₁, found₁, same, alive, moving⟩
    · exact .inl held
    · have elsewhere : run' ≠ run := by
        rintro rfl
        exact apart.2 run' rfl (movingRun moving)
      exact .inr ⟨run', k₁, (runElsewhere elsewhere).trans found₁, same, alive, moving⟩
  · obtain ⟨run', k₁, found₁, same, alive, recorded⟩ := held
    by_cases here : run' = run
    · subst here
      cases Option.some.inj (found.symm.trans found₁)
      exact settled same alive (records value recorded)
    · exact .inr ⟨run', k₁, (runElsewhere here).trans found₁, same, alive, recorded⟩

theorem finalizeTraces {session run completion before answer} (backs : v.Backs q)
    (may : q.may (.session session (.finalize run completion)))
    (found : v.active session = some before) :
    Traces v (v.setActive session (if before = some run then none else before)) q
      (q.after (.session session (.finalize run completion)) answer) := by
  cases (show q = .held session run .closed from may)
  obtain ⟨k, known, home, active, vacant⟩ := backs
  cases Option.some.inj (found.symm.trans active)
  rw [if_pos rfl]
  have alive : ∀ {session' run'}, v.active session' = some (some run') → run' ≠ run →
      (v.setActive session none).active session' = some (some run') := by
    intro session' run' active' other
    refine (activeElsewhere ?_).trans active'
    rintro rfl
    exact other (Option.some.inj (Option.some.inj (active'.symm.trans active)))
  refine ⟨.inl, fun _ held => ?_, fun {value w other} apart held => ?_, fun {value w} held => ?_⟩
  · rcases held with ⟨same, _⟩ | ⟨_, _, _, _, _, moving⟩
    · cases same
    · cases moving
  · rcases held with held | ⟨run', k₁, found₁, same, active', moving⟩
    · exact .inl held
    · refine .inr ⟨run', k₁, found₁, same, alive active' ?_, moving⟩
      rintro rfl
      exact apart.2 run' rfl (movingRun moving)
  · obtain ⟨run', k₁, found₁, same, active', recorded⟩ := held
    refine .inr ⟨run', k₁, found₁, same, alive active' ?_, recorded⟩
    rintro rfl
    cases Option.some.inj (known.symm.trans found₁)
    rw [show k.binding = none from vacant] at recorded
    cases recorded

theorem dealsTraces {o answer} (ordered : v.Ordered) (backs : v.Backs q) (may : q.may o)
    (deals : Deals v o answer v') : Traces v v' q (q.after o answer) := by
  cases deals with
  | quiet quiet old =>
    rw [(leaseFreeQuiet quiet).2 answer]
    exact tracesSame
  | endLaunch => exact endLaunchTraces backs
  | @spawn entry =>
    cases entry with
    | supervise session run =>
      cases (show q = .held session run .idle from may)
      exact tracesView (fun same => by cases same) (fun moving => by cases moving)
    | _ => exact tracesSame
  | fresh =>
    rcases may with rfl | ⟨token, lease, rfl⟩
    · exact tracesKept rfl (fun h => h) (fun h => h) (fun same => by cases same)
        (fun moving => by cases moving)
    · exact tracesKept rfl (fun h => h) (fun h => h) (fun same held => ⟨same, held⟩)
        (fun moving => by cases moving)
  | createRefused => exact tracesSame
  | created =>
    refine tracesKept rfl (fun h => h) (fun active => (activeElsewhere ?_).trans active)
      (fun same held => ⟨same, held⟩) (fun h => h)
    rintro rfl
    exact Nat.lt_irrefl _ (ordered.sessionDrawn active)
  | claimRefused =>
    rcases may with rfl | ⟨run, rfl⟩
    · exact tracesSame
    · exact tracesView (fun same => by cases same) (fun moving => by cases moving)
  | claimed unowned => exact claimTraces backs may
  | released => exact releaseTraces backs may
  | spawnFailed => exact tracesSame
  | @spawned session run token binding capture spec processId =>
    cases (show q = .named token (binding.map fun value => (session, value)) run from may)
    refine tracesKept rfl (fun found => (runElsewhere ?_).trans found) (fun h => h)
      (fun same held => ⟨same, held⟩) (fun h => h)
    rintro rfl
    rw [backs.2.2.2] at found
    cases found
  | installRefused => exact tracesSame
  | @installed session run idle =>
    obtain ⟨token, binding, rfl⟩ := may
    refine tracesKept rfl (fun h => h) (fun active => (activeElsewhere ?_).trans active)
      (fun same held => ⟨same, held⟩) (fun h => h)
    rintro rfl
    rw [idle] at active
    cases active
  | finalized found => exact finalizeTraces backs may found
  | @read run k found =>
    obtain ⟨session, rfl⟩ := may
    obtain ⟨home, token, binding, finalized⟩ := k
    cases binding with
    | none => exact tracesView (fun same => by cases same) (fun moving => by cases moving)
    | some value => exact tracesSame
  | @named run k found =>
    obtain ⟨session, rfl | ⟨binding, rfl⟩⟩ := may
    · exact tracesView (fun same => by cases same) (fun moving => by cases moving)
    · exact tracesView (fun same => by cases same) (fun moving => moving)
  | @recorded run k binding answer found =>
    obtain ⟨session, token, rfl⟩ := may
    obtain ⟨k', known, -, -, -, vacant, -, -⟩ := id backs
    cases Option.some.inj (found.symm.trans known)
    refine recordTraces backs found rfl ?_ ?_
    · rintro value ⟨⟩
      exact .inr rfl
    · intro value recorded
      rw [vacant] at recorded
      cases recorded
  | @taken run k found =>
    obtain ⟨session, rfl⟩ := may
    obtain ⟨home, token, binding, finalized⟩ := k
    cases binding with
    | none =>
      exact recordTraces backs found rfl (fun _ moving => by cases moving)
        (fun _ recorded => by cases recorded)
    | some value =>
      refine recordTraces backs found rfl (fun _ moving => by cases moving) ?_
      rintro _ ⟨⟩
      exact .inl rfl
  | @swapped run k found =>
    obtain ⟨session, rfl⟩ := may
    obtain ⟨k', known, -, -, unfinished⟩ := id backs
    cases Option.some.inj (found.symm.trans known)
    rw [show k.finalized = false from unfinished]
    exact recordTraces backs found rfl (fun _ moving => by cases moving)
      (fun _ recorded => .inr recorded)

end Tracing

section Outlines
variable {sup : Supervisor}

def leasing (sup : Supervisor) : Outline (leases sup) where
  Inv m := m.leaseView.Ordered
  Here q m := m.leaseView.Backs q
  Apart := LeasePlace.Apart

theorem leasingValid : (leasing sup).Valid (fun _ _ _ => True) where
  symm := leaseApartSymm
  call {e m} callable ordered := by
    have free : LeasePlace.ofEntry e = .free := by
      cases e <;> first | rfl | cases callable
    change m.leaseView.Backs (LeasePlace.ofEntry e) ∧
      ∀ other, m.leaseView.Backs other → (LeasePlace.ofEntry e).Apart other
    rw [free]
    exact ⟨trivial, fun _ _ => leaseApartNone rfl rfl⟩
  act {q o choice m answer m'} ordered backs may _ effect := by
    have kept := dealsKept ordered backs may (applyDeals effect)
    exact ⟨kept.ordered, kept.backs, kept.entered, kept.others⟩
  outside {x m m'} ordered effect := by
    have same := outsideView effect
    refine ⟨?_, fun q backs => ?_⟩
    · change m'.leaseView.Ordered
      rw [same]
      exact ordered
    · change m'.leaseView.Backs q
      rw [same]
      exact backs

theorem initiallyLeasing : (leasing sup).Holds (initially sup) :=
  Outline.holdsEmpty ⟨by simp [Memory.leaseView, Memory.initial],
    by simp [Memory.leaseView, Memory.initial], by simp [Memory.leaseView, Memory.initial],
    by simp [Memory.leaseView, Memory.initial]⟩

theorem reachLeasing {Good : Config (machine sup) → Event (machine sup) → Prop} {c}
    (h : Reach Good (initially sup) c) : (leasing sup).Holds c :=
  Outline.reachHolds leasesSound leasingValid initiallyLeasing (fun _ _ _ _ => trivial) h

def Occupied (c : Config (machine sup)) (q : LeasePlace) : Prop :=
  ∃ t ∈ c.tasks, (leases sup).place t = q

theorem movesTraced {c : Config (machine sup)} {e c'} (holds : (leasing sup).Holds c)
    (traced : c.memory.leaseView.Traced (Occupied c)) (moves : Moves c e c') :
    c'.memory.leaseView.Traced (Occupied c') := by
  cases moves with
  | call callable =>
    intro binding w listed
    rcases traced _ _ listed with ⟨q, ⟨t, member, placed⟩, claims⟩ | records
    · exact .inl ⟨q, ⟨t, List.mem_append_left _ member, placed⟩, claims⟩
    · exact .inr records
  | @act index choice t o answer memory next performs =>
    have obeys := performsObeys leasesSound holds.placed performs
    have traces := dealsTraces holds.inv (holds.here performs.present) obeys.allowed
      (applyDeals performs.effect)
    have moved : Occupied ⟨memory, c.tasks.set index (t.advance o answer next) ++ spawned o⟩
        ((leases sup).after ((leases sup).place t) o answer) :=
      ⟨_, List.mem_of_getElem? (movedTask performs.present), obeys.reached⟩
    refine tracedStep traced ?_ moved traces
    rintro other ⟨u, member, placed⟩
    obtain ⟨j, found⟩ := List.getElem?_of_mem member
    by_cases same : j = index
    · subst same
      cases Option.some.inj (found.symm.trans performs.present)
      exact .inl placed.symm
    · have apart : ((leases sup).place t).Apart ((leases sup).place u) :=
        holds.apart (Ne.symm same) performs.present found
      rw [placed] at apart
      exact .inr ⟨⟨u, List.mem_of_getElem? (otherTask same found), placed⟩, apart⟩
  | outside effect =>
    rw [outsideView effect]
    exact traced

theorem reachTraced {c : Config (machine sup)} (h : Reach Always (initially sup) c) :
    c.memory.leaseView.Traced (Occupied c) := by
  induction h with
  | start =>
    intro binding w listed
    cases listed
  | step before _ moves ih => exact movesTraced (reachLeasing before) ih moves

/-! The claims of the tasks and of the runs. -/

/-- The guard of a launch has the binding for `w` and has not given it back. -/
def LaunchOwns (c : Config (machine sup)) (index : Nat) (binding : String) (w : BindingWriter) :
    Prop :=
  ∃ t, c.tasks[index]? = some t ∧ ¬ t.Ended ∧ ((leases sup).place t).token = some w.token ∧
    ((leases sup).place t).reserved = some (w.session, binding)

/-- The run is active in the session of `w` and has the binding under its token: it records
it, or its supervisor is about to record it or to give it back. -/
def RunOwns (c : Config (machine sup)) (run : RunId) (binding : String) (w : BindingWriter) : Prop :=
  ∃ record control, c.memory.sessions w.session = some record ∧ record.data.activeRun = some run ∧
    c.memory.runs run = some control ∧ control.leaseToken = w.token ∧
    (control.leasedBinding = some binding ∨
      ∃ t ∈ c.tasks, ¬ t.Ended ∧ ((leases sup).place t).moving = some (run, binding))

theorem endedFree {c : Config (machine sup)} (holds : (leasing sup).Holds c) {t}
    (member : t ∈ c.tasks) (ended : t.Ended) :
    ((leases sup).place t).token = none ∧ ((leases sup).place t).moving = none := by
  have ends : ((leases sup).place t).ends := by
    obtain ⟨last, ended⟩ := ended
    have placed := holds.placed t member
    cases last with
    | none => exact placedEnds placed ended
    | some e =>
      unfold Placed at placed
      rw [ended] at placed
      rw [show (leases sup).place t = LeasePlace.ofEntry e from placed]
      cases e <;> exact trivial
  revert ends
  cases (leases sup).place t with
  | held session run phase => cases phase <;> first | exact fun _ => ⟨rfl, rfl⟩ | exact False.elim
  | free => exact fun _ => ⟨rfl, rfl⟩
  | _ => exact False.elim

theorem viewRuns {m : Memory} {run k} (found : m.leaseView.runs run = some k) :
    ∃ control, m.runs run = some control ∧ control.lease = k :=
  Option.map_eq_some_iff.mp found

theorem viewActive {m : Memory} {session run} (found : m.leaseView.active session = some run) :
    ∃ record, m.sessions session = some record ∧ record.data.activeRun = run :=
  Option.map_eq_some_iff.mp found

theorem writerOwned {c : Config (machine sup)} (h : Reach Always (initially sup) c) {binding w}
    (listed : c.memory.bindingWriters.lookup binding = some w) :
    (∃ index, LaunchOwns c index binding w) ∨ ∃ run, RunOwns c run binding w := by
  have holds := reachLeasing h
  rcases reachTraced h _ _ listed with ⟨q, ⟨t, member, rfl⟩, claims⟩ | records
  · have living : ((leases sup).place t).token ≠ none ∨ ((leases sup).place t).moving ≠ none →
        ¬ t.Ended := by
      intro busy ended
      have free := endedFree holds member ended
      exact busy.elim (fun h => h free.1) (fun h => h free.2)
    rcases claims with ⟨token, reserved⟩ | ⟨run, k, found, named, active, moving⟩
    · obtain ⟨index, present⟩ := List.getElem?_of_mem member
      exact .inl ⟨index, t, present, living (.inl (by simp [token])), token, reserved⟩
    · obtain ⟨record, known, alive⟩ := viewActive active
      obtain ⟨control, owned, rfl⟩ := viewRuns found
      exact .inr ⟨run, record, control, known, alive, owned, named,
        .inr ⟨t, member, living (.inr (by simp [moving])), moving⟩⟩
  · obtain ⟨run, k, found, named, active, recorded⟩ := records
    obtain ⟨record, known, alive⟩ := viewActive active
    obtain ⟨control, owned, rfl⟩ := viewRuns found
    exact .inr ⟨run, record, control, known, alive, owned, named, .inl recorded⟩

theorem backsReserved {v : LeaseView} {q : LeasePlace} (ordered : v.Ordered) (backs : v.Backs q)
    {token session binding} (same : q.token = some token)
    (reserved : q.reserved = some (session, binding)) :
    v.writers.lookup binding = some ⟨token, session⟩ := by
  cases q <;> cases same
  case guard => exact backs.2 _ _ reserved
  case named => exact backs.2.1 _ _ reserved
  case spawned => exact backs.2.2 _ _ reserved
  case installed =>
    obtain ⟨k, found, home, leased⟩ := ordered.activeLeased backs.2
    cases Option.some.inj (found.symm.trans backs.1)
    obtain ⟨value, asked, same⟩ := Option.map_eq_some_iff.mp reserved
    cases same
    exact leased _ asked
  case dropping =>
    cases reserved
    exact backs.2.2

theorem ownedListed {c : Config (machine sup)} (h : Reach Always (initially sup) c) {binding w}
    (owned : (∃ index, LaunchOwns c index binding w) ∨ ∃ run, RunOwns c run binding w) :
    c.memory.bindingWriters.lookup binding = some w := by
  have holds := reachLeasing h
  have ordered : c.memory.leaseView.Ordered := holds.inv
  rcases owned with ⟨index, t, present, -, token, reserved⟩ |
    ⟨run, record, control, known, alive, found, named, leased⟩
  · exact backsReserved ordered (holds.here present) token reserved
  · have active : c.memory.leaseView.active w.session = some (some run) := by
      simp [Memory.leaseView, known, alive]
    obtain ⟨k, leasedRun, home, recorded⟩ := ordered.activeLeased active
    obtain ⟨control', owned, rfl⟩ := viewRuns leasedRun
    cases Option.some.inj (found.symm.trans owned)
    have writer : (⟨control.lease.token, w.session⟩ : BindingWriter) = w := by
      rw [show control.lease.token = w.token from named]
    rcases leased with leased | ⟨t, member, -, moving⟩
    · rw [← writer]
      exact recorded _ leased
    · obtain ⟨index, present⟩ := List.getElem?_of_mem member
      have backs : c.memory.leaseView.Backs ((leases sup).place t) := holds.here present
      have supervised : ∃ session phase, (leases sup).place t = .held session run phase := by
        revert moving
        cases (leases sup).place t with
        | held session run' phase => cases phase <;> rintro ⟨⟩ <;> exact ⟨_, _, rfl⟩
        | _ => rintro ⟨⟩
      obtain ⟨session, phase, place⟩ := supervised
      rw [place] at backs moving
      obtain ⟨k, backed, -, -, backs⟩ := backs
      cases Option.some.inj (leasedRun.symm.trans backed)
      rw [← writer, ← home]
      cases phase with
      | adopting => cases moving; exact backs.2.2.2
      | taken => cases moving; exact backs.2
      | releasing => cases moving; exact backs.2.2
      | _ => cases moving

theorem launchesOnce {c : Config (machine sup)} (h : Reach Always (initially sup) c)
    {binding index index' w w'} (owns : LaunchOwns c index binding w)
    (owns' : LaunchOwns c index' binding w') : index = index' := by
  have listed := ownedListed h (.inl ⟨index, owns⟩)
  cases Option.some.inj (listed.symm.trans (ownedListed h (.inl ⟨index', owns'⟩)))
  obtain ⟨t, present, -, token, -⟩ := owns
  obtain ⟨t', present', -, token', -⟩ := owns'
  by_contra different
  have apart : ((leases sup).place t).Apart ((leases sup).place t') :=
    (reachLeasing h).apart different present present'
  exact apart.1 _ token token'

theorem runsOnce {c : Config (machine sup)} (h : Reach Always (initially sup) c)
    {binding run run' w w'} (owns : RunOwns c run binding w) (owns' : RunOwns c run' binding w') :
    run = run' := by
  have listed := ownedListed h (.inr ⟨run, owns⟩)
  cases Option.some.inj (listed.symm.trans (ownedListed h (.inr ⟨run', owns'⟩)))
  obtain ⟨record, -, known, active, -⟩ := owns
  obtain ⟨record', -, known', active', -⟩ := owns'
  cases Option.some.inj (known.symm.trans known')
  exact Option.some.inj (active.symm.trans active')

def Installs (c : Config (machine sup)) (index : Nat) (run : RunId) : Prop :=
  ∃ t, c.tasks[index]? = some t ∧
    ∃ session token binding, (leases sup).place t = .installed session token binding run

theorem launchInstalls {c : Config (machine sup)} (h : Reach Always (initially sup) c)
    {binding index run w w'} (owns : LaunchOwns c index binding w) (owns' : RunOwns c run binding w') :
    Installs c index run := by
  have holds := reachLeasing h
  have listed := ownedListed h (.inl ⟨index, owns⟩)
  cases Option.some.inj (listed.symm.trans (ownedListed h (.inr ⟨run, owns'⟩)))
  obtain ⟨t, present, -, token, -⟩ := owns
  obtain ⟨record, control, known, alive, found, named, -⟩ := owns'
  have backs : c.memory.leaseView.Backs ((leases sup).place t) := holds.here present
  have active : c.memory.leaseView.active w.session = some (some run) := by
    simp [Memory.leaseView, known, alive]
  have leased : c.memory.leaseView.runs run = some control.lease := by
    simp [Memory.leaseView, found]
  have line := tokenUnsupervised holds.inv backs token leased named active
  refine ⟨t, present, ?_⟩
  revert backs token line
  cases (leases sup).place t with
  | named t lease r =>
    rintro - ⟨-, -, -, unknown⟩ ⟨⟩
    rw [leased] at unknown
    cases unknown
  | spawned session t b r =>
    rintro - ⟨-, inactive, -⟩ ⟨⟩
    exact absurd active (inactive _)
  | installed session t b r =>
    rintro - - ⟨⟩
    exact ⟨session, t, b, rfl⟩
  | held => exact fun token => by cases token
  | _ => exact fun _ _ line => by cases line

theorem dealsKeepWriter {v v' : LeaseView} {o answer binding w}
    (listed : v.writers.lookup binding = some w) (deals : Deals v o answer v')
    (keeps : ∀ binding token, o ≠ .releaseBinding binding token) :
    v'.writers.lookup binding = some w := by
  cases deals with
  | claimed unowned => exact insertKeeps unowned listed
  | released => exact absurd rfl (keeps _ _)
  | _ => exact listed

theorem removedByOwner {c : Config (machine sup)} (h : Reach Always (initially sup) c) {e c'}
    (moves : Moves c e c') {binding w} (listed : c.memory.bindingWriters.lookup binding = some w)
    (removed : c'.memory.bindingWriters.lookup binding ≠ some w) :
    ∃ index choice t, e = .run index choice ∧ c.tasks[index]? = some t ∧
      t.next = some (.releaseBinding binding w.token) ∧
      (LaunchOwns c index binding w ∨
        ∃ run, RunOwns c run binding w ∧ ((leases sup).place t).moving = some (run, binding)) := by
  have holds := reachLeasing h
  cases moves with
  | call => exact absurd listed removed
  | outside effect =>
    have same := congrArg LeaseView.writers (outsideView effect)
    exact absurd ((congrArg (AList.lookup binding) same).trans listed) removed
  | @act index choice t o answer memory next performs =>
    have obeys := performsObeys leasesSound holds.placed performs
    have backs : c.memory.leaseView.Backs ((leases sup).place t) := holds.here performs.present
    have deals := applyDeals performs.effect
    have living : ¬ t.Ended := by
      rintro ⟨last, ended⟩
      obtain ⟨k, program, -⟩ := performs.program
      rw [program] at ended
      cases ended
    by_cases releases : ∃ binding' token, o = .releaseBinding binding' token
    · obtain ⟨binding', token, rfl⟩ := releases
      cases Option.some.inj performs.effect
      have own : w.token = token := by
        by_contra other
        exact removed (releaseKeeps (v := c.memory.leaseView) listed other)
      have here : binding = binding' := by
        by_contra other
        refine removed ?_
        change (releaseBinding c.memory.bindingWriters binding' token).lookup binding = some w
        unfold releaseBinding
        split
        · split
          · rw [AList.lookup_erase_ne other, listed]
          · exact listed
        · exact listed
      subst own here
      refine ⟨index, choice, t, rfl, performs.present, performsNext performs, ?_⟩
      have may : ((leases sup).place t).may (.releaseBinding binding w.token) := obeys.allowed
      rcases may with ⟨session, place⟩ | ⟨session, run, place⟩
      · rw [place] at backs
        have home : session = w.session :=
          congrArg BindingWriter.session (Option.some.inj (backs.2.2.symm.trans listed))
        subst home
        exact .inl ⟨t, performs.present, living, by rw [place]; rfl, by rw [place]; rfl⟩
      · rw [place] at backs
        obtain ⟨k, found, home, active, -, named, owner⟩ := backs
        have session' : k.session = w.session :=
          congrArg BindingWriter.session (Option.some.inj (owner.symm.trans listed))
        obtain ⟨record, known, alive⟩ := viewActive active
        obtain ⟨control, owned, rfl⟩ := viewRuns found
        cases home.symm.trans session'
        refine .inr ⟨run, ⟨record, control, known, alive, owned, named, .inr ⟨t,
          List.mem_of_getElem? performs.present, living, ?_⟩⟩, ?_⟩ <;> rw [place] <;> rfl
    · exact absurd (dealsKeepWriter listed deals fun binding' token same =>
        releases ⟨binding', token, same⟩) removed

def boundTurns : List (Event (machine (plain []))) :=
  [.call (.start { request with binding := some "b1" })] ++ turns 0 2 ++ launchTurns 0

theorem boundWriter : (runFrom (initially (plain [])) boundTurns).map
    (fun c => c.memory.bindingWriters.lookup "b1") = some (some ⟨1, 0⟩) := by
  decide +kernel

end Outlines
end Maestro.Session
