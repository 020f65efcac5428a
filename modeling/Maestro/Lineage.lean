import Maestro.Roles

/-! What the memory holds for each role: the histories of the sessions agree with the
tasks that stand for their runs, in every reachable configuration. -/
namespace Maestro.Session
open Interleaving Prog Protocol

/-! The memory as far as roles depend on it. -/

structure History where
  installed : List RunId
  activeRun : Option RunId
  completions : List (RunId × Completion)

def SessionRecord.history (r : SessionRecord) : History := ⟨r.installed, r.data.activeRun, r.completions⟩

structure Ledger where
  fresh : Nat
  known : RunId → Bool
  finalized : RunId → Bool
  history : SessionId → Option History

def Memory.ledger (m : Memory) : Ledger where
  fresh := m.fresh
  known run := (m.runs run).isSome
  finalized run := (m.runs run).any RunControl.finalized
  history session := (m.sessions session).map SessionRecord.history

namespace Ledger

def write (l : Ledger) (session : SessionId) (h : History) : Ledger :=
  { l with history := Function.update l.history session (some h) }

def learn (l : Ledger) (run : RunId) : Ledger :=
  { l with known := Function.update l.known run true, finalized := Function.update l.finalized run false }

def close (l : Ledger) (run : RunId) : Ledger :=
  { l with finalized := Function.update l.finalized run true }

structure Consistent (l : Ledger) : Prop where
  runDrawn : ∀ {run}, l.known run = true → run < l.fresh
  sessionDrawn : ∀ {session h}, l.history session = some h → session < l.fresh
  installedKnown : ∀ {session h run}, l.history session = some h → run ∈ h.installed →
    l.known run = true
  installedOnce : ∀ {session h}, l.history session = some h → h.installed.Nodup
  installedHere : ∀ {session session' h h' run}, l.history session = some h →
    l.history session' = some h' → run ∈ h.installed → run ∈ h'.installed → session = session'
  activeLast : ∀ {session h run}, l.history session = some h → h.activeRun = some run →
    h.installed.getLast? = some run
  completedInstalled : ∀ {session h done}, l.history session = some h → done ∈ h.completions →
    done.1 ∈ h.installed
  completedOnce : ∀ {session h}, l.history session = some h → (h.completions.map Prod.fst).Nodup
  activeOpen : ∀ {session h run}, l.history session = some h → h.activeRun = some run →
    run ∉ h.completions.map Prod.fst

def Backs (l : Ledger) : Role → Prop
  | .launching | .guest .. => True
  | .reserved run => run < l.fresh ∧ l.known run = false
  | .spawned _ run => l.known run = true ∧ l.finalized run = false ∧
      ∀ session h, l.history session = some h → run ∉ h.installed
  | .starting session run | .supervising session run => l.finalized run = false ∧
      ∃ h, l.history session = some h ∧ h.activeRun = some run
  | .closing session run => l.finalized run = true ∧
      ∃ h, l.history session = some h ∧ h.activeRun = some run
  | .started session run | .monitoring session run =>
      ∃ h, l.history session = some h ∧ run ∈ h.installed

end Ledger

def SessionCall.Quiet : SessionCall → Prop
  | .install _ | .finalize .. => False
  | _ => True

def Act.Quiet : Act → Prop
  | .fresh | .createSession | .spawnStructured .. | .spawn _ => False
  | .session _ call => call.Quiet
  | .run _ .swapFinalized => False
  | _ => True

inductive Records : Ledger → (o : Act) → o.Answer → Ledger → Prop where
  | quiet {l o answer} (quiet : o.Quiet) : Records l o answer l
  | spawn {l entry answer} : Records l (.spawn entry) answer l
  | fresh {l} : Records l .fresh l.fresh { l with fresh := l.fresh + 1 }
  | createRefused {l error} : Records l .createSession (.error error) l
  | created {l} : Records l .createSession (.ok l.fresh)
      { (l.write l.fresh ⟨[], none, []⟩) with fresh := l.fresh + 1 }
  | spawnFailed {l session run token binding capture spec error} :
      Records l (.spawnStructured session run token binding capture spec) (.error error) l
  | spawned {l session run token binding capture spec processId} :
      Records l (.spawnStructured session run token binding capture spec) (.ok processId) (l.learn run)
  | installRefused {l session run} : Records l (.session session (.install run)) false l
  | installed {l session run h} (before : l.history session = some h) (idle : h.activeRun = none) :
      Records l (.session session (.install run)) true
        (l.write session { h with installed := h.installed ++ [run], activeRun := some run })
  | finalized {l session run completion h answer} (before : l.history session = some h) :
      Records l (.session session (.finalize run completion)) answer
        (l.write session { h with
          activeRun := if h.activeRun = some run then none else h.activeRun
          completions := h.completions ++ [(run, completion)] })
  | closed {l run answer} : Records l (.run run .swapFinalized) answer (l.close run)

section Ledgers
variable {sup : Supervisor}

theorem writeSame {l : Ledger} {session h} (same : l.history session = some h) :
    l.write session h = l := by
  have unchanged : Function.update l.history session (some h) = l.history := by
    rw [← same, Function.update_eq_self]
  simp [Ledger.write, unchanged]

theorem ledgerWrite {m : Memory} {session record} :
    Memory.ledger { m with sessions := Function.update m.sessions session (some record) } =
      m.ledger.write session record.history := by
  simp only [Memory.ledger, Ledger.write, Ledger.mk.injEq, true_and]
  funext s
  by_cases same : s = session <;> simp [Function.update, same]

theorem ledgerControl {m : Memory} {run before control} (found : m.runs run = some before)
    (same : control.finalized = before.finalized) :
    Memory.ledger { m with runs := Function.update m.runs run (some control) } = m.ledger := by
  simp only [Memory.ledger, Ledger.mk.injEq, true_and, and_true]
  constructor <;> funext r <;> by_cases here : r = run
  · subst here
    simp [found]
  · simp [Function.update, here]
  · subst here
    simp [found, same]
  · simp [Function.update, here]

theorem ledgerClose {m : Memory} {run control} (found : (m.runs run).isSome = true)
    (closed : control.finalized = true) :
    Memory.ledger { m with runs := Function.update m.runs run (some control) } = m.ledger.close run := by
  simp only [Memory.ledger, Ledger.close, Ledger.mk.injEq, true_and, and_true]
  constructor <;> funext r <;> by_cases here : r = run
  · subst here
    simp [found]
  · simp [Function.update, here]
  · subst here
    simp [closed]
  · simp [Function.update, here]

theorem finalizedKept {now choice call} {c c' : RunControl} {answer : RunCall.Answer call}
    (h : c.perform sup now choice call = some (answer, c')) (lasting : call ≠ .swapFinalized) :
    c'.finalized = c.finalized := by
  cases call <;> simp only [RunControl.perform] at h
  case swapFinalized => exact absurd rfl lasting
  all_goals
    repeat' split at h
    all_goals first | contradiction | (cases Option.some.inj h; rfl)

theorem quietHistory {record record' : SessionRecord} {session call answer} (quiet : call.Quiet)
    (h : record.perform sup session call = some (answer, record')) :
    record'.history = record.history := by
  cases call <;> simp only [SessionRecord.perform] at h
  case install => exact quiet.elim
  case finalize => exact quiet.elim
  case publish => split at h <;> cases Option.some.inj h <;> rfl
  case subscribe => split at h <;> cases Option.some.inj h <;> rfl
  case recv =>
    split at h
    · contradiction
    · split at h
      · contradiction
      · cases Option.some.inj h
        rfl
  all_goals
    cases Option.some.inj h
    rfl

theorem installRecords {m : Memory} {session run record record'} {answer : Bool}
    (found : m.sessions session = some record)
    (h : record.perform sup session (.install run) = some (answer, record')) :
    Records m.ledger (.session session (.install run)) answer
      (m.ledger.write session record'.history) := by
  have before : m.ledger.history session = some record.history := by simp [Memory.ledger, found]
  simp only [SessionRecord.perform] at h
  split at h
  · cases Option.some.inj h
    rw [writeSame before]
    exact .installRefused
  · rename_i idle
    cases Option.some.inj h
    exact .installed before (by simpa [SessionRecord.history] using idle)

theorem sessionRecords {m : Memory} {session call record record'} {answer : SessionCall.Answer call}
    (found : m.sessions session = some record)
    (h : record.perform sup session call = some (answer, record')) :
    Records m.ledger (.session session call) answer (m.ledger.write session record'.history) := by
  have before : m.ledger.history session = some record.history := by simp [Memory.ledger, found]
  have keeps : call.Quiet → Records m.ledger (.session session call) answer
      (m.ledger.write session record'.history) := fun quiet => by
    rw [quietHistory quiet h, writeSame before]
    exact .quiet quiet
  cases call with
  | install run => exact installRecords found h
  | finalize run completion =>
    cases Option.some.inj h
    exact .finalized before
  | _ => exact keeps trivial

theorem applyRecords {o choice m answer m'} (h : apply sup o choice m = some (answer, m')) :
    Records m.ledger o answer m'.ledger := by
  cases o with
  | fresh =>
    cases Option.some.inj h
    exact .fresh
  | createSession =>
    simp only [apply] at h
    split at h <;> cases Option.some.inj h
    · exact .createRefused
    · rw [show Memory.ledger _ = _ from ledgerWrite (m := { m with fresh := m.fresh + 1, listed := m.listed ++ [m.fresh] })]
      exact .created
  | spawnStructured session run token binding capture spec =>
    simp only [apply] at h
    split at h
    · cases Option.some.inj h
      have learnt : Memory.ledger { m with
          runs := Function.update m.runs run (some (.new sup session token binding capture)) } =
          m.ledger.learn run := by
        simp only [Memory.ledger, Ledger.learn, Ledger.mk.injEq, true_and, and_true]
        constructor <;> funext r <;> by_cases same : r = run <;>
          simp [Function.update, same, RunControl.new]
      rw [learnt]
      exact .spawned
    · cases Option.some.inj h
      exact .spawnFailed
    · contradiction
  | spawn entry =>
    cases Option.some.inj h
    exact .spawn
  | session id call =>
    obtain ⟨record, record', found, performed, rfl⟩ := applySession h
    rw [ledgerWrite]
    exact sessionRecords found performed
  | run id call =>
    obtain ⟨control, control', found, performed, rfl⟩ := applyRun h
    by_cases closing : call = .swapFinalized
    · subst closing
      cases Option.some.inj performed
      rw [ledgerClose (by simp [found]) rfl]
      exact .closed
    · rw [ledgerControl found (finalizedKept performed closing)]
      refine .quiet ?_
      cases call <;> first | exact trivial | exact absurd rfl closing
  | store call =>
    obtain ⟨healthy, rfl, rfl, rfl⟩ := applyStore h
    exact .quiet trivial
  | sleepUntil deadline =>
    simp only [apply] at h
    split at h
    · cases Option.some.inj h
      exact .quiet trivial
    · contradiction
  | newActionId =>
    simp only [apply] at h
    split at h
    · cases Option.some.inj h
      exact .quiet trivial
    · contradiction
  | takeStream run =>
    simp only [apply] at h
    split at h
    · cases Option.some.inj h
      exact .quiet trivial
    · cases Option.some.inj h
      exact .quiet trivial
    · contradiction
  | now | answer | findSession | removeSession | claimBinding | releaseBinding =>
    cases Option.some.inj h
    exact .quiet trivial

theorem outsideLedger {x} {m m' : Memory} (h : outside sup x m = some m') :
    m'.ledger = m.ledger := by
  rcases outsideCases h with ⟨elapsed, rfl, rfl⟩ | ⟨run, control, process, _, found, _, rfl⟩
  · rfl
  · exact ledgerControl found rfl

/-! Two tasks never stand for the same line, nor hold the same session. -/

def Role.Apart (q q' : Role) : Prop :=
  (∀ run, q.line = some run → q'.line ≠ some run) ∧
  (∀ session, q.holds = some session → q'.holds ≠ some session)

theorem apartSymm {q q' : Role} (h : q.Apart q') : q'.Apart q :=
  ⟨fun run line line' => h.1 run line' line, fun session holds holds' => h.2 session holds' holds⟩

theorem apartNone {q q' : Role} (line : q.line = none) (holds : q.holds = none) : q.Apart q' := by
  simp [Role.Apart, line, holds]

theorem apartLess {q q' less : Role} (h : q.Apart q') (line : less.line = none ∨ less.line = q.line)
    (holds : less.holds = none ∨ less.holds = q.holds) : less.Apart q' := by
  refine ⟨fun run same => ?_, fun session same => ?_⟩
  · rcases line with line | line <;> rw [line] at same
    · cases same
    · exact h.1 run same
  · rcases holds with holds | holds <;> rw [holds] at same
    · cases same
    · exact h.2 session same

structure RoleKept (l l' : Ledger) (q q' : Role) (new : Option Entry) : Prop where
  consistent : l'.Consistent
  backs : l'.Backs q'
  entered : ∀ e, new = some e → l'.Backs (.ofEntry e) ∧ q'.Apart (.ofEntry e)
  others : ∀ other, l.Backs other → q.Apart other →
    l'.Backs other ∧ q'.Apart other ∧ ∀ e, new = some e → (Role.ofEntry e).Apart other

theorem keptStill {l : Ledger} {q q'} (consistent : l.Consistent) (backs : l.Backs q')
    (line : q'.line = none ∨ q'.line = q.line) (holds : q'.holds = none ∨ q'.holds = q.holds) :
    RoleKept l l q q' none :=
  ⟨consistent, backs, by simp, fun _ backs apart => ⟨backs, apartLess apart line holds, by simp⟩⟩

theorem quietAfter {q : Role} {o : Act} (h : o.Quiet) (answer : o.Answer) : q.after o answer = q ∧ o.spawned = none := by
  cases o <;> first | exact h.elim | exact ⟨rfl, rfl⟩ | skip
  case session session call => cases call <;> first | exact h.elim | exact ⟨rfl, rfl⟩
  case run run call => cases call <;> first | exact h.elim | exact ⟨rfl, rfl⟩

section Keeping
variable {l : Ledger} {q : Role} {session : SessionId} {run : RunId} {h : History}

theorem activeInstalled (consistent : l.Consistent) (found : l.history session = some h)
    (active : h.activeRun = some run) : run ∈ h.installed :=
  List.mem_of_getLast? (consistent.activeLast found active)

theorem lineDrawn (consistent : l.Consistent) (backs : l.Backs q) (line : q.line = some run) :
    run < l.fresh := by
  cases q <;> simp only [Role.line, Option.some.injEq, reduceCtorEq] at line <;> subst line
  case reserved => exact backs.1
  case spawned => exact consistent.runDrawn backs.1
  case starting =>
    obtain ⟨_, h, found, active⟩ := backs
    exact consistent.runDrawn (consistent.installedKnown found (activeInstalled consistent found active))
  case started | monitoring =>
    obtain ⟨h, found, installed⟩ := backs
    exact consistent.runDrawn (consistent.installedKnown found installed)

theorem spawnKept {entry} (consistent : l.Consistent) (backs : l.Backs q) (may : q.maySpawn entry)
    {answer} : RoleKept l l q (q.after (.spawn entry) answer) (some entry) := by
  cases entry <;> first | exact may.elim | skip
  case expiry | stderrReader =>
    refine ⟨consistent, backs, ?_, fun _ backs apart => ⟨backs, apart, ?_⟩⟩ <;> rintro _ ⟨⟩
    · exact ⟨trivial, apartSymm (apartNone rfl rfl)⟩
    · exact apartNone rfl rfl
  case supervise session run =>
    cases may
    obtain ⟨unfinalized, h, found, active⟩ := backs
    refine ⟨consistent, ⟨h, found, activeInstalled consistent found active⟩, ?_,
      fun _ backs apart => ⟨backs, apartLess apart (.inr rfl) (.inl rfl), ?_⟩⟩ <;> rintro _ ⟨⟩
    · exact ⟨⟨unfinalized, h, found, active⟩, by simp [Role.Apart, Role.ofEntry, Role.after, Role.line, Role.holds]⟩
    · exact apartLess apart (.inl rfl) (.inr rfl)
  case monitor session run afterSequence =>
    cases may
    refine ⟨consistent, trivial, ?_,
      fun _ backs apart => ⟨backs, apartNone rfl rfl, ?_⟩⟩ <;> rintro _ ⟨⟩
    · exact ⟨backs, apartNone rfl rfl⟩
    · exact apartLess apart (.inr rfl) (.inl rfl)

theorem drawConsistent (consistent : l.Consistent) :
    Ledger.Consistent { l with fresh := l.fresh + 1 } where
  runDrawn known := Nat.lt_succ_of_lt (consistent.runDrawn known)
  sessionDrawn found := Nat.lt_succ_of_lt (consistent.sessionDrawn found)
  installedKnown := consistent.installedKnown
  installedOnce := consistent.installedOnce
  installedHere := consistent.installedHere
  activeLast := consistent.activeLast
  completedInstalled := consistent.completedInstalled
  completedOnce := consistent.completedOnce
  activeOpen := consistent.activeOpen

theorem drawBacks (backs : l.Backs q) : Ledger.Backs { l with fresh := l.fresh + 1 } q := by
  cases q <;> first | exact backs | exact ⟨Nat.lt_succ_of_lt backs.1, backs.2⟩

theorem freshKept (consistent : l.Consistent) :
    RoleKept l { l with fresh := l.fresh + 1 } q (.reserved l.fresh) none := by
  refine ⟨drawConsistent consistent, ⟨Nat.lt_succ_self _, ?_⟩, by simp, ?_⟩
  · by_contra known
    exact absurd (consistent.runDrawn (by simpa using known)) (Nat.lt_irrefl _)
  · intro other backs apart
    refine ⟨drawBacks backs, ⟨?_, by simp [Role.holds]⟩, by simp⟩
    rintro run ⟨⟩ line
    exact absurd (lineDrawn consistent backs line) (Nat.lt_irrefl _)

theorem learnKept (consistent : l.Consistent) (backs : l.Backs (.reserved run)) :
    RoleKept l (l.learn run) (.reserved run) (.spawned session run) none := by
  have grown : ∀ {r}, l.known r = true → (l.learn run).known r = true := by
    intro r known
    by_cases same : r = run <;> simp [Ledger.learn, same, known]
  have unused : ∀ session h, l.history session = some h → run ∉ h.installed := by
    intro session h found installed
    have known := consistent.installedKnown found installed
    rw [backs.2] at known
    contradiction
  refine ⟨⟨?_, consistent.sessionDrawn, fun found installed => grown (consistent.installedKnown found
    installed), consistent.installedOnce, consistent.installedHere, consistent.activeLast,
    consistent.completedInstalled, consistent.completedOnce, consistent.activeOpen⟩,
    ⟨by simp [Ledger.learn], by simp [Ledger.learn], unused⟩, by simp, ?_⟩
  · intro r known
    by_cases same : r = run
    · exact same ▸ backs.1
    · exact consistent.runDrawn (by simpa [Ledger.learn, same] using known)
  · intro other otherBacks apart
    refine ⟨?_, apartLess apart (.inr rfl) (.inl rfl), by simp⟩
    have kept : ∀ {r}, l.known r = true → (l.learn run).finalized r = l.finalized r := by
      intro r known
      have different : r ≠ run := by
        rintro rfl
        rw [backs.2] at known
        contradiction
      simp [Ledger.learn, different]
    have active : ∀ {s r}, (∃ h, l.history s = some h ∧ h.activeRun = some r) →
        (l.learn run).finalized r = l.finalized r := by
      rintro s r ⟨h, found, active⟩
      exact kept (consistent.installedKnown found (activeInstalled consistent found active))
    cases other <;> try exact otherBacks
    case reserved r =>
      have different : r ≠ run := fun same => apart.1 run rfl (by rw [same]; rfl)
      exact ⟨otherBacks.1, by simpa [Ledger.learn, different] using otherBacks.2⟩
    case spawned s r =>
      exact ⟨grown otherBacks.1, (kept otherBacks.1).trans otherBacks.2.1, otherBacks.2.2⟩
    all_goals exact ⟨(active otherBacks.2).trans otherBacks.1, otherBacks.2⟩

theorem writeHistory {session'} : (l.write session h).history session' =
    if session' = session then some h else l.history session' := by
  simp [Ledger.write, Function.update_apply]

structure History.Fits (h : History) (l : Ledger) (session : SessionId) : Prop where
  drawn : session < l.fresh
  known : ∀ {run}, run ∈ h.installed → l.known run = true
  once : h.installed.Nodup
  here : ∀ {session' h' run}, l.history session' = some h' → run ∈ h.installed →
    run ∈ h'.installed → session = session'
  activeLast : ∀ {run}, h.activeRun = some run → h.installed.getLast? = some run
  completedInstalled : ∀ {done}, done ∈ h.completions → done.1 ∈ h.installed
  completedOnce : (h.completions.map Prod.fst).Nodup
  activeOpen : ∀ {run}, h.activeRun = some run → run ∉ h.completions.map Prod.fst

theorem writeConsistent (consistent : l.Consistent) (fits : h.Fits l session) :
    (l.write session h).Consistent := by
  have split : ∀ {session' h'}, (l.write session h).history session' = some h' →
      (session' = session ∧ h' = h) ∨ (session' ≠ session ∧ l.history session' = some h') := by
    intro session' h' found
    rw [writeHistory] at found
    split at found
    · exact .inl ⟨by assumption, (Option.some.inj found).symm⟩
    · exact .inr ⟨by assumption, found⟩
  refine ⟨consistent.runDrawn, ?_, ?_, ?_, ?_, ?_, ?_, ?_, ?_⟩
  · intro s h' found
    rcases split found with ⟨rfl, rfl⟩ | ⟨_, old⟩
    · exact fits.drawn
    · exact consistent.sessionDrawn old
  · intro s h' r found installed
    rcases split found with ⟨rfl, rfl⟩ | ⟨_, old⟩
    · exact fits.known installed
    · exact consistent.installedKnown old installed
  · intro s h' found
    rcases split found with ⟨rfl, rfl⟩ | ⟨_, old⟩
    · exact fits.once
    · exact consistent.installedOnce old
  · intro s s' h₁ h₂ r found found' installed installed'
    rcases split found with ⟨rfl, rfl⟩ | ⟨_, old⟩ <;> rcases split found' with ⟨rfl, rfl⟩ | ⟨_, old'⟩
    · rfl
    · exact fits.here old' installed installed'
    · exact (fits.here old installed' installed).symm
    · exact consistent.installedHere old old' installed installed'
  · intro s h' r found active
    rcases split found with ⟨rfl, rfl⟩ | ⟨_, old⟩
    · exact fits.activeLast active
    · exact consistent.activeLast old active
  · intro s h' done found completed
    rcases split found with ⟨rfl, rfl⟩ | ⟨_, old⟩
    · exact fits.completedInstalled completed
    · exact consistent.completedInstalled old completed
  · intro s h' found
    rcases split found with ⟨rfl, rfl⟩ | ⟨_, old⟩
    · exact fits.completedOnce
    · exact consistent.completedOnce old
  · intro s h' r found active
    rcases split found with ⟨rfl, rfl⟩ | ⟨_, old⟩
    · exact fits.activeOpen active
    · exact consistent.activeOpen old active

theorem writeBacks (found : l.history session = some h) {h' : History} (backs : l.Backs q)
    (keeps : ∀ run, run ∈ h.installed → run ∈ h'.installed)
    (free : q.holds ≠ some session) (apart : ∀ run, q.line = some run → run ∈ h'.installed →
      run ∈ h.installed) : (l.write session h').Backs q := by
  have elsewhere : ∀ {s} {P : History → Prop}, s ≠ session → (∃ h, l.history s = some h ∧ P h) →
      ∃ h, (l.write session h').history s = some h ∧ P h := by
    rintro s P different ⟨h₁, found₁, holds⟩
    exact ⟨h₁, by rw [writeHistory, if_neg different]; exact found₁, holds⟩
  have installed : ∀ {s r}, (∃ h, l.history s = some h ∧ r ∈ h.installed) →
      ∃ h, (l.write session h').history s = some h ∧ r ∈ h.installed := by
    rintro s r ⟨h₁, found₁, member⟩
    by_cases same : s = session
    · subst same
      cases Option.some.inj (found.symm.trans found₁)
      exact ⟨h', by simp [writeHistory], keeps _ member⟩
    · exact elsewhere same ⟨h₁, found₁, member⟩
  cases q with
  | launching | guest | reserved => exact backs
  | spawned s r =>
    refine ⟨backs.1, backs.2.1, fun s' h₁ found₁ => ?_⟩
    rw [writeHistory] at found₁
    split at found₁
    · cases Option.some.inj found₁
      exact fun member => backs.2.2 _ _ found (apart r rfl member)
    · exact backs.2.2 s' h₁ found₁
  | starting s r | supervising s r | closing s r =>
    exact ⟨backs.1, elsewhere (fun same => free (congrArg some same)) backs.2⟩
  | started s r | monitoring s r => exact installed backs

theorem createBacks (consistent : l.Consistent) (backs : l.Backs q) :
    Ledger.Backs { (l.write l.fresh ⟨[], none, []⟩) with fresh := l.fresh + 1 } q := by
  have old : ∀ {s} {P : History → Prop}, (∃ h, l.history s = some h ∧ P h) →
      ∃ h, (l.write l.fresh ⟨[], none, []⟩).history s = some h ∧ P h := by
    rintro s P ⟨h, found, holds⟩
    have different : s ≠ l.fresh := Nat.ne_of_lt (consistent.sessionDrawn found)
    exact ⟨h, by rw [writeHistory, if_neg different]; exact found, holds⟩
  cases q with
  | launching | guest => trivial
  | reserved r => exact ⟨Nat.lt_succ_of_lt backs.1, backs.2⟩
  | spawned s r =>
    refine ⟨backs.1, backs.2.1, fun s' h found => ?_⟩
    change (l.write l.fresh ⟨[], none, []⟩).history s' = some h at found
    rw [writeHistory] at found
    split at found
    · cases Option.some.inj found
      simp
    · exact backs.2.2 s' h found
  | starting s r | supervising s r | closing s r => exact ⟨backs.1, old backs.2⟩
  | started s r | monitoring s r => exact old backs

theorem createKept (consistent : l.Consistent) (backs : l.Backs q) :
    RoleKept l { (l.write l.fresh ⟨[], none, []⟩) with fresh := l.fresh + 1 } q q none := by
  refine ⟨?_, createBacks consistent backs, by simp,
    fun _ otherBacks apart => ⟨createBacks consistent otherBacks, apart, by simp⟩⟩
  exact writeConsistent (drawConsistent consistent)
    ⟨Nat.lt_succ_self _, by simp, by simp, by simp, by simp, by simp, by simp, by simp⟩

theorem installKept (consistent : l.Consistent) (found : l.history session = some h)
    (idle : h.activeRun = none) (backs : l.Backs (.spawned session run)) :
    RoleKept l (l.write session { h with installed := h.installed ++ [run], activeRun := some run })
      (.spawned session run) (.starting session run) none := by
  have unused := backs.2.2
  refine ⟨writeConsistent consistent ⟨consistent.sessionDrawn found, ?_, ?_, ?_, ?_, ?_,
    consistent.completedOnce (h := h) found, ?_⟩,
    ⟨backs.2.1, _, writeHistory.trans (if_pos rfl), rfl⟩, by simp, ?_⟩
  · intro r installed
    rcases List.mem_append.mp installed with old | new
    · exact consistent.installedKnown found old
    · cases List.mem_singleton.mp new
      exact backs.1
  · refine List.nodup_append.mpr ⟨consistent.installedOnce found, by simp, ?_⟩
    rintro r old _ new rfl
    cases List.mem_singleton.mp new
    exact unused _ _ found old
  · intro s h' r found' installed installed'
    rcases List.mem_append.mp installed with old | new
    · exact consistent.installedHere found found' old installed'
    · cases List.mem_singleton.mp new
      exact absurd installed' (unused _ _ found')
  · rintro r ⟨⟩
    simp
  · intro done completed
    exact List.mem_append_left _ (consistent.completedInstalled found completed)
  · rintro r ⟨⟩ completed
    obtain ⟨done, member, rfl⟩ := List.mem_map.mp completed
    exact unused _ _ found (consistent.completedInstalled found member)
  · intro other otherBacks apart
    have free : other.holds ≠ some session := by
      intro holds
      cases other <;> simp only [Role.holds, Option.some.injEq, reduceCtorEq] at holds <;>
        (subst holds
         obtain ⟨_, h', found', active⟩ := otherBacks
         cases Option.some.inj (found.symm.trans found')
         rw [idle] at active
         contradiction)
    refine ⟨writeBacks found otherBacks (fun _ => List.mem_append_left _) free ?_,
      ⟨apart.1, ?_⟩, by simp⟩
    · intro r line installed
      rcases List.mem_append.mp installed with old | new
      · exact old
      · cases List.mem_singleton.mp new
        exact absurd line (apart.1 run rfl)
    · rintro s ⟨⟩
      exact free

theorem finalizeKept {completion} (consistent : l.Consistent) (found : l.history session = some h)
    (backs : l.Backs (.closing session run)) :
    RoleKept l (l.write session { h with
      activeRun := if h.activeRun = some run then none else h.activeRun
      completions := h.completions ++ [(run, completion)] })
      (.closing session run) (.guest session run) none := by
  obtain ⟨_, h', found', active⟩ := backs
  cases Option.some.inj (found.symm.trans found')
  have installed := activeInstalled consistent found active
  refine ⟨writeConsistent consistent ⟨consistent.sessionDrawn found,
    fun member => consistent.installedKnown found member, ?_,
    fun found' member => consistent.installedHere found found' member, ?_, ?_, ?_, ?_⟩, trivial,
    by simp, ?_⟩
  · exact consistent.installedOnce (h := h) found
  · simp [active]
  · intro done completed
    rcases List.mem_append.mp completed with old | new
    · exact consistent.completedInstalled (h := h) found old
    · cases List.mem_singleton.mp new
      exact installed
  · rw [List.map_append]
    refine List.nodup_append.mpr ⟨consistent.completedOnce found, by simp, ?_⟩
    rintro r old _ new rfl
    cases List.mem_singleton.mp new
    exact consistent.activeOpen found active old
  · simp [active]
  · intro other otherBacks apart
    exact ⟨writeBacks found otherBacks (fun _ member => member) (apart.2 session rfl)
      (fun _ _ member => member), apartNone rfl rfl, by simp⟩

theorem closeKept (consistent : l.Consistent) (backs : l.Backs (.supervising session run)) :
    RoleKept l (l.close run) (.supervising session run) (.closing session run) none := by
  obtain ⟨_, h, found, active⟩ := backs
  have installed := activeInstalled consistent found active
  refine ⟨⟨consistent.runDrawn, consistent.sessionDrawn, consistent.installedKnown,
    consistent.installedOnce, consistent.installedHere, consistent.activeLast,
    consistent.completedInstalled, consistent.completedOnce, consistent.activeOpen⟩,
    ⟨by simp [Ledger.close], h, found, active⟩, by simp, ?_⟩
  intro other otherBacks apart
  refine ⟨?_, apartLess apart (.inl rfl) (.inr rfl), by simp⟩
  have elsewhere : ∀ {r}, r ≠ run → (l.close run).finalized r = l.finalized r := by
    intro r different
    simp [Ledger.close, different]
  -- Only one task holds the session for the run.
  have held : ∀ {s r}, other.holds = some s → (∃ h, l.history s = some h ∧ h.activeRun = some r) →
      r ≠ run := by
    rintro s r holds ⟨h', found', active'⟩ rfl
    have same := consistent.installedHere found found' installed (activeInstalled consistent found' active')
    exact apart.2 session rfl (same ▸ holds)
  cases other <;> try exact otherBacks
  case spawned s r =>
    have different : r ≠ run := by
      rintro rfl
      exact otherBacks.2.2 session h found installed
    exact ⟨otherBacks.1, (elsewhere different).trans otherBacks.2.1, otherBacks.2.2⟩
  all_goals exact ⟨(elsewhere (held rfl otherBacks.2)).trans otherBacks.1, otherBacks.2⟩

theorem recordsKept {l' o answer} (consistent : l.Consistent) (backs : l.Backs q) (may : q.may o)
    (records : Records l o answer l') : RoleKept l l' q (q.after o answer) o.spawned := by
  cases records with
  | quiet quiet =>
    obtain ⟨stays, silent⟩ := quietAfter (q := q) quiet answer
    rw [stays, silent]
    exact keptStill consistent backs (.inr rfl) (.inr rfl)
  | spawn => exact spawnKept consistent backs may
  | fresh => exact freshKept consistent
  | createRefused => exact keptStill consistent backs (.inr rfl) (.inr rfl)
  | created => exact createKept consistent backs
  | spawnFailed => exact keptStill consistent trivial (.inl rfl) (.inl rfl)
  | spawned =>
    cases may
    exact learnKept consistent backs
  | installRefused => exact keptStill consistent backs (.inr rfl) (.inr rfl)
  | installed found idle =>
    cases may
    exact installKept consistent found idle backs
  | finalized found =>
    cases may
    exact finalizeKept consistent found backs
  | closed =>
    obtain ⟨session, rfl⟩ := may
    exact closeKept consistent backs

end Keeping

def lineage (sup : Supervisor) : Outline (roles sup) where
  Inv m := m.ledger.Consistent
  Here q m := m.ledger.Backs q
  Apart := Role.Apart

theorem lineageValid : (lineage sup).Valid (fun _ _ _ => True) where
  symm := apartSymm
  call := by
    intro e m callable consistent
    cases e <;> first | exact ⟨trivial, fun _ _ => apartNone rfl rfl⟩ | cases callable
  act := by
    intro q o choice m answer m' inv here may _ effect
    have kept := recordsKept inv here may (applyRecords effect)
    exact ⟨kept.consistent, kept.backs, kept.entered, kept.others⟩
  outside := by
    intro x m m' inv effect
    have same := outsideLedger effect
    simp only [lineage, same]
    exact ⟨inv, fun q here => here⟩

end Ledgers

end Maestro.Session
