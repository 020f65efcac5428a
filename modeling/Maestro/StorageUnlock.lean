import Maestro.KeyAgreement
import Maestro.Stepping

/-! The encrypted storage of the daemon from launch to launch: the key file behind a
passphrase, the key of the operating system, and the database that one key encrypts. -/
namespace Maestro.StorageUnlock
open Interleaving KeyStore Files

inductive StorageUnlockMode where
  | create
  | unlock
  deriving DecidableEq, Repr

/-- `ReadyStorage` holds the open database and its key. -/
inductive StorageState where
  | ready (key : DatabaseKey)
  | passphraseRequired (mode : StorageUnlockMode)
  | unavailable
  deriving DecidableEq

/-- The file of the database: `blank` holds no page yet. -/
inductive DatabaseFile where
  | absent
  | blank
  | keyed (key : DatabaseKey)
  deriving DecidableEq

/-- The call is killed before the first of its steps that the choices leave open. -/
def exec {α : Type} (name : String) : List Choice → Program α → Memory → Memory × Option α
  | _, .done value, m => (m, some value)
  | [], .act _ _, m => (m, none)
  | choice :: choices, .act o next, m =>
    match apply name o choice m with
    | none => (m, none)
    | some (answer, m) => exec name choices (next answer) m

section Calls
variable {crates : Crates} {passphrase name : String} {m m' : Memory}

@[simp] theorem execDone {α : Type} {value : α} (choices : List Choice) :
    exec name choices (.done value) m = (m, some value) := by
  cases choices <;> rfl

theorem execTorn {start : Config (machine crates passphrase name)} (choices : List Choice)
    {t : Task (machine crates passphrase name)} (ran : Crashing crates passphrase name start ⟨m, [t]⟩) :
    ∃ t', Crashing crates passphrase name start ⟨(exec name choices t.rest m).1, [t']⟩ := by
  induction choices generalizing m t with
  | nil =>
    cases rest : t.rest <;> exact ⟨t, ran⟩
  | cons choice choices ih =>
    cases rest : t.rest with
    | done value => exact ⟨t, ran⟩
    | act o next =>
      simp only [exec]
      cases applied : apply name o choice m with
      | none => exact ⟨t, ran⟩
      | some result =>
        obtain ⟨answer, m'⟩ := result
        have after : Crashing crates passphrase name start ⟨m', [t.advance o answer (next answer)]⟩ := by
          refine .step (e := .run 0 choice) ran (stepMoves ?_)
          simp only [step, List.getElem?_cons_zero, rest, applied, List.set_cons_zero, spawned, Option.toList_none,
            List.map_nil, List.append_nil]
        change ∃ t', Crashing crates passphrase name start ⟨(exec name choices (next answer) m').1, [t']⟩
        cases goes : next answer with
        | done value =>
          rw [execDone]
          exact ⟨_, after⟩
        | act o' next' =>
          rw [goes] at after
          exact ih after

theorem quietHere {q : Stage} {o : Act} {choice : Choice} {answer : o.Answer}
    (here : q.Here crates passphrase name m.directory) (may : q.may crates passphrase name o) (quiet : o.Quiet)
    (applied : apply name o choice m = some (answer, m')) :
    (q.after o answer).Here crates passphrase name m.directory := by
  cases o
  case createNew | write | hardLink | removeFile => exact quiet.elim
  case openRead file =>
    cases q <;> try exact may.elim
    cases answer with
    | error error => exact here
    | ok inode =>
      obtain rfl : file = name := may
      exact appliedOpenRead applied
  case read target count =>
    cases q <;> try exact may.elim
    case opened inode =>
      obtain ⟨rfl, rfl⟩ : target = inode ∧ count = maxEnvelopeBytes + 1 := may
      cases answer with
      | error error => exact here
      | ok bytes =>
        intro fits
        have found : m.directory.entries name = some target := here
        have read := appliedRead applied
        have whole : (m.directory.files target).bytes.length ≤ maxEnvelopeBytes + 1 := by
          rw [read, List.length_take] at fits
          omega
        rw [contentOf, found, Option.map_some, read, List.take_of_length_le whole]
  case generateKey =>
    cases q <;> try exact may.elim
    trivial
  case respond result =>
    cases result with
    | ok key => exact quiet.elim
    | error error => cases q <;> exact here
  all_goals cases q <;> exact here

theorem heldHere {q : Stage} {key : DatabaseKey} (here : q.Here crates passphrase name m.directory)
    (may : q.may crates passphrase name (.respond (.ok key))) : Holds crates passphrase name key m.directory := by
  cases q
  case published known =>
    obtain rfl : key = known := may
    exact here
  case got bytes =>
    obtain ⟨fits, unwrapped⟩ : bytes.length ≤ maxEnvelopeBytes ∧ unwrapKey crates passphrase bytes = .ok key := may
    exact ⟨bytes, here fits, unwrapped⟩
  all_goals exact may.elim

/-- Calls of the system that leave the directory as it is, and the end of the call. -/
def Reads : Act → Prop
  | .createNew _ | .write _ _ | .hardLink _ | .removeFile _ => False
  | _ => True

/-- With the directory as it is the program only reads, if no call misses a file that is there. -/
def ReadsFrom (name : String) (d : Directory) {α : Type} : Program α → Prop
  | .done _ => True
  | .act o next => Reads o ∧ ∀ {choice : Choice} {m m' : Memory} {answer : o.Answer}, m.directory = d →
      choice.fails ≠ some .notFound → apply name o choice m = some (answer, m') → ReadsFrom name d (next answer)

theorem onlyReads {α : Type} {d : Directory} {p : Program α} (only : p.Only Reads) : ReadsFrom name d p := by
  induction p with
  | done value => trivial
  | act o next ih => exact ⟨only.1, fun {_ _ _ answer} _ _ _ => ih answer (only.2 answer)⟩

theorem readsExec {α : Type} {post : α → Stage → Prop} {d : Directory} {choices : List Choice} {q : Stage}
    {p : Program α} (follows : (stages crates passphrase name).Follows post q p) (reads : ReadsFrom name d p)
    (plain : ∀ choice ∈ choices, choice.fails ≠ some .notFound) (here : q.Here crates passphrase name d)
    (same : m.directory = d) (told : ∀ key ∈ m.returned, Holds crates passphrase name key d) :
    (exec name choices p m).1.directory = d ∧
      ∀ key ∈ (exec name choices p m).1.returned, Holds crates passphrase name key d := by
  subst same
  induction choices generalizing m q p with
  | nil => cases p <;> exact ⟨rfl, told⟩
  | cons choice choices ih =>
    obtain ⟨found, plain⟩ := List.forall_mem_cons.mp plain
    cases p with
    | done value => exact ⟨rfl, told⟩
    | act o next =>
      simp only [exec]
      cases applied : apply name o choice m with
      | none => exact ⟨rfl, told⟩
      | some result =>
        obtain ⟨answer, m'⟩ := result
        have reads' := reads.2 rfl found applied
        by_cases quiet : o.Quiet
        · obtain rfl := appliedQuiet quiet applied
          exact ih (follows.2 answer) plain reads' (quietHere here follows.1 quiet applied) told
        · -- the only other step that is left ends the call
          cases o
          case createNew | write | hardLink | removeFile => exact reads.1.elim
          case respond result =>
            cases result with
            | error error => exact absurd trivial quiet
            | ok key =>
              cases applied
              refine ih (m := { m with returned := key :: m.returned }) (follows.2 ()) plain reads' ?_
                (List.forall_mem_cons.mpr ⟨heldHere here follows.1, told⟩)
              cases q <;> exact here
          all_goals exact absurd trivial quiet

theorem decryptReads : (decryptWrappedKey crates passphrase name).Only Reads := by
  refine ⟨trivial, fun data => ?_⟩
  cases data with
  | error error => trivial
  | ok pathMetadata =>
  simp only [Prog.bind]
  split
  · trivial
  split
  · trivial
  refine ⟨trivial, fun opened => ?_⟩
  cases opened with
  | error error => trivial
  | ok inode =>
  refine ⟨trivial, fun data => ?_⟩
  cases data with
  | error error => trivial
  | ok openedMetadata =>
  simp only [Prog.bind]
  split
  · trivial
  refine ⟨trivial, fun got => ?_⟩
  cases got with
  | error error => trivial
  | ok bytes =>
  simp only [Prog.bind]
  split <;> trivial

theorem bodyReads {d : Directory} {inode : Inode} (found : d.entries name = some inode) :
    ReadsFrom name d (body crates passphrase name ()) := by
  refine ⟨trivial, fun {_ _ _ verified} _ _ _ => ?_⟩
  cases verified with
  | error error => exact onlyReads ⟨trivial, fun _ => trivial⟩
  | ok _ =>
  refine ⟨trivial, fun {choice m _ data} same plain applied => ?_⟩
  have decrypts : ReadsFrom name d (decryptWrappedKey crates passphrase name >>= fun result =>
      perform (.respond result) >>= fun _ => (pure none : Program (Option Unit))) :=
    onlyReads (Prog.onlyBind decryptReads fun _ => ⟨trivial, fun _ => trivial⟩)
  cases data with
  | ok _ => exact decrypts
  | error error =>
    have other : error ≠ .notFound := by
      rintro rfl
      simp only [apply, same] at applied
      split at applied
      · rename_i fails
        cases applied
        exact plain fails
      · rename_i missing
        cases found.symm.trans missing
      · cases applied
    cases error
    case notFound => exact absurd rfl other
    all_goals exact onlyReads ⟨trivial, fun _ => trivial⟩

theorem bodyKept (round : crates.RoundTrips) {d : Directory} {inode : Inode} (found : d.entries name = some inode)
    {choices : List Choice} (plain : ∀ choice ∈ choices, choice.fails ≠ some .notFound) :
    (exec name choices (body crates passphrase name ()) ⟨d, []⟩).1.directory = d ∧
      ∀ key ∈ (exec name choices (body crates passphrase name ()) ⟨d, []⟩).1.returned,
        Holds crates passphrase name key d :=
  readsExec (stagesSound round ()) (bodyReads found) plain trivial rfl fun _ member => by cases member

theorem bodyMade (round : crates.RoundTrips) (reserved : ∀ random, temporaryNameOf random ≠ name) {d : Directory}
    (absent : d.entries name = none) (choices : List Choice) :
    Agreed crates passphrase name none (exec name choices (body crates passphrase name ()) ⟨d, []⟩).1 := by
  have opening : Agreed crates passphrase name none ⟨d, []⟩ := by
    refine ⟨fun bytes shown => ?_, fun _ known => (by cases known), fun _ member => (by cases member)⟩
    have shown : d.content name = some bytes := shown
    rw [contentOf, absent] at shown
    cases shown
  have called : Crashing crates passphrase name ⟨⟨d, []⟩, []⟩ ⟨⟨d, []⟩, [.enter ()]⟩ :=
    .step (e := .call ()) .start (stepMoves rfl)
  obtain ⟨t, ran⟩ := execTorn choices called
  exact (crashingHolds round reserved (Outline.holdsEmpty opening) ran).inv

end Calls

/-- What `create_daily_snapshot`, `Database::open` and `recover_interrupted_work` come to; `after`
is the file behind them, and `left` whether its write-ahead log holds bytes. -/
structure Opening where
  snapshot : Bool
  after : DatabaseFile
  left : Bool
  opened : Bool
  recovered : Bool

/-- SQLCipher: a file written with one key opens with no other, and is not written anew. -/
def Opening.Lawful (o : Opening) (key : DatabaseKey) : DatabaseFile → Prop
  | .keyed known => o.after = .keyed known ∧ (o.opened = true → known = key)
  | before => (o.after = before ∨ o.after = .blank ∨ o.after = .keyed key) ∧
      (o.opened = true → o.after = .keyed key)

instance (o : Opening) (key : DatabaseKey) (before : DatabaseFile) : Decidable (o.Lawful key before) := by
  cases before <;> unfold Opening.Lawful <;> infer_instance

/-- The file and its log, and whether the storage is ready behind it. -/
structure Opened where
  file : DatabaseFile
  logged : Bool
  ready : Bool

/-- The probe refuses a file whose log holds bytes. -/
def openPersistentDatabase (file : DatabaseFile) (logged : Bool) (o : Opening) : Opened :=
  if file ≠ .absent ∧ (o.snapshot = false ∨ logged = true) then ⟨file, logged, false⟩
  else ⟨o.after, o.left, o.opened && o.recovered⟩

/-- What the service of the operating system answers. -/
structure Keyring where
  fails : Bool
  drawn : DatabaseKey
  setFails : Bool
  stored : Bool

/-- `OsKeyStore::load_or_create`, on the entry of the service. -/
def osLoadOrCreate (entry : Option DatabaseKey) (service : Keyring) : Option DatabaseKey × Option DatabaseKey :=
  if service.fails then (none, entry)
  else match entry with
    | some key => (some key, entry)
    | none =>
      if service.setFails then (none, if service.stored then some service.drawn else none)
      else (some service.drawn, some service.drawn)

/-- What outlives a daemon, and the state of the one that runs; `logged` tells whether the log of
the database holds bytes. -/
structure World where
  directory : Directory
  database : DatabaseFile
  logged : Bool
  keyring : Option DatabaseKey
  runtime : Option StorageState

inductive Label where
  | launch (service : Keyring) (opening : Opening)
  | unlock (passphrase : String) (choices : List Choice) (opening : Opening)
  | exit (left : Bool)
  | keyring (entry : Option DatabaseKey)

section Runtime
variable (crates : Crates) (linux : Bool) (name : String)

/-- The call of the key store within `unlock`. -/
def World.load (w : World) (passphrase : String) (choices : List Choice) : Memory × Option (Option Unit) :=
  exec name choices (body crates passphrase name ()) ⟨w.directory, []⟩

def World.initializePersistent (w : World) (service : Keyring) (opening : Opening) : World :=
  match w.directory.entries name with
  | some _ => { w with runtime := some (.passphraseRequired .unlock) }
  | none =>
    match osLoadOrCreate w.keyring service with
    | (some key, keyring) =>
      let opened := openPersistentDatabase w.database w.logged opening
      { w with
        keyring
        database := opened.file
        logged := opened.logged
        runtime := some (if opened.ready then .ready key else .unavailable) }
    | (none, keyring) =>
      { w with
        keyring
        runtime := some (if linux ∧ w.database = .absent then .passphraseRequired .create else .unavailable) }

def World.unlock (w : World) (passphrase : String) (choices : List Choice) (opening : Opening) : World :=
  match w.runtime with
  | some (.passphraseRequired mode) =>
    if passphrase = "" then w
    else
      let (m, ended) := w.load crates name passphrase choices
      match ended, m.returned with
      | none, _ => { w with directory := m.directory, runtime := none }
      | some _, [] => { w with directory := m.directory, runtime := some (.passphraseRequired mode) }
      | some _, key :: _ =>
        let opened := openPersistentDatabase w.database w.logged opening
        { w with
          directory := m.directory
          database := opened.file
          logged := opened.logged
          runtime := some (if opened.ready then .ready key else .passphraseRequired .unlock) }
  | _ => w

/-- A ready daemon that is killed may leave bytes in the log; one that exits leaves none. -/
def World.exit (w : World) (left : Bool) : World :=
  match w.runtime with
  | some (.ready _) => { w with runtime := none, logged := left }
  | _ => { w with runtime := none }

def step (w : World) : Label → Option World
  | .launch service opening =>
    match w.runtime with
    | none => some (w.initializePersistent linux name service opening)
    | some _ => none
  | .unlock passphrase choices opening =>
    match w.runtime with
    | none => none
    | some _ => some (w.unlock crates name passphrase choices opening)
  | .exit left => some (w.exit left)
  | .keyring entry => some { w with keyring := entry }

/-- What the system around the daemon does: no call misses a file that is there. -/
def May (w : World) : Label → Prop
  | .launch service opening => ∀ key ∈ (osLoadOrCreate w.keyring service).1, opening.Lawful key w.database
  | .unlock passphrase choices opening => (∀ choice ∈ choices, choice.fails ≠ some .notFound) ∧
      ∀ key ∈ (w.load crates name passphrase choices).1.returned, opening.Lawful key w.database
  | .exit _ | .keyring _ => True

instance (w : World) (label : Label) : Decidable (May crates name w label) := by
  cases label <;> unfold May <;> infer_instance

def installed (directory : Directory) (keyring : Option DatabaseKey) : World :=
  ⟨directory, .absent, false, keyring, none⟩

abbrev Reached (w w' : World) : Prop := Stepping.Reach (step crates linux name) (May crates name) w w'

end Runtime

section Stored
variable (crates : Crates) (name : String)

/-- The key file, once there, opens to a key that no database contradicts. -/
structure Sound (w : World) : Prop where
  opens : ∀ {bytes : Bytes}, w.directory.content name = some bytes → ∃ passphrase key, passphrase ≠ "" ∧
    unwrapKey crates passphrase bytes = .ok key ∧ ∀ known, w.database = .keyed known → known = key
  ready : ∀ {key}, w.runtime = some (.ready key) → w.database = .keyed key
  locked : w.runtime = some (.passphraseRequired .unlock) → w.directory.entries name ≠ none
  creates : ∀ {mode}, w.runtime = some (.passphraseRequired mode) → w.directory.entries name = none →
    w.database = .absent

structure Keeps (w w' : World) : Prop where
  file : ∀ {bytes : Bytes}, w.directory.content name = some bytes → w'.directory.content name = some bytes
  database : ∀ {key}, w.database = .keyed key → w'.database = .keyed key

variable {crates name} {linux logged : Bool} {w w' w'' : World} {file : DatabaseFile} {key : DatabaseKey}
  {o : Opening}

theorem keepsRefl (w : World) : Keeps name w w := ⟨id, id⟩

theorem keepsTrans (first : Keeps name w w') (second : Keeps name w' w'') : Keeps name w w'' :=
  ⟨fun shown => second.file (first.file shown), fun keyed => second.database (first.database keyed)⟩

theorem openedKeeps (lawful : o.Lawful key file) {known : DatabaseKey} (keyed : file = .keyed known) :
    (openPersistentDatabase file logged o).file = .keyed known := by
  subst keyed
  unfold openPersistentDatabase
  split
  · rfl
  · exact lawful.1

theorem openedReady (lawful : o.Lawful key file) (opened : (openPersistentDatabase file logged o).ready = true) :
    (openPersistentDatabase file logged o).file = .keyed key := by
  unfold openPersistentDatabase at opened ⊢
  split at opened
  · cases opened
  · rename_i passes
    rw [if_neg passes]
    obtain ⟨opened, _⟩ := Bool.and_eq_true_iff.mp opened
    cases file with
    | keyed known => exact lawful.2 opened ▸ lawful.1
    | absent | blank => exact lawful.2 opened

theorem openedOnly (lawful : o.Lawful key file) {known : DatabaseKey}
    (keyed : (openPersistentDatabase file logged o).file = .keyed known) : file = .keyed known ∨ known = key := by
  unfold openPersistentDatabase at keyed
  split at keyed
  · exact .inl keyed
  · cases file with
    | keyed other => exact .inl (lawful.1.symm.trans keyed)
    | absent | blank =>
      rcases lawful.1 with same | blank | mine
      · cases same.symm.trans keyed
      · cases blank.symm.trans keyed
      · exact .inr (DatabaseFile.keyed.inj (mine.symm.trans keyed)).symm

theorem shownThere {d : Directory} : d.content name = none ↔ d.entries name = none := by
  rw [contentOf, Option.map_eq_none_iff]

theorem launchSound (sound : Sound crates name w) {service : Keyring}
    (lawful : ∀ key ∈ (osLoadOrCreate w.keyring service).1, o.Lawful key w.database) :
    Sound crates name (w.initializePersistent linux name service o) ∧
      Keeps name w (w.initializePersistent linux name service o) := by
  unfold World.initializePersistent
  split
  · rename_i inode found
    refine ⟨⟨sound.opens, fun ready => (by cases ready), fun _ missing => ?_, fun _ missing => ?_⟩, id, id⟩
    · cases found.symm.trans missing
    · cases found.symm.trans missing
  · rename_i missing
    have hidden : ∀ {bytes : Bytes}, w.directory.content name ≠ some bytes := fun shown => by
      rw [shownThere.mpr missing] at shown
      cases shown
    split
    · rename_i key keyring loaded
      have lawful := lawful key (by rw [loaded]; rfl)
      refine ⟨⟨fun shown => absurd shown hidden, fun ready => ?_, fun waits => ?_, fun waits => ?_⟩, id,
        openedKeeps lawful⟩
      · have ready := Option.some.inj ready
        split at ready
        · rename_i opened
          cases ready
          exact openedReady lawful opened
        · cases ready
      · have waits := Option.some.inj waits
        split at waits <;> cases waits
      · have waits := Option.some.inj waits
        split at waits <;> cases waits
    · refine ⟨⟨fun shown => absurd shown hidden, fun ready => ?_, fun waits => ?_, fun waits _ => ?_⟩, id, id⟩
      · have ready := Option.some.inj ready
        split at ready <;> cases ready
      · have waits := Option.some.inj waits
        split at waits <;> cases waits
      · have waits := Option.some.inj waits
        split at waits
        · rename_i new
          exact new.2
        · cases waits

theorem loadKeeps (w : World) (passphrase : String) (round : crates.RoundTrips)
    (reserved : ∀ random, temporaryNameOf random ≠ name) {choices : List Choice}
    (plain : ∀ choice ∈ choices, choice.fails ≠ some .notFound) :
    (∀ {bytes : Bytes}, w.directory.content name = some bytes →
      (w.load crates name passphrase choices).1.directory.content name = some bytes) ∧
    (w.directory.entries name = none → ∀ {bytes : Bytes},
      (w.load crates name passphrase choices).1.directory.content name = some bytes →
        ∃ key, unwrapKey crates passphrase bytes = .ok key) ∧
    ∀ key ∈ (w.load crates name passphrase choices).1.returned,
      Holds crates passphrase name key (w.load crates name passphrase choices).1.directory := by
  cases found : w.directory.entries name with
  | some inode =>
    have kept : (w.load crates name passphrase choices).1.directory = w.directory ∧
        ∀ key ∈ (w.load crates name passphrase choices).1.returned, Holds crates passphrase name key w.directory :=
      bodyKept round found plain
    refine ⟨fun shown => ?_, fun missing => (by cases missing), fun key member => ?_⟩
    · rw [kept.1]
      exact shown
    · rw [kept.1]
      exact kept.2 key member
  | none =>
    have made : Agreed crates passphrase name none (w.load crates name passphrase choices).1 :=
      bodyMade round reserved found choices
    refine ⟨fun shown => ?_, fun _ _ => made.whole _, made.returned⟩
    rw [shownThere.mpr found] at shown
    cases shown

theorem unlockSound (round : crates.RoundTrips) (reserved : ∀ random, temporaryNameOf random ≠ name)
    (sound : Sound crates name w) {passphrase : String} {choices : List Choice}
    (plain : ∀ choice ∈ choices, choice.fails ≠ some .notFound)
    (lawful : ∀ key ∈ (w.load crates name passphrase choices).1.returned, o.Lawful key w.database) :
    Sound crates name (w.unlock crates name passphrase choices o) ∧
      Keeps name w (w.unlock crates name passphrase choices o) := by
  obtain ⟨kept, made, told⟩ := loadKeeps w passphrase round reserved plain
  unfold World.unlock
  split
  swap
  · exact ⟨sound, keepsRefl w⟩
  rename_i mode waiting
  split
  · exact ⟨sound, keepsRefl w⟩
  rename_i given
  generalize loaded : w.load crates name passphrase choices = load at kept made told lawful ⊢
  obtain ⟨m, ended⟩ := load
  -- before the database is opened
  have opens {bytes : Bytes} (shown : m.directory.content name = some bytes) : ∃ passphrase key, passphrase ≠ "" ∧
      unwrapKey crates passphrase bytes = .ok key ∧ ∀ known, w.database = .keyed known → known = key := by
    cases found : w.directory.entries name with
    | some inode =>
      obtain ⟨before, there⟩ := Option.ne_none_iff_exists'.mp (fun hidden => by
        cases found.symm.trans (shownThere.mp hidden) : w.directory.content name ≠ none)
      cases (kept there).symm.trans shown
      exact sound.opens there
    | none =>
      obtain ⟨key, unwrapped⟩ := made found shown
      refine ⟨passphrase, key, given, unwrapped, fun known keyed => ?_⟩
      cases (sound.creates waiting found).symm.trans keyed
  have still (missing : m.directory.entries name = none) : w.directory.entries name = none := by
    by_contra found
    obtain ⟨bytes, shown⟩ := Option.ne_none_iff_exists'.mp (mt shownThere.mp found)
    cases (shownThere.mpr missing).symm.trans (kept shown)
  dsimp only
  cases ended with
  | none =>
    refine ⟨⟨opens, fun ready => (by cases ready), fun waits => (by cases waits), fun waits => (by cases waits)⟩,
      kept, id⟩
  | some _ =>
  cases returned : m.returned with
  | nil =>
    refine ⟨⟨opens, fun ready => (by cases ready), fun waits missing => ?_, fun waits missing => ?_⟩, kept, id⟩
    · cases waits
      exact sound.locked waiting (still missing)
    · exact sound.creates waiting (still missing)
  | cons key rest =>
    have lawful := lawful key (by rw [returned]; exact List.mem_cons_self)
    obtain ⟨bytes, shown, unwrapped⟩ := told key (by rw [returned]; exact List.mem_cons_self)
    have there : m.directory.entries name ≠ none := fun missing => by
      cases (shownThere.mpr missing).symm.trans shown
    refine ⟨⟨fun {bytes'} shown' => ?_, fun ready => ?_, fun _ => there, fun _ missing => absurd missing there⟩, kept,
      openedKeeps lawful⟩
    · by_cases keyed : ∃ known, w.database = .keyed known
      · obtain ⟨known, keyed⟩ := keyed
        obtain ⟨passphrase, key, given, opened, same⟩ := opens shown'
        refine ⟨passphrase, key, given, opened, fun other now => same other ?_⟩
        rw [keyed, ← openedKeeps lawful keyed]
        exact now
      · cases shown.symm.trans shown'
        exact ⟨passphrase, key, given, unwrapped, fun known now =>
          (openedOnly lawful now).resolve_left fun before => keyed ⟨known, before⟩⟩
    · have ready := Option.some.inj ready
      split at ready
      · rename_i opened
        cases ready
        exact openedReady lawful opened
      · cases ready

theorem exitSound {left : Bool} (sound : Sound crates name w) :
    Sound crates name (w.exit left) ∧ Keeps name w (w.exit left) := by
  unfold World.exit
  split <;> exact ⟨⟨sound.opens, fun ready => (by cases ready), fun waits => (by cases waits),
    fun waits => (by cases waits)⟩, id, id⟩

theorem stepSound (round : crates.RoundTrips) (reserved : ∀ random, temporaryNameOf random ≠ name)
    {label : Label} (sound : Sound crates name w) (may : May crates name w label)
    (steps : step crates linux name w label = some w') : Sound crates name w' ∧ Keeps name w w' := by
  cases label with
  | launch service opening =>
    simp only [step] at steps
    split at steps
    · cases steps
      exact launchSound sound may
    · cases steps
  | unlock passphrase choices opening =>
    simp only [step] at steps
    split at steps
    · cases steps
    · cases steps
      exact unlockSound round reserved sound may.1 may.2
  | exit left =>
    cases steps
    exact exitSound sound
  | keyring entry =>
    cases steps
    exact ⟨⟨sound.opens, sound.ready, sound.locked, sound.creates⟩, id, id⟩

theorem reachedSound (round : crates.RoundTrips) (reserved : ∀ random, temporaryNameOf random ≠ name)
    (sound : Sound crates name w) (reached : Reached crates linux name w w') :
    Sound crates name w' ∧ Keeps name w w' := by
  induction reached with
  | start => exact ⟨sound, keepsRefl w⟩
  | step label before may steps ih =>
    obtain ⟨sound', kept⟩ := stepSound round reserved ih.1 may steps
    exact ⟨sound', keepsTrans ih.2 kept⟩

theorem installedSound {d : Directory} {entry : Option DatabaseKey} (absent : d.entries name = none) :
    Sound crates name (installed d entry) where
  opens shown := by
    have shown : d.content name = some _ := shown
    rw [shownThere.mpr absent] at shown
    cases shown
  ready ready := by cases ready
  locked waits := by cases waits
  creates waits := by cases waits

theorem unlockHolds (round : crates.RoundTrips) (reserved : ∀ random, temporaryNameOf random ≠ name)
    {passphrase : String} {choices : List Choice} (plain : ∀ choice ∈ choices, choice.fails ≠ some .notFound)
    (before : w.runtime ≠ some (.ready key))
    (ready : (w.unlock crates name passphrase choices o).runtime = some (.ready key)) :
    Holds crates passphrase name key (w.unlock crates name passphrase choices o).directory := by
  have told := (loadKeeps w passphrase round reserved plain).2.2
  unfold World.unlock at ready ⊢
  split at ready
  swap
  · exact absurd ready before
  split at ready
  · exact absurd ready before
  rename_i given
  rw [if_neg given]
  generalize w.load crates name passphrase choices = load at told ready ⊢
  obtain ⟨m, ended⟩ := load
  dsimp only at ready ⊢
  cases ended with
  | none => cases ready
  | some _ =>
  cases returned : m.returned with
  | nil =>
    rw [returned] at ready
    cases ready
  | cons known rest =>
    rw [returned] at ready
    have ready := Option.some.inj ready
    split at ready
    · cases ready
      exact told key (by rw [returned]; exact List.mem_cons_self)
    · cases ready

def healthy : Choice := ⟨none, none, 0, []⟩

end Stored

/-- From launch to launch, whatever calls fail or are killed: the key file and the key of the
database stay what they once are, a daemon is ready with the key of its database only, who
unlocks it has a passphrase of the key file, and the key file always opens, under some passphrase,
to a key that no database contradicts. -/
theorem storageUnlocks {crates : Crates} {name : String} {linux : Bool} (round : crates.RoundTrips)
    (reserved : ∀ random, temporaryNameOf random ≠ name) {d : Directory} (absent : d.entries name = none)
    {entry : Option DatabaseKey} {w : World} (reached : Reached crates linux name (installed d entry) w) :
    (∀ key, w.runtime = some (.ready key) → w.database = .keyed key) ∧
    (∀ {w'}, Reached crates linux name w w' → Keeps name w w') ∧
    (∀ {passphrase choices opening key w'}, May crates name w (.unlock passphrase choices opening) →
      step crates linux name w (.unlock passphrase choices opening) = some w' →
      w.runtime ≠ some (.ready key) → w'.runtime = some (.ready key) →
        ∃ bytes, w'.directory.content name = some bytes ∧ unwrapKey crates passphrase bytes = .ok key) ∧
    ∀ {bytes}, w.directory.content name = some bytes → ∃ passphrase key, passphrase ≠ "" ∧
      unwrapKey crates passphrase bytes = .ok key ∧ ∀ known, w.database = .keyed known → known = key := by
  have sound := (reachedSound round reserved (installedSound absent) reached).1
  refine ⟨fun key => sound.ready, fun later => (reachedSound round reserved sound later).2, ?_, sound.opens⟩
  intro passphrase choices opening key w' may steps before ready
  simp only [step] at steps
  split at steps
  · cases steps
  · cases steps
    exact unlockHolds round reserved may.1 before ready

/-! The key file is made under a passphrase; a daemon that is started anew takes no other, and none
at all while the log of a killed one holds bytes. -/

def makes : List Choice :=
  [system, system, draws 32 0, draws 16 0, draws 24 0, system, draws 16 0, system, { system with count := 784 },
    system, system, system, system, system, system, system, system]

def firstKey : DatabaseKey := ⟨List.replicate 32 0, rfl⟩

def opensFirst : Opening := ⟨true, .keyed firstKey, true, true, true⟩

/-- The first daemon exits; the last two follow one that was killed. -/
def relaunched : List Label :=
  [.launch ⟨true, firstKey, true, true⟩ opensFirst, .unlock "secret" makes opensFirst, .exit false,
    .launch ⟨false, firstKey, false, false⟩ opensFirst, .unlock "other" (List.replicate 7 healthy) opensFirst,
    .unlock "secret" (List.replicate 7 healthy) opensFirst]

def killed : List Label :=
  [.exit true, .launch ⟨false, firstKey, false, false⟩ opensFirst,
    .unlock "secret" (List.replicate 7 healthy) opensFirst]

theorem relaunchedStates : (Stepping.run (step plainCrates true "database-key-v1.json")
    (May plainCrates "database-key-v1.json") (installed emptyDirectory none) relaunched).map
      (fun w => (w.runtime, (Stepping.run (step plainCrates true "database-key-v1.json")
        (May plainCrates "database-key-v1.json") w killed).map (·.runtime))) =
      some (some (.ready firstKey), some (some (.passphraseRequired .unlock))) := by
  decide +kernel

theorem storageUnlocksRelaunched : ∃ w : World, w.runtime = some (.ready firstKey) ∧ w.database = .keyed firstKey ∧
    (∀ {w'}, Reached plainCrates true "database-key-v1.json" w w' → Keeps "database-key-v1.json" w w') ∧
      ∃ w', Reached plainCrates true "database-key-v1.json" w w' ∧
        w'.runtime = some (.passphraseRequired .unlock) ∧ w'.database = .keyed firstKey := by
  obtain ⟨w, ran, states⟩ := Option.map_eq_some_iff.mp relaunchedStates
  obtain ⟨ready, after⟩ := Prod.mk.inj states
  obtain ⟨w', ran', waits⟩ := Option.map_eq_some_iff.mp after
  have unlocks := storageUnlocks plainRoundTrips temporaryReserved (d := emptyDirectory) rfl
    (Stepping.reachRun .start ran)
  have keyed := unlocks.1 firstKey ready
  have later := Stepping.reachRun .start ran'
  exact ⟨w, ready, keyed, fun later => unlocks.2.1 later, w', later, waits, (unlocks.2.1 later).database keyed⟩

end Maestro.StorageUnlock
