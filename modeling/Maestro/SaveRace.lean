import Maestro.FileSave

/-! Calls of `save_text` on one file, in every order of their steps: whose text the file shows
when a call renames its own over it. -/
namespace Maestro.Saving
open Interleaving Prog Protocol Files

/-- How far a call has come. A temporary file is `written` when it holds the whole text, and
`spoilt` when it may hold a part of it. -/
inductive Stage where
  | reading (save : Save) (found : Bool)
  | named (save : Save) (temporary : String)
  | writing (save : Save) (temporary : String) (inode : Inode)
  | spoilt (save : Save) (temporary : String)
  | written (save : Save) (temporary : String) (inode : Inode)
  | published (save : Save) (temporary : String)
  | failed (save : Save)
  | answered (save : Save)

namespace Stage

def save : Stage → Save
  | .reading save _ | .named save _ | .writing save _ _ | .spoilt save _ | .written save _ _
  | .published save _ | .failed save | .answered save => save

def temporary : Stage → Option String
  | .named _ temporary | .writing _ temporary _ | .spoilt _ temporary | .written _ temporary _
  | .published _ temporary => some temporary
  | _ => none

def may (name : String) : Stage → Act → Prop
  | .reading _ _, .openParent | .reading _ _, .metadata _ | .reading _ _, .read _ _ => True
  | .reading _ _, .openat file | .written _ _ _, .openat file => file = name
  | .reading _ found, .temporaryName => found = true
  | .reading _ _, .respond result | .failed _, .respond result => ∃ error, result = .error error
  | .named _ temporary, .create other => other = temporary
  | .writing _ _ inode, .setPermissions other _ => other = inode
  | .writing save _ inode, .writeAll other bytes => other = inode ∧ bytes = save.text
  | .writing _ temporary _, .unlink other | .spoilt _ temporary, .unlink other
  | .written _ temporary _, .unlink other | .published _ temporary, .unlink other => other = temporary
  | .written _ _ _, .syncAll _ | .written _ _ _, .metadata _ | .written _ _ _, .read _ _ => True
  | .written save temporary _, .rename other renamed => other = temporary ∧ renamed = save
  | .published _ _, .syncDirectory => True
  | .published _ _, .respond result => ∃ saved, result = .ok saved
  | _, _ => False

def after : Stage → (o : Act) → o.Answer → Stage
  | .reading save _, .openat _, .ok _ => .reading save true
  | .reading save _, .temporaryName, temporary => .named save temporary
  | .named save temporary, .create _, .ok inode => .writing save temporary inode
  | .named save _, .create _, .error _ => .failed save
  | .writing save temporary _, .writeAll _ _, .error _ => .spoilt save temporary
  | .writing save temporary inode, .writeAll _ _, .ok _ => .written save temporary inode
  | .written save temporary _, .rename _ _, .ok _ => .published save temporary
  | .writing save _ _, .unlink _, _ | .spoilt save _, .unlink _, _ | .written save _ _, .unlink _, _
  | .published save _, .unlink _, _ => .failed save
  | .published save _, .respond _, _ => .answered save
  | q, _, _ => q

end Stage

section Stages
variable (service : FileService) (name : String)

abbrev stages : Protocol (machine service name) where
  Place := Stage
  enter save := .reading save false
  may q o := q.may name o
  after q o answer := q.after o answer
  ends _ := True

variable {service name} {save : Save}

theorem readingFollows {operation : String} {found : Bool} :
    (stages service name).Follows (fun result q => ∃ found, q = .reading save found ∧
        ∀ read, result = .ok read → found = true)
      (.reading save found) (readFromParent service name operation) := by
  have opens : (stages service name).Follows (fun result q => ∃ found, q = .reading save found ∧
      ∀ inode, result = .ok inode → found = true)
      (.reading save found) (openRegular name operation) := by
    refine followsStep rfl fun opened => ?_
    cases opened with
    | error kind => cases kind <;> exact ⟨found, rfl, nofun⟩
    | ok inode =>
      refine followsStep trivial fun data => ?_
      cases data with
      | error kind => exact ⟨true, rfl, nofun⟩
      | ok metadata =>
        dsimp only
        split
        · exact ⟨true, rfl, fun _ _ => rfl⟩
        · exact ⟨true, rfl, nofun⟩
  refine followsSeq opens fun opened q here => ?_
  obtain ⟨found, rfl, known⟩ := here
  cases opened with
  | error error => exact ⟨found, rfl, nofun⟩
  | ok inode =>
    obtain rfl := known inode rfl
    refine followsStep trivial fun before => ?_
    cases before with
    | error kind => exact ⟨true, rfl, nofun⟩
    | ok before =>
      dsimp only
      split
      · exact ⟨true, rfl, nofun⟩
      refine followsStep trivial fun got => ?_
      cases got with
      | error kind => exact ⟨true, rfl, nofun⟩
      | ok bytes =>
        dsimp only
        split
        · exact ⟨true, rfl, nofun⟩
        refine followsStep trivial fun later => ?_
        cases later with
        | error kind => exact ⟨true, rfl, nofun⟩
        | ok later =>
          dsimp only
          split
          · exact ⟨true, rfl, nofun⟩
          · exact ⟨true, rfl, fun _ _ => rfl⟩

def Act.Reads (name : String) : Act → Prop
  | .openat file => file = name
  | .metadata _ | .read _ _ => True
  | _ => False

theorem readFromParentReads {operation : String} :
    (readFromParent service name operation).Only (Act.Reads name) := by
  refine onlyBind ⟨rfl, fun opened => ?_⟩ fun opened => ?_
  · cases opened with
    | error kind => cases kind <;> trivial
    | ok inode =>
      refine ⟨trivial, fun data => ?_⟩
      cases data with
      | error kind => trivial
      | ok metadata =>
        simp only [Prog.bind]
        split <;> trivial
  · cases opened with
    | error error => trivial
    | ok inode =>
      refine ⟨trivial, fun before => ?_⟩
      cases before with
      | error kind => trivial
      | ok before =>
        simp only [Prog.bind]
        split
        · trivial
        refine ⟨trivial, fun got => ?_⟩
        cases got with
        | error kind => trivial
        | ok bytes =>
          simp only [Prog.bind]
          split
          · trivial
          refine ⟨trivial, fun later => ?_⟩
          cases later with
          | error kind => trivial
          | ok later =>
            simp only [Prog.bind]
            split <;> trivial

theorem readsWritten {temporary : String} {inode : Inode} {operation : String} :
    (stages service name).Stays (.written save temporary inode)
      (readFromParent service name operation) := by
  refine staysOnly readFromParentReads fun o reads => ?_
  cases o <;> first | exact reads.elim | exact ⟨reads, fun _ => rfl⟩

theorem writeAndRenameFollows {temporary : String} {inode : Inode} {mode : Nat} :
    (stages service name).Follows (fun result q =>
        (∃ saved, result = .ok saved ∧ q = .published save temporary) ∨
          (∃ error, result = .error error) ∧ q.may name (.unlink temporary) ∧
            ∀ answer, q.after (.unlink temporary) answer = .failed save)
      (.writing save temporary inode)
      (writeAndRename service name save temporary inode mode) := by
  refine followsStep rfl fun permitted => ?_
  cases permitted with
  | error kind => exact .inr ⟨⟨_, rfl⟩, rfl, fun _ => rfl⟩
  | ok _ =>
  refine followsStep ⟨rfl, rfl⟩ fun wrote => ?_
  cases wrote with
  | error kind => exact .inr ⟨⟨_, rfl⟩, rfl, fun _ => rfl⟩
  | ok _ =>
  refine followsStep trivial fun synced => ?_
  cases synced with
  | error kind => exact .inr ⟨⟨_, rfl⟩, rfl, fun _ => rfl⟩
  | ok _ =>
  refine staysSeq readsWritten fun latest => ?_
  cases latest with
  | error error => exact .inr ⟨⟨_, rfl⟩, rfl, fun _ => rfl⟩
  | ok latest =>
  dsimp only
  split
  · exact .inr ⟨⟨_, rfl⟩, rfl, fun _ => rfl⟩
  refine followsStep ⟨rfl, rfl⟩ fun renamed => ?_
  cases renamed with
  | error kind => exact .inr ⟨⟨_, rfl⟩, rfl, fun _ => rfl⟩
  | ok _ =>
  refine followsStep trivial fun synced => ?_
  cases synced with
  | error kind => exact .inr ⟨⟨_, rfl⟩, rfl, fun _ => rfl⟩
  | ok _ => exact .inl ⟨_, rfl, rfl⟩

theorem saveTextFollows : (stages service name).Follows (fun result q => q.may name (.respond result))
    (.reading save false) (saveText service name save) := by
  unfold saveText
  split
  · exact ⟨_, rfl⟩
  refine followsStep trivial fun opened => ?_
  cases opened with
  | error error => exact ⟨_, rfl⟩
  | ok _ =>
  refine followsSeq readingFollows fun current q ⟨found, here, known⟩ => ?_
  subst here
  cases current with
  | error error => exact ⟨_, rfl⟩
  | ok current =>
  obtain rfl := known current rfl
  dsimp only
  split
  · exact ⟨_, rfl⟩
  refine followsStep rfl fun temporary => ?_
  refine followsStep rfl fun created => ?_
  cases created with
  | error kind => exact ⟨_, rfl⟩
  | ok inode =>
  refine followsSeq writeAndRenameFollows fun result q ended => ?_
  rcases ended with ⟨saved, rfl, rfl⟩ | ⟨⟨error, rfl⟩, unlinks, fails⟩
  · exact ⟨saved, rfl⟩
  · refine followsStep unlinks fun answer => ?_
    refine (congrArg (Stage.may name · _) (fails answer)).mpr ?_
    exact ⟨error, rfl⟩

theorem stagesSound : (stages service name).Sound := by
  intro save
  refine followsSeq saveTextFollows fun result q here => ?_
  exact followsStep here fun _ => trivial

end Stages

section Shown
variable (service : FileService)

/-- What the file shows behind the published saves. -/
def latest : Option Bytes → List Save → Option Bytes
  | first, [] => first
  | _, save :: rest => latest (some save.text) rest

/-- Every published save expected what it replaced. -/
def Served : Option Bytes → List Save → Prop
  | _, [] => True
  | shown, save :: rest =>
    (∃ bytes, shown = some bytes ∧ service.fingerprint bytes = save.expected) ∧
      Served (some save.text) rest

variable {service} {first : Option Bytes} {saves : List Save} {save : Save}

theorem latestAppend : latest first (saves ++ [save]) = some save.text := by
  induction saves generalizing first with
  | nil => rfl
  | cons head rest ih => exact ih

theorem servedAppend (served : Served service first saves)
    (last : ∃ bytes, latest first saves = some bytes ∧ service.fingerprint bytes = save.expected) :
    Served service first (saves ++ [save]) := by
  induction saves generalizing first with
  | nil => exact ⟨last, trivial⟩
  | cons head rest ih => exact ⟨served.1, ih served.2 last⟩

theorem servedNext {before after : List Save} {a b : Save}
    (served : Served service first (before ++ a :: b :: after)) :
    service.fingerprint a.text = b.expected := by
  induction before generalizing first with
  | nil =>
    obtain ⟨_, ⟨bytes, same, expected⟩, _⟩ := served
    cases same
    exact expected
  | cons head rest ih => exact ih served.2

theorem servedOnce {expected : FileFingerprint} (served : Served service first saves)
    (alike : ∀ save ∈ saves, save.expected = expected ∧ service.fingerprint save.text ≠ expected) :
    saves.length ≤ 1 := by
  match saves, served with
  | [], _ => exact Nat.zero_le 1
  | [_], _ => exact Nat.le_refl 1
  | a :: b :: rest, served =>
    obtain ⟨_, ⟨bytes, same, follows⟩, _⟩ := served
    cases same
    obtain ⟨expects, _⟩ := alike b (by simp)
    exact absurd (follows.trans expects) (alike a (by simp)).2

end Shown

theorem numberedInj {before after : String} {a b : Nat}
    (same : before ++ toString a ++ after = before ++ toString b ++ after) : a = b := by
  have digits := congrArg String.toList same
  simp only [String.toList_append, List.append_cancel_right_eq, List.append_cancel_left_eq,
    Nat.toString_eq_repr, Nat.toList_repr] at digits
  have values := congrArg (Nat.ofDigitChars 10 · 0) digits
  simpa only [Nat.ofDigitChars_ten_toDigits] using values

theorem temporaryNameInj {processId a b : Nat}
    (same : temporaryNameOf processId a = temporaryNameOf processId b) : a = b :=
  numberedInj same

section Outlines
variable (service : FileService) (name : String)

def Drawn (m : Workspace) (temporary : String) : Prop :=
  ∃ counter < m.counter, temporary = temporaryNameOf service.processId counter

def Stage.Here : Stage → Workspace → Prop
  | .reading _ found, m => found = true → m.directory.entries name ≠ none
  | .named _ temporary, m => Drawn service m temporary ∧ m.directory.entries name ≠ none
  | .writing _ temporary inode, m =>
    Drawn service m temporary ∧ Owns name m.directory temporary inode ∧
      (m.directory.files inode).bytes = []
  | .spoilt _ temporary, m => Drawn service m temporary ∧ temporary ≠ name
  | .written save temporary inode, m =>
    Drawn service m temporary ∧ Owns name m.directory temporary inode ∧
      (m.directory.files inode).bytes = save.text
  | .published save temporary, m =>
    Drawn service m temporary ∧ temporary ≠ name ∧ save ∈ m.published
  | .failed _, _ => True
  | .answered save, m => save ∈ m.published

def Stage.Apart (q other : Stage) : Prop :=
  ∀ temporary, q.temporary = some temporary → other.temporary ≠ some temporary

structure Showing (first : Option Bytes) (m : Workspace) : Prop where
  content : m.directory.content name = latest first m.published
  served : Served service first m.published

abbrev saving (first : Option Bytes) : Outline (stages service name) where
  Inv := Showing service name first
  Here q m := q.Here service name m
  Apart q other := q.Apart other

structure Spares (other : Stage) (m m' : Workspace) : Prop where
  counter : m.counter ≤ m'.counter
  target : m.directory.entries name ≠ none → m'.directory.entries name ≠ none
  published : ∀ save ∈ m.published, save ∈ m'.published
  owned : ∀ temporary inode, other.temporary = some temporary →
    Owns name m.directory temporary inode → Owns name m'.directory temporary inode ∧
      (m'.directory.files inode).bytes = (m.directory.files inode).bytes

variable {service name} {m m' : Workspace} {q other : Stage} {first : Option Bytes}

theorem drawnLater (longer : m.counter ≤ m'.counter) {temporary : String}
    (drawn : Drawn service m temporary) : Drawn service m' temporary := by
  obtain ⟨counter, before, same⟩ := drawn
  exact ⟨counter, Nat.lt_of_lt_of_le before longer, same⟩

theorem hereDrawn {temporary : String} (here : q.Here service name m)
    (has : q.temporary = some temporary) : Drawn service m temporary := by
  cases q <;> cases has <;> exact here.1

theorem sparedHere (spares : Spares name other m m') (here : other.Here service name m) :
    other.Here service name m' := by
  cases other with
  | reading save found => exact fun known => spares.target (here known)
  | named save temporary => exact ⟨drawnLater spares.counter here.1, spares.target here.2⟩
  | writing save temporary inode =>
    obtain ⟨drawn, owns, empty⟩ := here
    obtain ⟨owns', same⟩ := spares.owned temporary inode rfl owns
    exact ⟨drawnLater spares.counter drawn, owns', same.trans empty⟩
  | spoilt save temporary => exact ⟨drawnLater spares.counter here.1, here.2⟩
  | written save temporary inode =>
    obtain ⟨drawn, owns, text⟩ := here
    obtain ⟨owns', same⟩ := spares.owned temporary inode rfl owns
    exact ⟨drawnLater spares.counter drawn, owns', same.trans text⟩
  | published save temporary =>
    exact ⟨drawnLater spares.counter here.1, here.2.1, spares.published _ here.2.2⟩
  | failed save => trivial
  | answered save => exact spares.published _ here

theorem apartSymm (apart : q.Apart other) : other.Apart q :=
  fun temporary has same => apart temporary same has

theorem sparesSame (other : Stage) (m : Workspace) : Spares name other m m :=
  ⟨Nat.le_refl _, id, fun _ => id, fun _ _ _ owns => ⟨owns, rfl⟩⟩

theorem keptBy {q' : Stage} (inv : Showing service name first m') (here : q'.Here service name m')
    (spares : ∀ other, q.Apart other → Spares name other m m')
    (apart : ∀ other : Stage, other.Here service name m → q.Apart other → q'.Apart other) :
    (saving service name first).Kept m m' q q' none where
  inv := inv
  here := here
  entered := nofun
  others := fun other theirs away =>
    ⟨sparedHere (spares other away) theirs, apart other theirs away, nofun⟩

theorem keptStill {q' : Stage} (inv : Showing service name first m) (here : q'.Here service name m)
    (fewer : q'.temporary = none ∨ q'.temporary = q.temporary) :
    (saving service name first).Kept m m q q' none := by
  refine keptBy inv here (fun other _ => sparesSame other m) fun other _ apart temporary has => ?_
  rcases fewer with none' | same
  · rw [none'] at has
    cases has
  · exact apart temporary (same ▸ has)

/-! What the steps on the directory leave. -/

theorem createSpares {directory : Directory} {temporary : String} {inode : Inode}
    (created : m.directory.createNew temporary 0o600 = .ok (inode, directory)) :
    Spares name other m { m with directory } where
  counter := Nat.le_refl _
  target := fun found => by
    obtain ⟨free, -, -, entries, -⟩ := Directory.createNewOk created
    change directory.entries name ≠ none
    rw [entries]
    by_cases same : name = temporary
    · exact absurd free (same ▸ found)
    · rwa [Function.update_of_ne same]
  published := fun _ => id
  owned := fun _ _ _ owns =>
    have kept := ownsCreate created owns
    ⟨kept.1, congrArg File.bytes kept.2⟩

theorem alterSpares {directory : Directory} {temporary : String} {inode : Inode}
    (apart : other.temporary ≠ some temporary) (mine : Owns name m.directory temporary inode)
    (entries : directory.entries = m.directory.entries)
    (files : ∀ file, file ≠ inode → directory.files file = m.directory.files file) :
    Spares name other m { m with directory } where
  counter := Nat.le_refl _
  target := fun found => by
    change directory.entries name ≠ none
    rwa [entries]
  published := fun _ => id
  owned := fun _ _ has owns =>
    have kept := ownsAlter (fun same => apart (has.trans (congrArg some same))) mine entries files owns
    ⟨kept.1, congrArg File.bytes kept.2⟩

theorem unlinkSpares {directory : Directory} {temporary : String} (away : temporary ≠ name)
    (apart : other.temporary ≠ some temporary)
    (files : directory.files = m.directory.files)
    (entries : directory.entries = Function.update m.directory.entries temporary none) :
    Spares name other m { m with directory } where
  counter := Nat.le_refl _
  target := fun found => by
    change directory.entries name ≠ none
    rwa [entries, Function.update_of_ne away.symm]
  published := fun _ => id
  owned := fun _ inode has owns =>
    ⟨ownsUnlink (fun same => apart (has.trans (congrArg some same))) entries owns,
      congrArg File.bytes (congrFun files inode)⟩

theorem renameSpares {directory : Directory} {temporary : String} {inode : Inode} {save : Save}
    (mine : Owns name m.directory temporary inode) (apart : other.temporary ≠ some temporary)
    (files : directory.files = m.directory.files)
    (entries : directory.entries =
      Function.update (Function.update m.directory.entries temporary none) name (some inode)) :
    Spares name other m { m with directory, published := m.published ++ [save] } where
  counter := Nat.le_refl _
  target := fun _ => by
    change directory.entries name ≠ none
    rw [entries, Function.update_self]
    nofun
  published := fun _ member => List.mem_append_left _ member
  owned := fun _ file has owns =>
    ⟨ownsRename (fun same => apart (has.trans (congrArg some same))) mine entries owns,
      congrArg File.bytes (congrFun files file)⟩

theorem showingKept (inv : Showing service name first m) {directory : Directory}
    (entries : directory.entries name = m.directory.entries name)
    (files : ∀ inode, m.directory.entries name = some inode →
      directory.files inode = m.directory.files inode) :
    Showing service name first { m with directory } :=
  ⟨(contentSame entries files).trans inv.content, inv.served⟩

/-- The rename happens while the file still has the fingerprint the call expects. -/
def Serves (service : FileService) (name : String) (o : Act) (m : Workspace) : Prop :=
  ∀ temporary save, o = .rename temporary save →
    ∃ bytes, m.directory.content name = some bytes ∧ service.fingerprint bytes = save.expected

theorem keptAlter {q' : Stage} {temporary : String} {inode : Inode} {directory : Directory}
    (inv : Showing service name first m) (mine : Owns name m.directory temporary inode)
    (has : q.temporary = some temporary) (still : q'.temporary = some temporary)
    (entries : directory.entries = m.directory.entries)
    (files : ∀ file, file ≠ inode → directory.files file = m.directory.files file)
    (here : q'.Here service name { m with directory }) :
    (saving service name first).Kept m { m with directory } q q' none := by
  refine keptBy (showingKept inv (congrFun entries name) fun file shows => files file fun same => ?_)
    here (fun other apart => alterSpares (apart _ has) mine entries files)
    fun other _ apart t same => apart t (has.trans (still.symm.trans same))
  exact mine.apart (mine.alone name (same ▸ shows)).symm

theorem keptUnlink {save : Save} {temporary : String} {choice : Choice}
    {answer : Except IoError Unit} (inv : Showing service name first m) (away : temporary ≠ name)
    (has : q.temporary = some temporary)
    (applied : (machine service name).apply (.unlink temporary) choice m = some (answer, m')) :
    (saving service name first).Kept m m' q (.failed save) none := by
  rcases appliedUnlink applied with ⟨kind, rfl, rfl⟩ | ⟨directory, rfl, rfl, -, files, -, entries⟩
  · exact keptStill inv trivial (.inl rfl)
  · refine keptBy (showingKept inv ?_ fun file _ => congrFun files file) trivial
      (fun other apart => unlinkSpares away (apart _ has) files entries) fun other _ _ => nofun
    rw [entries, Function.update_of_ne away.symm]

theorem savingAct {o : Act} {choice : Choice} {answer : o.Answer}
    (inv : Showing service name first m) (here : q.Here service name m) (may : q.may name o)
    (serves : Serves service name o m)
    (applied : (machine service name).apply o choice m = some (answer, m')) :
    (saving service name first).Kept m m' q (q.after o answer) none := by
  cases o
  case openParent =>
    obtain rfl := (appliedOpenParent applied).symm
    cases q <;> first | exact may.elim | exact keptStill inv here (.inr rfl)
  case openat file =>
    obtain ⟨same, found⟩ := appliedOpenat applied
    subst same
    cases q <;> try exact may.elim
    case reading save known =>
      cases answer with
      | error kind => exact keptStill inv here (.inr rfl)
      | ok inode =>
        refine keptStill inv (fun _ missing => ?_) (.inr rfl)
        rw [← show file = name from may, found inode rfl] at missing
        cases missing
    case written => exact keptStill inv here (.inr rfl)
  case metadata inode =>
    obtain ⟨same, _⟩ := appliedMetadata applied
    subst same
    cases q <;> first | exact may.elim | exact keptStill inv here (.inr rfl)
  case read inode count =>
    obtain ⟨same, _⟩ := appliedRead applied
    subst same
    cases q <;> first | exact may.elim | exact keptStill inv here (.inr rfl)
  case temporaryName =>
    cases Option.some.inj applied
    cases q <;> try exact may.elim
    case reading save found =>
      have fresh : ∀ {counter}, counter < m.counter →
          temporaryNameOf service.processId m.counter ≠ temporaryNameOf service.processId counter :=
        fun older same => Nat.ne_of_gt older (temporaryNameInj same)
      refine keptBy ⟨inv.content, inv.served⟩ ⟨⟨m.counter, Nat.lt_succ_self _, rfl⟩, here may⟩
        (fun other _ => ⟨Nat.le_succ _, id, fun _ => id, fun _ _ _ owns => ⟨owns, rfl⟩⟩)
        fun other theirs _ t same has => ?_
      obtain ⟨counter, older, drawn⟩ := hereDrawn theirs has
      exact fresh older ((Option.some.inj same).trans drawn)
  case create temporary =>
    cases q <;> try exact may.elim
    case named save mine =>
      obtain rfl : temporary = mine := may
      obtain ⟨drawn, target⟩ := here
      rcases appliedCreate applied with
        ⟨kind, rfl, rfl⟩ | ⟨inode, directory, rfl, rfl, created⟩
      · exact keptStill inv trivial (.inl rfl)
      · obtain ⟨free, -, -, entries, files⟩ := Directory.createNewOk created
        have away : name ≠ temporary := fun same => target (same ▸ free)
        refine keptBy (showingKept inv ?_ fun file shows => ?_) ⟨drawn, createOwns away.symm created⟩
          (fun other _ => createSpares created) fun other _ apart => apart
        · rw [entries, Function.update_of_ne away]
        · rw [files, Function.update_of_ne (Nat.ne_of_lt (m.directory.named _ _ shows))]
  case setPermissions inode mode =>
    cases q <;> try exact may.elim
    case writing save temporary mine =>
      obtain rfl : inode = mine := may
      obtain ⟨drawn, owns, empty⟩ := here
      rcases appliedSetPermissions applied with rfl | rfl
      · exact keptStill inv ⟨drawn, owns, empty⟩ (.inr rfl)
      · exact keptAlter inv owns rfl rfl rfl (fun _ => setModeElsewhere)
          ⟨drawn, ⟨owns.apart, owns.named, owns.alone⟩, setModeHere.trans empty⟩
  case writeAll inode bytes =>
    cases q <;> try exact may.elim
    case writing save temporary mine =>
      obtain ⟨rfl, rfl⟩ : inode = mine ∧ bytes = save.text := may
      obtain ⟨drawn, owns, empty⟩ := here
      obtain ⟨written, rfl, whole⟩ := appliedWriteAll applied
      cases answer with
      | error kind =>
        exact keptAlter inv owns rfl rfl rfl (fun _ => writeElsewhere) ⟨drawn, owns.apart⟩
      | ok _ =>
        refine keptAlter inv owns rfl rfl rfl (fun _ => writeElsewhere)
          ⟨drawn, ⟨owns.apart, owns.named, owns.alone⟩, ?_⟩
        rw [writeHere, empty, whole rfl, List.nil_append]
  case syncAll inode =>
    obtain rfl := (appliedSync (.inr ⟨inode, rfl⟩) applied).symm
    cases q <;> first | exact may.elim | exact keptStill inv here (.inr rfl)
  case rename temporary renamed =>
    cases q <;> try exact may.elim
    case written save mine inode =>
      obtain ⟨rfl, rfl⟩ : temporary = mine ∧ renamed = save := may
      obtain ⟨drawn, owns, text⟩ := here
      rcases appliedRename applied with
        ⟨kind, rfl, rfl⟩ | ⟨inode', directory, rfl, found, rfl, files, -, entries⟩
      · exact keptStill inv ⟨drawn, owns, text⟩ (.inr rfl)
      · obtain rfl := Option.some.inj (owns.named.symm.trans found)
        refine keptBy ⟨?_, servedAppend inv.served ?_⟩
          ⟨drawn, owns.apart, List.mem_append_right _ (List.mem_singleton_self _)⟩
          (fun other apart => renameSpares owns (apart _ rfl) files entries) fun other _ apart => apart
        · refine Eq.trans ?_ latestAppend.symm
          change directory.content name = _
          rw [contentOf, entries, Function.update_self, files, Option.map_some, text]
        · rw [← inv.content]
          exact serves temporary renamed rfl
  case syncDirectory =>
    obtain rfl := (appliedSync (.inl rfl) applied).symm
    cases q <;> first | exact may.elim | exact keptStill inv here (.inr rfl)
  case unlink temporary =>
    cases q <;> try exact may.elim
    case writing save mine inode =>
      obtain rfl : temporary = mine := may
      exact keptUnlink inv here.2.1.apart rfl applied
    case spoilt save mine =>
      obtain rfl : temporary = mine := may
      exact keptUnlink inv here.2 rfl applied
    case written save mine inode =>
      obtain rfl : temporary = mine := may
      exact keptUnlink inv here.2.1.apart rfl applied
    case published save mine =>
      obtain rfl : temporary = mine := may
      exact keptUnlink inv here.2.1 rfl applied
  case respond result =>
    cases Option.some.inj applied
    cases q <;> try exact may.elim
    case reading | failed => exact keptStill inv here (.inr rfl)
    case published save temporary => exact keptStill inv here.2.2 (.inl rfl)

theorem savingValid : (saving service name first).Valid fun _ o m => Serves service name o m where
  symm := apartSymm
  call := fun _ _ => ⟨nofun, fun _ _ => nofun⟩
  act := savingAct
  outside := fun {x} => nomatch x

end Outlines

/-- How far a call is with its second comparison: it has opened `found` under the name of the
file, then read `bytes` of it. -/
inductive Check where
  | before
  | wrote
  | opened (found : Inode)
  | compared (found : Inode) (bytes : Bytes)
  | settled

namespace Check

def may (service : FileService) (name : String) : Check → Act → Prop
  | .wrote, .openat file => file = name
  | .opened found, .read inode count => inode = found ∧ count = service.maximumTextBytes + 1
  | .compared _ bytes, .rename _ save =>
    bytes.length ≤ service.maximumTextBytes ∧ service.fingerprint bytes = save.expected
  | .before, .rename .. | .wrote, .rename .. | .opened _, .rename .. | .settled, .rename .. => False
  | .opened _, .metadata _ | .opened _, .unlink _ | .opened _, .respond _ => True
  | .compared .., .metadata _ | .compared .., .unlink _ | .compared .., .respond _ => True
  | .opened _, _ | .compared .., _ => False
  | _, _ => True

def after : Check → (o : Act) → o.Answer → Check
  | .before, .writeAll _ _, .ok _ => .wrote
  | .wrote, .openat _, .ok found => .opened found
  | .opened found, .read _ _, .ok bytes => .compared found bytes
  | .compared _ _, .rename _ _, .ok _ => .settled
  | _, .unlink _, _ | _, .respond _, _ => .settled
  | q, _, _ => q

end Check

section Checks
variable (service : FileService) (name : String)

abbrev checks : Protocol (machine service name) where
  Place := Check
  enter _ := .before
  may q o := q.may service name o
  after q o answer := q.after o answer
  ends _ := True

variable {service name}

theorem recheckFollows {operation : String} :
    (checks service name).Follows (fun result q => ∀ latest data, result = .ok (latest, data) →
        latest.length ≤ service.maximumTextBytes ∧ ∃ found, q = .compared found latest)
      .wrote (readFromParent service name operation) := by
  have opens : (checks service name).Follows
      (fun result q => ∀ inode, result = .ok inode → q = .opened inode)
      .wrote (openRegular name operation) := by
    refine followsStep rfl fun opened => ?_
    cases opened with
    | error kind => cases kind <;> exact fun _ same => by cases same
    | ok inode =>
      refine followsStep trivial fun data => ?_
      cases data with
      | error kind => exact fun _ same => by cases same
      | ok metadata =>
        dsimp only
        split
        · exact fun other same => by cases same; rfl
        · exact fun _ same => by cases same
  refine followsSeq opens fun opened q here => ?_
  cases opened with
  | error error => exact fun _ _ same => by cases same
  | ok inode =>
    obtain rfl := here inode rfl
    refine followsStep trivial fun before => ?_
    cases before with
    | error kind => exact fun _ _ same => by cases same
    | ok before =>
      dsimp only
      split
      · exact fun _ _ same => by cases same
      refine followsStep ⟨rfl, rfl⟩ fun got => ?_
      cases got with
      | error kind => exact fun _ _ same => by cases same
      | ok bytes =>
        dsimp only
        split
        · exact fun _ _ same => by cases same
        rename_i short
        refine followsStep trivial fun later => ?_
        cases later with
        | error kind => exact fun _ _ same => by cases same
        | ok later =>
          dsimp only
          split
          · exact fun _ _ same => by cases same
          · exact fun latest data same => by
              cases same
              exact ⟨Nat.le_of_not_lt short, inode, rfl⟩

theorem renameChecked {save : Save} {temporary : String} {inode : Inode} {mode : Nat} :
    (checks service name).Follows (fun _ _ => True) .before
      (writeAndRename service name save temporary inode mode) := by
  refine followsStep trivial fun permitted => ?_
  cases permitted with
  | error kind => trivial
  | ok _ =>
  refine followsStep trivial fun wrote => ?_
  cases wrote with
  | error kind => trivial
  | ok _ =>
  refine followsStep trivial fun synced => ?_
  cases synced with
  | error kind => trivial
  | ok _ =>
  refine followsSeq recheckFollows fun latest q here => ?_
  cases latest with
  | error error => trivial
  | ok latest =>
  obtain ⟨bytes, data⟩ := latest
  obtain ⟨short, found, rfl⟩ := here bytes data rfl
  dsimp only
  split
  · trivial
  rename_i same
  refine followsStep ⟨short, Decidable.not_not.mp same⟩ fun renamed => ?_
  cases renamed with
  | error kind => trivial
  | ok _ =>
  refine followsStep trivial fun synced => ?_
  cases synced <;> trivial

theorem readsBefore {operation : String} :
    (checks service name).Stays .before (readFromParent service name operation) := by
  refine staysOnly readFromParentReads fun o reads => ?_
  cases o <;> first | exact reads.elim | exact ⟨trivial, fun _ => rfl⟩

theorem saveTextChecked {save : Save} : (checks service name).Follows (fun _ _ => True) .before
    (saveText service name save) := by
  unfold saveText
  split
  · trivial
  refine followsStep trivial fun opened => ?_
  cases opened with
  | error error => trivial
  | ok _ =>
  refine staysSeq readsBefore fun current => ?_
  cases current with
  | error error => trivial
  | ok current =>
  dsimp only
  split
  · trivial
  refine followsStep trivial fun temporary => followsStep trivial fun created => ?_
  cases created with
  | error kind => trivial
  | ok inode =>
  refine followsSeq renameChecked fun result q _ => ?_
  cases result with
  | ok saved => trivial
  | error error =>
    refine followsStep ?_ fun answer => trivial
    cases q <;> trivial

theorem checksSound : (checks service name).Sound := by
  intro save
  refine followsSeq saveTextChecked fun result q _ => followsStep ?_ fun _ => trivial
  cases q <;> trivial

end Checks

section Runs
variable (service : FileService) (name : String)

/-- The call has opened the file for its second comparison and has not renamed yet. -/
def rechecking (t : Task (machine service name)) : Bool :=
  match (checks service name).place t with
  | .opened _ | .compared .. => true
  | _ => false

def undisturbed (c : Config (machine service name)) : Event (machine service name) → Bool
  | .run index choice =>
    match (c.tasks[index]?).bind Task.next with
    | some (.rename ..) =>
      choice.fails.isSome || (c.tasks.eraseIdx index).all fun t => !rechecking service name t
    | _ => true
  | _ => true

/-- No call replaces the file between another's second comparison and its rename. -/
abbrev Undisturbed (c : Config (machine service name)) (e : Event (machine service name)) : Prop :=
  undisturbed service name c e = true

/-- The file a call compares is still the one under the name, with the bytes it read. -/
def Check.Fresh (m : Workspace) : Check → Prop
  | .opened found => m.directory.entries name = some found
  | .compared found bytes => m.directory.entries name = some found ∧
      bytes = (m.directory.files found).bytes.take (service.maximumTextBytes + 1)
  | _ => True

structure Rechecked (first : Option Bytes) (c : Config (machine service name)) : Prop where
  saving : (saving service name first).Holds c
  placed : ∀ t ∈ c.tasks, (checks service name).Placed t
  fresh : ∀ {i : Nat} {t}, c.tasks[i]? = some t → ((checks service name).place t).Fresh service name c.memory

def opened (d : Directory) : Config (machine service name) := ⟨⟨d, 0, []⟩, []⟩

variable {service name}

def ReturnedOk (t : Task (machine service name)) : Prop :=
  ∃ saved, ⟨.respond (.ok saved), ()⟩ ∈ t.past

theorem shownStays {q : Stage} {o : Act} {choice : Choice} {answer : o.Answer} {m m' : Workspace}
    (here : q.Here service name m) (may : q.may name o)
    (applied : (machine service name).apply o choice m = some (answer, m'))
    (quiet : ∀ temporary save, o = .rename temporary save → m' = m) {found : Inode}
    (shows : m.directory.entries name = some found) :
    m'.directory.entries name = some found ∧
      (m'.directory.files found).bytes = (m.directory.files found).bytes := by
  have apart : ∀ {temporary inode}, Owns name m.directory temporary inode → found ≠ inode :=
    fun owns same => owns.apart (owns.alone name (same ▸ shows)).symm
  cases o
  case openParent =>
    rw [appliedOpenParent applied]
    exact ⟨shows, rfl⟩
  case openat =>
    rw [(appliedOpenat applied).1]
    exact ⟨shows, rfl⟩
  case metadata =>
    rw [(appliedMetadata applied).1]
    exact ⟨shows, rfl⟩
  case read =>
    rw [(appliedRead applied).1]
    exact ⟨shows, rfl⟩
  case temporaryName | respond =>
    cases Option.some.inj applied
    exact ⟨shows, rfl⟩
  case create temporary =>
    rcases appliedCreate applied with ⟨kind, rfl, rfl⟩ | ⟨inode, directory, rfl, rfl, created⟩
    · exact ⟨shows, rfl⟩
    · obtain ⟨free, -, -, entries, files⟩ := Directory.createNewOk created
      have away : name ≠ temporary := fun same => by
        rw [← same, shows] at free
        cases free
      refine ⟨?_, ?_⟩
      · rw [entries, Function.update_of_ne away, shows]
      · rw [files, Function.update_of_ne (Nat.ne_of_lt (m.directory.named _ _ shows))]
  case setPermissions inode mode =>
    cases q <;> try exact may.elim
    obtain rfl := may
    rcases appliedSetPermissions applied with rfl | rfl
    · exact ⟨shows, rfl⟩
    · exact ⟨shows, congrArg File.bytes (setModeElsewhere (apart here.2.1))⟩
  case writeAll inode bytes =>
    cases q <;> try exact may.elim
    obtain ⟨rfl, rfl⟩ := may
    obtain ⟨written, rfl, -⟩ := appliedWriteAll applied
    exact ⟨shows, congrArg File.bytes (writeElsewhere (apart here.2.1))⟩
  case syncAll inode =>
    rw [appliedSync (.inr ⟨inode, rfl⟩) applied]
    exact ⟨shows, rfl⟩
  case syncDirectory =>
    rw [appliedSync (.inl rfl) applied]
    exact ⟨shows, rfl⟩
  case rename temporary save =>
    rw [quiet temporary save rfl]
    exact ⟨shows, rfl⟩
  case unlink temporary =>
    rcases appliedUnlink applied with ⟨kind, rfl, rfl⟩ | ⟨directory, rfl, rfl, -, files, -, entries⟩
    · exact ⟨shows, rfl⟩
    · have away : temporary ≠ name := by
        cases q <;> try exact may.elim
        case writing | written => exact may ▸ here.2.1.apart
        case spoilt => exact may ▸ here.2
        case published => exact may ▸ here.2.1
      refine ⟨?_, by rw [files]⟩
      rw [entries, Function.update_of_ne away.symm, shows]

theorem freshAfter {check : Check} {o : Act} {choice : Choice} {answer : o.Answer} {m m' : Workspace}
    (fresh : check.Fresh service name m) (may : check.may service name o)
    (applied : (machine service name).apply o choice m = some (answer, m')) :
    (check.after o answer).Fresh service name m' := by
  cases check
  case before | settled =>
    cases o <;> first | trivial | (cases answer <;> trivial)
  case wrote =>
    cases o <;> try trivial
    case openat file =>
      obtain ⟨rfl, found⟩ := appliedOpenat applied
      cases answer with
      | error kind => trivial
      | ok inode => exact (congrArg _ may).symm.trans (found inode rfl)
  case opened found =>
    cases o <;> try first | exact may.elim | trivial
    case metadata =>
      obtain ⟨rfl, -⟩ := appliedMetadata applied
      exact fresh
    case read inode count =>
      obtain ⟨rfl, rfl⟩ := may
      obtain ⟨rfl, took⟩ := appliedRead applied
      cases answer with
      | error kind => exact fresh
      | ok bytes => exact ⟨fresh, took bytes rfl⟩
  case compared found bytes =>
    cases o <;> try first | exact may.elim | trivial
    case metadata =>
      obtain ⟨rfl, -⟩ := appliedMetadata applied
      exact fresh
    case rename =>
      rcases appliedRename applied with ⟨kind, rfl, rfl⟩ | ⟨_, _, rfl, -⟩
      · exact fresh
      · trivial

theorem freshStays {check : Check} {m m' : Workspace} (fresh : check.Fresh service name m)
    (stays : ∀ {found}, m.directory.entries name = some found → m'.directory.entries name = some found ∧
      (m'.directory.files found).bytes = (m.directory.files found).bytes) :
    check.Fresh service name m' := by
  cases check with
  | opened found => exact (stays fresh).1
  | compared found bytes =>
    obtain ⟨shows, same⟩ := stays fresh.1
    exact ⟨shows, fresh.2.trans (congrArg _ same.symm)⟩
  | _ => trivial

theorem freshServes {check : Check} {o : Act} {m : Workspace} (fresh : check.Fresh service name m)
    (may : check.may service name o) : Serves service name o m := by
  rintro temporary save rfl
  cases check <;> try exact may.elim
  case compared found bytes =>
    obtain ⟨short, expected⟩ := may
    obtain ⟨shows, took⟩ := fresh
    have whole : bytes = (m.directory.files found).bytes := by
      have length := congrArg List.length took
      rw [List.length_take] at length
      rw [took, List.take_of_length_le (by omega)]
    refine ⟨bytes, ?_, expected⟩
    rw [contentOf, shows, Option.map_some, whole]

theorem undisturbedRename {c : Config (machine service name)} {index choice t temporary save answer memory next}
    (good : Undisturbed service name c (.run index choice))
    (performs : Performs c index choice t (.rename temporary save) answer memory next) :
    memory = c.memory ∨
      ∀ {j : Nat} {u}, j ≠ index → c.tasks[j]? = some u → rechecking service name u = false := by
  simp only [Undisturbed, undisturbed, performs.present, Option.bind_some, performsNext performs,
    Bool.or_eq_true, List.all_eq_true, Bool.not_eq_true'] at good
  rcases good with fails | none
  · obtain ⟨error, fails⟩ := Option.isSome_iff_exists.mp fails
    have applied := performs.effect
    simp only [apply, fails, Option.some.injEq, Prod.mk.injEq] at applied
    exact .inl applied.2.symm
  · exact .inr fun different found => none _ (List.mem_eraseIdx_iff_getElem?.mpr ⟨_, different, found⟩)

theorem recheckedStep {first : Option Bytes} {c c' : Config (machine service name)} {e}
    (rechecked : Rechecked service name first c) (good : Undisturbed service name c e) (moves : Moves c e c') :
    Rechecked service name first c' := by
  refine ⟨?_, movesPlaced checksSound rechecked.placed moves, ?_⟩
  · refine Outline.holdsMoves stagesSound savingValid rechecked.saving moves fun same performs => ?_
    have obeys := performsObeys checksSound rechecked.placed performs
    exact freshServes (rechecked.fresh performs.present) obeys.allowed
  cases moves with
  | call allowed =>
    intro i t found
    rcases List.mem_append.mp (List.mem_of_getElem? found) with old | new
    · obtain ⟨j, found⟩ := List.getElem?_of_mem old
      exact rechecked.fresh found
    · cases List.mem_singleton.mp new
      trivial
  | @act index choice t o answer memory next performs =>
    intro i u found
    have obeys := performsObeys checksSound rechecked.placed performs
    rcases taskCases found with ⟨_, rfl⟩ | ⟨different, old⟩ | ⟨_, _, spawn, _⟩
    · rw [obeys.reached]
      exact freshAfter (rechecked.fresh performs.present) obeys.allowed performs.effect
    · have staged := performsObeys stagesSound rechecked.saving.placed performs
      have fresh := rechecked.fresh old
      by_cases mid : rechecking service name u = true
      · refine freshStays fresh (shownStays (rechecked.saving.here performs.present) staged.allowed
          performs.effect fun temporary save same => ?_)
        subst same
        rcases undisturbedRename good performs with same | alone
        · exact same
        · rw [alone different old] at mid
          cases mid
      · unfold rechecking at mid
        generalize (checks service name).place u = check at mid ⊢
        cases check with
        | opened | compared => exact absurd rfl mid
        | _ => trivial
    · cases spawn
  | @outside x _ effect => exact x.elim

theorem reachRechecked {d : Directory} {c : Config (machine service name)}
    (reached : Reach (Undisturbed service name) (opened service name d) c) :
    Rechecked service name (d.content name) c := by
  induction reached with
  | start =>
    refine ⟨Outline.holdsEmpty (show Showing service name _ ⟨d, 0, []⟩ from ⟨rfl, trivial⟩), ?_, ?_⟩ <;>
      simp [opened]
  | step before good moves ih => exact recheckedStep ih good moves

theorem afterSave {q : Stage} {o : Act} {answer : o.Answer} : (q.after o answer).save = q.save := by
  cases o <;> cases q <;> first | rfl | (cases answer <;> rfl)

theorem placeSave (t : Task (machine service name)) : ((stages service name).place t).save = t.entry := by
  have steps : ∀ (past : Past actions) (q : Stage),
      (past.foldl (fun q done => (stages service name).after q done.1 done.2) q).save = q.save := by
    intro past
    induction past with
    | nil => exact fun q => rfl
    | cons done past ih => exact fun q => (ih _).trans afterSave
  exact steps t.past _

theorem returnedPublished {d : Directory} {c : Config (machine service name)}
    (reached : Reach (Undisturbed service name) (opened service name d) c) {i : Nat}
    {t : Task (machine service name)} (found : c.tasks[i]? = some t) (returned : ReturnedOk t) :
    t.entry ∈ c.memory.published := by
  obtain ⟨saved, member⟩ := returned
  obtain ⟨before, after, past⟩ := List.append_of_mem member
  have legal := reachLegal stagesSound rfl reached t (List.mem_of_getElem? found)
  rw [past] at legal
  obtain ⟨_, may, rest⟩ := legalAppend.mp legal
  have answered : ∃ save, (stages service name).place t = .answered save := by
    unfold place
    rw [past, List.foldl_append]
    generalize before.foldl _ _ = q at may rest
    cases q <;> try exact may.elim
    case reading | failed =>
      obtain ⟨error, same⟩ := may
      cases same
    case published save temporary =>
      cases after with
      | nil => exact ⟨save, rfl⟩
      | cons done after => exact rest.1.elim
  obtain ⟨save, place⟩ := answered
  have here := (reachRechecked reached).saving.here found
  rw [place] at here
  rw [← placeSave t, place]
  exact here

theorem publishedBy {o : Act} {choice : Choice} {answer : o.Answer} {m m' : Workspace}
    (applied : (machine service name).apply o choice m = some (answer, m')) :
    m'.published = m.published ∨
      ∃ temporary save, o = .rename temporary save ∧ m'.published = m.published ++ [save] := by
  cases o
  case openParent => exact .inl (by rw [appliedOpenParent applied])
  case openat => exact .inl (by rw [(appliedOpenat applied).1])
  case metadata => exact .inl (by rw [(appliedMetadata applied).1])
  case read => exact .inl (by rw [(appliedRead applied).1])
  case temporaryName | respond =>
    cases Option.some.inj applied
    exact .inl rfl
  case create =>
    rcases appliedCreate applied with ⟨_, -, rfl⟩ | ⟨_, _, -, rfl, -⟩ <;> exact .inl rfl
  case setPermissions => rcases appliedSetPermissions applied with rfl | rfl <;> exact .inl rfl
  case writeAll =>
    obtain ⟨_, rfl, -⟩ := appliedWriteAll applied
    exact .inl rfl
  case syncAll inode => exact .inl (by rw [appliedSync (.inr ⟨inode, rfl⟩) applied])
  case syncDirectory => exact .inl (by rw [appliedSync (.inl rfl) applied])
  case rename temporary save =>
    rcases appliedRename applied with ⟨_, -, rfl⟩ | ⟨_, _, -, -, rfl, -⟩
    · exact .inl rfl
    · exact .inr ⟨temporary, save, rfl, rfl⟩
  case unlink => rcases appliedUnlink applied with ⟨_, -, rfl⟩ | ⟨_, -, rfl, -⟩ <;> exact .inl rfl

theorem publishedCalled {Good : Config (machine service name) → Event (machine service name) → Prop}
    {d : Directory} {c : Config (machine service name)}
    (reached : Reach Good (opened service name d) c) :
    ∀ save ∈ c.memory.published, ∃ t ∈ c.tasks, t.entry = save := by
  suffices placed : ∀ save ∈ c.memory.published,
      ∃ t ∈ c.tasks, ((stages service name).place t).save = save by
    intro save member
    obtain ⟨t, here, same⟩ := placed save member
    exact ⟨t, here, (placeSave t).symm.trans same⟩
  induction reached with
  | start => exact fun _ member => nomatch member
  | step before good moves ih =>
    cases moves with
    | call allowed =>
      intro save member
      obtain ⟨t, here, same⟩ := ih save member
      exact ⟨t, List.mem_append_left _ here, same⟩
    | @outside x _ effect => exact nomatch x
    | act performs =>
      have first : ∀ t ∈ (opened service name d).tasks, (stages service name).Placed t :=
        fun _ member => nomatch member
      have obeys := performsObeys stagesSound (reachPlaced stagesSound first before) performs
      intro save member
      refine @kindStays _ _ (stages service name) _ _ _ _ _ _ _ _ performs obeys (fun q => q.save = save)
        (fun same => afterSave.trans same) ?_
      rcases publishedBy performs.effect with same | ⟨temporary, renamed, rfl, longer⟩
      · exact ih save (same ▸ member)
      · rw [longer] at member
        rcases List.mem_append.mp member with old | new
        · exact ih save old
        · cases List.mem_singleton.mp new
          refine ⟨_, List.mem_of_getElem? performs.present, ?_⟩
          have may := obeys.allowed
          generalize (stages service name).place _ = q at may
          cases q <;> first | exact may.elim | exact may.2.symm

/-- In a run where no call replaces the file between another's second comparison and its rename, a
save replaces only a text it had seen, and of calls that expect one fingerprint and write texts of
others at most one returns a result. -/
theorem saveComparesAndSwaps {d : Directory} {c : Config (machine service name)}
    (reached : Reach (Undisturbed service name) (opened service name d) c) :
    (∀ expected, (∀ t ∈ c.tasks, t.entry.expected = expected ∧
        service.fingerprint t.entry.text ≠ expected) →
      (∀ {i j : Nat} {t u}, c.tasks[i]? = some t → c.tasks[j]? = some u →
        t.entry.text = u.entry.text → i = j) →
      ∀ {i j : Nat} {t u}, c.tasks[i]? = some t → c.tasks[j]? = some u →
        ReturnedOk t → ReturnedOk u → i = j) ∧
    ∀ seen : Save → Bytes,
      (∀ save ∈ c.memory.published, save.expected = service.fingerprint (seen save)) →
      (∀ a ∈ c.memory.published, ∀ b ∈ c.memory.published,
        service.fingerprint a.text = service.fingerprint (seen b) → a.text = seen b) →
      ∀ before a b after, c.memory.published = before ++ a :: b :: after → seen b = a.text := by
  have holds := (reachRechecked reached).saving
  refine ⟨fun expected alike distinct i j t u foundI foundJ okI okJ => ?_,
    fun seen carries apart before a b after published => ?_⟩
  · have each : ∀ save ∈ c.memory.published, save.expected = expected ∧
        service.fingerprint save.text ≠ expected := by
      intro save member
      obtain ⟨called, here, rfl⟩ := publishedCalled reached save member
      exact alike called here
    have once : c.memory.published.length ≤ 1 := servedOnce holds.inv.served each
    have first := returnedPublished reached foundI okI
    have second := returnedPublished reached foundJ okJ
    refine distinct foundI foundJ (congrArg Save.text ?_)
    match published : c.memory.published, once with
    | [], _ =>
      rw [published] at first
      cases first
    | [only], _ =>
      rw [published] at first second
      rw [List.mem_singleton.mp first, List.mem_singleton.mp second]
  · have served := holds.inv.served
    rw [published] at served
    have memberA : a ∈ c.memory.published := by rw [published]; simp
    have memberB : b ∈ c.memory.published := by rw [published]; simp
    exact (apart a memberA b memberB ((servedNext served).trans (carries b memberB))).symm

end Runs

/-! Two calls compare before either of them renames. -/

def firstSave : Save := ⟨[2], [1]⟩
def secondSave : Save := ⟨[3], [1]⟩

abbrev NotesEvent := Event (machine plainService "notes.txt")

def steps (index count : Nat) : List NotesEvent := List.replicate count (.run index goes)

def saveRace : List NotesEvent :=
  [.call firstSave, .call secondSave] ++ steps 0 16 ++ steps 1 16 ++ steps 0 3 ++ steps 1 3

def answeredOk (t : Task (machine plainService "notes.txt")) : Bool :=
  t.past.any fun done => match done with
    | ⟨.respond (.ok _), _⟩ => true
    | _ => false

theorem answeredReturned {t : Task (machine plainService "notes.txt")} (answered : answeredOk t = true) :
    ReturnedOk t := by
  obtain ⟨done, member, here⟩ := List.any_eq_true.mp answered
  match done, here with
  | ⟨.respond (.ok saved), ()⟩, _ => exact ⟨saved, member⟩

theorem saveRaceRun : (runFrom (opened plainService "notes.txt" notes) saveRace).map
    (fun c => c.tasks.map fun t => (t.entry, answeredOk t)) =
      some [(firstSave, true), (secondSave, true)] := by decide +kernel

theorem saveRaceBoth : ¬ ∀ (service : FileService) (name : String) (d : Directory)
    (c : Config (machine service name)), Reach Always (opened service name d) c →
    ∀ expected, (∀ t ∈ c.tasks, t.entry.expected = expected) →
      (∀ {i j : Nat} {t u}, c.tasks[i]? = some t → c.tasks[j]? = some u →
        t.entry.text = u.entry.text → i = j) →
      ∀ {i j : Nat} {t u}, c.tasks[i]? = some t → c.tasks[j]? = some u →
        ReturnedOk t → ReturnedOk u → i = j := by
  intro once
  obtain ⟨c, ran, shown⟩ := Option.map_eq_some_iff.mp saveRaceRun
  obtain ⟨t, u, tasks⟩ : ∃ t u, c.tasks = [t, u] := by
    have length := congrArg List.length shown
    rw [List.length_map] at length
    exact List.length_eq_two.mp length
  simp only [tasks, List.map_cons, List.map_nil, List.cons.injEq, Prod.mk.injEq, and_true] at shown
  obtain ⟨⟨first, okT⟩, second, okU⟩ := shown
  have found : ∀ {i : Nat} {v}, c.tasks[i]? = some v → (i = 0 ∧ v = t) ∨ (i = 1 ∧ v = u) := by
    intro i v here
    rw [tasks] at here
    match i with
    | 0 => exact .inl ⟨rfl, (Option.some.inj here).symm⟩
    | 1 => exact .inr ⟨rfl, (Option.some.inj here).symm⟩
    | i + 2 => cases here
  have same := once plainService "notes.txt" notes c (reachRun .start (fun _ _ => trivial) ran) [1]
    (fun v member => ?_) (fun {i j v w} hereV hereW texts => ?_) (i := 0) (j := 1)
    (by rw [tasks]; rfl) (by rw [tasks]; rfl) (answeredReturned okT) (answeredReturned okU)
  · cases same
  · rw [tasks] at member
    rcases List.mem_pair.mp member with rfl | rfl
    · rw [first]; rfl
    · rw [second]; rfl
  · rcases found hereV with ⟨rfl, rfl⟩ | ⟨rfl, rfl⟩ <;>
      rcases found hereW with ⟨rfl, rfl⟩ | ⟨rfl, rfl⟩
    · rfl
    · rw [first, second] at texts; cases texts
    · rw [first, second] at texts; cases texts
    · rfl

/-! The second call is past its first comparison when the first one renames, and its second one
finds the conflict; a third call expects what the first one wrote. -/

def savedBetween : List NotesEvent :=
  [.call firstSave, .call secondSave] ++ steps 0 9 ++ steps 1 9 ++ steps 0 10 ++ steps 1 9

def laterSave : Save := ⟨[3], [2]⟩

def savedLater : List NotesEvent := .call laterSave :: steps 2 19

theorem savedBetweenRun : (goodRun (Undisturbed plainService "notes.txt") (opened plainService "notes.txt" notes)
    savedBetween).map (fun c => c.tasks.map fun t => (t.entry, answeredOk t)) =
      some [(firstSave, true), (secondSave, false)] := by decide +kernel

theorem savedLaterRun : (goodRun (Undisturbed plainService "notes.txt") (opened plainService "notes.txt" notes)
    (savedBetween ++ savedLater)).map (·.memory.published) = some [firstSave, laterSave] := by decide +kernel

theorem saveComparesAndSwapsOrder :
    (∃ c : Config (machine plainService "notes.txt"),
      c.tasks.map (fun t => (t.entry, answeredOk t)) = [(firstSave, true), (secondSave, false)] ∧
      ∀ {i j : Nat} {t u}, c.tasks[i]? = some t → c.tasks[j]? = some u →
        ReturnedOk t → ReturnedOk u → i = j) ∧
    ∃ c : Config (machine plainService "notes.txt"),
      c.memory.published = [firstSave, laterSave] ∧ laterSave.expected = firstSave.text := by
  refine ⟨?_, ?_⟩
  · obtain ⟨c, ran, shown⟩ := Option.map_eq_some_iff.mp savedBetweenRun
    have entries : c.tasks.map (·.entry) = [firstSave, secondSave] := by
      have firsts := congrArg (List.map Prod.fst) shown
      rwa [List.map_map] at firsts
    have known : ∀ {i : Nat} {t}, c.tasks[i]? = some t →
        (i = 0 ∧ t.entry = firstSave) ∨ (i = 1 ∧ t.entry = secondSave) := by
      intro i t found
      have entry : (c.tasks.map (·.entry))[i]? = some t.entry := by rw [List.getElem?_map, found]; rfl
      rw [entries] at entry
      match i with
      | 0 => exact .inl ⟨rfl, (Option.some.inj entry).symm⟩
      | 1 => exact .inr ⟨rfl, (Option.some.inj entry).symm⟩
      | i + 2 => cases entry
    refine ⟨c, shown, (saveComparesAndSwaps (reachGoodRun .start ran)).1 [1] (fun t member => ?_)
      fun {i j t u} foundI foundJ same => ?_⟩
    · obtain ⟨i, found⟩ := List.getElem?_of_mem member
      rcases known found with ⟨-, entry⟩ | ⟨-, entry⟩ <;> rw [entry] <;> decide
    · rcases known foundI with ⟨rfl, t⟩ | ⟨rfl, t⟩ <;> rcases known foundJ with ⟨rfl, u⟩ | ⟨rfl, u⟩
      · rfl
      · rw [t, u] at same
        cases same
      · rw [t, u] at same
        cases same
      · rfl
  · obtain ⟨c, ran, published⟩ := Option.map_eq_some_iff.mp savedLaterRun
    refine ⟨c, published, ?_⟩
    exact (saveComparesAndSwaps (reachGoodRun .start ran)).2 (·.expected) (fun _ _ => rfl)
      (fun _ _ _ _ same => same) [] firstSave laterSave [] published

end Maestro.Saving
