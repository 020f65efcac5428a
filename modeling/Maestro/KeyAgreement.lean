import Maestro.KeyStore

/-! Callers of one key store, which crash or go on: the file is linked once and whole, and who
returns a key returns the one it holds. -/
namespace Maestro.KeyStore
open Interleaving Prog Protocol Files

/-- How far a call has come: `owning` a temporary file that holds `written`, `linked` when it
is the key file, `lost` when another call's is. -/
inductive Stage where
  | idle
  | drawn (key : DatabaseKey)
  | owning (key : DatabaseKey) (temporary : String) (inode : Inode) (written : Bytes)
  | linked (key : DatabaseKey) (temporary : String)
  | lost (temporary : String)
  | published (key : DatabaseKey)
  | opened (inode : Inode)
  | got (bytes : Bytes)

namespace Stage

def temporary : Stage → Option String
  | .owning _ temporary _ _ | .linked _ temporary | .lost temporary => some temporary
  | _ => none

section May
variable (crates : Crates) (passphrase name : String)

def may : Stage → Act → Prop
  | .idle, .openRead file => file = name
  | .idle, .generateKey => True
  | .opened inode, .read other count => other = inode ∧ count = maxEnvelopeBytes + 1
  | .drawn _, .createNew temporary => ∃ random, temporary = temporaryNameOf random
  | .owning _ _ inode _, .write other _ => other = inode
  | .owning key temporary _ written, .hardLink other =>
    other = temporary ∧ unwrapKey crates passphrase written = .ok key
  | q, .removeFile other => q.temporary = some other
  | .published key, .respond (.ok returned) => returned = key
  | .got bytes, .respond (.ok returned) =>
    bytes.length ≤ maxEnvelopeBytes ∧ unwrapKey crates passphrase bytes = .ok returned
  | _, .openRead _ | _, .generateKey | _, .read _ _ | _, .createNew _ | _, .write _ _
  | _, .hardLink _ | _, .respond (.ok _) => False
  | _, _ => True

end May

def after : Stage → (o : Act) → o.Answer → Stage
  | _, .openRead _, .ok inode => .opened inode
  | _, .read _ _, .ok bytes => .got bytes
  | _, .generateKey, key => .drawn key
  | .drawn key, .createNew temporary, .ok inode => .owning key temporary inode []
  | .owning key temporary inode written, .write _ bytes, .ok count =>
    .owning key temporary inode (written ++ bytes.take count)
  | .owning key temporary _ _, .hardLink _, .ok _ => .linked key temporary
  | .owning _ temporary _ _, .hardLink _, .error .alreadyExists => .lost temporary
  | .linked key _, .removeFile _, .ok _ => .published key
  | .owning _ _ _ _, .removeFile _, .ok _ | .lost _, .removeFile _, .ok _ => .idle
  | q, _, _ => q

end Stage

section Stages
variable (crates : Crates) (passphrase name : String)

abbrev stages : Protocol (machine crates passphrase name) where
  Place := Stage
  enter _ := .idle
  may q o := q.may crates passphrase name o
  after q o answer := q.after o answer
  ends _ := True

variable {crates passphrase name} {key : DatabaseKey} {temporary : String} {inode : Inode}

theorem createUniqueTemporaryFollows {attempts : Nat} :
    (stages crates passphrase name).Follows (fun result q =>
        (∃ temporary inode, result = .ok (temporary, inode) ∧ q = .owning key temporary inode []) ∨
          ∃ error, result = .error error)
      (.drawn key) (createUniqueTemporary attempts) := by
  induction attempts with
  | zero => exact .inr ⟨_, rfl⟩
  | succ attempts ih =>
    refine followsStep trivial fun random => ?_
    refine followsStep ⟨random.1, rfl⟩ fun created => ?_
    match created with
    | .ok inode => exact .inl ⟨_, inode, rfl, rfl⟩
    | .error .alreadyExists => exact ih
    | .error .notFound | .error .isLoop | .error .writeZero | .error (.other _) =>
      exact .inr ⟨_, rfl⟩

theorem writeAllFollows (written : Bytes) {room : Nat} {bytes : Bytes} (fits : bytes.length ≤ room) :
    (stages crates passphrase name).Follows (fun result q =>
        (result = .ok () ∧ q = .owning key temporary inode (written ++ bytes)) ∨
          (∃ error, result = .error error) ∧ q.temporary = some temporary)
      (.owning key temporary inode written) (writeAll inode room bytes) := by
  induction room generalizing written bytes with
  | zero =>
    obtain rfl := List.length_eq_zero_iff.mp (Nat.le_zero.mp fits)
    exact .inl ⟨rfl, by rw [List.append_nil]⟩
  | succ room ih =>
    cases bytes with
    | nil => exact .inl ⟨rfl, by rw [List.append_nil]⟩
    | cons byte rest =>
      refine followsStep rfl fun count => ?_
      match count with
      | .error error => exact .inr ⟨⟨_, rfl⟩, rfl⟩
      | .ok 0 => exact .inr ⟨⟨_, rfl⟩, rfl⟩
      | .ok (count + 1) =>
        have shorter : ((byte :: rest).drop (count + 1)).length ≤ room := by
          simp only [List.length_drop, List.length_cons] at fits ⊢
          omega
        have whole := ih (written ++ (byte :: rest).take (count + 1)) shorter
        rwa [List.append_assoc, List.take_append_drop] at whole

theorem dropTemporaryFollows {α : Type} {q : Stage} {error : KeyStoreError}
    (owned : q.temporary = some temporary) : (stages crates passphrase name).Follows
      (fun (result : Except KeyStoreError α) _ => ∃ error, result = .error error)
      q (dropTemporary temporary error) := by
  cases q <;> cases owned <;> exact followsStep rfl fun _ => ⟨_, rfl⟩

def Ended (key : DatabaseKey) (result : Except KeyStoreError Publication) (q : Stage) : Prop :=
  (result = .ok .published ∧ q = .published key) ∨ (result = .ok .existing ∧ q = .idle) ∨
    ∃ error, result = .error error

theorem finishPublishedFollows : (stages crates passphrase name).Follows (Ended key)
    (.linked key temporary) (finishPublication temporary .published) := by
  refine followsStep rfl fun removed => ?_
  cases removed with
  | error error => exact followsStep rfl fun _ => .inr (.inr ⟨_, rfl⟩)
  | ok _ =>
    refine followsStep trivial fun synced => ?_
    cases synced with
    | error error => exact .inr (.inr ⟨_, rfl⟩)
    | ok _ => exact .inl ⟨rfl, rfl⟩

theorem finishExistingFollows : (stages crates passphrase name).Follows (Ended key)
    (.lost temporary) (finishPublication temporary .existing) := by
  refine followsStep rfl fun removed => ?_
  cases removed with
  | error error => exact followsStep rfl fun _ => .inr (.inr ⟨_, rfl⟩)
  | ok _ =>
    refine followsStep trivial fun synced => ?_
    cases synced with
    | error error => exact .inr (.inr ⟨_, rfl⟩)
    | ok _ => exact .inr (.inl ⟨rfl, rfl⟩)

theorem failedEnds {q : Stage} {p : Program (Except KeyStoreError Publication)}
    (follows : (stages crates passphrase name).Follows (fun result _ => ∃ error, result = .error error)
      q p) : (stages crates passphrase name).Follows (Ended key) q p :=
  followsImp follows fun _ _ failed => .inr (.inr failed)

theorem linkTemporaryFollows {written : Bytes} (wrapped : unwrapKey crates passphrase written = .ok key) :
    (stages crates passphrase name).Follows (Ended key)
      (.owning key temporary inode written) (linkTemporary name temporary) := by
  refine followsStep ⟨rfl, wrapped⟩ fun linked => ?_
  match linked with
  | .ok () =>
    refine followsStep trivial fun source => ?_
    cases source with
    | error error => exact failedEnds (dropTemporaryFollows rfl)
    | ok source =>
      refine followsStep trivial fun published => ?_
      cases published with
      | error error => exact failedEnds (dropTemporaryFollows rfl)
      | ok published =>
        dsimp only
        split
        · exact failedEnds (dropTemporaryFollows rfl)
        · exact finishPublishedFollows
  | .error .alreadyExists => exact finishExistingFollows
  | .error .notFound | .error .isLoop | .error .writeZero | .error (.other _) =>
    exact failedEnds (dropTemporaryFollows rfl)

theorem publishAtomicallyFollows {contents : Bytes}
    (wrapped : unwrapKey crates passphrase contents = .ok key) :
    (stages crates passphrase name).Follows (Ended key) (.drawn key) (publishAtomically name contents) := by
  refine followsStep trivial fun verified => ?_
  cases verified with
  | error error => exact .inr (.inr ⟨_, rfl⟩)
  | ok _ =>
  refine followsSeq createUniqueTemporaryFollows fun created q owning => ?_
  rcases owning with ⟨temporary, inode, rfl, rfl⟩ | ⟨error, rfl⟩
  · refine followsSeq (writeAllFollows [] (Nat.le_refl _)) fun wrote q owning => ?_
    rcases owning with ⟨rfl, rfl⟩ | ⟨⟨error, rfl⟩, owned⟩
    · refine followsStep trivial fun synced => ?_
      cases synced with
      | error error => exact failedEnds (dropTemporaryFollows rfl)
      | ok _ =>
        refine followsStep trivial fun verified => ?_
        cases verified with
        | error error => exact failedEnds (dropTemporaryFollows rfl)
        | ok _ => exact linkTemporaryFollows wrapped
    · exact failedEnds (dropTemporaryFollows owned)
  · exact .inr (.inr ⟨_, rfl⟩)

def Answers (crates : Crates) (passphrase name : String) (result : Except KeyStoreError DatabaseKey)
    (q : Stage) : Prop := q.may crates passphrase name (.respond result)

theorem answersError {error : KeyStoreError} {q : Stage} :
    Answers crates passphrase name (.error error) q := by
  unfold Answers
  cases q <;> trivial

theorem decryptWrappedKeyFollows : (stages crates passphrase name).Follows
    (Answers crates passphrase name) .idle (decryptWrappedKey crates passphrase name) := by
  refine followsStep trivial fun data => ?_
  cases data with
  | error error => exact answersError
  | ok pathMetadata =>
  simp only [Prog.bind]
  split
  · exact answersError
  split
  · exact answersError
  refine followsStep rfl fun opened => ?_
  cases opened with
  | error error => exact answersError
  | ok inode =>
  refine followsStep trivial fun data => ?_
  cases data with
  | error error => exact answersError
  | ok openedMetadata =>
  simp only [Prog.bind]
  split
  · exact answersError
  refine followsStep ⟨rfl, rfl⟩ fun got => ?_
  cases got with
  | error error => exact answersError
  | ok bytes =>
  simp only [Prog.bind]
  split
  · exact answersError
  · rename_i fits
    change Answers crates passphrase name (unwrapKey crates passphrase bytes) (.got bytes)
    cases unwrapped : unwrapKey crates passphrase bytes with
    | error error => exact answersError
    | ok returned => exact ⟨Nat.not_lt.mp fits, unwrapped⟩

theorem createWrappedKeyFollows (round : crates.RoundTrips) :
    (stages crates passphrase name).Follows (Answers crates passphrase name) .idle
      (createWrappedKey crates passphrase name) := by
  refine followsStep trivial fun key => ?_
  refine followsStep trivial fun salt => ?_
  refine followsStep trivial fun nonce => ?_
  cases wrapped : wrapKey crates passphrase key salt nonce with
  | error error => exact answersError
  | ok contents =>
    refine followsSeq (publishAtomicallyFollows (unwrapWrapped round wrapped)) fun result q ended => ?_
    rcases ended with ⟨rfl, rfl⟩ | ⟨rfl, rfl⟩ | ⟨error, rfl⟩
    · exact rfl
    · exact decryptWrappedKeyFollows
    · exact answersError

theorem stagesSound (round : crates.RoundTrips) : (stages crates passphrase name).Sound := by
  intro entry
  have loads : (stages crates passphrase name).Follows (Answers crates passphrase name) .idle
      (loadOrCreate crates passphrase name) := by
    refine followsStep trivial fun verified => ?_
    cases verified with
    | error error => exact answersError
    | ok _ =>
      refine followsStep trivial fun data => ?_
      match data with
      | .ok _ => exact decryptWrappedKeyFollows
      | .error .notFound => exact createWrappedKeyFollows round
      | .error .alreadyExists | .error .isLoop | .error .writeZero | .error (.other _) =>
        exact answersError
  exact followsSeq loads fun result q answers => followsStep answers fun _ => trivial

end Stages

section Outlines
variable (crates : Crates) (passphrase name : String)

def Holds (key : DatabaseKey) (d : Directory) : Prop :=
  ∃ bytes, d.content name = some bytes ∧ unwrapKey crates passphrase bytes = .ok key

/-- The file is absent or one complete wrapped key, `fixed` once it was that, and the calls
have returned the key it holds. -/
structure Agreed (fixed : Option Bytes) (m : Memory) : Prop where
  whole : ∀ bytes, m.directory.content name = some bytes →
    ∃ key, unwrapKey crates passphrase bytes = .ok key
  same : ∀ bytes, fixed = some bytes → m.directory.content name = some bytes
  returned : ∀ key ∈ m.returned, Holds crates passphrase name key m.directory

def Stage.Here : Stage → Directory → Prop
  | .idle, _ | .drawn _, _ => True
  | .owning _ temporary inode written, d =>
    Owns name d temporary inode ∧ (d.files inode).bytes = written
  | .linked key temporary, d =>
    temporary ≠ name ∧ d.entries temporary ≠ none ∧ Holds crates passphrase name key d
  | .lost temporary, d => temporary ≠ name ∧ d.entries temporary ≠ none
  | .published key, d => Holds crates passphrase name key d
  | .opened inode, d => d.entries name = some inode
  | .got bytes, d => bytes.length ≤ maxEnvelopeBytes → d.content name = some bytes

def Stage.Apart (q other : Stage) : Prop :=
  ∀ temporary, q.temporary = some temporary → other.temporary ≠ some temporary

abbrev agreeing (fixed : Option Bytes) : Outline (stages crates passphrase name) where
  Inv := Agreed crates passphrase name fixed
  Here q m := q.Here crates passphrase name m.directory
  Apart q other := q.Apart other

structure Spares (other : Stage) (d d' : Directory) : Prop where
  target : ∀ inode, d.entries name = some inode →
    d'.entries name = some inode ∧ (d'.files inode).bytes = (d.files inode).bytes
  kept : ∀ temporary, other.temporary = some temporary → d.entries temporary ≠ none →
    d'.entries temporary ≠ none
  owned : ∀ temporary inode, other.temporary = some temporary → Owns name d temporary inode →
    Owns name d' temporary inode ∧ (d'.files inode).bytes = (d.files inode).bytes

variable {crates passphrase name} {d d' : Directory} {q other : Stage} {fixed : Option Bytes}
  {m m' : Memory} {key : DatabaseKey} {temporary : String} {inode : Inode}

theorem contentKept (target : ∀ inode, d.entries name = some inode →
      d'.entries name = some inode ∧ (d'.files inode).bytes = (d.files inode).bytes) {bytes : Bytes}
    (shown : d.content name = some bytes) : d'.content name = some bytes := by
  rw [contentOf] at shown ⊢
  obtain ⟨inode, found, rfl⟩ := Option.map_eq_some_iff.mp shown
  obtain ⟨still, same⟩ := target inode found
  rw [still, Option.map_some, same]

theorem holdsKept (target : ∀ inode, d.entries name = some inode →
      d'.entries name = some inode ∧ (d'.files inode).bytes = (d.files inode).bytes)
    (holds : Holds crates passphrase name key d) : Holds crates passphrase name key d' := by
  obtain ⟨bytes, shown, unwrapped⟩ := holds
  exact ⟨bytes, contentKept target shown, unwrapped⟩

theorem sparedHere (spares : Spares name other d d') (here : other.Here crates passphrase name d) :
    other.Here crates passphrase name d' := by
  cases other with
  | idle | drawn key => trivial
  | owning key temporary inode written =>
    obtain ⟨owns, bytes⟩ := here
    obtain ⟨owns', same⟩ := spares.owned temporary inode rfl owns
    exact ⟨owns', same.trans bytes⟩
  | linked key temporary =>
    exact ⟨here.1, spares.kept temporary rfl here.2.1, holdsKept spares.target here.2.2⟩
  | lost temporary => exact ⟨here.1, spares.kept temporary rfl here.2⟩
  | published key => exact holdsKept spares.target here
  | opened inode => exact (spares.target inode here).1
  | got bytes => exact fun fits => contentKept spares.target (here fits)

theorem hereFound (here : q.Here crates passphrase name d) (has : q.temporary = some temporary) :
    d.entries temporary ≠ none := by
  cases q with
  | owning key mine inode written =>
    obtain rfl := Option.some.inj has
    rw [here.1.named]
    nofun
  | linked key mine =>
    obtain rfl := Option.some.inj has
    exact here.2.1
  | lost mine =>
    obtain rfl := Option.some.inj has
    exact here.2
  | idle | drawn _ | published _ | opened _ | got _ => cases has

theorem apartSymm (apart : q.Apart other) : other.Apart q :=
  fun temporary has same => apart temporary same has

theorem agreedKept (agreed : Agreed crates passphrase name fixed m) {d' : Directory}
    (target : ∀ inode, m.directory.entries name = some inode →
      d'.entries name = some inode ∧ (d'.files inode).bytes = (m.directory.files inode).bytes)
    (absent : m.directory.entries name = none → d'.entries name = none) :
    Agreed crates passphrase name fixed { m with directory := d' } where
  whole := fun bytes shown => by
    have shown : d'.content name = some bytes := shown
    cases found : m.directory.entries name with
    | none =>
      rw [contentOf, absent found] at shown
      cases shown
    | some inode =>
      obtain ⟨still, same⟩ := target inode found
      refine agreed.whole bytes ?_
      rw [contentOf, still, Option.map_some, same] at shown
      rw [contentOf, found, Option.map_some, shown]
  same := fun bytes known => contentKept target (agreed.same bytes known)
  returned := fun key member => holdsKept target (agreed.returned key member)

theorem keptBy {q' : Stage} (inv : Agreed crates passphrase name fixed m')
    (here : q'.Here crates passphrase name m'.directory)
    (spares : ∀ other, other.Here crates passphrase name m.directory → q.Apart other →
      Spares name other m.directory m'.directory)
    (apart : ∀ other : Stage, other.Here crates passphrase name m.directory → q.Apart other →
      q'.Apart other) :
    (agreeing crates passphrase name fixed).Kept m m' q q' none where
  inv := inv
  here := here
  entered := nofun
  others := fun other theirs away =>
    ⟨sparedHere (spares other theirs away) theirs, apart other theirs away, nofun⟩

theorem sparesSame (other : Stage) (d : Directory) : Spares name other d d :=
  ⟨fun _ found => ⟨found, rfl⟩, fun _ _ => id, fun _ _ _ owns => ⟨owns, rfl⟩⟩

theorem keptStill {q' : Stage} {returned : List DatabaseKey}
    (inv : Agreed crates passphrase name fixed { m with returned })
    (here : q'.Here crates passphrase name m.directory)
    (fewer : q'.temporary = none ∨ q'.temporary = q.temporary) :
    (agreeing crates passphrase name fixed).Kept m { m with returned } q q' none := by
  refine keptBy inv here (fun other _ _ => sparesSame other _) fun other _ apart temporary has => ?_
  rcases fewer with none' | same
  · rw [none'] at has
    cases has
  · exact apart temporary (same ▸ has)

/-! What the steps on the directory leave. -/

theorem targetCreate {mode : Nat} (created : d.createNew temporary mode = .ok (inode, d')) :
    ∀ target, d.entries name = some target →
      d'.entries name = some target ∧ (d'.files target).bytes = (d.files target).bytes := by
  intro target found
  obtain ⟨free, -, -, entries, files⟩ := Directory.createNewOk created
  have apart : name ≠ temporary := fun same => by
    rw [same, free] at found
    cases found
  rw [entries, files, Function.update_of_ne apart,
    Function.update_of_ne (Nat.ne_of_lt (d.named _ _ found))]
  exact ⟨found, rfl⟩

theorem createSpares {mode : Nat} (created : d.createNew temporary mode = .ok (inode, d')) :
    Spares name other d d' where
  target := targetCreate created
  kept := fun theirs _ found => by
    obtain ⟨free, -, -, entries, -⟩ := Directory.createNewOk created
    rw [entries]
    by_cases same : theirs = temporary
    · exact absurd free (same ▸ found)
    · rwa [Function.update_of_ne same]
  owned := fun _ _ _ owns =>
    have kept := ownsCreate created owns
    ⟨kept.1, congrArg File.bytes kept.2⟩

theorem targetWrite {bytes : Bytes} (owns : Owns name d temporary inode) :
    ∀ target, d.entries name = some target → (d.write inode bytes).entries name = some target ∧
      ((d.write inode bytes).files target).bytes = (d.files target).bytes := by
  intro target found
  have apart : target ≠ inode := by
    rintro rfl
    exact owns.apart (owns.alone name found).symm
  exact ⟨found, congrArg File.bytes (writeElsewhere apart)⟩

theorem writeSpares {bytes : Bytes} (owns : Owns name d temporary inode)
    (apart : other.temporary ≠ some temporary) : Spares name other d (d.write inode bytes) where
  target := targetWrite owns
  kept := fun _ _ found => found
  owned := fun theirs file has own => by
    have kept : Owns name (d.write inode bytes) theirs file ∧
        (d.write inode bytes).files file = d.files file :=
      ownsAlter (fun same => apart (has.trans (congrArg some same))) owns rfl
        (fun _ => writeElsewhere) own
    exact ⟨kept.1, congrArg File.bytes kept.2⟩

theorem targetUnlink (away : temporary ≠ name) (unlinked : d.unlink temporary = .ok d') :
    ∀ target, d.entries name = some target →
      d'.entries name = some target ∧ (d'.files target).bytes = (d.files target).bytes := by
  intro target found
  obtain ⟨files, -, entries⟩ := Directory.unlinkOk unlinked
  rw [entries, files, Function.update_of_ne away.symm]
  exact ⟨found, rfl⟩

theorem unlinkSpares (away : temporary ≠ name) (apart : other.temporary ≠ some temporary)
    (unlinked : d.unlink temporary = .ok d') : Spares name other d d' where
  target := targetUnlink away unlinked
  kept := fun theirs has found => by
    obtain ⟨-, -, entries⟩ := Directory.unlinkOk unlinked
    rwa [entries, Function.update_of_ne fun same => apart (has.trans (congrArg some same))]
  owned := fun _ inode has owns => by
    obtain ⟨files, -, entries⟩ := Directory.unlinkOk unlinked
    exact ⟨ownsUnlink (fun same => apart (has.trans (congrArg some same))) entries owns,
      congrArg File.bytes (congrFun files inode)⟩

theorem hardLinkSpares (mine : Owns name d temporary inode) (apart : other.temporary ≠ some temporary)
    (linked : d.hardLink temporary name = .ok d') : Spares name other d d' where
  target := fun target found => by
    obtain ⟨_, _, free, _⟩ := Directory.hardLinkOk linked
    rw [free] at found
    cases found
  kept := fun theirs _ found => by
    obtain ⟨target, _, free, -, -, entries⟩ := Directory.hardLinkOk linked
    rw [entries]
    by_cases same : theirs = name
    · exact absurd free (same ▸ found)
    · rwa [Function.update_of_ne same]
  owned := fun theirs file has owns => by
    obtain ⟨target, source, _, files, -, entries⟩ := Directory.hardLinkOk linked
    obtain rfl := Option.some.inj (mine.named.symm.trans source)
    refine ⟨ownsLink (fun same => ?_) entries owns, congrArg File.bytes (congrFun files file)⟩
    exact apart (has.trans (congrArg some (mine.alone theirs (same ▸ owns.named))))

theorem agreeingQuiet {o : Act} {choice : Choice} {answer : o.Answer}
    (inv : Agreed crates passphrase name fixed m) (here : q.Here crates passphrase name m.directory)
    (may : q.may crates passphrase name o) (quiet : o.Quiet)
    (applied : apply name o choice m = some (answer, m')) :
    (agreeing crates passphrase name fixed).Kept m m' q (q.after o answer) none := by
  obtain rfl := (appliedQuiet quiet applied).symm
  cases o
  case createNew | write | hardLink | removeFile => exact quiet.elim
  case openRead file =>
    cases q <;> try exact may.elim
    case idle =>
      cases answer with
      | error error => exact keptStill inv here (.inr rfl)
      | ok inode =>
        obtain rfl : file = name := may
        exact keptStill inv (appliedOpenRead applied) (.inl rfl)
  case read target count =>
    cases q <;> try exact may.elim
    case opened inode =>
      obtain ⟨rfl, rfl⟩ : target = inode ∧ count = maxEnvelopeBytes + 1 := may
      cases answer with
      | error error => exact keptStill inv here (.inr rfl)
      | ok bytes =>
        refine keptStill inv (fun fits => ?_) (.inl rfl)
        have found : m.directory.entries name = some target := here
        have read := appliedRead applied
        have whole : (m.directory.files target).bytes.length ≤ maxEnvelopeBytes + 1 := by
          rw [read, List.length_take] at fits
          omega
        rw [contentOf, found, Option.map_some, read, List.take_of_length_le whole]
  case generateKey =>
    cases q <;> try exact may.elim
    case idle => exact keptStill inv trivial (.inl rfl)
  case respond result =>
    cases result with
    | ok key => exact quiet.elim
    | error error => cases q <;> exact keptStill inv here (.inr rfl)
  all_goals cases q <;> exact keptStill inv here (.inr rfl)

theorem agreeingRemove {choice : Choice} {answer : Except IoError Unit}
    (inv : Agreed crates passphrase name fixed m) (here : q.Here crates passphrase name m.directory)
    (may : q.temporary = some temporary)
    (applied : apply name (.removeFile temporary) choice m = some (answer, m')) :
    (agreeing crates passphrase name fixed).Kept m m' q (q.after (.removeFile temporary) answer) none := by
  rcases appliedRemoveFile applied with ⟨error, rfl, rfl⟩ | ⟨directory, rfl, rfl, unlinked⟩
  · cases q <;> exact keptStill inv here (.inr rfl)
  have away : temporary ≠ name := by
    cases q with
    | owning key mine inode written =>
      obtain rfl := Option.some.inj may
      exact here.1.apart
    | linked key mine =>
      obtain rfl := Option.some.inj may
      exact here.1
    | lost mine =>
      obtain rfl := Option.some.inj may
      exact here.1
    | idle | drawn _ | published _ | opened _ | got _ => cases may
  have target := targetUnlink away unlinked
  have removed : Agreed crates passphrase name fixed { m with directory := directory } := by
    refine agreedKept inv target fun absent => ?_
    rw [(Directory.unlinkOk unlinked).2.2, Function.update_of_ne away.symm, absent]
  refine keptBy removed ?_ (fun other _ apart => unlinkSpares away (apart _ may) unlinked) ?_
  · cases q with
    | owning key mine inode written => exact trivial
    | linked key mine => exact holdsKept target here.2.2
    | lost mine => exact trivial
    | idle | drawn _ | published _ | opened _ | got _ => cases may
  · intro other _ _ mine has
    cases q <;> cases may <;> cases has

theorem agreeingAct (reserved : ∀ random, temporaryNameOf random ≠ name) {o : Act} {choice : Choice}
    {answer : o.Answer} (inv : Agreed crates passphrase name fixed m)
    (here : q.Here crates passphrase name m.directory) (may : q.may crates passphrase name o)
    (applied : apply name o choice m = some (answer, m')) :
    (agreeing crates passphrase name fixed).Kept m m' q (q.after o answer) none := by
  cases o
  case createNew temporary =>
    cases q <;> try exact may.elim
    case drawn key =>
      obtain ⟨random, rfl⟩ := may
      rcases appliedCreateNew applied with ⟨error, rfl, rfl⟩ | ⟨inode, directory, rfl, rfl, created⟩
      · exact keptStill inv here (.inr rfl)
      obtain ⟨free, -, -, entries, -⟩ := Directory.createNewOk created
      refine keptBy (agreedKept inv (targetCreate created) fun absent => ?_)
        (createOwns (reserved random) created) (fun other _ _ => createSpares created)
        fun other theirs _ mine has taken => ?_
      · rw [entries, Function.update_of_ne (reserved random).symm, absent]
      · obtain rfl := Option.some.inj has
        exact hereFound theirs taken free
  case write target bytes =>
    cases q <;> try exact may.elim
    case owning key temporary inode written =>
      obtain rfl : target = inode := may
      obtain ⟨owns, rfl⟩ := here
      rcases appliedWrite applied with ⟨error, rfl, rfl⟩ | ⟨count, rfl, rfl⟩
      · exact keptStill inv ⟨owns, rfl⟩ (.inr rfl)
      · exact keptBy (agreedKept inv (targetWrite owns) id)
          ⟨⟨owns.apart, owns.named, owns.alone⟩, writeHere⟩
          (fun other _ apart => writeSpares owns (apart _ rfl)) fun other _ apart => apart
  case hardLink source =>
    cases q <;> try exact may.elim
    case owning key temporary inode written =>
      obtain ⟨rfl, unwrapped⟩ : source = temporary ∧ unwrapKey crates passphrase written = .ok key := may
      obtain ⟨owns, rfl⟩ := here
      have named : m.directory.entries source ≠ none := by
        rw [owns.named]
        nofun
      rcases appliedHardLink applied with ⟨error, rfl, rfl⟩ | ⟨directory, rfl, rfl, linked⟩
      · cases error <;> first | exact keptStill inv ⟨owns, rfl⟩ (.inr rfl) |
          exact keptStill inv ⟨owns.apart, named⟩ (.inr rfl)
      obtain ⟨target, found, free, files, -, entries⟩ := Directory.hardLinkOk linked
      obtain rfl := Option.some.inj (owns.named.symm.trans found)
      have shown : directory.content name = some (m.directory.files inode).bytes := by
        rw [contentOf, entries, Function.update_self, files, Option.map_some]
      have absent : m.directory.content name = none := by rw [contentOf, free, Option.map_none]
      have holds : Holds crates passphrase name key directory := ⟨_, shown, unwrapped⟩
      refine keptBy ⟨fun bytes here => ?_, fun bytes known => ?_, fun returned member => ?_⟩
        ⟨owns.apart, ?_, holds⟩ (fun other _ apart => hardLinkSpares owns (apart _ rfl) linked)
        fun other _ apart => apart
      · obtain rfl := Option.some.inj (shown.symm.trans here)
        exact ⟨key, unwrapped⟩
      · have before := inv.same bytes known
        rw [absent] at before
        cases before
      · obtain ⟨bytes, before, _⟩ := inv.returned returned member
        rw [absent] at before
        cases before
      · change directory.entries source ≠ none
        rw [entries, Function.update_of_ne owns.apart]
        exact named
  case removeFile temporary =>
    have has : q.temporary = some temporary := by cases q <;> exact may
    exact agreeingRemove inv here has applied
  case respond result =>
    cases result with
    | error error => exact agreeingQuiet inv here may trivial applied
    | ok key =>
      cases applied
      have answered : Holds crates passphrase name key m.directory →
          Agreed crates passphrase name fixed { m with returned := key :: m.returned } := fun holds =>
        ⟨inv.whole, inv.same, fun returned member => by
          rcases List.mem_cons.mp member with rfl | older
          · exact holds
          · exact inv.returned returned older⟩
      cases q <;> try exact may.elim
      case published held =>
        obtain rfl : key = held := may
        exact keptStill (answered here) here (.inr rfl)
      case got bytes =>
        obtain ⟨fits, unwrapped⟩ := may
        exact keptStill (answered ⟨bytes, here fits, unwrapped⟩) here (.inr rfl)
  all_goals exact agreeingQuiet inv here may trivial applied

theorem agreeingValid (reserved : ∀ random, temporaryNameOf random ≠ name) :
    (agreeing crates passphrase name fixed).Valid fun _ _ _ => True where
  symm := apartSymm
  call := fun _ _ => ⟨trivial, fun _ _ => nofun⟩
  act := fun inv here may _ applied => agreeingAct reserved inv here may applied
  outside := fun {x} => nomatch x

end Outlines

section Runs
variable {crates : Crates} {passphrase name : String} {fixed : Option Bytes}

abbrev Crashing (crates : Crates) (passphrase name : String)
    (start c : Config (machine crates passphrase name)) : Prop :=
  Teardown.Torn (crash crates passphrase name) (fun _ _ _ => True) start c

theorem crashingHolds (round : crates.RoundTrips) (reserved : ∀ random, temporaryNameOf random ≠ name)
    {start c : Config (machine crates passphrase name)}
    (first : (agreeing crates passphrase name fixed).Holds start)
    (ran : Crashing crates passphrase name start c) :
    (agreeing crates passphrase name fixed).Holds c :=
  Teardown.tornHolds (stagesSound round) (agreeingValid reserved)
    (fun inv _ _ (_ : True) => ⟨inv, fun _ here _ => here⟩) first (fun _ _ _ => trivial)
    (fun _ _ _ _ => trivial) ran

/-- From an absent file or a complete wrapped key, the file is at every moment absent or one
complete wrapped key, the same from then on, and the calls return the key it holds. -/
theorem callersAgree (round : crates.RoundTrips) (reserved : ∀ random, temporaryNameOf random ≠ name)
    {d : Directory} (first : ∀ bytes, d.content name = some bytes →
      ∃ key, unwrapKey crates passphrase bytes = .ok key)
    {c : Config (machine crates passphrase name)}
    (ran : Crashing crates passphrase name ⟨⟨d, []⟩, []⟩ c) :
    (∀ bytes, c.memory.directory.content name = some bytes →
      (∃ key, unwrapKey crates passphrase bytes = .ok key) ∧
        ∀ {later}, Crashing crates passphrase name c later →
          later.memory.directory.content name = some bytes) ∧
    ∀ key ∈ c.memory.returned, ∃ bytes, c.memory.directory.content name = some bytes ∧
      unwrapKey crates passphrase bytes = .ok key := by
  have opening : Agreed crates passphrase name none ⟨d, []⟩ :=
    ⟨first, fun _ known => (nomatch known), fun _ member => absurd member List.not_mem_nil⟩
  have holds := crashingHolds round reserved (Outline.holdsEmpty opening) ran
  refine ⟨fun bytes shown => ⟨holds.inv.whole bytes shown, fun ran => ?_⟩, holds.inv.returned⟩
  have fixes : (agreeing crates passphrase name (some bytes)).Holds c :=
    ⟨⟨holds.inv.whole, fun known same => Option.some.inj same ▸ shown, holds.inv.returned⟩,
      holds.placed, holds.here, holds.apart⟩
  exact (crashingHolds round reserved fixes ran).inv.same bytes rfl

end Runs

/-! Two callers race, and the one whose file is linked crashes before it has removed the
temporary name. -/

def codes (text : String) : List Nat := text.toList.map Char.toNat

def textOf (codes : List Nat) : String := String.ofList (codes.map Char.ofNat)

def unary (numbers : List Nat) : Bytes := numbers.flatMap fun n => List.replicate n 1 ++ [0]

def counts : Nat → Bytes → List Nat
  | _, [] => []
  | n, byte :: rest => if byte = 0 then n :: counts 0 rest else counts (n + 1) rest

theorem countsUnary {numbers : List Nat} : counts 0 (unary numbers) = numbers := by
  have one : ∀ n k rest, counts k (List.replicate n 1 ++ 0 :: rest) = (k + n) :: counts 0 rest := by
    intro n
    induction n with
    | zero => intro k rest; simp [counts]
    | succ n ih =>
      intro k rest
      rw [List.replicate_succ, List.cons_append, counts, if_neg (by decide), ih]
      congr 1
      omega
  induction numbers with
  | nil => rfl
  | cons n rest ih =>
    rw [unary, List.flatMap_cons, List.append_assoc]
    refine (one n 0 _).trans ?_
    rw [Nat.zero_add]
    exact congrArg (n :: ·) ih

def prefixed (text : String) : List Nat := text.length :: codes text

def plainCrates : Crates where
  hashPassword passphrase salt := .ok ((codes passphrase).map UInt8.ofNat ++ salt)
  encrypt key _ message := .ok (key ++ message)
  decrypt key _ ciphertext :=
    if ciphertext.take key.length = key then some (ciphertext.drop key.length) else none
  encode bytes := textOf (bytes.map UInt8.toNat)
  decode text := .ok ((codes text).map UInt8.ofNat)
  toVec envelope := unary (envelope.version :: prefixed envelope.salt ++ prefixed envelope.nonce ++
    codes envelope.ciphertext)
  fromSlice bytes :=
    match counts 0 bytes with
    | version :: length :: rest =>
      match rest.drop length with
      | length' :: rest' => .ok ⟨version, textOf (rest.take length), textOf (rest'.take length'),
          textOf (rest'.drop length')⟩
      | [] => .error "EOF while parsing an object"
    | _ => .error "EOF while parsing an object"

theorem codesLength {text : String} : (codes text).length = text.length := by
  rw [codes, List.length_map, String.length_toList]

theorem textCodes {text : String} : textOf (codes text) = text := by
  rw [textOf, codes, List.map_map]
  conv_rhs => rw [← String.ofList_toList (s := text)]
  congr 1
  exact (List.map_congr_left fun c _ => Char.ofNat_toNat c).trans (List.map_id _)

theorem codesText {bytes : Bytes} : (codes (textOf (bytes.map UInt8.toNat))).map UInt8.ofNat = bytes := by
  rw [codes, textOf, String.toList_ofList, List.map_map, List.map_map, List.map_map]
  refine (List.map_congr_left fun byte _ => ?_).trans (List.map_id _)
  have small := byte.toNat_lt
  have valid : byte.toNat.isValidChar := .inl (by omega)
  have whole : (Char.ofNat byte.toNat).toNat = byte.toNat := by
    rw [Char.ofNat, dif_pos valid]
    rfl
  simp only [Function.comp_apply, whole, UInt8.ofNat_toNat, id]

theorem plainRoundTrips : plainCrates.RoundTrips where
  aead := by
    intro key nonce message ciphertext encrypted
    cases encrypted
    simp [plainCrates]
  base64 := fun bytes => congrArg Except.ok codesText
  json := fun envelope => by
    simp only [plainCrates, countsUnary, prefixed, List.cons_append, List.append_assoc]
    rw [List.drop_append_of_le_length (Nat.le_of_eq codesLength.symm),
      List.drop_of_length_le (Nat.le_of_eq codesLength), List.nil_append]
    simp only [List.take_left' codesLength, List.drop_left' codesLength, textCodes]

def system : Choice := ⟨none, none, 0, []⟩

def draws (count : Nat) (byte : UInt8) : Choice := { system with drawn := List.replicate count byte }

abbrev CallerEvent := Event (machine plainCrates "secret" "database-key-v1.json")

def prepares (caller : Nat) (byte : UInt8) (size : Nat) : List (CallerEvent ⊕ Nat) :=
  [system, system, draws 32 byte, draws 16 byte, draws 24 byte, system, draws 16 byte, system,
    { system with count := size }, system, system].map fun choice => .inl (.run caller choice)

def raceTurns : List (CallerEvent ⊕ Nat) :=
  [.inl (.call ()), .inl (.call ())] ++ prepares 0 0 784 ++ prepares 1 1 872 ++
    [.inl (.run 0 system), .inr 0] ++ List.replicate 8 (.inl (.run 0 system))

def emptyDirectory : Directory := ⟨fun _ => none, fun _ => ⟨.regular, [], 0, 0⟩, 0, nofun⟩

abbrev raceRun : Option (Config (machine plainCrates "secret" "database-key-v1.json")) :=
  Teardown.tornRun (crash plainCrates "secret" "database-key-v1.json") (fun _ _ _ => True)
    ⟨⟨emptyDirectory, []⟩, []⟩ raceTurns

theorem raceReturned : raceRun.map (·.memory.returned) = some [⟨List.replicate 32 0, rfl⟩] := by
  decide +kernel

theorem temporaryReserved (random : Bytes) : temporaryNameOf random ≠ "database-key-v1.json" := by
  intro same
  have first := congrArg (fun text => text.toList.head?) same
  simp only [temporaryNameOf, String.toList_append] at first
  exact absurd first (by simp)

theorem callersAgreeRace : ∃ c : Config (machine plainCrates "secret" "database-key-v1.json"),
    c.memory.returned = [⟨List.replicate 32 0, rfl⟩] ∧
      ∃ bytes, c.memory.directory.content "database-key-v1.json" = some bytes ∧
        unwrapKey plainCrates "secret" bytes = .ok ⟨List.replicate 32 0, rfl⟩ := by
  obtain ⟨c, ran, returned⟩ := Option.map_eq_some_iff.mp raceReturned
  refine ⟨c, returned, ?_⟩
  refine (callersAgree plainRoundTrips temporaryReserved (d := emptyDirectory) (fun bytes shown => ?_)
    (Teardown.runTorn .start ran)).2 _ ?_
  · cases shown
  · rw [returned]
    exact List.mem_singleton_self _

end Maestro.KeyStore
