import Maestro.FileSave

/-! A call of `save_text` that fails, whichever of its steps failed: what it leaves in the
directory. -/
namespace Maestro.Saving
open Interleaving Prog Files

variable {service : FileService} {name : String} {save : Save} {m m' : Workspace} {past : Past actions}

def SameFiles (d d' : Directory) : Prop := ∀ other, d'.content other = d.content other

abbrev Answered (past : Past actions) (o : Act) (answer : o.Answer) : Prop := ⟨o, answer⟩ ∈ past

/-- The directory could not be synced behind the rename of another text, or the temporary
file that was not renamed could not be removed. -/
def Unclean (name : String) (save : Save) (m : Workspace) (past : Past actions) : Prop :=
  (∃ kind, Answered past .syncDirectory (.error kind)) ∧ m.directory.content name ≠ some save.text ∨
    (∃ temporary kind, Answered past (.unlink temporary) (.error kind)) ∧
      ∀ temporary, ¬ Answered past (.rename temporary save) (.ok ())

def Act.settles : Act → Bool
  | .rename .. | .syncDirectory | .unlink _ => true
  | _ => false

def Plain (past : Past actions) : Prop := ∀ done ∈ past, done.1.settles = false

theorem plainNil : Plain [] := fun _ member => nomatch member

theorem plainCons {o : Act} {answer : o.Answer} (plain : o.settles = false) (rest : Plain past) :
    Plain (⟨o, answer⟩ :: past) := by
  intro done member
  cases member with
  | head => exact plain
  | tail _ member => exact rest done member

theorem plainAppend {rest : Past actions} (first : Plain past) (second : Plain rest) :
    Plain (past ++ rest) := by
  intro done member
  rcases List.mem_append.mp member with before | after
  · exact first done before
  · exact second done after

theorem plainUnanswered (plain : Plain past) {o : Act} {answer : o.Answer} (settles : o.settles = true) :
    ¬ Answered past o answer := fun member =>
  Bool.false_ne_true ((plain _ member).symm.trans settles)

theorem plainTail (plain : Plain past) {rest : Past actions} {o : Act} {answer : o.Answer}
    (settles : o.settles = true) : Answered (past ++ rest) o answer ↔ Answered rest o answer := by
  refine List.mem_append.trans (or_iff_right ?_)
  exact plainUnanswered plain settles

theorem plainClean (plain : Plain past) : ¬ Unclean name save m past := by
  rintro (⟨⟨kind, synced⟩, _⟩ | ⟨⟨temporary, kind, unlinked⟩, _⟩)
  · exact plainUnanswered plain rfl synced
  · exact plainUnanswered plain rfl unlinked

theorem uncleanTail (plain : Plain past) {rest : Past actions} :
    Unclean name save m (past ++ rest) ↔ Unclean name save m rest := by
  have same : ∀ {o : Act} {answer : o.Answer}, o.settles = true →
      (Answered (past ++ rest) o answer ↔ Answered rest o answer) := fun settles =>
    plainTail plain settles
  unfold Unclean
  refine or_congr (and_congr (exists_congr fun kind => same rfl) Iff.rfl)
    (and_congr (exists_congr fun t => exists_congr fun kind => same rfl) (forall_congr' fun t => ?_))
  exact not_congr (same rfl)

/-- Nothing of what decides what is left has happened, and the directory is as it was. -/
def Untouched (m : Workspace) (past : Past actions) (m' : Workspace) : Prop := m' = m ∧ Plain past

theorem openRegularAlone {operation : String} :
    Ensures (machine service name) (openRegular name operation) m fun past result m' =>
      Untouched m past m' ∧ ∀ inode, result = .ok inode → m.directory.entries name = some inode := by
  refine ensuresStep fun choice opened mid effect => ?_
  obtain ⟨rfl, found⟩ := appliedOpenat effect
  cases opened with
  | error kind =>
    cases kind <;> exact ensuresDone ⟨⟨rfl, plainCons rfl plainNil⟩, nofun⟩
  | ok inode =>
    refine ensuresStep fun choice data mid effect => ?_
    obtain ⟨rfl, -⟩ := appliedMetadata effect
    have plain : ∀ {answer}, Plain [⟨.openat name, .ok inode⟩, ⟨.metadata inode, answer⟩] :=
      plainCons rfl (plainCons rfl plainNil)
    cases data with
    | error kind => exact ensuresDone ⟨⟨rfl, plain⟩, nofun⟩
    | ok metadata =>
      dsimp only
      split
      · refine ensuresDone ⟨⟨rfl, plain⟩, fun other same => ?_⟩
        cases same
        exact found inode rfl
      · exact ensuresDone ⟨⟨rfl, plain⟩, nofun⟩

theorem readFromParentAlone {operation : String} :
    Ensures (machine service name) (readFromParent service name operation) m fun past result m' =>
      Untouched m past m' ∧
        ∀ bytes metadata, result = .ok (bytes, metadata) → m.directory.content name = some bytes := by
  refine ensuresSeq openRegularAlone fun past opened m₁ ⟨⟨same, plain⟩, found⟩ => ?_
  subst same
  cases opened with
  | error error => exact ensuresDone ⟨⟨rfl, plainAppend plain plainNil⟩, nofun⟩
  | ok inode =>
    refine ensuresStep fun choice data mid effect => ?_
    obtain ⟨rfl, before⟩ := appliedMetadata effect
    cases data with
    | error kind =>
      exact ensuresDone ⟨⟨rfl, plainAppend plain (plainCons rfl plainNil)⟩, nofun⟩
    | ok data =>
      dsimp only
      split
      · exact ensuresDone ⟨⟨rfl, plainAppend plain (plainCons rfl plainNil)⟩, nofun⟩
      rename_i fits
      refine ensuresStep fun choice got mid effect => ?_
      obtain ⟨rfl, taken⟩ := appliedRead effect
      cases got with
      | error kind =>
        exact ensuresDone ⟨⟨rfl, plainAppend plain (plainCons rfl (plainCons rfl plainNil))⟩, nofun⟩
      | ok bytes =>
        dsimp only
        split
        · exact ensuresDone
            ⟨⟨rfl, plainAppend plain (plainCons rfl (plainCons rfl plainNil))⟩, nofun⟩
        refine ensuresStep fun choice again mid effect => ?_
        obtain ⟨rfl, -⟩ := appliedMetadata effect
        have plain' : ∀ {a b c}, Plain (past ++ [⟨.metadata inode, a⟩,
            ⟨.read inode (service.maximumTextBytes + 1), b⟩, ⟨.metadata inode, c⟩]) :=
          plainAppend plain (plainCons rfl (plainCons rfl (plainCons rfl plainNil)))
        cases again with
        | error kind => exact ensuresDone ⟨⟨rfl, plain'⟩, nofun⟩
        | ok later =>
          dsimp only
          split
          · exact ensuresDone ⟨⟨rfl, plain'⟩, nofun⟩
          · refine ensuresDone ⟨⟨rfl, plain'⟩, fun shown metadata same => ?_⟩
            cases same
            rw [before data rfl] at fits
            rw [taken bytes rfl, List.take_of_length_le (Nat.le_succ_of_le (Nat.le_of_not_lt fits)),
              Directory.content, Directory.find, found inode rfl]
            rfl

/-- The temporary file written, and whether it was renamed. -/
inductive Wrote (name : String) (save : Save) (temporary : String) (inode : Inode) (m : Workspace) :
    Past actions → Except ProjectError SaveResult → Workspace → Prop
  | failed {past : Past actions} {error : ProjectError} {m' : Workspace}
      (renames : ∀ t, ¬ Answered past (.rename t save) (.ok ()))
      (syncs : ∀ kind, ¬ Answered past .syncDirectory (.error kind))
      (unlinks : ∀ t answer, ¬ Answered past (.unlink t) answer)
      (entries : m'.directory.entries = m.directory.entries)
      (files : ∀ other, other ≠ inode → m'.directory.files other = m.directory.files other) :
      Wrote name save temporary inode m past (.error error) m'
  | renamed {past : Past actions} {result : Except ProjectError SaveResult} {m' : Workspace}
      (renames : ∃ t, Answered past (.rename t save) (.ok ()))
      (syncs : (∃ error, result = .error error) ↔ ∃ kind, Answered past .syncDirectory (.error kind))
      (unlinks : ∀ t answer, ¬ Answered past (.unlink t) answer)
      (entries : m'.directory.entries =
        Function.update (Function.update m.directory.entries temporary none) name (some inode))
      (files : ∀ other, other ≠ inode → m'.directory.files other = m.directory.files other)
      (text : (m'.directory.files inode).bytes = save.text) :
      Wrote name save temporary inode m past result m'

theorem writeAndRenameAlone {temporary : String} {inode : Inode} {mode : Nat}
    (found : m.directory.entries temporary = some inode) (empty : (m.directory.files inode).bytes = []) :
    Ensures (machine service name) (writeAndRename service name save temporary inode mode) m
      (Wrote name save temporary inode m) := by
  have failed : ∀ {past error m'}, Plain past → m'.directory.entries = m.directory.entries →
      (∀ other, other ≠ inode → m'.directory.files other = m.directory.files other) →
      Wrote name save temporary inode m past (.error error) m' := fun plain entries files =>
    .failed (fun _ => plainUnanswered plain rfl) (fun _ => plainUnanswered plain rfl)
      (fun _ _ => plainUnanswered plain rfl) entries files
  refine ensuresStep fun choice permitted m₁ effect => ?_
  have moded : m₁.directory.entries = m.directory.entries ∧
      (∀ other, other ≠ inode → m₁.directory.files other = m.directory.files other) ∧
      (m₁.directory.files inode).bytes = [] := by
    rcases appliedSetPermissions effect with rfl | rfl
    · exact ⟨rfl, fun _ _ => rfl, empty⟩
    · exact ⟨rfl, fun _ apart => setModeElsewhere apart, setModeHere.trans empty⟩
  obtain ⟨entries₁, files₁, empty₁⟩ := moded
  cases permitted with
  | error kind => exact ensuresDone (failed (plainCons rfl plainNil) entries₁ files₁)
  | ok _ =>
  refine ensuresStep fun choice wrote m₂ effect => ?_
  obtain ⟨bytes, rfl, whole⟩ := appliedWriteAll effect
  have files₂ : ∀ other, other ≠ inode →
      (m₁.directory.write inode bytes).files other = m.directory.files other := fun other apart =>
    (writeElsewhere apart).trans (files₁ other apart)
  cases wrote with
  | error kind => exact ensuresDone (failed (plainCons rfl (plainCons rfl plainNil)) entries₁ files₂)
  | ok _ =>
  rw [whole rfl] at files₂ ⊢
  have text : ((m₁.directory.write inode save.text).files inode).bytes = save.text := by
    rw [writeHere, empty₁, List.nil_append]
  refine ensuresStep fun choice synced m₃ effect => ?_
  obtain rfl := appliedSync (.inr ⟨inode, rfl⟩) effect
  cases synced with
  | error kind =>
    exact ensuresDone (failed (plainCons rfl (plainCons rfl (plainCons rfl plainNil))) entries₁ files₂)
  | ok _ =>
  refine ensuresSeq readFromParentAlone fun past latest m₄ ⟨⟨same, plain⟩, _⟩ => ?_
  subst same
  have before : Plain (⟨.setPermissions inode mode, .ok ()⟩ :: ⟨.writeAll inode save.text, .ok ()⟩ ::
      ⟨.syncAll inode, .ok ()⟩ :: past) := plainCons rfl (plainCons rfl (plainCons rfl plain))
  cases latest with
  | error error => exact ensuresDone (failed (plainAppend before plainNil) entries₁ files₂)
  | ok latest =>
  dsimp only
  split
  · exact ensuresDone (failed (plainAppend before plainNil) entries₁ files₂)
  refine ensuresStep fun choice renamed m₅ effect => ?_
  rcases appliedRename effect with ⟨kind, rfl, rfl⟩ | ⟨inode', directory, rfl, named, rfl, files, -, entries⟩
  · refine ensuresDone (.failed (fun t member => ?_) (fun kind member => ?_) (fun t answer member => ?_)
      entries₁ files₂)
    all_goals
      have last := (plainTail before rfl).mp member
      simp [Answered] at last
  · have here : m₁.directory.entries temporary = some inode' := named
    rw [entries₁, found] at here
    cases here
    have moved : directory.entries =
        Function.update (Function.update m₁.directory.entries temporary none) name (some inode) := entries
    have renames : ∀ {rest : Past actions}, ∃ t, Answered
        ((⟨.setPermissions inode mode, .ok ()⟩ :: ⟨.writeAll inode save.text, .ok ()⟩ ::
          ⟨.syncAll inode, .ok ()⟩ :: past) ++ ⟨.rename temporary save, .ok ()⟩ :: rest)
        (.rename t save) (.ok ()) := fun {rest} =>
      ⟨temporary, (plainTail before rfl).mpr (List.mem_cons_self)⟩
    refine ensuresStep fun choice synced m₆ effect => ?_
    obtain rfl := appliedSync (.inl rfl) effect
    have entries₆ : directory.entries = Function.update (Function.update m.directory.entries temporary none)
        name (some inode) := by rw [moved, entries₁]
    have files₆ : ∀ other, other ≠ inode → directory.files other = m.directory.files other := by
      rw [files]
      exact files₂
    have text₆ : (directory.files inode).bytes = save.text := by rw [files, text]
    cases synced with
    | error kind =>
      refine ensuresDone (.renamed renames ⟨fun _ => ⟨kind, ?_⟩, fun _ => ⟨_, rfl⟩⟩
        (fun t answer member => ?_) entries₆ files₆ text₆)
      · exact (plainTail before rfl).mpr (by simp)
      · have last := (plainTail before rfl).mp member
        simp [Answered] at last
    | ok _ =>
      refine ensuresDone (.renamed renames ⟨nofun, fun ⟨kind, member⟩ => ?_⟩
        (fun t answer member => ?_) entries₆ files₆ text₆)
      all_goals
        have last := (plainTail before rfl).mp member
        simp [Answered] at last

/-! What the directory shows when the new inode is the temporary file's, nobody's, or the file's. -/

section Left
variable {d d' : Directory} {temporary : String}

theorem leftNamed (free : d.entries temporary = none)
    (entries : d'.entries = Function.update d.entries temporary (some d.next)) : ¬ SameFiles d d' := by
  intro same
  have shown := same temporary
  rw [contentOf, contentOf, free, entries, Function.update_self] at shown
  cases shown

theorem leftNothing (entries : d'.entries = d.entries)
    (files : ∀ other, other ≠ d.next → d'.files other = d.files other) : SameFiles d d' := by
  intro other
  refine contentSame (congrFun entries other) fun inode found => ?_
  exact files inode (Nat.ne_of_lt (d.named _ _ found))

theorem leftPublished (text : Bytes) (entries : d'.entries = Function.update d.entries name (some d.next))
    (files : ∀ other, other ≠ d.next → d'.files other = d.files other)
    (written : (d'.files d.next).bytes = text) : SameFiles d d' ↔ d.content name = some text := by
  have here : d'.content name = some text := by
    rw [contentOf, entries, Function.update_self, Option.map_some, written]
  refine ⟨fun same => (same name).symm.trans here, fun same other => ?_⟩
  by_cases target : other = name
  · rw [target, here, same]
  · refine contentSame ?_ fun inode found => files inode (Nat.ne_of_lt (d.named _ _ found))
    rw [entries, Function.update_of_ne target]

end Left

theorem saveTextAlone : Ensures (machine service name) (saveText service name save) m
    fun past result m' => ((∃ error, result = .error error) → SameFiles m.directory m'.directory) ↔
      ¬ Unclean name save m past := by
  have clean : ∀ {past : Past actions} {result : Except ProjectError SaveResult}, Plain past →
      (((∃ error, result = .error error) → SameFiles m.directory m.directory) ↔
        ¬ Unclean name save m past) := fun plain =>
    iff_of_true (fun _ _ => rfl) (plainClean plain)
  unfold saveText
  split
  · exact ensuresDone (clean plainNil)
  refine ensuresStep fun choice opened m₁ effect => ?_
  obtain rfl := (appliedOpenParent effect).symm
  cases opened with
  | error error => exact ensuresDone (clean (plainCons rfl plainNil))
  | ok _ =>
  refine ensuresSeq readFromParentAlone fun past current m₂ ⟨⟨same, plain⟩, shown⟩ => ?_
  obtain rfl := same.symm
  cases current with
  | error error => exact ensuresDone (clean (plainAppend (plainCons rfl plain) plainNil))
  | ok current =>
  dsimp only
  split
  · exact ensuresDone (clean (plainAppend (plainCons rfl plain) plainNil))
  refine ensuresStep fun choice temporary m₃ effect => ?_
  cases Option.some.inj effect
  refine ensuresStep fun choice created m₄ effect => ?_
  rcases appliedCreate effect with ⟨kind, rfl, rfl⟩ | ⟨inode, directory, rfl, rfl, created⟩
  · exact ensuresDone (clean (plainCons rfl (plainAppend plain (plainCons rfl (plainCons rfl plainNil)))))
  obtain ⟨free, rfl, -, entries, files⟩ := Directory.createNewOk created
  have target : m.directory.entries name ≠ none := by
    have found := shown current.1 current.2 rfl
    rw [contentOf] at found
    intro missing
    rw [missing] at found
    cases found
  have apart : name ≠ temporaryNameOf service.processId m.counter := fun same =>
    target (same ▸ free)
  have before : Plain (⟨.openParent, .ok ()⟩ :: (past ++
      [⟨.temporaryName, temporaryNameOf service.processId m.counter⟩,
        ⟨.create (temporaryNameOf service.processId m.counter), .ok m.directory.next⟩])) :=
    plainCons rfl (plainAppend plain (plainCons rfl (plainCons rfl plainNil)))
  refine ensuresSeq (writeAndRenameAlone ?_ ?_) fun past' result m₅ wrote => ?_
  · change directory.entries _ = _
    rw [entries, Function.update_self]
  · change (directory.files _).bytes = _
    rw [files, Function.update_self]
  have tail : ∀ {past'' : Past actions}, Unclean name save m (⟨.openParent, .ok ()⟩ ::
      (past ++ ⟨.temporaryName, temporaryNameOf service.processId m.counter⟩ ::
        ⟨.create (temporaryNameOf service.processId m.counter), .ok m.directory.next⟩ :: past'')) ↔
      Unclean name save m past'' := by
    intro past''
    have same : Unclean name save m (_ ++ past'') ↔ Unclean name save m past'' := uncleanTail before
    simpa only [List.cons_append, List.append_assoc, List.nil_append] using same
  have files₁ : ∀ other, other ≠ m.directory.next → directory.files other = m.directory.files other := by
    intro other apart
    rw [files, Function.update_of_ne apart]
  cases wrote with
  | failed renames syncs unlinks entries₅ files₅ =>
    have entries₅ : m₅.directory.entries = directory.entries := entries₅
    have files₅ : ∀ other, other ≠ m.directory.next →
        m₅.directory.files other = m.directory.files other := fun other apart =>
      (files₅ other apart).trans (files₁ other apart)
    refine ensuresStep fun choice unlinked m₆ effect => ?_
    rcases appliedUnlink effect with ⟨kind, rfl, rfl⟩ | ⟨directory', rfl, rfl, -, files₆, -, entries₆⟩
    · refine ensuresDone (iff_of_false (fun left => ?_) (not_not_intro (tail.mpr ?_)))
      · exact leftNamed free (entries₅.trans entries) (left ⟨_, rfl⟩)
      · refine .inr ⟨⟨_, kind, List.mem_append_right _ (List.mem_singleton_self _)⟩, fun t member => ?_⟩
        rcases List.mem_append.mp member with early | late
        · exact renames t early
        · cases List.mem_singleton.mp late
    · refine ensuresDone (iff_of_true (fun _ => leftNothing ?_ ?_) fun unclean => ?_)
      · change directory'.entries = _
        rw [entries₆, entries₅, entries, Function.update_idem, ← free, Function.update_eq_self]
      · intro other apart
        change directory'.files other = _
        rw [files₆, files₅ other apart]
      · rcases tail.mp unclean with ⟨⟨kind, synced⟩, _⟩ | ⟨⟨t, kind, unlinked⟩, _⟩
        · rcases List.mem_append.mp synced with early | late
          · exact syncs kind early
          · cases List.mem_singleton.mp late
        · rcases List.mem_append.mp unlinked with early | late
          · exact unlinks t _ early
          · cases List.mem_singleton.mp late
  | renamed renames syncs unlinks entries₅ files₅ text =>
    have entries₅ : m₅.directory.entries = Function.update m.directory.entries name
        (some m.directory.next) := by
      refine entries₅.trans ?_
      change Function.update (Function.update directory.entries _ none) name _ = _
      rw [entries, Function.update_idem, ← free, Function.update_eq_self]
    have published := leftPublished save.text entries₅
      (fun other apart => (files₅ other apart).trans (files₁ other apart)) text
    cases result with
    | ok saved =>
      refine ensuresDone (iff_of_true nofun fun unclean => ?_)
      rcases tail.mp unclean with ⟨⟨kind, synced⟩, _⟩ | ⟨⟨t, kind, unlinked⟩, _⟩
      · rw [List.append_nil] at synced
        obtain ⟨error, same⟩ := syncs.mpr ⟨kind, synced⟩
        cases same
      · rw [List.append_nil] at unlinked
        exact unlinks t _ unlinked
    | error error =>
      refine ensuresStep fun choice unlinked m₆ effect => ?_
      rcases appliedUnlink effect with ⟨kind, rfl, rfl⟩ | ⟨directory', rfl, rfl, gone, -⟩
      · refine ensuresDone ?_
        rw [tail]
        refine ⟨fun left unclean => ?_, fun clean _ => ?_⟩
        · rcases unclean with ⟨_, other⟩ | ⟨_, unrenamed⟩
          · exact other (published.mp (left ⟨_, rfl⟩))
          · obtain ⟨t, renamed⟩ := renames
            exact unrenamed t (List.mem_append_left _ renamed)
        · refine published.mpr (not_not.mp fun other => clean (.inl ⟨?_, other⟩))
          obtain ⟨kind, synced⟩ := syncs.mp ⟨_, rfl⟩
          exact ⟨kind, List.mem_append_left _ synced⟩
      · refine (gone ?_).elim
        rw [entries₅, Function.update_of_ne apart.symm, free]

/-- A failed call leaves the directory as it was exactly when its clean-up did not fail and the
directory sync did not fail behind the rename of another text. -/
theorem failedSaveKeeps {result : Except ProjectError SaveResult}
    (ran : Alone (machine service name) (saveText service name save) m past result m') :
    ((∃ error, result = .error error) → SameFiles m.directory m'.directory) ↔
      ¬ Unclean name save m past :=
  saveTextAlone past result m' ran

/-! The directory of `notes.txt` cannot be synced behind the rename. -/

def notesSave : Save := ⟨[2], [1]⟩

def failsIo : Choice := ⟨some (.other 5), none, 0⟩

def unsynced : List Choice := List.replicate 17 goes ++ [failsIo, goes]

def shownAfter (choices : List Choice) : Option (Bool × Option Bytes) :=
  ((saveText plainService "notes.txt" notesSave).play (machine plainService "notes.txt") choices
    ⟨notes, 0, []⟩).map fun played =>
      (played.2.1.toOption.isSome, played.2.2.directory.content "notes.txt")

theorem unsyncedRun : shownAfter unsynced = some (false, some [2]) := by decide +kernel

theorem unsyncedPlayed : ∃ past result m', Alone (machine plainService "notes.txt")
      (saveText plainService "notes.txt" notesSave) ⟨notes, 0, []⟩ past result m' ∧
    (∃ error, result = .error error) ∧ ¬ SameFiles notes m'.directory := by
  obtain ⟨⟨past, result, m'⟩, played, shown⟩ := Option.map_eq_some_iff.mp unsyncedRun
  have failed : result.toOption.isSome = false := congrArg Prod.fst shown
  have replaced : m'.directory.content "notes.txt" = some [2] := congrArg Prod.snd shown
  refine ⟨past, result, m', playAlone played, ?_, fun same => ?_⟩
  · cases result with
    | ok saved => cases failed
    | error error => exact ⟨error, rfl⟩
  · have kept : notes.content "notes.txt" = some [1] := by decide
    have shown := same "notes.txt"
    rw [replaced, kept] at shown
    cases shown

theorem failedSaveReplaces : ¬ ∀ (service : FileService) (name : String) (save : Save)
    (m : Workspace) (past : Past actions) (result : Except ProjectError SaveResult) (m' : Workspace),
    Alone (machine service name) (saveText service name save) m past result m' →
      (∃ error, result = .error error) → SameFiles m.directory m'.directory := by
  intro keeps
  obtain ⟨past, result, m', ran, failed, replaced⟩ := unsyncedPlayed
  exact replaced (keeps _ _ _ _ _ _ _ ran failed)

theorem failedSaveKeepsUnsynced : ∃ past, Unclean "notes.txt" notesSave ⟨notes, 0, []⟩ past := by
  obtain ⟨past, result, m', ran, failed, replaced⟩ := unsyncedPlayed
  refine ⟨past, not_not.mp fun clean => ?_⟩
  exact replaced ((failedSaveKeeps ran).mpr clean failed)

end Maestro.Saving
