import Maestro.SegmentRows

/-! What one call of `persist_terminal_segment` returns and leaves behind, whichever of its steps
fail. -/
namespace Maestro.Interleaving
variable {A : Actions}

def Prog.solo (M : Machine A) (pick : A.Act → M.Choice) {α : Type} : Prog A α → M.Memory → Option (α × M.Memory)
  | .done value, m => some (value, m)
  | .act o next, m =>
    match M.apply o (pick o) m with
    | none => none
    | some (answer, m) => solo M pick (next answer) m

section Solo
variable {M : Machine A} {pick : A.Act → M.Choice} {α β γ : Type} {m m' : M.Memory}

theorem soloBind {p : Prog A α} {f : α → Prog A β} {value : α} (first : p.solo M pick m = some (value, m')) :
    (p >>= f).solo M pick m = (f value).solo M pick m' := by
  induction p generalizing m with
  | done v =>
    cases Option.some.inj first
    rfl
  | act o next ih =>
    simp only [Prog.solo] at first
    rw [Prog.actBind, Prog.solo]
    split at first
    · contradiction
    · exact ih _ first

theorem bindAssoc {p : Prog A α} {f : α → Prog A β} {g : β → Prog A γ} :
    (p >>= f) >>= g = p >>= fun value => f value >>= g := by
  induction p with
  | done value => rfl
  | act o next ih => exact congrArg (Prog.act o) (funext ih)

end Solo

end Maestro.Interleaving

namespace Maestro.SegmentStore
open Interleaving Prog Files Retention Redaction

/-- A ready store is `keyless` when it is ephemeral. -/
structure Call where
  terminalId : String
  sequenceStart : Nat
  sequenceEnd : Nat
  data : Bytes
  keyless : Bool

/-- The result beside the steps: `Ok(())` is true. -/
def persistOutcome (directory : Bytes) (encrypt : Bytes → Bytes → Bytes → Option Bytes) (call : Call) : Program Bool := do
  if call.data = [] then pure true
  else if ← perform .prepareDirectory then
    let id ← perform .newSegmentId
    perform .lockState
    if ← perform .ready then
      if call.keyless then
        perform .unlockState
        pure true
      else
        let aad := terminalSegmentAad call.terminalId call.sequenceStart call.sequenceEnd
        if ← writeEncryptedSegment encrypt (segmentName id) call.data aad then
          if ← perform (.appendSegment ⟨id, call.terminalId, call.sequenceStart, call.sequenceEnd, call.data.length,
              storagePath directory id⟩) then
            match ← perform (.pruneSegments call.terminalId) with
            | none =>
              perform .unlockState
              pure false
            | some released =>
              perform .unlockState
              removeReleasedFiles released
          else
            let _ ← perform (.removeFile (segmentName id))
            perform .unlockState
            pure false
        else
          perform .unlockState
          pure false
    else
      perform .unlockState
      pure false
  else pure false

theorem persistForgets {directory : Bytes} {encrypt : Bytes → Bytes → Bytes → Option Bytes} {terminalId : String}
    {sequenceStart sequenceEnd : Nat} {data : Bytes} :
    persistTerminalSegment directory encrypt terminalId sequenceStart sequenceEnd data =
      persistOutcome directory encrypt ⟨terminalId, sequenceStart, sequenceEnd, data, false⟩ >>= fun _ => pure none := by
  unfold persistTerminalSegment persistOutcome
  by_cases empty : data = []
  · rw [if_pos empty, if_pos empty]
    rfl
  · rw [if_neg empty, if_neg empty]
    refine congrArg (Prog.act _) (funext fun prepared => ?_)
    cases prepared with
    | false => rfl
    | true =>
      refine congrArg (Prog.act _) (funext fun id => congrArg (Prog.act _) (funext fun _ => ?_))
      refine congrArg (Prog.act _) (funext fun ready => ?_)
      cases ready with
      | false => rfl
      | true =>
        change writeEncryptedSegment _ _ _ _ >>= _ = (writeEncryptedSegment _ _ _ _ >>= _) >>= _
        rw [bindAssoc]
        refine congrArg (writeEncryptedSegment _ _ _ _ >>= ·) (funext fun written => ?_)
        cases written with
        | false => rfl
        | true =>
          refine congrArg (Prog.act _) (funext fun appended => ?_)
          cases appended with
          | false => rfl
          | true =>
            refine congrArg (Prog.act _) (funext fun pruned => ?_)
            cases pruned with
            | none => rfl
            | some released => rfl

section Files
variable {directory : Bytes} {encrypt : Bytes → Bytes → Bytes → Option Bytes} {pick : Act → Choice} {m : Storage}
  {name temporary : String} {content data aad : Bytes}

/-- The file is a new one with all its content, in the place of the name. -/
structure Placed (d d' : Directory) (name : String) (content : Bytes) : Prop where
  entries : d'.entries = Function.update d.entries name (some d.next)
  kind : (d'.files d.next).kind = .regular
  bytes : (d'.files d.next).bytes = content
  others : ∀ inode < d.next, d'.files inode = d.files inode

/-- Nothing fails between the creation of the temporary file and the end of its renaming. -/
def Renames (pick : Act → Choice) (inode : Inode) (temporary name : String) (content : Bytes) : Prop :=
  (pick (.setPermissions inode)).fails = false ∧ (pick (.writeAll inode content)).fails = false ∧
    (pick (.syncAll inode)).fails = false ∧ (pick (.rename temporary name)).fails = false

instance renamesDecidable (inode : Inode) : Decidable (Renames pick inode temporary name content) :=
  inferInstanceAs (Decidable (_ ∧ _))

theorem publishUncreated (fails : (pick (.createNew temporary)).fails = true) :
    (publish temporary name content).solo (machine directory encrypt) pick m = some (false, m) := by
  simp only [publish, perform, actBind, doneBind, pureDone, Prog.solo, apply, fails]

theorem createdFree (free : m.directory.entries temporary = none) :
    ∃ d, m.directory.createNew temporary 0o600 = .ok (m.directory.next, d) ∧
      d.entries = Function.update m.directory.entries temporary (some m.directory.next) ∧
      d.files = Function.update m.directory.files m.directory.next ⟨.regular, [], 0o600, 0⟩ := by
  obtain ⟨d, created, -, entries, files⟩ := @Directory.createNewFree m.directory temporary 0o600 free
  exact ⟨d, created, entries, files⟩

theorem publishUnnamed (free : m.directory.entries temporary = none)
    (creates : (pick (.createNew temporary)).fails = false)
    (fails : ¬Renames pick m.directory.next temporary name content) :
    ∃ d, (publish temporary name content).solo (machine directory encrypt) pick m =
        some (false, { m with directory := d }) ∧
      d.entries = Function.update m.directory.entries temporary (some m.directory.next) := by
  obtain ⟨d, created, entries, -⟩ := createdFree free
  by_cases set : (pick (.setPermissions m.directory.next)).fails = true
  · exact ⟨d, by simp [publish, Prog.solo, apply, creates, created, set], entries⟩
  by_cases wrote : (pick (.writeAll m.directory.next content)).fails = true
  · refine ⟨d.write m.directory.next (content.take (pick (.writeAll m.directory.next content)).count), ?_, entries⟩
    simp [publish, Prog.solo, apply, creates, created, set, wrote]
  refine ⟨d.write m.directory.next content, ?_, entries⟩
  by_cases synced : (pick (.syncAll m.directory.next)).fails = true
  · simp [publish, Prog.solo, apply, creates, created, set, wrote, synced]
  by_cases renamed : (pick (.rename temporary name)).fails = true
  · simp [publish, Prog.solo, apply, creates, created, set, wrote, synced, renamed]
  · simp only [Bool.not_eq_true] at set wrote synced renamed
    exact absurd ⟨set, wrote, synced, renamed⟩ fails

theorem publishNamed (free : m.directory.entries temporary = none)
    (creates : (pick (.createNew temporary)).fails = false)
    (renames : Renames pick m.directory.next temporary name content) :
    ∃ d, (publish temporary name content).solo (machine directory encrypt) pick m =
        some (!(pick .syncDirectory).fails, { m with directory := d }) ∧ Placed m.directory d name content := by
  obtain ⟨d, created, entries, files⟩ := createdFree free
  obtain ⟨set, wrote, synced, renamed⟩ := renames
  have opened : (d.write m.directory.next content).entries temporary = some m.directory.next := by
    rw [show (d.write m.directory.next content).entries = d.entries from rfl, entries, Function.update_self]
  obtain ⟨d', moved⟩ := @Directory.renameFound _ _ name _ opened
  obtain ⟨inode, found, sameFiles, -, sameEntries⟩ := Directory.renameOk moved
  cases opened.symm.trans found
  refine ⟨d', ?_, ?_, ?_, ?_, ?_⟩
  · simp [publish, Prog.solo, apply, creates, created, set, wrote, synced, renamed, moved]
  · rw [sameEntries, show (d.write m.directory.next content).entries = d.entries from rfl, entries, Function.update_idem,
      ← free, Function.update_eq_self]
  · rw [sameFiles]
    simp [Directory.write, Directory.alter, files]
  · rw [sameFiles, writeHere, files, Function.update_self, List.nil_append]
  · intro inode older
    have apart : inode ≠ m.directory.next := Nat.ne_of_lt older
    rw [sameFiles, writeElsewhere apart, files, Function.update_of_ne apart]

theorem removeAbsent (absent : m.directory.entries name = none) : m.remove name = m := by
  rw [Storage.remove, Directory.unlinkMissing absent]

theorem removePresent {inode : Inode} (present : m.directory.entries name = some inode) :
    ∃ d, m.remove name = { m with directory := d } ∧ d.files = m.directory.files ∧
      d.entries = Function.update m.directory.entries name none := by
  obtain ⟨d, unlinked⟩ := Directory.unlinkFound present
  obtain ⟨files, -, entries⟩ := Directory.unlinkOk unlinked
  exact ⟨d, by rw [Storage.remove, unlinked], files, entries⟩

def temporaryOf (pick : Act → Choice) : String := temporaryName (pick .newTemporary).drawn

def contentOf (pick : Act → Choice) (ciphertext : Bytes) : Bytes := magic ++ (pick .fillNonce).nonce ++ ciphertext

theorem writeUnsealed (unsealed : encrypt (pick .fillNonce).nonce aad data = none) :
    (writeEncryptedSegment encrypt name data aad).solo (machine directory encrypt) pick m = some (false, m) := by
  simp [writeEncryptedSegment, Prog.solo, apply, unsealed]

theorem writeSealed {ciphertext : Bytes} {done : Bool} {m' : Storage}
    (sealed' : encrypt (pick .fillNonce).nonce aad data = some ciphertext)
    (published : (publish (temporaryOf pick) name (contentOf pick ciphertext)).solo (machine directory encrypt) pick m =
      some (done, m')) :
    (writeEncryptedSegment encrypt name data aad).solo (machine directory encrypt) pick m =
      some (done, if done = true ∨ (pick (.removeFile (temporaryOf pick))).fails = true then m'
        else m'.remove (temporaryOf pick)) := by
  have opens : (writeEncryptedSegment encrypt name data aad).solo (machine directory encrypt) pick m =
      (publish (temporaryOf pick) name (contentOf pick ciphertext) >>= fun done => if done then pure true
        else perform (.removeFile (temporaryOf pick)) >>= fun _ => pure false).solo (machine directory encrypt) pick m := by
    simp [writeEncryptedSegment, Prog.solo, apply, sealed', temporaryOf, contentOf]
  rw [opens, soloBind published]
  cases done with
  | true => simp [Prog.solo]
  | false =>
    by_cases fails : (pick (.removeFile (temporaryOf pick))).fails = true
    · simp [Prog.solo, apply, fails]
    · simp [Prog.solo, apply, fails]

end Files

section Released
variable {directory : Bytes} {encrypt : Bytes → Bytes → Bytes → Option Bytes} {pick : Act → Choice} {m m' : Storage}

/-- A released path that is in place, with nothing to stop its removal, or not there any more. -/
def removable (pick : Act → Choice) (shows : String → Released) (path : String) : Bool :=
  !(pick (.validateReleased path)).fails && !(pick (.symlinkMetadata path)).fails &&
    match shows path with
    | .missing => true
    | .file => !(pick (.removeReleased path)).fails
    | .other | .unreadable => false

def showing (directory : Bytes) (pick : Act → Choice) (m : Storage) (path : String) : Released :=
  m.shows directory path (pick (.symlinkMetadata path))

theorem pathBytes {path name : String} (named : fileOf directory path = some name) :
    bytes path = directory ++ [0x2F] ++ bytes name := by
  unfold fileOf at named
  split at named
  · rename_i starts
    obtain ⟨rest, same⟩ := List.isPrefixOf_iff_prefix.mp starts
    rw [← same, List.drop_left] at named
    rw [← same, ofBytesBack named]
  · cases named

theorem samePath {path other name : String} (one : fileOf directory path = some name)
    (two : fileOf directory other = some name) : path = other := by
  have decoded := congrArg ofBytes ((pathBytes one).trans (pathBytes two).symm)
  rw [ofBytesText, ofBytesText] at decoded
  exact Option.some.inj decoded

def without (directory : Bytes) (m : Storage) (path : String) : Storage :=
  match fileOf directory path with
  | none => m
  | some name => m.remove name

theorem removeEntries {name other : String} :
    (m.remove name).directory.entries other = if other = name then none else m.directory.entries other := by
  cases here : m.directory.entries name with
  | none =>
    rw [removeAbsent here]
    split
    · rename_i same
      rw [same, here]
    · rfl
  | some inode =>
    obtain ⟨d, same, -, entries⟩ := removePresent here
    rw [same, entries, Function.update_apply]

theorem removeSame {name : String} :
    (m.remove name).database = m.database ∧ (m.remove name).directory.files = m.directory.files := by
  cases here : m.directory.entries name with
  | none =>
    rw [removeAbsent here]
    exact ⟨rfl, rfl⟩
  | some inode =>
    obtain ⟨d, same, files, -⟩ := removePresent here
    rw [same]
    exact ⟨rfl, files⟩

theorem withoutSame {path : String} : (without directory m path).database = m.database ∧
    (without directory m path).directory.files = m.directory.files := by
  unfold without
  split
  · exact ⟨rfl, rfl⟩
  · exact removeSame

theorem withoutEntries {path name : String} : (without directory m path).directory.entries name =
    if fileOf directory path = some name then none else m.directory.entries name := by
  unfold without
  split
  · rename_i foreign
    rw [foreign, if_neg (Option.some_ne_none _).symm]
  · rename_i named found
    rw [removeEntries, found]
    exact if_congr (by rw [Option.some.injEq, eq_comm]) rfl rfl

theorem removableAfter {path other : String} (first : removable pick (showing directory pick m) path = true) :
    removable pick (showing directory pick (without directory m path)) other =
      removable pick (showing directory pick m) other := by
  by_cases same : other = path
  · subst same
    rw [first]
    simp only [removable, Bool.and_eq_true] at first ⊢
    refine ⟨first.1, ?_⟩
    have shown := first.2
    unfold showing Storage.shows at shown ⊢
    cases named : fileOf directory other with
    | none =>
      rw [named] at shown
      exact shown
    | some name =>
      have gone : (without directory m other).directory.find name = none := by
        rw [Directory.find, withoutEntries, if_pos named]
        rfl
      simp only [gone]
  · have still : showing directory pick (without directory m path) other = showing directory pick m other := by
      unfold showing Storage.shows
      cases named : fileOf directory other with
      | none => rfl
      | some name =>
        have apart : fileOf directory path ≠ some name := fun same' => same (samePath named same')
        have found : (without directory m path).directory.find name = m.directory.find name := by
          rw [Directory.find, Directory.find, withoutEntries, if_neg apart, withoutSame.2]
        simp only [found]
    simp only [removable, still]

theorem stopsAt {path : String} {rest : List String} (stops : removable pick (showing directory pick m) path = false) :
    (removeReleasedFiles (path :: rest)).solo (machine directory encrypt) pick m = some (false, m) := by
  simp only [removable, showing] at stops
  by_cases valid : (pick (.validateReleased path)).fails = true
  · simp [removeReleasedFiles, Prog.solo, apply, valid]
  by_cases read : (pick (.symlinkMetadata path)).fails = true
  · simp [removeReleasedFiles, Prog.solo, apply, valid, read]
  simp only [valid, read, Bool.not_false, Bool.true_and] at stops
  cases shown : m.shows directory path (pick (.symlinkMetadata path)) with
  | missing => simp [shown] at stops
  | unreadable => simp [removeReleasedFiles, Prog.solo, apply, valid, read, shown]
  | other => simp [removeReleasedFiles, Prog.solo, apply, valid, read, shown]
  | file =>
    have kept : (pick (.removeReleased path)).fails = true := by simpa [shown] using stops
    simp [removeReleasedFiles, Prog.solo, apply, valid, read, shown, kept]

theorem goesOn {path : String} {rest : List String} (goes : removable pick (showing directory pick m) path = true) :
    (removeReleasedFiles (path :: rest)).solo (machine directory encrypt) pick m =
      (removeReleasedFiles rest).solo (machine directory encrypt) pick (without directory m path) := by
  simp only [removable, showing, Bool.and_eq_true, Bool.not_eq_true'] at goes
  obtain ⟨⟨valid, read⟩, left⟩ := goes
  cases shown : m.shows directory path (pick (.symlinkMetadata path)) with
  | missing =>
    have absent : without directory m path = m := by
      unfold without
      unfold Storage.shows at shown
      split
      · rfl
      · rename_i name named
        refine removeAbsent ?_
        rw [named] at shown
        cases entry : m.directory.entries name with
        | none => rfl
        | some inode =>
          simp only [Directory.find, entry, Option.map_some] at shown
          split at shown <;> cases shown
    simp [removeReleasedFiles, Prog.solo, apply, valid, read, shown, absent]
  | unreadable | other => simp [shown] at left
  | file =>
    have removes : (pick (.removeReleased path)).fails = false := by simpa [shown] using left
    cases named : fileOf directory path with
    | none => simp [removeReleasedFiles, Prog.solo, apply, valid, read, shown, removes, without, named]
    | some name => simp [removeReleasedFiles, Prog.solo, apply, valid, read, shown, removes, without, named]

theorem removesReleased {paths : List String} :
    ∃ m', (removeReleasedFiles paths).solo (machine directory encrypt) pick m =
        some (paths.all (removable pick (showing directory pick m)), m') ∧
      m'.database = m.database ∧ m'.directory.files = m.directory.files ∧
      ∀ name, m'.directory.entries name =
        if ∃ path ∈ paths.takeWhile (removable pick (showing directory pick m)), fileOf directory path = some name then none
        else m.directory.entries name := by
  induction paths generalizing m with
  | nil => exact ⟨m, rfl, rfl, rfl, fun name => by simp⟩
  | cons path rest ih =>
    cases goes : removable pick (showing directory pick m) path with
    | false => exact ⟨m, by rw [stopsAt goes, List.all_cons, goes, Bool.false_and], rfl, rfl, fun name => by simp [goes]⟩
    | true =>
      obtain ⟨m', ran, database, files, entries⟩ := @ih (without directory m path)
      have same : removable pick (showing directory pick (without directory m path)) =
          removable pick (showing directory pick m) := funext fun other => removableAfter goes
      rw [same] at ran entries
      refine ⟨m', by rw [goesOn goes, ran, List.all_cons, goes, Bool.true_and], database.trans withoutSame.1,
        files.trans withoutSame.2, fun name => ?_⟩
      rw [entries, withoutEntries, List.takeWhile_cons_of_pos goes]
      by_cases here : fileOf directory path = some name
      · simp [here]
      · simp [here]

end Released

end Maestro.SegmentStore
