import Maestro.SegmentOutcome

/-! A call of `persist_terminal_segment` leaves a segment whole or not at all, as long as nothing
fails behind the renaming of its file. -/
namespace Maestro.SegmentStore
open Interleaving Prog Files Retention Redaction

section Calls
variable (directory : Bytes) (encrypt : Bytes → Bytes → Bytes → Option Bytes) (pick : Act → Choice) (m : Storage) (call : Call)

def drawnId : String := (pick .newSegmentId).drawn

def segmentOf : Segment :=
  ⟨drawnId pick, call.terminalId, call.sequenceStart, call.sequenceEnd, call.data.length, storagePath directory (drawnId pick)⟩

def rowOf : TerminalSegment :=
  (segmentOf directory pick call).row (pick (.appendSegment (segmentOf directory pick call))).now

def sealedOf : Option Bytes :=
  encrypt (pick .fillNonce).nonce (terminalSegmentAad call.terminalId call.sequenceStart call.sequenceEnd) call.data

/-- What the pruning after the insertion keeps and releases. -/
def pruningOf : List TerminalSegment × List String :=
  pruneTerminalSegments call.terminalId maxTerminalScrollbackBytes (m.database.terminalSegments ++ [rowOf directory pick call])

/-- The UUIDs are new, and no stored path is that of the new file. -/
structure Fresh : Prop where
  unlocked : m.locked = false
  drawn : drawnId pick ∉ m.drawn
  row : drawnId pick ∉ m.database.terminalSegments.map (·.id)
  file : m.directory.entries (segmentName (drawnId pick)) = none
  temporary : m.directory.entries (temporaryOf pick) = none
  paths : ∀ row ∈ m.database.terminalSegments, fileOf directory row.storagePath ≠ some (segmentName (drawnId pick))

def NoRow (m' : Storage) : Prop := drawnId pick ∉ m'.database.terminalSegments.map (·.id)

def NoFile (m' : Storage) : Prop :=
  m'.directory.entries (segmentName (drawnId pick)) = none ∧ m'.directory.entries (temporaryOf pick) = none

def BothExist (m' : Storage) : Prop :=
  rowOf directory pick call ∈ m'.database.terminalSegments ∧
    ∃ file, m'.directory.find (segmentName (drawnId pick)) = some file ∧
      Recorded encrypt (rowOf directory pick call) file.bytes

/-- Without data or a key there is nothing to persist. -/
def Atomic (ok : Bool) (m' : Storage) : Prop :=
  (ok = false → NoRow pick m' ∧ NoFile pick m') ∧
    (ok = true → (call.data = [] ∨ call.keyless = true) → NoRow pick m' ∧ NoFile pick m') ∧
    (ok = true → ¬(call.data = [] ∨ call.keyless = true) →
      drawnId pick ∉ (pruningOf directory pick m call).1.map (·.id) ∨ BothExist directory encrypt pick call m')

/-- The released path as it is once the new file has its name. -/
def showingNew (path : String) : Released :=
  if fileOf directory path = some (segmentName (drawnId pick)) then .file else showing directory pick m path

/-- The released files are removed, or the new one before the first that is not. -/
def Releases : Prop :=
  (∀ path ∈ (pruningOf directory pick m call).2, removable pick (showingNew directory pick m) path = true) ∨
    ∃ path ∈ (pruningOf directory pick m call).2.takeWhile (removable pick (showingNew directory pick m)),
      fileOf directory path = some (segmentName (drawnId pick))

/-- The insertion fails and the file is removed, or nothing fails from there on. -/
def Inserts : Prop :=
  if (pick (.appendSegment (segmentOf directory pick call))).fails = true then
    (pick (.removeFile (segmentName (drawnId pick)))).fails = false
  else (pick (.pruneSegments call.terminalId)).fails = false ∧ Releases directory pick m call

/-- The call stops before it has written anything, or removes the temporary file it could not
rename, or goes on to the insertion. -/
def Clean : Prop :=
  call.data = [] ∨ (pick .prepareDirectory).fails = true ∨ (pick .ready).fails = true ∨ call.keyless = true ∨
    sealedOf encrypt pick call = none ∨ (pick (.createNew (temporaryOf pick))).fails = true ∨
    ∃ ciphertext, sealedOf encrypt pick call = some ciphertext ∧
      if Renames pick m.directory.next (temporaryOf pick) (segmentName (drawnId pick)) (contentOf pick ciphertext) then
        (pick .syncDirectory).fails = false ∧ Inserts directory pick m call
      else (pick (.removeFile (temporaryOf pick))).fails = false

end Calls

section Proofs
variable {directory : Bytes} {encrypt : Bytes → Bytes → Bytes → Option Bytes} {pick : Act → Choice} {m m' : Storage} {call : Call}

def held (pick : Act → Choice) (m : Storage) : Storage := { m with drawn := drawnId pick :: m.drawn, locked := true }

def freed (m : Storage) : Storage := { m with locked := false }

abbrev outcome (directory : Bytes) (encrypt : Bytes → Bytes → Bytes → Option Bytes) (pick : Act → Choice) (m : Storage)
    (call : Call) : Option (Bool × Storage) :=
  (persistOutcome directory encrypt call).solo (machine directory encrypt) pick m

theorem outcomeEmpty (empty : call.data = []) : outcome directory encrypt pick m call = some (true, m) := by
  simp [outcome, persistOutcome, empty, Prog.solo]

theorem outcomeUnprepared (data : call.data ≠ []) (fails : (pick .prepareDirectory).fails = true) :
    outcome directory encrypt pick m call = some (false, m) := by
  simp [outcome, persistOutcome, data, Prog.solo, apply, fails]

variable (fresh : Fresh directory pick m) (data : call.data ≠ []) (prepared : (pick .prepareDirectory).fails = false)
include fresh data prepared

theorem outcomeUnready (fails : (pick .ready).fails = true) :
    outcome directory encrypt pick m call = some (false, freed (held pick m)) := by
  have drawn : (pick .newSegmentId).drawn ∉ m.drawn := fresh.drawn
  simp [outcome, persistOutcome, data, Prog.solo, apply, prepared, fails, drawn, fresh.unlocked, freed, held, drawnId]

theorem outcomeKeyless (ready : (pick .ready).fails = false) (keyless : call.keyless = true) :
    outcome directory encrypt pick m call = some (true, freed (held pick m)) := by
  have drawn : (pick .newSegmentId).drawn ∉ m.drawn := fresh.drawn
  simp [outcome, persistOutcome, data, Prog.solo, apply, prepared, ready, keyless, drawn, fresh.unlocked, freed, held, drawnId]

omit fresh data prepared in
def insertion (directory : Bytes) (pick : Act → Choice) (call : Call) : Program Bool := do
  if ← perform (.appendSegment (segmentOf directory pick call)) then
    match ← perform (.pruneSegments call.terminalId) with
    | none =>
      perform .unlockState
      pure false
    | some released =>
      perform .unlockState
      removeReleasedFiles released
  else
    let _ ← perform (.removeFile (segmentName (drawnId pick)))
    perform .unlockState
    pure false

theorem outcomeWritten (ready : (pick .ready).fails = false) (keyed : call.keyless = false) {done : Bool}
    (written : (writeEncryptedSegment encrypt (segmentName (drawnId pick)) call.data
      (terminalSegmentAad call.terminalId call.sequenceStart call.sequenceEnd)).solo (machine directory encrypt) pick
        (held pick m) = some (done, m')) :
    outcome directory encrypt pick m call =
      if done = true then (insertion directory pick call).solo (machine directory encrypt) pick m'
      else some (false, freed m') := by
  have drawn : (pick .newSegmentId).drawn ∉ m.drawn := fresh.drawn
  have opens : outcome directory encrypt pick m call =
      (writeEncryptedSegment encrypt (segmentName (drawnId pick)) call.data
        (terminalSegmentAad call.terminalId call.sequenceStart call.sequenceEnd) >>= fun done =>
          if done then insertion directory pick call
          else perform .unlockState >>= fun _ => pure false).solo (machine directory encrypt) pick (held pick m) := by
    simp only [outcome, persistOutcome, data, ↓reduceIte, perform, keyed, Bool.false_eq_true, pureDone, actBind,
      doneBind, solo, apply, prepared, Bool.not_false, drawn, fresh.unlocked, ready, drawnId, insertion, segmentOf]
    rfl
  rw [opens, soloBind written]
  cases done with
  | true => rfl
  | false => rfl

omit fresh data prepared

theorem insertionRefused (fails : (pick (.appendSegment (segmentOf directory pick call))).fails = true) :
    (insertion directory pick call).solo (machine directory encrypt) pick m =
      some (false, freed (if (pick (.removeFile (segmentName (drawnId pick)))).fails = true then m
        else m.remove (segmentName (drawnId pick)))) := by
  by_cases keeps : (pick (.removeFile (segmentName (drawnId pick)))).fails = true
  · simp [insertion, Prog.solo, apply, fails, keeps, freed]
  · simp [insertion, Prog.solo, apply, fails, keeps, freed]

theorem appendFresh {row : TerminalSegment} {d : Database} (fresh : row.id ∉ d.terminalSegments.map (·.id)) :
    ∃ d', append row d = some d' ∧ d'.terminalSegments = d.terminalSegments ++ [row] := by
  unfold append
  rw [dif_pos fresh]
  exact ⟨_, rfl, rfl⟩

section Inserted
variable (inserts : (pick (.appendSegment (segmentOf directory pick call))).fails = false)
  (new : drawnId pick ∉ m.database.terminalSegments.map (·.id))
include inserts new

theorem insertionUnpruned (fails : (pick (.pruneSegments call.terminalId)).fails = true) :
    ∃ d, (insertion directory pick call).solo (machine directory encrypt) pick m =
        some (false, freed { m with database := d }) ∧
      d.terminalSegments = m.database.terminalSegments ++ [rowOf directory pick call] := by
  obtain ⟨d, appended, rows⟩ := @appendFresh (rowOf directory pick call) m.database new
  rw [rowOf] at appended
  exact ⟨d, by simp [insertion, Prog.solo, apply, inserts, appended, fails, freed], rows⟩

theorem insertionReleases (prunes : (pick (.pruneSegments call.terminalId)).fails = false) :
    ∃ m', (insertion directory pick call).solo (machine directory encrypt) pick m =
        some ((pruningOf directory pick m call).2.all (removable pick (showing directory pick m)), m') ∧
      m'.database.terminalSegments = (pruningOf directory pick m call).1 ∧
      m'.directory.files = m.directory.files ∧
      ∀ name, m'.directory.entries name =
        if ∃ path ∈ (pruningOf directory pick m call).2.takeWhile (removable pick (showing directory pick m)),
          fileOf directory path = some name then none
        else m.directory.entries name := by
  obtain ⟨d, appended, rows⟩ := @appendFresh (rowOf directory pick call) m.database new
  rw [rowOf] at appended
  obtain ⟨m', ran, database, files, entries⟩ := @removesReleased directory encrypt pick
    (freed { m with database := (prune call.terminalId d).2 }) (prune call.terminalId d).1
  have same : prune call.terminalId d = ((pruningOf directory pick m call).2, (prune call.terminalId d).2) := by
    rw [pruningOf, ← rows]
    rfl
  have kept : (prune call.terminalId d).2.terminalSegments = (pruningOf directory pick m call).1 := by
    rw [pruningOf, ← rows]
    rfl
  have first := congrArg Prod.fst same
  rw [first] at ran entries
  refine ⟨m', ?_, by rw [database]; exact kept, files, entries⟩
  have opens : (insertion directory pick call).solo (machine directory encrypt) pick m =
      (removeReleasedFiles (prune call.terminalId d).1).solo (machine directory encrypt) pick
        (freed { m with database := (prune call.terminalId d).2 }) := by
    simp [insertion, Prog.solo, apply, inserts, appended, prunes, freed]
  rw [opens, first]
  exact ran

end Inserted

theorem atomicError : Atomic directory encrypt pick m call false m' ↔ NoRow pick m' ∧ NoFile pick m' :=
  ⟨fun whole => whole.1 rfl, fun nothing => ⟨fun _ => nothing, nofun, nofun⟩⟩

theorem atomicNothing (nothing : call.data = [] ∨ call.keyless = true) (row : NoRow pick m') (file : NoFile pick m') :
    Atomic directory encrypt pick m call true m' :=
  ⟨nofun, fun _ _ => ⟨row, file⟩, fun _ some => absurd nothing some⟩

theorem atomicPersisted (something : ¬(call.data = [] ∨ call.keyless = true))
    (exist : drawnId pick ∉ (pruningOf directory pick m call).1.map (·.id) ∨ BothExist directory encrypt pick call m') :
    Atomic directory encrypt pick m call true m' :=
  ⟨nofun, fun _ nothing => absurd nothing something, fun _ _ => exist⟩

theorem pruningRows (new : drawnId pick ∉ m.database.terminalSegments.map (·.id)) :
    (∀ row ∈ (pruningOf directory pick m call).1, row ∈ m.database.terminalSegments ++ [rowOf directory pick call]) ∧
      ∀ path ∈ (pruningOf directory pick m call).2,
        ∃ row ∈ m.database.terminalSegments ++ [rowOf directory pick call], row.storagePath = path ∧
          ∀ kept ∈ (pruningOf directory pick m call).1, kept.id ≠ row.id := by
  obtain ⟨d, -, rows⟩ := @appendFresh (rowOf directory pick call) m.database new
  rw [pruningOf, ← rows]
  exact prunedRows

theorem releasedRow (fresh : Fresh directory pick m) {path : String} (released : path ∈ (pruningOf directory pick m call).2)
    (named : fileOf directory path = some (segmentName (drawnId pick))) :
    drawnId pick ∉ (pruningOf directory pick m call).1.map (·.id) := by
  obtain ⟨row, member, stored, gone⟩ := (pruningRows fresh.row).2 path released
  rcases List.mem_append.mp member with before | new
  · exact absurd (stored.symm ▸ named) (fresh.paths row before)
  · intro kept
    obtain ⟨other, keeps, same⟩ := List.mem_map.mp kept
    exact gone other keeps (List.mem_singleton.mp new ▸ same)

theorem keptRow (new : drawnId pick ∉ m.database.terminalSegments.map (·.id))
    (kept : drawnId pick ∈ (pruningOf directory pick m call).1.map (·.id)) :
    rowOf directory pick call ∈ (pruningOf directory pick m call).1 := by
  obtain ⟨row, keeps, same⟩ := List.mem_map.mp kept
  rcases List.mem_append.mp ((pruningRows new).1 row keeps) with before | added
  · exact absurd (List.mem_map.mpr ⟨row, before, same⟩) new
  · exact List.mem_singleton.mp added ▸ keeps

theorem temporaryOther : temporaryOf pick ≠ segmentName (drawnId pick) := temporaryApart

section Placing
variable {d : Directory} {ciphertext : Bytes}
  (placed : Placed m.directory d (segmentName (drawnId pick)) (contentOf pick ciphertext)) (fresh : Fresh directory pick m)
include placed

theorem placedNamed : d.entries (segmentName (drawnId pick)) = some m.directory.next := by
  rw [placed.entries, Function.update_self]

theorem placedTemporary (free : m.directory.entries (temporaryOf pick) = none) : d.entries (temporaryOf pick) = none := by
  rw [placed.entries, Function.update_of_ne temporaryOther, free]

theorem placedShows : showing directory pick { held pick m with directory := d } = showingNew directory pick m := by
  funext path
  unfold showingNew showing Storage.shows
  cases named : fileOf directory path with
  | none => simp
  | some name =>
    by_cases here : name = segmentName (drawnId pick)
    · subst here
      have found : d.find (segmentName (drawnId pick)) = some (d.files m.directory.next) := by
        rw [Directory.find, placedNamed placed]
        rfl
      simp only [found, placed.kind]
      simp
    · have found : d.find name = m.directory.find name := by
        rw [Directory.find, Directory.find, placed.entries, Function.update_of_ne here]
        cases entry : m.directory.entries name with
        | none => rfl
        | some inode => exact congrArg some (placed.others inode (m.directory.named _ _ entry))
      rw [if_neg fun same => here (Option.some.inj same)]
      simp only [found]

include fresh

theorem insertionAtomic (something : ¬(call.data = [] ∨ call.keyless = true))
    (sealed' : sealedOf encrypt pick call = some ciphertext) :
    ∃ ok m', (insertion directory pick call).solo (machine directory encrypt) pick { held pick m with directory := d } =
        some (ok, m') ∧ (Atomic directory encrypt pick m call ok m' ↔ Inserts directory pick m call) := by
  have named := placedNamed placed
  have bare := placedTemporary placed fresh.temporary
  cases inserts : (pick (.appendSegment (segmentOf directory pick call))).fails with
  | true =>
    refine ⟨false, _, insertionRefused inserts, ?_⟩
    rw [atomicError, Inserts, if_pos inserts]
    cases stays : (pick (.removeFile (segmentName (drawnId pick)))).fails with
    | true =>
      rw [if_pos rfl]
      refine iff_of_false (fun ⟨_, file, _⟩ => ?_) nofun
      rw [freed, named] at file
      cases file
    | false =>
      rw [if_neg nofun]
      refine iff_of_true ⟨?_, ?_, ?_⟩ rfl
      · rw [NoRow, freed, removeSame.1]
        exact fresh.row
      · rw [freed, removeEntries, if_pos rfl]
      · rw [freed, removeEntries, if_neg temporaryOther]
        exact bare
  | false =>
    have new : drawnId pick ∉ ({ held pick m with directory := d } : Storage).database.terminalSegments.map (·.id) := fresh.row
    cases prunes : (pick (.pruneSegments call.terminalId)).fails with
    | true =>
      obtain ⟨database, ran, rows⟩ := insertionUnpruned inserts new prunes
      refine ⟨false, _, ran, ?_⟩
      rw [atomicError, Inserts, if_neg (by rw [inserts]; exact Bool.false_ne_true)]
      refine iff_of_false (fun ⟨absent, _⟩ => absent ?_) (fun ⟨clear, _⟩ => by rw [prunes] at clear; cases clear)
      have here : rowOf directory pick call ∈ database.terminalSegments := by
        rw [rows]
        exact List.mem_append_right _ (List.mem_singleton_self _)
      exact List.mem_map.mpr ⟨_, here, rfl⟩
    | false =>
      obtain ⟨m', ran, rows, files, entries⟩ := insertionReleases inserts new prunes
      have same : pruningOf directory pick { held pick m with directory := d } call = pruningOf directory pick m call := rfl
      rw [placedShows placed, same] at ran entries
      rw [same] at rows
      refine ⟨_, m', ran, ?_⟩
      rw [Inserts, if_neg (by rw [inserts]; exact Bool.false_ne_true), and_iff_right prunes, Releases, ← List.all_eq_true]
      cases goes : (pruningOf directory pick m call).2.all (removable pick (showingNew directory pick m)) with
      | true =>
        refine iff_of_true (atomicPersisted something ?_) (.inl rfl)
        refine or_iff_not_imp_left.mpr fun kept => ?_
        have kept := not_not.mp kept
        refine ⟨by rw [rows]; exact keptRow fresh.row kept, d.files m.directory.next, ?_, ?_⟩
        · have stays : ¬∃ path ∈ (pruningOf directory pick m call).2.takeWhile (removable pick (showingNew directory pick m)),
              fileOf directory path = some (segmentName (drawnId pick)) := fun ⟨path, taken, same⟩ =>
            releasedRow fresh ((List.takeWhile_sublist _).subset taken) same kept
          rw [Directory.find, entries, if_neg stays, files, named]
          rfl
        · exact ⟨call.data, (pick .fillNonce).nonce, ciphertext, rfl, sealed', placed.bytes⟩
      | false =>
        rw [atomicError, or_iff_right Bool.false_ne_true]
        constructor
        · rintro ⟨-, file, -⟩
          by_contra stays
          rw [entries, if_neg stays, named] at file
          cases file
        · intro gone
          obtain ⟨path, taken, same⟩ := gone
          have absent := releasedRow fresh ((List.takeWhile_sublist _).subset taken) same
          refine ⟨by rw [NoRow, rows]; exact absent, by rw [entries, if_pos ⟨path, taken, same⟩], ?_⟩
          rw [entries]
          split
          · rfl
          · exact bare

end Placing

theorem sparedBy {p : Prop} [Decidable p] {name other : String} (apart : other ≠ name) :
    (freed (if p then m else m.remove name)).directory.entries other = m.directory.entries other := by
  split
  · rfl
  · rw [freed, removeEntries, if_neg apart]

theorem nothingWritten (fresh : Fresh directory pick m) (row : m'.database = m.database) (file : m'.directory.entries = m.directory.entries) :
    NoRow pick m' ∧ NoFile pick m' := by
  refine ⟨by rw [NoRow, row]; exact fresh.row, ?_, ?_⟩
  · rw [file, fresh.file]
  · rw [file, fresh.temporary]

/-- The call is atomic if it stops before it has written anything, or removes what it has written, or
goes on to its end. -/
theorem persistsAtomically (directory : Bytes) (encrypt : Bytes → Bytes → Bytes → Option Bytes) (pick : Act → Choice)
    (m : Storage) (call : Call) (fresh : Fresh directory pick m) :
    ∃ ok m', outcome directory encrypt pick m call = some (ok, m') ∧
      (Atomic directory encrypt pick m call ok m' ↔ Clean directory encrypt pick m call) := by
  have bare := nothingWritten fresh rfl rfl
  by_cases data : call.data = []
  · exact ⟨true, m, outcomeEmpty data, iff_of_true (atomicNothing (.inl data) bare.1 bare.2) (.inl data)⟩
  cases prepared : (pick .prepareDirectory).fails with
  | true => exact ⟨false, m, outcomeUnprepared data prepared, iff_of_true (atomicError.mpr bare) (.inr (.inl prepared))⟩
  | false =>
    cases ready : (pick .ready).fails with
    | true =>
      exact ⟨false, _, outcomeUnready fresh data prepared ready,
        iff_of_true (atomicError.mpr (nothingWritten fresh rfl rfl)) (.inr (.inr (.inl ready)))⟩
    | false =>
      cases keyed : call.keyless with
      | true =>
        have written := @nothingWritten directory pick m (freed (held pick m)) fresh rfl rfl
        exact ⟨true, _, outcomeKeyless fresh data prepared ready keyed,
          iff_of_true (atomicNothing (.inr keyed) written.1 written.2) (.inr (.inr (.inr (.inl keyed))))⟩
      | false =>
        have something : ¬(call.data = [] ∨ call.keyless = true) := by simp [data, keyed]
        have open' : Clean directory encrypt pick m call ↔ sealedOf encrypt pick call = none ∨
            (pick (.createNew (temporaryOf pick))).fails = true ∨
            ∃ ciphertext, sealedOf encrypt pick call = some ciphertext ∧
              if Renames pick m.directory.next (temporaryOf pick) (segmentName (drawnId pick)) (contentOf pick ciphertext) then
                (pick .syncDirectory).fails = false ∧ Inserts directory pick m call
              else (pick (.removeFile (temporaryOf pick))).fails = false := by
          simp [Clean, data, prepared, ready, keyed]
        rw [open']
        cases sealed' : sealedOf encrypt pick call with
        | none =>
          have ran := outcomeWritten fresh data prepared ready keyed (writeUnsealed sealed')
          exact ⟨false, _, ran, iff_of_true (atomicError.mpr (nothingWritten fresh rfl rfl)) (.inl rfl)⟩
        | some ciphertext =>
          simp only [reduceCtorEq, false_or, Option.some.injEq, exists_eq_left']
          have ran := fun {done m'} (published : _ = some (done, m')) =>
            outcomeWritten fresh data prepared ready keyed (writeSealed sealed' published)
          cases creates : (pick (.createNew (temporaryOf pick))).fails with
          | true =>
            refine ⟨false, _, ran (publishUncreated creates), iff_of_true (atomicError.mpr ?_) (.inl rfl)⟩
            rw [removeAbsent (show (held pick m).directory.entries _ = none from fresh.temporary), ite_self]
            exact nothingWritten fresh rfl rfl
          | false =>
            rw [or_iff_right Bool.false_ne_true]
            by_cases renames : Renames pick m.directory.next (temporaryOf pick) (segmentName (drawnId pick)) (contentOf pick ciphertext)
            · rw [if_pos renames]
              obtain ⟨d, published, placed⟩ := @publishNamed directory encrypt pick (held pick m) _ _ _ fresh.temporary creates renames
              cases synced : (pick .syncDirectory).fails with
              | true =>
                rw [synced] at published
                refine ⟨false, _, ran published, iff_of_false (fun whole => ?_) (fun whole => nomatch whole.1)⟩
                have gone := (atomicError.mp whole).2.1
                rw [sparedBy temporaryOther.symm, placedNamed placed] at gone
                cases gone
              | false =>
                rw [synced] at published
                obtain ⟨ok, m', inserted, whole⟩ := insertionAtomic fresh placed something sealed'
                rw [and_iff_right rfl]
                exact ⟨ok, m', (ran published).trans inserted, whole⟩
            · rw [if_neg renames]
              obtain ⟨d, published, entries⟩ := @publishUnnamed directory encrypt pick (held pick m) _ _ _ fresh.temporary creates renames
              refine ⟨false, _, ran published, ?_⟩
              rw [atomicError]
              cases stays : (pick (.removeFile (temporaryOf pick))).fails with
              | true =>
                rw [if_pos (.inr rfl)]
                refine iff_of_false (fun nothing => ?_) nofun
                have gone := nothing.2.2
                rw [freed, entries, Function.update_self] at gone
                cases gone
              | false =>
                rw [if_neg (by simp)]
                refine iff_of_true (nothingWritten fresh removeSame.1 (funext fun name => ?_)) rfl
                rw [freed, removeEntries, entries]
                split
                · rename_i same
                  rw [same, fresh.temporary]
                · rename_i other
                  rw [Function.update_of_ne other]
                  rfl

end Proofs

def calm : Choice := ⟨false, 0, "s", [1], 0, fun _ => none⟩

/-- The row is refused, and the file that was written for it is removed. -/
def refusing : Act → Choice
  | .appendSegment _ => { calm with fails := true }
  | _ => calm

theorem refusingFresh : Fresh [0x2F, 0x64] refusing blank where
  unlocked := rfl
  drawn := by simp [blank]
  row := by simp [blank]
  file := rfl
  temporary := rfl
  paths := by simp [blank]

theorem persistsAtomicallyBlank : ∃ m', outcome [0x2F, 0x64] plain refusing blank ⟨"t", 0, 1, [7], false⟩ = some (false, m') ∧
    (Atomic [0x2F, 0x64] plain refusing blank ⟨"t", 0, 1, [7], false⟩ false m' ↔
      Clean [0x2F, 0x64] plain refusing blank ⟨"t", 0, 1, [7], false⟩) ∧
    Clean [0x2F, 0x64] plain refusing blank ⟨"t", 0, 1, [7], false⟩ := by
  obtain ⟨ok, m', ran, atomic⟩ :=
    persistsAtomically [0x2F, 0x64] plain refusing blank ⟨"t", 0, 1, [7], false⟩ refusingFresh
  have failed : (outcome [0x2F, 0x64] plain refusing blank ⟨"t", 0, 1, [7], false⟩).map Prod.fst = some false := by
    decide +kernel
  rw [ran] at failed
  obtain rfl : ok = false := Option.some.inj failed
  have refused : (refusing (.appendSegment (segmentOf [0x2F, 0x64] refusing ⟨"t", 0, 1, [7], false⟩))).fails = true := rfl
  have renamed : Renames refusing blank.directory.next (temporaryOf refusing) (segmentName (drawnId refusing))
      (contentOf refusing [7]) := ⟨rfl, rfl, rfl, rfl⟩
  refine ⟨m', ran, atomic, .inr (.inr (.inr (.inr (.inr (.inr ⟨[7], rfl, ?_⟩)))))⟩
  rw [if_pos renamed, Inserts, if_pos refused]
  exact ⟨rfl, rfl⟩

/-- The sync of the directory fails, or the pruning. -/
def failsLate (pruning : Bool) : Act → Choice
  | .syncDirectory => { calm with fails := !pruning }
  | .pruneSegments _ => { calm with fails := pruning }
  | _ => calm

theorem strandedFile : ∀ pruning : Bool, (outcome [0x2F, 0x64] plain (failsLate pruning) blank ⟨"t", 0, 1, [7], false⟩).map
    (fun ended => (ended.1, ended.2.directory.entries "s.segment")) = some (false, some 0) := by
  decide +kernel

abbrev Stranded (pruning : Bool) : Prop :=
  ∃ m', outcome [0x2F, 0x64] plain (failsLate pruning) blank ⟨"t", 0, 1, [7], false⟩ = some (false, m') ∧
    ¬Atomic [0x2F, 0x64] plain (failsLate pruning) blank ⟨"t", 0, 1, [7], false⟩ false m'

theorem stranded (pruning : Bool) : Stranded pruning := by
  obtain ⟨⟨ok, m'⟩, ran, ended⟩ := Option.map_eq_some_iff.mp (strandedFile pruning)
  obtain ⟨rfl, there⟩ := Prod.mk.inj ended
  refine ⟨m', ran, fun whole => ?_⟩
  have gone : m'.directory.entries "s.segment" = none := (atomicError.mp whole).2.1
  rw [there] at gone
  cases gone

theorem segmentStranded : Stranded false ∧ Stranded true := ⟨stranded false, stranded true⟩

end Maestro.SegmentStore
