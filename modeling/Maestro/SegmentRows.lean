import Maestro.SegmentFiles

/-! The rows of the terminal segments and their files along every run, restarts included. -/
namespace Maestro.SegmentStore
open Interleaving Prog Files Retention Redaction

theorem textNamed {directory : Bytes} (text : Utf8 directory) (id : String) :
    fileOf directory (storagePath directory id) = some (segmentName id) := by
  have whole : Utf8 (join directory (segmentName id)) :=
    utf8Append text (utf8Append (a := [0x2F]) ⟨['/'], by decide⟩ (bytesUtf8 (segmentName id)))
  obtain ⟨path, decoded, back⟩ := ofBytesSome whole
  have stored : storagePath directory id = path := by
    unfold storagePath toStringLossy
    rw [decoded]
  have parts : bytes path = (directory ++ [0x2F]) ++ bytes (segmentName id) := by
    rw [back, join, List.append_assoc, List.singleton_append]
  rw [stored, fileOf, parts, if_pos (List.isPrefixOf_iff_prefix.mpr (List.prefix_append _ _)),
    List.drop_left, ofBytesText]

theorem nowhereNamed {directory : Bytes} (wrong : ¬ Utf8 directory) (path : String) :
    fileOf directory path = none := by
  refine if_neg fun starts => ?_
  obtain ⟨rest, same⟩ := List.isPrefixOf_iff_prefix.mp starts
  have here : (bytes path)[directory.length]? = some 0x2F := by
    rw [← same, List.append_assoc, List.getElem?_append_right (Nat.le_refl _), Nat.sub_self]
    rfl
  have front := (boundaryCut (bytesUtf8 path) (boundaryHere here (by decide))).1
  rw [← same, List.append_assoc, List.take_left] at front
  exact wrong front

section Runs
variable {directory : Bytes} {encrypt : Bytes → Bytes → Bytes → Option Bytes}

/-- The process may end before any action and start again: the files and the rows stay. -/
inductive Restarting (start : Config (machine directory encrypt)) : Config (machine directory encrypt) → Prop where
  | start : Restarting start start
  | step {c e c'} (before : Restarting start c) (moves : Moves c e c') : Restarting start c'
  | restart {c} (before : Restarting start c) : Restarting start ⟨{ c.memory with locked := false }, []⟩

theorem reachRestarting {Good : Config (machine directory encrypt) → Event (machine directory encrypt) → Prop}
    {start c : Config (machine directory encrypt)} (reached : Reach Good start c) : Restarting start c := by
  induction reached with
  | start => exact .start
  | step _ _ moves ih => exact .step ih moves

def NamesFile (directory : Bytes) (encrypt : Bytes → Bytes → Bytes → Option Bytes) (m : Storage)
    (row : TerminalSegment) : Prop :=
  ∃ name file, fileOf directory row.storagePath = some name ∧ m.directory.find name = some file ∧
    Recorded encrypt row file.bytes

theorem restartingHolds (text : Utf8 directory) {start c : Config (machine directory encrypt)}
    (first : (storing directory encrypt).Holds start) (ran : Restarting start c) :
    (storing directory encrypt).Holds c := by
  induction ran with
  | start => exact first
  | step _ moves ih =>
    exact Outline.holdsMoves stagesSound (storingValid (textNamed text)) ih moves fun _ _ => trivial
  | @restart c _ ih =>
    exact Outline.holdsEmpty ⟨fun row member => ⟨(ih.inv.rows row member).path, (ih.inv.rows row member).drawn,
      (ih.inv.rows row member).file⟩, ih.inv.elsewhere⟩

theorem storedNames (text : Utf8 directory) {m : Storage} (stored : Stored directory encrypt m) :
    ∀ row ∈ m.database.terminalSegments, NamesFile directory encrypt m row := by
  intro row member
  obtain ⟨path, _, inode, content, ⟨owns, holds⟩, recorded⟩ := stored.rows row member
  refine ⟨segmentName row.id, m.directory.files inode, by rw [path, textNamed text], ?_, holds ▸ recorded⟩
  rw [Directory.find, owns.named]
  rfl

theorem removeDatabase {m : Storage} {name : String} : (m.remove name).database = m.database := by
  obtain ⟨d, same, _⟩ := @removeFiles m name
  rw [same]

theorem applyOne {o : Act} {choice : Choice} {m m' : Storage} {answer : o.Answer}
    (applied : apply directory o choice m = some (answer, m')) :
    m'.directory = m.directory ∨ m'.database = m.database := by
  cases o
  case removeFile | removeReleased =>
    right
    simp only [apply] at applied
    repeat' split at applied
    all_goals cases applied
    all_goals first | rfl | exact removeDatabase
  all_goals
    simp only [apply] at applied
    repeat' split at applied
    all_goals cases applied
    all_goals first | exact .inl rfl | exact .inr rfl

theorem movesOne {c c' : Config (machine directory encrypt)} {e} (moves : Moves c e c') :
    c'.memory.directory = c.memory.directory ∨ c'.memory.database = c.memory.database := by
  cases moves with
  | call => exact .inl rfl
  | act performs => exact applyOne performs.effect
  | outside effect =>
    simp only [otherTables] at effect
    split at effect <;> cases effect
    exact .inl rfl

/-- Where the directory is a text, every row names its file, and only there; a file goes when no
row names it any more. -/
theorem rowsNameFiles {m : Storage} (empty : m.database.terminalSegments = [])
    (elsewhere : Elsewhere directory m.database) {c : Config (machine directory encrypt)}
    (ran : Restarting ⟨m, []⟩ c) :
    (∀ row ∈ c.memory.database.terminalSegments,
      NamesFile directory encrypt c.memory row ↔ Utf8 directory) ∧
    ∀ {e c'}, Moves c e c' → ∀ name file, c.memory.directory.find name = some file →
      c'.memory.directory.find name = none →
      ∀ row ∈ c.memory.database.terminalSegments, fileOf directory row.storagePath ≠ some name := by
  by_cases text : Utf8 directory
  · have opening : Stored directory encrypt m := ⟨by simp [empty], elsewhere⟩
    have names : ∀ {c : Config (machine directory encrypt)}, Restarting ⟨m, []⟩ c →
        ∀ row ∈ c.memory.database.terminalSegments, NamesFile directory encrypt c.memory row := fun ran =>
      storedNames text (restartingHolds text (Outline.holdsEmpty opening) ran).inv
    refine ⟨fun row member => iff_of_true (names ran row member) text, ?_⟩
    intro e c' moves name file shown gone row member named
    rcases movesOne moves with same | same
    · rw [same, shown] at gone
      cases gone
    · obtain ⟨other, file', named', shown', _⟩ := names (.step ran moves) row (same ▸ member)
      cases named.symm.trans named'
      cases gone.symm.trans shown'
  · refine ⟨fun row _ => iff_of_false (fun ⟨_, _, named, _⟩ => ?_) text, ?_⟩
    · rw [nowhereNamed text] at named
      cases named
    · intro _ _ _ _ _ _ _ row _ named
      rw [nowhereNamed text] at named
      cases named

end Runs

def plain (_ _ data : Bytes) : Option Bytes := some data

theorem noEntry (_ : String) (inode : Inode) (found : none = some inode) : inode < 0 := by
  cases found

theorem noLogs (logs : List DebugLog) (found : none = some logs) : (logs.map (·.id)).Nodup := by
  cases found

def blank : Storage :=
  ⟨⟨fun _ => none, fun _ => ⟨.regular, [], 0, 0⟩, 0, noEntry⟩,
    ⟨[], [], [], none, List.nodup_nil, List.nodup_nil, noLogs⟩, false, []⟩

/-- One call, from the directory to the end of the pruning. -/
abbrev persisted (directory : Bytes) : Option (Config (machine directory plain)) :=
  runFrom ⟨blank, []⟩ (.call (.persistTerminalSegment "t" 0 1 [7]) ::
    List.replicate 15 (.run 0 ⟨false, 0, "s", [1], 0, fun _ => none⟩))

theorem persistedRow : ∀ directory ∈ [[0x2F, 0x64], [0x2F, 0xFF]],
    (persisted directory).map (·.memory.database.terminalSegments.length) = some 1 := by
  decide +kernel

theorem persistedReached {directory : Bytes} (known : directory ∈ [[0x2F, 0x64], [0x2F, 0xFF]]) :
    ∃ c : Config (machine directory plain), Restarting ⟨blank, []⟩ c ∧
      ∃ row, row ∈ c.memory.database.terminalSegments := by
  obtain ⟨c, ran, one⟩ := Option.map_eq_some_iff.mp (persistedRow directory known)
  exact ⟨c, reachRestarting (reachRun (.start : Reach Always _ _) (fun _ _ => trivial) ran),
    List.exists_mem_of_length_pos (one ▸ Nat.one_pos)⟩

theorem blankElsewhere {directory : Bytes} : Elsewhere directory blank.database :=
  ⟨by simp [blank], by simp [blank]⟩

theorem rowsNameFilesPersisted : ∃ c : Config (machine [0x2F, 0x64] plain),
    ∃ row ∈ c.memory.database.terminalSegments, NamesFile [0x2F, 0x64] plain c.memory row := by
  obtain ⟨c, ran, row, member⟩ := persistedReached List.mem_cons_self
  exact ⟨c, row, member, ((rowsNameFiles rfl blankElsewhere ran).1 row member).mpr ⟨['/', 'd'], by decide⟩⟩

theorem notText : ¬ Utf8 [0x2F, 0xFF] := fun text => by
  obtain ⟨_, decoded, _⟩ := ofBytesSome text
  have fails : ofBytes [0x2F, 0xFF] = none := by decide +kernel
  rw [fails] at decoded
  cases decoded

theorem rowNamesNoFile : ¬ ∀ (directory : Bytes) (encrypt : Bytes → Bytes → Bytes → Option Bytes) (m : Storage),
    m.database.terminalSegments = [] → Elsewhere directory m.database →
    ∀ c : Config (machine directory encrypt), Restarting ⟨m, []⟩ c →
      ∀ row ∈ c.memory.database.terminalSegments, NamesFile directory encrypt c.memory row := by
  intro claim
  obtain ⟨c, ran, row, member⟩ := persistedReached (List.mem_cons_of_mem _ List.mem_cons_self)
  obtain ⟨_, _, named, _⟩ := claim [0x2F, 0xFF] plain blank rfl blankElsewhere c ran row member
  rw [nowhereNamed notText] at named
  cases named

end Maestro.SegmentStore
