import Maestro.SegmentStore

/-! The listing of one directory in pages. Each call walks the directory again and skips the entries
that its cursor counts. -/
namespace Maestro.DirectoryPages
open SegmentStore (toStringLossy)

def maximumDirectoryPageSize : Nat := 1000

def maxCursor : Nat := 2 ^ 64 - 1

inductive ProjectError where
  | unauthorizedPath
  | unsafePath
  | notDirectory
  | invalidLimit
  | fileChangedDuringRead
  | io (operation kind : String)
  deriving DecidableEq, Repr

inductive FileType where | dir | file | symlink | other
  deriving DecidableEq, Repr

inductive DirectoryEntryKind where | directory | file | symlink | other
  deriving DecidableEq, Repr

structure DirectoryEntry where
  path : Bytes
  displayName : String
  kind : DirectoryEntryKind
  bytes : Option Nat
  deriving DecidableEq, Repr

/-- An entry the walker yields, with what `symlink_metadata` answers about its length. -/
structure Walked where
  depth : Nat
  path : Bytes
  name : Bytes
  fileType : Option FileType
  length : Except String Nat

structure Metadata where
  dev : Nat
  ino : Nat
  deriving DecidableEq, Repr

def sameDirectory (first second : Metadata) : Bool := first.dev == second.dev && first.ino == second.ino

structure ListingOptions where
  maximumEntries : Nat
  includeHidden : Bool

structure DirectoryPage where
  directory : Bytes
  entries : List DirectoryEntry
  nextCursor : Option Nat

/-- What one call meets: the directory, and its walk for hidden entries shown or not. -/
structure Surroundings where
  openDirectory : Except ProjectError Bytes
  before : Except String Metadata
  walk : Bool → List (Except String Walked)
  after : Except String Metadata

def directoryEntry (entry : Walked) : Except ProjectError DirectoryEntry :=
  let kind : DirectoryEntryKind := match entry.fileType with
    | some .dir => .directory
    | some .file => .file
    | some .symlink => .symlink
    | _ => .other
  if kind = .file then
    match entry.length with
    | .error kind' => .error (.io "reading directory entry metadata" kind')
    | .ok length => .ok ⟨entry.path, toStringLossy entry.name, kind, some length⟩
  else .ok ⟨entry.path, toStringLossy entry.name, kind, none⟩

/-- The loop over the walk: `seen` entries were counted and `entries` are on the page. -/
def collect (offset maximum : Nat) : List (Except String Walked) → Nat → List DirectoryEntry →
    Except ProjectError (List DirectoryEntry × Bool)
  | [], _, entries => .ok (entries, false)
  | .error kind :: _, _, _ => .error (.io "listing directory" kind)
  | .ok entry :: rest, seen, entries =>
    if entry.depth = 0 then collect offset maximum rest seen entries
    else if seen < offset then collect offset maximum rest (seen + 1) entries
    else if entries.length = maximum then .ok (entries, true)
    else do
      let shown ← directoryEntry entry
      collect offset maximum rest (seen + 1) (entries ++ [shown])

def list (s : Surroundings) (cursor : Nat) (options : ListingOptions) : Except ProjectError DirectoryPage := do
  if options.maximumEntries = 0 ∨ maximumDirectoryPageSize < options.maximumEntries then throw .invalidLimit
  let directory ← s.openDirectory
  let before ← s.before.mapError (.io "reading directory metadata")
  let (entries, hasMore) ← collect cursor options.maximumEntries (s.walk options.includeHidden) 0 []
  let after ← s.after.mapError (.io "rechecking directory metadata")
  if !sameDirectory before after then throw .fileChangedDuringRead
  return ⟨directory, entries, if hasMore then some (min (cursor + entries.length) maxCursor) else none⟩

/-- A directory that does not change. Its entries are counted by a machine word. -/
structure Directory where
  openDirectory : Except ProjectError Bytes
  metadata : Except String Metadata
  walk : Bool → List (Except String Walked)
  counted : ∀ includeHidden, (walk includeHidden).length ≤ maxCursor

namespace Directory

def surroundings (d : Directory) : Surroundings := ⟨d.openDirectory, d.metadata, d.walk, d.metadata⟩

/-- A client that asks for one page after another, and what it has in the end. -/
def follow (d : Directory) (options : ListingOptions) : Nat → Nat → Option (Except ProjectError (List DirectoryEntry))
  | 0, _ => none
  | fuel + 1, cursor =>
    match list d.surroundings cursor options with
    | .error error => some (.error error)
    | .ok page =>
      match page.nextCursor with
      | none => some (.ok page.entries)
      | some next => (d.follow options fuel next).map fun rest => rest.map (page.entries ++ ·)

/-- What the walk shows below the directory itself. -/
def shown : List (Except String Walked) → Except ProjectError (List DirectoryEntry)
  | [] => .ok []
  | .error kind :: _ => .error (.io "listing directory" kind)
  | .ok entry :: rest =>
    if entry.depth = 0 then shown rest
    else do return (← directoryEntry entry) :: (← shown rest)

def listing (d : Directory) (includeHidden : Bool) : Except ProjectError (List DirectoryEntry) := do
  let _ ← d.openDirectory
  let _ ← d.metadata.mapError (ProjectError.io "reading directory metadata")
  shown (d.walk includeHidden)

end Directory

/-- The first `count` entries of a walk, without the directory itself, and what follows them. -/
inductive Skips : Nat → List (Except String Walked) → List (Except String Walked) → Prop where
  | here {walk} : Skips 0 walk walk
  | top {count entry walk rest} (own : entry.depth = 0) (skips : Skips count walk rest) :
      Skips count (.ok entry :: walk) rest
  | entry {count entry walk rest} (below : entry.depth ≠ 0) (skips : Skips count walk rest) :
      Skips (count + 1) (.ok entry :: walk) rest

def Tells (maximum : Nat) (entries : List DirectoryEntry) (rest : List (Except String Walked)) :
    Except ProjectError (List DirectoryEntry × Bool) → Prop
  | .error error => Directory.shown rest = .error error
  | .ok (page, false) => ∃ added, page = entries ++ added ∧ Directory.shown rest = .ok added
  | .ok (page, true) => ∃ added later, page = entries ++ added ∧ page.length = maximum ∧
      Skips added.length rest later ∧ Directory.shown rest = (Directory.shown later).map (added ++ ·)

section Pages
variable {offset maximum seen : Nat} {walk rest later : List (Except String Walked)} {entries : List DirectoryEntry}

theorem skipsLength {count : Nat} (skips : Skips count walk rest) : count + rest.length ≤ walk.length := by
  induction skips with
  | here => rw [Nat.zero_add]
  | top _ _ ih | entry _ _ ih =>
    rw [List.length_cons]
    omega

theorem skipsTrans {first second : Nat} (skips : Skips first walk rest) (more : Skips second rest later) :
    Skips (first + second) walk later := by
  induction skips with
  | here => rwa [Nat.zero_add]
  | top own _ ih => exact .top own (ih more)
  | entry below _ ih =>
    rw [Nat.add_right_comm]
    exact .entry below (ih more)

theorem skipsCollect {count : Nat} (skips : Skips count walk rest) (more : offset = seen + count) :
    collect offset maximum walk seen [] = collect offset maximum rest offset [] := by
  induction skips generalizing seen with
  | here => rw [more, Nat.add_zero]
  | top own _ ih => rw [collect, if_pos own, ih more]
  | entry below _ ih => rw [collect, if_neg below, if_pos (by omega), ih (by omega)]

theorem collectTells (behind : offset ≤ seen) :
    Tells maximum entries rest (collect offset maximum rest seen entries) := by
  induction rest generalizing seen entries with
  | nil => exact ⟨[], (List.append_nil _).symm, rfl⟩
  | cons result rest ih =>
    cases result with
    | error kind => exact rfl
    | ok entry =>
      rw [collect]
      split
      · rename_i own
        have same : Directory.shown (.ok entry :: rest) = Directory.shown rest := if_pos own
        have told : Tells maximum entries rest (collect offset maximum rest seen entries) := ih behind
        match collect offset maximum rest seen entries, told with
        | .error error, told => exact same.trans told
        | .ok (page, false), ⟨added, joined, all⟩ => exact ⟨added, joined, same.trans all⟩
        | .ok (page, true), ⟨added, later, joined, full, skips, all⟩ =>
          exact ⟨added, later, joined, full, .top own skips, same.trans all⟩
      · rename_i below
        have same : Directory.shown (.ok entry :: rest) =
            (do return (← directoryEntry entry) :: (← Directory.shown rest)) := if_neg below
        rw [if_neg (Nat.not_lt.mpr behind)]
        split
        · rename_i full
          refine ⟨[], .ok entry :: rest, (List.append_nil _).symm, full, .here, ?_⟩
          cases Directory.shown (.ok entry :: rest) <;> rfl
        · cases read : directoryEntry entry with
          | error error => exact same.trans (by rw [read]; rfl)
          | ok shown =>
            rw [read] at same
            have told : Tells maximum (entries ++ [shown]) rest
                (collect offset maximum rest (seen + 1) (entries ++ [shown])) := ih (Nat.le_succ_of_le behind)
            show Tells maximum entries (.ok entry :: rest)
              (collect offset maximum rest (seen + 1) (entries ++ [shown]))
            match collect offset maximum rest (seen + 1) (entries ++ [shown]), told with
            | .error error, told => exact same.trans (by rw [told]; rfl)
            | .ok (page, false), ⟨added, joined, all⟩ =>
              exact ⟨shown :: added, by rw [joined, List.append_assoc]; rfl, same.trans (by rw [all]; rfl)⟩
            | .ok (page, true), ⟨added, later, joined, full, skips, all⟩ =>
              refine ⟨shown :: added, later, by rw [joined, List.append_assoc]; rfl, full, .entry below skips, ?_⟩
              rw [same, all]
              cases Directory.shown later <;> rfl

end Pages

section Following
variable {d : Directory} {options : ListingOptions} {directory : Bytes} {metadata : Metadata}

def Accepted (options : ListingOptions) : Prop :=
  0 < options.maximumEntries ∧ options.maximumEntries ≤ maximumDirectoryPageSize

theorem listPage (accepted : Accepted options) (opened : d.openDirectory = .ok directory)
    (known : d.metadata = .ok metadata) (cursor : Nat) :
    list d.surroundings cursor options =
      (collect cursor options.maximumEntries (d.walk options.includeHidden) 0 []).map fun found =>
        ⟨directory, found.1, if found.2 then some (min (cursor + found.1.length) maxCursor) else none⟩ := by
  have within : ¬(options.maximumEntries = 0 ∨ maximumDirectoryPageSize < options.maximumEntries) := fun outside =>
    outside.elim (Nat.ne_of_gt accepted.1) (Nat.not_lt.mpr accepted.2)
  have same : sameDirectory metadata metadata = true := by simp [sameDirectory]
  simp only [list, if_neg within, Directory.surroundings, opened, known]
  cases collect cursor options.maximumEntries (d.walk options.includeHidden) 0 [] with
  | error error => rfl
  | ok found =>
    simp only [Except.mapError, Bind.bind, Except.bind, same, Bool.not_true, Bool.false_eq_true, if_false]
    rfl

theorem followFrom (accepted : Accepted options) (opened : d.openDirectory = .ok directory)
    (known : d.metadata = .ok metadata) (size : Nat) :
    ∀ (cursor : Nat) (rest : List (Except String Walked)), rest.length < size →
      Skips cursor (d.walk options.includeHidden) rest →
      ∃ enough, ∀ fuel, enough ≤ fuel → d.follow options fuel cursor = some (Directory.shown rest) := by
  induction size with
  | zero => exact fun _ _ less => absurd less (Nat.not_lt_zero _)
  | succ size ih =>
    intro cursor rest less skips
    have page := listPage accepted opened known cursor
    rw [skipsCollect skips (Nat.zero_add cursor).symm] at page
    have told : Tells options.maximumEntries [] rest (collect cursor options.maximumEntries rest cursor []) :=
      collectTells (Nat.le_refl _)
    generalize collect cursor options.maximumEntries rest cursor [] = found at page told
    match found, told with
    | .error error, told =>
      refine ⟨1, fun fuel enough => ?_⟩
      obtain ⟨fuel, rfl⟩ := Nat.exists_eq_add_of_le' enough
      rw [Directory.follow, page, told]
      rfl
    | .ok (entries, false), ⟨added, joined, all⟩ =>
      refine ⟨1, fun fuel enough => ?_⟩
      obtain ⟨fuel, rfl⟩ := Nat.exists_eq_add_of_le' enough
      rw [List.nil_append] at joined
      rw [Directory.follow, page, all, joined]
      rfl
    | .ok (entries, true), ⟨added, later, joined, full, more, all⟩ =>
      rw [List.nil_append] at joined
      subst joined
      have counted := d.counted options.includeHidden
      have behind := skipsTrans skips more
      have inside := skipsLength behind
      have fewer := skipsLength more
      have positive := accepted.1
      obtain ⟨enough, reaches⟩ := ih (cursor + entries.length) later (by omega) behind
      refine ⟨enough + 1, fun fuel less' => ?_⟩
      obtain ⟨fuel, rfl⟩ : ∃ before, fuel = before + 1 := ⟨fuel - 1, by omega⟩
      have next : min (cursor + entries.length) maxCursor = cursor + entries.length := by omega
      rw [Directory.follow, page]
      simp only [Except.map, if_true, next]
      rw [reaches fuel (by omega), all]
      rfl

end Following

/-- Following the cursors from the start ends, with the whole listing or with the error that it meets. -/
theorem pagesComplete (d : Directory) (options : ListingOptions) (accepted : Accepted options) :
    ∃ enough, ∀ fuel, enough ≤ fuel → d.follow options fuel 0 = some (d.listing options.includeHidden) := by
  have within : ¬(options.maximumEntries = 0 ∨ maximumDirectoryPageSize < options.maximumEntries) := fun outside =>
    outside.elim (Nat.ne_of_gt accepted.1) (Nat.not_lt.mpr accepted.2)
  cases opened : d.openDirectory with
  | error error =>
    refine ⟨1, fun fuel enough => ?_⟩
    obtain ⟨fuel, rfl⟩ := Nat.exists_eq_add_of_le' enough
    simp [Directory.follow, list, within, Directory.surroundings, opened, Directory.listing, Bind.bind, Except.bind]
  | ok directory =>
    cases known : d.metadata with
    | error kind =>
      refine ⟨1, fun fuel enough => ?_⟩
      obtain ⟨fuel, rfl⟩ := Nat.exists_eq_add_of_le' enough
      simp [Directory.follow, list, within, Directory.surroundings, opened, known, Directory.listing, Bind.bind,
        Except.bind, Except.mapError]
    | ok metadata =>
      have whole : d.listing options.includeHidden = Directory.shown (d.walk options.includeHidden) := by
        rw [Directory.listing, opened, known]
        rfl
      rw [whole]
      exact followFrom accepted opened known _ 0 _ (Nat.lt_succ_self _) .here

def fileNamed (name : UInt8) : Walked := ⟨1, [0x2F, name], [name], some .file, .ok 0⟩

def threeFiles : Directory where
  openDirectory := .ok [0x2F]
  metadata := .ok ⟨1, 2⟩
  walk _ := [.ok ⟨0, [0x2F], [], some .dir, .ok 0⟩, .ok (fileNamed 0x61), .ok (fileNamed 0x62), .ok (fileNamed 0x63)]
  counted _ := by decide

theorem pagesCompleteThree : ∃ enough, ∀ fuel, enough ≤ fuel → threeFiles.follow ⟨2, false⟩ fuel 0 =
    some (.ok [⟨[0x2F, 0x61], "a", .file, some 0⟩, ⟨[0x2F, 0x62], "b", .file, some 0⟩,
      ⟨[0x2F, 0x63], "c", .file, some 0⟩]) := by
  have all : threeFiles.listing false = .ok [⟨[0x2F, 0x61], "a", .file, some 0⟩,
      ⟨[0x2F, 0x62], "b", .file, some 0⟩, ⟨[0x2F, 0x63], "c", .file, some 0⟩] := by
    decide +kernel
  rw [← all]
  exact pagesComplete threeFiles ⟨2, false⟩ ⟨by decide, by decide⟩

end Maestro.DirectoryPages
