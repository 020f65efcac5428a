import Mathlib.Data.List.Basic
import Mathlib.Logic.Function.Basic

/-! One directory of a file system: names of inodes, and the files behind them. What a name
shows changes in one step, and a file is written through its inode. -/
namespace Maestro.Files

abbrev Inode := Nat

inductive IoError where
  | notFound
  | alreadyExists
  | isLoop
  | writeZero
  | other (code : Nat)
  deriving DecidableEq, Repr

inductive FileKind where
  | regular
  | directory
  | symlink
  deriving DecidableEq, Repr

/-- `writes` counts the calls that changed the file; it moves when `mtime` does. -/
structure File where
  kind : FileKind
  bytes : List UInt8
  mode : Nat
  writes : Nat
  deriving DecidableEq, Repr

structure Directory where
  entries : String → Option Inode
  files : Inode → File
  next : Inode
  named : ∀ name inode, entries name = some inode → inode < next

namespace Directory
variable (d : Directory)

def find (name : String) : Option File := (d.entries name).map d.files

def content (name : String) : Option (List UInt8) := (d.find name).map (·.bytes)

/-- `O_CREAT | O_EXCL`. -/
def createNew (name : String) (mode : Nat) : Except IoError (Inode × Directory) :=
  match d.entries name with
  | some _ => .error .alreadyExists
  | none => .ok (d.next,
      { entries := Function.update d.entries name (some d.next)
        files := Function.update d.files d.next ⟨.regular, [], mode, 0⟩
        next := d.next + 1
        named := fun other inode found => by
          by_cases same : other = name
          · subst same
            rw [Function.update_self] at found
            exact Option.some.inj found ▸ Nat.lt_succ_self _
          · rw [Function.update_of_ne same] at found
            exact Nat.lt_succ_of_lt (d.named _ _ found) })

def alter (inode : Inode) (change : File → File) : Directory :=
  { d with files := Function.update d.files inode (change (d.files inode)) }

def write (inode : Inode) (bytes : List UInt8) : Directory :=
  d.alter inode fun file => { file with bytes := file.bytes ++ bytes, writes := file.writes + 1 }

def setMode (inode : Inode) (mode : Nat) : Directory :=
  d.alter inode fun file => { file with mode := mode }

def unlink (name : String) : Except IoError Directory :=
  match d.entries name with
  | none => .error .notFound
  | some _ => .ok { d with
      entries := Function.update d.entries name none
      named := fun other inode found => by
        by_cases same : other = name
        · subst same
          rw [Function.update_self] at found
          cases found
        · rw [Function.update_of_ne same] at found
          exact d.named _ _ found }

/-- A second name for the file, which must be free. -/
def hardLink (old new : String) : Except IoError Directory :=
  match found : d.entries old, d.entries new with
  | none, _ => .error .notFound
  | some _, some _ => .error .alreadyExists
  | some inode, none => .ok { d with
      entries := Function.update d.entries new (some inode)
      named := fun other inode' found' => by
        by_cases same : other = new
        · subst same
          rw [Function.update_self] at found'
          exact Option.some.inj found' ▸ d.named _ _ found
        · rw [Function.update_of_ne same] at found'
          exact d.named _ _ found' }

/-- The file takes the new name, whatever had it. -/
def rename (old new : String) : Except IoError Directory :=
  match found : d.entries old with
  | none => .error .notFound
  | some inode => .ok { d with
      entries := Function.update (Function.update d.entries old none) new (some inode)
      named := fun other inode' found' => by
        by_cases same : other = new
        · subst same
          rw [Function.update_self] at found'
          exact Option.some.inj found' ▸ d.named _ _ found
        · rw [Function.update_of_ne same] at found'
          by_cases gone : other = old
          · subst gone
            rw [Function.update_self] at found'
            cases found'
          · rw [Function.update_of_ne gone] at found'
            exact d.named _ _ found' }

variable {d}

theorem createNewFree {name : String} {mode : Nat} (free : d.entries name = none) :
    ∃ d', d.createNew name mode = .ok (d.next, d') ∧ d'.next = d.next + 1 ∧
      d'.entries = Function.update d.entries name (some d.next) ∧
      d'.files = Function.update d.files d.next ⟨.regular, [], mode, 0⟩ := by
  unfold createNew
  rw [free]
  exact ⟨_, rfl, rfl, rfl, rfl⟩

theorem createNewOk {name : String} {mode : Nat} {inode : Inode} {d' : Directory}
    (created : d.createNew name mode = .ok (inode, d')) :
    d.entries name = none ∧ inode = d.next ∧ d'.next = d.next + 1 ∧
      d'.entries = Function.update d.entries name (some d.next) ∧
      d'.files = Function.update d.files d.next ⟨.regular, [], mode, 0⟩ := by
  unfold createNew at created
  split at created
  · cases created
  · rename_i free
    cases created
    exact ⟨free, rfl, rfl, rfl, rfl⟩

theorem unlinkOk {name : String} {d' : Directory} (unlinked : d.unlink name = .ok d') :
    d'.files = d.files ∧ d'.next = d.next ∧
      d'.entries = Function.update d.entries name none := by
  unfold unlink at unlinked
  split at unlinked <;> cases unlinked
  exact ⟨rfl, rfl, rfl⟩

theorem unlinkFound {name : String} {inode : Inode} (found : d.entries name = some inode) :
    ∃ d', d.unlink name = .ok d' := by
  unfold unlink
  rw [found]
  exact ⟨_, rfl⟩

theorem unlinkMissing {name : String} (missing : d.entries name = none) :
    d.unlink name = .error .notFound := by
  unfold unlink
  rw [missing]

theorem hardLinkOk {old new : String} {d' : Directory} (linked : d.hardLink old new = .ok d') :
    ∃ inode, d.entries old = some inode ∧ d.entries new = none ∧ d'.files = d.files ∧
      d'.next = d.next ∧ d'.entries = Function.update d.entries new (some inode) := by
  unfold hardLink at linked
  split at linked <;> cases linked
  rename_i inode found free
  exact ⟨inode, found, free, rfl, rfl, rfl⟩

theorem renameOk {old new : String} {d' : Directory} (renamed : d.rename old new = .ok d') :
    ∃ inode, d.entries old = some inode ∧ d'.files = d.files ∧ d'.next = d.next ∧
      d'.entries = Function.update (Function.update d.entries old none) new (some inode) := by
  unfold rename at renamed
  split at renamed <;> cases renamed
  rename_i inode found
  exact ⟨inode, found, rfl, rfl, rfl⟩

theorem renameFound {old new : String} {inode : Inode} (found : d.entries old = some inode) :
    ∃ d', d.rename old new = .ok d' := by
  unfold rename
  split
  · rename_i missing
    rw [found] at missing
    cases missing
  · exact ⟨_, rfl⟩

end Directory

theorem contentOf {d : Directory} {other : String} :
    d.content other = (d.entries other).map fun inode => (d.files inode).bytes := by
  unfold Directory.content Directory.find
  cases d.entries other <;> rfl

theorem contentSame {d d' : Directory} {other : String} (entries : d'.entries other = d.entries other)
    (files : ∀ inode, d.entries other = some inode → d'.files inode = d.files inode) :
    d'.content other = d.content other := by
  rw [contentOf, contentOf, entries]
  cases found : d.entries other with
  | none => rfl
  | some inode => simp only [Option.map_some, files inode found]

theorem setModeElsewhere {d : Directory} {inode other : Inode} {mode : Nat} (apart : other ≠ inode) :
    (d.setMode inode mode).files other = d.files other := Function.update_of_ne apart _ _

theorem writeElsewhere {d : Directory} {inode other : Inode} {bytes : List UInt8} (apart : other ≠ inode) :
    (d.write inode bytes).files other = d.files other := Function.update_of_ne apart _ _

theorem writeHere {d : Directory} {inode : Inode} {bytes : List UInt8} :
    ((d.write inode bytes).files inode).bytes = (d.files inode).bytes ++ bytes := by
  simp only [Directory.write, Directory.alter, Function.update_self]

theorem setModeHere {d : Directory} {inode : Inode} {mode : Nat} :
    ((d.setMode inode mode).files inode).bytes = (d.files inode).bytes := by
  simp only [Directory.setMode, Directory.alter, Function.update_self]

/-! A file under one name only, which is not `name`. -/

structure Owns (name : String) (d : Directory) (mine : String) (inode : Inode) : Prop where
  apart : mine ≠ name
  named : d.entries mine = some inode
  alone : ∀ other, d.entries other = some inode → other = mine

section Owned
variable {name mine temporary : String} {inode target : Inode} {d d' : Directory}

theorem createOwns {mode : Nat} (away : temporary ≠ name) (created : d.createNew temporary mode = .ok (inode, d')) :
    Owns name d' temporary inode ∧ (d'.files inode).bytes = [] := by
  obtain ⟨free, rfl, next, entries, files⟩ := Directory.createNewOk created
  refine ⟨⟨away, by rw [entries, Function.update_self], fun other shows => ?_⟩,
    by rw [files, Function.update_self]⟩
  rw [entries] at shows
  by_contra different
  rw [Function.update_of_ne different] at shows
  exact Nat.lt_irrefl _ (d.named _ _ shows)

theorem ownsCreate {mode : Nat} (created : d.createNew temporary mode = .ok (target, d'))
    (owns : Owns name d mine inode) : Owns name d' mine inode ∧ d'.files inode = d.files inode := by
  obtain ⟨free, rfl, next, entries, files⟩ := Directory.createNewOk created
  have older : inode ≠ d.next := Nat.ne_of_lt (d.named _ _ owns.named)
  have apart : mine ≠ temporary := fun same => by
    have named := owns.named
    rw [same, free] at named
    cases named
  refine ⟨⟨owns.apart, ?_, fun file shows => ?_⟩, by rw [files, Function.update_of_ne older]⟩
  · rw [entries, Function.update_of_ne apart, owns.named]
  · rw [entries] at shows
    by_cases same : file = temporary
    · rw [same, Function.update_self] at shows
      exact absurd (Option.some.inj shows).symm older
    · rw [Function.update_of_ne same] at shows
      exact owns.alone file shows

theorem ownsAlter (different : mine ≠ temporary) (theirs : Owns name d temporary target)
    (entries : d'.entries = d.entries) (files : ∀ file, file ≠ target → d'.files file = d.files file)
    (owns : Owns name d mine inode) : Owns name d' mine inode ∧ d'.files inode = d.files inode := by
  have other : inode ≠ target := fun same => different (theirs.alone mine (same ▸ owns.named))
  exact ⟨⟨owns.apart, (congrFun entries mine).trans owns.named,
    fun shown shows => owns.alone shown ((congrFun entries shown).symm.trans shows)⟩, files inode other⟩

theorem ownsUnlink (different : mine ≠ temporary)
    (entries : d'.entries = Function.update d.entries temporary none) (owns : Owns name d mine inode) :
    Owns name d' mine inode := by
  refine ⟨owns.apart, ?_, fun file shows => ?_⟩
  · rw [entries, Function.update_of_ne different, owns.named]
  · rw [entries] at shows
    by_cases same : file = temporary
    · rw [same, Function.update_self] at shows
      cases shows
    · rw [Function.update_of_ne same] at shows
      exact owns.alone file shows

theorem ownsLink (other : target ≠ inode)
    (entries : d'.entries = Function.update d.entries name (some target))
    (owns : Owns name d mine inode) : Owns name d' mine inode := by
  refine ⟨owns.apart, ?_, fun file shows => ?_⟩
  · rw [entries, Function.update_of_ne owns.apart, owns.named]
  · rw [entries] at shows
    by_cases same : file = name
    · rw [same, Function.update_self] at shows
      exact absurd (Option.some.inj shows) other
    · rw [Function.update_of_ne same] at shows
      exact owns.alone file shows

theorem ownsRename (different : mine ≠ temporary) (theirs : Owns name d temporary target)
    (entries : d'.entries = Function.update (Function.update d.entries temporary none) name (some target))
    (owns : Owns name d mine inode) : Owns name d' mine inode := by
  have other : target ≠ inode := fun same => different (theirs.alone mine (same ▸ owns.named))
  refine ⟨owns.apart, ?_, fun file shows => ?_⟩
  · rw [entries, Function.update_of_ne owns.apart, Function.update_of_ne different, owns.named]
  · rw [entries] at shows
    by_cases same : file = name
    · rw [same, Function.update_self] at shows
      exact absurd (Option.some.inj shows) other
    · rw [Function.update_of_ne same] at shows
      by_cases gone : file = temporary
      · rw [gone, Function.update_self] at shows
        cases shows
      · rw [Function.update_of_ne gone] at shows
        exact owns.alone file shows

end Owned

end Maestro.Files
