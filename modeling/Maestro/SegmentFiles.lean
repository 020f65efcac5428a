import Maestro.Outline
import Maestro.RetentionExecution
import Maestro.SegmentStore

/-! Every row of the terminal segments has its file: what a writer, a pruning and the maintenance
hold at each of their steps. -/
namespace Maestro.SegmentStore
open Interleaving Prog Files Retention Redaction Protocol

/-- Under the lock: `writing` has the temporary file with what is in it, `published` the segment
file without its row, `pruned` and `planned` the paths released and not seen to yet. -/
inductive Work where
  | idle
  | writer (id : String)
  | writing (id temporary : String) (inode : Inode) (content : Bytes)
  | published (id : String) (content : Bytes)
  | pruned (released : List String)
  | planned (released : List String) (plan : RetentionPlan)

inductive Stage where
  | idle
  | drawn (id : String)
  | locked (work : Work)
  | removing (released : List String)

/-- The content is the encryption of as much data as the row says, bound to the row. -/
def Recorded (encrypt : Bytes → Bytes → Bytes → Option Bytes) (row : TerminalSegment) (content : Bytes) :
    Prop :=
  ∃ data nonce ciphertext, data.length = row.byteCount ∧
    encrypt nonce (terminalSegmentAad row.terminalTabId row.sequenceStart row.sequenceEnd) data =
      some ciphertext ∧ content = magic ++ nonce ++ ciphertext

namespace Stage

def locks : Stage → Bool
  | .locked _ => true
  | _ => false

def owned : Stage → Option String
  | .drawn id | .locked (.writer id) | .locked (.writing id _ _ _) | .locked (.published id _) => some id
  | _ => none

def released : Stage → List String
  | .removing released | .locked (.pruned released) | .locked (.planned released _) => released
  | _ => []

def names : Stage → Option String
  | .locked (.writing _ temporary _ _) => some temporary
  | .locked (.published id _) => some (segmentName id)
  | _ => none

section Moves
variable (directory : Bytes) (encrypt : Bytes → Bytes → Bytes → Option Bytes)

def may (q : Stage) : Act → Prop
  | .prepareDirectory | .newSegmentId => q = .idle
  | .lockState => q.locks = false ∧ q.released = []
  | .unlockState | .ready | .fillNonce | .newTemporary | .createSnapshot | .validateCandidates _ =>
    q.locks = true
  | .createNew name => ∃ id temporary, q = .locked (.writer id) ∧ name = temporaryName temporary
  | .setPermissions inode | .syncAll inode =>
    ∃ id temporary content, q = .locked (.writing id temporary inode content)
  | .writeAll inode _ => ∃ id temporary, q = .locked (.writing id temporary inode [])
  | .rename temporary name => ∃ id inode content, name = segmentName id ∧
      q = .locked (.writing id temporary inode content)
  | .syncDirectory => ∃ id content, q = .locked (.published id content)
  | .removeFile name => (∃ id temporary, q = .locked (.writer id) ∧ name = temporaryName temporary) ∨
      ∃ id content, q = .locked (.published id content) ∧ name = segmentName id
  | .appendSegment s => ∃ content, q = .locked (.published s.id content) ∧
      s.storagePath = storagePath directory s.id ∧ ∀ now, Recorded encrypt (s.row now) content
  | .pruneSegments _ | .planRetention => q = .locked .idle
  | .executeBatch plan => ∃ released, q = .locked (.planned released plan)
  | .validateReleased path | .symlinkMetadata path | .removeReleased path => path ∈ q.released

def fall : Stage → Stage
  | .locked (.writing id _ _ _) | .locked (.published id _) => .locked (.writer id)
  | q => q

def after : Stage → (o : Act) → o.Answer → Stage
  | _, .newSegmentId, id => .drawn id
  | .drawn id, .lockState, _ => .locked (.writer id)
  | _, .lockState, _ => .locked .idle
  | .locked (.pruned released), .unlockState, _ => .removing released
  | _, .unlockState, _ => .idle
  | .locked (.writer id), .createNew name, some inode => .locked (.writing id name inode [])
  | q, .setPermissions _, ok | q, .syncAll _, ok | q, .syncDirectory, ok => if ok then q else q.fall
  | .locked (.writing id temporary inode content), .writeAll _ bytes, ok =>
    if ok then .locked (.writing id temporary inode (content ++ bytes)) else .locked (.writer id)
  | .locked (.writing id _ _ content), .rename _ _, ok =>
    if ok then .locked (.published id content) else .locked (.writer id)
  | q, .removeFile _, _ => q.fall
  | q, .appendSegment _, ok => if ok then .locked .idle else q
  | _, .pruneSegments _, some released => .locked (.pruned released)
  | _, .planRetention, some plan => .locked (.planned [] plan)
  | _, .executeBatch _, some (released, plan) => .locked (.planned released plan)
  | q, _, _ => q

end Moves
end Stage

abbrev stages (directory : Bytes) (encrypt : Bytes → Bytes → Bytes → Option Bytes) :
    Protocol (machine directory encrypt) where
  Place := Stage
  enter _ := .idle
  may := Stage.may directory encrypt
  after := Stage.after
  ends _ := True

section Soundness
variable {directory : Bytes} {encrypt : Bytes → Bytes → Bytes → Option Bytes}

theorem publishStages {id temporary : String} {content : Bytes} :
    (stages directory encrypt).Follows (fun done q => q = if done then .locked (.published id content)
        else .locked (.writer id)) (.locked (.writer id))
      (publish (temporaryName temporary) (segmentName id) content) := by
  refine followsStep ⟨id, temporary, rfl, rfl⟩ fun created => ?_
  cases created with
  | none => rfl
  | some inode =>
    refine followsStep ⟨_, _, _, rfl⟩ fun set => ?_
    cases set with
    | false => rfl
    | true =>
      refine followsStep ⟨_, _, rfl⟩ fun wrote => ?_
      cases wrote with
      | false => rfl
      | true =>
        refine followsStep ⟨_, _, _, rfl⟩ fun synced => ?_
        cases synced with
        | false => rfl
        | true =>
          refine followsStep ⟨id, _, _, rfl, rfl⟩ fun renamed => ?_
          cases renamed with
          | false => rfl
          | true => exact ⟨⟨_, _, rfl⟩, fun synced => by cases synced <;> rfl⟩

theorem writeStages {id : String} {data aad : Bytes} :
    (stages directory encrypt).Follows (fun done q =>
        if done then ∃ nonce ciphertext, encrypt nonce aad data = some ciphertext ∧
          q = .locked (.published id (magic ++ nonce ++ ciphertext))
        else q = .locked (.writer id)) (.locked (.writer id))
      (writeEncryptedSegment encrypt (segmentName id) data aad) := by
  refine followsStep rfl fun nonce => ?_
  cases sealed : encrypt nonce aad data with
  | none => exact rfl
  | some ciphertext =>
    refine followsStep rfl fun temporary => followsSeq publishStages fun done q here => ?_
    subst here
    cases done with
    | true => exact ⟨nonce, ciphertext, sealed, rfl⟩
    | false => exact followsStep (.inl ⟨id, temporary, rfl, rfl⟩) fun _ => rfl

theorem removeStages {q : Stage} {paths : List String} (inside : ∀ path ∈ paths, path ∈ q.released) :
    (stages directory encrypt).Stays q (removeReleasedFiles paths) := by
  induction paths with
  | nil => exact rfl
  | cons path rest ih =>
    have here := inside path List.mem_cons_self
    have later := ih fun other member => inside other (List.mem_cons_of_mem _ member)
    have stays : ∀ (o : Act) (answer : o.Answer), (o = .validateReleased path ∨ o = .symlinkMetadata path ∨
        o = .removeReleased path) → q.after o answer = q := by
      rintro o answer (rfl | rfl | rfl) <;>
        · cases q with
          | locked work => cases work <;> rfl
          | _ => rfl
    refine followsStep here fun valid => followsFrom (stays (.validateReleased path) valid (.inl rfl)) ?_
    cases valid with
    | false => exact rfl
    | true =>
      refine followsStep here fun shown => followsFrom (stays (.symlinkMetadata path) shown (.inr (.inl rfl))) ?_
      cases shown with
      | other | unreadable => exact rfl
      | missing => exact later
      | file =>
        refine followsStep here fun removed => followsFrom (stays (.removeReleased path) removed (.inr (.inr rfl))) ?_
        cases removed with
        | false => exact rfl
        | true => exact later

theorem persistStages (terminalId : String) (sequenceStart sequenceEnd : Nat) (data : Bytes) :
    (stages directory encrypt).Follows (stages directory encrypt).EntryPost .idle
      (persistTerminalSegment directory encrypt terminalId sequenceStart sequenceEnd data) := by
  unfold persistTerminalSegment
  split
  · trivial
  refine followsStep rfl fun prepared => ?_
  cases prepared with
  | false => trivial
  | true =>
    refine followsStep rfl fun id => followsStep ⟨rfl, rfl⟩ fun _ => followsStep rfl fun isReady => ?_
    cases isReady with
    | false => exact followsStep rfl fun _ => trivial
    | true =>
      refine followsSeq writeStages fun wrote q here => ?_
      cases wrote with
      | false =>
        cases here
        exact followsStep rfl fun _ => trivial
      | true =>
        obtain ⟨nonce, ciphertext, sealed, rfl⟩ := here
        refine followsStep ⟨_, rfl, rfl, fun now => ⟨data, nonce, ciphertext, rfl, sealed, rfl⟩⟩ fun appended => ?_
        cases appended with
        | false =>
          exact followsStep (.inr ⟨_, _, rfl, rfl⟩) fun _ => followsStep rfl fun _ => trivial
        | true =>
          refine followsStep rfl fun pruned => ?_
          cases pruned with
          | none => exact followsStep rfl fun _ => trivial
          | some released =>
            refine followsStep rfl fun _ => ?_
            exact staysSeq (removeStages fun path member => member) fun _ => trivial

theorem batchesStages {fuel : Nat} {released : List String} {plan : RetentionPlan} :
    (stages directory encrypt).Follows (fun _ q => q.locks = true) (.locked (.planned released plan))
      (maintainBatches fuel plan) := by
  induction fuel generalizing released plan with
  | zero => rfl
  | succ fuel ih =>
    unfold maintainBatches
    split
    · rfl
    · refine followsStep ⟨_, rfl⟩ fun executed => ?_
      match executed with
      | none => rfl
      | some (released, plan) =>
        refine staysSeq (removeStages fun path member => member) fun removed => ?_
        cases removed with
        | false => rfl
        | true => exact ih

theorem maintainStages :
    (stages directory encrypt).Follows (stages directory encrypt).EntryPost .idle maintain := by
  refine followsStep ⟨rfl, rfl⟩ fun _ => followsStep rfl fun isReady => ?_
  cases isReady with
  | false => exact followsStep rfl fun _ => trivial
  | true =>
    refine followsStep rfl fun snapshot => ?_
    cases snapshot with
    | false => exact followsStep rfl fun _ => trivial
    | true =>
      refine followsStep rfl fun planned => ?_
      cases planned with
      | none => exact followsStep rfl fun _ => trivial
      | some plan =>
        refine followsStep rfl fun valid => ?_
        cases valid with
        | false => exact followsStep rfl fun _ => trivial
        | true => exact followsSeq batchesStages fun _ q here => followsStep here fun _ => trivial

theorem stagesSound : (stages directory encrypt).Sound := by
  intro e
  cases e with
  | persistTerminalSegment terminalId sequenceStart sequenceEnd data =>
    exact persistStages terminalId sequenceStart sequenceEnd data
  | maintain => exact maintainStages

end Soundness

def Mine (m : Storage) (id : String) : Prop :=
  id ∈ m.drawn ∧ ∀ row ∈ m.database.terminalSegments, row.id ≠ id

def Gone (directory : Bytes) (m : Storage) (paths : List String) : Prop :=
  ∀ path ∈ paths, ∀ name, fileOf directory path = some name → ∃ id, name = segmentName id ∧ Mine m id

/-- The name is the only one of its file, whose content is known. -/
structure Contains (d : Directory) (name : String) (inode : Inode) (content : Bytes) : Prop where
  owns : Owns "" d name inode
  content : (d.files inode).bytes = content

def Stage.File (d : Directory) : Stage → Prop
  | .locked (.writing _ name inode content) =>
    Contains d name inode content ∧ ∃ temporary, name = temporaryName temporary
  | .locked (.published id content) => ∃ inode, Contains d (segmentName id) inode content
  | _ => True

def Stage.Plan (d : Database) : Stage → Prop
  | .locked (.planned _ plan) => Describes plan.candidates d
  | _ => True

structure Stage.Here (directory : Bytes) (q : Stage) (m : Storage) : Prop where
  lock : q.locks = true → m.locked = true
  mine : ∀ id, q.owned = some id → Mine m id
  gone : Gone directory m q.released
  file : q.File m.directory
  plan : q.Plan m.database

structure Stage.Apart (directory : Bytes) (q other : Stage) : Prop where
  lock : ¬ (q.locks = true ∧ other.locks = true)
  owned : ∀ id, q.owned = some id → other.owned ≠ some id
  theirs : ∀ id, q.owned = some id → ∀ path ∈ other.released, fileOf directory path ≠ some (segmentName id)
  mine : ∀ id, other.owned = some id → ∀ path ∈ q.released, fileOf directory path ≠ some (segmentName id)

structure RowStored (directory : Bytes) (encrypt : Bytes → Bytes → Bytes → Option Bytes) (m : Storage)
    (row : TerminalSegment) : Prop where
  path : row.storagePath = storagePath directory row.id
  drawn : row.id ∈ m.drawn
  file : ∃ inode content, Contains m.directory (segmentName row.id) inode content ∧
    Recorded encrypt row content

structure Stored (directory : Bytes) (encrypt : Bytes → Bytes → Bytes → Option Bytes) (m : Storage) :
    Prop where
  rows : ∀ row ∈ m.database.terminalSegments, RowStored directory encrypt m row
  elsewhere : Elsewhere directory m.database

abbrev storing (directory : Bytes) (encrypt : Bytes → Bytes → Bytes → Option Bytes) :
    Outline (stages directory encrypt) where
  Inv := Stored directory encrypt
  Here := Stage.Here directory
  Apart := Stage.Apart directory

section Names

theorem segmentNameInj {id other : String} (same : segmentName id = segmentName other) : id = other := by
  have lists := congrArg String.toList same
  simp only [segmentName, String.toList_append] at lists
  exact String.toList_inj.mp (List.append_cancel_right lists)

theorem temporaryApart {id temporary : String} : temporaryName temporary ≠ segmentName id := by
  intro same
  have lists := congrArg (fun name => name.toList.reverse.head?) same
  simp [segmentName, temporaryName] at lists

theorem segmentNamed {id : String} : segmentName id ≠ "" := by
  intro same
  have lists := congrArg String.toList same
  simp [segmentName] at lists

theorem temporaryNamed {temporary : String} : temporaryName temporary ≠ "" := by
  intro same
  have lists := congrArg String.toList same
  simp [temporaryName] at lists

end Names

section Frames
variable {directory : Bytes} {encrypt : Bytes → Bytes → Bytes → Option Bytes} {m m' : Storage}
  {q q' other : Stage}

/-- What a place needs of a step that is not its own. -/
structure Frame (directory : Bytes) (m m' : Storage) (other : Stage) : Prop where
  lock : other.locks = true → m'.locked = true
  drawn : ∀ id ∈ m.drawn, id ∈ m'.drawn
  rows : ∀ row ∈ m'.database.terminalSegments, (∃ old ∈ m.database.terminalSegments, old.id = row.id) ∨
    (other.owned ≠ some row.id ∧ ∀ path ∈ other.released, fileOf directory path ≠ some (segmentName row.id))
  files : ∀ name inode, other.names = some name → Owns "" m.directory name inode →
    Owns "" m'.directory name inode ∧ m'.directory.files inode = m.directory.files inode
  plans : other.locks = true → m'.database = m.database

theorem hereFrame (here : other.Here directory m) (frame : Frame directory m m' other) :
    other.Here directory m' where
  lock := frame.lock
  mine := fun id owned => by
    obtain ⟨drawn, none⟩ := here.mine id owned
    refine ⟨frame.drawn id drawn, fun row member same => ?_⟩
    rcases frame.rows row member with ⟨old, before, alike⟩ | ⟨apart, _⟩
    · exact none old before (alike.trans same)
    · exact apart (same ▸ owned)
  gone := fun path member name named => by
    obtain ⟨id, rfl, drawn, none⟩ := here.gone path member name named
    refine ⟨id, rfl, frame.drawn id drawn, fun row member' same => ?_⟩
    rcases frame.rows row member' with ⟨old, before, alike⟩ | ⟨_, apart⟩
    · exact none old before (alike.trans same)
    · exact apart path member (same ▸ named)
  file := by
    have file := here.file
    cases other with
    | locked work =>
      cases work with
      | writing id name inode content =>
        obtain ⟨⟨owns, holds⟩, temporary⟩ := file
        have kept := frame.files name inode rfl owns
        exact ⟨⟨kept.1, by rw [kept.2, holds]⟩, temporary⟩
      | published id content =>
        obtain ⟨inode, owns, holds⟩ := file
        have kept := frame.files _ inode rfl owns
        exact ⟨inode, kept.1, by rw [kept.2, holds]⟩
      | _ => trivial
    | _ => trivial
  plan := by
    have plan := here.plan
    cases other with
    | locked work =>
      cases work with
      | planned released p =>
        have same := frame.plans rfl
        change Describes p.candidates m'.database
        rw [same]
        exact plan
      | _ => trivial
    | _ => trivial

theorem apartLess (locks : q'.locks = true → q.locks = true)
    (owned : ∀ id, q'.owned = some id → q.owned = some id) (released : ∀ path ∈ q'.released, path ∈ q.released)
    (apart : q.Apart directory other) : q'.Apart directory other where
  lock := fun both => apart.lock ⟨locks both.1, both.2⟩
  owned := fun id mine => apart.owned id (owned id mine)
  theirs := fun id mine => apart.theirs id (owned id mine)
  mine := fun id theirs path member => apart.mine id theirs path (released path member)

theorem keptStill (inv : Stored directory encrypt m) (here : q'.Here directory m)
    (locks : q'.locks = true → q.locks = true) (owned : ∀ id, q'.owned = some id → q.owned = some id)
    (released : ∀ path ∈ q'.released, path ∈ q.released) :
    (storing directory encrypt).Kept m m q q' none where
  inv := inv
  here := here
  entered := nofun
  others := fun _ theirs apart => ⟨theirs, apartLess locks owned released apart, nofun⟩

theorem storedFiles {d : Directory} (inv : Stored directory encrypt m)
    (files : ∀ row ∈ m.database.terminalSegments, ∀ inode, Owns "" m.directory (segmentName row.id) inode →
      Owns "" d (segmentName row.id) inode ∧ d.files inode = m.directory.files inode) :
    Stored directory encrypt { m with directory := d } where
  rows := fun row member => by
    obtain ⟨path, drawn, inode, content, ⟨owns, holds⟩, recorded⟩ := inv.rows row member
    have kept := files row member inode owns
    exact ⟨path, drawn, inode, content, ⟨kept.1, by change (d.files inode).bytes = content; rw [kept.2, holds]⟩,
      recorded⟩
  elsewhere := inv.elsewhere

theorem frameFiles {d : Directory} (lock : other.locks = true → m.locked = true)
    (files : ∀ name inode, other.names = some name → Owns "" m.directory name inode →
      Owns "" d name inode ∧ d.files inode = m.directory.files inode) :
    Frame directory m { m with directory := d } other where
  lock := lock
  drawn := fun _ member => member
  rows := fun row member => .inl ⟨row, member, rfl⟩
  files := files
  plans := fun _ => rfl

theorem unlocked (apart : q.Apart directory other) (locks : q.locks = true) : other.locks = false := by
  cases theirs : other.locks with
  | false => rfl
  | true => exact absurd ⟨locks, theirs⟩ apart.lock

theorem namesLocked {name : String} (names : other.names = some name) : other.locks = true := by
  cases other with
  | locked work => rfl
  | _ => cases names

theorem keptHolder {d : Directory} (inv : Stored directory encrypt m) (holder : q.locks = true)
    (files : ∀ row ∈ m.database.terminalSegments, ∀ inode, Owns "" m.directory (segmentName row.id) inode →
      Owns "" d (segmentName row.id) inode ∧ d.files inode = m.directory.files inode)
    (here : q'.Here directory { m with directory := d })
    (owned : ∀ id, q'.owned = some id → q.owned = some id) (released : ∀ path ∈ q'.released, path ∈ q.released) :
    (storing directory encrypt).Kept m { m with directory := d } q q' none where
  inv := storedFiles inv files
  here := here
  entered := nofun
  others := fun other theirs apart => by
    have away := unlocked apart holder
    refine ⟨hereFrame theirs (frameFiles theirs.lock fun name inode names => ?_),
      apartLess (fun _ => holder) owned released apart, nofun⟩
    rw [namesLocked names] at away
    cases away

theorem ownsFor {d : Directory} {name next mine : String} {inode : Inode} (apart : mine ≠ next)
    (owns : Owns name d mine inode) : Owns next d mine inode :=
  ⟨apart, owns.named, owns.alone⟩

theorem removeFiles {name : String} : ∃ d, m.remove name = { m with directory := d } ∧
    ∀ mine inode, mine ≠ name → Owns "" m.directory mine inode →
      Owns "" d mine inode ∧ d.files inode = m.directory.files inode := by
  unfold Storage.remove
  split
  · exact ⟨m.directory, rfl, fun _ _ _ owns => ⟨owns, rfl⟩⟩
  · rename_i d unlinked
    obtain ⟨files, _, entries⟩ := Directory.unlinkOk unlinked
    exact ⟨d, rfl, fun mine inode apart owns => ⟨ownsUnlink apart entries owns, congrFun files inode⟩⟩

theorem renamedOwns {d d' : Directory} {old name : String} {inode : Inode} (named : name ≠ "")
    (owns : Owns "" d old inode)
    (entries : d'.entries = Function.update (Function.update d.entries old none) name (some inode)) :
    Owns "" d' name inode := by
  refine ⟨named, by rw [entries, Function.update_self], fun other shows => ?_⟩
  by_contra different
  rw [entries, Function.update_of_ne different] at shows
  by_cases gone : other = old
  · rw [gone, Function.update_self] at shows
    cases shows
  · rw [Function.update_of_ne gone] at shows
    exact gone (owns.alone other shows)

theorem fallHere (here : q.Here directory m) : q.fall.Here directory m := by
  cases q with
  | locked work =>
    cases work with
    | writing | published => exact ⟨fun _ => here.lock rfl, here.mine, here.gone, trivial, trivial⟩
    | _ => exact here
  | _ => exact here

theorem fallSame : q.fall.locks = q.locks ∧ q.fall.owned = q.owned ∧ q.fall.released = q.released := by
  cases q with
  | locked work => cases work <;> exact ⟨rfl, rfl, rfl⟩
  | _ => exact ⟨rfl, rfl, rfl⟩

theorem keptFalls {ok : Bool} (inv : Stored directory encrypt m) (here : q.Here directory m) :
    (storing directory encrypt).Kept m m q (if ok then q else q.fall) none := by
  cases ok with
  | true => exact keptStill inv here id (fun _ => id) fun _ => id
  | false =>
    exact keptStill inv (fallHere here) (fun locks => fallSame.1 ▸ locks)
      (fun _ owned => fallSame.2.1 ▸ owned) fun _ member => fallSame.2.2 ▸ member

theorem rowApart {row : TerminalSegment} {id : String} (member : row ∈ m.database.terminalSegments)
    (mine : Mine m id) : segmentName row.id ≠ segmentName id := fun same =>
  mine.2 row member (segmentNameInj same)

theorem keptDraw {id : String} (inv : Stored directory encrypt m) (fresh : id ∉ m.drawn) :
    (storing directory encrypt).Kept m { m with drawn := id :: m.drawn } q (.drawn id) none where
  inv := ⟨fun row member => ⟨(inv.rows row member).path, List.mem_cons_of_mem _ (inv.rows row member).drawn,
    (inv.rows row member).file⟩, inv.elsewhere⟩
  here := by
    refine ⟨nofun, fun other same => ?_, nofun, trivial, trivial⟩
    cases same
    exact ⟨List.mem_cons_self, fun row member same => fresh (same ▸ (inv.rows row member).drawn)⟩
  entered := nofun
  others := fun other theirs _ => by
    refine ⟨hereFrame theirs ⟨theirs.lock, fun _ => List.mem_cons_of_mem _, fun row member => .inl ⟨row, member, rfl⟩,
      fun _ _ _ owns => ⟨owns, rfl⟩, fun _ => rfl⟩, ⟨nofun ∘ And.left, ?_, ?_, nofun⟩, nofun⟩
    · intro id' same owned
      cases same
      exact fresh (theirs.mine id owned).1
    · intro id' same path member named
      cases same
      obtain ⟨other', alike, mine⟩ := theirs.gone path member _ named
      exact fresh (segmentNameInj alike ▸ mine.1)

theorem keptLock (inv : Stored directory encrypt m) (free : m.locked = false)
    (here : q'.Here directory { m with locked := true }) (owned : ∀ id, q'.owned = some id → q.owned = some id)
    (released : q'.released = []) :
    (storing directory encrypt).Kept m { m with locked := true } q q' none where
  inv := ⟨fun row member => ⟨(inv.rows row member).path, (inv.rows row member).drawn,
    (inv.rows row member).file⟩, inv.elsewhere⟩
  here := here
  entered := nofun
  others := fun other theirs apart => by
    have away : other.locks = false := by
      cases locks : other.locks with
      | false => rfl
      | true => exact absurd (theirs.lock locks) (by simp [free])
    refine ⟨hereFrame theirs ⟨fun _ => rfl, fun _ => id, fun row member => .inl ⟨row, member, rfl⟩,
      fun _ _ _ owns => ⟨owns, rfl⟩, fun _ => rfl⟩, ⟨fun both => ?_, fun id mine => apart.owned id (owned id mine),
      fun id mine => apart.theirs id (owned id mine), fun id _ path member => ?_⟩, nofun⟩
    · exact absurd both.2 (by simp [away])
    · rw [released] at member
      cases member

theorem keptUnlock (inv : Stored directory encrypt m) (holder : q.locks = true)
    (here : q'.Here directory { m with locked := false }) (locks : q'.locks = false) (owned : q'.owned = none)
    (released : ∀ path ∈ q'.released, path ∈ q.released) :
    (storing directory encrypt).Kept m { m with locked := false } q q' none where
  inv := ⟨fun row member => ⟨(inv.rows row member).path, (inv.rows row member).drawn,
    (inv.rows row member).file⟩, inv.elsewhere⟩
  here := here
  entered := nofun
  others := fun other theirs apart => by
    have away := unlocked apart holder
    refine ⟨hereFrame theirs ⟨fun locks => ?_, fun _ => id, fun row member => .inl ⟨row, member, rfl⟩,
      fun _ _ _ owns => ⟨owns, rfl⟩, fun _ => rfl⟩, apartLess (fun mine => ?_) (fun id mine => ?_) released apart,
      nofun⟩
    · exact absurd locks (by simp [away])
    · exact absurd mine (by simp [locks])
    · rw [owned] at mine
      cases mine

theorem keptDelete {database : Database} {released : List String} (inv : Stored directory encrypt m)
    (named : ∀ id, fileOf directory (storagePath directory id) = some (segmentName id)) (holder : q.locks = true)
    (fewer : ∀ row ∈ database.terminalSegments, row ∈ m.database.terminalSegments)
    (elsewhere : Elsewhere directory database)
    (went : ∀ path ∈ released, fileOf directory path = none ∨
      ∃ row ∈ m.database.terminalSegments, row.storagePath = path ∧
        ∀ kept ∈ database.terminalSegments, kept.id ≠ row.id)
    (owned : q'.owned = none) (lists : q'.released = released)
    (file : ∀ d, q'.File d) (plan : q'.Plan database) (locked : m.locked = true) :
    (storing directory encrypt).Kept m { m with database } q q' none where
  inv := ⟨fun row member => ⟨(inv.rows row (fewer row member)).path, (inv.rows row (fewer row member)).drawn,
    (inv.rows row (fewer row member)).file⟩, elsewhere⟩
  here := by
    refine ⟨fun _ => locked, fun id mine => ?_, fun path member name shows => ?_, file _, plan⟩
    · rw [owned] at mine
      cases mine
    · rw [lists] at member
      rcases went path member with nowhere | ⟨row, here, rfl, gone⟩
      · rw [nowhere] at shows
        cases shows
      · have stored := inv.rows row here
        rw [stored.path, named] at shows
        exact ⟨row.id, (Option.some.inj shows).symm, stored.drawn, gone⟩
  entered := nofun
  others := fun other theirs apart => by
    have away := unlocked apart holder
    refine ⟨hereFrame theirs ⟨fun locks => ?_, fun _ => id, fun row member => .inl ⟨row, fewer row member, rfl⟩,
      fun name inode names => ?_, fun locks => ?_⟩, ⟨fun both => ?_, fun id mine => ?_, fun id mine => ?_,
      fun id theirs' path member shows => ?_⟩, nofun⟩
    · exact absurd locks (by simp [away])
    · rw [namesLocked names] at away
      cases away
    · exact absurd locks (by simp [away])
    · exact absurd both.2 (by simp [away])
    · rw [owned] at mine
      cases mine
    · rw [owned] at mine
      cases mine
    · rw [lists] at member
      rcases went path member with nowhere | ⟨row, here, rfl, _⟩
      · rw [nowhere] at shows
        cases shows
      · rw [(inv.rows row here).path, named] at shows
        exact (theirs.mine id theirs').2 row here (segmentNameInj (Option.some.inj shows))

theorem keptAppend {segment : Segment} {content : Bytes} {now : Nat} {database : Database}
    (inv : Stored directory encrypt m) (here : (Stage.locked (.published segment.id content)).Here directory m)
    (path : segment.storagePath = storagePath directory segment.id)
    (recorded : ∀ now, Recorded encrypt (segment.row now) content)
    (appended : append (segment.row now) m.database = some database) :
    (storing directory encrypt).Kept m { m with database } (.locked (.published segment.id content))
      (.locked .idle) none := by
  have mine := here.mine segment.id rfl
  have tables : database.terminalSegments = m.database.terminalSegments ++ [segment.row now] ∧
      database.rawSegments = m.database.rawSegments ∧ database.debugLogs = m.database.debugLogs := by
    unfold append at appended
    split at appended <;> cases appended
    exact ⟨rfl, rfl, rfl⟩
  have rows : ∀ row ∈ database.terminalSegments, row ∈ m.database.terminalSegments ∨ row = segment.row now :=
    fun row member => by
      rw [tables.1] at member
      exact (List.mem_append.mp member).imp id List.mem_singleton.mp
  refine ⟨⟨fun row member => ?_, ?_⟩, ⟨fun _ => here.lock rfl, fun _ owned => (by cases owned),
    fun _ member => (by cases member), trivial, trivial⟩, fun _ spawned => (by cases spawned),
    fun other theirs apart => ?_⟩
  · rcases rows row member with old | rfl
    · exact ⟨(inv.rows row old).path, (inv.rows row old).drawn, (inv.rows row old).file⟩
    · obtain ⟨inode, contains⟩ := here.file
      exact ⟨path, mine.1, inode, content, contains, recorded now⟩
  · have elsewhere := inv.elsewhere
    unfold Elsewhere at elsewhere ⊢
    rw [tables.2.1, tables.2.2]
    exact elsewhere
  · have away := unlocked apart rfl
    refine ⟨hereFrame theirs ⟨theirs.lock, fun _ => id, fun row member => ?_, fun _ _ _ owns => ⟨owns, rfl⟩,
      fun locks => ?_⟩, ⟨fun both => ?_, fun _ owned => (by cases owned), fun _ owned => (by cases owned),
      fun _ _ _ member => (by cases member)⟩, fun _ spawned => (by cases spawned)⟩
    · rcases rows row member with old | rfl
      · exact .inl ⟨row, old, rfl⟩
      · exact .inr ⟨apart.owned segment.id rfl, apart.theirs segment.id rfl⟩
    · exact absurd locks (by simp [away])
    · exact absurd both.2 (by simp [away])

theorem keptReleased {path name : String} (inv : Stored directory encrypt m) (here : q.Here directory m)
    (member : path ∈ q.released) (shows : fileOf directory path = some name) :
    (storing directory encrypt).Kept m (m.remove name) q q none := by
  obtain ⟨id, rfl, mine⟩ := here.gone path member name shows
  obtain ⟨d, same, files⟩ := @removeFiles m (segmentName id)
  rw [same]
  have spares : ∀ {other : Stage}, other.Here directory m → q.Apart directory other →
      ∀ own inode, other.names = some own → Owns "" m.directory own inode →
        Owns "" d own inode ∧ d.files inode = m.directory.files inode := by
    intro other theirs apart own inode names owns
    refine files own inode (fun alike => ?_) owns
    have file := theirs.file
    cases other with
    | locked work =>
      cases work with
      | writing id' temporary inode' content =>
        cases names
        obtain ⟨_, temporary', rfl⟩ := file
        exact temporaryApart alike
      | published id' content =>
        cases names
        have same := segmentNameInj alike
        subst same
        exact apart.mine _ rfl path member shows
      | _ => cases names
    | _ => cases names
  have nameless : q.names = none := by
    cases q with
    | locked work => cases work <;> first | rfl | cases member
    | _ => rfl
  refine ⟨storedFiles inv fun row stored inode owns => files _ inode (rowApart stored mine) owns,
    hereFrame here (frameFiles here.lock fun own inode names => ?_), nofun, fun other theirs apart =>
    ⟨hereFrame theirs (frameFiles theirs.lock (spares theirs apart)), apart, nofun⟩⟩
  rw [nameless] at names
  cases names

theorem prunedRows {terminalId : String} {d : Database} :
    (∀ row ∈ (prune terminalId d).2.terminalSegments, row ∈ d.terminalSegments) ∧
      ∀ path ∈ (prune terminalId d).1, ∃ row ∈ d.terminalSegments, row.storagePath = path ∧
        ∀ kept ∈ (prune terminalId d).2.terminalSegments, kept.id ≠ row.id := by
  refine ⟨fun row member => (List.mem_filter.mp member).1, fun path member => ?_⟩
  obtain ⟨row, expired, rfl⟩ := List.mem_map.mp member
  have stored := (List.mem_filter.mp (memSort.mp (scanSubset row expired))).1
  refine ⟨row, stored, rfl, fun kept keeps same => ?_⟩
  have stays := of_decide_eq_true (List.mem_filter.mp keeps).2
  exact stays (same ▸ List.mem_map_of_mem expired)

theorem executedFewer {batch : List RetentionRecord} {deleted : Nat} {released : List String} {d d' : Database}
    (executed : Executed d batch deleted released d') :
    (∀ row ∈ d'.terminalSegments, row ∈ d.terminalSegments) ∧ (∀ row ∈ d'.rawSegments, row ∈ d.rawSegments) ∧
      ∀ logs', d'.debugLogs = some logs' → ∃ logs, d.debugLogs = some logs ∧ ∀ row ∈ logs', row ∈ logs := by
  refine ⟨fun row member => ?_, fun row member => ?_, fun logs' found => ?_⟩
  · rw [executed.terminal] at member
    exact (List.mem_filter.mp member).1
  · rw [executed.raw] at member
    exact (List.mem_filter.mp member).1
  · rw [executed.debug] at found
    obtain ⟨logs, before, rfl⟩ := Option.map_eq_some_iff.mp found
    exact ⟨logs, before, fun row member => (List.mem_filter.mp member).1⟩

theorem elsewhereFewer {d d' : Database} (elsewhere : Elsewhere directory d)
    (raw : ∀ row ∈ d'.rawSegments, row ∈ d.rawSegments)
    (debug : ∀ logs', d'.debugLogs = some logs' → ∃ logs, d.debugLogs = some logs ∧ ∀ row ∈ logs', row ∈ logs) :
    Elsewhere directory d' := by
  refine ⟨fun row member => elsewhere.1 row (raw row member), fun row member => ?_⟩
  cases found : d'.debugLogs with
  | none =>
    rw [found] at member
    cases member
  | some logs' =>
    obtain ⟨logs, before, kept⟩ := debug logs' found
    rw [found] at member
    exact elsewhere.2 row (by rw [before]; exact kept row member)

theorem executedWent {batch : List RetentionRecord} {deleted : Nat} {released : List String} {d d' : Database}
    (elsewhere : Elsewhere directory d) (describes : Describes batch d)
    (executed : Executed d batch deleted released d') :
    ∀ path ∈ released, fileOf directory path = none ∨ ∃ row ∈ d.terminalSegments, row.storagePath = path ∧
      ∀ kept ∈ d'.terminalSegments, kept.id ≠ row.id := by
  intro path member
  have paths := (executed.released describes).mem_iff.mp member
  simp only [deletedPaths, List.mem_append, List.mem_map, or_assoc] at paths
  rcases paths with ⟨row, went, rfl⟩ | ⟨row, went, rfl⟩ | ⟨row, went, rfl⟩
  · obtain ⟨stored, key⟩ := List.mem_filter.mp went
    refine .inr ⟨row, stored, rfl, fun kept keeps same => ?_⟩
    rw [executed.terminal] at keeps
    have stays := of_decide_eq_true (List.mem_filter.mp keeps).2
    have swept : row.id ∈ idsOf .terminal batch := of_decide_eq_true key
    rw [← same] at swept
    exact stays swept
  · exact .inl (elsewhere.1 row (List.mem_filter.mp went).1)
  · exact .inl (elsewhere.2 row (List.mem_filter.mp went).1)

end Frames

section Valid
variable {directory : Bytes} {encrypt : Bytes → Bytes → Bytes → Option Bytes} {m m' : Storage} {q : Stage}
  {choice : Choice}

/-- The actions that change nothing and leave the task where it is. -/
def Act.Quiet : Act → Prop
  | .prepareDirectory | .ready | .fillNonce | .newTemporary | .createSnapshot | .validateCandidates _
  | .validateReleased _ | .symlinkMetadata _ => True
  | _ => False

theorem quietStays {o : Act} {answer : o.Answer} (quiet : o.Quiet)
    (applied : apply directory o choice m = some (answer, m')) : m' = m ∧ q.after o answer = q := by
  have stays : q.after o answer = q := by
    cases o <;> first
      | exact quiet.elim
      | (cases q with
          | locked work => cases work <;> rfl
          | _ => rfl)
  refine ⟨?_, stays⟩
  cases o <;> first | exact quiet.elim | (cases applied; rfl)

theorem storingValid (named : ∀ id, fileOf directory (storagePath directory id) = some (segmentName id)) :
    (storing directory encrypt).Valid fun _ _ _ => True where
  symm := fun apart => ⟨fun both => apart.lock ⟨both.2, both.1⟩,
    fun id mine theirs => apart.owned id theirs mine, apart.mine, apart.theirs⟩
  call := fun _ _ => ⟨⟨nofun, nofun, nofun, trivial, trivial⟩,
    fun _ _ => ⟨nofun ∘ And.left, nofun, nofun, fun _ _ _ member => by cases member⟩⟩
  act := by
    intro q o choice m answer m' inv here allowed _ applied
    by_cases quiet : o.Quiet
    · have stays := @quietStays directory m m' q choice o answer quiet applied
      rw [stays.1]
      change (storing directory encrypt).Kept m m q (q.after o answer) none
      rw [stays.2]
      exact keptStill inv here id (fun _ mine => mine) fun _ mine => mine
    cases o
    case setPermissions | syncAll | syncDirectory =>
      cases applied
      exact keptFalls inv here
    case newSegmentId =>
      simp only [apply] at applied
      split at applied
      · cases applied
      · rename_i fresh
        cases applied
        exact keptDraw inv fresh
    case lockState =>
      simp only [apply] at applied
      split at applied
      · cases applied
      · rename_i open'
        cases applied
        have free : m.locked = false := by simpa using open'
        obtain ⟨away, nothing⟩ := allowed
        cases q with
        | idle => exact keptLock inv free ⟨fun _ => rfl, nofun, nofun, trivial, trivial⟩ nofun rfl
        | drawn id => exact keptLock inv free ⟨fun _ => rfl, here.mine, nofun, trivial, trivial⟩ (fun _ mine => mine) rfl
        | removing released => exact keptLock inv free ⟨fun _ => rfl, nofun, nofun, trivial, trivial⟩ nofun rfl
        | locked work => cases away
    case unlockState =>
      cases applied
      cases q with
      | locked work =>
        cases work with
        | pruned released =>
          exact keptUnlock inv rfl ⟨nofun, nofun, here.gone, trivial, trivial⟩ rfl rfl fun _ member => member
        | idle | writer | writing | published | planned =>
          exact keptUnlock inv rfl ⟨nofun, nofun, nofun, trivial, trivial⟩ rfl rfl nofun
      | _ => cases allowed
    case createNew name =>
      obtain ⟨id, temporary, rfl, rfl⟩ := allowed
      simp only [apply] at applied
      split at applied
      · cases applied; exact keptStill inv here (fun locks => locks) (fun _ mine => mine) fun _ mine => mine
      · cases applied; exact keptStill inv here (fun locks => locks) (fun _ mine => mine) fun _ mine => mine
      · rename_i inode d _ created
        cases applied
        have owns := createOwns temporaryNamed created
        exact keptHolder inv rfl (fun row _ inode' theirs => ownsCreate created theirs)
          ⟨fun _ => here.lock rfl, here.mine, nofun, ⟨⟨owns.1, owns.2⟩, temporary, rfl⟩, trivial⟩
          (fun _ mine => mine) nofun
    case writeAll inode bytes =>
      obtain ⟨id, name, rfl⟩ := allowed
      obtain ⟨⟨owns, empty⟩, temporary, rfl⟩ := here.file
      have files : ∀ written : Bytes, ∀ row ∈ m.database.terminalSegments, ∀ inode',
          Owns "" m.directory (segmentName row.id) inode' →
          Owns "" (m.directory.write inode written) (segmentName row.id) inode' ∧
            (m.directory.write inode written).files inode' = m.directory.files inode' :=
        fun written row _ inode' theirs =>
          ownsAlter (Ne.symm temporaryApart) owns rfl (fun file apart => writeElsewhere apart) theirs
      simp only [apply] at applied
      split at applied <;> cases applied
      · exact keptHolder inv rfl (files _) ⟨fun _ => here.lock rfl, here.mine, nofun, trivial, trivial⟩
          (fun _ mine => mine) nofun
      · refine keptHolder inv rfl (files _) ⟨fun _ => here.lock rfl, here.mine, nofun, ⟨⟨⟨owns.apart,
          owns.named, owns.alone⟩, ?_⟩, temporary, rfl⟩, trivial⟩ (fun _ mine => mine) nofun
        change ((m.directory.write inode bytes).files inode).bytes = [] ++ bytes
        rw [writeHere, empty]
    case rename old name =>
      obtain ⟨id, inode, content, rfl, rfl⟩ := allowed
      obtain ⟨⟨owns, holds⟩, temporary, rfl⟩ := here.file
      simp only [apply] at applied
      split at applied
      · cases applied
        exact keptStill inv ⟨fun _ => here.lock rfl, here.mine, nofun, trivial, trivial⟩ (fun locks => locks)
          (fun _ mine => mine) nofun
      · cases applied
        exact keptStill inv ⟨fun _ => here.lock rfl, here.mine, nofun, trivial, trivial⟩ (fun locks => locks)
          (fun _ mine => mine) nofun
      · rename_i d _ renamed
        cases applied
        obtain ⟨inode', found, files, _, entries⟩ := Directory.renameOk renamed
        cases Option.some.inj (owns.named.symm.trans found)
        refine keptHolder inv rfl (fun row stored other theirs => ?_)
          ⟨fun _ => here.lock rfl, here.mine, nofun, ⟨inode, renamedOwns segmentNamed owns entries, ?_⟩, trivial⟩
          (fun _ mine => mine) nofun
        · have apart := rowApart stored (here.mine id rfl)
          have moved := ownsRename (Ne.symm temporaryApart) (ownsFor temporaryApart owns) entries
            (ownsFor apart theirs)
          exact ⟨ownsFor theirs.apart moved, congrFun files other⟩
        · rw [files, holds]
    case removeFile name =>
      simp only [apply] at applied
      rcases allowed with ⟨id, temporary, rfl, rfl⟩ | ⟨id, content, rfl, rfl⟩
      · split at applied <;> cases applied
        · exact keptStill inv here (fun locks => locks) (fun _ mine => mine) fun _ mine => mine
        · obtain ⟨d, same, files⟩ := @removeFiles m (temporaryName temporary)
          rw [same]
          exact keptHolder inv rfl (fun row _ inode theirs => files _ inode (Ne.symm temporaryApart) theirs)
            ⟨fun _ => here.lock rfl, here.mine, nofun, trivial, trivial⟩ (fun _ mine => mine) nofun
      · split at applied <;> cases applied
        · exact keptStill inv (fallHere here) (fun locks => locks) (fun _ mine => mine) nofun
        · obtain ⟨d, same, files⟩ := @removeFiles m (segmentName id)
          rw [same]
          exact keptHolder inv rfl
            (fun row stored inode theirs => files _ inode (rowApart stored (here.mine id rfl)) theirs)
            ⟨fun _ => here.lock rfl, here.mine, nofun, trivial, trivial⟩ (fun _ mine => mine) nofun
    case appendSegment segment =>
      obtain ⟨content, rfl, path, recorded⟩ := allowed
      simp only [apply] at applied
      split at applied
      · cases applied; exact keptStill inv here (fun locks => locks) (fun _ mine => mine) fun _ mine => mine
      · cases applied; exact keptStill inv here (fun locks => locks) (fun _ mine => mine) fun _ mine => mine
      · rename_i database _ appended
        cases applied
        exact keptAppend inv here path recorded appended
    case pruneSegments terminalId =>
      cases allowed
      simp only [apply] at applied
      split at applied <;> cases applied
      · exact keptStill inv here (fun locks => locks) nofun nofun
      · exact keptDelete inv named rfl prunedRows.1 inv.elsewhere
          (fun path member => .inr (prunedRows.2 path member)) rfl rfl (fun _ => trivial) trivial (here.lock rfl)
    case planRetention =>
      cases allowed
      simp only [apply] at applied
      split at applied <;> cases applied
      · exact keptStill inv here (fun locks => locks) nofun nofun
      · exact keptStill inv ⟨fun _ => here.lock rfl, nofun, nofun, trivial, planDescribes⟩ (fun locks => locks)
          nofun nofun
    case executeBatch plan =>
      obtain ⟨released, rfl⟩ := allowed
      have describes : Describes plan.candidates m.database := here.plan
      simp only [apply] at applied
      generalize called : executeRetentionBatch choice.fault maxRetentionBatch m.database plan = outcome at applied
      obtain ⟨result, database, plan'⟩ := outcome
      rcases batchCommits called with ⟨error, rfl, rfl, rfl⟩ | ⟨batch, report, rfl, split, _, _, executed⟩
      · cases applied
        exact keptStill inv here (fun locks => locks) nofun fun _ mine => mine
      · cases applied
        have fewer := executedFewer executed
        have parts : ∀ c, c ∈ batch ∨ c ∈ plan'.candidates → c ∈ plan.candidates := fun c member => by
          rw [split]
          exact List.mem_append.mpr member
        have now : Describes batch m.database := describesPart describes (fun c member => parts c (.inl member))
          (fun _ mine => mine) (fun _ mine => mine) fun logs found => ⟨logs, found, fun _ row => row⟩
        exact keptDelete inv named rfl fewer.1 (elsewhereFewer inv.elsewhere fewer.2.1 fewer.2.2)
          (executedWent inv.elsewhere now executed) rfl rfl (fun _ => trivial)
          (describesPart describes (fun c member => parts c (.inr member)) fewer.1 fewer.2.1 fewer.2.2)
          (here.lock rfl)
    case removeReleased path =>
      have stays : q.after (.removeReleased path) answer = q := by
        cases q with
        | locked work => cases work <;> rfl
        | _ => rfl
      change (storing directory encrypt).Kept m m' q (q.after (.removeReleased path) answer) none
      rw [stays]
      simp only [apply] at applied
      split at applied
      · cases applied; exact keptStill inv here id (fun _ mine => mine) fun _ mine => mine
      · split at applied <;> cases applied
        · exact keptStill inv here id (fun _ mine => mine) fun _ mine => mine
        · exact keptReleased inv here allowed (by assumption)
    all_goals exact absurd trivial quiet
  outside := by
    intro database m m' inv effect
    simp only [otherTables] at effect
    split at effect
    · rename_i allowed
      cases effect
      obtain ⟨free, same, elsewhere⟩ := allowed
      refine ⟨⟨fun row member => ?_, elsewhere⟩, fun q here => hereFrame here ⟨here.lock, fun _ mine => mine,
        fun row member => .inl ⟨row, same ▸ member, rfl⟩, fun _ _ _ owns => ⟨owns, rfl⟩, fun locks => ?_⟩⟩
      · have stored := inv.rows row (same ▸ member)
        exact ⟨stored.path, stored.drawn, stored.file⟩
      · exact absurd (here.lock locks) (by simp [free])
    · cases effect

end Valid
end Maestro.SegmentStore
