import Mathlib.Data.List.Perm.Basic
import Maestro.Paths

/-! The roots of a workspace: how they are accepted, and which paths they authorize. -/
namespace Maestro.Workspace
open Paths

inductive ProjectError where
  | emptyRoots
  | rootNotAbsolute (index : Nat)
  | rootUnavailable (index : Nat)
  | rootNotDirectory (index : Nat)
  | rootUnreadable (index : Nat)
  | duplicateRoot (first second : Nat)
  | nestedRoots (outer inner : Nat)
  | unauthorizedPath
  | unsafePath
  | io (operation kind : String)
  deriving DecidableEq, Repr

structure Metadata where
  isDir : Bool
  mode : Nat

/-- What the system answers; the canonical form of a path is absolute and has no `.` and no `..`. -/
structure FileSystem where
  canonicalize : Bytes → Option PathBuf
  metadata : PathBuf → Option Metadata
  readDir : PathBuf → Bool
  openFile : PathBuf → Except String Unit
  canonical : ∀ path result, canonicalize path = some result → Canonical result

structure RootCapability where
  requested : PathBuf
  canonical : PathBuf
  inputIndex : Nat
  named : Canonical requested
  resolved : Canonical canonical

def rootHasAccess (metadata : Metadata) : Bool := metadata.mode &&& 0o555 ≠ 0

def capability (fs : FileSystem) (index : Nat) (path : Bytes) : Except ProjectError RootCapability :=
  if absolute : isAbsolute path then
    match named : normalizeAbsolute path with
    | none => .error .unauthorizedPath
    | some requested =>
      match resolved : fs.canonicalize path with
      | none => .error (.rootUnavailable index)
      | some canonical =>
        match fs.metadata canonical with
        | none => .error (.rootUnavailable index)
        | some metadata =>
          if !metadata.isDir then .error (.rootNotDirectory index)
          else if !rootHasAccess metadata || !fs.readDir canonical then .error (.rootUnreadable index)
          else
            match fs.openFile canonical with
            | .error kind => .error (.io "opening workspace root" kind)
            | .ok () => .ok ⟨requested, canonical, index, normalizedCanonical absolute named,
                fs.canonical _ _ resolved⟩
  else .error (.rootNotAbsolute index)

def capabilities (fs : FileSystem) (index : Nat) : List Bytes → Except ProjectError (List RootCapability)
  | [] => .ok []
  | path :: rest => do
    let root ← capability fs index path
    let roots ← capabilities fs (index + 1) rest
    return root :: roots

def compareRoots (left right : RootCapability) : Option ProjectError :=
  if left.canonical = right.canonical then
    some (.duplicateRoot (min left.inputIndex right.inputIndex) (max left.inputIndex right.inputIndex))
  else if PathBuf.startsWith right.canonical left.canonical then
    some (.nestedRoots left.inputIndex right.inputIndex)
  else none

def overlapping : List RootCapability → Option ProjectError
  | [] => none
  | left :: rest => (rest.findSome? (compareRoots left)).or (overlapping rest)

def byCanonical (left right : RootCapability) : Bool := left.canonical ≤ right.canonical

structure WorkspaceRoots where
  roots : List RootCapability
  sorted : roots.Pairwise fun left right => byCanonical left right
  apart : overlapping roots = none

theorem byCanonicalTrans (a b c : RootCapability) (ab : byCanonical a b = true) (bc : byCanonical b c = true) :
    byCanonical a c = true := by
  unfold byCanonical at *
  exact decide_eq_true (le_trans (of_decide_eq_true ab) (of_decide_eq_true bc))

theorem byCanonicalTotal (a b : RootCapability) : (byCanonical a b || byCanonical b a) = true := by
  unfold byCanonical
  rcases le_total a.canonical b.canonical with le | le <;> simp [le]

namespace WorkspaceRoots

def new (fs : FileSystem) (roots : List Bytes) : Except ProjectError WorkspaceRoots :=
  if roots = [] then .error .emptyRoots
  else
    match capabilities fs 0 roots with
    | .error error => .error error
    | .ok opened =>
      match apart : overlapping (opened.mergeSort byCanonical) with
      | some error => .error error
      | none => .ok ⟨opened.mergeSort byCanonical,
          List.pairwise_mergeSort byCanonicalTrans byCanonicalTotal opened, apart⟩

def canonicalRoots (w : WorkspaceRoots) : List PathBuf := w.roots.map (·.canonical)

end WorkspaceRoots

structure AuthorizedPath where
  root : RootCapability
  canonical : PathBuf
  components : List Bytes

/-- Both spellings of every root, in the order they are tried. -/
def spellings (roots : List RootCapability) : List (RootCapability × PathBuf) :=
  roots.flatMap fun root => [(root, root.canonical), (root, root.requested)]

def deepest (normalized : PathBuf) (authorized : Option (RootCapability × PathBuf)) :
    List (RootCapability × PathBuf) → Option (RootCapability × PathBuf)
  | [] => authorized
  | (root, front) :: rest =>
    if PathBuf.startsWith normalized front ∧
        authorized.all fun found => found.2.length < front.length then
      deepest normalized (some (root, front)) rest
    else deepest normalized authorized rest

def normalNames : PathBuf → Except ProjectError (List Bytes)
  | [] => .ok []
  | .normal name :: rest => return name :: (← normalNames rest)
  | _ :: _ => .error .unsafePath

def authorize (w : WorkspaceRoots) (requested : Bytes) : Except ProjectError AuthorizedPath :=
  if !isAbsolute requested then .error .unauthorizedPath
  else
    match normalizeAbsolute requested with
    | none => .error .unauthorizedPath
    | some normalized =>
      match deepest normalized none (spellings w.roots) with
      | none => .error .unauthorizedPath
      | some (root, front) =>
        match PathBuf.stripPrefix normalized front with
        | none => .error .unauthorizedPath
        | some relative => do
          let components ← normalNames relative
          return ⟨root, PathBuf.join root.canonical relative, components⟩

theorem spellingOf {roots : List RootCapability} {root : RootCapability} {front : PathBuf} :
    (root, front) ∈ spellings roots ↔ root ∈ roots ∧ (front = root.canonical ∨ front = root.requested) := by
  simp only [spellings, List.mem_flatMap, List.mem_cons, Prod.mk.injEq, List.not_mem_nil, or_false]
  constructor
  · rintro ⟨other, member, ⟨rfl, rfl⟩ | ⟨rfl, rfl⟩⟩
    · exact ⟨member, .inl rfl⟩
    · exact ⟨member, .inr rfl⟩
  · rintro ⟨member, rfl | rfl⟩
    · exact ⟨root, member, .inl ⟨rfl, rfl⟩⟩
    · exact ⟨root, member, .inr ⟨rfl, rfl⟩⟩

theorem deepestFound {normalized : PathBuf} {authorized : Option (RootCapability × PathBuf)}
    {pairs : List (RootCapability × PathBuf)} {root : RootCapability} {front : PathBuf}
    (found : deepest normalized authorized pairs = some (root, front)) :
    authorized = some (root, front) ∨
      ((root, front) ∈ pairs ∧ PathBuf.startsWith normalized front = true) := by
  induction pairs generalizing authorized with
  | nil => exact .inl found
  | cons pair rest ih =>
    unfold deepest at found
    split at found
    · rename_i deeper
      rcases ih found with same | ⟨member, under⟩
      · cases same
        exact .inr ⟨List.mem_cons_self, deeper.1⟩
      · exact .inr ⟨List.mem_cons_of_mem _ member, under⟩
    · rcases ih found with same | ⟨member, under⟩
      · exact .inl same
      · exact .inr ⟨List.mem_cons_of_mem _ member, under⟩

theorem deepestKeeps {normalized : PathBuf} {pair : RootCapability × PathBuf}
    {pairs : List (RootCapability × PathBuf)} : deepest normalized (some pair) pairs ≠ none := by
  induction pairs generalizing pair with
  | nil => exact Option.some_ne_none _
  | cons next rest ih =>
    unfold deepest
    split
    · exact ih
    · exact ih

theorem deepestNone {normalized : PathBuf} {pairs : List (RootCapability × PathBuf)}
    (none' : deepest normalized none pairs = none) :
    ∀ pair ∈ pairs, PathBuf.startsWith normalized pair.2 = false := by
  induction pairs with
  | nil => exact nofun
  | cons next rest ih =>
    unfold deepest at none'
    split at none'
    · exact absurd none' deepestKeeps
    · rename_i other
      intro pair member
      rcases List.mem_cons.mp member with rfl | later
      · simpa using other
      · exact ih none' pair later

theorem normalNamesMap {names : List Bytes} : normalNames (names.map .normal) = .ok names := by
  induction names with
  | nil => rfl
  | cons name rest ih =>
    rw [List.map_cons, normalNames, ih]
    rfl

theorem canonicalAbsolute {path : PathBuf} (canonical : Canonical path) : PathBuf.isAbsolute path = true := by
  obtain ⟨names, rfl, _⟩ := canonical
  rfl

theorem joinNames {path : PathBuf} {names : List Bytes} :
    PathBuf.join path (names.map .normal) = path ++ names.map .normal := by
  cases names <;> rfl

theorem authorizeUnder {w : WorkspaceRoots} {path : Bytes} {normalized : PathBuf}
    (absolute : isAbsolute path = true) (normal : normalizeAbsolute path = some normalized) :
    (∃ root ∈ w.roots, PathBuf.startsWith normalized root.canonical ∨
        PathBuf.startsWith normalized root.requested) →
      ∃ root ∈ w.roots, ∃ names : List Bytes, (∀ name ∈ names, Plain name) ∧
        authorize w path = .ok ⟨root, root.canonical ++ names.map .normal, names⟩ := by
  rintro ⟨under, inside, starts⟩
  cases found : deepest normalized none (spellings w.roots) with
  | none =>
    have none' := deepestNone found
    rcases starts with starts | starts
    · rw [none' (under, under.canonical) (spellingOf.mpr ⟨inside, .inl rfl⟩)] at starts
      cases starts
    · rw [none' (under, under.requested) (spellingOf.mpr ⟨inside, .inr rfl⟩)] at starts
      cases starts
  | some pair =>
    obtain ⟨root, front⟩ := pair
    rcases deepestFound found with same | ⟨member, starts⟩
    · cases same
    · obtain ⟨member, spelled⟩ := spellingOf.mp member
      have frontAbsolute : PathBuf.isAbsolute front = true := by
        rcases spelled with rfl | rfl
        · exact canonicalAbsolute root.resolved
        · exact canonicalAbsolute root.named
      obtain ⟨names, dropped, plain⟩ :=
        canonicalDrop (normalizedCanonical absolute normal) frontAbsolute starts
      refine ⟨root, member, names, plain, ?_⟩
      simp only [authorize, absolute, normal, found, PathBuf.stripPrefix, starts, if_true, dropped,
        normalNamesMap, joinNames]
      rfl

theorem capabilityGiven {fs : FileSystem} {index : Nat} {path : Bytes} {root : RootCapability}
    (opened : capability fs index path = .ok root) :
    fs.canonicalize path = some root.canonical ∧ normalizeAbsolute path = some root.requested := by
  unfold capability at opened
  split at opened
  · split at opened
    · cases opened
    · rename_i requested named
      split at opened
      · cases opened
      · rename_i canonical resolved
        repeat' split at opened
        all_goals cases opened
        exact ⟨resolved, named⟩
  · cases opened

theorem capabilitiesCons {fs : FileSystem} {index : Nat} {path : Bytes} {rest : List Bytes}
    {roots : List RootCapability} (opened : capabilities fs index (path :: rest) = .ok roots) :
    ∃ root later, roots = root :: later ∧ capability fs index path = .ok root ∧
      capabilities fs (index + 1) rest = .ok later := by
  unfold capabilities at opened
  cases first : capability fs index path with
  | error error =>
    rw [first] at opened
    cases opened
  | ok root =>
    rw [first] at opened
    cases last : capabilities fs (index + 1) rest with
    | error error =>
      rw [last] at opened
      cases opened
    | ok later =>
      rw [last] at opened
      cases opened
      exact ⟨root, later, rfl, rfl, rfl⟩

theorem capabilitiesGiven {fs : FileSystem} {index : Nat} {paths : List Bytes} {roots : List RootCapability}
    (opened : capabilities fs index paths = .ok roots) :
    paths.map fs.canonicalize = roots.map (fun root => some root.canonical) ∧
      paths.map normalizeAbsolute = roots.map fun root => some root.requested := by
  induction paths generalizing index roots with
  | nil =>
    cases opened
    exact ⟨rfl, rfl⟩
  | cons path rest ih =>
    obtain ⟨root, later, rfl, first, last⟩ := capabilitiesCons opened
    have given := capabilityGiven first
    have others := ih last
    simp only [List.map_cons, given.1, given.2, others.1, others.2, and_self]

theorem newRoots {fs : FileSystem} {paths : List Bytes} {w : WorkspaceRoots}
    (made : WorkspaceRoots.new fs paths = .ok w) : paths ≠ [] ∧
    ∃ opened, capabilities fs 0 paths = .ok opened ∧ w.roots = opened.mergeSort byCanonical := by
  unfold WorkspaceRoots.new at made
  split at made
  · cases made
  · rename_i given
    refine ⟨given, ?_⟩
    split at made
    · cases made
    · rename_i opened same
      split at made
      · cases made
      · cases made
        exact ⟨opened, same, rfl⟩

theorem newOpened {fs : FileSystem} {paths : List Bytes} {opened : List RootCapability} (given : paths ≠ [])
    (same : capabilities fs 0 paths = .ok opened) (apart : overlapping (opened.mergeSort byCanonical) = none) :
    WorkspaceRoots.new fs paths = .ok ⟨opened.mergeSort byCanonical,
      List.pairwise_mergeSort byCanonicalTrans byCanonicalTotal opened, apart⟩ := by
  unfold WorkspaceRoots.new
  rw [if_neg given, same]
  dsimp only
  split
  · rename_i found
    rw [apart] at found
    cases found
  · rfl

theorem newGiven {fs : FileSystem} {paths : List Bytes} {w : WorkspaceRoots} {root : RootCapability}
    (made : WorkspaceRoots.new fs paths = .ok w) (member : root ∈ w.roots) :
    ∃ path ∈ paths, fs.canonicalize path = some root.canonical := by
  obtain ⟨_, opened, same, sorted⟩ := newRoots made
  rw [sorted, List.mem_mergeSort] at member
  have given : some root.canonical ∈ paths.map fs.canonicalize := by
    rw [(capabilitiesGiven same).1]
    exact List.mem_map_of_mem member
  exact List.mem_map.mp given

structure Accepts (fs : FileSystem) (path : Bytes) (metadata : Metadata) (canonical : PathBuf) : Prop where
  absolute : isAbsolute path = true
  named : normalizeAbsolute path ≠ none
  resolved : fs.canonicalize path = some canonical
  shown : fs.metadata canonical = some metadata
  isDir : metadata.isDir = true
  access : rootHasAccess metadata = true
  listed : fs.readDir canonical = true
  opens : fs.openFile canonical = .ok ()

theorem capabilityAccepts {fs : FileSystem} {index : Nat} {path : Bytes} {root : RootCapability}
    (opened : capability fs index path = .ok root) : ∃ metadata canonical, Accepts fs path metadata canonical := by
  unfold capability at opened
  split at opened
  · rename_i absolute
    split at opened
    · cases opened
    · rename_i requested named
      split at opened
      · cases opened
      · rename_i canonical resolved
        split at opened
        · cases opened
        · rename_i metadata shown
          split at opened
          · cases opened
          · rename_i isDir
            split at opened
            · cases opened
            · rename_i access
              split at opened
              · cases opened
              · rename_i opens
                simp only [Bool.or_eq_true, Bool.not_eq_true', not_or, Bool.not_eq_false] at isDir access
                exact ⟨metadata, canonical, absolute, by rw [named]; exact Option.some_ne_none _, resolved, shown,
                  isDir, access.1, access.2, opens⟩
  · cases opened

theorem acceptsCapability {fs : FileSystem} {path : Bytes} {metadata : Metadata} {canonical : PathBuf}
    (accepts : Accepts fs path metadata canonical) (index : Nat) :
    ∃ root, capability fs index path = .ok root := by
  unfold capability
  rw [dif_pos accepts.absolute]
  split
  · rename_i none'
    exact absurd none' accepts.named
  · split
    · rename_i none'
      cases accepts.resolved.symm.trans none'
    · rename_i other resolved
      cases accepts.resolved.symm.trans resolved
      rw [accepts.shown]
      dsimp only
      rw [accepts.isDir, accepts.access, accepts.listed, accepts.opens]
      exact ⟨_, rfl⟩

theorem capabilitiesEach {fs : FileSystem} {index : Nat} {paths : List Bytes} {roots : List RootCapability}
    (opened : capabilities fs index paths = .ok roots) :
    ∀ path ∈ paths, ∃ metadata canonical, Accepts fs path metadata canonical := by
  induction paths generalizing index roots with
  | nil => exact nofun
  | cons path rest ih =>
    obtain ⟨root, later, rfl, first, last⟩ := capabilitiesCons opened
    intro other member
    rcases List.mem_cons.mp member with rfl | member
    · exact capabilityAccepts first
    · exact ih last other member

theorem capabilitiesAll {fs : FileSystem} {index : Nat} {paths : List Bytes}
    (each : ∀ path ∈ paths, ∃ metadata canonical, Accepts fs path metadata canonical) :
    ∃ roots, capabilities fs index paths = .ok roots := by
  induction paths generalizing index with
  | nil => exact ⟨[], rfl⟩
  | cons path rest ih =>
    obtain ⟨metadata, canonical, accepts⟩ := each path List.mem_cons_self
    obtain ⟨root, first⟩ := acceptsCapability accepts index
    obtain ⟨later, last⟩ := @ih (index + 1) fun other member => each other (List.mem_cons_of_mem _ member)
    exact ⟨root :: later, by rw [capabilities, first, last]; rfl⟩

/-- Neither is the other, and the right one is not under the left one. -/
def Unrelated (left right : PathBuf) : Prop := left ≠ right ∧ PathBuf.startsWith right left = false

theorem compareNone {left right : RootCapability} :
    compareRoots left right = none ↔ Unrelated left.canonical right.canonical := by
  unfold compareRoots Unrelated
  by_cases same : left.canonical = right.canonical
  · simp [same]
  · by_cases under : PathBuf.startsWith right.canonical left.canonical <;> simp [same, under]

theorem overlappingNone {roots : List RootCapability} :
    overlapping roots = none ↔ (roots.map (·.canonical)).Pairwise Unrelated := by
  induction roots with
  | nil => simp [overlapping]
  | cons left rest ih =>
    rw [overlapping, Option.or_eq_none_iff, ih, List.map_cons, List.pairwise_cons, List.findSome?_eq_none_iff]
    simp only [compareNone, List.mem_map, forall_exists_index, and_imp, forall_apply_eq_imp_iff₂]

theorem sortedCanonical {roots : List RootCapability} :
    (roots.mergeSort byCanonical).map (·.canonical) =
      (roots.map (·.canonical)).mergeSort fun left right => left ≤ right :=
  List.map_mergeSort fun _ _ _ _ => rfl

theorem pathsSorted (paths : List PathBuf) :
    (paths.mergeSort fun left right => left ≤ right).Pairwise fun left right => left ≤ right := by
  have trans : ∀ a b c : PathBuf, decide (a ≤ b) = true → decide (b ≤ c) = true → decide (a ≤ c) = true :=
    fun a b c ab bc => decide_eq_true (le_trans (of_decide_eq_true ab) (of_decide_eq_true bc))
  have total : ∀ a b : PathBuf, (decide (a ≤ b) || decide (b ≤ a)) = true := fun a b => by
    rcases le_total a b with le | le <;> simp [le]
  exact (List.pairwise_mergeSort trans total paths).imp of_decide_eq_true

theorem sortPerm {paths paths' : List PathBuf} (perm : paths'.Perm paths) :
    paths'.mergeSort (fun left right => left ≤ right) = paths.mergeSort fun left right => left ≤ right :=
  List.Perm.eq_of_pairwise (fun _ _ _ _ => le_antisymm) (pathsSorted _) (pathsSorted _)
    ((List.mergeSort_perm _ _).trans (perm.trans (List.mergeSort_perm _ _).symm))

theorem newCanonical {fs : FileSystem} {paths : List Bytes} {w : WorkspaceRoots}
    (made : WorkspaceRoots.new fs paths = .ok w) : ∃ canonical : List PathBuf,
      paths.map fs.canonicalize = canonical.map some ∧
      w.canonicalRoots = canonical.mergeSort fun left right => left ≤ right := by
  obtain ⟨_, opened, same, sorted⟩ := newRoots made
  refine ⟨opened.map (·.canonical), ?_, by rw [WorkspaceRoots.canonicalRoots, sorted, sortedCanonical]⟩
  rw [(capabilitiesGiven same).1, List.map_map]
  rfl

theorem newPerm {fs : FileSystem} {paths paths' : List Bytes} {w : WorkspaceRoots}
    (made : WorkspaceRoots.new fs paths = .ok w) (perm : paths'.Perm paths) :
    ∃ w', WorkspaceRoots.new fs paths' = .ok w' ∧ w'.canonicalRoots = w.canonicalRoots := by
  obtain ⟨given, opened, same, sorted⟩ := newRoots made
  obtain ⟨opened', same'⟩ := @capabilitiesAll fs 0 paths' fun path member =>
    capabilitiesEach same path (perm.mem_iff.mp member)
  have canonical : (opened'.map (·.canonical)).Perm (opened.map (·.canonical)) := by
    have somes := perm.map fs.canonicalize
    rw [(capabilitiesGiven same).1, (capabilitiesGiven same').1] at somes
    refine (List.map_perm_map_iff fun _ _ => Option.some.inj).mp ?_
    rwa [List.map_map, List.map_map]
  have roots : (opened'.mergeSort byCanonical).map (·.canonical) = w.canonicalRoots := by
    rw [WorkspaceRoots.canonicalRoots, sorted, sortedCanonical, sortedCanonical, sortPerm canonical]
  have apart : overlapping (opened'.mergeSort byCanonical) = none :=
    overlappingNone.mpr (roots ▸ overlappingNone.mp w.apart)
  have given' : paths' ≠ [] := fun none' => given (List.perm_nil.mp (none' ▸ perm.symm))
  exact ⟨_, newOpened given' same' apart, roots⟩

/-- An authorized path is a root with names behind it, and the paths authorized are those
that come to lie under a root, in either spelling. -/
theorem authorizeContained {fs : FileSystem} {paths : List Bytes} {w : WorkspaceRoots}
    (made : WorkspaceRoots.new fs paths = .ok w) {path : Bytes} (absolute : isAbsolute path = true) :
    (∀ authorized, authorize w path = .ok authorized →
      authorized.root ∈ w.roots ∧ (∃ given ∈ paths, fs.canonicalize given = some authorized.root.canonical) ∧
      (∀ name ∈ authorized.components, Plain name) ∧
      authorized.canonical = authorized.root.canonical ++ authorized.components.map .normal) ∧
    ((∃ authorized, authorize w path = .ok authorized) ↔
      ∃ normalized, normalizeAbsolute path = some normalized ∧ ∃ root ∈ w.roots,
        PathBuf.startsWith normalized root.canonical ∨ PathBuf.startsWith normalized root.requested) := by
  have refused : ∀ authorized, authorize w path = .ok authorized →
      ∃ normalized, normalizeAbsolute path = some normalized ∧ ∃ root ∈ w.roots,
        PathBuf.startsWith normalized root.canonical ∨ PathBuf.startsWith normalized root.requested := by
    intro authorized granted
    simp only [authorize, absolute] at granted
    cases normal : normalizeAbsolute path with
    | none => simp [normal] at granted
    | some normalized =>
      refine ⟨normalized, rfl, ?_⟩
      cases found : deepest normalized none (spellings w.roots) with
      | none => simp [normal, found] at granted
      | some pair =>
        rcases deepestFound found with same | ⟨member, starts⟩
        · cases same
        · obtain ⟨member, spelled⟩ := spellingOf.mp member
          refine ⟨pair.1, member, ?_⟩
          rcases spelled with same | same
          · exact .inl (same ▸ starts)
          · exact .inr (same ▸ starts)
  refine ⟨fun authorized granted => ?_, fun granted => refused _ granted.choose_spec, ?_⟩
  · obtain ⟨normalized, normal, under⟩ := refused authorized granted
    obtain ⟨root, member, names, plain, same⟩ := authorizeUnder absolute normal under
    cases granted.symm.trans same
    exact ⟨member, newGiven made member, plain, rfl⟩
  · rintro ⟨normalized, normal, under⟩
    obtain ⟨root, _, names, _, same⟩ := authorizeUnder absolute normal under
    exact ⟨_, same⟩

/-- One directory, which `/x` and `/y` are spellings of. -/
def linked : FileSystem where
  canonicalize path := if path = [0x2F, 0x78] ∨ path = [0x2F, 0x79] then some [.rootDir, .normal [0x78]] else none
  metadata _ := some ⟨true, 0o755⟩
  readDir _ := true
  openFile _ := .ok ()
  canonical path result found := by
    split at found <;> cases found
    exact ⟨[[0x78]], rfl, by unfold Plain separator; decide⟩

theorem linkedAuthorizes : (match WorkspaceRoots.new linked [[0x2F, 0x79]] with
    | .error _ => false
    | .ok w => (authorize w [0x2F, 0x79, 0x2F, 0x2E, 0x2E, 0x2F, 0x78, 0x2F, 0x61]).toBool) = true := by
  decide +kernel

theorem authorizeContainedLinked : ∃ (w : WorkspaceRoots) (authorized : AuthorizedPath),
    authorize w [0x2F, 0x79, 0x2F, 0x2E, 0x2E, 0x2F, 0x78, 0x2F, 0x61] = .ok authorized ∧
      authorized.root ∈ w.roots ∧
      authorized.canonical = authorized.root.canonical ++ authorized.components.map .normal := by
  have runs := linkedAuthorizes
  split at runs
  · cases runs
  · rename_i w made
    cases granted : authorize w [0x2F, 0x79, 0x2F, 0x2E, 0x2E, 0x2F, 0x78, 0x2F, 0x61] with
    | error error =>
      rw [granted] at runs
      cases runs
    | ok authorized =>
      have contained := (authorizeContained made (by decide)).1 authorized granted
      exact ⟨w, authorized, granted, contained.1, contained.2.2.2⟩

end Maestro.Workspace
