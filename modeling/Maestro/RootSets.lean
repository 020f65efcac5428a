import Maestro.RootSpellings

/-! Which sets of roots are accepted. Overlaps are looked for in one direction after the sort, which
puts a folder before everything under it. -/
namespace Maestro.Workspace
open Paths

/-- An absolute path of a directory that may be listed and opened. -/
structure Accessible (fs : FileSystem) (path : Bytes) : Prop where
  absolute : isAbsolute path = true
  found : ∃ canonical metadata, fs.canonicalize path = some canonical ∧ fs.metadata canonical = some metadata ∧
    metadata.isDir = true ∧ rootHasAccess metadata = true ∧ fs.readDir canonical = true ∧
    fs.openFile canonical = .ok ()

theorem accessibleAccepts {fs : FileSystem} {path : Bytes} (accessible : Accessible fs path)
    (named : normalizeAbsolute path ≠ none) : ∃ metadata canonical, Accepts fs path metadata canonical := by
  obtain ⟨canonical, metadata, resolved, shown, isDir, access, listed, opens⟩ := accessible.found
  exact ⟨metadata, canonical, accessible.absolute, named, resolved, shown, isDir, access, listed, opens⟩

/-- Neither path is the other one or lies under it. -/
def Apart (left right : PathBuf) : Prop :=
  left ≠ right ∧ PathBuf.startsWith right left = false ∧ PathBuf.startsWith left right = false

theorem apartSymm {left right : PathBuf} (apart : Apart left right) : Apart right left :=
  ⟨apart.1.symm, apart.2.2, apart.2.1⟩

theorem unrelatedApart {left right : PathBuf} (before : left ≤ right) :
    Unrelated left right ↔ Apart left right := by
  constructor
  · rintro ⟨different, outside⟩
    refine ⟨different, outside, ?_⟩
    cases under : PathBuf.startsWith left right with
    | false => rfl
    | true => exact absurd (le_antisymm before (prefixLe (startsPrefix.mp under))) different
  · exact fun apart => ⟨apart.1, apart.2.1⟩

theorem sortedApart {paths : List PathBuf} :
    (paths.mergeSort fun left right => left ≤ right).Pairwise Unrelated ↔ paths.Pairwise Apart := by
  have symmetric : ∀ {left right : PathBuf}, Apart left right → Apart right left := apartSymm
  rw [← (List.mergeSort_perm paths fun left right => left ≤ right).pairwise_iff symmetric]
  have sorted := pathsSorted paths
  constructor
  · exact fun apart => (sorted.and apart).imp fun facts => (unrelatedApart facts.1).mp facts.2
  · exact fun apart => (sorted.and apart).imp fun facts => (unrelatedApart facts.1).mpr facts.2

theorem strictlySorted {w : WorkspaceRoots} : w.canonicalRoots.Pairwise fun left right => left < right := by
  have unrelated := overlappingNone.mp w.apart
  have sorted : w.canonicalRoots.Pairwise fun left right => left ≤ right :=
    List.pairwise_map.mpr (w.sorted.imp of_decide_eq_true)
  exact (sorted.and unrelated).imp fun facts => lt_of_le_of_ne facts.1 facts.2.1

/-- Accessible directories are accepted if and only if none of their canonical paths is another or
contains another; the accepted roots are these paths in order, whatever order they were given in. -/
theorem newAccepts {fs : FileSystem} {paths : List Bytes} (given : paths ≠ [])
    (accessible : ∀ path ∈ paths, Accessible fs path) (named : ∀ path ∈ paths, normalizeAbsolute path ≠ none) :
    ∃ canonical : List PathBuf, paths.map fs.canonicalize = canonical.map some ∧
      ((∃ w, WorkspaceRoots.new fs paths = .ok w) ↔ canonical.Pairwise Apart) ∧
      ∀ w, WorkspaceRoots.new fs paths = .ok w →
        w.canonicalRoots.Perm canonical ∧ (w.canonicalRoots.Pairwise fun left right => left < right) ∧
        ∀ paths', paths'.Perm paths →
          ∃ w', WorkspaceRoots.new fs paths' = .ok w' ∧ w'.canonicalRoots = w.canonicalRoots := by
  obtain ⟨opened, same⟩ := @capabilitiesAll fs 0 paths fun path member =>
    accessibleAccepts (accessible path member) (named path member)
  have canonical := (capabilitiesGiven same).1
  have apart : overlapping (opened.mergeSort byCanonical) = none ↔
      (opened.map (·.canonical)).Pairwise Apart := by
    rw [overlappingNone, sortedCanonical, sortedApart]
  refine ⟨opened.map (·.canonical), by rw [canonical, List.map_map]; rfl, ⟨?_, ?_⟩, fun w made => ⟨?_, ?_, ?_⟩⟩
  · rintro ⟨w, made⟩
    obtain ⟨_, opened', same', sorted⟩ := newRoots made
    cases same.symm.trans same'
    exact apart.mp (sorted ▸ w.apart)
  · exact fun distinct => ⟨_, newOpened given same (apart.mpr distinct)⟩
  · obtain ⟨_, opened', same', sorted⟩ := newRoots made
    cases same.symm.trans same'
    rw [WorkspaceRoots.canonicalRoots, sorted]
    exact (List.mergeSort_perm _ _).map _
  · exact strictlySorted
  · exact fun paths' perm => newPerm made perm

theorem somesSame {left right : List PathBuf} (same : left.map some = right.map some) : left = right :=
  List.map_injective_iff.mpr (fun _ _ => Option.some.inj) same

theorem newAcceptsLinked : (∃ w, WorkspaceRoots.new linked [[0x2F, 0x78]] = .ok w) ∧
    ¬ ∃ w, WorkspaceRoots.new linked [[0x2F, 0x79], [0x2F, 0x78]] = .ok w := by
  have both : ∀ path ∈ [[0x2F, 0x79], [0x2F, 0x78]], Accessible linked path ∧ normalizeAbsolute path ≠ none := by
    intro path member
    simp only [List.mem_cons, List.not_mem_nil, or_false] at member
    rcases member with rfl | rfl
    all_goals
      exact ⟨⟨rfl, [.rootDir, .normal [0x78]], ⟨true, 0o755⟩, rfl, rfl, rfl, by decide, rfl, rfl⟩, by decide⟩
  constructor
  · have one := fun path (member : path ∈ [[0x2F, 0x78]]) => both path (List.mem_cons_of_mem _ member)
    obtain ⟨canonical, same, accepted, _⟩ := newAccepts (List.cons_ne_nil _ _)
      (fun path member => (one path member).1) fun path member => (one path member).2
    have shape : canonical = [[.rootDir, .normal [0x78]]] := somesSame same.symm
    exact accepted.mpr (shape ▸ List.pairwise_singleton _ _)
  · obtain ⟨canonical, same, accepted, _⟩ := newAccepts (List.cons_ne_nil _ _)
      (fun path member => (both path member).1) fun path member => (both path member).2
    have shape : canonical = [[.rootDir, .normal [0x78]], [.rootDir, .normal [0x78]]] := somesSame same.symm
    intro made
    have apart := accepted.mp made
    rw [shape] at apart
    exact (List.rel_of_pairwise_cons apart List.mem_cons_self).1 rfl

def rooted : FileSystem where
  canonicalize _ := some [.rootDir]
  metadata _ := some ⟨true, 0o755⟩
  readDir _ := true
  openFile _ := .ok ()
  canonical _ _ found := Option.some.inj found ▸ ⟨[], rfl, List.forall_mem_nil _⟩

/-- `/..` is the root directory, and is refused. -/
theorem newAboveRefused : (∀ path ∈ [[0x2F, 0x2E, 0x2E]], Accessible rooted path) ∧
    [[0x2F, 0x2E, 0x2E]].map rooted.canonicalize = [[Component.rootDir]].map some ∧
    [[Component.rootDir]].Pairwise Apart ∧
    (WorkspaceRoots.new rooted [[0x2F, 0x2E, 0x2E]]).isOk = false := by
  refine ⟨fun path member => ?_, rfl, List.pairwise_singleton _ _, rfl⟩
  cases List.mem_singleton.mp member
  exact ⟨rfl, [.rootDir], ⟨true, 0o755⟩, rfl, rfl, rfl, by decide, rfl, rfl⟩

end Maestro.Workspace
