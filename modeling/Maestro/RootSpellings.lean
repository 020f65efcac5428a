import Maestro.WorkspaceRoots

/-! What an authorized path authorizes in its turn: the paths behind the spelling they lie
deepest under. -/
namespace Maestro.Workspace
open Paths

theorem segmentsName {name rest : Bytes} (free : separator ∉ name) :
    segments (name ++ separator :: rest) = name :: segments rest := by
  induction name with
  | nil => simp [segments]
  | cons byte name ih =>
    have other : byte ≠ separator := fun same => free (same ▸ List.mem_cons_self)
    have later := ih fun member => free (List.mem_cons_of_mem _ member)
    rw [List.cons_append, segments, if_neg other, later]

theorem segmentsLast {name : Bytes} (free : separator ∉ name) : segments name = [name] := by
  induction name with
  | nil => rfl
  | cons byte name ih =>
    have other : byte ≠ separator := fun same => free (same ▸ List.mem_cons_self)
    have later := ih fun member => free (List.mem_cons_of_mem _ member)
    rw [segments, if_neg other, later]

theorem segmentsBelow {first : Bytes} {names : List Bytes} (free : ∀ name ∈ first :: names, separator ∉ name) :
    segments (first ++ names.flatMap fun name => separator :: name) = first :: names := by
  induction names generalizing first with
  | nil =>
    rw [List.flatMap_nil, List.append_nil]
    exact segmentsLast (free first List.mem_cons_self)
  | cons second names ih =>
    have later := @ih second fun name member => free name (List.mem_cons_of_mem _ member)
    rw [List.flatMap_cons, List.cons_append, segmentsName (free first List.mem_cons_self), later]

theorem plainComponent {name : Bytes} (plain : Plain name) : component name = some (.normal name) := by
  obtain ⟨empty, dot, dots, _⟩ := plain
  unfold component
  split
  · exact absurd rfl empty
  · exact absurd rfl dot
  · exact absurd rfl dots
  · rfl

theorem plainComponents {names : List Bytes} (plain : ∀ name ∈ names, Plain name) :
    names.filterMap component = names.map .normal := by
  induction names with
  | nil => rfl
  | cons name names ih =>
    rw [List.filterMap_cons, plainComponent (plain name List.mem_cons_self), List.map_cons,
      ih fun other member => plain other (List.mem_cons_of_mem _ member)]

theorem componentsBytes {path : PathBuf} (canonical : Canonical path) : components path.bytes = path := by
  obtain ⟨names, rfl, plain⟩ := canonical
  cases names with
  | nil => rfl
  | cons first names =>
    have bytes : PathBuf.bytes (.rootDir :: (first :: names).map .normal) =
        [] ++ (first :: names).flatMap fun name => separator :: name := by
      rw [List.map_cons, PathBuf.bytes, ← List.map_cons, List.flatMap_map]
      · rfl
      · exact nofun
    have free : ∀ name ∈ [] :: first :: names, separator ∉ name := by
      intro name member
      rcases List.mem_cons.mp member with rfl | inside
      · exact List.not_mem_nil
      · exact (plain name inside).2.2.2
    have absolute : isAbsolute ([] ++ (first :: names).flatMap fun name => separator :: name) = true := rfl
    rw [bytes, components, segmentsBelow free, if_pos absolute, List.filterMap_cons, plainComponents plain]
    rfl

theorem normalizeNames {done names : List Bytes} :
    normalizeFrom (.rootDir :: done.map .normal) (names.map .normal) =
      some (.rootDir :: (done ++ names).map .normal) := by
  induction names generalizing done with
  | nil => simp [normalizeFrom, PathBuf.isAbsolute]
  | cons name names ih =>
    have next : Component.rootDir :: done.map .normal ++ [.normal name] = .rootDir :: (done ++ [name]).map .normal := by
      rw [List.map_append, List.map_singleton, List.cons_append]
    rw [List.map_cons, normalizeFrom, pushComponent, Option.bind_some, next, ih, List.append_assoc, List.singleton_append]

theorem componentsAbsolute {path : Bytes} {rest : PathBuf} (rooted : components path = .rootDir :: rest) :
    isAbsolute path = true := by
  unfold components at rooted
  split at rooted
  · assumption
  · have named : ∀ found ∈ (segments path).filterMap component, found ≠ .rootDir := by
      intro found member
      obtain ⟨segment, _, same⟩ := List.mem_filterMap.mp member
      unfold component at same
      split at same <;> cases same <;> exact Component.noConfusion
    split at rooted
    · cases rooted
    · exact absurd rfl (named .rootDir (by rw [← List.nil_append (List.filterMap _ _), rooted]; exact List.mem_cons_self))

theorem canonicalNormalized {path : PathBuf} (canonical : Canonical path) {spelled : Bytes}
    (same : components spelled = path) : isAbsolute spelled = true ∧ normalizeAbsolute spelled = some path := by
  obtain ⟨names, rfl, _⟩ := canonical
  refine ⟨componentsAbsolute same, ?_⟩
  rw [normalizeAbsolute, same, normalizeFrom, pushComponent, Option.bind_some]
  exact @normalizeNames [] names

/-- Longer, or as long and of a root that is tried no later. -/
def Beats (pair other : RootCapability × PathBuf) : Prop :=
  other.2.length < pair.2.length ∨
    other.2.length = pair.2.length ∧ pair.1.canonical ≤ other.1.canonical

theorem beatsTrans {first second third : RootCapability × PathBuf} (one : Beats first second)
    (two : Beats second third) : Beats first third := by
  rcases one with shorter | ⟨same, before⟩ <;> rcases two with shorter' | ⟨same', before'⟩
  · exact .inl (by omega)
  · exact .inl (by omega)
  · exact .inl (by omega)
  · exact .inr ⟨by omega, le_trans before before'⟩

theorem deepestBeats {path : PathBuf} {authorized : Option (RootCapability × PathBuf)}
    {pairs : List (RootCapability × PathBuf)} {pair : RootCapability × PathBuf}
    (sorted : (authorized.toList ++ pairs).Pairwise fun left right => left.1.canonical ≤ right.1.canonical)
    (found : deepest path authorized pairs = some pair) :
    (∀ other ∈ authorized.toList, Beats pair other) ∧
      ∀ other ∈ pairs, PathBuf.startsWith path other.2 → Beats pair other := by
  induction pairs generalizing authorized with
  | nil =>
    cases found
    refine ⟨fun other member => ?_, nofun⟩
    cases List.mem_singleton.mp member
    exact .inr ⟨rfl, le_refl _⟩
  | cons next rest ih =>
    unfold deepest at found
    split at found
    · rename_i deeper
      have later := ih (sorted.sublist (List.sublist_append_right _ _)) found
      have here : Beats pair next := later.1 next List.mem_cons_self
      refine ⟨fun other member => ?_, fun other member under => ?_⟩
      · have shorter : other.2.length < next.2.length := by
          have all := deeper.2
          rw [Option.mem_toList.mp member] at all
          simpa using all
        exact beatsTrans here (.inl shorter)
      · rcases List.mem_cons.mp member with rfl | member
        · exact here
        · exact later.2 other member under
    · rename_i passed
      have fewer : (authorized.toList ++ rest).Sublist (authorized.toList ++ next :: rest) :=
        (List.Sublist.refl _).append (List.sublist_cons_self _ _)
      have later := ih (sorted.sublist fewer) found
      refine ⟨later.1, fun other member under => ?_⟩
      rcases List.mem_cons.mp member with rfl | member
      · cases authorized with
        | none => exact absurd ⟨under, rfl⟩ passed
        | some kept =>
          have long : other.2.length ≤ kept.2.length := by
            by_contra short
            exact passed ⟨under, by simpa using short⟩
          have before : kept.1.canonical ≤ other.1.canonical :=
            (List.pairwise_cons.mp sorted).1 other List.mem_cons_self
          refine beatsTrans (later.1 kept (by simp)) ?_
          rcases Nat.lt_or_eq_of_le long with shorter | same
          · exact .inl shorter
          · exact .inr ⟨same, before⟩
      · exact later.2 other member under

/-- The longest spelling the path lies under; of the roots spelled so, the first. -/
structure Deepest (roots : List RootCapability) (path : PathBuf) (root : RootCapability) (front : PathBuf) : Prop where
  member : root ∈ roots
  spelled : front = root.canonical ∨ front = root.requested
  under : PathBuf.startsWith path front = true
  longest : ∀ other ∈ roots, ∀ spelling, spelling = other.canonical ∨ spelling = other.requested →
    PathBuf.startsWith path spelling = true →
    spelling.length < front.length ∨ spelling = front ∧ root.canonical ≤ other.canonical

theorem startsPrefix {path front : PathBuf} : PathBuf.startsWith path front = true ↔ front <+: path :=
  List.isPrefixOf_iff_prefix

theorem prefixLe {path front : PathBuf} (under : front <+: path) : front ≤ path := not_lt.mp under.le

theorem frontsSame {path front front' : PathBuf} (under : PathBuf.startsWith path front = true)
    (under' : PathBuf.startsWith path front' = true) (same : front.length = front'.length) : front = front' :=
  (List.prefix_of_prefix_length_le (startsPrefix.mp under) (startsPrefix.mp under') same.le).eq_of_length same

section Authorized

variable {w : WorkspaceRoots} {path : PathBuf} {root other : RootCapability} {front front' : PathBuf}

theorem spellingsSorted (w : WorkspaceRoots) :
    (spellings w.roots).Pairwise fun left right => left.1.canonical ≤ right.1.canonical := by
  rw [spellings, List.pairwise_flatMap]
  constructor
  · intro root _
    simp
  · refine w.sorted.imp fun before left here right there => ?_
    have before := of_decide_eq_true before
    simp only [List.mem_cons, List.not_mem_nil, or_false] at here there
    rcases here with rfl | rfl <;> rcases there with rfl | rfl <;> exact before

theorem deepestChosen (found : deepest path none (spellings w.roots) = some (root, front)) :
    Deepest w.roots path root front := by
  rcases deepestFound found with same | ⟨member, under⟩
  · cases same
  · obtain ⟨inside, spelled⟩ := spellingOf.mp member
    refine ⟨inside, spelled, under, fun other there spelling spelled' under' => ?_⟩
    have beats := (deepestBeats (spellingsSorted w) found).2 (other, spelling) (spellingOf.mpr ⟨there, spelled'⟩) under'
    rcases beats with shorter | ⟨same, before⟩
    · exact .inl shorter
    · exact .inr ⟨frontsSame under' under same, before⟩

theorem rootsSame (here : root ∈ w.roots) (there : other ∈ w.roots)
    (under : PathBuf.startsWith path root.canonical = true) (under' : PathBuf.startsWith path other.canonical = true) :
    root = other := by
  have unrelated := overlappingNone.mp w.apart
  rw [List.pairwise_map] at unrelated
  have ordered := unrelated.and w.sorted
  by_contra different
  have apart : ∀ left right : RootCapability, PathBuf.startsWith path left.canonical = true →
      PathBuf.startsWith path right.canonical = true → left.canonical ≤ right.canonical →
      Unrelated left.canonical right.canonical → False := by
    intro left right under under' before unrelated
    rcases List.prefix_or_prefix_of_prefix (startsPrefix.mp under) (startsPrefix.mp under') with front | front
    · exact absurd (startsPrefix.mpr front) (Bool.eq_false_iff.mp unrelated.2)
    · exact unrelated.1 (le_antisymm before (prefixLe front))
  let Fine (left right : RootCapability) : Prop :=
    left ≠ right → PathBuf.startsWith path left.canonical = true → PathBuf.startsWith path right.canonical = true → False
  have forward : w.roots.Pairwise Fine := ordered.imp fun facts _ one two =>
    apart _ _ one two (of_decide_eq_true facts.2) facts.1
  have backward : w.roots.Pairwise (flip Fine) := ordered.imp fun facts _ one two =>
    apart _ _ two one (of_decide_eq_true facts.2) facts.1
  exact List.Pairwise.forall_of_forall_of_flip (fun _ _ same => absurd rfl same) forward backward here there different
    under under'

theorem deepestOnly {root' : RootCapability} (one : Deepest w.roots path root front)
    (two : Deepest w.roots path root' front') : root = root' ∧ front = front' := by
  have there := one.longest root' two.member front' two.spelled two.under
  have back := two.longest root one.member front one.spelled one.under
  rcases there with shorter | ⟨same, before⟩
  · rcases back with shorter' | ⟨same', _⟩
    · omega
    · rw [same'] at shorter
      omega
  · subst same
    rcases back with shorter' | ⟨_, before'⟩
    · omega
    · have canonical := le_antisymm before before'
      have itself : PathBuf.startsWith root.canonical root.canonical = true := startsPrefix.mpr List.prefix_rfl
      exact ⟨rootsSame one.member two.member itself (canonical ▸ itself), rfl⟩

theorem deepestFinds (chosen : Deepest w.roots path root front) :
    deepest path none (spellings w.roots) = some (root, front) := by
  cases found : deepest path none (spellings w.roots) with
  | none =>
    have outside := deepestNone found (root, front) (spellingOf.mpr ⟨chosen.member, chosen.spelled⟩)
    exact absurd chosen.under (Bool.eq_false_iff.mp outside)
  | some pair =>
    obtain ⟨root', front'⟩ := pair
    obtain ⟨rfl, rfl⟩ := deepestOnly chosen (deepestChosen found)
    rfl

theorem authorizeChosen {requested : Bytes} {authorized : AuthorizedPath}
    (granted : authorize w requested = .ok authorized) :
    ∃ normalized front, isAbsolute requested = true ∧ normalizeAbsolute requested = some normalized ∧
      Deepest w.roots normalized authorized.root front ∧ (∀ name ∈ authorized.components, Plain name) ∧
      normalized.drop front.length = authorized.components.map .normal ∧
      authorized.canonical = authorized.root.canonical ++ authorized.components.map .normal := by
  unfold authorize at granted
  split at granted
  · cases granted
  · rename_i absolute
    have absolute : isAbsolute requested = true := by simpa using absolute
    split at granted
    · cases granted
    · rename_i normalized normal
      split at granted
      · cases granted
      · rename_i root front found
        have chosen := deepestChosen found
        have rooted : PathBuf.isAbsolute front = true := by
          rcases chosen.spelled with rfl | rfl
          · exact canonicalAbsolute root.resolved
          · exact canonicalAbsolute root.named
        obtain ⟨names, dropped, plain⟩ := canonicalDrop (normalizedCanonical absolute normal) rooted chosen.under
        rw [PathBuf.stripPrefix, if_pos chosen.under, dropped] at granted
        dsimp only at granted
        rw [normalNamesMap, joinNames] at granted
        cases granted
        exact ⟨normalized, front, absolute, normal, chosen, plain, dropped, rfl⟩

theorem chosenAuthorizes {requested : Bytes} {names : List Bytes} (absolute : isAbsolute requested = true)
    (normal : normalizeAbsolute requested = some path) (chosen : Deepest w.roots path root front)
    (dropped : path.drop front.length = names.map .normal) :
    authorize w requested = .ok ⟨root, root.canonical ++ names.map .normal, names⟩ := by
  simp only [authorize, absolute, normal, deepestFinds chosen, PathBuf.stripPrefix, chosen.under, if_true, dropped,
    normalNamesMap, joinNames]
  rfl

/-- Some requested spelling takes the path from the root: it goes deeper than the canonical path
of the root, or is that path and is tried before it. -/
def Diverted (roots : List RootCapability) (root : RootCapability) (path : PathBuf) : Prop :=
  ∃ other ∈ roots, PathBuf.startsWith path other.requested = true ∧
    (root.canonical.length < other.requested.length ∨
      other.requested = root.canonical ∧ other.canonical < root.canonical)

theorem undivertedDeepest (here : root ∈ w.roots) (under : PathBuf.startsWith path root.canonical = true)
    (undiverted : ¬ Diverted w.roots root path) : Deepest w.roots path root root.canonical := by
  refine ⟨here, .inl rfl, under, fun other there spelling spelled under' => ?_⟩
  rcases spelled with rfl | rfl
  · cases rootsSame here there under under'
    exact .inr ⟨rfl, le_refl _⟩
  · rcases Nat.lt_trichotomy other.requested.length root.canonical.length with shorter | same | longer
    · exact .inl shorter
    · have same := frontsSame under' under same
      refine .inr ⟨same, not_lt.mp fun before => undiverted ⟨other, there, under', .inr ⟨same, before⟩⟩⟩
    · exact absurd ⟨other, there, under', .inl longer⟩ undiverted

theorem deepestUndiverted (chosen : Deepest w.roots path root root.canonical) : ¬ Diverted w.roots root path := by
  rintro ⟨other, there, under, takes⟩
  have beats := chosen.longest other there other.requested (.inr rfl) under
  rcases takes with longer | ⟨same, before⟩
  · rcases beats with shorter | ⟨same, _⟩
    · omega
    · rw [same] at longer
      omega
  · rcases beats with shorter | ⟨_, before'⟩
    · rw [same] at shorter
      omega
    · exact absurd before (not_lt.mpr before')

/-- An authorized path is authorized again, in any writing of it, as the same file of the same root,
if and only if no requested spelling takes from the root what lies behind the deepest spelling. -/
theorem authorizeAgain {requested : Bytes} {authorized : AuthorizedPath}
    (granted : authorize w requested = .ok authorized) :
    components authorized.canonical.bytes = authorized.canonical ∧
    ∀ again, components again = authorized.canonical →
      (authorize w again = .ok authorized ↔ ∀ normalized root front,
        normalizeAbsolute requested = some normalized → Deepest w.roots normalized root front →
        ¬ Diverted w.roots root (root.canonical ++ normalized.drop front.length)) := by
  obtain ⟨normalized, front, absolute, normal, chosen, plain, dropped, same⟩ := authorizeChosen granted
  obtain ⟨root, canonical, names⟩ := authorized
  dsimp only at chosen plain dropped same
  subst same
  have canonical : Canonical (root.canonical ++ names.map .normal) := by
    obtain ⟨above, shape, plain'⟩ := root.resolved
    refine ⟨above ++ names, by rw [shape, List.map_append, List.cons_append], fun name member => ?_⟩
    exact (List.mem_append.mp member).elim (plain' name) (plain name)
  refine ⟨componentsBytes canonical, fun again spelled => ?_⟩
  obtain ⟨absolute', normal'⟩ := canonicalNormalized canonical spelled
  have under : PathBuf.startsWith (root.canonical ++ names.map .normal) root.canonical = true :=
    startsPrefix.mpr (List.prefix_append _ _)
  have condition : (∀ normalized root front, normalizeAbsolute requested = some normalized →
      Deepest w.roots normalized root front →
      ¬ Diverted w.roots root (root.canonical ++ normalized.drop front.length)) ↔
      ¬ Diverted w.roots root (root.canonical ++ names.map .normal) := by
    constructor
    · intro every
      exact dropped ▸ every normalized root front normal chosen
    · intro undiverted normalized' root' front' normal' chosen'
      cases normal.symm.trans normal'
      obtain ⟨rfl, rfl⟩ := deepestOnly chosen chosen'
      exact dropped ▸ undiverted
  rw [condition]
  constructor
  · intro same
    obtain ⟨path, front', _, normal'', chosen', _, dropped', _⟩ := authorizeChosen same
    cases normal'.symm.trans normal''
    dsimp only at chosen' dropped'
    have lengths : front'.length = root.canonical.length := by
      have counted := congrArg List.length dropped'
      have short := (startsPrefix.mp chosen'.under).length_le
      simp only [List.length_drop, List.length_append, List.length_map] at counted short
      omega
    have same := frontsSame chosen'.under under lengths
    subst same
    exact deepestUndiverted chosen'
  · intro undiverted
    exact chosenAuthorizes absolute' normal' (undivertedDeepest chosen.member under undiverted) (by simp)

end Authorized

/-- `/q` is a link to `/b` and `/b/s` one to a folder under `/c`: the root given as `/b/s/../l` is
`/c/l`, and `/b/l` is a folder of the other root. -/
def crossed : FileSystem where
  canonicalize path :=
    if path = [0x2F, 0x62, 0x2F, 0x73, 0x2F, 0x2E, 0x2E, 0x2F, 0x6C] then some [.rootDir, .normal [0x63], .normal [0x6C]]
    else if path = [0x2F, 0x71] then some [.rootDir, .normal [0x62]] else none
  metadata _ := some ⟨true, 0o755⟩
  readDir _ := true
  openFile _ := .ok ()
  canonical path result found := by
    split at found
    · cases found
      exact ⟨[[0x63], [0x6C]], rfl, by unfold Plain separator; decide⟩
    · split at found <;> cases found
      exact ⟨[[0x62]], rfl, by unfold Plain separator; decide⟩

theorem crossedNames : Canonical [.rootDir, .normal [0x71]] ∧ Canonical [.rootDir, .normal [0x62]] ∧
    Canonical [.rootDir, .normal [0x62], .normal [0x6C]] ∧ Canonical [.rootDir, .normal [0x63], .normal [0x6C]] := by
  refine ⟨⟨[[0x71]], rfl, ?_⟩, ⟨[[0x62]], rfl, ?_⟩, ⟨[[0x62], [0x6C]], rfl, ?_⟩, ⟨[[0x63], [0x6C]], rfl, ?_⟩⟩
  all_goals
    unfold Plain separator
    decide

def crossedOpened : List RootCapability :=
  [⟨[.rootDir, .normal [0x71]], [.rootDir, .normal [0x62]], 0, crossedNames.1, crossedNames.2.1⟩,
    ⟨[.rootDir, .normal [0x62], .normal [0x6C]], [.rootDir, .normal [0x63], .normal [0x6C]], 1,
      crossedNames.2.2.1, crossedNames.2.2.2⟩]

theorem crossedSorted : crossedOpened.Pairwise fun left right => byCanonical left right := by decide +kernel

theorem crossedApart : overlapping crossedOpened = none := by decide +kernel

def crossedRoots : WorkspaceRoots := ⟨crossedOpened, crossedSorted, crossedApart⟩

theorem crossedMade : WorkspaceRoots.new crossed
    [[0x2F, 0x71], [0x2F, 0x62, 0x2F, 0x73, 0x2F, 0x2E, 0x2E, 0x2F, 0x6C]] = .ok crossedRoots := by
  have inOrder : crossedOpened.mergeSort byCanonical = crossedOpened := List.mergeSort_of_pairwise crossedSorted
  have apart : overlapping (crossedOpened.mergeSort byCanonical) = none := inOrder.symm ▸ crossedApart
  rw [newOpened (List.cons_ne_nil _ _) rfl apart]
  simp only [inOrder]
  rfl

/-- `/q/l/x` is `/b/l/x`, and that is `/c/l/x`. -/
theorem authorizeAgainDiverted : ∃ authorized again,
    WorkspaceRoots.new crossed
      [[0x2F, 0x71], [0x2F, 0x62, 0x2F, 0x73, 0x2F, 0x2E, 0x2E, 0x2F, 0x6C]] = .ok crossedRoots ∧
    authorize crossedRoots [0x2F, 0x71, 0x2F, 0x6C, 0x2F, 0x78] = .ok authorized ∧
    authorize crossedRoots authorized.canonical.bytes = .ok again ∧
    authorized.canonical = [.rootDir, .normal [0x62], .normal [0x6C], .normal [0x78]] ∧
    again.canonical = [.rootDir, .normal [0x63], .normal [0x6C], .normal [0x78]] :=
  ⟨⟨crossedOpened[0], _, [[0x6C], [0x78]]⟩, ⟨crossedOpened[1], _, [[0x78]]⟩, crossedMade, rfl, rfl, rfl, rfl⟩

theorem authorizeAgainCrossed : ∃ authorized,
    authorize crossedRoots [0x2F, 0x63, 0x2F, 0x6C, 0x2F, 0x78] = .ok authorized ∧
    ∀ normalized root front, normalizeAbsolute [0x2F, 0x63, 0x2F, 0x6C, 0x2F, 0x78] = some normalized →
      Deepest crossedRoots.roots normalized root front →
      ¬ Diverted crossedRoots.roots root (root.canonical ++ normalized.drop front.length) := by
  have granted : authorize crossedRoots [0x2F, 0x63, 0x2F, 0x6C, 0x2F, 0x78] =
    .ok ⟨crossedOpened[1], [.rootDir, .normal [0x63], .normal [0x6C], .normal [0x78]], [[0x78]]⟩ := rfl
  obtain ⟨rendered, every⟩ := authorizeAgain granted
  exact ⟨_, granted, (every _ rendered).mp rfl⟩

end Maestro.Workspace
