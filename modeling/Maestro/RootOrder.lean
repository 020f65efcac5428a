import Maestro.Registration

/-! The order of roots at the daemon, by components, and at the desktop host, by bytes, and the
host's check of a registration. -/
namespace Maestro.RootOrder
open Paths ProjectTables Redaction Registration Workspace

inductive DesktopError where
  | daemon (error : MaestroError)
  | invalidPath (message : String)
  | unexpectedResponse

def projectRegistrationKey (canonicalRoots : List String) : List String :=
  canonicalRoots.mergeSort fun left right => bytes left ≤ bytes right

def validateProjectPath (fs : FileSystem) (path : String) : Except String String :=
  match fs.canonicalize (bytes path) with
  | none => .error "The selected project folder could not be resolved."
  | some canonical =>
    if (fs.metadata canonical).any (·.isDir) then
      match ofBytes (PathBuf.bytes canonical) with
      | none => .error "The selected project path is not valid UTF-8 on this platform."
      | some text => .ok text
    else .error "The selected project path is not a folder."

def validateRoots (fs : FileSystem) : List String → Except DesktopError (List String)
  | [] => .ok []
  | root :: rest =>
    match validateProjectPath fs root with
    | .error message => .error (.invalidPath message)
    | .ok validated =>
      if validated ≠ root then
        .error (.invalidPath "A saved project root no longer resolves to its recorded location.")
      else do
        let roots ← validateRoots fs rest
        return validated :: roots

def validatePersistedRoots (fs : FileSystem) (roots : List String) : Except DesktopError (List String) :=
  if roots = [] then .error (.invalidPath "The saved project does not contain a workspace root.")
  else validateRoots fs roots

/-- The daemon's answer, and what the window is granted: the stored project with its roots. -/
def registerProjectWithPaths (fs : FileSystem) (ids : ProjectIds)
    (answer : Except MaestroError (ProjectRegistered ids)) (canonicalRoots : List String) :
    Except DesktopError (ids.Id × String × List String) :=
  match answer with
  | .error error => .error (.daemon error)
  | .ok project =>
    match validatePersistedRoots fs project.canonicalRoots with
    | .error error => .error error
    | .ok roots =>
      if roots ≠ projectRegistrationKey canonicalRoots then .error .unexpectedResponse
      else .ok (project.projectId, project.displayName, roots)

def below (names : List Bytes) : Bytes := names.flatMap fun name => separator :: name

/-- A folder with something in it, and beside the folder a name that begins with the folder's
and goes on with a byte below the separator. -/
inductive Crosses : List Bytes → List Bytes → Prop where
  | here {name rest inner : Bytes} {byte : UInt8} {more others : List Bytes} (low : byte < separator) :
      Crosses (name :: inner :: more) ((name ++ byte :: rest) :: others)
  | inside {name : Bytes} {names others : List Bytes} (crosses : Crosses names others) :
      Crosses (name :: names) (name :: others)

def Crossing (left right : PathBuf) : Prop :=
  ∃ names others : List Bytes, left = .rootDir :: names.map .normal ∧ right = .rootDir :: others.map .normal ∧
    Crosses names others

theorem normalLess {a b : Bytes} : Component.normal a < Component.normal b ↔ a < b := by
  change (3 :: a : Bytes) < 3 :: b ↔ _
  simp

theorem namesLess {names others : List Bytes} :
    names.map Component.normal < others.map Component.normal ↔ names < others := by
  induction names generalizing others with
  | nil => cases others <;> simp
  | cons name names ih =>
    cases others with
    | nil => simp
    | cons other others =>
      simp only [List.map_cons, List.cons_lt_cons_iff, ih, normalLess, Component.normal.injEq]

theorem sameFront {front a b : Bytes} : front ++ a < front ++ b ↔ a < b := by
  induction front with
  | nil => rfl
  | cons byte front ih => simp [ih]

theorem nameOrder {a b x y : Bytes} (free : separator ∉ b) (slash : ∀ byte ∈ x.head?, byte = separator)
    (less : a < b) :
    b ++ y < a ++ x ↔ ∃ byte rest, b = a ++ byte :: rest ∧ byte < separator ∧ x ≠ [] := by
  induction a generalizing b with
  | nil =>
    cases b with
    | nil => simp at less
    | cons byte rest =>
      have apart : byte ≠ separator := fun same => free (same ▸ List.mem_cons_self)
      cases x with
      | nil => simp
      | cons first x =>
        have same : first = separator := slash first rfl
        subst same
        simp only [List.nil_append, List.cons_append, List.cons_lt_cons_iff]
        constructor
        · rintro (low | ⟨same, _⟩)
          · exact ⟨byte, rest, rfl, low, List.cons_ne_nil _ _⟩
          · exact absurd same apart
        · rintro ⟨_, _, same, low, _⟩
          cases same
          exact .inl low
  | cons u a ih =>
    cases b with
    | nil => simp at less
    | cons v b =>
      have free' : separator ∉ b := fun member => free (List.mem_cons_of_mem _ member)
      simp only [List.cons_append, List.cons_lt_cons_iff] at less ⊢
      rcases less with less | ⟨rfl, less⟩
      · constructor
        · rintro (more | ⟨rfl, _⟩)
          · exact absurd (lt_trans less more) (lt_irrefl _)
          · exact absurd less (lt_irrefl _)
        · rintro ⟨_, _, same, _, _⟩
          cases same
          exact absurd less (lt_irrefl _)
      · simp only [lt_irrefl, false_or, true_and, List.cons.injEq]
        exact ih free' less

theorem belowHead {names : List Bytes} : ∀ byte ∈ (below names).head?, byte = separator := by
  cases names with
  | nil => exact nofun
  | cons name names =>
    intro byte member
    exact (Option.some.inj member).symm

theorem crossesSame {name : Bytes} {names others : List Bytes} :
    Crosses (name :: names) (name :: others) ↔ Crosses names others := by
  refine ⟨fun crosses => ?_, .inside⟩
  generalize same : name :: names = left at crosses
  generalize same' : name :: others = right at crosses
  cases crosses with
  | here low =>
    have lengths := congrArg List.length ((List.cons.inj same').1.symm.trans (List.cons.inj same).1)
    simp at lengths
  | inside crosses =>
    cases same
    cases same'
    exact crosses

theorem namesOrder {names others : List Bytes} (plain : ∀ name ∈ others, Plain name)
    (apart : ¬ names <+: others) (less : names < others) :
    below others < below names ↔ Crosses names others := by
  induction names generalizing others with
  | nil => exact absurd List.nil_prefix apart
  | cons name names ih =>
    cases others with
    | nil => simp at less
    | cons other others =>
      have first : below (other :: others) < below (name :: names) ↔
          other ++ below others < name ++ below names := @sameFront [separator] _ _
      rw [first]
      rcases List.cons_lt_cons_iff.mp less with smaller | ⟨rfl, later⟩
      · rw [nameOrder (plain other List.mem_cons_self).2.2.2 belowHead smaller]
        constructor
        · rintro ⟨byte, rest, rfl, low, more⟩
          cases names with
          | nil => exact absurd rfl more
          | cons inner names => exact .here low
        · intro crosses
          cases crosses with
          | here low => exact ⟨_, _, rfl, low, List.cons_ne_nil _ _⟩
          | inside => exact absurd smaller (lt_irrefl _)
      · rw [sameFront, crossesSame]
        refine ih (fun inner member => plain inner (List.mem_cons_of_mem _ member)) (fun front => apart ?_) later
        exact (List.prefix_cons_inj name).mpr front

theorem crossesLess {names others : List Bytes} (crosses : Crosses names others) : names < others := by
  induction crosses with
  | @here name rest inner byte more others low =>
    refine List.cons_lt_cons_iff.mpr (.inl ?_)
    have longer : name ++ ([] : Bytes) < name ++ byte :: rest := sameFront.mpr (List.nil_lt_cons _ _)
    rwa [List.append_nil] at longer
  | inside _ ih => exact List.cons_lt_cons_iff.mpr (.inr ⟨rfl, ih⟩)

theorem canonicalBytes {names : List Bytes} (some' : names ≠ []) :
    PathBuf.bytes (.rootDir :: names.map .normal) = below names := by
  cases names with
  | nil => exact absurd rfl some'
  | cons name names =>
    rw [List.map_cons, PathBuf.bytes, ← List.map_cons, List.flatMap_map]
    · rfl
    · exact nofun

theorem pathOrder {left right : PathBuf} (canonical : Canonical left) (canonical' : Canonical right)
    (apart : PathBuf.startsWith right left = false) (less : left < right) :
    PathBuf.bytes right < PathBuf.bytes left ↔ Crossing left right := by
  obtain ⟨names, rfl, _⟩ := canonical
  obtain ⟨others, rfl, plain⟩ := canonical'
  have less' : names < others := by
    rcases List.cons_lt_cons_iff.mp less with less | ⟨_, less⟩
    · exact absurd less (lt_irrefl _)
    · exact namesLess.mp less
  have apart' : ¬ names <+: others := fun front => by
    have starts : PathBuf.startsWith (Component.rootDir :: others.map .normal) (.rootDir :: names.map .normal) = true :=
      List.isPrefixOf_iff_prefix.mpr ((List.prefix_cons_inj _).mpr (front.map _))
    rw [starts] at apart
    cases apart
  have some' : names ≠ [] := fun none' => apart' (none' ▸ List.nil_prefix)
  have some'' : others ≠ [] := fun none' => by
    rw [none'] at less'
    simp at less'
  rw [canonicalBytes some', canonicalBytes some'', namesOrder plain apart' less']
  constructor
  · exact fun crosses => ⟨names, others, rfl, rfl, crosses⟩
  · rintro ⟨names', others', same, same', crosses⟩
    have injective : Function.Injective (List.map Component.normal) :=
      List.map_injective_iff.mpr fun _ _ => Component.normal.inj
    rwa [injective (List.cons.inj same).2, injective (List.cons.inj same').2]

theorem crossingLess {left right : PathBuf} (crossing : Crossing left right) : left < right := by
  obtain ⟨names, others, rfl, rfl, crosses⟩ := crossing
  exact List.cons_lt_cons_iff.mpr (.inr ⟨rfl, namesLess.mpr (crossesLess crosses)⟩)

theorem sortedOrder {paths : List PathBuf} (sorted : paths.Pairwise fun left right => left ≤ right)
    (apart : paths.Pairwise Unrelated) (canonical : ∀ path ∈ paths, Canonical path) :
    (paths.Pairwise fun left right => PathBuf.bytes left ≤ PathBuf.bytes right) ↔
      ∀ left ∈ paths, ∀ right ∈ paths, ¬ Crossing left right := by
  constructor
  · intro ordered
    let Fine (left right : PathBuf) : Prop :=
      left < right → PathBuf.startsWith right left = false ∧ PathBuf.bytes left ≤ PathBuf.bytes right
    have forward : paths.Pairwise Fine :=
      ((apart.and ordered).imp fun facts _ => ⟨facts.1.2, facts.2⟩)
    have backward : paths.Pairwise (flip Fine) :=
      sorted.imp fun le less => absurd (lt_of_lt_of_le less le) (lt_irrefl _)
    have itself : ∀ path ∈ paths, Fine path path := fun _ _ less => absurd less (lt_irrefl _)
    intro left here right there crossing
    have less := crossingLess crossing
    obtain ⟨unrelated, le⟩ := List.Pairwise.forall_of_forall_of_flip itself forward backward here there less
    have turned := (pathOrder (canonical left here) (canonical right there) unrelated less).mpr crossing
    exact absurd (lt_of_lt_of_le turned le) (lt_irrefl _)
  · intro free
    have facts := sorted.and apart
    refine List.Pairwise.imp_of_mem (fun here there both => ?_) facts
    obtain ⟨le, different, unrelated⟩ := both
    have less := lt_of_le_of_ne le different
    refine not_lt.mp fun turned => free _ here _ there ?_
    exact (pathOrder (canonical _ here) (canonical _ there) unrelated less).mp turned

theorem bytesInjective : Function.Injective Redaction.bytes := by
  intro left right same
  have decoded := congrArg ofBytes same
  rw [ofBytesText, ofBytesText] at decoded
  exact Option.some.inj decoded

theorem keySorted (roots : List String) :
    (projectRegistrationKey roots).Pairwise fun left right => bytes left ≤ bytes right := by
  have trans : ∀ a b c : String, decide (bytes a ≤ bytes b) = true → decide (bytes b ≤ bytes c) = true →
      decide (bytes a ≤ bytes c) = true :=
    fun a b c ab bc => decide_eq_true (le_trans (of_decide_eq_true ab) (of_decide_eq_true bc))
  have total : ∀ a b : String, (decide (bytes a ≤ bytes b) || decide (bytes b ≤ bytes a)) = true := fun a b => by
    rcases le_total (bytes a) (bytes b) with le | le <;> simp [le]
  exact (List.pairwise_mergeSort trans total roots).imp of_decide_eq_true

theorem keyPerm (roots : List String) : (projectRegistrationKey roots).Perm roots := List.mergeSort_perm _ _

theorem keyUnique {roots sorted : List String} (perm : sorted.Perm roots) :
    sorted = projectRegistrationKey roots ↔ sorted.Pairwise fun left right => bytes left ≤ bytes right := by
  constructor
  · rintro rfl
    exact keySorted roots
  · intro ordered
    exact List.Perm.eq_of_pairwise (fun _ _ _ _ le ge => bytesInjective (le_antisymm le ge)) ordered (keySorted roots)
      (perm.trans (keyPerm roots).symm)

/-- Roots that are the text of their own canonical paths. -/
structure CanonicalRoots (fs : FileSystem) (roots : List String) (paths : List PathBuf) : Prop where
  resolved : roots.map (fun root => fs.canonicalize (bytes root)) = paths.map some
  spelled : roots.map bytes = paths.map PathBuf.bytes

section Roots
variable {fs : FileSystem} {roots : List String} {paths : List PathBuf}

theorem rootsSpelled (given : CanonicalRoots fs roots paths) : paths.map pathString = roots := by
  have texts : (roots.map bytes).map SegmentStore.toStringLossy = roots := by
    rw [List.map_map]
    refine List.map_id'' (fun root => ?_) roots
    unfold SegmentStore.toStringLossy
    rw [Function.comp_apply, ofBytesText]
  rw [← texts, given.spelled, List.map_map]
  rfl

theorem rootOf (given : CanonicalRoots fs roots paths) {root : String} (member : root ∈ roots) :
    ∃ path ∈ paths, fs.canonicalize (bytes root) = some path ∧ PathBuf.bytes path = bytes root := by
  obtain ⟨index, bound, rfl⟩ := List.getElem_of_mem member
  have lengths : roots.length = paths.length := by
    have same := congrArg List.length given.spelled
    rwa [List.length_map, List.length_map] at same
  have resolved := congrArg (fun list => list[index]?) given.resolved
  have spelled := congrArg (fun list => list[index]?) given.spelled
  rw [lengths] at bound
  simp only [List.getElem?_map, List.getElem?_eq_getElem bound, List.getElem?_eq_getElem (lengths ▸ bound),
    Option.map_some, Option.some.injEq] at resolved spelled
  exact ⟨paths[index], List.getElem_mem bound, resolved, spelled.symm⟩

theorem pathBytes (given : CanonicalRoots fs roots paths) {path : PathBuf} (member : path ∈ paths) :
    bytes (pathString path) = PathBuf.bytes path := by
  have inside : PathBuf.bytes path ∈ roots.map bytes := given.spelled ▸ List.mem_map_of_mem member
  obtain ⟨root, _, same⟩ := List.mem_map.mp inside
  rw [pathString, ← same]
  unfold SegmentStore.toStringLossy
  rw [ofBytesText]

theorem pathCanonical (given : CanonicalRoots fs roots paths) {path : PathBuf} (member : path ∈ paths) :
    Canonical path := by
  have inside : some path ∈ roots.map fun root => fs.canonicalize (bytes root) :=
    given.resolved ▸ List.mem_map_of_mem member
  obtain ⟨root, _, resolved⟩ := List.mem_map.mp inside
  exact fs.canonical _ _ resolved

theorem workspaceRoots (given : CanonicalRoots fs roots paths) {w : WorkspaceRoots}
    (made : WorkspaceRoots.new fs (roots.map bytes) = .ok w) :
    w.canonicalRoots = paths.mergeSort fun left right => left ≤ right := by
  obtain ⟨canonical, same, sorted⟩ := newCanonical made
  rw [List.map_map] at same
  have equal : canonical = paths :=
    List.map_injective_iff.mpr (Option.some_injective _) (same.symm.trans given.resolved)
  rw [sorted, equal]

theorem rootsAgree (given : CanonicalRoots fs roots paths) {w : WorkspaceRoots}
    (made : WorkspaceRoots.new fs (roots.map bytes) = .ok w) :
    w.canonicalRoots.map pathString = projectRegistrationKey roots ↔
      ∀ left ∈ paths, ∀ right ∈ paths, ¬ Crossing left right := by
  have shape := workspaceRoots given made
  have members : ∀ path, path ∈ w.canonicalRoots ↔ path ∈ paths := fun path => by
    rw [shape, List.mem_mergeSort]
  have perm : (w.canonicalRoots.map pathString).Perm roots := by
    rw [← rootsSpelled given, shape]
    exact (List.mergeSort_perm _ _).map _
  have sorted : w.canonicalRoots.Pairwise fun left right => left ≤ right := shape ▸ pathsSorted paths
  have apart : w.canonicalRoots.Pairwise Unrelated := overlappingNone.mp w.apart
  have canonical : ∀ path ∈ w.canonicalRoots, Canonical path := fun path member =>
    pathCanonical given ((members path).mp member)
  have texts : (w.canonicalRoots.Pairwise fun left right => bytes (pathString left) ≤ bytes (pathString right)) ↔
      w.canonicalRoots.Pairwise fun left right => PathBuf.bytes left ≤ PathBuf.bytes right := by
    refine List.Pairwise.iff_of_mem fun here there => ?_
    rw [pathBytes given ((members _).mp here), pathBytes given ((members _).mp there)]
  rw [keyUnique perm, List.pairwise_map, texts, sortedOrder sorted apart canonical]
  simp only [members]

theorem rootValidated (given : CanonicalRoots fs roots paths) {w : WorkspaceRoots}
    (made : WorkspaceRoots.new fs (roots.map bytes) = .ok w) {root : String} (member : root ∈ roots) :
    validateProjectPath fs root = .ok root := by
  obtain ⟨path, _, resolved, spelled⟩ := rootOf given member
  obtain ⟨_, opened, same, _⟩ := newRoots made
  obtain ⟨metadata, canonical, accepts⟩ := capabilitiesEach same (bytes root) (List.mem_map_of_mem member)
  cases resolved.symm.trans accepts.resolved
  unfold validateProjectPath
  rw [resolved]
  dsimp only
  rw [accepts.shown, Option.any_some, if_pos accepts.isDir, spelled, ofBytesText]

theorem rootsValidated {list : List String} (each : ∀ root ∈ list, validateProjectPath fs root = .ok root) :
    validateRoots fs list = .ok list := by
  induction list with
  | nil => rfl
  | cons root rest ih =>
    unfold validateRoots
    rw [each root List.mem_cons_self]
    dsimp only
    rw [if_neg (fun different => different rfl), ih fun other member => each other (List.mem_cons_of_mem _ member)]
    rfl

end Roots

/-- The daemon returns the host's key, the host grants the project, and no answer is unexpected. -/
structure Agrees (fs : FileSystem) (ids : ProjectIds) (fails : Bool) (now : Nat) (request : ProjectRegister ids)
    (d : Daemon ids) : Prop where
  key : ∀ registered d', register fs ids fails now request d = (.ok registered, d') →
    registered.canonicalRoots = projectRegistrationKey request.roots
  granted : ∀ registered d', register fs ids fails now request d = (.ok registered, d') →
    registerProjectWithPaths fs ids (.ok registered) request.roots =
      .ok (registered.projectId, registered.displayName, registered.canonicalRoots)
  expected : registerProjectWithPaths fs ids (register fs ids fails now request d).1 request.roots ≠
    .error .unexpectedResponse

section Agreement
variable {fs : FileSystem} {ids : ProjectIds} {fails : Bool} {now : Nat} {request : ProjectRegister ids}
  {d : Daemon ids}

theorem persistedValidated {paths : List PathBuf} (given : CanonicalRoots fs request.roots paths)
    {registered : ProjectRegistered ids} {d' : Daemon ids}
    (done : register fs ids fails now request d = (.ok registered, d')) :
    validatePersistedRoots fs registered.canonicalRoots = .ok registered.canonicalRoots := by
  obtain ⟨w, _, registers⟩ := registerOk done
  have some' : registered.canonicalRoots ≠ [] := registers.roots ▸ rootsGiven registers.made
  unfold validatePersistedRoots
  rw [if_neg some']
  refine rootsValidated fun root member => rootValidated given registers.made ?_
  rw [registers.roots, workspaceRoots given registers.made] at member
  obtain ⟨path, inside, rfl⟩ := List.mem_map.mp member
  rw [← rootsSpelled given]
  exact List.mem_map_of_mem (List.mem_mergeSort.mp inside)

/-- Host and daemon agree on accepted roots unless one is a folder inside a folder of a name
which another root continues with a byte below the separator. -/
theorem rootOrderAgrees {paths : List PathBuf} (given : CanonicalRoots fs request.roots paths)
    (accepted : ∃ registered d', register fs ids fails now request d = (.ok registered, d')) :
    Agrees fs ids fails now request d ↔ ∀ left ∈ paths, ∀ right ∈ paths, ¬ Crossing left right := by
  obtain ⟨registered, d', done⟩ := accepted
  obtain ⟨w, _, registers⟩ := registerOk done
  have agree := rootsAgree given registers.made
  rw [← registers.roots] at agree
  constructor
  · exact fun agrees => agree.mp (agrees.key registered d' done)
  · intro free
    have same := agree.mpr free
    have granted : registerProjectWithPaths fs ids (.ok registered) request.roots =
        .ok (registered.projectId, registered.displayName, registered.canonicalRoots) := by
      unfold registerProjectWithPaths
      dsimp only
      rw [persistedValidated given done]
      dsimp only
      rw [if_neg (fun different => different same)]
    refine ⟨fun other _ done' => ?_, fun other _ done' => ?_, ?_⟩
    · cases done.symm.trans done'
      exact same
    · cases done.symm.trans done'
      exact granted
    · rw [done, granted]
      exact nofun

theorem crossedUnexpected {paths : List PathBuf} (given : CanonicalRoots fs request.roots paths)
    {registered : ProjectRegistered ids} {d' : Daemon ids}
    (done : register fs ids fails now request d = (.ok registered, d')) {left right : PathBuf}
    (here : left ∈ paths) (there : right ∈ paths) (crossing : Crossing left right) :
    registerProjectWithPaths fs ids (.ok registered) request.roots = .error .unexpectedResponse := by
  obtain ⟨w, _, registers⟩ := registerOk done
  have different : registered.canonicalRoots ≠ projectRegistrationKey request.roots := fun same => by
    rw [registers.roots] at same
    exact (rootsAgree given registers.made).mp same left here right there crossing
  unfold registerProjectWithPaths
  dsimp only
  rw [persistedValidated given done]
  dsimp only
  rw [if_pos different]

end Agreement

def lexical : FileSystem where
  canonicalize path := if isAbsolute path then normalizeAbsolute path else none
  metadata _ := some ⟨true, 0o755⟩
  readDir _ := true
  openFile _ := .ok ()
  canonical path result found := by
    split at found
    · exact normalizedCanonical (by assumption) found
    · cases found

abbrev twoRoots (first second : String) : ProjectRegister plainIds := ⟨"p", "P", [first, second]⟩

theorem newTwo {first second : String} {paths : List PathBuf}
    (opened : (capabilities lexical 0 [bytes first, bytes second]).toOption.map (·.map (·.canonical)) = some paths)
    (sorted : paths.Pairwise fun left right => left ≤ right) (apart : paths.Pairwise Unrelated) :
    ∃ w, WorkspaceRoots.new lexical ((twoRoots first second).roots.map bytes) = .ok w ∧ w.canonicalRoots = paths := by
  cases same : capabilities lexical 0 [bytes first, bytes second] with
  | error error =>
    rw [same] at opened
    cases opened
  | ok roots =>
    rw [same] at opened
    cases opened
    have inOrder : roots.mergeSort byCanonical = roots :=
      List.mergeSort_of_pairwise ((List.pairwise_map.mp sorted).imp decide_eq_true)
    have none' : overlapping (roots.mergeSort byCanonical) = none := by
      rw [inOrder]
      exact overlappingNone.mpr apart
    exact ⟨_, newOpened (List.cons_ne_nil _ _) same none', congrArg (List.map _) inOrder⟩

theorem registersTwo {first second : String} {paths : List PathBuf}
    (opened : (capabilities lexical 0 [bytes first, bytes second]).toOption.map (·.map (·.canonical)) = some paths)
    (sorted : paths.Pairwise fun left right => left ≤ right) (apart : paths.Pairwise Unrelated)
    (stored : (upsertProjectRegistration false "p" "P" (paths.map pathString) 0 newDaemon.tables).toBool = true) :
    ∃ registered d', register lexical plainIds false 0 (twoRoots first second) newDaemon = (.ok registered, d') ∧
      registered.canonicalRoots = paths.map pathString := by
  obtain ⟨w, made, rfl⟩ := newTwo opened sorted apart
  cases persisted : upsertProjectRegistration false "p" "P" (w.canonicalRoots.map pathString) 0 newDaemon.tables with
  | error error =>
    rw [persisted] at stored
    cases stored
  | ok outcome =>
    have named : Named "P" := by unfold Named; decide +kernel
    exact ⟨_, _, @registerMade lexical plainIds false 0 (twoRoots first second) _ _ _ _ _ named made persisted rfl, rfl⟩

theorem crossesInside {names others : List Bytes} (crosses : Crosses names others) : 2 ≤ names.length := by
  induction crosses with
  | here => simp
  | inside _ ih => exact Nat.le_succ_of_le ih

theorem crossingInside {left right : PathBuf} (crossing : Crossing left right) : 3 ≤ left.length := by
  obtain ⟨names, _, rfl, _, crosses⟩ := crossing
  rw [List.length_cons, List.length_map]
  exact Nat.succ_le_succ (crossesInside crosses)

theorem rootOrderAgreesTwo : Agrees lexical plainIds false 0 (twoRoots "/a" "/b") newDaemon := by
  have given : CanonicalRoots lexical (twoRoots "/a" "/b").roots
      [[.rootDir, .normal [0x61]], [.rootDir, .normal [0x62]]] := ⟨by decide +kernel, by decide +kernel⟩
  obtain ⟨registered, d', done, _⟩ := @registersTwo "/a" "/b" [[.rootDir, .normal [0x61]], [.rootDir, .normal [0x62]]]
    (by decide +kernel) (by decide +kernel) (by unfold Unrelated; decide +kernel) (by decide +kernel)
  refine (rootOrderAgrees given ⟨registered, d', done⟩).mpr fun left here right _ crossing => ?_
  have long := crossingInside crossing
  rcases List.mem_cons.mp here with rfl | later
  · simp at long
  · rw [List.mem_singleton.mp later] at long
    simp at long

/-- `/a/b` and `/a-b`. -/
theorem rootOrderTurned : ∃ paths, CanonicalRoots lexical (twoRoots "/a/b" "/a-b").roots paths ∧
    ∃ registered d', register lexical plainIds false 0 (twoRoots "/a/b" "/a-b") newDaemon = (.ok registered, d') ∧
      registered.canonicalRoots = ["/a/b", "/a-b"] ∧
      projectRegistrationKey (twoRoots "/a/b" "/a-b").roots = ["/a-b", "/a/b"] ∧
      registerProjectWithPaths lexical plainIds (.ok registered) (twoRoots "/a/b" "/a-b").roots =
        .error .unexpectedResponse := by
  have given : CanonicalRoots lexical (twoRoots "/a/b" "/a-b").roots
      [[.rootDir, .normal [0x61], .normal [0x62]], [.rootDir, .normal [0x61, 0x2D, 0x62]]] :=
    ⟨by decide +kernel, by decide +kernel⟩
  obtain ⟨registered, d', done, roots⟩ := @registersTwo "/a/b" "/a-b"
    [[.rootDir, .normal [0x61], .normal [0x62]], [.rootDir, .normal [0x61, 0x2D, 0x62]]]
    (by decide +kernel) (by decide +kernel) (by unfold Unrelated; decide +kernel) (by decide +kernel)
  have crossing : Crossing [.rootDir, .normal [0x61], .normal [0x62]] [.rootDir, .normal [0x61, 0x2D, 0x62]] :=
    ⟨[[0x61], [0x62]], [[0x61, 0x2D, 0x62]], rfl, rfl, .here (by decide)⟩
  have key : ["/a-b", "/a/b"] = projectRegistrationKey (twoRoots "/a/b" "/a-b").roots :=
    (keyUnique (List.Perm.swap _ _ _)).mpr (by decide +kernel)
  refine ⟨_, given, registered, d', done, roots.trans (by decide +kernel), key.symm, ?_⟩
  exact crossedUnexpected given done List.mem_cons_self (List.mem_cons_of_mem _ List.mem_cons_self) crossing

end Maestro.RootOrder
