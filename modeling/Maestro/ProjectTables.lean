import Mathlib.Algebra.GroupWithZero.Nat
import Mathlib.Data.List.Nodup

/-! The stored projects with their ordered roots and their window layouts. -/
namespace Maestro.ProjectTables

structure ProjectRow where
  id : String
  displayName : String
  createdAt : Nat
  updatedAt : Nat
  favorite : Bool
  lastOpenedAt : Option Nat

structure RootRow where
  id : String
  projectId : String
  canonicalPath : String
  displayOrder : Nat

structure LayoutRow where
  projectId : String
  windowKey : String
  layoutJson : String
  updatedAt : Nat

/-- The tables with their primary keys, and a root once in its project. -/
structure Tables where
  projects : List ProjectRow
  workspaceRoots : List RootRow
  windowLayouts : List LayoutRow
  projectKeys : (projects.map (·.id)).Nodup
  rootKeys : (workspaceRoots.map (·.id)).Nodup
  rootPaths : (workspaceRoots.map fun row => (row.projectId, row.canonicalPath)).Nodup

inductive StorageError where
  | invalidLimit
  | projectNotFound
  | database
  deriving DecidableEq, Repr

theorem nodupConcat {α : Type} {keys : List α} {key : α} (nodup : keys.Nodup) (fresh : key ∉ keys) :
    (keys ++ [key]).Nodup :=
  List.nodup_append.mpr ⟨nodup, List.nodup_singleton key, fun _ here _ added same =>
    fresh (List.mem_singleton.mp added ▸ same ▸ here)⟩

theorem keysMap {projects : List ProjectRow} {change : ProjectRow → ProjectRow}
    (keeps : ∀ row, (change row).id = row.id) : (projects.map change).map (·.id) = projects.map (·.id) := by
  rw [List.map_map]
  exact List.map_congr_left fun row _ => keeps row

/-- `ON CONFLICT(id) DO UPDATE`. -/
def refreshed (id displayName : String) (now : Nat) (row : ProjectRow) : ProjectRow :=
  if row.id = id then { row with displayName, updatedAt := now, lastOpenedAt := some now } else row

theorem refreshedKey {id displayName : String} {now : Nat} (row : ProjectRow) :
    (refreshed id displayName now row).id = row.id := by
  unfold refreshed
  split <;> rfl

def upsertProjectRow (id displayName : String) (now : Nat) (t : Tables) : Tables :=
  if known : id ∈ t.projects.map (·.id) then
    { t with
      projects := t.projects.map (refreshed id displayName now)
      projectKeys := (keysMap refreshedKey).symm ▸ t.projectKeys }
  else
    { t with
      projects := t.projects ++ [⟨id, displayName, now, now, false, some now⟩]
      projectKeys := by rw [List.map_append]; exact nodupConcat t.projectKeys known }

def deleteRoots (id : String) (t : Tables) : Tables :=
  { t with
    workspaceRoots := t.workspaceRoots.filter (·.projectId ≠ id)
    rootKeys := t.rootKeys.sublist (List.filter_sublist.map _)
    rootPaths := t.rootPaths.sublist (List.filter_sublist.map _) }

def insertRoot (row : RootRow) (t : Tables) : Option Tables :=
  if fresh : row.id ∉ t.workspaceRoots.map (·.id) ∧
      (row.projectId, row.canonicalPath) ∉ t.workspaceRoots.map fun row => (row.projectId, row.canonicalPath) then
    some { t with
      workspaceRoots := t.workspaceRoots ++ [row]
      rootKeys := by rw [List.map_append]; exact nodupConcat t.rootKeys fresh.1
      rootPaths := by rw [List.map_append]; exact nodupConcat t.rootPaths fresh.2 }
  else none

def rootKey (id : String) (index : Nat) : String := id ++ ":root:" ++ toString index

def insertRoots (id : String) (index : Nat) : List String → Tables → Option Tables
  | [], t => some t
  | root :: rest, t =>
    (insertRoot ⟨rootKey id index, id, root, index⟩ t).bind fun t =>
      insertRoots id (index + 1) rest t

def upsertProjectInTransaction (id displayName : String) (canonicalRoots : List String) (now : Nat) (t : Tables) :
    Option Tables :=
  insertRoots id 0 canonicalRoots (deleteRoots id (upsertProjectRow id displayName now t))

def rowsOf (t : Tables) (id : String) : List RootRow := t.workspaceRoots.filter (·.projectId = id)

/-- `ORDER BY display_order`. -/
def rootsOf (t : Tables) (id : String) : List String :=
  ((rowsOf t id).mergeSort fun a b => a.displayOrder ≤ b.displayOrder).map (·.canonicalPath)

/-- The proposed project first, then what was opened last, then by the identifiers. -/
def before (proposedId : String) (a b : ProjectRow) : Bool :=
  if decide (a.id = proposedId) ≠ decide (b.id = proposedId) then a.id = proposedId
  else if a.lastOpenedAt = b.lastOpenedAt then a.id ≤ b.id
  else match a.lastOpenedAt, b.lastOpenedAt with
    | some opened, some other => other < opened
    | some _, none => true
    | none, _ => false

def candidates (t : Tables) (proposedId first : String) (rootCount : Nat) : List String :=
  let joined := t.projects.flatMap fun project =>
    (t.workspaceRoots.filter fun root => root.projectId = project.id ∧ root.displayOrder = 0 ∧
      root.canonicalPath = first ∧ (rowsOf t project.id).length = rootCount).map fun _ => project
  (joined.mergeSort (before proposedId)).map (·.id)

def resolve (t : Tables) (proposedId : String) (canonicalRoots : List String) : String :=
  let found := match canonicalRoots.head? with
    | some first => candidates t proposedId first canonicalRoots.length
    | none => []
  (found.find? fun candidate => rootsOf t candidate = canonicalRoots).getD proposedId

def upsertProjectRegistration (fails : Bool) (proposedId displayName : String) (canonicalRoots : List String)
    (now : Nat) (t : Tables) : Except StorageError (String × Tables) :=
  if 2 ^ 63 ≤ canonicalRoots.length then .error .invalidLimit
  else
    match fails, upsertProjectInTransaction (resolve t proposedId canonicalRoots) displayName canonicalRoots now t with
    | true, _ | false, none => .error .database
    | false, some stored => .ok (resolve t proposedId canonicalRoots, stored)

def favored (id : String) (favorite : Bool) (now : Nat) (row : ProjectRow) : ProjectRow :=
  if row.id = id then { row with favorite, updatedAt := now } else row

theorem favoredKey {id : String} {favorite : Bool} {now : Nat} (row : ProjectRow) :
    (favored id favorite now row).id = row.id := by
  unfold favored
  split <;> rfl

def setProjectFavorite (id : String) (favorite : Bool) (now : Nat) (t : Tables) : Except StorageError Tables :=
  if id ∈ t.projects.map (·.id) then
    .ok { t with
      projects := t.projects.map (favored id favorite now)
      projectKeys := (keysMap favoredKey).symm ▸ t.projectKeys }
  else .error .projectNotFound

def saveWindowLayout (projectId windowKey layoutJson : String) (now : Nat) (t : Tables) :
    Except StorageError Tables :=
  if projectId ∈ t.projects.map (·.id) then
    .ok { t with windowLayouts :=
        t.windowLayouts.filter (fun row => ¬(row.projectId = projectId ∧ row.windowKey = windowKey)) ++
          [⟨projectId, windowKey, layoutJson, now⟩] }
  else .error .database

def favoriteOf (t : Tables) (id : String) : Option Bool := (t.projects.find? (·.id = id)).map (·.favorite)

def windowLayout (t : Tables) (projectId windowKey : String) : Option String :=
  (t.windowLayouts.find? fun row => row.projectId = projectId ∧ row.windowKey = windowKey).map (·.layoutJson)

def rootRows (id : String) (index : Nat) : List String → List RootRow
  | [] => []
  | root :: rest => ⟨rootKey id index, id, root, index⟩ :: rootRows id (index + 1) rest

theorem rootRowsOwned {id : String} {index : Nat} {roots : List String} :
    ∀ row ∈ rootRows id index roots, row.projectId = id := by
  induction roots generalizing index with
  | nil => exact nofun
  | cons root rest ih =>
    intro row member
    rcases List.mem_cons.mp member with rfl | later
    · rfl
    · exact ih row later

theorem rootRowsKeys {id : String} {index : Nat} {roots : List String} :
    ∀ row ∈ rootRows id index roots, row.id = rootKey row.projectId row.displayOrder := by
  induction roots generalizing index with
  | nil => exact nofun
  | cons root rest ih =>
    intro row member
    rcases List.mem_cons.mp member with rfl | later
    · rfl
    · exact ih row later

theorem rootRowsPaths {id : String} {index : Nat} {roots : List String} :
    (rootRows id index roots).map (·.canonicalPath) = roots := by
  induction roots generalizing index with
  | nil => rfl
  | cons root rest ih => rw [rootRows, List.map_cons, ih]

theorem rootRowsOrder {id : String} {index : Nat} {roots : List String} :
    (rootRows id index roots).map (·.displayOrder) = List.range' index roots.length := by
  induction roots generalizing index with
  | nil => rfl
  | cons root rest ih => rw [rootRows, List.map_cons, ih, List.length_cons, List.range'_succ]

theorem insertedRoots {id : String} {index : Nat} {roots : List String} {t t' : Tables}
    (inserted : insertRoots id index roots t = some t') :
    t'.workspaceRoots = t.workspaceRoots ++ rootRows id index roots ∧ t'.projects = t.projects ∧
      t'.windowLayouts = t.windowLayouts := by
  induction roots generalizing index t with
  | nil =>
    cases inserted
    exact ⟨(List.append_nil _).symm, rfl, rfl⟩
  | cons root rest ih =>
    obtain ⟨next, first, later⟩ := Option.bind_eq_some_iff.mp inserted
    unfold insertRoot at first
    split at first <;> cases first
    obtain ⟨rows, projects, layouts⟩ := ih later
    exact ⟨by rw [rows, rootRows, List.append_assoc, List.singleton_append], projects, layouts⟩

section Registered
variable {id displayName : String} {roots : List String} {now : Nat} {t t' : Tables}

theorem upsertedRoots (upserted : upsertProjectInTransaction id displayName roots now t = some t') :
    t'.workspaceRoots = t.workspaceRoots.filter (·.projectId ≠ id) ++ rootRows id 0 roots := by
  have rows := (insertedRoots upserted).1
  have same : (upsertProjectRow id displayName now t).workspaceRoots = t.workspaceRoots := by
    unfold upsertProjectRow
    split <;> rfl
  rw [rows]
  change (upsertProjectRow id displayName now t).workspaceRoots.filter _ ++ _ = _
  rw [same]

theorem upsertedOwn (upserted : upsertProjectInTransaction id displayName roots now t = some t') :
    rowsOf t' id = rootRows id 0 roots := by
  have others : (t.workspaceRoots.filter (·.projectId ≠ id)).filter (·.projectId = id) = [] := by
    rw [List.filter_filter]
    exact List.filter_eq_nil_iff.mpr fun row _ => by simp
  rw [rowsOf, upsertedRoots upserted, List.filter_append, others, List.nil_append]
  exact List.filter_eq_self.mpr fun row member => decide_eq_true (rootRowsOwned row member)

theorem upsertedOther (upserted : upsertProjectInTransaction id displayName roots now t = some t') {other : String}
    (apart : other ≠ id) : rowsOf t' other = rowsOf t other := by
  have none' : (rootRows id 0 roots).filter (·.projectId = other) = [] :=
    List.filter_eq_nil_iff.mpr fun row member => by
      simp [rootRowsOwned row member, Ne.symm apart]
  rw [rowsOf, upsertedRoots upserted, List.filter_append, none', List.append_nil, List.filter_filter, rowsOf]
  refine List.filter_congr fun row _ => ?_
  by_cases owned : row.projectId = other
  · simp [owned, apart]
  · simp [owned]

theorem upsertedProjects (upserted : upsertProjectInTransaction id displayName roots now t = some t') :
    t'.projects = (upsertProjectRow id displayName now t).projects ∧ t'.windowLayouts = t.windowLayouts := by
  obtain ⟨_, projects, layouts⟩ := insertedRoots upserted
  have same : (upsertProjectRow id displayName now t).windowLayouts = t.windowLayouts := by
    unfold upsertProjectRow
    split <;> rfl
  exact ⟨projects, layouts.trans same⟩

theorem upsertedKeys (upserted : upsertProjectInTransaction id displayName roots now t = some t') {other : String} :
    other ∈ t'.projects.map (·.id) ↔ other = id ∨ other ∈ t.projects.map (·.id) := by
  rw [(upsertedProjects upserted).1]
  unfold upsertProjectRow
  split
  · rename_i known
    change other ∈ (t.projects.map (refreshed id displayName now)).map (·.id) ↔ _
    rw [keysMap refreshedKey]
    exact ⟨.inr, fun member => member.elim (fun same => same ▸ known) fun here => here⟩
  · change other ∈ (t.projects ++ [(⟨id, displayName, now, now, false, some now⟩ : ProjectRow)]).map (·.id) ↔ _
    rw [List.map_append, List.mem_append, List.map_singleton, List.mem_singleton, or_comm]

theorem findMap {projects : List ProjectRow} {change : ProjectRow → ProjectRow} {other : String}
    (keeps : ∀ row, (change row).id = row.id) :
    (projects.map change).find? (·.id = other) = (projects.find? (·.id = other)).map change := by
  rw [List.find?_map]
  exact congrArg (Option.map change) (congrArg (fun test => projects.find? test)
    (funext fun row => by rw [Function.comp_apply, keeps row]))

theorem upsertedState (upserted : upsertProjectInTransaction id displayName roots now t = some t') {other : String}
    (known : other ∈ t.projects.map (·.id)) : favoriteOf t' other = favoriteOf t other ∧
      ∀ windowKey, windowLayout t' other windowKey = windowLayout t other windowKey := by
  obtain ⟨projects, layouts⟩ := upsertedProjects upserted
  refine ⟨?_, fun windowKey => by rw [windowLayout, layouts, windowLayout]⟩
  have kept : ∀ row : ProjectRow, (refreshed id displayName now row).favorite = row.favorite := fun row => by
    unfold refreshed
    split <;> rfl
  rw [favoriteOf, projects, favoriteOf]
  unfold upsertProjectRow
  split
  · change ((t.projects.map (refreshed id displayName now)).find? _).map _ = _
    rw [findMap refreshedKey, Option.map_map]
    exact congrArg (fun value => Option.map value _) (funext kept)
  · obtain ⟨row, member, rfl⟩ := List.mem_map.mp known
    change ((t.projects ++ _).find? _).map _ = _
    have found : (t.projects.find? (·.id = row.id)).isSome := List.find?_isSome.mpr ⟨row, member, by simp⟩
    obtain ⟨first, same⟩ := Option.isSome_iff_exists.mp found
    rw [List.find?_append, same, Option.some_or]

end Registered

/-- The roots of a project are numbered in the order they are stored in. -/
structure Identified (t : Tables) : Prop where
  keyed : ∀ row ∈ t.workspaceRoots, row.id = rootKey row.projectId row.displayOrder
  bounded : ∀ id ∈ t.projects.map (·.id), (rowsOf t id).length < 2 ^ 63
  ordered : ∀ id ∈ t.projects.map (·.id), (rowsOf t id).map (·.displayOrder) = List.range (rowsOf t id).length
  rooted : ∀ id ∈ t.projects.map (·.id), rowsOf t id ≠ []
  distinct : ∀ id ∈ t.projects.map (·.id), ∀ other ∈ t.projects.map (·.id), rootsOf t id = rootsOf t other →
    id = other

theorem rootsOrdered {t : Tables} {id : String}
    (ordered : (rowsOf t id).map (·.displayOrder) = List.range (rowsOf t id).length) :
    rootsOf t id = (rowsOf t id).map (·.canonicalPath) := by
  have numbers : ((rowsOf t id).map (·.displayOrder)).Pairwise (· ≤ ·) :=
    ordered ▸ List.pairwise_le_range
  have sorted : (rowsOf t id).Pairwise fun a b => decide (a.displayOrder ≤ b.displayOrder) = true :=
    (List.pairwise_map.mp numbers).imp decide_eq_true
  rw [rootsOf, List.mergeSort_of_pairwise sorted]

theorem candidateMember {t : Tables} {proposedId first id : String} {rootCount : Nat} :
    id ∈ candidates t proposedId first rootCount ↔ id ∈ t.projects.map (·.id) ∧
      (rowsOf t id).length = rootCount ∧
      ∃ row ∈ rowsOf t id, row.displayOrder = 0 ∧ row.canonicalPath = first := by
  have inside : ∀ root, root ∈ rowsOf t id ↔ root ∈ t.workspaceRoots ∧ root.projectId = id := fun root => by
    rw [rowsOf, List.mem_filter, decide_eq_true_eq]
  simp only [candidates, List.mem_map, List.mem_mergeSort, List.mem_flatMap, List.mem_filter, inside,
    decide_eq_true_eq]
  constructor
  · rintro ⟨_, ⟨project, member, root, ⟨stored, owned, zero, path, count⟩, rfl⟩, rfl⟩
    exact ⟨⟨project, member, rfl⟩, count, root, ⟨stored, owned⟩, zero, path⟩
  · rintro ⟨⟨project, member, rfl⟩, count, root, ⟨stored, owned⟩, zero, path⟩
    exact ⟨project, ⟨project, member, root, ⟨stored, owned, zero, path, count⟩, rfl⟩, rfl⟩

theorem resolved {t : Tables} (identified : Identified t) {roots : List String} (some' : roots ≠ [])
    (proposedId : String) :
    (resolve t proposedId roots ∈ t.projects.map (·.id) ∧ rootsOf t (resolve t proposedId roots) = roots) ∨
      (resolve t proposedId roots = proposedId ∧ ∀ id ∈ t.projects.map (·.id), rootsOf t id ≠ roots) := by
  obtain ⟨first, rest, rfl⟩ := List.exists_cons_of_ne_nil some'
  unfold resolve
  rw [List.head?_cons]
  dsimp only
  cases found : (candidates t proposedId first (first :: rest).length).find? fun candidate =>
      rootsOf t candidate = first :: rest with
  | some id =>
    have member := candidateMember.mp (List.mem_of_find?_eq_some found)
    have same : decide (rootsOf t id = first :: rest) = true :=
      List.find?_some (p := fun candidate => decide (rootsOf t candidate = first :: rest)) found
    exact .inl ⟨member.1, of_decide_eq_true same⟩
  | none =>
    refine .inr ⟨rfl, fun id member same => ?_⟩
    have paths := same
    rw [rootsOrdered (identified.ordered id member)] at paths
    obtain ⟨row, others, rows⟩ := List.exists_cons_of_ne_nil (identified.rooted id member)
    have numbers := identified.ordered id member
    rw [rows, List.map_cons, List.length_cons, List.range_succ_eq_map] at numbers
    rw [rows, List.map_cons] at paths
    have candidate : id ∈ candidates t proposedId first (first :: rest).length := by
      refine candidateMember.mpr ⟨member, ?_, row, rows ▸ List.mem_cons_self, (List.cons.inj numbers).1,
        (List.cons.inj paths).1⟩
      have lengths := congrArg List.length paths
      rw [List.length_cons, List.length_map] at lengths
      rw [rows, List.length_cons, lengths]
    exact absurd (decide_eq_true same) (List.find?_eq_none.mp found id candidate)

theorem upsertedIdentified {id displayName : String} {roots : List String} {now : Nat} {t t' : Tables}
    (identified : Identified t) (some' : roots ≠ []) (small : roots.length < 2 ^ 63)
    (free : ∀ other ∈ t.projects.map (·.id), rootsOf t other = roots → other = id)
    (upserted : upsertProjectInTransaction id displayName roots now t = some t') :
    Identified t' ∧ rootsOf t' id = roots := by
  have rows : ∀ other, other ≠ id → rowsOf t' other = rowsOf t other := fun other => upsertedOther upserted
  have roots' : ∀ other, other ≠ id → rootsOf t' other = rootsOf t other := fun other apart => by
    rw [rootsOf, rows other apart, rootsOf]
  have own := upsertedOwn upserted
  have length : (rowsOf t' id).length = roots.length := by
    have paths := congrArg List.length (@rootRowsPaths id 0 roots)
    rw [List.length_map] at paths
    rw [own, paths]
  have ordered : (rowsOf t' id).map (·.displayOrder) = List.range (rowsOf t' id).length := by
    rw [length, own, rootRowsOrder, List.range_eq_range']
  have mine : rootsOf t' id = roots := by
    rw [rootsOrdered ordered, own, rootRowsPaths]
  have older : ∀ {other}, other ∈ t'.projects.map (·.id) → other ≠ id → other ∈ t.projects.map (·.id) :=
    fun member apart => ((upsertedKeys upserted).mp member).resolve_left apart
  refine ⟨⟨fun row member => ?_, fun other member => ?_, fun other member => ?_, fun other member => ?_,
    fun one first other second same => ?_⟩, mine⟩
  · rw [upsertedRoots upserted] at member
    rcases List.mem_append.mp member with old | new
    · exact identified.keyed row (List.mem_filter.mp old).1
    · exact rootRowsKeys row new
  · by_cases here : other = id
    · exact here ▸ length ▸ small
    · rw [rows other here]
      exact identified.bounded other (older member here)
  · by_cases here : other = id
    · exact here ▸ ordered
    · rw [rows other here]
      exact identified.ordered other (older member here)
  · by_cases here : other = id
    · subst here
      intro none'
      rw [none', List.length_nil] at length
      exact some' (List.length_eq_zero_iff.mp length.symm)
    · rw [rows other here]
      exact identified.rooted other (older member here)
  · by_cases left : one = id <;> by_cases right : other = id
    · exact left.trans right.symm
    · rw [left, mine, roots' other right] at same
      exact left.trans (free other (older second right) same.symm).symm
    · rw [right, mine, roots' one left] at same
      exact (free one (older first left) same).trans right.symm
    · rw [roots' one left, roots' other right] at same
      exact identified.distinct one (older first left) other (older second right) same

theorem registered {fails : Bool} {proposedId displayName id : String} {roots : List String} {now : Nat}
    {t t' : Tables} (identified : Identified t) (some' : roots ≠ [])
    (done : upsertProjectRegistration fails proposedId displayName roots now t = .ok (id, t')) :
    Identified t' ∧ rootsOf t' id = roots ∧ id ∈ t'.projects.map (·.id) ∧
      ∀ other ∈ t.projects.map (·.id), (rootsOf t other = roots → other = id) ∧
        favoriteOf t' other = favoriteOf t other ∧
        ∀ windowKey, windowLayout t' other windowKey = windowLayout t other windowKey := by
  unfold upsertProjectRegistration at done
  split at done
  · cases done
  · rename_i small
    split at done
    · cases done
    · cases done
    · rename_i stored _ upserted
      cases done
      have free : ∀ other ∈ t.projects.map (·.id), rootsOf t other = roots → other = resolve t proposedId roots := by
        intro other member same
        rcases resolved identified some' proposedId with ⟨known, roots'⟩ | ⟨_, none'⟩
        · exact identified.distinct other member _ known (same.trans roots'.symm)
        · exact absurd same (none' other member)
      obtain ⟨identified', mine⟩ := upsertedIdentified identified some' (Nat.lt_of_not_le small) free upserted
      refine ⟨identified', mine, (upsertedKeys upserted).mpr (.inl rfl), fun other member =>
        ⟨free other member, upsertedState upserted member⟩⟩

theorem rootKeyInj {id other : String} {i j : Nat} (same : rootKey id i = rootKey other j) :
    id = other ∧ i = j := by
  have digits : ∀ n : Nat, ∀ c ∈ (toString n).toList, (c != ':') = true := by
    intro n c member
    have digit : c.isDigit = true := Nat.isDigit_of_mem_toDigits (by decide) (by decide)
      (show c ∈ Nat.toDigits 10 n by simpa using member)
    rw [bne_iff_ne]
    rintro rfl
    cases digit
  have lists := congrArg (fun key => key.toList.reverse) same
  simp only [rootKey, String.toList_append, List.reverse_append] at lists
  have front : ∀ (n : Nat) (rest : List Char),
      ((toString n).toList.reverse ++ ((":root:".toList).reverse ++ rest)).takeWhile (· != ':') =
        (toString n).toList.reverse := by
    intro n rest
    rw [List.takeWhile_append_of_pos fun c member => digits n c (List.mem_reverse.mp member)]
    exact List.append_nil _
  have numbers := congrArg (List.takeWhile (· != ':')) lists
  rw [front, front] at numbers
  have texts : (toString i).toList = (toString j).toList := List.reverse_inj.mp numbers
  have back : ∀ n : Nat, Nat.ofDigitChars 10 (toString n).toList 0 = n := fun n => by
    have shape : (toString n).toList = Nat.toDigits 10 n := by simp
    rw [shape]
    exact Nat.ofDigitChars_toDigits (by decide) (by decide)
  have indexes : i = j := by rw [← back i, ← back j, texts]
  subst indexes
  refine ⟨?_, rfl⟩
  have ids := List.append_cancel_left (List.append_cancel_left lists)
  exact String.toList_inj.mp (List.reverse_inj.mp ids)

theorem insertsRoots {id : String} {index : Nat} {roots : List String} {t : Tables}
    (keyed : ∀ row ∈ t.workspaceRoots, row.id = rootKey row.projectId row.displayOrder)
    (fresh : ∀ row ∈ t.workspaceRoots, row.projectId = id →
      row.displayOrder < index ∧ row.canonicalPath ∉ roots) (once : roots.Nodup) :
    ∃ t', insertRoots id index roots t = some t' := by
  induction roots generalizing index t with
  | nil => exact ⟨t, rfl⟩
  | cons root rest ih =>
    have key : rootKey id index ∉ t.workspaceRoots.map (·.id) := by
      intro member
      obtain ⟨row, stored, same⟩ := List.mem_map.mp member
      obtain ⟨owner, number⟩ := rootKeyInj ((keyed row stored).symm.trans same)
      exact Nat.lt_irrefl _ (number ▸ (fresh row stored owner).1)
    have path : (id, root) ∉ t.workspaceRoots.map fun row => (row.projectId, row.canonicalPath) := by
      intro member
      obtain ⟨row, stored, same⟩ := List.mem_map.mp member
      obtain ⟨owner, rfl⟩ := Prod.mk.inj same
      exact (fresh row stored owner).2 List.mem_cons_self
    obtain ⟨distinct, once⟩ := List.nodup_cons.mp once
    unfold insertRoots insertRoot
    rw [dif_pos ⟨key, path⟩]
    refine ih (fun row member => ?_) (fun row member owner => ?_) once
    · rcases List.mem_append.mp member with old | new
      · exact keyed row old
      · cases List.mem_singleton.mp new
        rfl
    · rcases List.mem_append.mp member with old | new
      · have before := fresh row old owner
        exact ⟨Nat.lt_succ_of_lt before.1, fun here => before.2 (List.mem_cons_of_mem _ here)⟩
      · cases List.mem_singleton.mp new
        exact ⟨Nat.lt_succ_self _, distinct⟩

theorem rootsOnce {t : Tables} (identified : Identified t) {id : String} (known : id ∈ t.projects.map (·.id)) :
    (rootsOf t id).Nodup := by
  rw [rootsOrdered (identified.ordered id known), List.Nodup, List.pairwise_map]
  have pairs := List.pairwise_map.mp t.rootPaths
  refine (pairs.sublist List.filter_sublist).imp_of_mem fun first second apart same => apart ?_
  have owner : ∀ {row}, row ∈ rowsOf t id → row.projectId = id := fun member =>
    of_decide_eq_true (List.mem_filter.mp member).2
  rw [owner first, owner second, same]

theorem knownRegisters {t : Tables} (identified : Identified t) {known proposedId displayName : String}
    {roots : List String} {now : Nat} (stored : known ∈ t.projects.map (·.id)) (same : rootsOf t known = roots) :
    ∃ t', upsertProjectRegistration false proposedId displayName roots now t = .ok (known, t') := by
  have some' : roots ≠ [] := by
    rw [← same, rootsOrdered (identified.ordered known stored)]
    exact fun none' => identified.rooted known stored (List.map_eq_nil_iff.mp none')
  have found : resolve t proposedId roots = known := by
    rcases resolved identified some' proposedId with ⟨member, roots'⟩ | ⟨_, none'⟩
    · exact identified.distinct _ member _ stored (roots'.trans same.symm)
    · exact absurd same (none' known stored)
  have small : ¬ 2 ^ 63 ≤ roots.length := by
    have bounded := identified.bounded known stored
    rw [← same, rootsOrdered (identified.ordered known stored), List.length_map]
    exact Nat.not_le_of_lt bounded
  have rows : (deleteRoots known (upsertProjectRow known displayName now t)).workspaceRoots =
      t.workspaceRoots.filter (·.projectId ≠ known) := by
    unfold upsertProjectRow
    split <;> rfl
  have others : ∀ row ∈ (deleteRoots known (upsertProjectRow known displayName now t)).workspaceRoots,
      row ∈ t.workspaceRoots ∧ row.projectId ≠ known := fun row member => by
    rw [rows] at member
    exact (List.mem_filter.mp member).imp_right of_decide_eq_true
  have once : roots.Nodup := same ▸ rootsOnce identified stored
  obtain ⟨t', inserted⟩ := @insertsRoots known 0 roots _
    (fun row member => identified.keyed row (others row member).1)
    (fun row member owner => absurd owner (others row member).2) once
  refine ⟨t', ?_⟩
  unfold upsertProjectRegistration
  rw [if_neg small, found, upsertProjectInTransaction, inserted]

end Maestro.ProjectTables
