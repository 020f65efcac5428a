import Mathlib.Data.List.Lex
import Mathlib.Order.Lattice
import Maestro.Json

/-! Paths of a Unix system: their components, the lexical normalisation of an absolute path,
and their order. -/
namespace Maestro.Paths

inductive Component where
  | rootDir
  | curDir
  | parentDir
  | normal (name : Bytes)
  deriving DecidableEq, Repr

/-- A path as its components: comparisons, prefixes, `push` and `pop` go by them. -/
abbrev PathBuf := List Component

def separator : UInt8 := 0x2F

def segments : Bytes → List Bytes
  | [] => [[]]
  | byte :: rest =>
    if byte = separator then [] :: segments rest
    else match segments rest with
      | [] => [[byte]]
      | segment :: more => (byte :: segment) :: more

def component : Bytes → Option Component
  | [] | [0x2E] => none
  | [0x2E, 0x2E] => some .parentDir
  | name => some (.normal name)

def isAbsolute (path : Bytes) : Bool := path.head? = some separator

/-- Repeated and trailing separators are skipped, and so is `.` but at the start of a relative
path. -/
def components (path : Bytes) : PathBuf :=
  (if isAbsolute path then [.rootDir]
    else if (segments path).head? = some [0x2E] then [.curDir] else []) ++
    (segments path).filterMap component

namespace PathBuf

def isAbsolute (path : PathBuf) : Bool := path.head? = some .rootDir

def join (path relative : PathBuf) : PathBuf :=
  if isAbsolute relative then relative else path ++ relative

def pop (path : PathBuf) : Option PathBuf :=
  match path.getLast? with
  | none | some .rootDir => none
  | some _ => some path.dropLast

def startsWith (path front : PathBuf) : Bool := front.isPrefixOf path

def stripPrefix (path front : PathBuf) : Option PathBuf :=
  if startsWith path front then some (path.drop front.length) else none

end PathBuf

def Component.text : Component → Bytes
  | .rootDir => [separator]
  | .curDir => [0x2E]
  | .parentDir => [0x2E, 0x2E]
  | .normal name => name

def PathBuf.bytes : PathBuf → Bytes
  | [.rootDir] => [separator]
  | .rootDir :: rest => rest.flatMap fun component => separator :: component.text
  | path => List.intercalate [separator] (path.map Component.text)

def pushComponent (normalized : PathBuf) : Component → Option PathBuf
  | .rootDir => some [.rootDir]
  | .curDir => some normalized
  | .parentDir => PathBuf.pop normalized
  | .normal name => some (normalized ++ [.normal name])

def normalizeFrom (normalized : PathBuf) : PathBuf → Option PathBuf
  | [] => if PathBuf.isAbsolute normalized then some normalized else none
  | component :: rest => (pushComponent normalized component).bind fun next => normalizeFrom next rest

def normalizeAbsolute (path : Bytes) : Option PathBuf := normalizeFrom [] (components path)

def Plain (name : Bytes) : Prop :=
  name ≠ [] ∧ name ≠ [0x2E] ∧ name ≠ [0x2E, 0x2E] ∧ separator ∉ name

def Canonical (path : PathBuf) : Prop :=
  ∃ names : List Bytes, path = .rootDir :: names.map .normal ∧ ∀ name ∈ names, Plain name

theorem segmentPlain {path segment : Bytes} (member : segment ∈ segments path) : separator ∉ segment := by
  induction path generalizing segment with
  | nil =>
    cases List.mem_singleton.mp member
    exact List.not_mem_nil
  | cons byte rest ih =>
    unfold segments at member
    split at member
    · rcases List.mem_cons.mp member with rfl | later
      · exact List.not_mem_nil
      · exact ih later
    · rename_i other
      cases split : segments rest with
      | nil =>
        rw [split] at member
        cases List.mem_singleton.mp member
        exact fun here => other (List.mem_singleton.mp here).symm
      | cons first more =>
        rw [split] at member
        have parts : ∀ part ∈ first :: more, separator ∉ part := fun part here => ih (split ▸ here)
        rcases List.mem_cons.mp member with rfl | later
        · rintro (_ | here)
          · exact other rfl
          · exact parts first List.mem_cons_self (by assumption)
        · exact parts segment (List.mem_cons_of_mem _ later)

theorem componentPlain {segment name : Bytes} (free : separator ∉ segment)
    (named : component segment = some (.normal name)) : Plain name := by
  unfold component at named
  split at named
  · cases named
  · cases named
  · cases named
  · rename_i empty dot dots
    cases named
    exact ⟨empty, dot, dots, free⟩

theorem componentsPlain {path name : Bytes} (member : .normal name ∈ components path) : Plain name := by
  rcases List.mem_append.mp member with front | body
  · split at front
    · simp at front
    · split at front <;> simp at front
  · obtain ⟨segment, inside, named⟩ := List.mem_filterMap.mp body
    exact componentPlain (segmentPlain inside) named

theorem componentsRoot {path : Bytes} (absolute : isAbsolute path = true) :
    ∃ rest, components path = .rootDir :: rest := by
  refine ⟨(segments path).filterMap component, ?_⟩
  rw [components, if_pos absolute]
  rfl

instance byteOrder : LinearOrder UInt8 where
  le_refl := UInt8.le_refl
  le_trans _ _ _ := UInt8.le_trans
  le_antisymm _ _ := UInt8.le_antisymm
  le_total := UInt8.le_total
  lt_iff_le_not_ge a b := by
    rw [UInt8.lt_iff_toNat_lt, UInt8.le_iff_toNat_le, UInt8.le_iff_toNat_le]
    omega
  toDecidableLE := inferInstance

/-- The kinds in their order, and names by their bytes. -/
def Component.key : Component → Bytes
  | .rootDir => [0]
  | .curDir => [1]
  | .parentDir => [2]
  | .normal name => 3 :: name

theorem keyInjective : Function.Injective Component.key := by
  intro a b same
  cases a <;> cases b <;> first | rfl | (cases same; done) | exact congrArg _ (List.cons.inj same).2

instance componentOrder : LinearOrder Component := LinearOrder.lift' Component.key keyInjective

theorem pushCanonical {path next : PathBuf} {component : Component} (canonical : Canonical path)
    (plain : ∀ name, component = .normal name → Plain name)
    (pushed : pushComponent path component = some next) : Canonical next := by
  obtain ⟨names, rfl, named⟩ := canonical
  cases component with
  | rootDir =>
    cases pushed
    exact ⟨[], rfl, nofun⟩
  | curDir =>
    cases pushed
    exact ⟨names, rfl, named⟩
  | parentDir =>
    rcases List.eq_nil_or_concat' names with rfl | ⟨names, last, rfl⟩
    · cases pushed
    · have shape : Component.rootDir :: (names ++ [last]).map .normal =
          (.rootDir :: names.map .normal) ++ [.normal last] := by
        rw [List.map_append, List.map_singleton, List.cons_append]
      have popped : next = .rootDir :: names.map .normal := by
        rw [pushComponent, PathBuf.pop, shape, List.getLast?_concat, List.dropLast_concat] at pushed
        exact (Option.some.inj pushed).symm
      exact ⟨names, popped, fun name member => named name (List.mem_append_left _ member)⟩
  | normal name =>
    cases pushed
    refine ⟨names ++ [name], by rw [List.map_append, List.map_singleton, List.cons_append], ?_⟩
    intro other member
    rcases List.mem_append.mp member with old | new
    · exact named other old
    · cases List.mem_singleton.mp new
      exact plain name rfl

theorem normalizeCanonical {path rest result : PathBuf} (canonical : Canonical path)
    (plain : ∀ name, .normal name ∈ rest → Plain name) (normal : normalizeFrom path rest = some result) :
    Canonical result := by
  induction rest generalizing path with
  | nil =>
    unfold normalizeFrom at normal
    split at normal <;> cases normal
    exact canonical
  | cons component rest ih =>
    obtain ⟨next, pushed, later⟩ := Option.bind_eq_some_iff.mp normal
    refine ih (pushCanonical canonical (fun name same => ?_) pushed)
      (fun name member => plain name (List.mem_cons_of_mem _ member)) later
    exact plain name (same ▸ List.mem_cons_self)

theorem normalizedCanonical {path : Bytes} {result : PathBuf} (absolute : isAbsolute path = true)
    (normal : normalizeAbsolute path = some result) : Canonical result := by
  obtain ⟨rest, shape⟩ := componentsRoot absolute
  rw [normalizeAbsolute, shape] at normal
  have root : Canonical [.rootDir] := ⟨[], rfl, nofun⟩
  refine normalizeCanonical root (fun name member => ?_) normal
  exact componentsPlain (shape ▸ List.mem_cons_of_mem _ member)

theorem canonicalDrop {path front : PathBuf} (canonical : Canonical path) (absolute : PathBuf.isAbsolute front)
    (under : PathBuf.startsWith path front) :
    ∃ names : List Bytes, path.drop front.length = names.map .normal ∧ ∀ name ∈ names, Plain name := by
  obtain ⟨names, rfl, named⟩ := canonical
  cases front with
  | nil => cases absolute
  | cons first front =>
    refine ⟨names.drop front.length, ?_, fun name member => named name (List.mem_of_mem_drop member)⟩
    rw [List.length_cons, List.drop_succ_cons, List.map_drop]

end Maestro.Paths
