import Mathlib.Algebra.Order.Ring.Rat
import Maestro.Stepping

/-! The layout of a project window. Changes are saved behind a debounce timer, and a layout
that was saved last is not saved again. -/
namespace Maestro.WindowLayout
open Stepping

inductive Activity where | sessions | files | search | git
  deriving DecidableEq, Repr

inductive BottomSurface where | events | raw | agent | shell
  deriving DecidableEq, Repr

inductive WorkspaceSurface where | conversation | plan
  deriving DecidableEq, Repr

def Activity.name : Activity → String
  | .sessions => "sessions"
  | .files => "files"
  | .search => "search"
  | .git => "git"

def BottomSurface.name : BottomSurface → String
  | .events => "events"
  | .raw => "raw"
  | .agent => "agent"
  | .shell => "shell"

def WorkspaceSurface.name : WorkspaceSurface → String
  | .conversation => "conversation"
  | .plan => "plan"

def activities : List Activity := [.sessions, .files, .search, .git]
def bottomSurfaces : List BottomSurface := [.events, .raw, .agent, .shell]
def workspaceSurfaces : List WorkspaceSurface := [.conversation, .plan]

structure WindowLayoutState where
  activity : Activity
  bottomHeight : ℚ
  bottomPanelOpen : Bool
  bottomSurface : BottomSurface
  inspectorOpen : Bool
  inspectorWidth : ℚ
  sidebarOpen : Bool
  sidebarWidth : ℚ
  workspaceSurface : WorkspaceSurface
  deriving DecidableEq, Repr

def defaultWindowLayout : WindowLayoutState where
  activity := .sessions
  bottomHeight := 220
  bottomPanelOpen := true
  bottomSurface := .events
  inspectorOpen := true
  inspectorWidth := 300
  sidebarOpen := true
  sidebarWidth := 260
  workspaceSurface := .conversation

inductive Field where
  | string (text : String)
  | number (value : ℚ)
  | boolean (value : Bool)
  | other
  deriving DecidableEq, Repr

/-- The text of an object: its fields in their order. -/
abbrev Serialized := List (String × Field)

def field (candidate : Serialized) (key : String) : Field := (candidate.lookup key).getD .other

def enumValue {α : Type} (name : α → String) (allowed : List α) (fallback : α) : Field → α
  | .string text => (allowed.find? fun known => name known = text).getD fallback
  | _ => fallback

def boundedNumber (minimum maximum fallback : ℚ) : Field → ℚ
  | .number value => min maximum (max minimum value)
  | _ => fallback

def openValue : Field → Bool
  | .boolean value => value
  | _ => true

/-- `none` where nothing is stored or the text is not an object. -/
def parseWindowLayout : Option Serialized → WindowLayoutState
  | none => defaultWindowLayout
  | some candidate => {
      activity := enumValue Activity.name activities defaultWindowLayout.activity (field candidate "activity")
      bottomHeight := boundedNumber 120 600 defaultWindowLayout.bottomHeight (field candidate "bottomHeight")
      bottomPanelOpen := openValue (field candidate "bottomPanelOpen")
      bottomSurface :=
        enumValue BottomSurface.name bottomSurfaces defaultWindowLayout.bottomSurface (field candidate "bottomSurface")
      inspectorOpen := openValue (field candidate "inspectorOpen")
      inspectorWidth := boundedNumber 240 440 defaultWindowLayout.inspectorWidth (field candidate "inspectorWidth")
      sidebarOpen := openValue (field candidate "sidebarOpen")
      sidebarWidth := boundedNumber 200 420 defaultWindowLayout.sidebarWidth (field candidate "sidebarWidth")
      workspaceSurface :=
        enumValue WorkspaceSurface.name workspaceSurfaces defaultWindowLayout.workspaceSurface
          (field candidate "workspaceSurface") }

/-- `JSON.stringify` -/
def serialize (layout : WindowLayoutState) : Serialized :=
  [("activity", .string layout.activity.name), ("bottomHeight", .number layout.bottomHeight),
    ("bottomPanelOpen", .boolean layout.bottomPanelOpen), ("bottomSurface", .string layout.bottomSurface.name),
    ("inspectorOpen", .boolean layout.inspectorOpen), ("inspectorWidth", .number layout.inspectorWidth),
    ("sidebarOpen", .boolean layout.sidebarOpen), ("sidebarWidth", .number layout.sidebarWidth),
    ("workspaceSurface", .string layout.workspaceSurface.name)]

/-- `Partial<WindowLayoutState>` -/
structure Patch where
  activity : Option Activity
  bottomHeight : Option ℚ
  bottomPanelOpen : Option Bool
  bottomSurface : Option BottomSurface
  inspectorOpen : Option Bool
  inspectorWidth : Option ℚ
  sidebarOpen : Option Bool
  sidebarWidth : Option ℚ
  workspaceSurface : Option WorkspaceSurface
  deriving DecidableEq, Repr

def Patch.apply (patch : Patch) (current : WindowLayoutState) : WindowLayoutState where
  activity := patch.activity.getD current.activity
  bottomHeight := patch.bottomHeight.getD current.bottomHeight
  bottomPanelOpen := patch.bottomPanelOpen.getD current.bottomPanelOpen
  bottomSurface := patch.bottomSurface.getD current.bottomSurface
  inspectorOpen := patch.inspectorOpen.getD current.inspectorOpen
  inspectorWidth := patch.inspectorWidth.getD current.inspectorWidth
  sidebarOpen := patch.sidebarOpen.getD current.sidebarOpen
  sidebarWidth := patch.sidebarWidth.getD current.sidebarWidth
  workspaceSurface := patch.workspaceSurface.getD current.workspaceSurface

/-- `layout` and `hydrated` are the state with every update, `displayed` and `ready` what the
last commit rendered of them. `saves` are the outstanding ones, oldest first. -/
structure Hook where
  layout : WindowLayoutState
  hydrated : Bool
  displayed : WindowLayoutState
  ready : Bool
  updated : Bool
  changedBeforeLoad : Bool
  lastPersisted : Option Serialized
  pendingLayout : Option Serialized
  saveTimer : Option Serialized
  saves : List Serialized
  persisted : Option Serialized
  deriving DecidableEq, Repr

inductive Label where
  | update (patch : Patch)
  | loaded (stored : Option Serialized)
  | commit
  | timer
  | complete (index : Nat)
  deriving DecidableEq, Repr

namespace Hook

def first : Hook where
  layout := defaultWindowLayout
  hydrated := false
  displayed := defaultWindowLayout
  ready := false
  updated := false
  changedBeforeLoad := false
  lastPersisted := none
  pendingLayout := none
  saveTimer := none
  saves := []
  persisted := none

variable (h : Hook)

def update (patch : Patch) : Hook :=
  { h with changedBeforeLoad := true, layout := patch.apply h.layout, updated := true }

/-- What is persisted counts as the layout it is restored as. -/
def load (stored : Option Serialized) : Hook :=
  let restored := parseWindowLayout stored
  { h with
    lastPersisted := some (serialize restored)
    persisted := some (serialize restored)
    layout := if h.changedBeforeLoad then h.layout else restored
    hydrated := true
    updated := true }

def saveEffect : Hook :=
  if h.ready then
    let serialized := serialize h.displayed
    let pending := { h with pendingLayout := some serialized }
    if h.lastPersisted = some serialized then pending else { pending with saveTimer := some serialized }
  else h

end Hook

/-- A commit renders the state and runs the effect. -/
def step (h : Hook) : Label → Option Hook
  | .update patch => some (h.update patch)
  | .loaded stored => if h.hydrated then none else some (h.load stored)
  | .commit =>
    if h.updated then
      some { h with displayed := h.layout, ready := h.hydrated, updated := false }.saveEffect
    else none
  | .timer => h.saveTimer.map fun serialized => { h with saveTimer := none, saves := h.saves ++ [serialized] }
  | .complete index => h.saves[index]?.map fun serialized =>
    { h with saves := h.saves.eraseIdx index, persisted := some serialized, lastPersisted := some serialized }

/-- The sizes are within the bounds of a restored layout. -/
structure Bounded (layout : WindowLayoutState) : Prop where
  bottom : 120 ≤ layout.bottomHeight ∧ layout.bottomHeight ≤ 600
  inspector : 240 ≤ layout.inspectorWidth ∧ layout.inspectorWidth ≤ 440
  sidebar : 200 ≤ layout.sidebarWidth ∧ layout.sidebarWidth ≤ 420

theorem boundedKept {minimum maximum value : ℚ} (fallback : ℚ) (within : minimum ≤ value ∧ value ≤ maximum) :
    boundedNumber minimum maximum fallback (.number value) = value := by
  rw [boundedNumber, max_eq_right within.1, min_eq_right within.2]

theorem activityKept (activity fallback : Activity) :
    enumValue Activity.name activities fallback (.string activity.name) = activity := by
  cases activity <;> rfl

theorem surfaceKept (surface fallback : BottomSurface) :
    enumValue BottomSurface.name bottomSurfaces fallback (.string surface.name) = surface := by
  cases surface <;> rfl

theorem workspaceKept (surface fallback : WorkspaceSurface) :
    enumValue WorkspaceSurface.name workspaceSurfaces fallback (.string surface.name) = surface := by
  cases surface <;> rfl

theorem parseSerialized {layout : WindowLayoutState} (bounded : Bounded layout) :
    parseWindowLayout (some (serialize layout)) = layout := by
  have bottom := boundedKept defaultWindowLayout.bottomHeight bounded.bottom
  have inspector := boundedKept defaultWindowLayout.inspectorWidth bounded.inspector
  have sidebar := boundedKept defaultWindowLayout.sidebarWidth bounded.sidebar
  simp [parseWindowLayout, serialize, field, List.lookup_cons, openValue, activityKept, surfaceKept, workspaceKept, bottom,
    inspector, sidebar]

namespace Hook

/-- The text that stands in the end, if the timer fires and the saves complete in their order. -/
def final (h : Hook) : Option Serialized := (h.saveTimer.or h.saves.getLast?).or h.persisted

def AtRest (h : Hook) : Prop := h.saveTimer = none ∧ h.saves = []

end Hook

/-- The steps that keep to the displayed layout: no commit returns early while another text is
armed or outstanding, and with no timer armed the newest save is not overtaken by itself. -/
def Settling (h : Hook) : Label → Prop
  | .commit => h.hydrated = true → h.lastPersisted = some (serialize h.layout) → h.final = some (serialize h.layout)
  | .complete index => h.saveTimer = none → ∀ last ∈ (h.saves.eraseIdx index).getLast?, h.saves.getLast? = some last
  | _ => True

instance (h : Hook) : Decidable h.AtRest := inferInstanceAs (Decidable (_ ∧ _))

instance (h : Hook) : (label : Label) → Decidable (Settling h label)
  | .commit => inferInstanceAs (Decidable (_ = true → _ = _ → _ = _))
  | .complete index => inferInstanceAs (Decidable (_ = none → ∀ last ∈ (h.saves.eraseIdx index).getLast?, _))
  | .update _ | .loaded _ | .timer => .isTrue trivial

structure Sound (h : Hook) : Prop where
  quiet : h.ready = false → h.saveTimer = none ∧ h.saves = []
  restored : h.ready = false → h.hydrated = true → h.persisted = h.lastPersisted
  agrees : h.ready = true → h.final = some (serialize h.displayed)
  hydrated : h.ready = true → h.hydrated = true

section Runs
variable {h h' : Hook}

theorem soundFirst : Sound .first :=
  ⟨fun _ => ⟨rfl, rfl⟩, fun _ hydrated => absurd hydrated (by decide), fun ready => absurd ready (by decide),
    fun ready => absurd ready (by decide)⟩

theorem finalRest (rest : h.AtRest) : h.final = h.persisted := by
  simp [Hook.final, rest.1, rest.2]

theorem soundReady (ready : h.ready = true) (agrees : h.final = some (serialize h.displayed))
    (hydrated : h.hydrated = true) : Sound h where
  quiet unready := absurd ready (by simp [unready])
  restored unready := absurd ready (by simp [unready])
  agrees _ := agrees
  hydrated _ := hydrated

theorem soundCommit (sound : Sound h) (settling : Settling h .commit) :
    Sound { h with displayed := h.layout, ready := h.hydrated, updated := false }.saveEffect := by
  unfold Hook.saveEffect
  dsimp only
  split
  · rename_i hydrated
    split
    · rename_i early
      exact soundReady hydrated (settling hydrated early) hydrated
    · exact soundReady hydrated rfl hydrated
  · rename_i waits
    have unready : h.ready = false := Bool.eq_false_iff.mpr fun ready => waits (sound.hydrated ready)
    exact ⟨fun _ => sound.quiet unready, fun _ hydrated => absurd hydrated waits,
      fun hydrated => absurd hydrated waits, id⟩

theorem completeFinal {index : Nat} {serialized : Serialized} (settling : Settling h (.complete index))
    (here : h.saves[index]? = some serialized) :
    { h with saves := h.saves.eraseIdx index, persisted := some serialized, lastPersisted := some serialized }.final =
      h.final := by
  unfold Hook.final
  cases armed : h.saveTimer with
  | some text => rfl
  | none =>
    cases remains : (h.saves.eraseIdx index).getLast? with
    | some last =>
      rw [settling armed last remains]
      rfl
    | none =>
      -- The last save is the only one.
      have ⟨less, same⟩ := List.getElem?_eq_some_iff.mp here
      have length := List.length_eraseIdx_of_lt less
      rw [List.getLast?_eq_none_iff.mp remains, List.length_nil] at length
      obtain ⟨only, shape⟩ := List.length_eq_one_iff.mp (show h.saves.length = 1 by omega)
      rw [shape] at here ⊢
      have single : index = 0 := by rw [shape] at less; simpa using less
      rw [single] at here
      simpa using here.symm

theorem soundStep {label : Label} (sound : Sound h) (settling : Settling h label) (steps : step h label = some h') :
    Sound h' := by
  cases label with
  | update patch =>
    cases Option.some.inj steps
    exact ⟨sound.quiet, sound.restored, sound.agrees, sound.hydrated⟩
  | loaded stored =>
    simp only [step] at steps
    split at steps
    · cases steps
    · rename_i waits
      cases Option.some.inj steps
      have unready : h.ready = false :=
        Bool.eq_false_iff.mpr fun ready => waits (sound.hydrated ready)
      exact ⟨sound.quiet, fun _ _ => rfl, fun ready => absurd ready (by simp [Hook.load, unready]), fun _ => rfl⟩
  | commit =>
    simp only [step] at steps
    split at steps
    · cases Option.some.inj steps
      exact soundCommit sound settling
    · cases steps
  | timer =>
    obtain ⟨serialized, armed, rfl⟩ := Option.map_eq_some_iff.mp steps
    have ready : h.ready = true := by
      by_contra unready
      rw [(sound.quiet (Bool.eq_false_iff.mpr unready)).1] at armed
      cases armed
    refine soundReady ready ?_ (sound.hydrated ready)
    rw [← sound.agrees ready]
    simp [Hook.final, armed]
  | complete index =>
    obtain ⟨serialized, here, rfl⟩ := Option.map_eq_some_iff.mp steps
    have ready : h.ready = true := by
      by_contra unready
      rw [(sound.quiet (Bool.eq_false_iff.mpr unready)).2] at here
      cases here
    refine soundReady ready ?_ (sound.hydrated ready)
    rw [completeFinal settling here]
    exact sound.agrees ready

theorem savesRest (saves : List Serialized) (unarmed : h.saveTimer = none) (outstanding : h.saves = saves) :
    ∃ rest, Reach step Any h rest ∧ rest.AtRest ∧ rest.persisted = h.final ∧ rest.displayed = h.displayed := by
  induction saves generalizing h with
  | nil => exact ⟨h, .start, ⟨unarmed, outstanding⟩, (finalRest ⟨unarmed, outstanding⟩).symm, rfl⟩
  | cons serialized others ih =>
    have steps : step h (.complete 0) =
        some { h with saves := others, persisted := some serialized, lastPersisted := some serialized } := by
      simp [step, outstanding]
    obtain ⟨rest, reached, atRest, persisted, displayed⟩ := ih
      (h := { h with saves := others, persisted := some serialized, lastPersisted := some serialized }) unarmed rfl
    refine ⟨rest, reachTrans (.step _ .start trivial steps) reached, atRest, ?_, displayed⟩
    rw [persisted]
    cases last : others.getLast? <;> simp [Hook.final, unarmed, outstanding, List.getLast?_cons, last]

theorem playsOut (h : Hook) :
    ∃ rest, Reach step Any h rest ∧ rest.AtRest ∧ rest.persisted = h.final ∧ rest.displayed = h.displayed := by
  cases armed : h.saveTimer with
  | none => exact savesRest h.saves armed rfl
  | some serialized =>
    have steps : step h .timer = some { h with saveTimer := none, saves := h.saves ++ [serialized] } := by
      simp [step, armed]
    obtain ⟨rest, reached, atRest, persisted, displayed⟩ := savesRest
      (h := { h with saveTimer := none, saves := h.saves ++ [serialized] }) _ rfl rfl
    refine ⟨rest, reachTrans (.step _ .start trivial steps) reached, atRest, ?_, displayed⟩
    rw [persisted]
    simp [Hook.final, armed]

theorem unsettledFinal {label : Label} (sound : Sound h) (steps : step h label = some h')
    (unsettled : ¬ Settling h label) : h'.final ≠ some (serialize h'.displayed) := by
  cases label with
  | update patch => exact absurd trivial unsettled
  | loaded stored => exact absurd trivial unsettled
  | timer => exact absurd trivial unsettled
  | commit =>
    simp only [Settling, not_forall] at unsettled
    obtain ⟨hydrated, early, other⟩ := unsettled
    simp only [step, Hook.saveEffect, hydrated, early, if_true] at steps
    split at steps
    · cases Option.some.inj steps
      exact other
    · cases steps
  | complete index =>
    simp only [Settling, not_forall] at unsettled
    obtain ⟨unarmed, last, remains, other⟩ := unsettled
    obtain ⟨serialized, here, rfl⟩ := Option.map_eq_some_iff.mp steps
    have ready : h.ready = true := by
      by_contra unready
      rw [(sound.quiet (Bool.eq_false_iff.mpr unready)).2] at here
      cases here
    obtain ⟨newest, outstanding⟩ : ∃ newest, h.saves.getLast? = some newest :=
      ⟨_, List.getLast?_eq_some_getLast (List.ne_nil_of_mem (List.mem_of_getElem? here))⟩
    have agrees := sound.agrees ready
    have remains' : (h.saves.eraseIdx index).getLast? = some last := remains
    simp only [Hook.final, unarmed, outstanding, remains', Option.none_or, Option.some_or] at agrees other ⊢
    rw [← agrees]
    exact fun same => other same.symm

theorem soundRun (reached : Reach step Settling .first h) : Sound h := reachInvariant reached soundFirst soundStep

/-- In a run of settling steps what is persisted at rest is what is displayed. After a first
step that is none of them the hook may come to rest with something else. -/
theorem layoutAgrees (reached : Reach step Settling .first h) :
    (h.ready = true → h.AtRest → h.persisted = some (serialize h.displayed)) ∧
      ∀ label h', step h label = some h' → ¬ Settling h label →
        ∃ rest, Reach step Any h' rest ∧ rest.AtRest ∧ rest.persisted ≠ some (serialize rest.displayed) := by
  have sound := soundRun reached
  constructor
  · intro ready atRest
    rw [← finalRest atRest]
    exact sound.agrees ready
  · intro label h' steps unsettled
    obtain ⟨rest, reached', atRest, persisted, displayed⟩ := playsOut h'
    refine ⟨rest, reached', atRest, ?_⟩
    rw [persisted, displayed]
    exact unsettledFinal sound steps unsettled

end Runs

def sidebar (shown : Bool) : Label := .update ⟨none, none, none, none, none, none, some shown, none, none⟩

def apart : List Label :=
  [.loaded none, .commit, sidebar false, .commit, .timer, .complete 0, sidebar true, .commit, .timer, .complete 0]

theorem layoutAgreesApart : ∃ h, run step Settling .first apart = some h ∧
    h.persisted = some (serialize h.displayed) ∧ h.displayed.sidebarOpen = true := by
  have ran : (run step Settling .first apart).any
      (fun h => h.ready = true ∧ h.AtRest ∧ h.displayed.sidebarOpen = true) = true := by decide
  obtain ⟨h, reached, shows⟩ := (Option.any_eq_true _ _).mp ran
  obtain ⟨ready, atRest, shown⟩ := of_decide_eq_true shows
  exact ⟨h, reached, (layoutAgrees (reachRun .start reached)).1 ready atRest, shown⟩

/-- Both changes within one wait of the timer: the second returns early, and the first is saved. -/
def within : List Label :=
  [.loaded none, .commit, sidebar false, .commit, sidebar true, .commit, .timer, .complete 0]

theorem withinDiffers : ∃ h, run step Any .first within = some h ∧ h.ready = true ∧ h.AtRest ∧
    h.displayed.sidebarOpen = true ∧ h.persisted ≠ some (serialize h.displayed) := by
  have ran : (run step Any .first within).any (fun h => h.ready = true ∧ h.AtRest ∧
      h.displayed.sidebarOpen = true ∧ h.persisted ≠ some (serialize h.displayed)) = true := by decide
  obtain ⟨h, reached, shows⟩ := (Option.any_eq_true _ _).mp ran
  exact ⟨h, reached, of_decide_eq_true shows⟩

end Maestro.WindowLayout
