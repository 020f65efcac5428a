import Mathlib.Data.List.Basic
import Mathlib.Logic.Function.Basic

/-! A store of pages with a write-ahead log. A transaction counts once its commit frame
is in the log; a checkpoint copies pages of the log into the main file, in any order and
as many as it gets to, and the log is dropped only when all of them were copied. -/
namespace Maestro.WriteAheadLog

variable {Page Data : Type}

/-- `sealed` are the frames up to the last commit frame. What lies behind it belongs to
no transaction yet, and the next one writes over it. The header is one unit of `length`. -/
structure Log (Page Data : Type) where
  sealed : List (Page × Data)
  tail : List (Page × Data)
  length : Nat
  deriving DecidableEq, Repr

def Log.empty : Log Page Data := ⟨[], [], 0⟩

structure Files (Page Data : Type) where
  main : Page → Data
  log : Option (Log Page Data)

namespace Files

def sealed (f : Files Page Data) : List (Page × Data) := (f.log.map Log.sealed).getD []

def tail (f : Files Page Data) : List (Page × Data) := (f.log.map Log.tail).getD []

def logLength (f : Files Page Data) : Nat := (f.log.map Log.length).getD 0

def openLog (f : Files Page Data) : Files Page Data := { f with log := some (f.log.getD .empty) }

/-- A fresh header makes the frames behind it void. -/
def startLog (f : Files Page Data) : Files Page Data :=
  { f with log := some ⟨[], [], max 1 f.logLength⟩ }

/-- The frame behind the last commit frame, or the next one of its transaction. -/
def spill (f : Files Page Data) (first : Bool) (write : Page × Data) : Files Page Data :=
  let log := f.log.getD .empty
  let tail := if first then [write] else log.tail ++ [write]
  { f with log := some ⟨log.sealed, tail, max log.length (1 + log.sealed.length + tail.length)⟩ }

def commit (f : Files Page Data) : Files Page Data :=
  let log := f.log.getD .empty
  { f with log := some { log with sealed := log.sealed ++ log.tail, tail := [] } }

def truncate (f : Files Page Data) : Files Page Data := { f with log := some .empty }

def removeLog (f : Files Page Data) : Files Page Data := { f with log := none }

def Sound (f : Files Page Data) : Prop :=
  ∀ log, f.log = some log → log.length = 0 → log.sealed = [] ∧ log.tail = []

end Files

section Sound
variable {f : Files Page Data} {write : Page × Data}

theorem openSound (sound : f.Sound) : f.openLog.Sound := by
  intro log found empty
  cases Option.some.inj found
  cases had : f.log with
  | none => exact ⟨rfl, rfl⟩
  | some log => exact sound log had (by simpa [had] using empty)

theorem startSound : f.startLog.Sound := by
  intro log found empty
  cases Option.some.inj found
  exact ⟨rfl, rfl⟩

theorem spillSound {first : Bool} : (f.spill first write).Sound := by
  intro log found empty
  cases Option.some.inj found
  simp only at empty
  omega

theorem commitSound (sound : f.Sound) : f.commit.Sound := by
  intro log found empty
  cases Option.some.inj found
  cases had : f.log with
  | none => exact ⟨rfl, rfl⟩
  | some log =>
    have before := sound log had (by simpa [had] using empty)
    simp [before.1, before.2]

theorem truncateSound : f.truncate.Sound := by
  intro log found _
  cases Option.some.inj found
  exact ⟨rfl, rfl⟩

theorem removeSound : f.removeLog.Sound := by
  intro log found
  cases found

theorem soundSealed (sound : f.Sound) (empty : f.logLength = 0) : f.sealed = [] := by
  unfold Files.logLength at empty
  unfold Files.sealed
  cases found : f.log with
  | none => rfl
  | some log => exact (sound log found (by simpa [found] using empty)).1

end Sound

variable [DecidableEq Page]

def overlay (image : Page → Data) (writes : List (Page × Data)) : Page → Data :=
  writes.foldl (fun image write => Function.update image write.1 write.2) image

namespace Files

def view (f : Files Page Data) : Page → Data := overlay f.main f.sealed

def Complete (f : Files Page Data) : Prop := ∀ write ∈ f.sealed, f.main write.1 = f.view write.1

instance [DecidableEq Data] (f : Files Page Data) : Decidable f.Complete :=
  inferInstanceAs (Decidable (∀ write ∈ f.sealed, _))

def backfill (f : Files Page Data) (page : Page) : Files Page Data :=
  { f with main := Function.update f.main page (f.view page) }

end Files

section Overlays
variable {image other : Page → Data} {writes more : List (Page × Data)} {page : Page}

@[simp] theorem overlayNil : overlay image [] = image := rfl

theorem overlayAppend : overlay image (writes ++ more) = overlay (overlay image writes) more := by
  simp [overlay]

theorem overlayAgree (same : image page = other page ∨ page ∈ writes.map Prod.fst) :
    overlay image writes page = overlay other writes page := by
  induction writes generalizing image other with
  | nil => simpa using same
  | cons write writes ih =>
    refine ih ?_
    by_cases here : page = write.1
    · subst here
      exact .inl (by simp)
    · rcases same with same | member
      · exact .inl (by simpa [Function.update, here] using same)
      · exact .inr (by simpa [here] using member)

theorem overlayUntouched (absent : page ∉ writes.map Prod.fst) :
    overlay image writes page = image page := by
  induction writes generalizing image with
  | nil => rfl
  | cons write writes ih =>
    simp only [List.map_cons, List.mem_cons, not_or] at absent
    exact (ih absent.2).trans (Function.update_of_ne absent.1 ..)

end Overlays

section Steps
variable {f : Files Page Data} {page : Page} {write : Page × Data}

theorem backfillView : (f.backfill page).view = f.view := by
  funext other
  by_cases here : other = page
  · subst here
    by_cases member : other ∈ f.sealed.map Prod.fst
    · exact overlayAgree (.inr member)
    · calc (f.backfill other).view other = (f.backfill other).main other := overlayUntouched member
        _ = f.view other := Function.update_self ..
  · exact overlayAgree (.inl (Function.update_of_ne here ..))

theorem completeView (complete : f.Complete) : f.main = f.view := by
  funext page
  by_cases member : page ∈ f.sealed.map Prod.fst
  · obtain ⟨write, present, rfl⟩ := List.mem_map.mp member
    exact complete write present
  · exact (overlayUntouched member).symm

theorem dropView {log : Option (Log Page Data)} (complete : f.Complete)
    (empty : (log.map Log.sealed).getD [] = []) : Files.view { f with log := log } = f.view := by
  have sealed : Files.sealed { f with log := log } = [] := empty
  unfold Files.view
  rw [sealed, overlayNil]
  exact completeView complete

theorem startView (complete : f.Complete) : f.startLog.view = f.view := dropView complete rfl
theorem truncateView (complete : f.Complete) : f.truncate.view = f.view := dropView complete rfl
theorem removeView (complete : f.Complete) : f.removeLog.view = f.view := dropView complete rfl

theorem openView : f.openLog.view = f.view := by
  cases found : f.log <;> simp [Files.openLog, Files.view, Files.sealed, found, Log.empty]

theorem spillView {first : Bool} : (f.spill first write).view = f.view := by
  cases found : f.log <;> simp [Files.spill, Files.view, Files.sealed, found, Log.empty]

theorem commitView : f.commit.view = overlay f.view f.tail := by
  cases found : f.log <;> simp [Files.commit, Files.view, Files.sealed, Files.tail, found, Log.empty, overlayAppend]

theorem emptyView (sound : f.Sound) (empty : f.logLength = 0) : f.main = f.view := by
  unfold Files.view
  rw [soundSealed sound empty, overlayNil]

end Steps
end Maestro.WriteAheadLog
