import Mathlib.Data.List.Basic

/-! Systems that take one labelled step after another. `May` says which steps a run takes. -/
namespace Maestro.Stepping

variable {State Label : Type*} (step : State → Label → Option State)

inductive Reach (May : State → Label → Prop) (first : State) : State → Prop
  | start : Reach May first first
  | step {s s' : State} (label : Label) (before : Reach May first s) (may : May s label)
      (steps : step s label = some s') : Reach May first s'

def Any (_ : State) (_ : Label) : Prop := True

instance (s : State) (label : Label) : Decidable (Any s label) := .isTrue trivial

def run (May : State → Label → Prop) [∀ s label, Decidable (May s label)] (s : State) :
    List Label → Option State
  | [] => some s
  | label :: labels =>
    if May s label then (step s label).bind fun next => run May next labels else none

variable {step} {May Other : State → Label → Prop} {first s s' : State}

theorem reachRun [∀ s label, Decidable (May s label)] {labels : List Label}
    (reached : Reach step May first s) (ran : run step May s labels = some s') :
    Reach step May first s' := by
  induction labels generalizing s with
  | nil =>
    cases Option.some.inj ran
    exact reached
  | cons label labels ih =>
    simp only [run] at ran
    split at ran
    · rename_i may
      obtain ⟨next, steps, rest⟩ := Option.bind_eq_some_iff.mp ran
      exact ih (.step label reached may steps) rest
    · cases ran

theorem runStep [∀ s label, Decidable (May s label)] {label : Label} {labels : List Label}
    (may : May s label) (steps : step s label = some s') :
    run step May s (label :: labels) = run step May s' labels := by
  simp only [run, if_pos may, steps, Option.bind_some]

theorem reachMono (wider : ∀ s label, May s label → Other s label) (reached : Reach step May first s) :
    Reach step Other first s := by
  induction reached with
  | start => exact .start
  | step label before may steps ih => exact .step label ih (wider _ _ may) steps

theorem reachTrans (before : Reach step May first s) (after : Reach step May s s') : Reach step May first s' := by
  induction after with
  | start => exact before
  | step label _ may steps ih => exact .step label ih may steps

theorem reachInvariant {Inv : State → Prop} (reached : Reach step May first s) (holds : Inv first)
    (keeps : ∀ {s label s'}, Inv s → May s label → step s label = some s' → Inv s') : Inv s := by
  induction reached with
  | start => exact holds
  | step label before may steps ih => exact keeps ih may steps

end Maestro.Stepping
