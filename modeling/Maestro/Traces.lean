import Maestro.Stepping

/-! Endless traces of a system that takes a step or rests at each moment. -/
namespace Maestro.Stepping

variable {State Label : Type*}

structure Behaves (step : State → Label → Option State) (first : State) (trace : Nat → State) : Prop where
  begins : trace 0 = first
  moves : ∀ t, trace (t + 1) = trace t ∨ ∃ label, step (trace t) label = some (trace (t + 1))

def Eventually (trace : Nat → State) (t : Nat) (P : State → Prop) : Prop := ∃ t', t ≤ t' ∧ P (trace t')

namespace Behaves
variable {step : State → Label → Option State} {first : State} {trace : Nat → State}

theorem stays (behaves : Behaves step first trace) {P : State → Prop}
    (keeps : ∀ {s label s'}, P s → step s label = some s' → P s') {t t' : Nat} (later : t ≤ t')
    (holds : P (trace t)) : P (trace t') := by
  induction later with
  | refl => exact holds
  | @step t' _ ih =>
    rcases behaves.moves t' with rests | ⟨label, steps⟩
    · rwa [rests]
    · exact keeps ih steps

theorem reach (behaves : Behaves step first trace) (t : Nat) : Reach step (fun _ _ => True) first (trace t) :=
  behaves.stays (fun before steps => .step _ before trivial steps) (Nat.zero_le t) (behaves.begins ▸ .start)

end Behaves

variable (step : State → Label → Option State) (first : State)

/-- A label that has no step is passed over, and the system rests behind the last one. -/
def played (labels : List Label) (t : Nat) : State :=
  (labels.take t).foldl (fun s label => (step s label).getD s) first

variable {step first}

theorem playedRests {labels : List Label} {t : Nat} (late : labels.length ≤ t) :
    played step first labels t = played step first labels labels.length := by
  rw [played, played, List.take_of_length_le late, List.take_length]

theorem playedEventually {labels : List Label} {P : State → Prop} {last : State}
    (ends : played step first labels labels.length = last) (holds : P last) (t : Nat) :
    Eventually (played step first labels) t P := by
  refine ⟨t + labels.length, Nat.le_add_right _ _, ?_⟩
  rwa [playedRests (Nat.le_add_left _ t), ends]

theorem playedBehaves (labels : List Label) : Behaves step first (played step first labels) where
  begins := rfl
  moves t := by
    by_cases early : t < labels.length
    · have unfolds : played step first labels (t + 1) =
          (step (played step first labels t) labels[t]).getD (played step first labels t) := by
        rw [played, List.take_succ_eq_append_getElem early, List.foldl_append]
        rfl
      rw [unfolds]
      cases steps : step (played step first labels t) labels[t] with
      | none => exact .inl rfl
      | some next => exact .inr ⟨labels[t], steps⟩
    · exact .inl ((playedRests (Nat.le_succ_of_le (Nat.le_of_not_lt early))).trans
        (playedRests (Nat.le_of_not_lt early)).symm)

end Maestro.Stepping
