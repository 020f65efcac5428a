import Maestro.Interleaving

/-! A program that runs alone and may stop before any of its actions: what holds of the memory
wherever it stops, and what it ends with. -/
namespace Maestro.Interleaving
variable {A : Actions} {Memory Choice : Type} (apply : (o : A.Act) → Choice → Memory → Option (A.Answer o × Memory))
  {α β : Type}

/-- The rest of a program and the memory as some actions leave them. -/
inductive Runs : Prog A α → Memory → Prog A α → Memory → Prop where
  | here {p m} : Runs p m p m
  | step {o next choice m answer m' p m''} (applied : apply o choice m = some (answer, m'))
      (rest : Runs (next answer) m' p m'') : Runs (.act o next) m p m''

/-- `inv` holds at each point and `post` of what the program ends with. -/
def Survives (inv : Memory → Prop) (post : α → Memory → Prop) : Prog A α → Memory → Prop
  | .done value, m => inv m ∧ post value m
  | .act o next, m => inv m ∧ ∀ choice answer m', apply o choice m = some (answer, m') → Survives inv post (next answer) m'

variable {apply} {inv : Memory → Prop} {post : α → Memory → Prop} {p : Prog A α} {m : Memory}

theorem survivesHere (survives : Survives apply inv post p m) : inv m := by
  cases p with
  | done value => exact survives.1
  | act o next => exact survives.1

theorem survivesMono {wider : Memory → Prop} {post' : α → Memory → Prop} (survives : Survives apply inv post p m)
    (inside : ∀ m, inv m → wider m) (imp : ∀ value m, inv m → post value m → post' value m) :
    Survives apply wider post' p m := by
  induction p generalizing m with
  | done value => exact ⟨inside m survives.1, imp value m survives.1 survives.2⟩
  | act o next ih => exact ⟨inside m survives.1, fun choice answer m' applied => ih answer (survives.2 choice answer m' applied)⟩

theorem survivesBind {f : α → Prog A β} {post' : β → Memory → Prop} (first : Survives apply inv post p m)
    (second : ∀ value m, inv m → post value m → Survives apply inv post' (f value) m) :
    Survives apply inv post' (p >>= f) m := by
  induction p generalizing m with
  | done value => exact second value m first.1 first.2
  | act o next ih => exact ⟨first.1, fun choice answer m' applied => ih answer (first.2 choice answer m' applied)⟩

theorem survivesRuns {p' : Prog A α} {m' : Memory} (survives : Survives apply inv post p m) (runs : Runs apply p m p' m') :
    inv m' ∧ ∀ value, p' = .done value → post value m' := by
  induction runs with
  | here =>
    refine ⟨survivesHere survives, fun value ended => ?_⟩
    subst ended
    exact survives.2
  | step applied _ ih => exact ih (survives.2 _ _ _ applied)

/-- The program with these choices in turn, up to its end. -/
def drive (apply : (o : A.Act) → Choice → Memory → Option (A.Answer o × Memory)) :
    List Choice → Prog A α → Memory → Option (α × Memory)
  | _, .done value, m => some (value, m)
  | [], .act _ _, _ => none
  | choice :: rest, .act o next, m =>
    match apply o choice m with
    | none => none
    | some (answer, m') => drive apply rest (next answer) m'

theorem driveRuns {choices : List Choice} {value : α} {m' : Memory} (driven : drive apply choices p m = some (value, m')) :
    Runs apply p m (.done value) m' := by
  induction p generalizing choices m with
  | done value =>
    simp only [drive] at driven
    cases driven
    exact .here
  | act o next ih =>
    cases choices with
    | nil => cases driven
    | cons choice rest =>
      simp only [drive] at driven
      split at driven
      · contradiction
      · rename_i applied
        exact .step applied (ih _ driven)

end Maestro.Interleaving
