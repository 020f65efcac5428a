import Maestro.Interleaving

/-! A program that runs alone, whatever its environment answers; `past` are the answers. -/
namespace Maestro.Interleaving
open Prog

variable {A : Actions} {M : Machine A}

inductive Alone (M : Machine A) {α : Type} : Prog A α → M.Memory → Past A → α → M.Memory → Prop where
  | done {value m} : Alone M (.done value) m [] value m
  | act {o next choice m answer mid past value m'} (effect : M.apply o choice m = some (answer, mid))
      (rest : Alone M (next answer) mid past value m') :
      Alone M (.act o next) m (⟨o, answer⟩ :: past) value m'

variable {α β : Type} {m m' : M.Memory} {past : Past A}

theorem aloneDone {value last : α} (ran : Alone M (.done value) m past last m') :
    past = [] ∧ last = value ∧ m' = m := by
  cases ran
  exact ⟨rfl, rfl, rfl⟩

theorem aloneAct {o : A.Act} {next : A.Answer o → Prog A α} {last : α}
    (ran : Alone M (.act o next) m past last m') :
    ∃ choice answer mid rest, M.apply o choice m = some (answer, mid) ∧
      past = ⟨o, answer⟩ :: rest ∧ Alone M (next answer) mid rest last m' := by
  cases ran with
  | act effect rest => exact ⟨_, _, _, _, effect, rfl, rest⟩

theorem aloneBind {p : Prog A α} {f : α → Prog A β} {last : β}
    (ran : Alone M (p >>= f) m past last m') :
    ∃ value mid first rest, past = first ++ rest ∧ Alone M p m first value mid ∧
      Alone M (f value) mid rest last m' := by
  induction p generalizing m past with
  | done value => exact ⟨value, m, [], past, rfl, .done, ran⟩
  | act o next ih =>
    obtain ⟨choice, answer, mid, tail, effect, rfl, later⟩ := aloneAct ran
    obtain ⟨value, mid', first, rest, rfl, here, after⟩ := ih answer later
    exact ⟨value, mid', ⟨o, answer⟩ :: first, rest, rfl, .act effect here, after⟩

/-- What every run of the program from `m` ends with. -/
def Ensures (M : Machine A) {α : Type} (p : Prog A α) (m : M.Memory)
    (post : Past A → α → M.Memory → Prop) : Prop :=
  ∀ past value m', Alone M p m past value m' → post past value m'

theorem ensuresDone {value : α} {post : Past A → α → M.Memory → Prop} (here : post [] value m) :
    Ensures M (.done value) m post := by
  intro past last m' ran
  obtain ⟨rfl, rfl, rfl⟩ := aloneDone ran
  exact here

theorem ensuresStep {o : A.Act} {f : A.Answer o → Prog A β} {post : Past A → β → M.Memory → Prop}
    (rest : ∀ choice answer mid, M.apply o choice m = some (answer, mid) →
      Ensures M (f answer) mid fun past => post (⟨o, answer⟩ :: past)) :
    Ensures M (Prog.act o .done >>= f) m post := by
  intro past last m' ran
  obtain ⟨choice, answer, mid, tail, effect, rfl, later⟩ := aloneAct ran
  exact rest choice answer mid effect tail last m' later

theorem ensuresSeq {p : Prog A α} {f : α → Prog A β} {mid : Past A → α → M.Memory → Prop}
    {post : Past A → β → M.Memory → Prop} (first : Ensures M p m mid)
    (rest : ∀ past value m', mid past value m' →
      Ensures M (f value) m' fun later => post (past ++ later)) :
    Ensures M (p >>= f) m post := by
  intro past last m' ran
  obtain ⟨value, m₁, before, later, rfl, here, after⟩ := aloneBind ran
  exact rest before value m₁ (first before value m₁ here) later last m' after

/-- The run in which the environment decides `choices`. -/
def Prog.play (M : Machine A) {α : Type} :
    List M.Choice → Prog A α → M.Memory → Option (Past A × α × M.Memory)
  | _, .done value, m => some ([], value, m)
  | [], .act _ _, _ => none
  | choice :: choices, .act o next, m =>
    match M.apply o choice m with
    | none => none
    | some (answer, mid) =>
      (play M choices (next answer) mid).map fun played => (⟨o, answer⟩ :: played.1, played.2)

theorem playAlone {choices : List M.Choice} {p : Prog A α} {value : α}
    (played : p.play M choices m = some (past, value, m')) : Alone M p m past value m' := by
  induction choices generalizing p m past with
  | nil =>
    cases p with
    | done last =>
      cases Option.some.inj played
      exact .done
    | act o next => cases played
  | cons choice choices ih =>
    cases p with
    | done last =>
      cases Option.some.inj played
      exact .done
    | act o next =>
      simp only [Prog.play] at played
      split at played
      · cases played
      · rename_i answer mid effect
        obtain ⟨⟨past', value', last⟩, rest, same⟩ := Option.map_eq_some_iff.mp played
        cases same
        exact .act effect (ih rest)

end Maestro.Interleaving
