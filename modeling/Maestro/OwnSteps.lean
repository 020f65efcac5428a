import Maestro.Outline

/-! A task that goes on among the others without them: where it gets to by its own steps. -/
namespace Maestro.Interleaving
open Prog Protocol

variable {A : Actions} {M : Machine A}

theorem advanceRest (bodies : ∀ e last, M.body e ≠ .done (some last)) {t : Task M} {o answer next} :
    ∀ last, (t.advance o answer next).rest ≠ .done (some last) := by
  cases next with
  | done last =>
    cases last with
    | some e => exact bodies e
    | none => exact fun last same => by cases same
  | act o' k => exact fun last same => by cases same

theorem advanceStays {P : Protocol M} {t : Task M} {o answer next}
    (fresh : ∀ e, P.place (t.advance o answer next) ≠ P.enter e) :
    (t.advance o answer next).rest = next ∧ ∀ last, next ≠ .done (some last) := by
  cases next with
  | done last =>
    cases last with
    | some e => exact absurd rfl (fresh e)
    | none => exact ⟨rfl, fun last same => by cases same⟩
  | act o' k => exact ⟨rfl, fun last same => by cases same⟩

theorem movesRest (bodies : ∀ e last, M.body e ≠ .done (some last)) {c : Config M} {e c'}
    (before : ∀ t ∈ c.tasks, ∀ last, t.rest ≠ .done (some last)) (moves : Moves c e c') :
    ∀ t ∈ c'.tasks, ∀ last, t.rest ≠ .done (some last) := by
  cases moves with
  | call allowed =>
    intro t member
    rcases List.mem_append.mp member with old | new
    · exact before t old
    · cases List.mem_singleton.mp new
      exact bodies _
  | @act index choice t o answer memory next performs =>
    intro u member
    obtain ⟨j, found⟩ := List.getElem?_of_mem member
    rcases taskCases found with ⟨_, rfl⟩ | ⟨_, old⟩ | ⟨_, e, _, rfl⟩
    · exact advanceRest bodies
    · exact before u (List.mem_of_getElem? old)
    · exact bodies e
  | outside effect => exact before

theorem reachRest (bodies : ∀ e last, M.body e ≠ .done (some last))
    {Good : Config M → Event M → Prop} {start c : Config M}
    (first : ∀ t ∈ start.tasks, ∀ last, t.rest ≠ .done (some last)) (reach : Reach Good start c) :
    ∀ t ∈ c.tasks, ∀ last, t.rest ≠ .done (some last) :=
  reachInvariant first (fun _ before _ moves => movesRest bodies before moves) reach

namespace Outline
variable {P : Protocol M} (O : Outline P) (Allowed : P.Place → A.Act → M.Memory → Prop)

/-- Inside `within` every allowed action has an answer that leads on, until the task is at a
target; `kept` holds of the memory all along. -/
structure Proceeds (kept : M.Memory → Prop) (within : P.Place → Prop)
    (target : P.Place → M.Memory → Prop) : Prop where
  enabled : ∀ {q o m}, O.Inv m → O.Here q m → kept m → within q → P.may q o →
    Allowed q o m ∧ ∃ choice answer m', M.apply o choice m = some (answer, m') ∧ kept m' ∧
      (target (P.after q o answer) m' ∨
        (within (P.after q o answer) ∧ ∀ e, P.after q o answer ≠ P.enter e))
  goesOn : ∀ {q}, within q → ¬ P.ends q

variable {O Allowed} {kept : M.Memory → Prop} {within : P.Place → Prop}
  {target : P.Place → M.Memory → Prop}

/-- What a task reaches by its own steps; the others stay where they are. -/
structure Gets (O : Outline P) (kept : M.Memory → Prop) (target : P.Place → M.Memory → Prop)
    (c : Config M) (i : Nat) (c' : Config M) : Prop where
  holds : O.Holds c'
  kept : kept c'.memory
  others : ∀ {j u}, j ≠ i → c.tasks[j]? = some u → c'.tasks[j]? = some u
  reached : ∃ t, c'.tasks[i]? = some t ∧ target (P.place t) c'.memory

theorem proceeds (sound : P.Sound) (valid : O.Valid Allowed)
    (alone : O.Proceeds Allowed kept within target) {c : Config M} {i t} (holds : O.Holds c)
    (here : kept c.memory) (present : c.tasks[i]? = some t) (inside : within (P.place t))
    (going : ∀ last, t.rest ≠ .done (some last)) :
    ∃ (choices : List M.Choice) (c' : Config M), runFrom c (choices.map (.run i)) = some c' ∧ O.Gets kept target c i c' := by
  generalize left : t.rest = p at going
  induction p generalizing c t with
  | done last =>
    cases last with
    | some e => exact absurd rfl (going e)
    | none => exact absurd (placedEnds (holds.placed t (List.mem_of_getElem? present)) left) (alone.goesOn inside)
  | act o next ih =>
    have allowed := placedNext (holds.placed t (List.mem_of_getElem? present)) (show t.next = some o by
      simp [Task.next, left])
    obtain ⟨good, choice, answer, m', effect, here', leads⟩ :=
      alone.enabled holds.inv (holds.here present) here inside allowed
    have performs : Performs c i choice t o answer m' (next answer) := ⟨present, ⟨next, left, rfl⟩, effect⟩
    have obeys := performsObeys sound holds.placed performs
    have moved := holdsAct sound valid holds performs good
    have stepped : step c (.run i choice) =
        some ⟨m', c.tasks.set i (t.advance o answer (next answer)) ++ spawned o⟩ := by
      simp only [step, present, left, effect]
    have stays : ∀ {j u}, j ≠ i → c.tasks[j]? = some u →
        (c.tasks.set i (t.advance o answer (next answer)) ++ spawned o)[j]? = some u := otherTask
    rcases leads with there | ⟨inside', fresh⟩
    · refine ⟨[choice], _, by simp only [List.map_cons, List.map_nil, runFrom, stepped], moved, here', stays,
        _, movedTask present, ?_⟩
      rw [obeys.reached]
      exact there
    · have rest := advanceStays (P := P) (t := t) fun e => obeys.reached.symm ▸ fresh e
      obtain ⟨choices, c', ran, gets⟩ := ih answer moved here' (movedTask present) (obeys.reached ▸ inside')
        rest.1 rest.2
      refine ⟨choice :: choices, c', by simp only [List.map_cons, runFrom, stepped, ran], gets.holds, gets.kept,
        fun different found => gets.others different (stays different found), gets.reached⟩

end Outline
end Maestro.Interleaving
