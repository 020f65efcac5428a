import Mathlib.Algebra.GroupWithZero.Nat
import Maestro.Outline

/-! Quantities spread over the shared memory and the places of the tasks. A ledger measures
both; an action that keeps their sum where it happens keeps the total. -/
namespace Maestro.Interleaving

theorem sumSet {α : Type} {f : α → Nat} {xs : List α} {i : Nat} {old new : α}
    (present : xs[i]? = some old) : ((xs.set i new).map f).sum + f old = (xs.map f).sum + f new := by
  induction xs generalizing i with
  | nil => cases present
  | cons x xs ih =>
    cases i with
    | zero =>
      cases Option.some.inj present
      simp only [List.set_cons_zero, List.map_cons, List.sum_cons]
      omega
    | succ i =>
      have rest := ih present
      simp only [List.set_cons_succ, List.map_cons, List.sum_cons]
      omega

namespace Protocol
variable {A : Actions} {M : Machine A} (P : Protocol M)

def tally (f : P.Place → Nat) (tasks : List (Task M)) : Nat :=
  (tasks.map fun t => f (P.place t)).sum

def spawnedTally (f : P.Place → Nat) (o : A.Act) : Nat :=
  match M.spawns o with
  | none => 0
  | some e => f (P.enter e)

variable {P} {f g : P.Place → Nat}

theorem tallyCall {tasks : List (Task M)} {e : M.Entry} :
    P.tally f (tasks ++ [.enter e]) = P.tally f tasks + f (P.enter e) := by
  simp [tally]

theorem tallySpawned {o : A.Act} : P.tally f (spawned o) = P.spawnedTally f o := by
  unfold tally spawnedTally spawned
  cases M.spawns o <;> simp

theorem tallyActs {c : Config M} {index choice t o answer memory next}
    (performs : Performs c index choice t o answer memory next) (obeys : P.Obeys t o answer next) :
    P.tally f (c.tasks.set index (t.advance o answer next) ++ spawned o) + f (P.place t) =
      P.tally f c.tasks + f (P.after (P.place t) o answer) + P.spawnedTally f o := by
  have moved := @sumSet _ (fun t => f (P.place t)) _ _ _ (t.advance o answer next) performs.present
  simp only [obeys.reached] at moved
  have split : P.tally f (c.tasks.set index (t.advance o answer next) ++ spawned o) =
      P.tally f (c.tasks.set index (t.advance o answer next)) + P.spawnedTally f o := by
    rw [← tallySpawned]
    simp [tally]
  unfold tally at split ⊢
  omega

theorem tallyMember {tasks : List (Task M)} {t} (member : t ∈ tasks) :
    f (P.place t) ≤ P.tally f tasks := by
  obtain ⟨before, after, rfl⟩ := List.append_of_mem member
  simp only [tally, List.map_append, List.map_cons, List.sum_append, List.sum_cons]
  omega

theorem tallyAdd {tasks : List (Task M)} :
    P.tally (fun q => f q + g q) tasks = P.tally f tasks + P.tally g tasks := by
  induction tasks with
  | nil => rfl
  | cons t tasks ih =>
    simp only [tally, List.map_cons, List.sum_cons] at ih ⊢
    omega

end Protocol

open Protocol

structure Ledger {A : Actions} {M : Machine A} (P : Protocol M) where
  kept : M.Memory → Nat
  held : P.Place → Nat

namespace Ledger
variable {A : Actions} {M : Machine A} {P : Protocol M} (L : Ledger P)

def total (c : Config M) : Nat := L.kept c.memory + P.tally L.held c.tasks

variable {L}

theorem totalActs {c : Config M} {index choice t o answer memory next}
    (performs : Performs c index choice t o answer memory next) (obeys : P.Obeys t o answer next)
    (same : L.kept memory + L.held (P.after (P.place t) o answer) + P.spawnedTally L.held o =
      L.kept c.memory + L.held (P.place t)) :
    L.total ⟨memory, c.tasks.set index (t.advance o answer next) ++ spawned o⟩ = L.total c := by
  have moved := tallyActs (f := L.held) performs obeys
  unfold total
  dsimp only
  omega

end Ledger
end Maestro.Interleaving
