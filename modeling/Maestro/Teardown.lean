import Maestro.Outline

/-! Tasks that are dropped. A dropped task is gone from where it was suspended: nothing of
its program runs any more, and its destructors release what it held. -/
namespace Maestro.Interleaving
open Prog Protocol

variable {A : Actions}

/-- `suspended` says before which of its actions a task can be dropped, and `release` is
what its destructors do there. -/
structure Teardown (M : Machine A) where
  suspended : Task M → A.Act → Bool
  release : A.Act → M.Memory → M.Memory

namespace Prog

/-- Whatever the answers are, the program gets one that is a `goal`, or its value is `last`. -/
def Meets {α : Type} (goal : (o : A.Act) → A.Answer o → Prop) (last : α → Prop) : Prog A α → Prop
  | .done value => last value
  | .act o next => ∀ answer, goal o answer ∨ Meets goal last (next answer)

end Prog

section Semantics
variable {M : Machine A}

theorem Protocol.followsMeets {P : Protocol M} {α : Type} {post : α → P.Place → Prop}
    {goal : (o : A.Act) → A.Answer o → Prop} {last : α → Prop} {kind : P.Place → Prop}
    (inside : ∀ {q o} answer, kind q → P.may q o → goal o answer ∨ kind (P.after q o answer))
    (ends : ∀ {value q}, kind q → post value q → last value) {q} {p : Prog A α} (here : kind q)
    (follows : P.Follows post q p) : p.Meets goal last := by
  induction p generalizing q with
  | done value => exact ends here follows
  | act o next ih =>
    intro answer
    rcases inside answer here follows.1 with met | still
    · exact .inl met
    · exact .inr (ih answer still (follows.2 answer))

namespace Teardown

def drop (T : Teardown M) (c : Config M) (index : Nat) : Option (Config M) :=
  match c.tasks[index]? with
  | none => none
  | some t =>
      match t.next with
      | none => none
      | some o =>
          if T.suspended t o then some ⟨T.release o c.memory, c.tasks.eraseIdx index⟩ else none

structure Drops (T : Teardown M) (c : Config M) (index : Nat) (t : Task M) (o : A.Act) : Prop where
  present : c.tasks[index]? = some t
  next : t.next = some o
  suspended : T.suspended t o = true

variable {T : Teardown M}

theorem dropDrops {c : Config M} {index c'} (h : T.drop c index = some c') :
    ∃ t o, T.Drops c index t o ∧ c' = ⟨T.release o c.memory, c.tasks.eraseIdx index⟩ := by
  simp only [drop] at h
  split at h
  · contradiction
  · rename_i t present
    split at h
    · contradiction
    · rename_i o next
      split at h
      · rename_i suspended
        exact ⟨t, o, ⟨present, next, suspended⟩, (Option.some.inj h).symm⟩
      · contradiction

/-- The configurations of the runs from `start` in which tasks are dropped where `Spare`
holds. -/
inductive Torn (T : Teardown M) (Spare : Task M → A.Act → M.Memory → Prop) (start : Config M) :
    Config M → Prop where
  | start : Torn T Spare start start
  | step {c e c'} (before : Torn T Spare start c) (moves : Moves c e c') : Torn T Spare start c'
  | drop {c index t o} (before : Torn T Spare start c) (drops : T.Drops c index t o)
      (spare : Spare t o c.memory) :
      Torn T Spare start ⟨T.release o c.memory, c.tasks.eraseIdx index⟩

def tornRun (T : Teardown M) (Spare : Task M → A.Act → M.Memory → Prop)
    [∀ t o m, Decidable (Spare t o m)] (c : Config M) : List (Event M ⊕ Nat) → Option (Config M)
  | [] => some c
  | .inl e :: rest => (Interleaving.step c e).bind fun next => tornRun T Spare next rest
  | .inr index :: rest =>
      match c.tasks[index]? with
      | none => none
      | some t =>
          match t.next with
          | none => none
          | some o =>
              if Spare t o c.memory then (T.drop c index).bind fun next => tornRun T Spare next rest
              else none

variable {Spare : Task M → A.Act → M.Memory → Prop} {start : Config M}

theorem runTorn [∀ t o m, Decidable (Spare t o m)] {c : Config M} {events c'}
    (h : Torn T Spare start c) (ran : tornRun T Spare c events = some c') : Torn T Spare start c' := by
  induction events generalizing c with
  | nil => cases Option.some.inj ran; exact h
  | cons event rest ih =>
    cases event with
    | inl e =>
      obtain ⟨next, stepped, ran⟩ := Option.bind_eq_some_iff.mp ran
      exact ih (.step h (stepMoves stepped)) ran
    | inr index =>
      simp only [tornRun] at ran
      split at ran
      · contradiction
      · rename_i t present
        split at ran
        · contradiction
        · rename_i o next
          split at ran
          · rename_i spare
            obtain ⟨after, dropped, ran⟩ := Option.bind_eq_some_iff.mp ran
            obtain ⟨t', o', drops, rfl⟩ := dropDrops dropped
            cases Option.some.inj (present.symm.trans drops.present)
            cases Option.some.inj (next.symm.trans drops.next)
            exact ih (.drop h drops spare) ran
          · contradiction

theorem leftTask {tasks : List (Task M)} {index j : Nat} {t : Task M}
    (found : (tasks.eraseIdx index)[j]? = some t) :
    ∃ k, k ≠ index ∧ tasks[k]? = some t ∧ k = (if j < index then j else j + 1) := by
  rw [List.getElem?_eraseIdx] at found
  split at found
  · rename_i below
    exact ⟨j, Nat.ne_of_lt below, found, by rw [if_pos below]⟩
  · rename_i above
    exact ⟨j + 1, by omega, found, by rw [if_neg above]⟩

theorem otherLeft {tasks : List (Task M)} {index : Nat} {t u : Task M}
    (dropped : tasks[index]? = some t) (member : u ∈ tasks) : u = t ∨ u ∈ tasks.eraseIdx index := by
  obtain ⟨j, found⟩ := List.getElem?_of_mem member
  by_cases same : j = index
  · subst same
    exact .inl (Option.some.inj (found.symm.trans dropped))
  · refine .inr ?_
    rcases Nat.lt_or_ge j index with below | above
    · refine List.mem_of_getElem? (i := j) ?_
      rw [List.getElem?_eraseIdx, if_pos below, found]
    · refine List.mem_of_getElem? (i := j - 1) ?_
      rw [List.getElem?_eraseIdx, if_neg (by omega), ← found]
      congr 1
      omega

theorem tornPlaced {P : Protocol M} (sound : P.Sound) (first : ∀ t ∈ start.tasks, P.Placed t)
    {c : Config M} (h : Torn T Spare start c) : ∀ t ∈ c.tasks, P.Placed t := by
  induction h with
  | start => exact first
  | step _ moves ih => exact movesPlaced sound ih moves
  | drop _ _ _ ih => exact fun t member => ih t (List.mem_of_mem_eraseIdx member)

def Keeps {P : Protocol M} (T : Teardown M) (O : Outline P)
    (Spare : P.Place → A.Act → M.Memory → Prop) : Prop :=
  ∀ {q o m}, O.Inv m → O.Here q m → P.may q o → Spare q o m → O.Inv (T.release o m) ∧
    ∀ other, O.Here other m → O.Apart q other → O.Here other (T.release o m)

theorem tornHolds {P : Protocol M} {O : Outline P} {Allowed At : P.Place → A.Act → M.Memory → Prop}
    (sound : P.Sound) (valid : O.Valid Allowed) (keeps : Keeps T O At) (first : O.Holds start)
    (good : ∀ {c index choice t o answer memory next}, Torn T Spare start c → O.Holds c →
      Performs c index choice t o answer memory next → Allowed (P.place t) o c.memory)
    (spared : ∀ {c index t o}, Torn T Spare start c → O.Holds c → T.Drops c index t o →
      Spare t o c.memory → At (P.place t) o c.memory)
    {c} (h : Torn T Spare start c) : O.Holds c := by
  induction h with
  | start => exact first
  | step before moves ih =>
    exact Outline.holdsMoves sound valid ih moves fun _ performs => good before ih performs
  | @drop c index t o before drops spare ih =>
    have may := placedNext (ih.placed t (List.mem_of_getElem? drops.present)) drops.next
    have kept := keeps ih.inv (ih.here drops.present) may (spared before ih drops spare)
    refine ⟨kept.1, fun u member => ih.placed u (List.mem_of_mem_eraseIdx member), ?_, ?_⟩
    · intro j u found
      obtain ⟨k, different, old, _⟩ := leftTask found
      exact kept.2 _ (ih.here old) (ih.apart (Ne.symm different) drops.present old)
    · intro i j u v different foundI foundJ
      obtain ⟨k, _, oldI, same⟩ := leftTask foundI
      obtain ⟨l, _, oldJ, same'⟩ := leftTask foundJ
      refine ih.apart ?_ oldI oldJ
      subst same same'
      split <;> split <;> omega

end Teardown
end Semantics
end Maestro.Interleaving
