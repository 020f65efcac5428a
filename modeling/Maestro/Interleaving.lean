import Mathlib.Data.List.Basic
import Mathlib.Logic.Basic

/-! Cooperating tasks over shared memory. A task is a program of atomic actions;
an await point is the gap between two of them, so every interleaving of the tasks
is a list of events. -/
namespace Maestro.Interleaving

structure Actions where
  Act : Type
  Answer : Act → Type

inductive Prog (A : Actions) (α : Type) where
  | done (value : α)
  | act (o : A.Act) (next : A.Answer o → Prog A α)

namespace Prog
variable {A : Actions} {α β : Type}

def bind : Prog A α → (α → Prog A β) → Prog A β
  | .done value, f => f value
  | .act o next, f => .act o (fun answer => (next answer).bind f)

instance : Monad (Prog A) where
  pure := .done
  bind := bind

@[simp] theorem pureDone (value : α) : (pure value : Prog A α) = .done value := rfl
@[simp] theorem doneBind (value : α) (f : α → Prog A β) : (Prog.done value >>= f) = f value := rfl
@[simp] theorem actBind (o : A.Act) (next : A.Answer o → Prog A α) (f : α → Prog A β) :
    (Prog.act o next >>= f) = .act o (fun answer => next answer >>= f) := rfl

def Only (ok : A.Act → Prop) : Prog A α → Prop
  | .done _ => True
  | .act o next => ok o ∧ ∀ answer, Only ok (next answer)

@[simp] theorem onlyDone {ok : A.Act → Prop} {value : α} : Only ok (.done value : Prog A α) ↔ True :=
  Iff.rfl
@[simp] theorem onlyPure {ok : A.Act → Prop} {value : α} : Only ok (pure value : Prog A α) ↔ True :=
  Iff.rfl
@[simp] theorem onlyAct {ok : A.Act → Prop} {o} {next : A.Answer o → Prog A α} :
    Only ok (.act o next) ↔ ok o ∧ ∀ answer, Only ok (next answer) := Iff.rfl

theorem onlyBind {ok : A.Act → Prop} {p : Prog A α} {f : α → Prog A β} (first : Only ok p)
    (second : ∀ value, Only ok (f value)) : Only ok (p >>= f) := by
  induction p with
  | done value => exact second value
  | act o next ih => exact ⟨first.1, fun answer => ih answer (first.2 answer)⟩

theorem onlyImp {ok wider : A.Act → Prop} {p : Prog A α} (h : Only ok p)
    (imp : ∀ o, ok o → wider o) : Only wider p := by
  induction p with
  | done value => trivial
  | act o next ih => exact ⟨imp o h.1, fun answer => ih answer (h.2 answer)⟩

def Returns (post : α → Prop) : Prog A α → Prop
  | .done value => post value
  | .act _ next => ∀ answer, Returns post (next answer)

theorem returnsImp {post wider : α → Prop} {p : Prog A α} (h : Returns post p)
    (imp : ∀ value, post value → wider value) : Returns wider p := by
  induction p with
  | done value => exact imp value h
  | act o next ih => exact fun answer => ih answer (h answer)

theorem returnsThen {post : β → Prop} {p : Prog A α} {f : α → Prog A β}
    (rest : ∀ value, Returns post (f value)) : Returns post (p >>= f) := by
  induction p with
  | done value => exact rest value
  | act o next ih => exact fun answer => ih answer

end Prog

abbrev Past (A : Actions) := List ((o : A.Act) × A.Answer o)

/-- `body` gives the program of every entry point; a body that ends in `some e`
goes on with `e`. `apply` is partial: an action that has no answer yet blocks, and
the choice resolves what the environment decides. -/
structure Machine (A : Actions) where
  Memory : Type
  Entry : Type
  Choice : Type
  Outside : Type
  body : Entry → Prog A (Option Entry)
  apply : (o : A.Act) → Choice → Memory → Option (A.Answer o × Memory)
  spawns : A.Act → Option Entry
  callable : Entry → Bool
  outside : Outside → Memory → Option Memory

variable {A : Actions}

structure Task (M : Machine A) where
  entry : M.Entry
  past : Past A
  rest : Prog A (Option M.Entry)

structure Config (M : Machine A) where
  memory : M.Memory
  tasks : List (Task M)

inductive Event (M : Machine A) where
  | call (e : M.Entry)
  | run (index : Nat) (choice : M.Choice)
  | outside (x : M.Outside)

section Semantics
variable {M : Machine A}

def Task.enter (e : M.Entry) : Task M := ⟨e, [], M.body e⟩

def Task.advance (t : Task M) (o : A.Act) (answer : A.Answer o) :
    Prog A (Option M.Entry) → Task M
  | .done (some e) => .enter e
  | rest => ⟨t.entry, t.past ++ [⟨o, answer⟩], rest⟩

def Task.Ended (t : Task M) : Prop := ∃ last, t.rest = .done last

def spawned (o : A.Act) : List (Task M) := (M.spawns o).toList.map Task.enter

def step (c : Config M) : Event M → Option (Config M)
  | .call e => if M.callable e then some ⟨c.memory, c.tasks ++ [.enter e]⟩ else none
  | .run index choice =>
      match c.tasks[index]? with
      | none => none
      | some t =>
          match t.rest with
          | .done _ => none
          | .act o next =>
              match M.apply o choice c.memory with
              | none => none
              | some (answer, memory) =>
                  some ⟨memory, c.tasks.set index (t.advance o answer (next answer)) ++ spawned o⟩
  | .outside x =>
      match M.outside x c.memory with
      | none => none
      | some memory => some ⟨memory, c.tasks⟩

def runFrom (c : Config M) : List (Event M) → Option (Config M)
  | [] => some c
  | e :: rest =>
      match step c e with
      | none => none
      | some next => runFrom next rest

def Task.next (t : Task M) : Option A.Act :=
  match t.rest with
  | .done _ => none
  | .act o _ => some o

def goodRun (Good : Config M → Event M → Prop) [∀ c e, Decidable (Good c e)] (c : Config M) :
    List (Event M) → Option (Config M)
  | [] => some c
  | e :: rest => if Good c e then (step c e).bind fun next => goodRun Good next rest else none

structure Performs (c : Config M) (index : Nat) (choice : M.Choice) (t : Task M) (o : A.Act)
    (answer : A.Answer o) (memory : M.Memory) (next : Prog A (Option M.Entry)) : Prop where
  present : c.tasks[index]? = some t
  program : ∃ k, t.rest = .act o k ∧ next = k answer
  effect : M.apply o choice c.memory = some (answer, memory)

theorem performsNext {c : Config M} {index choice t o answer memory next}
    (performs : Performs c index choice t o answer memory next) : t.next = some o := by
  obtain ⟨k, program, _⟩ := performs.program
  simp [Task.next, program]

inductive Moves : Config M → Event M → Config M → Prop where
  | call {c e} (allowed : M.callable e = true) :
      Moves c (.call e) ⟨c.memory, c.tasks ++ [.enter e]⟩
  | act {c index choice t o answer memory next}
      (performs : Performs c index choice t o answer memory next) :
      Moves c (.run index choice)
        ⟨memory, c.tasks.set index (t.advance o answer next) ++ spawned o⟩
  | outside {c x memory} (effect : M.outside x c.memory = some memory) :
      Moves c (.outside x) ⟨memory, c.tasks⟩

theorem stepMoves {c : Config M} {e c'} (h : step c e = some c') : Moves c e c' := by
  cases e with
  | call e =>
    simp only [step] at h
    split at h
    · rename_i allowed
      cases Option.some.inj h
      exact .call allowed
    · contradiction
  | run index choice =>
    simp only [step] at h
    split at h
    · contradiction
    · rename_i t present
      split at h
      · contradiction
      · rename_i o next program
        split at h
        · contradiction
        · rename_i answer memory effect
          cases Option.some.inj h
          exact .act ⟨present, ⟨next, program, rfl⟩, effect⟩
  | outside x =>
    simp only [step] at h
    split at h
    · contradiction
    · rename_i memory effect
      cases Option.some.inj h
      exact .outside effect

theorem runAppend {c : Config M} {first rest} :
    runFrom c (first ++ rest) = (runFrom c first).bind (fun mid => runFrom mid rest) := by
  induction first generalizing c with
  | nil => rfl
  | cons e first ih =>
    simp only [List.cons_append, runFrom]
    cases step c e with
    | none => rfl
    | some next => exact ih

theorem runConcat {c c' : Config M} {es e} (ran : runFrom c (es ++ [e]) = some c') :
    ∃ mid, runFrom c es = some mid ∧ Moves mid e c' := by
  rw [runAppend] at ran
  obtain ⟨mid, first, last⟩ := Option.bind_eq_some_iff.mp ran
  simp only [runFrom] at last
  split at last
  · contradiction
  · rename_i next stepped
    cases Option.some.inj last
    exact ⟨mid, first, stepMoves stepped⟩

/-- The configurations of the runs from `start` all of whose events are `Good`
in the configuration they happen in. -/
inductive Reach (Good : Config M → Event M → Prop) (start : Config M) : Config M → Prop where
  | start : Reach Good start start
  | step {c e c'} (before : Reach Good start c) (good : Good c e) (moves : Moves c e c') :
      Reach Good start c'

def Always : Config M → Event M → Prop := fun _ _ => True

theorem reachMono {Good Better : Config M → Event M → Prop} {start c : Config M}
    (weaker : ∀ c e, Good c e → Better c e) (h : Reach Good start c) : Reach Better start c := by
  induction h with
  | start => exact .start
  | step _ good moves ih => exact .step ih (weaker _ _ good) moves

theorem reachTrans {Good : Config M → Event M → Prop} {start mid c : Config M}
    (first : Reach Good start mid) (rest : Reach Good mid c) : Reach Good start c := by
  induction rest with
  | start => exact first
  | step _ good moves ih => exact .step ih good moves

theorem reachRun {Good : Config M → Event M → Prop} {start c : Config M} {es c'}
    (h : Reach Good start c) (good : ∀ c e, Good c e) (ran : runFrom c es = some c') :
    Reach Good start c' := by
  induction es generalizing c with
  | nil => cases Option.some.inj ran; exact h
  | cons e rest ih =>
    simp only [runFrom] at ran
    split at ran
    · contradiction
    · rename_i next stepped
      exact ih (.step h (good _ _) (stepMoves stepped)) ran

theorem reachGoodRun {Good : Config M → Event M → Prop} [∀ c e, Decidable (Good c e)]
    {start c : Config M} {es c'} (h : Reach Good start c) (ran : goodRun Good c es = some c') :
    Reach Good start c' := by
  induction es generalizing c with
  | nil => cases Option.some.inj ran; exact h
  | cons e rest ih =>
    simp only [goodRun] at ran
    split at ran
    · rename_i good
      obtain ⟨next, stepped, ran⟩ := Option.bind_eq_some_iff.mp ran
      exact ih (.step h good (stepMoves stepped)) ran
    · contradiction

theorem reachInvariant {Good : Config M → Event M → Prop} {start : Config M}
    {Inv : Config M → Prop} (first : Inv start)
    (preserved : ∀ {c e c'}, Reach Good start c → Inv c → Good c e → Moves c e c' → Inv c')
    {c} (h : Reach Good start c) : Inv c := by
  induction h with
  | start => exact first
  | step before good moves ih => exact preserved before ih good moves

theorem taskCases {tasks : List (Task M)} {index : Nat} {moved : Task M} {o : A.Act}
    {j : Nat} {t : Task M} (h : (tasks.set index moved ++ spawned o)[j]? = some t) :
    (j = index ∧ t = moved) ∨ (j ≠ index ∧ tasks[j]? = some t) ∨
      (tasks.length ≤ j ∧ ∃ e, M.spawns o = some e ∧ t = .enter e) := by
  by_cases inside : j < tasks.length
  · rw [List.getElem?_append_left (by simpa using inside)] at h
    by_cases same : j = index
    · subst same
      rw [List.getElem?_set_self inside] at h
      exact .inl ⟨rfl, (Option.some.inj h).symm⟩
    · rw [List.getElem?_set_ne (Ne.symm same)] at h
      exact .inr (.inl ⟨same, h⟩)
  · have beyond : tasks.length ≤ j := Nat.le_of_not_lt inside
    rw [List.getElem?_append_right (by simpa using beyond)] at h
    refine .inr (.inr ⟨beyond, ?_⟩)
    cases spawn : M.spawns o with
    | none => simp [spawned, spawn] at h
    | some e =>
      have member := List.mem_of_getElem? h
      simp only [spawned, spawn, Option.toList_some, List.map_cons, List.map_nil,
        List.mem_singleton] at member
      exact ⟨e, rfl, member⟩

theorem movedTask {tasks : List (Task M)} {index : Nat} {old moved : Task M} {o : A.Act}
    (present : tasks[index]? = some old) :
    (tasks.set index moved ++ spawned o)[index]? = some moved := by
  obtain ⟨inside, _⟩ := List.getElem?_eq_some_iff.mp present
  rw [List.getElem?_append_left (by simpa using inside), List.getElem?_set_self inside]

theorem otherTask {tasks : List (Task M)} {index j : Nat} {moved t : Task M} {o : A.Act}
    (different : j ≠ index) (present : tasks[j]? = some t) :
    (tasks.set index moved ++ spawned o)[j]? = some t := by
  obtain ⟨inside, _⟩ := List.getElem?_eq_some_iff.mp present
  rw [List.getElem?_append_left (by simpa using inside),
    List.getElem?_set_ne (Ne.symm different), present]

/-! A program that runs alone. -/

def Prog.exec (M : Machine A) (choice : M.Choice) {α : Type} :
    Prog A α → M.Memory → Option (α × M.Memory)
  | .done value, m => some (value, m)
  | .act o next, m =>
      match M.apply o choice m with
      | none => none
      | some (answer, m) => exec M choice (next answer) m

theorem execBind {choice : M.Choice} {α β : Type} {p : Prog A α} {f : α → Prog A β} {m m' : M.Memory}
    {value} (first : p.exec M choice m = some (value, m')) :
    (p >>= f).exec M choice m = (f value).exec M choice m' := by
  induction p generalizing m with
  | done v =>
    cases Option.some.inj first
    rfl
  | act o next ih =>
    simp only [Prog.exec] at first
    rw [Prog.actBind, Prog.exec]
    split at first
    · contradiction
    · exact ih _ first

theorem execReach {choice : M.Choice} {p : Prog A (Option M.Entry)} {m m' : M.Memory} {last entry past}
    {others : List (Task M)} (alone : p.exec M choice m = some (last, m')) :
    ∃ tasks, Reach Always (⟨m, ⟨entry, past, p⟩ :: others⟩ : Config M) ⟨m', tasks⟩ := by
  induction p generalizing m past others with
  | done value =>
    cases Option.some.inj alone
    exact ⟨_, .start⟩
  | act o next ih =>
    simp only [Prog.exec] at alone
    split at alone
    · contradiction
    · rename_i answer mid effect
      have moves : Moves (⟨m, ⟨entry, past, .act o next⟩ :: others⟩ : Config M) (.run 0 choice)
          ⟨mid, (Task.mk entry past (.act o next)).advance o answer (next answer) ::
            (others ++ spawned o)⟩ :=
        .act ⟨rfl, ⟨next, rfl, rfl⟩, effect⟩
      have step : Reach Always (⟨m, ⟨entry, past, .act o next⟩ :: others⟩ : Config M) _ :=
        .step .start trivial moves
      cases rest : next answer with
      | done value =>
        rw [rest] at alone
        cases Option.some.inj alone
        exact ⟨_, step⟩
      | act o' next' =>
        have later : ∃ tasks, Reach Always (⟨mid, ⟨entry, past ++ [⟨o, answer⟩], .act o' next'⟩ ::
            (others ++ spawned o)⟩ : Config M) ⟨m', tasks⟩ := by
          rw [← rest]
          exact ih answer alone
        obtain ⟨tasks, reached⟩ := later
        rw [rest] at step
        exact ⟨tasks, reachTrans step reached⟩

end Semantics

end Maestro.Interleaving
