import Maestro.Interleaving

/-! Protocols abstract each task to the place it has reached, and an outline states
what holds at each place: of the memory, and between the places of two tasks. What one
action preserves, whoever performs it, holds along every run. -/
namespace Maestro.Interleaving
open Prog

variable {A : Actions}

/-! A protocol follows a task through its actions: `may` says which action is
allowed at a place, `after` where its answer leads and `ends` where a task may end. -/
structure Protocol (M : Machine A) where
  Place : Type
  enter : M.Entry → Place
  may : Place → A.Act → Prop
  after : Place → (o : A.Act) → A.Answer o → Place
  ends : Place → Prop

namespace Protocol
variable {M : Machine A} (P : Protocol M)

/-- Whatever the answers are, the program only takes allowed actions and its
value meets `post` at the place it ends in. -/
def Follows {α : Type} (post : α → P.Place → Prop) : P.Place → Prog A α → Prop
  | q, .done value => post value q
  | q, .act o next => P.may q o ∧ ∀ answer, Follows post (P.after q o answer) (next answer)

def EntryPost : Option M.Entry → P.Place → Prop
  | none, q => P.ends q
  | some e, q => q = P.enter e

def Sound : Prop := ∀ e, P.Follows P.EntryPost (P.enter e) (M.body e)

def place (t : Task M) : P.Place :=
  t.past.foldl (fun q done => P.after q done.1 done.2) (P.enter t.entry)

def Placed (t : Task M) : Prop := P.Follows P.EntryPost (P.place t) t.rest

variable {P}

@[simp] theorem followsDone {α : Type} {post : α → P.Place → Prop} {q} {value : α} :
    P.Follows post q (.done value) ↔ post value q := Iff.rfl

@[simp] theorem followsPure {α : Type} {post : α → P.Place → Prop} {q} {value : α} :
    P.Follows post q (pure value) ↔ post value q := Iff.rfl

@[simp] theorem followsAct {α : Type} {post : α → P.Place → Prop} {q o}
    {next : A.Answer o → Prog A α} :
    P.Follows post q (.act o next) ↔
      P.may q o ∧ ∀ answer, P.Follows post (P.after q o answer) (next answer) := Iff.rfl

@[simp] theorem followsBind {α β : Type} {post : β → P.Place → Prop} {q} {p : Prog A α}
    {f : α → Prog A β} :
    P.Follows post q (p >>= f) ↔ P.Follows (fun value q' => P.Follows post q' (f value)) q p := by
  induction p generalizing q with
  | done value => rfl
  | act o next ih => exact and_congr Iff.rfl (forall_congr' fun answer => ih answer)

theorem followsImp {α : Type} {post wider : α → P.Place → Prop} {q} {p : Prog A α}
    (h : P.Follows post q p) (imp : ∀ value q', post value q' → wider value q') :
    P.Follows wider q p := by
  induction p generalizing q with
  | done value => exact imp value q h
  | act o next ih => exact ⟨h.1, fun answer => ih answer (h.2 answer)⟩

theorem followsSeq {α β : Type} {mid : α → P.Place → Prop} {post : β → P.Place → Prop} {q}
    {p : Prog A α} {f : α → Prog A β} (first : P.Follows mid q p)
    (second : ∀ value q', mid value q' → P.Follows post q' (f value)) :
    P.Follows post q (p >>= f) :=
  followsBind.mpr (followsImp first second)

theorem followsFrom {α : Type} {post : α → P.Place → Prop} {q q'} {p : Prog A α} (same : q = q')
    (follows : P.Follows post q' p) : P.Follows post q p := same ▸ follows

theorem followsStep {β : Type} {post : β → P.Place → Prop} {q} {o : A.Act} {f : A.Answer o → Prog A β}
    (allowed : P.may q o) (rest : ∀ answer, P.Follows post (P.after q o answer) (f answer)) :
    P.Follows post q (Prog.act o .done >>= f) := ⟨allowed, rest⟩

def Stays (P : Protocol M) {α : Type} (q : P.Place) (p : Prog A α) : Prop :=
  P.Follows (fun _ q' => q' = q) q p

theorem staysOnly {α : Type} {ok : A.Act → Prop} {q} {p : Prog A α} (only : p.Only ok)
    (quiet : ∀ o, ok o → P.may q o ∧ ∀ answer, P.after q o answer = q) : P.Stays q p := by
  induction p with
  | done value => rfl
  | act o next ih =>
    obtain ⟨allowed, stays⟩ := quiet o only.1
    refine ⟨allowed, fun answer => ?_⟩
    rw [stays]
    exact ih answer (only.2 answer)

theorem staysReturns {α : Type} {ok : A.Act → Prop} {value : α → Prop} {post : α → P.Place → Prop}
    {q} {p : Prog A α} (only : p.Only ok)
    (quiet : ∀ o, ok o → P.may q o ∧ ∀ answer, P.after q o answer = q) (returns : p.Returns value)
    (ends : ∀ v, value v → post v q) : P.Follows post q p := by
  induction p with
  | done v => exact ends v returns
  | act o next ih =>
    obtain ⟨allowed, stays⟩ := quiet o only.1
    refine ⟨allowed, fun answer => ?_⟩
    rw [stays]
    exact ih answer (only.2 answer) (returns answer)

theorem staysSeq {α β : Type} {post : β → P.Place → Prop} {q} {p : Prog A α} {f : α → Prog A β}
    (first : P.Stays q p) (rest : ∀ value, P.Follows post q (f value)) :
    P.Follows post q (p >>= f) :=
  followsSeq first fun value _ same => same ▸ rest value

theorem staysEnd {α : Type} {post : α → P.Place → Prop} {q} {p : Prog A α} (stays : P.Stays q p)
    (ends : ∀ value, post value q) : P.Follows post q p :=
  followsImp stays fun value _ same => same ▸ ends value

@[simp] theorem placeEnter (e : M.Entry) : P.place (.enter e) = P.enter e := rfl

theorem placedAdvance (sound : P.Sound) {t : Task M} {o answer next}
    (follows : P.Follows P.EntryPost (P.after (P.place t) o answer) next) :
    P.Placed (t.advance o answer next) ∧
      P.place (t.advance o answer next) = P.after (P.place t) o answer := by
  have step : ∀ rest, P.place ⟨t.entry, t.past ++ [⟨o, answer⟩], rest⟩ =
      P.after (P.place t) o answer := fun rest => by simp [place]
  match next, follows with
  | .done (some e), follows =>
    have same : P.after (P.place t) o answer = P.enter e := follows
    exact ⟨sound e, same.symm⟩
  | .done none, follows =>
    refine ⟨?_, step _⟩
    have ended : P.ends (P.after (P.place t) o answer) := follows
    change P.ends (P.place ⟨t.entry, t.past ++ [⟨o, answer⟩], .done none⟩)
    rw [step]
    exact ended
  | .act o' k, follows =>
    refine ⟨?_, step _⟩
    change P.Follows P.EntryPost (P.place ⟨t.entry, t.past ++ [⟨o, answer⟩], .act o' k⟩) _
    rw [step]
    exact follows

def Legal (P : Protocol M) : P.Place → Past A → Prop
  | _, [] => True
  | q, ⟨o, answer⟩ :: rest => P.may q o ∧ P.Legal (P.after q o answer) rest

theorem legalAppend {past rest : Past A} {q} : P.Legal q (past ++ rest) ↔
    P.Legal q past ∧ P.Legal (past.foldl (fun q done => P.after q done.1 done.2) q) rest := by
  induction past generalizing q with
  | nil => simp [Legal]
  | cons done past ih =>
    simp only [List.cons_append, Legal, List.foldl_cons]
    rw [ih, and_assoc]

structure Obeys (P : Protocol M) (t : Task M) (o : A.Act) (answer : A.Answer o)
    (next : Prog A (Option M.Entry)) : Prop where
  allowed : P.may (P.place t) o
  reached : P.place (t.advance o answer next) = P.after (P.place t) o answer
  placed : P.Placed (t.advance o answer next)

theorem placedNext {t : Task M} {o} (placed : P.Placed t) (next : t.next = some o) :
    P.may (P.place t) o := by
  unfold Placed at placed
  unfold Task.next at next
  split at next
  · cases next
  · rename_i program
    cases Option.some.inj next
    rw [program] at placed
    exact placed.1

theorem performsObeys (sound : P.Sound) {c : Config M} {index choice t o answer memory next}
    (placed : ∀ t ∈ c.tasks, P.Placed t)
    (performs : Performs c index choice t o answer memory next) : P.Obeys t o answer next := by
  obtain ⟨present, ⟨k, program, rfl⟩, _⟩ := performs
  have follows := placed t (List.mem_of_getElem? present)
  unfold Placed at follows
  rw [program] at follows
  have moved := placedAdvance sound (follows.2 answer)
  exact ⟨follows.1, moved.2, moved.1⟩

theorem kindStays {c : Config M} {index choice t o answer memory next}
    (performs : Performs c index choice t o answer memory next) (obeys : P.Obeys t o answer next)
    {kind : P.Place → Prop} (stays : kind (P.place t) → kind (P.after (P.place t) o answer))
    (present : ∃ u ∈ c.tasks, kind (P.place u)) :
    ∃ u ∈ c.tasks.set index (t.advance o answer next) ++ spawned o, kind (P.place u) := by
  obtain ⟨u, member, here⟩ := present
  obtain ⟨j, found⟩ := List.getElem?_of_mem member
  by_cases moved : j = index
  · subst moved
    cases Option.some.inj (found.symm.trans performs.present)
    refine ⟨_, List.mem_of_getElem? (movedTask found), ?_⟩
    rw [obeys.reached]
    exact stays here
  · exact ⟨u, List.mem_of_getElem? (otherTask moved found), here⟩

theorem placeStays {c : Config M} {index choice t o answer memory next}
    (performs : Performs c index choice t o answer memory next) (obeys : P.Obeys t o answer next)
    {q : P.Place} (stays : P.place t = q → P.after q o answer = q) (present : ∃ u ∈ c.tasks, P.place u = q) :
    ∃ u ∈ c.tasks.set index (t.advance o answer next) ++ spawned o, P.place u = q :=
  @kindStays _ _ P c index choice t o answer memory next performs obeys (fun p => p = q)
    (fun same => by rw [same, stays same]) present

theorem movesPlaced (sound : P.Sound) {c : Config M} {e c'}
    (placed : ∀ t ∈ c.tasks, P.Placed t) (moves : Moves c e c') : ∀ t ∈ c'.tasks, P.Placed t := by
  cases moves with
  | call allowed =>
    intro t member
    rcases List.mem_append.mp member with old | new
    · exact placed t old
    · cases List.mem_singleton.mp new
      exact sound _
  | act performs =>
    intro t member
    obtain ⟨j, found⟩ := List.getElem?_of_mem member
    rcases taskCases found with ⟨_, rfl⟩ | ⟨_, old⟩ | ⟨_, e, _, rfl⟩
    · exact (performsObeys sound placed performs).placed
    · exact placed t (List.mem_of_getElem? old)
    · exact sound e
  | outside effect => exact placed

theorem reachPlaced (sound : P.Sound) {Good : Config M → Event M → Prop} {start c : Config M}
    (first : ∀ t ∈ start.tasks, P.Placed t) (h : Reach Good start c) :
    ∀ t ∈ c.tasks, P.Placed t := by
  induction h with
  | start => exact first
  | step _ _ moves ih => exact movesPlaced sound ih moves

theorem legalAdvance {t : Task M} {o answer next} (legal : P.Legal (P.enter t.entry) t.past)
    (allowed : P.may (P.place t) o) :
    P.Legal (P.enter (t.advance o answer next).entry) (t.advance o answer next).past := by
  have longer : P.Legal (P.enter t.entry) (t.past ++ [⟨o, answer⟩]) :=
    legalAppend.mpr ⟨legal, allowed, trivial⟩
  match next with
  | .done (some e) => trivial
  | .done none => exact longer
  | .act o k => exact longer

theorem reachLegal (sound : P.Sound) {Good : Config M → Event M → Prop} {start c : Config M}
    (first : start.tasks = []) (h : Reach Good start c) :
    ∀ t ∈ c.tasks, P.Legal (P.enter t.entry) t.past := by
  have placed : ∀ {c}, Reach Good start c → ∀ t ∈ c.tasks, P.Placed t := fun h =>
    reachPlaced sound (by simp [first]) h
  induction h with
  | start => simp [first]
  | @step c e c' before good moves ih =>
    intro t member
    cases moves with
    | call allowed =>
      rcases List.mem_append.mp member with old | new
      · exact ih t old
      · cases List.mem_singleton.mp new
        trivial
    | act performs =>
      obtain ⟨j, found⟩ := List.getElem?_of_mem member
      rcases taskCases found with ⟨_, rfl⟩ | ⟨_, old⟩ | ⟨_, e, _, rfl⟩
      · exact legalAdvance (ih _ (List.mem_of_getElem? performs.present))
          (performsObeys sound (placed before) performs).allowed
      · exact ih t (List.mem_of_getElem? old)
      · trivial
    | outside effect => exact ih t member

theorem legalKeeps {inv : Past A → P.Place → Prop}
    (keeps : ∀ {past q o answer}, inv past q → P.may q o → inv (past ++ [⟨o, answer⟩]) (P.after q o answer))
    {past rest : Past A} {q} (first : inv past q) (legal : P.Legal q rest) :
    inv (past ++ rest) (rest.foldl (fun q done => P.after q done.1 done.2) q) := by
  induction rest generalizing past q with
  | nil => simpa using first
  | cons done rest ih =>
    obtain ⟨o, answer⟩ := done
    have longer := ih (keeps first legal.1) legal.2
    simpa using longer

theorem legalHolds {inv : Past A → P.Place → Prop}
    (keeps : ∀ {past q o answer}, inv past q → P.may q o → inv (past ++ [⟨o, answer⟩]) (P.after q o answer))
    {t : Task M} (first : inv [] (P.enter t.entry)) (legal : P.Legal (P.enter t.entry) t.past) :
    inv t.past (P.place t) := legalKeeps keeps first legal

theorem placedEnds {t : Task M} (placed : P.Placed t) (ended : t.rest = .done none) :
    P.ends (P.place t) := by
  unfold Placed at placed
  rwa [ended] at placed

end Protocol

/-! An outline of a protocol. -/

variable {M : Machine A}

open Protocol

structure Outline (P : Protocol M) where
  Inv : M.Memory → Prop
  Here : P.Place → M.Memory → Prop
  Apart : P.Place → P.Place → Prop

namespace Outline
variable {P : Protocol M} (O : Outline P)

/-- The parts of an outline before and after one action at `q`. The action may rely on
`Allowed`; the others stay where they are. -/
structure Kept (m m' : M.Memory) (q q' : P.Place) (new : Option M.Entry) : Prop where
  inv : O.Inv m'
  here : O.Here q' m'
  entered : ∀ e, new = some e → O.Here (P.enter e) m' ∧ O.Apart q' (P.enter e)
  others : ∀ other, O.Here other m → O.Apart q other →
    O.Here other m' ∧ O.Apart q' other ∧ ∀ e, new = some e → O.Apart (P.enter e) other

structure Valid (Allowed : P.Place → A.Act → M.Memory → Prop) : Prop where
  symm : ∀ {q other}, O.Apart q other → O.Apart other q
  call : ∀ {e m}, M.callable e = true → O.Inv m → O.Here (P.enter e) m ∧
    ∀ other, O.Here other m → O.Apart (P.enter e) other
  act : ∀ {q o choice m answer m'}, O.Inv m → O.Here q m → P.may q o → Allowed q o m →
    M.apply o choice m = some (answer, m') →
    O.Kept m m' q (P.after q o answer) (M.spawns o)
  outside : ∀ {x m m'}, O.Inv m → M.outside x m = some m' →
    O.Inv m' ∧ ∀ q, O.Here q m → O.Here q m'

structure Holds (c : Config M) : Prop where
  inv : O.Inv c.memory
  placed : ∀ t ∈ c.tasks, P.Placed t
  here : ∀ {i : Nat} {t}, c.tasks[i]? = some t → O.Here (P.place t) c.memory
  apart : ∀ {i j : Nat} {t u}, i ≠ j → c.tasks[i]? = some t → c.tasks[j]? = some u →
    O.Apart (P.place t) (P.place u)

variable {O} {Allowed : P.Place → A.Act → M.Memory → Prop}

theorem holdsCall (sound : P.Sound) (valid : O.Valid Allowed) {c : Config M} {e}
    (holds : O.Holds c) (allowed : M.callable e = true) :
    O.Holds ⟨c.memory, c.tasks ++ [.enter e]⟩ := by
  have entered := valid.call allowed holds.inv
  have found : ∀ {i : Nat} {t}, (c.tasks ++ [Task.enter e])[i]? = some t →
      (i < c.tasks.length ∧ c.tasks[i]? = some t) ∨ (i = c.tasks.length ∧ t = .enter e) := by
    intro i t h
    rcases Nat.lt_trichotomy i c.tasks.length with inside | same | beyond
    · exact .inl ⟨inside, by rwa [List.getElem?_append_left inside] at h⟩
    · subst same
      simp only [List.getElem?_concat_length, Option.some.injEq] at h
      exact .inr ⟨rfl, h.symm⟩
    · rw [List.getElem?_eq_none (by simp; omega)] at h
      contradiction
  refine ⟨holds.inv, ?_, ?_, ?_⟩
  · exact movesPlaced sound holds.placed (.call allowed)
  · intro i t h
    rcases found h with ⟨_, old⟩ | ⟨_, rfl⟩
    · exact holds.here old
    · exact entered.1
  · intro i j t u different hi hj
    rcases found hi with ⟨_, oldI⟩ | ⟨i_end, rfl⟩ <;> rcases found hj with ⟨_, oldJ⟩ | ⟨j_end, rfl⟩
    · exact holds.apart different oldI oldJ
    · exact valid.symm (entered.2 _ (holds.here oldI))
    · exact entered.2 _ (holds.here oldJ)
    · omega

theorem holdsAct (sound : P.Sound) (valid : O.Valid Allowed) {c : Config M}
    {index choice t o answer memory next} (holds : O.Holds c)
    (performs : Performs c index choice t o answer memory next)
    (good : Allowed (P.place t) o c.memory) :
    O.Holds ⟨memory, c.tasks.set index (t.advance o answer next) ++ spawned o⟩ := by
  have obeys := performsObeys sound holds.placed performs
  have present := performs.present
  have kept := valid.act holds.inv (holds.here present) obeys.allowed good performs.effect
  have others : ∀ {j : Nat} {u}, j ≠ index → c.tasks[j]? = some u →
      O.Here (P.place u) memory ∧ O.Apart (P.after (P.place t) o answer) (P.place u) ∧
        ∀ e, M.spawns o = some e → O.Apart (P.enter e) (P.place u) :=
    fun different found =>
      kept.others _ (holds.here found) (holds.apart (Ne.symm different) present found)
  refine ⟨kept.inv, movesPlaced sound holds.placed (.act performs), ?_, ?_⟩
  · intro j u found
    rcases taskCases found with ⟨_, rfl⟩ | ⟨different, old⟩ | ⟨_, e, spawn, rfl⟩
    · rw [obeys.reached]
      exact kept.here
    · exact (others different old).1
    · exact (kept.entered e spawn).1
  · intro i j u v different hi hj
    rcases taskCases hi with ⟨rfl, rfl⟩ | ⟨di, oldI⟩ | ⟨beyondI, e, spawn, rfl⟩ <;>
      rcases taskCases hj with ⟨rfl, rfl⟩ | ⟨dj, oldJ⟩ | ⟨beyondJ, e', spawn', rfl⟩
    · exact absurd rfl different
    · rw [obeys.reached]
      exact (others dj oldJ).2.1
    · rw [obeys.reached]
      exact (kept.entered e' spawn').2
    · rw [obeys.reached]
      exact valid.symm (others di oldI).2.1
    · exact holds.apart different oldI oldJ
    · exact valid.symm ((others di oldI).2.2 e' spawn')
    · rw [obeys.reached]
      exact valid.symm (kept.entered e spawn).2
    · exact (others dj oldJ).2.2 e spawn
    · have same := congrArg List.length (show (spawned o : List (Task M)) = [.enter e] by
        simp [spawned, spawn])
      have boundI := (List.getElem?_eq_some_iff.mp hi).1
      have boundJ := (List.getElem?_eq_some_iff.mp hj).1
      simp only [List.length_append, List.length_set, same, List.length_singleton] at boundI boundJ
      omega

theorem holdsMoves (sound : P.Sound) (valid : O.Valid Allowed) {c : Config M} {e c'}
    (holds : O.Holds c) (moves : Moves c e c')
    (good : ∀ {index choice t o answer memory next}, e = .run index choice →
      Performs c index choice t o answer memory next → Allowed (P.place t) o c.memory) :
    O.Holds c' := by
  cases moves with
  | call allowed => exact holdsCall sound valid holds allowed
  | act performs => exact holdsAct sound valid holds performs (good rfl performs)
  | outside effect =>
    have kept := valid.outside holds.inv effect
    exact ⟨kept.1, holds.placed, fun found => kept.2 _ (holds.here found), holds.apart⟩

theorem reachHolds (sound : P.Sound) (valid : O.Valid Allowed)
    {Good : Config M → Event M → Prop} {start : Config M} (first : O.Holds start)
    (good : ∀ {c index choice t o answer memory next}, Reach Good start c → O.Holds c →
      Good c (.run index choice) → Performs c index choice t o answer memory next →
      Allowed (P.place t) o c.memory)
    {c} (h : Reach Good start c) : O.Holds c := by
  induction h with
  | start => exact first
  | @step c e c' before goodEvent moves ih =>
    exact holdsMoves sound valid ih moves
      (fun same performs => good before ih (same ▸ goodEvent) performs)

theorem holdsEmpty {memory : M.Memory} (inv : O.Inv memory) : O.Holds ⟨memory, []⟩ :=
  ⟨inv, by simp, by simp, by simp⟩

theorem holdsPair (sound : P.Sound) (symm : ∀ {q other}, O.Apart q other → O.Apart other q)
    {memory : M.Memory} {e e' : M.Entry} (inv : O.Inv memory) (first : O.Here (P.enter e) memory)
    (second : O.Here (P.enter e') memory) (apart : O.Apart (P.enter e) (P.enter e')) :
    O.Holds ⟨memory, [.enter e, .enter e']⟩ := by
  have either : ∀ {i : Nat} {t : Task M}, [Task.enter e, .enter e'][i]? = some t →
      (i = 0 ∧ t = .enter e) ∨ (i = 1 ∧ t = .enter e') := by
    intro i t found
    match i with
    | 0 => exact .inl ⟨rfl, (Option.some.inj found).symm⟩
    | 1 => exact .inr ⟨rfl, (Option.some.inj found).symm⟩
    | i + 2 => cases found
  refine ⟨inv, fun t member => ?_, fun found => ?_, fun different foundI foundJ => ?_⟩
  · obtain ⟨i, found⟩ := List.getElem?_of_mem member
    rcases either found with ⟨-, rfl⟩ | ⟨-, rfl⟩ <;> exact sound _
  · rcases either found with ⟨-, rfl⟩ | ⟨-, rfl⟩
    · exact first
    · exact second
  · rcases either foundI with ⟨i, rfl⟩ | ⟨i, rfl⟩ <;> rcases either foundJ with ⟨j, rfl⟩ | ⟨j, rfl⟩
    · exact absurd (i.trans j.symm) different
    · exact apart
    · exact symm apart
    · exact absurd (i.trans j.symm) different

end Outline
end Maestro.Interleaving
