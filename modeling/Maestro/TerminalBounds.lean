import Maestro.TerminalTable

/-! The bounds of the terminal table: where each permit is, what the queue of the completed
terminals lists and how many terminals the table holds, along every run of the manager. -/
namespace Maestro.TerminalTable
open Interleaving Prog Protocol TerminalManager

namespace Stage

def launching : Stage → Nat
  | .holding | .crowded | .removing _ | .unretaining _ | .roomy => 1
  | _ => 0

def inHand : Stage → Nat
  | .taking _ | .returning _ => 1
  | _ => 0

def handles (id : Nat) : Stage → Nat
  | .taking other | .returning other => if other = id then 1 else 0
  | _ => 0

def unretains (id : Nat) : Stage → Nat
  | .unretaining other => if other = id then 1 else 0
  | _ => 0

def awaits (id : Nat) : Stage → Nat
  | .removing other | .taking other => if other = id then 1 else 0
  | _ => 0

/-- Popped from the queue with the flag still set, or finalised and not yet in the queue. -/
def pending (id : Nat) (stage : Stage) : Nat := stage.unretains id + stage.awaits id

def roomier : Stage → Nat
  | .roomy => 1
  | _ => 0

end Stage

abbrev permits : Ledger books where
  kept m := m.availablePermits + m.unfinalized
  held q := q.stage.launching + q.stage.inHand

abbrev permitOfTerminal (id : Nat) : Ledger books where
  kept m := m.permitOf id
  held q := q.stage.handles id + q.returned.count id

section Ledgers
variable {m m' : TerminalManager} {q q' : Place} {id : Nat}

theorem permitSet {s s' : TerminalSession} (present : m.sessions[id]? = some s) :
    (m.setSession id s').unfinalized + s.terminalPermit.toNat = m.unfinalized + s'.terminalPermit.toNat :=
  sumSet present

theorem permitOfHere {s : TerminalSession} (present : m.sessions[id]? = some s) :
    m.permitOf id = s.terminalPermit.toNat := by
  simp [permitOf, present]

theorem flagHere {s : TerminalSession} (present : m.sessions[id]? = some s) :
    m.flag id = some s.retained := by
  simp [flag, present]

theorem permitOfSet {other : Nat} {s s' : TerminalSession} (present : m.sessions[other]? = some s) :
    (m.setSession other s').permitOf id =
      if other = id then s'.terminalPermit.toNat else m.permitOf id := by
  unfold permitOf
  split
  · rename_i here
    subst here
    simp [setHere present]
  · rename_i elsewhere
    rw [setElsewhere (Ne.symm elsewhere)]

theorem flagSet {other : Nat} {s s' : TerminalSession} (present : m.sessions[other]? = some s) :
    (m.setSession other s').flag id = if other = id then some s'.retained else m.flag id := by
  unfold flag
  split
  · rename_i here
    subst here
    simp [setHere present]
  · rename_i elsewhere
    rw [setElsewhere (Ne.symm elsewhere)]

theorem permitSame {other : Nat} {s s' : TerminalSession} (present : m.sessions[other]? = some s)
    (same : s'.terminalPermit = s.terminalPermit) : (m.setSession other s').permitOf id = m.permitOf id := by
  rw [permitOfSet present, same]
  split
  · rename_i here
    subst here
    exact (permitOfHere present).symm
  · rfl

theorem sessionAdded : m.addTerminal.sessions[id]? =
    if id = m.sessions.length then some ⟨true, true, false, false⟩ else m.sessions[id]? := by
  unfold addTerminal
  split
  · rename_i here
    subst here
    simp
  · rename_i elsewhere
    rw [List.getElem?_append]
    split
    · rfl
    · rw [List.getElem?_eq_none (by simp; omega), List.getElem?_eq_none (by omega)]

theorem permitAdded : m.addTerminal.permitOf id = m.permitOf id := by
  unfold permitOf
  rw [sessionAdded]
  split
  · rename_i here
    subst here
    simp
  · rfl

theorem permitsTurn (turn : Turn m q m' q') :
    permits.kept m' + permits.held q' = permits.kept m + permits.held q := by
  cases turn with
  | quiet same =>
    have available := same.available
    have unfinalized := same.unfinalized
    dsimp only
    omega
  | acquire free =>
    change m.availablePermits - 1 + m.unfinalized + (1 + 0) = m.availablePermits + m.unfinalized + (0 + 0)
    omega
  | @unretain returned id s present =>
    have same := @permitSet m id s { s with retained := false } present
    exact congrArg (m.availablePermits + · + 1) (Nat.add_right_cancel same)
  | insert =>
    have added : m.addTerminal.unfinalized = m.unfinalized + 1 := by simp [unfinalized, addTerminal]
    change m.availablePermits + m.addTerminal.unfinalized + (0 + 0) =
      m.availablePermits + m.unfinalized + (1 + 0)
    omega
  | @take returned id s present permit =>
    have moved : (m.setSession id { s with terminalPermit := false }).unfinalized + s.terminalPermit.toNat =
      m.unfinalized + 0 := permitSet present
    rw [permit, Bool.toNat_true] at moved
    change m.availablePermits + (m.setSession id _).unfinalized + (0 + 1) =
      m.availablePermits + m.unfinalized + (0 + 0)
    omega
  | @mark returned id s present =>
    have same := @permitSet m id s { s with retained := false } present
    exact congrArg (m.availablePermits + ·) (Nat.add_right_cancel same)
  | drop | release =>
    simp only [Stage.launching, Stage.inHand]
    change m.availablePermits + 1 + m.unfinalized + _ = m.availablePermits + m.unfinalized + _
    omega
  | _ => rfl

theorem permitOfTurn (turn : Turn m q m' q') :
    (permitOfTerminal id).kept m' + (permitOfTerminal id).held q' =
      (permitOfTerminal id).kept m + (permitOfTerminal id).held q := by
  cases turn with
  | quiet same => exact congrArg (· + _) (same.permitOf id)
  | unretain present => exact congrArg (· + _) (permitSame present rfl)
  | insert => exact congrArg (· + _) permitAdded
  | @take returned other s present permit =>
    change (m.setSession other _).permitOf id + ((if other = id then 1 else 0) + returned.count id) =
      m.permitOf id + (0 + returned.count id)
    rw [permitOfSet present]
    split
    · rename_i here
      subst here
      rw [permitOfHere present, permit, Bool.toNat_true, Bool.toNat_false]
      omega
    · rfl
  | mark present => exact congrArg (· + _) (permitSame present rfl)
  | @release returned other =>
    change m.permitOf id + (0 + (other :: returned).count id) =
      m.permitOf id + ((if other = id then 1 else 0) + returned.count id)
    rw [List.count_cons]
    by_cases here : other = id
    · simp [here]
      omega
    · simp [here]
  | _ => rfl

end Ledgers

/-- Where the one entry of a terminal is while its flag is set: at its permit, in the queue, or
with a task. Without the flag nothing of it is in the queue. -/
def Listed (id : Nat) (m : TerminalManager) (unretaining awaiting : Nat) : Prop :=
  (m.flag id = some false ∧ m.completed.count id = 0) ∨
  (m.flag id ≠ some false ∧ m.permitOf id + m.completed.count id + (unretaining + awaiting) = 1 ∧
    (id < m.sessions.length → id ∈ m.terminals ∨ 1 ≤ unretaining))

section Queue
variable {m m' : TerminalManager} {q q' : Place} {id U W U' W' : Nat}

theorem flagMissing (missing : m.sessions.length ≤ id) : m.flag id = none ∧ m.permitOf id = 1 := by
  simp [flag, permitOf, List.getElem?_eq_none missing]

theorem flagSome (inside : id < m.sessions.length) : m.flag id = some true ∨ m.flag id = some false := by
  rw [flagHere (List.getElem?_eq_getElem inside)]
  cases m.sessions[id].retained
  · exact .inr rfl
  · exact .inl rfl

theorem isRetainedFlag : m.isRetained id = true ↔ m.flag id = some true := by
  unfold isRetained flag
  cases m.sessions[id]?.map TerminalSession.retained <;> simp

theorem flagAdded : m.addTerminal.flag id = if id = m.sessions.length then some true else m.flag id := by
  unfold flag
  rw [sessionAdded]
  split <;> rfl

theorem countOther {other : Nat} {ids : List Nat} (different : other ≠ id) :
    (ids.filter (· != other)).count id = ids.count id :=
  List.count_filter (by simpa using Ne.symm different)

theorem countSelf {ids : List Nat} : (ids.filter (· != id)).count id = 0 :=
  List.count_eq_zero.mpr (by simp)

theorem listedSame (flag : m'.flag id = m.flag id) (permit : m'.permitOf id = m.permitOf id)
    (count : m'.completed.count id = m.completed.count id) (length : m'.sessions.length = m.sessions.length)
    (terminals : id ∈ m.terminals → id ∈ m'.terminals) (stays : U' = U ∧ W' = W)
    (listed : Listed id m U W) : Listed id m' U' W' := by
  obtain ⟨rfl, rfl⟩ := stays
  rcases listed with ⟨off, none⟩ | ⟨on, sum, found⟩
  · exact .inl ⟨flag.trans off, count.trans none⟩
  · refine .inr ⟨flag ▸ on, by omega, fun inside => ?_⟩
    exact (found (length ▸ inside)).imp_left terminals

theorem listedTurn (turn : Turn m q m' q')
    (marked : ∀ other, q.stage = .marked other → m.flag other = some false)
    (unretaining : U' + q.stage.unretains id = U + q'.stage.unretains id)
    (awaiting : W' + q.stage.awaits id = W + q'.stage.awaits id)
    (mineU : q.stage.unretains id ≤ U) (mineW : q.stage.awaits id ≤ W)
    (listed : Listed id m U W) : Listed id m' U' W' := by
  cases turn with
  | quiet same =>
    exact listedSame (same.flag id) (same.permitOf id) (by rw [same.completed]) same.sessions
      (fun found => same.terminals ▸ found) ⟨by omega, by omega⟩ listed
  | acquire | full | room | drained | drop | release =>
    exact listedSame rfl rfl rfl rfl (fun found => found) ⟨unretaining, awaiting⟩ listed
  | @pop returned other rest first =>
    have counts : m.completed.count id = rest.count id + if other = id then 1 else 0 := by
      rw [first, List.count_cons]
      simp
    have moved : W' = W + if other = id then 1 else 0 := awaiting
    have same : U' = U := unretaining
    rcases listed with ⟨off, none⟩ | ⟨on, sum, found⟩
    · exact .inl ⟨off, by change rest.count id = 0; omega⟩
    · refine .inr ⟨on, ?_, fun inside => same ▸ found inside⟩
      change m.permitOf id + rest.count id + (U' + W') = 1
      omega
  | @remove returned other present =>
    have lost : W' + (if other = id then 1 else 0) = W := awaiting
    have gained : U' = U + if other = id then 1 else 0 := unretaining
    rcases listed with ⟨off, none⟩ | ⟨on, sum, found⟩
    · exact .inl ⟨off, none⟩
    · refine .inr ⟨on, ?_, fun inside => ?_⟩
      · change m.permitOf id + m.completed.count id + (U' + W') = 1
        omega
      · by_cases here : other = id
        · rw [if_pos here] at gained
          exact .inr (by omega)
        · rw [if_neg here] at gained
          refine (found inside).imp (fun member => ?_) (by omega)
          exact List.mem_filter.mpr ⟨member, by simpa using Ne.symm here⟩
  | @absent returned other missing =>
    have lost : W' + (if other = id then 1 else 0) = W := awaiting
    have same : U' = U := unretaining
    have elsewhere : id ∈ m.terminals → id ∈ m.terminals.filter (· != other) := fun member =>
      List.mem_filter.mpr ⟨member, by simpa using fun here : id = other => missing (here ▸ member)⟩
    rcases listed with ⟨off, none⟩ | ⟨on, sum, found⟩
    · exact .inl ⟨off, none⟩
    · by_cases here : other = id
      · subst here
        rw [if_pos rfl] at lost
        rcases Nat.lt_or_ge other m.sessions.length with inside | beyond
        · rcases found inside with member | unretains
          · exact absurd member missing
          · omega
        · have made := (flagMissing beyond).2
          omega
      · rw [if_neg here] at lost
        refine .inr ⟨on, ?_, fun inside => same ▸ (found inside).imp_left elsewhere⟩
        change m.permitOf id + m.completed.count id + (U' + W') = 1
        omega
  | @unretain returned other s present =>
    have lost : U' + (if other = id then 1 else 0) = U := unretaining
    have same : W' = W := awaiting
    by_cases here : other = id
    · subst here
      rw [if_pos rfl] at lost
      have off : (m.setSession other { s with retained := false }).flag other = some false := by
        rw [flagSet present, if_pos rfl]
      refine .inl ⟨off, ?_⟩
      change m.completed.count other = 0
      rcases listed with ⟨_, none⟩ | ⟨_, sum, _⟩
      · exact none
      · omega
    · rw [if_neg here] at lost
      exact listedSame (by rw [flagSet present, if_neg here]) (permitSame present rfl) rfl
        (by simp [setSession]) (fun found => found) ⟨lost, same⟩ listed
  | insert =>
    have sameU : U' = U := unretaining
    have sameW : W' = W := awaiting
    subst sameU sameW
    rcases listed with ⟨off, none⟩ | ⟨on, sum, found⟩
    · have inside : id ≠ m.sessions.length := fun here => by
        rw [(flagMissing (Nat.le_of_eq here.symm)).1] at off
        cases off
      exact .inl ⟨by rw [flagAdded, if_neg inside, off], none⟩
    · refine .inr ⟨?_, ?_, fun inside => ?_⟩
      · rw [flagAdded]
        split
        · simp
        · exact on
      · rw [permitAdded]
        exact sum
      · by_cases here : id = m.sessions.length
        · exact .inl (List.mem_append_right _ (by simp [here]))
        · have old : id < m.sessions.length := by
            simp only [addTerminal, List.length_append, List.length_singleton] at inside
            omega
          exact (found old).imp_left (List.mem_append_left _)
  | @take returned other s present permit =>
    have sameU : U' = U := unretaining
    have moved : W' = W + if other = id then 1 else 0 := awaiting
    have same : (m.setSession other { s with terminalPermit := false }).flag id = m.flag id := by
      rw [flagSet present]
      split
      · rename_i here
        rw [← here, flagHere present]
      · rfl
    by_cases here : other = id
    · subst here
      rw [if_pos rfl] at moved
      have whole := permitOfHere present
      have taken : (m.setSession other { s with terminalPermit := false }).permitOf other = 0 := by
        rw [permitOfSet present, if_pos rfl]
        rfl
      rw [permit, Bool.toNat_true] at whole
      rcases listed with ⟨off, none⟩ | ⟨on, sum, found⟩
      · exact .inl ⟨same.trans off, none⟩
      · refine .inr ⟨same ▸ on, ?_, fun inside => sameU ▸ found (by simpa [setSession] using inside)⟩
        change _ + m.completed.count other + (U' + W') = 1
        omega
    · rw [if_neg here] at moved
      refine listedSame same ?_ rfl (by simp [setSession]) (fun found => found) ⟨sameU, moved⟩ listed
      rw [permitOfSet present, if_neg here]
  | @push returned other retained =>
    have sameU : U' = U := unretaining
    have lost : W' + (if other = id then 1 else 0) = W := awaiting
    have counts : (m.completed ++ [other]).count id = m.completed.count id + if other = id then 1 else 0 := by
      rw [List.count_append, List.count_singleton]
      simp
    rcases listed with ⟨off, none⟩ | ⟨on, sum, found⟩
    · have different : other ≠ id := fun here => by
        have set := isRetainedFlag.mp retained
        rw [here, off] at set
        cases set
      rw [if_neg different] at counts
      exact .inl ⟨off, counts.trans none⟩
    · refine .inr ⟨on, ?_, fun inside => sameU ▸ found inside⟩
      change m.permitOf id + (m.completed ++ [other]).count id + (U' + W') = 1
      omega
  | @skip returned other dropped =>
    have sameU : U' = U := unretaining
    have lost : W' + (if other = id then 1 else 0) = W := awaiting
    rcases listed with ⟨off, none⟩ | ⟨on, sum, found⟩
    · exact .inl ⟨off, none⟩
    · have different : other ≠ id := fun here => by
        subst here
        rw [if_pos rfl] at lost
        rcases Nat.lt_or_ge other m.sessions.length with inside | beyond
        · have set := isRetainedFlag.mpr ((flagSome inside).resolve_right on)
          rw [dropped] at set
          cases set
        · have made := (flagMissing beyond).2
          omega
      rw [if_neg different] at lost
      refine .inr ⟨on, ?_, fun inside => sameU ▸ found inside⟩
      omega
  | @mark returned other s present =>
    have sameU : U' = U := unretaining
    have sameW : W' = W := awaiting
    by_cases here : other = id
    · subst here
      refine .inl ⟨?_, countSelf⟩
      change (m.setSession other { s with retained := false }).flag other = some false
      rw [flagSet present, if_pos rfl]
    · refine listedSame ?_ (permitSame present rfl) (countOther here) (by simp [setSession])
        (fun found => found) ⟨sameU, sameW⟩ listed
      change (m.setSession other { s with retained := false }).flag id = m.flag id
      rw [flagSet present, if_neg here]
  | @removed returned other =>
    have sameU : U' = U := unretaining
    have sameW : W' = W := awaiting
    rcases listed with ⟨off, none⟩ | ⟨on, sum, found⟩
    · exact .inl ⟨off, none⟩
    · have different : id ≠ other := fun here => on (here ▸ marked other rfl)
      refine .inr ⟨on, by subst sameU sameW; exact sum, fun inside => sameU ▸ (found inside).imp_left ?_⟩
      exact fun member => List.mem_filter.mpr ⟨member, by simpa using different⟩

end Queue

def roomyLaunches (c : Config machine) : Nat := books.tally (fun q => q.stage.roomier) c.tasks

def Admits (m : TerminalManager) : Stage → Prop
  | .holding => m.terminals.length < m.limit
  | .crowded => m.completed = []
  | _ => False

/-- A launch leaves the loop only while the table and the launches already behind the loop
leave room. -/
def Checked (c : Config machine) : Event machine → Prop
  | .run index _ => ∀ t, c.tasks[index]? = some t → Admits c.memory (books.place t).stage →
      c.memory.terminals.length + roomyLaunches c < c.memory.limit
  | _ => True

instance (m : TerminalManager) (stage : Stage) : Decidable (Admits m stage) :=
  match stage with
  | .holding => inferInstanceAs (Decidable (m.terminals.length < m.limit))
  | .crowded => inferInstanceAs (Decidable (m.completed = []))
  | .plain | .removing _ | .unretaining _ | .roomy | .taking _ | .returning _ | .marked _ =>
    inferInstanceAs (Decidable False)

instance (c : Config machine) (e : Event machine) : Decidable (Checked c e) :=
  match e with
  | .run index _ => decidable_of_iff (∀ t ∈ c.tasks[index]?, Admits c.memory (books.place t).stage →
      c.memory.terminals.length + roomyLaunches c < c.memory.limit) Iff.rfl
  | .call _ | .outside _ => inferInstanceAs (Decidable True)

def queued (id : Nat) (c : Config machine) : Prop :=
  Listed id c.memory (books.tally (fun q => q.stage.unretains id) c.tasks)
    (books.tally (fun q => q.stage.awaits id) c.tasks)

/-- The keys of the table are distinct, and each is a terminal that was made. -/
structure Table (m : TerminalManager) : Prop where
  distinct : m.terminals.Nodup
  made : ∀ id ∈ m.terminals, id < m.sessions.length

structure Kept (limit : Nat) (c : Config machine) : Prop where
  configured : c.memory.limit = limit
  permits : permits.total c = limit
  permitOf : ∀ id, (permitOfTerminal id).total c = 1
  queue : ∀ id, queued id c
  marked : ∀ t ∈ c.tasks, ∀ id, (books.place t).stage = .marked id → c.memory.flag id = some false
  table : Table c.memory

/-- The table has room for the launches behind the loop. -/
def Roomy (limit : Nat) (c : Config machine) : Prop := c.memory.terminals.length + roomyLaunches c ≤ limit

section Runs
variable {limit : Nat} {c : Config machine} {m m' : TerminalManager} {q q' : Place}

theorem flagOff (turn : Turn m q m' q') {id : Nat} (off : m.flag id = some false) :
    m'.flag id = some false := by
  cases turn with
  | quiet same => exact (same.flag id).trans off
  | @take returned other s present permit =>
    rw [flagSet present]
    split
    · rename_i here
      rw [← off, ← here, flagHere present]
    · exact off
  | unretain present =>
    rw [flagSet present]
    split
    · rfl
    · exact off
  | @mark returned other s present =>
    change (m.setSession other { s with retained := false }).flag id = some false
    rw [flagSet present]
    split
    · rfl
    · exact off
  | insert =>
    rw [flagAdded, if_neg, off]
    rintro rfl
    rw [(flagMissing (Nat.le_refl _)).1] at off
    cases off
  | _ => exact off

theorem markedAfter (turn : Turn m q m' q') {id : Nat}
    (before : q.stage = .marked id → m.flag id = some false) (here : q'.stage = .marked id) :
    m'.flag id = some false := by
  cases turn with
  | quiet same => exact (same.flag id).trans (before here)
  | @mark returned other s present =>
    cases here
    change (m.setSession id { s with retained := false }).flag id = some false
    rw [flagSet present, if_pos rfl]
  | _ => cases here

theorem limitTurn (turn : Turn m q m' q') : m'.limit = m.limit := by
  cases turn with
  | quiet same => exact same.limit
  | _ => rfl

theorem tableTurn (turn : Turn m q m' q') (table : Table m) : Table m' := by
  have filtered : ∀ id, Table { m with terminals := m.terminals.filter (· != id) } := fun id =>
    ⟨table.distinct.filter _, fun other member => table.made other (List.mem_filter.mp member).1⟩
  have changed : ∀ id s, Table (m.setSession id s) := fun id s =>
    ⟨table.distinct, fun other member => by simpa [setSession] using table.made other member⟩
  cases turn with
  | quiet same =>
    refine ⟨same.terminals ▸ table.distinct, fun id member => ?_⟩
    rw [same.sessions]
    exact table.made id (same.terminals ▸ member)
  | remove | absent | removed => exact filtered _
  | unretain | take => exact changed _ _
  | @mark returned other s present =>
    exact ⟨table.distinct, (changed other { s with retained := false }).made⟩
  | insert =>
    refine ⟨?_, fun id member => ?_⟩
    · refine List.nodup_append.mpr ⟨table.distinct, by simp, ?_⟩
      intro id member other new same
      have inside := table.made id member
      rw [same, List.mem_singleton.mp new] at inside
      exact Nat.lt_irrefl _ inside
    · simp only [addTerminal, List.length_append, List.length_singleton]
      rcases List.mem_append.mp member with old | new
      · have inside := table.made id old
        omega
      · have here : id = m.sessions.length := List.mem_singleton.mp new
        omega
  | _ => exact ⟨table.distinct, table.made⟩

theorem roomTurn {R R' : Nat} (turn : Turn m q m' q')
    (admitted : Admits m q.stage → m.terminals.length + R < m.limit)
    (moved : R' + q.stage.roomier = R + q'.stage.roomier)
    (room : m.terminals.length + R ≤ m.limit) : m'.terminals.length + R' ≤ m.limit := by
  have shorter : ∀ id, (m.terminals.filter (· != id)).length ≤ m.terminals.length := fun id =>
    List.length_filter_le _ _
  cases turn with
  | quiet same =>
    rw [same.terminals]
    omega
  | room fits =>
    have less := admitted fits
    change R' + 0 = R + 1 at moved
    omega
  | drained empty =>
    have less := admitted empty
    change R' + 0 = R + 1 at moved
    omega
  | @remove returned other present | @absent returned other missing | @removed returned other =>
    have less := shorter other
    change R' + 0 = R + 0 at moved
    change (m.terminals.filter (· != other)).length + R' ≤ m.limit
    omega
  | insert =>
    change R' + 1 = R + 0 at moved
    have longer : m.addTerminal.terminals.length = m.terminals.length + 1 := by simp [addTerminal]
    omega
  | drop =>
    change R' + 1 = R + 0 at moved
    change m.terminals.length + R' ≤ m.limit
    omega
  | _ =>
    change R' + 0 = R + 0 at moved
    exact (by omega : m.terminals.length + R' ≤ m.limit)

theorem keptStarted : Kept limit (started limit) where
  configured := rfl
  permits := rfl
  permitOf := fun _ => rfl
  queue := fun _ => .inr ⟨nofun, rfl, fun inside => absurd inside (Nat.not_lt_zero _)⟩
  marked := fun t member => by cases member
  table := ⟨List.nodup_nil, fun id member => by cases member⟩

theorem enterPlain {e : Entry} (called : callable e = true) : Place.enter e = ⟨.plain, []⟩ := by
  cases e <;> first | rfl | cases called

theorem spawnedNothing {o : Act} {f : Place → Nat} (nothing : f ⟨.plain, []⟩ = 0) :
    books.spawnedTally f o = 0 := by
  cases o <;> first | exact nothing | rfl

theorem tallyCalled {e : Entry} {f : Place → Nat} (called : callable e = true) (nothing : f ⟨.plain, []⟩ = 0) :
    books.tally f (c.tasks ++ [.enter e]) = books.tally f c.tasks := by
  rw [tallyCall]
  change _ + f (Place.enter e) = _
  rw [enterPlain called, nothing, Nat.add_zero]

theorem tallyActed {index choice t o answer memory next} {f : Place → Nat}
    (performs : Performs c index choice t o answer memory next) (obeys : books.Obeys t o answer next)
    (nothing : f ⟨.plain, []⟩ = 0) :
    books.tally f (c.tasks.set index (t.advance o answer next) ++ spawned o) + f (books.place t) =
      books.tally f c.tasks + f ((books.place t).after o answer) := by
  rw [tallyActs performs obeys, spawnedNothing nothing, Nat.add_zero]

theorem keptCall {e : Entry} (called : callable e = true) (kept : Kept limit c) :
    Kept limit ⟨c.memory, c.tasks ++ [.enter e]⟩ := by
  have plain := enterPlain called
  have same : ∀ f : Place → Nat, f ⟨.plain, []⟩ = 0 →
      books.tally f (c.tasks ++ [.enter e]) = books.tally f c.tasks := fun f => tallyCalled called
  refine ⟨kept.configured, ?_, fun id => ?_, fun id => ?_, fun t member id here => ?_, kept.table⟩
  · rw [← kept.permits]
    exact congrArg (permits.kept c.memory + ·) (same _ rfl)
  · rw [← kept.permitOf id]
    exact congrArg ((permitOfTerminal id).kept c.memory + ·) (same _ rfl)
  · have before := kept.queue id
    unfold queued at before ⊢
    rw [same _ rfl, same _ rfl]
    exact before
  · rcases List.mem_append.mp member with old | new
    · exact kept.marked t old id here
    · cases List.mem_singleton.mp new
      change (Place.enter e).stage = .marked id at here
      rw [plain] at here
      cases here

theorem keptAct {index choice t o answer memory next} (kept : Kept limit c)
    (performs : Performs c index choice t o answer memory next) (obeys : books.Obeys t o answer next) :
    Kept limit ⟨memory, c.tasks.set index (t.advance o answer next) ++ spawned o⟩ := by
  have turn := actTurns obeys.allowed performs.effect
  have present := performs.present
  have member := List.mem_of_getElem? present
  have moved : ∀ f : Place → Nat, f ⟨.plain, []⟩ = 0 →
      books.tally f (c.tasks.set index (t.advance o answer next) ++ spawned o) + f (books.place t) =
        books.tally f c.tasks + f ((books.place t).after o answer) := fun f => tallyActed performs obeys
  have mine : ∀ f : Place → Nat, f (books.place t) ≤ books.tally f c.tasks := fun f =>
    tallyMember member
  refine ⟨(limitTurn turn).trans kept.configured, ?_, fun id => ?_, fun id => ?_, ?_,
    tableTurn turn kept.table⟩
  · rw [← kept.permits]
    refine Ledger.totalActs performs obeys ?_
    rw [spawnedNothing rfl, Nat.add_zero]
    exact permitsTurn turn
  · rw [← kept.permitOf id]
    refine Ledger.totalActs performs obeys ?_
    rw [spawnedNothing rfl, Nat.add_zero]
    exact permitOfTurn turn
  · exact listedTurn turn (kept.marked t member) (moved (fun q => q.stage.unretains id) rfl)
      (moved (fun q => q.stage.awaits id) rfl) (mine fun q => q.stage.unretains id)
      (mine fun q => q.stage.awaits id) (kept.queue id)
  · intro u found id here
    obtain ⟨j, at_j⟩ := List.getElem?_of_mem found
    rcases taskCases at_j with ⟨_, rfl⟩ | ⟨_, old⟩ | ⟨_, e, spawns, rfl⟩
    · rw [obeys.reached] at here
      exact markedAfter turn (kept.marked t member id) here
    · exact flagOff turn (kept.marked u (List.mem_of_getElem? old) id here)
    · cases o <;> cases spawns
      cases here

theorem reachKept {Good : Config machine → Event machine → Prop} (reach : Reach Good (started limit) c) :
    Kept limit c := by
  refine reachInvariant keptStarted (fun {c e c'} before kept good moves => ?_) reach
  have placed := reachPlaced booksSound (fun t member => by cases member) before
  cases moves with
  | call allowed => exact keptCall allowed kept
  | act performs => exact keptAct kept performs (performsObeys booksSound placed performs)
  | @outside x memory effect => exact nomatch x

theorem reachRoomy (reach : Reach Checked (started limit) c) : Roomy limit c := by
  refine reachInvariant (Nat.zero_le _) (fun {c e c'} before roomy good moves => ?_) reach
  have placed := reachPlaced booksSound (fun t member => by cases member) before
  have configured := (reachKept before).configured
  cases moves with
  | call allowed =>
    unfold Roomy roomyLaunches at roomy ⊢
    rw [tallyCalled allowed rfl]
    exact roomy
  | @act index choice t o answer memory next performs =>
    have obeys := performsObeys booksSound placed performs
    have checked := good t performs.present
    unfold Roomy at roomy ⊢
    rw [← configured] at roomy ⊢
    exact roomTurn (actTurns obeys.allowed performs.effect) checked (tallyActed performs obeys rfl) roomy
  | @outside x memory effect => exact nomatch x

end Runs

def launches (c : Config machine) : Nat := books.tally (fun q => q.stage.launching) c.tasks

/-- The finalisations that have taken the permit and not dropped it yet. -/
def finalizing (c : Config machine) : Nat := books.tally (fun q => q.stage.inHand) c.tasks

def finalizingOf (id : Nat) (c : Config machine) : Nat := books.tally (fun q => q.stage.handles id) c.tasks

/-- How often the permit of the terminal was given back to the semaphore. -/
def returnsOf (id : Nat) (c : Config machine) : Nat := books.tally (fun q => q.returned.count id) c.tasks

/-- The tasks that have popped the terminal to drop it, or finalise it and have not listed it yet. -/
def pendingOf (id : Nat) (c : Config machine) : Nat := books.tally (fun q => q.stage.pending id) c.tasks

/-- What holds of the permits, the queue and the table in every run. -/
structure Accounts (limit : Nat) (c : Config machine) : Prop where
  outstanding : c.memory.availablePermits + (launches c + (c.memory.unfinalized + finalizing c)) = limit
  returned : ∀ id s, c.memory.sessions[id]? = some s →
    s.terminalPermit.toNat + finalizingOf id c + returnsOf id c = 1
  listed : ∀ id s, c.memory.sessions[id]? = some s → s.retained = true → s.terminalPermit = false →
    c.memory.completed.count id + pendingOf id c = 1
  others : ∀ id ∈ c.memory.completed, c.memory.completed.count id = 1 ∧ id ∈ c.memory.terminals ∧
    ∃ s, c.memory.sessions[id]? = some s ∧ s.retained = true ∧ s.terminalPermit = false
  distinct : c.memory.terminals.Nodup

theorem keptAccounts {limit : Nat} {c : Config machine} (kept : Kept limit c) : Accounts limit c := by
  refine ⟨?_, fun id s present => ?_, fun id s present retained permit => ?_, fun id member => ?_,
    kept.table.distinct⟩
  · have split : permits.total c =
        c.memory.availablePermits + c.memory.unfinalized + (launches c + finalizing c) :=
      congrArg (c.memory.availablePermits + c.memory.unfinalized + ·) tallyAdd
    have total := kept.permits
    omega
  · have split : (permitOfTerminal id).total c =
        c.memory.permitOf id + (finalizingOf id c + returnsOf id c) :=
      congrArg (c.memory.permitOf id + ·) tallyAdd
    have total := kept.permitOf id
    have here := permitOfHere present
    omega
  · have split := @tallyAdd _ _ books (fun q => q.stage.unretains id) (fun q => q.stage.awaits id) c.tasks
    rcases kept.queue id with ⟨off, _⟩ | ⟨_, sum, _⟩
    · rw [flagHere present, retained] at off
      cases off
    · rw [permitOfHere present, permit, ← split, Bool.toNat_false, Nat.zero_add] at sum
      exact sum
  · have some := List.count_pos_iff.mpr member
    rcases kept.queue id with ⟨_, none⟩ | ⟨on, sum, found⟩
    · omega
    · rcases Nat.lt_or_ge id c.memory.sessions.length with inside | beyond
      · have present := List.getElem?_eq_getElem inside
        have whole := permitOfHere present
        refine ⟨by omega, (found inside).resolve_right (by omega), _, present, ?_, ?_⟩
        · cases flag : c.memory.sessions[id].retained
          · rw [flagHere present, flag] at on
            exact absurd rfl on
          · rfl
        · cases permit : c.memory.sessions[id].terminalPermit
          · rfl
          · rw [permit, Bool.toNat_true] at whole
            omega
      · have made := (flagMissing beyond).2
        omega

/-- The one terminal has ended, and one launch fills the table again: room is made first. -/
def secondLaunch : List (Event machine) :=
  [.call (.prepareLaunch false)] ++ List.replicate 5 (.run 0 true) ++ List.replicate 6 (.run 1 true) ++
    [.call (.prepareLaunch false)] ++ List.replicate 8 (.run 2 true)

/-- A close takes the ended terminal out of the queue; before it takes it out of the table, a
launch finds the table full and the queue empty, and goes on. -/
def closeBeside : List (Event machine) :=
  [.call (.prepareLaunch false)] ++ List.replicate 5 (.run 0 true) ++ List.replicate 6 (.run 1 true) ++
    [.call (.close 0)] ++ List.replicate 7 (.run 2 true) ++
    [.call (.prepareLaunch false)] ++ List.replicate 5 (.run 3 true)

end Maestro.TerminalTable
