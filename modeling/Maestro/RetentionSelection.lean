import Mathlib.Algebra.Order.BigOperators.Group.List
import Maestro.SegmentPruning

/-! What a retention plan selects, for records of many owners: by age, and by size as far as the
saturated totals go. -/
namespace Maestro.Retention

section Keys
variable {α κ : Type} [LinearOrder κ] {key : α → κ} {same : α → α → Bool}

def firstOf (same : α → α → Bool) : List α → List α
  | [] => []
  | item :: rest => item :: (firstOf same rest).filter fun other => !same item other

theorem firstFound (reflexive : ∀ a, same a a = true) {items : List α} {item : α} :
    item ∈ firstOf same items ↔ items.find? (same · item) = some item := by
  induction items with
  | nil => simp [firstOf]
  | cons first rest ih =>
    rw [firstOf, List.mem_cons, List.mem_filter, ih]
    cases alike : same first item with
    | true =>
      simp [alike, eq_comm]
    | false =>
      have other : item ≠ first := fun equal => by
        rw [equal, reflexive] at alike
        cases alike
      simp [alike, other]

theorem firstApart {items : List α} : (firstOf same items).Pairwise fun a b => same a b = false := by
  induction items with
  | nil => exact .nil
  | cons first rest ih =>
    refine List.pairwise_cons.mpr ⟨fun other member => ?_, ih.filter _⟩
    simpa using (List.mem_filter.mp member).2

theorem sortSorted (items : List α) : (sortBy key items).Pairwise fun a b => key a ≤ key b :=
  have : Std.Total fun a b : α => key a ≤ key b := ⟨fun _ _ => le_total _ _⟩
  have : IsTrans α fun a b => key a ≤ key b := ⟨fun _ _ _ => le_trans⟩
  List.pairwise_insertionSort _ items

theorem sortStable {items : List α} {k : κ} :
    (sortBy key items).filter (key · = k) = items.filter (key · = k) := by
  have : Std.Total fun a b : α => key a ≤ key b := ⟨fun _ _ => le_total _ _⟩
  have : IsTrans α fun a b => key a ≤ key b := ⟨fun _ _ _ => le_trans⟩
  have equal : (items.filter (key · = k)).Pairwise fun a b => key a ≤ key b := by
    refine List.pairwise_of_forall_mem_list fun a here b there => ?_
    rw [of_decide_eq_true (List.mem_filter.mp here).2, of_decide_eq_true (List.mem_filter.mp there).2]
  have inside := (List.sublist_insertionSort equal List.filter_sublist).filter (key · = k)
  rw [List.filter_filter] at inside
  simp only [Bool.and_self] at inside
  have perm : (sortBy key items).Perm items := sortPerm
  exact (inside.eq_of_length (perm.filter _).length_eq.symm).symm

theorem findFiltered {items : List α} {p : α → Bool} : items.find? p = (items.filter p).head? :=
  List.head?_filter.symm

variable (keyed : ∀ a b, same a b = true ↔ key a = key b)
include keyed

theorem sortFind {items : List α} {item : α} :
    (sortBy key items).find? (same · item) = items.find? (same · item) := by
  have alike : (same · item) = fun other => decide (key other = key item) := by
    funext other
    rw [Bool.eq_iff_iff, keyed, decide_eq_true_iff]
  rw [findFiltered, findFiltered, alike, sortStable]

theorem dedupFound {items : List α} (sorted : items.Pairwise fun a b => key a ≤ key b) {item : α} :
    item ∈ dedupBy same items ↔ items.find? (same · item) = some item := by
  cases items with
  | nil => simp [dedupBy]
  | cons kept rest =>
    change item ∈ dedupFrom same kept rest ↔ _
    induction rest generalizing kept with
    | nil =>
      rw [dedupFrom, List.mem_singleton]
      constructor
      · rintro rfl
        simp [(keyed item item).mpr rfl]
      · exact fun found => List.mem_singleton.mp (List.mem_of_find?_eq_some found)
    | cons next rest ih =>
      obtain ⟨least, later⟩ := List.pairwise_cons.mp sorted
      unfold dedupFrom
      split
      · rename_i alike
        have equal := (keyed _ _).mp alike
        rw [ih kept (List.pairwise_cons.mpr ⟨fun a member => least a (List.mem_cons_of_mem _ member), (List.pairwise_cons.mp later).2⟩)]
        simp only [List.find?_cons]
        cases here : same kept item with
        | true => rfl
        | false =>
          have other : same next item = false := by
            rw [Bool.eq_false_iff, Ne, keyed, equal, ← keyed, here]
            exact Bool.false_ne_true
          rw [other]
      · rename_i apart
        rw [List.mem_cons, ih next later]
        have itself : same kept kept = true := (keyed _ _).mpr rfl
        cases here : same kept item with
        | true =>
          have none' : (next :: rest).find? (same · item) ≠ some item := fun found => by
            have member := List.mem_of_find?_eq_some found
            have before : key next ≤ key item := by
              rcases List.mem_cons.mp member with rfl | member
              · exact le_refl _
              · exact (List.pairwise_cons.mp later).1 _ member
            have equal := (keyed _ _).mp here
            have between := le_antisymm (equal ▸ before) (least next List.mem_cons_self)
            exact apart ((keyed _ _).mpr between)
          rw [or_iff_left none', List.find?_cons, here]
          exact ⟨fun equal => congrArg some equal.symm, fun found => (Option.some.inj found).symm⟩
        | false =>
          have other : item ≠ kept := fun equal => by
            rw [equal, itself] at here
            cases here
          rw [or_iff_right other]
          simp only [List.find?_cons, here]

theorem dedupApart {items : List α} (sorted : items.Pairwise fun a b => key a ≤ key b) :
    (dedupBy same items).Pairwise fun a b => key a < key b := by
  cases items with
  | nil => exact .nil
  | cons kept rest =>
    change (dedupFrom same kept rest).Pairwise _
    induction rest generalizing kept with
    | nil => exact List.pairwise_singleton _ _
    | cons next rest ih =>
      obtain ⟨least, later⟩ := List.pairwise_cons.mp sorted
      unfold dedupFrom
      split
      · exact ih kept (List.pairwise_cons.mpr
          ⟨fun a member => least a (List.mem_cons_of_mem _ member), (List.pairwise_cons.mp later).2⟩)
      · rename_i apart
        refine List.pairwise_cons.mpr ⟨fun item member => ?_, ih next later⟩
        have inside : item ∈ next :: rest :=
          List.mem_of_find?_eq_some ((dedupFound keyed later).mp member)
        have first : key kept < key next := lt_of_le_of_ne (least next List.mem_cons_self) fun equal =>
          apart ((keyed _ _).mpr equal.symm)
        rcases List.mem_cons.mp inside with rfl | inside
        · exact first
        · exact lt_of_lt_of_le first ((List.pairwise_cons.mp later).1 _ inside)

end Keys

section Members
variable {policy : RetentionPolicy} {policies : RetentionPolicies} {now maximum : Nat}
  {records : List RetentionRecord} {c : RetentionRecord}

def expired (policy : RetentionPolicy) (now : Nat) (record : RetentionRecord) : Bool :=
  match policy.maxAge with
  | none => false
  | some maxAge => decide ((record.createdAt : Int) < now - maxAge)

def age (record : RetentionRecord) : Lex (Nat × String) := toLex (record.createdAt, record.id)

def oldestRecords (records : List RetentionRecord) : List RetentionRecord := sortBy age records

/-- The records of one owner the age rule leaves; of records given under one key the first. -/
def unexpired (policies : RetentionPolicies) (now : Nat) (records : List RetentionRecord)
    (category : RetentionCategory) (owner : String) : List RetentionRecord :=
  (firstOf sameRecord records).filter fun record =>
    record.category = category ∧ record.ownerId = owner ∧ expired (policies.policy category) now record = false

theorem sameKeys (a b : RetentionRecord) :
    sameRecord a b = true ↔ toLex (a.category.rank, a.id) = toLex (b.category.rank, b.id) := by
  have ranks : ∀ {x y : RetentionCategory}, x.rank = y.rank ↔ x = y := by
    intro x y
    cases x <;> cases y <;> decide
  rw [sameRecord, decide_eq_true_iff, toLex_inj, Prod.mk.injEq, ranks]

theorem sameRefl (a : RetentionRecord) : sameRecord a a = true := (sameKeys a a).mpr rfl

theorem firstOnly {a b : RetentionRecord} (here : a ∈ firstOf sameRecord records)
    (there : b ∈ firstOf sameRecord records) (same : sameRecord a b = true) : a = b := by
  have foundA := (firstFound sameRefl).mp here
  have foundB := (firstFound sameRefl).mp there
  have alike : (sameRecord · a) = (sameRecord · b) := by
    funext other
    rw [Bool.eq_iff_iff, sameKeys, sameKeys, (sameKeys a b).mp same]
  rw [alike, foundB] at foundA
  exact (Option.some.inj foundA).symm

theorem firstOnce : (firstOf sameRecord records).Nodup := firstApart.imp fun other equal => by
  rw [equal, sameRefl] at other
  cases other

def distinctRecords (records : List RetentionRecord) : List RetentionRecord :=
  dedupBy sameRecord (sortBy (fun r => toLex (r.category.rank, r.id)) records)

theorem distinctOnce : (distinctRecords records).Nodup :=
  (dedupApart sameKeys (sortSorted records)).imp fun less equal => by
    rw [equal] at less
    exact lt_irrefl _ less

theorem distinctPerm : (distinctRecords records).Perm (firstOf sameRecord records) := by
  refine (List.perm_ext_iff_of_nodup distinctOnce firstOnce).mpr fun record => ?_
  rw [distinctRecords, dedupFound sameKeys (sortSorted records), sortFind sameKeys, firstFound sameRefl]

theorem oldestTake (maximum total : Nat) (records : List RetentionRecord) :
    ∃ k ≤ records.length, oldestAbove maximum total records = records.take k ∧
      (∀ j < k, maximum < total - recordSize (records.take j)) ∧
      (k = records.length ∨ total - recordSize (records.take k) ≤ maximum) := by
  induction records generalizing total with
  | nil => exact ⟨0, le_refl _, rfl, nofun, .inl rfl⟩
  | cons record rest ih =>
    unfold oldestAbove
    split
    · rename_i within
      exact ⟨0, Nat.zero_le _, rfl, nofun, .inr within⟩
    · rename_i above
      obtain ⟨k, short, taken, before, last⟩ := ih (total - record.byteCount)
      have sizes : ∀ j, total - recordSize ((record :: rest).take (j + 1)) =
          total - record.byteCount - recordSize (rest.take j) := by
        intro j
        rw [List.take_succ_cons, recordSize, List.map_cons, List.sum_cons, recordSize, Nat.sub_sub]
      refine ⟨k + 1, Nat.succ_le_succ short, by rw [taken, List.take_succ_cons], fun j small => ?_, ?_⟩
      · cases j with
        | zero => simpa [recordSize] using above
        | succ j =>
          rw [sizes]
          exact before j (Nat.lt_of_succ_lt_succ small)
      · rcases last with whole | within
        · exact .inl (congrArg (· + 1) whole)
        · exact .inr (by rwa [sizes])

theorem overBudgetMember : c ∈ overBudget maximum records ↔
    c ∈ oldestAbove maximum (totalBytes (oldestRecords (records.filter (·.ownerId = c.ownerId))))
      (oldestRecords (records.filter (·.ownerId = c.ownerId))) := by
  have owns : ∀ {owner : String} {total : Nat},
      c ∈ oldestAbove maximum total (oldestRecords (records.filter (·.ownerId = owner))) → c ∈ records ∧ c.ownerId = owner := by
    intro owner total selected
    have inside := List.mem_filter.mp (memSort.mp (oldestSubset _ selected))
    exact ⟨inside.1, of_decide_eq_true inside.2⟩
  unfold overBudget
  rw [List.mem_flatMap]
  constructor
  · rintro ⟨owner, _, selected⟩
    obtain ⟨_, rfl⟩ := owns selected
    exact selected
  · intro selected
    exact ⟨c.ownerId, List.mem_dedup.mpr (List.mem_map_of_mem (owns selected).1), selected⟩

theorem selectMember : c ∈ selectCategory policy now records ↔
    c ∈ records ∧ (policy.enabled = true → expired policy now c = false →
      ∃ maximum, policy.maxBytesPerOwner = some maximum ∧
        c ∈ overBudget maximum (records.filter fun record => expired policy now record = false)) := by
  have inside : ∀ {maximum}, c ∈ overBudget maximum (records.filter fun record => expired policy now record = false) →
      c ∈ records := fun selected =>
    (List.mem_filter.mp (List.mem_filter.mp (memSort.mp (oldestSubset _ (overBudgetMember.mp selected)))).1).1
  have retained : (records.filter fun record => !expired policy now record) =
      records.filter fun record => expired policy now record = false := by
    congr 1
    funext record
    cases expired policy now record <;> rfl
  unfold selectCategory
  split
  · rename_i enabled
    change c ∈ records.filter (expired policy now) ++ _ ↔ _
    rw [List.mem_append, List.mem_filter]
    cases limit : policy.maxBytesPerOwner with
    | none =>
      cases aged : expired policy now c <;> simp [enabled]
    | some maximum =>
      change _ ∨ c ∈ overBudget maximum (records.filter fun record => !expired policy now record) ↔ _
      rw [retained]
      cases aged : expired policy now c with
      | true =>
        simp only [and_true, Bool.true_eq_false, false_implies, implies_true, or_iff_left_iff_imp]
        exact inside
      | false =>
        simp only [Bool.false_eq_true, and_false, false_or, enabled, forall_const, Option.some.injEq, exists_eq_left']
        exact ⟨fun selected => ⟨inside selected, selected⟩, And.right⟩
  · rename_i disabled
    simp [disabled]

theorem ageOnly {a b : RetentionRecord} {category : RetentionCategory} {owner : String}
    (here : a ∈ unexpired policies now records category owner) (there : b ∈ unexpired policies now records category owner)
    (same : age a = age b) : a = b := by
  obtain ⟨first, whose, _⟩ := List.mem_filter.mp here |>.imp_right of_decide_eq_true
  obtain ⟨first', whose', _⟩ := List.mem_filter.mp there |>.imp_right of_decide_eq_true
  have ids : a.id = b.id := (Prod.mk.inj (toLex_inj.mp same)).2
  exact firstOnly first first' (decide_eq_true ⟨whose.trans whose'.symm, ids⟩)

theorem oldestSame {category : RetentionCategory} {owner : String} :
    oldestRecords ((((distinctRecords records).filter (·.category = category)).filter fun record =>
      expired (policies.policy category) now record = false).filter (·.ownerId = owner)) =
      oldestRecords (unexpired policies now records category owner) := by
  have perm : (unexpired policies now records category owner).Perm
      ((((distinctRecords records).filter (·.category = category)).filter fun record =>
        expired (policies.policy category) now record = false).filter (·.ownerId = owner)) := by
    rw [List.filter_filter, List.filter_filter]
    refine (distinctPerm.symm.filter _).trans (List.Perm.of_eq (List.filter_congr fun record _ => ?_))
    rw [Bool.eq_iff_iff]
    simp only [Bool.and_eq_true, decide_eq_true_eq]
    tauto
  exact (sortSame perm fun a here b there => ageOnly here there).symm

def oldestSelected (maximum : Nat) (policies : RetentionPolicies) (now : Nat) (records : List RetentionRecord)
    (category : RetentionCategory) (owner : String) : List RetentionRecord :=
  oldestAbove maximum (totalBytes (oldestRecords (unexpired policies now records category owner)))
    (oldestRecords (unexpired policies now records category owner))

theorem planMember : c ∈ (fromRecords records policies now).candidates ↔
    c ∈ firstOf sameRecord records ∧
      ((policies.policy c.category).enabled = true → expired (policies.policy c.category) now c = false →
        ∃ maximum, (policies.policy c.category).maxBytesPerOwner = some maximum ∧
          c ∈ oldestSelected maximum policies now records c.category c.ownerId) := by
  have one : ∀ category : RetentionCategory, category ∈ [RetentionCategory.terminal, .rawProtocol, .debugLog] := by
    intro category
    cases category <;> decide
  have selected : ∀ r, r ∈ ([RetentionCategory.terminal, .rawProtocol, .debugLog].flatMap fun category =>
      selectCategory (policies.policy category) now ((distinctRecords records).filter (·.category = category))) ↔
      r ∈ firstOf sameRecord records ∧
      ((policies.policy r.category).enabled = true → expired (policies.policy r.category) now r = false →
        ∃ maximum, (policies.policy r.category).maxBytesPerOwner = some maximum ∧
          r ∈ oldestSelected maximum policies now records r.category r.ownerId) := by
    intro r
    have own : (∃ category ∈ [RetentionCategory.terminal, .rawProtocol, .debugLog],
        r ∈ selectCategory (policies.policy category) now ((distinctRecords records).filter (·.category = category))) ↔
        r ∈ selectCategory (policies.policy r.category) now
          ((distinctRecords records).filter (·.category = r.category)) := by
      constructor
      · rintro ⟨category, _, selected⟩
        have same := (List.mem_filter.mp (selectMember.mp selected).1).2
        rwa [of_decide_eq_true same]
      · exact fun selected => ⟨r.category, one _, selected⟩
    rw [List.mem_flatMap, own, selectMember, List.mem_filter, distinctPerm.mem_iff]
    simp only [overBudgetMember, oldestSame, decide_true, and_true]
    rfl
  have apart : ∀ a ∈ sortBy (fun r => toLex (r.category.rank, toLex (r.createdAt, r.id)))
      ([RetentionCategory.terminal, .rawProtocol, .debugLog].flatMap fun category =>
        selectCategory (policies.policy category) now ((distinctRecords records).filter (·.category = category))),
      ∀ b ∈ sortBy (fun r => toLex (r.category.rank, toLex (r.createdAt, r.id)))
      ([RetentionCategory.terminal, .rawProtocol, .debugLog].flatMap fun category =>
        selectCategory (policies.policy category) now ((distinctRecords records).filter (·.category = category))),
      sameRecord a b = true → a = b := fun a here b there =>
    firstOnly ((selected a).mp (memSort.mp here)).1 ((selected b).mp (memSort.mp there)).1
  rw [← selected c]
  exact (memDedup apart).trans memSort

theorem dedupSublist {α : Type} {same : α → α → Bool} {items : List α} : (dedupBy same items).Sublist items := by
  cases items with
  | nil => exact List.Sublist.slnil
  | cons first rest =>
    change (dedupFrom same first rest).Sublist _
    induction rest generalizing first with
    | nil => exact List.Sublist.refl _
    | cons next rest ih =>
      unfold dedupFrom
      split
      · exact (ih first).trans ((List.sublist_cons_self next rest).cons_cons first)
      · exact (ih next).cons_cons first

theorem overBudgetOnce (distinct : records.Nodup) : (overBudget maximum records).Nodup := by
  have owns : ∀ {owner : String} {r : RetentionRecord}, r ∈ oldestAbove maximum
      (totalBytes (oldestRecords (records.filter (·.ownerId = owner))))
      (oldestRecords (records.filter (·.ownerId = owner))) → r.ownerId = owner := fun selected =>
    of_decide_eq_true (List.mem_filter.mp (memSort.mp (oldestSubset _ selected))).2
  refine List.nodup_flatMap.mpr ⟨fun owner _ => ?_, ?_⟩
  · change (oldestAbove maximum (totalBytes (oldestRecords (records.filter (·.ownerId = owner))))
      (oldestRecords (records.filter (·.ownerId = owner)))).Nodup
    obtain ⟨k, _, taken, _⟩ := oldestTake maximum
      (totalBytes (oldestRecords (records.filter (·.ownerId = owner)))) (oldestRecords (records.filter (·.ownerId = owner)))
    rw [taken]
    exact (sortPerm.nodup_iff.mpr (distinct.filter _)).sublist (List.take_sublist _ _)
  · exact (List.nodup_dedup _).imp fun different r here there => different ((owns here).symm.trans (owns there))

theorem selectOnce (distinct : records.Nodup) : (selectCategory policy now records).Nodup := by
  unfold selectCategory
  split
  · refine List.nodup_append.mpr ⟨distinct.filter _, ?_, fun a here b there equal => ?_⟩
    · split
      · exact .nil
      · exact overBudgetOnce (distinct.filter _)
    · have aged : expired policy now a = true := (List.mem_filter.mp here).2
      split at there
      · cases there
      · have inside := (List.mem_filter.mp (memSort.mp (oldestSubset _ (overBudgetMember.mp there)))).1
        have young : (!expired policy now b) = true := (List.mem_filter.mp inside).2
        rw [← equal, aged] at young
        cases young
  · exact distinct

theorem planOnce : ((fromRecords records policies now).candidates.map fun c => (c.category, c.id)).Nodup := by
  have selected : ([RetentionCategory.terminal, .rawProtocol, .debugLog].flatMap fun category =>
      selectCategory (policies.policy category) now ((distinctRecords records).filter (·.category = category))).Nodup := by
    have own : ∀ {category : RetentionCategory} {r : RetentionRecord}, r ∈ selectCategory (policies.policy category) now
        ((distinctRecords records).filter (·.category = category)) → r.category = category := fun member =>
      of_decide_eq_true (List.mem_filter.mp (selectMember.mp member).1).2
    refine List.nodup_flatMap.mpr ⟨fun category _ => selectOnce (distinctOnce.filter _), ?_⟩
    have apart : [RetentionCategory.terminal, .rawProtocol, .debugLog].Nodup := by decide
    exact apart.imp fun different r here there => different ((own here).symm.trans (own there))
  have once : (fromRecords records policies now).candidates.Nodup :=
    (sortPerm.nodup_iff.mpr selected).sublist dedupSublist
  refine List.Nodup.map_on (fun a here b there same => ?_) once
  have keys := Prod.mk.inj same
  exact firstOnly (planMember.mp here).1 (planMember.mp there).1 (decide_eq_true keys)

end Members

section Left
variable {policies : RetentionPolicies} {now maximum : Nat} {records : List RetentionRecord}
  {category : RetentionCategory} {owner : String}

def remaining (records : List RetentionRecord) (plan : RetentionPlan) (category : RetentionCategory) (owner : String) :
    List RetentionRecord :=
  (firstOf sameRecord records).filter fun record =>
    record.category = category ∧ record.ownerId = owner ∧ record ∉ plan.candidates

/-- What the plan is for: of records given under one key the first is meant. -/
structure Selects (records : List RetentionRecord) (policies : RetentionPolicies) (now : Nat) (plan : RetentionPlan) :
    Prop where
  given : ∀ c ∈ plan.candidates, c ∈ records
  once : (plan.candidates.map fun c => (c.category, c.id)).Nodup
  disabled : ∀ r ∈ firstOf sameRecord records, (policies.policy r.category).enabled = false → r ∈ plan.candidates
  aged : ∀ r ∈ firstOf sameRecord records, (policies.policy r.category).enabled = true →
    expired (policies.policy r.category) now r = true → r ∈ plan.candidates
  bounded : ∀ category owner maximum, (policies.policy category).enabled = true →
    (policies.policy category).maxBytesPerOwner = some maximum →
    recordSize (remaining records plan category owner) ≤ maximum
  oldest : ∀ c ∈ plan.candidates, (policies.policy c.category).enabled = true →
    expired (policies.policy c.category) now c = false →
    ∀ r ∈ remaining records plan c.category c.ownerId, age c < age r
  needed : ∀ c ∈ plan.candidates, (policies.policy c.category).enabled = true →
    expired (policies.policy c.category) now c = false →
    ∃ maximum, (policies.policy c.category).maxBytesPerOwner = some maximum ∧
      maximum < recordSize ((unexpired policies now records c.category c.ownerId).filter (age c ≤ age ·))

/-- The oldest records up to some place reach, with the maximum, what a total can be counted to, and
their removal leaves more than the maximum. -/
def Straddles (maximum : Nat) (records : List RetentionRecord) : Prop :=
  ∃ k ≤ records.length, u64Max ≤ recordSize (records.take k) + maximum ∧
    recordSize (records.take k) + maximum < recordSize records

theorem sizePerm {left right : List RetentionRecord} (perm : left.Perm right) : recordSize left = recordSize right :=
  (perm.map _).sum_nat

theorem sizeParts (k : Nat) (records : List RetentionRecord) :
    recordSize records = recordSize (records.take k) + recordSize (records.drop k) := by
  rw [recordSize, recordSize, recordSize, ← List.sum_append, ← List.map_append, List.take_append_drop]

theorem sizeTake {j k : Nat} (before : j ≤ k) (records : List RetentionRecord) :
    recordSize (records.take j) ≤ recordSize (records.take k) := by
  have parts := sizeParts j (records.take k)
  rw [List.take_take, Nat.min_eq_left before] at parts
  omega

theorem takeFits {records : List RetentionRecord} {k : Nat}
    (before : ∀ j < k, maximum < totalBytes records - recordSize (records.take j))
    (last : k = records.length ∨ totalBytes records - recordSize (records.take k) ≤ maximum) :
    (recordSize (records.drop k) ≤ maximum ↔ ¬ Straddles maximum records) ∧
      ∀ j < k, maximum < recordSize (records.drop j) := by
  have parts := sizeParts k records
  rw [totalBytesSize] at before last
  refine ⟨⟨?_, fun apart => ?_⟩, fun j small => ?_⟩
  · rintro fits ⟨i, _, counted, more⟩
    have later : k ≤ i := by
      by_contra small
      have above := before i (Nat.lt_of_not_le small)
      omega
    have sizes := sizeTake later records
    omega
  · by_contra above
    have short : k ≤ records.length := by
      by_contra long
      rw [List.drop_eq_nil_of_le (Nat.le_of_not_le long)] at above
      exact above (Nat.zero_le _)
    refine apart ⟨k, short, ?_, by omega⟩
    rcases last with rfl | within
    · rw [List.drop_length] at above
      exact absurd (Nat.zero_le _) above
    · omega
  · have above := before j small
    have parts := sizeParts j records
    omega

theorem unexpiredOnce : (unexpired policies now records category owner).Nodup :=
  firstOnce.filter _

theorem oldestAges : (oldestRecords (unexpired policies now records category owner)).Pairwise fun a b => age a < age b := by
  have distinct : (oldestRecords (unexpired policies now records category owner)).Nodup :=
    sortPerm.nodup_iff.mpr unexpiredOnce
  refine List.Pairwise.imp_of_mem (fun here there both => ?_) ((sortSorted _).and distinct)
  exact lt_of_le_of_ne both.1 fun same => both.2 (ageOnly (memSort.mp here) (memSort.mp there) same)

theorem selectedTake (enabled : (policies.policy category).enabled = true)
    (limit : (policies.policy category).maxBytesPerOwner = some maximum) : ∃ k,
    (∀ j < k, maximum < totalBytes (oldestRecords (unexpired policies now records category owner)) -
        recordSize ((oldestRecords (unexpired policies now records category owner)).take j)) ∧
      (k = (oldestRecords (unexpired policies now records category owner)).length ∨
        totalBytes (oldestRecords (unexpired policies now records category owner)) -
          recordSize ((oldestRecords (unexpired policies now records category owner)).take k) ≤ maximum) ∧
      (∀ c, c.category = category → c.ownerId = owner → expired (policies.policy category) now c = false →
        (c ∈ (fromRecords records policies now).candidates ↔
          c ∈ (oldestRecords (unexpired policies now records category owner)).take k)) ∧
      (remaining records (fromRecords records policies now) category owner).Perm
        ((oldestRecords (unexpired policies now records category owner)).drop k) := by
  obtain ⟨k, _, taken, before, last⟩ := oldestTake maximum
    (totalBytes (oldestRecords (unexpired policies now records category owner)))
    (oldestRecords (unexpired policies now records category owner))
  have members : ∀ c, c.category = category → c.ownerId = owner → expired (policies.policy category) now c = false →
      (c ∈ (fromRecords records policies now).candidates ↔
        c ∈ (oldestRecords (unexpired policies now records category owner)).take k) := by
    rintro c rfl rfl young
    rw [planMember, ← taken]
    constructor
    · rintro ⟨_, sized⟩
      obtain ⟨_, same, selected⟩ := sized enabled young
      cases limit.symm.trans same
      exact selected
    · intro selected
      have inside := memSort.mp (oldestSubset _ selected)
      exact ⟨(List.mem_filter.mp inside).1, fun _ _ => ⟨maximum, limit, selected⟩⟩
  refine ⟨k, before, last, members, ?_⟩
  have distinct : (oldestRecords (unexpired policies now records category owner)).Nodup :=
    sortPerm.nodup_iff.mpr unexpiredOnce
  refine (List.perm_ext_iff_of_nodup (firstOnce.filter _) (distinct.sublist (List.drop_sublist _ _))).mpr fun r => ?_
  rw [List.mem_filter, decide_eq_true_iff]
  have split := List.take_append_drop k (oldestRecords (unexpired policies now records category owner))
  constructor
  · rintro ⟨first, rfl, rfl, out⟩
    have young : expired (policies.policy r.category) now r = false := by
      cases aged : expired (policies.policy r.category) now r with
      | false => rfl
      | true => exact absurd (planMember.mpr ⟨first, fun _ young => by rw [aged] at young; cases young⟩) out
    have inside : r ∈ oldestRecords (unexpired policies now records r.category r.ownerId) :=
      memSort.mpr (List.mem_filter.mpr ⟨first, decide_eq_true ⟨rfl, rfl, young⟩⟩)
    rw [← split] at inside
    exact (List.mem_append.mp inside).resolve_left fun taken => out ((members r rfl rfl young).mpr taken)
  · intro dropped
    obtain ⟨first, whose⟩ := List.mem_filter.mp (memSort.mp (List.mem_of_mem_drop dropped))
    obtain ⟨same, own, young⟩ := of_decide_eq_true whose
    refine ⟨first, same, own, fun member => ?_⟩
    rw [← split] at distinct
    exact (List.nodup_append.mp distinct).2.2 r ((members r same own young).mp member) r dropped rfl

/-- A cutoff is only computed for an enabled category. -/
def cutoffFits (latest now : Nat) (policy : RetentionPolicy) : Bool :=
  !policy.enabled || match policy.maxAge with
    | none => true
    | some maxAge => decide (0 ≤ (now : Int) - maxAge ∧ (now : Int) - maxAge ≤ latest)

/-- Instants are counted from the earliest there is up to `latest`; none where the subtraction
that gives a cutoff leaves them, which is a panic. -/
def checkedFromRecords (latest : Nat) (records : List RetentionRecord) (policies : RetentionPolicies) (now : Nat) :
    Option RetentionPlan :=
  if cutoffFits latest now policies.terminal && cutoffFits latest now policies.rawProtocol &&
      cutoffFits latest now policies.debugLog then some (fromRecords records policies now)
  else none

theorem checkedMade {latest : Nat} {plan : RetentionPlan} :
    checkedFromRecords latest records policies now = some plan ↔
      (∀ category, cutoffFits latest now (policies.policy category) = true) ∧ plan = fromRecords records policies now := by
  have every : (cutoffFits latest now policies.terminal && cutoffFits latest now policies.rawProtocol &&
      cutoffFits latest now policies.debugLog) = true ↔
      ∀ category, cutoffFits latest now (policies.policy category) = true := by
    simp only [Bool.and_eq_true]
    constructor
    · rintro ⟨⟨terminal, raw⟩, debug⟩ category
      cases category
      · exact terminal
      · exact raw
      · exact debug
    · exact fun fits => ⟨⟨fits .terminal, fits .rawProtocol⟩, fits .debugLog⟩
  unfold checkedFromRecords
  split
  · rename_i fits
    rw [Option.some.injEq, and_iff_right (every.mp fits), eq_comm]
  · rename_i out
    exact ⟨nofun, fun made => absurd (every.mpr made.1) out⟩

theorem remainingBounded (enabled : (policies.policy category).enabled = true)
    (limit : (policies.policy category).maxBytesPerOwner = some maximum) :
    recordSize (remaining records (fromRecords records policies now) category owner) ≤ maximum ↔
      ¬ Straddles maximum (oldestRecords (unexpired policies now records category owner)) := by
  obtain ⟨k, before, last, _, left⟩ := @selectedTake policies now maximum records category owner enabled limit
  rw [sizePerm left]
  exact (takeFits before last).1

theorem selectedOldest {c r : RetentionRecord} (member : c ∈ (fromRecords records policies now).candidates)
    (enabled : (policies.policy c.category).enabled = true) (young : expired (policies.policy c.category) now c = false)
    (left : r ∈ remaining records (fromRecords records policies now) c.category c.ownerId) : age c < age r := by
  obtain ⟨_, sized⟩ := planMember.mp member
  obtain ⟨maximum, limit, _⟩ := sized enabled young
  obtain ⟨k, _, _, members, perm⟩ := @selectedTake policies now maximum records c.category c.ownerId enabled limit
  have ages := @oldestAges policies now records c.category c.ownerId
  rw [← List.take_append_drop k (oldestRecords (unexpired policies now records c.category c.ownerId))] at ages
  exact (List.pairwise_append.mp ages).2.2 c ((members c rfl rfl young).mp member) r (perm.mem_iff.mp left)

theorem notOlder {c : RetentionRecord} {older newer : List RetentionRecord}
    (ages : records.Pairwise fun a b => age a < age b) (place : records = older ++ c :: newer) :
    records.filter (age c ≤ age ·) = c :: newer := by
  subst place
  obtain ⟨_, after, across⟩ := List.pairwise_append.mp ages
  have gone : older.filter (age c ≤ age ·) = [] := List.filter_eq_nil_iff.mpr fun r inside le =>
    absurd (across r inside c List.mem_cons_self) (not_lt_of_ge (of_decide_eq_true le))
  have kept : (c :: newer).filter (age c ≤ age ·) = c :: newer := List.filter_eq_self.mpr fun r inside => by
    rcases List.mem_cons.mp inside with rfl | inside
    · exact decide_eq_true (le_refl _)
    · exact decide_eq_true (le_of_lt ((List.pairwise_cons.mp after).1 r inside))
  rw [List.filter_append, gone, kept, List.nil_append]

theorem selectedNeeded {c : RetentionRecord} (member : c ∈ (fromRecords records policies now).candidates)
    (enabled : (policies.policy c.category).enabled = true) (young : expired (policies.policy c.category) now c = false) :
    ∃ maximum, (policies.policy c.category).maxBytesPerOwner = some maximum ∧
      maximum < recordSize ((unexpired policies now records c.category c.ownerId).filter (age c ≤ age ·)) := by
  obtain ⟨_, sized⟩ := planMember.mp member
  obtain ⟨maximum, limit, _⟩ := sized enabled young
  obtain ⟨k, before, last, members, _⟩ := @selectedTake policies now maximum records c.category c.ownerId enabled limit
  refine ⟨maximum, limit, ?_⟩
  have taken := (members c rfl rfl young).mp member
  obtain ⟨j, small, at'⟩ := List.getElem_of_mem taken
  rw [List.length_take] at small
  have ages := @oldestAges policies now records c.category c.ownerId
  have above := (takeFits before last).2 j (by omega)
  rw [List.getElem_take] at at'
  have bound : j < (oldestRecords (unexpired policies now records c.category c.ownerId)).length := by omega
  have dropped := List.drop_eq_getElem_cons bound
  rw [at'] at dropped
  have split := List.take_append_drop j (oldestRecords (unexpired policies now records c.category c.ownerId))
  rw [dropped] at split
  have kept : (oldestRecords (unexpired policies now records c.category c.ownerId)).Perm
      (unexpired policies now records c.category c.ownerId) := sortPerm
  rw [← sizePerm (kept.filter _), notOlder ages split.symm, ← dropped]
  exact above

/-- A plan is made, and selects what it is for, if and only if the cutoffs can be computed and no
owner's sizes straddle what a total is counted to. -/
theorem planSelects (latest : Nat) (records : List RetentionRecord) (policies : RetentionPolicies) (now : Nat) :
    (∃ plan, checkedFromRecords latest records policies now = some plan ∧ Selects records policies now plan) ↔
      (∀ category, cutoffFits latest now (policies.policy category) = true) ∧
      ∀ category owner maximum, (policies.policy category).enabled = true →
        (policies.policy category).maxBytesPerOwner = some maximum →
        ¬ Straddles maximum (oldestRecords (unexpired policies now records category owner)) := by
  constructor
  · rintro ⟨plan, made, selects⟩
    obtain ⟨fits, rfl⟩ := checkedMade.mp made
    exact ⟨fits, fun category owner maximum enabled limit =>
      (remainingBounded enabled limit).mp (selects.bounded category owner maximum enabled limit)⟩
  · rintro ⟨fits, apart⟩
    refine ⟨_, checkedMade.mpr ⟨fits, rfl⟩, ?_, planOnce, ?_, ?_, ?_, ?_, ?_⟩
    · intro c member
      exact List.mem_of_find?_eq_some ((firstFound sameRefl).mp (planMember.mp member).1)
    · intro r first disabled
      exact planMember.mpr ⟨first, fun enabled => by rw [disabled] at enabled; cases enabled⟩
    · intro r first _ aged
      exact planMember.mpr ⟨first, fun _ young => by rw [aged] at young; cases young⟩
    · intro category owner maximum enabled limit
      exact (remainingBounded enabled limit).mpr (apart category owner maximum enabled limit)
    · intro c member enabled young r left
      exact selectedOldest member enabled young left
    · intro c member enabled young
      exact selectedNeeded member enabled young

end Left

/-- Three captures of half of what a total is counted to, of which two are left: `2 ^ 64` bytes. -/
theorem planCountsShort :
    let half := 2 ^ 63
    let records := [RetentionRecord.mk "a" .terminal "tab" 1 half "a", .mk "b" .terminal "tab" 2 half "b",
      .mk "c" .terminal "tab" 3 half "c"]
    let policies : RetentionPolicies := ⟨⟨true, some half, none⟩, ⟨false, none, none⟩, ⟨false, none, none⟩⟩
    (checkedFromRecords 10 records policies 5).map (·.candidates.map (·.id)) = some ["a"] ∧
      ∀ plan, checkedFromRecords 10 records policies 5 = some plan → ¬ Selects records policies 5 plan := by
  refine ⟨by decide +kernel, fun plan made selects => ?_⟩
  obtain ⟨_, rfl⟩ := checkedMade.mp made
  have bounded := selects.bounded .terminal "tab" (2 ^ 63) rfl rfl
  revert bounded
  decide +kernel

end Maestro.Retention
