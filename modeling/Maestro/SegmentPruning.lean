import Maestro.Retention

/-! What the pruning of a terminal keeps, beside the longest suffix that fits and beside what
the retention plan keeps. -/
namespace Maestro.Retention

def size (rows : List TerminalSegment) : Nat := (rows.map (·.byteCount)).sum

def fitting (budget : Nat) : Nat → List TerminalSegment → List TerminalSegment
  | _, [] => []
  | used, row :: rest =>
    if used + row.byteCount ≤ budget then row :: fitting budget (used + row.byteCount) rest else []

def bySequence (rows : List TerminalSegment) : List TerminalSegment :=
  sortBy (fun row => OrderDual.toDual (toLex (row.sequenceEnd, row.id))) rows

/-- The longest suffix by sequence whose total size fits the budget. -/
def longestSuffix (budget : Nat) (rows : List TerminalSegment) : List TerminalSegment :=
  fitting budget 0 (bySequence rows)

theorem fittingPrefix (budget used : Nat) (rows : List TerminalSegment) :
    ∃ older, rows = fitting budget used rows ++ older ∧ (used ≤ budget →
      used + size (fitting budget used rows) ≤ budget ∧
        ∀ next rest, older = next :: rest →
          budget < used + size (fitting budget used rows) + next.byteCount) := by
  induction rows generalizing used with
  | nil => exact ⟨[], rfl, fun within => ⟨within, nofun⟩⟩
  | cons row rest ih =>
    unfold fitting
    split
    · rename_i fits
      obtain ⟨older, same, bounds⟩ := ih (used + row.byteCount)
      refine ⟨older, congrArg (row :: ·) same, fun _ => ?_⟩
      simp only [size, List.map_cons, List.sum_cons] at bounds ⊢
      rw [← Nat.add_assoc]
      exact bounds fits
    · rename_i beyond
      refine ⟨row :: rest, rfl, fun within => ⟨within, fun next rest same => ?_⟩⟩
      cases same
      exact Nat.not_le.mp beyond

theorem suffixLongest (budget : Nat) (rows : List TerminalSegment) :
    ∃ older, bySequence rows = longestSuffix budget rows ++ older ∧
      size (longestSuffix budget rows) ≤ budget ∧
      ∀ next rest, older = next :: rest → budget < size (longestSuffix budget rows) + next.byteCount := by
  obtain ⟨older, same, bounds⟩ := fittingPrefix budget 0 (bySequence rows)
  rw [Nat.zero_add] at bounds
  exact ⟨older, same, bounds (Nat.zero_le _)⟩

section Scan
variable {maximum : Nat}

theorem scanSubset {retained : Nat} {rows : List TerminalSegment} :
    ∀ row ∈ pruneScan maximum retained rows, row ∈ rows := by
  induction rows generalizing retained with
  | nil => exact fun _ member => member
  | cons first rest ih =>
    intro row member
    unfold pruneScan at member
    split at member
    · exact List.mem_cons_of_mem _ (ih row member)
    · rcases List.mem_cons.mp member with rfl | later
      · exact List.mem_cons_self
      · exact List.mem_cons_of_mem _ (ih row later)

theorem scanKeeps (kept : TerminalSegment → Prop) [DecidablePred kept] (bounded : maximum ≤ u64Max)
    (retained : Nat) {rows : List TerminalSegment} (distinct : rows.Nodup) (fits : retained + size (rows.filter kept) ≤ maximum) :
    (∀ row ∈ rows, row ∈ pruneScan maximum retained rows ↔ ¬ kept row) ↔
      ∀ before row after, rows = before ++ row :: after → ¬ kept row →
        maximum < saturatingAdd (retained + size (before.filter kept)) row.byteCount := by
  induction rows generalizing retained with
  | nil => exact ⟨fun _ before row after same => by simp at same, fun _ _ => nofun⟩
  | cons first rest ih =>
    obtain ⟨fresh, distinct⟩ := List.nodup_cons.mp distinct
    have elsewhere : ∀ row ∈ rest, row ≠ first := fun row member same => fresh (same ▸ member)
    by_cases keeps : kept first
    · rw [List.filter_cons_of_pos (by simpa using keeps)] at fits
      simp only [size, List.map_cons, List.sum_cons, ← Nat.add_assoc] at fits
      have small : retained + first.byteCount ≤ maximum := Nat.le_trans (Nat.le_add_right _ _) fits
      have exact' : saturatingAdd retained first.byteCount = retained + first.byteCount :=
        Nat.min_eq_left (Nat.le_trans small bounded)
      have scan : pruneScan maximum retained (first :: rest) =
          pruneScan maximum (retained + first.byteCount) rest := by
        rw [pruneScan, exact', if_pos small]
      rw [scan]
      have later := ih _ distinct fits
      constructor
      · intro agrees before row after same drops
        cases before with
        | nil =>
          cases same
          exact absurd keeps drops
        | cons head before =>
          obtain ⟨rfl, tail⟩ := List.cons.inj same
          have beyond := later.mp (fun row member => agrees row (List.mem_cons_of_mem _ member))
            before row after tail drops
          rw [List.filter_cons_of_pos (by simpa using keeps)]
          simpa only [size, List.map_cons, List.sum_cons, Nat.add_assoc] using beyond
      · intro beyond row member
        rcases List.mem_cons.mp member with rfl | inside
        · exact ⟨fun scanned => absurd (scanSubset _ scanned) fresh, fun drops => absurd keeps drops⟩
        · refine later.mpr (fun before row after same drops => ?_) row inside
          have whole := beyond (first :: before) row after (congrArg (first :: ·) same) drops
          rw [List.filter_cons_of_pos (by simpa using keeps)] at whole
          simpa only [size, List.map_cons, List.sum_cons, Nat.add_assoc] using whole
    · rw [List.filter_cons_of_neg (by simpa using keeps)] at fits
      have later := ih _ distinct fits
      by_cases room : saturatingAdd retained first.byteCount ≤ maximum
      · refine iff_of_false (fun agrees => ?_) fun beyond => ?_
        · have scanned := (agrees first List.mem_cons_self).mpr keeps
          rw [pruneScan, if_pos room] at scanned
          exact fresh (scanSubset _ scanned)
        · exact Nat.not_lt.mpr room (beyond [] first rest rfl keeps)
      · have scan : pruneScan maximum retained (first :: rest) =
            first :: pruneScan maximum retained rest := by
          rw [pruneScan, if_neg room]
        rw [scan]
        constructor
        · intro agrees before row after same drops
          cases before with
          | nil =>
            cases same
            exact Nat.not_le.mp room
          | cons head before =>
            obtain ⟨rfl, tail⟩ := List.cons.inj same
            rw [List.filter_cons_of_neg (by simpa using keeps)]
            refine later.mp (fun row member => ?_) before row after tail drops
            rw [← agrees row (List.mem_cons_of_mem _ member), List.mem_cons]
            exact (or_iff_right (elsewhere row member)).symm
        · intro beyond row member
          rcases List.mem_cons.mp member with rfl | inside
          · exact iff_of_true List.mem_cons_self keeps
          · rw [List.mem_cons, or_iff_right (elsewhere row inside)]
            refine later.mpr (fun before row after same drops => ?_) row inside
            have whole := beyond (first :: before) row after (congrArg (first :: ·) same) drops
            rwa [List.filter_cons_of_neg (by simpa using keeps)] at whole

end Scan

section Plan
variable {maximum : Nat}

def recordSize (records : List RetentionRecord) : Nat := (records.map (·.byteCount)).sum

theorem totalBytesSize {records : List RetentionRecord} :
    totalBytes records = min (recordSize records) u64Max := by
  have fold : ∀ used, records.foldl (fun sum record => saturatingAdd sum record.byteCount) (min used u64Max) =
      min (used + recordSize records) u64Max := by
    induction records with
    | nil => exact fun used => rfl
    | cons record rest ih =>
      intro used
      have step : saturatingAdd (min used u64Max) record.byteCount =
          min (used + record.byteCount) u64Max := by
        unfold saturatingAdd
        omega
      rw [List.foldl_cons, step, ih, recordSize, recordSize, List.map_cons, List.sum_cons, Nat.add_assoc]
  have none := fold 0
  rwa [Nat.zero_min, Nat.zero_add] at none

theorem oldestSubset {total : Nat} {records : List RetentionRecord} :
    ∀ record ∈ oldestAbove maximum total records, record ∈ records := by
  induction records generalizing total with
  | nil => exact fun _ member => member
  | cons first rest ih =>
    intro record member
    unfold oldestAbove at member
    split at member
    · cases member
    · rcases List.mem_cons.mp member with rfl | later
      · exact List.mem_cons_self
      · exact List.mem_cons_of_mem _ (ih record later)

theorem oldestRemoves (kept : TerminalSegment → Prop) [DecidablePred kept] (total : Nat)
    {rows : List TerminalSegment} (distinct : (rows.map terminalRecord).Nodup) :
    (∀ row ∈ rows, terminalRecord row ∈ oldestAbove maximum total (rows.map terminalRecord) ↔ ¬ kept row) ↔
      ∀ older row newer, rows = older ++ row :: newer →
        (¬ kept row → (∀ other ∈ older, ¬ kept other) ∧ maximum < total - size older) ∧
          (kept row → total - size (older.filter (¬ kept ·)) ≤ maximum) := by
  induction rows generalizing total with
  | nil => exact ⟨fun _ older row newer same => by simp at same, fun _ _ => nofun⟩
  | cons first rest ih =>
    rw [List.map_cons] at distinct ⊢
    obtain ⟨fresh, distinct⟩ := List.nodup_cons.mp distinct
    by_cases within : total ≤ maximum
    · have nothing : oldestAbove maximum total (terminalRecord first :: rest.map terminalRecord) = [] := by
        rw [oldestAbove, if_pos within]
      rw [nothing]
      constructor
      · intro agrees older row newer same
        have keeps : kept row := by
          by_contra drops
          have removed := (agrees row (by simp [same])).mpr drops
          cases removed
        exact ⟨fun drops => absurd keeps drops, fun _ => Nat.le_trans (Nat.sub_le _ _) within⟩
      · intro ordered row member
        obtain ⟨older, newer, same⟩ := List.append_of_mem member
        refine iff_of_false List.not_mem_nil fun drops => ?_
        have above := ((ordered older row newer same).1 drops).2
        omega
    · have removes : oldestAbove maximum total (terminalRecord first :: rest.map terminalRecord) =
          terminalRecord first :: oldestAbove maximum (total - first.byteCount) (rest.map terminalRecord) := by
        rw [oldestAbove, if_neg within]
        rfl
      rw [removes]
      have later := ih (total - first.byteCount) distinct
      have elsewhere : ∀ row ∈ rest, terminalRecord row ≠ terminalRecord first := fun row member same =>
        fresh (same ▸ List.mem_map_of_mem member)
      constructor
      · intro agrees older row newer same
        have drops : ¬ kept first := (agrees first List.mem_cons_self).mp List.mem_cons_self
        cases older with
        | nil =>
          cases same
          exact ⟨fun _ => ⟨nofun, Nat.not_le.mp within⟩, fun keeps => absurd keeps drops⟩
        | cons head older =>
          obtain ⟨rfl, tail⟩ := List.cons.inj same
          have inner := later.mp (fun row member => by
            rw [← agrees row (List.mem_cons_of_mem _ member), List.mem_cons,
              or_iff_right (elsewhere row member)]) older row newer tail
          refine ⟨fun removed => ?_, fun keeps => ?_⟩
          · obtain ⟨all, above⟩ := inner.1 removed
            refine ⟨fun other member => ?_, ?_⟩
            · rcases List.mem_cons.mp member with rfl | inside
              · exact drops
              · exact all other inside
            · simpa only [size, List.map_cons, List.sum_cons, Nat.sub_sub] using above
          · rw [List.filter_cons_of_pos (by simpa using drops)]
            simpa only [size, List.map_cons, List.sum_cons, Nat.sub_sub] using inner.2 keeps
      · intro ordered row member
        have drops : ¬ kept first := fun keeps =>
          within (by simpa [size] using (ordered [] first rest rfl).2 keeps)
        rcases List.mem_cons.mp member with rfl | inside
        · exact iff_of_true List.mem_cons_self drops
        · rw [List.mem_cons, or_iff_right (elsewhere row inside)]
          refine later.mpr (fun older row newer same => ?_) row inside
          have whole := ordered (first :: older) row newer (congrArg (first :: ·) same)
          refine ⟨fun removed => ?_, fun keeps => ?_⟩
          · obtain ⟨all, above⟩ := whole.1 removed
            refine ⟨fun other member => all other (List.mem_cons_of_mem _ member), ?_⟩
            simpa only [size, List.map_cons, List.sum_cons, Nat.sub_sub] using above
          · have below := whole.2 keeps
            rw [List.filter_cons_of_pos (by simpa using drops)] at below
            simpa only [size, List.map_cons, List.sum_cons, Nat.sub_sub] using below

end Plan

section Sorts
variable {α κ : Type} [LinearOrder κ] {key : α → κ} {same : α → α → Bool} {items : List α}

theorem sortPerm : (sortBy key items).Perm items := List.perm_insertionSort _ _

theorem memSort {item : α} : item ∈ sortBy key items ↔ item ∈ items := sortPerm.mem_iff

theorem memDedup (apart : ∀ a ∈ items, ∀ b ∈ items, same a b = true → a = b) {item : α} :
    item ∈ dedupBy same items ↔ item ∈ items := by
  cases items with
  | nil => exact Iff.rfl
  | cons first rest =>
    change item ∈ dedupFrom same first rest ↔ _
    induction rest generalizing first with
    | nil => exact Iff.rfl
    | cons next rest ih =>
      unfold dedupFrom
      split
      · rename_i equal
        obtain rfl := apart next (by simp) first (by simp) equal
        rw [ih next fun a memberA b memberB => apart a (by simp at memberA ⊢; tauto) b
          (by simp at memberB ⊢; tauto)]
        simp
      · rw [List.mem_cons, ih next fun a memberA b memberB =>
          apart a (List.mem_cons_of_mem _ memberA) b (List.mem_cons_of_mem _ memberB)]
        exact List.mem_cons.symm

theorem sortSame {others : List α} (alike : items.Perm others)
    (apart : ∀ a ∈ items, ∀ b ∈ items, key a = key b → a = b) : sortBy key items = sortBy key others := by
  have sorted : ∀ rows : List α, (sortBy key rows).Pairwise fun a b => key a ≤ key b := fun rows =>
    haveI : Std.Total fun a b : α => key a ≤ key b := ⟨fun a b => le_total _ _⟩
    haveI : IsTrans α fun a b => key a ≤ key b := ⟨fun _ _ _ => le_trans⟩
    List.pairwise_insertionSort _ rows
  have perm : (sortBy key items).Perm (sortBy key others) := (sortPerm.trans alike).trans sortPerm.symm
  refine perm.eq_of_pairwise (fun a b memberA memberB ab ba => ?_) (sorted items) (sorted others)
  exact apart a (memSort.mp memberA) b (alike.mem_iff.mpr (memSort.mp memberB)) (le_antisymm ab ba)

theorem dedupDistinct (apart : items.Pairwise fun a b => same b a = false) :
    dedupBy same items = items := by
  cases items with
  | nil => rfl
  | cons first rest =>
    change dedupFrom same first rest = _
    induction rest generalizing first with
    | nil => rfl
    | cons next rest ih =>
      obtain ⟨here, later⟩ := List.pairwise_cons.mp apart
      rw [dedupFrom, here next List.mem_cons_self, if_neg Bool.false_ne_true, ih next later]

end Sorts

section Candidates
variable {maximum now : Nat} {owner : String} {records : List RetentionRecord}

theorem sortDistinct {κ : Type} [LinearOrder κ] {key : RetentionRecord → κ}
    (keys : (records.map (·.id)).Nodup) :
    dedupBy sameRecord (sortBy key records) = sortBy key records := by
  refine dedupDistinct ?_
  have sorted : ((sortBy key records).map (·.id)).Nodup := (sortPerm.map _).nodup_iff.mpr keys
  refine (List.pairwise_map.mp sorted).imp fun apart => ?_
  exact decide_eq_false fun equal => apart equal.2.symm

theorem overBudgetOne (owned : ∀ record ∈ records, record.ownerId = owner) {record : RetentionRecord} :
    record ∈ overBudget maximum records ↔
      record ∈ oldestAbove maximum
        (totalBytes (sortBy (fun r => toLex (r.createdAt, r.id)) records))
        (sortBy (fun r => toLex (r.createdAt, r.id)) records) := by
  have whole : records.filter (·.ownerId = owner) = records :=
    List.filter_eq_self.mpr fun record member => by simp [owned record member]
  unfold overBudget
  rw [List.mem_flatMap]
  constructor
  · rintro ⟨other, member, selected⟩
    obtain ⟨one, inside, rfl⟩ := List.mem_map.mp (List.mem_dedup.mp member)
    rwa [owned one inside, whole] at selected
  · intro selected
    have inside := memSort.mp (oldestSubset _ selected)
    refine ⟨owner, List.mem_dedup.mpr (List.mem_map.mpr ⟨record, inside, owned record inside⟩), ?_⟩
    rwa [whole]

theorem selectNothing {policy : RetentionPolicy} : selectCategory policy now [] = [] := by
  obtain ⟨enabled, maximum, age⟩ := policy
  cases enabled <;> cases maximum <;> rfl

theorem candidatesOne {raw debug : RetentionPolicy} (keys : (records.map (·.id)).Nodup)
    (terminal : ∀ record ∈ records, record.category = .terminal)
    (owned : ∀ record ∈ records, record.ownerId = owner) {record : RetentionRecord} :
    record ∈ (fromRecords records ⟨⟨true, some maximum, none⟩, raw, debug⟩ now).candidates ↔
      record ∈ oldestAbove maximum (min (recordSize records) u64Max)
        (sortBy (fun r => toLex (r.createdAt, r.id)) records) := by
  have byId : ∀ a ∈ records, ∀ b ∈ records, a.id = b.id → a = b := fun a memberA b memberB =>
    List.inj_on_of_nodup_map keys memberA memberB
  set sorted := sortBy (fun r => toLex (r.category.rank, r.id)) records with sortedDef
  have alike : sorted.Perm records := sortPerm
  have inside : ∀ {r}, r ∈ sorted → r ∈ records := fun member => alike.mem_iff.mp member
  have distinct : dedupBy sameRecord sorted = sorted := sortDistinct keys
  have all : sorted.filter (·.category = .terminal) = sorted :=
    List.filter_eq_self.mpr fun r member => by simp [terminal r (inside member)]
  have noRaw : sorted.filter (·.category = .rawProtocol) = [] :=
    List.filter_eq_nil_iff.mpr fun r member => by simp [terminal r (inside member)]
  have noDebug : sorted.filter (·.category = .debugLog) = [] :=
    List.filter_eq_nil_iff.mpr fun r member => by simp [terminal r (inside member)]
  have selected : selectCategory ⟨true, some maximum, none⟩ now sorted = overBudget maximum sorted := by
    simp [selectCategory]
  have oldest : sortBy (fun r => toLex (r.createdAt, r.id)) sorted =
      sortBy (fun r => toLex (r.createdAt, r.id)) records :=
    sortSame alike fun a memberA b memberB same =>
      byId a (inside memberA) b (inside memberB) (congrArg (fun key => (ofLex key).2) same)
  have sized : totalBytes (sortBy (fun r => toLex (r.createdAt, r.id)) records) =
      min (recordSize records) u64Max :=
    totalBytesSize.trans (congrArg (min · u64Max) (sortPerm.map _).sum_nat)
  have owned' : ∀ r ∈ sorted, r.ownerId = owner := fun r member => owned r (inside member)
  have chosen : ∀ {r}, r ∈ overBudget maximum sorted → r ∈ records := fun member =>
    inside (memSort.mp (oldestSubset _ ((overBudgetOne owned').mp member)))
  simp only [fromRecords, ← sortedDef, distinct, List.flatMap_cons, List.flatMap_nil, all, noRaw,
    noDebug, RetentionPolicies.policy, selected, selectNothing, List.append_nil]
  rw [memDedup, memSort, overBudgetOne owned', oldest, sized]
  intro a memberA b memberB equal
  exact byId a (chosen (memSort.mp memberA)) b (chosen (memSort.mp memberB)) (of_decide_eq_true equal).2

end Candidates

section Agreement

def segmentsOf (terminalId : String) (d : Database) : List TerminalSegment :=
  d.terminalSegments.filter (·.terminalTabId = terminalId)

/-- Pruning and the plan with only the byte maximum active both keep the longest suffix by
sequence that fits. -/
structure KeepsSuffix (d : Database) (terminalId : String) (budget : Nat) (raw debug : RetentionPolicy)
    (now : Nat) : Prop where
  pruned : ∀ row ∈ segmentsOf terminalId d,
    row ∈ (pruneTerminalSegments terminalId budget d.terminalSegments).1 ↔
      row ∈ longestSuffix budget (segmentsOf terminalId d)
  planned : ∀ row ∈ segmentsOf terminalId d,
    terminalRecord row ∉ (fromRecords ((segmentsOf terminalId d).map terminalRecord)
        ⟨⟨true, some budget, none⟩, raw, debug⟩ now).candidates ↔
      row ∈ longestSuffix budget (segmentsOf terminalId d)

def oldestFirst (rows : List TerminalSegment) : List TerminalSegment :=
  sortBy (fun row => toLex (row.createdAt, row.id)) rows

/-- When the scan order and the age order suit the longest suffix: from the newest on, nothing
outside the suffix fits beside what of the suffix is newer; from the oldest on, what is outside
comes first, and the total, as far as it can be counted, is above the budget up to its end and
not beyond. -/
structure OrdersSuit (rows : List TerminalSegment) (budget : Nat) : Prop where
  newest : ∀ newer row older, newestFirst rows = newer ++ row :: older →
    row ∉ longestSuffix budget rows →
      budget < saturatingAdd (size (newer.filter (· ∈ longestSuffix budget rows))) row.byteCount
  oldest : ∀ older row newer, oldestFirst rows = older ++ row :: newer →
    (row ∉ longestSuffix budget rows → (∀ other ∈ older, other ∉ longestSuffix budget rows) ∧
      budget < min (size rows) u64Max - size older) ∧
    (row ∈ longestSuffix budget rows →
      min (size rows) u64Max - size (older.filter (· ∉ longestSuffix budget rows)) ≤ budget)

variable {d : Database} {terminalId : String} {budget : Nat}

theorem segmentKeys : ((segmentsOf terminalId d).map (·.id)).Nodup :=
  d.terminalKeys.sublist (List.filter_sublist.map _)

theorem recordSizeMap {rows : List TerminalSegment} : recordSize (rows.map terminalRecord) = size rows := by
  rw [recordSize, List.map_map]
  rfl

theorem prunedRow {row : TerminalSegment} (member : row ∈ segmentsOf terminalId d) :
    row ∈ (pruneTerminalSegments terminalId budget d.terminalSegments).1 ↔
      row ∉ expiredSegments terminalId budget d.terminalSegments := by
  have present := (List.mem_filter.mp member).1
  have inside : ∀ other ∈ expiredSegments terminalId budget d.terminalSegments, other ∈ d.terminalSegments :=
    fun other expired => (List.mem_filter.mp (memSort.mp (scanSubset _ expired))).1
  rw [pruneTerminalSegments, List.mem_filter, and_iff_right present, decide_eq_true_iff]
  refine not_congr ⟨fun expired => ?_, fun expired => List.mem_map_of_mem expired⟩
  obtain ⟨other, here, same⟩ := List.mem_map.mp expired
  rwa [← List.inj_on_of_nodup_map d.terminalKeys (inside other here) present same]

theorem suffixFits {rows : List TerminalSegment} (keys : (rows.map (·.id)).Nodup) :
    size ((newestFirst rows).filter (· ∈ longestSuffix budget rows)) ≤ budget := by
  obtain ⟨older, same, fits, _⟩ := suffixLongest budget rows
  have alike : (newestFirst rows).Perm (bySequence rows) := sortPerm.trans sortPerm.symm
  have distinct : (bySequence rows).Nodup := sortPerm.nodup_iff.mpr (List.Nodup.of_map _ keys)
  rw [same] at alike distinct
  obtain ⟨-, -, apart⟩ := List.nodup_append.mp distinct
  have kept : (longestSuffix budget rows ++ older).filter (· ∈ longestSuffix budget rows) =
      longestSuffix budget rows := by
    rw [List.filter_append, List.filter_eq_self.mpr fun row member => decide_eq_true member,
      List.filter_eq_nil_iff.mpr fun row member inside =>
        apart row (of_decide_eq_true inside) row member rfl, List.append_nil]
  have sizes : size ((newestFirst rows).filter (· ∈ longestSuffix budget rows)) =
      size (longestSuffix budget rows) := by
    have filtered := alike.filter (· ∈ longestSuffix budget rows)
    rw [kept] at filtered
    exact (filtered.map _).sum_nat
  rwa [sizes]

theorem prunedSuits (bounded : budget ≤ u64Max) :
    (∀ row ∈ segmentsOf terminalId d,
      row ∈ (pruneTerminalSegments terminalId budget d.terminalSegments).1 ↔
        row ∈ longestSuffix budget (segmentsOf terminalId d)) ↔
      ∀ newer row older, newestFirst (segmentsOf terminalId d) = newer ++ row :: older →
        row ∉ longestSuffix budget (segmentsOf terminalId d) →
          budget < saturatingAdd
            (size (newer.filter (· ∈ longestSuffix budget (segmentsOf terminalId d)))) row.byteCount := by
  have distinct : (newestFirst (segmentsOf terminalId d)).Nodup :=
    sortPerm.nodup_iff.mpr (List.Nodup.of_map _ segmentKeys)
  have scan := scanKeeps (· ∈ longestSuffix budget (segmentsOf terminalId d)) bounded 0 distinct
    (by rw [Nat.zero_add]; exact suffixFits segmentKeys)
  simp only [Nat.zero_add] at scan
  refine Iff.trans ⟨fun agrees row member => ?_, fun agrees row member => ?_⟩ scan
  · have here := memSort.mp member
    exact not_iff_not.mp (by rw [not_not, ← agrees row here, prunedRow here]; rfl)
  · rw [prunedRow member]
    exact (not_congr (agrees row (memSort.mpr member))).trans not_not

theorem plannedSuits {raw debug : RetentionPolicy} {now : Nat} :
    (∀ row ∈ segmentsOf terminalId d,
      terminalRecord row ∉ (fromRecords ((segmentsOf terminalId d).map terminalRecord)
          ⟨⟨true, some budget, none⟩, raw, debug⟩ now).candidates ↔
        row ∈ longestSuffix budget (segmentsOf terminalId d)) ↔
      ∀ older row newer, oldestFirst (segmentsOf terminalId d) = older ++ row :: newer →
        (row ∉ longestSuffix budget (segmentsOf terminalId d) →
          (∀ other ∈ older, other ∉ longestSuffix budget (segmentsOf terminalId d)) ∧
            budget < min (size (segmentsOf terminalId d)) u64Max - size older) ∧
        (row ∈ longestSuffix budget (segmentsOf terminalId d) →
          min (size (segmentsOf terminalId d)) u64Max -
            size (older.filter (· ∉ longestSuffix budget (segmentsOf terminalId d))) ≤ budget) := by
  have distinct : (((segmentsOf terminalId d).map terminalRecord).map (·.id)).Nodup := by
    rw [List.map_map]
    exact segmentKeys
  have terminal : ∀ r ∈ (segmentsOf terminalId d).map terminalRecord, r.category = .terminal := by
    intro r member
    obtain ⟨row, _, rfl⟩ := List.mem_map.mp member
    rfl
  have owned : ∀ r ∈ (segmentsOf terminalId d).map terminalRecord, r.ownerId = terminalId := by
    intro r member
    obtain ⟨row, here, rfl⟩ := List.mem_map.mp member
    exact of_decide_eq_true (List.mem_filter.mp here).2
  have sorted : sortBy (fun r => toLex (r.createdAt, r.id)) ((segmentsOf terminalId d).map terminalRecord) =
      (oldestFirst (segmentsOf terminalId d)).map terminalRecord :=
    (List.map_insertionSort
      (fun a b : TerminalSegment => toLex (a.createdAt, a.id) ≤ toLex (b.createdAt, b.id))
      (fun a b : RetentionRecord => toLex (a.createdAt, a.id) ≤ toLex (b.createdAt, b.id))
      terminalRecord _ fun _ _ _ _ => Iff.rfl).symm
  have apart : ((oldestFirst (segmentsOf terminalId d)).map terminalRecord).Nodup := by
    rw [← sorted]
    exact sortPerm.nodup_iff.mpr (List.Nodup.of_map _ distinct)
  refine Iff.trans ⟨fun agrees row member => ?_, fun agrees row member => ?_⟩
    (oldestRemoves (· ∈ longestSuffix budget (segmentsOf terminalId d)) _ apart)
  · rw [← agrees row (memSort.mp member), candidatesOne distinct terminal owned, recordSizeMap, sorted,
      not_not]
  · rw [candidatesOne distinct terminal owned, recordSizeMap, sorted]
    exact (not_congr (agrees row (memSort.mpr member))).trans not_not

/-- Pruning keeps the longest suffix by sequence that fits, and the plan the same segments,
exactly when the orders suit. -/
theorem pruneKeepsSuffix (d : Database) (terminalId : String) (budget : Fin (2 ^ 64))
    (raw debug : RetentionPolicy) (now : Nat) :
    KeepsSuffix d terminalId budget raw debug now ↔ OrdersSuit (segmentsOf terminalId d) budget := by
  have bounded : (budget : Nat) ≤ u64Max := Nat.le_sub_one_of_lt budget.2
  exact ⟨fun keeps => ⟨(prunedSuits bounded).mp keeps.pruned, plannedSuits.mp keeps.planned⟩,
    fun suits => ⟨(prunedSuits bounded).mpr suits.newest, plannedSuits.mpr suits.oldest⟩⟩

end Agreement

/-! A large segment between two small ones: the scan drops it and keeps the older small one. -/

def smallOld : TerminalSegment := ⟨"a", "tab", 0, 1, 1, "a.segment", 10⟩
def largeMiddle : TerminalSegment := ⟨"b", "tab", 1, 4, 3, "b.segment", 20⟩
def smallNew : TerminalSegment := ⟨"c", "tab", 4, 5, 1, "c.segment", 30⟩

def threeSegments : Database where
  terminalSegments := [smallOld, largeMiddle, smallNew]
  rawSegments := []
  events := []
  debugLogs := none
  terminalKeys := by decide
  rawKeys := List.nodup_nil
  debugKeys := nofun

theorem pruneKeepsOlder : ¬ ∀ (d : Database) (terminalId : String) (budget : Fin (2 ^ 64))
    (raw debug : RetentionPolicy) (now : Nat), KeepsSuffix d terminalId budget raw debug now := by
  intro claim
  have keeps := (claim threeSegments "tab" 2 ⟨true, none, none⟩ ⟨true, none, none⟩ 40).pruned smallOld
    (by decide)
  have survives : smallOld ∈ (pruneTerminalSegments "tab" 2 threeSegments.terminalSegments).1 := by
    decide +kernel
  have outside : smallOld ∉ longestSuffix 2 (segmentsOf "tab" threeSegments) := by decide +kernel
  exact outside (keeps.mp survives)

end Maestro.Retention
