import Maestro.Newest
import Maestro.PendingLookup

/-! What a window shows of a session after any number of batches: it depends only on what
has arrived. -/
namespace Maestro.SessionWindow
open Newest

def sequences (events : List WindowEvent) : Finset Nat := (events.map (·.sequence)).toFinset

/-- The event that arrived last under a sequence. -/
def latest (arrived : List WindowEvent) (sequence : Nat) : Option WindowEvent :=
  (arrived.filter (·.sequence = sequence)).getLast?

/-- The history of a window that has merged the batches, the first of them first. -/
def shown (maximumEvents : Nat) (batches : List (List WindowEvent)) : List WindowEvent :=
  batches.foldl (fun current batch => mergeSessionEvents current batch maximumEvents) []

section Arrival
variable {arrived more : List WindowEvent} {event : WindowEvent} {sequence : Nat}

@[simp] theorem memSequences : sequence ∈ sequences arrived ↔ ∃ event ∈ arrived, event.sequence = sequence := by
  simp [sequences]

@[simp] theorem sequencesAppend : sequences (arrived ++ more) = sequences arrived ∪ sequences more := by
  simp [sequences]

theorem latestLast : latest (arrived ++ [event]) sequence =
    if event.sequence = sequence then some event else latest arrived sequence := by
  unfold latest
  rw [List.filter_append, List.filter_singleton]
  by_cases same : event.sequence = sequence <;> simp [same]

theorem latestAppend : latest (arrived ++ more) sequence = (latest more sequence).or (latest arrived sequence) := by
  unfold latest
  rw [List.filter_append, List.getLast?_append]

theorem latestFound (last : latest arrived sequence = some event) : event ∈ arrived ∧ event.sequence = sequence := by
  obtain ⟨inside, same⟩ := List.mem_filter.mp (List.mem_of_getLast? last)
  exact ⟨inside, of_decide_eq_true same⟩

theorem latestNone : latest arrived sequence = none ↔ sequence ∉ sequences arrived := by
  rw [latest, List.getLast?_eq_none_iff, List.filter_eq_nil_iff, memSequences]
  simp

theorem latestAgrees (agree : ∀ a ∈ arrived, ∀ b ∈ arrived, a.sequence = b.sequence → a = b) :
    latest arrived event.sequence = some event ↔ event ∈ arrived := by
  refine ⟨fun last => (latestFound last).1, fun there => ?_⟩
  cases last : latest arrived event.sequence with
  | none => exact absurd (memSequences.mpr ⟨event, there, rfl⟩) (latestNone.mp last)
  | some other =>
    obtain ⟨inside, same⟩ := latestFound last
    rw [agree other inside event there same]

end Arrival

section Merge

theorem ascendingOnce {l : List WindowEvent} (ascending : l.Pairwise (·.sequence < ·.sequence)) {a b : WindowEvent}
    (first : a ∈ l) (second : b ∈ l) (same : a.sequence = b.sequence) : a = b :=
  List.inj_on_of_nodup_map (List.pairwise_map.mpr (ascending.imp fun less => less.ne)) first second same

variable {current incoming : List WindowEvent} {event : WindowEvent} {maximumEvents : Nat}

theorem memSet {bySequence : List WindowEvent} {new : WindowEvent} :
    event ∈ setSequence bySequence new ↔ event = new ∨ event ∈ bySequence ∧ event.sequence ≠ new.sequence := by
  unfold setSequence
  split
  · rename_i known
    obtain ⟨old, inside, same⟩ := List.any_eq_true.mp known
    rw [List.mem_map]
    constructor
    · rintro ⟨kept, there, rfl⟩
      split
      · exact .inl rfl
      · rename_i other
        exact .inr ⟨there, other⟩
    · rintro (rfl | ⟨there, other⟩)
      · exact ⟨old, inside, if_pos (beq_iff_eq.mp same)⟩
      · exact ⟨event, there, if_neg other⟩
  · rename_i fresh
    rw [List.mem_append, List.mem_singleton]
    constructor
    · rintro (there | rfl)
      · exact .inr ⟨there, fun same => fresh (List.any_eq_true.mpr ⟨event, there, beq_iff_eq.mpr same⟩)⟩
      · exact .inl rfl
    · rintro (rfl | ⟨there, _⟩)
      · exact .inr rfl
      · exact .inl there

theorem memFold (arrived : List WindowEvent) :
    event ∈ arrived.foldl setSequence [] ↔ latest arrived event.sequence = some event := by
  induction arrived using List.reverseRecOn with
  | nil => simp [latest]
  | append_singleton arrived new ih =>
    rw [List.foldl_append, List.foldl_cons, List.foldl_nil, memSet, latestLast, ih]
    split
    · rename_i same
      rw [Option.some_inj]
      exact ⟨fun either => (either.resolve_right fun ⟨_, other⟩ => other same.symm).symm, fun same => .inl same.symm⟩
    · rename_i other
      exact ⟨fun either => (either.resolve_left fun same => other (same ▸ rfl)).1,
        fun last => .inr ⟨last, Ne.symm other⟩⟩

theorem sequencesFold (arrived : List WindowEvent) : sequences (arrived.foldl setSequence []) = sequences arrived := by
  ext sequence
  rw [memSequences]
  constructor
  · rintro ⟨event, there, rfl⟩
    exact memSequences.mpr ⟨event, (latestFound ((memFold arrived).mp there)).1, rfl⟩
  · intro there
    cases last : latest arrived sequence with
    | none => exact absurd there (latestNone.mp last)
    | some event =>
      have same := (latestFound last).2
      exact ⟨event, (memFold arrived).mpr (same ▸ last), same⟩

theorem memMerged : event ∈ mergeSessionEvents current incoming maximumEvents ↔
    latest (current ++ incoming) event.sequence = some event ∧
      event.sequence ∈ newest maximumEvents (sequences (current ++ incoming)) := by
  unfold mergeSessionEvents
  split
  · rename_i zero
    simp [zero]
  · generalize entries : (current ++ incoming).foldl setSequence [] = bySequence
    have known : event ∈ bySequence.insertionSort NoLater ↔
        latest (current ++ incoming) event.sequence = some event := by
      rw [List.mem_insertionSort, ← entries, memFold]
    have ascending : (bySequence.insertionSort NoLater).Pairwise (·.sequence < ·.sequence) := by
      have whole : (mergeSessionEvents current incoming (bySequence.length + 1)).Pairwise (·.sequence < ·.sequence) :=
        mergeOrdered.1
      simpa only [mergeSessionEvents, Nat.add_one_ne_zero, if_false, entries, List.length_insertionSort,
        Nat.sub_eq_zero_of_le (Nat.le_succ _), List.drop_zero] using whole
    have keys : ((bySequence.insertionSort NoLater).map (·.sequence)).toFinset = sequences (current ++ incoming) := by
      rw [← sequencesFold, entries, sequences]
      exact List.toFinset_eq_of_perm _ _ ((List.perm_insertionSort NoLater _).map _)
    have ends := memDrop (k := event.sequence) (List.pairwise_map.mpr ascending) maximumEvents
    rw [List.length_map, keys, ← List.map_drop] at ends
    rw [← known, ← ends, List.mem_map]
    refine ⟨fun there => ⟨List.mem_of_mem_drop there, event, there, rfl⟩, fun ⟨there, other, late, same⟩ => ?_⟩
    have one := ascendingOnce ascending (List.mem_of_mem_drop late) there same
    exact one ▸ late

end Merge

section History
variable {maximumEvents : Nat} {batches : List (List WindowEvent)} {event : WindowEvent}

theorem shownLast (batches : List (List WindowEvent)) (batch : List WindowEvent) :
    shown maximumEvents (batches ++ [batch]) =
      mergeSessionEvents (shown maximumEvents batches) batch maximumEvents := by
  rw [shown, List.foldl_append, List.foldl_cons, List.foldl_nil, shown]

theorem sequencesKept {history arrived : List WindowEvent}
    (kept : ∀ event, event ∈ history ↔ latest arrived event.sequence = some event ∧
      event.sequence ∈ newest maximumEvents (sequences arrived)) :
    sequences history = newest maximumEvents (sequences arrived) := by
  ext sequence
  rw [memSequences]
  constructor
  · rintro ⟨event, there, rfl⟩
    exact ((kept event).mp there).2
  · intro new
    cases last : latest arrived sequence with
    | none => exact absurd (newestSubset new) (latestNone.mp last)
    | some event =>
      have same := (latestFound last).2
      exact ⟨event, (kept event).mpr ⟨same ▸ last, same ▸ new⟩, same⟩

theorem memShown : event ∈ shown maximumEvents batches ↔ latest batches.flatten event.sequence = some event ∧
    event.sequence ∈ newest maximumEvents (sequences batches.flatten) := by
  induction batches using List.reverseRecOn generalizing event with
  | nil => simp [shown, latest]
  | append_singleton batches batch ih =>
    have before := sequencesKept fun _ => ih
    rw [shownLast, memMerged, List.flatten_append, List.flatten_singleton, sequencesAppend, sequencesAppend, before,
      newestUnion, and_congr_left_iff]
    intro new
    rw [latestAppend, latestAppend]
    cases arrived : latest batch event.sequence with
    | some other => rfl
    | none =>
      -- not in the last batch, so among the newest before it
      have old : event.sequence ∈ newest maximumEvents (sequences batches.flatten) :=
        newestWithin Finset.subset_union_left
          ((Finset.mem_union.mp (newestSubset new)).resolve_right (latestNone.mp arrived)) new
      obtain ⟨kept, there, same⟩ := memSequences.mp (before ▸ old)
      have last := (ih.mp there).1
      have again : latest (shown maximumEvents batches) event.sequence = some kept := by
        rw [← same]
        refine (latestAgrees fun a first b second one => ?_).mpr there
        exact Option.some.inj ((ih.mp first).1.symm.trans (one ▸ (ih.mp second).1))
      rw [Option.none_or, Option.none_or, again, ← same, last]

theorem shownAscending : (shown maximumEvents batches).Pairwise (·.sequence < ·.sequence) := by
  cases batches using List.reverseRecOn with
  | nil => exact .nil
  | append_singleton batches batch =>
    rw [shownLast]
    exact mergeOrdered.1

/-- However the events of a session arrive, cut into batches, repeated and in any order, the
window shows, ascending, what arrived last under the newest sequences. Windows that the same
events have reached show the same. -/
theorem historyConverges (maximumEvents : Nat) (batches : List (List WindowEvent)) :
    (shown maximumEvents batches).Pairwise (·.sequence < ·.sequence) ∧
    (shown maximumEvents batches).length = min maximumEvents (sequences batches.flatten).card ∧
    (∀ event, event ∈ shown maximumEvents batches ↔ latest batches.flatten event.sequence = some event ∧
      event.sequence ∈ newest maximumEvents (sequences batches.flatten)) ∧
    ∀ others : List (List WindowEvent), (∀ event, event ∈ others.flatten ↔ event ∈ batches.flatten) →
      (∀ a ∈ batches.flatten, ∀ b ∈ batches.flatten, a.sequence = b.sequence → a = b) →
      shown maximumEvents others = shown maximumEvents batches := by
  have distinct {batches : List (List WindowEvent)} : ((shown maximumEvents batches).map (·.sequence)).Nodup :=
    List.pairwise_map.mpr (shownAscending.imp fun less => less.ne)
  refine ⟨shownAscending, ?_, fun event => memShown, fun others same agree => ?_⟩
  · have keys : ((shown maximumEvents batches).map (·.sequence)).toFinset =
        newest maximumEvents (sequences batches.flatten) := sequencesKept fun event => memShown
    rw [← newestCard, ← keys, List.toFinset_card_of_nodup distinct, List.length_map]
  · have agree' : ∀ a ∈ others.flatten, ∀ b ∈ others.flatten, a.sequence = b.sequence → a = b :=
      fun a first b second => agree a ((same a).mp first) b ((same b).mp second)
    have keys : sequences others.flatten = sequences batches.flatten := by
      ext sequence
      simp only [memSequences, same]
    refine List.Perm.eq_of_pairwise (fun a b _ _ less more => absurd (less.trans more) (lt_irrefl _))
      shownAscending shownAscending ((List.perm_ext_iff_of_nodup distinct.of_map distinct.of_map).mpr fun event => ?_)
    rw [memShown, memShown, keys, latestAgrees agree', latestAgrees agree, same]

end History

end Maestro.SessionWindow
