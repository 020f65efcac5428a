import Mathlib.Data.Finset.Card
import Mathlib.Data.Finset.Max
import Mathlib.Data.Finset.Sort

/-! The greatest elements of a finite set of a linear order, up to a number. -/
namespace Maestro.Newest

variable {K : Type*} [LinearOrder K]

def rank (s : Finset K) (k : K) : Nat := (s.filter (k < ·)).card

def newest (n : Nat) (s : Finset K) : Finset K := s.filter (rank s · < n)

variable {n : Nat} {s t : Finset K} {k m : K}

@[simp] theorem memNewest : k ∈ newest n s ↔ k ∈ s ∧ rank s k < n := Finset.mem_filter

theorem newestSubset : newest n s ⊆ s := Finset.filter_subset _ _

theorem rankMono (subset : s ⊆ t) : rank s k ≤ rank t k :=
  Finset.card_le_card (Finset.filter_subset_filter _ subset)

theorem newestWithin (subset : s ⊆ t) (member : k ∈ s) (new : k ∈ newest n t) : k ∈ newest n s :=
  memNewest.mpr ⟨member, (rankMono subset).trans_lt (memNewest.mp new).2⟩

theorem leftOut (member : m ∈ s) (late : n ≤ rank s m) : ∃ x ∈ s, m ≤ x ∧ n ≤ rank s x ∧
    s.filter (x < ·) ⊆ newest n s := by
  let late' := s.filter fun x => m ≤ x ∧ n ≤ rank s x
  have some' : late'.Nonempty := ⟨m, Finset.mem_filter.mpr ⟨member, le_refl m, late⟩⟩
  obtain ⟨inside, above, far⟩ := Finset.mem_filter.mp (late'.max'_mem some')
  refine ⟨late'.max' some', inside, above, far, fun y more => ?_⟩
  obtain ⟨inside', greater⟩ := Finset.mem_filter.mp more
  refine memNewest.mpr ⟨inside', Nat.lt_of_not_le fun far' => ?_⟩
  have known : y ∈ late' := Finset.mem_filter.mpr ⟨inside', above.trans greater.le, far'⟩
  exact absurd (late'.le_max' y known) (not_le.mpr greater)

theorem newestUnion : newest n (newest n s ∪ t) = newest n (s ∪ t) := by
  have subset : newest n s ∪ t ⊆ s ∪ t := Finset.union_subset_union_left newestSubset
  ext k
  constructor
  · intro kept
    obtain ⟨member, near⟩ := memNewest.mp kept
    refine memNewest.mpr ⟨subset member, ?_⟩
    by_contra far
    -- a greater element is missing, and then enough others are there
    have missing : ∃ y ∈ s, k < y ∧ y ∉ newest n s := by
      by_contra none'
      refine far (lt_of_le_of_lt (Finset.card_le_card fun y more => ?_) near)
      obtain ⟨inside, greater⟩ := Finset.mem_filter.mp more
      refine Finset.mem_filter.mpr ⟨?_, greater⟩
      rcases Finset.mem_union.mp inside with old | new
      · by_contra out
        exact none' ⟨y, old, greater, fun there => out (Finset.mem_union_left _ there)⟩
      · exact Finset.mem_union_right _ new
    obtain ⟨y, inside, greater, out⟩ := missing
    obtain ⟨x, _, above, late, others⟩ := leftOut inside
      (Nat.le_of_not_lt fun near => out (memNewest.mpr ⟨inside, near⟩))
    have more : s.filter (x < ·) ⊆ (newest n s ∪ t).filter (k < ·) := fun z beyond =>
      Finset.mem_filter.mpr ⟨Finset.mem_union_left _ (others beyond),
        greater.trans (above.trans_lt (Finset.mem_filter.mp beyond).2)⟩
    exact absurd (late.trans (Finset.card_le_card more)) (not_le.mpr near)
  · intro new
    refine newestWithin subset ?_ new
    rcases Finset.mem_union.mp (memNewest.mp new).1 with old | arrived
    · exact Finset.mem_union_left _ (newestWithin Finset.subset_union_left old new)
    · exact Finset.mem_union_right _ arrived

theorem memDrop {l : List K} (sorted : l.Pairwise (· < ·)) (n : Nat) :
    k ∈ l.drop (l.length - n) ↔ k ∈ newest n l.toFinset := by
  induction l with
  | nil => simp
  | cons a l ih =>
    obtain ⟨first, rest⟩ := List.pairwise_cons.mp sorted
    have rankFirst : rank (a :: l).toFinset a = l.length := by
      have all : (a :: l).toFinset.filter (a < ·) = l.toFinset := by
        ext y
        simp only [List.toFinset_cons, Finset.mem_filter, Finset.mem_insert, List.mem_toFinset]
        exact ⟨fun ⟨there, greater⟩ => there.resolve_left greater.ne', fun there => ⟨.inr there, first y there⟩⟩
      rw [rank, all, List.toFinset_card_of_nodup (rest.imp fun less => less.ne)]
    have rankRest {y : K} (there : y ∈ l) : rank (a :: l).toFinset y = rank l.toFinset y := by
      rw [rank, List.toFinset_cons, Finset.filter_insert, if_neg (not_lt.mpr (first y there).le)]
      rfl
    have bound {y : K} : rank l.toFinset y ≤ l.length :=
      (Finset.card_le_card (Finset.filter_subset _ _)).trans (List.toFinset_card_le l)
    rw [memNewest, List.mem_toFinset, List.length_cons]
    by_cases all : l.length < n
    · rw [Nat.sub_eq_zero_of_le all, List.drop_zero, List.mem_cons]
      refine ⟨fun there => ⟨there, ?_⟩, And.left⟩
      rcases there with rfl | there
      · rwa [rankFirst]
      · rw [rankRest there]
        exact bound.trans_lt all
    · have later : l.length + 1 - n = (l.length - n) + 1 := by omega
      rw [later, List.drop_succ_cons, ih rest, memNewest, List.mem_toFinset, List.mem_cons]
      constructor
      · exact fun ⟨there, near⟩ => ⟨.inr there, by rwa [rankRest there]⟩
      · rintro ⟨rfl | there, near⟩
        · exact absurd (rankFirst ▸ near) all
        · exact ⟨there, by rwa [rankRest there] at near⟩

theorem newestCard (n : Nat) (s : Finset K) : (newest n s).card = min n s.card := by
  have sorted := s.sortedLT_sort.pairwise
  have ends : newest n s = ((s.sort (· ≤ ·)).drop ((s.sort (· ≤ ·)).length - n)).toFinset := by
    ext k
    rw [List.mem_toFinset, memDrop sorted, Finset.sort_toFinset]
  rw [ends, List.toFinset_card_of_nodup ((sorted.sublist (List.drop_sublist _ _)).imp fun less => less.ne),
    List.length_drop, Finset.length_sort]
  omega

end Maestro.Newest
