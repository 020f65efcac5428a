import Mathlib.Algebra.Order.Ring.Rat
import Mathlib.Data.List.Sort
import Mathlib.Order.Bounds.Defs

/-! The rows of a long list that are rendered: those around the viewport, found by a binary
search over the offsets of the rows, and the row that has the focus. -/
namespace Maestro.WindowedList

def defaultOverscan : Nat := 6

abbrev Height := { height : ℚ // 0 < height }

/-- A scroll offset, or the height of a viewport. -/
abbrev Extent := { extent : ℚ // 0 ≤ extent }

structure VisibleRow (Item : Type) where
  index : Nat
  item : Item
  key : String
  top : ℚ

def offsetsFrom (offset : ℚ) : List ℚ → List ℚ
  | [] => [offset]
  | height :: heights => offset :: offsetsFrom (offset + height) heights

/-- The loop of `indexAtOffset`. What is not there is not at most the target. -/
def search (offsets : List ℚ) (target : ℚ) (low high : Nat) : Nat :=
  if low < high then
    let middle := (low + high + 1) / 2
    if (offsets[middle]?).any (· ≤ target) then search offsets target middle high
    else search offsets target low (middle - 1)
  else low
termination_by high - low

def indexAtOffset (offsets : List ℚ) (target : ℚ) : Nat :=
  let itemCount := offsets.length - 1
  if itemCount = 0 then 0 else min (search offsets target 0 itemCount) (itemCount - 1)

end Maestro.WindowedList

namespace Maestro
open WindowedList (Height Extent)

structure WindowedList (Item : Type) where
  items : List Item
  itemKey : Item → String
  estimatedRowHeight : Height
  threshold : ℚ
  measuredHeights : String → Option Height
  focusedKey : Option String
  scrollTop : Extent
  viewportHeight : Extent

end Maestro

namespace Maestro.WindowedList

section Rows
variable {Item : Type} (list : WindowedList Item)

def windowed : Prop := list.threshold < list.items.length

instance : Decidable list.windowed := inferInstanceAs (Decidable (_ < _))

def heights : List ℚ :=
  list.items.map fun item => ((list.measuredHeights (list.itemKey item)).getD list.estimatedRowHeight).1

def offsets : List ℚ := offsetsFrom 0 list.heights

def firstVisible : Nat := indexAtOffset list.offsets list.scrollTop.1

def lastVisible : Nat := indexAtOffset list.offsets (list.scrollTop.1 + list.viewportHeight.1)

def visible : List Nat :=
  let start := list.firstVisible - defaultOverscan
  let end' := min list.items.length (list.lastVisible + defaultOverscan + 1)
  List.range' start (end' - start)

def focusedIndex : Option Nat :=
  list.focusedKey.bind fun key => list.items.findIdx? fun item => list.itemKey item = key

/-- The set of the indexes to render, in the order of their insertion. -/
def indexes : List Nat :=
  match list.focusedIndex with
  | some index => if index ∈ list.visible then list.visible else list.visible ++ [index]
  | none => list.visible

def renderedIndexes : List Nat := list.indexes.insertionSort (· ≤ ·)

/-- `none` where an index is not in the list. -/
def row (index : Nat) : Option (VisibleRow Item) := do
  let item ← list.items[index]?
  let top ← list.offsets[index]?
  return ⟨index, item, list.itemKey item, top⟩

def rows : Option (List (VisibleRow Item)) :=
  if list.windowed then list.renderedIndexes.mapM list.row
  else some (list.items.mapIdx fun index item => ⟨index, item, list.itemKey item, 0⟩)

end Rows

section Search
variable {offsets : List ℚ} {target : ℚ}

def AtMost (offsets : List ℚ) (target : ℚ) (index : Nat) : Prop := (offsets[index]?).any (· ≤ target) = true

theorem searchLast {low high : Nat} (down : ∀ i j, i ≤ j → AtMost offsets target j → AtMost offsets target i)
    (starts : AtMost offsets target low) (beyond : ∀ j, high < j → ¬ AtMost offsets target j) :
    AtMost offsets target (search offsets target low high) ∧
      ∀ j, search offsets target low high < j → ¬ AtMost offsets target j := by
  fun_induction search offsets target low high with
  | case1 low high more middle reached ih => exact ih reached beyond
  | case2 low high more middle missed ih =>
    refine ih starts fun j after reached => missed (down middle j ?_ reached)
    omega
  | case3 low high more => exact ⟨starts, fun j after => beyond j (by omega)⟩

end Search

def top (heights : List ℚ) (index : Nat) : ℚ := (heights.take index).sum

theorem offsetsFromLength (offset : ℚ) (heights : List ℚ) : (offsetsFrom offset heights).length = heights.length + 1 := by
  induction heights generalizing offset with
  | nil => rfl
  | cons height heights ih => rw [offsetsFrom, List.length_cons, ih, List.length_cons]

theorem offsetsFromTop (offset : ℚ) (heights : List ℚ) {index : Nat} (inside : index ≤ heights.length) :
    (offsetsFrom offset heights)[index]? = some (offset + top heights index) := by
  induction heights generalizing offset index with
  | nil =>
    obtain rfl := Nat.le_zero.mp inside
    simp [offsetsFrom, top]
  | cons height heights ih =>
    cases index with
    | zero => simp [offsetsFrom, top]
    | succ index =>
      rw [offsetsFrom, List.getElem?_cons_succ, ih _ (Nat.le_of_succ_le_succ inside), top, top, List.take_succ_cons,
        List.sum_cons, add_assoc]

section Tops
variable {heights : List ℚ} (positive : ∀ height ∈ heights, 0 < height)
include positive

theorem topNext {index : Nat} (inside : index < heights.length) : top heights index < top heights (index + 1) := by
  rw [top, top, List.take_succ_eq_append_getElem inside, List.sum_append, List.sum_singleton]
  exact lt_add_of_pos_right _ (positive _ (List.getElem_mem inside))

theorem topLess {i j : Nat} (before : i < j) (inside : j ≤ heights.length) : top heights i < top heights j := by
  induction j with
  | zero => exact absurd before (Nat.not_lt_zero i)
  | succ j ih =>
    have next := topNext positive (Nat.lt_of_succ_le inside)
    rcases Nat.lt_or_eq_of_le (Nat.le_of_lt_succ before) with less | rfl
    · exact (ih less (Nat.le_of_succ_le inside)).trans next
    · exact next

omit positive in
theorem atMostTop {target : ℚ} {index : Nat} :
    AtMost (offsetsFrom 0 heights) target index ↔ index ≤ heights.length ∧ top heights index ≤ target := by
  rw [AtMost]
  rcases Nat.lt_or_ge heights.length index with beyond | inside
  · have nothing : (offsetsFrom 0 heights)[index]? = none := by
      rw [List.getElem?_eq_none_iff, offsetsFromLength]
      exact beyond
    rw [nothing]
    simp only [Option.any_none, Bool.false_eq_true, false_iff, not_and]
    exact fun inside => absurd inside (Nat.not_le.mpr beyond)
  · rw [offsetsFromTop 0 heights inside, zero_add, Option.any_some, decide_eq_true_eq]
    exact (and_iff_right inside).symm

theorem indexGreatest {target : ℚ} (some' : heights ≠ []) (nonnegative : 0 ≤ target) :
    IsGreatest {index | index < heights.length ∧ top heights index ≤ target}
      (indexAtOffset (offsetsFrom 0 heights) target) := by
  have count : (offsetsFrom 0 heights).length - 1 = heights.length := by rw [offsetsFromLength, Nat.add_sub_cancel]
  have rows := List.length_pos_iff.mpr some'
  have down : ∀ i j, i ≤ j → AtMost (offsetsFrom 0 heights) target j → AtMost (offsetsFrom 0 heights) target i := by
    intro i j order reached
    obtain ⟨inside, atMost⟩ := atMostTop.mp reached
    refine atMostTop.mpr ⟨order.trans inside, ?_⟩
    rcases Nat.lt_or_eq_of_le order with less | rfl
    · exact (topLess positive less inside).le.trans atMost
    · exact atMost
  have starts : AtMost (offsetsFrom 0 heights) target 0 := atMostTop.mpr ⟨Nat.zero_le _, nonnegative⟩
  have beyond : ∀ j, heights.length < j → ¬ AtMost (offsetsFrom 0 heights) target j := fun j after reached =>
    Nat.not_le.mpr after (atMostTop.mp reached).1
  obtain ⟨reached, last⟩ := searchLast down starts beyond
  obtain ⟨_, atMost⟩ := atMostTop.mp reached
  have low : AtMost (offsetsFrom 0 heights) target
      (min (search (offsetsFrom 0 heights) target 0 heights.length) (heights.length - 1)) :=
    down _ _ (Nat.min_le_left _ _) reached
  rw [indexAtOffset, count, if_neg (Nat.ne_of_gt rows)]
  constructor
  · exact ⟨by omega, (atMostTop.mp low).2⟩
  · rintro index ⟨inside, begins⟩
    have within : index ≤ search (offsetsFrom 0 heights) target 0 heights.length := by
      by_contra after
      exact last index (Nat.lt_of_not_le after) (atMostTop.mpr ⟨inside.le, begins⟩)
    omega

end Tops

section Rows
variable {Item : Type} {list : WindowedList Item}

theorem heightsLength : list.heights.length = list.items.length := List.length_map ..

theorem heightsPositive : ∀ height ∈ list.heights, 0 < height := by
  intro height member
  obtain ⟨item, _, rfl⟩ := List.mem_map.mp member
  exact Subtype.property _

def Intersects (list : WindowedList Item) (index : Nat) : Prop :=
  top list.heights index ≤ list.scrollTop.1 + list.viewportHeight.1 ∧ list.scrollTop.1 ≤ top list.heights (index + 1)

theorem visibleMember {index : Nat} : index ∈ list.visible ↔
    list.firstVisible - defaultOverscan ≤ index ∧ index < list.items.length ∧
      index ≤ list.lastVisible + defaultOverscan := by
  rw [visible, List.mem_range'_1]
  omega

theorem visibleIntersects {index : Nat} (inside : index < list.items.length) (intersects : list.Intersects index) :
    index ∈ list.visible := by
  have some' : list.heights ≠ [] := fun none' => by
    rw [← heightsLength, none'] at inside
    exact absurd inside (Nat.not_lt_zero _)
  have within : index < list.heights.length := heightsLength ▸ inside
  have first := indexGreatest heightsPositive some' list.scrollTop.2
  have last := indexGreatest heightsPositive some' (add_nonneg list.scrollTop.2 list.viewportHeight.2)
  have ends : index ≤ list.lastVisible := last.2 ⟨within, intersects.1⟩
  have begins : list.firstVisible ≤ index + 1 := by
    by_contra after
    have less := topLess heightsPositive (Nat.lt_of_not_le after) first.1.1.le
    exact absurd (intersects.2.trans_lt less) (not_lt.mpr first.1.2)
  rw [visibleMember]
  have overscan : defaultOverscan = 6 := rfl
  omega

theorem indexesMember {index : Nat} : index ∈ list.indexes ↔ index ∈ list.visible ∨ list.focusedIndex = some index := by
  rw [indexes]
  cases list.focusedIndex with
  | none => simp
  | some focused =>
    dsimp only
    split
    · rename_i known
      constructor
      · exact .inl
      · rintro (old | same)
        · exact old
        · exact Option.some.inj same ▸ known
    · rw [List.mem_append, List.mem_singleton, Option.some.injEq, eq_comm]

theorem indexesNodup : list.indexes.Nodup := by
  have once : list.visible.Nodup := List.nodup_range'
  rw [indexes]
  cases list.focusedIndex with
  | none => exact once
  | some focused =>
    dsimp only
    split
    · exact once
    · rename_i new
      refine List.nodup_append.mpr ⟨once, List.nodup_singleton _, fun one old other last same => ?_⟩
      rw [List.mem_singleton.mp last] at same
      exact new (same ▸ old)

theorem renderedMember {index : Nat} : index ∈ list.renderedIndexes ↔
    index ∈ list.visible ∨ list.focusedIndex = some index := by
  rw [renderedIndexes, (List.perm_insertionSort _ _).mem_iff, indexesMember]

theorem renderedSorted : list.renderedIndexes.Pairwise (· < ·) := by
  have sorted : list.renderedIndexes.Pairwise (· ≤ ·) := List.pairwise_insertionSort (· ≤ ·) _
  have once : list.renderedIndexes.Nodup := (List.perm_insertionSort _ _).nodup_iff.mpr indexesNodup
  exact (sorted.and once).imp fun both => Nat.lt_of_le_of_ne both.1 both.2

theorem focusedInside {index : Nat} (focused : list.focusedIndex = some index) : index < list.items.length := by
  obtain ⟨key, _, found⟩ := Option.bind_eq_some_iff.mp focused
  exact (List.findIdx?_eq_some_iff_getElem.mp found).1

theorem renderedInside {index : Nat} (member : index ∈ list.renderedIndexes) : index < list.items.length := by
  rcases renderedMember.mp member with shown | focused
  · exact (visibleMember.mp shown).2.1
  · exact focusedInside focused

theorem rowInside {index : Nat} (inside : index < list.items.length) :
    list.row index = some ⟨index, list.items[index], list.itemKey list.items[index], top list.heights index⟩ := by
  have offset : list.offsets[index]? = some (top list.heights index) := by
    rw [offsets, offsetsFromTop 0 list.heights (heightsLength ▸ inside.le), zero_add]
  simp [row, offset, inside]

theorem rowsRead (windowed : list.windowed) : ∃ rows, list.rows = some rows ∧
    rows.map VisibleRow.index = list.renderedIndexes ∧
    ∀ row ∈ rows, list.items[row.index]? = some row.item ∧ row.top = top list.heights row.index := by
  have each : ∀ index ∈ list.renderedIndexes, ∃ row, list.row index = some row ∧ row.index = index ∧
      list.items[row.index]? = some row.item ∧ row.top = top list.heights row.index := by
    intro index member
    have inside := renderedInside member
    exact ⟨_, rowInside inside, rfl, List.getElem?_eq_getElem inside, rfl⟩
  have read : ∀ indexes : List Nat, (∀ index ∈ indexes, index ∈ list.renderedIndexes) → ∃ rows,
      indexes.mapM list.row = some rows ∧ rows.map VisibleRow.index = indexes ∧
      ∀ row ∈ rows, list.items[row.index]? = some row.item ∧ row.top = top list.heights row.index := by
    intro indexes within
    induction indexes with
    | nil => exact ⟨[], rfl, rfl, fun row member => by cases member⟩
    | cons index indexes ih =>
      obtain ⟨row, found, same, holds⟩ := each index (within index List.mem_cons_self)
      obtain ⟨rows, rest, sames, hold⟩ := ih fun other member => within other (List.mem_cons_of_mem _ member)
      refine ⟨row :: rows, ?_, by rw [List.map_cons, same, sames], fun other member => ?_⟩
      · rw [List.mapM_cons, found, rest]
        rfl
      · rcases List.mem_cons.mp member with rfl | later
        · exact holds
        · exact hold other later
  obtain ⟨rows, mapped, rest⟩ := read list.renderedIndexes fun _ member => member
  exact ⟨rows, by rw [WindowedList.rows, if_pos windowed, mapped], rest⟩

end Rows

/-- What is rendered of a windowed list: the search finds the row at any offset, and the rows that
touch the viewport and the row with the focus are there. -/
theorem rowsCover {Item : Type} (list : WindowedList Item) (windowed : list.windowed) :
    (∀ target, 0 ≤ target → list.items ≠ [] →
      IsGreatest {index | index < list.items.length ∧ top list.heights index ≤ target}
        (indexAtOffset list.offsets target)) ∧
    ∃ rows, list.rows = some rows ∧ (rows.map VisibleRow.index).Pairwise (· < ·) ∧
      (∀ row ∈ rows, list.items[row.index]? = some row.item ∧ row.top = top list.heights row.index) ∧
      (∀ index < list.items.length, list.Intersects index → index ∈ rows.map VisibleRow.index) ∧
      ∀ index item, list.items[index]? = some item → list.focusedKey = some (list.itemKey item) →
        (∀ before < index, ∀ other, list.items[before]? = some other → list.itemKey other ≠ list.itemKey item) →
        index ∈ rows.map VisibleRow.index := by
  refine ⟨fun target nonnegative some' => ?_, ?_⟩
  · have heights : list.heights ≠ [] := fun none' => some' (List.map_eq_nil_iff.mp none')
    have greatest := indexGreatest heightsPositive heights nonnegative
    rwa [heightsLength] at greatest
  · obtain ⟨rows, read, same, each⟩ := rowsRead windowed
    refine ⟨rows, read, same ▸ renderedSorted, each, fun index inside intersects => ?_,
      fun index item here focused unique => ?_⟩
    · rw [same, renderedMember]
      exact .inl (visibleIntersects inside intersects)
    · rw [same, renderedMember]
      refine .inr ?_
      obtain ⟨inside, found⟩ := List.getElem?_eq_some_iff.mp here
      rw [focusedIndex, focused, Option.bind_some, List.findIdx?_eq_some_iff_getElem]
      refine ⟨inside, by simp [found], fun before less => ?_⟩
      simpa using unique before less _ (List.getElem?_eq_getElem (less.trans inside))

/-- Ten rows of one unit, scrolled to the last, with the focus on the first. -/
def tenRows : WindowedList Nat :=
  ⟨List.range 10, toString, ⟨1, by decide⟩, 5, fun _ => none, some "0", ⟨9, by decide⟩, ⟨1, by decide⟩⟩

theorem rowsCoverTen : ∃ rows, tenRows.rows = some rows ∧ 0 ∈ rows.map VisibleRow.index := by
  have windowed : tenRows.windowed := by decide
  obtain ⟨_, rows, read, _, _, _, focused⟩ := rowsCover tenRows windowed
  exact ⟨rows, read, focused 0 0 rfl rfl fun before less => absurd less (Nat.not_lt_zero _)⟩

end Maestro.WindowedList
