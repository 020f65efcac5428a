import Mathlib.Data.List.Infix

/-! Splitting a list at a separator, and what it makes of fields and records that are put
together with one. -/
namespace Maestro.Splitting

variable {α : Type} {separator : α} {fields parts : List (List α)} {field rest cut : List α}

def joined (separator : α) (fields : List (List α)) : List α := fields.flatMap (· ++ [separator])

@[simp] theorem joinedNil : joined separator [] = [] := rfl

@[simp] theorem joinedCons : joined separator (field :: fields) = field ++ separator :: joined separator fields := by
  simp [joined]

theorem joinedAppend : joined separator (fields ++ parts) = joined separator fields ++ joined separator parts :=
  List.flatMap_append

variable [DecidableEq α]

/-- At most `n` parts; the last one keeps its separators. -/
def splitn (separator : α) : Nat → List α → List (List α)
  | 0, _ => []
  | 1, xs => [xs]
  | n + 2, xs =>
    if separator ∈ xs then
      xs.takeWhile (· ≠ separator) :: splitn separator (n + 1) (xs.dropWhile (· ≠ separator)).tail
    else [xs]

theorem splitnCons (free : separator ∉ field) (n : Nat) :
    splitn separator (n + 2) (field ++ separator :: rest) = field :: splitn separator (n + 1) rest := by
  have keeps : ∀ x ∈ field, decide (x ≠ separator) = true := fun x member =>
    decide_eq_true fun same => free (same ▸ member)
  have stops : List.takeWhile (· ≠ separator) (separator :: rest) = [] := by simp
  have starts : List.dropWhile (· ≠ separator) (separator :: rest) = separator :: rest := by simp
  rw [splitn, if_pos (List.mem_append_right _ List.mem_cons_self), List.takeWhile_append_of_pos keeps,
    List.dropWhile_append_of_pos keeps, stops, starts, List.append_nil, List.tail_cons]

theorem splitnJoined (free : ∀ field ∈ fields, separator ∉ field) :
    splitn separator (fields.length + 1) (joined separator fields ++ rest) = fields ++ [rest] := by
  induction fields with
  | nil => rfl
  | cons field fields ih =>
    rw [joinedCons, List.append_assoc, List.cons_append, List.length_cons,
      splitnCons (free field List.mem_cons_self), ih fun other member => free other (List.mem_cons_of_mem _ member)]
    rfl

theorem splitnLength (n : Nat) (xs : List α) : (splitn separator n xs).length ≤ xs.count separator + 1 := by
  induction n generalizing xs with
  | zero => exact Nat.zero_le _
  | succ n ih =>
    cases n with
    | zero => exact Nat.le_add_left _ _
    | succ n =>
      by_cases inside : separator ∈ xs
      · obtain ⟨field, rest, rfl, free⟩ := List.eq_append_cons_of_mem inside
        rw [splitnCons free, List.length_cons, List.count_append, List.count_cons_self]
        exact Nat.succ_le_succ ((ih rest).trans (Nat.le_add_left _ _))
      · rw [splitn, if_neg inside]
        exact Nat.le_add_left _ _

theorem joinedCount (free : ∀ field ∈ fields, separator ∉ field) :
    (joined separator fields).count separator = fields.length := by
  induction fields with
  | nil => rfl
  | cons field fields ih =>
    rw [joinedCons, List.count_append, List.count_cons_self,
      List.count_eq_zero_of_not_mem (free field List.mem_cons_self),
      ih fun other member => free other (List.mem_cons_of_mem _ member), Nat.zero_add, List.length_cons]

theorem splitnCut (free : ∀ field ∈ fields, separator ∉ field) (front : cut <+: joined separator fields)
    (short : cut ≠ joined separator fields) :
    (splitn separator (fields.length + 1) cut).length ≤ fields.length := by
  rcases List.eq_nil_or_concat' fields with rfl | ⟨before, last, rfl⟩
  · exact absurd (List.prefix_nil.mp front) short
  · have whole : joined separator (before ++ [last]) = (joined separator before ++ last) ++ [separator] := by
      simp [joinedAppend]
    rw [whole] at front short
    have inside := (List.prefix_concat_iff.mp front).resolve_left short
    have counted : cut.count separator ≤ before.length := by
      have less := inside.sublist.count_le separator
      rwa [List.count_append, joinedCount fun field member => free field (List.mem_append_left _ member),
        List.count_eq_zero_of_not_mem (free last (by simp)), Nat.add_zero] at less
    rw [List.length_append, List.length_singleton]
    exact (splitnLength _ cut).trans (Nat.succ_le_succ counted)

theorem splitOnJoined (free : ∀ part ∈ parts, separator ∉ part) :
    (joined separator parts ++ rest).splitOn separator = parts ++ rest.splitOn separator := by
  induction parts with
  | nil => rfl
  | cons part parts ih =>
    rw [joinedCons, List.append_assoc, List.cons_append,
      List.splitOn_append_cons_self_of_not_mem (free part List.mem_cons_self),
      ih fun other member => free other (List.mem_cons_of_mem _ member)]
    rfl

end Maestro.Splitting
