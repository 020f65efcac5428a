import Maestro.SecretRanges

/-! What is left of any ranges over a text, and the text with a marker for each of them. -/
namespace Maestro.Redaction

/-- A position between two characters, or at an end. -/
def Between (text : List Char) (position : Nat) : Prop :=
  ∃ front back, text = front ++ back ∧ position = (front.flatMap String.utf8EncodeChar).length

/-- The range stands in the text and is not the marker already. -/
structure Denotes (text : List Char) (range : Range) : Prop where
  proper : range.1 < range.2
  inside : range.2 ≤ (text.flatMap String.utf8EncodeChar).length
  first : Between text range.1
  last : Between text range.2
  unmarked : ((text.flatMap String.utf8EncodeChar).take range.2).drop range.1 ≠ redacted

theorem betweenBoundary {text : List Char} {position : Nat} (between : Between text position) :
    isCharBoundary (text.flatMap String.utf8EncodeChar) position = true := by
  obtain ⟨front, back, rfl, rfl⟩ := between
  rw [List.flatMap_append]
  cases back with
  | nil => exact boundaryIff.mpr (.inr (.inl (by simp)))
  | cons c back =>
    obtain ⟨first, conts, shape, leads, -, -⟩ := encodingShape c
    refine boundaryIff.mpr (.inr (.inr ⟨first, ?_, leads⟩))
    rw [List.getElem?_append_right (Nat.le_refl _), Nat.sub_self, List.flatMap_cons, shape]
    rfl

theorem boundaryBetween {text : List Char} {position : Nat}
    (boundary : isCharBoundary (text.flatMap String.utf8EncodeChar) position = true) : Between text position := by
  induction text generalizing position with
  | nil =>
    have bound := boundaryBound boundary
    exact ⟨[], [], rfl, Nat.eq_zero_of_le_zero bound⟩
  | cons c text ih =>
    obtain ⟨first, conts, shape, -, tails, -⟩ := encodingShape c
    cases position with
    | zero => exact ⟨[], c :: text, rfl, rfl⟩
    | succ n =>
      rw [List.flatMap_cons, shape] at boundary
      by_cases inside : n < conts.length
      · -- A byte of the same character stands here.
        have here : (first :: conts ++ text.flatMap String.utf8EncodeChar)[n + 1]? = some conts[n] := by
          simp [List.getElem?_append_left inside]
        rcases boundaryIff.mp boundary with start | last | ⟨byte, found, leads⟩
        · omega
        · simp only [List.length_append, List.length_cons] at last
          omega
        · cases here.symm.trans found
          rw [tails _ (List.getElem_mem inside)] at leads
          cases leads
      · obtain ⟨r, rfl⟩ : ∃ r, n = conts.length + r := ⟨n - conts.length, by omega⟩
        have length : conts.length + r + 1 = (first :: conts).length + r := by
          simp only [List.length_cons]; omega
        rw [length] at boundary ⊢
        obtain ⟨front, back, rfl, rfl⟩ := ih (boundaryBehind (List.cons_ne_nil _ _) boundary)
        exact ⟨c :: front, back, rfl, by rw [List.flatMap_cons, shape, List.length_append]⟩

theorem retainedDenotes (text : List Char) (range : Range) :
    Retained (text.flatMap String.utf8EncodeChar) range ↔ Denotes text range := by
  constructor
  · rintro ⟨proper, taken, unmarked⟩
    obtain ⟨secret, slice'⟩ := Option.isSome_iff_exists.mp taken
    obtain ⟨-, low, high, shape⟩ := sliceShape slice'
    refine ⟨proper, boundaryBound high, boundaryBetween low, boundaryBetween high, fun marker => ?_⟩
    exact unmarked (by rw [slice', shape, marker])
  · intro denotes
    have taken := sliceSome (Nat.le_of_lt denotes.proper) (betweenBoundary denotes.first)
      (betweenBoundary denotes.last)
    refine ⟨denotes.proper, by rw [taken]; rfl, ?_⟩
    rw [taken]
    exact fun marker => denotes.unmarked (Option.some.inj marker)

/-- The ranges left are apart and cover the bytes of the ranges that denote a secret, and the
rendered text holds one marker in place of each. -/
theorem normalizeExact (text : List Char) (ranges : List Range) :
    let input := text.flatMap String.utf8EncodeChar
    let merged := normalizeRanges input ranges
    (∀ range ∈ merged, range.1 < range.2) ∧ merged.Pairwise (fun a b => a.2 < b.1) ∧
      (∀ position, Covered merged position ↔
        ∃ range ∈ ranges, Denotes text range ∧ range.1 ≤ position ∧ position < range.2) ∧
      ∃ output, renderFrom input 0 merged = some output ∧ Utf8 output ∧ Replaces 0 merged input output := by
  intro input merged
  have shape : Merged _ merged := normalizeMerged input ranges
  have text' : Utf8 input := ⟨text, rfl⟩
  obtain ⟨output, rendered, valid, replaced⟩ := renderReplaces text' merged 0
    (boundaryIff.mpr (.inl rfl)) (normalizeWhole input ranges) shape.separate fun _ _ => Nat.zero_le _
  refine ⟨shape.proper, shape.separate, fun position => ?_, output, rendered, valid, replaced⟩
  rw [shape.covers]
  constructor
  · rintro ⟨range, mem, low, high⟩
    obtain ⟨given, retained⟩ := List.mem_filter.mp mem
    exact ⟨range, given, (retainedDenotes text range).mp (of_decide_eq_true retained), low, high⟩
  · rintro ⟨range, given, denotes, low, high⟩
    exact ⟨range, List.mem_filter.mpr ⟨given, decide_eq_true ((retainedDenotes text range).mpr denotes)⟩, low, high⟩

end Maestro.Redaction
