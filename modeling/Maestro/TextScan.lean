import Maestro.Redaction

/-! Where the loops over the bytes of a text stop, and which positions lie between
characters. -/
namespace Maestro.Redaction

structure Run (input : Bytes) (kind : Nat → UInt8 → Bool) (start stop : Nat) : Prop where
  order : start ≤ stop
  bound : stop ≤ input.length
  inside : ∀ position, start ≤ position → position < stop →
    ∃ byte, input[position]? = some byte ∧ kind position byte = true
  ends : ∀ byte, input[stop]? = some byte → kind stop byte = false

structure RunBack (input : Bytes) (kind : UInt8 → Bool) (start stop : Nat) : Prop where
  order : start ≤ stop
  inside : ∀ position, start ≤ position → position < stop → (input[position]?).any kind = true
  begins : (byteBefore input start).any kind = false

section runs
variable {input : Bytes}

theorem runUnique {kind : Nat → UInt8 → Bool} {start a b : Nat} (first : Run input kind start a)
    (second : Run input kind start b) : a = b := by
  rcases Nat.lt_trichotomy a b with less | same | less
  · obtain ⟨byte, at', accepted⟩ := second.inside a first.order less
    simp [first.ends byte at'] at accepted
  · exact same
  · obtain ⟨byte, at', accepted⟩ := first.inside b second.order less
    simp [second.ends byte at'] at accepted

theorem scanRunFrom (stop : Nat → UInt8 → Bool) (rest : Bytes) (start : Nat)
    (here : input.drop start = rest) (bound : start ≤ input.length) :
    Run input (fun position byte => !stop position byte) start (scan stop rest start) := by
  induction rest generalizing start with
  | nil =>
    have full : input.length ≤ start := List.drop_eq_nil_iff.mp here
    exact ⟨Nat.le_refl _, bound, fun position low high => absurd low (Nat.not_le.mpr high),
      fun byte at' => by simp [scan, List.getElem?_eq_none full] at at'⟩
  | cons byte rest ih =>
    have less : start < input.length := by
      have length := congrArg List.length here
      simp only [List.length_drop, List.length_cons] at length
      omega
    have at' : input[start]? = some byte := by
      have head := congrArg List.head? here
      simpa [List.head?_drop] using head
    have next : input.drop (start + 1) = rest := by
      rw [← List.drop_drop, here, List.drop_one, List.tail_cons]
    simp only [scan]
    split
    · rename_i stops
      exact ⟨Nat.le_refl _, bound, fun position low high => absurd low (Nat.not_le.mpr high),
        fun other found => by cases at'.symm.trans found; simp [stops]⟩
    · rename_i goes
      have tail := ih (start + 1) next less
      refine ⟨Nat.le_of_succ_le tail.order, tail.bound, fun position low high => ?_, tail.ends⟩
      rcases Nat.eq_or_lt_of_le low with rfl | later
      · exact ⟨byte, at', by simp [goes]⟩
      · exact tail.inside position later high

theorem scanRun (stop : Nat → UInt8 → Bool) {start : Nat} (bound : start ≤ input.length) :
    Run input (fun position byte => !stop position byte) start (scanFrom input stop start) :=
  scanRunFrom stop _ start rfl bound

theorem scanBackRun (kind : UInt8 → Bool) (stop : Nat) :
    RunBack input kind (scanBack input kind stop) stop := by
  induction stop with
  | zero => exact ⟨Nat.le_refl _, fun position low high => absurd high (Nat.not_lt_zero _), rfl⟩
  | succ n ih =>
    simp only [scanBack]
    split
    · rename_i accepted
      refine ⟨Nat.le_succ_of_le ih.order, fun position low high => ?_, ih.begins⟩
      rcases Nat.eq_or_lt_of_le (Nat.le_of_lt_succ high) with rfl | earlier
      · exact accepted
      · exact ih.inside position low earlier
    · rename_i refused
      exact ⟨Nat.le_refl _, fun position low high => absurd low (Nat.not_le.mpr high), by
        simpa [byteBefore] using refused⟩

theorem runBackUnique {kind : UInt8 → Bool} {a b stop : Nat} (first : RunBack input kind a stop)
    (second : RunBack input kind b stop) : a = b := by
  have apart (a b : Nat) (first : RunBack input kind a stop) (second : RunBack input kind b stop)
      (less : a < b) : False := by
    obtain ⟨n, rfl⟩ : ∃ n, b = n + 1 := ⟨b - 1, by omega⟩
    have accepted := first.inside n (by omega) (by have := second.order; omega)
    have refused := second.begins
    simp only [byteBefore] at refused
    simp [accepted] at refused
  rcases Nat.lt_trichotomy a b with less | same | less
  · exact (apart a b first second less).elim
  · exact same
  · exact (apart b a second first less).elim

theorem skipRun {start : Nat} (bound : start ≤ input.length) :
    Run input (fun _ byte => isHorizontalWhitespace byte) start
      (skipHorizontalWhitespace input start) := by
  simpa [skipHorizontalWhitespace] using
    scanRun (fun _ byte => !isHorizontalWhitespace byte) bound

end runs

def Utf8 (input : Bytes) : Prop := ∃ text : List Char, input = text.flatMap String.utf8EncodeChar

theorem encodingShape (c : Char) : ∃ first conts, String.utf8EncodeChar c = first :: conts ∧
    isContinuation first = false ∧ (∀ byte ∈ conts, isContinuation byte = true) ∧
    (first < 128 → conts = []) := by
  have bounded : c.val.toNat < 0x110000 := by
    rcases c.valid with low | ⟨_, high⟩
    · exact Nat.lt_trans low (by decide)
    · exact high
  unfold String.utf8EncodeChar isContinuation
  generalize c.val.toNat = v at bounded
  dsimp only
  split
  · refine ⟨_, _, rfl, ?_, by simp, by simp⟩
    simp [UInt8.le_iff_toNat_le, UInt8.lt_iff_toNat_lt]; omega
  split
  · refine ⟨_, _, rfl, ?_, ?_, ?_⟩
    all_goals simp [UInt8.le_iff_toNat_le, UInt8.lt_iff_toNat_lt]
    all_goals omega
  split
  · refine ⟨_, _, rfl, ?_, ?_, ?_⟩
    all_goals simp [UInt8.le_iff_toNat_le, UInt8.lt_iff_toNat_lt]
    all_goals omega
  · refine ⟨_, _, rfl, ?_, ?_, ?_⟩
    all_goals simp [UInt8.le_iff_toNat_le, UInt8.lt_iff_toNat_lt]
    all_goals omega

theorem utf8Append {a b : Bytes} (first : Utf8 a) (second : Utf8 b) : Utf8 (a ++ b) := by
  obtain ⟨text, rfl⟩ := first
  obtain ⟨more, rfl⟩ := second
  exact ⟨text ++ more, by simp⟩

theorem boundaryIff {input : Bytes} {position : Nat} :
    isCharBoundary input position = true ↔ position = 0 ∨ position = input.length ∨
      ∃ byte, input[position]? = some byte ∧ isContinuation byte = false := by
  simp only [isCharBoundary, Bool.or_eq_true, decide_eq_true_eq]
  refine or_congr Iff.rfl ?_
  split
  · rename_i less
    rw [List.getElem?_eq_getElem less]
    constructor
    · intro leads
      exact .inr ⟨_, rfl, by simpa using leads⟩
    · rintro (last | ⟨byte, same, leads⟩)
      · omega
      · cases same
        simpa using leads
  · rename_i beyond
    rw [decide_eq_true_eq]
    constructor
    · exact .inl
    · rintro (last | ⟨byte, same, -⟩)
      · exact last
      · exact absurd (List.getElem?_eq_some_iff.mp same).1 beyond

theorem boundaryBound {input : Bytes} {position : Nat}
    (between : isCharBoundary input position = true) : position ≤ input.length := by
  rcases boundaryIff.mp between with rfl | rfl | ⟨byte, here, -⟩
  · exact Nat.zero_le _
  · exact Nat.le_refl _
  · exact Nat.le_of_lt (List.getElem?_eq_some_iff.mp here).1

theorem boundaryHere {input : Bytes} {position : Nat} {byte : UInt8}
    (here : input[position]? = some byte) (plain : byte < 128) :
    isCharBoundary input position = true := by
  refine boundaryIff.mpr (.inr (.inr ⟨byte, here, ?_⟩))
  simp only [isContinuation, Bool.and_eq_false_iff, decide_eq_false_iff_not]
  exact .inl (UInt8.not_le.mpr plain)

theorem boundaryEnd (input : Bytes) : isCharBoundary input input.length = true :=
  boundaryIff.mpr (.inr (.inl rfl))

theorem boundaryBehind {front rest : Bytes} {position : Nat} (some' : front ≠ [])
    (between : isCharBoundary (front ++ rest) (front.length + position) = true) :
    isCharBoundary rest position = true := by
  have positive : 0 < front.length := List.length_pos_iff.mpr some'
  rcases boundaryIff.mp between with start | last | ⟨byte, here, leads⟩
  · omega
  · rw [List.length_append] at last
    exact boundaryIff.mpr (.inr (.inl (by omega)))
  · rw [List.getElem?_append_right (by omega), Nat.add_sub_cancel_left] at here
    exact boundaryIff.mpr (.inr (.inr ⟨byte, here, leads⟩))

theorem boundaryCut {input : Bytes} {position : Nat} (valid : Utf8 input)
    (between : isCharBoundary input position = true) :
    Utf8 (input.take position) ∧ Utf8 (input.drop position) := by
  obtain ⟨text, rfl⟩ := valid
  induction text generalizing position with
  | nil => exact ⟨⟨[], by simp⟩, ⟨[], by simp⟩⟩
  | cons c text ih =>
    obtain ⟨first, conts, shape, -, tails, -⟩ := encodingShape c
    rw [List.flatMap_cons, shape] at between ⊢
    generalize rest : text.flatMap String.utf8EncodeChar = more at between ih ⊢
    cases position with
    | zero => exact ⟨⟨[], by simp⟩, ⟨c :: text, by simp [shape, rest]⟩⟩
    | succ n =>
      by_cases inside : n < conts.length
      · -- A byte of the same character stands here.
        have here : (first :: conts ++ more)[n + 1]? = some conts[n] := by
          simp [List.getElem?_append_left inside]
        rcases boundaryIff.mp between with start | last | ⟨byte, found, leads⟩
        · omega
        · simp only [List.length_append, List.length_cons] at last
          omega
        · cases here.symm.trans found
          rw [tails _ (List.getElem_mem inside)] at leads
          cases leads
      · obtain ⟨r, rfl⟩ : ∃ r, n = conts.length + r := ⟨n - conts.length, by omega⟩
        have length : conts.length + r + 1 = (first :: conts).length + r := by
          simp only [List.length_cons]; omega
        rw [length] at between ⊢
        have ⟨front, back⟩ := ih (boundaryBehind (List.cons_ne_nil _ _) between)
        rw [List.take_length_add_append, List.drop_length_add_append]
        exact ⟨utf8Append ⟨[c], by simp [shape]⟩ front, back⟩

theorem boundaryAfter {input : Bytes} {position : Nat} {byte : UInt8} (valid : Utf8 input)
    (here : input[position]? = some byte) (plain : byte < 128) :
    isCharBoundary input (position + 1) = true := by
  obtain ⟨less, same⟩ := List.getElem?_eq_some_iff.mp here
  obtain ⟨-, text, behind⟩ := boundaryCut valid (boundaryHere here plain)
  rw [List.drop_eq_getElem_cons less, same] at behind
  cases text with
  | nil => simp at behind
  | cons c text =>
    obtain ⟨first, conts, shape, -, -, single⟩ := encodingShape c
    rw [List.flatMap_cons, shape, List.cons_append] at behind
    obtain ⟨rfl, tail⟩ := List.cons.inj behind
    rw [single plain, List.nil_append] at tail
    cases text with
    | nil =>
      have full : input.length ≤ position + 1 := List.drop_eq_nil_iff.mp tail
      exact boundaryIff.mpr (.inr (.inl (by omega)))
    | cons d text =>
      obtain ⟨next, conts, shape, leads, -, -⟩ := encodingShape d
      rw [List.flatMap_cons, shape, List.cons_append] at tail
      have there : input[position + 1]? = some next := by
        rw [← List.head?_drop, tail, List.head?_cons]
      exact boundaryIff.mpr (.inr (.inr ⟨next, there, leads⟩))

theorem sliceSome {input : Bytes} {start stop : Nat} (order : start ≤ stop)
    (low : isCharBoundary input start = true) (high : isCharBoundary input stop = true) :
    slice input start stop = some ((input.take stop).drop start) := by
  simp [slice, order, low, high]

theorem sliceShape {input text : Bytes} {start stop : Nat}
    (taken : slice input start stop = some text) :
    start ≤ stop ∧ isCharBoundary input start = true ∧ isCharBoundary input stop = true ∧
      text = (input.take stop).drop start := by
  unfold slice at taken
  split at taken
  · rename_i whole
    exact ⟨whole.1, whole.2.1, whole.2.2, (Option.some.inj taken).symm⟩
  · cases taken

theorem sliceUtf8 {input text : Bytes} {start stop : Nat} (valid : Utf8 input)
    (taken : slice input start stop = some text) : Utf8 text := by
  obtain ⟨order, low, high, rfl⟩ := sliceShape taken
  have bound := boundaryBound high
  refine (boundaryCut (boundaryCut valid high).1 ?_).2
  rcases boundaryIff.mp low with first | last | ⟨byte, here, leads⟩
  · exact boundaryIff.mpr (.inl first)
  · exact boundaryIff.mpr (.inr (.inl (by rw [List.length_take]; omega)))
  · rcases Nat.eq_or_lt_of_le order with rfl | less
    · exact boundaryIff.mpr (.inr (.inl (by rw [List.length_take]; omega)))
    · exact boundaryIff.mpr (.inr (.inr ⟨byte, by rw [List.getElem?_take_of_lt less, here], leads⟩))

end Maestro.Redaction
