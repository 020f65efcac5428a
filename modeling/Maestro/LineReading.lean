import Mathlib.Data.List.Basic
import Mathlib.Tactic.Common

/-! Reading a stream of bytes line by line, each line at most `limit` bytes. What a reader
makes of a stream is said byte by byte, and does not depend on how the stream is cut. -/
namespace Maestro.LineReading

variable {α ε : Type} (decode : List UInt8 → Except ε α) (limit : Nat)

inductive Fault (ε : Type) where
  | tooLong
  | malformed (error : ε)
  deriving DecidableEq, Repr

structure Reading (α ε : Type) where
  pending : List UInt8
  values : List α
  fault : Option (Fault ε)

def readBytes : List UInt8 → List UInt8 → Reading α ε
  | pending, [] => ⟨pending, [], none⟩
  | pending, byte :: rest =>
    if byte = 10 then
      match decode pending with
      | .error error => ⟨[], [], some (.malformed error)⟩
      | .ok value =>
        let after := readBytes [] rest
        { after with values := value :: after.values }
    else if limit ≤ pending.length then ⟨[], [], some .tooLong⟩
    else readBytes (pending ++ [byte]) rest

def Reading.andThen (before : Reading α ε) (next : List UInt8 → Reading α ε) : Reading α ε :=
  match before.fault with
  | some _ => before
  | none =>
    let after := next before.pending
    { after with values := before.values ++ after.values }

variable {limit}

theorem readAppend (pending front back : List UInt8) :
    readBytes decode limit pending (front ++ back) =
      (readBytes decode limit pending front).andThen fun pending => readBytes decode limit pending back := by
  induction front generalizing pending with
  | nil => simp [readBytes, Reading.andThen]
  | cons byte front ih =>
    simp only [List.cons_append, readBytes]
    split
    · cases decode pending with
      | error error => rfl
      | ok value =>
        simp only [ih, Reading.andThen]
        split <;> rfl
    · split
      · rfl
      · exact ih _

theorem readPending {pending : List UInt8} (bytes : List UInt8) (fits : pending.length ≤ limit) :
    (readBytes decode limit pending bytes).pending.length ≤ limit := by
  induction bytes generalizing pending with
  | nil => exact fits
  | cons byte rest ih =>
    simp only [readBytes]
    split
    · cases decode pending with
      | error error => exact Nat.zero_le limit
      | ok value => exact ih (Nat.zero_le limit)
    · split
      · exact Nat.zero_le limit
      · rename_i room
        refine ih ?_
        rw [List.length_append, List.length_singleton]
        omega

theorem readInside {bytes : List UInt8} (inside : (10 : UInt8) ∉ bytes) (pending : List UInt8)
    (fits : pending.length ≤ limit) :
    readBytes decode limit pending bytes =
      if pending.length + bytes.length ≤ limit then ⟨pending ++ bytes, [], none⟩
      else ⟨[], [], some .tooLong⟩ := by
  induction bytes generalizing pending with
  | nil => simp [readBytes, fits]
  | cons byte rest ih =>
    obtain ⟨here, later⟩ := List.ne_and_not_mem_of_not_mem_cons inside
    rw [readBytes, if_neg (Ne.symm here)]
    split
    · rename_i full
      rw [if_neg]
      rw [List.length_cons]
      omega
    · rename_i room
      have longer : (pending ++ [byte]).length = pending.length + 1 := by simp
      rw [ih later _ (by omega), longer, List.length_cons, List.append_assoc, List.singleton_append,
        Nat.add_assoc, Nat.add_comm 1]

theorem readLine {bytes : List UInt8} (inside : (10 : UInt8) ∉ bytes) (pending rest : List UInt8)
    (fits : pending.length ≤ limit) :
    readBytes decode limit pending (bytes ++ 10 :: rest) =
      if pending.length + bytes.length ≤ limit then
        match decode (pending ++ bytes) with
        | .error error => ⟨[], [], some (.malformed error)⟩
        | .ok value =>
          { readBytes decode limit [] rest with values := value :: (readBytes decode limit [] rest).values }
      else ⟨[], [], some .tooLong⟩ := by
  rw [readAppend, readInside decode inside pending fits]
  split
  · simp only [Reading.andThen, readBytes, if_true, List.nil_append]
  · rfl

/-- The segments that end in a newline, and what remains behind the last one. -/
def segments : List UInt8 → List (List UInt8) × List UInt8
  | [] => ([], [])
  | byte :: rest =>
    if byte = 10 then ([] :: (segments rest).1, (segments rest).2)
    else
      match (segments rest).1 with
      | [] => ([], byte :: (segments rest).2)
      | first :: more => ((byte :: first) :: more, (segments rest).2)

theorem segmentsJoined (bytes : List UInt8) :
    (segments bytes).1.flatMap (· ++ [10]) ++ (segments bytes).2 = bytes := by
  induction bytes with
  | nil => rfl
  | cons byte rest ih =>
    rw [segments]
    split
    · rename_i newline
      simp [newline, ih]
    · cases complete : (segments rest).1 with
      | nil => simpa [complete] using ih
      | cons first more => simpa [complete] using ih

theorem segmentsInside (bytes : List UInt8) :
    (∀ segment ∈ (segments bytes).1, (10 : UInt8) ∉ segment) ∧ (10 : UInt8) ∉ (segments bytes).2 := by
  induction bytes with
  | nil => simp [segments]
  | cons byte rest ih =>
    obtain ⟨each, last⟩ := ih
    rw [segments]
    split
    · exact ⟨by simpa using each, last⟩
    · rename_i other
      cases complete : (segments rest).1 with
      | nil => exact ⟨nofun, List.not_mem_cons_of_ne_of_not_mem (Ne.symm other) last⟩
      | cons first more =>
        rw [complete] at each
        obtain ⟨head, tail⟩ := List.forall_mem_cons.mp each
        exact ⟨List.forall_mem_cons.mpr
          ⟨List.not_mem_cons_of_ne_of_not_mem (Ne.symm other) head, tail⟩, last⟩

theorem segmentsLength (bytes : List UInt8) : (segments bytes).1.length = bytes.count 10 := by
  induction bytes with
  | nil => rfl
  | cons byte rest ih =>
    rw [segments]
    split
    · rename_i newline
      simp [newline, ih]
    · rename_i other
      rw [List.count_cons_of_ne other, ← ih]
      cases (segments rest).1 <;> rfl

end Maestro.LineReading
