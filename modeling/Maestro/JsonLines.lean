import Maestro.Domain

/-! The decoder of the child's standard output: one JSON value a line, each line at
most the configured number of bytes. After a failure it accepts nothing more. -/
namespace Maestro

structure ProtocolFailure where
  category : String
  incompatible : Bool
  deriving DecidableEq, Repr

def ProtocolFailure.code (failure : ProtocolFailure) : ErrorCode :=
  if failure.incompatible then .cliProtocolIncompatible else .processCrashed

def ProtocolFailure.state (failure : ProtocolFailure) : SessionState :=
  if failure.incompatible then .incompatible else .failed

structure JsonLineDecoder where
  frame : Bytes
  failed : Bool
  deriving DecidableEq, Repr

structure DecodeBatch where
  frames : List Value
  failure : Option ProtocolFailure
  deriving Repr

namespace JsonLineDecoder

def new : JsonLineDecoder := ⟨[], false⟩

def line (frame : Bytes) : Bytes := if frame.getLast? = some 13 then frame.dropLast else frame

def pushBytes (fromSlice : Bytes → Option Value) (maximumFrameBytes : Nat) :
    JsonLineDecoder → Bytes → JsonLineDecoder × DecodeBatch
  | d, [] => (d, ⟨[], none⟩)
  | d, byte :: rest =>
      if byte = 10 then
        if line d.frame = [] then (⟨[], true⟩, ⟨[], some ⟨"empty_frame", false⟩⟩)
        else
          match fromSlice (line d.frame) with
          | none => (⟨[], true⟩, ⟨[], some ⟨"malformed_json", false⟩⟩)
          | some value =>
              let after := pushBytes fromSlice maximumFrameBytes { d with frame := [] } rest
              (after.1, { after.2 with frames := value :: after.2.frames })
      else if d.frame.length ≥ maximumFrameBytes then
        (⟨[], true⟩, ⟨[], some ⟨"oversized_frame", false⟩⟩)
      else pushBytes fromSlice maximumFrameBytes { d with frame := d.frame ++ [byte] } rest

def push (fromSlice : Bytes → Option Value) (maximumFrameBytes : Nat) (d : JsonLineDecoder)
    (bytes : Bytes) : JsonLineDecoder × DecodeBatch :=
  if d.failed then (d, ⟨[], some ⟨"decoder_already_failed", false⟩⟩)
  else pushBytes fromSlice maximumFrameBytes d bytes

def finish (d : JsonLineDecoder) : Option ProtocolFailure :=
  if d.failed then some ⟨"decoder_already_failed", false⟩
  else if d.frame = [] then none
  else some ⟨"truncated_frame", false⟩

def categories : List String :=
  ["decoder_already_failed", "empty_frame", "malformed_json", "oversized_frame", "truncated_frame"]

theorem pushBytesCategory {fromSlice limit bytes} {d : JsonLineDecoder} {failure}
    (h : (pushBytes fromSlice limit d bytes).2.failure = some failure) :
    failure.category ∈ categories ∧ failure.incompatible = false := by
  induction bytes generalizing d with
  | nil => cases h
  | cons byte rest ih =>
    simp only [pushBytes] at h
    split at h
    · split at h
      · cases Option.some.inj h
        decide
      · split at h
        · cases Option.some.inj h
          decide
        · exact ih h
    · split at h
      · cases Option.some.inj h
        decide
      · exact ih h

theorem pushCategory {fromSlice limit bytes} {d : JsonLineDecoder} {failure}
    (h : (d.push fromSlice limit bytes).2.failure = some failure) :
    failure.category ∈ categories ∧ failure.incompatible = false := by
  unfold push at h
  split at h
  · cases Option.some.inj h
    decide
  · exact pushBytesCategory h

theorem finishCategory {d : JsonLineDecoder} {failure} (h : d.finish = some failure) :
    failure.category ∈ categories ∧ failure.incompatible = false := by
  unfold finish at h
  split at h
  · cases Option.some.inj h
    decide
  · split at h
    · contradiction
    · cases Option.some.inj h
      decide

end JsonLineDecoder
end Maestro
