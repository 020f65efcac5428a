import Maestro.JsonRedaction
import Maestro.KeyStore
import Maestro.Stepping
import Maestro.Text

/-! The authentication token of the daemon. Any number of calls create its file or read it, one
system call at a time, and each may be cut off between two of them. -/
namespace Maestro.TokenFile
open Stepping Text
open Files (FileKind)
open KeyStore (Fixed hexEncode)
open Redaction (bytes ofBytes ofBytesText ofBytesBack)

def tokenBytes : Nat := 32

structure SecretToken where
  text : String
  deriving DecidableEq, Repr

inductive ErrorKind where
  | alreadyExists
  | interrupted
  | invalidData
  | permissionDenied
  | writeZero
  | other (code : Nat)
  deriving DecidableEq, Repr

structure IoError where
  kind : ErrorKind
  message : String
  deriving DecidableEq, Repr

inductive DaemonError where
  | io (error : IoError)
  | invalidTokenFile
  deriving DecidableEq, Repr

def isHexDigit (c : Char) : Bool :=
  let n := c.toNat
  (0x30 ≤ n && n ≤ 0x39) || (0x41 ≤ n && n ≤ 0x46) || (0x61 ≤ n && n ≤ 0x66)

/-- Whether `hex::decode` takes the text. -/
def hexDecodes (text : String) : Bool := (bytes text).length % 2 == 0 && text.toList.all isHexDigit

def parseToken (read : Bytes) : Except DaemonError SecretToken :=
  match ofBytes read with
  | none => .error (.io ⟨.invalidData, "stream did not contain valid UTF-8"⟩)
  | some encoded =>
    let encoded := trim encoded
    if (bytes encoded).length ≠ tokenBytes * 2 ∨ hexDecodes encoded = false then .error .invalidTokenFile
    else .ok ⟨encoded⟩

inductive PrivateDirectory where
  | data
  | runtime
  deriving DecidableEq, Repr

inductive DirectoryCall where
  | createDirAll (directory : PrivateDirectory)
  | symlinkMetadata (directory : PrivateDirectory)
  | restrictDirectory (directory : PrivateDirectory)
  deriving DecidableEq, Repr

def createPrivateDirectory (directory : PrivateDirectory) : List DirectoryCall :=
  [.createDirAll directory, .symlinkMetadata directory, .restrictDirectory directory]

def prepare : List DirectoryCall := createPrivateDirectory .data ++ createPrivateDirectory .runtime

/-- What a call does next, with what it has read or has still to write. -/
inductive Phase where
  | prepare (call : DirectoryCall) (left : List DirectoryCall)
  | openNewPrivate
  | fillBytes
  | writeAll (token : SecretToken) (left : Bytes)
  | syncAll (token : SecretToken)
  | openRead
  | readToString (read : Bytes)
  | restrictFile (token : SecretToken)
  | returned (result : Except DaemonError SecretToken)
  deriving DecidableEq, Repr

inductive Call where
  | loadOrCreateToken
  | loadToken
  deriving DecidableEq, Repr

inductive Answer where
  | done
  | kind (kind : FileKind)
  | drawn (random : Fixed tokenBytes)
  | moved (count : Nat)
  | failed (error : IoError)

def preparing : List DirectoryCall → Phase
  | [] => .openNewPrivate
  | call :: left => .prepare call left

def Call.start : Call → Phase
  | .loadOrCreateToken => preparing prepare
  | .loadToken => .openRead

def writing (token : SecretToken) (left : Bytes) : Phase :=
  if left = [] then .syncAll token else .writeAll token left

def ended (read : Bytes) : Phase :=
  match parseToken read with
  | .ok token => .restrictFile token
  | .error error => .returned (.error error)

def failing (error : IoError) : Phase := .returned (.error (.io error))

/-- `write_all` and `read_to_string` go on when they are interrupted. -/
def Phase.fail (error : IoError) : Phase → Option Phase
  | .fillBytes | .returned _ => none
  | .openNewPrivate => some (if error.kind = .alreadyExists then .openRead else failing error)
  | .writeAll token left => some (if error.kind = .interrupted then .writeAll token left else failing error)
  | .readToString read => some (if error.kind = .interrupted then .readToString read else failing error)
  | .prepare _ _ | .syncAll _ | .openRead | .restrictFile _ => some (failing error)

/-- The file and what is left of the call, when the system can answer so. A read of nothing is
the end of the file. -/
def advance (file : Option Bytes) : Phase → Answer → Option (Option Bytes × Phase)
  | phase, .failed error => (phase.fail error).map (file, ·)
  | .prepare (.symlinkMetadata _) left, .kind kind =>
    some (file, if kind = .directory then preparing left
      else failing ⟨.permissionDenied, "daemon path is not a real directory"⟩)
  | .prepare (.createDirAll _) left, .done => some (file, preparing left)
  | .prepare (.restrictDirectory _) left, .done => some (file, preparing left)
  | .openNewPrivate, .done => if file = none then some (some [], .fillBytes) else none
  | .fillBytes, .drawn random =>
    let encoded := hexEncode random.1
    some (file, writing ⟨encoded⟩ (bytes encoded))
  | .writeAll token left, .moved count =>
    if left.length < count then none
    else if count = 0 then some (file, failing ⟨.writeZero, "failed to write whole buffer"⟩)
    else some (file.map (· ++ left.take count), writing token (left.drop count))
  | .syncAll token, .done => some (file, .returned (.ok token))
  | .openRead, .done => file.map fun _ => (file, .readToString [])
  | .readToString read, .moved count => file.bind fun content =>
    if content.length < read.length + count then none
    else if count = 0 then if content.length ≤ read.length then some (file, ended read) else none
    else some (file, .readToString (read ++ (content.drop read.length).take count))
  | .restrictFile token, .done => some (file, .returned (.ok token))
  | _, _ => none

abbrev CallId := Nat

/-- `file` is what the token file holds. A call that was cut off is no longer there. -/
structure State where
  file : Option Bytes
  calls : CallId → Option Phase

def first (file : Option Bytes) : State := ⟨file, fun _ => none⟩

inductive Label where
  | begin (id : CallId) (call : Call)
  | act (id : CallId) (answer : Answer)
  | crash (id : CallId)

def State.put (s : State) (id : CallId) (file : Option Bytes) (phase : Phase) : State :=
  ⟨file, Function.update s.calls id (some phase)⟩

def State.drop (s : State) (id : CallId) : State := { s with calls := Function.update s.calls id none }

def step (s : State) : Label → Option State
  | .begin id call =>
    match s.calls id with
    | none => some (s.put id s.file call.start)
    | some _ => none
  | .act id answer => do
    let phase ← s.calls id
    let (file, phase) ← advance s.file phase answer
    return s.put id file phase
  | .crash id =>
    match s.calls id with
    | none | some (.returned _) => none
    | some _ => some (s.drop id)

def State.Returned (s : State) (id : CallId) (token : SecretToken) : Prop := s.calls id = some (.returned (.ok token))

/-- Between the creation of the file and its last byte. -/
def Phase.Writes : Phase → Prop
  | .fillBytes | .writeAll _ _ => True
  | _ => False

/-- The answers on which `write_all` fails. -/
def Answer.StopsWrite : Answer → Prop
  | .moved count => count = 0
  | .failed error => error.kind ≠ .interrupted
  | _ => False

/-- The call that created the file goes on to the last byte. -/
def Completing (s : State) : Label → Prop
  | .begin _ _ => True
  | .act id answer => ∀ token left, s.calls id = some (.writeAll token left) → ¬ answer.StopsWrite
  | .crash id => ∀ phase, s.calls id = some phase → ¬ phase.Writes

theorem hexDigitMember (n : Nat) : KeyStore.hexDigit n ∈ "0123456789abcdef".toList := by
  rw [KeyStore.hexDigit, List.getD_eq_getElem?_getD]
  cases found : "0123456789abcdef".toList[n]? with
  | none => decide
  | some c => exact List.mem_of_getElem? found

theorem hexDigitPlain {c : Char} (member : c ∈ "0123456789abcdef".toList) :
    isWhiteSpace c = false ∧ isHexDigit c = true ∧ (String.utf8EncodeChar c).length = 1 := by
  have plain : "0123456789abcdef".toList.all
      (fun c => isWhiteSpace c == false && (isHexDigit c && (String.utf8EncodeChar c).length == 1)) = true := by
    decide
  have each := List.all_eq_true.mp plain c member
  rw [Bool.and_eq_true, Bool.and_eq_true, beq_iff_eq, beq_iff_eq] at each
  exact each

theorem hexEncodeDigits (random : Bytes) : ∀ c ∈ (hexEncode random).toList, c ∈ "0123456789abcdef".toList := by
  intro c member
  rw [hexEncode, String.toList_ofList] at member
  obtain ⟨byte, _, digit⟩ := List.mem_flatMap.mp member
  rcases List.mem_pair.mp digit with rfl | rfl <;> exact hexDigitMember _

theorem hexEncodeLength (random : Bytes) : (bytes (hexEncode random)).length = 2 * random.length := by
  have each : ∀ chars : List Char, (∀ c ∈ chars, c ∈ "0123456789abcdef".toList) →
      (chars.flatMap String.utf8EncodeChar).length = chars.length := fun chars digits => by
    induction chars with
    | nil => rfl
    | cons c chars ih =>
      rw [List.flatMap_cons, List.length_append, (hexDigitPlain (digits c List.mem_cons_self)).2.2,
        ih fun c member => digits c (List.mem_cons_of_mem _ member), List.length_cons, Nat.add_comm]
  rw [bytes, each _ (hexEncodeDigits random), hexEncode, String.toList_ofList]
  induction random with
  | nil => rfl
  | cons byte random ih =>
    rw [List.flatMap_cons, List.length_append, ih, List.length_cons, List.length_cons, List.length_cons,
      List.length_nil]
    omega

def Drawn (token : SecretToken) : Prop := ∃ random : Fixed tokenBytes, token.text = hexEncode random.1

theorem drawnLength {token : SecretToken} (drawn : Drawn token) : (bytes token.text).length = tokenBytes * 2 := by
  obtain ⟨random, same⟩ := drawn
  rw [same, hexEncodeLength, random.2, Nat.mul_comm]

theorem parseDrawn {token : SecretToken} (drawn : Drawn token) : parseToken (bytes token.text) = .ok token := by
  have length := drawnLength drawn
  obtain ⟨random, same⟩ := drawn
  have digits : ∀ c ∈ token.text.toList, c ∈ "0123456789abcdef".toList := same ▸ hexEncodeDigits random.1
  have trimmed : trim token.text = token.text := trimFree fun c member => (hexDigitPlain (digits c member)).1
  have decodes : hexDecodes token.text = true := by
    rw [hexDecodes, length]
    exact Bool.and_eq_true_iff.mpr ⟨rfl, List.all_eq_true.mpr fun c member => (hexDigitPlain (digits c member)).2.1⟩
  simp [parseToken, ofBytesText, trimmed, length, decodes]

theorem parseLength {read : Bytes} {token : SecretToken} (parsed : parseToken read = .ok token) :
    tokenBytes * 2 ≤ read.length := by
  rw [parseToken] at parsed
  cases decoded : ofBytes read with
  | none =>
    rw [decoded] at parsed
    cases parsed
  | some encoded =>
    rw [decoded] at parsed
    simp only at parsed
    split at parsed
    · cases parsed
    · rename_i right
      have length : (bytes (trim encoded)).length = tokenBytes * 2 := by
        by_contra other
        exact right (.inl other)
      obtain ⟨before, after, whole⟩ : (trim encoded).toList <:+: encoded.toList := trimInfix
      rw [← length, ← ofBytesBack decoded, bytes, bytes, ← whole, List.flatMap_append, List.flatMap_append,
        List.length_append, List.length_append]
      omega

def Accepted (file : Option Bytes) (token : SecretToken) : Prop :=
  ∃ content, file = some content ∧ parseToken content = .ok token

def Follows (file : Option Bytes) : Phase → Prop
  | .fillBytes => file = some []
  | .writeAll token left => Drawn token ∧ left ≠ [] ∧ ∃ written, file = some written ∧ written ++ left = bytes token.text
  | .readToString read => ∃ content, file = some content ∧ read <+: content
  | .syncAll token | .restrictFile token | .returned (.ok token) => Accepted file token
  | .prepare _ _ | .openNewPrivate | .openRead | .returned (.error _) => True

inductive Turns (file : Option Bytes) : Phase → Option Bytes → Phase → Prop
  | prepared (call : DirectoryCall) (left : List DirectoryCall) : Turns file (.prepare call left) file (preparing left)
  | fails (phase : Phase) (error : DaemonError) : Turns file phase file (.returned (.error error))
  | again (phase : Phase) : Turns file phase file phase
  | created (absent : file = none) : Turns file .openNewPrivate (some []) .fillBytes
  | taken : Turns file .openNewPrivate file .openRead
  | drew (random : Fixed tokenBytes) :
    Turns file .fillBytes file (writing ⟨hexEncode random.1⟩ (bytes (hexEncode random.1)))
  | wrote (token : SecretToken) (left : Bytes) (count : Nat) :
    Turns file (.writeAll token left) (file.map (· ++ left.take count)) (writing token (left.drop count))
  | synced (token : SecretToken) : Turns file (.syncAll token) file (.returned (.ok token))
  | opened {content : Bytes} (there : file = some content) : Turns file .openRead file (.readToString [])
  | read {content : Bytes} (read : Bytes) (count : Nat) (there : file = some content) :
    Turns file (.readToString read) file (.readToString (read ++ (content.drop read.length).take count))
  | parsed {content : Bytes} (read : Bytes) (there : file = some content) (whole : content.length ≤ read.length) :
    Turns file (.readToString read) file (ended read)
  | restricted (token : SecretToken) : Turns file (.restrictFile token) file (.returned (.ok token))

variable {file file' : Option Bytes} {phase phase' other : Phase} {answer : Answer}

theorem failTurns {error : IoError} (failed : phase.fail error = some phase') : Turns file phase file phase' := by
  cases phase with
  | fillBytes => cases failed
  | returned result => cases failed
  | openNewPrivate =>
    cases Option.some.inj failed
    split
    · exact .taken
    · exact .fails _ _
  | writeAll token left =>
    cases Option.some.inj failed
    split
    · exact .again _
    · exact .fails _ _
  | readToString read =>
    cases Option.some.inj failed
    split
    · exact .again _
    · exact .fails _ _
  | prepare call left =>
    cases Option.some.inj failed
    exact .fails _ _
  | syncAll token =>
    cases Option.some.inj failed
    exact .fails _ _
  | openRead =>
    cases Option.some.inj failed
    exact .fails _ _
  | restrictFile token =>
    cases Option.some.inj failed
    exact .fails _ _

theorem advanceTurns (next : advance file phase answer = some (file', phase')) : Turns file phase file' phase' := by
  unfold advance at next
  split at next
  · obtain ⟨phase', failed, same⟩ := Option.map_eq_some_iff.mp next
    cases same
    exact failTurns failed
  · cases Option.some.inj next
    split
    · exact .prepared _ _
    · exact .fails _ _
  · cases Option.some.inj next
    exact .prepared _ _
  · cases Option.some.inj next
    exact .prepared _ _
  · split at next
    · rename_i absent
      cases Option.some.inj next
      exact .created absent
    · cases next
  · cases Option.some.inj next
    exact .drew _
  · split at next
    · cases next
    · split at next
      · cases Option.some.inj next
        exact .fails _ _
      · cases Option.some.inj next
        exact .wrote _ _ _
  · cases Option.some.inj next
    exact .synced _
  · obtain ⟨content, there, same⟩ := Option.map_eq_some_iff.mp next
    cases same
    exact .opened there
  · obtain ⟨content, there, rest⟩ := Option.bind_eq_some_iff.mp next
    split at rest
    · cases rest
    · split at rest
      · split at rest
        · rename_i whole
          cases Option.some.inj rest
          exact .parsed _ there whole
        · cases rest
      · cases Option.some.inj rest
        exact .read _ _ there
  · cases Option.some.inj next
    exact .restricted _
  · cases next

theorem writingFollows {token : SecretToken} {left written : Bytes} (drawn : Drawn token)
    (whole : written ++ left = bytes token.text) : Follows (some written) (writing token left) := by
  rw [writing]
  split
  · rename_i nothing
    rw [nothing, List.append_nil] at whole
    exact ⟨written, rfl, whole ▸ parseDrawn drawn⟩
  · rename_i something
    exact ⟨drawn, something, written, rfl, whole⟩

theorem turnsFollows (turns : Turns file phase file' phase') (follows : Follows file phase) : Follows file' phase' := by
  cases turns with
  | prepared call left => cases left <;> exact trivial
  | fails _ error => exact trivial
  | again => exact follows
  | created absent => exact rfl
  | taken => exact trivial
  | drew random =>
    obtain rfl : file = some [] := follows
    exact writingFollows ⟨random, rfl⟩ rfl
  | wrote token left count =>
    obtain ⟨drawn, _, written, rfl, whole⟩ := follows
    refine writingFollows drawn ?_
    rw [List.append_assoc, List.take_append_drop, whole]
  | synced token => exact follows
  | opened there => exact ⟨_, there, List.nil_prefix⟩
  | read read count there =>
    obtain ⟨content, there', seen⟩ := follows
    cases Option.some.inj (there.symm.trans there')
    obtain ⟨rest, rfl⟩ := seen
    refine ⟨_, there, (List.prefix_append_right_inj read).mpr ?_⟩
    rw [List.drop_left]
    exact List.take_prefix _ _
  | parsed read there whole =>
    obtain ⟨content, there', seen⟩ := follows
    cases Option.some.inj (there.symm.trans there')
    have same := seen.eq_of_length_le whole
    rw [ended]
    split
    · rename_i token parsed
      exact ⟨_, there, same ▸ parsed⟩
    · exact trivial
  | restricted token => exact follows

theorem acceptedWritten {written left : Bytes} {token stored : SecretToken} (drawn : Drawn token) (more : left ≠ [])
    (whole : written ++ left = bytes token.text) : ¬ Accepted (some written) stored := by
  rintro ⟨content, same, parsed⟩
  cases Option.some.inj same
  have long := parseLength parsed
  have length := congrArg List.length whole
  rw [List.length_append, drawnLength drawn] at length
  have some' := List.length_pos_iff.mpr more
  omega

theorem followsCreated (holds : Follows none phase) : Follows file phase := by
  cases phase with
  | prepare _ _ => exact trivial
  | openNewPrivate => exact trivial
  | openRead => exact trivial
  | fillBytes => cases holds
  | writeAll _ _ =>
    obtain ⟨_, _, written, there, _⟩ := holds
    cases there
  | readToString _ | syncAll _ | restrictFile _ =>
    obtain ⟨content, there, _⟩ := holds
    cases there
  | returned result =>
    cases result with
    | error error => exact trivial
    | ok token =>
      obtain ⟨content, there, _⟩ := holds
      cases there

theorem followsWritten {written more : Bytes} (useless : ∀ token, ¬ Accepted (some written) token)
    (quiet : ¬ phase.Writes) (holds : Follows (some written) phase) : Follows (some (written ++ more)) phase := by
  cases phase with
  | prepare _ _ => exact trivial
  | openNewPrivate => exact trivial
  | openRead => exact trivial
  | fillBytes => exact (quiet trivial).elim
  | writeAll _ _ => exact (quiet trivial).elim
  | readToString read =>
    obtain ⟨content, there, seen⟩ := holds
    cases Option.some.inj there
    exact ⟨_, rfl, seen.trans (List.prefix_append _ _)⟩
  | syncAll token | restrictFile token => exact (useless token holds).elim
  | returned result =>
    cases result with
    | error error => exact trivial
    | ok token => exact (useless token holds).elim

theorem turnsOther (turns : Turns file phase file' phase') (follows : Follows file phase) (holds : Follows file other)
    (alone : phase.Writes → ¬ other.Writes) : Follows file' other := by
  cases turns with
  | created absent =>
    subst absent
    exact followsCreated holds
  | wrote token left count =>
    obtain ⟨drawn, more, written, rfl, whole⟩ := follows
    exact followsWritten (fun _ => acceptedWritten drawn more whole) (alone trivial) holds
  | prepared _ _ | fails _ _ | again _ | taken | drew _ | synced _ | opened _ | read _ _ _ | parsed _ _ _ | restricted _ =>
    exact holds

theorem turnsWrites (turns : Turns file phase file' phase') (writes : phase'.Writes) : phase.Writes ∨ file = none := by
  cases turns with
  | prepared call left => cases left <;> exact writes.elim
  | fails _ _ => exact writes.elim
  | again => exact .inl writes
  | created absent => exact .inr absent
  | taken => exact writes.elim
  | drew _ => exact .inl trivial
  | wrote _ _ _ => exact .inl trivial
  | synced _ => exact writes.elim
  | opened _ => exact writes.elim
  | read _ _ _ => exact writes.elim
  | parsed read _ _ =>
    rw [ended] at writes
    split at writes <;> exact writes.elim
  | restricted _ => exact writes.elim

theorem turnsFile (turns : Turns file phase file' phase') (quiet : ¬ phase.Writes) :
    file' = file ∨ (file = none ∧ phase'.Writes) := by
  cases turns with
  | created absent => exact .inr ⟨absent, trivial⟩
  | wrote _ _ _ => exact (quiet trivial).elim
  | prepared _ _ | fails _ _ | again _ | taken | drew _ | synced _ | opened _ | read _ _ _ | parsed _ _ _ | restricted _ =>
    exact .inl rfl

theorem writesUseless (follows : Follows file phase) (writes : phase.Writes) :
    ∃ content, file = some content ∧ ∀ token, parseToken content ≠ .ok token := by
  cases phase with
  | fillBytes =>
    refine ⟨[], follows, fun token parsed => ?_⟩
    exact absurd (parseLength parsed) (by decide)
  | writeAll token left =>
    obtain ⟨drawn, more, written, there, whole⟩ := follows
    exact ⟨written, there, fun stored parsed => acceptedWritten drawn more whole ⟨written, rfl, parsed⟩⟩
  | prepare _ _ | openNewPrivate | syncAll _ | openRead | readToString _ | restrictFile _ | returned _ => exact writes.elim

theorem writesDone (next : advance file phase answer = some (file', phase')) (writes : phase.Writes)
    (goes : ∀ token left, phase = .writeAll token left → ¬ answer.StopsWrite) :
    phase'.Writes ∨ ∃ token, phase' = .syncAll token := by
  have splits : ∀ token left, (writing token left).Writes ∨ ∃ token', writing token left = .syncAll token' :=
    fun token left => by
      rw [writing]
      split
      · exact .inr ⟨token, rfl⟩
      · exact .inl trivial
  cases phase with
  | fillBytes =>
    cases answer with
    | drawn random =>
      cases Option.some.inj next
      exact splits _ _
    | done | kind _ | moved _ | failed _ => cases next
  | writeAll token left =>
    have goes := goes token left rfl
    cases answer with
    | moved count =>
      have some' : count ≠ 0 := goes
      simp only [advance] at next
      split at next
      · cases next
      · cases Option.some.inj next
        exact splits _ _
    | failed error =>
      have interrupted : error.kind = .interrupted := Decidable.not_not.mp goes
      simp only [advance, Phase.fail, if_pos interrupted, Option.map_some, Option.some.injEq, Prod.mk.injEq] at next
      obtain ⟨_, rfl⟩ := next
      exact .inl trivial
    | done | kind _ | drawn _ => cases next
  | prepare _ _ | openNewPrivate | syncAll _ | openRead | readToString _ | restrictFile _ | returned _ => exact writes.elim

structure Sound (s : State) : Prop where
  follows : ∀ {id phase}, s.calls id = some phase → Follows s.file phase
  alone : ∀ {id other phase phase'}, s.calls id = some phase → phase.Writes → s.calls other = some phase' →
    phase'.Writes → id = other

inductive Steps (s : State) : State → Prop
  | begun {id : CallId} (call : Call) (free : s.calls id = none) : Steps s (s.put id s.file call.start)
  | acted {id : CallId} {phase : Phase} {file' : Option Bytes} {phase' : Phase} (present : s.calls id = some phase)
    (turns : Turns s.file phase file' phase') : Steps s (s.put id file' phase')
  | crashed (id : CallId) : Steps s (s.drop id)

variable {s s' s'' : State} {id : CallId} {label : Label} {token : SecretToken}

theorem putHere : (s.put id file phase).calls id = some phase := Function.update_self ..

theorem putElsewhere {other : CallId} (different : other ≠ id) : (s.put id file phase).calls other = s.calls other :=
  Function.update_of_ne different ..

theorem putKeeps {other : CallId} (found : (s.put id file phase).calls other = some phase') :
    (other = id ∧ phase' = phase) ∨ (other ≠ id ∧ s.calls other = some phase') := by
  by_cases same : other = id
  · subst same
    exact .inl ⟨rfl, (Option.some.inj (putHere.symm.trans found)).symm⟩
  · exact .inr ⟨same, (putElsewhere same).symm.trans found⟩

theorem dropHere : (s.drop id).calls id = none := Function.update_self ..

theorem dropElsewhere {other : CallId} (different : other ≠ id) : (s.drop id).calls other = s.calls other :=
  Function.update_of_ne different ..

theorem dropKeeps {other : CallId} (found : (s.drop id).calls other = some phase) :
    other ≠ id ∧ s.calls other = some phase := by
  by_cases same : other = id
  · subst same
    cases dropHere.symm.trans found
  · exact ⟨same, dropElsewhere same ▸ found⟩

theorem stepAct (steps : step s (.act id answer) = some s') : ∃ phase file' phase', s.calls id = some phase ∧
    advance s.file phase answer = some (file', phase') ∧ s' = s.put id file' phase' := by
  obtain ⟨phase, present, rest⟩ := Option.bind_eq_some_iff.mp steps
  obtain ⟨⟨file', phase'⟩, next, last⟩ := Option.bind_eq_some_iff.mp rest
  exact ⟨phase, file', phase', present, next, (Option.some.inj last).symm⟩

theorem stepCrash (steps : step s (.crash id) = some s') : s' = s.drop id := by
  simp only [step] at steps
  split at steps
  · cases steps
  · cases steps
  · exact (Option.some.inj steps).symm

theorem stepBegin {call : Call} (steps : step s (.begin id call) = some s') :
    s.calls id = none ∧ s' = s.put id s.file call.start := by
  simp only [step] at steps
  split at steps
  · rename_i free
    exact ⟨free, (Option.some.inj steps).symm⟩
  · cases steps

theorem stepSteps (steps : step s label = some s') : Steps s s' := by
  cases label with
  | begin id call =>
    obtain ⟨free, rfl⟩ := stepBegin steps
    exact .begun call free
  | act id answer =>
    obtain ⟨phase, file', phase', present, next, rfl⟩ := stepAct steps
    exact .acted present (advanceTurns next)
  | crash id =>
    rw [stepCrash steps]
    exact .crashed id

theorem soundPut (sound : Sound s) (follows : Follows file phase)
    (stays : ∀ {other phase'}, other ≠ id → s.calls other = some phase' → Follows file phase')
    (alone : phase.Writes → ∀ {other phase'}, other ≠ id → s.calls other = some phase' → ¬ phase'.Writes) :
    Sound (s.put id file phase) where
  follows {other phase'} present := by
    rcases putKeeps present with ⟨_, rfl⟩ | ⟨different, before⟩
    · exact follows
    · exact stays different before
  alone {one other phase₁ phase₂} present₁ writes₁ present₂ writes₂ := by
    rcases putKeeps present₁ with ⟨rfl, rfl⟩ | ⟨different₁, before₁⟩
    · rcases putKeeps present₂ with ⟨same, _⟩ | ⟨different₂, before₂⟩
      · exact same.symm
      · exact (alone writes₁ different₂ before₂ writes₂).elim
    · rcases putKeeps present₂ with ⟨rfl, rfl⟩ | ⟨_, before₂⟩
      · exact (alone writes₂ different₁ before₁ writes₁).elim
      · exact sound.alone before₁ writes₁ before₂ writes₂

theorem soundSteps (sound : Sound s) (steps : Steps s s') : Sound s' := by
  cases steps with
  | begun call free =>
    refine soundPut sound ?_ (fun _ present => sound.follows present) fun writes => ?_
    · cases call <;> exact trivial
    · cases call <;> exact writes.elim
  | @acted id phase file' phase' present turns =>
    refine soundPut sound (turnsFollows turns (sound.follows present)) (fun {other phase₁} different present₁ => ?_)
      fun writes' {other phase₁} different present₁ writes₁ => ?_
    · exact turnsOther turns (sound.follows present) (sound.follows present₁)
        fun writes writes₁ => different (sound.alone present₁ writes₁ present writes)
    · rcases turnsWrites turns writes' with writes | absent
      · exact different (sound.alone present₁ writes₁ present writes)
      · obtain ⟨content, there, _⟩ := writesUseless (sound.follows present₁) writes₁
        cases absent.symm.trans there
  | crashed id =>
    refine ⟨fun present => sound.follows (dropKeeps present).2, fun present₁ writes₁ present₂ writes₂ => ?_⟩
    exact sound.alone (dropKeeps present₁).2 writes₁ (dropKeeps present₂).2 writes₂

theorem reachSound {May : State → Label → Prop} (reached : Reach step May s s') (sound : Sound s) : Sound s' :=
  reachInvariant reached sound fun sound _ steps => soundSteps sound (stepSteps steps)

theorem soundFirst : Sound (first file) := ⟨fun present => (by cases present), fun present => (by cases present)⟩

/-- What is in the file is no token, and nothing will be written. -/
structure Wedged (s : State) : Prop where
  useless : ∃ content, s.file = some content ∧ ∀ token, parseToken content ≠ .ok token
  still : ∀ {id phase}, s.calls id = some phase → ¬ phase.Writes

theorem wedgedSteps (wedged : Wedged s) (steps : Steps s s') : Wedged s' := by
  obtain ⟨content, there, useless⟩ := wedged.useless
  cases steps with
  | begun call free =>
    refine ⟨wedged.useless, fun present writes => ?_⟩
    rcases putKeeps present with ⟨_, rfl⟩ | ⟨_, before⟩
    · cases call <;> exact writes
    · exact wedged.still before writes
  | @acted id phase file' phase' present turns =>
    have quiet := wedged.still present
    have same : file' = s.file := (turnsFile turns quiet).resolve_right fun absent => by
      cases there.symm.trans absent.1
    refine ⟨⟨content, same.trans there, useless⟩, fun present₁ writes₁ => ?_⟩
    rcases putKeeps present₁ with ⟨_, rfl⟩ | ⟨_, before⟩
    · rcases turnsWrites turns writes₁ with writes | absent
      · exact quiet writes
      · cases there.symm.trans absent
    · exact wedged.still before writes₁
  | crashed id => exact ⟨wedged.useless, fun present => wedged.still (dropKeeps present).2⟩

theorem wedgedForever (sound : Sound s) (wedged : Wedged s) (reached : Reach step Any s s') : ¬ s'.Returned id token := by
  have both : Sound s' ∧ Wedged s' := by
    induction reached with
    | start => exact ⟨sound, wedged⟩
    | step label before _ steps ih => exact ⟨soundSteps ih.1 (stepSteps steps), wedgedSteps ih.2 (stepSteps steps)⟩
  intro returned
  obtain ⟨content, there, useless⟩ := both.2.useless
  obtain ⟨content', there', parsed⟩ := both.1.follows returned
  cases Option.some.inj (there.symm.trans there')
  exact useless token parsed

theorem stoppedWedged (sound : Sound s) (stopped : ¬ Completing s label) (steps : step s label = some s') :
    Wedged s' := by
  cases label with
  | begin id call => exact (stopped trivial).elim
  | act id answer =>
    obtain ⟨token, left, present, stops⟩ : ∃ token left, s.calls id = some (.writeAll token left) ∧ answer.StopsWrite := by
      simpa only [Completing, not_forall, Decidable.not_not, exists_prop, not_not] using stopped
    obtain ⟨phase, file', phase', present', next, rfl⟩ := stepAct steps
    cases Option.some.inj (present.symm.trans present')
    have failed : ∃ error, (file', phase') = (s.file, failing error) := by
      cases answer with
      | moved count =>
        obtain rfl : count = 0 := stops
        exact ⟨_, (Option.some.inj next).symm⟩
      | failed error =>
        simp only [advance, Phase.fail, if_neg (show ¬ error.kind = .interrupted from stops), Option.map_some,
          Option.some.injEq] at next
        exact ⟨error, next.symm⟩
      | done => exact stops.elim
      | kind _ => exact stops.elim
      | drawn _ => exact stops.elim
    obtain ⟨error, same⟩ := failed
    cases same
    refine ⟨writesUseless (sound.follows present) trivial, fun found writes => ?_⟩
    rcases putKeeps found with ⟨_, rfl⟩ | ⟨different, before⟩
    · exact writes
    · exact different (sound.alone before writes present trivial)
  | crash id =>
    obtain ⟨phase, present, writes⟩ : ∃ phase, s.calls id = some phase ∧ phase.Writes := by
      simpa only [Completing, not_forall, exists_prop, not_not] using stopped
    rw [stepCrash steps]
    refine ⟨writesUseless (sound.follows present) writes, fun found writes' => ?_⟩
    obtain ⟨different, there⟩ := dropKeeps found
    exact different (sound.alone there writes' present writes)

/-- The file is not there, it holds a token, or it is being written. -/
def Usable (s : State) : Prop :=
  s.file = none ∨ (∃ token, Accepted s.file token) ∨ ∃ id phase, s.calls id = some phase ∧ phase.Writes

theorem usableStep (sound : Sound s) (usable : Usable s) (completing : Completing s label)
    (steps : step s label = some s') : Usable s' := by
  have sound' := soundSteps sound (stepSteps steps)
  cases label with
  | begin id call =>
    obtain ⟨free, rfl⟩ := stepBegin steps
    rcases usable with absent | accepted | ⟨writer, phase, present, writes⟩
    · exact .inl absent
    · exact .inr (.inl accepted)
    · have different : writer ≠ id := fun same => by cases free.symm.trans (same ▸ present)
      exact .inr (.inr ⟨writer, phase, (putElsewhere different).trans present, writes⟩)
  | act id answer =>
    obtain ⟨phase, file', phase', present, next, rfl⟩ := stepAct steps
    by_cases writes : phase.Writes
    · have goes : ∀ token left, phase = .writeAll token left → ¬ answer.StopsWrite := fun token left same =>
        completing token left (same ▸ present)
      rcases writesDone next writes goes with writes' | ⟨token, rfl⟩
      · exact .inr (.inr ⟨id, phase', putHere, writes'⟩)
      · exact .inr (.inl ⟨token, sound'.follows putHere⟩)
    · rcases turnsFile (advanceTurns next) writes with rfl | ⟨_, writes'⟩
      · rcases usable with absent | accepted | ⟨writer, phase₁, present₁, writes₁⟩
        · exact .inl absent
        · exact .inr (.inl accepted)
        · have different : writer ≠ id := fun same => by
            cases Option.some.inj (present.symm.trans (same ▸ present₁))
            exact writes writes₁
          exact .inr (.inr ⟨writer, phase₁, (putElsewhere different).trans present₁, writes₁⟩)
      · exact .inr (.inr ⟨id, phase', putHere, writes'⟩)
  | crash id =>
    rw [stepCrash steps]
    rcases usable with absent | accepted | ⟨writer, phase, present, writes⟩
    · exact .inl absent
    · exact .inr (.inl accepted)
    · have different : writer ≠ id := fun same => completing phase (same ▸ present) writes
      exact .inr (.inr ⟨writer, phase, (dropElsewhere different).trans present, writes⟩)

/-! What a call on its own gets to. -/

def Leads (s : State) (id : CallId) (file : Option Bytes) (phase : Phase) : Prop :=
  ∃ s', Reach step Completing s s' ∧ s'.file = file ∧ s'.calls id = some phase ∧
    ∀ other, other ≠ id → s'.calls other = s.calls other

theorem leadsAct (leads : Leads s id file phase) (answer : Answer) (next : advance file phase answer = some (file', phase'))
    (goes : ∀ token left, phase = .writeAll token left → ¬ answer.StopsWrite) : Leads s id file' phase' := by
  obtain ⟨t, reached, rfl, present, others⟩ := leads
  have steps : step t (.act id answer) = some (t.put id file' phase') := by simp [step, present, next]
  have completing : Completing t (.act id answer) := fun token left writes =>
    goes token left (Option.some.inj (present.symm.trans writes))
  exact ⟨_, .step _ reached completing steps, rfl, putHere,
    fun other different => (putElsewhere different).trans (others other different)⟩

theorem leadsBegin (free : s.calls id = none) (call : Call) : Leads s id s.file call.start := by
  have steps : step s (.begin id call) = some (s.put id s.file call.start) := by simp [step, free]
  have completing : Completing s (.begin id call) := trivial
  exact ⟨_, .step _ .start completing steps, rfl, putHere, fun other different => putElsewhere different⟩

theorem leadsPrepared {left : List DirectoryCall} (leads : Leads s id file (preparing left)) :
    Leads s id file .openNewPrivate := by
  induction left with
  | nil => exact leads
  | cons call left ih =>
    have asked : Leads s id file (.prepare call left) := leads
    refine ih ?_
    cases call with
    | createDirAll directory => exact leadsAct asked .done rfl (by simp)
    | symlinkMetadata directory => exact leadsAct asked (.kind .directory) rfl (by simp)
    | restrictDirectory directory => exact leadsAct asked .done rfl (by simp)

theorem leadsWritten {written left : Bytes} (leads : Leads s id (some written) (writing token left)) :
    Leads s id (some (written ++ left)) (.syncAll token) := by
  rw [writing] at leads
  split at leads
  · rename_i nothing
    rwa [nothing, List.append_nil]
  · rename_i something
    have next : advance (some written) (.writeAll token left) (.moved left.length) =
        some (some (written ++ left), .syncAll token) := by
      simp [advance, something, writing]
    refine leadsAct leads _ next fun _ _ _ => ?_
    exact fun none' => something (List.length_eq_zero_iff.mp none')

theorem leadsDrawn (leads : Leads s id (some []) .fillBytes) :
    ∃ file token, Accepted file token ∧ Leads s id file (.syncAll token) := by
  obtain ⟨random⟩ : Nonempty (Fixed tokenBytes) := ⟨⟨List.replicate tokenBytes 0, List.length_replicate⟩⟩
  have drew : Leads s id (some []) (writing ⟨hexEncode random.1⟩ (bytes (hexEncode random.1))) :=
    leadsAct leads (.drawn random) rfl (by simp)
  have drawn : Drawn ⟨hexEncode random.1⟩ := ⟨random, rfl⟩
  exact ⟨_, _, ⟨_, rfl, parseDrawn drawn⟩, leadsWritten drew⟩

theorem leadsRead (accepted : Accepted file token) (leads : Leads s id file .openNewPrivate) :
    Leads s id file (.returned (.ok token)) := by
  obtain ⟨content, rfl, parsed⟩ := accepted
  have long : content.length ≠ 0 := by
    have length := parseLength parsed
    rw [tokenBytes] at length
    omega
  have taken : Leads s id (some content) .openRead :=
    leadsAct leads (.failed ⟨.alreadyExists, "File exists (os error 17)"⟩) rfl (by simp)
  have opened : Leads s id (some content) (.readToString []) := leadsAct taken .done rfl (by simp)
  have whole : Leads s id (some content) (.readToString content) :=
    leadsAct opened (.moved content.length) (by simp [advance, long]) (by simp)
  have checked : Leads s id (some content) (.restrictFile token) :=
    leadsAct whole (.moved 0) (by simp [advance, ended, parsed]) (by simp)
  exact leadsAct checked .done rfl (by simp)

theorem usableSettles (sound : Sound s) (usable : Usable s) :
    ∃ s', Reach step Completing s s' ∧ (s'.file = none ∨ ∃ token, Accepted s'.file token) ∧
      ∀ id, s.calls id = none → s'.calls id = none := by
  rcases usable with absent | accepted | ⟨writer, phase, present, writes⟩
  · exact ⟨s, .start, .inl absent, fun _ free => free⟩
  · exact ⟨s, .start, .inr accepted, fun _ free => free⟩
  · have leads : Leads s writer s.file phase := ⟨s, .start, rfl, present, fun _ _ => rfl⟩
    have follows := sound.follows present
    obtain ⟨file, token, accepted, s', reached, same, _, others⟩ :
        ∃ file token, Accepted file token ∧ Leads s writer file (.syncAll token) := by
      cases phase with
      | fillBytes =>
        rw [show s.file = some [] from follows] at leads
        exact leadsDrawn leads
      | writeAll token left =>
        obtain ⟨drawn, more, written, there, whole⟩ := follows
        have writes : writing token left = .writeAll token left := if_neg more
        rw [there, ← writes] at leads
        exact ⟨_, _, ⟨_, rfl, whole ▸ parseDrawn drawn⟩, leadsWritten leads⟩
      | prepare _ _ | openNewPrivate | syncAll _ | openRead | readToString _ | restrictFile _ | returned _ =>
        exact writes.elim
    refine ⟨s', reached, .inr ⟨token, same ▸ accepted⟩, fun id free => ?_⟩
    have different : id ≠ writer := fun here => by cases free.symm.trans (here ▸ present)
    exact (others id different).trans free

theorem usableServes (sound : Sound s) (usable : Usable s) (free : s.calls id = none) :
    ∃ s' token, Reach step Completing s s' ∧ s'.Returned id token := by
  obtain ⟨t, reached, settled, frees⟩ := usableSettles sound usable
  have begun : Leads t id t.file (preparing prepare) := leadsBegin (frees id free) .loadOrCreateToken
  have prepared := leadsPrepared begun
  obtain ⟨token, file, s', reached', _, returned, _⟩ : ∃ token file, Leads t id file (.returned (.ok token)) := by
    rcases settled with absent | ⟨token, accepted⟩
    · rw [absent] at prepared
      have created : Leads t id (some []) .fillBytes := leadsAct prepared .done rfl (by simp)
      obtain ⟨file, token, _, stored⟩ := leadsDrawn created
      exact ⟨token, file, leadsAct stored .done rfl (by simp)⟩
    · exact ⟨token, _, leadsRead accepted prepared⟩
  exact ⟨s', token, reachTrans reached reached', returned⟩

theorem reachUsable (usable : Usable (first file)) (reached : Reach step Completing (first file) s) : Sound s ∧ Usable s := by
  induction reached with
  | start => exact ⟨soundFirst, usable⟩
  | step label before completing steps ih =>
    exact ⟨soundSteps ih.1 (stepSteps steps), usableStep ih.1 ih.2 completing steps⟩

theorem returnedSame {id' : CallId} {token' : SecretToken} (sound : Sound s) (one : s.Returned id token)
    (other : s.Returned id' token') : token = token' := by
  obtain ⟨content, there, parsed⟩ := sound.follows one
  obtain ⟨content', there', parsed'⟩ := sound.follows other
  cases Option.some.inj (there.symm.trans there')
  exact Except.ok.inj (parsed.symm.trans parsed')

/-- The calls agree in every run. A new call can always be served while every creation comes to
its last byte; once one does not, or the file was no token at first, none is served ever again. -/
theorem tokensAgree (file : Option Bytes) :
    (∀ {s : State} {id id' token token'}, Reach step Any (first file) s → s.Returned id token →
      s.Returned id' token' → token = token') ∧
    ((∀ content, file = some content → ∃ token, parseToken content = .ok token) →
      ∀ {s : State} {id}, Reach step Completing (first file) s → s.calls id = none →
        ∃ s' token, Reach step Completing s s' ∧ s'.Returned id token) ∧
    (∀ {s s' s'' : State} {label id token}, Reach step Any (first file) s → ¬ Completing s label →
      step s label = some s' → Reach step Any s' s'' → ¬ s''.Returned id token) ∧
    ∀ {content}, file = some content → (∀ token, parseToken content ≠ .ok token) →
      ∀ {s : State} {id token}, Reach step Any (first file) s → ¬ s.Returned id token := by
  refine ⟨fun reached => returnedSame (reachSound reached soundFirst), fun holds {s id} reached free => ?_,
    fun {s s' s'' label id token} reached stopped steps later => ?_, fun {content} there useless {s id token} reached => ?_⟩
  · have usable : Usable (first file) := by
      cases file with
      | none => exact .inl rfl
      | some content =>
        obtain ⟨token, parsed⟩ := holds content rfl
        exact .inr (.inl ⟨token, content, rfl, parsed⟩)
    obtain ⟨sound, usable'⟩ := reachUsable usable reached
    exact usableServes sound usable' free
  · have sound := reachSound reached soundFirst
    exact wedgedForever (soundSteps sound (stepSteps steps)) (stoppedWedged sound stopped steps) later
  · exact wedgedForever soundFirst ⟨⟨content, there, useless⟩, fun present => by cases present⟩ reached

def creation : List Label :=
  [.begin 0 .loadOrCreateToken, .act 0 .done, .act 0 (.kind .directory), .act 0 .done, .act 0 .done,
    .act 0 (.kind .directory), .act 0 .done, .act 0 .done]

/-- The call is cut off there. Nobody gets a token again, and the file is invalid to the next call. -/
theorem creationCutOff : ∃ s s' s'', run step Any (first none) creation = some s ∧ step s (.crash 0) = some s' ∧
    (∀ {t : State} {id token}, Reach step Any s' t → ¬ t.Returned id token) ∧
    run step Any s' [.begin 1 .loadToken, .act 1 .done, .act 1 (.moved 0)] = some s'' ∧
    s''.calls 1 = some (.returned (.error .invalidTokenFile)) := by
  have runs : ∃ s s' s'', run step Any (first none) creation = some s ∧ s.calls 0 = some .fillBytes ∧
      step s (.crash 0) = some s' ∧
      run step Any s' [.begin 1 .loadToken, .act 1 .done, .act 1 (.moved 0)] = some s'' ∧
      s''.calls 1 = some (.returned (.error .invalidTokenFile)) :=
    ⟨_, _, _, rfl, rfl, rfl, rfl, by decide +kernel⟩
  obtain ⟨s, s', s'', ran, present, crashed, later, answered⟩ := runs
  have sound : Sound s := reachSound (reachRun .start ran) soundFirst
  have stopped : ¬ Completing s (.crash 0) := fun completing => completing _ present trivial
  have wedged := stoppedWedged sound stopped crashed
  exact ⟨s, s', s'', ran, crashed, wedgedForever (soundSteps sound (stepSteps crashed)) wedged, later, answered⟩

end Maestro.TokenFile
