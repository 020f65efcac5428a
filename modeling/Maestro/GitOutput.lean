import Maestro.SegmentStore
import Maestro.Splitting

/-! What Git prints for machines: the status and the list of worktrees, strings that each end
with a NUL. -/
namespace Maestro.GitOutput
open Redaction Splitting
open SegmentStore (toStringLossy)

inductive ProjectError where | malformedGitOutput
  deriving DecidableEq, Repr

abbrev Parsed := Except ProjectError

structure GitPath where
  bytes : Bytes
  display : String
  deriving DecidableEq, Repr

def GitPath.fromBytes (bytes : Bytes) : GitPath := ⟨bytes, toStringLossy bytes⟩

inductive GitStatusKind where | ordinary | renamedOrCopied | unmerged | untracked | ignored
  deriving DecidableEq, Repr

structure GitStatusEntry where
  path : GitPath
  originalPath : Option GitPath
  indexStatus : Char
  worktreeStatus : Char
  kind : GitStatusKind
  deriving DecidableEq, Repr

structure GitStatus where
  entries : List GitStatusEntry
  deriving DecidableEq, Repr

def space : UInt8 := 0x20

def charFrom (byte : UInt8) : Char := .ofNat byte.toNat

def statusEntry (status path : Bytes) (originalPath : Option GitPath) (kind : GitStatusKind) : Parsed GitStatusEntry :=
  match status with
  | [index, worktree] =>
    if path = [] then .error .malformedGitOutput
    else .ok ⟨.fromBytes path, originalPath, charFrom index, charFrom worktree, kind⟩
  | _ => .error .malformedGitOutput

/-- A record of `count` fields, of which the last one is the path. -/
def parseTracked (count : Nat) (kind : GitStatusKind) (record : Bytes) (original : Option GitPath) :
    Parsed GitStatusEntry :=
  let fields := splitn space count record
  if fields.length ≠ count then .error .malformedGitOutput
  else statusEntry (fields.getD 1 []) (fields.getD (count - 1) []) original kind

def parseOrdinary (record : Bytes) : Parsed GitStatusEntry := parseTracked 9 .ordinary record none

def parseRename (record original : Bytes) : Parsed GitStatusEntry :=
  if original = [] then .error .malformedGitOutput
  else parseTracked 10 .renamedOrCopied record (some (.fromBytes original))

def parseUnmerged (record : Bytes) : Parsed GitStatusEntry := parseTracked 11 .unmerged record none

def parseSimple (record : Bytes) (kind : GitStatusKind) (status : Char) : Parsed GitStatusEntry :=
  if record.drop 2 = [] then .error .malformedGitOutput
  else .ok ⟨.fromBytes (record.drop 2), none, status, status, kind⟩

def parseRecords : List Bytes → Parsed (List GitStatusEntry)
  | [] => .ok []
  | record :: rest =>
    if record = [] ∨ ascii "# " <+: record then parseRecords rest
    else match record.head? with
      | some 0x31 => do return (← parseOrdinary record) :: (← parseRecords rest)
      | some 0x32 =>
        match rest with
        | [] => .error .malformedGitOutput
        | original :: rest => do return (← parseRename record original) :: (← parseRecords rest)
      | some 0x75 => do return (← parseUnmerged record) :: (← parseRecords rest)
      | some 0x3F => do return (← parseSimple record .untracked '?') :: (← parseRecords rest)
      | some 0x21 => do return (← parseSimple record .ignored '!') :: (← parseRecords rest)
      | _ => .error .malformedGitOutput

def parseStatus (bytes : Bytes) : Parsed GitStatus := (parseRecords (bytes.splitOn 0)).map .mk

structure Field where
  bytes : Bytes
  spaceless : space ∉ bytes
  nulless : 0 ∉ bytes

structure Name where
  bytes : Bytes
  nonempty : bytes ≠ []
  nulless : 0 ∉ bytes

structure Code where
  index : UInt8
  worktree : UInt8
  spaceless : space ∉ [index, worktree]
  nulless : 0 ∉ [index, worktree]

def Code.field (code : Code) : Field := ⟨[code.index, code.worktree], code.spaceless, code.nulless⟩

/-- `about` are the fields between the letters and the path: the state of a submodule, modes,
object names and a score. -/
inductive Item where
  | ordinary (code : Code) (about : Fin 6 → Field) (path : Name)
  | renamedOrCopied (code : Code) (about : Fin 7 → Field) (path original : Name)
  | unmerged (code : Code) (about : Fin 8 → Field) (path : Name)
  | untracked (path : Name)
  | ignored (path : Name)

inductive Record where
  | header (text : Bytes) (nulless : 0 ∉ text)
  | entry (item : Item)

def fieldsOf (letter : UInt8) (code : Code) {n : Nat} (about : Fin n → Field) : List Bytes :=
  [letter] :: code.field.bytes :: (List.ofFn about).map (·.bytes)

namespace Item

def lead : Item → Bytes
  | .ordinary code about _ => joined space (fieldsOf 0x31 code about)
  | .renamedOrCopied code about path _ => joined space (fieldsOf 0x32 code about) ++ path.bytes ++ [0]
  | .unmerged code about _ => joined space (fieldsOf 0x75 code about)
  | .untracked _ => ascii "? "
  | .ignored _ => ascii "! "

def last : Item → Name
  | .ordinary _ _ path | .unmerged _ _ path | .untracked path | .ignored path => path
  | .renamedOrCopied _ _ _ original => original

/-- The entry, with `last` as its last path. -/
def entry (last : Bytes) : Item → GitStatusEntry
  | .ordinary code _ _ => ⟨.fromBytes last, none, charFrom code.index, charFrom code.worktree, .ordinary⟩
  | .renamedOrCopied code _ path _ =>
    ⟨.fromBytes path.bytes, some (.fromBytes last), charFrom code.index, charFrom code.worktree, .renamedOrCopied⟩
  | .unmerged code _ _ => ⟨.fromBytes last, none, charFrom code.index, charFrom code.worktree, .unmerged⟩
  | .untracked _ => ⟨.fromBytes last, none, '?', '?', .untracked⟩
  | .ignored _ => ⟨.fromBytes last, none, '!', '!', .ignored⟩

end Item

namespace Record

def bytes : Record → Bytes
  | .header text _ => ascii "# " ++ text ++ [0]
  | .entry item => item.lead ++ item.last.bytes ++ [0]

def entries : Record → List GitStatusEntry
  | .header _ _ => []
  | .entry item => [item.entry item.last.bytes]

/-- What its first `n` bytes give, at the end of the output. -/
def cut (n : Nat) : Record → Parsed (List GitStatusEntry)
  | .header _ _ => if n = 1 then .error .malformedGitOutput else .ok []
  | .entry item =>
    if n = 0 then .ok []
    else if n ≤ item.lead.length then .error .malformedGitOutput
    else .ok [item.entry (item.last.bytes.take (n - item.lead.length))]

end Record

def render (records : List Record) : Bytes := records.flatMap Record.bytes

section Tracked
variable {n : Nat} {letter : UInt8} {code : Code} {about : Fin n → Field} {kind : GitStatusKind}
  {original : Option GitPath} {path cut : Bytes}

theorem fieldsLength : (fieldsOf letter code about).length = n + 2 := by
  simp [fieldsOf]

theorem fieldsSpaceless (apart : letter ≠ space) : ∀ field ∈ fieldsOf letter code about, space ∉ field := by
  intro field member
  simp only [fieldsOf, List.mem_cons, List.mem_map] at member
  rcases member with rfl | rfl | ⟨other, _, rfl⟩
  · exact fun inside => apart (List.mem_singleton.mp inside).symm
  · exact code.field.spaceless
  · exact other.spaceless

theorem fieldsNulless (apart : letter ≠ 0) : 0 ∉ joined space (fieldsOf letter code about) := by
  have fields : ∀ field ∈ fieldsOf letter code about, 0 ∉ field := by
    intro field member
    simp only [fieldsOf, List.mem_cons, List.mem_map] at member
    rcases member with rfl | rfl | ⟨other, _, rfl⟩
    · exact fun inside => apart (List.mem_singleton.mp inside).symm
    · exact code.field.nulless
    · exact other.nulless
  intro inside
  obtain ⟨field, member, within⟩ := List.mem_flatMap.mp inside
  rcases List.mem_append.mp within with here | there
  · exact fields field member here
  · exact absurd (List.mem_singleton.mp there) (by decide)

theorem fieldsLed : ∃ rest, joined space (fieldsOf letter code about) = letter :: rest :=
  ⟨_, by rw [fieldsOf, joinedCons, List.singleton_append]⟩

theorem parseTrackedWhole (apart : letter ≠ space) :
    parseTracked (n + 3) kind (joined space (fieldsOf letter code about) ++ path) original =
      if path = [] then .error .malformedGitOutput
      else .ok ⟨.fromBytes path, original, charFrom code.index, charFrom code.worktree, kind⟩ := by
  have split : splitn space (n + 3) (joined space (fieldsOf letter code about) ++ path) =
      fieldsOf letter code about ++ [path] := by
    have whole : splitn space ((fieldsOf letter code about).length + 1) _ = fieldsOf letter code about ++ [path] :=
      splitnJoined (fieldsSpaceless apart)
    rwa [fieldsLength] at whole
  have last : (fieldsOf letter code about ++ [path]).getD (n + 3 - 1) [] = path := by
    have here : n + 3 - 1 = (fieldsOf letter code about).length := fieldsLength.symm
    simp [here]
  rw [parseTracked, split, if_neg (by simp [fieldsLength]), last]
  rfl

theorem parseTrackedCut (apart : letter ≠ space) (front : cut <+: joined space (fieldsOf letter code about)) :
    parseTracked (n + 3) kind cut original = .error .malformedGitOutput := by
  by_cases whole : cut = joined space (fieldsOf letter code about)
  · have empty : parseTracked (n + 3) kind (joined space (fieldsOf letter code about) ++ []) original = _ :=
      parseTrackedWhole apart
    rwa [List.append_nil, ← whole, if_pos rfl] at empty
  · have short : (splitn space (n + 3) cut).length ≤ n + 2 := by
      have less := splitnCut (fieldsSpaceless apart) front whole
      rwa [fieldsLength] at less
    rw [parseTracked, if_pos (by omega)]

end Tracked

namespace Item

/-- The strings of an item, with `last` as its last path. -/
def strings (last : Bytes) : Item → List Bytes
  | .ordinary code about _ => [joined space (fieldsOf 0x31 code about) ++ last]
  | .renamedOrCopied code about path _ => [joined space (fieldsOf 0x32 code about) ++ path.bytes, last]
  | .unmerged code about _ => [joined space (fieldsOf 0x75 code about) ++ last]
  | .untracked _ => [ascii "? " ++ last]
  | .ignored _ => [ascii "! " ++ last]

variable {item : Item} {last cut : Bytes} {rest : List Bytes}

theorem splitStrings (nulless : 0 ∉ last) : (item.lead ++ last).splitOn 0 = item.strings last := by
  have one : ∀ {front : Bytes}, 0 ∉ front → (front ++ last).splitOn 0 = [front ++ last] := fun free =>
    List.splitOn_eq_singleton fun inside => (List.mem_append.mp inside).elim free nulless
  cases item with
  | ordinary code about path => exact one (fieldsNulless (by decide))
  | renamedOrCopied code about path original =>
    have free : (0 : UInt8) ∉ joined space (fieldsOf 0x32 code about) ++ path.bytes := fun inside =>
      (List.mem_append.mp inside).elim (fieldsNulless (by decide)) path.nulless
    rw [lead, List.append_assoc, List.singleton_append, List.splitOn_append_cons_self_of_not_mem free,
      List.splitOn_eq_singleton nulless]
    rfl
  | unmerged code about path => exact one (fieldsNulless (by decide))
  | untracked path => exact one (show (0 : UInt8) ∉ ascii "? " by decide)
  | ignored path => exact one (show (0 : UInt8) ∉ ascii "! " by decide)

theorem notSkipped {letter : UInt8} {more : Bytes} (apart : letter ≠ 0x23) :
    ¬(letter :: more = [] ∨ ascii "# " <+: letter :: more) := by
  rintro (empty | ⟨after, same⟩)
  · cases empty
  · exact apart (List.cons.inj same).1.symm

theorem pushed {parsed : Parsed GitStatusEntry} {shown : GitStatusEntry} (read : parsed = .ok shown) :
    (do return (← parsed) :: (← parseRecords rest)) = (parseRecords rest).map (shown :: ·) := by
  rw [read]
  cases parseRecords rest <;> rfl

theorem parseStrings (nonempty : last ≠ []) :
    parseRecords (item.strings last ++ rest) = (parseRecords rest).map (item.entry last :: ·) := by
  cases item with
  | ordinary code about path =>
    have read : parseOrdinary (joined space (fieldsOf 0x31 code about) ++ last) = .ok _ :=
      (parseTrackedWhole (by decide)).trans (if_neg nonempty)
    obtain ⟨more, led⟩ : ∃ more, joined space (fieldsOf 0x31 code about) = 0x31 :: more := fieldsLed
    rw [led] at read
    rw [strings, List.singleton_append, led, List.cons_append, parseRecords.eq_def]
    exact (if_neg (notSkipped (by decide))).trans (pushed read)
  | renamedOrCopied code about path original =>
    have read : parseRename (joined space (fieldsOf 0x32 code about) ++ path.bytes) last = .ok _ :=
      (if_neg nonempty).trans ((parseTrackedWhole (by decide)).trans (if_neg path.nonempty))
    obtain ⟨more, led⟩ : ∃ more, joined space (fieldsOf 0x32 code about) = 0x32 :: more := fieldsLed
    rw [led] at read
    rw [strings, List.cons_append, List.singleton_append, led, List.cons_append, parseRecords.eq_def]
    exact (if_neg (notSkipped (by decide))).trans (pushed read)
  | unmerged code about path =>
    have read : parseUnmerged (joined space (fieldsOf 0x75 code about) ++ last) = .ok _ :=
      (parseTrackedWhole (by decide)).trans (if_neg nonempty)
    obtain ⟨more, led⟩ : ∃ more, joined space (fieldsOf 0x75 code about) = 0x75 :: more := fieldsLed
    rw [led] at read
    rw [strings, List.singleton_append, led, List.cons_append, parseRecords.eq_def]
    exact (if_neg (notSkipped (by decide))).trans (pushed read)
  | untracked path =>
    have read : parseSimple (0x3F :: 0x20 :: last) .untracked '?' = .ok _ := if_neg nonempty
    rw [parseRecords.eq_def]
    exact (if_neg (notSkipped (by decide))).trans (pushed read)
  | ignored path =>
    have read : parseSimple (0x21 :: 0x20 :: last) .ignored '!' = .ok _ := if_neg nonempty
    rw [parseRecords.eq_def]
    exact (if_neg (notSkipped (by decide))).trans (pushed read)

theorem refused {parsed : Parsed GitStatusEntry} {error : ProjectError} (read : parsed = .error error) :
    (do return (← parsed) :: (← parseRecords rest)) = .error error := by
  rw [read]
  rfl

theorem cutLed {letter : UInt8} {more : Bytes} (front : cut <+: letter :: more) (some' : cut ≠ []) :
    ∃ tail, cut = letter :: tail := by
  rcases List.prefix_cons_iff.mp front with empty | ⟨tail, led, _⟩
  · exact absurd empty some'
  · exact ⟨tail, led⟩

theorem parseLead (front : cut <+: item.lead) (some' : cut ≠ []) :
    parseRecords (cut.splitOn 0) = .error .malformedGitOutput := by
  have alone : ∀ {whole : Bytes}, 0 ∉ whole → cut <+: whole → cut.splitOn 0 = [cut] := fun free inside =>
    List.splitOn_eq_singleton fun member => free (inside.subset member)
  cases item with
  | ordinary code about path =>
    have read : parseOrdinary cut = .error _ := parseTrackedCut (by decide) front
    rw [alone (fieldsNulless (by decide)) front]
    obtain ⟨more, led⟩ : ∃ more, joined space (fieldsOf 0x31 code about) = 0x31 :: more := fieldsLed
    rw [lead, led] at front
    obtain ⟨tail, rfl⟩ := cutLed front some'
    rw [parseRecords.eq_def]
    exact (if_neg (notSkipped (by decide))).trans (refused read)
  | renamedOrCopied code about path original =>
    have free : (0 : UInt8) ∉ joined space (fieldsOf 0x32 code about) ++ path.bytes := fun inside =>
      (List.mem_append.mp inside).elim (fieldsNulless (by decide)) path.nulless
    obtain ⟨more, led⟩ : ∃ more, joined space (fieldsOf 0x32 code about) = 0x32 :: more := fieldsLed
    rcases List.prefix_concat_iff.mp front with whole | inside
    · have parts : cut.splitOn 0 = [joined space (fieldsOf 0x32 code about) ++ path.bytes, []] := by
        rw [whole, List.splitOn_append_cons_self_of_not_mem free]
        rfl
      rw [parts, led, List.cons_append, parseRecords.eq_def]
      exact (if_neg (notSkipped (by decide))).trans (refused (if_pos rfl))
    · rw [alone free inside]
      rw [led, List.cons_append] at inside
      obtain ⟨tail, rfl⟩ := cutLed inside some'
      rw [parseRecords.eq_def]
      exact if_neg (notSkipped (by decide))
  | unmerged code about path =>
    have read : parseUnmerged cut = .error _ := parseTrackedCut (by decide) front
    rw [alone (fieldsNulless (by decide)) front]
    obtain ⟨more, led⟩ : ∃ more, joined space (fieldsOf 0x75 code about) = 0x75 :: more := fieldsLed
    rw [lead, led] at front
    obtain ⟨tail, rfl⟩ := cutLed front some'
    rw [parseRecords.eq_def]
    exact (if_neg (notSkipped (by decide))).trans (refused read)
  | untracked path =>
    have short : cut.length ≤ 2 := front.length_le
    have read : parseSimple cut .untracked '?' = .error _ := if_pos (List.drop_eq_nil_of_le short)
    rw [alone (show (0 : UInt8) ∉ ascii "? " by decide) front]
    obtain ⟨tail, rfl⟩ := cutLed front some'
    rw [parseRecords.eq_def]
    exact (if_neg (notSkipped (by decide))).trans (refused read)
  | ignored path =>
    have short : cut.length ≤ 2 := front.length_le
    have read : parseSimple cut .ignored '!' = .error _ := if_pos (List.drop_eq_nil_of_le short)
    rw [alone (show (0 : UInt8) ∉ ascii "! " by decide) front]
    obtain ⟨tail, rfl⟩ := cutLed front some'
    rw [parseRecords.eq_def]
    exact (if_neg (notSkipped (by decide))).trans (refused read)

end Item

namespace Record

theorem parseHeader {text : Bytes} {rest : List Bytes} : parseRecords ((ascii "# " ++ text) :: rest) = parseRecords rest := by
  rw [parseRecords.eq_def]
  exact if_pos (.inr (List.prefix_append _ _))

theorem parseBytes (record : Record) (rest : Bytes) :
    parseRecords ((record.bytes ++ rest).splitOn 0) = (parseRecords (rest.splitOn 0)).map (record.entries ++ ·) := by
  cases record with
  | header text nulless =>
    have free : (0 : UInt8) ∉ ascii "# " ++ text := fun inside =>
      (List.mem_append.mp inside).elim (by decide) nulless
    rw [bytes, List.append_assoc, List.singleton_append, List.splitOn_append_cons_self_of_not_mem free, parseHeader]
    cases parseRecords (rest.splitOn 0) <;> rfl
  | entry item =>
    rw [bytes, List.append_assoc, List.singleton_append, List.splitOn_append_cons_self,
      Item.splitStrings item.last.nulless, Item.parseStrings item.last.nonempty]
    rfl

theorem parseWhole (record : Record) : parseRecords (record.bytes.splitOn 0) = .ok record.entries := by
  have whole := record.parseBytes []
  rw [List.append_nil] at whole
  exact whole.trans (congrArg Except.ok (List.append_nil _))

theorem parseCut (record : Record) (n : Nat) :
    parseRecords ((record.bytes.take n).splitOn 0) = record.cut n := by
  rcases Nat.lt_or_ge n record.bytes.length with inside | whole
  · cases record with
    | header text nulless =>
      simp only [bytes, List.length_append, List.length_singleton] at inside
      simp only [cut, bytes]
      rw [List.take_append_of_le_length (by rw [List.length_append]; omega)]
      rcases n with _ | _ | n
      · rfl
      · rfl
      · have free : (0 : UInt8) ∉ ascii "# " ++ text.take n := fun member =>
          (List.mem_append.mp member).elim (by decide) fun member => nulless (List.mem_of_mem_take member)
        have front : (ascii "# " ++ text).take (n + 2) = ascii "# " ++ text.take n := rfl
        rw [front, List.splitOn_eq_singleton free, parseHeader, if_neg (by omega)]
        rfl
    | entry item =>
      simp only [bytes, List.length_append, List.length_singleton] at inside
      simp only [cut, bytes]
      rw [List.take_append_of_le_length (by rw [List.length_append]; omega), List.take_append]
      split
      · rename_i none'
        subst none'
        rw [Nat.zero_sub, List.take_zero, List.take_zero]
        rfl
      · rename_i some'
        split
        · rename_i short
          rw [Nat.sub_eq_zero_of_le short, List.take_zero, List.append_nil]
          refine Item.parseLead (List.take_prefix _ _) fun empty => ?_
          have length := congrArg List.length empty
          rw [List.length_take, List.length_nil] at length
          omega
        · rename_i long
          have nonempty : item.last.bytes.take (n - item.lead.length) ≠ [] := fun empty => by
            have length := congrArg List.length empty
            have some := List.length_pos_iff.mpr item.last.nonempty
            rw [List.length_take, List.length_nil] at length
            omega
          rw [List.take_of_length_le (by omega : item.lead.length ≤ n),
            Item.splitStrings fun member => item.last.nulless (List.mem_of_mem_take member)]
          have parsed : parseRecords (item.strings _ ++ []) = _ := Item.parseStrings nonempty
          rwa [List.append_nil] at parsed
  · rw [List.take_of_length_le whole, parseWhole]
    cases record with
    | header text nulless =>
      simp only [bytes, List.length_append, List.length_singleton] at whole
      have two : (ascii "# ").length = 2 := rfl
      exact (if_neg (by omega)).symm
    | entry item =>
      simp only [bytes, List.length_append, List.length_singleton] at whole
      simp only [cut, entries]
      rw [if_neg (by omega), if_neg (by omega), List.take_of_length_le (by omega)]

end Record

theorem parseRendered (records : List Record) (rest : Bytes) :
    parseRecords ((render records ++ rest).splitOn 0) =
      (parseRecords (rest.splitOn 0)).map (records.flatMap Record.entries ++ ·) := by
  induction records with
  | nil => cases same : parseRecords (rest.splitOn 0) <;> simp [render, same, Except.map]
  | cons record records ih =>
    rw [render, List.flatMap_cons, List.append_assoc, record.parseBytes]
    rw [render] at ih
    rw [ih, List.flatMap_cons]
    cases parseRecords (rest.splitOn 0) <;> simp [Except.map]

/-- Every list of records is read back, and behind them what the first bytes of one more record give. -/
theorem statusRead (records : List Record) :
    parseStatus (render records) = .ok ⟨records.flatMap Record.entries⟩ ∧
      ∀ (record : Record) (n : Nat), parseStatus (render records ++ record.bytes.take n) =
        (record.cut n).map fun more => ⟨records.flatMap Record.entries ++ more⟩ := by
  constructor
  · have parsed := parseRendered records []
    rw [List.append_nil] at parsed
    rw [parseStatus, parsed]
    exact congrArg (fun list => Except.ok (GitStatus.mk list)) (List.append_nil _)
  · intro record n
    rw [parseStatus, parseRendered, record.parseCut]
    cases record.cut n <;> rfl

example : parseRecords [[]] = .ok [] := by
  rw [parseRecords.eq_def]
  rfl

/-- An untracked path that is cut in its middle. -/
theorem cutPathRead : ∃ (record : Record) (n : Nat), 0 < n ∧ n < record.bytes.length ∧
    parseStatus (record.bytes.take n) = .ok ⟨[⟨⟨ascii "a", "a"⟩, none, '?', '?', .untracked⟩]⟩ :=
  ⟨.entry (.untracked ⟨ascii "ab", by decide, by decide⟩), 3, by decide, by decide, by decide +kernel⟩

structure WorktreeInfo where
  path : Bytes
  head : Option String
  branch : Option String
  detached : Bool
  bare : Bool
  lockedReason : Option String
  prunableReason : Option String
  deriving DecidableEq, Repr

def nonemptyReason (reason : Bytes) : Option String :=
  let reason := (reason.dropPrefix? (ascii " ")).getD reason
  if reason = [] then none else some (toStringLossy reason)

def takeField (field : Bytes) (worktree : WorktreeInfo) : Parsed WorktreeInfo :=
  if let some head := field.dropPrefix? (ascii "HEAD ") then .ok { worktree with head := some (toStringLossy head) }
  else if let some branch := field.dropPrefix? (ascii "branch ") then
    .ok { worktree with branch := some (toStringLossy ((branch.dropPrefix? (ascii "refs/heads/")).getD branch)) }
  else if field = ascii "detached" then .ok { worktree with detached := true }
  else if field = ascii "bare" then .ok { worktree with bare := true }
  else if let some reason := field.dropPrefix? (ascii "locked") then
    .ok { worktree with lockedReason := nonemptyReason reason }
  else if let some reason := field.dropPrefix? (ascii "prunable") then
    .ok { worktree with prunableReason := nonemptyReason reason }
  else .error .malformedGitOutput

def parseFields : List Bytes → List WorktreeInfo → Option WorktreeInfo → Parsed (List WorktreeInfo)
  | [], worktrees, current =>
    let worktrees := worktrees ++ current.toList
    if worktrees = [] then .error .malformedGitOutput else .ok worktrees
  | field :: rest, worktrees, current =>
    if field = [] then parseFields rest (worktrees ++ current.toList) none
    else if let some path := field.dropPrefix? (ascii "worktree ") then
      parseFields rest (worktrees ++ current.toList) (some ⟨path, none, none, false, false, none, none⟩)
    else match current with
      | none => .error .malformedGitOutput
      | some worktree => do parseFields rest worktrees (some (← takeField field worktree))

def parseWorktrees (bytes : Bytes) : Parsed (List WorktreeInfo) := parseFields (bytes.splitOn 0) [] none

/-- What Git says of a worktree. A lock has a reason, which may be empty; so may the reason to prune. -/
structure Worktree where
  path : Bytes
  bare : Bool
  head : Option Bytes
  detached : Bool
  branch : Option Bytes
  locked : Option Bytes
  prunable : Option Bytes
  nulless : ∀ part ∈ path :: (head.toList ++ branch.toList ++ locked.toList ++ prunable.toList), 0 ∉ part

namespace Worktree

def labelled (label : String) : Option Bytes → List Bytes
  | none => []
  | some [] => [ascii label]
  | some reason => [ascii label ++ space :: reason]

def fields (w : Worktree) : List Bytes :=
  (ascii "worktree " ++ w.path) :: ((if w.bare then [ascii "bare"] else []) ++
    w.head.toList.map (ascii "HEAD " ++ ·) ++ (if w.detached then [ascii "detached"] else []) ++
    w.branch.toList.map (ascii "branch refs/heads/" ++ ·) ++ labelled "locked" w.locked ++ labelled "prunable" w.prunable)

def bytes (w : Worktree) : Bytes := joined 0 w.fields ++ [0]

end Worktree

def renderWorktrees (worktrees : List Worktree) : Bytes := worktrees.flatMap Worktree.bytes

/-- Nothing of what Git said is lost but the wording of the reasons. -/
structure Intact (w : Worktree) (info : WorktreeInfo) : Prop where
  path : info.path = w.path
  bare : info.bare = w.bare
  head : info.head.map bytes = w.head
  detached : info.detached = w.detached
  branch : info.branch.map bytes = w.branch
  locked : info.lockedReason.isSome = w.locked.isSome
  prunable : info.prunableReason.isSome = w.prunable.isSome

/-- The names are text, and where a worktree is locked or prunable Git says why. -/
structure Told (w : Worktree) : Prop where
  head : ∀ name ∈ w.head, Utf8 name
  branch : ∀ name ∈ w.branch, Utf8 name
  locked : w.locked ≠ some []
  prunable : w.prunable ≠ some []

def shownReason (reason : Bytes) : Option String := if reason = [] then none else some (toStringLossy reason)

def Worktree.info (w : Worktree) : WorktreeInfo :=
  ⟨w.path, w.head.map toStringLossy, w.branch.map toStringLossy, w.detached, w.bare, w.locked.bind shownReason,
    w.prunable.bind shownReason⟩

section Worktrees
variable {rest : List Bytes} {done : List WorktreeInfo} {info : WorktreeInfo}

theorem takesField {field : Bytes} {next : WorktreeInfo} (other : field.dropPrefix? (ascii "worktree ") = none)
    (some' : field ≠ []) (taken : takeField field info = .ok next) :
    parseFields (field :: rest) done (some info) = parseFields rest done (some next) := by
  rw [parseFields, if_neg some', other, taken]
  rfl

theorem takesBare {bare : Bool} :
    parseFields ((if bare then [ascii "bare"] else []) ++ rest) done (some info) =
      parseFields rest done (some { info with bare := bare || info.bare }) := by
  cases bare with
  | false => rfl
  | true => exact takesField rfl (by decide) rfl

theorem takesDetached {detached : Bool} :
    parseFields ((if detached then [ascii "detached"] else []) ++ rest) done (some info) =
      parseFields rest done (some { info with detached := detached || info.detached }) := by
  cases detached with
  | false => rfl
  | true => exact takesField rfl (by decide) rfl

theorem takesHead {head : Option Bytes} :
    parseFields (head.toList.map (ascii "HEAD " ++ ·) ++ rest) done (some info) =
      parseFields rest done (some { info with head := (head.map toStringLossy).or info.head }) := by
  match head with
  | none => rfl
  | some [] => exact takesField rfl (List.cons_ne_nil _ _) rfl
  | some (byte :: name) => exact takesField rfl (List.cons_ne_nil _ _) rfl

theorem takesBranch {branch : Option Bytes} :
    parseFields (branch.toList.map (ascii "branch refs/heads/" ++ ·) ++ rest) done (some info) =
      parseFields rest done (some { info with branch := (branch.map toStringLossy).or info.branch }) := by
  match branch with
  | none => rfl
  | some [] => exact takesField rfl (List.cons_ne_nil _ _) rfl
  | some (byte :: name) => exact takesField rfl (List.cons_ne_nil _ _) rfl

theorem takesLocked {reason : Option Bytes} :
    parseFields (Worktree.labelled "locked" reason ++ rest) done (some info) =
      parseFields rest done (some { info with lockedReason := reason.elim info.lockedReason shownReason }) := by
  match reason with
  | none => rfl
  | some [] => exact takesField rfl (by decide) rfl
  | some (byte :: reason) => exact takesField rfl (List.cons_ne_nil _ _) rfl

theorem takesPrunable {reason : Option Bytes} :
    parseFields (Worktree.labelled "prunable" reason ++ rest) done (some info) =
      parseFields rest done (some { info with prunableReason := reason.elim info.prunableReason shownReason }) := by
  match reason with
  | none => rfl
  | some [] => exact takesField rfl (by decide) rfl
  | some (byte :: reason) => exact takesField rfl (List.cons_ne_nil _ _) rfl

theorem parseWorktree (w : Worktree) :
    parseFields (w.fields ++ [] :: rest) done none = parseFields rest (done ++ [w.info]) none := by
  have elim : ∀ reason : Option Bytes, reason.elim none shownReason = reason.bind shownReason := fun reason => by
    cases reason <;> rfl
  have begun : ∀ path fields, parseFields ((ascii "worktree " ++ path) :: fields) done none =
      parseFields fields (done ++ []) (some ⟨path, none, none, false, false, none, none⟩) := fun path fields => by
    cases path <;> rfl
  rw [Worktree.fields, List.cons_append, begun, List.append_assoc, List.append_assoc, List.append_assoc, List.append_assoc,
    List.append_assoc, takesBare, takesHead, takesDetached, takesBranch, takesLocked, takesPrunable, parseFields,
    if_pos rfl]
  simp only [List.append_nil, Option.toList_some, Option.or_none, Bool.or_false, elim]
  rfl

theorem labelledNulless {label : String} (plain : 0 ∉ ascii label) {reason : Option Bytes}
    (nulless : ∀ part ∈ reason, 0 ∉ part) : ∀ field ∈ Worktree.labelled label reason, 0 ∉ field := by
  match reason with
  | none => exact fun _ member => absurd member List.not_mem_nil
  | some [] =>
    intro field member
    rw [List.mem_singleton.mp member]
    exact plain
  | some (byte :: reason) =>
    intro field member inside
    rw [List.mem_singleton.mp member] at inside
    rcases List.mem_append.mp inside with here | there
    · exact plain here
    · rcases List.mem_cons.mp there with blank | there
      · exact absurd blank (by decide)
      · exact nulless _ rfl there

theorem Worktree.fieldsNulless (w : Worktree) : ∀ field ∈ w.fields ++ [[]], 0 ∉ field := by
  have parts := w.nulless
  simp only [List.mem_cons, List.mem_append, Option.mem_toList, or_imp, forall_and, forall_eq] at parts
  obtain ⟨path, ⟨⟨head, branch⟩, locked⟩, prunable⟩ := parts
  have beside : ∀ {label part : Bytes}, 0 ∉ label → 0 ∉ part → 0 ∉ label ++ part := fun plain free inside =>
    (List.mem_append.mp inside).elim plain free
  intro field member
  simp only [Worktree.fields, List.mem_append, List.mem_cons, List.mem_map, Option.mem_toList, List.not_mem_nil,
    or_false] at member
  rcases member with (rfl | ((((bare | ⟨name, here, rfl⟩) | detached) | ⟨name, here, rfl⟩) | here) | here) | rfl
  · exact beside (by decide) path
  · split at bare
    · rw [List.mem_singleton.mp bare]
      decide
    · exact absurd bare List.not_mem_nil
  · exact beside (by decide) (head name here)
  · split at detached
    · rw [List.mem_singleton.mp detached]
      decide
    · exact absurd detached List.not_mem_nil
  · exact beside (by decide) (branch name here)
  · exact labelledNulless (by decide) locked field here
  · exact labelledNulless (by decide) prunable field here
  · exact List.not_mem_nil

theorem parseRenderedWorktrees (worktrees : List Worktree) :
    parseFields ((renderWorktrees worktrees).splitOn 0) done none =
      parseFields [[]] (done ++ worktrees.map Worktree.info) none := by
  induction worktrees generalizing done with
  | nil => simp [renderWorktrees]
  | cons w worktrees ih =>
    have bytes : renderWorktrees (w :: worktrees) = joined 0 (w.fields ++ [[]]) ++ renderWorktrees worktrees := by
      simp [renderWorktrees, Worktree.bytes, joinedAppend]
    rw [bytes, splitOnJoined w.fieldsNulless, List.append_assoc, List.singleton_append, parseWorktree, ih,
      List.append_assoc, List.map_cons, List.singleton_append]

theorem lossyBack {name : Bytes} : bytes (toStringLossy name) = name ↔ Utf8 name := by
  constructor
  · exact fun same => same ▸ bytesUtf8 _
  · intro valid
    obtain ⟨text, decoded, back⟩ := ofBytesSome valid
    rw [toStringLossy, decoded]
    exact back

theorem namesBack {name : Option Bytes} : (name.map toStringLossy).map bytes = name ↔ ∀ part ∈ name, Utf8 part := by
  cases name with
  | none => simp
  | some name => simp [lossyBack]

theorem reasonShown {reason : Option Bytes} : (reason.bind shownReason).isSome = reason.isSome ↔ reason ≠ some [] := by
  match reason with
  | none => simp
  | some [] => simp [shownReason]
  | some (byte :: reason) => simp [shownReason]

theorem intactTold (w : Worktree) : Intact w w.info ↔ Told w :=
  ⟨fun intact => ⟨namesBack.mp intact.head, namesBack.mp intact.branch, reasonShown.mp intact.locked,
    reasonShown.mp intact.prunable⟩,
    fun told => ⟨rfl, rfl, namesBack.mpr told.head, rfl, namesBack.mpr told.branch, reasonShown.mpr told.locked,
      reasonShown.mpr told.prunable⟩⟩

end Worktrees

/-- The worktrees are read back with all that Git said of them if and only if there are some, their
names are text and no lock or prune lacks its reason. -/
theorem worktreesRead (worktrees : List Worktree) :
    (∃ infos, parseWorktrees (renderWorktrees worktrees) = .ok infos ∧ List.Forall₂ Intact worktrees infos) ↔
      worktrees ≠ [] ∧ ∀ w ∈ worktrees, Told w := by
  have parsed : parseWorktrees (renderWorktrees worktrees) =
      if worktrees.map Worktree.info = [] then .error .malformedGitOutput else .ok (worktrees.map Worktree.info) := by
    rw [parseWorktrees, parseRenderedWorktrees]
    simp [parseFields]
  have each : List.Forall₂ Intact worktrees (worktrees.map Worktree.info) ↔ ∀ w ∈ worktrees, Told w := by
    rw [List.forall₂_map_right_iff, List.forall₂_same]
    exact forall₂_congr fun w _ => intactTold w
  rw [parsed]
  split
  · rename_i none'
    have empty := List.map_eq_nil_iff.mp none'
    simp [empty]
  · rename_i some'
    have some' : worktrees ≠ [] := fun empty => some' (by rw [empty]; rfl)
    constructor
    · rintro ⟨infos, same, intact⟩
      cases same
      exact ⟨some', each.mp intact⟩
    · exact fun ⟨_, told⟩ => ⟨_, rfl, each.mpr told⟩

/-- A worktree that is locked without a reason reads like one that is not locked. -/
theorem lockUnseen :
    let head := ascii "0123456789abcdef0123456789abcdef01234567"
    let plain : Worktree := ⟨ascii "/w", false, some head, false, some (ascii "main"), none, none, by decide⟩
    let locked : Worktree := ⟨ascii "/w", false, some head, false, some (ascii "main"), some [], none, by decide⟩
    parseWorktrees (renderWorktrees [locked]) = parseWorktrees (renderWorktrees [plain]) ∧
      ∃ infos, parseWorktrees (renderWorktrees [plain]) = .ok infos :=
  ⟨by decide +kernel,
    [⟨ascii "/w", some "0123456789abcdef0123456789abcdef01234567", some "main", false, false, none, none⟩],
    by decide +kernel⟩

end Maestro.GitOutput
