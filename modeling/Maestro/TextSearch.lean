import Mathlib.Data.List.DropRight
import Mathlib.Data.List.Infix
import Maestro.Directory
import Maestro.JsonRedaction
import Maestro.Paths

/-! `RepositorySearch::run`: the matches of a pattern in the lines of the files that the
walker yields, bounded in their number and in what is shown of each line. -/
namespace Maestro.TextSearch
open Redaction

inductive ProjectError where
  | unauthorizedPath
  | unsafePath
  | notDirectory
  | notRegularFile
  | binaryFile
  | invalidUtf8
  | fileTooLarge (actual maximum : Nat)
  | fileChangedDuringRead
  | invalidLimit
  | invalidRegex
  | io (operation : String) (kind : Files.IoError)
  deriving DecidableEq, Repr

def maximumSearchResults : Nat := 10000
def maximumPatternBytes : Nat := 4 * 1024
def maximumExcerptBytes : Nat := 4 * 1024
def maximumTextBytes : Nat := 64 * 1024 * 1024
def maximumCount : Nat := 18446744073709551615

inductive SearchMode where
  | literal
  | regex
  deriving DecidableEq, Repr

structure SearchOptions where
  pattern : String
  mode : SearchMode
  caseSensitive : Bool
  includeHidden : Bool
  maximumResults : Nat
  maximumFileBytes : Nat
  deriving DecidableEq, Repr

structure SearchMatch where
  path : Bytes
  line : Nat
  byteColumn : Nat
  byteLength : Nat
  excerpt : Bytes
  deriving DecidableEq, Repr

structure SearchSummary where
  scannedFiles : Nat := 0
  skippedFiles : Nat := 0
  matched : Nat := 0
  limitReached : Bool := false
  cancelled : Bool := false
  consumerStopped : Bool := false
  deriving DecidableEq, Repr

def saturatingAdd (count : Nat) : Nat := min (count + 1) maximumCount

def SearchSummary.skip (summary : SearchSummary) : SearchSummary :=
  { summary with skippedFiles := saturatingAdd summary.skippedFiles }

def SearchSummary.scan (summary : SearchSummary) : SearchSummary :=
  { summary with scannedFiles := saturatingAdd summary.scannedFiles }

/-- The start and the length of each match in a line. -/
abbrev Expression := Bytes → List (Nat × Nat)

/-- What `run` uses of the `regex` crate. -/
structure RegexCrate where
  escape : String → String
  build : String → Bool → Option Expression

/-- One result of the walker. `opened` is what opening, verifying and reading the file
gives, before its length and its bytes are judged. -/
inductive WalkResult where
  | failed
  | entry (path : Bytes) (isFile : Bool) (opened : Except ProjectError Bytes)

def validateOptions (options : SearchOptions) : Except ProjectError Unit :=
  if options.pattern.utf8ByteSize = 0 ∨ maximumPatternBytes < options.pattern.utf8ByteSize ∨
      options.maximumResults = 0 ∨ maximumSearchResults < options.maximumResults ∨
      options.maximumFileBytes = 0 ∨ maximumTextBytes < options.maximumFileBytes then
    .error .invalidLimit
  else .ok ()

def compileExpression (crate : RegexCrate) (options : SearchOptions) : Except ProjectError Expression :=
  let pattern := match options.mode with
    | .literal => crate.escape options.pattern
    | .regex => options.pattern
  match crate.build pattern (!options.caseSensitive) with
  | some expression => .ok expression
  | none => .error .invalidRegex

def looksBinary (content : Bytes) : Bool :=
  let controls := content.countP fun byte => byte < 32 && !(byte == 10 || byte == 13 || byte == 9 || byte == 12)
  content.contains 0 || (!content.isEmpty && decide (content.length * 3 < controls * 10))

def readSearchBytes (maximum : Nat) (opened : Except ProjectError Bytes) : Except ProjectError Bytes :=
  if maximum = 0 ∨ maximumTextBytes < maximum then .error .invalidLimit
  else match opened with
    | .error error => .error error
    | .ok content =>
      if maximum < content.length then .error (.fileTooLarge content.length maximum)
      else if looksBinary content then .error .binaryFile
      else .ok content

def ProjectError.skippable : ProjectError → Bool
  | .binaryFile | .invalidUtf8 | .fileTooLarge _ _ | .notRegularFile | .fileChangedDuringRead | .io _ _ => true
  | _ => false

/-- `split_inclusive('\n')`. -/
def splitInclusive : Bytes → List Bytes
  | [] => []
  | byte :: rest =>
    if byte = 10 then [10] :: splitInclusive rest
    else match splitInclusive rest with
      | [] => [[byte]]
      | line :: lines => (byte :: line) :: lines

/-- The `while` loop that goes back to a character boundary. -/
def boundaryAtMost (line : Bytes) : Nat → Nat
  | 0 => 0
  | n + 1 => if isCharBoundary line (n + 1) then n + 1 else boundaryAtMost line n

def ellipsis : Bytes := bytes "…"

def boundedExcerpt (line : Bytes) : Bytes :=
  let line := line.rdropWhile isLineEnd
  if line.length ≤ maximumExcerptBytes then line
  else line.take (boundaryAtMost line maximumExcerptBytes) ++ ellipsis

section Run
variable {m : Type → Type} [Monad m] (isCancelled : m Bool) (emit : SearchMatch → m Bool)

def searchLine (path line : Bytes) (index maximum : Nat) : List (Nat × Nat) → SearchSummary → m (Bool × SearchSummary)
  | [], summary => pure (true, summary)
  | (start, length) :: found, summary => do
    if summary.matched = maximum then return (false, { summary with limitReached := true })
    let summary := { summary with matched := summary.matched + 1 }
    if !(← emit ⟨path, min (index + 1) maximumCount, start, length, boundedExcerpt line⟩) then
      return (false, { summary with consumerStopped := true })
    if ← isCancelled then return (false, { summary with cancelled := true })
    searchLine path line index maximum found summary

def searchLines (path : Bytes) (expression : Expression) (maximum : Nat) :
    List Bytes → Nat → SearchSummary → m (Bool × SearchSummary)
  | [], _, summary => pure (true, summary)
  | line :: lines, index, summary => do
    if ← isCancelled then return (false, { summary with cancelled := true })
    let (goesOn, summary) ← searchLine isCancelled emit path line index maximum (expression line) summary
    if goesOn then searchLines path expression maximum lines (index + 1) summary
    else return (false, summary)

def searchFile (path text : Bytes) (expression : Expression) (maximum : Nat) (summary : SearchSummary) :
    m (Bool × SearchSummary) :=
  searchLines isCancelled emit path expression maximum (splitInclusive text) 0 summary

/-- The walk of one root; `false` breaks out of the loop over the roots as well. -/
def searchRoot (options : SearchOptions) (expression : Expression) :
    List WalkResult → SearchSummary → m (Except ProjectError (Bool × SearchSummary))
  | [], summary => pure (.ok (true, summary))
  | result :: walk, summary => do
    if ← isCancelled then return .ok (false, { summary with cancelled := true })
    match result with
    | .failed => searchRoot options expression walk summary.skip
    | .entry path isFile opened =>
      if !isFile then searchRoot options expression walk summary
      else
        let summary := summary.scan
        match readSearchBytes options.maximumFileBytes opened with
        | .error error =>
          if error.skippable then searchRoot options expression walk summary.skip
          else return .error error
        | .ok content =>
          if content.contains 0 then searchRoot options expression walk summary.skip
          else match ofBytes content with
            | none => searchRoot options expression walk summary.skip
            | some text =>
              let (goesOn, summary) ←
                searchFile isCancelled emit path (bytes text) expression options.maximumResults summary
              if goesOn then searchRoot options expression walk summary
              else return .ok (false, summary)

def searchRoots (options : SearchOptions) (expression : Expression) :
    List (List WalkResult) → SearchSummary → m (Except ProjectError SearchSummary)
  | [], summary => pure (.ok summary)
  | walk :: walks, summary => do
    match ← searchRoot isCancelled emit options expression walk summary with
    | .error error => return .error error
    | .ok (goesOn, summary) =>
      if goesOn then searchRoots options expression walks summary else return .ok summary

def run (crate : RegexCrate) (options : SearchOptions) (walks : List (List WalkResult)) :
    m (Except ProjectError SearchSummary) :=
  match validateOptions options with
  | .error error => pure (.error error)
  | .ok () =>
    match compileExpression crate options with
    | .error error => pure (.error error)
    | .ok expression => searchRoots isCancelled emit options expression walks {}

end Run

/-- `line` is the line of that number in the text, with its line break where it has one. -/
def LineAt (text : Bytes) (number : Nat) (line : Bytes) : Prop :=
  ∃ before after, text = before ++ (line ++ after) ∧ before.count 10 = number ∧
    (before = [] ∨ before.getLast? = some 10) ∧ line ≠ [] ∧ 10 ∉ line.dropLast ∧
    (after = [] ∨ line.getLast? = some 10)

section Lines
variable {front rest text line : Bytes}

theorem splitBreak (free : 10 ∉ front) :
    splitInclusive (front ++ 10 :: rest) = (front ++ [10]) :: splitInclusive rest := by
  induction front with
  | nil => rw [List.nil_append, splitInclusive, if_pos rfl, List.nil_append]
  | cons byte front ih =>
    have other : byte ≠ 10 := fun same => free (same ▸ List.mem_cons_self)
    rw [List.cons_append, splitInclusive, if_neg other, ih fun inside => free (List.mem_cons_of_mem _ inside)]
    rfl

theorem splitLast (some' : front ≠ []) (free : 10 ∉ front) : splitInclusive front = [front] := by
  induction front with
  | nil => exact absurd rfl some'
  | cons byte front ih =>
    have other : byte ≠ 10 := fun same => free (same ▸ List.mem_cons_self)
    rw [splitInclusive, if_neg other]
    cases front with
    | nil => rfl
    | cons next front => rw [ih (List.cons_ne_nil _ _) fun inside => free (List.mem_cons_of_mem _ inside)]

theorem byLines {P : Bytes → Prop} (last : ∀ front, 10 ∉ front → P front)
    (more : ∀ front rest, 10 ∉ front → P rest → P (front ++ 10 :: rest)) (text : Bytes) : P text := by
  induction size : text.length using Nat.strong_induction_on generalizing text with
  | _ size ih =>
    by_cases inside : 10 ∈ text
    · obtain ⟨front, rest, rfl, free⟩ := List.eq_append_cons_of_mem inside
      refine more front rest free (ih rest.length ?_ rest rfl)
      rw [← size, List.length_append, List.length_cons]
      omega
    · exact last text inside

theorem splitBehind {before : Bytes} (ended : before = [] ∨ before.getLast? = some 10) (rest : Bytes) :
    ∃ lines, lines.length = before.count 10 ∧ splitInclusive (before ++ rest) = lines ++ splitInclusive rest := by
  induction before using byLines with
  | last front free =>
    rcases ended with rfl | break'
    · exact ⟨[], rfl, rfl⟩
    · exact absurd (List.mem_of_getLast? break') free
  | more front behind free ih =>
    have ended' : behind = [] ∨ behind.getLast? = some 10 := by
      cases behind with
      | nil => exact .inl rfl
      | cons byte behind => exact .inr (by simpa using ended)
    obtain ⟨lines, counted, split⟩ := ih ended'
    refine ⟨(front ++ [10]) :: lines, ?_, ?_⟩
    · rw [List.length_cons, counted, List.count_append, List.count_cons_self, List.count_eq_zero_of_not_mem free]
      omega
    · rw [List.append_assoc, List.cons_append, splitBreak free, split, List.cons_append]

theorem splitLine {after : Bytes} (some' : line ≠ []) (whole : 10 ∉ line.dropLast)
    (ended : after = [] ∨ line.getLast? = some 10) :
    splitInclusive (line ++ after) = line :: splitInclusive after := by
  obtain ⟨front, last, rfl⟩ := (List.eq_nil_or_concat' line).resolve_left some'
  rw [List.dropLast_concat] at whole
  by_cases break' : last = 10
  · rw [break', List.append_assoc, List.singleton_append, splitBreak whole]
  · rcases ended with rfl | same
    · have free : 10 ∉ front ++ [last] := fun inside =>
        (List.mem_append.mp inside).elim whole fun here => break' (List.mem_singleton.mp here).symm
      rw [List.append_nil, splitLast some' free]
      rfl
    · rw [List.getLast?_concat] at same
      exact absurd (Option.some.inj same) break'

theorem lineAt {number : Nat} : (splitInclusive text)[number]? = some line ↔ LineAt text number line := by
  constructor
  · induction text using byLines generalizing number with
    | last front free =>
      intro found
      cases front with
      | nil => cases found
      | cons byte front =>
        rw [splitLast (List.cons_ne_nil _ _) free] at found
        cases number with
        | zero =>
          cases Option.some.inj found
          exact ⟨[], [], by simp, rfl, .inl rfl, List.cons_ne_nil _ _,
            fun inside => free (List.mem_of_mem_dropLast inside), .inl rfl⟩
        | succ number => cases found
    | more front rest free ih =>
      intro found
      rw [splitBreak free] at found
      cases number with
      | zero =>
        cases Option.some.inj found
        exact ⟨[], rest, by simp, rfl, .inl rfl, by simp, by simpa using free, .inr (by simp)⟩
      | succ number =>
        obtain ⟨before, after, rfl, counted, ended, some', whole, ends⟩ := ih found
        refine ⟨front ++ 10 :: before, after, by simp, ?_, .inr ?_, some', whole, ends⟩
        · rw [List.count_append, List.count_cons_self, counted, List.count_eq_zero_of_not_mem free]
          omega
        · rcases ended with rfl | break'
          · simp
          · simp [List.getLast?_cons, break']
  · rintro ⟨before, after, rfl, rfl, ended, some', whole, ends⟩
    obtain ⟨lines, counted, split⟩ := splitBehind ended (line ++ after)
    rw [split, splitLine some' whole ends, ← counted, List.getElem?_append_right (Nat.le_refl _), Nat.sub_self]
    rfl

end Lines

/-- The line without the CRs and LFs at its end, whole or up to its last character boundary
within the bound. -/
def Excerpt (line excerpt : Bytes) : Prop :=
  ∃ content ending, line = content ++ ending ∧ (∀ byte ∈ ending, isLineEnd byte = true) ∧
    (∀ byte, content.getLast? = some byte → isLineEnd byte = false) ∧
    if content.length ≤ maximumExcerptBytes then excerpt = content
    else ∃ cut ≤ maximumExcerptBytes, isCharBoundary content cut = true ∧
      (∀ other ≤ maximumExcerptBytes, isCharBoundary content other = true → other ≤ cut) ∧
      excerpt = content.take cut ++ ellipsis

theorem boundaryLast (line : Bytes) (n : Nat) : boundaryAtMost line n ≤ n ∧
    isCharBoundary line (boundaryAtMost line n) = true ∧
    ∀ other ≤ n, isCharBoundary line other = true → other ≤ boundaryAtMost line n := by
  induction n with
  | zero => exact ⟨Nat.le_refl _, boundaryIff.mpr (.inl rfl), fun other bound _ => bound⟩
  | succ n ih =>
    rw [boundaryAtMost]
    by_cases here : isCharBoundary line (n + 1) = true
    · rw [if_pos here]
      exact ⟨Nat.le_refl _, here, fun other bound _ => bound⟩
    · rw [if_neg here]
      refine ⟨Nat.le_succ_of_le ih.1, ih.2.1, fun other bound between => ?_⟩
      rcases Nat.eq_or_lt_of_le bound with rfl | less
      · exact absurd between here
      · exact ih.2.2 other (Nat.le_of_lt_succ less) between

theorem excerptBounded (line : Bytes) : Excerpt line (boundedExcerpt line) := by
  refine ⟨line.rdropWhile isLineEnd, line.rtakeWhile isLineEnd, List.rdropWhile_append_rtakeWhile.symm,
    fun byte inside => List.mem_rtakeWhile_imp inside, fun byte last => ?_, ?_⟩
  · have some' : line.rdropWhile isLineEnd ≠ [] := fun none' => by
      rw [none'] at last
      cases last
    cases (List.getLast?_eq_some_getLast some').symm.trans last
    exact Bool.eq_false_iff.mpr (List.rdropWhile_last_not isLineEnd line some')
  · rw [boundedExcerpt]
    split
    · rfl
    · obtain ⟨bound, between, last⟩ := boundaryLast (line.rdropWhile isLineEnd) maximumExcerptBytes
      exact ⟨_, bound, between, last, rfl⟩

/-! What a stretch of the search emits. -/

/-- From `summary` and `out` on, with `all` the matches of the stretch. -/
structure Emits (maximum : Nat) (all : List SearchMatch) (summary : SearchSummary) (out : List SearchMatch)
    (goesOn : Bool) (summary' : SearchSummary) (out' : List SearchMatch) : Prop where
  emitted : out' = out ++ all.take (maximum - summary.matched)
  matched : summary'.matched = min maximum (summary.matched + all.length)
  within : goesOn = decide (summary.matched + all.length ≤ maximum)
  limit : summary'.limitReached = (summary.limitReached || !goesOn)
  cancelled : summary'.cancelled = summary.cancelled
  stopped : summary'.consumerStopped = summary.consumerStopped

section Emits
variable {maximum : Nat} {all more : List SearchMatch} {s s' s'' : SearchSummary} {out out' out'' : List SearchMatch}
  {goesOn : Bool}

theorem emitsNothing (bound : s.matched ≤ maximum) : Emits maximum [] s out true s out :=
  ⟨by simp, by simpa using bound, by simpa using bound, by simp, rfl, rfl⟩

theorem emitsRecounted {scanned skipped : Nat}
    (emits : Emits maximum all { s with scannedFiles := scanned, skippedFiles := skipped } out goesOn s' out') :
    Emits maximum all s out goesOn s' out' :=
  ⟨emits.emitted, emits.matched, emits.within, emits.limit, emits.cancelled, emits.stopped⟩

theorem emitsBoth (first : Emits maximum all s out true s' out')
    (second : Emits maximum more s' out' goesOn s'' out'') : Emits maximum (all ++ more) s out goesOn s'' out'' := by
  have room := of_decide_eq_true first.within.symm
  have matched : s'.matched = s.matched + all.length := first.matched.trans (Nat.min_eq_right room)
  refine ⟨?_, ?_, ?_, ?_, second.cancelled.trans first.cancelled, second.stopped.trans first.stopped⟩
  · rw [second.emitted, first.emitted, matched, List.take_append, List.append_assoc, Nat.sub_sub,
      List.take_of_length_le (by omega : all.length ≤ maximum - s.matched)]
  · rw [second.matched, matched, List.length_append, Nat.add_assoc]
  · rw [second.within, matched, List.length_append, Nat.add_assoc]
  · rw [second.limit, first.limit, Bool.not_true, Bool.or_false]

theorem emitsStop (first : Emits maximum all s out false s' out') :
    Emits maximum (all ++ more) s out false s' out' := by
  have full := of_decide_eq_false first.within.symm
  refine ⟨?_, ?_, ?_, first.limit, first.cancelled, first.stopped⟩
  · rw [first.emitted, List.take_append_of_le_length (by omega)]
  · rw [first.matched, List.length_append]
    omega
  · rw [List.length_append]
    exact (decide_eq_false (by omega)).symm

end Emits

/-! A search that nobody cancels, with a consumer that takes every match. -/

abbrev Collecting := StateM (List SearchMatch)

def notCancelled : Collecting Bool := pure false

def accept (found : SearchMatch) : Collecting Bool := do
  modify (· ++ [found])
  return true

def shown (path line : Bytes) (index : Nat) (found : Nat × Nat) : SearchMatch :=
  ⟨path, min (index + 1) maximumCount, found.1, found.2, boundedExcerpt line⟩

def linesMatches (path : Bytes) (expression : Expression) : List Bytes → Nat → List SearchMatch
  | [], _ => []
  | line :: lines, index =>
    (expression line).map (shown path line index) ++ linesMatches path expression lines (index + 1)

def textsMatches (expression : Expression) (texts : List (Bytes × Bytes)) : List SearchMatch :=
  texts.flatMap fun text => linesMatches text.1 expression (splitInclusive text.2) 0

/-- What the walk yields that is read and is text. -/
def WalkResult.text (options : SearchOptions) : WalkResult → Option (Bytes × Bytes)
  | .entry path true opened =>
    match readSearchBytes options.maximumFileBytes opened with
    | .ok content => if content.contains 0 then none else (ofBytes content).map fun _ => (path, content)
    | .error _ => none
  | _ => none

/-- No read of the walk fails in a way that ends the search. -/
def Readable (options : SearchOptions) (walk : List WalkResult) : Prop :=
  ∀ path opened error, .entry path true opened ∈ walk →
    readSearchBytes options.maximumFileBytes opened = .error error → error.skippable = true

section Collecting
variable {maximum : Nat} {options : SearchOptions}

theorem collectingBind {α β : Type} {x : Collecting α} {f : α → Collecting β} {value : α} {out out' : List SearchMatch}
    (ran : x out = (value, out')) : (x >>= f) out = f value out' := by
  change (match x out with | (value, out') => f value out') = _
  rw [ran]

theorem searchLineEmits (path line : Bytes) (index : Nat) (found : List (Nat × Nat)) (s : SearchSummary)
    (out : List SearchMatch) (bound : s.matched ≤ maximum) : ∃ goesOn s' out',
    searchLine notCancelled accept path line index maximum found s out = ((goesOn, s'), out') ∧
      Emits maximum (found.map (shown path line index)) s out goesOn s' out' := by
  induction found generalizing s out with
  | nil => exact ⟨true, s, out, rfl, emitsNothing bound⟩
  | cons first found ih =>
    rw [searchLine]
    by_cases full : s.matched = maximum
    · rw [if_pos full]
      refine ⟨false, { s with limitReached := true }, out, rfl, ?_, ?_, ?_, ?_, rfl, rfl⟩
      · simp [full]
      · rw [full]
        exact (Nat.min_eq_left (Nat.le_add_right _ _)).symm
      · rw [full, List.map_cons, List.length_cons]
        exact (decide_eq_false (by omega)).symm
      · simp
    · rw [if_neg full]
      obtain ⟨goesOn, s', out', ran, emits⟩ :=
        ih { s with matched := s.matched + 1 } (out ++ [shown path line index first])
          (show s.matched + 1 ≤ maximum by omega)
      have one : Emits maximum [shown path line index first] s out true { s with matched := s.matched + 1 }
          (out ++ [shown path line index first]) := by
        have room : s.matched + 1 ≤ maximum := by omega
        refine ⟨?_, (Nat.min_eq_right room).symm, (decide_eq_true room).symm, by simp, rfl, rfl⟩
        rw [List.take_of_length_le]
        rw [List.length_singleton]
        omega
      exact ⟨goesOn, s', out', ran, emitsBoth one emits⟩

theorem searchLinesEmits (path : Bytes) (expression : Expression) (lines : List Bytes) (index : Nat)
    (s : SearchSummary) (out : List SearchMatch) (bound : s.matched ≤ maximum) : ∃ goesOn s' out',
    searchLines notCancelled accept path expression maximum lines index s out = ((goesOn, s'), out') ∧
      Emits maximum (linesMatches path expression lines index) s out goesOn s' out' := by
  induction lines generalizing index s out with
  | nil => exact ⟨true, s, out, rfl, emitsNothing bound⟩
  | cons line lines ih =>
    obtain ⟨goesOn, s', out', ran, first⟩ := searchLineEmits path line index (expression line) s out bound
    have unfolds : searchLines notCancelled accept path expression maximum (line :: lines) index s out =
        (if goesOn then searchLines notCancelled accept path expression maximum lines (index + 1) s'
          else pure (false, s')) out' := by
      rw [searchLines, collectingBind (x := notCancelled) rfl]
      exact collectingBind ran
    rw [unfolds]
    cases goesOn with
    | false => exact ⟨false, s', out', rfl, emitsStop first⟩
    | true =>
      obtain ⟨goesOn, s'', out'', ran', rest⟩ := ih (index + 1) s' out'
        (first.matched ▸ Nat.min_le_left _ _)
      exact ⟨goesOn, s'', out'', ran', emitsBoth first rest⟩

theorem rootStep (expression : Expression) (result : WalkResult) (walk : List WalkResult)
    (readable : Readable options (result :: walk)) (s : SearchSummary) (out : List SearchMatch) : ∃ scanned skipped,
      (result.text options = none ∧ searchRoot notCancelled accept options expression (result :: walk) s out =
        searchRoot notCancelled accept options expression walk
          { s with scannedFiles := scanned, skippedFiles := skipped } out) ∨
      ∃ text, result.text options = some text ∧
        searchRoot notCancelled accept options expression (result :: walk) s out = (do
          let (goesOn, s') ← searchFile notCancelled accept text.1 text.2 expression options.maximumResults
            { s with scannedFiles := scanned, skippedFiles := skipped }
          if goesOn then searchRoot notCancelled accept options expression walk s' else return .ok (false, s')) out := by
  rw [searchRoot.eq_def]
  dsimp only
  rw [collectingBind (x := notCancelled) rfl]
  match result with
  | .failed => exact ⟨_, _, .inl ⟨rfl, rfl⟩⟩
  | .entry path false opened => exact ⟨s.scannedFiles, s.skippedFiles, .inl ⟨rfl, rfl⟩⟩
  | .entry path true opened =>
    have skips := readable path opened
    simp only [WalkResult.text]
    cases read : readSearchBytes options.maximumFileBytes opened with
    | error error =>
      have skippable := skips error List.mem_cons_self read
      refine ⟨saturatingAdd s.scannedFiles, saturatingAdd s.skippedFiles, .inl ⟨rfl, ?_⟩⟩
      simp only [Bool.not_true, Bool.false_eq_true, if_false, skippable, if_true]
      rfl
    | ok content =>
      simp only [Bool.not_true, Bool.false_eq_true, if_false]
      by_cases nul : content.contains 0 = true
      · simp only [if_pos nul]
        exact ⟨_, _, .inl ⟨trivial, rfl⟩⟩
      · simp only [if_neg nul]
        cases decoded : ofBytes content with
        | none => exact ⟨_, _, .inl ⟨rfl, rfl⟩⟩
        | some text =>
          refine ⟨saturatingAdd s.scannedFiles, s.skippedFiles, .inr ⟨(path, content), rfl, ?_⟩⟩
          simp only [ofBytesBack decoded]
          rfl

theorem searchRootEmits (expression : Expression) (walk : List WalkResult) (readable : Readable options walk)
    (s : SearchSummary) (out : List SearchMatch) (bound : s.matched ≤ options.maximumResults) : ∃ goesOn s' out',
    searchRoot notCancelled accept options expression walk s out = (.ok (goesOn, s'), out') ∧
      Emits options.maximumResults (textsMatches expression (walk.filterMap (WalkResult.text options))) s out
        goesOn s' out' := by
  induction walk generalizing s out with
  | nil => exact ⟨true, s, out, rfl, emitsNothing bound⟩
  | cons result walk ih =>
    have rest : Readable options walk := fun path opened error member =>
      readable path opened error (List.mem_cons_of_mem _ member)
    obtain ⟨scanned, skipped, ⟨none', steps⟩ | ⟨text, some', steps⟩⟩ :=
      rootStep expression result walk readable s out
    · obtain ⟨goesOn, s', out', ran, emits⟩ :=
        ih rest { s with scannedFiles := scanned, skippedFiles := skipped } out bound
      rw [List.filterMap_cons_none none']
      exact ⟨goesOn, s', out', steps.trans ran, emitsRecounted emits⟩
    · obtain ⟨goesOn, s', out', ran, first⟩ := searchLinesEmits text.1 expression (splitInclusive text.2) 0
        { s with scannedFiles := scanned, skippedFiles := skipped } out bound
      rw [searchFile, collectingBind ran] at steps
      rw [List.filterMap_cons_some some']
      cases goesOn with
      | false => exact ⟨false, s', out', steps, emitsStop (emitsRecounted first)⟩
      | true =>
        obtain ⟨goesOn, s'', out'', ran', emits⟩ := ih rest s' out'
          (first.matched ▸ Nat.min_le_left _ _)
        exact ⟨goesOn, s'', out'', steps.trans ran', emitsBoth (emitsRecounted first) emits⟩

theorem searchRootsEmits (expression : Expression) (walks : List (List WalkResult))
    (readable : ∀ walk ∈ walks, Readable options walk) (s : SearchSummary) (out : List SearchMatch)
    (bound : s.matched ≤ options.maximumResults) : ∃ goesOn s' out',
    searchRoots notCancelled accept options expression walks s out = (.ok s', out') ∧
      Emits options.maximumResults (textsMatches expression (walks.flatten.filterMap (WalkResult.text options))) s out
        goesOn s' out' := by
  induction walks generalizing s out with
  | nil => exact ⟨true, s, out, rfl, emitsNothing bound⟩
  | cons walk walks ih =>
    obtain ⟨goesOn, s', out', ran, first⟩ := searchRootEmits expression walk
      (readable walk List.mem_cons_self) s out bound
    rw [List.flatten_cons, List.filterMap_append, textsMatches, List.flatMap_append]
    rw [searchRoots, collectingBind ran]
    cases goesOn with
    | false => exact ⟨false, s', out', rfl, emitsStop first⟩
    | true =>
      obtain ⟨goesOn, s'', out'', ran', emits⟩ := ih
        (fun walk member => readable walk (List.mem_cons_of_mem _ member)) s' out' (first.matched ▸ Nat.min_le_left _ _)
      exact ⟨goesOn, s'', out'', ran', emitsBoth first emits⟩

end Collecting

structure Occurrence where
  file : Nat
  line : Nat
  start : Nat
  length : Nat
  deriving DecidableEq, Repr

/-- A match of the expression in the line of that number of that text. -/
def Occurs (expression : Expression) (texts : List (Bytes × Bytes)) (o : Occurrence) : Prop :=
  ∃ path text line, texts[o.file]? = some (path, text) ∧ LineAt text o.line line ∧ (o.start, o.length) ∈ expression line

def Before (a b : Occurrence) : Prop :=
  a.file < b.file ∨ a.file = b.file ∧ (a.line < b.line ∨ a.line = b.line ∧ a.start < b.start)

def Shows (texts : List (Bytes × Bytes)) (o : Occurrence) (found : SearchMatch) : Prop :=
  ∃ path text line, texts[o.file]? = some (path, text) ∧ LineAt text o.line line ∧ o.start + o.length ≤ line.length ∧
    found.path = path ∧ found.line = o.line + 1 ∧ found.byteColumn = o.start ∧ found.byteLength = o.length ∧
    Excerpt line found.excerpt

/-- The matches of a line lie in it, one behind the other. -/
structure RegexCrate.Documented (crate : RegexCrate) : Prop where
  within : ∀ {pattern insensitive expression}, crate.build pattern insensitive = some expression →
    ∀ line, ∀ found ∈ expression line, found.1 + found.2 ≤ line.length
  behind : ∀ {pattern insensitive expression}, crate.build pattern insensitive = some expression →
    ∀ line, (expression line).Pairwise fun a b => a.1 < b.1

def hits (expression : Expression) (texts : List (Bytes × Bytes)) : List (Occurrence × SearchMatch) :=
  texts.zipIdx.flatMap fun text => (splitInclusive text.1.2).zipIdx.flatMap fun line =>
    (expression line.1).map fun found => (⟨text.2, line.2, found.1, found.2⟩, shown text.1.1 line.1 line.2 found)

section Hits
variable {expression : Expression} {texts : List (Bytes × Bytes)}

theorem linesMatchesIndexed (path : Bytes) (lines : List Bytes) (index : Nat) :
    linesMatches path expression lines index =
      (lines.zipIdx index).flatMap fun line => (expression line.1).map (shown path line.1 line.2) := by
  induction lines generalizing index with
  | nil => rfl
  | cons line lines ih => rw [linesMatches, ih, List.zipIdx_cons, List.flatMap_cons]

theorem hitsMatches : (hits expression texts).map Prod.snd = textsMatches expression texts := by
  have told : ∀ text : Bytes × Bytes, linesMatches text.1 expression (splitInclusive text.2) 0 =
      ((splitInclusive text.2).zipIdx.flatMap fun line => (expression line.1).map (shown text.1 line.1 line.2)) :=
    fun text => linesMatchesIndexed _ _ _
  have fronts : texts = texts.zipIdx.map Prod.fst := (List.zipIdx_map_fst 0 texts).symm
  rw [textsMatches]
  conv_rhs => rw [fronts]
  simp only [hits, List.map_flatMap, List.map_map, List.flatMap_map, told]
  rfl

theorem hitsMember {hit : Occurrence × SearchMatch} : hit ∈ hits expression texts ↔ ∃ path text line,
    texts[hit.1.file]? = some (path, text) ∧ (splitInclusive text)[hit.1.line]? = some line ∧
      (hit.1.start, hit.1.length) ∈ expression line ∧
      hit.2 = shown path line hit.1.line (hit.1.start, hit.1.length) := by
  obtain ⟨⟨file, number, start, length⟩, found⟩ := hit
  simp only [hits, List.mem_flatMap, List.mem_map, List.mem_zipIdx_iff_getElem?, Prod.mk.injEq, Occurrence.mk.injEq]
  constructor
  · rintro ⟨⟨⟨path, text⟩, _⟩, there, ⟨line, _⟩, here, ⟨_, _⟩, member, ⟨rfl, rfl, rfl, rfl⟩, rfl⟩
    exact ⟨path, text, line, there, here, member, rfl⟩
  · rintro ⟨path, text, line, there, here, member, rfl⟩
    exact ⟨⟨⟨path, text⟩, file⟩, there, ⟨line, number⟩, here, ⟨start, length⟩, member, ⟨rfl, rfl, rfl, rfl⟩, rfl⟩

theorem zipIdxBehind {α : Type} (xs : List α) : xs.zipIdx.Pairwise fun a b => a.2 < b.2 := by
  have indexes : (List.range' 0 xs.length).Pairwise (· < ·) := List.pairwise_lt_range'
  rw [← List.zipIdx_map_snd 0 xs, List.pairwise_map] at indexes
  exact indexes

theorem hitsBefore (behind : ∀ line, (expression line).Pairwise fun a b => a.1 < b.1) :
    ((hits expression texts).map Prod.fst).Pairwise Before := by
  rw [List.pairwise_map, hits, List.pairwise_flatMap]
  refine ⟨fun text _ => ?_, (zipIdxBehind texts).imp ?_⟩
  · rw [List.pairwise_flatMap]
    refine ⟨fun line _ => ?_, (zipIdxBehind _).imp ?_⟩
    · rw [List.pairwise_map]
      exact (behind line.1).imp fun less => .inr ⟨rfl, .inr ⟨rfl, less⟩⟩
    · intro first second less a inFirst b inSecond
      obtain ⟨_, _, rfl⟩ := List.mem_map.mp inFirst
      obtain ⟨_, _, rfl⟩ := List.mem_map.mp inSecond
      exact .inr ⟨rfl, .inl less⟩
  · intro first second less a inFirst b inSecond
    obtain ⟨_, _, inLine⟩ := List.mem_flatMap.mp inFirst
    obtain ⟨_, _, rfl⟩ := List.mem_map.mp inLine
    obtain ⟨_, _, inLine⟩ := List.mem_flatMap.mp inSecond
    obtain ⟨_, _, rfl⟩ := List.mem_map.mp inLine
    exact .inl less

theorem splitLength (text : Bytes) : (splitInclusive text).length ≤ text.length := by
  induction text using byLines with
  | last front free =>
    cases front with
    | nil => exact Nat.le_refl _
    | cons byte front =>
      rw [splitLast (List.cons_ne_nil _ _) free]
      exact Nat.succ_le_succ (Nat.zero_le _)
  | more front rest free ih =>
    rw [splitBreak free, List.length_append, List.length_cons, List.length_cons]
    omega

theorem readBound {maximum : Nat} {opened : Except ProjectError Bytes} {content : Bytes}
    (read : readSearchBytes maximum opened = .ok content) : content.length ≤ maximumTextBytes := by
  unfold readSearchBytes at read
  split at read
  · cases read
  · rename_i valid
    split at read
    · cases read
    · split at read
      · cases read
      · rename_i fits
        split at read
        · cases read
        · cases Except.ok.inj read
          exact (Nat.not_lt.mp fits).trans (Nat.not_lt.mp fun more => valid (.inr more))

theorem textBound {options : SearchOptions} {result : WalkResult} {text : Bytes × Bytes}
    (told : result.text options = some text) : text.2.length ≤ maximumTextBytes := by
  match result with
  | .failed => cases told
  | .entry path false opened => cases told
  | .entry path true opened =>
    rw [WalkResult.text] at told
    cases read : readSearchBytes options.maximumFileBytes opened with
    | error error =>
      rw [read] at told
      cases told
    | ok content =>
      simp only [read] at told
      split at told
      · cases told
      · obtain ⟨_, _, rfl⟩ := Option.map_eq_some_iff.mp told
        exact readBound read

theorem hitShows (within : ∀ line, ∀ found ∈ expression line, found.1 + found.2 ≤ line.length)
    (bounded : ∀ text ∈ texts, text.2.length ≤ maximumTextBytes) {hit : Occurrence × SearchMatch}
    (member : hit ∈ hits expression texts) : Shows texts hit.1 hit.2 := by
  obtain ⟨path, text, line, there, here, found, same⟩ := hitsMember.mp member
  refine ⟨path, text, line, there, lineAt.mp here, within line _ found, ?_⟩
  rw [same]
  refine ⟨rfl, Nat.min_eq_left ?_, rfl, rfl, excerptBounded line⟩
  have few : hit.1.line < (splitInclusive text).length := (List.getElem?_eq_some_iff.mp here).1
  have short : text.length ≤ maximumTextBytes := bounded _ (List.mem_of_getElem? there)
  exact (few.trans_le ((splitLength text).trans short)).trans (by decide)

end Hits

variable {crate : RegexCrate} {options : SearchOptions} {expression : Expression} {walks : List (List WalkResult)}

/-- The `all` matches, in their order; what is emitted are the first of them. -/
theorem searchComplete (documented : crate.Documented) (valid : validateOptions options = .ok ())
    (compiled : compileExpression crate options = .ok expression)
    (readable : ∀ walk ∈ walks, Readable options walk) :
    ∃ (summary : SearchSummary) (all : List (Occurrence × SearchMatch)),
      run notCancelled accept crate options walks [] =
        (.ok summary, (all.take options.maximumResults).map Prod.snd) ∧
      (all.map Prod.fst).Pairwise Before ∧
      (∀ o, o ∈ all.map Prod.fst ↔
        Occurs expression (walks.flatten.filterMap (WalkResult.text options)) o) ∧
      (∀ hit ∈ all, Shows (walks.flatten.filterMap (WalkResult.text options)) hit.1 hit.2) ∧
      summary.matched = min options.maximumResults all.length ∧
      (summary.limitReached = true ↔ options.maximumResults < all.length) ∧
      summary.cancelled = false ∧ summary.consumerStopped = false := by
  obtain ⟨pattern, insensitive, built⟩ : ∃ pattern insensitive, crate.build pattern insensitive = some expression := by
    rw [compileExpression] at compiled
    split at compiled
    · rename_i found built
      cases Except.ok.inj compiled
      exact ⟨_, _, built⟩
    · cases compiled
  generalize texts' : walks.flatten.filterMap (WalkResult.text options) = texts
  have bounded : ∀ text ∈ texts, text.2.length ≤ maximumTextBytes := fun text member => by
    rw [← texts'] at member
    obtain ⟨result, _, told⟩ := List.mem_filterMap.mp member
    exact textBound told
  obtain ⟨goesOn, summary, emitted, ran, emits⟩ :=
    searchRootsEmits expression walks readable {} [] (Nat.zero_le _)
  rw [texts', ← hitsMatches] at emits
  have count : ((hits expression texts).map Prod.snd).length = (hits expression texts).length := List.length_map _
  refine ⟨summary, hits expression texts, ?_, hitsBefore (documented.behind built), fun o => ?_,
    fun hit => hitShows (documented.within built) bounded, ?_, ?_, emits.cancelled, emits.stopped⟩
  · rw [run, valid, compiled, List.map_take]
    exact ran.trans (congrArg _ emits.emitted)
  · constructor
    · intro member
      obtain ⟨hit, inside, rfl⟩ := List.mem_map.mp member
      obtain ⟨path, text, line, there, here, found, _⟩ := hitsMember.mp inside
      exact ⟨path, text, line, there, lineAt.mp here, found⟩
    · rintro ⟨path, text, line, there, here, found⟩
      exact List.mem_map.mpr ⟨⟨o, shown path line o.line (o.start, o.length)⟩,
        hitsMember.mpr ⟨path, text, line, there, lineAt.mpr here, found, rfl⟩, rfl⟩
  · rw [emits.matched, count, Nat.zero_add]
  · rw [emits.limit, emits.within, count, Nat.zero_add]
    simp

def letterB : Expression := fun text => ((List.range text.length).filter fun index => text[index]? = some 98).map (·, 1)

def onlyB : RegexCrate := ⟨id, fun pattern _ => if pattern = "b" then some letterB else none⟩

theorem onlyBDocumented : onlyB.Documented := by
  have built : ∀ {pattern insensitive expression}, onlyB.build pattern insensitive = some expression →
      expression = letterB := fun {pattern _ _} built => by
    by_cases same : pattern = "b"
    · exact (Option.some.inj ((if_pos same).symm.trans built)).symm
    · cases (if_neg same).symm.trans built
  constructor
  · intro _ _ _ found line hit inside
    cases built found
    obtain ⟨index, member, rfl⟩ := List.mem_map.mp inside
    exact List.mem_range.mp (List.mem_filter.mp member).1
  · intro _ _ _ found line
    cases built found
    rw [letterB, List.pairwise_map]
    exact List.pairwise_lt_range.filter _

def forB (maximum : Nat) : SearchOptions := ⟨"b", .literal, true, false, maximum, maximumTextBytes⟩

def bytesAt (path text : String) : WalkResult := .entry (ascii path) true (.ok (ascii text))

theorem searchCompleteThree : ∃ (summary : SearchSummary) (all : List (Occurrence × SearchMatch)),
    run notCancelled accept onlyB (forB 2) [[bytesAt "one" "abc\nbb\n"]] [] =
      (.ok summary, (all.take 2).map Prod.snd) ∧ (all.map Prod.fst).Pairwise Before ∧
      (∀ o, o ∈ all.map Prod.fst ↔
        Occurs letterB ([[bytesAt "one" "abc\nbb\n"]].flatten.filterMap (WalkResult.text (forB 2))) o) ∧
      summary.matched = min 2 all.length ∧ (summary.limitReached = true ↔ 2 < all.length) := by
  have walked : ∀ walk ∈ [[bytesAt "one" "abc\nbb\n"]], Readable (forB 2) walk := by
    intro walk member path opened error inside failed
    cases List.mem_singleton.mp member
    obtain ⟨-, -, rfl⟩ := WalkResult.entry.inj (List.mem_singleton.mp inside)
    have read : readSearchBytes (forB 2).maximumFileBytes (.ok (ascii "abc\nbb\n")) = .ok (ascii "abc\nbb\n") := by
      decide
    cases read.symm.trans failed
  obtain ⟨summary, all, ran, ordered, occurs, _, count, limit, _⟩ :=
    searchComplete onlyBDocumented (show validateOptions (forB 2) = .ok () by decide) rfl walked
  exact ⟨summary, all, ran, ordered, occurs, count, limit⟩

/-- A line without its line break, `\n` or `\r\n`. -/
def withoutTerminator (line : Bytes) : Bytes :=
  if line.getLast? = some 10 then
    if line.dropLast.getLast? = some 13 then line.dropLast.dropLast else line.dropLast
  else line

/-- A CR that is not part of the line break goes as well. -/
theorem excerptTrimmed :
    (run notCancelled accept onlyB (forB 2) [[bytesAt "one" "abc\r\r\n"]] []).2.map SearchMatch.excerpt = [ascii "abc"] ∧
      withoutTerminator (ascii "abc\r\r\n") = ascii "abc\r" := by
  decide

end Maestro.TextSearch
