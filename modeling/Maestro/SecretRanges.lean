import Maestro.TextScan

/-! What the scanners find in a text, how their ranges are merged, and what the text with
the markers in place of them looks like. -/
namespace Maestro.Redaction

/-! Keys and values as they stand in the text. -/

/-- The key before a separator: a run of key bytes, or what stands between two quotes of one
kind, the first of them the nearest one that is not escaped. -/
inductive KeyBefore (input : Bytes) (separator : Nat) : Range → Prop
  | unquoted (start stop : Nat) (blanks : RunBack input isHorizontalWhitespace stop separator)
      (key : RunBack input isKeyByte start stop) (nonempty : start < stop) :
      KeyBefore input separator (start, stop)
  | quoted (quote : UInt8) (opening closing : Nat)
      (blanks : RunBack input isHorizontalWhitespace (closing + 1) separator)
      (kind : isQuote quote = true) (closes : input[closing]? = some quote)
      (opens : input[opening]? = some quote) (plain : isEscaped input opening = false)
      (nearest : ∀ position, opening < position → position < closing →
        input[position]? = some quote → isEscaped input position = true)
      (nonempty : opening + 1 < closing) : KeyBefore input separator (opening + 1, closing)

/-- A value: up to its first delimiter, unless the marker stands there, or in quotes up to
the first closing quote that is not escaped. Either may be ended by the end of the text. -/
inductive ValueAt (input : Bytes) (start : Nat) : Range → Prop
  | unquoted (stop : Nat) (unmarked : ¬ redacted <+: input.drop start)
      (run : Run input (fun _ byte => !isUnquotedValueDelimiter byte) start stop)
      (nonempty : start < stop) : ValueAt input start (start, stop)
  | quoted (quote : UInt8) (stop : Nat) (kind : isQuote quote = true)
      (opens : input[start]? = some quote)
      (run : Run input (fun position byte => !(byte == quote && !isEscaped input position))
        (start + 1) stop)
      (nonempty : start + 1 < stop) : ValueAt input start (start + 1, stop)

def ValueAfter (input : Bytes) (separator : Nat) (value : Range) : Prop :=
  ∃ start, Run input (fun _ byte => isHorizontalWhitespace byte) (separator + 1) start ∧
    ValueAt input start value

/-! Bytes of the kinds the scanners stop at are characters of their own. -/

theorem quoteCases {byte : UInt8} (kind : isQuote byte = true) : byte = 39 ∨ byte = 34 := by
  simpa [isQuote] using kind

theorem quotePlain {byte : UInt8} (kind : isQuote byte = true) : byte < 128 := by
  rcases quoteCases kind with rfl | rfl <;> decide

theorem separatorPlain {byte : UInt8} (kind : isSeparator byte = true) : byte < 128 := by
  have cases' : byte = 61 ∨ byte = 58 := by simpa [isSeparator] using kind
  rcases cases' with rfl | rfl <;> decide

theorem blankPlain {byte : UInt8} (kind : isHorizontalWhitespace byte = true) : byte < 128 := by
  have cases' : byte = 32 ∨ byte = 9 := by simpa [isHorizontalWhitespace] using kind
  rcases cases' with rfl | rfl <;> decide

theorem delimiterPlain {byte : UInt8} (kind : isUnquotedValueDelimiter byte = true) :
    byte < 128 := by
  have all : ∀ byte ∈ [32, 9, 10, 12, 13, 44, 59, 38, 35, 39, 34, 41, 93, (125 : UInt8)],
      byte < 128 := by decide +kernel
  exact all byte (List.contains_iff_mem.mp kind)

theorem alphanumericPlain {byte : UInt8} (kind : isAlphanumeric byte = true) : byte < 128 := by
  simp only [isAlphanumeric, isUpper, isLower, isDigit, Bool.or_eq_true, Bool.and_eq_true,
    decide_eq_true_eq, UInt8.le_iff_toNat_le, UInt8.lt_iff_toNat_lt] at kind ⊢
  have high : (90 : UInt8).toNat = 90 ∧ (122 : UInt8).toNat = 122 ∧ (57 : UInt8).toNat = 57 ∧
    (128 : UInt8).toNat = 128 := by decide
  omega

theorem keyPlain {byte : UInt8} (kind : isKeyByte byte = true) : byte < 128 := by
  simp only [isKeyByte, Bool.or_eq_true, beq_iff_eq] at kind
  rcases kind with ((kind | rfl) | rfl) | rfl
  · exact alphanumericPlain kind
  all_goals decide

theorem tokenPlain {byte : UInt8} (kind : isPrefixedTokenByte byte = true) : byte < 128 := by
  simp only [isPrefixedTokenByte, Bool.or_eq_true, beq_iff_eq] at kind
  rcases kind with (kind | rfl) | rfl
  · exact alphanumericPlain kind
  all_goals decide

theorem keyUnquoted {byte : UInt8} (kind : isKeyByte byte = true) : isQuote byte = false := by
  cases quote : isQuote byte with
  | false => rfl
  | true => rcases quoteCases quote with rfl | rfl <;> exact absurd kind (by decide)

section values
variable {input : Bytes} {start : Nat}

theorem runBoundary {kind : Nat → UInt8 → Bool} {stop : Nat} (run : Run input kind start stop)
    (plain : ∀ position byte, kind position byte = false → byte < 128) :
    isCharBoundary input stop = true := by
  rcases Nat.eq_or_lt_of_le run.bound with rfl | less
  · exact boundaryEnd input
  · have here := List.getElem?_eq_getElem less
    exact boundaryHere here (plain stop _ (run.ends _ here))

theorem runPlain (valid : Utf8 input) {kind : Nat → UInt8 → Bool} {stop : Nat}
    (between : isCharBoundary input start = true) (run : Run input kind start stop)
    (plain : ∀ position byte, kind position byte = true → byte < 128) :
    isCharBoundary input stop = true := by
  rcases Nat.eq_or_lt_of_le run.order with rfl | later
  · exact between
  · obtain ⟨n, rfl⟩ : ∃ n, stop = n + 1 := ⟨stop - 1, by omega⟩
    obtain ⟨byte, here, accepted⟩ := run.inside n (by omega) (Nat.lt_succ_self _)
    exact boundaryAfter valid here (plain n byte accepted)

theorem headUnmarked {byte : UInt8} (here : input[start]? = some byte) (other : byte ≠ 91) :
    ¬ redacted <+: input.drop start := by
  rintro ⟨tail, same⟩
  have head : input[start]? = some 91 := by
    rw [← List.head?_drop, ← same]
    rfl
  exact other (Option.some.inj (here.symm.trans head))

theorem valueFound (between : isCharBoundary input start = true) :
    ∃ found, valueStartingAt input start = some found ∧
      ∀ value, found = some value ↔ ValueAt input start value := by
  unfold valueStartingAt
  cases here : input[start]? with
  | none =>
    have beyond := List.getElem?_eq_none_iff.mp here
    refine ⟨none, rfl, fun value => ⟨nofun, fun there => ?_⟩⟩
    cases there with
    | unquoted stop _ run nonempty => have := run.bound; omega
    | quoted quote stop _ opens => simp [here] at opens
  | some first =>
    have less : start < input.length := (List.getElem?_eq_some_iff.mp here).1
    have rest : slice input start input.length = some (input.drop start) := by
      rw [sliceSome (Nat.le_of_lt less) between (boundaryEnd input), List.take_length]
    simp only [rest, Option.bind_eq_bind, Option.bind_some, Option.pure_def]
    by_cases marked : redacted.isPrefixOf (input.drop start) = true
    · have marked' := List.isPrefixOf_iff_prefix.mp marked
      rw [if_pos marked]
      refine ⟨none, rfl, fun value => ⟨nofun, fun there => ?_⟩⟩
      cases there with
      | unquoted stop unmarked => exact absurd marked' unmarked
      | quoted quote stop kind opens =>
        refine absurd marked' (headUnmarked opens ?_)
        rintro rfl
        exact absurd kind (by decide)
    · rw [if_neg marked]
      rw [List.isPrefixOf_iff_prefix] at marked
      by_cases quote : isQuote first = true
      · rw [if_pos quote]
        have run := scanRun
          (fun position byte => byte == first && !isEscaped input position) (Nat.succ_le_of_lt less)
        refine ⟨_, rfl, fun value => ⟨fun found => ?_, fun there => ?_⟩⟩
        · split at found
          · cases found
            exact .quoted first _ quote here run (by assumption)
          · cases found
        · cases there with
          | unquoted stop _ unquoted nonempty =>
            obtain ⟨byte, there, kind⟩ := unquoted.inside start (Nat.le_refl _) nonempty
            cases here.symm.trans there
            rcases quoteCases quote with rfl | rfl <;> exact absurd kind (by decide)
          | quoted other stop kind opens closes nonempty =>
            cases here.symm.trans opens
            cases runUnique run closes
            rw [if_pos nonempty]
      · rw [if_neg quote]
        have run : Run input (fun _ byte => !isUnquotedValueDelimiter byte) start
            (scanFrom input (fun _ byte => isUnquotedValueDelimiter byte) start) :=
          scanRun _ (Nat.le_of_lt less)
        refine ⟨_, rfl, fun value => ⟨fun found => ?_, fun there => ?_⟩⟩
        · split at found
          · cases found
            exact .unquoted _ marked run (by assumption)
          · cases found
        · cases there with
          | unquoted stop _ unquoted nonempty =>
            cases runUnique run unquoted
            rw [if_pos nonempty]
          | quoted other stop kind opens =>
            cases here.symm.trans opens
            exact absurd kind quote

theorem valueBoundary (valid : Utf8 input) (between : isCharBoundary input start = true)
    {value : Range} (there : ValueAt input start value) :
    isCharBoundary input value.1 = true ∧ isCharBoundary input value.2 = true ∧
      value.1 < value.2 := by
  cases there with
  | unquoted stop _ run nonempty =>
    refine ⟨between, runBoundary run fun _ byte ends => ?_, nonempty⟩
    exact delimiterPlain (by simpa using ends)
  | quoted quote stop kind opens run nonempty =>
    refine ⟨boundaryAfter valid opens (quotePlain kind), runBoundary run fun _ byte ends => ?_,
      nonempty⟩
    have same : byte = quote := by
      by_contra other
      simp [other] at ends
    exact same ▸ quotePlain kind

theorem skipBoundary (valid : Utf8 input) (between : isCharBoundary input start = true) :
    isCharBoundary input (skipHorizontalWhitespace input start) = true :=
  runPlain valid between (skipRun (boundaryBound between)) fun _ _ => blankPlain

end values

section keys
variable {input : Bytes}

theorem openingFound (quote : UInt8) (before opening : Nat) :
    previousUnescapedQuote input quote before = some opening ↔
      opening < before ∧ input[opening]? = some quote ∧ isEscaped input opening = false ∧
        ∀ position, opening < position → position < before → input[position]? = some quote →
          isEscaped input position = true := by
  induction before with
  | zero => simp [previousUnescapedQuote]
  | succ n ih =>
    simp only [previousUnescapedQuote, Bool.and_eq_true, beq_iff_eq, Bool.not_eq_true']
    split
    · rename_i here
      constructor
      · intro found
        cases found
        exact ⟨Nat.lt_succ_self _, here.1, here.2, fun position low high => by omega⟩
      · rintro ⟨less, opens, plain, nearest⟩
        rcases Nat.eq_or_lt_of_le (Nat.le_of_lt_succ less) with rfl | earlier
        · rfl
        · simp [nearest n earlier (Nat.lt_succ_self _) here.1] at here
    · rename_i other
      rw [ih]
      constructor
      · rintro ⟨less, opens, plain, nearest⟩
        refine ⟨Nat.lt_succ_of_lt less, opens, plain, fun position low high there => ?_⟩
        rcases Nat.eq_or_lt_of_le (Nat.le_of_lt_succ high) with rfl | earlier
        · cases escaped : isEscaped input position with
          | true => rfl
          | false => exact absurd ⟨there, escaped⟩ other
        · exact nearest position low earlier there
      · rintro ⟨less, opens, plain, nearest⟩
        refine ⟨?_, opens, plain, fun position low high => nearest position low (by omega)⟩
        rcases Nat.eq_or_lt_of_le (Nat.le_of_lt_succ less) with rfl | earlier
        · exact absurd ⟨opens, plain⟩ other
        · exact earlier

theorem keyFound (separator : Nat) (key : Range) :
    keyBeforeSeparator input separator = some key ↔ KeyBefore input separator key := by
  have blanks : RunBack input isHorizontalWhitespace _ separator :=
    scanBackRun isHorizontalWhitespace separator
  simp only [keyBeforeSeparator]
  constructor
  · intro found
    cases last : byteBefore input (scanBack input isHorizontalWhitespace separator) with
    | none => simp [last] at found
    | some byte =>
      obtain ⟨n, stop⟩ : ∃ n, scanBack input isHorizontalWhitespace separator = n + 1 := by
        cases stop : scanBack input isHorizontalWhitespace separator with
        | zero => simp [stop, byteBefore] at last
        | succ n => exact ⟨n, rfl⟩
      rw [stop] at blanks last found
      simp only [last, Nat.add_sub_cancel] at found
      split at found
      · rename_i kind
        cases opening : previousUnescapedQuote input byte n with
        | none => simp [opening] at found
        | some start =>
          simp only [opening] at found
          split at found
          · cases found
            obtain ⟨-, opens, plain, nearest⟩ := (openingFound byte n start).mp opening
            exact .quoted byte start n blanks kind last opens plain nearest (by assumption)
          · cases found
      · split at found
        · cases found
          exact .unquoted _ _ blanks (scanBackRun isKeyByte _) (by assumption)
        · cases found
  · intro there
    cases there with
    | unquoted start stop spaces key nonempty =>
      obtain ⟨n, rfl⟩ : ∃ n, stop = n + 1 := ⟨stop - 1, by omega⟩
      obtain ⟨byte, last, kind⟩ : ∃ byte, input[n]? = some byte ∧ isKeyByte byte = true := by
        have accepted := key.inside n (by omega) (Nat.lt_succ_self _)
        simpa [Option.any_eq_true] using accepted
      have same := runBackUnique (scanBackRun isKeyByte (n + 1)) key
      simp [runBackUnique blanks spaces, byteBefore, last, keyUnquoted kind, same, nonempty]
    | quoted quote opening closing spaces kind closes opens plain nearest nonempty =>
      have stop := runBackUnique blanks spaces
      have first := (openingFound quote closing opening).mpr ⟨by omega, opens, plain, nearest⟩
      simp [stop, byteBefore, closes, kind, first, nonempty]

theorem keyBoundary (valid : Utf8 input) {separator : Nat} {byte : UInt8}
    (here : input[separator]? = some byte) (kind : isSeparator byte = true) {key : Range}
    (there : KeyBefore input separator key) :
    isCharBoundary input key.1 = true ∧ isCharBoundary input key.2 = true ∧ key.1 < key.2 := by
  cases there with
  | unquoted start stop blanks key nonempty =>
    refine ⟨?_, ?_, nonempty⟩
    · obtain ⟨first, found, kind⟩ : ∃ byte, input[start]? = some byte ∧ isKeyByte byte = true := by
        have accepted := key.inside start (Nat.le_refl _) nonempty
        simpa [Option.any_eq_true] using accepted
      exact boundaryHere found (keyPlain kind)
    · rcases Nat.eq_or_lt_of_le blanks.order with rfl | less
      · exact boundaryHere here (separatorPlain kind)
      · obtain ⟨blank, found, kind⟩ :
            ∃ byte, input[stop]? = some byte ∧ isHorizontalWhitespace byte = true := by
          have accepted := blanks.inside stop (Nat.le_refl _) less
          simpa [Option.any_eq_true] using accepted
        exact boundaryHere found (blankPlain kind)
  | quoted quote opening closing blanks kind closes opens plain nearest nonempty =>
    exact ⟨boundaryAfter valid opens (quotePlain kind), boundaryHere closes (quotePlain kind),
      nonempty⟩

end keys

/-! What each scanner finds. A range either does not start at the marker or is a value in
quotes. -/

def Found (input : Bytes) (range : Range) : Prop :=
  ¬ redacted <+: input.drop range.1 ∨ ∃ start, ValueAt input start range

section scanners
variable {input : Bytes}

theorem credentialFound (valid : Utf8 input) {value : Range} {position : Nat}
    (between : isCharBoundary input position = true) (known : Found input value) :
    ∃ range, credentialAfter input value position = some range ∧ Found input range := by
  obtain ⟨found, read, there⟩ := valueFound (skipBoundary valid between)
  simp only [credentialAfter, read]
  cases found with
  | none => exact ⟨value, rfl, known⟩
  | some range => exact ⟨range, rfl, .inr ⟨_, (there range).mp rfl⟩⟩

theorem schemeFound (valid : Utf8 input) {start : Nat} {value : Range}
    (between : isCharBoundary input start = true) (there : ValueAt input start value)
    (scheme : Bytes) :
    ∃ found, schemeCredential input value scheme = some found ∧
      ∀ range, found = some range → Found input range := by
  have known : Found input value := .inr ⟨start, there⟩
  obtain ⟨low, high, nonempty⟩ := valueBoundary valid between there
  unfold schemeCredential
  dsimp only
  split
  · obtain ⟨range, read, found⟩ := credentialFound valid high known
    exact ⟨some range, by rw [read]; rfl, fun _ same => Option.some.inj same ▸ found⟩
  split
  · exact ⟨none, rfl, nofun⟩
  · rename_i passed
    simp only [Bool.or_eq_true, not_or, Bool.not_eq_true', Bool.not_eq_false] at passed
    obtain ⟨byte, here, kind⟩ : ∃ byte, input[value.1 + scheme.length]? = some byte ∧
        isHorizontalWhitespace byte = true := by
      have blank := passed.2
      rw [List.getElem?_drop, List.getElem?_take] at blank
      split at blank
      · simpa [Option.any_eq_true] using blank
      · cases blank
    obtain ⟨range, read, found⟩ :=
      credentialFound valid (boundaryHere here (blankPlain kind)) known
    exact ⟨some range, by rw [read]; rfl, fun _ same => Option.some.inj same ▸ found⟩

theorem authorizationFound (valid : Utf8 input) {start : Nat} {value : Range}
    (between : isCharBoundary input start = true) (there : ValueAt input start value) :
    ∃ range, authorizationSecretRange input value = some range ∧ Found input range := by
  obtain ⟨bearer, readBearer, foundBearer⟩ := schemeFound valid between there (ascii "bearer")
  obtain ⟨basic, readBasic, foundBasic⟩ := schemeFound valid between there (ascii "basic")
  simp only [authorizationSecretRange, readBearer, readBasic, Option.bind_eq_bind,
    Option.bind_some]
  cases bearer with
  | some range => exact ⟨range, rfl, foundBearer range rfl⟩
  | none =>
    cases basic with
    | some range => exact ⟨range, rfl, foundBasic range rfl⟩
    | none =>
      dsimp only
      split
      · exact ⟨value, rfl, .inr ⟨start, there⟩⟩
      · rename_i unquoted
        refine ⟨_, rfl, .inl ?_⟩
        cases there with
        | unquoted stop unmarked => exact unmarked
        | quoted quote stop kind opens => simp [byteBefore, opens, kind] at unquoted

theorem assignmentFound (valid : Utf8 input) (separator : Nat) :
    ∃ found, assignmentAt input separator = some found ∧ ∀ range ∈ found, Found input range := by
  unfold assignmentAt
  split
  · exact ⟨[], rfl, nofun⟩
  · rename_i passed
    obtain ⟨byte, here, kind⟩ :
        ∃ byte, input[separator]? = some byte ∧ isSeparator byte = true := by
      simpa [Option.any_eq_true] using passed
    cases before : keyBeforeSeparator input separator with
    | none => exact ⟨[], rfl, nofun⟩
    | some key =>
      obtain ⟨low, high, less⟩ := keyBoundary valid here kind ((keyFound separator key).mp before)
      have between := skipBoundary valid (boundaryAfter valid here (separatorPlain kind))
      obtain ⟨found, read, there⟩ := valueFound between
      simp only [sliceSome (Nat.le_of_lt less) low high, valueAfterSeparator, read,
        Option.bind_eq_bind, Option.bind_some]
      split
      · exact ⟨[], rfl, nofun⟩
      · cases found with
        | none => exact ⟨[], rfl, nofun⟩
        | some value =>
          have value' := (there value).mp rfl
          dsimp only
          split
          · obtain ⟨range, read, found⟩ := authorizationFound valid between value'
            exact ⟨[range], by rw [read]; rfl, fun other mem => List.mem_singleton.mp mem ▸ found⟩
          · exact ⟨[value], rfl, fun other mem => List.mem_singleton.mp mem ▸ .inr ⟨_, value'⟩⟩

theorem schemeAtFound (valid : Utf8 input) (scheme : Bytes) (looks : Bytes → Bool) (start : Nat) :
    ∃ found next, schemeAt input scheme looks start = some (found, next) ∧
      ∀ range ∈ found, Found input range := by
  unfold schemeAt
  dsimp only
  split
  · exact ⟨[], _, rfl, nofun⟩
  split
  · exact ⟨[], _, rfl, nofun⟩
  · rename_i passed
    simp only [Bool.or_eq_true, not_or, Bool.not_eq_true', Bool.not_eq_false] at passed
    obtain ⟨byte, here, kind⟩ : ∃ byte, input[start + scheme.length]? = some byte ∧
        isHorizontalWhitespace byte = true := by
      simpa [Option.any_eq_true] using passed.2
    have between := skipBoundary valid (boundaryHere here (blankPlain kind))
    obtain ⟨found, read, there⟩ := valueFound between
    simp only [read, Option.bind_eq_bind, Option.bind_some]
    cases found with
    | none => exact ⟨[], _, rfl, nofun⟩
    | some candidate =>
      have value := (there candidate).mp rfl
      obtain ⟨low, high, less⟩ := valueBoundary valid between value
      simp only [sliceSome (Nat.le_of_lt less) low high, Option.bind_some, Option.pure_def]
      refine ⟨_, _, rfl, fun range mem => ?_⟩
      split at mem
      · exact List.mem_singleton.mp mem ▸ .inr ⟨_, value⟩
      · cases mem

theorem jwtAtFound (valid : Utf8 input) (cursor : Nat) :
    ∃ found next, jwtAt input cursor = some (found, next) ∧
      ∀ range ∈ found, Found input range := by
  unfold jwtAt
  split
  · rename_i passed
    obtain ⟨tail, starts⟩ := List.isPrefixOf_iff_prefix.mp (Bool.and_eq_true_iff.mp passed).1
    have byte (n : Nat) (less : n < 3) : input[cursor + n]? = (ascii "eyJ")[n]? := by
      rw [← List.getElem?_drop, ← starts, List.getElem?_append_left less]
    have head : input[cursor]? = some 101 := byte 0 (by decide)
    have last : input[cursor + 2]? = some 74 := byte 2 (by decide)
    have low := boundaryHere head (by decide)
    have between := boundaryAfter valid last (by decide)
    have run : Run input (fun _ byte => isBase64Url byte || byte == 46) (cursor + 3)
        (scanFrom input (fun _ byte => !(isBase64Url byte || byte == 46)) (cursor + 3)) := by
      simpa using scanRun (fun _ byte => !(isBase64Url byte || byte == 46))
        (boundaryBound between)
    have high := runPlain valid between run fun _ byte kind => by
      rcases Bool.or_eq_true_iff.mp kind with kind | kind
      · exact tokenPlain kind
      · exact eq_of_beq kind ▸ by decide
    have order := run.order
    simp only [sliceSome (by omega) low high, Option.bind_eq_bind, Option.bind_some,
      Option.pure_def]
    split
    · refine ⟨_, _, rfl, fun range mem => ?_⟩
      exact List.mem_singleton.mp mem ▸ .inl (headUnmarked head (by decide))
    · exact ⟨[], _, rfl, nofun⟩
  · exact ⟨[], _, rfl, nofun⟩

theorem prefixedAtFound (valid : Utf8 input) (cursor : Nat) :
    ∃ found next, prefixedAt input cursor = some (found, next) ∧
      ∀ range ∈ found, Found input range := by
  unfold prefixedAt
  split
  · exact ⟨[], _, rfl, nofun⟩
  · rename_i passed
    simp only [Bool.or_eq_true, not_or, Bool.not_eq_true', Bool.not_eq_false] at passed
    obtain ⟨byte, head, kind⟩ :
        ∃ byte, input[cursor]? = some byte ∧ isPrefixedTokenByte byte = true := by
      simpa [Option.any_eq_true] using passed.1
    have low := boundaryHere head (tokenPlain kind)
    have between := boundaryAfter valid head (tokenPlain kind)
    have run : Run input (fun _ byte => isPrefixedTokenByte byte) (cursor + 1)
        (scanFrom input (fun _ byte => !isPrefixedTokenByte byte) (cursor + 1)) := by
      simpa using scanRun (fun _ byte => !isPrefixedTokenByte byte)
        (boundaryBound between)
    have high := runPlain valid between run fun _ _ => tokenPlain
    have order := run.order
    simp only [sliceSome (by omega) low high, Option.bind_eq_bind, Option.bind_some,
      Option.pure_def]
    refine ⟨_, _, rfl, fun range mem => ?_⟩
    split at mem
    · refine List.mem_singleton.mp mem ▸ .inl (headUnmarked head ?_)
      rintro rfl
      exact absurd kind (by decide)
    · cases mem

end scanners

/-! All ranges of a text. -/

theorem sweepFound {visit : Nat → Option (List Range × Nat)} {good : Range → Prop}
    (turn : ∀ position, ∃ found next, visit position = some (found, next) ∧
      ∀ range ∈ found, good range) (positions : List Nat) (cursor : Nat) :
    ∃ all, sweep visit positions cursor = some all ∧ ∀ range ∈ all, good range := by
  induction positions generalizing cursor with
  | nil => exact ⟨[], rfl, nofun⟩
  | cons position rest ih =>
    simp only [sweep]
    split
    · exact ih cursor
    · obtain ⟨found, next, visited, goods⟩ := turn position
      obtain ⟨more, swept, goods'⟩ := ih next
      simp only [visited, swept, Option.bind_eq_bind, Option.bind_some, Option.pure_def]
      exact ⟨found ++ more, rfl, fun range mem =>
        (List.mem_append.mp mem).elim (goods range) (goods' range)⟩

theorem sweepEach {at' : Nat → Option (List Range)} (count start cursor : Nat) (all : List Range)
    (before : cursor ≤ start)
    (swept : sweep (fun position => do return (← at' position, position + 1))
      (List.range' start count) cursor = some all)
    (position : Nat) (low : start ≤ position) (high : position < start + count) :
    ∃ found, at' position = some found ∧ found ⊆ all := by
  induction count generalizing start cursor all with
  | zero => omega
  | succ n ih =>
    rw [List.range'_succ, sweep, if_neg (Nat.not_lt.mpr before)] at swept
    simp only [Option.bind_eq_bind, Option.bind_eq_some_iff, Option.pure_def,
      Option.some.injEq] at swept
    obtain ⟨_, ⟨found, here, rfl⟩, more, rest, rfl⟩ := swept
    rcases Nat.eq_or_lt_of_le low with rfl | later
    · exact ⟨found, here, List.subset_append_left _ _⟩
    · obtain ⟨found', there, sub⟩ := ih (start + 1) (start + 1) more (Nat.le_refl _) rest later
        (by omega)
      exact ⟨found', there, List.subset_append_of_subset_right _ sub⟩

theorem rangesFound {input : Bytes} (valid : Utf8 input) :
    ∃ candidates, secretRanges input = some (normalizeRanges input candidates) ∧
      (∀ range ∈ candidates, Found input range) ∧
      ∀ separator < input.length, ∃ found, assignmentAt input separator = some found ∧
        found ⊆ candidates := by
  have turn (separator : Nat) : ∃ found next,
      (do return (← assignmentAt input separator, separator + 1) : Option (List Range × Nat)) =
        some (found, next) ∧ ∀ range ∈ found, Found input range := by
    obtain ⟨found, here, goods⟩ := assignmentFound valid separator
    exact ⟨found, separator + 1, by rw [here]; rfl, goods⟩
  obtain ⟨assignments, read, goods⟩ := sweepFound turn (List.range input.length) 0
  obtain ⟨bearer, readBearer, goodsBearer⟩ :=
    sweepFound (schemeAtFound valid (ascii "bearer") looksLikeBearer) (List.range input.length) 0
  obtain ⟨basic, readBasic, goodsBasic⟩ :=
    sweepFound (schemeAtFound valid (ascii "basic") looksLikeBasic) (List.range input.length) 0
  obtain ⟨jwts, readJwts, goodsJwts⟩ :=
    sweepFound (jwtAtFound valid) (List.range input.length) 0
  obtain ⟨prefixed, readPrefixed, goodsPrefixed⟩ :=
    sweepFound (prefixedAtFound valid) (List.range input.length) 0
  refine ⟨assignments ++ (bearer ++ basic) ++ jwts ++ prefixed, ?_, fun range mem => ?_, ?_⟩
  · have readAssignments : collectAssignmentRanges input = some assignments := read
    simp only [secretRanges, readAssignments, collectSchemeRanges, readBearer, readBasic,
      collectJwtRanges, readJwts, collectPrefixedCredentialRanges, readPrefixed,
      Option.bind_eq_bind, Option.bind_some, Option.pure_def]
  · simp only [List.mem_append] at mem
    rcases mem with ((mem | mem | mem) | mem) | mem
    · exact goods range mem
    · exact goodsBearer range mem
    · exact goodsBasic range mem
    · exact goodsJwts range mem
    · exact goodsPrefixed range mem
  · intro separator less
    rw [List.range_eq_range'] at read
    obtain ⟨found, here, sub⟩ := sweepEach input.length 0 0 assignments (Nat.le_refl _) read
      separator (Nat.zero_le _) (by omega)
    refine ⟨found, here, fun range mem => ?_⟩
    simp only [List.mem_append]
    exact .inl (.inl (.inl (sub mem)))

def Covered (ranges : List Range) (position : Nat) : Prop :=
  ∃ range ∈ ranges, range.1 ≤ position ∧ position < range.2

/-- The merged ranges lie apart, cover what the ranges cover and begin and end where some of
the ranges do. -/
structure Merged (ranges merged : List Range) : Prop where
  proper : ∀ range ∈ merged, range.1 < range.2
  separate : merged.Pairwise fun a b => a.2 < b.1
  covers : ∀ position, Covered merged position ↔ Covered ranges position
  starts : ∀ range ∈ merged, ∃ source ∈ ranges, source.1 = range.1
  stops : ∀ range ∈ merged, ∃ source ∈ ranges, source.2 = range.2

theorem coveredCons {range : Range} {ranges : List Range} {position : Nat} :
    Covered (range :: ranges) position ↔
      (range.1 ≤ position ∧ position < range.2) ∨ Covered ranges position := by
  simp [Covered]

theorem mergeIntoMerged (last : Range) (rest : List Range) (lastProper : last.1 < last.2)
    (proper : ∀ range ∈ rest, range.1 < range.2) (behind : ∀ range ∈ rest, last.1 ≤ range.1)
    (ordered : rest.Pairwise fun a b => a.1 ≤ b.1) :
    Merged (last :: rest) (mergeInto last rest) ∧
      ∀ range ∈ mergeInto last rest, last.1 ≤ range.1 := by
  induction rest generalizing last with
  | nil =>
    refine ⟨⟨?_, List.pairwise_singleton _ _, fun _ => Iff.rfl, ?_, ?_⟩, ?_⟩
    all_goals simp [mergeInto, lastProper]
  | cons range rest ih =>
    have properRest := fun other mem => proper other (List.mem_cons_of_mem _ mem)
    have properHere := proper range List.mem_cons_self
    have orderedRest := List.pairwise_cons.mp ordered
    have startsHere := behind range List.mem_cons_self
    simp only [mergeInto]
    split
    · rename_i touches
      have ⟨merged, low⟩ := ih (last.1, max last.2 range.2) (by simp; omega) properRest
        (fun other mem => behind other (List.mem_cons_of_mem _ mem)) orderedRest.2
      refine ⟨⟨merged.proper, merged.separate, fun position => ?_, fun other mem => ?_,
        fun other mem => ?_⟩, low⟩
      · rw [merged.covers, coveredCons, coveredCons, coveredCons, ← or_assoc]
        refine or_congr ?_ Iff.rfl
        dsimp only
        omega
      · obtain ⟨source, mem', same⟩ := merged.starts other mem
        rcases List.mem_cons.mp mem' with rfl | mem'
        · exact ⟨last, List.mem_cons_self, same⟩
        · exact ⟨source, by simp [mem'], same⟩
      · obtain ⟨source, mem', same⟩ := merged.stops other mem
        rcases List.mem_cons.mp mem' with rfl | mem'
        · rcases Nat.le_total last.2 range.2 with less | less
          · exact ⟨range, by simp, by rw [← same]; simp [less]⟩
          · exact ⟨last, by simp, by rw [← same]; simp [less]⟩
        · exact ⟨source, by simp [mem'], same⟩
    · rename_i apart
      have ⟨merged, low⟩ := ih range properHere properRest orderedRest.1 orderedRest.2
      refine ⟨⟨fun other mem => ?_, List.pairwise_cons.mpr ⟨fun other mem => ?_,
        merged.separate⟩, fun position => ?_, fun other mem => ?_, fun other mem => ?_⟩,
        fun other mem => ?_⟩
      · rcases List.mem_cons.mp mem with rfl | mem
        · exact lastProper
        · exact merged.proper other mem
      · have := low other mem
        omega
      · rw [coveredCons, merged.covers, ← coveredCons]
      · rcases List.mem_cons.mp mem with rfl | mem
        · exact ⟨other, List.mem_cons_self, rfl⟩
        · obtain ⟨source, mem', same⟩ := merged.starts other mem
          exact ⟨source, List.mem_cons_of_mem _ mem', same⟩
      · rcases List.mem_cons.mp mem with rfl | mem
        · exact ⟨other, List.mem_cons_self, rfl⟩
        · obtain ⟨source, mem', same⟩ := merged.stops other mem
          exact ⟨source, List.mem_cons_of_mem _ mem', same⟩
      · rcases List.mem_cons.mp mem with rfl | mem
        · exact Nat.le_refl _
        · have := low other mem
          omega

instance : Std.Total Earlier := ⟨fun a b => by unfold Earlier; omega⟩
instance : IsTrans Range Earlier := ⟨fun a b c => by unfold Earlier; omega⟩

theorem normalizeMerged (input : Bytes) (ranges : List Range) :
    Merged (ranges.filter fun range => Retained input range) (normalizeRanges input ranges) := by
  unfold normalizeRanges
  generalize kept : ranges.filter (fun range => Retained input range) = retained
  have proper (range : Range) (mem : range ∈ retained) : range.1 < range.2 := by
    rw [← kept, List.mem_filter] at mem
    exact (of_decide_eq_true mem.2).1
  have sorted := List.pairwise_insertionSort Earlier retained
  have same := List.perm_insertionSort Earlier retained
  generalize retained.insertionSort Earlier = list at sorted same
  have merged : Merged list (mergeRanges list) := by
    cases list with
    | nil => exact ⟨nofun, List.Pairwise.nil, fun _ => Iff.rfl, nofun, nofun⟩
    | cons first rest =>
      have ⟨least, ordered⟩ := List.pairwise_cons.mp sorted
      have proper' := fun range mem => proper range (same.mem_iff.mp mem)
      have starts {a b : Range} (earlier : Earlier a b) : a.1 ≤ b.1 := by
        unfold Earlier at earlier; omega
      exact (mergeIntoMerged first rest (proper' first List.mem_cons_self)
        (fun range mem => proper' range (List.mem_cons_of_mem _ mem))
        (fun range mem => starts (least range mem)) (ordered.imp starts)).1
  refine ⟨merged.proper, merged.separate, fun position => ?_, fun range mem => ?_,
    fun range mem => ?_⟩
  · rw [merged.covers]
    simp only [Covered, same.mem_iff]
  · obtain ⟨source, mem', at'⟩ := merged.starts range mem
    exact ⟨source, same.mem_iff.mp mem', at'⟩
  · obtain ⟨source, mem', at'⟩ := merged.stops range mem
    exact ⟨source, same.mem_iff.mp mem', at'⟩

inductive Replaces : Nat → List Range → Bytes → Bytes → Prop
  | rest (position : Nat) (text : Bytes) : Replaces position [] text text
  | marker (position : Nat) (kept secret : Bytes) (ranges : List Range) (text output : Bytes)
      (behind : Replaces (position + kept.length + secret.length) ranges text output) :
      Replaces position
        ((position + kept.length, position + kept.length + secret.length) :: ranges)
        (kept ++ secret ++ text) (kept ++ redacted ++ output)

theorem dropSplit (input : Bytes) {a b : Nat} (order : a ≤ b) :
    input.drop a = (input.take b).drop a ++ input.drop b := by
  have behind : input.drop b = (input.drop a).drop (b - a) := by
    rw [List.drop_drop, Nat.add_sub_cancel' order]
  rw [List.drop_take, behind, List.take_append_drop]

theorem redactedUtf8 : Utf8 redacted := ⟨"[REDACTED]".toList, by decide⟩

theorem renderReplaces {input : Bytes} (valid : Utf8 input) (ranges : List Range) (cursor : Nat)
    (between : isCharBoundary input cursor = true)
    (whole : ∀ range ∈ ranges, range.1 < range.2 ∧ isCharBoundary input range.1 = true ∧
      isCharBoundary input range.2 = true)
    (separate : ranges.Pairwise fun a b => a.2 < b.1) (ahead : ∀ range ∈ ranges, cursor ≤ range.1) :
    ∃ output, renderFrom input cursor ranges = some output ∧ Utf8 output ∧
      Replaces cursor ranges (input.drop cursor) output := by
  induction ranges generalizing cursor with
  | nil =>
    refine ⟨input.drop cursor, ?_, (boundaryCut valid between).2, .rest _ _⟩
    rw [renderFrom, sliceSome (boundaryBound between) between (boundaryEnd input),
      List.take_length]
  | cons range rest ih =>
    obtain ⟨start, stop⟩ := range
    obtain ⟨less, low, high⟩ := whole (start, stop) List.mem_cons_self
    have order := ahead (start, stop) List.mem_cons_self
    have ⟨apart, separate'⟩ := List.pairwise_cons.mp separate
    obtain ⟨output, rendered, valid', replaced⟩ := ih stop high
      (fun other mem => whole other (List.mem_cons_of_mem _ mem)) separate'
      (fun other mem => Nat.le_of_lt (apart other mem))
    have bound := boundaryBound high
    dsimp only at less low order
    have kept : ((input.take start).drop cursor).length = start - cursor := by
      rw [List.length_drop, List.length_take]; omega
    have secret : ((input.take stop).drop start).length = stop - start := by
      rw [List.length_drop, List.length_take]; omega
    have text : input.drop cursor =
        (input.take start).drop cursor ++ (input.take stop).drop start ++ input.drop stop := by
      rw [List.append_assoc, ← dropSplit input (Nat.le_of_lt less), ← dropSplit input order]
    have valid'' := sliceUtf8 valid (sliceSome order between low)
    refine ⟨(input.take start).drop cursor ++ redacted ++ output, ?_,
      utf8Append (utf8Append valid'' redactedUtf8) valid', ?_⟩
    · simp only [renderFrom, sliceSome order between low, rendered, Option.bind_eq_bind,
        Option.bind_some, Option.pure_def]
    · have starts : cursor + (start - cursor) = start := by omega
      have stops : start + (stop - start) = stop := by omega
      have replaces := Replaces.marker cursor ((input.take start).drop cursor)
        ((input.take stop).drop start) rest (input.drop stop) output
      rw [kept, secret, starts, stops] at replaces
      rw [text]
      exact replaces replaced

theorem normalizeWhole (input : Bytes) (ranges : List Range) :
    ∀ range ∈ normalizeRanges input ranges, range.1 < range.2 ∧
      isCharBoundary input range.1 = true ∧ isCharBoundary input range.2 = true := by
  intro range mem
  have merged := normalizeMerged input ranges
  have whole (source : Range) (mem : source ∈ ranges.filter fun range => Retained input range) :
      isCharBoundary input source.1 = true ∧ isCharBoundary input source.2 = true := by
    have retained : Retained input source := of_decide_eq_true (List.mem_filter.mp mem).2
    obtain ⟨text, taken⟩ := Option.isSome_iff_exists.mp retained.2.1
    obtain ⟨-, low, high, -⟩ := sliceShape taken
    exact ⟨low, high⟩
  obtain ⟨first, memFirst, starts⟩ := merged.starts range mem
  obtain ⟨last, memLast, stops⟩ := merged.stops range mem
  exact ⟨merged.proper range mem, starts ▸ (whole first memFirst).1,
    stops ▸ (whole last memLast).2⟩

theorem redactTextFound {input : Bytes} (valid : Utf8 input) :
    ∃ candidates output, secretRanges input = some (normalizeRanges input candidates) ∧
      (∀ range ∈ candidates, Found input range) ∧
      (∀ separator < input.length, ∃ found, assignmentAt input separator = some found ∧
        found ⊆ candidates) ∧
      redactText input = some (if normalizeRanges input candidates = [] then none else some output) ∧
      Utf8 output ∧ Replaces 0 (normalizeRanges input candidates) input output := by
  obtain ⟨candidates, read, goods, assigned⟩ := rangesFound valid
  obtain ⟨output, rendered, valid', replaced⟩ := renderReplaces valid (normalizeRanges input candidates) 0
    (boundaryIff.mpr (.inl rfl)) (normalizeWhole input candidates)
    (normalizeMerged input candidates).separate fun _ _ => Nat.zero_le _
  refine ⟨candidates, output, read, goods, assigned, ?_, valid', replaced⟩
  simp only [redactText, read, Option.bind_eq_bind, Option.bind_some, Option.pure_def, rendered]
  split <;> rfl

/-! A copy differs from the text. -/

theorem quotesDrop {position : Nat} {ranges : List Range} {text output : Bytes}
    (replaced : Replaces position ranges text output) :
    output.countP isQuote ≤ text.countP isQuote := by
  induction replaced with
  | rest => exact Nat.le_refl _
  | marker position kept secret ranges text output behind ih =>
    have none' : redacted.countP isQuote = 0 := by decide
    simp only [List.countP_append, none']
    omega

theorem outputHead {position : Nat} {ranges : List Range} {text output : Bytes}
    (replaced : Replaces position ranges text output)
    (apart : ∀ range ∈ ranges, position < range.1) :
    output = text ∨ ∃ byte, text.head? = some byte ∧ output.head? = some byte := by
  cases replaced with
  | rest => exact .inl rfl
  | marker _ kept secret ranges text output behind =>
    have less := apart _ List.mem_cons_self
    cases kept with
    | nil => simp at less
    | cons byte kept => exact .inr ⟨byte, rfl, rfl⟩

theorem markedQuoted {input : Bytes} {source : Range} (found : Found input source)
    (marked : redacted <+: input.drop source.1) :
    ∃ quote, isQuote quote = true ∧ source.1 < source.2 ∧ source.2 ≤ input.length ∧
      ∀ byte, input[source.2]? = some byte → byte = quote := by
  rcases found with unmarked | ⟨start, there⟩
  · exact absurd marked unmarked
  · cases there with
    | unquoted stop unmarked => exact absurd marked unmarked
    | quoted quote stop kind opens run nonempty =>
      refine ⟨quote, kind, nonempty, run.bound, fun byte here => ?_⟩
      by_contra other
      have ends := run.ends byte here
      simp [other] at ends

theorem redactTextChanges {input output : Bytes} (valid : Utf8 input)
    (copied : redactText input = some (some output)) : output ≠ input := by
  obtain ⟨candidates, rendered, read, goods, -, found, -, replaced⟩ := redactTextFound valid
  have merged := normalizeMerged input candidates
  generalize normalizeRanges input candidates = ranges at merged found replaced
  rw [copied] at found
  split at found
  · cases Option.some.inj found
  rename_i some'
  cases Option.some.inj (Option.some.inj found)
  intro unchanged
  cases replaced with
  | rest => exact some' rfl
  | marker _ kept secret rest text output behind =>
    -- No secret holds a quote, or the copy would hold fewer.
    have quotes := congrArg (List.countP isQuote) unchanged
    have none' : redacted.countP isQuote = 0 := by decide
    simp only [List.countP_append, none'] at quotes
    have fewer := quotesDrop behind
    have bare : ∀ byte ∈ secret, ¬ isQuote byte = true :=
      List.countP_eq_zero.mp (by omega)
    rw [List.append_assoc, List.append_assoc, List.append_cancel_left_eq] at unchanged
    rw [Nat.zero_add] at merged behind
    obtain ⟨source, mem, starts⟩ := merged.starts _ List.mem_cons_self
    obtain ⟨known, retained⟩ := List.mem_filter.mp mem
    dsimp only at starts
    have here : (kept ++ secret ++ text).drop source.1 = secret ++ text := by
      rw [starts, List.append_assoc, List.drop_left]
    obtain ⟨quote, kind, less, bound, closes⟩ :=
      markedQuoted (goods source known) (by rw [here]; exact ⟨output, unchanged⟩)
    have apart := (List.pairwise_cons.mp merged.separate).1
    dsimp only at apart
    have stops : source.2 = kept.length + secret.length := by
      apply Nat.le_antisymm
      · by_contra beyond
        obtain ⟨range, mem', low, high⟩ := (merged.covers (kept.length + secret.length)).mpr
          ⟨source, mem, by omega, by omega⟩
        rcases List.mem_cons.mp mem' with rfl | mem'
        · dsimp only at high
          omega
        · have := apart range mem'
          omega
      · by_contra within
        have inside : source.2 - kept.length < secret.length := by omega
        have there : (kept ++ secret ++ text)[source.2]? = some secret[source.2 - kept.length] := by
          rw [List.append_assoc, List.getElem?_append_right (by omega),
            List.getElem?_append_left inside, List.getElem?_eq_getElem inside]
        exact bare _ (List.getElem_mem inside) (closes _ there ▸ kind)
    have behind' : (kept ++ secret ++ text)[source.2]? = text.head? := by
      rw [stops, List.getElem?_append_right (by simp)]
      simp [List.head?_eq_getElem?]
    rw [behind'] at closes
    have changed : secret ≠ redacted := by
      obtain ⟨-, whole, other⟩ := of_decide_eq_true retained
      obtain ⟨taken, slice'⟩ := Option.isSome_iff_exists.mp whole
      obtain ⟨-, -, -, shape⟩ := sliceShape slice'
      rw [slice', shape, starts, stops, ← List.length_append, List.take_left, List.drop_left] at other
      exact fun marker => other (congrArg some marker)
    rcases List.append_eq_append_iff.mp unchanged with ⟨more, longer, tail⟩ | ⟨more, shorter, tail⟩
    · cases more with
      | nil => exact changed (by simpa using longer)
      | cons byte more =>
        rcases outputHead behind apart with same | ⟨next, first, second⟩
        · have length := congrArg List.length (same.symm.trans tail)
          simp at length
          omega
        · rw [tail, List.cons_append, List.head?_cons] at second
          cases second
          exact bare byte (by simp [longer]) (closes byte first ▸ kind)
    · cases more with
      | nil => exact changed (by simpa using shorter.symm)
      | cons byte more =>
        have plain : ∀ byte ∈ redacted, ¬ isQuote byte = true := by decide +kernel
        exact plain byte (by simp [shorter]) (closes byte (by simp [tail]) ▸ kind)

/-- A key whose value has to go; the two authorization headers follow a rule of their own. -/
def Sensitive (input : Bytes) (key : Range) : Prop :=
  let normalized := normalizeKey ((input.take key.2).drop key.1)
  (isSensitiveNormalizedKey normalized = true ∨
    ((byteBefore input key.1).any (fun byte => byte == 63 || byte == 38 || byte == 59) = true ∧
      queryOnlyKeys.contains normalized = true)) ∧
    normalized ≠ ascii "authorization" ∧ normalized ≠ ascii "proxyauthorization"

theorem sensitiveAssigned {input : Bytes} (valid : Utf8 input) {separator : Nat} {byte : UInt8}
    {key value : Range} (here : input[separator]? = some byte) (kind : isSeparator byte = true)
    (before : KeyBefore input separator key) (sensitive : Sensitive input key)
    (after : ValueAfter input separator value) :
    assignmentAt input separator = some [value] := by
  obtain ⟨low, high, less⟩ := keyBoundary valid here kind before
  have between := boundaryAfter valid here (separatorPlain kind)
  obtain ⟨start, blanks, there⟩ := after
  have skipped := runUnique (skipRun (boundaryBound between)) blanks
  obtain ⟨found, read, exactly⟩ := valueFound (skipBoundary valid between)
  rw [skipped] at exactly
  cases (exactly value).mpr there
  obtain ⟨named, notHeader, notProxy⟩ := sensitive
  simp only [assignmentAt, here, Option.any_some, kind, Bool.not_true, Bool.false_eq_true,
    if_false, (keyFound separator key).mpr before, sliceSome (Nat.le_of_lt less) low high,
    valueAfterSeparator, read, Option.bind_eq_bind, Option.bind_some, Option.pure_def]
  have other : (normalizeKey ((input.take key.2).drop key.1) == ascii "authorization" ||
      normalizeKey ((input.take key.2).drop key.1) == ascii "proxyauthorization") = false := by
    simp [notHeader, notProxy]
  rw [← Bool.and_eq_true, ← Bool.or_eq_true] at named
  rw [if_neg (by rw [named]; decide), if_neg (Bool.eq_false_iff.mp other)]

/-- No slice panics, the text is exact outside the merged ranges, and the value of every
sensitive key lies in them. -/
theorem redactTextFailClosed (text : List Char) :
    let input := text.flatMap String.utf8EncodeChar
    ∃ ranges found, secretRanges input = some ranges ∧ redactText input = some found ∧
      (∀ range ∈ ranges, isCharBoundary input range.1 = true ∧
        isCharBoundary input range.2 = true) ∧
      ranges.Pairwise (fun a b => a.2 < b.1) ∧
      Utf8 (found.getD input) ∧ Replaces 0 ranges input (found.getD input) ∧
      ∀ separator byte key value, input[separator]? = some byte → isSeparator byte = true →
        KeyBefore input separator key → Sensitive input key → ValueAfter input separator value →
        (input.take value.2).drop value.1 ≠ redacted →
        ∀ position, value.1 ≤ position → position < value.2 → Covered ranges position := by
  intro input
  have valid : Utf8 input := ⟨text, rfl⟩
  obtain ⟨candidates, output, read, -, assigned, found, valid', replaced⟩ := redactTextFound valid
  have merged := normalizeMerged input candidates
  refine ⟨normalizeRanges input candidates, _, read, found,
    fun range mem => (normalizeWhole input candidates range mem).2, merged.separate, ?_, ?_, ?_⟩
  · split
    · exact valid
    · exact valid'
  · split
    · rename_i empty
      rw [empty]
      exact .rest 0 input
    · exact replaced
  · intro separator byte key value here kind before sensitive after unmarked position low high
    obtain ⟨range, exactly, sub⟩ := assigned separator (List.getElem?_eq_some_iff.mp here).1
    rw [sensitiveAssigned valid here kind before sensitive after] at exactly
    cases exactly
    have between := boundaryAfter valid here (separatorPlain kind)
    obtain ⟨start, blanks, there⟩ := after
    rw [← runUnique (skipRun (boundaryBound between)) blanks] at there
    obtain ⟨first, last, less⟩ := valueBoundary valid (skipBoundary valid between) there
    have taken := sliceSome (Nat.le_of_lt less) first last
    have retained : Retained input value := by
      refine ⟨less, by rw [taken]; rfl, ?_⟩
      rw [taken]
      exact fun marker => unmarked (Option.some.inj marker)
    refine (merged.covers position).mpr ⟨value, List.mem_filter.mpr ⟨?_, ?_⟩, low, high⟩
    · exact sub (List.mem_singleton.mpr rfl)
    · exact decide_eq_true retained

end Maestro.Redaction
