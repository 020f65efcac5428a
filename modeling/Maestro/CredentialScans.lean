import Maestro.SecretRanges

/-! Exactly what each scanner finds, whatever stands before and after it, and which free-standing
credentials are passed over. -/
namespace Maestro.Redaction

section Sweeps
variable {visit : Nat → Option (List Range × Nat)} {Finds : Nat → Range → Prop} {inv : Nat → Nat → Prop}

theorem sweepFinds (jumps : ∀ position cursor, inv position cursor → position < cursor →
      (∀ range, ¬ Finds position range) ∧ inv (position + 1) cursor)
    (visits : ∀ position cursor, inv position cursor → cursor ≤ position → ∃ found next,
      visit position = some (found, next) ∧ (∀ range, range ∈ found ↔ Finds position range) ∧
        inv (position + 1) next)
    (count start cursor : Nat) (holds : inv start cursor) :
    ∃ all, sweep visit (List.range' start count) cursor = some all ∧
      ∀ range, range ∈ all ↔ ∃ position, start ≤ position ∧ position < start + count ∧ Finds position range := by
  induction count generalizing start cursor with
  | zero =>
    refine ⟨[], rfl, fun range => ⟨nofun, ?_⟩⟩
    rintro ⟨position, low, high, _⟩
    omega
  | succ n ih =>
    have first : ∀ range, (∃ position, start ≤ position ∧ position < start + (n + 1) ∧ Finds position range) ↔
        Finds start range ∨ ∃ position, start + 1 ≤ position ∧ position < start + 1 + n ∧ Finds position range := by
      intro range
      constructor
      · rintro ⟨position, low, high, finds⟩
        rcases Nat.eq_or_lt_of_le low with rfl | later
        · exact .inl finds
        · exact .inr ⟨position, later, by omega, finds⟩
      · rintro (finds | ⟨position, low, high, finds⟩)
        · exact ⟨start, Nat.le_refl _, by omega, finds⟩
        · exact ⟨position, by omega, by omega, finds⟩
    rw [List.range'_succ, sweep]
    split
    · rename_i before
      obtain ⟨none', next⟩ := jumps start cursor holds before
      obtain ⟨all, swept, exactly⟩ := ih (start + 1) cursor next
      refine ⟨all, swept, fun range => ?_⟩
      rw [exactly, first, or_iff_right (none' range)]
    · rename_i behind
      obtain ⟨found, next, visited, here, later⟩ := visits start cursor holds (Nat.not_lt.mp behind)
      obtain ⟨all, swept, exactly⟩ := ih (start + 1) next later
      refine ⟨found ++ all, by simp only [visited, swept, Option.bind_eq_bind, Option.bind_some, Option.pure_def],
        fun range => ?_⟩
      rw [List.mem_append, here, exactly, first]

theorem sweepText {input : Bytes} (jumps : ∀ position cursor, inv position cursor → position < cursor →
      (∀ range, ¬ Finds position range) ∧ inv (position + 1) cursor)
    (visits : ∀ position cursor, inv position cursor → cursor ≤ position → ∃ found next,
      visit position = some (found, next) ∧ (∀ range, range ∈ found ↔ Finds position range) ∧
        inv (position + 1) next)
    (inside : ∀ position range, Finds position range → position < input.length) (holds : inv 0 0) :
    ∃ all, sweep visit (List.range input.length) 0 = some all ∧
      ∀ range, range ∈ all ↔ ∃ position, Finds position range := by
  rw [List.range_eq_range']
  obtain ⟨all, swept, exactly⟩ := sweepFinds jumps visits input.length 0 0 holds
  refine ⟨all, swept, fun range => (exactly range).trans ⟨?_, ?_⟩⟩
  · rintro ⟨position, _, _, finds⟩
    exact ⟨position, finds⟩
  · rintro ⟨position, finds⟩
    exact ⟨position, Nat.zero_le _, by have := inside position range finds; omega, finds⟩

end Sweeps

section Scanners
variable {input : Bytes}

theorem someAny {kind : UInt8 → Bool} {byte : Option UInt8} :
    byte.any kind = true ↔ ∃ found, byte = some found ∧ kind found = true := by
  cases byte <;> simp

structure Token (input : Bytes) (start stop : Nat) : Prop where
  begins : isPrefixedTokenBoundary (byteBefore input start) = true
  run : Run input (fun _ byte => isPrefixedTokenByte byte) start stop
  nonempty : start < stop

def PrefixedAt (input : Bytes) (start : Nat) (range : Range) : Prop :=
  range.1 = start ∧ Token input start range.2 ∧
    looksLikePrefixedCredential ((input.take range.2).drop start) = true

theorem runFirst {kind : Nat → UInt8 → Bool} {start stop : Nat} (run : Run input kind start stop) (nonempty : start < stop) :
    ∃ byte, input[start]? = some byte ∧ kind start byte = true ∧ Run input kind (start + 1) stop := by
  obtain ⟨byte, here, accepted⟩ := run.inside start (Nat.le_refl _) nonempty
  exact ⟨byte, here, accepted, nonempty, run.bound,
    fun position low high => run.inside position (Nat.le_of_succ_le low) high, run.ends⟩

theorem runExtends {kind : Nat → UInt8 → Bool} {start stop : Nat} {byte : UInt8} (here : input[start]? = some byte)
    (accepted : kind start byte = true) (run : Run input kind (start + 1) stop) : Run input kind start stop := by
  refine ⟨Nat.le_of_succ_le run.order, run.bound, fun position low high => ?_, run.ends⟩
  rcases Nat.eq_or_lt_of_le low with rfl | later
  · exact ⟨byte, here, accepted⟩
  · exact run.inside position later high

theorem tokenScan {start : Nat} {byte : UInt8} (here : input[start]? = some byte) :
    Run input (fun _ byte => isPrefixedTokenByte byte) (start + 1)
      (scanFrom input (fun _ byte => !isPrefixedTokenByte byte) (start + 1)) := by
  simpa using scanRun (fun _ byte => !isPrefixedTokenByte byte) (List.getElem?_eq_some_iff.mp here).1

theorem tokenWhole (valid : Utf8 input) {start stop : Nat} (token : Token input start stop) :
    isCharBoundary input start = true ∧ isCharBoundary input stop = true := by
  obtain ⟨byte, here, kind, rest⟩ := runFirst token.run token.nonempty
  exact ⟨boundaryHere here (tokenPlain kind),
    runPlain valid (boundaryAfter valid here (tokenPlain kind)) rest fun _ _ => tokenPlain⟩

theorem prefixedFinds (valid : Utf8 input) : ∃ all, collectPrefixedCredentialRanges input = some all ∧
    ∀ range, range ∈ all ↔ ∃ start, PrefixedAt input start range := by
  refine @sweepText _ _ (fun position cursor => ∀ place, position ≤ place → place < cursor →
    isPrefixedTokenBoundary (byteBefore input place) = false) input ?_ ?_ ?_ ?_
  · intro position cursor inside before
    refine ⟨fun range found => ?_, fun place low high => inside place (Nat.le_of_succ_le low) high⟩
    have begins := found.2.1.begins
    rw [inside position (Nat.le_refl _) before] at begins
    cases begins
  · intro position cursor _ _
    unfold prefixedAt
    split
    · rename_i refused
      refine ⟨[], _, rfl, fun range => ⟨nofun, fun found => ?_⟩, fun place low high => absurd low (by omega)⟩
      obtain ⟨byte, here, kind, _⟩ := runFirst found.2.1.run found.2.1.nonempty
      simp [here, kind, found.2.1.begins] at refused
    · rename_i passed
      simp only [Bool.or_eq_true, not_or, Bool.not_eq_true', Bool.not_eq_false] at passed
      obtain ⟨byte, here, kind⟩ := someAny.mp passed.1
      have rest := tokenScan here
      have token : Token input position (scanFrom input (fun _ byte => !isPrefixedTokenByte byte) (position + 1)) :=
        ⟨passed.2, runExtends here kind rest, rest.order⟩
      obtain ⟨low, high⟩ := tokenWhole valid token
      simp only [sliceSome (Nat.le_of_lt token.nonempty) low high, Option.bind_eq_bind, Option.bind_some,
        Option.pure_def]
      refine ⟨_, _, rfl, fun range => ?_, fun place low high => ?_⟩
      · constructor
        · intro member
          split at member
          · rename_i looks
            cases List.mem_singleton.mp member
            exact ⟨rfl, token, looks⟩
          · cases member
        · rintro ⟨first, other, looks⟩
          have stops := runUnique other.run token.run
          rw [if_pos (stops ▸ looks), List.mem_singleton]
          exact Prod.ext first stops
      · obtain ⟨before, rfl⟩ : ∃ before, place = before + 1 := ⟨place - 1, by omega⟩
        obtain ⟨other, there, kind⟩ := token.run.inside before (by omega) (by omega)
        simp only [isPrefixedTokenBoundary, byteBefore, there, Option.all_some, kind, Bool.not_true]
  · intro position range found
    exact Nat.lt_of_lt_of_le found.2.1.nonempty found.2.1.run.bound
  · exact fun place _ high => absurd high (Nat.not_lt_zero _)

theorem splitLast {separator : UInt8} {text : Bytes} (free : separator ∉ text) : splitOn separator text = [text] := by
  induction text with
  | nil => rfl
  | cons byte text ih =>
    have other : byte ≠ separator := fun same => free (same ▸ List.mem_cons_self)
    rw [splitOn, ih fun member => free (List.mem_cons_of_mem _ member)]
    simp [other]

theorem splitSome {separator : UInt8} {text : Bytes} : splitOn separator text ≠ [] := by
  cases text with
  | nil => exact List.cons_ne_nil _ _
  | cons byte text =>
    unfold splitOn
    split
    · exact List.cons_ne_nil _ _
    · split <;> exact List.cons_ne_nil _ _

theorem splitFirst {separator : UInt8} {front rest : Bytes} (free : separator ∉ front) :
    splitOn separator (front ++ separator :: rest) = front :: splitOn separator rest := by
  induction front with
  | nil =>
    rw [List.nil_append, splitOn]
    cases parts : splitOn separator rest with
    | nil => exact absurd parts splitSome
    | cons first more => simp
  | cons byte front ih =>
    have other : byte ≠ separator := fun same => free (same ▸ List.mem_cons_self)
    rw [List.cons_append, splitOn, ih fun member => free (List.mem_cons_of_mem _ member)]
    simp [other]

theorem splitJoin {separator : UInt8} {text first : Bytes} {more : List Bytes}
    (split : splitOn separator text = first :: more) : text = first ++ more.flatMap (separator :: ·) := by
  induction text generalizing first more with
  | nil =>
    cases split
    rfl
  | cons byte text ih =>
    cases parts : splitOn separator text with
    | nil => exact absurd parts splitSome
    | cons next rest =>
      rw [splitOn, parts] at split
      dsimp only at split
      have tail := ih parts
      split at split
      · rename_i same
        cases split
        rw [eq_of_beq same, tail]
        rfl
      · cases split
        rw [tail]
        rfl

def JwtShape (text : Bytes) : Prop :=
  ∃ header payload signature : Bytes, text = header ++ 46 :: (payload ++ 46 :: signature) ∧
    ascii "eyJ" <+: header ∧ (8 ≤ header.length ∧ 8 ≤ payload.length ∧ 8 ≤ signature.length) ∧
    (∀ byte ∈ header, isBase64Url byte = true) ∧ (∀ byte ∈ payload, isBase64Url byte = true) ∧
    ∀ byte ∈ signature, isBase64Url byte = true

theorem base64Dotless {text : Bytes} (plain : ∀ byte ∈ text, isBase64Url byte = true) : (46 : UInt8) ∉ text :=
  fun member => absurd (plain 46 member) (by decide)

theorem jwtLike {text : Bytes} : isJwtLike text = true ↔ JwtShape text := by
  constructor
  · intro like
    unfold isJwtLike at like
    split at like
    · rename_i header payload signature split
      simp only [Bool.and_eq_true, decide_eq_true_eq, List.all_eq_true] at like
      obtain ⟨⟨⟨⟨⟨⟨starts, headerLong⟩, payloadLong⟩, signatureLong⟩, headers⟩, payloads⟩, signatures⟩ := like
      refine ⟨header, payload, signature, ?_, List.isPrefixOf_iff_prefix.mp starts,
        ⟨headerLong, payloadLong, signatureLong⟩, headers, payloads, signatures⟩
      simpa using splitJoin split
    · cases like
  · rintro ⟨header, payload, signature, rfl, starts, ⟨headerLong, payloadLong, signatureLong⟩, headers, payloads,
      signatures⟩
    rw [isJwtLike, splitFirst (base64Dotless headers), splitFirst (base64Dotless payloads),
      splitLast (base64Dotless signatures)]
    simp only [Bool.and_eq_true, decide_eq_true_eq, List.all_eq_true]
    exact ⟨⟨⟨⟨⟨⟨List.isPrefixOf_iff_prefix.mpr starts, headerLong⟩, payloadLong⟩, signatureLong⟩, headers⟩, payloads⟩,
      signatures⟩

/-- A token of three segments from a token boundary on. It ends with the text or before another byte; a
full stop there is the end of a sentence. -/
structure Jwt (input : Bytes) (start stop : Nat) : Prop where
  begins : isTokenBoundary (byteBefore input start) = true
  bound : stop ≤ input.length
  shape : JwtShape ((input.take stop).drop start)
  ends : ∀ byte, input[stop]? = some byte → isBase64Url byte = false
  sentence : input[stop]? = some 46 → (input[stop + 1]?).any isBase64Url = false

def JwtAt (input : Bytes) (start : Nat) (range : Range) : Prop :=
  range.1 = start ∧ Jwt input start range.2 ∧ input[range.2]? ≠ some 46

theorem shapeBytes {text : Bytes} (shape : JwtShape text) :
    ascii "eyJ" <+: text ∧ 26 ≤ text.length ∧ ∀ byte ∈ text, (isBase64Url byte || byte == 46) = true := by
  obtain ⟨header, payload, signature, rfl, starts, ⟨headerLong, payloadLong, signatureLong⟩, headers, payloads, signatures⟩ :=
    shape
  refine ⟨starts.trans (List.prefix_append _ _), ?_, fun byte member => ?_⟩
  · simp only [List.length_append, List.length_cons]
    omega
  · simp only [List.mem_append, List.mem_cons] at member
    rcases member with member | rfl | member | rfl | member
    · rw [headers byte member, Bool.true_or]
    · decide
    · rw [payloads byte member, Bool.true_or]
    · decide
    · rw [signatures byte member, Bool.true_or]

theorem insideByte {start stop position : Nat} (low : start ≤ position) (high : position < stop)
    (bound : stop ≤ input.length) :
    ∃ byte, input[position]? = some byte ∧ byte ∈ (input.take stop).drop start := by
  have less : position < input.length := Nat.lt_of_lt_of_le high bound
  refine ⟨input[position], List.getElem?_eq_getElem less, List.mem_iff_getElem?.mpr ⟨position - start, ?_⟩⟩
  rw [List.getElem?_drop, Nat.add_sub_cancel' low, List.getElem?_take_of_lt high, List.getElem?_eq_getElem less]

theorem jwtStarts {start stop : Nat} (jwt : Jwt input start stop) :
    start + 26 ≤ stop ∧ ascii "eyJ" <+: input.drop start ∧
      ∀ position, start ≤ position → position < stop →
        ∃ byte, input[position]? = some byte ∧ (isBase64Url byte || byte == 46) = true := by
  obtain ⟨starts, long, bytes⟩ := shapeBytes jwt.shape
  refine ⟨?_, ?_, fun position low high => ?_⟩
  · have bound := jwt.bound
    rw [List.length_drop, List.length_take] at long
    omega
  · exact starts.trans (by rw [List.drop_take]; exact List.take_prefix _ _)
  · obtain ⟨byte, here, member⟩ := insideByte low high jwt.bound
    exact ⟨byte, here, bytes byte member⟩

theorem base64Boundary {byte : UInt8} (kind : (isBase64Url byte || byte == 46) = true) :
    isTokenBoundary (some byte) = false := by
  rw [isTokenBoundary, Option.all_some]
  rcases Bool.or_eq_true_iff.mp kind with kind | kind
  · rw [kind, Bool.not_true, Bool.false_and]
  · rw [eq_of_beq kind]
    decide

theorem jwtFinds (valid : Utf8 input) : ∃ all, collectJwtRanges input = some all ∧
    ∀ range, range ∈ all ↔ ∃ start, JwtAt input start range := by
  refine @sweepText _ _ (fun position cursor => ∀ place, position ≤ place → place < cursor →
    isTokenBoundary (byteBefore input place) = false) input ?_ ?_ ?_ ?_
  · intro position cursor inside before
    refine ⟨fun range found => ?_, fun place low high => inside place (Nat.le_of_succ_le low) high⟩
    have begins := found.2.1.begins
    rw [inside position (Nat.le_refl _) before] at begins
    cases begins
  · intro position cursor _ _
    have nothing : (∀ range, ¬ JwtAt input position range) → ∃ found next,
        some (([] : List Range), position + 1) = some (found, next) ∧
        (∀ range, range ∈ found ↔ JwtAt input position range) ∧ ∀ place, position + 1 ≤ place → place < next →
          isTokenBoundary (byteBefore input place) = false := fun none' =>
      ⟨[], _, rfl, fun range => ⟨nofun, fun found => absurd found (none' range)⟩, fun place low high =>
        absurd low (by omega)⟩
    unfold jwtAt
    split
    · rename_i passed
      obtain ⟨starts, begins⟩ := Bool.and_eq_true_iff.mp passed
      obtain ⟨tail, same⟩ := List.isPrefixOf_iff_prefix.mp starts
      have byte (n : Nat) (less : n < 3) : input[position + n]? = (ascii "eyJ")[n]? := by
        rw [← List.getElem?_drop, ← same, List.getElem?_append_left less]
      have head : input[position]? = some 101 := byte 0 (by decide)
      have second : input[position + 1]? = some 121 := byte 1 (by decide)
      have last : input[position + 2]? = some 74 := byte 2 (by decide)
      have low := boundaryHere head (by decide)
      have between := boundaryAfter valid last (by decide)
      have rest : Run input (fun _ byte => isBase64Url byte || byte == 46) (position + 3)
          (scanFrom input (fun _ byte => !(isBase64Url byte || byte == 46)) (position + 3)) := by
        simpa using scanRun (fun _ byte => !(isBase64Url byte || byte == 46)) (boundaryBound between)
      have run : Run input (fun _ byte => isBase64Url byte || byte == 46) position
          (scanFrom input (fun _ byte => !(isBase64Url byte || byte == 46)) (position + 3)) :=
        runExtends head (by decide) (runExtends second (by decide) (runExtends last (by decide) rest))
      have high := runPlain valid between rest fun _ byte kind => by
        rcases Bool.or_eq_true_iff.mp kind with kind | kind
        · exact tokenPlain kind
        · exact eq_of_beq kind ▸ by decide
      have one : ∀ range, JwtAt input position range →
          range.2 = scanFrom input (fun _ byte => !(isBase64Url byte || byte == 46)) (position + 3) := by
        intro range found
        obtain ⟨long, _, bytes⟩ := jwtStarts found.2.1
        refine runUnique ⟨by omega, found.2.1.bound, bytes, fun byte here => ?_⟩ run
        rw [found.2.1.ends byte here, Bool.false_or, beq_eq_false_iff_ne]
        exact fun same => found.2.2 (same ▸ here)
      simp only [sliceSome run.order low high, Option.bind_eq_bind, Option.bind_some, Option.pure_def]
      split
      · rename_i like
        obtain ⟨like, ends⟩ := Bool.and_eq_true_iff.mp like
        have other : ∀ byte, input[scanFrom input (fun _ byte => !(isBase64Url byte || byte == 46)) (position + 3)]? =
            some byte → isBase64Url byte = false ∧ byte ≠ 46 := by
          intro byte here
          rw [here] at ends
          simpa [isTokenBoundary] using ends
        refine ⟨_, _, rfl, fun range => ?_, fun place low high => ?_⟩
        · rw [List.mem_singleton]
          constructor
          · rintro rfl
            refine ⟨rfl, ⟨begins, run.bound, jwtLike.mp like, fun byte here => (other byte here).1, fun dot => ?_⟩,
              fun dot => ?_⟩
            · exact absurd rfl (other 46 dot).2
            · exact absurd rfl (other 46 dot).2
          · exact fun found => Prod.ext found.1 (one range found)
        · obtain ⟨before, rfl⟩ : ∃ before, place = before + 1 := ⟨place - 1, by omega⟩
          obtain ⟨byte, here, kind⟩ := run.inside before (by omega) (by omega)
          rw [byteBefore, here]
          exact base64Boundary kind
      · rename_i refused
        refine nothing fun range found => refused ?_
        have stops := one range found
        rw [← stops, jwtLike.mpr found.2.1.shape, Bool.true_and, isTokenBoundary]
        cases here : input[range.2]? with
        | none => rfl
        | some byte =>
          rw [Option.all_some, found.2.1.ends byte here, Bool.not_false, Bool.true_and, bne_iff_ne]
          exact fun same => found.2.2 (same ▸ here)
    · rename_i refused
      refine nothing fun range found => refused ?_
      rw [List.isPrefixOf_iff_prefix.mpr (jwtStarts found.2.1).2.1, found.2.1.begins]
      rfl
  · intro position range found
    have long := (jwtStarts found.2.1).1
    have bound := found.2.1.bound
    omega
  · exact fun place _ high => absurd high (Nat.not_lt_zero _)

def SchemeWord (input scheme : Bytes) (start : Nat) : Prop :=
  eqIgnoreCase ((input.drop start).take scheme.length) scheme = true

/-- The word of a scheme, in any letter case, between a word boundary and a blank. -/
def occurs (input scheme : Bytes) (start : Nat) : Bool :=
  eqIgnoreCase ((input.drop start).take scheme.length) scheme && isWordBoundary (byteBefore input start) &&
    (input[start + scheme.length]?).any isHorizontalWhitespace

def SchemeValue (input scheme : Bytes) (start : Nat) (value : Range) : Prop :=
  ∃ gap, Run input (fun _ byte => isHorizontalWhitespace byte) (start + scheme.length) gap ∧ ValueAt input gap value

/-- Where the value ends that follows the last occurrence before a place; an occurrence inside such
a value does not count. -/
def reach (input scheme : Bytes) : Nat → Nat
  | 0 => 0
  | place + 1 =>
    if occurs input scheme place && decide (reach input scheme place ≤ place) then
      match valueStartingAt input (skipHorizontalWhitespace input (place + scheme.length)) with
      | some (some value) => value.2
      | _ => reach input scheme place
    else reach input scheme place

def SchemeFinds (input scheme : Bytes) (looks : Bytes → Bool) (start : Nat) (range : Range) : Prop :=
  occurs input scheme start = true ∧ reach input scheme start ≤ start ∧ SchemeValue input scheme start range ∧
    looks ((input.take range.2).drop range.1) = true

def Alone (scheme : Bytes) : Prop :=
  ∀ n, n < scheme.length → 0 < n → (scheme.map toLower)[n]? ≠ (scheme.map toLower)[0]?

theorem wordByte {scheme : Bytes} {start n : Nat} (word : SchemeWord input scheme start) (less : n < scheme.length) :
    (input[start + n]?).map toLower = (scheme.map toLower)[n]? := by
  have same := congrArg (·[n]?) (eq_of_beq word)
  simpa [List.getElem?_take_of_lt less] using same

theorem wordsApart {scheme : Bytes} (alone : Alone scheme) {start place : Nat} (word : SchemeWord input scheme start)
    (word' : SchemeWord input scheme place) (later : start < place) : start + scheme.length ≤ place := by
  by_contra close
  have less : place - start < scheme.length := by omega
  have here := wordByte word less
  have there := wordByte word' (Nat.zero_lt_of_lt less)
  rw [Nat.add_sub_cancel' later.le] at here
  exact alone _ less (by omega) (here.symm.trans there)

theorem occursParts {scheme : Bytes} {start : Nat} : occurs input scheme start = true ↔
    SchemeWord input scheme start ∧ isWordBoundary (byteBefore input start) = true ∧
      (input[start + scheme.length]?).any isHorizontalWhitespace = true := by
  rw [occurs, Bool.and_eq_true, Bool.and_eq_true, and_assoc, SchemeWord]

theorem schemeValueFound (valid : Utf8 input) {scheme : Bytes} {start : Nat} (here : occurs input scheme start = true) :
    ∃ found, valueStartingAt input (skipHorizontalWhitespace input (start + scheme.length)) = some found ∧
      (∀ value, found = some value ↔ SchemeValue input scheme start value) ∧
      ∀ value, found = some value → isCharBoundary input value.1 = true ∧ isCharBoundary input value.2 = true ∧
        value.1 < value.2 := by
  obtain ⟨byte, at', kind⟩ := someAny.mp (occursParts.mp here).2.2
  have between := boundaryHere at' (blankPlain kind)
  obtain ⟨found, read, exactly⟩ := valueFound (skipBoundary valid between)
  refine ⟨found, read, fun value => (exactly value).trans ⟨fun there => ⟨_, skipRun (boundaryBound between), there⟩, ?_⟩,
    fun value same => valueBoundary valid (skipBoundary valid between) ((exactly value).mp same)⟩
  rintro ⟨gap, blanks, there⟩
  rwa [runUnique (skipRun (boundaryBound between)) blanks]

theorem reachStays {scheme : Bytes} {place : Nat}
    (stays : occurs input scheme place = true → place < reach input scheme place) :
    reach input scheme (place + 1) = reach input scheme place := by
  rw [reach, if_neg]
  intro counts
  obtain ⟨here, before⟩ := Bool.and_eq_true_iff.mp counts
  exact absurd (stays here) (Nat.not_lt.mpr (of_decide_eq_true before))

theorem schemeFinds (valid : Utf8 input) {scheme : Bytes} (alone : Alone scheme) (looks : Bytes → Bool) :
    ∃ all, sweep (schemeAt input scheme looks) (List.range input.length) 0 = some all ∧
      ∀ range, range ∈ all ↔ ∃ start, SchemeFinds input scheme looks start range := by
  refine @sweepText _ _ (fun position cursor => ∀ place, position ≤ place → SchemeWord input scheme place →
    (place < cursor ↔ place < reach input scheme position)) input ?_ ?_ ?_ ?_
  · intro position cursor agree before
    refine ⟨fun range found => ?_, fun place low word => ?_⟩
    · have inside := (agree position (Nat.le_refl _) (occursParts.mp found.1).1).mp before
      exact absurd inside (Nat.not_lt.mpr found.2.1)
    · rw [reachStays fun here => (agree position (Nat.le_refl _) (occursParts.mp here).1).mp before]
      exact agree place (Nat.le_of_succ_le low) word
  · intro position cursor agree behind
    have nothing : ∀ next, (∀ range, ¬ SchemeFinds input scheme looks position range) →
        (∀ place, position < place → SchemeWord input scheme place → next ≤ place) →
        reach input scheme (position + 1) = reach input scheme position → ∃ found next',
        some (([] : List Range), next) = some (found, next') ∧
        (∀ range, range ∈ found ↔ SchemeFinds input scheme looks position range) ∧
        ∀ place, position + 1 ≤ place → SchemeWord input scheme place →
          (place < next' ↔ place < reach input scheme (position + 1)) := by
      intro next none' apart same
      refine ⟨[], next, rfl, fun range => ⟨nofun, fun found => absurd found (none' range)⟩, fun place low word => ?_⟩
      have later := apart place low word
      have known := agree place (Nat.le_of_succ_le low) word
      rw [same, ← known]
      omega
    unfold schemeAt
    dsimp only
    split
    · rename_i other
      have other : ¬ SchemeWord input scheme position := by simpa [SchemeWord] using other
      exact nothing _ (fun range found => other (occursParts.mp found.1).1) (fun place low _ => low)
        (reachStays fun here => absurd (occursParts.mp here).1 other)
    · rename_i word
      have word : SchemeWord input scheme position := by simpa [SchemeWord] using word
      have apart : ∀ place, position < place → SchemeWord input scheme place → position + scheme.length ≤ place :=
        fun place low word' => wordsApart alone word word' low
      split
      · rename_i other
        have none' : occurs input scheme position = false := by
          by_contra here
          have parts := (occursParts.mp (Bool.not_eq_false _ |>.mp here)).2
          simp [parts.1, parts.2] at other
        refine nothing _ (fun range found => ?_) apart (reachStays fun here => ?_)
        · exact absurd found.1 (Bool.eq_false_iff.mp none')
        · exact absurd here (Bool.eq_false_iff.mp none')
      · rename_i passed
        simp only [Bool.or_eq_true, not_or, Bool.not_eq_true', Bool.not_eq_false] at passed
        have here : occurs input scheme position = true := occursParts.mpr ⟨word, passed⟩
        have free : reach input scheme position ≤ position := by
          by_contra inside
          exact absurd ((agree position (Nat.le_refl _) word).mpr (Nat.lt_of_not_le inside)) (Nat.not_lt.mpr behind)
        obtain ⟨found, read, exactly, whole⟩ := schemeValueFound valid here
        rw [read]
        cases found with
        | none =>
          refine nothing _ (fun range found => ?_) apart ?_
          · cases (exactly range).mpr found.2.2.1
          · rw [reach, here, decide_eq_true free, read]
            rfl
        | some value =>
          obtain ⟨low, high, less⟩ := whole value rfl
          simp only [Option.bind_eq_bind, Option.bind_some, sliceSome (Nat.le_of_lt less) low high, Option.pure_def]
          refine ⟨_, _, rfl, fun range => ?_, fun place later word' => ?_⟩
          · constructor
            · intro member
              split at member
              · rename_i credential
                cases List.mem_singleton.mp member
                exact ⟨here, free, (exactly _).mp rfl, credential⟩
              · cases member
            · rintro ⟨_, _, there, credential⟩
              cases (exactly range).mpr there
              rw [if_pos credential]
              exact List.mem_singleton_self _
          · have ends : reach input scheme (position + 1) = value.2 := by
              rw [reach, here, decide_eq_true free, read]
              rfl
            have beyond := apart place later word'
            rw [ends]
            omega
  · intro position range found
    obtain ⟨byte, at', _⟩ := someAny.mp (occursParts.mp found.1).2.2
    have bound := (List.getElem?_eq_some_iff.mp at').1
    omega
  · exact fun place _ _ => ⟨fun high => absurd high (Nat.not_lt_zero _), fun high => absurd high (Nat.not_lt_zero _)⟩

theorem assignmentFinds (valid : Utf8 input) : ∃ all, collectAssignmentRanges input = some all ∧
    ∀ range, range ∈ all ↔ ∃ separator found, assignmentAt input separator = some found ∧ range ∈ found := by
  refine @sweepText _ _ (fun position cursor => cursor ≤ position) input ?_ ?_ ?_ (Nat.le_refl _)
  · exact fun position cursor before behind => absurd behind (Nat.not_lt.mpr before)
  · intro position cursor _ _
    obtain ⟨found, read, _⟩ := assignmentFound valid position
    refine ⟨found, position + 1, by rw [read]; rfl, fun range => ⟨fun member => ⟨found, read, member⟩, ?_⟩, Nat.le_refl _⟩
    rintro ⟨other, read', member⟩
    cases read.symm.trans read'
    exact member
  · rintro position range ⟨found, read, member⟩
    by_contra beyond
    have nothing := List.getElem?_eq_none_iff.mpr (Nat.not_lt.mp beyond)
    rw [assignmentAt, nothing] at read
    cases read
    cases member

def schemes : List (Bytes × (Bytes → Bool)) := [(ascii "bearer", looksLikeBearer), (ascii "basic", looksLikeBasic)]

theorem schemeAlone : ∀ scheme ∈ schemes, Alone scheme.1 := by
  unfold schemes Alone
  decide +kernel

inductive Rule (input : Bytes) : Range → Prop where
  | assigned {separator : Nat} {found : List Range} {range : Range}
      (read : assignmentAt input separator = some found) (member : range ∈ found) : Rule input range
  | scheme {scheme : Bytes × (Bytes → Bool)} {start : Nat} {range : Range} (known : scheme ∈ schemes)
      (found : SchemeFinds input scheme.1 scheme.2 start range) : Rule input range
  | jwt {start : Nat} {range : Range} (found : JwtAt input start range) : Rule input range
  | prefixed {start : Nat} {range : Range} (found : PrefixedAt input start range) : Rule input range

theorem rangesExact (valid : Utf8 input) : ∃ candidates, secretRanges input = some (normalizeRanges input candidates) ∧
    ∀ range, range ∈ candidates ↔ Rule input range := by
  obtain ⟨assignments, readAssignments, assigned⟩ := assignmentFinds valid
  obtain ⟨bearer, readBearer, bearers⟩ := schemeFinds valid (schemeAlone _ List.mem_cons_self) looksLikeBearer
  obtain ⟨basic, readBasic, basics⟩ :=
    schemeFinds valid (schemeAlone _ (List.mem_cons_of_mem _ List.mem_cons_self)) looksLikeBasic
  obtain ⟨jwts, readJwts, jwt⟩ := jwtFinds valid
  obtain ⟨prefixed, readPrefixed, tokens⟩ := prefixedFinds valid
  refine ⟨assignments ++ (bearer ++ basic) ++ jwts ++ prefixed, ?_, fun range => ?_⟩
  · simp only [secretRanges, readAssignments, collectSchemeRanges, readBearer, readBasic, readJwts, readPrefixed,
      Option.bind_eq_bind, Option.bind_some, Option.pure_def]
  · simp only [List.mem_append, assigned, bearers, basics, jwt, tokens]
    constructor
    · rintro (((⟨_, _, read, member⟩ | ⟨_, found⟩ | ⟨_, found⟩) | ⟨_, found⟩) | ⟨_, found⟩)
      · exact .assigned read member
      · exact .scheme List.mem_cons_self found
      · exact .scheme (List.mem_cons_of_mem _ List.mem_cons_self) found
      · exact .jwt found
      · exact .prefixed found
    · rintro (⟨read, member⟩ | ⟨known, found⟩ | found | found)
      · exact .inl (.inl (.inl ⟨_, _, read, member⟩))
      · rcases List.mem_cons.mp known with rfl | known
        · exact .inl (.inl (.inr (.inl ⟨_, found⟩)))
        · rw [List.mem_singleton.mp known] at found
          exact .inl (.inl (.inr (.inr ⟨_, found⟩)))
      · exact .inl (.inr ⟨_, found⟩)
      · exact .inr ⟨_, found⟩

def Inside (ranges : List Range) (start stop : Nat) : Prop :=
  ∀ position, start ≤ position → position < stop → Covered ranges position

/-- Every free-standing credential lies inside the ranges. -/
structure Gone (input : Bytes) (ranges : List Range) : Prop where
  prefixed : ∀ start stop, Token input start stop →
    looksLikePrefixedCredential ((input.take stop).drop start) = true → Inside ranges start stop
  jwt : ∀ start stop, Jwt input start stop → Inside ranges start stop
  scheme : ∀ scheme ∈ schemes, ∀ start value, occurs input scheme.1 start = true →
    SchemeValue input scheme.1 start value → scheme.2 ((input.take value.2).drop value.1) = true →
    Inside ranges value.1 value.2

def Elsewhere (input : Bytes) (start stop : Nat) : Prop :=
  ∀ position, start ≤ position → position < stop →
    ∃ range, Rule input range ∧ Retained input range ∧ range.1 ≤ position ∧ position < range.2

/-- What the scanners pass over, a token before a full stop and the value of a scheme's word inside the
value of an earlier one, is redacted by another rule. -/
structure PassedRedacted (input : Bytes) : Prop where
  dotted : ∀ start stop, Jwt input start stop → input[stop]? = some 46 → Elsewhere input start stop
  inner : ∀ scheme ∈ schemes, ∀ start value, occurs input scheme.1 start = true →
    start < reach input scheme.1 start → SchemeValue input scheme.1 start value →
    scheme.2 ((input.take value.2).drop value.1) = true → Elsewhere input value.1 value.2

theorem insideElsewhere {candidates : List Range} (exactly : ∀ range, range ∈ candidates ↔ Rule input range)
    {start stop : Nat} : Inside (normalizeRanges input candidates) start stop ↔ Elsewhere input start stop := by
  refine forall_congr' fun position => imp_congr_right fun _ => imp_congr_right fun _ => ?_
  rw [(normalizeMerged input candidates).covers]
  constructor
  · rintro ⟨range, member, covers⟩
    obtain ⟨inside, retained⟩ := List.mem_filter.mp member
    exact ⟨range, (exactly range).mp inside, of_decide_eq_true retained, covers⟩
  · rintro ⟨range, rule, retained, covers⟩
    exact ⟨range, List.mem_filter.mpr ⟨(exactly range).mpr rule, decide_eq_true retained⟩, covers⟩

theorem ruleElsewhere {range : Range} (rule : Rule input range) (retained : Retained input range) :
    Elsewhere input range.1 range.2 :=
  fun _ low high => ⟨range, rule, retained, low, high⟩

theorem retainedText {start stop : Nat} (less : start < stop) (low : isCharBoundary input start = true)
    (high : isCharBoundary input stop = true) (unmarked : (input.take stop).drop start ≠ redacted) :
    Retained input (start, stop) := by
  have taken := sliceSome (Nat.le_of_lt less) low high
  refine ⟨less, by rw [taken]; rfl, ?_⟩
  rw [taken]
  exact fun marker => unmarked (Option.some.inj marker)

theorem tokenRetained (valid : Utf8 input) {start stop : Nat} (token : Token input start stop)
    (looks : looksLikePrefixedCredential ((input.take stop).drop start) = true) : Retained input (start, stop) := by
  obtain ⟨low, high⟩ := tokenWhole valid token
  refine retainedText token.nonempty low high fun marker => ?_
  rw [marker] at looks
  revert looks
  decide +kernel

theorem jwtRetained (valid : Utf8 input) {start stop : Nat} (jwt : Jwt input start stop) :
    Retained input (start, stop) := by
  obtain ⟨long, _, bytes⟩ := jwtStarts jwt
  have plain : ∀ {byte : UInt8}, (isBase64Url byte || byte == 46) = true → byte < 128 := by
    intro byte kind
    rcases Bool.or_eq_true_iff.mp kind with kind | kind
    · exact tokenPlain kind
    · exact eq_of_beq kind ▸ by decide
  obtain ⟨first, here, kind⟩ := bytes start (Nat.le_refl _) (by omega)
  obtain ⟨last, there, kind'⟩ := bytes (stop - 1) (by omega) (by omega)
  have high := boundaryAfter valid there (plain kind')
  rw [Nat.sub_add_cancel (by omega)] at high
  refine retainedText (by omega) (boundaryHere here (plain kind)) high fun marker => ?_
  have like := jwtLike.mpr jwt.shape
  rw [marker] at like
  revert like
  decide +kernel

theorem valueRetained (valid : Utf8 input) {scheme : Bytes × (Bytes → Bool)} (known : scheme ∈ schemes) {start : Nat}
    {value : Range} (here : occurs input scheme.1 start = true) (there : SchemeValue input scheme.1 start value)
    (looks : scheme.2 ((input.take value.2).drop value.1) = true) : Retained input value := by
  obtain ⟨found, _, exactly, whole⟩ := schemeValueFound valid here
  obtain ⟨low, high, less⟩ := whole value ((exactly value).mpr there)
  have refuses : ∀ scheme ∈ schemes, scheme.2 redacted = false := by
    unfold schemes
    decide +kernel
  refine retainedText less low high fun marker => ?_
  rw [marker, refuses scheme known] at looks
  cases looks

end Scanners

/-- The free-standing credentials of a text lie inside the ranges that are replaced if and only if those
the scanners pass over do for another reason. -/
theorem credentialsGone (text : List Char) :
    let input := text.flatMap String.utf8EncodeChar
    ∃ ranges found, secretRanges input = some ranges ∧ redactText input = some found ∧
      Replaces 0 ranges input (found.getD input) ∧ (Gone input ranges ↔ PassedRedacted input) := by
  intro input
  have valid : Utf8 input := ⟨text, rfl⟩
  obtain ⟨known, output, read, _, _, written, _, replaced⟩ := redactTextFound valid
  obtain ⟨candidates, read', exactly⟩ := rangesExact valid
  have same := Option.some.inj (read.symm.trans read')
  rw [same] at written replaced
  refine ⟨normalizeRanges input candidates, _, read', written, ?_, ?_⟩
  · split
    · rename_i empty
      rw [empty]
      exact .rest 0 input
    · exact replaced
  · constructor
    · intro gone
      refine ⟨fun start stop jwt _ => (insideElsewhere exactly).mp (gone.jwt start stop jwt),
        fun scheme known start value here _ there looks => ?_⟩
      exact (insideElsewhere exactly).mp (gone.scheme scheme known start value here there looks)
    · intro passed
      refine ⟨fun start stop token looks => ?_, fun start stop jwt => ?_,
        fun scheme known start value here there looks => ?_⟩ <;> rw [insideElsewhere exactly]
      · have rule : Rule input (start, stop) := .prefixed ⟨rfl, token, looks⟩
        exact ruleElsewhere rule (tokenRetained valid token looks)
      · by_cases dot : input[stop]? = some 46
        · exact passed.dotted start stop jwt dot
        · exact ruleElsewhere (.jwt ⟨rfl, jwt, dot⟩) (jwtRetained valid jwt)
      · by_cases inner : start < reach input scheme.1 start
        · exact passed.inner scheme known start value here inner there looks
        · exact ruleElsewhere (.scheme known ⟨here, Nat.not_lt.mp inner, there, looks⟩)
            (valueRetained valid known here there looks)

/-- A token at the end of a sentence, and a word that is its own scheme's value. -/
theorem credentialsSurvive :
    redactText (ascii "see eyJhbGci.eyJzdWIi.c2lnbmF0.") = some none ∧
      Jwt (ascii "see eyJhbGci.eyJzdWIi.c2lnbmF0.") 4 30 ∧
      redactText (ascii "bearer bearer abc-1234") = some none ∧
      ∀ ranges, secretRanges (ascii "see eyJhbGci.eyJzdWIi.c2lnbmF0.") = some ranges →
        ¬ Gone (ascii "see eyJhbGci.eyJzdWIi.c2lnbmF0.") ranges := by
  have jwt : Jwt (ascii "see eyJhbGci.eyJzdWIi.c2lnbmF0.") 4 30 := by
    refine ⟨by decide +kernel, by decide +kernel, jwtLike.mp (by decide +kernel), ?_, ?_⟩
    · intro byte here
      cases here
      decide
    · exact fun _ => by decide +kernel
  have unmarked : secretRanges (ascii "see eyJhbGci.eyJzdWIi.c2lnbmF0.") = some [] := by
    decide +kernel
  have untouched : redactText (ascii "see eyJhbGci.eyJzdWIi.c2lnbmF0.") = some none := by
    simp only [redactText, unmarked]
    rfl
  refine ⟨untouched, jwt, by decide +kernel, fun ranges read gone => ?_⟩
  cases unmarked.symm.trans read
  obtain ⟨range, member, _⟩ := gone.jwt 4 30 jwt 4 (Nat.le_refl _) (by decide)
  cases member

end Maestro.Redaction
