import Maestro.SecretRanges

/-! Redaction of JSON values: what stays at each place of the tree, and the count of what
was changed. -/
namespace Maestro.Redaction

def bytes (text : String) : Bytes := text.toList.flatMap String.utf8EncodeChar

def ofBytes (input : Bytes) : Option String := String.fromUTF8? input.toByteArray

/-- `redact_text` on a string; `none` outside is its panic, inside `Cow::Borrowed`. -/
def redactString (text : String) : Option (Option String) := do
  match ← redactText (bytes text) with
  | none => return none
  | some output => return some (← ofBytes output)

def marker : Value := .string "[REDACTED]"

def redactNamedValue (value : Value) : Value × Nat :=
  match value with
  | .null => (value, 0)
  | .string text => if text = "[REDACTED]" then (value, 0) else (marker, 1)
  | _ => (marker, 1)

mutual
def redactJsonValue : Value → Nat → Option (Value × Nat)
  | .array items, depth =>
      if maxJsonDepth ≤ depth then
        if items.isEmpty then some (.array items, 0) else some (marker, 1)
      else do
        let (items, count) ← redactItems items (depth + 1)
        return (.array items, count)
  | .object fields, depth =>
      if maxJsonDepth ≤ depth then
        if fields.isEmpty then some (.object fields, 0) else some (marker, 1)
      else do
        let (fields, count) ← redactFields fields (depth + 1)
        return (.object fields, count)
  | .string text, _ => do
      match ← redactString text with
      | none => return (.string text, 0)
      | some redacted => return (.string redacted, 1)
  | .null, _ => some (.null, 0)
  | .bool b, _ => some (.bool b, 0)
  | .number n, _ => some (.number n, 0)
def redactItems : List Value → Nat → Option (List Value × Nat)
  | [], _ => some ([], 0)
  | item :: rest, depth => do
      let (item, count) ← redactJsonValue item depth
      let (rest, more) ← redactItems rest depth
      return (item :: rest, count + more)
def redactFields : List (String × Value) → Nat → Option (List (String × Value) × Nat)
  | [], _ => some ([], 0)
  | (key, value) :: rest, depth => do
      let (value, count) ← if isSensitiveKey (bytes key) then some (redactNamedValue value)
        else redactJsonValue value depth
      let (rest, more) ← redactFields rest depth
      return ((key, value) :: rest, count + more)
end

def redactJsonInPlace (value : Value) : Option (Value × Nat) := redactJsonValue value 0

theorem bytesUtf8 (text : String) : Utf8 (bytes text) := ⟨text.toList, rfl⟩

theorem ofBytesSome {input : Bytes} (valid : Utf8 input) :
    ∃ text, ofBytes input = some text ∧ bytes text = input := by
  obtain ⟨text, rfl⟩ := valid
  have same : (text.flatMap String.utf8EncodeChar).toByteArray = (String.ofList text).toByteArray := by
    rw [String.toByteArray_ofList, List.utf8Encode]
  refine ⟨String.ofList text, ?_, ?_⟩
  · rw [ofBytes, same, String.fromUTF8?, dif_pos (String.ofList text).isValidUTF8]
    rfl
  · simp [bytes]

theorem ofBytesText (text : String) : ofBytes (bytes text) = some text := by
  obtain ⟨copy, decoded, back⟩ := ofBytesSome (bytesUtf8 text)
  have encoded : ∀ other : String, other.toByteArray = (bytes other).toByteArray := fun other => by
    rw [bytes, ← List.utf8Encode, ← String.toByteArray_ofList, String.ofList_toList]
  have same : copy = text := by
    rw [← String.toByteArray_inj, encoded copy, encoded text, back]
  rw [decoded, same]

theorem ofBytesBack {input : Bytes} {text : String} (decoded : ofBytes input = some text) : bytes text = input := by
  rw [ofBytes, String.fromUTF8?] at decoded
  split at decoded
  · rename_i valid
    have whole : (bytes text).toByteArray = input.toByteArray := by
      rw [bytes, ← List.utf8Encode, ← String.toByteArray_ofList, String.ofList_toList, ← Option.some.inj decoded]
      rfl
    have lists := congrArg (fun array => array.data.toList) whole
    simpa using lists
  · cases decoded

theorem redactStringFound (text : String) :
    ∃ found, redactString text = some found ∧ ∀ copy, found = some copy → copy ≠ text := by
  have valid := bytesUtf8 text
  obtain ⟨candidates, output, -, -, -, found, valid', -⟩ := redactTextFound valid
  split at found
  · exact ⟨none, by simp [redactString, found], nofun⟩
  · obtain ⟨copy, decoded, back⟩ := ofBytesSome valid'
    refine ⟨some copy, by simp [redactString, found, decoded], fun other same => ?_⟩
    cases same
    rintro rfl
    exact redactTextChanges valid found back.symm

mutual
def changes : Value → Value → Nat
  | .null, .null => 0
  | .bool a, .bool b => if a = b then 0 else 1
  | .number a, .number b => if a = b then 0 else 1
  | .string a, .string b => if a = b then 0 else 1
  | .array a, .array b => if a.length = b.length then itemChanges a b else 1
  | .object a, .object b => if a.map Prod.fst = b.map Prod.fst then fieldChanges a b else 1
  | _, _ => 1
def itemChanges : List Value → List Value → Nat
  | a :: as, b :: bs => changes a b + itemChanges as bs
  | _, _ => 0
def fieldChanges : List (String × Value) → List (String × Value) → Nat
  | (_, a) :: as, (_, b) :: bs => changes a b + fieldChanges as bs
  | _, _ => 0
end

/-- The same place in both trees: reached through items and through fields whose keys are
not sensitive. -/
inductive Beside (before after : Value) : Nat → Value → Value → Prop
  | root : Beside before after 0 before after
  | item {depth : Nat} {items items' : List Value} {value value' : Value} (index : Nat)
      (around : Beside before after depth (.array items) (.array items'))
      (here : items[index]? = some value) (there : items'[index]? = some value') :
      Beside before after (depth + 1) value value'
  | field {depth : Nat} {fields fields' : List (String × Value)} {key key' : String}
      {value value' : Value} (index : Nat)
      (around : Beside before after depth (.object fields) (.object fields'))
      (here : fields[index]? = some (key, value)) (there : fields'[index]? = some (key', value'))
      (open' : isSensitiveKey (bytes key) = false) :
      Beside before after (depth + 1) value value'

def FieldRedacted (field field' : String × Value) : Prop :=
  field'.1 = field.1 ∧ (isSensitiveKey (bytes field.1) = true →
    field'.2 = match field.2 with
      | .null => .null
      | _ => marker)

def Redacted (depth : Nat) (value value' : Value) : Prop :=
  match value with
  | .null | .bool _ | .number _ => value' = value
  | .string text => ∃ found, redactString text = some found ∧ value' = .string (found.getD text)
  | .array items =>
      if maxJsonDepth ≤ depth ∧ items ≠ [] then value' = marker
      else ∃ items', value' = .array items' ∧ items'.length = items.length
  | .object fields =>
      if maxJsonDepth ≤ depth ∧ fields ≠ [] then value' = marker
      else ∃ fields', value' = .object fields' ∧ List.Forall₂ FieldRedacted fields fields'

mutual
theorem changesZero : ∀ a b : Value, changes a b = 0 ↔ a = b
  | .null, b => by cases b <;> simp [changes]
  | .bool a, b => by cases b <;> simp [changes]
  | .number a, b => by cases b <;> simp [changes]
  | .string a, b => by cases b <;> simp [changes]
  | .array a, b => by
    cases b with
    | array b =>
      simp only [changes, Value.array.injEq]
      split
      · rename_i same
        exact itemChangesZero a b same
      · rename_i other
        exact ⟨nofun, fun same => absurd (congrArg List.length same) other⟩
    | _ => simp [changes]
  | .object a, b => by
    cases b with
    | object b =>
      simp only [changes, Value.object.injEq]
      split
      · rename_i same
        exact fieldChangesZero a b same
      · rename_i other
        exact ⟨nofun, fun same => absurd (congrArg _ same) other⟩
    | _ => simp [changes]
theorem itemChangesZero : ∀ a b : List Value, a.length = b.length → (itemChanges a b = 0 ↔ a = b)
  | [], [], _ => by simp [itemChanges]
  | a :: as, b :: bs, same => by
    rw [itemChanges, Nat.add_eq_zero_iff, changesZero a b,
      itemChangesZero as bs (Nat.succ.inj same), List.cons.injEq]
theorem fieldChangesZero : ∀ a b : List (String × Value), a.map Prod.fst = b.map Prod.fst →
    (fieldChanges a b = 0 ↔ a = b)
  | [], [], _ => by simp [fieldChanges]
  | (key, a) :: as, (key', b) :: bs, same => by
    have ⟨sameKey, rest⟩ := List.cons.inj same
    rw [fieldChanges, Nat.add_eq_zero_iff, changesZero a b, fieldChangesZero as bs rest,
      List.cons.injEq, Prod.mk.injEq]
    exact ⟨fun ⟨first, second⟩ => ⟨⟨sameKey, first⟩, second⟩, fun ⟨⟨_, first⟩, second⟩ =>
      ⟨first, second⟩⟩
end

theorem namedCount (value : Value) :
    (redactNamedValue value).2 = changes value (redactNamedValue value).1 := by
  cases value with
  | string text =>
    simp only [redactNamedValue]
    split
    · simp [changes]
    · rename_i other
      simp [marker, changes, other]
  | _ => simp [redactNamedValue, marker, changes]

theorem namedRedacted (key : String) (value : Value) :
    FieldRedacted (key, value) (key, (redactNamedValue value).1) := by
  refine ⟨rfl, fun _ => ?_⟩
  cases value with
  | string text =>
    simp only [redactNamedValue]
    split
    · rename_i same
      rw [same, marker]
    · rfl
  | _ => rfl

mutual
theorem valueRedacted : ∀ (value : Value) (depth : Nat), ∃ after count,
    redactJsonValue value depth = some (after, count) ∧ count = changes value after ∧
      Redacted depth value after
  | .null, _ => ⟨.null, 0, by simp [redactJsonValue, changes, Redacted]⟩
  | .bool b, _ => ⟨.bool b, 0, by simp [redactJsonValue, changes, Redacted]⟩
  | .number n, _ => ⟨.number n, 0, by simp [redactJsonValue, changes, Redacted]⟩
  | .string text, depth => by
    obtain ⟨found, read, other⟩ := redactStringFound text
    cases found with
    | none =>
      exact ⟨.string text, 0, by simp [redactJsonValue, read], by simp [changes], none, read, rfl⟩
    | some copy =>
      refine ⟨.string copy, 1, by simp [redactJsonValue, read], ?_, some copy, read, rfl⟩
      simp [changes, (other copy rfl).symm]
  | .array items, depth => by
    simp only [redactJsonValue, Redacted, List.isEmpty_iff]
    by_cases deep : maxJsonDepth ≤ depth
    · by_cases empty : items = []
      · exact ⟨.array items, 0, by simp [deep, empty], by simp [changes, empty, itemChanges],
          by simp [empty]⟩
      · exact ⟨marker, 1, by simp [deep, empty], by simp [changes, marker], by simp [deep, empty]⟩
    · obtain ⟨after, count, read, counted, same, -⟩ := itemsRedacted items (depth + 1)
      refine ⟨.array after, count, by simp [deep, read], ?_, by simp [deep, same]⟩
      simp [changes, same, counted]
  | .object fields, depth => by
    simp only [redactJsonValue, Redacted, List.isEmpty_iff]
    by_cases deep : maxJsonDepth ≤ depth
    · by_cases empty : fields = []
      · exact ⟨.object fields, 0, by simp [deep, empty], by simp [changes, empty, fieldChanges],
          by simp [empty]⟩
      · exact ⟨marker, 1, by simp [deep, empty], by simp [changes, marker], by simp [deep, empty]⟩
    · obtain ⟨after, count, read, counted, same, kept, -⟩ := fieldsRedacted fields (depth + 1)
      refine ⟨.object after, count, by simp [deep, read], ?_, by simpa [deep] using same⟩
      simp [changes, kept, counted]
theorem itemsRedacted : ∀ (items : List Value) (depth : Nat), ∃ after count,
    redactItems items depth = some (after, count) ∧ count = itemChanges items after ∧
      after.length = items.length ∧ ∀ (index : Nat) (value : Value), items[index]? = some value →
        ∃ value' n, after[index]? = some value' ∧ redactJsonValue value depth = some (value', n)
  | [], _ => ⟨[], 0, by simp [redactItems, itemChanges]⟩
  | item :: rest, depth => by
    obtain ⟨first, count, read, counted, -⟩ := valueRedacted item depth
    obtain ⟨others, more, readMore, countedMore, same, each⟩ := itemsRedacted rest depth
    refine ⟨first :: others, count + more, by simp [redactItems, read, readMore],
      by rw [itemChanges, counted, countedMore], congrArg (· + 1) same, fun index value here => ?_⟩
    cases index with
    | zero =>
      cases here
      exact ⟨first, count, rfl, read⟩
    | succ n => exact each n value here
theorem fieldsRedacted : ∀ (fields : List (String × Value)) (depth : Nat), ∃ after count,
    redactFields fields depth = some (after, count) ∧ count = fieldChanges fields after ∧
      List.Forall₂ FieldRedacted fields after ∧ fields.map Prod.fst = after.map Prod.fst ∧
      ∀ (index : Nat) (key : String) (value : Value), fields[index]? = some (key, value) →
        isSensitiveKey (bytes key) = false →
        ∃ value' n, after[index]? = some (key, value') ∧ redactJsonValue value depth = some (value', n)
  | [], _ => ⟨[], 0, by simp [redactFields, fieldChanges]⟩
  | (key, value) :: rest, depth => by
    obtain ⟨others, more, readMore, countedMore, same, kept, each⟩ := fieldsRedacted rest depth
    cases sensitive : isSensitiveKey (bytes key) with
    | true =>
      refine ⟨(key, (redactNamedValue value).1) :: others, (redactNamedValue value).2 + more,
        by simp [redactFields, sensitive, readMore], ?_, .cons (namedRedacted key value) same,
        congrArg (key :: ·) kept, fun index key' value' here closed => ?_⟩
      · rw [fieldChanges, ← namedCount, countedMore]
      · cases index with
        | zero =>
          cases here
          rw [sensitive] at closed
          cases closed
        | succ n => exact each n key' value' here closed
    | false =>
      obtain ⟨first, count, read, counted, -⟩ := valueRedacted value depth
      refine ⟨(key, first) :: others, count + more, by simp [redactFields, sensitive, read, readMore],
        by rw [fieldChanges, counted, countedMore], .cons ⟨rfl, ?_⟩ same, congrArg (key :: ·) kept,
        fun index key' value' here closed => ?_⟩
      · simp [sensitive]
      · cases index with
        | zero =>
          cases here
          exact ⟨first, count, rfl, read⟩
        | succ n => exact each n key' value' here closed
end

theorem placeRead {value after : Value} {count : Nat}
    (read : redactJsonInPlace value = some (after, count)) {depth : Nat} {here there : Value}
    (place : Beside value after depth here there) :
    ∃ n, redactJsonValue here depth = some (there, n) := by
  induction place with
  | root => exact ⟨count, read⟩
  | @item depth items items' here there index around inside outside ih =>
    obtain ⟨n, read⟩ := ih
    obtain ⟨after, m, readItems, -, -, each⟩ := itemsRedacted items (depth + 1)
    have some' : items ≠ [] := by
      rintro rfl
      simp at inside
    simp only [redactJsonValue, List.isEmpty_iff, some', if_false, readItems] at read
    split at read
    · simp [marker] at read
    · obtain ⟨rfl, -⟩ : after = items' ∧ m = n := by simpa using read
      obtain ⟨value', k, found, readHere⟩ := each index here inside
      cases found.symm.trans outside
      exact ⟨k, readHere⟩
  | @field depth fields fields' key key' here there index around inside outside closed ih =>
    obtain ⟨n, read⟩ := ih
    obtain ⟨after, m, readFields, -, -, -, each⟩ := fieldsRedacted fields (depth + 1)
    have some' : fields ≠ [] := by
      rintro rfl
      simp at inside
    simp only [redactJsonValue, List.isEmpty_iff, some', if_false, readFields] at read
    split at read
    · simp [marker] at read
    · obtain ⟨rfl, -⟩ : after = fields' ∧ m = n := by simpa using read
      obtain ⟨value', k, found, readHere⟩ := each index key here inside closed
      cases found.symm.trans outside
      exact ⟨k, readHere⟩

/-- Every place is what it should be, and the count is that of the changes. -/
theorem redactJsonExact (value : Value) :
    ∃ after count, redactJsonInPlace value = some (after, count) ∧
      (∀ depth here there, Beside value after depth here there → Redacted depth here there) ∧
      count = changes value after ∧ (count = 0 ↔ after = value) := by
  obtain ⟨after, count, read, counted, -⟩ := valueRedacted value 0
  refine ⟨after, count, read, fun depth here there place => ?_, counted, ?_⟩
  · obtain ⟨n, readHere⟩ := placeRead read place
    obtain ⟨other, m, again, -, redacted⟩ := valueRedacted here depth
    cases readHere.symm.trans again
    exact redacted
  · rw [counted, changesZero]
    exact eq_comm

end Maestro.Redaction
