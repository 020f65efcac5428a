import Mathlib.Data.List.Sort
import Maestro.Json

/-! Redaction of secrets in text and in JSON values. Text is its UTF-8 bytes; `none`
stands for the panic of a slice that is no whole number of characters. -/
namespace Maestro.Redaction

abbrev Range := Nat × Nat

def ascii (text : String) : Bytes := text.toList.map fun c => UInt8.ofNat c.toNat

def redacted : Bytes := ascii "[REDACTED]"

def maxJsonDepth : Nat := 128

def sensitiveKeys : List Bytes :=
  ["apikey", "apitoken", "auth", "authorization", "authtoken", "clientsecret", "credential",
    "credentials", "databasepassword", "dbpassword", "idtoken", "password", "passphrase", "passwd",
    "privatekey", "proxyauthorization", "pwd", "refreshtoken", "secret", "secretaccesskey",
    "sessiontoken", "signingkey", "token"].map ascii

def sensitiveSuffixes : List Bytes :=
  ["apikey", "apitoken", "authtoken", "clientsecret", "credential", "credentials", "idtoken",
    "password", "passphrase", "passwd", "privatekey", "refreshtoken", "secret", "secretaccesskey",
    "sessiontoken", "signingkey", "token"].map ascii

def queryOnlyKeys : List Bytes :=
  ["key", "sig", "signature", "xamzcredential", "xamzsignature"].map ascii

def isUpper (byte : UInt8) : Bool := 65 ≤ byte && byte ≤ 90
def isLower (byte : UInt8) : Bool := 97 ≤ byte && byte ≤ 122
def isDigit (byte : UInt8) : Bool := 48 ≤ byte && byte ≤ 57
def isAlphanumeric (byte : UInt8) : Bool := isUpper byte || isLower byte || isDigit byte

def toLower (byte : UInt8) : UInt8 := if isUpper byte then byte + 32 else byte

def isQuote (byte : UInt8) : Bool := byte == 39 || byte == 34
def isSeparator (byte : UInt8) : Bool := byte == 61 || byte == 58
def isHorizontalWhitespace (byte : UInt8) : Bool := byte == 32 || byte == 9
def isLineEnd (byte : UInt8) : Bool := byte == 13 || byte == 10
def isKeyByte (byte : UInt8) : Bool := isAlphanumeric byte || byte == 95 || byte == 45 || byte == 46

def isUnquotedValueDelimiter (byte : UInt8) : Bool :=
  [32, 9, 10, 12, 13, 44, 59, 38, 35, 39, 34, 41, 93, 125].contains byte

def isBase64Url (byte : UInt8) : Bool := isAlphanumeric byte || byte == 95 || byte == 45
def isBase64Standard (byte : UInt8) : Bool :=
  isAlphanumeric byte || byte == 43 || byte == 47 || byte == 61
def isPrefixedTokenByte (byte : UInt8) : Bool := isAlphanumeric byte || byte == 95 || byte == 45

def isWordBoundary (byte : Option UInt8) : Bool :=
  byte.all fun byte => !isAlphanumeric byte && byte != 95 && byte != 45
def isTokenBoundary (byte : Option UInt8) : Bool := byte.all fun byte => !isBase64Url byte && byte != 46
def isPrefixedTokenBoundary (byte : Option UInt8) : Bool := byte.all fun byte => !isPrefixedTokenByte byte

def byteBefore (input : Bytes) : Nat → Option UInt8
  | 0 => none
  | n + 1 => input[n]?

def isContinuation (byte : UInt8) : Bool := 128 ≤ byte && byte < 192

def isCharBoundary (input : Bytes) (index : Nat) : Bool :=
  index = 0 || (if index < input.length then (input[index]?).all (!isContinuation ·)
    else index = input.length)

/-- `str::get`; an index of the same range panics where this is `none`. -/
def slice (input : Bytes) (start stop : Nat) : Option Bytes :=
  if start ≤ stop ∧ isCharBoundary input start ∧ isCharBoundary input stop then
    some ((input.take stop).drop start)
  else none

def eqIgnoreCase (a b : Bytes) : Bool := a.map toLower == b.map toLower

def scan (stop : Nat → UInt8 → Bool) : Bytes → Nat → Nat
  | [], position => position
  | byte :: rest, position => if stop position byte then position else scan stop rest (position + 1)

def scanFrom (input : Bytes) (stop : Nat → UInt8 → Bool) (start : Nat) : Nat :=
  scan stop (input.drop start) start

def scanBack (input : Bytes) (kind : UInt8 → Bool) : Nat → Nat
  | 0 => 0
  | n + 1 => if (input[n]?).any kind then scanBack input kind n else n + 1

def normalizeKey (key : Bytes) : Bytes := (key.filter isAlphanumeric).map toLower

def isSensitiveNormalizedKey (key : Bytes) : Bool :=
  sensitiveKeys.contains key || sensitiveSuffixes.any (·.isSuffixOf key)

def isSensitiveKey (key : Bytes) : Bool := isSensitiveNormalizedKey (normalizeKey key)

def slashesBefore (input : Bytes) (position : Nat) : Nat := position - scanBack input (· == 92) position

def isEscaped (input : Bytes) (position : Nat) : Bool := slashesBefore input position % 2 == 1

def previousUnescapedQuote (input : Bytes) (quote : UInt8) : Nat → Option Nat
  | 0 => none
  | cursor + 1 =>
      if input[cursor]? == some quote && !isEscaped input cursor then some cursor
      else previousUnescapedQuote input quote cursor

def keyBeforeSeparator (input : Bytes) (separator : Nat) : Option Range :=
  let stop := scanBack input isHorizontalWhitespace separator
  match byteBefore input stop with
  | none => none
  | some last =>
      if isQuote last then
        let closing := stop - 1
        match previousUnescapedQuote input last closing with
        | none => none
        | some opening => if opening + 1 < closing then some (opening + 1, closing) else none
      else
        let start := scanBack input isKeyByte stop
        if start < stop then some (start, stop) else none

def skipHorizontalWhitespace (input : Bytes) (cursor : Nat) : Nat :=
  scanFrom input (fun _ byte => !isHorizontalWhitespace byte) cursor

def valueStartingAt (input : Bytes) (start : Nat) : Option (Option Range) :=
  match input[start]? with
  | none => some none
  | some first => do
      let rest ← slice input start input.length
      if redacted.isPrefixOf rest then return none
      if isQuote first then
        let stop := scanFrom input (fun position byte => byte == first && !isEscaped input position)
          (start + 1)
        return if start + 1 < stop then some (start + 1, stop) else none
      else
        let stop := scanFrom input (fun _ byte => isUnquotedValueDelimiter byte) start
        return if start < stop then some (start, stop) else none

def valueAfterSeparator (input : Bytes) (separator : Nat) : Option (Option Range) :=
  valueStartingAt input (skipHorizontalWhitespace input (separator + 1))

def credentialAfter (input : Bytes) (value : Range) (position : Nat) : Option Range := do
  let secret ← valueStartingAt input (skipHorizontalWhitespace input position)
  return secret.getD value

/-- One turn of the loop over the schemes; `none` inside lets it go on. -/
def schemeCredential (input : Bytes) (value : Range) (scheme : Bytes) : Option (Option Range) :=
  let bytes := (input.take value.2).drop value.1
  if eqIgnoreCase bytes scheme then (credentialAfter input value value.2).map some
  else if bytes.length ≤ scheme.length || !eqIgnoreCase (bytes.take scheme.length) scheme ||
      !(bytes[scheme.length]?).any isHorizontalWhitespace then some none
  else (credentialAfter input value (value.1 + scheme.length)).map some

/-- Without a scheme the secret is the value in quotes or the rest of the line. -/
def authorizationSecretRange (input : Bytes) (value : Range) : Option Range := do
  if let some range ← schemeCredential input value (ascii "bearer") then return range
  if let some range ← schemeCredential input value (ascii "basic") then return range
  if (byteBefore input value.1).any isQuote then return value
  return (value.1, scanFrom input (fun _ byte => isLineEnd byte) value.2)

def assignmentAt (input : Bytes) (separator : Nat) : Option (List Range) :=
  if !(input[separator]?).any isSeparator then some []
  else
    match keyBeforeSeparator input separator with
    | none => some []
    | some key => do
        let text ← slice input key.1 key.2
        let normalized := normalizeKey text
        let queryKey := (byteBefore input key.1).any fun byte => byte == 63 || byte == 38 || byte == 59
        if !(isSensitiveNormalizedKey normalized || queryKey && queryOnlyKeys.contains normalized) then
          return []
        match ← valueAfterSeparator input separator with
        | none => return []
        | some value =>
            if normalized == ascii "authorization" || normalized == ascii "proxyauthorization" then
              return [← authorizationSecretRange input value]
            else return [value]

/-- A loop whose turns may jump ahead: `visit` gives what the turn found and where the next
one starts. -/
def sweep (visit : Nat → Option (List Range × Nat)) : List Nat → Nat → Option (List Range)
  | [], _ => some []
  | position :: rest, cursor =>
      if position < cursor then sweep visit rest cursor
      else do
        let (found, next) ← visit position
        let more ← sweep visit rest next
        return found ++ more

def collectAssignmentRanges (input : Bytes) : Option (List Range) :=
  sweep (fun position => do return (← assignmentAt input position, position + 1))
    (List.range input.length) 0

def looksLikeBearer (candidate : Bytes) : Bool :=
  16 ≤ candidate.length || (8 ≤ candidate.length && candidate.any fun byte =>
    isDigit byte || byte == 45 || byte == 95 || byte == 46 || byte == 61)

def looksLikeBasic (candidate : Bytes) : Bool :=
  8 ≤ candidate.length && candidate.length % 4 == 0 && candidate.all isBase64Standard &&
    ((candidate.any isLower && candidate.any isUpper) || candidate.any fun byte =>
      isDigit byte || byte == 43 || byte == 47 || byte == 61)

def schemeAt (input : Bytes) (scheme : Bytes) (looksCredential : Bytes → Bool) (start : Nat) :
    Option (List Range × Nat) :=
  let afterScheme := start + scheme.length
  if !eqIgnoreCase ((input.drop start).take scheme.length) scheme then some ([], start + 1)
  else if !isWordBoundary (byteBefore input start) ||
      !(input[afterScheme]?).any isHorizontalWhitespace then some ([], afterScheme)
  else do
    match ← valueStartingAt input (skipHorizontalWhitespace input afterScheme) with
    | none => return ([], afterScheme)
    | some candidate =>
        let value ← slice input candidate.1 candidate.2
        return (if looksCredential value then [candidate] else [], max candidate.2 afterScheme)

def collectSchemeRanges (input : Bytes) : Option (List Range) := do
  let bearer ← sweep (schemeAt input (ascii "bearer") looksLikeBearer) (List.range input.length) 0
  let basic ← sweep (schemeAt input (ascii "basic") looksLikeBasic) (List.range input.length) 0
  return bearer ++ basic

def splitOn (separator : UInt8) : Bytes → List Bytes
  | [] => [[]]
  | byte :: rest =>
      match splitOn separator rest with
      | [] => [[byte]]
      | first :: more => if byte == separator then [] :: first :: more else (byte :: first) :: more

def isJwtLike (candidate : Bytes) : Bool :=
  match splitOn 46 candidate with
  | [header, payload, signature] =>
      (ascii "eyJ").isPrefixOf header && 8 ≤ header.length && 8 ≤ payload.length &&
        8 ≤ signature.length && header.all isBase64Url && payload.all isBase64Url &&
        signature.all isBase64Url
  | _ => false

def jwtAt (input : Bytes) (cursor : Nat) : Option (List Range × Nat) :=
  if (ascii "eyJ").isPrefixOf (input.drop cursor) && isTokenBoundary (byteBefore input cursor) then do
    let stop := scanFrom input (fun _ byte => !(isBase64Url byte || byte == 46)) (cursor + 3)
    let candidate ← slice input cursor stop
    if isJwtLike candidate && isTokenBoundary input[stop]? then return ([(cursor, stop)], stop)
    return ([], cursor + 1)
  else some ([], cursor + 1)

def collectJwtRanges (input : Bytes) : Option (List Range) :=
  sweep (jwtAt input) (List.range input.length) 0

def looksLikePrefixedCredential (candidate : Bytes) : Bool :=
  let starts (text : String) : Bool := (ascii text).isPrefixOf candidate
  (starts "sk-" && 20 ≤ candidate.length) ||
  ((starts "sk_live_" || starts "sk_test_") && 24 ≤ candidate.length) ||
  (starts "rk_live_" && 24 ≤ candidate.length) ||
  (["ghp_", "gho_", "ghu_", "ghs_", "github_pat_"].any starts && 20 ≤ candidate.length) ||
  (starts "glpat-" && 20 ≤ candidate.length) ||
  (starts "AIza" && 30 ≤ candidate.length) ||
  (starts "xox" && (candidate[3]?).any (fun byte => (ascii "abprs").contains (toLower byte)) &&
    candidate[4]? == some 45 && 20 ≤ candidate.length) ||
  ((starts "AKIA" || starts "ASIA") && candidate.length == 20 &&
    candidate.all fun byte => isUpper byte || isDigit byte)

def prefixedAt (input : Bytes) (cursor : Nat) : Option (List Range × Nat) :=
  if !(input[cursor]?).any isPrefixedTokenByte ||
      !isPrefixedTokenBoundary (byteBefore input cursor) then some ([], cursor + 1)
  else do
    let stop := scanFrom input (fun _ byte => !isPrefixedTokenByte byte) (cursor + 1)
    let candidate ← slice input cursor stop
    return (if looksLikePrefixedCredential candidate then [(cursor, stop)] else [], stop)

def collectPrefixedCredentialRanges (input : Bytes) : Option (List Range) :=
  sweep (prefixedAt input) (List.range input.length) 0

def Retained (input : Bytes) (range : Range) : Prop :=
  range.1 < range.2 ∧ (slice input range.1 range.2).isSome ∧ slice input range.1 range.2 ≠ some redacted
instance (input : Bytes) (range) : Decidable (Retained input range) :=
  inferInstanceAs (Decidable (_ ∧ _ ∧ _))

def Earlier (a b : Range) : Prop := a.1 < b.1 ∨ (a.1 = b.1 ∧ a.2 ≤ b.2)
instance : DecidableRel Earlier := fun _ _ => inferInstanceAs (Decidable (_ ∨ _))

def mergeInto : Range → List Range → List Range
  | last, [] => [last]
  | last, range :: rest =>
      if range.1 ≤ last.2 then mergeInto (last.1, max last.2 range.2) rest
      else last :: mergeInto range rest

def mergeRanges : List Range → List Range
  | [] => []
  | first :: rest => mergeInto first rest

def normalizeRanges (input : Bytes) (ranges : List Range) : List Range :=
  mergeRanges ((ranges.filter fun range => Retained input range).insertionSort Earlier)

def secretRanges (input : Bytes) : Option (List Range) := do
  let assignments ← collectAssignmentRanges input
  let schemes ← collectSchemeRanges input
  let jwts ← collectJwtRanges input
  let prefixed ← collectPrefixedCredentialRanges input
  return normalizeRanges input (assignments ++ schemes ++ jwts ++ prefixed)

def renderFrom (input : Bytes) : Nat → List Range → Option Bytes
  | cursor, [] => slice input cursor input.length
  | cursor, range :: rest => do
      let before ← slice input cursor range.1
      let after ← renderFrom input range.2 rest
      return before ++ redacted ++ after

/-- `Cow::Borrowed` is `none` inside, `Cow::Owned` the sanitized copy. -/
def redactText (input : Bytes) : Option (Option Bytes) := do
  let ranges ← secretRanges input
  if ranges = [] then return none
  return some (← renderFrom input 0 ranges)

example : redactText (ascii "api_key=hunter2, x") = some (some (ascii "api_key=[REDACTED], x")) := by
  decide +kernel
example : redactText (ascii "secretary=Alex") = some none := by decide +kernel

end Maestro.Redaction
