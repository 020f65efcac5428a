import Mathlib.Data.List.Basic

/-! JSON values. An object lists its fields in the order of their keys, and its
compact text has no blank between tokens. -/
namespace Maestro

abbrev Bytes := List UInt8

inductive Number where
  | posInt (n : Nat)
  | negInt (n : Int)
  | float (text : String)
  deriving DecidableEq, Repr

inductive Value where
  | null
  | bool (b : Bool)
  | number (n : Number)
  | string (s : String)
  | array (items : List Value)
  | object (fields : List (String × Value))
  deriving Repr

namespace Value

def asObject : Value → Option (List (String × Value))
  | .object fields => some fields
  | _ => none

def asStr : Value → Option String
  | .string s => some s
  | _ => none

def asU64 : Value → Option Nat
  | .number (.posInt n) => some n
  | _ => none

def get (fields : List (String × Value)) (key : String) : Option Value :=
  (fields.find? (fun field => field.1 == key)).map Prod.snd

def insert (key : String) (value : Value) : List (String × Value) → List (String × Value)
  | [] => [(key, value)]
  | (k, v) :: rest =>
      if k = key then (key, value) :: rest
      else if key < k then (key, value) :: (k, v) :: rest
      else (k, v) :: insert key value rest

theorem getInsert (key : String) (value : Value) (fields : List (String × Value)) :
    get (insert key value fields) key = some value := by
  induction fields with
  | nil => simp [insert, get]
  | cons field rest ih =>
    obtain ⟨k, v⟩ := field
    simp only [insert]
    split
    · simp [get]
    · split
      · simp [get]
      · rename_i different _
        simpa [get, different] using ih

theorem getInsertOther {key other : String} (apart : key ≠ other) (value : Value) (fields : List (String × Value)) :
    get (insert key value fields) other = get fields other := by
  induction fields with
  | nil => simp [insert, get, apart]
  | cons field rest ih =>
    obtain ⟨k, v⟩ := field
    simp only [insert]
    split
    · rename_i same
      simp [get, same, apart]
    · split
      · simp [get, apart]
      · by_cases here : k = other
        · simp [get, here]
        · simpa [get, here] using ih

def escaped (c : Char) : List Char :=
  if c = '"' then ['\\', '"']
  else if c = '\\' then ['\\', '\\']
  else if c = '\n' then ['\\', 'n']
  else if c = '\r' then ['\\', 'r']
  else if c = '\t' then ['\\', 't']
  else if c.toNat = 8 then ['\\', 'b']
  else if c.toNat = 12 then ['\\', 'f']
  else if c.toNat < 32 then
    ['\\', 'u', '0', '0', Nat.digitChar (c.toNat / 16), Nat.digitChar (c.toNat % 16)]
  else [c]

def quoted (s : String) : List Char := '"' :: (s.toList.flatMap escaped ++ ['"'])

def numberText : Number → List Char
  | .posInt n => Nat.toDigits 10 n
  | .negInt n => '-' :: Nat.toDigits 10 n.natAbs
  | .float text => text.toList

mutual
def text : Value → List Char
  | .null => "null".toList
  | .bool b => if b then "true".toList else "false".toList
  | .number n => numberText n
  | .string s => quoted s
  | .array items => '[' :: (itemsText items ++ [']'])
  | .object fields => '\x7b' :: (fieldsText fields ++ ['\x7d'])
def itemsText : List Value → List Char
  | [] => []
  | [last] => text last
  | item :: rest => text item ++ ',' :: itemsText rest
def fieldsText : List (String × Value) → List Char
  | [] => []
  | [(key, last)] => quoted key ++ ':' :: text last
  | (key, value) :: rest => quoted key ++ ':' :: (text value ++ ',' :: fieldsText rest)
end

def encode (v : Value) : Bytes := v.text.flatMap String.utf8EncodeChar

example : (object [("request_id", .string "p"), ("value", .null)]).text =
    "\x7b\"request_id\":\"p\",\"value\":null\x7d".toList := by decide

end Value
end Maestro
