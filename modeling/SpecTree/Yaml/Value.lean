import SpecTree.Decimal.Number
import SpecTree.Json.Display
import SpecTree.Time.Calendar

/-!
# Values of files

What a file holds: besides texts, numbers, flags, lists and mappings also bytes, dates, moments and
sets. Keys need not be texts. Two keys are the same if they are equal as values: a whole number
equals the number with a point of its size, and a flag equals zero or one.
-/

namespace SpecTree.Yaml

inductive Value where
  | null
  | bool (b : Bool)
  | int (n : Int)
  | float (x : Float)
  | text (s : String)
  | bytes (bs : List UInt8)
  | date (d : Calendar.Date)
  | moment (m : Calendar.Moment)
  | list (items : List Value)
  /-- Entries as a list. -/
  | pairs (entries : List (Value × Value))
  | set (items : List Value)
  | map (entries : List (Value × Value))
  /-- A list or mapping around this place. -/
  | again (isMap : Bool)
  deriving Inhabited

namespace Value

/-! ## Keys -/

/-- The number that a value is as a key. -/
def number? : Value → Option Number
  | bool b => some (.whole (if b then 1 else 0))
  | int n => some (.whole n)
  | float x => some (.fractional x)
  | _ => none

def sameKey (a b : Value) : Bool :=
  match a.number?, b.number? with
  | some x, some y => x.sameAs y
  | none, none =>
    match a, b with
    | null, null => true
    | text s, text t => s == t
    | bytes s, bytes t => s == t
    | date d, date e => d == e
    | moment m, moment n => m == n
    | _, _ => false
  | _, _ => false

/-- Whether a value can be a key. -/
def isKey : Value → Bool
  | list _ | pairs _ | set _ | map _ | again _ => false
  | _ => true

/-- Puts a value under a key; a key that comes again keeps its place. -/
def put (key value : Value) : List (Value × Value) → List (Value × Value)
  | [] => [(key, value)]
  | (k, v) :: rest => if k.sameKey key then (k, value) :: rest else (k, v) :: put key value rest

/-! ## Texts -/

def byteText (quote : Char) (b : UInt8) : List Char :=
  let c := Char.ofNat b.toNat
  if c = quote ∨ c = '\\' then ['\\', c]
  else if c = '\n' then ['\\', 'n']
  else if c = '\r' then ['\\', 'r']
  else if c = '\t' then ['\\', 't']
  else if 0x20 ≤ b.toNat ∧ b.toNat < 0x7F then [c]
  else '\\' :: 'x' :: Text.hexDigits 2 b.toNat

def bytesText (bs : List UInt8) : String :=
  let quote := Text.quoteFor (bs.map fun b => Char.ofNat b.toNat)
  String.ofList ('b' :: quote :: bs.flatMap (byteText quote) ++ [quote])

def bracketed (first last : String) (texts : List String) : String :=
  first ++ String.intercalate ", " texts ++ last

mutual

/-- A value inside a list or mapping. -/
def inner : Value → String
  | null => "None"
  | bool b => if b then "True" else "False"
  | int n => toString n
  | float x => Decimal.plain.text x
  | text s => Text.quoted s
  | bytes bs => bytesText bs
  | date d => d.inner
  | moment m => m.inner
  | list items => bracketed "[" "]" (innerItems items)
  | pairs entries => bracketed "[" "]" (innerPairs entries)
  | set items => if items.isEmpty then "set()" else bracketed "\x7b" "\x7d" (innerItems items)
  | map entries => bracketed "\x7b" "\x7d" (innerEntries entries)
  | again isMap => if isMap then "\x7b...\x7d" else "[...]"

def innerItems : List Value → List String
  | [] => []
  | v :: rest => inner v :: innerItems rest

def innerPairs : List (Value × Value) → List String
  | [] => []
  | (k, v) :: rest => ("(" ++ inner k ++ ", " ++ inner v ++ ")") :: innerPairs rest

def innerEntries : List (Value × Value) → List String
  | [] => []
  | (k, v) :: rest => (inner k ++ ": " ++ inner v) :: innerEntries rest

end

/-- The text of a value. -/
def display : Value → String
  | text s => s
  | date d => d.text
  | moment m => m.text
  | v => v.inner

/-- The name of the kind of a value. -/
def kindName : Value → String
  | null => "NoneType"
  | bool _ => "bool"
  | int _ => "int"
  | float _ => "float"
  | text _ => "str"
  | bytes _ => "bytes"
  | date _ => "date"
  | moment _ => "datetime"
  | list _ | pairs _ => "list"
  | set _ => "set"
  | map _ => "dict"
  | again isMap => if isMap then "dict" else "list"

/-- Whether a value counts as something: not nothing, false, zero or empty. -/
def isTruthy : Value → Bool
  | null => false
  | bool b => b
  | int n => n != 0
  | float x => x != 0
  | text s => !s.isEmpty
  | bytes bs => !bs.isEmpty
  | date _ | moment _ | again _ => true
  | list items | set items => !items.isEmpty
  | pairs entries | map entries => !entries.isEmpty

/-- A value as a setting: bytes count as the text they encode, and an empty list stands for all
that is never a setting. -/
def setting : Value → Json
  | null => .null
  | bool b => .bool b
  | int n => .int n
  | float x => .float x
  | text s => .str s
  | bytes bs =>
    match String.fromUTF8? ⟨bs.toArray⟩ with
    | some s => .str s
    | none => .arr []
  | _ => .arr []

end Value

end SpecTree.Yaml
