import SpecTree.Decimal.Style
import SpecTree.Json.Escape
import SpecTree.Json.Value

/-!
# Writing JSON

Two forms: `pretty` with two blanks for each level and one item a line, and `compact` on one line
in ASCII.
-/

namespace SpecTree.Json

def intText (n : Int) : List Char := (toString n).toList

/-- Pieces with `separator` between any two. -/
def intersperse (separator : List Char) : List (List Char) → List Char
  | [] => []
  | [p] => p
  | p :: q :: ps => p ++ separator ++ intersperse separator (q :: ps)

def newline (depth : Nat) : List Char := '\n' :: List.replicate (2 * depth) ' '

/-- The items of an array or object between its brackets, one a line. -/
def lines (depth : Nat) (left right : Char) (items : List (List Char)) : List Char :=
  if items.isEmpty then [left, right]
  else
    left :: newline (depth + 1) ++ intersperse (',' :: newline (depth + 1)) items
      ++ newline depth ++ [right]

def wordText (b : Bool) : List Char :=
  if b then ['t', 'r', 'u', 'e'] else ['f', 'a', 'l', 's', 'e']

/-- Numbers that are none are written as words. -/
def numberStyle : Decimal.Style := { Decimal.plain with infinity := "Infinity", notANumber := "NaN" }

def floatText (x : Float) : List Char := (numberStyle.text x).toList

mutual

def prettyChars (depth : Nat) : Json → List Char
  | null => ['n', 'u', 'l', 'l']
  | bool b => wordText b
  | int n => intText n
  | float x => floatText x
  | str s => quote false s
  | arr items => lines depth '[' ']' (prettyItems (depth + 1) items)
  | obj members => lines depth '{' '}' (prettyMembers (depth + 1) members)

def prettyItems (depth : Nat) : List Json → List (List Char)
  | [] => []
  | j :: rest => prettyChars depth j :: prettyItems depth rest

def prettyMembers (depth : Nat) : List (String × Json) → List (List Char)
  | [] => []
  | (name, j) :: rest =>
    (quote false name ++ [':', ' '] ++ prettyChars depth j) :: prettyMembers depth rest

end

/-- Two blanks for each level and one item a line. -/
def pretty (j : Json) : String := String.ofList (j.prettyChars 0)

/-- The items of an array or object between its brackets, on one line. -/
def row (left right : Char) (items : List (List Char)) : List Char :=
  left :: intersperse [',', ' '] items ++ [right]

mutual

def compactChars : Json → List Char
  | null => ['n', 'u', 'l', 'l']
  | bool b => wordText b
  | int n => intText n
  | float x => floatText x
  | str s => quote true s
  | arr items => row '[' ']' (compactItems items)
  | obj members => row '{' '}' (compactMembers members)

def compactItems : List Json → List (List Char)
  | [] => []
  | j :: rest => compactChars j :: compactItems rest

def compactMembers : List (String × Json) → List (List Char)
  | [] => []
  | (name, j) :: rest =>
    (quote true name ++ [':', ' '] ++ compactChars j) :: compactMembers rest

end

/-- One line of ASCII. -/
def compact (j : Json) : String := String.ofList j.compactChars

end SpecTree.Json
