import SpecTree.Json.Reader

/-!
# Reading stored JSON

Stored values are read more strictly than responses: arrays and objects may stand in each other
only to a limited depth, and no string may hold half of a pair of units.
-/

namespace SpecTree.Json

/-- Arrays and objects stand in each other at most so deep; empty ones do not count. -/
def maxNesting : Nat := 200

/-- The greatest depth in a row of marks that starts at a depth. -/
def deepest (depth : Nat) : List Mark → Nat
  | [] => depth
  | .openArray :: .closeArray :: rest | .openObject :: .closeObject :: rest => deepest depth rest
  | .openArray :: rest | .openObject :: rest => deepest (depth + 1) rest
  | .closeArray :: rest | .closeObject :: rest => max depth (deepest (depth - 1) rest)
  | _ :: rest => deepest depth rest

/-- Whether a group of four digits is half of a pair whose other half is missing. -/
def isHalf (cs : List Char) : Bool :=
  match hexUnit? cs with
  | some (n, rest) =>
    (0xD800 ≤ n && n ≤ 0xDBFF && (lowHalf? rest).isNone) || (0xDC00 ≤ n && n ≤ 0xDFFF)
  | none => false

/-- Whether an escape in a text is half of a pair. -/
def hasHalf (cs : List Char) : Bool :=
  match cs with
  | [] => false
  | '\\' :: 'u' :: rest =>
    isHalf rest ||
      match _h : unescapeUnit? rest with
      | some (_, after) => hasHalf after
      | none => false
  | '\\' :: _ :: rest => hasHalf rest
  | _ :: rest => hasHalf rest
termination_by cs.length
decreasing_by
  · have := unescapeUnit?_length ‹_›
    simp only [List.length_cons]
    omega
  · simp only [List.length_cons]; omega
  · simp only [List.length_cons]; omega

/-- The value of a stored text. -/
def readStored? (text : String) : Option Json :=
  let cs := text.toList
  if hasHalf cs || maxNesting < deepest 0 (marks cs) then none else read? text

end SpecTree.Json
