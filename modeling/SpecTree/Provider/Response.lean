import SpecTree.Json.Display
import SpecTree.Json.Reader
import SpecTree.Provider.Failure
import SpecTree.Provider.Schema
import SpecTree.Text.Blank

/-!
# Reading a provider's response

A response is text that holds a JSON object, alone, in a fenced block or among other words.

1. `candidates` lists the parts of a response that may be the object; `extractJson` takes the
   first one that is.
2. Names, specs and contents may be any value and are taken as text; where a value is missing or
   says nothing, a default stands in. Declarations, rules and options have to have their form.
-/

namespace SpecTree.Response

/-! ## Finding the object -/

def fence : List Char := ['\x60', '\x60', '\x60']

/-- The text before and the text after the first occurrence of `mark`. -/
def splitAround? (mark : List Char) : List Char → Option (List Char × List Char)
  | [] => if mark.isEmpty then some ([], []) else none
  | c :: cs =>
    if mark.isPrefixOf (c :: cs) then some ([], (c :: cs).drop mark.length)
    else (splitAround? mark cs).map fun (before, after) => (c :: before, after)

/-- A text without the mark at its start, if it is there. -/
def dropMark (mark cs : List Char) : List Char :=
  if mark.isPrefixOf cs then cs.drop mark.length else cs

/-- What stands in the first fenced block, its language tag and the blanks around it aside. -/
def fencedBlock? (cs : List Char) : Option (List Char) :=
  match splitAround? fence cs with
  | none => none
  | some (_, after) =>
    (splitAround? fence (dropMark ['j', 's', 'o', 'n'] after)).map fun (body, _) =>
      Text.stripChars body

/-- From the first opening brace to the last closing one. -/
def bracedPart? (cs : List Char) : Option (List Char) :=
  let fromOpen := cs.dropWhile (· != '{')
  let part := (fromOpen.reverse.dropWhile (· != '}')).reverse
  if part.isEmpty then none else some part

/-- The parts of a response that may be its object, in the order in which they are tried. -/
def candidates (cs : List Char) : List (List Char) :=
  cs :: ((fencedBlock? cs).toList ++ (bracedPart? cs).toList)

def unreadable (output : String) : Failure :=
  ⟨.response, "Failed to parse JSON from provider response: "
    ++ String.ofList (output.toList.take 200) ++ "..."⟩

/-- The first object among texts. A text that is no JSON, or another value, is passed over; one
with a number that is too long is a failure. -/
def firstObject? : List (List Char) → Except Failure (Option Json)
  | [] => .ok none
  | cs :: rest =>
    match Json.read (String.ofList cs) with
    | .ok (.obj members) => .ok (some (.obj members))
    | .error (.longNumber digits) => .error ⟨.value, Decimal.tooLong digits⟩
    | .ok _ | .error .malformed => firstObject? rest

/-- The object that a response holds. -/
def extractJson (output : String) : Except Failure Json := do
  match ← firstObject? (candidates output.toList) with
  | some j => return j
  | none => throw (unreadable output)

/-! ## Lenient values -/

/-- A member as text; `fallback` where it is missing or says nothing. -/
def textOr (j : Json) (name fallback : String) : String :=
  match j.get? name with
  | some value => if value.isTruthy then value.display else fallback
  | none => fallback

/-- The items of a member; none unless it is an array. -/
def items (j : Json) (name : String) : List Json :=
  match j.get? name with
  | some (.arr items) => items
  | _ => []

/-- The items of a member that are objects, with their numbers from one. -/
def numberedObjects (j : Json) (name : String) : List (Nat × Json) :=
  ((items j name).zipIdx 1).filterMap fun (item, n) =>
    if item.isObject then some (n, item) else none

def question? (n : Nat) (j : Json) : Option Question := do
  let options ←
    match j.get? "options" with
    | some value =>
      if value.isTruthy then (value.list? QuestionOption.ofJson?).map some else some none
    | none => some none
  return {
    id := textOr j "id" ("q" ++ toString n)
    question := textOr j "question" ""
    context := textOr j "context" ""
    assumption := textOr j "assumption" ""
    impact := textOr j "impact" ""
    options
    answer := ← j.optional? "answer" Json.text? }

def questions? (j : Json) : Option (List Question) :=
  (numberedObjects j "questions").mapM fun (n, item) => question? n item

def considerations (j : Json) : List Consideration :=
  (numberedObjects j "considerations").map fun (n, item) =>
    ⟨textOr item "id" ("c" ++ toString n), textOr item "note" "",
      ((item.get? "blocking").map Json.isTruthy).getD false⟩

/-! ## Children -/

/-- Interfaces as a list of declarations, under their names. -/
def interfacesOfList (items : List Json) : Table Interface :=
  Table.ofList (items.filterMap fun item =>
    match item.get? "name" with
    | some name =>
      if name.isTruthy then
        some (name.display, ⟨textOr item "source" "", textOr item "definition" ""⟩)
      else none
    | none => none)

/-- Interfaces in either form. -/
def interfaces? (j : Json) : Option (Table Interface) :=
  match j.get? "interfaces" with
  | some value =>
    if !value.isTruthy then some {}
    else
      match value with
      | .arr items => some (interfacesOfList items)
      | value => value.table? Interface.ofJson?
  | none => some {}

/-- The context of a child; anything but an object is the empty one. -/
def childContext? (j : Json) : Option Context :=
  if !j.isObject then some {}
  else do
    return {
      interfaces := ← interfaces? j
      constraints := ← j.memberOr "constraints" (Json.list? Constraint.ofJson?) []
      suggestions := ← j.memberOr "suggestions" (Json.list? Suggestion.ofJson?) []
      utilities := ← j.memberOr "utilities" (Json.list? Utility.ofJson?) []
      forwarding := ← j.optional? "forwarding" (Json.list? Json.text?) }

/-- The tags of a child: the items of an array, the characters of a text, the names in an object;
a value without parts is a failure. -/
def tags (j : Json) : Except Failure (List String) :=
  match j.get? "tags" with
  | none => .ok []
  | some value =>
    if !value.isTruthy then .ok []
    else
      match value with
      | .arr items => .ok (items.map Json.display)
      | .str s => .ok (s.toList.map Char.toString)
      | .obj members => .ok (members.map Prod.fst)
      | value => .error ⟨.shape, "'" ++ value.kindName ++ "' object is not iterable"⟩

/-- Whether a child says that it is a leaf, in either spelling. -/
def saysLeaf (j : Json) : Bool :=
  (((j.get? "is_leaf").or (j.get? "isLeaf")).map Json.isTruthy).getD false

/-- A response to `task` whose values do not have their form. -/
def malformed (task : String) : Failure :=
  ⟨.response, "Invalid " ++ task ++ " response: a value does not have the expected form"⟩

/-- A value that has to have its form. -/
def demand {α : Type} (task : String) : Option α → Except Failure α
  | some a => .ok a
  | none => .error (malformed task)

def child (j : Json) : Except Failure ChildSpec := do
  let context ← demand "compile" (childContext? ((j.get? "context").getD .null))
  let tags ← tags j
  return ⟨textOr j "name" "unnamed", textOr j "spec" "", context, saysLeaf j, tags⟩

/-! ## Whole responses -/

/-- The expansion that a response to a compile request holds. -/
def expansion (output : String) : Except Failure Expansion := do
  let j ← extractJson output
  let children ← ((items j "children").filter Json.isObject).mapM child
  demand "compile" do
    return {
      children
      interfaces := ← (items j "interfaces").mapM Declaration.ofJson?
      constraints := ← (items j "constraints").mapM Constraint.ofJson?
      suggestions := ← (items j "suggestions").mapM Suggestion.ofJson?
      utilities := ← (items j "utilities").mapM Utility.ofJson?
      questions := ← questions? j
      considerations := considerations j }

def generatedFile (j : Json) : GeneratedFile := ⟨textOr j "path" "", textOr j "content" ""⟩

/-- The production that a response to a generate request holds. -/
def production (output : String) : Except Failure Production := do
  let j ← extractJson output
  let files := ((items j "files").filter Json.isObject).map generatedFile
  demand "generate" do
    return ⟨files, ← questions? j, considerations j⟩

end SpecTree.Response
