import SpecTree.Path.Basic
import SpecTree.Text.Blank

/-!
# Names, paths and files of nodes

A node is known by the names from the root down to it. Children get names that are safe as
directories and distinct among their siblings.

Every node keeps its artifacts side by side: the root in the plan directory itself, any other node
in the directory of its path. The plan file is the spec; the others carry its name and a suffix.
-/

namespace SpecTree.Plan

/-! ## Names -/

def rootName : String := "root"

/-- The path of a node from its ancestry, which starts at the root. -/
def nodePath (ancestry : List String) : String :=
  match ancestry with
  | [] => rootName
  | [name] => name
  | _ :: names =>
    let path := String.intercalate "/" names
    if path.isEmpty then rootName else path

/-- The ancestry of a child. -/
def childAncestry (ancestry : List String) (name : String) : List String :=
  match ancestry with
  | [] => if name = rootName then [rootName] else [rootName, name]
  | names => names ++ [name]

/-- Characters that may stand in a node's name. -/
def isNameChar (c : Char) : Bool :=
  ('a' ≤ c && c ≤ 'z') || ('A' ≤ c && c ≤ 'Z') || ('0' ≤ c && c ≤ '9') || c == '_' || c == '-'

/-- Every run of other characters becomes one hyphen. -/
def hyphenate : List Char → List Char
  | [] => []
  | [c] => if isNameChar c then [c] else ['-']
  | c :: d :: cs =>
    if isNameChar c then c :: hyphenate (d :: cs)
    else if isNameChar d then '-' :: hyphenate (d :: cs)
    else hyphenate (d :: cs)

/-- Without hyphens at either end. -/
def trimHyphens (cs : List Char) : List Char :=
  ((cs.dropWhile (· == '-')).reverse.dropWhile (· == '-')).reverse

/-- A name that is safe as a directory. -/
def safeName (name : String) : String :=
  let cs := trimHyphens (hyphenate (Text.stripChars name.toList))
  if cs.isEmpty then "node" else String.ofList cs

/-- The name that is tried for the `k`-th time: from the second time on with a number. -/
def numbered (base : String) (k : Nat) : String :=
  if k ≤ 1 then base else base ++ "-" ++ toString k

/-- The first of the names from the `k`-th on that is not in `taken`, out of `fuel + 1` of them.
They are all different, so one is free if `taken` has no more than `fuel` names. -/
def firstFree (taken : List String) (base : String) (k : Nat) : Nat → String
  | 0 => numbered base k
  | fuel + 1 =>
    if taken.contains (numbered base k) then firstFree taken base (k + 1) fuel
    else numbered base k

/-- The names of siblings made safe and distinct, given the names that are taken. -/
def distinctFrom (taken : List String) : List String → List String
  | [] => []
  | name :: rest =>
    let free := firstFree taken (safeName name) 1 taken.length
    free :: distinctFrom (free :: taken) rest

/-- The names of siblings made safe and distinct; none is the root's. -/
def distinctNames (names : List String) : List String := distinctFrom [rootName] names

/-! ## Files -/

def rootFile : String := "root.plan.aid"

def nodeFile : String := "node.plan.aid"

def contextSuffix : String := ".context.json"

def questionsSuffix : String := ".questions.json"

def metaSuffix : String := ".meta.json"

/-- The path of a node's plan file. -/
def planPath (directory node : String) : String :=
  if node = rootName then Path.assemble [directory, rootFile]
  else Path.assemble [directory, node, nodeFile]

def contextPath (directory node : String) : String := planPath directory node ++ contextSuffix

def questionsPath (directory node : String) : String := planPath directory node ++ questionsSuffix

def metaPath (directory node : String) : String := planPath directory node ++ metaSuffix

end SpecTree.Plan
