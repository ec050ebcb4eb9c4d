import SpecTree.Yaml.Node
import SpecTree.Yaml.Scalar

/-!
# Reading files

The value of a file. Mappings may take entries from others under a merge key: those come first, so
that the mapping's own entries win. Values are made level by level from the outermost one inwards,
and the first problem met on the way is reported.
-/

namespace SpecTree.Yaml

namespace Node

def tag : Node → Tag
  | text t _ | list t _ | map t _ => t
  | again isMap => if isMap then .map else .list

def retag (t : Tag) : Node → Node
  | text _ s => text t s
  | list _ items => list t items
  | map _ entries => map t entries
  | again isMap => again isMap

/-- The text of a node; a mapping has that of its default value. -/
def content (fuel : Nat) (n : Node) : Except Problem String :=
  match fuel with
  | 0 => .error .malformed
  | fuel + 1 =>
    match n with
    | text _ s => .ok s
    | map _ entries =>
      match entries.find? fun (k, _) => k.tag == .value with
      | some (_, v) => v.content fuel
      | none => .error .malformed
    | _ => .error .malformed

mutual

/-- The entries of a mapping after those it takes from others. -/
def merged (fuel : Nat) (entries : List (Node × Node)) : Except Problem (List (Node × Node)) :=
  match fuel with
  | 0 => .error .malformed
  | fuel + 1 => do
    let parts ← entries.mapM fun (k, v) =>
      if k.tag = .merge then (taken fuel v).map (·, [])
      else if k.tag = .value then pure ([], [(k.retag .text, v)])
      else pure ([], [(k, v)])
    return parts.flatMap (·.1) ++ parts.flatMap (·.2)

/-- The entries that a mapping takes from the value of a merge key. Of a list the first mapping
wins, so it comes last. -/
def taken (fuel : Nat) (n : Node) : Except Problem (List (Node × Node)) :=
  match fuel with
  | 0 => .error .malformed
  | fuel + 1 =>
    match n with
    | map _ entries => merged fuel entries
    | again true => .ok []
    | list _ items => do
      let parts ← items.mapM fun item =>
        match item with
        | map _ entries => merged fuel entries
        | again true => pure []
        | _ => throw .malformed
      return parts.reverse.flatten
    | _ => .error .malformed

end

/-! ## Values -/

/-- A value and the problems met in making it, each with the level at which it was met. -/
abbrev Made := Value × List (Nat × Problem)

def broken (level : Nat) (e : Problem) : Made := (.null, [(level, e)])

/-- The values of entries under their keys; a list or mapping is no key. -/
def collect (level : Nat) (make : Node → Made) (entries : List (Node × Node)) :
    List (Value × Value) × List (Nat × Problem) :=
  entries.foldl (fun (sofar, problems) (k, v) =>
    let (key, keyProblems) := make k
    let (value, valueProblems) := make v
    let noKey := if key.isKey then [] else [(level, Problem.malformed)]
    (Value.put key value sofar, problems ++ keyProblems ++ noKey ++ valueProblems)) ([], [])

/-- The entries of a list of mappings with one entry each. -/
def listed (level : Nat) (make : Node → Made) (items : List Node) :
    List (Value × Value) × List (Nat × Problem) :=
  items.foldl (fun (sofar, problems) item =>
    match item with
    | map _ [(k, v)] =>
      let (key, keyProblems) := make k
      let (value, valueProblems) := make v
      (sofar ++ [(key, value)], problems ++ keyProblems ++ valueProblems)
    | _ => (sofar, problems ++ [(level, .malformed)])) ([], [])

/-- The value of a node that stands at a level; what it holds is made one level further in. -/
def make (fuel level : Nat) (n : Node) : Made :=
  match fuel with
  | 0 => broken level .malformed
  | fuel + 1 =>
    let inside := level + 1
    let scalar (read : String → Except Problem Value) : Made :=
      match n.content fuel >>= read with
      | .ok v => (v, [])
      | .error e => broken level e
    let entries (whole : List (Value × Value) → Value) : Made :=
      match n with
      | map _ es =>
        match merged fuel es with
        | .ok es =>
          let (made, problems) := collect inside (make fuel inside) es
          (whole made, problems)
        | .error e => (whole [], [(inside, e)])
      | again true => (.again true, [])
      | _ => (whole [], [(inside, .malformed)])
    let row : Made :=
      match n with
      | list _ items =>
        let (made, problems) := listed inside (make fuel inside) items
        (.pairs made, problems)
      | _ => (.pairs [], [(inside, .malformed)])
    match n.tag with
    | .null => scalar fun _ => .ok .null
    | .flag => scalar Scalar.flagValue
    | .whole => scalar Scalar.wholeValue
    | .real => scalar Scalar.realValue
    | .stamp => scalar Scalar.stampOfText
    | .bytes => scalar Scalar.bytesValue
    | .text => scalar fun s => .ok (.text s)
    | .list =>
      match n with
      | list _ items =>
        let made := items.map (make fuel inside)
        (.list (made.map (·.1)), made.flatMap (·.2))
      | again false => (.again false, [])
      | _ => (.list [], [(inside, .malformed)])
    | .map => entries .map
    | .set => entries fun es => .set (es.map (·.1))
    | .ordered | .pairs => row
    | .merge | .value | .other => broken level .malformed

mutual

/-- How deep lists and mappings stand in each other. -/
def depth : Node → Nat
  | list _ items => depthOfItems items + 1
  | map _ entries => depthOfEntries entries + 1
  | _ => 1

def depthOfItems : List Node → Nat
  | [] => 0
  | n :: rest => max n.depth (depthOfItems rest)

def depthOfEntries : List (Node × Node) → Nat
  | [] => 0
  | (k, v) :: rest => max (max k.depth v.depth) (depthOfEntries rest)

end

/-- The problem met first: the outermost one, and of those the one that stands first. -/
def first? : List (Nat × Problem) → Option (Nat × Problem)
  | [] => none
  | p :: rest =>
    match first? rest with
    | some q => if q.1 < p.1 then some q else some p
    | none => some p

def value (n : Node) : Except Problem Value :=
  let (v, problems) := n.make (2 * n.depth + 2) 0
  match first? problems with
  | some (_, e) => .error e
  | none => .ok v

end Node

/-! ## Files -/

/-- Characters that a file may hold. -/
def isPrintable (c : Char) : Bool :=
  let n := c.toNat
  n == 9 || n == 10 || n == 13 || (0x20 ≤ n && n ≤ 0x7E) || n == 0x85 || (0xA0 ≤ n && n ≤ 0xFFFD)
    || 0x10000 ≤ n

/-- The value of a file; a file without a document holds nothing. -/
def read (text : String) : Except Problem Value :=
  let cs := text.toList
  if cs.all isPrintable then do
    let (tokens, problem) := tokensOf cs
    match ← Node.ofTokens tokens problem with
    | some n => n.value
    | none => return .null
  else .error .malformed

end SpecTree.Yaml
