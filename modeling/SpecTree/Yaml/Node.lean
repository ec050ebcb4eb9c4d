import SpecTree.Yaml.Layout
import SpecTree.Yaml.Tag

/-!
# Nodes

The tokens of a file make up a tree of texts, lists and mappings, each with its tag. A value may be
given an anchor and be named by an alias further on; an alias inside the value it names is a node of
its own kind. A file holds one document.
-/

namespace SpecTree.Yaml

inductive Node where
  | text (tag : Tag) (s : String)
  | list (tag : Tag) (items : List Node)
  | map (tag : Tag) (entries : List (Node × Node))
  /-- A list or mapping around this place. -/
  | again (isMap : Bool)
  deriving Inhabited

namespace Node

/-- An empty value. -/
def nothing : Node := .text .null ""

/-- What is left of the tokens, why there are no more, and what has been named. -/
structure Source where
  tokens : List Token
  problem : Option Problem
  anchors : List (String × Node) := []
  handles : List (String × String) := []

abbrev Parse := StateT Source (Except Problem)

def fail {α : Type} : Parse α := throw .malformed

def peek : Parse Token := do
  let s ← get
  match s.tokens with
  | t :: _ => return t
  | [] => throw (s.problem.getD .malformed)

def skip : Parse Unit := modify fun s => { s with tokens := s.tokens.drop 1 }

def named (anchor : Option String) (n : Node) : Parse Unit :=
  match anchor with
  | some name => modify fun s => { s with anchors := (name, n) :: s.anchors }
  | none => pure ()

/-- Refuses a name that has been given before. -/
def checkName (anchor : Option String) : Parse Unit := do
  if let some name := anchor then
    if ((← get).anchors.lookup name).isSome then fail

def anchor? : Parse (Option String) := do
  match ← peek with
  | .anchor name => skip; return some name
  | _ => return none

/-- A tag with its handle written out. -/
def tagName (handle : Option String) (suffix : String) : Parse String := do
  match handle with
  | none => return suffix
  | some handle =>
    match (← get).handles.lookup handle with
    | some start => return start ++ suffix
    | none => fail

def tagToken? : Parse (Option (Option String × String)) := do
  match ← peek with
  | .tag handle suffix => skip; return some (handle, suffix)
  | _ => return none

/-- The anchor and the name of the tag in front of a value, in either order. -/
def properties : Parse (Option String × Option String) := do
  let before ← anchor?
  let tag ← tagToken?
  let after ← if before.isNone && tag.isSome then anchor? else pure none
  match tag with
  | some (handle, suffix) => return (before.or after, some (← tagName handle suffix))
  | none => return (before, none)

/-- The tag of a text: by its form if it is plain and has no name of a tag, or if that says so. -/
def textTag (name : Option String) (plain : Bool) (s : String) : Tag :=
  match name with
  | none => if plain then .ofForm s else .text
  | some "!" => .ofForm s
  | some name => .ofName name

/-- The tag of a list or mapping. -/
def groupTag (name : Option String) (usual : Tag) : Tag :=
  match name with
  | none | some "!" => usual
  | some name => .ofName name

/-- Whether an entry of a block ends here. -/
def endsEntry : Token → Bool
  | .key | .value | .blockEnd => true
  | _ => false

def endsItem : Token → Bool
  | .dash | .blockEnd => true
  | _ => false

def endsPiece (close : Token) (t : Token) : Bool := t == .comma || t == close

/-- The comma in front of an item that is not the first. -/
def comma (isFirst : Bool) : Parse Unit := do
  if !isFirst then
    if (← peek) == .comma then skip else fail

mutual

/-- A value. Blocks may stand only outside brackets; a list may stand below its key without being
indented. -/
def node (fuel : Nat) (inBlock belowKey : Bool) : Parse Node :=
  match fuel with
  | 0 => fail
  | fuel + 1 => do
    match ← peek with
    | .alias name =>
      skip
      match (← get).anchors.lookup name with
      | some n => return n
      | none => fail
    | _ =>
      let (anchor, tag) ← properties
      let t ← peek
      checkName anchor
      let whole (isMap : Bool) (content : Parse Node) : Parse Node := do
        named anchor (.again isMap)
        let n ← content
        named anchor n
        return n
      let text (plain : Bool) (s : String) : Parse Node := do
        let n := Node.text (textTag tag plain s) s
        named anchor n
        return n
      let listTag := groupTag tag .list
      let mapTag := groupTag tag .map
      match t with
      | .text plain s => skip; text plain s
      | .openList => skip; whole false (.list listTag <$> pieces fuel true)
      | .openMap => skip; whole true (.map mapTag <$> members fuel true)
      | .dash =>
        if belowKey then whole false (.list listTag <$> looseItems fuel)
        else if anchor.isSome || tag.isSome then text true ""
        else fail
      | .listBlock =>
        if inBlock then do skip; whole false (.list listTag <$> items fuel)
        else if anchor.isSome || tag.isSome then text true ""
        else fail
      | .mapBlock =>
        if inBlock then do skip; whole true (.map mapTag <$> entries fuel)
        else if anchor.isSome || tag.isSome then text true ""
        else fail
      | _ => if anchor.isSome || tag.isSome then text true "" else fail

/-- A value of a block, or nothing where the block goes on. -/
def nodeUnless (fuel : Nat) (ends : Token → Bool) (inBlock belowKey : Bool) : Parse Node :=
  match fuel with
  | 0 => fail
  | fuel + 1 => do
    if ends (← peek) then return nothing else node fuel inBlock belowKey

/-- What follows a colon, if one stands here. -/
def valueUnless (fuel : Nat) (ends : Token → Bool) (inBlock : Bool) : Parse Node :=
  match fuel with
  | 0 => fail
  | fuel + 1 => do
    if (← peek) == .value then
      skip
      nodeUnless fuel ends inBlock inBlock
    else return nothing

/-- The items of a block list. -/
def items (fuel : Nat) : Parse (List Node) :=
  match fuel with
  | 0 => fail
  | fuel + 1 => do
    match ← peek with
    | .dash =>
      skip
      let n ← nodeUnless fuel endsItem true false
      return n :: (← items fuel)
    | .blockEnd => skip; return []
    | _ => fail

/-- The items of a list that stands in the column of its key. -/
def looseItems (fuel : Nat) : Parse (List Node) :=
  match fuel with
  | 0 => fail
  | fuel + 1 => do
    match ← peek with
    | .dash =>
      skip
      let n ← nodeUnless fuel (fun t => t == .dash || endsEntry t) true false
      return n :: (← looseItems fuel)
    | _ => return []

/-- The entries of a block mapping. -/
def entries (fuel : Nat) : Parse (List (Node × Node)) :=
  match fuel with
  | 0 => fail
  | fuel + 1 => do
    match ← peek with
    | .key =>
      skip
      let k ← nodeUnless fuel endsEntry true true
      let v ← valueUnless fuel endsEntry true
      return (k, v) :: (← entries fuel)
    | .blockEnd => skip; return []
    | _ => fail

/-- The items between square brackets; one that is marked as a key is a mapping of its own. -/
def pieces (fuel : Nat) (isFirst : Bool) : Parse (List Node) :=
  match fuel with
  | 0 => fail
  | fuel + 1 => do
    if (← peek) == .closeList then
      skip
      return []
    else
      comma isFirst
      match ← peek with
      | .closeList => skip; return []
      | .key =>
        skip
        let ends (t : Token) : Bool := t == .value || endsPiece .closeList t
        let k ← nodeUnless fuel ends false false
        let v ← valueUnless fuel (endsPiece .closeList) false
        return .map .map [(k, v)] :: (← pieces fuel false)
      | _ =>
        let n ← node fuel false false
        return n :: (← pieces fuel false)

/-- The entries between braces; one that is not marked as a key has no value. -/
def members (fuel : Nat) (isFirst : Bool) : Parse (List (Node × Node)) :=
  match fuel with
  | 0 => fail
  | fuel + 1 => do
    if (← peek) == .closeMap then
      skip
      return []
    else
      comma isFirst
      match ← peek with
      | .closeMap => skip; return []
      | .key =>
        skip
        let ends (t : Token) : Bool := t == .value || endsPiece .closeMap t
        let k ← nodeUnless fuel ends false false
        let v ← valueUnless fuel (endsPiece .closeMap) false
        return (k, v) :: (← members fuel false)
      | _ =>
        let n ← node fuel false false
        return (n, nothing) :: (← members fuel false)

end

/-! ## Documents -/

/-- The handles of tags that need no directive. -/
def usualHandles : List (String × String) := [("!", "!"), ("!!", Tag.mark)]

/-- The directives of a document: one version at most, and no handle twice. -/
def directives (fuel : Nat) (hasVersion : Bool) (handles : List (String × String)) : Parse Unit :=
  match fuel with
  | 0 => fail
  | fuel + 1 => do
    match ← peek with
    | .directive d =>
      skip
      match d with
      | .version major _ => if hasVersion || major != 1 then fail else directives fuel true handles
      | .handle name start =>
        if (handles.lookup name).isSome then fail
        else directives fuel hasVersion ((name, start) :: handles)
      | .other => directives fuel hasVersion handles
    | _ => modify fun s => { s with handles := handles ++ usualHandles }

def skipDocumentEnds (fuel : Nat) : Parse Unit :=
  match fuel with
  | 0 => fail
  | fuel + 1 => do
    if (← peek) == .documentEnd then
      skip
      skipDocumentEnds fuel

/-- The one document of a file, if it has any. -/
def document (fuel : Nat) : Parse (Option Node) := do
  match ← peek with
  | .fileEnd => return none
  | .directive _ | .documentStart =>
    directives fuel false []
    if (← peek) != .documentStart then fail
    skip
    let n ←
      match ← peek with
      | .directive _ | .documentStart | .documentEnd | .fileEnd => pure nothing
      | _ => node fuel true false
    finish n
  | _ =>
    modify fun s => { s with handles := usualHandles }
    finish (← node fuel true false)
where
  /-- Nothing but marks of the end may follow. -/
  finish (n : Node) : Parse (Option Node) := do
    skipDocumentEnds fuel
    if (← peek) == .fileEnd then return some n else fail

/-- The document that the tokens of a file make up. -/
def ofTokens (tokens : List Token) (problem : Option Problem) : Except Problem (Option Node) :=
  ((document (4 * tokens.length + 4)).run { tokens, problem }).map (·.1)

end Node

end SpecTree.Yaml
