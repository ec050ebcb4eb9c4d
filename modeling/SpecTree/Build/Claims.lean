import SpecTree.Table

/-!
# Claims on output paths

During one build every output path belongs to one leaf. Who comes second learns who came first.
-/

namespace SpecTree

/-- Two leaves want one path. -/
structure Overlap where
  path : String
  first : Option String := none
  second : Option String := none
  deriving Repr, DecidableEq

def Overlap.message (o : Overlap) : String :=
  match o.first, o.second with
  | some first, some second =>
    "File overlap detected: '" ++ o.path ++ "' is generated by both '" ++ first ++ "' and '"
      ++ second ++ "'. Each output path must belong to exactly one leaf node."
  | _, _ => "File overlap detected: '" ++ o.path ++ "' was already generated in this build"

/-- The claimed paths with their claimants. -/
structure Claims where
  holders : Table String := {}

namespace Claims

def claimant? (c : Claims) (path : String) : Option String := c.holders.get? path

def size (c : Claims) : Nat := c.holders.size

/-- Claims a path for a leaf. -/
def register (c : Claims) (path claimant : String) : Except Overlap Claims :=
  match c.claimant? path with
  | some first => .error ⟨path, some first, some claimant⟩
  | none => .ok ⟨c.holders.put path claimant⟩

/-- Claims paths one after another; those before the first overlap stay claimed. -/
def registerAll (c : Claims) (claimant : String) : List String → Claims × Option Overlap
  | [] => (c, none)
  | path :: rest =>
    match c.register path claimant with
    | .ok c => registerAll c claimant rest
    | .error overlap => (c, some overlap)

end Claims

end SpecTree
