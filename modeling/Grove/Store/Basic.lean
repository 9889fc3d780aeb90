import Grove.Path.Address
import Grove.Tree.Basic

/-!
# Stores of nodes

A store holds every node that was ever made, by a number that stays with it: its handle. A node
names its children by their handles, so two holders of one handle see the same node. What a node
holds at a time is the tree that unfolds from it.
-/
namespace Grove

abbrev NodeId := Nat

/-- One node: a scalar with its payload, or a container with the handles of its children. -/
inductive Node where
  | number (x : Binary64)
  | string (s : Text)
  | boolean (b : Bool)
  | list (items : List NodeId)
  | level (entries : List (Text × NodeId))

namespace Node

def kind : Node → Kind
  | .number _ => .number
  | .string _ => .string
  | .boolean _ => .boolean
  | .list _ => .list
  | .level _ => .level

def items : Node → List (Segment × NodeId)
  | .list ids => ids.zipIdx.map fun (id, i) => (.index i, id)
  | .level entries => entries.map fun (k, id) => (.key k, id)
  | _ => []

def children : Node → List NodeId
  | .list ids => ids
  | .level entries => entries.map (·.2)
  | _ => []

/-- The child that a segment leads to. The empty key leads nowhere. -/
def child? : Node → Segment → Option NodeId
  | .list ids, .index position => ids[position]?
  | .level entries, .key name => if name = "" then none else Entries.get? name entries
  | _, _ => none

def payload : Node → Value
  | .number x => .float x
  | .string s => .text s
  | .boolean b => .boolean b
  | _ => .null

def emptied : Node → Node
  | .list _ => .list []
  | .level _ => .level []
  | n => n

/-- A short text that tells the kind and the payload, the keys or the number of children. -/
def description : Node → Text
  | .number x => "DataNode(number, " ++ x.text ++ ")"
  | .string s => "DataNode(string, " ++ Text.quoted s ++ ")"
  | .boolean b => "DataNode(boolean, " ++ (if b then "True" else "False") ++ ")"
  | .list ids => "DataNode(list, " ++ Text.ofList (Text.decimal ids.length) ++ ")"
  | .level entries =>
    "DataNode(level, [" ++ Text.intercalate ", " (entries.map fun (k, _) => Text.quoted k) ++ "])"

end Node

/-- All nodes made so far, by handle. -/
structure Store where
  nodes : Array Node

namespace Store

def empty : Store :=
  ⟨#[]⟩

def node (s : Store) (id : NodeId) : Node :=
  s.nodes.getD id (.level [])

/-- The tree below a node, down to a depth. -/
def unfold (s : Store) : Nat → NodeId → Tree
  | 0, _ => .level []
  | depth + 1, id =>
    match s.node id with
    | .number x => .number x
    | .string t => .string t
    | .boolean b => .boolean b
    | .list ids => .list (ids.map (unfold s depth))
    | .level entries => .level (entries.map fun (k, child) => (k, unfold s depth child))

/-- The tree that a node holds. No path is longer than there are nodes. -/
def tree (s : Store) (id : NodeId) : Tree :=
  s.unfold s.nodes.size id

def extendDotted (start : Text) (segment : Segment) : Text :=
  if start = "" then segment.text else start ++ "." ++ segment.text

def walkFrom (s : Store) : Nat → Text → NodeId → List (Text × NodeId)
  | 0, _, _ => []
  | depth + 1, start, id =>
    (s.node id).items.flatMap fun (segment, child) =>
      let path := extendDotted start segment
      (path, child) :: walkFrom s depth path child

def walk (s : Store) (id : NodeId) : List (Text × NodeId) :=
  s.walkFrom s.nodes.size "" id

def reachFrom (s : Store) : Nat → NodeId → List NodeId
  | 0, id => [id]
  | depth + 1, id => id :: (s.node id).children.flatMap (reachFrom s depth)

def reach (s : Store) (id : NodeId) : List NodeId :=
  s.reachFrom s.nodes.size id

/-- The node that segments lead to from a node; an error names the first segment without a child and
the segments before it. -/
def descend (s : Store) (reached : List Segment) (id : NodeId) : List Segment → Except Error NodeId
  | [] => .ok id
  | segment :: rest =>
    match (s.node id).child? segment with
    | some child => s.descend (reached ++ [segment]) child rest
    | none => .error (.noSegment segment reached (s.node id).kind)

def find (s : Store) (root : Option NodeId) (address : Address) (args : List Value) :
    Except Error NodeId :=
  match root with
  | none => .error .noRoot
  | some root => do
    let segments ← address.segments args
    s.descend [] root segments

def findForWrite (s : Store) (root : Option NodeId) (address : Address) (args : List Value) :
    Except Error (NodeId × Segment) :=
  match root with
  | none => .error .noRoot
  | some root => do
    let segments ← address.segments args
    match segments.getLast? with
    | none => .error .emptyTarget
    | some last => do
      let parent ← s.descend [] root segments.dropLast
      return (parent, last)

/-- Turns the errors that a lookup absorbs into `none`: a path that does not resolve, one that is
too long, and one of the wrong type. -/
def absorb {α : Type} (result : Except Error α) : Except Error (Option α) :=
  match result with
  | .ok a => .ok (some a)
  | .error e =>
    match e.category with
    | .failure .pathNotFound | .failure .limitExceeded | .failure .typeMismatch | .fault .type =>
      .ok none
    | _ => .error e

def resolve (s : Store) (root : Option NodeId) (address : Address) (args : List Value) :
    Except Error (Option NodeId) :=
  absorb (s.find root address args)

/-- The parent and the last segment of a place for writing, if there is such a parent. -/
def resolveForWrite (s : Store) (root : Option NodeId) (address : Address) (args : List Value) :
    Except Error (Option (NodeId × Segment)) :=
  absorb (s.findForWrite root address args)

end Store

end Grove
