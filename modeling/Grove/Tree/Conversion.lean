import Grove.Error
import Grove.Path.Address
import Grove.Tree.Basic

/-!
# From plain values to trees

Mappings become levels, with the text of each key; sequences become lists; empty values inside
containers are left out; longer text is cut. Values of other types, containers inside themselves,
numbers out of range and keys that are too long are errors, and the first one in document order is
told.
-/
namespace Grove

namespace Tree

/-- The tree of a number. -/
def ofReal (x : Except RangeFault Binary64) : Except Error Tree :=
  match x with
  | .ok x => .ok (.number x)
  | .error fault => .error (.numberRange fault)

def levelKey (key : Value) : Except Error Text :=
  match key.asText with
  | .error fault => .error (.text fault)
  | .ok name => if maxPathLength < name.length then .error (.keyTooLong name.length) else .ok name

/-- The first characters of a text, as many as a tree may hold. -/
def cutString (s : Text) : Text :=
  Text.ofList (s.toList.take maxStringLength)

mutual

def convert (follow : Container → Nat → Except Error Tree) : Value → Except Error Tree
  | .boolean b => .ok (.boolean b)
  | .text s => .ok (.string (cutString s))
  | .list items => do return .list (← convertItems follow items)
  | .tuple items => do return .list (← convertItems follow items)
  | .dict entries => do return .level (← convertEntries follow [] entries)
  | .shared kind id => follow kind id
  | v =>
    match v.real? with
    | some x => ofReal x
    | none => .error (.inconvertible v.typeName)

/-- The trees of the items that are not empty. -/
def convertItems (follow : Container → Nat → Except Error Tree) : List Value →
    Except Error (List Tree)
  | [] => .ok []
  | .null :: vs => convertItems follow vs
  | v :: vs => do
    let t ← convert follow v
    let ts ← convertItems follow vs
    return t :: ts

def convertEntries (follow : Container → Nat → Except Error Tree) (level : List (Text × Tree)) :
    List (Value × Value) → Except Error (List (Text × Tree))
  | [] => .ok level
  | (k, .null) :: es => do
    let _ ← levelKey k
    convertEntries follow level es
  | (k, v) :: es => do
    let name ← levelKey k
    let t ← convert follow v
    convertEntries follow (Entries.put name t level) es

end

end Tree

namespace Document

/-- The tree of a shared container, unless it is `active`, which means that it is inside itself. The
fuel bounds how deep shared containers are nested. -/
def sharedTree (bodies : Array Value) : Nat → List Nat → Container → Nat → Except Error Tree
  | 0, _, kind, _ => .error (.selfReferencing kind)
  | fuel + 1, active, kind, id =>
    if active.contains id then .error (.selfReferencing kind)
    else
      match bodies[id]? with
      | some body => Tree.convert (sharedTree bodies fuel (id :: active)) body
      | none => .error (.selfReferencing kind)

def toTree (d : Document) : Except Error Tree :=
  Tree.convert (sharedTree d.bodies (d.bodies.size + 1) []) d.root

end Document

end Grove
