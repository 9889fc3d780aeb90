import Grove.Store.Basic

/-!
# Queries

Queries by kind answer with the caller's default when the address leads nowhere or to a node of
another kind. A lookup makes the difference known: it gives the node, or the kind of the failure and
its wording.
-/
namespace Grove

inductive Lookup where
  | found (id : NodeId)
  | failed (kind : ErrorKind) (message : Text)

namespace Lookup

def node? : Lookup → Option NodeId
  | .found id => some id
  | .failed .. => none

/-- The node, or the error of the class for the kind that was diagnosed. -/
def unwrap : Lookup → Except Error NodeId
  | .found id => .ok id
  | .failed kind message => .error (.raised kind.failureClass message)

end Lookup

/-- The child that a value leads to. Only segments lead anywhere, and the name of a key must be fit
for a key of a mapping where it is looked up. -/
def Node.childAt (n : Node) (v : Value) : Except Error (Option NodeId) :=
  match n, v with
  | .level _, .key name =>
    match name, if name.partCount? = some 0 then none else name.unhashable? with
    | .text name, _ => .ok (n.child? (.key name))
    | _, some typeName => .error (.unhashable typeName)
    | _, none => .ok none
  | _, .index position => .ok (n.child? (.index position))
  | _, _ => .ok none

namespace Store

def lookup (s : Store) (root : Option NodeId) (kind : Option Kind) (address : Address)
    (args : List Value) : Except Error Lookup :=
  match s.find root address args with
  | .ok id =>
    let found := (s.node id).kind
    match kind with
    | some expected =>
      if expected = found then .ok (.found id)
      else .ok (.failed .typeMismatch (Error.mismatch expected address.words found).message)
    | none => .ok (.found id)
  | .error e =>
    match e.kind?, e.category with
    | some kind, _ => .ok (.failed kind e.message)
    | none, .fault .type => .ok (.failed .pathNotFound e.message)
    | none, _ => .error e

def scalar (s : Store) (root : Option NodeId) (kind : Kind) (default : Value) (address : Address)
    (args : List Value) : Except Error Value := do
  match ← s.lookup root (some kind) address args with
  | .found id => return (s.node id).payload
  | .failed .. => return default

def listSize (s : Store) (root : Option NodeId) (address : Address) (args : List Value) :
    Except Error Nat := do
  match ← s.resolve root address args with
  | some id =>
    match s.node id with
    | .list ids => return ids.length
    | _ => return 0
  | none => return 0

def hasKey (s : Store) (root : Option NodeId) (address : Address) (args : List Value) :
    Except Error Bool := do
  return (← s.resolve root address args).isSome

end Store

end Grove
