import Grove.Value.Equality
import Grove.Yaml.Node
import Grove.Yaml.Scalar

/-!
# Reading YAML

The nodes of a document become plain values. Containers are shared where nodes are, and are filled
one after the other in the order in which they are met, breadth first. Entries under a merge key are
taken over from the mappings named there, in front of the mapping's own; the key `=` is text. Keys
have to be hashable.
-/
namespace Grove.Yaml

inductive Fault where
  | malformed
  | form (fault : FormFault)
  | range (fault : RangeFault)

/-- A result, or a malformed document if there is none. -/
def orMalformed {α : Type} (v : Option α) : Except Fault α :=
  match v with
  | some v => .ok v
  | none => .error .malformed

/-- The state of filling containers: the nodes, in which merges are carried out; the bodies of
containers by node; the nodes whose containers have been met; and those of them that are still to be
filled. -/
structure Assembly where
  nodes : Array Node
  bodies : Array Value
  met : List Nat
  pending : List Nat

def Node.tag : Node → Tag
  | .scalar tag _ => tag
  | .sequence tag _ => tag
  | .mapping tag _ => tag

def Node.entries? : Node → Option (List (Nat × Nat))
  | .mapping _ entries => some entries
  | _ => none

def nodeAt (nodes : Array Node) (id : Nat) : Node :=
  nodes.getD id (.scalar .null [])

def entryCount (nodes : Array Node) : Nat :=
  nodes.foldl (fun n node => n + ((node.entries?.map List.length).getD 0)) 0

mutual

/-- Carries out the merges of a mapping: entries from index `i` on are looked at, and what is to
come in front is `merged`. -/
def mergeFrom : Nat → Nat → Nat → List (Nat × Nat) → Array Node → Option (Array Node)
  | 0, _, _, _, _ => none
  | fuel + 1, id, i, merged, nodes =>
    match nodeAt nodes id with
    | .mapping tag entries =>
      match entries[i]? with
      | none =>
        if merged.isEmpty then some nodes
        else some (nodes.setIfInBounds id (.mapping tag (merged ++ entries)))
      | some (key, value) =>
        match nodeAt nodes key with
        | .scalar .merge _ | .sequence .merge _ | .mapping .merge _ => do
          let nodes := nodes.setIfInBounds id (.mapping tag (entries.eraseIdx i))
          match nodeAt nodes value with
          | .mapping .. => do
            let nodes ← mergeFrom fuel value 0 [] nodes
            let taken ← (nodeAt nodes value).entries?
            mergeFrom fuel id i (merged ++ taken) nodes
          | .sequence _ items => do
            let (taken, nodes) ← mergeAll fuel items nodes
            mergeFrom fuel id i (merged ++ taken.reverse.flatten) nodes
          | .scalar .. => none
        | .scalar .value text =>
          mergeFrom fuel id (i + 1) merged (nodes.setIfInBounds key (.scalar .str text))
        | .sequence .value items =>
          mergeFrom fuel id (i + 1) merged (nodes.setIfInBounds key (.sequence .str items))
        | .mapping .value es =>
          mergeFrom fuel id (i + 1) merged (nodes.setIfInBounds key (.mapping .str es))
        | _ => mergeFrom fuel id (i + 1) merged nodes
    | _ => none

def mergeAll : Nat → List Nat → Array Node → Option (List (List (Nat × Nat)) × Array Node)
  | 0, _, _ => none
  | _ + 1, [], nodes => some ([], nodes)
  | fuel + 1, id :: ids, nodes => do
    let nodes ← mergeFrom fuel id 0 [] nodes
    let taken ← (nodeAt nodes id).entries?
    let (others, nodes) ← mergeAll fuel ids nodes
    return (taken :: others, nodes)

end

/-- The text of a scalar; that of a mapping is the text of its value under the key `=`. -/
def scalarText (nodes : Array Node) : Nat → Nat → Option (List CodePoint)
  | 0, _ => none
  | fuel + 1, id =>
    match nodeAt nodes id with
    | .scalar _ text => some text
    | .sequence .. => none
    | .mapping _ entries => do
      let (_, value) ← entries.find? fun (key, _) => (nodeAt nodes key).tag = .value
      scalarText nodes fuel value

namespace Assembly

/-- Notes that a container has been met. -/
def meet (s : Assembly) (id : Nat) : Assembly :=
  if s.met.contains id then s else { s with met := id :: s.met, pending := s.pending ++ [id] }

/-- The value of a node: a scalar's own, or a reference to the container that is filled later. -/
def value (s : Assembly) (id : Nat) : Except Fault (Value × Assembly) :=
  let node := nodeAt s.nodes id
  match node.tag with
  | .seq | .orderedMap | .pairs => .ok (.shared .list id, s.meet id)
  | .map => .ok (.shared .dict id, s.meet id)
  | .set => .ok (.set, s.meet id)
  | tag => do
    let text ← orMalformed (scalarText s.nodes (s.nodes.size + 1) id)
    match scalarValue tag text with
    | .ok v => .ok (v, s)
    | .error .unfit => .error .malformed
    | .error (.form fault) => .error (.form fault)
    | .error (.range fault) => .error (.range fault)

def values : List Nat → Assembly → Except Fault (List Value × Assembly)
  | [], s => .ok ([], s)
  | id :: ids, s => do
    let (v, s) ← s.value id
    let (vs, s) ← values ids s
    return (v :: vs, s)

/-- A key of a mapping, with the node that it was made for if it may differ from itself
elsewhere. -/
structure Key where
  origin : Option Nat
  value : Value

/-- Equality of keys. What is no number is the same key only if it is the one that has a spelling of
its own, or was made for one node. -/
def Key.same (a b : Key) : Bool :=
  match a.value, b.value with
  | .float .nan, .float .nan => a.origin = b.origin
  | v, w => v.same w

def key (s : Assembly) (id : Nat) (v : Value) : Key :=
  ⟨if (scalarText s.nodes (s.nodes.size + 1) id).any spellsNan then none else some id, v⟩

def putEntries : List (Nat × Nat) → List (Key × Value) → Assembly →
    Except Fault (List (Key × Value) × Assembly)
  | [], done, s => .ok (done, s)
  | (key, value) :: rest, done, s => do
    let (k, s) ← s.value key
    if k.unhashable?.isSome then .error .malformed
    let (v, s) ← s.value value
    putEntries rest (Value.putEntry Key.same (s.key key k) v done) s

def plainEntries (entries : List (Key × Value)) : List (Value × Value) :=
  entries.map fun (k, v) => (k.value, v)

/-- The pairs that single-entry mappings stand for. -/
def pairsOf : List Nat → Assembly → Except Fault (List Value × Assembly)
  | [], s => .ok ([], s)
  | id :: ids, s => do
    match nodeAt s.nodes id with
    | .mapping _ [(key, value)] => do
      let (k, s) ← s.value key
      let (v, s) ← s.value value
      let (vs, s) ← pairsOf ids s
      return (.tuple [k, v] :: vs, s)
    | _ => .error .malformed

def body (s : Assembly) (id : Nat) : Except Fault (Value × Assembly) :=
  match nodeAt s.nodes id with
  | .sequence .seq items => do
    let (vs, s) ← values items s
    return (.list vs, s)
  | .sequence .orderedMap items => do
    let (vs, s) ← pairsOf items s
    return (.list vs, s)
  | .sequence .pairs items => do
    let (vs, s) ← pairsOf items s
    return (.list vs, s)
  | .mapping tag _ =>
    if tag = .map || tag = .set then do
      let bound := entryCount s.nodes + s.nodes.size + 2
      let nodes ← orMalformed (mergeFrom (bound * bound) id 0 [] s.nodes)
      let s := { s with nodes := nodes }
      let (entries, s) ← putEntries (((nodeAt nodes id).entries?).getD []) [] s
      return (if tag = .map then .dict (plainEntries entries) else .set, s)
    else .error .malformed
  | _ => .error .malformed

def fill : Nat → Assembly → Except Fault Assembly
  | 0, s => .ok s
  | fuel + 1, s =>
    match s.pending with
    | [] => .ok s
    | id :: rest => do
      let (v, s) ← { s with pending := rest }.body id
      fill fuel { s with bodies := s.bodies.setIfInBounds id v }

end Assembly

def read (cs : List CodePoint) : Except Fault Document := do
  let tokens ← orMalformed (tokens cs)
  let (root, nodes) ← orMalformed (nodesOf tokens)
  match root with
  | none => return .ofValue .null
  | some root => do
    let start : Assembly := ⟨nodes, Array.replicate nodes.size .null, [], []⟩
    let (v, s) ← start.value root
    let s ← s.fill (nodes.size + 1)
    return ⟨s.bodies, v⟩

end Grove.Yaml
