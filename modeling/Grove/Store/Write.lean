import Grove.Store.Basic
import Grove.Tree.Conversion

/-!
# Writing to a store

New nodes are added behind the existing ones, a parent before its children. Putting a tree at an
address adds its nodes and changes the one slot of the parent that the address designates. Nothing
else changes, and nothing at all if the address has no such slot. Clearing empties a node and
everything below it.
-/
namespace Grove

/-- The handles of trees laid out one behind the other from `base` on. -/
def Tree.starts (base : NodeId) : List Tree → List NodeId
  | [] => []
  | t :: ts => base :: starts (base + t.count) ts

/-- The keys of entries with the handles of their trees, laid out one behind the other. -/
def Tree.entryStarts (base : NodeId) : List (Text × Tree) → List (Text × NodeId)
  | [] => []
  | (k, t) :: es => (k, base) :: entryStarts (base + t.count) es

mutual

/-- The nodes of a tree, the first of which gets the handle `base`. -/
def Tree.layout (base : NodeId) : Tree → List Node
  | .number x => [.number x]
  | .string s => [.string s]
  | .boolean b => [.boolean b]
  | .list items => .list (Tree.starts (base + 1) items) :: Tree.layoutAll (base + 1) items
  | .level entries =>
    .level (Tree.entryStarts (base + 1) entries) :: Tree.layoutEntries (base + 1) entries

def Tree.layoutAll (base : NodeId) : List Tree → List Node
  | [] => []
  | t :: ts => t.layout base ++ Tree.layoutAll (base + t.count) ts

def Tree.layoutEntries (base : NodeId) : List (Text × Tree) → List Node
  | [] => []
  | (_, t) :: es => t.layout base ++ Tree.layoutEntries (base + t.count) es

end

mutual

/-- A tree is laid out in as many nodes as it has. -/
theorem Tree.length_layout (base : NodeId) : (t : Tree) → (t.layout base).length = t.count
  | .number _ => rfl
  | .string _ => rfl
  | .boolean _ => rfl
  | .list items => by
    rw [Tree.layout, List.length_cons, Tree.length_layoutAll, Tree.count, Nat.add_comm]
  | .level entries => by
    rw [Tree.layout, List.length_cons, Tree.length_layoutEntries, Tree.count, Nat.add_comm]

theorem Tree.length_layoutAll (base : NodeId) :
    (ts : List Tree) → (Tree.layoutAll base ts).length = Tree.countAll ts
  | [] => rfl
  | t :: ts => by
    rw [Tree.layoutAll, List.length_append, Tree.length_layout,
      Tree.length_layoutAll, Tree.countAll]

theorem Tree.length_layoutEntries (base : NodeId) :
    (es : List (Text × Tree)) → (Tree.layoutEntries base es).length = Tree.countEntries es
  | [] => rfl
  | (_, t) :: es => by
    rw [Tree.layoutEntries, List.length_append, Tree.length_layout, Tree.length_layoutEntries,
      Tree.countEntries]

end

namespace Node

/-- The node with a child put into a slot: behind the last one if no slot is named, at a key of a
level, or at a position of a list up to the one behind its last child. -/
def place? (slot : Option Segment) (child : NodeId) : Node → Option Node
  | .list ids =>
    match slot with
    | none => some (.list (ids ++ [child]))
    | some (.index position) =>
      if position < ids.length then some (.list (ids.set position child))
      else if position = ids.length then some (.list (ids ++ [child]))
      else none
    | some (.key _) => none
  | .level entries =>
    match slot with
    | some (.key name) =>
      if name = "" ∨ maxPathLength < name.length then none
      else some (.level (Entries.put name child entries))
    | _ => none
  | _ => none

end Node

namespace Tree

def ofNumber (v : Value) : Except Error Tree :=
  match v.real? with
  | some x => ofReal x
  | none => .error (.notReal v.typeName)

def ofString (v : Value) : Except Error Tree :=
  match v with
  | .text s =>
    if maxStringLength < s.length then .error (.stringTooLong s.length) else .ok (.string s)
  | v => .error (.notString v.typeName)

def ofBoolean (v : Value) : Except Error Tree :=
  match v with
  | .boolean b => .ok (.boolean b)
  | v => .error (.notBoolean v.typeName)

/-- The tree that a value of any type is stored as: scalars by their own rules, which do not cut
text, and containers by conversion. -/
def ofSetting (d : Document) : Except Error Tree :=
  match d.root with
  | .boolean b => .ok (.boolean b)
  | .text s => ofString (.text s)
  | v => if v.real?.isSome then ofNumber v else d.toTree

end Tree

namespace Store

/-- The store with the nodes of a tree added; the first of them has the next handle. -/
def plant (s : Store) (t : Tree) : NodeId × Store :=
  (s.nodes.size, ⟨s.nodes ++ (t.layout s.nodes.size).toArray⟩)

def write (s : Store) (id : NodeId) (n : Node) : Store :=
  ⟨s.nodes.setIfInBounds id n⟩

@[simp] theorem node_write_self (s : Store) (id : NodeId) (n : Node) (h : id < s.nodes.size) :
    (s.write id n).node id = n := by
  simp [write, node, h]

theorem node_write_of_ne (s : Store) {id other : NodeId} (h : other ≠ id) (n : Node) :
    (s.write id n).node other = s.node other := by
  simp [write, node, Ne.symm h]

/-- Planting keeps the nodes that are there. -/
theorem node_plant_of_lt (s : Store) (t : Tree) {id : NodeId} (h : id < s.nodes.size) :
    (s.plant t).2.node id = s.node id := by
  simp [plant, node, Array.getElem?_append, h]

theorem size_plant (s : Store) (t : Tree) :
    (s.plant t).2.nodes.size = s.nodes.size + t.count := by
  simp [plant, Tree.length_layout]

/-- The slot that an address designates from a node: the place behind its last child if no address
is given, else the last segment in the parent that the segments before it lead to. -/
def slot (s : Store) (id : NodeId) (address : Address) : Except Error (NodeId × Option Segment) :=
  match address with
  | .omitted => .ok (id, none)
  | address => do
    let (parent, last) ← s.findForWrite (some id) address []
    return (parent, some last)

/-- Puts a tree into the slot that an address designates, and gives the handle of its root. There is
none if the slot is missing or not fit for a child. -/
def insert (s : Store) (id : NodeId) (address : Address) (t : Tree) :
    Except Error (Option (NodeId × Store)) :=
  match s.slot id address with
  | .error e => if e.category.isFailure || e.category.isCaughtAs .type then .ok none else .error e
  | .ok (parent, slot) =>
    let (child, grown) := s.plant t
    match (s.node parent).place? slot child with
    | some n => .ok (some (child, grown.write parent n))
    | none => .ok none

def clear (s : Store) (id : NodeId) : Store :=
  (s.reach id).foldl (fun s' i => s'.write i (s'.node i).emptied) s

end Store

end Grove
