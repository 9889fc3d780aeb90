import Grove.Backend.Json
import Grove.Backend.Yaml
import Grove.Query
import Grove.Registry
import Grove.Store.Write

/-!
# Workspaces

A workspace holds a store of nodes, the owners of trees, registries, settings and the host. An owner
has a root until it is unloaded, which empties the root and everything below it and cannot be
undone. Paths start at a node or at the root of an owner; where there is no root, questions find
nothing and nothing is put. One registry and one set of settings are shared: they stand in wherever
no others are named.
-/
namespace Grove

abbrev OwnerId := Nat

abbrev RegistryId := Nat

/-- An owner of a tree: its root while it is loaded, and the registry that writes it out unless that
is the shared one. -/
structure Owner where
  root : Option NodeId
  registry : Option RegistryId

/-- Where paths start. -/
inductive Start where
  | node (id : NodeId)
  | owner (id : OwnerId)
  deriving DecidableEq

inductive Content where
  | emptyList
  | emptyLevel
  | number (v : Value)
  | string (v : Value)
  | boolean (v : Value)
  | setting (d : Document)

def Content.tree : Content → Except Error Tree
  | .emptyList => .ok (.list [])
  | .emptyLevel => .ok (.level [])
  | .number v => Tree.ofNumber v
  | .string v => Tree.ofString v
  | .boolean v => Tree.ofBoolean v
  | .setting d => Tree.ofSetting d

/-- The shared registry as it is at first: JSON before YAML, lenient, with the shared settings. -/
def Registry.standard : Registry :=
  ⟨[("json", Backend.json), ("yaml", Backend.yaml)], none, false⟩

structure Workspace where
  store : Store
  owners : Array Owner
  /-- The shared registry. -/
  standard : Registry
  registries : Array Registry
  /-- The shared settings. -/
  config : StorageConfig
  configs : Array StorageConfig
  host : Host

namespace Workspace

def fresh (host : Host) : Workspace :=
  ⟨.empty, #[], .standard, #[], .standard host.files, #[], host⟩

def owner (w : Workspace) (id : OwnerId) : Owner :=
  w.owners.getD id ⟨none, none⟩

/-- The registry with a handle, or the shared one. -/
def registry (w : Workspace) (id : Option RegistryId) : Registry :=
  match id with
  | some id => w.registries.getD id (.empty none false)
  | none => w.standard

def settings (w : Workspace) (r : Registry) : StorageConfig :=
  match r.config with
  | some id => w.configs.getD id (.standard w.host.files)
  | none => w.config

def root (w : Workspace) : Start → Option NodeId
  | .node id => some id
  | .owner id => (w.owner id).root

def tree (w : Workspace) (start : Start) : Option Tree :=
  (w.root start).map w.store.tree

/-- Adds the nodes of a tree, which nobody owns. -/
def plant (w : Workspace) (t : Tree) : NodeId × Workspace :=
  let (id, store) := w.store.plant t
  (id, { w with store })

/-- Adds an owner of a node. -/
def own (w : Workspace) (root : NodeId) (registry : Option RegistryId) : OwnerId × Workspace :=
  (w.owners.size, { w with owners := w.owners.push ⟨some root, registry⟩ })

/-- Adds a tree with an owner. -/
def hold (w : Workspace) (t : Tree) (registry : Option RegistryId) : OwnerId × Workspace :=
  let (root, w) := w.plant t
  w.own root registry

def enlist (w : Workspace) (r : Registry) : RegistryId × Workspace :=
  (w.registries.size, { w with registries := w.registries.push r })

def amend (w : Workspace) (id : Option RegistryId) (r : Registry) : Workspace :=
  match id with
  | some id => { w with registries := w.registries.setIfInBounds id r }
  | none => { w with standard := r }

def equip (w : Workspace) (config : StorageConfig) : ConfigId × Workspace :=
  (w.configs.size, { w with configs := w.configs.push config })

def rebase (w : Workspace) (id : Option ConfigId) (base : Location) : Workspace :=
  match id with
  | some id => { w with configs := w.configs.modify id ({ · with base }) }
  | none => { w with config := { w.config with base } }

/-- Puts content at an address below a start, and gives the handle of the new node. Content that
cannot be stored is not put anywhere. -/
def put (w : Workspace) (start : Start) (address : Address) (content : Content) :
    Except Error (Option (NodeId × Workspace)) :=
  match w.root start, content.tree with
  | some root, .ok t => do
    return (← w.store.insert root address t).map fun (child, store) => (child, { w with store })
  | _, _ => .ok none

def clear (w : Workspace) (id : NodeId) : Workspace :=
  { w with store := w.store.clear id }

def unload (w : Workspace) (id : OwnerId) : Workspace :=
  let owner := w.owner id
  match owner.root with
  | some root =>
    { w.clear root with owners := w.owners.setIfInBounds id { owner with root := none } }
  | none => w

def serialize (w : Workspace) (id : Option RegistryId) (start : Option Start)
    (choice : BackendChoice) : Except Error (Option Text) :=
  let r := w.registry id
  r.serialize (w.settings r) (start.bind w.tree) choice

def keep (w : Workspace) (id : Option RegistryId) (loaded : Except Error (Option Tree)) :
    Except Error (Option (OwnerId × Workspace)) := do
  return (← loaded).map fun t => w.hold t id

def loadString (w : Workspace) (id : Option RegistryId) (v : Value) (choice : BackendChoice) :
    Except Error (Option (OwnerId × Workspace)) :=
  w.keep id ((w.registry id).loadString v choice)

def loadStorage (w : Workspace) (id : Option RegistryId) (storage : Text) (choice : BackendChoice) :
    Except Error (Option (OwnerId × Workspace)) :=
  let r := w.registry id
  w.keep id (r.loadStorage w.host (w.settings r) storage choice)

def listEntries (w : Workspace) (id : Option RegistryId) (storage : Text) :
    Except Error (List Text) :=
  let r := w.registry id
  r.listEntries w.host (w.settings r) storage

end Workspace

end Grove
