import Grove.Session.Command

/-!
# Sessions

A session is a workspace with names for some of what is in it. A name is a reference and never a
copy: what is written through one name is seen through every other. A command that fails changes
nothing.
-/
namespace Grove

namespace Session

inductive Reference where
  | start (s : Start)
  | registry (id : RegistryId)
  /-- Settings, the shared ones included. -/
  | config (id : Option ConfigId)
  deriving DecidableEq

/-- What a command did: the workspace after it, the answer, and what a name for the result stands
for. -/
structure Effect where
  workspace : Workspace
  answer : Answer
  result : Option Reference

end Session

structure Session where
  workspace : Workspace
  names : List (Text × Session.Reference)

namespace Session

def fresh (host : Host) : Session :=
  ⟨.fresh host, []⟩

def reference (s : Session) (name : Text) : Except Refusal Reference :=
  match Entries.get? name s.names with
  | some r => .ok r
  | none => .error (.unbound name)

def start (s : Session) (name : Text) : Except Refusal Start := do
  match ← s.reference name with
  | .start a => .ok a
  | _ => .error (.unbound name)

def node (s : Session) (name : Text) : Except Refusal NodeId := do
  match ← s.start name with
  | .node id => .ok id
  | .owner _ => .error (.unbound name)

def owner (s : Session) (name : Text) : Except Refusal OwnerId := do
  match ← s.start name with
  | .owner id => .ok id
  | .node _ => .error (.unbound name)

/-- The registry that a name stands for; the shared one if there is no name. -/
def registry (s : Session) (name : Option Text) : Except Refusal (Option RegistryId) :=
  match name with
  | none => .ok none
  | some name => do
    match ← s.reference name with
    | .registry id => .ok (some id)
    | _ => .error (.unbound name)

def config (s : Session) (name : Text) : Except Refusal (Option ConfigId) := do
  match ← s.reference name with
  | .config id => .ok id
  | _ => .error (.unbound name)

/-- A result of the library as one of a command. -/
def settle {α : Type} (result : Except Error α) : Except Refusal α :=
  result.mapError .error

/-- An answer that leaves the workspace as it is. -/
def told (s : Session) (a : Answer) : Effect :=
  ⟨s.workspace, a, none⟩

def given (w : Workspace) (id : NodeId) : Effect :=
  ⟨w, .node (w.store.tree id), some (.start (.node id))⟩

def held (w : Workspace) (a : Start) : Answer :=
  match a with
  | .node id => .node (w.store.tree id)
  | .owner _ => .owned (w.tree a)

def handed (w : Workspace) (id : OwnerId) : Effect :=
  ⟨w, held w (.owner id), some (.start (.owner id))⟩

def handedOption (s : Session) (result : Except Error (Option (OwnerId × Workspace))) :
    Except Refusal Effect := do
  match ← settle result with
  | some (id, w) => return handed w id
  | none => return s.told .nothing

def inOrder (names : List Text) : Answer :=
  .texts (names.mergeSort Text.le)

def textOption : Option Text → Answer
  | some s => .text s
  | none => .nothing

def makeRegistry (s : Session) (backends : List Backend) (config : ConfigChoice) (strict : Bool) :
    Except Refusal Effect := do
  let (id, w) ←
    match config with
    | .unspecified => pure (none, s.workspace)
    | .own config =>
      let (id, w) := s.workspace.equip config
      pure (some id, w)
    | .named name => do
      let id ← s.config name
      pure (id, s.workspace)
  let r ← settle (Registry.ofBackends backends id strict)
  let (id, w) := w.enlist r
  return ⟨w, .texts r.names, some (.registry id)⟩

def makeOwner (s : Session) (holding : Holding) (registry : Option Text) :
    Except Refusal Effect := do
  match holding with
  | .existing name =>
    let root ← s.node name
    let id ← s.registry registry
    let (owner, w) := s.workspace.own root id
    return handed w owner
  | .emptyLevel =>
    let id ← s.registry registry
    let (owner, w) := s.workspace.hold (.level []) id
    return handed w owner
  | .document d =>
    let id ← s.registry registry
    let t ← settle d.toTree
    let (owner, w) := s.workspace.hold t id
    return handed w owner

def lookAtNode (w : Workspace) (a : Start) (what : Look) : Answer :=
  let n := (w.root a).map w.store.node
  match what with
  | .length => .count ((n.map Node.children).getD []).length
  | .truth => .boolean true
  | .description =>
    match a, n.map Node.description with
    | .node _, d => .text (d.getD "")
    | .owner _, d => .text ("DataTree(" ++ d.getD "<unloaded>" ++ ")")
  | .members => .texts (((n.map Node.children).getD []).map fun id => (w.store.node id).kind.name)

def lookAtRegistry (r : Registry) : Look → Answer
  | .length => .count r.backends.length
  | .truth => .boolean !r.backends.isEmpty
  | .description => .text r.description
  | .members => .texts (r.backends.map fun (_, b) => b.description)

def detail (w : Workspace) (id : NodeId) : Detail → Answer
  | .keys => .keys ((w.store.node id).items.map (·.1))
  | .items => .items ((w.store.node id).items.map fun (segment, child) =>
    (segment, w.store.tree child))
  | .walk =>
    .walk <| (w.store.walk id).map fun (path, child) =>
      let n := w.store.node child
      (path, n.kind, n.payload)

def ask (s : Session) (a : Start) (q : Question) (address : Address) (args : List Value) :
    Except Refusal Effect := do
  let w := s.workspace
  let root := w.root a
  match q with
  | .subtree =>
    match ← settle (w.store.resolve root address args) with
    | some id => return given w id
    | none => return s.told .nothing
  | .listSize => return s.told (.count (← settle (w.store.listSize root address args)))
  | .hasKey => return s.told (.boolean (← settle (w.store.hasKey root address args)))
  | .scalar kind default =>
    return s.told (.value (← settle (w.store.scalar root kind default address args)))
  | .lookup kind =>
    match ← settle (w.store.lookup root kind address args) with
    | .found id => return s.told (.found (w.store.tree id) (w.store.node id).payload)
    | .failed kind message => return s.told (.failed kind message)
  | .place =>
    match ← settle (w.store.resolveForWrite root address args) with
    | some (parent, last) =>
      return ⟨w, .place (w.store.tree parent) last, some (.start (.node parent))⟩
    | none => return s.told .nothing

def item (s : Session) (id : OwnerId) (address : Address) : Except Refusal Effect := do
  let w := s.workspace
  let found ← settle (w.store.lookup (w.root (.owner id)) none address [])
  let id ← settle found.unwrap
  if (w.store.node id).kind.isScalar then return s.told (.value (w.store.node id).payload)
  else return given w id

def registered (s : Session) (id : Option RegistryId) (result : Except Error (Backend × Registry)) :
    Except Refusal Effect := do
  let (b, r) ← settle result
  return ⟨s.workspace.amend id r, .text b.description, none⟩

def use (s : Session) (id : Option RegistryId) (what : Use) : Except Refusal Effect := do
  let w := s.workspace
  let r := w.registry id
  match what with
  | .register b replace => s.registered id ((r.register b replace).map fun r => (b, r))
  | .unregister name => s.registered id (r.unregister name)
  | .names => return s.told (.texts r.names)
  | .get name => return s.told (.text (← settle (r.get name)).description)
  | .has name => return s.told (.boolean (r.names.contains name))
  | .selectForPath storage =>
    return s.told (.text (← settle (r.selectForPath w.host (w.settings r) storage)).name)
  | .selectForString text => return s.told (.text (← settle (r.selectForString text)).name)
  | .createEmpty =>
    let (owner, w) := w.hold (.level []) id
    return handed w owner
  | .loadString v choice => s.handedOption (w.loadString id v choice)
  | .loadStorage storage choice => s.handedOption (w.loadStorage id storage choice)
  | .listEntries storage => return s.told (inOrder (← settle (w.listEntries id storage)))
  | .serialize none choice => return s.told (textOption (← settle (w.serialize id none choice)))
  | .serialize (some name) choice =>
    let a ← s.start name
    return s.told (textOption (← settle (w.serialize id (some a) choice)))
  | .settings => return s.told (.settings (w.settings r))

def probe (s : Session) (b : Backend) (config : StorageConfig) (storage : Text) (what : Probe) :
    Except Refusal Effect := do
  let host := s.workspace.host
  match what with
  | .locate =>
    return s.told (textOption ((← settle (b.locate host config storage)).map Location.text))
  | .parse => return s.told (.node (← settle (b.parseStorage host config storage)))
  | .list => return s.told (inOrder (← settle (b.listEntries host config storage)))

def perform (s : Session) (c : Command) : Except Refusal Effect := do
  let w := s.workspace
  match c with
  | .makeNode d =>
    let (id, w) := w.plant (← settle d.toTree)
    return given w id
  | .makeOwner holding registry => s.makeOwner holding registry
  | .makeConfig config =>
    let (id, w) := w.equip config
    return ⟨w, .settings config, some (.config (some id))⟩
  | .sharedConfig => return ⟨w, .nothing, some (.config none)⟩
  | .makeRegistry backends config strict => s.makeRegistry backends config strict
  | .addFile place e =>
    let host := { w.host with files := w.host.files.addAt place e }
    return ⟨{ w with host }, .nothing, none⟩
  | .look on what =>
    match ← s.reference on with
    | .start a => return s.told (lookAtNode w a what)
    | .registry id => return s.told (lookAtRegistry (w.registry (some id)) what)
    | .config _ => .error (.unbound on)
  | .view on what =>
    let a ← s.start on
    match what with
    | .dump => return s.told (held w a)
    | .plain integral =>
      return s.told (.value (((w.tree a).map (Tree.toValue integral)).getD .null))
  | .detail on what => return s.told (detail w (← s.node on) what)
  | .child on segment =>
    match ← settle ((w.store.node (← s.node on)).childAt segment) with
    | some id => return given w id
    | none => return s.told .nothing
  | .ask on q address args => s.ask (← s.start on) q address args
  | .add on address content =>
    match ← settle (w.put (← s.start on) address content) with
    | some (id, w) => return given w id
    | none => return s.told .nothing
  | .set on address content =>
    match ← settle (w.put (← s.start on) address content) with
    | some (_, w) => return ⟨w, .boolean true, none⟩
    | none => return s.told (.boolean false)
  | .assign on address d =>
    match ← settle (w.put (← s.start on) address (.setting d)) with
    | some (_, w) => return ⟨w, .nothing, none⟩
    | none => .error (.error (.notPlaced (← settle address.wording)))
  | .clear on => return ⟨w.clear (← s.node on), .nothing, none⟩
  | .item on address => s.item (← s.owner on) address
  | .root on =>
    match w.root (.owner (← s.owner on)) with
    | some id => return given w id
    | none => return s.told .nothing
  | .isLoaded on => return s.told (.boolean (w.root (.owner (← s.owner on))).isSome)
  | .unload on => return ⟨w.unload (← s.owner on), .nothing, none⟩
  | .release on =>
    let id ← s.owner on
    return ⟨w.unload id, .boolean (w.owner id).root.isSome, none⟩
  | .discard none => return s.told .nothing
  | .discard (some on) => return ⟨w.unload (← s.owner on), .nothing, none⟩
  | .identical on other =>
    let a ← s.reference on
    let b ← s.reference other
    return s.told (.boolean (decide (a = b)))
  | .write on choice =>
    let id ← s.owner on
    return s.told (textOption
      (← settle (w.serialize (w.owner id).registry (some (.owner id)) choice)))
  | .use on what => s.use (← s.registry on) what
  | .probe b config storage what => s.probe b config storage what
  | .rebase on base => return ⟨w.rebase (← s.config on) base, .nothing, none⟩
  | .setBase base => return ⟨w.rebase none base, .nothing, none⟩
  | .base => return s.told (.text w.config.base.text)
  | .refuse none _ e => .error (.error e)
  | .refuse (some on) _ e => do
    let _ ← s.reference on
    .error (.error e)

def Command.written? : Command → Option Text
  | .add on .. | .set on .. | .assign on .. | .clear on | .unload on | .release on
  | .refuse (some on) true _ => some on
  | _ => none

/-- The session after a command, whose result may get a name, and how the command ended. -/
def run (s : Session) (c : Command) (name : Option Text) : Session × Report :=
  let receiver := c.written?.bind fun on => (s.start on).toOption
  match s.perform c with
  | .ok effect =>
    let names :=
      match name, effect.result with
      | some name, some r => Entries.put name r s.names
      | _, _ => s.names
    (⟨effect.workspace, names⟩, ⟨.ok effect.answer, receiver.map (held effect.workspace)⟩)
  | .error refusal =>
    (s, ⟨.error refusal, receiver.map (held s.workspace)⟩)

def runAll (s : Session) : List (Command × Option Text) → List Report
  | [] => []
  | (c, name) :: rest =>
    let (s, report) := s.run c name
    report :: s.runAll rest

end Session

end Grove
