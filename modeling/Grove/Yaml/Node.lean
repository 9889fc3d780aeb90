import Grove.Yaml.Tag
import Grove.Yaml.Token

/-!
# The nodes of a document

The tokens of a document make a graph of nodes: scalars, sequences and mappings, each with its tag.
An alias is the node that its anchor names, so a node may occur in several places, and inside
itself. A node gets its number before its parts do. Every function takes tokens from the front, and
the fuel bounds how many.
-/
namespace Grove.Yaml

/-- A node, whose parts are named by their numbers. -/
inductive Node where
  | scalar (tag : Tag) (text : List CodePoint)
  | sequence (tag : Tag) (items : List Nat)
  | mapping (tag : Tag) (entries : List (Nat × Nat))

/-- The state of making nodes: the tokens that are left, the nodes so far, what the anchors name,
and what the handles of tags stand for. -/
structure Growth where
  tokens : List Token
  nodes : Array Node
  anchors : List (Text × Nat)
  handles : List (Text × Text)

/-- What the handles stand for unless a directive says otherwise. -/
def defaultHandles : List (Text × Text) :=
  [("!", "!"), ("!!", tagStart)]

namespace Growth

def push (g : Growth) (n : Node) : Nat × Growth :=
  (g.nodes.size, { g with nodes := g.nodes.push n })

def set (g : Growth) (id : Nat) (n : Node) : Growth :=
  { g with nodes := g.nodes.setIfInBounds id n }

/-- A node that is not written. -/
def pushEmpty (g : Growth) : Nat × Growth :=
  g.push (.scalar .null [])

/-- The anchor and the tag in front of a node, in either order. -/
def takeProperties (g : Growth) : Option Text × Option TagText × Growth :=
  match g.tokens with
  | .anchor name :: .tag t :: rest => (some name, some t, { g with tokens := rest })
  | .tag t :: .anchor name :: rest => (some name, some t, { g with tokens := rest })
  | .anchor name :: rest => (some name, none, { g with tokens := rest })
  | .tag t :: rest => (none, some t, { g with tokens := rest })
  | _ => (none, none, g)

/-- The full name of a tag; fails if its handle stands for nothing. -/
def tagName (g : Growth) (t : TagText) : Option Text :=
  match t.handle with
  | none => some t.suffix
  | some handle => do
    let (_, start) ← g.handles.find? fun (h, _) => h = handle
    return start ++ t.suffix

/-- Lets an anchor name a node; an anchor is used once. -/
def bind (g : Growth) (anchor : Option Text) (id : Nat) : Option Growth :=
  match anchor with
  | none => some g
  | some name =>
    if g.anchors.any fun (a, _) => a = name then none
    else some { g with anchors := (name, id) :: g.anchors }

def collectionTag (name : Option Text) (default : Tag) : Tag :=
  match name with
  | none => default
  | some name => if name = "!" then default else .ofName name

/-- The tag of a scalar: the written one, or the one that its form gives to plain text. -/
def scalarTag (name : Option Text) (plain : Bool) (text : List CodePoint) : Tag :=
  match name with
  | none => if plain then .ofForm text else .str
  | some name => if name = "!" then .ofForm text else .ofName name

def endsEntry : List Token → Bool
  | .key :: _ | .value :: _ | .blockEnd :: _ => true
  | _ => false

/-- A node of which only an anchor or a tag is written. -/
def unwritten (anchor name : Option Text) (g : Growth) : Option (Nat × Growth) :=
  if anchor.isNone && name.isNone then none
  else do
    let (id, g) := g.push (.scalar (scalarTag name true []) [])
    return (id, ← g.bind anchor id)

mutual

/-- A node. Block collections count where `block` allows them, and a sequence without indentation of
its own where `indentless` does. -/
def node : Nat → Nat → Bool → Bool → Growth → Option (Nat × Growth)
  | 0, _, _, _, _ => none
  | fuel + 1, depth, block, indentless, g =>
    match g.tokens with
    | .alias name :: rest => do
      let (_, id) ← g.anchors.find? fun (a, _) => a = name
      return (id, { g with tokens := rest })
    | _ => do
      let (anchor, tagText, g) := g.takeProperties
      let name ←
        match tagText with
        | none => some none
        | some t => (g.tagName t).map some
      if maxNesting < depth then none
      let openSequence (g : Growth) : Option (Nat × Growth) := do
        let (id, g) := g.push (.sequence (collectionTag name .seq) [])
        return (id, ← g.bind anchor id)
      let openMapping (g : Growth) : Option (Nat × Growth) := do
        let (id, g) := g.push (.mapping (collectionTag name .map) [])
        return (id, ← g.bind anchor id)
      let closeSequence (id : Nat) (items : List Nat) (g : Growth) : Nat × Growth :=
        (id, g.set id (.sequence (collectionTag name .seq) items))
      let closeMapping (id : Nat) (entries : List (Nat × Nat)) (g : Growth) : Nat × Growth :=
        (id, g.set id (.mapping (collectionTag name .map) entries))
      match g.tokens with
      | .scalar plain text :: rest => do
        let (id, g) := { g with tokens := rest }.push (.scalar (scalarTag name plain text) text)
        return (id, ← g.bind anchor id)
      | .flowSequenceStart :: rest => do
        let (id, g) ← openSequence { g with tokens := rest }
        let (items, g) ← flowSequence fuel (depth + 1) true g
        return closeSequence id items g
      | .flowMappingStart :: rest => do
        let (id, g) ← openMapping { g with tokens := rest }
        let (entries, g) ← flowMapping fuel (depth + 1) true g
        return closeMapping id entries g
      | .entry :: _ =>
        if indentless then do
          let (id, g) ← openSequence g
          let (items, g) ← indentlessSequence fuel (depth + 1) g
          return closeSequence id items g
        else unwritten anchor name g
      | .sequenceStart :: rest =>
        if block then do
          let (id, g) ← openSequence { g with tokens := rest }
          let (items, g) ← blockSequence fuel (depth + 1) g
          return closeSequence id items g
        else unwritten anchor name g
      | .mappingStart :: rest =>
        if block then do
          let (id, g) ← openMapping { g with tokens := rest }
          let (entries, g) ← blockMapping fuel (depth + 1) g
          return closeMapping id entries g
        else unwritten anchor name g
      | _ => unwritten anchor name g

def blockSequence : Nat → Nat → Growth → Option (List Nat × Growth)
  | 0, _, _ => none
  | fuel + 1, depth, g =>
    match g.tokens with
    | .entry :: rest => do
      let g := { g with tokens := rest }
      let (id, g) ←
        match rest with
        | .entry :: _ | .blockEnd :: _ => some g.pushEmpty
        | _ => node fuel depth true false g
      let (ids, g) ← blockSequence fuel depth g
      return (id :: ids, g)
    | .blockEnd :: rest => some ([], { g with tokens := rest })
    | _ => none

/-- The items of a sequence that is indented no further than the mapping around it. -/
def indentlessSequence : Nat → Nat → Growth → Option (List Nat × Growth)
  | 0, _, _ => none
  | fuel + 1, depth, g =>
    match g.tokens with
    | .entry :: rest => do
      let g := { g with tokens := rest }
      let (id, g) ←
        match rest with
        | .entry :: _ => some g.pushEmpty
        | _ => if endsEntry rest then some g.pushEmpty else node fuel depth true false g
      let (ids, g) ← indentlessSequence fuel depth g
      return (id :: ids, g)
    | _ => some ([], g)

def blockMapping : Nat → Nat → Growth → Option (List (Nat × Nat) × Growth)
  | 0, _, _ => none
  | fuel + 1, depth, g =>
    match g.tokens with
    | .blockEnd :: rest => some ([], { g with tokens := rest })
    | .key :: rest => do
      let g := { g with tokens := rest }
      let (k, g) ← if endsEntry rest then some g.pushEmpty else node fuel depth true true g
      let (v, g) ←
        match g.tokens with
        | .value :: rest =>
          let g := { g with tokens := rest }
          if endsEntry rest then some g.pushEmpty else node fuel depth true true g
        | _ => some g.pushEmpty
      let (entries, g) ← blockMapping fuel depth g
      return ((k, v) :: entries, g)
    | _ => none

def flowSequence : Nat → Nat → Bool → Growth → Option (List Nat × Growth)
  | 0, _, _, _ => none
  | fuel + 1, depth, first, g =>
    match g.tokens with
    | .flowSequenceEnd :: rest => some ([], { g with tokens := rest })
    | tokens => do
      let g ←
        if first then some g
        else
          match tokens with
          | .flowEntry :: rest => some { g with tokens := rest }
          | _ => none
      match g.tokens with
      | .flowSequenceEnd :: rest => some ([], { g with tokens := rest })
      | .key :: rest => do
        let (pair, g) := { g with tokens := rest }.push (.mapping .map [])
        let (k, g) ←
          match rest with
          | .value :: _ | .flowEntry :: _ | .flowSequenceEnd :: _ => some g.pushEmpty
          | _ => node fuel (depth + 1) false false g
        let (v, g) ←
          match g.tokens with
          | .value :: rest =>
            let g := { g with tokens := rest }
            match rest with
            | .flowEntry :: _ | .flowSequenceEnd :: _ => some g.pushEmpty
            | _ => node fuel (depth + 1) false false g
          | _ => some g.pushEmpty
        let g := g.set pair (.mapping .map [(k, v)])
        let (ids, g) ← flowSequence fuel depth false g
        return (pair :: ids, g)
      | _ => do
        let (id, g) ← node fuel depth false false g
        let (ids, g) ← flowSequence fuel depth false g
        return (id :: ids, g)

/-- The entries of a flow mapping up to its end; an entry without a colon has an empty value. -/
def flowMapping : Nat → Nat → Bool → Growth → Option (List (Nat × Nat) × Growth)
  | 0, _, _, _ => none
  | fuel + 1, depth, first, g =>
    match g.tokens with
    | .flowMappingEnd :: rest => some ([], { g with tokens := rest })
    | tokens => do
      let g ←
        if first then some g
        else
          match tokens with
          | .flowEntry :: rest => some { g with tokens := rest }
          | _ => none
      match g.tokens with
      | .flowMappingEnd :: rest => some ([], { g with tokens := rest })
      | .key :: rest => do
        let g := { g with tokens := rest }
        let (k, g) ←
          match rest with
          | .value :: _ | .flowEntry :: _ | .flowMappingEnd :: _ => some g.pushEmpty
          | _ => node fuel depth false false g
        let (v, g) ←
          match g.tokens with
          | .value :: rest =>
            let g := { g with tokens := rest }
            match rest with
            | .flowEntry :: _ | .flowMappingEnd :: _ => some g.pushEmpty
            | _ => node fuel depth false false g
          | _ => some g.pushEmpty
        let (entries, g) ← flowMapping fuel depth false g
        return ((k, v) :: entries, g)
      | _ => do
        let (k, g) ← node fuel depth false false g
        let (v, g) := g.pushEmpty
        let (entries, g) ← flowMapping fuel depth false g
        return ((k, v) :: entries, g)

end

/-- What the directives in front of a document let the handles stand for. There is at most one
version, which is 1, and each handle is declared once. -/
def takeDirectives : List Token → Bool → List (Text × Text) →
    Option (List (Text × Text) × List Token)
  | .directive (.version major) :: rest, seen, handles =>
    if seen || major ≠ 1 then none else takeDirectives rest true handles
  | .directive (.tag handle start) :: rest, seen, handles =>
    if handles.any fun (h, _) => h = handle then none
    else takeDirectives rest seen ((handle, start) :: handles)
  | .directive .other :: rest, seen, handles => takeDirectives rest seen handles
  | tokens, _, handles => some (handles ++ defaultHandles, tokens)

/-- Tokens without the marks of the end of a document in front. -/
def dropEnds : List Token → List Token
  | .documentEnd :: rest => dropEnds rest
  | tokens => tokens

end Growth

/-- The root of the only document of a stream and its nodes; there is no root if there is no
document, and nothing at all if the tokens make no document or more than one. -/
def nodesOf (tokens : List Token) : Option (Option Nat × Array Node) := do
  let fuel := 4 * tokens.length + 4
  let finish (root : Nat) (g : Growth) : Option (Option Nat × Array Node) :=
    match Growth.dropEnds g.tokens with
    | [.finish] => some (some root, g.nodes)
    | _ => none
  match tokens with
  | [.finish] => return (none, #[])
  | .directive _ :: _ | .documentStart :: _ => do
    let (handles, rest) ← Growth.takeDirectives tokens false []
    match rest with
    | .documentStart :: rest => do
      let g : Growth := ⟨rest, #[], [], handles⟩
      let (root, g) ←
        match rest with
        | .directive _ :: _ | .documentStart :: _ | .documentEnd :: _ | .finish :: _ =>
          some g.pushEmpty
        | _ => g.node fuel 0 true false
      finish root g
    | _ => none
  | _ => do
    let (root, g) ← Growth.node fuel 0 true false ⟨tokens, #[], [], defaultHandles⟩
    finish root g

end Grove.Yaml
