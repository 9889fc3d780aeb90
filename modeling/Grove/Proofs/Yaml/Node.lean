import Grove.Proofs.Yaml.Outline
import Grove.Yaml.Node

/-!
# The nodes of an outline

The tokens of an outline make its nodes, each container before its parts and each key before its
value, whatever stands behind them.
-/
namespace Grove.Yaml

namespace Outline

mutual

def size : Outline → Nat
  | .scalar .. => 1
  | .list os => sizeAll os + 1
  | .level es => sizeEntries es + 1

def sizeAll : List Outline → Nat
  | [] => 0
  | o :: os => o.size + sizeAll os

def sizeEntries : List (KeyOutline × Outline) → Nat
  | [] => 0
  | (_, o) :: es => o.size + 1 + sizeEntries es

end

mutual

/-- How many containers are inside each other at most. -/
def depth : Outline → Nat
  | .scalar .. => 0
  | .list os => depthAll os + 1
  | .level es => depthEntries es + 1

def depthAll : List Outline → Nat
  | [] => 0
  | o :: os => max o.depth (depthAll os)

def depthEntries : List (KeyOutline × Outline) → Nat
  | [] => 0
  | (_, o) :: es => max o.depth (depthEntries es)

end

def itemIds (id : Nat) : List Outline → List Nat
  | [] => []
  | o :: os => id :: itemIds (id + o.size) os

def entryIds (id : Nat) : List (KeyOutline × Outline) → List (Nat × Nat)
  | [] => []
  | (_, o) :: es => (id, id + 1) :: entryIds (id + 1 + o.size) es

def scalarNode (plain : Bool) (text : List CodePoint) : Node :=
  .scalar (Growth.scalarTag none plain text) text

mutual

def nodes (id : Nat) : Outline → List Node
  | .scalar plain text => [scalarNode plain text]
  | .list os => .sequence .seq (itemIds (id + 1) os) :: itemNodes (id + 1) os
  | .level es => .mapping .map (entryIds (id + 1) es) :: entryNodes (id + 1) es

def itemNodes (id : Nat) : List Outline → List Node
  | [] => []
  | o :: os => o.nodes id ++ itemNodes (id + o.size) os

def entryNodes (id : Nat) : List (KeyOutline × Outline) → List Node
  | [] => []
  | (k, o) :: es => scalarNode k.plain k.text :: o.nodes (id + 1) ++ entryNodes (id + 1 + o.size) es

end

mutual

theorem length_nodes (id : Nat) : (o : Outline) → (o.nodes id).length = o.size
  | .scalar .. => rfl
  | .list os => congrArg (· + 1) (length_itemNodes (id + 1) os)
  | .level es => congrArg (· + 1) (length_entryNodes (id + 1) es)

theorem length_itemNodes (id : Nat) : (os : List Outline) → (itemNodes id os).length = sizeAll os
  | [] => rfl
  | o :: os => by
    rw [itemNodes, List.length_append, length_nodes id o, length_itemNodes (id + o.size) os]
    rfl

theorem length_entryNodes (id : Nat) : (es : List (KeyOutline × Outline)) →
    (entryNodes id es).length = sizeEntries es
  | [] => rfl
  | (k, o) :: es => by
    rw [entryNodes, List.length_append, List.length_cons, length_nodes (id + 1) o,
      length_entryNodes (id + 1 + o.size) es]
    rfl

end

end Outline

/-- A token with which a node may begin, in whatever it stands. -/
def Token.beginsNode : Token → Bool
  | .scalar .. | .sequenceStart | .mappingStart | .flowSequenceStart | .flowMappingStart => true
  | _ => false

/-! ## One node -/

namespace Growth

def before (g : Growth) (tokens : List Token) : Growth :=
  { g with tokens := tokens }

def grown (g : Growth) (ns : List Node) : Growth :=
  { g with nodes := g.nodes ++ ns.toArray }

section

variable (g : Growth)

@[simp] theorem nodes_before (tokens : List Token) : (g.before tokens).nodes = g.nodes :=
  rfl

@[simp] theorem before_before (tokens tokens' : List Token) :
    (g.before tokens).before tokens' = g.before tokens' :=
  rfl

@[simp] theorem grown_before (tokens : List Token) (ns : List Node) :
    (g.before tokens).grown ns = (g.grown ns).before tokens :=
  rfl

@[simp] theorem grown_nil : g.grown [] = g := by
  simp [grown]

@[simp] theorem grown_grown (ns ns' : List Node) :
    (g.grown ns).grown ns' = g.grown (ns ++ ns') := by
  simp [grown]

@[simp] theorem size_grown (ns : List Node) :
    (g.grown ns).nodes.size = g.nodes.size + ns.length := by
  simp [grown]

@[simp] theorem set_before (tokens : List Token) (id : Nat) (n : Node) :
    (g.before tokens).set id n = (g.set id n).before tokens :=
  rfl

/-- The node of a container is filled in when its parts are there. -/
theorem set_grown (a b : Node) (ns : List Node) :
    (g.grown (a :: ns)).set g.nodes.size b = g.grown (b :: ns) := by
  simp [grown, set, Array.setIfInBounds_append_right]

end

section

variable {fuel depth : Nat} {block indentless : Bool} {rest : List Token} {g g' g'' : Growth}
  {id : Nat} {items : List Nat}
  {entries : List (Nat × Nat)}

theorem node_scalar (h : depth ≤ maxNesting) (plain : Bool) (text : List CodePoint) :
    node (fuel + 1) depth block indentless (g.before (.scalar plain text :: rest)) =
      some (g.nodes.size, (g.grown [Outline.scalarNode plain text]).before rest) := by
  rw [node]
  simp [before, grown, takeProperties, Nat.not_lt.mpr h, push, bind, Outline.scalarNode]

theorem node_blockSequence (h : depth ≤ maxNesting)
    (hitems : blockSequence fuel (depth + 1) ((g.grown [.sequence .seq []]).before rest) =
      some (items, g')) :
    node (fuel + 1) depth true indentless (g.before (.sequenceStart :: rest)) =
      some (g.nodes.size, g'.set g.nodes.size (.sequence .seq items)) := by
  simp [before, grown] at hitems
  rw [node]
  simp [before, takeProperties, Nat.not_lt.mpr h, push, bind, collectionTag, hitems]

theorem node_indentlessSequence (h : depth ≤ maxNesting)
    (hitems : indentlessSequence fuel (depth + 1) ((g.grown [.sequence .seq []]).before
      (.entry :: rest)) =
      some (items, g')) :
    node (fuel + 1) depth block true (g.before (.entry :: rest)) =
      some (g.nodes.size, g'.set g.nodes.size (.sequence .seq items)) := by
  simp [before, grown] at hitems
  rw [node]
  simp [before, takeProperties, Nat.not_lt.mpr h, push, bind, collectionTag, hitems]

theorem node_blockMapping (h : depth ≤ maxNesting)
    (hentries : blockMapping fuel (depth + 1) ((g.grown [.mapping .map []]).before rest) =
      some (entries, g')) :
    node (fuel + 1) depth true indentless (g.before (.mappingStart :: rest)) =
      some (g.nodes.size, g'.set g.nodes.size (.mapping .map entries)) := by
  simp [before, grown] at hentries
  rw [node]
  simp [before, takeProperties, Nat.not_lt.mpr h, push, bind, collectionTag, hentries]

theorem node_emptySequence (h : depth ≤ maxNesting) :
    node (fuel + 2) depth block indentless
      (g.before (.flowSequenceStart :: .flowSequenceEnd :: rest)) =
      some (g.nodes.size, (g.grown [.sequence .seq []]).before rest) := by
  have hset := set_grown g (.sequence .seq []) (.sequence .seq []) []
  simp [grown, set] at hset
  rw [node]
  simp [before, grown, takeProperties, Nat.not_lt.mpr h, push, bind, collectionTag,
    flowSequence, set, hset]

theorem node_emptyMapping (h : depth ≤ maxNesting) :
    node (fuel + 2) depth block indentless
      (g.before (.flowMappingStart :: .flowMappingEnd :: rest)) =
      some (g.nodes.size, (g.grown [.mapping .map []]).before rest) := by
  have hset := set_grown g (.mapping .map []) (.mapping .map []) []
  simp [grown, set] at hset
  rw [node]
  simp [before, grown, takeProperties, Nat.not_lt.mpr h, push, bind, collectionTag,
    flowMapping, set, hset]

def BeginsNode (rest : List Token) : Prop :=
  ∃ t ts, rest = t :: ts ∧ t.beginsNode = true

theorem blockSequence_entry (hrest : BeginsNode rest)
    (hnode : node fuel depth true false (g.before rest) = some (id, g'))
    (hitems : blockSequence fuel depth g' = some (items, g'')) :
    blockSequence (fuel + 1) depth (g.before (.entry :: rest)) = some (id :: items, g'') := by
  obtain ⟨t, ts, rfl, ht⟩ := hrest
  rw [before] at hnode
  rw [blockSequence]
  cases t with
  | scalar | sequenceStart | mappingStart | flowSequenceStart | flowMappingStart =>
    simp [before, hnode, hitems]
  | _ => cases ht

theorem blockSequence_end :
    blockSequence (fuel + 1) depth (g.before (.blockEnd :: rest)) = some ([], g.before rest) := by
  rw [blockSequence]
  rfl

theorem indentlessSequence_entry (hrest : BeginsNode rest)
    (hnode : node fuel depth true false (g.before rest) = some (id, g'))
    (hitems : indentlessSequence fuel depth g' = some (items, g'')) :
    indentlessSequence (fuel + 1) depth (g.before (.entry :: rest)) = some (id :: items, g'') := by
  obtain ⟨t, ts, rfl, ht⟩ := hrest
  rw [before] at hnode
  rw [indentlessSequence]
  cases t with
  | scalar | sequenceStart | mappingStart | flowSequenceStart | flowMappingStart =>
    simp [before, hnode, hitems, endsEntry]
  | _ => cases ht

theorem indentlessSequence_end (h : ∀ more, rest ≠ .entry :: more) :
    indentlessSequence (fuel + 1) depth (g.before rest) = some ([], g.before rest) := by
  rw [indentlessSequence]
  split
  · next more heq => exact absurd heq (h more)
  · rfl

theorem blockMapping_entry {plain : Bool} {text : List CodePoint} (hrest : endsEntry rest = false)
    (hdepth : depth ≤ maxNesting)
    (hnode : node (fuel + 1) depth true true ((g.grown [Outline.scalarNode plain text]).before
      rest) = some (id, g'))
    (hentries : blockMapping (fuel + 1) depth g' = some (entries, g'')) :
    blockMapping (fuel + 2) depth (g.before (.key :: .scalar plain text :: .value :: rest)) =
      some ((g.nodes.size, id) :: entries, g'') := by
  have hkey : node (fuel + 1) depth true true (g.before (.scalar plain text :: .value :: rest)) =
      _ :=
    node_scalar hdepth plain text
  have hscalar : endsEntry (.scalar plain text :: .value :: rest) = false := rfl
  rw [before] at hkey hnode
  rw [blockMapping]
  simp [before, hscalar, hkey, hrest, hnode, hentries]

theorem blockMapping_end :
    blockMapping (fuel + 1) depth (g.before (.blockEnd :: rest)) = some ([], g.before rest) := by
  rw [blockMapping]
  rfl

end

end Growth

/-! ## Every outline -/

namespace Outline

/-- The first token of an outline. -/
theorem exists_tokens_eq_cons (flush : Bool) (o : Outline) :
    ∃ t ts, o.tokens flush = t :: ts ∧ (t.beginsNode = true ∨ flush = true ∧ t = .entry) := by
  cases o with
  | scalar plain text => exact ⟨_, _, rfl, Or.inl rfl⟩
  | list os =>
    cases os with
    | nil => exact ⟨_, _, rfl, Or.inl rfl⟩
    | cons o os =>
      cases flush
      · exact ⟨_, _, rfl, Or.inl rfl⟩
      · exact ⟨_, _, rfl, Or.inr ⟨rfl, rfl⟩⟩
  | level es =>
    cases es with
    | nil => exact ⟨_, _, rfl, Or.inl rfl⟩
    | cons e es => exact ⟨_, _, rfl, Or.inl rfl⟩

theorem endsEntry_tokens (flush : Bool) (o : Outline) (rest : List Token) :
    Growth.endsEntry (o.tokens flush ++ rest) = false := by
  obtain ⟨t, ts, ht, hbegins⟩ := o.exists_tokens_eq_cons flush
  rw [ht]
  rcases hbegins with hbegins | ⟨-, rfl⟩
  · cases t with
    | scalar | sequenceStart | mappingStart | flowSequenceStart | flowMappingStart => rfl
    | _ => cases hbegins
  · rfl

theorem beginsNode_tokens (o : Outline) (rest : List Token) :
    Growth.BeginsNode (o.tokens false ++ rest) := by
  obtain ⟨t, ts, ht, hbegins | ⟨hflush, -⟩⟩ := o.exists_tokens_eq_cons false
  · exact ⟨t, ts ++ rest, by rw [ht]; rfl, hbegins⟩
  · cases hflush

/-- The nodes of an outline are made of its tokens, wherever they stand. A list without indentation
of its own stands only where such lists count, and no dash follows it. -/
def Grows (o : Outline) : Prop :=
  ∀ (fuel depth : Nat) (flush indentless : Bool) (g : Growth) (rest : List Token),
    2 * (o.tokens flush).length + 2 ≤ fuel → depth + o.depth ≤ maxNesting →
    (flush = true → indentless = true ∧ ∀ more, rest ≠ .entry :: more) →
    Growth.node fuel depth true indentless (g.before (o.tokens flush ++ rest)) =
      some (g.nodes.size, (g.grown (o.nodes g.nodes.size)).before rest)

section

variable {fuel depth : Nat} {rest : List Token}

/-- The items of a sequence, whichever way it is read: with a step for each item, and one at the
end. -/
theorem sequence_items {sequence : Nat → Nat → Growth → Option (List Nat × Growth)}
    {last : List Token}
    (hentry : ∀ {fuel : Nat} {rest : List Token} {id : Nat} {items : List Nat} {g g' g'' : Growth},
      Growth.BeginsNode rest → Growth.node fuel depth true false (g.before rest) = some (id, g') →
      sequence fuel depth g' = some (items, g'') →
      sequence (fuel + 1) depth (g.before (.entry :: rest)) = some (id :: items, g''))
    (hend : ∀ {fuel : Nat} {g : Growth}, sequence (fuel + 1) depth (g.before last) =
      some ([], g.before rest))
    {os : List Outline} (h : ∀ o ∈ os, o.Grows) (g : Growth)
    (hfuel : 2 * (itemsTokens os).length < fuel) (hdepth : depth + depthAll os ≤ maxNesting) :
    sequence fuel depth (g.before (itemsTokens os ++ last)) =
      some (itemIds g.nodes.size os, (g.grown (itemNodes g.nodes.size os)).before rest) := by
  induction os generalizing fuel g with
  | nil =>
    obtain ⟨fuel, rfl⟩ := Nat.exists_eq_add_of_lt hfuel
    simpa [itemsTokens, itemIds, itemNodes] using hend
  | cons o os ih =>
    obtain ⟨hfirst, hothers⟩ := List.forall_mem_cons.mp h
    simp only [itemsTokens, List.cons_append, List.length_cons, List.length_append] at hfuel
    rw [depthAll] at hdepth
    obtain ⟨fuel, rfl⟩ : ∃ n, fuel = n + 1 := ⟨fuel - 1, by omega⟩
    have hnode := hfirst fuel depth false false g (itemsTokens os ++ last)
      (by omega) (by omega) nofun
    have hmore := ih hothers (g.grown (o.nodes g.nodes.size)) (show _ < fuel by omega) (by omega)
    have hitems := hentry (o.beginsNode_tokens _) hnode hmore
    rw [Growth.size_grown, length_nodes] at hitems
    simpa [itemsTokens, itemIds, itemNodes] using hitems

/-- The entries of a block. -/
theorem blockMapping_entries {es : List (KeyOutline × Outline)}
    (h : ∀ e ∈ es, e.2.Grows) (g : Growth) (hfuel : 2 * (entriesTokens es).length < fuel)
    (hdepth : depth + depthEntries es ≤ maxNesting) :
    Growth.blockMapping fuel depth (g.before (entriesTokens es ++ .blockEnd :: rest)) =
      some (entryIds g.nodes.size es, (g.grown (entryNodes g.nodes.size es)).before rest) := by
  induction es generalizing fuel g with
  | nil =>
    obtain ⟨fuel, rfl⟩ := Nat.exists_eq_add_of_lt hfuel
    simpa [entriesTokens, entryIds, entryNodes] using Growth.blockMapping_end
  | cons e es ih =>
    obtain ⟨k, o⟩ := e
    obtain ⟨hvalue, hothers⟩ := List.forall_mem_cons.mp h
    have hfirst : o.Grows := hvalue
    simp only [entriesTokens, List.cons_append, List.length_cons, List.length_append] at hfuel
    rw [depthEntries] at hdepth
    obtain ⟨fuel, rfl⟩ : ∃ n, fuel = n + 2 := ⟨fuel - 2, by omega⟩
    have hnext (more : List Token) : entriesTokens es ++ .blockEnd :: rest ≠ .entry :: more := by
      cases es <;> nofun
    have hnode := hfirst (fuel + 1) depth k.simple true (g.grown [scalarNode k.plain k.text])
      (entriesTokens es ++ .blockEnd :: rest) (by omega) (by omega) fun _ => ⟨rfl, hnext⟩
    rw [Growth.size_grown, List.length_singleton, Growth.grown_grown] at hnode
    have hmore := ih hothers (g.grown (scalarNode k.plain k.text :: o.nodes (g.nodes.size + 1)))
      (show _ < fuel + 1 by omega) (by omega)
    have hentries := Growth.blockMapping_entry (o.endsEntry_tokens k.simple _)
      (by omega) hnode hmore
    rw [Growth.size_grown, List.length_cons, length_nodes] at hentries
    simpa [entriesTokens, entryIds, entryNodes, Nat.add_assoc, Nat.add_comm] using hentries

theorem grows_scalar (plain : Bool) (text : List CodePoint) : Grows (.scalar plain text) := by
  intro fuel depth flush indentless g rest hfuel hdepth _
  obtain ⟨fuel, rfl⟩ : ∃ n, fuel = n + 1 := ⟨fuel - 1, by omega⟩
  exact Growth.node_scalar (Nat.le_of_add_right_le hdepth) plain text

theorem grows_nil : Grows (.list []) := by
  intro fuel depth flush indentless g rest hfuel hdepth _
  obtain ⟨fuel, rfl⟩ : ∃ n, fuel = n + 2 := ⟨fuel - 2, by omega⟩
  exact Growth.node_emptySequence (Nat.le_of_add_right_le hdepth)

theorem grows_empty : Grows (.level []) := by
  intro fuel depth flush indentless g rest hfuel hdepth _
  obtain ⟨fuel, rfl⟩ : ∃ n, fuel = n + 2 := ⟨fuel - 2, by omega⟩
  exact Growth.node_emptyMapping (Nat.le_of_add_right_le hdepth)

theorem grows_list {o : Outline} {os : List Outline} (h : ∀ u ∈ o :: os, u.Grows) :
    Grows (.list (o :: os)) := by
  intro fuel depth flush indentless g rest hfuel hdepth hflush
  rw [Outline.depth] at hdepth
  have hcount : 2 * (itemsTokens (o :: os)).length + 2 ≤ fuel := by
    simp only [tokens, List.length_append] at hfuel
    simp only [itemsTokens, List.length_append]
    omega
  obtain ⟨fuel, rfl⟩ : ∃ n, fuel = n + 1 := ⟨fuel - 1, by omega⟩
  cases flush with
  | false =>
    have hitems : Growth.blockSequence fuel (depth + 1)
        ((g.grown [.sequence .seq []]).before (itemsTokens (o :: os) ++ .blockEnd :: rest)) = _ :=
      sequence_items Growth.blockSequence_entry Growth.blockSequence_end h _ (by omega) (by omega)
    have hnode : Growth.node (fuel + 1) depth true indentless (g.before (.sequenceStart :: _)) =
        _ :=
      Growth.node_blockSequence (by omega) hitems
    rw [Growth.grown_grown, Growth.set_before, List.singleton_append, Growth.set_grown,
      Growth.size_grown] at hnode
    simpa [tokens, Outline.nodes, itemsTokens] using hnode
  | true =>
    obtain ⟨rfl, hrest⟩ := hflush rfl
    have hitems : Growth.indentlessSequence fuel (depth + 1)
        ((g.grown [.sequence .seq []]).before (itemsTokens (o :: os) ++ rest)) = _ :=
      sequence_items Growth.indentlessSequence_entry (Growth.indentlessSequence_end hrest) h
        _ (by omega) (by omega)
    have hnode : Growth.node (fuel + 1) depth true true (g.before (.entry :: _)) = _ :=
      Growth.node_indentlessSequence (by omega) hitems
    rw [Growth.grown_grown, Growth.set_before, List.singleton_append, Growth.set_grown,
      Growth.size_grown] at hnode
    simpa [tokens, Outline.nodes, itemsTokens] using hnode

theorem grows_level {e : KeyOutline × Outline} {es : List (KeyOutline × Outline)}
    (h : ∀ d ∈ e :: es, d.2.Grows) :
    Grows (.level (e :: es)) := by
  intro fuel depth flush indentless g rest hfuel hdepth _
  rw [Outline.depth] at hdepth
  have hcount : 2 * (entriesTokens (e :: es)).length + 2 ≤ fuel := by
    simp only [tokens, List.length_append, List.length_cons] at hfuel
    simp only [entriesTokens, List.length_append, List.length_cons]
    omega
  obtain ⟨fuel, rfl⟩ : ∃ n, fuel = n + 1 := ⟨fuel - 1, by omega⟩
  have hentries : Growth.blockMapping fuel (depth + 1)
      ((g.grown [.mapping .map []]).before (entriesTokens (e :: es) ++ .blockEnd :: rest)) = _ :=
    blockMapping_entries h _ (by omega) (by omega)
  have hnode : Growth.node (fuel + 1) depth true indentless (g.before (.mappingStart :: _)) = _ :=
    Growth.node_blockMapping (by omega) hentries
  rw [Growth.grown_grown, Growth.set_before, List.singleton_append, Growth.set_grown,
    Growth.size_grown] at hnode
  simpa [tokens, Outline.nodes, entriesTokens] using hnode

mutual

/-- The nodes of every outline are made of its tokens. -/
theorem grows : (o : Outline) → o.Grows
  | .scalar plain text => grows_scalar plain text
  | .list [] => grows_nil
  | .list (o :: os) => grows_list (growsAll (o :: os))
  | .level [] => grows_empty
  | .level (e :: es) => grows_level (growsEntries (e :: es))

theorem growsAll : (os : List Outline) → ∀ o ∈ os, o.Grows
  | [] => List.forall_mem_nil _
  | o :: os => List.forall_mem_cons.mpr ⟨o.grows, growsAll os⟩

theorem growsEntries : (es : List (KeyOutline × Outline)) → ∀ e ∈ es, e.2.Grows
  | [] => List.forall_mem_nil _
  | (_, o) :: es => List.forall_mem_cons.mpr ⟨o.grows, growsEntries es⟩

end

end

/-- The nodes of a document that is one outline, with the root first. -/
theorem nodesOf_tokens {o : Outline} (hdepth : o.depth ≤ maxNesting) {ends : List Token}
    (hends : Growth.dropEnds ends = [.finish]) :
    nodesOf (o.tokens false ++ ends) = some (some 0, (o.nodes 0).toArray) := by
  have hnode := o.grows (4 * (o.tokens false ++ ends).length + 4) 0 false false
    ⟨[], #[], [], defaultHandles⟩ ends
    (by rw [List.length_append]; omega) (by omega) nofun
  obtain ⟨t, ts, hts, ht⟩ := o.beginsNode_tokens ends
  rw [hts, Growth.before] at hnode
  rw [hts]
  cases t with
  | scalar | sequenceStart | mappingStart | flowSequenceStart | flowMappingStart =>
    rw [List.length_cons] at hnode
    simp [nodesOf, hnode, hends, Growth.before, Growth.grown]
  | _ => cases ht

end Outline

end Grove.Yaml
