import Mathlib.Data.List.Forall2
import Mathlib.Data.List.Nodup
import Grove.Proofs.Yaml.Node
import Grove.Proofs.Yaml.Filling
import Grove.Tree.Conversion

/-!
# The tree of an outline

The document that is read of the tokens of an outline refers to its containers by their numbers, and
the value of the outline has them in place: both make the same tree. Numbers grow on every way down,
so that no container is met inside itself.
-/
namespace Grove

/-! ## Values that make the same tree -/

/-- Whether a value is a truth value, a number or a text. -/
def Value.isScalar : Value → Bool
  | .boolean _ | .int _ | .float _ | .text _ => true
  | _ => false

namespace Tree

section

variable {follow follow' : Container → Nat → Except Error Tree}

/-- Two values make the same tree, if each is read with its own references, and neither is left
out. -/
structure Agree (follow follow' : Container → Nat → Except Error Tree) (v v' : Value) : Prop where
  left : v ≠ .null
  right : v' ≠ .null
  same : convert follow v = convert follow' v'

theorem agree_scalar {v : Value} (h : v.isScalar = true) : Agree follow follow' v v := by
  cases v with
  | boolean | int | float | text => exact ⟨nofun, nofun, rfl⟩
  | _ => cases h

theorem convertItems_agree {vs vs' : List Value} (h : List.Forall₂ (Agree follow follow') vs vs') :
    convertItems follow vs = convertItems follow' vs' := by
  induction h with
  | nil => rfl
  | cons hfirst _ ih =>
    rw [convertItems, convertItems, hfirst.same, ih]
    · exact hfirst.right
    · exact hfirst.left

theorem agree_list {vs vs' : List Value} (h : List.Forall₂ (Agree follow follow') vs vs') :
    convert follow (.list vs) = convert follow' (.list vs') := by
  rw [convert, convert, convertItems_agree h]

def AgreeEntries (follow follow' : Container → Nat → Except Error Tree) : List (Value × Value) →
    List (Value × Value) → Prop :=
  List.Forall₂ fun e e' => e.1 = e'.1 ∧ Agree follow follow' e.2 e'.2

theorem convertEntries_agree {es es' : List (Value × Value)}
    (h : AgreeEntries follow follow' es es') (level : List (Text × Tree)) :
    convertEntries follow level es = convertEntries follow' level es' := by
  induction h generalizing level with
  | nil => rfl
  | @cons e e' _ _ hfirst _ ih =>
    obtain ⟨k, v⟩ := e
    obtain ⟨k', v'⟩ := e'
    obtain ⟨rfl, hvalue⟩ := hfirst
    rw [convertEntries, convertEntries, hvalue.same]
    · simp only [ih]
    · exact hvalue.right
    · exact hvalue.left

theorem agree_dict {es es' : List (Value × Value)} (h : AgreeEntries follow follow' es es') :
    convert follow (.dict es) = convert follow' (.dict es') := by
  rw [convert, convert, convertEntries_agree h]

theorem AgreeEntries.put {es es' : List (Value × Value)} (h : AgreeEntries follow follow' es es')
    (eq : Value → Value → Bool) (k : Value) {v v' : Value} (hv : Agree follow follow' v v') :
    AgreeEntries follow follow' (Value.putEntry eq k v es) (Value.putEntry eq k v' es') := by
  induction h with
  | nil => exact .cons ⟨rfl, hv⟩ .nil
  | @cons e e' _ _ hfirst hothers ih =>
    obtain ⟨l, u⟩ := e
    obtain ⟨l', u'⟩ := e'
    obtain ⟨rfl, hu⟩ := hfirst
    rw [Value.putEntry, Value.putEntry]
    split
    · exact .cons ⟨rfl, hv⟩ hothers
    · exact .cons ⟨rfl, hu⟩ ih

end

end Tree

namespace Yaml

/-! ## The value of an outline -/

namespace Outline

mutual

def value : Outline → Value
  | .scalar plain text => (scalarValue (Growth.scalarTag none plain text) text).toOption.getD .null
  | .list os => .list (itemValues os)
  | .level es => .dict (entryValues es [])

def itemValues : List Outline → List Value
  | [] => []
  | o :: os => o.value :: itemValues os

def entryValues : List (KeyOutline × Outline) → List (Value × Value) → List (Value × Value)
  | [], done => done
  | (k, o) :: es, done =>
    entryValues es (Value.putEntry Value.same (.text (Text.ofList k.text)) o.value done)

end

mutual

/-- Every scalar is read as a truth value, a number or a text, and every key as a text. -/
def Sound : Outline → Prop
  | .scalar plain text =>
    ∃ v, scalarValue (Growth.scalarTag none plain text) text = .ok v ∧ v.isScalar = true
  | .list os => SoundItems os
  | .level es => SoundEntries es

def SoundItems : List Outline → Prop
  | [] => True
  | o :: os => o.Sound ∧ SoundItems os

def SoundEntries : List (KeyOutline × Outline) → Prop
  | [] => True
  | (k, o) :: es => Growth.scalarTag none k.plain k.text = .str ∧ o.Sound ∧ SoundEntries es

end

end Outline

/-! ## Where the nodes of an outline are -/

/-- Some nodes stand in a table one after the other from a number on. -/
def Holds (nodes : Array Node) (id : Nat) (ns : List Node) : Prop :=
  ∀ i n, ns[i]? = some n → nodes[id + i]? = some n

section

variable {nodes : Array Node} {id : Nat} {n : Node} {ns ns' : List Node}

theorem Holds.head (h : Holds nodes id (n :: ns)) : nodeAt nodes id = n ∧ id < nodes.size := by
  have hn := h 0 n rfl
  obtain ⟨hlt, -⟩ := Array.getElem?_eq_some_iff.mp hn
  rw [nodeAt, Array.getD_eq_getD_getElem?]
  exact ⟨by rw [show nodes[id]? = some n from hn]; rfl, hlt⟩

theorem Holds.tail (h : Holds nodes id (n :: ns)) : Holds nodes (id + 1) ns := by
  intro i m hm
  rw [Nat.add_assoc, Nat.add_comm 1 i]
  exact h (i + 1) m hm

theorem Holds.left (h : Holds nodes id (ns ++ ns')) : Holds nodes id ns := by
  intro i m hm
  obtain ⟨hlt, -⟩ := List.getElem?_eq_some_iff.mp hm
  exact h i m (by rw [List.getElem?_append_left hlt, hm])

theorem Holds.right (h : Holds nodes id (ns ++ ns')) : Holds nodes (id + ns.length) ns' := by
  intro i m hm
  rw [Nat.add_assoc]
  exact h (ns.length + i) m
    (by rw [List.getElem?_append_right (Nat.le_add_right _ _), Nat.add_sub_cancel_left, hm])

end

namespace Outline

section

variable {nodes : Array Node} {id : Nat}

theorem holds_items {o : Outline} {os : List Outline}
    (h : Holds nodes id (itemNodes id (o :: os))) :
    Holds nodes id (o.nodes id) ∧ Holds nodes (id + o.size) (itemNodes (id + o.size) os) := by
  have hright := h.right
  rw [length_nodes] at hright
  exact ⟨h.left, hright⟩

theorem holds_entries {k : KeyOutline} {o : Outline} {es : List (KeyOutline × Outline)}
    (h : Holds nodes id (entryNodes id ((k, o) :: es))) :
    nodeAt nodes id = scalarNode k.plain k.text ∧ Holds nodes (id + 1) (o.nodes (id + 1)) ∧
      Holds nodes (id + 1 + o.size) (entryNodes (id + 1 + o.size) es) := by
  have hright := h.tail.right
  rw [length_nodes] at hright
  exact ⟨h.head.1, h.tail.left, hright⟩

theorem lt_size_of_holds {o : Outline} (h : Holds nodes id (o.nodes id)) : id < nodes.size := by
  cases o with
  | scalar | list | level => exact h.head.2

/-! ## The nodes of a sound outline are plain -/

theorem itemIds_lt {os : List Outline} (h : Holds nodes id (itemNodes id os)) :
    ∀ i ∈ itemIds id os, i < nodes.size := by
  induction os generalizing id with
  | nil => exact List.forall_mem_nil _
  | cons o os ih =>
    obtain ⟨hfirst, hothers⟩ := holds_items h
    exact List.forall_mem_cons.mpr ⟨lt_size_of_holds hfirst, ih hothers⟩

theorem entryIds_plain {es : List (KeyOutline × Outline)} (hsound : SoundEntries es)
    (h : Holds nodes id (entryNodes id es)) :
    ∀ e ∈ entryIds id es, (∃ text, nodeAt nodes e.1 = .scalar .str text) ∧ e.2 < nodes.size := by
  induction es generalizing id with
  | nil => exact List.forall_mem_nil _
  | cons e es ih =>
    obtain ⟨k, o⟩ := e
    obtain ⟨hkey, hvalue, hothers⟩ := holds_entries h
    rw [scalarNode, hsound.1] at hkey
    exact List.forall_mem_cons.mpr ⟨⟨⟨k.text, hkey⟩, lt_size_of_holds hvalue⟩,
      ih hsound.2.2 hothers⟩

mutual

theorem isPlain_nodes : (o : Outline) → (id : Nat) → o.Sound → Holds nodes id (o.nodes id) →
    ∀ n ∈ o.nodes id, n.IsPlain nodes
  | .scalar plain text, id, hsound, _ => by
    obtain ⟨v, hv, -⟩ := hsound
    exact List.forall_mem_singleton.mpr ⟨v, hv⟩
  | .list os, id, hsound, h =>
    List.forall_mem_cons.mpr ⟨⟨rfl, itemIds_lt h.tail⟩, isPlain_itemNodes os (id + 1) hsound h.tail⟩
  | .level es, id, hsound, h =>
    List.forall_mem_cons.mpr ⟨⟨rfl, entryIds_plain hsound h.tail⟩,
      isPlain_entryNodes es (id + 1) hsound h.tail⟩

theorem isPlain_itemNodes : (os : List Outline) → (id : Nat) → SoundItems os →
    Holds nodes id (itemNodes id os) →
    ∀ n ∈ itemNodes id os, n.IsPlain nodes
  | [], _, _, _ => List.forall_mem_nil _
  | o :: os, id, hsound, h =>
    List.forall_mem_append.mpr ⟨isPlain_nodes o id hsound.1 (holds_items h).1,
      isPlain_itemNodes os (id + o.size) hsound.2 (holds_items h).2⟩

theorem isPlain_entryNodes : (es : List (KeyOutline × Outline)) → (id : Nat) → SoundEntries es →
    Holds nodes id (entryNodes id es) → ∀ n ∈ entryNodes id es, n.IsPlain nodes
  | [], _, _, _ => List.forall_mem_nil _
  | (k, o) :: es, id, hsound, h => by
    have hkey : (scalarNode k.plain k.text).IsPlain nodes := by
      rw [scalarNode, hsound.1]
      exact ⟨_, rfl⟩
    obtain ⟨-, hvalue, hothers⟩ := holds_entries h
    exact List.forall_mem_cons.mpr ⟨hkey, List.forall_mem_append.mpr
      ⟨isPlain_nodes o (id + 1) hsound.2.1 hvalue,
        isPlain_entryNodes es (id + 1 + o.size) hsound.2.2 hothers⟩⟩

end

theorem holds_root (o : Outline) : Holds (o.nodes 0).toArray 0 (o.nodes 0) := by
  intro i n hn
  rw [Nat.zero_add, List.getElem?_toArray]
  exact hn

theorem plainNodes {o : Outline} (h : o.Sound) : PlainNodes (o.nodes 0).toArray := by
  intro id
  have hnodes := isPlain_nodes o 0 h o.holds_root
  rw [nodeAt, Array.getD_eq_getD_getElem?, List.getElem?_toArray]
  cases hn : (o.nodes 0)[id]? with
  | none => exact ⟨.null, rfl⟩
  | some n => exact hnodes n (List.mem_of_getElem? hn)

end

end Outline

/-! ## The same tree -/

/-- A reference to a container leads to its body, if the containers around it have smaller
numbers. -/
theorem sharedTree_body {bodies : Array Value} {fuel id : Nat} {active : List Nat} {body : Value}
    (hbody : bodies[id]? = some body) (hactive : ∀ a ∈ active, a < id)
    (hfuel : bodies.size < fuel + id) (kind : Container) :
    Document.sharedTree bodies fuel active kind id =
      Tree.convert (Document.sharedTree bodies (fuel - 1) (id :: active)) body := by
  obtain ⟨hlt, -⟩ := Array.getElem?_eq_some_iff.mp hbody
  obtain ⟨fuel, rfl⟩ : ∃ n, fuel = n + 1 := ⟨fuel - 1, by omega⟩
  have hnew : id ∉ active := fun hmem => Nat.lt_irrefl id (hactive id hmem)
  rw [Document.sharedTree, if_neg (mt List.contains_iff_mem.mp hnew), Nat.add_sub_cancel]
  simp only [hbody]

namespace Outline

section

variable {s : Assembly} {follow : Container → Nat → Except Error Tree}

mutual

/-- A node and its outline make the same tree. -/
theorem agree_node (hfilled : ∀ id ∈ s.met, s.Filled id) :
    (o : Outline) → (id fuel : Nat) → (active : List Nat) →
    o.Sound → Holds s.nodes id (o.nodes id) →
    ((nodeAt s.nodes id).isContainer = true → id ∈ s.met) →
    (∀ a ∈ active, a < id) → s.bodies.size < fuel + id →
    Tree.Agree (Document.sharedTree s.bodies fuel active) follow (nodeValue s.nodes id) o.value
  | .scalar plain text, id, fuel, active => by
    intro hsound h _ _ _
    obtain ⟨v, hv, hscalar⟩ := hsound
    have hleft : nodeValue s.nodes id = v := by
      rw [nodeValue, h.head.1, scalarNode]
      simp only [hv]
      rfl
    have hright : value (.scalar plain text) = v := by
      rw [value, hv]
      rfl
    rw [hleft, hright]
    exact Tree.agree_scalar hscalar
  | .list os, id, fuel, active => by
    intro hsound h hmet hactive hfuel
    have hnode : nodeAt s.nodes id = .sequence .seq (itemIds (id + 1) os) := h.head.1
    obtain ⟨hbody, hparts⟩ := hfilled id (hmet (by rw [hnode]; rfl))
    rw [nodeParts, hnode] at hparts
    have hleft : nodeValue s.nodes id = .shared .list id := by rw [nodeValue, hnode]
    have hitems := agree_items hfilled os (id + 1) (fuel - 1) (id :: active) hsound h.tail hparts
      (List.forall_mem_cons.mpr ⟨Nat.lt_succ_self id, fun a ha => Nat.lt_succ_of_lt (hactive a ha)⟩)
        (by omega)
    rw [nodeBody, hnode] at hbody
    rw [hleft, value]
    exact ⟨nofun, nofun, (sharedTree_body hbody hactive hfuel .list).trans (Tree.agree_list hitems)⟩
  | .level es, id, fuel, active => by
    intro hsound h hmet hactive hfuel
    have hnode : nodeAt s.nodes id = .mapping .map (entryIds (id + 1) es) := h.head.1
    obtain ⟨hbody, hparts⟩ := hfilled id (hmet (by rw [hnode]; rfl))
    rw [nodeParts, hnode] at hparts
    have hleft : nodeValue s.nodes id = .shared .dict id := by rw [nodeValue, hnode]
    have hentries := agree_entries hfilled es (id + 1) (fuel - 1) (id :: active) []
      [] hsound h.tail hparts
      (List.forall_mem_cons.mpr ⟨Nat.lt_succ_self id, fun a ha => Nat.lt_succ_of_lt (hactive a ha)⟩)
        (by omega) .nil
    rw [nodeBody, hnode] at hbody
    rw [hleft, value]
    exact ⟨nofun, nofun,
      (sharedTree_body hbody hactive hfuel .dict).trans (Tree.agree_dict hentries)⟩

theorem agree_items (hfilled : ∀ id ∈ s.met, s.Filled id) : (os : List Outline) → (id fuel : Nat) →
    (active : List Nat) → SoundItems os → Holds s.nodes id (itemNodes id os) →
    (∀ c ∈ itemIds id os, (nodeAt s.nodes c).isContainer = true → c ∈ s.met) →
    (∀ a ∈ active, a < id) →
    s.bodies.size < fuel + id →
    List.Forall₂ (Tree.Agree (Document.sharedTree s.bodies fuel active) follow)
      ((itemIds id os).map (nodeValue s.nodes)) (itemValues os)
  | [], _, _, _ => fun _ _ _ _ _ => .nil
  | o :: os, id, fuel, active => by
    intro hsound h hmet hactive hfuel
    obtain ⟨hfirst, hothers⟩ := holds_items h
    obtain ⟨hmetFirst, hmetOthers⟩ := List.forall_mem_cons.mp hmet
    exact .cons (agree_node hfilled o id fuel active hsound.1 hfirst hmetFirst hactive hfuel)
      (agree_items hfilled os (id + o.size) fuel active hsound.2 hothers hmetOthers
        (fun a ha => Nat.lt_add_right _ (hactive a ha)) (by omega))

theorem agree_entries (hfilled : ∀ id ∈ s.met, s.Filled id) : (es : List (KeyOutline × Outline)) →
    (id fuel : Nat) →
    (active : List Nat) → (done done' : List (Value × Value)) → SoundEntries es →
    Holds s.nodes id (entryNodes id es) →
    (∀ c ∈ (entryIds id es).map (·.2), (nodeAt s.nodes c).isContainer = true → c ∈ s.met) →
    (∀ a ∈ active, a < id) →
    s.bodies.size < fuel + id →
    Tree.AgreeEntries (Document.sharedTree s.bodies fuel active) follow done done' →
    Tree.AgreeEntries (Document.sharedTree s.bodies fuel active) follow
      (entriesBody s.nodes (entryIds id es) done) (entryValues es done')
  | [], _, _, _, _, _ => fun _ _ _ _ _ hdone => hdone
  | (k, o) :: es, id, fuel, active, done, done' => by
    intro hsound h hmet hactive hfuel hdone
    obtain ⟨hkey, hfirst, hothers⟩ := holds_entries h
    obtain ⟨hmetFirst, hmetOthers⟩ := List.forall_mem_cons.mp hmet
    have htext : nodeValue s.nodes id = .text (Text.ofList k.text) := by
      rw [nodeValue, hkey, scalarNode, hsound.1]
      rfl
    have hvalue := agree_node hfilled o (id + 1) fuel active hsound.2.1 hfirst hmetFirst
      (fun a ha => Nat.lt_succ_of_lt (hactive a ha)) (by omega)
    rw [entryIds, entriesBody, entryValues, htext]
    exact agree_entries hfilled es (id + 1 + o.size) fuel active _ _ hsound.2.2 hothers hmetOthers
      (fun a ha => Nat.lt_add_right _ (Nat.lt_succ_of_lt (hactive a ha))) (by omega)
        (hdone.put _ _ hvalue)

end

end

end Outline

/-! ## The whole document -/

/-- Before anything is filled, only the root may have been met. -/
theorem Assembly.filling_root (nodes : Array Node) :
    let s := note ⟨nodes, Array.replicate nodes.size .null, [], []⟩ 0
    s.Filling ∧ s.nodes = nodes ∧ s.pending.length = s.met.length ∧
      ((nodeAt nodes 0).isContainer = true → 0 ∈ s.met) := by
  intro s
  by_cases hcontainer : (nodeAt nodes 0).isContainer = true
  · have hs : s = ⟨nodes, Array.replicate nodes.size .null, [0], [0]⟩ := if_pos hcontainer
    rw [hs]
    refine ⟨⟨Array.size_replicate, List.nodup_singleton 0, ?_, List.nodup_singleton 0,
      fun _ h => h, ?_⟩, rfl, rfl, fun _ => List.mem_singleton_self 0⟩
    · exact List.forall_mem_singleton.mpr hcontainer
    · exact fun id hmet hdone => absurd hmet hdone
  · have hs : s = ⟨nodes, Array.replicate nodes.size .null, [], []⟩ := if_neg hcontainer
    rw [hs]
    exact ⟨⟨Array.size_replicate, List.nodup_nil, List.forall_mem_nil _, List.nodup_nil,
      List.forall_mem_nil _, List.forall_mem_nil _⟩, rfl, rfl, fun h => absurd h hcontainer⟩

/-- A document whose tokens are those of an outline makes the tree of the value of the outline. -/
theorem read_outline {o : Outline} {cs : List CodePoint} {ends : List Token}
    (htokens : tokens cs = some (o.tokens false ++ ends)) (hends : Growth.dropEnds ends = [.finish])
    (hdepth : o.depth ≤ maxNesting) (hsound : o.Sound) :
    ∃ d, read cs = .ok d ∧ d.root ≠ .null ∧ o.value ≠ .null ∧ d.toTree =
      (Document.ofValue o.value).toTree := by
  have hnodes := Outline.nodesOf_tokens hdepth hends
  have plain := Outline.plainNodes hsound
  generalize hns : (o.nodes 0).toArray = nodes at hnodes plain
  have hholds : Holds nodes 0 (o.nodes 0) := hns ▸ o.holds_root
  generalize hstart : (⟨nodes, Array.replicate nodes.size .null, [], []⟩ : Assembly) = start
  have hvalue := Assembly.value_plain (s := start) (by rw [← hstart]; exact plain) 0
  obtain ⟨hfilling, hsame, hcount, hroot⟩ := Assembly.filling_root nodes
  rw [hstart] at hfilling hsame hcount hroot
  have hfuel : (start.note 0).nodes.size + (start.note 0).pending.length <
      nodes.size + 1 + (start.note 0).met.length := by
    rw [hsame]
    omega
  obtain ⟨s, hfill, hkept, hmet, hfilled⟩ := hfilling.fill (by rw [hsame]; exact plain) hfuel
  have hfirst : start.nodes = nodes := by rw [← hstart]
  rw [hfirst] at hvalue
  rw [hsame] at hkept
  subst hkept
  have hagree : Tree.Agree (Document.sharedTree s.bodies (s.bodies.size + 1) [])
      (Document.sharedTree #[] 1 [])
      (nodeValue s.nodes 0) o.value :=
    Outline.agree_node hfilled o 0 (s.bodies.size + 1) [] hsound hholds (fun h => hmet 0 (hroot h))
      (List.forall_mem_nil _) (Nat.lt_succ_self _)
  refine ⟨⟨s.bodies, nodeValue s.nodes 0⟩, ?_, hagree.left, hagree.right, hagree.same⟩
  simp only [read, htokens, hnodes, orMalformed, bind, Except.bind, hstart, hvalue, hfill]
  rfl

end Yaml

end Grove
