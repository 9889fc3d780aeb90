import Grove.Proofs.Store.Change
import Grove.Proofs.Store.Limits

/-!
# Updates of trees at typed addresses

A pure update changes one subtree, found by a typed address, and leaves the rest of the tree as it
is. What a node holds changes by such an update when one of its descendants does.
-/
namespace Grove

namespace Tree

/-- A container with a tree put into a slot: in place of what is there, else behind the last. -/
def place (slot : Option Segment) (new : Tree) : Tree → Tree
  | .list ts =>
    match slot with
    | some (.index i) => if i < ts.length then .list (ts.set i new) else .list (ts ++ [new])
    | _ => .list (ts ++ [new])
  | .level es =>
    match slot with
    | some (.key name) => .level (Entries.put name new es)
    | _ => .level es
  | t => t

def alter (f : Tree → Tree) : List Segment → Tree → Tree
  | [], t => f t
  | .index i :: a, .list ts => .list (ts.modify i (alter f a))
  | .key k :: a, .level es => .level (es.map fun (l, t) => (l, if l = k then alter f a t else t))
  | _ :: _, t => t

end Tree

namespace Node

/-- The child in a slot, an empty key included. -/
def slot? : Node → Segment → Option NodeId
  | .list ids, .index i => ids[i]?
  | .level entries, .key name => Entries.get? name entries
  | _, _ => none

/-- The slot that a child goes to: the one that is named, else the one behind the last child. -/
def target (n : Node) : Option Segment → Segment
  | some seg => seg
  | none => .index n.children.length

variable {n n' : Node} {slot : Option Segment} {child : NodeId}

theorem getElem?_of_mem_items {ids : List NodeId} {seg : Segment} {c : Nat}
    (h : (seg, c) ∈ (Node.list ids).items) : ∃ i, seg = .index i ∧ ids[i]? = some c := by
  obtain ⟨⟨d, i⟩, hmem, heq⟩ := List.mem_map.mp h
  cases heq
  exact ⟨i, rfl, List.mem_zipIdx_iff_getElem?.mp hmem⟩

theorem mem_of_mem_items {entries : List (Text × NodeId)} {seg : Segment} {c : Nat}
    (h : (seg, c) ∈ (Node.level entries).items) : ∃ k, seg = .key k ∧ (k, c) ∈ entries := by
  obtain ⟨⟨k, d⟩, hmem, heq⟩ := List.mem_map.mp h
  cases heq
  exact ⟨k, rfl, hmem⟩

/-- The slot that is written holds the new child. -/
theorem Placed.slot?_target (placed : Placed child slot n n') :
    n'.slot? (n.target slot) = some child := by
  cases placed with
  | behind ids => simp [target, slot?, children]
  | last ids => simp [target, slot?]
  | position inside => simp [target, slot?, inside]
  | key named short entries => exact Entries.get?_put_self _ _ _

/-- No other slot changes. -/
theorem Placed.slot?_of_ne (placed : Placed child slot n n') {seg : Segment}
    (h : seg ≠ n.target slot) : n'.slot? seg = n.slot? seg := by
  have behind : ∀ (ids : List NodeId) {seg : Segment}, seg ≠ .index ids.length →
      (Node.list (ids ++ [child])).slot? seg = (Node.list ids).slot? seg := by
    intro ids seg h
    cases seg with
    | key name => rfl
    | index i =>
      have hi : i ≠ ids.length := fun heq => h (heq ▸ rfl)
      simp only [slot?, List.getElem?_append]
      split
      · rfl
      · rw [List.getElem?_eq_none (by simp only [List.length_singleton]; omega),
          List.getElem?_eq_none (by omega)]
  cases placed with
  | behind ids => exact behind ids h
  | last ids => exact behind ids h
  | @position ids j inside =>
    cases seg with
    | key name => rfl
    | index i =>
      have hi : j ≠ i := fun heq => h (heq ▸ rfl)
      exact List.getElem?_set_ne hi
  | key named short entries =>
    cases seg with
    | index i => rfl
    | key k =>
      have hk : k ≠ _ := fun heq => h (heq ▸ rfl)
      exact Entries.get?_put_of_ne hk _ _

/-- What a node holds after a child was put into a slot is what it held with the child's tree put
there. -/
theorem Placed.tree_eq (placed : Placed child slot n n') {held held' : NodeId → Tree}
    (same : ∀ c ∈ n.children, held' c = held c) :
    n'.tree held' = Tree.place slot (held' child) (n.tree held) := by
  rw [← tree_congr same]
  cases placed with
  | behind ids => simp [tree, Tree.place]
  | last ids => simp [tree, Tree.place]
  | position inside => simp [tree, Tree.place, inside, List.map_set]
  | key named short entries =>
    simp only [tree, Tree.place, Tree.level.injEq]
    exact (Entries.put_map held' _ child entries).symm

/-- If one child changes what it holds, the node changes what it holds below the slot of that
child. -/
theorem tree_alter {held held' : NodeId → Tree} {f : Tree → Tree} {a : List Segment} {seg : Segment}
    {c : Nat} (once : n.children.Nodup) (fits : n.Fits) (hslot : (seg, c) ∈ n.items)
    (changed : held' c = (held c).alter f a)
    (same : ∀ d ∈ n.children, d ≠ c → held' d = held d) :
    n.tree held' = (n.tree held).alter f (seg :: a) := by
  cases n with
  | list ids =>
    obtain ⟨i, rfl, hi⟩ := getElem?_of_mem_items hslot
    simp only [tree, Tree.alter, Tree.list.injEq]
    apply List.ext_getElem?
    intro j
    rw [List.getElem?_map, List.getElem?_modify, List.getElem?_map]
    cases hj : ids[j]? with
    | none => rfl
    | some d =>
      by_cases hij : i = j
      · subst hij
        have hdc : c = d := Option.some.inj (hi.symm.trans hj)
        subst hdc
        simp [changed]
      · have hdc : d ≠ c := by
          rintro rfl
          obtain ⟨hlt, -⟩ := List.getElem?_eq_some_iff.mp hi
          exact hij ((List.getElem?_inj hlt once).mp (hi.trans hj.symm))
        simp [hij, same d (List.mem_of_getElem? hj) hdc]
  | level entries =>
    obtain ⟨k, rfl, hk⟩ := mem_of_mem_items hslot
    simp only [tree, Tree.alter, Tree.level.injEq, List.map_map]
    apply List.map_congr_left
    rintro ⟨l, d⟩ hd
    by_cases hl : l = k
    · subst hl
      have hdc : d = c := by
        have h1 := (Entries.get?_eq_some_iff fits.1).mpr hd
        have h2 := (Entries.get?_eq_some_iff fits.1).mpr hk
        exact Option.some.inj (h1.symm.trans h2)
      subst hdc
      simp [changed]
    · have hdc : d ≠ c := by
        rintro rfl
        exact hl (congrArg Prod.fst (List.inj_on_of_nodup_map once hd hk rfl))
      simp [hl, same d (List.mem_map_of_mem hd) hdc]
  | _ => cases hslot

end Node

namespace Store

/-- One slot of one node got a new child, and the nodes that were there are otherwise the same. -/
structure Grafted (s s' : Store) (parent : Nat) (slot : Option Segment) (child : Nat) : Prop where
  before : s.Forest
  after : s'.Forest
  inside : parent < s.nodes.size
  placed : Node.Placed child slot (s.node parent) (s'.node parent)
  kept : ∀ {id : Nat}, id < s.nodes.size → id ≠ parent → s'.node id = s.node id

variable {s s' : Store} {parent child : Nat} {slot : Option Segment}

/-- Putting a tree at an address changes the slot that the address designates. -/
theorem Forest.grafted_insert (h : s.Forest) {id : Nat} (hid : id < s.nodes.size)
    {address : Address} {t : Tree}
    (hs : s.insert id address t = .ok (some (child, s'))) : ∃ parent slot,
      s.Designates id address parent slot ∧ s.nodes.size ≤ child ∧ s'.tree child = t ∧
        Grafted s s' parent slot child := by
  have forest' := h.insert hid hs
  obtain ⟨parent, slot, n, hslot, rfl, placed, rfl⟩ := insert_eq_some_iff.mp hs
  have hdes := slot_eq_ok_iff.mp hslot
  have hp : parent < s.nodes.size := h.lt_size_of_within hid hdes.within
  have hself : ((s.plant t).2.write parent n).node parent = n := by
    apply node_write_self
    rw [size_plant]
    exact Nat.lt_of_lt_of_le hp (Nat.le_add_right _ _)
  refine ⟨parent, slot, hdes, Nat.le_refl _, ?_, h, forest', hp, by rwa [hself], ?_⟩
  · refine ((h.plant t).tree_congr forest' fun c hc => ?_).trans (h.tree_plant t)
    exact node_write_of_ne _ (Nat.ne_of_gt (Nat.lt_of_lt_of_le hp ((h.plant t).le_of_within hc))) n
  · intro c hc hne
    rw [node_write_of_ne _ hne, node_plant_of_lt s t hc]

namespace Grafted

variable (g : Grafted s s' parent slot child)

include g

/-- A node that the changed one is not within holds what it held. -/
theorem tree_of_not_within {r : Nat} (hr : r < s.nodes.size) (apart : ¬ s.Within r parent) :
    s'.tree r = s.tree r := by
  apply g.before.tree_congr g.after
  intro c hc
  refine g.kept (g.before.lt_size_of_within hr hc) ?_
  rintro rfl
  exact apart hc

/-- A node from which a typed address leads to the changed one holds what it held with the new tree
put there. -/
theorem tree_of_leads {r : Nat} {a : List Segment} (leads : s.Leads r a parent) (fits : s.Fits)
    (hr : r < s.nodes.size) :
    s'.tree r = (s.tree r).alter (Tree.place slot (s'.tree child)) a := by
  induction leads with
  | here r =>
    rw [g.after.tree_eq, g.before.tree_eq r]
    refine g.placed.tree_eq fun c hc => ?_
    have hlt := g.before.after (show s.Child r c from hc)
    refine g.tree_of_not_within hlt.2 fun hwithin => ?_
    have := g.before.le_of_within hwithin
    omega
  | @down r seg c rest last slot' tail ih =>
    have hc : s.Child r c := Node.mem_children_of_mem_items slot'
    have hlt := g.before.after hc
    have hle := g.before.le_of_within tail.within
    rw [g.after.tree_eq, g.before.tree_eq r, g.kept hr (by omega)]
    refine Node.tree_alter (g.before.once r) (fits r) slot' (ih g hlt.2) ?_
    intro d hd hdc
    refine g.tree_of_not_within (g.before.after (show s.Child r d from hd)).2 fun hwithin => ?_
    exact hdc (g.before.eq_of_within hd hc hwithin tail.within)

end Grafted

end Store

end Grove
