import Mathlib.Data.List.Infix
import Grove.Proofs.Workspace.Lifetime

/-!
# The order of children

Whatever is put into a container, the keys that it had stay where they were: a new child takes the
place of an old one or goes behind the last. Only clearing takes keys away. So the keys of a
container at one time are the first of its keys at any later time, whether or not it is still part
of the tree it was in, as long as nothing clears it.
-/
namespace Grove

namespace Node

/-- The keys of a level in order, the positions of a list, nothing for a scalar. -/
def keys (n : Node) : List Segment :=
  n.items.map (·.1)

theorem keys_list (ids : List NodeId) :
    (Node.list ids).keys = (List.range ids.length).map Segment.index := by
  rw [keys, items, List.map_map, List.range_eq_range', ← List.zipIdx_map_snd, List.map_map]
  rfl

theorem keys_level (entries : List (Text × NodeId)) :
    (Node.level entries).keys = (Entries.keys entries).map Segment.key := by
  simp [keys, items, Entries.keys, List.map_map, Function.comp_def]

theorem length_keys (n : Node) : n.keys.length = n.children.length := by
  rw [keys, List.length_map, ← map_snd_items, List.length_map]

/-- A child that is put into a slot leaves the keys in order, with at most one more behind them. -/
theorem Placed.keys_isPrefix {n n' : Node} {slot : Option Segment} {child : NodeId}
    (h : Placed child slot n n') :
    n.keys <+: n'.keys := by
  have behind : ∀ ids :
      List NodeId, (Node.list ids).keys <+: (Node.list (ids ++ [child])).keys := by
    intro ids
    rw [keys_list, keys_list, List.length_append, List.length_singleton,
      List.range_succ, List.map_append]
    exact List.prefix_append _ _
  cases h with
  | behind ids => exact behind ids
  | last ids => exact behind ids
  | position inside =>
    rw [keys_list, keys_list, List.length_set]
  | key named short entries =>
    rw [keys_level, keys_level, Entries.keys_put]
    split
    · exact List.prefix_refl _
    · rw [List.map_append]
      exact List.prefix_append _ _

end Node

namespace Store

variable {s s' : Store}

theorem keys_plant (s : Store) (t : Tree) {n : Nat} (hn : n < s.nodes.size) :
    (s.node n).keys <+: ((s.plant t).2.node n).keys := by
  rw [node_plant_of_lt s t hn]

theorem Forest.keys_insert (h : s.Forest) {id child n : Nat} (hid : id < s.nodes.size)
    (hn : n < s.nodes.size) {address : Address} {t : Tree}
    (hs : s.insert id address t = .ok (some (child, s'))) :
    (s.node n).keys <+: (s'.node n).keys := by
  obtain ⟨parent, slot, -, -, -, g⟩ := h.grafted_insert hid hs
  by_cases heq : n = parent
  · subst heq
    exact g.placed.keys_isPrefix
  · rw [g.kept hn heq]

theorem Forest.keys_clear (h : s.Forest) {id n : Nat} (outside : ¬ s.Within id n) :
    (s.node n).keys <+: ((s.clear id).node n).keys := by
  rw [h.node_clear_of_not_within outside]

end Store

namespace Workspace

variable {w w' : Workspace} {n : NodeId}

/-- An operation leaves a node uncleared: it clears no node that this one is within at that time,
and unloads no owner of such a node. -/
def Spares (w : Workspace) (n : NodeId) : Operation → Prop
  | .clear id => ¬ w.store.Within id n
  | .unload id => ∀ root, (w.owner id).root = some root → ¬ w.store.Within root n
  | _ => True

/-- A run leads from one workspace to another without clearing a node on the way. -/
inductive LaterSparing (n : NodeId) : Workspace → Workspace → Prop
  | refl (w : Workspace) : LaterSparing n w w
  | step {w w' : Workspace} (h : LaterSparing n w w') (o : Operation) (allowed : w'.Allows o)
      (spared : w'.Spares n o) : LaterSparing n w (w'.after o)

theorem LaterSparing.later (h : w.LaterSparing n w') : w.Later w' := by
  induction h with
  | refl => exact .refl _
  | step _ o allowed _ ih => exact .step ih o allowed

theorem Spares.outside {o : Operation} (spared : w.Spares n o) {id : NodeId}
    (clears : w.cleared? o = some id) :
    ¬ w.store.Within id n := by
  cases o with
  | clear other =>
    cases clears
    exact spared
  | unload owner => exact spared id clears
  | _ => cases clears

/-- One operation that spares a node leaves its keys in order. -/
theorem Sound.keys_after (h : w.Sound) {o : Operation} (allowed : w.Allows o)
    (spared : w.Spares n o) (hn : n < w.store.nodes.size) :
    (w.store.node n).keys <+: ((w.after o).store.node n).keys := by
  have effect := h.effect allowed
  generalize (w.after o).store = s' at effect ⊢
  cases effect with
  | nothing => exact List.prefix_refl _
  | planted t => exact Store.keys_plant w.store t hn
  | inserted _ known insert => exact h.forest.keys_insert known hn insert
  | cleared clears => exact h.forest.keys_clear (spared.outside clears)

/-- Along a run that never clears a container, the keys that it had first are the first of the keys
that it has at any later time, in their order and at their places; a list never shrinks. This holds
of every node that was there, also of one that was taken out of its tree on the way. -/
theorem order_append_only (reached : w.Reached) (hn : n < w.store.nodes.size)
    (run : w.LaterSparing n w') :
    (w.store.node n).keys <+: (w'.store.node n).keys ∧
      (∀ (i : Nat) (key : Segment), (w.store.node n).keys[i]? = some key →
        (w'.store.node n).keys[i]? = some key) ∧
      (w.store.node n).children.length ≤ (w'.store.node n).children.length := by
  have ordered : (w.store.node n).keys <+: (w'.store.node n).keys := by
    induction run with
    | refl => exact List.prefix_refl _
    | @step w' run o allowed spared ih =>
      have hn' : n < w'.store.nodes.size := Nat.lt_of_lt_of_le hn (run.later.keeps reached).size
      exact ih.trans ((run.later.reached reached).sound.keys_after allowed spared hn')
  refine ⟨ordered, ?_, ?_⟩
  · intro i key hi
    obtain ⟨more, hmore⟩ := ordered
    obtain ⟨hlt, -⟩ := List.getElem?_eq_some_iff.mp hi
    rw [← hmore, List.getElem?_append_left hlt, hi]
  · have hlength := ordered.length_le
    rwa [Node.length_keys, Node.length_keys] at hlength

/-- A list that is replaced in its parent and then gets one more item while the former parent is
cleared. -/
theorem order_append_only_detached :
    let w : Workspace := { fresh .empty with store := ⟨#[.list [1], .list [2], .boolean true]⟩ }
    let emptied : Workspace :=
      { fresh .empty with store := ⟨#[.list [], .list [2], .boolean true, .level []]⟩ }
    let w' := emptied.after (.put (.node 1) .omitted (.boolean (.boolean false)))
    w.Reached ∧ w.LaterSparing 1 w' ∧ w'.store.tree 1 = .list [.boolean true, .boolean false] ∧
      (w.store.node 1).keys = [.index 0] ∧ (w.store.node 1).keys <+: (w'.store.node 1).keys := by
  intro w emptied w'
  let replaced : Workspace :=
    { fresh .empty with store := ⟨#[.list [3], .list [2], .boolean true, .level []]⟩ }
  have reached : w.Reached :=
    .step (.fresh .empty) (.convert (.ofValue (.list [.list [.boolean true]]))) trivial
  have replacing : w.LaterSparing 1 replaced :=
    .step (.refl w) (.put (.node 0) (.text "0") .emptyLevel) (show 0 < 3 by decide) trivial
  have forest := (replacing.later.reached reached).sound.forest
  have spared : ¬ replaced.store.Within 0 1 := by
    rw [← forest.mem_reach_iff]
    decide
  have clearing : w.LaterSparing 1 emptied :=
    .step replacing (.clear 0) (show 0 < 4 by decide) spared
  have run : w.LaterSparing 1 w' :=
    .step clearing (.put (.node 1) _ _) (show 1 < 4 by decide) trivial
  exact ⟨reached, run, rfl, rfl, (order_append_only reached (by decide) run).1⟩

end Workspace

end Grove
