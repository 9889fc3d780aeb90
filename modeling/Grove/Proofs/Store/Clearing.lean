import Grove.Proofs.Tree.Update

/-!
# Clearing

Clearing a node empties the node and everything below it, and no other node. It comes to the same to
clear the children one after the other, each in the store that the ones before it have left, and to
empty the node last: no two children have a node below them in common. A tree above the node is
emptied at the typed address of the node.
-/
namespace Grove

open Relation

def Tree.emptied : Tree → Tree
  | .list _ => .list []
  | .level _ => .level []
  | t => t

theorem Node.tree_emptied (held held' : NodeId → Tree) (n : Node) :
    n.emptied.tree held' = (n.tree held).emptied := by
  cases n <;> rfl

theorem Node.emptied_of_isScalar {n : Node} (h : n.kind.isScalar = true) : n.emptied = n := by
  cases n with
  | list | level => cases h
  | _ => rfl

theorem Node.children_of_isScalar {n : Node} (h : n.kind.isScalar = true) : n.children = [] := by
  cases n with
  | list | level => cases h
  | _ => rfl

namespace Store

variable {s s' : Store}

/-- A store is what its nodes are. -/
theorem eq_of_node_eq (size : s'.nodes.size = s.nodes.size)
    (same : ∀ id, s'.node id = s.node id) : s' = s := by
  obtain ⟨nodes⟩ := s
  obtain ⟨nodes'⟩ := s'
  congr 1
  refine Array.ext size fun i h h' => ?_
  have hnode := same i
  simp only [node, Array.getD_eq_getD_getElem?, Array.getElem?_eq_getElem h,
    Array.getElem?_eq_getElem h'] at hnode
  exact hnode

namespace Forest

variable (h : s.Forest)

include h

/-! ### What is reached -/

theorem reach_step (id : Nat) : s.reach id = id :: (s.node id).children.flatMap s.reach := by
  have hsucc : s.reach id = s.reachFrom (s.nodes.size + 1) id :=
    h.reachFrom_eq id (by omega) (by omega)
  rw [hsucc]
  rfl

/-- What is reached from a node is the node and everything below it. -/
theorem mem_reach_iff {id other : Nat} : other ∈ s.reach id ↔ s.Within id other := by
  induction id using h.induction with
  | step id ih =>
    rw [h.reach_step, List.mem_cons, List.mem_flatMap]
    constructor
    · rintro (rfl | ⟨c, hc, hother⟩)
      · exact .refl
      · exact ReflTransGen.head hc ((ih c hc).mp hother)
    · intro hwithin
      rcases ReflTransGen.cases_head hwithin with rfl | ⟨c, hc, htail⟩
      · exact Or.inl rfl
      · exact Or.inr ⟨c, hc, (ih c hc).mpr htail⟩

theorem reach_congr (h' : s'.Forest) {id : Nat} (same : ∀ c, s.Within id c → s'.node c = s.node c) :
    s'.reach id = s.reach id := by
  induction id using h.induction with
  | step id ih =>
    rw [h.reach_step, h'.reach_step, same id .refl]
    congr 1
    apply List.flatMap_congr
    intro c hc
    exact ih c hc fun e he => same e (ReflTransGen.head hc he)

/-! ### Which nodes are emptied -/

theorem node_clear_of_within {id other : Nat} (hin : s.Within id other) :
    (s.clear id).node other = (s.node other).emptied := by
  rw [node_clear, if_pos (h.mem_reach_iff.mpr hin)]

theorem node_clear_of_not_within {id other : Nat} (hout : ¬ s.Within id other) :
    (s.clear id).node other = s.node other := by
  rw [node_clear, if_neg (mt h.mem_reach_iff.mp hout)]

/-- A node stays as it is while one of its children is cleared. -/
theorem node_clear_child {id c : Nat} (hc : s.Child id c) : (s.clear c).node id = s.node id := by
  apply h.node_clear_of_not_within
  intro hwithin
  have hle := h.le_of_within hwithin
  have hlt := (h.after hc).1
  omega

theorem reach_clear_sibling {id c d : Nat} (hc : s.Child id c) (hd : s.Child id d) (hne : c ≠ d) :
    (s.clear c).reach d = s.reach d := by
  apply h.reach_congr (h.clear c)
  intro e he
  apply h.node_clear_of_not_within
  exact fun hce => hne (h.eq_of_within hc hd hce he)

end Forest

theorem size_foldl_clear (ids : List Nat) (s : Store) :
    (ids.foldl clear s).nodes.size = s.nodes.size := by
  induction ids generalizing s with
  | nil => rfl
  | cons id ids ih => rw [List.foldl_cons, ih, size_clear]

/-- Clearing children one after the other empties what was reached from them before the first one
was cleared. -/
theorem Forest.node_foldl_clear (h : s.Forest) {id : Nat} {cs : List Nat}
    (owned : ∀ c ∈ cs, s.Child id c) (once : cs.Nodup) (other : Nat) :
    (cs.foldl Store.clear s).node other =
      if other ∈ cs.flatMap s.reach then (s.node other).emptied else s.node other := by
  induction cs generalizing s with
  | nil => rfl
  | cons c cs ih =>
    obtain ⟨hc, hcs⟩ := List.forall_mem_cons.mp owned
    obtain ⟨hnew, once⟩ := List.nodup_cons.mp once
    have owned' : ∀ d ∈ cs, (s.clear c).Child id d := by
      intro d hd
      rw [Child, h.node_clear_child hc]
      exact hcs d hd
    have hreach : cs.flatMap (s.clear c).reach = cs.flatMap s.reach := by
      apply List.flatMap_congr
      intro d hd
      exact h.reach_clear_sibling hc (hcs d hd) fun heq => hnew (heq ▸ hd)
    rw [List.foldl_cons, ih (h.clear c) owned' once, hreach, node_clear, List.flatMap_cons]
    by_cases hfirst : other ∈ s.reach c
    · simp [hfirst, emptied_emptied]
    · simp [hfirst]

namespace Forest

variable (h : s.Forest)

include h

/-- Clearing a node is clearing its children, one after the other, and then emptying the node. -/
theorem clear_step (id : Nat) :
    s.clear id = ((s.node id).children.foldl Store.clear s).write id (s.node id).emptied := by
  have hsize := size_foldl_clear (s.node id).children s
  apply eq_of_node_eq
  · rw [size_clear, size_write, hsize]
  · intro other
    by_cases hid : id < s.nodes.size
    · rw [node_write _ (hsize.symm ▸ hid), node_clear, h.reach_step]
      by_cases heq : other = id
      · simp [heq]
      · rw [if_neg heq, h.node_foldl_clear (fun _ hc => hc) (h.once id)]
        simp [heq]
    · have hout : s.node id = .level [] := node_of_size_le (Nat.le_of_not_lt hid)
      have hchildren : (s.node id).children = [] := by
        rw [hout]
        rfl
      rw [hchildren, List.foldl_nil, write_of_size_le (Nat.le_of_not_lt hid), node_clear,
        h.reach_step, hchildren]
      by_cases heq : other = id
      · simp [heq, hout, Node.emptied]
      · simp [heq]

/-- A scalar has nothing to clear. -/
theorem clear_of_isScalar {id : Nat} (hscalar : (s.node id).kind.isScalar = true) :
    s.clear id = s := by
  apply eq_of_node_eq (size_clear s id)
  intro other
  rw [node_clear, h.reach_step, Node.children_of_isScalar hscalar]
  by_cases heq : other = id
  · simp [heq, Node.emptied_of_isScalar hscalar]
  · simp [heq]

/-! ### Which trees change -/

theorem tree_clear_of_within {id r : Nat} (hin : s.Within id r) :
    (s.clear id).tree r = (s.tree r).emptied := by
  rw [(h.clear id).tree_eq, h.tree_eq r, h.node_clear_of_within hin]
  exact Node.tree_emptied _ _ _

/-- A node that has no node below it in common with the cleared one holds what it held. -/
theorem tree_clear_of_apart {id r : Nat} (above : ¬ s.Within r id) (below : ¬ s.Within id r) :
    (s.clear id).tree r = s.tree r := by
  apply h.tree_congr (h.clear id)
  intro c hc
  apply h.node_clear_of_not_within
  intro hwithin
  rcases h.within_or_within hc hwithin with hin | hin
  · exact above hin
  · exact below hin

/-- A node from which a typed address leads to the cleared one holds what it held, emptied there. -/
theorem tree_clear_of_leads (fits : s.Fits) {id r : Nat} {a : List Segment}
    (leads : s.Leads r a id) :
    (s.clear id).tree r = (s.tree r).alter Tree.emptied a := by
  induction leads with
  | here id => exact h.tree_clear_of_within .refl
  | @down r seg c rest id slot tail ih =>
    have hc : s.Child r c := Node.mem_children_of_mem_items slot
    have hlt := (h.after hc).1
    have hle := h.le_of_within tail.within
    have hsame : (s.clear id).node r = s.node r := by
      apply h.node_clear_of_not_within
      intro hwithin
      have := h.le_of_within hwithin
      omega
    rw [(h.clear id).tree_eq, h.tree_eq r, hsame]
    refine Node.tree_alter (h.once r) (fits r) slot ih ?_
    intro d hd hdc
    apply h.tree_congr (h.clear id)
    intro e he
    apply h.node_clear_of_not_within
    exact fun hin => hdc (h.eq_of_within hd hc he (tail.within.trans hin))

end Forest

end Store

end Grove
