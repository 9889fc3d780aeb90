import Mathlib.Logic.Relation
import Mathlib.Data.List.Nodup
import Grove.Store.Write

/-!
# Stores as forests

Every node is owned by at most one slot of one other node, and a child has a greater handle than its
parent. From this the nodes below a node are finitely deep, so that the bounds on depth in
`Store.unfold`, `Store.walkFrom` and `Store.reachFrom` are never met, and what a node holds can be
told by one equation.
-/
namespace Grove

open Relation

namespace Node

def tree (held : NodeId → Tree) : Node → Tree
  | .number x => .number x
  | .string s => .string s
  | .boolean b => .boolean b
  | .list ids => .list (ids.map held)
  | .level entries => .level (entries.map fun (k, c) => (k, held c))

theorem tree_congr {held held' : NodeId → Tree} {n : Node}
    (h : ∀ c ∈ n.children, held c = held' c) : n.tree held = n.tree held' := by
  cases n with
  | number x => rfl
  | string s => rfl
  | boolean b => rfl
  | list ids =>
    simp only [tree, Tree.list.injEq]
    exact List.map_congr_left h
  | level entries =>
    simp only [tree, Tree.level.injEq]
    apply List.map_congr_left
    intro e he
    have := h e.2 (List.mem_map_of_mem he)
    simp only [this]

/-- The children of a node are the targets of its slots. -/
theorem map_snd_items (n : Node) : n.items.map (·.2) = n.children := by
  cases n with
  | list ids => simp [items, children, List.map_map, Function.comp_def]
  | level entries => simp [items, children, List.map_map, Function.comp_def]
  | _ => rfl

end Node

namespace Store

def Child (s : Store) (p c : Nat) : Prop :=
  c ∈ (s.node p).children

/-- One node is another or below it. -/
abbrev Within (s : Store) : Nat → Nat → Prop :=
  ReflTransGen s.Child

/-- One node is below another. -/
abbrev Below (s : Store) : Nat → Nat → Prop :=
  TransGen s.Child

/-- Exclusive ownership: children come after their parents, and no node is in two slots. -/
structure Forest (s : Store) : Prop where
  after : ∀ {p c : Nat}, s.Child p c → p < c ∧ c < s.nodes.size
  once : ∀ p : Nat, (s.node p).children.Nodup
  owner : ∀ {p q c : Nat}, s.Child p c → s.Child q c → p = q

theorem node_of_size_le {s : Store} {id : Nat} (h : s.nodes.size ≤ id) : s.node id = .level [] := by
  simp [node, Array.getElem?_eq_none h]

theorem forest_empty : Store.empty.Forest where
  after := by intro p c h; simp [Child, node, empty, Node.children] at h
  once := by intro p; simp [node, empty, Node.children]
  owner := by intro p q c h; simp [Child, node, empty, Node.children] at h

namespace Forest

variable {s : Store}

theorem le_of_within (h : s.Forest) {a b : Nat} (hab : s.Within a b) : a ≤ b := by
  induction hab with
  | refl => exact Nat.le_refl a
  | tail _ hbc ih => exact Nat.le_trans ih (Nat.le_of_lt (h.after hbc).1)

theorem lt_of_below (h : s.Forest) {a b : Nat} (hab : s.Below a b) : a < b := by
  induction hab with
  | single hbc => exact (h.after hbc).1
  | tail _ hbc ih => exact Nat.lt_trans ih (h.after hbc).1

theorem lt_size_of_below (h : s.Forest) {a b : Nat} (hab : s.Below a b) : b < s.nodes.size := by
  cases hab with
  | single hbc => exact (h.after hbc).2
  | tail _ hbc => exact (h.after hbc).2

theorem lt_size_of_within (h : s.Forest) {a b : Nat} (ha : a < s.nodes.size) (hab : s.Within a b) :
    b < s.nodes.size := by
  rcases reflTransGen_iff_eq_or_transGen.mp hab with rfl | hab
  · exact ha
  · exact h.lt_size_of_below hab

/-- There is no endless way down. -/
theorem acc (h : s.Forest) (id : Nat) : Acc (fun c p => s.Child p c) id := by
  induction hn : s.nodes.size - id using Nat.strongRecOn generalizing id with
  | ind n ih =>
    constructor
    intro c hc
    obtain ⟨hlt, hsize⟩ : id < c ∧ c < s.nodes.size := h.after hc
    exact ih (s.nodes.size - c) (by omega) c rfl

theorem induction (h : s.Forest) {P : Nat → Prop}
    (step : ∀ id, (∀ c, s.Child id c → P c) → P id) (id : Nat) : P id := by
  induction h.acc id with
  | intro id _ ih => exact step id ih

/-- Of two nodes with a node below them in common, one is within the other. -/
theorem within_or_within (h : s.Forest) {a b e : Nat} (ha : s.Within a e) (hb : s.Within b e) :
    s.Within a b ∨ s.Within b a := by
  have unique : Relator.RightUnique (Function.swap s.Child) := fun _ _ _ hx hy => h.owner hx hy
  rcases ReflTransGen.total_of_right_unique unique (reflTransGen_swap.mpr ha)
    (reflTransGen_swap.mpr hb) with
    hab | hba
  · exact Or.inr (reflTransGen_swap.mp hab)
  · exact Or.inl (reflTransGen_swap.mp hba)

/-- Two children of a node have no node below them in common. -/
theorem eq_of_within (h : s.Forest) {p c d e : Nat} (hc : s.Child p c) (hd : s.Child p d)
    (hce : s.Within c e) (hde : s.Within d e) : c = d := by
  have apart : ∀ {x y : Nat}, s.Child p x → s.Child p y → s.Within x y → x = y := by
    intro x y hx hy hxy
    rcases ReflTransGen.cases_tail hxy with rfl | ⟨q, hxq, hqy⟩
    · rfl
    · have hqp : q = p := h.owner hqy hy
      have hle := h.le_of_within hxq
      have hlt := (h.after hx).1
      omega
  rcases h.within_or_within hce hde with hcd | hdc
  · exact apart hc hd hcd
  · exact (apart hd hc hdc).symm

/-! ### Depths are never met -/

theorem unfold_succ (s : Store) (depth : Nat) (id : Nat) :
    s.unfold (depth + 1) id = (s.node id).tree (s.unfold depth) := by
  rw [unfold]
  cases s.node id <;> rfl

theorem unfold_eq (h : s.Forest) {d e : Nat} (id : Nat) (hd : s.nodes.size ≤ id + d)
    (he : s.nodes.size ≤ id + e) : s.unfold d id = s.unfold e id := by
  have outside : ∀ depth (id : Nat), s.nodes.size ≤ id → s.unfold depth id = .level [] := by
    intro depth id hs
    cases depth with
    | zero => rfl
    | succ depth => rw [unfold_succ, node_of_size_le hs]; rfl
  induction d generalizing id e with
  | zero => rw [outside 0 id (by omega), outside e id (by omega)]
  | succ d ih =>
    cases e with
    | zero => rw [outside 0 id (by omega), outside (d + 1) id (by omega)]
    | succ e =>
      rw [unfold_succ, unfold_succ]
      apply Node.tree_congr
      intro c hc
      have hlt : id < c := (h.after hc).1
      exact ih c (by omega) (by omega)

/-- What a node holds, told by what its children hold. -/
theorem tree_eq (h : s.Forest) (id : Nat) : s.tree id = (s.node id).tree s.tree := by
  have hsucc : s.tree id = s.unfold (s.nodes.size + 1) id := h.unfold_eq id (by omega) (by omega)
  rw [hsucc, unfold_succ]
  rfl

theorem walkFrom_eq (h : s.Forest) {d e : Nat} (start : Text) (id : Nat)
    (hd : s.nodes.size ≤ id + d) (he : s.nodes.size ≤ id + e) :
    s.walkFrom d start id = s.walkFrom e start id := by
  have outside : ∀ depth start (id : Nat), s.nodes.size ≤ id → s.walkFrom depth start id = [] := by
    intro depth start id hs
    cases depth with
    | zero => rfl
    | succ depth => simp [walkFrom, node_of_size_le hs, Node.items]
  induction d generalizing id e start with
  | zero => rw [outside 0 start id (by omega), outside e start id (by omega)]
  | succ d ih =>
    cases e with
    | zero => rw [outside 0 start id (by omega), outside (d + 1) start id (by omega)]
    | succ e =>
      simp only [walkFrom]
      apply List.flatMap_congr
      intro item hi
      have hc : s.Child id item.2 := by
        rw [Child, ← Node.map_snd_items]
        exact List.mem_map_of_mem hi
      have hlt : id < item.2 := (h.after hc).1
      simp only [ih (extendDotted start item.1) item.2 (e := e) (by omega) (by omega)]

theorem reachFrom_eq (h : s.Forest) {d e : Nat} (id : Nat) (hd : s.nodes.size ≤ id + d)
    (he : s.nodes.size ≤ id + e) : s.reachFrom d id = s.reachFrom e id := by
  have outside : ∀ depth (id : Nat), s.nodes.size ≤ id → s.reachFrom depth id = [id] := by
    intro depth id hs
    cases depth with
    | zero => rfl
    | succ depth => simp [reachFrom, node_of_size_le hs, Node.children]
  induction d generalizing id e with
  | zero => rw [outside 0 id (by omega), outside e id (by omega)]
  | succ d ih =>
    cases e with
    | zero => rw [outside 0 id (by omega), outside (d + 1) id (by omega)]
    | succ e =>
      simp only [reachFrom, List.cons.injEq, true_and]
      apply List.flatMap_congr
      intro c hc
      have hlt : id < c := (h.after hc).1
      exact ih c (by omega) (by omega)

/-- A node holds the same in two stores that agree on the node and on everything below it. -/
theorem tree_congr {s' : Store} (h : s.Forest) (h' : s'.Forest) {id : Nat}
    (same : ∀ c, s.Within id c → s'.node c = s.node c) : s'.tree id = s.tree id := by
  induction id using h.induction with
  | step id ih =>
    rw [h.tree_eq, h'.tree_eq, same id .refl]
    apply Node.tree_congr
    intro c hc
    exact ih c hc fun e he => same e (ReflTransGen.head hc he)

end Forest

end Store

end Grove
