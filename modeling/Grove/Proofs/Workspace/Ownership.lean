import Grove.Proofs.Store.Clearing
import Grove.Proofs.Workspace.Run

/-!
# Exclusive ownership

In every workspace that a run reaches, no node is below itself and no node is in two slots. Going
down from a node therefore ends, and the functions that do so keep to the plain equations of their
recursion at every node, whatever bound they are given beyond the number of nodes.
-/
namespace Grove

open Relation

namespace Store

variable {s : Store}

/-- The walk from a node, told by the walks from its children. -/
theorem Forest.walkFrom_step (h : s.Forest) (start : Text) (id : Nat) :
    s.walkFrom s.nodes.size start id = (s.node id).items.flatMap fun (segment, child) =>
      let path := extendDotted start segment
      (path, child) :: s.walkFrom s.nodes.size path child := by
  rw [h.walkFrom_eq (e := s.nodes.size + 1) start id (by omega) (by omega)]
  rfl

end Store

namespace Workspace

/-- The nodes of a reached workspace are a forest: none is below itself, and none is a child in two
places. There is no endless way down, so conversion to plain values, walking and clearing end at
every node: each is the solution of its recursion over the children. -/
theorem exclusive_ownership {w : Workspace} (h : w.Reached) :
    (∀ id, ¬ w.store.Below id id) ∧
    (∀ p q i j c : Nat, (w.store.node p).children[i]? = some c →
      (w.store.node q).children[j]? = some c → p = q ∧ i = j) ∧
    (∀ id, Acc (fun c p => w.store.Child p c) id) ∧
    (∀ id, w.store.tree id = (w.store.node id).tree w.store.tree) ∧
    (∀ id start, w.store.walkFrom w.store.nodes.size start id =
      (w.store.node id).items.flatMap fun (segment, child) =>
        let path := Store.extendDotted start segment
        (path, child) :: w.store.walkFrom w.store.nodes.size path child) ∧
    (∀ id other, (w.store.Within id other →
      (w.store.clear id).node other = (w.store.node other).emptied) ∧
      (¬ w.store.Within id other → (w.store.clear id).node other = w.store.node other)) := by
  have forest := h.sound.forest
  refine ⟨?_, ?_, forest.acc, forest.tree_eq, ?_, ?_⟩
  · intro id hbelow
    exact Nat.lt_irrefl id (forest.lt_of_below hbelow)
  · intro p q i j c hi hj
    have hpq : p = q := forest.owner (List.mem_of_getElem? hi) (List.mem_of_getElem? hj)
    subst hpq
    obtain ⟨hlt, -⟩ := List.getElem?_eq_some_iff.mp hi
    exact ⟨rfl, (List.getElem?_inj hlt (forest.once p)).mp (hi.trans hj.symm)⟩
  · intro id start
    exact forest.walkFrom_step start id
  · intro id other
    rw [Store.node_clear]
    exact ⟨fun hin => if_pos (forest.mem_reach_iff.mpr hin),
      fun hout => if_neg (mt forest.mem_reach_iff.mp hout)⟩

/-- A list that holds one empty list twice becomes a list of two nodes of their own. -/
theorem exclusive_ownership_sharing :
    let d : Document := ⟨#[.list []], .list [.shared .list 0, .shared .list 0]⟩
    let w := (fresh .empty).after (.convert d)
    w.Reached ∧ (w.store.node 0).children = [1, 2] ∧ ¬ w.store.Below 0 0 := by
  have reached : ((fresh .empty).after
      (.convert ⟨#[.list []], .list [.shared .list 0, .shared .list 0]⟩)).Reached :=
    .step (.fresh .empty) _ trivial
  exact ⟨reached, by decide, (exclusive_ownership reached).1 0⟩

end Workspace

end Grove
