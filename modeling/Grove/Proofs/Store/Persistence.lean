import Grove.Proofs.Store.Change

/-!
# What stays of a node

Changes of a store never take a node away, never change its kind, and never change a scalar. This
holds from one change to the next, and so from any store to any later one.
-/
namespace Grove

namespace Node

/-- What a node may become: a node of its kind, and a scalar only itself. -/
structure Persists (n n' : Node) : Prop where
  kind : n'.kind = n.kind
  scalar : n.kind.isScalar = true → n' = n

theorem Persists.refl (n : Node) : n.Persists n :=
  ⟨rfl, fun _ => rfl⟩

theorem Persists.trans {n n' n'' : Node} (h : n.Persists n') (h' : n'.Persists n'') :
    n.Persists n'' where
  kind := h'.kind.trans h.kind
  scalar := by
    intro hscalar
    rw [h'.scalar (h.kind ▸ hscalar), h.scalar hscalar]

theorem Placed.persists {n n' : Node} {slot : Option Segment} {child : NodeId}
    (h : Placed child slot n n') :
    n.Persists n' := by
  refine ⟨h.kind_eq, fun hscalar => ?_⟩
  cases h <;> cases hscalar

theorem persists_emptied (n : Node) : n.Persists n.emptied := by
  cases n with
  | list | level => exact ⟨rfl, nofun⟩
  | _ => exact .refl _

end Node

namespace Store

/-- Every node of a store is still there in a later one, as far as nodes persist. -/
structure Keeps (s s' : Store) : Prop where
  size : s.nodes.size ≤ s'.nodes.size
  node : ∀ {id : Nat}, id < s.nodes.size → (s.node id).Persists (s'.node id)

variable {s s' : Store}

theorem Keeps.refl (s : Store) : s.Keeps s :=
  ⟨Nat.le_refl _, fun _ => .refl _⟩

theorem Keeps.trans {s'' : Store} (h : s.Keeps s') (h' : s'.Keeps s'') : s.Keeps s'' where
  size := Nat.le_trans h.size h'.size
  node := fun hid => (h.node hid).trans (h'.node (Nat.lt_of_lt_of_le hid h.size))

theorem keeps_plant (s : Store) (t : Tree) : s.Keeps (s.plant t).2 where
  size := by
    rw [size_plant]
    exact Nat.le_add_right _ _
  node := by
    intro id hid
    rw [node_plant_of_lt s t hid]
    exact .refl _

theorem keeps_write {id : Nat} {n : Node} (h : (s.node id).Persists n) :
    s.Keeps (s.write id n) where
  size := Nat.le_of_eq (size_write s id n).symm
  node := by
    intro other hother
    by_cases heq : other = id
    · subst heq
      rwa [node_write_self s other n hother]
    · rw [node_write_of_ne s heq]
      exact .refl _

theorem Forest.keeps_insert (h : s.Forest) {id child : Nat} (hid : id < s.nodes.size)
    {address : Address} {t : Tree}
    (hs : s.insert id address t = .ok (some (child, s'))) : s.Keeps s' := by
  obtain ⟨parent, slot, n, hslot, -, placed, rfl⟩ := insert_eq_some_iff.mp hs
  have hparent : parent < s.nodes.size := h.lt_size_of_within hid (slot_eq_ok_iff.mp hslot).within
  refine (keeps_plant s t).trans (keeps_write ?_)
  rw [node_plant_of_lt s t hparent]
  exact placed.persists

theorem keeps_clear (s : Store) (id : Nat) : s.Keeps (s.clear id) where
  size := Nat.le_of_eq (size_clear s id).symm
  node := by
    intro other _
    rw [node_clear]
    split
    · exact Node.persists_emptied _
    · exact .refl _

end Store

end Grove
