import Grove.Proofs.Tree.Update
import Grove.Proofs.Workspace.Run

/-!
# Writing through handles

Every write in every reached workspace, through whatever handle of a node or an owner, is a pure
update of the trees that nodes hold: at the typed address of the slot for each node that the slot
lies below, and none for the others. A write that fails changes nothing.
-/
namespace Grove.Workspace

/-- A write either leaves the workspace as it is, or it changes one slot of one node `parent`, which
the address designates from the root at the start. Then every node that was there keeps its kind,
its payload and its slots but that one; the new node holds the tree of the content; and each node
`r` holds afterwards what it held, with that tree put at the typed address of `parent` below `r` if
there is one. -/
theorem put_refines_update {w : Workspace} (h : w.Reached) {start : Start} (known : w.Knows start)
    (address : Address) (content : Content) :
    ((∀ child w', w.put start address content ≠ .ok (some (child, w'))) →
      w.after (.put start address content) = w) ∧
    ∀ (child : Nat) (w' : Workspace), w.put start address content = .ok (some (child, w')) →
      w.after (.put start address content) = w' ∧
      ∃ root t parent slot, w.root start = some root ∧ content.tree = .ok t ∧
        w.store.Designates root address parent slot ∧ parent < w.store.nodes.size ∧
        (∀ id : Nat, id < w.store.nodes.size → id ≠ parent → w'.store.node id = w.store.node id) ∧
        (w'.store.node parent).kind = (w.store.node parent).kind ∧
        (w'.store.node parent).slot? ((w.store.node parent).target slot) = some child ∧
        (∀ seg, seg ≠ (w.store.node parent).target slot →
          (w'.store.node parent).slot? seg = (w.store.node parent).slot? seg) ∧
        w.store.nodes.size ≤ child ∧ w'.store.tree child = t ∧
        (∀ r < w.store.nodes.size, ∀ a, w.store.Leads r a parent →
          w'.store.tree r = (w.store.tree r).alter (Tree.place slot t) a) ∧
        (∀ r < w.store.nodes.size, (∀ a, ¬ w.store.Leads r a parent) →
          w'.store.tree r = w.store.tree r) := by
  have sound := h.sound
  constructor
  · intro failed
    show w.settled (w.put start address content) = w
    unfold settled
    split
    · next child w' hput => exact absurd hput (failed child w')
    · rfl
  · intro child w' hput
    refine ⟨by simp only [after, settled, hput], ?_⟩
    obtain ⟨root, t, store, hroot, htree, hins, rfl⟩ := put_eq_some_iff.mp hput
    obtain ⟨parent, slot, hdes, hnew, hholds, g⟩ :=
      sound.forest.grafted_insert (sound.root_lt known hroot) hins
    refine ⟨root, t, parent, slot, hroot, htree, hdes, g.inside, fun id => g.kept, g.placed.kind_eq,
      g.placed.slot?_target, fun seg => g.placed.slot?_of_ne, hnew, hholds, ?_, ?_⟩
    · intro r hr a leads
      rw [g.tree_of_leads leads sound.fits hr, hholds]
    · intro r hr apart
      refine g.tree_of_not_within hr fun hwithin => ?_
      obtain ⟨a, leads⟩ := Store.exists_leads hwithin
      exact apart a leads

/-- A level appended through the handle of a list that is itself inside another list. -/
theorem put_refines_update_view :
    let w := ((fresh .empty).after (.make .emptyList)).after (.put (.node 0) .omitted .emptyList)
    w.Reached ∧ w.Knows (.node 1) ∧ ∃ w', w.put (.node 1) .omitted .emptyLevel =
      .ok (some (2, w')) ∧
      w'.store.tree 0 = (w.store.tree 0).alter (Tree.place none (.level [])) [.index 0] := by
  intro w
  have reached : w.Reached := .step (.step (.fresh .empty) (.make .emptyList) trivial) _
    (show 0 < 1 from Nat.one_pos)
  have known : w.Knows (.node 1) := show 1 < 2 from Nat.one_lt_two
  refine ⟨reached, known, _, rfl, ?_⟩
  obtain ⟨-, root, t, parent, slot, hroot, htree, hdes, -, -, -, -, -, -, -, below, -⟩ :=
    (put_refines_update reached known .omitted .emptyLevel).2 2 _ rfl
  cases hroot
  cases htree
  cases hdes with
  | omitted => exact below 0 (by decide) _ (.down (c := 1) (List.mem_singleton.mpr rfl) (.here 1))
  | path given => exact absurd rfl given

end Grove.Workspace
