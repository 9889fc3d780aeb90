import Grove.Proofs.Store.Clearing
import Grove.Proofs.Workspace.Run

/-!
# What operations do to the store

An operation leaves the store as it is, adds the nodes of a tree, puts a tree below the node that it
works on, or clears that node. Whatever holds of all stores that come of these four ways holds after
every operation.
-/
namespace Grove.Workspace

variable {w w' : Workspace} {o : Operation} {r : Nat}

def cleared? (w : Workspace) : Operation → Option NodeId
  | .clear id => some id
  | .unload id => (w.owner id).root
  | _ => none

/-- The node that an operation works on: the one that it starts from to put something, or the one
that it empties. -/
def subject? (w : Workspace) : Operation → Option NodeId
  | .put start _ _ => w.root start
  | o => w.cleared? o

theorem subject?_of_cleared? {id : NodeId} (h : w.cleared? o = some id) :
    w.subject? o = some id := by
  cases o with
  | clear | unload => exact h
  | _ => cases h

/-- The stores that an operation may lead to. -/
inductive Effect (w : Workspace) (o : Operation) : Store → Prop
  | nothing : Effect w o w.store
  | planted (t : Tree) : Effect w o (w.store.plant t).2
  | inserted {id child : NodeId} {address : Address} {t : Tree} {s' : Store}
      (subject : w.subject? o = some id)
      (known : id < w.store.nodes.size) (insert : w.store.insert id address t =
        .ok (some (child, s'))) : Effect w o s'
  | cleared {id : NodeId} (clears : w.cleared? o = some id) : Effect w o (w.store.clear id)

theorem effect_grown (o : Operation) (t : Except Error Tree) : w.Effect o (w.grown t).store := by
  cases t with
  | error e => exact .nothing
  | ok t => exact .planted t

theorem effect_keep (o : Operation) (registry : Option RegistryId)
    (loaded : Except Error (Option Tree)) :
    w.Effect o (w.settled (w.keep registry loaded)).store := by
  rcases loaded with e | _ | t
  · exact .nothing
  · exact .nothing
  · exact .planted t

theorem Sound.effect_put (h : w.Sound) {start : Start} (known : w.Knows start) (address : Address)
    (content : Content) :
    w.Effect (.put start address content) (w.settled (w.put start address content)).store := by
  unfold settled
  split
  · next child w' hput =>
    obtain ⟨root, t, s', hroot, -, hs, rfl⟩ := put_eq_some_iff.mp hput
    exact .inserted hroot (h.root_lt known hroot) hs
  · exact .nothing

theorem effect_unload (w : Workspace) (id : OwnerId) :
    w.Effect (.unload id) (w.unload id).store := by
  cases hroot : (w.owner id).root with
  | none =>
    rw [unload_of_root_eq_none hroot]
    exact .nothing
  | some root =>
    rw [unload_of_root hroot]
    exact .cleared hroot

/-- Every operation has one of the four effects. -/
theorem Sound.effect (h : w.Sound) (allowed : w.Allows o) : w.Effect o (w.after o).store := by
  cases o with
  | convert d => exact effect_grown _ d.toTree
  | make content => exact effect_grown _ content.tree
  | own root registry => exact .nothing
  | hold registry => exact .planted (.level [])
  | put start address content => exact h.effect_put allowed address content
  | clear id => exact .cleared rfl
  | unload id => exact w.effect_unload id
  | loadString registry v choice => exact effect_keep _ registry _
  | loadStorage registry storage choice => exact effect_keep _ registry _
  | enlist r => exact .nothing
  | amend registry r => cases registry <;> exact .nothing
  | surround config files => exact .nothing

/-- An operation changes what a node holds only if the node is above or below the one that it works
on. -/
theorem Sound.tree_after (h : w.Sound) (allowed : w.Allows o) (hr : r < w.store.nodes.size)
    (apart : ∀ id, w.subject? o = some id → ¬ w.store.Within r id ∧ ¬ w.store.Within id r) :
    (w.after o).store.tree r = w.store.tree r := by
  have effect := h.effect allowed
  generalize (w.after o).store = s' at effect ⊢
  cases effect with
  | nothing => rfl
  | planted t => exact h.forest.tree_plant_of_lt t hr
  | inserted subject known insert =>
    obtain ⟨parent, slot, designates, -, -, g⟩ := h.forest.grafted_insert known insert
    obtain ⟨above, below⟩ := apart _ subject
    refine g.tree_of_not_within hr fun hwithin => ?_
    rcases h.forest.within_or_within hwithin designates.within with hin | hin
    · exact above hin
    · exact below hin
  | cleared clears =>
    obtain ⟨above, below⟩ := apart _ (subject?_of_cleared? clears)
    exact h.forest.tree_clear_of_apart above below

theorem Sound.tree_after_of_subject (h : w.Sound) (allowed : w.Allows o) {id : NodeId}
    (subject : w.subject? o = some id) (hr : r < w.store.nodes.size) (above : ¬ w.store.Within r id)
    (below : ¬ w.store.Within id r) :
    (w.after o).store.tree r = w.store.tree r := by
  refine h.tree_after allowed hr fun other hother => ?_
  cases subject.symm.trans hother
  exact ⟨above, below⟩

end Grove.Workspace
