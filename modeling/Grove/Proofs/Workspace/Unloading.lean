import Grove.Proofs.Store.Clearing
import Grove.Proofs.Workspace.Lifetime
import Grove.Session.Basic

/-!
# Clearing and unloading

To unload an owner is to clear its root and to take the root away. No operation gives an unloaded
owner a root again, and without a root every question finds nothing, every answer is the default,
and nothing is put anywhere.
-/
namespace Grove

open Relation

/-- The effect of clearing a node: the node and everything below it are emptied, and no other node
is touched. What the nodes hold afterwards follows from where they are. -/
structure Store.Cleared (s : Store) (id : NodeId) (s' : Store) : Prop where
  size : s'.nodes.size = s.nodes.size
  inside : ∀ n, s.Within id n → s'.node n = (s.node n).emptied
  outside : ∀ n, ¬ s.Within id n → s'.node n = s.node n
  /-- It is what comes of clearing the children, one after the other, and of emptying the node after
  that. -/
  step : s' = ((s.node id).children.foldl Store.clear s).write id (s.node id).emptied
  scalar : (s.node id).kind.isScalar = true → s' = s
  held_inside : ∀ r, s.Within id r → s'.tree r = (s.tree r).emptied
  held_above : ∀ r a, s.Leads r a id → s'.tree r = (s.tree r).alter Tree.emptied a
  held_apart : ∀ r, (∀ a, ¬ s.Leads r a id) → ¬ s.Within id r → s'.tree r = s.tree r

theorem Store.Forest.cleared {s : Store} (h : s.Forest) (fits : s.Fits) (id : NodeId) :
    s.Cleared id (s.clear id) where
  size := size_clear s id
  inside _ := h.node_clear_of_within
  outside _ := h.node_clear_of_not_within
  step := h.clear_step id
  scalar := h.clear_of_isScalar
  held_inside _ := h.tree_clear_of_within
  held_above _ _ := h.tree_clear_of_leads fits
  held_apart r apart := by
    apply h.tree_clear_of_apart
    intro hwithin
    obtain ⟨a, leads⟩ := exists_leads hwithin
    exact apart a leads

namespace Workspace

variable {w w' : Workspace} {id : OwnerId}

/-! ### Unloading -/

/-- Only the unloaded owner changes, and it only loses its root. -/
theorem owner_unload (w : Workspace) (id other : OwnerId) :
    (w.unload id).owner other =
      if other = id then { w.owner id with root := none } else w.owner other := by
  cases hroot : (w.owner id).root with
  | none =>
    rw [unload_of_root_eq_none hroot]
    split
    · next heq => rw [heq, ← hroot]
    · rfl
  | some root =>
    have hid : id < w.owners.size := by
      by_contra hout
      simp [owner, Array.getElem?_eq_none (Nat.le_of_not_lt hout)] at hroot
    simp only [unload_of_root hroot, owner, Array.getD_eq_getD_getElem?,
      Array.getElem?_setIfInBounds]
    by_cases heq : other = id
    · simp [heq, hid]
    · simp [heq, Ne.symm heq]

theorem size_owners_unload (w : Workspace) (id : OwnerId) :
    (w.unload id).owners.size = w.owners.size := by
  cases hroot : (w.owner id).root with
  | none => rw [unload_of_root_eq_none hroot]
  | some root => simp [unload_of_root hroot]

/-! ### Unloaded owners -/

/-- The handle belongs to an owner that has no root any more. -/
structure Unloaded (w : Workspace) (id : OwnerId) : Prop where
  known : id < w.owners.size
  root : (w.owner id).root = none

theorem unloaded_unload (hid : id < w.owners.size) : (w.unload id).Unloaded id where
  known := (size_owners_unload w id).symm ▸ hid
  root := by rw [owner_unload, if_pos rfl]

namespace Unloaded

variable (h : w.Unloaded id)

include h

theorem congr (same : w'.owners = w.owners) : w'.Unloaded id := by
  constructor
  · rw [same]
    exact h.known
  · rw [owner, same]
    exact h.root

theorem own (root : NodeId) (registry : Option RegistryId) :
    (w.own root registry).2.Unloaded id := by
  constructor
  · have hsize : (w.own root registry).2.owners.size = w.owners.size + 1 := Array.size_push _
    rw [hsize]
    exact Nat.lt_succ_of_lt h.known
  · rw [Sound.owner_own, if_neg (Nat.ne_of_lt h.known)]
    exact h.root

theorem hold (t : Tree) (registry : Option RegistryId) : (w.hold t registry).2.Unloaded id := by
  have planted : (w.plant t).2.Unloaded id := h.congr rfl
  exact planted.own _ registry

theorem grown (t : Except Error Tree) : (w.grown t).Unloaded id := by
  cases t with
  | error e => exact h
  | ok t => exact h.congr rfl

theorem put (start : Start) (address : Address) (content : Content) :
    (w.settled (w.put start address content)).Unloaded id := by
  unfold settled
  split
  · next child w' hput =>
    obtain ⟨root, t, store, -, -, -, rfl⟩ := put_eq_some_iff.mp hput
    exact h.congr rfl
  · exact h

theorem keep (registry : Option RegistryId) (loaded : Except Error (Option Tree)) :
    (w.settled (w.keep registry loaded)).Unloaded id := by
  rcases loaded with e | _ | t
  · exact h
  · exact h
  · exact h.hold t registry

theorem unload (other : OwnerId) : (w.unload other).Unloaded id := by
  constructor
  · rw [size_owners_unload]
    exact h.known
  · rw [owner_unload]
    split
    · rfl
    · exact h.root

/-- No operation gives an unloaded owner a root. -/
theorem after (o : Operation) : (w.after o).Unloaded id := by
  cases o with
  | convert d => exact h.grown d.toTree
  | make content => exact h.grown content.tree
  | own root registry => exact h.own root registry
  | hold registry => exact h.hold (.level []) registry
  | put start address content => exact h.put start address content
  | clear n => exact h.congr rfl
  | unload other => exact h.unload other
  | loadString registry v choice => exact h.keep registry _
  | loadStorage registry storage choice => exact h.keep registry _
  | enlist r => exact h.congr rfl
  | amend registry r => cases registry <;> exact h.congr rfl
  | surround config files => exact h.congr rfl

end Unloaded

/-- An unloaded owner stays so for the rest of the run. -/
theorem Later.unloaded (later : w.Later w') (h : w.Unloaded id) : w'.Unloaded id := by
  induction later with
  | refl => exact h
  | step _ o _ ih => exact ih.after o

/-! ### What an unloaded owner answers -/

/-- There is nothing behind an owner: every accessor answers with its default, every write comes to
nothing, and none of them changes the workspace. -/
structure Silent (w : Workspace) (id : OwnerId) : Prop where
  root : w.root (.owner id) = none
  tree : w.tree (.owner id) = none
  length : Session.lookAtNode w (.owner id) .length = .count 0
  members : Session.lookAtNode w (.owner id) .members = .texts []
  resolve : ∀ address args, w.store.resolve (w.root (.owner id)) address args = .ok none
  resolveForWrite : ∀ address args,
    w.store.resolveForWrite (w.root (.owner id)) address args = .ok none
  hasKey : ∀ address args, w.store.hasKey (w.root (.owner id)) address args = .ok false
  listSize : ∀ address args, w.store.listSize (w.root (.owner id)) address args = .ok 0
  scalar : ∀ kind default address args,
    w.store.scalar (w.root (.owner id)) kind default address args = .ok default
  lookup : ∀ kind address args, w.store.lookup (w.root (.owner id)) kind address args =
    .ok (.failed .pathNotFound Error.noRoot.message)
  put : ∀ address content, w.put (.owner id) address content = .ok none
  kept : ∀ address content, w.after (.put (.owner id) address content) = w
  unload : w.unload id = w

theorem Unloaded.silent (h : w.Unloaded id) : w.Silent id := by
  have hroot : w.root (.owner id) = none := h.root
  have hput : ∀ address content, w.put (.owner id) address content = .ok none := by
    intro address content
    simp only [Workspace.put, hroot]
  have hkept : ∀ address content, w.after (.put (.owner id) address content) = w := by
    intro address content
    simp only [Workspace.after, settled, hput]
  have hunload : w.unload id = w := unload_of_root_eq_none h.root
  constructor
  case root => exact hroot
  case put => exact hput
  case kept => exact hkept
  case unload => exact hunload
  case tree =>
    rw [Workspace.tree, hroot]
    rfl
  case length | members =>
    simp only [Session.lookAtNode, hroot]
    rfl
  case scalar | lookup =>
    intro kind
    rw [hroot]
    intros
    rfl
  all_goals
    intro address args
    rw [hroot]
    rfl

/-- Clearing a node empties the node and everything below it, as they are at that moment, and
nothing else: a node that was replaced before keeps its children. What is held above the node is
emptied at the typed address of the node. Unloading an owner does this to its root, and to nothing
if it has none; no other owner changes, to unload it again changes nothing, and whatever is done
afterwards to whatever handle, the owner has no root and answers as such. -/
theorem clear_unload_effect (reached : w.Reached) :
    (∀ n : NodeId, w.store.Cleared n (w.clear n).store) ∧
    ∀ id < w.owners.size,
      (∀ root, (w.owner id).root = some root → (w.unload id).store = (w.clear root).store) ∧
      ((w.owner id).root = none → w.unload id = w) ∧
      (∀ other ≠ id, (w.unload id).owner other = w.owner other) ∧
      (w.unload id).unload id = w.unload id ∧
      ∀ w', (w.unload id).Later w' → w'.Silent id := by
  have sound := reached.sound
  refine ⟨sound.forest.cleared sound.fits, ?_⟩
  intro id hid
  have unloaded : (w.unload id).Unloaded id := unloaded_unload hid
  refine ⟨?_, unload_of_root_eq_none, ?_, unloaded.silent.unload, ?_⟩
  · intro root hroot
    rw [unload_of_root hroot]
  · intro other hne
    rw [owner_unload, if_neg hne]
  · intro w' later
    exact (later.unloaded unloaded).silent

/-- A list that was replaced before its former parent is unloaded keeps what it holds; what is put
  into it later does
not come back into the unloaded tree. -/
theorem clear_unload_effect_replaced :
    let w : Workspace :=
      { fresh .empty with
        store := ⟨#[.list [3], .list [2], .boolean true, .level []]⟩, owners := #[⟨some 0, none⟩] }
    let emptied : Workspace :=
      { fresh .empty with
        store := ⟨#[.list [], .list [2], .boolean true, .level []]⟩, owners := #[⟨none, none⟩] }
    let w' := emptied.after (.put (.node 1) .omitted (.boolean (.boolean false)))
    w.Reached ∧ w.unload 0 = emptied ∧
        w'.store.tree 1 = .list [.boolean true, .boolean false] ∧ w'.Silent 0 := by
  intro w emptied w'
  have converted :
      ((fresh .empty).after (.convert (.ofValue (.list [.list [.boolean true]])))).Reached :=
    .step (.fresh .empty) (.convert _) trivial
  have owned := Reached.step converted (.own 0 none) (show 0 < 3 by decide)
  have reached : w.Reached :=
    .step owned (.put (.owner 0) (.text "0") .emptyLevel) (show 0 < 1 by decide)
  have hunload : w.unload 0 = emptied := rfl
  have later : emptied.Later w' := .step (.refl _) (.put (.node 1) _ _) (show 1 < 4 by decide)
  refine ⟨reached, hunload, rfl, ?_⟩
  exact ((clear_unload_effect reached).2 0 (by decide)).2.2.2.2 w' (hunload ▸ later)

end Workspace

end Grove
