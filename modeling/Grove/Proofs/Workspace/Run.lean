import Grove.Proofs.Store.Limits
import Grove.Workspace.Basic

/-!
# Runs of a workspace

A run starts fresh and takes one operation after the other, on any handle that was given out before:
handles of nodes that have been replaced or cleared away and of owners that have been unloaded stay
good. In every workspace that a run reaches the store is a forest within the limits, and owners own
nodes that are there.
-/
namespace Grove

/-- What callers do to nodes and owners, and to what trees are loaded from. -/
inductive Operation where
  /-- Makes nodes from plain values, whose containers may be shared. -/
  | convert (d : Document)
  /-- Makes a node of a kind. -/
  | make (content : Content)
  /-- Makes an owner of a node that is there. -/
  | own (root : NodeId) (registry : Option RegistryId)
  /-- Makes an owner of a new empty level. -/
  | hold (registry : Option RegistryId)
  | put (start : Start) (address : Address) (content : Content)
  | clear (id : NodeId)
  | unload (id : OwnerId)
  | loadString (registry : Option RegistryId) (v : Value) (choice : BackendChoice)
  | loadStorage (registry : Option RegistryId) (storage : Text) (choice : BackendChoice)
  | enlist (r : Registry)
  | amend (registry : Option RegistryId) (r : Registry)
  /-- Changes the settings, the shared ones included, and the machine. -/
  | surround (config : StorageConfig) (configs : Array StorageConfig) (host : Host)

namespace Workspace

def grown (w : Workspace) (t : Except Error Tree) : Workspace :=
  match t with
  | .ok t => (w.plant t).2
  | .error _ => w

/-- The workspace that comes with a result, if there is one; a failure leaves the workspace as it
is. -/
def settled {α : Type} (w : Workspace)
    (result : Except Error (Option (α × Workspace))) : Workspace :=
  match result with
  | .ok (some (_, w')) => w'
  | _ => w

def after (w : Workspace) : Operation → Workspace
  | .convert d => w.grown d.toTree
  | .make content => w.grown content.tree
  | .own root registry => (w.own root registry).2
  | .hold registry => (w.hold (.level []) registry).2
  | .put start address content => w.settled (w.put start address content)
  | .clear id => w.clear id
  | .unload id => w.unload id
  | .loadString registry v choice => w.settled (w.loadString registry v choice)
  | .loadStorage registry storage choice => w.settled (w.loadStorage registry storage choice)
  | .enlist r => (w.enlist r).2
  | .amend registry r => w.amend registry r
  | .surround config configs host => { w with config, configs, host }

/-- The handle at a start was given out. -/
def Knows (w : Workspace) : Start → Prop
  | .node id => id < w.store.nodes.size
  | .owner id => id < w.owners.size

/-- The handles that an operation works on were given out. -/
def Allows (w : Workspace) : Operation → Prop
  | .own root _ => root < w.store.nodes.size
  | .put start _ _ => w.Knows start
  | .clear id => id < w.store.nodes.size
  | .unload id => id < w.owners.size
  | _ => True

/-- The workspaces that runs lead to. -/
inductive Reached : Workspace → Prop
  | fresh (host : Host) : Reached (.fresh host)
  | step {w : Workspace} (h : Reached w) (o : Operation)
      (allowed : w.Allows o) : Reached (w.after o)

/-- The invariant of runs. -/
structure Sound (w : Workspace) : Prop where
  forest : w.store.Forest
  fits : w.store.Fits
  roots : ∀ {id : OwnerId} {root : Nat}, (w.owner id).root = some root → root < w.store.nodes.size

namespace Sound

variable {w : Workspace}

theorem fresh (host : Host) : (Workspace.fresh host).Sound where
  forest := Store.forest_empty
  fits := Store.fits_empty
  roots := by
    intro id root h
    simp [owner, Workspace.fresh] at h

theorem plant (h : w.Sound) {t : Tree} (ht : t.Fits) : (w.plant t).2.Sound where
  forest := h.forest.plant t
  fits := h.fits.plant ht
  roots := by
    intro id root hroot
    have hsize := Store.size_plant w.store t
    have hold := h.roots hroot
    simp only [Workspace.plant] at hsize ⊢
    omega

theorem owner_own (w : Workspace) (root : NodeId) (registry : Option RegistryId) (id : OwnerId) :
    ((w.own root registry).2.owner id) =
      if id = w.owners.size then ⟨some root, registry⟩ else w.owner id := by
  simp only [own, owner, Array.getD_eq_getD_getElem?, Array.getElem?_push]
  split <;> rfl

theorem own (h : w.Sound) {root : Nat} (hroot : root < w.store.nodes.size)
    (registry : Option RegistryId) : (w.own root registry).2.Sound where
  forest := h.forest
  fits := h.fits
  roots := by
    intro id r hr
    rw [owner_own] at hr
    split at hr
    · cases hr; exact hroot
    · exact h.roots hr

theorem hold (h : w.Sound) {t : Tree} (ht : t.Fits) (registry : Option RegistryId) :
    (w.hold t registry).2.Sound := by
  refine (h.plant ht).own ?_ registry
  have hsize := Store.size_plant w.store t
  have hpos := t.count_pos
  simp only [Workspace.plant] at hsize ⊢
  show w.store.nodes.size < _
  omega

theorem root_lt (h : w.Sound) {start : Start} (known : w.Knows start) {root : Nat}
    (hroot : w.root start = some root) : root < w.store.nodes.size := by
  cases start with
  | node id => cases hroot; exact known
  | owner id => exact h.roots hroot

end Sound

/-- Content is put by putting its tree below the root of the start. -/
theorem put_eq_some_iff {w w' : Workspace} {start : Start} {address : Address} {content : Content}
    {child : NodeId} : w.put start address content = .ok (some (child, w')) ↔ ∃ root t store,
      w.root start = some root ∧ content.tree = .ok t ∧
        w.store.insert root address t = .ok (some (child, store)) ∧ w' = { w with store } := by
  unfold put
  cases hroot : w.root start with
  | none => simp
  | some root =>
    cases htree : content.tree with
    | error e => simp
    | ok t =>
      simp only [Option.some.injEq, Except.ok.injEq, exists_and_left, exists_eq_left']
      cases hins : w.store.insert root address t with
      | error e => simp [bind, Except.bind]
      | ok placed =>
        cases placed with
        | none => simp [bind, Except.bind, pure, Except.pure]
        | some p =>
          obtain ⟨c, store⟩ := p
          simp [bind, Except.bind, pure, Except.pure, eq_comm]

theorem unload_of_root {w : Workspace} {id : OwnerId} {root : NodeId}
    (h : (w.owner id).root = some root) :
    w.unload id = { w.clear root with
      owners := w.owners.setIfInBounds id { w.owner id with root := none } } := by
  simp only [unload, h]

theorem unload_of_root_eq_none {w : Workspace} {id : OwnerId} (h : (w.owner id).root = none) :
    w.unload id = w := by
  simp only [unload, h]

theorem fits_contentTree {content : Content} {t : Tree} (h : content.tree = .ok t) : t.Fits := by
  cases content with
  | emptyList => cases h; trivial
  | emptyLevel => cases h; exact Tree.fits_emptyLevel
  | number v => exact Tree.fits_ofNumber h
  | string v => exact Tree.fits_ofString h
  | boolean v => exact Tree.fits_ofBoolean h
  | setting d => exact Tree.fits_ofSetting h

namespace Sound

variable {w : Workspace}

theorem grown (h : w.Sound) {t : Except Error Tree} (ht : ∀ u, t = .ok u → u.Fits) :
    (w.grown t).Sound := by
  cases t with
  | error e => exact h
  | ok u => exact h.plant (ht u rfl)

theorem put (h : w.Sound) {start : Start} (known : w.Knows start) (address : Address)
    (content : Content) : (w.settled (w.put start address content)).Sound := by
  unfold settled
  split
  · next child w' hput =>
    obtain ⟨root, t, store, hroot, htree, hins, rfl⟩ := put_eq_some_iff.mp hput
    constructor
    · exact h.forest.insert (h.root_lt known hroot) hins
    · exact h.fits.insert (fits_contentTree htree) hins
    · intro id r hr
      have hsize := Store.size_insert hins
      have := h.roots hr
      show r < store.nodes.size
      omega
  · exact h

theorem clear (h : w.Sound) (id : NodeId) : (w.clear id).Sound where
  forest := h.forest.clear id
  fits := h.fits.clear id
  roots := by
    intro owner root hroot
    show root < (w.store.clear id).nodes.size
    rw [Store.size_clear]
    exact h.roots hroot

theorem unload (h : w.Sound) (id : OwnerId) : (w.unload id).Sound := by
  cases hroot : (w.owner id).root with
  | none =>
    rw [unload_of_root_eq_none hroot]
    exact h
  | some root =>
    rw [unload_of_root hroot]
    have cleared := h.clear root
    constructor
    · exact cleared.forest
    · exact cleared.fits
    · intro other r hr
      refine @cleared.roots other r ?_
      simp only [owner, Array.getD_eq_getD_getElem?, Array.getElem?_setIfInBounds] at hr ⊢
      split at hr
      · split at hr <;> cases hr
      · exact hr

theorem keep (h : w.Sound) {registry : Option RegistryId} {loaded : Except Error (Option Tree)}
    (ht : ∀ t, loaded = .ok (some t) → t.Fits) : (w.settled (w.keep registry loaded)).Sound := by
  unfold settled Workspace.keep
  cases loaded with
  | error e => exact h
  | ok found =>
    cases found with
    | none => exact h
    | some t => exact h.hold (ht t rfl) registry

theorem after (h : w.Sound) {o : Operation} (allowed : w.Allows o) : (w.after o).Sound := by
  cases o with
  | convert d => exact h.grown fun _ => Document.fits_toTree
  | make content => exact h.grown fun _ => fits_contentTree
  | own root registry => exact h.own allowed registry
  | hold registry => exact h.hold Tree.fits_emptyLevel registry
  | put start address content => exact h.put allowed address content
  | clear id => exact h.clear id
  | unload id => exact h.unload id
  | loadString registry v choice => exact h.keep fun _ => Registry.fits_loadString
  | loadStorage registry storage choice => exact h.keep fun _ => Registry.fits_loadStorage
  | enlist r => exact ⟨h.forest, h.fits, h.roots⟩
  | amend registry r =>
    cases registry with
    | none => exact ⟨h.forest, h.fits, h.roots⟩
    | some id => exact ⟨h.forest, h.fits, h.roots⟩
  | surround config configs host => exact ⟨h.forest, h.fits, h.roots⟩

end Sound

/-- Every workspace that a run reaches is sound. -/
theorem Reached.sound {w : Workspace} (h : w.Reached) : w.Sound := by
  induction h with
  | fresh host => exact .fresh host
  | step _ o allowed ih => exact ih.after allowed

end Workspace

end Grove
