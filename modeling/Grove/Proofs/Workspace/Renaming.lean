import Grove.Proofs.Registry.Blind
import Grove.Proofs.Store.Renaming
import Grove.Proofs.Workspace.Unloading

/-!
# Workspaces within workspaces

A workspace may have all that another one has, under other handles, and more besides. What is done
to both keeps the one within the other, and what is read off both is the same, unless it depends on
where files are looked for.
-/
namespace Grove

def Owner.rename (f : NodeId → NodeId) (o : Owner) : Owner :=
  { o with root := o.root.map f }

def Start.rename (f : NodeId → NodeId) (g : OwnerId → OwnerId) : Start → Start
  | .node id => .node (f id)
  | .owner id => .owner (g id)

namespace Workspace

/-- A workspace has the same registries, settings and machine as another one, but for the base of
storage paths in the shared settings. -/
structure Matches (w v : Workspace) : Prop where
  standard : v.standard = w.standard
  registries : v.registries = w.registries
  config : v.config = { w.config with base := v.config.base }
  configs : v.configs = w.configs
  host : v.host = w.host

namespace Matches

variable {w v : Workspace}

theorem refl (w : Workspace) : w.Matches w :=
  ⟨rfl, rfl, rfl, rfl, rfl⟩

variable (h : w.Matches v)

include h

theorem registry_eq (id : Option RegistryId) : v.registry id = w.registry id := by
  cases id with
  | none => exact h.standard
  | some id => rw [registry, h.registries, registry]

/-- A registry with settings of its own works with these in both. -/
theorem settings_eq_of_own {r : Registry} (own : r.config.isNone = false) :
    v.settings r = w.settings r := by
  unfold settings
  cases hconfig : r.config with
  | none => simp [hconfig] at own
  | some id => simp only [h.configs, h.host]

theorem settings_eq (r : Registry) :
    v.settings r = { w.settings r with base := (v.settings r).base } := by
  cases own : r.config.isNone with
  | false => rw [h.settings_eq_of_own own]
  | true =>
    have hnone : r.config = none := Option.isNone_iff_eq_none.mp own
    simp only [settings, hnone]
    exact h.config

theorem enlist (r : Registry) : (w.enlist r).2.Matches (v.enlist r).2 where
  __ := h
  registries := congrArg (Array.push · r) h.registries

theorem amend (id : Option RegistryId) (r : Registry) : (w.amend id r).Matches (v.amend id r) := by
  cases id with
  | none => exact { h with standard := rfl }
  | some id => exact { h with registries := congrArg (Array.setIfInBounds · id r) h.registries }

theorem equip (config : StorageConfig) : (w.equip config).2.Matches (v.equip config).2 where
  __ := h
  configs := congrArg (Array.push · config) h.configs

theorem rebase (id : Option ConfigId) (base : Location) :
    (w.rebase id base).Matches (v.rebase id base) := by
  cases id with
  | none =>
    refine { h with config := ?_ }
    show ({ v.config with base } : StorageConfig) = { w.config with base }
    rw [h.config]
  | some id =>
    refine { h with configs := ?_ }
    simp only [Workspace.rebase, h.configs]

/-- The base of the shared settings may be another one at any time. -/
theorem setBase (base : Location) : w.Matches (v.rebase none base) := by
  refine { h with config := ?_ }
  show ({ v.config with base } : StorageConfig) = { w.config with base }
  rw [h.config]

end Matches

/-- A workspace has all that another one has under renamed handles, and the same besides. -/
structure Embeds (f : NodeId → NodeId) (g : OwnerId → OwnerId) (w v : Workspace) : Prop where
  store : w.store.Embeds f v.store
  owners : Spreads g w.owners.size v.owners.size
  owner : ∀ id, v.owner (g id) = (w.owner id).rename f
  besides : w.Matches v

namespace Embeds

variable {f : NodeId → NodeId} {g : OwnerId → OwnerId} {w v : Workspace}

theorem refl (w : Workspace) : w.Embeds id id w where
  store := .refl _
  owners := .refl _
  owner id := by simp [Owner.rename]
  besides := .refl w

variable (h : w.Embeds f g v)

include h

/-! ### What there is -/

theorem root_eq (a : Start) : v.root (a.rename f g) = (w.root a).map f := by
  cases a with
  | node id => rfl
  | owner id => exact congrArg Owner.root (h.owner id)

theorem root_owner (id : OwnerId) : v.root (.owner (g id)) = (w.root (.owner id)).map f :=
  h.root_eq (.owner id)

theorem registry_owner (id : OwnerId) : (v.owner (g id)).registry = (w.owner id).registry := by
  rw [h.owner, Owner.rename]

theorem tree_eq (forest : w.store.Forest) (a : Start) : v.tree (a.rename f g) = w.tree a := by
  rw [tree, h.root_eq, Option.map_map, tree]
  exact Option.map_congr fun id _ => h.store.tree_eq forest id

/-! ### What is done -/

theorem plant (t : Tree) :
    (v.plant t).1 = f (w.plant t).1 ∧ (w.plant t).2.Embeds f g (v.plant t).2 := by
  obtain ⟨hid, planted⟩ := h.store.plant t
  exact ⟨hid, planted, h.owners, h.owner, { h.besides with }⟩

theorem own (root : NodeId) (id : Option RegistryId) :
    (v.own (f root) id).1 = g (w.own root id).1 ∧
      (w.own root id).2.Embeds f g (v.own (f root) id).2 := by
  have hlast : v.owners.size = g w.owners.size := h.owners.last.symm
  refine ⟨hlast, h.store, ?_, ?_, { h.besides with }⟩
  · simp only [Workspace.own, Array.size_push]
    exact h.owners.grow 1
  · intro other
    rw [Sound.owner_own, Sound.owner_own, hlast]
    simp only [h.owners.inj, h.owner]
    split <;> rfl

theorem hold (t : Tree) (id : Option RegistryId) :
    (v.hold t id).1 = g (w.hold t id).1 ∧ (w.hold t id).2.Embeds f g (v.hold t id).2 := by
  obtain ⟨hroot, planted⟩ := h.plant t
  simp only [Workspace.hold, hroot]
  exact planted.own _ id

theorem put (a : Start) (address : Address) (content : Content) :
    Alike (Option.Rel fun p q => q.1 = f p.1 ∧ p.2.Embeds f g q.2) (w.put a address content)
      (v.put (a.rename f g) address content) := by
  unfold Workspace.put
  rw [h.root_eq]
  cases w.root a with
  | none => exact .ok .none
  | some root =>
    cases content.tree with
    | error e => exact .ok .none
    | ok t =>
      refine (h.store.insert address root t).bind fun p q _ related => ?_
      cases related with
      | none => exact .ok .none
      | some related =>
        obtain ⟨hchild, grown⟩ := related
        exact .ok (.some ⟨hchild, grown, h.owners, h.owner, { h.besides with }⟩)

theorem clear (forest : w.store.Forest) (n : NodeId) : (w.clear n).Embeds f g (v.clear (f n)) where
  store := h.store.clear forest n
  owners := h.owners
  owner := h.owner
  besides := { h.besides with }

theorem unload (forest : w.store.Forest) (id : OwnerId) :
    (w.unload id).Embeds f g (v.unload (g id)) := by
  have howner := h.owner id
  cases hroot : (w.owner id).root with
  | none =>
    have hroot' : (v.owner (g id)).root = none := by simp [howner, Owner.rename, hroot]
    rw [unload_of_root_eq_none hroot, unload_of_root_eq_none hroot']
    exact h
  | some root =>
    have hroot' : (v.owner (g id)).root = some (f root) := by simp [howner, Owner.rename, hroot]
    have cleared := h.clear forest root
    have hstore : (w.unload id).store = (w.clear root).store := by rw [unload_of_root hroot]
    have hstore' : (v.unload (g id)).store = (v.clear (f root)).store := by
      rw [unload_of_root hroot']
    constructor
    case store =>
      rw [hstore, hstore']
      exact cleared.store
    case owners =>
      rw [size_owners_unload, size_owners_unload]
      exact h.owners
    case owner =>
      intro other
      rw [owner_unload, owner_unload]
      simp only [h.owners.inj, h.owner]
      split <;> rfl
    case besides =>
      rw [unload_of_root hroot, unload_of_root hroot']
      exact { h.besides with }

/-- What is beside the nodes and their owners changes alike. -/
theorem of_besides {w' v' : Workspace} (hw : w'.store = w.store ∧ w'.owners = w.owners)
    (hv : v'.store = v.store ∧ v'.owners = v.owners) (besides : w'.Matches v') :
    w'.Embeds f g v' where
  store := by
    rw [hw.1, hv.1]
    exact h.store
  owners := by
    rw [hw.2, hv.2]
    exact h.owners
  owner id := by
    rw [Workspace.owner, Workspace.owner, hw.2, hv.2]
    exact h.owner id
  besides := besides

theorem enlist (r : Registry) :
    (v.enlist r).1 = (w.enlist r).1 ∧ (w.enlist r).2.Embeds f g (v.enlist r).2 := by
  refine ⟨?_, h.of_besides ⟨rfl, rfl⟩ ⟨rfl, rfl⟩ (h.besides.enlist r)⟩
  rw [Workspace.enlist, h.besides.registries]
  rfl

theorem amend (id : Option RegistryId) (r : Registry) :
    (w.amend id r).Embeds f g (v.amend id r) := by
  refine h.of_besides ?_ ?_ (h.besides.amend id r) <;> cases id <;> exact ⟨rfl, rfl⟩

theorem equip (config : StorageConfig) :
    (v.equip config).1 = (w.equip config).1 ∧ (w.equip config).2.Embeds f g (v.equip config).2 := by
  refine ⟨?_, h.of_besides ⟨rfl, rfl⟩ ⟨rfl, rfl⟩ (h.besides.equip config)⟩
  rw [Workspace.equip, h.besides.configs]
  rfl

theorem rebase (id : Option ConfigId) (base : Location) :
    (w.rebase id base).Embeds f g (v.rebase id base) := by
  refine h.of_besides ?_ ?_ (h.besides.rebase id base) <;> cases id <;> exact ⟨rfl, rfl⟩

theorem setBase (base : Location) : w.Embeds f g (v.rebase none base) :=
  h.of_besides ⟨rfl, rfl⟩ ⟨rfl, rfl⟩ (h.besides.setBase base)

theorem addFile (place : Location) (e : Entry) :
    Embeds f g { w with host := { w.host with files := w.host.files.addAt place e } }
      { v with host := { v.host with files := v.host.files.addAt place e } } := by
  refine h.of_besides ⟨rfl, rfl⟩ ⟨rfl, rfl⟩ { h.besides with host := ?_ }
  rw [h.besides.host]

theorem keep (id : Option RegistryId) (loaded : Except Error (Option Tree)) :
    Alike (Option.Rel fun p q => q.1 = g p.1 ∧ p.2.Embeds f g q.2) (w.keep id loaded)
      (v.keep id loaded) := by
  rcases loaded with e | _ | t
  · exact .error e
  · exact .ok .none
  · exact .ok (.some (h.hold t id))

theorem loadString (id : Option RegistryId) (value : Value) (choice : BackendChoice) :
    Alike (Option.Rel fun p q => q.1 = g p.1 ∧ p.2.Embeds f g q.2) (w.loadString id value choice)
      (v.loadString id value choice) := by
  unfold Workspace.loadString
  rw [h.besides.registry_eq]
  exact h.keep id _

theorem loadStorage {id : Option RegistryId}
    (own : (w.registry id).config.isNone = false) (storage : Text) (choice : BackendChoice) :
    Alike (Option.Rel fun p q => q.1 = g p.1 ∧ p.2.Embeds f g q.2) (w.loadStorage id storage choice)
      (v.loadStorage id storage choice) := by
  unfold Workspace.loadStorage
  simp only [h.besides.registry_eq, h.besides.settings_eq_of_own own, h.besides.host]
  exact h.keep id _

theorem listEntries_eq {id : Option RegistryId} (own : (w.registry id).config.isNone = false)
    (storage : Text) :
    v.listEntries id storage = w.listEntries id storage := by
  simp only [listEntries, h.besides.registry_eq, h.besides.settings_eq_of_own own, h.besides.host]

/-- By settings of its own, or through a backend that does not look at the base, a registry writes a
tree the same. -/
theorem serialize_eq (forest : w.store.Forest) {id : Option RegistryId} {choice : BackendChoice}
    (blind : ∀ b, w.writer? id choice = some b → b.Blind) (start : Option Start) :
    v.serialize id (start.map (Start.rename f g)) choice = w.serialize id start choice := by
  have htree : (start.map (Start.rename f g)).bind v.tree = start.bind w.tree := by
    cases start with
    | none => rfl
    | some a => exact h.tree_eq forest a
  simp only [serialize, h.besides.registry_eq, htree]
  cases hconfig : (w.registry id).config.isNone with
  | false => rw [h.besides.settings_eq_of_own hconfig]
  | true =>
    rw [h.besides.settings_eq]
    apply Registry.serialize_base_eq
    intro b hb
    apply blind
    rw [writer?, if_pos hconfig, hb]
    rfl

/-- A workspace that holds one more tree goes on to have what it had. -/
theorem held (sound : w.Sound) (t : Tree) (id : Option RegistryId) :
    w.Embeds (Spreads.skip f w.store.nodes.size t.count) (Spreads.skip g w.owners.size 1)
      (v.hold t id).2 where
  store := h.store.skipped sound.forest (Store.size_plant v.store t) fun _ =>
    Store.node_plant_of_lt v.store t
  owners := by
    have hsize : (v.hold t id).2.owners.size = v.owners.size + 1 := Array.size_push _
    rw [hsize]
    exact h.owners.skipped 1
  owner i := by
    have howner : ∀ j, (v.hold t id).2.owner j =
        if j = v.owners.size then ⟨some v.store.nodes.size, id⟩ else v.owner j :=
      Sound.owner_own (v.plant t).2 _ id
    have outside : ∀ {w : Workspace} {j}, w.owners.size ≤ j → w.owner j = ⟨none, none⟩ := by
      intro w j hj
      simp [Workspace.owner, Array.getElem?_eq_none hj]
    rw [howner]
    by_cases hi : i < w.owners.size
    · have hlt := h.owners.lt_iff.mpr hi
      rw [Spreads.skip_of_lt g 1 hi, if_neg (Nat.ne_of_lt hlt), h.owner]
      have hroot : (w.owner i).root.map f =
          (w.owner i).root.map (Spreads.skip f w.store.nodes.size t.count) := by
        apply Option.map_congr
        intro root hroot
        exact (Spreads.skip_of_lt f t.count (sound.roots hroot)).symm
      rw [Owner.rename, Owner.rename, hroot]
    · obtain ⟨k, rfl⟩ := Nat.exists_eq_add_of_le (Nat.le_of_not_lt hi)
      have hne : (v.owners.size + 1 + k : Nat) ≠ v.owners.size := by omega
      rw [h.owners.skip_behind, if_neg hne, outside (by omega), outside (by omega)]
      rfl
  besides := { h.besides with }

end Embeds

end Workspace

/-- A gap behind what was given out renames nothing that was given out. -/
theorem Start.rename_skip {w : Workspace} {a : Start} (known : w.Knows a) (f : NodeId → NodeId)
    (g : OwnerId → OwnerId) (m n : Nat) :
    a.rename (Spreads.skip f w.store.nodes.size m) (Spreads.skip g w.owners.size n) =
      a.rename f g := by
  cases a with
  | node id => exact congrArg Start.node (Spreads.skip_of_lt f m known)
  | owner id => exact congrArg Start.owner (Spreads.skip_of_lt g n known)

end Grove
