import Grove.Proofs.Store.Diagnosis
import Grove.Proofs.Workspace.Unloading

/-!
# Sessions are runs

A command takes the workspace of a session a few operations further, on handles that names stand
for, and what it names was given out. So whatever holds of all workspaces that runs lead to holds in
a session.
-/
namespace Grove

namespace Node

theorem mem_children_of_childAt {n : Node} {v : Value} {c : NodeId}
    (h : n.childAt v = .ok (some c)) :
    c ∈ n.children := by
  have found : ∃ seg, n.child? seg = some c := by
    unfold childAt at h
    split at h
    · split at h
      · exact ⟨_, Except.ok.inj h⟩
      · cases h
      · cases h
    · exact ⟨_, Except.ok.inj h⟩
    · cases h
  obtain ⟨seg, hseg⟩ := found
  exact mem_children_of_mem_items (mem_items_of_child? hseg)

end Node

namespace Store

variable {s : Store} {root : Option NodeId} {address : Address} {args : List Value}

theorem find_of_lookup {kind : Option Kind} {n : NodeId}
    (h : s.lookup root kind address args = .ok (.found n)) :
    s.find root address args = .ok n := by
  unfold lookup at h
  cases hfind : s.find root address args with
  | ok m =>
    rw [hfind] at h
    simp only at h
    split at h
    · split at h <;> cases h
      rfl
    · cases h
      rfl
  | error e =>
    rw [hfind] at h
    simp only at h
    split at h <;> cases h

/-- What is found below a node that is there is there. -/
theorem Forest.lt_size_of_descend (h : s.Forest) {reached path : List Segment} {id n : NodeId}
    (hid : id < s.nodes.size) (hn : s.descend reached id path = .ok n) : n < s.nodes.size :=
  h.lt_size_of_within hid (leads_of_descend hn).within

end Store

namespace Workspace

variable {w w' : Workspace}

theorem size_owners_settled_keep (w : Workspace) (registry : Option RegistryId)
    (loaded : Except Error (Option Tree)) :
    w.owners.size ≤ (w.settled (w.keep registry loaded)).owners.size := by
  rcases loaded with e | _ | t
  · exact Nat.le_refl _
  · exact Nat.le_refl _
  · have hsize : (w.hold t registry).2.owners.size = w.owners.size + 1 := Array.size_push _
    exact Nat.le_trans (Nat.le_succ _) (Nat.le_of_eq hsize.symm)

/-- No operation takes an owner away. -/
theorem size_owners_le_after (w : Workspace) (o : Operation) :
    w.owners.size ≤ (w.after o).owners.size := by
  cases o with
  | convert d =>
    simp only [after, grown]
    split <;> exact Nat.le_refl _
  | make content =>
    simp only [after, grown]
    split <;> exact Nat.le_refl _
  | own root registry =>
    have hsize : (w.own root registry).2.owners.size = w.owners.size + 1 := Array.size_push _
    exact Nat.le_trans (Nat.le_succ _) (Nat.le_of_eq hsize.symm)
  | hold registry =>
    have hsize : (w.hold (.level []) registry).2.owners.size =
        w.owners.size + 1 := Array.size_push _
    exact Nat.le_trans (Nat.le_succ _) (Nat.le_of_eq hsize.symm)
  | put start address content =>
    simp only [after, settled]
    split
    · next hput =>
      obtain ⟨root, t, store, -, -, -, rfl⟩ := put_eq_some_iff.mp hput
      exact Nat.le_refl _
    · exact Nat.le_refl _
  | clear id => exact Nat.le_refl _
  | unload id => exact Nat.le_of_eq (size_owners_unload w id).symm
  | loadString registry v choice => exact size_owners_settled_keep w registry _
  | loadStorage registry storage choice => exact size_owners_settled_keep w registry _
  | enlist r => exact Nat.le_refl _
  | amend registry r => cases registry <;> exact Nat.le_refl _
  | surround config configs host => exact Nat.le_refl _

/-- Handles that were given out stay so. -/
theorem Later.knows (h : w.Later w') (reached : w.Reached) {start : Start} (known : w.Knows start) :
    w'.Knows start := by
  cases start with
  | node id => exact Nat.lt_of_lt_of_le known (h.keeps reached).size
  | owner id =>
    induction h with
    | refl => exact known
    | step _ o _ ih => exact Nat.lt_of_lt_of_le ih (size_owners_le_after _ o)

variable {start : Start} {address : Address} {args : List Value} {n : NodeId}

theorem Sound.lt_of_find (h : w.Sound) (known : w.Knows start)
    (hn : w.store.find (w.root start) address args = .ok n) :
    n < w.store.nodes.size := by
  cases hroot : w.root start with
  | none =>
    rw [hroot] at hn
    cases hn
  | some root =>
    rw [hroot] at hn
    obtain ⟨path, -, hdescend⟩ := ok_of_bind hn
    exact h.forest.lt_size_of_descend (h.root_lt known hroot) hdescend

theorem Sound.lt_of_findForWrite (h : w.Sound) (known : w.Knows start) {last : Segment}
    (hn : w.store.findForWrite (w.root start) address args = .ok (n, last)) :
    n < w.store.nodes.size := by
  cases hroot : w.root start with
  | none =>
    rw [hroot] at hn
    cases hn
  | some root =>
    rw [hroot] at hn
    obtain ⟨front, -, hdescend⟩ := Store.findForWrite_eq_ok_iff.mp hn
    exact h.forest.lt_size_of_descend (h.root_lt known hroot) hdescend

/-- A node that is put is there. -/
theorem lt_of_put {content : Content} (h : w.put start address content = .ok (some (n, w'))) :
    n < w'.store.nodes.size := by
  obtain ⟨root, t, store, -, -, hinsert, rfl⟩ := put_eq_some_iff.mp h
  have hsize := Store.size_insert hinsert
  obtain ⟨parent, slot, m, -, rfl, -, -⟩ := Store.insert_eq_some_iff.mp hinsert
  show w.store.nodes.size < store.nodes.size
  rw [hsize]
  exact Nat.lt_add_of_pos_right t.count_pos

theorem later_put (known : w.Knows start) {content : Content}
    (h : w.put start address content = .ok (some (n, w'))) :
    w.Later w' := by
  have hafter : w.after (.put start address content) = w' := by simp only [after, settled, h]
  exact hafter ▸ .step (.refl w) (.put start address content) known

theorem later_plant {d : Document} {t : Tree} (h : d.toTree = .ok t) : w.Later (w.plant t).2 := by
  have hafter : w.after (.convert d) = (w.plant t).2 := by simp only [after, grown, h]
  exact hafter ▸ .step (.refl w) (.convert d) trivial

theorem lt_plant (w : Workspace) (t : Tree) : (w.plant t).1 < (w.plant t).2.store.nodes.size := by
  show w.store.nodes.size < (w.store.plant t).2.nodes.size
  rw [Store.size_plant]
  exact Nat.lt_add_of_pos_right t.count_pos

theorem lt_own (w : Workspace) (root : NodeId) (registry : Option RegistryId) :
    (w.own root registry).1 < (w.own root registry).2.owners.size := by
  simp [own]

end Workspace

namespace Session

open Workspace

variable {s : Session}

/-- A run led to the workspace, and names stand for handles that were given out. -/
structure Sound (s : Session) : Prop where
  reached : s.workspace.Reached
  known : ∀ {name : Text} {a : Start}, Entries.get? name s.names = some (.start a) →
    s.workspace.Knows a

theorem settle_eq_ok {α : Type} {x : Except Error α} {a : α}
    (h : settle x = .ok a) : x = .ok a := by
  cases x with
  | ok b =>
    cases h
    rfl
  | error e => cases h

namespace Sound

theorem fresh (host : Host) : (Session.fresh host).Sound where
  reached := .fresh host
  known := nofun

variable (h : s.Sound) {name : Text}

include h

theorem start {a : Start} (hs : s.start name = .ok a) : s.workspace.Knows a := by
  obtain ⟨r, href, hr⟩ := ok_of_bind hs
  cases r with
  | registry | config => cases hr
  | start b =>
    cases hr
    unfold reference at href
    split at href
    · next heq =>
      cases href
      exact h.known heq
    · cases href

theorem node {n : NodeId} (hs : s.node name = .ok n) : n < s.workspace.store.nodes.size := by
  obtain ⟨a, hstart, ha⟩ := ok_of_bind hs
  cases a with
  | owner id => cases ha
  | node m =>
    cases ha
    exact h.start hstart

theorem owner {id : OwnerId} (hs : s.owner name = .ok id) : s.workspace.Knows (.owner id) := by
  obtain ⟨a, hstart, ha⟩ := ok_of_bind hs
  cases a with
  | node n => cases ha
  | owner id =>
    cases ha
    exact h.start hstart

end Sound

/-! ### Commands -/

/-- What a command may do. -/
inductive Does (s : Session) : Effect → Prop
  | tell (a : Answer) : Does s (s.told a)
  | give {n : NodeId} (known : n < s.workspace.store.nodes.size) (a : Answer) :
      Does s ⟨s.workspace, a, some (.start (.node n))⟩
  | refer (id : Option ConfigId) (a : Answer) : Does s ⟨s.workspace, a, some (.config id)⟩
  | plant {d : Document} {t : Tree} (tree : d.toTree = .ok t) :
      Does s (given (s.workspace.plant t).2 (s.workspace.plant t).1)
  | own {root : NodeId} (known : root < s.workspace.store.nodes.size) (id : Option RegistryId) :
      Does s (handed (s.workspace.own root id).2 (s.workspace.own root id).1)
  | hold {t : Tree} {id : Option RegistryId} (later : s.workspace.Later (s.workspace.hold t id).2) :
      Does s (handed (s.workspace.hold t id).2 (s.workspace.hold t id).1)
  | equip (config : StorageConfig) (a : Answer) :
      Does s ⟨(s.workspace.equip config).2, a, some (.config (some (s.workspace.equip config).1))⟩
  | enlist {w : Workspace} (later : s.workspace.Later w) (r : Registry) (a : Answer) :
      Does s ⟨(w.enlist r).2, a, some (.registry (w.enlist r).1)⟩
  | amend (id : Option RegistryId) (r : Registry)
      (a : Answer) : Does s ⟨s.workspace.amend id r, a, none⟩
  | put {start : Start} {address : Address} {content : Content} {n : NodeId} {w : Workspace}
      {r : Option Reference} (known : s.workspace.Knows start)
      (put : s.workspace.put start address content = .ok (some (n, w))) (a : Answer)
      (result : r = none ∨ r = some (.start (.node n))) : Does s ⟨w, a, r⟩
  | clear {n : NodeId} (known : n < s.workspace.store.nodes.size) (a : Answer) :
      Does s ⟨s.workspace.clear n, a, none⟩
  | unload {id : OwnerId} (known : s.workspace.Knows (.owner id)) (a : Answer) :
      Does s ⟨s.workspace.unload id, a, none⟩
  | rebase (id : Option ConfigId) (base : Location)
      (a : Answer) : Does s ⟨s.workspace.rebase id base, a, none⟩
  | move (host : Host) (a : Answer) : Does s ⟨{ s.workspace with host }, a, none⟩

theorem yields_told (a : Answer) : Yields s.Does (.ok (s.told a) : Except Refusal Effect) :=
  yields_ok (.tell a)

theorem later_equip (w : Workspace) (config : StorageConfig) : w.Later (w.equip config).2 :=
  .step (.refl w) (.surround w.config (w.configs.push config) w.host) trivial

theorem later_rebase (w : Workspace) (id : Option ConfigId) (base : Location) :
    w.Later (w.rebase id base) := by
  cases id with
  | none => exact .step (.refl w) (.surround { w.config with base } w.configs w.host) trivial
  | some id =>
    exact .step (.refl w)
      (.surround w.config (w.configs.modify id ({ · with base })) w.host) trivial

namespace Sound

variable (h : s.Sound)

include h

theorem does_makeOwner (holding : Holding) (registry : Option Text) :
    Yields s.Does (s.makeOwner holding registry) := by
  cases holding with
  | existing name =>
    exact .bind fun root hroot => .bind fun id _ => yields_ok (.own (h.node hroot) id)
  | emptyLevel => exact .bind fun id _ => yields_ok (.hold (.step (.refl _) (.hold id) trivial))
  | document d =>
    refine .bind fun id _ => .bind fun t ht => yields_ok (.hold ?_)
    exact .step (later_plant (settle_eq_ok ht)) (.own _ id) (lt_plant _ t)

theorem does_ask {a : Start} (known : s.workspace.Knows a) (q : Question) (address : Address)
    (args : List Value) :
    Yields s.Does (s.ask a q address args) := by
  have sound := h.reached.sound
  cases q with
  | subtree =>
    refine .bind fun found hfound => ?_
    cases found with
    | none => exact yields_told _
    | some n =>
      have hn := sound.lt_of_find known (Store.resolve_eq_some_iff.mp (settle_eq_ok hfound))
      exact yields_ok (.give hn _)
  | lookup kind =>
    refine .bind fun outcome _ => ?_
    cases outcome <;> exact yields_told _
  | place =>
    refine .bind fun found hfound => ?_
    cases found with
    | none => exact yields_told _
    | some place =>
      have hparent := sound.lt_of_findForWrite known
        (Store.absorb_eq_some_iff.mp (settle_eq_ok hfound))
      exact yields_ok (.give hparent _)
  | _ => exact .bind fun _ _ => yields_told _

theorem does_item {id : OwnerId} (known : s.workspace.Knows (.owner id)) (address : Address) :
    Yields s.Does (s.item id address) := by
  refine .bind fun outcome houtcome => .bind fun n hn => ?_
  split
  · exact yields_told _
  · cases outcome with
    | failed kind message => cases hn
    | found m =>
      cases hn
      have hlt := h.reached.sound.lt_of_find known (Store.find_of_lookup (settle_eq_ok houtcome))
      exact yields_ok (.give hlt _)

end Sound

theorem does_makeRegistry (backends : List Backend) (config : ConfigChoice) (strict : Bool) :
    Yields s.Does (s.makeRegistry backends config strict) := by
  cases config with
  | unspecified =>
    refine .bind fun settings hsettings => ?_
    cases hsettings
    exact .bind fun r _ => yields_ok (.enlist (.refl _) r _)
  | own config =>
    refine .bind fun settings hsettings => ?_
    cases hsettings
    exact .bind fun r _ => yields_ok (.enlist (later_equip _ config) r _)
  | named name =>
    refine .bind fun id _ => .bind fun settings hsettings => ?_
    cases hsettings
    exact .bind fun r _ => yields_ok (.enlist (.refl _) r _)

/-- What is made of a tree that was loaded, or of none. -/
theorem yields_handedOption {P : Effect → Prop} {id : Option RegistryId}
    {loaded : Except Error (Option Tree)} (nothing : P (s.told .nothing))
    (hold : ∀ t, loaded = .ok (some t) →
      P (handed (s.workspace.hold t id).2 (s.workspace.hold t id).1)) :
    Yields P (s.handedOption (s.workspace.keep id loaded)) := by
  rcases loaded with e | _ | t
  · exact yields_error _
  · exact yields_ok nothing
  · exact yields_ok (hold t rfl)

theorem does_use (id : Option RegistryId) (what : Use) : Yields s.Does (s.use id what) := by
  cases what with
  | register | unregister => exact .bind fun registered _ => yields_ok (.amend id registered.2 _)
  | names | has | settings => exact yields_told _
  | createEmpty => exact yields_ok (.hold (.step (.refl _) (.hold id) trivial))
  | loadString v choice =>
    refine yields_handedOption (.tell _) fun t ht => .hold ?_
    have hafter : s.workspace.after (.loadString id v choice) = (s.workspace.hold t id).2 := by
      simp only [after, settled, Workspace.loadString, ht]
      rfl
    exact hafter ▸ .step (.refl _) (.loadString id v choice) trivial
  | loadStorage storage choice =>
    refine yields_handedOption (.tell _) fun t ht => .hold ?_
    have hafter : s.workspace.after (.loadStorage id storage choice) =
        (s.workspace.hold t id).2 := by
      simp only [after, settled, Workspace.loadStorage, ht]
      rfl
    exact hafter ▸ .step (.refl _) (.loadStorage id storage choice) trivial
  | serialize data choice =>
    cases data with
    | none => exact .bind fun _ _ => yields_told _
    | some name => exact .bind fun _ _ => .bind fun _ _ => yields_told _
  | _ => exact .bind fun _ _ => yields_told _

/-! ### Families of commands -/

inductive Family where
  | making
  | looking
  | writing
  | unloading
  /-- Registries, settings, and the text of trees. -/
  | storage

/-- What a command is about. -/
def Command.family : Command → Family
  | .makeNode _ | .makeOwner .. | .makeConfig _ | .sharedConfig | .makeRegistry .. | .addFile .. =>
    .making
  | .look .. | .view .. | .detail .. | .child .. | .ask .. | .item .. | .root _ | .isLoaded
      _ | .identical .. =>
    .looking
  | .add .. | .set .. | .assign .. | .clear _ => .writing
  | .unload _ | .release _ | .discard _ => .unloading
  | .write .. | .use .. | .probe .. | .rebase .. | .setBase _ | .base | .refuse .. => .storage

namespace Sound

variable (h : s.Sound) {c : Command}

include h

theorem does_making (family : c.family = .making) : Yields s.Does (s.perform c) := by
  cases c with
  | makeNode d => exact .bind fun t ht => yields_ok (.plant (settle_eq_ok ht))
  | makeOwner holding registry => exact h.does_makeOwner holding registry
  | makeConfig config => exact yields_ok (.equip config _)
  | sharedConfig => exact yields_ok (.refer none _)
  | makeRegistry backends config strict => exact does_makeRegistry backends config strict
  | addFile place e => exact yields_ok (.move _ _)
  | _ => cases family

theorem does_looking (family : c.family = .looking) : Yields s.Does (s.perform c) := by
  cases c with
  | look on what =>
    refine .bind fun r _ => ?_
    cases r with
    | start | registry => exact yields_told _
    | config => exact yields_error _
  | view on what =>
    refine .bind fun a _ => ?_
    cases what <;> exact yields_told _
  | detail | isLoaded => exact .bind fun _ _ => yields_told _
  | child on segment =>
    refine .bind fun n _ => .bind fun found hfound => ?_
    cases found with
    | none => exact yields_told _
    | some child =>
      have hchild :=
        (h.reached.sound.forest.after (Node.mem_children_of_childAt (settle_eq_ok hfound))).2
      exact yields_ok (.give hchild _)
  | ask on q address args => exact .bind fun a ha => h.does_ask (h.start ha) q address args
  | item on address => exact .bind fun id hid => h.does_item (h.owner hid) address
  | root on =>
    refine .bind fun id _ => ?_
    split
    · next n hroot => exact yields_ok (.give (h.reached.sound.roots hroot) _)
    · exact yields_told _
  | identical => exact .bind fun _ _ => .bind fun _ _ => yields_told _
  | _ => cases family

theorem does_writing (family : c.family = .writing) : Yields s.Does (s.perform c) := by
  cases c with
  | add on address content =>
    refine .bind fun a ha => .bind fun found hfound => ?_
    cases found with
    | none => exact yields_told _
    | some put => exact yields_ok (.put (h.start ha) (settle_eq_ok hfound) _ (Or.inr rfl))
  | set on address content =>
    refine .bind fun a ha => .bind fun found hfound => ?_
    cases found with
    | none => exact yields_told _
    | some put => exact yields_ok (.put (h.start ha) (settle_eq_ok hfound) _ (Or.inl rfl))
  | assign on address d =>
    refine .bind fun a ha => .bind fun found hfound => ?_
    cases found with
    | none => exact .bind fun _ _ => yields_error _
    | some put => exact yields_ok (.put (h.start ha) (settle_eq_ok hfound) _ (Or.inl rfl))
  | clear on => exact .bind fun n hn => yields_ok (.clear (h.node hn) _)
  | _ => cases family

theorem does_unloading (family : c.family = .unloading) : Yields s.Does (s.perform c) := by
  cases c with
  | unload | release => exact .bind fun id hid => yields_ok (.unload (h.owner hid) _)
  | discard on =>
    cases on with
    | none => exact yields_told _
    | some on => exact .bind fun id hid => yields_ok (.unload (h.owner hid) _)
  | _ => cases family

omit h in
theorem does_storage (family : c.family = .storage) : Yields s.Does (s.perform c) := by
  cases c with
  | write => exact .bind fun _ _ => .bind fun _ _ => yields_told _
  | use on what => exact .bind fun id _ => does_use id what
  | probe b config storage what => cases what <;> exact .bind fun _ _ => yields_told _
  | rebase on base => exact .bind fun id _ => yields_ok (.rebase id base _)
  | setBase base => exact yields_ok (.rebase none base _)
  | base => exact yields_told _
  | refuse on writes e =>
    cases on with
    | none => exact yields_error _
    | some on => exact .bind fun _ _ => yields_error _
  | _ => cases family

/-- What a command does is one of these. -/
theorem does (c : Command) : Yields s.Does (s.perform c) := by
  cases family : c.family with
  | making => exact h.does_making family
  | looking => exact h.does_looking family
  | writing => exact h.does_writing family
  | unloading => exact h.does_unloading family
  | storage => exact does_storage family

end Sound

namespace Does

variable {e : Effect}

/-- A command takes the workspace further by what runs do. -/
theorem later (h : s.Does e) : s.workspace.Later e.workspace := by
  cases h with
  | tell | give | refer => exact .refl _
  | plant tree => exact later_plant tree
  | own known id => exact .step (.refl _) (.own _ id) known
  | hold later => exact later
  | equip config => exact later_equip _ config
  | enlist later r => exact .step later (.enlist r) trivial
  | amend id r => exact .step (.refl _) (.amend id r) trivial
  | put known put => exact later_put known put
  | clear known => exact .step (.refl _) (.clear _) known
  | unload known => exact .step (.refl _) (.unload _) known
  | rebase id base => exact later_rebase _ id base
  | move host => exact .step (.refl _) (.surround _ _ host) trivial

/-- What it names was given out. -/
theorem known (h : s.Does e) {a : Start} (result : e.result = some (.start a)) :
    e.workspace.Knows a := by
  cases h with
  | give known =>
    cases result
    exact known
  | plant =>
    cases result
    exact lt_plant _ _
  | own | hold =>
    cases result
    exact lt_own _ _ _
  | put _ put _ named =>
    rcases named with rfl | rfl
    · cases result
    · cases result
      exact lt_of_put put
  | _ => cases result

end Does

/-- A session stays sound, whatever is commanded. -/
theorem Sound.run (h : s.Sound) (c : Command) (name : Option Text) : (s.run c name).1.Sound := by
  unfold Session.run
  split
  · next e hperform =>
    have does := h.does c e hperform
    refine ⟨does.later.reached h.reached, ?_⟩
    intro key a hget
    simp only at hget ⊢
    split at hget
    · next name r hresult =>
      by_cases hkey : key = name
      · subst hkey
        rw [Entries.get?_put_self] at hget
        exact does.known (hresult.trans hget)
      · rw [Entries.get?_put_of_ne hkey] at hget
        exact does.later.knows h.reached (h.known hget)
    · exact does.later.knows h.reached (h.known hget)
  · exact h

end Session

end Grove
