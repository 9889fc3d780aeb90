import Grove.Proofs.Session.Run
import Grove.Proofs.Workspace.Renaming

/-!
# Sessions within sessions

A session may have all that another one has, under other handles, and more besides. A command that
mentions only names for what both have, and that does not depend on where files are looked for,
answers the same in both, and does the same to both.
-/
namespace Grove.Session

open Workspace

/-! ### What commands mention -/

def Holding.mentions : Holding → List Text
  | .existing name => [name]
  | .emptyLevel | .document _ => []

def ConfigChoice.mentions : ConfigChoice → List Text
  | .named name => [name]
  | .unspecified | .own _ => []

def Use.mentions : Use → List Text
  | .serialize data _ => data.toList
  | _ => []

def Command.mentions : Command → List Text
  | .makeOwner holding registry => holding.mentions ++ registry.toList
  | .look on _ | .view on _ | .detail on _ | .child on _ | .ask on .. | .add on .. |
    .set on .. | .assign on ..
  | .clear on | .item on _ | .root on | .isLoaded on | .unload on | .release on | .write on _ |
      .rebase on _ => [on]
  | .makeRegistry _ config _ => config.mentions
  | .discard on | .refuse on _ _ => on.toList
  | .identical on other => [on, other]
  | .use on what => on.toList ++ what.mentions
  | .makeNode _ | .makeConfig _ | .sharedConfig | .addFile .. | .probe .. | .setBase _ | .base => []

/-- Uses of a registry that read its settings for where files are. -/
def Use.readsSettings : Use → Bool
  | .selectForPath _ | .loadStorage .. | .listEntries _ | .settings => true
  | _ => false

def readsBase (s : Session) : Command → Bool
  | .base => true
  | .use on what =>
    what.readsSettings &&
      match s.registry on with
      | .ok id => (s.workspace.registry id).config.isNone
      | .error _ => false
  | _ => false

/-- The backend that a command writes with by the shared settings. -/
def writer? (s : Session) : Command → Option Backend
  | .use on (.serialize _ choice) =>
    match s.registry on with
    | .ok id => s.workspace.writer? id choice
    | .error _ => none
  | .write on choice =>
    match s.owner on with
    | .ok id => s.workspace.writer? (s.workspace.owner id).registry choice
    | .error _ => none
  | _ => none

/-- A command reads the base of the shared settings, or writes by these through a backend that looks
at it. -/
def DependsOnBase (s : Session) (c : Command) : Prop :=
  s.readsBase c = true ∨ ∃ b, s.writer? c = some b ∧ ¬ b.Blind

def Command.setsBase : Command → Bool
  | .setBase _ => true
  | _ => false

/-! ### What names stand for -/

def Reference.rename (f : NodeId → NodeId) (g : OwnerId → OwnerId) : Reference → Reference
  | .start a => .start (a.rename f g)
  | .registry id => .registry id
  | .config id => .config id

/-- What a command does in one session is what it does in another, up to handles. -/
structure Effect.Mirrors (f : NodeId → NodeId) (g : OwnerId → OwnerId) (e e' : Effect) : Prop where
  workspace : e.workspace.Embeds f g e'.workspace
  answer : e'.answer = e.answer
  result : e'.result = e.result.map (Reference.rename f g)

/-- A session has all that another one has, and some names stand for the same in both. -/
structure Mirrors (f : NodeId → NodeId) (g : OwnerId → OwnerId) (mentioned : List Text)
    (s t : Session) : Prop where
  workspace : s.workspace.Embeds f g t.workspace
  names : ∀ name ∈ mentioned, Entries.get? name t.names =
    (Entries.get? name s.names).map (Reference.rename f g)

variable {f : NodeId → NodeId} {g : OwnerId → OwnerId} {mentioned : List Text}
  {s t : Session} {w v : Workspace}

theorem Reference.rename_inj {m n : Nat} {i j : Nat} (hf : Spreads f m n) (hg : Spreads g i j)
    {a b : Reference} :
    a.rename f g = b.rename f g ↔ a = b := by
  rcases a with (a | a) | a | a <;> rcases b with (b | b) | b | b <;>
    simp [Reference.rename, Start.rename, hf.inj, hg.inj]

/-- A result that is the image of another one is settled alike. -/
theorem alike_settle_map {α β : Type} (r : α → β) (x : Except Error α) :
    Alike (fun a b => b = r a) (settle x) (settle (x.map r)) :=
  (Alike.of_map r x).mapError _

namespace Mirrors

variable (h : Mirrors f g mentioned s t)

include h

theorem reference {name : Text} (hname : name ∈ mentioned) :
    Alike (fun r r' => r' = r.rename f g) (s.reference name) (t.reference name) := by
  unfold Session.reference
  rw [h.names name hname]
  cases Entries.get? name s.names with
  | none => exact .error _
  | some r => exact .ok rfl

theorem start {name : Text} (hname : name ∈ mentioned) :
    Alike (fun a b => b = a.rename f g) (s.start name) (t.start name) := by
  refine (h.reference hname).bind_image fun r _ => ?_
  cases r with
  | start a => exact .ok rfl
  | registry | config => exact .error _

theorem node {name : Text} (hname : name ∈ mentioned) :
    Alike (fun n m => m = f n) (s.node name) (t.node name) := by
  refine (h.start hname).bind_image fun a _ => ?_
  cases a with
  | node n => exact .ok rfl
  | owner id => exact .error _

theorem owner {name : Text} (hname : name ∈ mentioned) :
    Alike (fun i j => j = g i) (s.owner name) (t.owner name) := by
  refine (h.start hname).bind_image fun a _ => ?_
  cases a with
  | node n => exact .error _
  | owner id => exact .ok rfl

theorem registry_eq {on : Option Text} (hon : ∀ name, on = some name → name ∈ mentioned) :
    t.registry on = s.registry on := by
  cases on with
  | none => rfl
  | some name =>
    simp only [registry, Session.reference, h.names name (hon name rfl)]
    rcases Entries.get? name s.names with _ | a | id | id <;> rfl

theorem config_eq {name : Text} (hname : name ∈ mentioned) : t.config name = s.config name := by
  simp only [config, Session.reference, h.names name hname]
  rcases Entries.get? name s.names with _ | a | id | id <;> rfl

/-! ### Answers -/

theorem told {a a' : Answer} (same : a' = a) : Effect.Mirrors f g (s.told a) (t.told a') :=
  ⟨h.workspace, same, rfl⟩

/-- What is the same in both is told the same. -/
theorem tells {α : Type} {x y : Except Error α} (same : y = x) (answer : α → Answer) :
    Alike (Effect.Mirrors f g) (settle x >>= fun a => pure (s.told (answer a)))
      (settle y >>= fun a => pure (t.told (answer a))) := by
  rw [same]
  refine Alike.after (settle x) fun a _ => ?_
  exact .ok (h.told rfl)

end Mirrors

section

variable (h : w.Embeds f g v) (forest : w.store.Forest)

include h forest

theorem held_eq (a : Start) : held v (a.rename f g) = held w a := by
  cases a with
  | node n => exact congrArg Answer.node (h.store.tree_eq forest n)
  | owner id => exact congrArg Answer.owned (h.tree_eq forest (.owner id))

theorem mirrors_given {n m : NodeId} (hm : m = f n) :
    Effect.Mirrors f g (given w n) (given v m) := by
  rw [hm]
  exact ⟨h, held_eq h forest (.node n), rfl⟩

theorem mirrors_handed {i j : OwnerId} (hj : j = g i) :
    Effect.Mirrors f g (handed w i) (handed v j) := by
  rw [hj]
  exact ⟨h, held_eq h forest (.owner i), rfl⟩

theorem detail_eq (n : NodeId) (what : Detail) : detail v (f n) what = detail w n what := by
  cases what with
  | keys =>
    rw [detail, detail, h.store.node, Node.items_rename, List.map_map]
    rfl
  | items =>
    rw [detail, detail, h.store.node, Node.items_rename, List.map_map]
    congr 1
    apply List.map_congr_left
    rintro ⟨seg, c⟩ _
    simp [h.store.tree_eq forest c]
  | walk =>
    rw [detail, detail, h.store.walk_eq forest, List.map_map]
    congr 1
    apply List.map_congr_left
    rintro ⟨text, c⟩ _
    simp [h.store.node]

end

theorem lookAtNode_eq (h : w.Embeds f g v) (a : Start) (what : Look) :
    lookAtNode v (a.rename f g) what = lookAtNode w a what := by
  have hnode : (v.root (a.rename f g)).map v.store.node =
      ((w.root a).map w.store.node).map (Node.rename f) := by
    rw [h.root_eq, Option.map_map, Option.map_map]
    exact Option.map_congr fun n _ => h.store.node n
  generalize hn : (w.root a).map w.store.node = n at hnode
  have hchildren : ((n.map (Node.rename f)).map Node.children).getD [] =
      ((n.map Node.children).getD []).map f := by
    cases n <;> simp
  have hdescription : (n.map (Node.rename f)).map Node.description = n.map Node.description := by
    cases n <;> simp
  unfold lookAtNode
  rw [hnode, hn]
  cases what with
  | length => simp only [hchildren, List.length_map]
  | truth => rfl
  | description =>
    simp only [hdescription]
    cases a <;> rfl
  | members =>
    simp only [hchildren, List.map_map]
    congr 1
    apply List.map_congr_left
    intro c _
    simp [h.store.node]

/-! ### What commands do -/

namespace Mirrors

variable (h : Mirrors f g mentioned s t) (sound : s.Sound)

include h sound

theorem makeOwner {holding : Holding} {on : Option Text}
    (hholding : ∀ name ∈ holding.mentions, name ∈ mentioned)
    (hon : ∀ name, on = some name → name ∈ mentioned) :
    Alike (Effect.Mirrors f g) (s.makeOwner holding on) (t.makeOwner holding on) := by
  have forest := sound.reached.sound.forest
  have hregistry := h.registry_eq hon
  cases holding with
  | existing name =>
    have hname : name ∈ mentioned := hholding name (List.mem_singleton.mpr rfl)
    refine (h.node hname).bind_image fun root _ => ?_
    rw [hregistry]
    refine Alike.after _ fun id _ => ?_
    obtain ⟨howner, owned⟩ := h.workspace.own root id
    exact .ok (mirrors_handed owned forest howner)
  | emptyLevel =>
    simp only [Session.makeOwner, hregistry]
    refine Alike.after _ fun id _ => ?_
    obtain ⟨howner, held⟩ := h.workspace.hold (.level []) id
    exact .ok (mirrors_handed held (forest.plant _) howner)
  | document d =>
    simp only [Session.makeOwner, hregistry]
    refine Alike.after _ fun id _ => ?_
    refine Alike.after _ fun tree _ => ?_
    obtain ⟨howner, held⟩ := h.workspace.hold tree id
    exact .ok (mirrors_handed held (forest.plant _) howner)

omit sound in
theorem makeRegistry {config : ConfigChoice} (hconfig : ∀ name ∈ config.mentions, name ∈ mentioned)
    (backends : List Backend) (strict : Bool) :
    Alike (Effect.Mirrors f g) (s.makeRegistry backends config strict)
      (t.makeRegistry backends config strict) := by
  have enlisted : ∀ {w v : Workspace} (id : Option ConfigId), w.Embeds f g v →
      Alike (Effect.Mirrors f g)
        (settle (Registry.ofBackends backends id strict) >>= fun r =>
          pure ⟨(w.enlist r).2, .texts r.names, some (.registry (w.enlist r).1)⟩)
        (settle (Registry.ofBackends backends id strict) >>= fun r =>
          pure ⟨(v.enlist r).2, .texts r.names, some (.registry (v.enlist r).1)⟩) := by
    intro w v id embeds
    refine Alike.after _ fun r _ => ?_
    obtain ⟨hid, enlisted⟩ := embeds.enlist r
    exact .ok ⟨enlisted, rfl, congrArg (fun id => some (Reference.registry id)) hid⟩
  cases config with
  | unspecified => exact enlisted none h.workspace
  | own config =>
    obtain ⟨hid, equipped⟩ := h.workspace.equip config
    simp only [Session.makeRegistry, hid]
    exact enlisted _ equipped
  | named name =>
    have hname : name ∈ mentioned := hconfig name (List.mem_singleton.mpr rfl)
    simp only [Session.makeRegistry, h.config_eq hname]
    exact Alike.after _ fun id _ => enlisted id h.workspace

theorem ask (a : Start) (q : Question) (address : Address) (args : List Value) :
    Alike (Effect.Mirrors f g) (s.ask a q address args) (t.ask (a.rename f g) q address args) := by
  have forest := sound.reached.sound.forest
  have hroot := h.workspace.root_eq a
  have store := h.workspace.store
  unfold Session.ask
  simp only [hroot]
  cases q with
  | subtree =>
    simp only [store.resolve_eq]
    refine (alike_settle_map _ _).bind_image fun found _ => ?_
    cases found with
    | none => exact .ok (h.told rfl)
    | some n => exact .ok (mirrors_given h.workspace forest rfl)
  | listSize => exact h.tells (store.listSize_eq _ _ _) _
  | hasKey => exact h.tells (store.hasKey_eq _ _ _) _
  | scalar kind default => exact h.tells (store.scalar_eq _ _ _ kind default) _
  | lookup kind =>
    simp only [store.lookup_eq]
    refine (alike_settle_map _ _).bind_image fun outcome _ => ?_
    cases outcome with
    | found n =>
      refine .ok (h.told ?_)
      rw [store.tree_eq forest n, store.node, Node.payload_rename]
    | failed kind message => exact .ok (h.told rfl)
  | place =>
    simp only [store.resolveForWrite_eq]
    refine (alike_settle_map _ _).bind_image fun found _ => ?_
    cases found with
    | none => exact .ok (h.told rfl)
    | some place =>
      obtain ⟨parent, last⟩ := place
      refine .ok ⟨h.workspace, ?_, rfl⟩
      simp [store.tree_eq forest parent]

theorem item (id : OwnerId) (address : Address) :
    Alike (Effect.Mirrors f g) (s.item id address) (t.item (g id) address) := by
  have forest := sound.reached.sound.forest
  have store := h.workspace.store
  unfold Session.item
  simp only [h.workspace.root_owner]
  rw [store.lookup_eq]
  refine (alike_settle_map _ _).bind_image fun outcome _ => ?_
  rw [Lookup.unwrap_rename]
  refine (alike_settle_map _ _).bind_image fun n _ => ?_
  simp only [store.node, Node.kind_rename, Node.payload_rename]
  split
  · exact .ok (h.told rfl)
  · exact .ok (mirrors_given h.workspace forest rfl)

/-- An owner that was loaded alike is handed over alike. -/
theorem handedOption {id : Option RegistryId} {loaded : Except Error (Option Tree)}
    {y : Except Error (Option (OwnerId × Workspace))}
    (alike : Alike (Option.Rel fun p q => q.1 = g p.1 ∧ p.2.Embeds f g q.2)
      (s.workspace.keep id loaded) y) :
    Alike (Effect.Mirrors f g) (s.handedOption (s.workspace.keep id loaded))
      (t.handedOption y) := by
  have forest := sound.reached.sound.forest
  refine (alike.mapError _).bind ?_
  intro found found' hfound related
  cases related with
  | none => exact .ok (h.told rfl)
  | @some p q related =>
    obtain ⟨howner, held⟩ := related
    have hkept : p.2.store.Forest := by
      have hkeep := settle_eq_ok hfound
      rcases loaded with e | _ | tree
      · cases hkeep
      · cases hkeep
      · cases hkeep
        exact forest.plant tree
    exact .ok (mirrors_handed held hkept howner)

omit sound in
theorem registered (id : Option RegistryId) (result : Except Error (Backend × Registry)) :
    Alike (Effect.Mirrors f g) (s.registered id result) (t.registered id result) := by
  refine Alike.after _ fun registered _ => ?_
  exact .ok ⟨h.workspace.amend id registered.2, rfl, rfl⟩

theorem use {id : Option RegistryId} {what : Use}
    (hnames : ∀ name ∈ what.mentions, name ∈ mentioned)
    (blind : ∀ data choice, what = .serialize data choice → ∀ b,
      s.workspace.writer? id choice = some b → b.Blind)
    (own : what.readsSettings = true → (s.workspace.registry id).config.isNone = false) :
    Alike (Effect.Mirrors f g) (s.use id what) (t.use id what) := by
  have forest := sound.reached.sound.forest
  have hregistry := h.workspace.besides.registry_eq id
  have hhost := h.workspace.besides.host
  unfold Session.use
  simp only [hregistry]
  cases what with
  | register b replace => exact h.registered id _
  | unregister name => exact h.registered id _
  | names | has => exact .ok (h.told rfl)
  | get | selectForString => exact h.tells rfl _
  | selectForPath storage =>
    have hsettings := h.workspace.besides.settings_eq_of_own (own rfl)
    exact h.tells (by rw [hsettings, hhost]) _
  | createEmpty =>
    obtain ⟨howner, held⟩ := h.workspace.hold (.level []) id
    exact .ok (mirrors_handed held (forest.plant _) howner)
  | loadString v choice => exact h.handedOption sound (h.workspace.loadString id v choice)
  | loadStorage storage choice =>
    exact h.handedOption sound (h.workspace.loadStorage (own rfl) storage choice)
  | listEntries storage => exact h.tells (h.workspace.listEntries_eq (own rfl) storage) _
  | serialize data choice =>
    have serialize_eq := h.workspace.serialize_eq forest (blind data choice rfl)
    cases data with
    | none => exact h.tells (serialize_eq none) _
    | some name =>
      have hname : name ∈ mentioned := hnames name List.mem_cons_self
      refine (h.start hname).bind_image fun a _ => ?_
      exact h.tells (serialize_eq (some a)) _
  | settings =>
    have hsettings := h.workspace.besides.settings_eq_of_own (own rfl)
    simp only [hsettings]
    exact .ok (h.told rfl)

/-- Something is put alike, and what is made of it is the same. -/
theorem afterPut {on : Text} (hon : on ∈ mentioned) (address : Address) (content : Content)
    {next next' : Option (NodeId × Workspace) → Except Refusal Effect}
    (absent : Alike (Effect.Mirrors f g) (next none) (next' none))
    (present : ∀ p q, q.1 = f p.1 → p.2.Embeds f g q.2 → p.2.store.Forest →
      Alike (Effect.Mirrors f g) (next (some p)) (next' (some q))) :
    Alike (Effect.Mirrors f g) (s.start on >>= fun a =>
      settle (s.workspace.put a address content) >>= next)
      (t.start on >>= fun a => settle (t.workspace.put a address content) >>= next') := by
  refine (h.start hon).bind fun a a' ha hrename => ?_
  rw [hrename]
  refine ((h.workspace.put a address content).mapError _).bind fun found found' hfound related => ?_
  cases related with
  | none => exact absent
  | @some p q related =>
    have later := later_put (sound.start ha) (settle_eq_ok hfound)
    exact present p q related.1 related.2 (later.reached sound.reached).sound.forest

omit sound in
theorem probe (b : Backend) (config : StorageConfig) (storage : Text) (what : Probe) :
    Alike (Effect.Mirrors f g) (s.probe b config storage what) (t.probe b config storage what) := by
  unfold Session.probe
  simp only [h.workspace.besides.host]
  cases what with
  | locate | list => exact h.tells rfl _
  | parse => exact h.tells rfl _

end Mirrors

/-- The registry that a command uses is the same in both sessions. -/
theorem Mirrors.registry_use {on : Option Text} {what : Use}
    (h : Mirrors f g (Command.use on what).mentions s t) :
    t.registry on = s.registry on := by
  apply h.registry_eq
  rintro name rfl
  exact List.mem_cons_self

/-- Whether a command reads the shared base is the same in both sessions, as far as its names stand
for the same. -/
theorem Mirrors.readsBase_eq {c : Command} (h : Mirrors f g c.mentions s t) :
    t.readsBase c = s.readsBase c := by
  cases c with
  | use on what =>
    simp only [readsBase, h.registry_use, h.workspace.besides.registry_eq]
  | _ => rfl

/-- So is the backend that a command writes with by shared settings. -/
theorem Mirrors.writer?_eq {c : Command} (h : Mirrors f g c.mentions s t) :
    t.writer? c = s.writer? c := by
  cases c with
  | use on what =>
    cases what with
    | serialize data choice =>
      simp only [writer?, h.registry_use, Workspace.writer?, h.workspace.besides.registry_eq]
    | _ => rfl
  | write on choice =>
    have howner := h.owner List.mem_cons_self
    simp only [writer?]
    revert howner
    generalize s.owner on = x, t.owner on = y
    intro howner
    cases howner with
    | ok related => simp only [related, h.workspace.owner, Owner.rename, Workspace.writer?,
        h.workspace.besides.registry_eq]
    | error refusal => rfl
  | _ => rfl

theorem Mirrors.dependsOnBase_iff {c : Command} (h : Mirrors f g c.mentions s t) :
    t.DependsOnBase c ↔ s.DependsOnBase c := by
  rw [DependsOnBase, DependsOnBase, h.readsBase_eq, h.writer?_eq]

/-! ### Families of commands -/

namespace Mirrors

variable {c : Command} (h : Mirrors f g c.mentions s t) (sound : s.Sound)

include h sound

theorem perform_making (family : c.family = .making) :
    Alike (Effect.Mirrors f g) (s.perform c) (t.perform c) := by
  cases c with
  | makeNode d =>
    refine Alike.after _ fun tree _ => ?_
    obtain ⟨hid, planted⟩ := h.workspace.plant tree
    exact .ok (mirrors_given planted (sound.reached.sound.forest.plant tree) hid)
  | makeOwner holding registry =>
    apply h.makeOwner sound
    · intro name hname
      exact List.mem_append_left _ hname
    · rintro name rfl
      exact List.mem_append_right _ (List.mem_singleton.mpr rfl)
  | makeConfig config =>
    obtain ⟨hid, equipped⟩ := h.workspace.equip config
    exact .ok ⟨equipped, rfl, congrArg (fun id => some (Reference.config (some id))) hid⟩
  | sharedConfig => exact .ok ⟨h.workspace, rfl, rfl⟩
  | makeRegistry backends config strict =>
    exact h.makeRegistry (fun _ hname => hname) backends strict
  | addFile place e => exact .ok ⟨h.workspace.addFile place e, rfl, rfl⟩
  | _ => cases family

theorem perform_looking (family : c.family = .looking) :
    Alike (Effect.Mirrors f g) (s.perform c) (t.perform c) := by
  have forest := sound.reached.sound.forest
  have store := h.workspace.store
  cases c with
  | look on what =>
    refine (h.reference List.mem_cons_self).bind_image fun r _ => ?_
    cases r with
    | start a => exact .ok (h.told (lookAtNode_eq h.workspace a what))
    | registry id =>
      refine .ok (h.told ?_)
      rw [h.workspace.besides.registry_eq]
    | config id => exact .error _
  | view on what =>
    refine (h.start List.mem_cons_self).bind_image fun a _ => ?_
    cases what with
    | dump => exact .ok (h.told (held_eq h.workspace forest a))
    | plain integral =>
      refine .ok (h.told ?_)
      rw [h.workspace.tree_eq forest]
  | detail on what =>
    refine (h.node List.mem_cons_self).bind_image fun n _ => ?_
    exact .ok (h.told (detail_eq h.workspace forest n what))
  | child on segment =>
    refine (h.node List.mem_cons_self).bind_image fun n _ => ?_
    rw [store.node, Node.childAt_rename]
    refine (alike_settle_map _ _).bind_image fun found _ => ?_
    cases found with
    | none => exact .ok (h.told rfl)
    | some c => exact .ok (mirrors_given h.workspace forest rfl)
  | ask on q address args =>
    refine (h.start List.mem_cons_self).bind_image fun a _ => ?_
    exact h.ask sound a q address args
  | item on address =>
    refine (h.owner List.mem_cons_self).bind_image fun id _ => ?_
    exact h.item sound id address
  | root on =>
    refine (h.owner List.mem_cons_self).bind_image fun id _ => ?_
    rw [h.workspace.root_owner]
    cases s.workspace.root (.owner id) with
    | none => exact .ok (h.told rfl)
    | some n => exact .ok (mirrors_given h.workspace forest rfl)
  | isLoaded on =>
    refine (h.owner List.mem_cons_self).bind_image fun id _ => ?_
    refine .ok (h.told ?_)
    rw [h.workspace.root_owner, Option.isSome_map]
  | identical on other =>
    refine (h.reference List.mem_cons_self).bind_image fun a _ => ?_
    refine (h.reference (List.mem_cons_of_mem _ List.mem_cons_self)).bind_image fun b _ => ?_
    refine .ok (h.told ?_)
    simp only [Reference.rename_inj store.spreads h.workspace.owners]
  | _ => cases family

theorem perform_writing (family : c.family = .writing) :
    Alike (Effect.Mirrors f g) (s.perform c) (t.perform c) := by
  cases c with
  | add on address content =>
    apply h.afterPut sound List.mem_cons_self
    · exact .ok (h.told rfl)
    · intro p q hchild put grown
      exact .ok (mirrors_given put grown hchild)
  | set on address content =>
    apply h.afterPut sound List.mem_cons_self
    · exact .ok (h.told rfl)
    · intro p q _ put _
      exact .ok ⟨put, rfl, rfl⟩
  | assign on address d =>
    apply h.afterPut sound List.mem_cons_self
    · exact Alike.after _ fun _ _ => .error _
    · intro p q _ put _
      exact .ok ⟨put, rfl, rfl⟩
  | clear on =>
    refine (h.node List.mem_cons_self).bind_image fun n _ => ?_
    exact .ok ⟨h.workspace.clear sound.reached.sound.forest n, rfl, rfl⟩
  | _ => cases family

theorem perform_unloading (family : c.family = .unloading) :
    Alike (Effect.Mirrors f g) (s.perform c) (t.perform c) := by
  have forest := sound.reached.sound.forest
  cases c with
  | unload on =>
    refine (h.owner List.mem_cons_self).bind_image fun id _ => ?_
    exact .ok ⟨h.workspace.unload forest id, rfl, rfl⟩
  | release on =>
    refine (h.owner List.mem_cons_self).bind_image fun id _ => ?_
    refine .ok ⟨h.workspace.unload forest id, ?_, rfl⟩
    rw [h.workspace.owner, Owner.rename, Option.isSome_map]
  | discard on =>
    cases on with
    | none => exact .ok (h.told rfl)
    | some on =>
      refine (h.owner List.mem_cons_self).bind_image fun id _ => ?_
      exact .ok ⟨h.workspace.unload forest id, rfl, rfl⟩
  | _ => cases family

variable (apart : ¬ s.DependsOnBase c) (sets : c.setsBase = false)

include apart sets

theorem perform_storage (family : c.family = .storage) :
    Alike (Effect.Mirrors f g) (s.perform c) (t.perform c) := by
  have reads : s.readsBase c = false := by simpa using fun hreads => apart (Or.inl hreads)
  have blind : ∀ b, s.writer? c = some b → b.Blind := by
    intro b hb
    by_contra hblind
    exact apart (Or.inr ⟨b, hb, hblind⟩)
  cases c with
  | write on choice =>
    refine (h.owner List.mem_cons_self).bind_image fun id hid => ?_
    rw [h.workspace.registry_owner]
    have blind : ∀ b, s.workspace.writer? (s.workspace.owner id).registry choice =
        some b → b.Blind := by
      simpa [writer?, hid] using blind
    exact h.tells (h.workspace.serialize_eq sound.reached.sound.forest blind (some (.owner id))) _
  | use on what =>
    rw [Session.perform, Session.perform, h.registry_use]
    refine Alike.after _ fun id hid => ?_
    apply h.use sound
    · intro name hname
      exact List.mem_append_right _ hname
    · rintro data choice rfl
      simpa [writer?, hid] using blind
    · intro hreads
      simpa [readsBase, hreads, hid] using reads
  | probe b config storage what => exact h.probe b config storage what
  | rebase on base =>
    rw [Session.perform, Session.perform, h.config_eq List.mem_cons_self]
    refine Alike.after _ fun id _ => ?_
    exact .ok ⟨h.workspace.rebase id base, rfl, rfl⟩
  | setBase base => cases sets
  | base => cases reads
  | refuse on writes e =>
    cases on with
    | none => exact .error _
    | some on =>
      refine (h.reference List.mem_cons_self).bind fun _ _ _ _ => ?_
      exact .error _
  | _ => cases family

/-- A command that neither sets the shared base nor depends on it does the same in both sessions. -/
theorem perform : Alike (Effect.Mirrors f g) (s.perform c) (t.perform c) := by
  cases family : c.family with
  | making => exact h.perform_making sound family
  | looking => exact h.perform_looking sound family
  | writing => exact h.perform_writing sound family
  | unloading => exact h.perform_unloading sound family
  | storage => exact h.perform_storage sound apart sets family

end Mirrors

/-! ### What is reported -/

theorem Command.mem_mentions_of_written? {c : Command} {on : Text} (h : c.written? = some on) :
    on ∈ c.mentions := by
  cases c with
  | add | set | assign | clear | unload | release =>
    cases h
    exact List.mem_cons_self
  | refuse receiver writes e =>
    cases receiver with
    | none => cases h
    | some receiver =>
      cases writes <;> cases h
      exact List.mem_cons_self
  | _ => cases h

/-- What the session after a command names. -/
theorem get?_names_run (s : Session) (c : Command) (name : Option Text) (key : Text) :
    Entries.get? key (s.run c name).1.names =
      match s.perform c with
      | .ok e =>
        if name = some key then (e.result.or (Entries.get? key s.names))
        else Entries.get? key s.names
      | .error _ => Entries.get? key s.names := by
  unfold Session.run
  cases s.perform c with
  | error refusal => rfl
  | ok e =>
    rcases name with _ | name
    · simp
    · rcases hresult : e.result with _ | r
      · simp [hresult]
      · by_cases hkey : name = key
        · subst hkey
          simp [hresult]
        · simp [hresult, hkey, Entries.get?_put_of_ne (Ne.symm hkey)]

section

variable {c : Command} (h : Mirrors f g c.mentions s t) (sound : s.Sound)
  (apart : ¬ s.DependsOnBase c) (sets : c.setsBase = false)

include h sound apart sets

/-- Such a command leaves the one session within the other. -/
theorem Mirrors.workspace_run (name : Option Text) :
    (s.run c name).1.workspace.Embeds f g (t.run c name).1.workspace := by
  have alike := h.perform sound apart sets
  unfold Session.run
  revert alike
  generalize s.perform c = x, t.perform c = y
  intro alike
  cases alike with
  | ok related => exact related.workspace
  | error refusal => exact h.workspace

/-- What it names stands for the same in both, and other names stand for what they stood for. -/
theorem Mirrors.names_run (name : Option Text) (key : Text) :
    Entries.get? key (t.run c name).1.names =
      (Entries.get? key (s.run c name).1.names).map (Reference.rename f g) ∨
      Entries.get? key (t.run c name).1.names = Entries.get? key t.names ∧
        Entries.get? key (s.run c name).1.names = Entries.get? key s.names := by
  have alike := h.perform sound apart sets
  rw [get?_names_run, get?_names_run]
  revert alike
  generalize s.perform c = x, t.perform c = y
  intro alike
  cases alike with
  | error refusal => exact Or.inr ⟨rfl, rfl⟩
  | @ok e e' related =>
    simp only [related.result]
    by_cases hkey : name = some key
    · rcases e.result with _ | r
      · exact Or.inr ⟨by simp, by simp⟩
      · exact Or.inl (by simp [hkey])
    · exact Or.inr ⟨by simp [hkey], by simp [hkey]⟩

/-- It is reported the same. -/
theorem Mirrors.report_run (name : Option Text) : (t.run c name).2 = (s.run c name).2 := by
  have alike := h.perform sound apart sets
  have does := sound.does c
  have receiver : (c.written?.bind fun on => (t.start on).toOption) =
      (c.written?.bind fun on => (s.start on).toOption).map (Start.rename f g) := by
    cases hwritten : c.written? with
    | none => rfl
    | some on =>
      have hstart := h.start (Command.mem_mentions_of_written? hwritten)
      simp only [Option.bind_some]
      revert hstart
      generalize s.start on = x, t.start on = y
      intro hstart
      cases hstart with
      | ok related =>
        rw [related]
        rfl
      | error refusal => rfl
  unfold Session.run
  simp only [receiver, Option.map_map]
  revert alike does
  generalize s.perform c = x, t.perform c = y
  intro alike does
  have held_same : ∀ {w v : Workspace}, w.Embeds f g v → w.store.Forest →
      held v ∘ Start.rename f g = held w := by
    intro w v embeds forest
    funext a
    exact held_eq embeds forest a
  cases alike with
  | error refusal => simp only [held_same h.workspace sound.reached.sound.forest]
  | @ok e e' related =>
    have forest := ((does e rfl).later.reached sound.reached).sound.forest
    simp only [held_same related.workspace forest, related.answer]

end

end Grove.Session
