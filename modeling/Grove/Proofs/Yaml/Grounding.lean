import Grove.Proofs.Document.Grounding
import Grove.Proofs.Yaml.Filling

/-!
# YAML is read into grounded values

A reference to a container is made when its node is met, and every node that is met is filled in the
end, with a container of the type that its tag tells: merging, which changes nodes on the way, makes
none of them a container and none of them anything else. Only scalars can be keys.
-/
namespace Grove.Yaml

/-! ## Scalars -/

theorem isSimple_intValue {text : List CodePoint} {v : Value}
    (h : intValue text = .ok v) : v.IsSimple := by
  obtain ⟨_, -, h⟩ := ok_of_bind h
  obtain ⟨_, -, h⟩ := ok_of_bind h
  cases h
  trivial

theorem isSimple_floatValue {text : List CodePoint} {v : Value}
    (h : floatValue text = .ok v) : v.IsSimple := by
  obtain ⟨_, -, h⟩ := ok_of_bind h
  dsimp only at h
  split at h
  · cases h
  split at h
  · cases h
    trivial
  split at h
  · cases h
    trivial
  split at h
  · obtain ⟨_, -, h⟩ := ok_of_bind h
    obtain ⟨_, -, h⟩ := ok_of_bind h
    cases h
    trivial
  · obtain ⟨_, -, h⟩ := ok_of_bind h
    cases h
    trivial

theorem isSimple_timeValue {text : List CodePoint} {v : Value}
    (h : timeValue text = .ok v) : v.IsSimple := by
  unfold timeValue at h
  split at h
  · obtain ⟨t, -, h⟩ := ok_of_bind h
    dsimp only at h
    split at h
    · cases h
    · split at h
      · cases h
        trivial
      · split at h
        · cases h
        · split at h
          · cases h
          · cases h
            trivial
  · cases h

theorem isSimple_truthValue {text : List CodePoint} {v : Value}
    (h : truthValue text = .ok v) : v.IsSimple := by
  unfold truthValue at h
  dsimp only at h
  split at h
  · cases h
    trivial
  · split at h
    · cases h
      trivial
    · cases h

/-- The value of a scalar is of a simple type. -/
theorem isSimple_scalarValue {tag : Tag} {text : List CodePoint} {v : Value}
    (h : scalarValue tag text = .ok v) :
    v.IsSimple := by
  unfold scalarValue at h
  split at h
  · cases h
    trivial
  · exact isSimple_truthValue h
  · exact isSimple_intValue h
  · exact isSimple_floatValue h
  · exact isSimple_timeValue h
  · split at h
    · obtain ⟨_, -, h⟩ := ok_of_bind h
      cases h
      trivial
    · cases h
  · cases h
    trivial
  · cases h

/-! ## Merging -/

/-- What a node with a tag is filled as, if it is a container: a sequence, a mapping, or a set, of
which nothing is kept. -/
def Tag.content? : Tag → Option (Option Container)
  | .seq | .orderedMap | .pairs => some (some .list)
  | .map => some (some .dict)
  | .set => some none
  | _ => none

def content? (nodes : Array Node) (id : Nat) : Option (Option Container) :=
  (nodeAt nodes id).tag.content?

theorem lt_size_of_content? {nodes : Array Node} {id : Nat} {c : Option Container}
    (h : content? nodes id = some c) :
    id < nodes.size := by
  by_contra hle
  rw [content?, nodeAt, Array.getD_eq_getD_getElem?,
    Array.getElem?_eq_none (Nat.le_of_not_lt hle)] at h
  cases h

/-- Nodes change, but none of them becomes a container or ceases to be one. -/
structure Keeps (nodes nodes' : Array Node) : Prop where
  size : nodes'.size = nodes.size
  content : ∀ id, content? nodes' id = content? nodes id

theorem Keeps.refl (nodes : Array Node) : Keeps nodes nodes :=
  ⟨rfl, fun _ => rfl⟩

theorem Keeps.trans {nodes nodes' nodes'' : Array Node} (h : Keeps nodes nodes')
    (h' : Keeps nodes' nodes'') :
    Keeps nodes nodes'' :=
  ⟨h'.size.trans h.size, fun id => (h'.content id).trans (h.content id)⟩

theorem keeps_set {nodes : Array Node} {id : Nat} {n : Node}
    (h : n.tag.content? = content? nodes id) :
    Keeps nodes (nodes.setIfInBounds id n) := by
  constructor
  · exact Array.size_setIfInBounds
  · intro other
    by_cases heq : other = id
    · subst heq
      by_cases hlt : other < nodes.size
      · rw [content?, nodeAt, Array.getD_eq_getD_getElem?,
          Array.getElem?_setIfInBounds_self_of_lt hlt]
        exact h
      · rw [Array.setIfInBounds_eq_of_size_le (Nat.le_of_not_lt hlt)]
    · rw [content?, nodeAt, Array.getD_eq_getD_getElem?,
        Array.getElem?_setIfInBounds_ne (Ne.symm heq), ← Array.getD_eq_getD_getElem?]
      rfl

/-- Merging changes what mappings hold and which keys are text, and no more. -/
theorem keeps_merge (fuel : Nat) :
    (∀ {id i : Nat} {merged : List (Nat × Nat)} {nodes nodes' : Array Node},
      mergeFrom fuel id i merged nodes = some nodes' → Keeps nodes nodes') ∧
    ∀ {ids : List Nat} {nodes nodes' : Array Node} {taken : List (List (Nat × Nat))},
      mergeAll fuel ids nodes = some (taken, nodes') → Keeps nodes nodes' := by
  induction fuel with
  | zero => exact ⟨nofun, nofun⟩
  | succ fuel ih =>
    obtain ⟨ihFrom, ihAll⟩ := ih
    constructor
    · intro id i merged nodes nodes' h
      rw [mergeFrom] at h
      split at h
      · next tag entries hid =>
        have same : ∀ es, Keeps nodes (nodes.setIfInBounds id (.mapping tag es)) := by
          intro es
          apply keeps_set
          rw [content?, hid]
          rfl
        split at h
        · split at h
          · cases h
            exact .refl nodes
          · cases h
            exact same _
        · next key value _ =>
          split at h
          case h_1 | h_2 | h_3 =>
            dsimp only at h
            split at h
            · obtain ⟨nodes₁, hvalue, h⟩ := Option.bind_eq_some_iff.mp h
              obtain ⟨taken, -, h⟩ := Option.bind_eq_some_iff.mp h
              exact ((same _).trans (ihFrom hvalue)).trans (ihFrom h)
            · obtain ⟨⟨taken, nodes₁⟩, hall, h⟩ := Option.bind_eq_some_iff.mp h
              exact ((same _).trans (ihAll hall)).trans (ihFrom h)
            · cases h
          case h_4 hkey | h_5 hkey | h_6 hkey =>
            refine (keeps_set ?_).trans (ihFrom h)
            rw [content?, hkey]
            rfl
          case h_7 => exact ihFrom h
      · cases h
    · intro ids nodes nodes' taken h
      cases ids with
      | nil =>
        cases h
        exact .refl nodes
      | cons id ids =>
        rw [mergeAll] at h
        obtain ⟨nodes₁, hfrom, h⟩ := Option.bind_eq_some_iff.mp h
        obtain ⟨first, -, h⟩ := Option.bind_eq_some_iff.mp h
        obtain ⟨⟨others, nodes₂⟩, hall, h⟩ := Option.bind_eq_some_iff.mp h
        cases h
        exact (ihFrom hfrom).trans (ihAll hall)

namespace Assembly

/-! ## Reading values -/

variable {s s' s'' : Assembly}

/-- The references that will be answered: to the sequences and mappings that have been met. -/
def Known (s : Assembly) (kind : Container) (id : Nat) : Prop :=
  id ∈ s.met ∧ content? s.nodes id = some (some kind)

/-- A state comes from another by reading nodes: containers are met on the way, and mappings
merged. -/
structure Reads (s s' : Assembly) : Prop where
  keeps : Keeps s.nodes s'.nodes
  grows : ∃ new, s.Grows s' new ∧ ∀ id ∈ new, (content? s.nodes id).isSome = true

theorem Reads.refl (s : Assembly) : s.Reads s :=
  ⟨.refl _, [], .refl s, List.forall_mem_nil _⟩

theorem Reads.trans (h : s.Reads s') (h' : s'.Reads s'') : s.Reads s'' := by
  obtain ⟨keeps, new, grows, hnew⟩ := h
  obtain ⟨keeps', new', grows', hnew'⟩ := h'
  refine ⟨keeps.trans keeps', new ++ new', grows.trans grows', ?_⟩
  intro id hid
  rcases List.mem_append.mp hid with hid | hid
  · exact hnew id hid
  · rw [← keeps.content]
    exact hnew' id hid

theorem Reads.known (h : s.Reads s') {kind : Container} {id : Nat} (hid : s.Known kind id) :
    s'.Known kind id := by
  obtain ⟨keeps, new, grows, -⟩ := h
  exact ⟨grows.mem_met.mpr (Or.inr hid.1), (keeps.content id).trans hid.2⟩

theorem Reads.grounded (h : s.Reads s') {v : Value} (hv : v.Grounded s.Known) :
    v.Grounded s'.Known :=
  hv.mono fun _ _ => h.known

theorem some_of_orMalformed {α : Type} {x : Option α} {a : α}
    (h : orMalformed x = .ok a) : x = some a := by
  cases x with
  | none => cases h
  | some _ =>
    cases h
    rfl

theorem reads_merged {nodes : Array Node} (h : Keeps s.nodes nodes) : s.Reads { s with nodes } where
  keeps := h
  grows := ⟨[], ⟨rfl, rfl, (List.append_nil _).symm, List.nodup_nil, List.forall_mem_nil _⟩,
    List.forall_mem_nil _⟩

theorem reads_meet {id : Nat} {c : Option Container} (h : content? s.nodes id = some c) :
    s.Reads (s.meet id) ∧ id ∈ (s.meet id).met := by
  obtain ⟨new, grows, hnew, hmet⟩ := s.grows_meet id
  refine ⟨⟨?_, new, grows, ?_⟩, hmet⟩
  · rw [(s.nodes_meet id).1]
    exact .refl _
  · intro other hother
    rw [hnew other hother, h]
    rfl

/-- A container that is met may be referred to, but it cannot be a key. -/
theorem reads_shared {id : Nat} {kind : Container} (h : content? s.nodes id = some (some kind)) :
    s.Reads (s.meet id) ∧ (Value.shared kind id).Grounded (s.meet id).Known ∧
      ((Value.shared kind id).unhashable? = none → (Value.shared kind id).Worded) := by
  obtain ⟨reads, hmet⟩ := reads_meet h
  refine ⟨reads, .shared ⟨hmet, ?_⟩, ?_⟩
  · rw [(s.nodes_meet id).1]
    exact h
  · cases kind <;> nofun

/-- The value of a node is grounded once the node has been met, and has a text if it may be a
key. -/
theorem reads_value {id : Nat} {v : Value} (h : s.value id = .ok (v, s')) :
    s.Reads s' ∧ v.Grounded s'.Known ∧ (v.unhashable? = none → v.Worded) := by
  unfold value at h
  dsimp only at h
  split at h
  · next htag =>
    cases h
    exact reads_shared (by rw [content?, htag]; rfl)
  · next htag =>
    cases h
    exact reads_shared (by rw [content?, htag]; rfl)
  · next htag =>
    cases h
    exact reads_shared (by rw [content?, htag]; rfl)
  · next htag =>
    cases h
    exact reads_shared (by rw [content?, htag]; rfl)
  · next htag =>
    cases h
    have hset : content? s.nodes id = some none := by rw [content?, htag]; rfl
    exact ⟨(reads_meet hset).1,
      .inPlace (by simp) (List.forall_mem_nil _) (List.forall_mem_nil _), nofun⟩
  · obtain ⟨text, -, h⟩ := ok_of_bind h
    split at h
    · next hvalue =>
      cases h
      have simple := isSimple_scalarValue hvalue
      exact ⟨.refl s, simple.grounded _, fun _ => simple.worded⟩
    · cases h
    · cases h
    · cases h

theorem reads_values {ids : List Nat} {vs : List Value} (h : values ids s = .ok (vs, s')) :
    s.Reads s' ∧ ∀ v ∈ vs, v.Grounded s'.Known := by
  induction ids generalizing s vs with
  | nil =>
    cases h
    exact ⟨.refl _, List.forall_mem_nil _⟩
  | cons id ids ih =>
    obtain ⟨⟨v, s₁⟩, hvalue, h⟩ := ok_of_bind h
    obtain ⟨⟨rest, s₂⟩, hvalues, h⟩ := ok_of_bind h
    cases h
    obtain ⟨first, grounded, -⟩ := reads_value hvalue
    obtain ⟨others, hrest⟩ := ih hvalues
    exact ⟨first.trans others, List.forall_mem_cons.mpr ⟨others.grounded grounded, hrest⟩⟩

theorem reads_pairsOf {ids : List Nat} {vs : List Value} (h : pairsOf ids s = .ok (vs, s')) :
    s.Reads s' ∧ ∀ v ∈ vs, v.Grounded s'.Known := by
  induction ids generalizing s vs with
  | nil =>
    cases h
    exact ⟨.refl _, List.forall_mem_nil _⟩
  | cons id ids ih =>
    rw [pairsOf] at h
    split at h
    · obtain ⟨⟨k, s₁⟩, hkey, h⟩ := ok_of_bind h
      obtain ⟨⟨v, s₂⟩, hvalue, h⟩ := ok_of_bind h
      obtain ⟨⟨rest, s₃⟩, hrest, h⟩ := ok_of_bind h
      cases h
      obtain ⟨first, key, -⟩ := reads_value hkey
      obtain ⟨second, value, -⟩ := reads_value hvalue
      obtain ⟨others, hrest⟩ := ih hrest
      refine ⟨(first.trans second).trans others,
        List.forall_mem_cons.mpr ⟨Value.grounded_tuple ?_, hrest⟩⟩
      refine List.forall_mem_cons.mpr ⟨(second.trans others).grounded key, ?_⟩
      exact List.forall_mem_singleton.mpr (others.grounded value)
    · cases h

def GroundedEntries (s : Assembly) (entries : List (Key × Value)) : Prop :=
  ∀ e ∈ entries, e.1.value.Worded ∧ e.2.Grounded s.Known

theorem Reads.groundedEntries (h : s.Reads s') {entries : List (Key × Value)}
    (hs : s.GroundedEntries entries) :
    s'.GroundedEntries entries :=
  fun e he => ⟨(hs e he).1, h.grounded (hs e he).2⟩

/-- An entry is put under its own key or under the equal one that was there. -/
theorem GroundedEntries.put {entries : List (Key × Value)} (h : s.GroundedEntries entries)
    {k : Key} {v : Value} (hk : k.value.Worded) (hv : v.Grounded s.Known) :
    s.GroundedEntries (Value.putEntry Key.same k v entries) := by
  induction entries with
  | nil => exact List.forall_mem_singleton.mpr ⟨hk, hv⟩
  | cons e entries ih =>
    obtain ⟨he, hrest⟩ := List.forall_mem_cons.mp h
    rw [Value.putEntry]
    split
    · exact List.forall_mem_cons.mpr ⟨⟨he.1, hv⟩, hrest⟩
    · exact List.forall_mem_cons.mpr ⟨he, ih hrest⟩

theorem reads_putEntries {entries : List (Nat × Nat)} {done es : List (Key × Value)}
    (hdone : s.GroundedEntries done) (h : putEntries entries done s = .ok (es, s')) :
    s.Reads s' ∧ s'.GroundedEntries es := by
  induction entries generalizing s done with
  | nil =>
    cases h
    exact ⟨.refl _, hdone⟩
  | cons e entries ih =>
    obtain ⟨⟨k, s₁⟩, hkey, h⟩ := ok_of_bind h
    dsimp only at h
    split at h
    · cases h
    · next hashable =>
      obtain ⟨⟨v, s₂⟩, hvalue, h⟩ := ok_of_bind h
      obtain ⟨first, -, worded⟩ := reads_value hkey
      obtain ⟨second, value, -⟩ := reads_value hvalue
      have key : (s₂.key e.1 k).value.Worded := worded (by simpa using hashable)
      obtain ⟨others, hes⟩ := ih (((first.trans second).groundedEntries hdone).put key value) h
      exact ⟨(first.trans second).trans others, hes⟩

/-- The body of a container is a container of the type that its node tells, and grounded. -/
theorem reads_body {id : Nat} {v : Value} (h : s.body id = .ok (v, s')) :
    s.Reads s' ∧ v.Grounded s'.Known ∧ ∀ c, content? s.nodes id = some c → v.container? = c := by
  have list : ∀ {tag : Tag} {items : List Nat} {vs : List Value} {s' : Assembly},
      nodeAt s.nodes id = .sequence tag items → tag.content? = some (some .list) →
      s.Reads s' ∧ (∀ v ∈ vs, v.Grounded s'.Known) →
      s.Reads s' ∧ (Value.list vs).Grounded s'.Known ∧
        ∀ c, content? s.nodes id = some c → (Value.list vs).container? = c := by
    intro tag items vs s' hnode htag hvs
    refine ⟨hvs.1, Value.grounded_list hvs.2, ?_⟩
    intro c hc
    rw [content?, hnode] at hc
    exact Option.some.inj (htag.symm.trans hc)
  unfold body at h
  split at h
  · next hnode =>
    obtain ⟨⟨vs, s₁⟩, hvalues, h⟩ := ok_of_bind h
    cases h
    exact list hnode rfl (reads_values hvalues)
  · next hnode =>
    obtain ⟨⟨vs, s₁⟩, hpairs, h⟩ := ok_of_bind h
    cases h
    exact list hnode rfl (reads_pairsOf hpairs)
  · next hnode =>
    obtain ⟨⟨vs, s₁⟩, hpairs, h⟩ := ok_of_bind h
    cases h
    exact list hnode rfl (reads_pairsOf hpairs)
  · next tag entries hnode =>
    split at h
    · next htag =>
      obtain ⟨nodes, hmerge, h⟩ := ok_of_bind h
      obtain ⟨⟨es, s₁⟩, hput, h⟩ := ok_of_bind h
      cases h
      have merged : s.Reads { s with nodes } :=
        reads_merged ((keeps_merge _).1 (some_of_orMalformed hmerge))
      obtain ⟨reads, hes⟩ := reads_putEntries (List.forall_mem_nil _) hput
      have hcases : tag = .map ∨ tag = .set := by simpa using htag
      refine ⟨merged.trans reads, ?_⟩
      rw [content?, hnode]
      rcases hcases with rfl | rfl
      · exact ⟨Value.grounded_dict (List.forall_mem_map.mpr hes), fun c hc => Option.some.inj hc⟩
      · refine ⟨.inPlace (by simp) (List.forall_mem_nil _) (List.forall_mem_nil _), fun c hc =>
          Option.some.inj hc⟩
    · cases h
  · cases h

/-! ## Filling -/

/-- A container has a body of its type, and what it holds is grounded. -/
def Answered (s : Assembly) (id : Nat) : Prop :=
  ∃ body, s.bodies[id]? = some body ∧ body.Grounded s.Known ∧
    ∀ c, content? s.nodes id = some c → body.container? = c

/-- What holds while containers are filled: all that have been met are answered but the pending
ones. -/
structure Gathered (s : Assembly) : Prop where
  queued : s.Queued
  size : s.bodies.size = s.nodes.size
  answered : ∀ id ∈ s.met, id ∉ s.pending → s.Answered id

/-- Reading on leaves what has been met in its order. -/
theorem Reads.queued (h : s.Reads s') (queued : s.Queued) : s'.Queued := by
  obtain ⟨keeps, new, grows, hnew⟩ := h
  refine queued.grow grows keeps.size fun c hc => ?_
  obtain ⟨content, hcontent⟩ := Option.isSome_iff_exists.mp (hnew c hc)
  exact lt_size_of_content? hcontent

/-- Filling one container. -/
theorem Gathered.step (h : s.Gathered) {id : Nat} {rest : List Nat}
    (hpending : s.pending = id :: rest) {v : Value}
    (hbody : body { s with pending := rest } id = .ok (v, s')) :
    Gathered { s' with bodies := s'.bodies.setIfInBounds id v } := by
  obtain ⟨reads, grounded, hcontent⟩ := reads_body hbody
  have keeps : Keeps s.nodes s'.nodes := reads.keeps
  obtain ⟨new, grows, -⟩ := reads.grows
  have queued := reads.queued (h.queued.take hpending)
  have hbodies : s'.bodies = s.bodies := grows.bodies
  constructor
  case queued => exact ⟨queued.nodup, queued.inside, queued.pending_nodup, queued.pending_met⟩
  case size =>
    show (s'.bodies.setIfInBounds id v).size = s'.nodes.size
    rw [Array.size_setIfInBounds, hbodies, keeps.size]
    exact h.size
  case answered =>
    intro c hc hdone
    show ∃ body, (s'.bodies.setIfInBounds id v)[c]? = some body ∧ body.Grounded s'.Known ∧
      ∀ k, content? s'.nodes c = some k → body.container? = k
    rw [keeps.content c, hbodies]
    by_cases hcid : c = id
    · subst hcid
      have hlt : c < s.bodies.size := by
        rw [h.size]
        exact h.queued.inside c (h.queued.pending_met c (hpending ▸ List.mem_cons_self))
      exact ⟨v, Array.getElem?_setIfInBounds_self_of_lt hlt, grounded, hcontent⟩
    · obtain ⟨hold, hnot⟩ := grows.done hpending hc hdone hcid
      obtain ⟨body, hstored, hgrounded, hkind⟩ := h.answered c hold hnot
      exact ⟨body, (Array.getElem?_setIfInBounds_ne (Ne.symm hcid)).trans hstored,
        reads.grounded hgrounded, hkind⟩

/-- What has been met when the root is read is pending, and there is fuel to fill all of it. -/
theorem Reads.gathered {nodes : Array Node}
    (reads : Reads ⟨nodes, Array.replicate nodes.size .null, [], []⟩ s) :
    s.Gathered ∧ s.nodes.size + s.pending.length < nodes.size + 1 + s.met.length := by
  have ⟨keeps, new, grows, _⟩ := reads
  have hsize : s.nodes.size = nodes.size := keeps.size
  have hmet : s.met = new.reverse ++ [] := grows.met
  have hpending : s.pending = new := grows.pending
  refine ⟨⟨?_, ?_, ?_⟩, ?_⟩
  · exact reads.queued ⟨List.nodup_nil, List.forall_mem_nil _, List.nodup_nil,
      List.forall_mem_nil _⟩
  · rw [grows.bodies, hsize]
    exact Array.size_replicate
  · intro id hid hdone
    rw [hmet, List.append_nil, List.mem_reverse] at hid
    exact absurd (hpending ▸ hid) hdone
  · rw [hmet, hpending, List.append_nil, List.length_reverse]
    omega

/-- In the end every container that has been met is answered. -/
theorem Gathered.fill (h : s.Gathered) {fuel : Nat}
    (hfuel : s.nodes.size + s.pending.length < fuel + s.met.length) (hfill : s.fill fuel = .ok s') :
    (∀ id ∈ s'.met, s'.Answered id) ∧ ∀ kind id, s.Known kind id → s'.Known kind id := by
  induction fuel generalizing s with
  | zero =>
    have hle := h.queued.length_met_le
    omega
  | succ fuel ih =>
    rw [Assembly.fill] at hfill
    cases hpending : s.pending with
    | nil =>
      simp only [hpending] at hfill
      cases hfill
      refine ⟨fun id hid => h.answered id hid ?_, fun _ _ => id⟩
      rw [hpending]
      exact List.not_mem_nil
    | cons id rest =>
      simp only [hpending] at hfill
      obtain ⟨⟨v, s₁⟩, hbody, hfill⟩ := ok_of_bind hfill
      have reads := (reads_body hbody).1
      obtain ⟨new, grows, -⟩ := reads.grows
      have hlength := grows.length
      have hsize : s₁.nodes.size = s.nodes.size := reads.keeps.size
      have hmore := ih (h.step hpending hbody) ?_ hfill
      · exact ⟨hmore.1, fun kind id hid => hmore.2 kind id (reads.known hid)⟩
      · rw [hpending, List.length_cons] at hfuel
        dsimp only at hlength ⊢
        omega

end Assembly

/-- What a text of YAML is read into is grounded in its table. -/
theorem grounded_read {cs : List CodePoint} {d : Document} (h : read cs = .ok d) :
    ∃ known, d.Grounded known := by
  obtain ⟨tokens, -, h⟩ := ok_of_bind h
  obtain ⟨⟨root, nodes⟩, -, h⟩ := ok_of_bind h
  dsimp only at h
  split at h
  · cases h
    exact ⟨fun _ _ => False, Value.IsSimple.grounded (v := .null) trivial _, fun _ _ => False.elim⟩
  · next root =>
    obtain ⟨⟨v, s⟩, hvalue, h⟩ := ok_of_bind h
    obtain ⟨s', hfill, h⟩ := ok_of_bind h
    cases h
    obtain ⟨reads, grounded, -⟩ := Assembly.reads_value hvalue
    obtain ⟨gathered, hfuel⟩ := reads.gathered
    obtain ⟨answered, known⟩ := gathered.fill hfuel hfill
    refine ⟨s'.Known, grounded.mono known, ?_⟩
    intro kind id hid
    obtain ⟨body, hbody, hgrounded, hkind⟩ := answered id hid.1
    exact ⟨body, hbody, hkind _ hid.2, hgrounded⟩

end Grove.Yaml
