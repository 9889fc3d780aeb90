import Mathlib.Data.List.Nodup
import Mathlib.Data.List.Perm.Subperm
import Grove.Yaml.Reader

/-!
# Filling the containers of a plain document

In a plain document sequences and mappings have no tags of their own, keys are texts, and every
scalar has a value. Nothing is merged there, and once the containers are filled every one that was
met has the body that its node tells, and what it holds has been met too.
-/
namespace Grove.Yaml

/-! ## Plain nodes -/

def Node.IsPlain (nodes : Array Node) : Node → Prop
  | .scalar tag text => ∃ v, scalarValue tag text = .ok v
  | .sequence tag items => tag = .seq ∧ ∀ i ∈ items, i < nodes.size
  | .mapping tag entries =>
    tag = .map ∧ ∀ e ∈ entries, (∃ text, nodeAt nodes e.1 = .scalar .str text) ∧ e.2 < nodes.size

def PlainNodes (nodes : Array Node) : Prop :=
  ∀ id, (nodeAt nodes id).IsPlain nodes

def Node.isContainer : Node → Bool
  | .scalar .. => false
  | _ => true

section

variable (nodes : Array Node) (id : Nat)

/-- The value of a node: a scalar's own, or a reference to a container. -/
def nodeValue : Value :=
  match nodeAt nodes id with
  | .scalar tag text => (scalarValue tag text).toOption.getD .null
  | .sequence .. => .shared .list id
  | .mapping .. => .shared .dict id

/-- The nodes that a container holds, less its keys. -/
def nodeParts : List Nat :=
  match nodeAt nodes id with
  | .scalar .. => []
  | .sequence _ items => items
  | .mapping _ entries => entries.map (·.2)

def entriesBody (nodes : Array Node) :
    List (Nat × Nat) → List (Value × Value) → List (Value × Value)
  | [], done => done
  | (k, v) :: es, done =>
    entriesBody nodes es (Value.putEntry Value.same (nodeValue nodes k) (nodeValue nodes v) done)

def nodeBody : Value :=
  match nodeAt nodes id with
  | .scalar .. => .null
  | .sequence _ items => .list (items.map (nodeValue nodes))
  | .mapping _ entries => .dict (entriesBody nodes entries [])

end

theorem lt_size_of_isContainer {nodes : Array Node} {id : Nat}
    (h : (nodeAt nodes id).isContainer = true) :
    id < nodes.size := by
  by_contra hle
  rw [nodeAt, Array.getD_eq_getD_getElem?, Array.getElem?_eq_none (Nat.le_of_not_lt hle)] at h
  cases h

/-! ## Nothing is merged -/

theorem le_foldl_add {f : Node → Nat} {ns : List Node} (n : Nat) :
    n ≤ ns.foldl (fun n node => n + f node) n ∧
    ∀ node ∈ ns, f node ≤ ns.foldl (fun n node => n + f node) n := by
  induction ns generalizing n with
  | nil => exact ⟨Nat.le_refl n, List.forall_mem_nil _⟩
  | cons a ns ih =>
    obtain ⟨hle, hothers⟩ := ih (n + f a)
    exact ⟨Nat.le_trans (Nat.le_add_right _ _) hle,
      List.forall_mem_cons.mpr ⟨Nat.le_trans (Nat.le_add_left _ _) hle, hothers⟩⟩

theorem length_le_entryCount {nodes : Array Node} {id : Nat} {tag : Tag}
    {entries : List (Nat × Nat)} (h : nodeAt nodes id = .mapping tag entries) :
    entries.length ≤ entryCount nodes := by
  have hlt : id < nodes.size := lt_size_of_isContainer (by rw [h]; rfl)
  have hmem : nodeAt nodes id ∈ nodes.toList := by
    rw [nodeAt, Array.getD_eq_getD_getElem?, Array.getElem?_eq_getElem hlt]
    simp
  have hle := (le_foldl_add (f := fun node => (node.entries?.map List.length).getD 0) 0).2 _ hmem
  rw [h] at hle
  rw [entryCount, ← Array.foldl_toList]
  exact hle

theorem mergeFrom_plain {nodes : Array Node} (h : PlainNodes nodes) {id : Nat} {tag : Tag}
    {entries : List (Nat × Nat)} (hid : nodeAt nodes id = .mapping tag entries) {fuel i : Nat}
    (hi : i ≤ entries.length) (hfuel : entries.length < fuel + i) :
    mergeFrom fuel id i [] nodes = some nodes := by
  induction fuel generalizing i with
  | zero => omega
  | succ fuel ih =>
    rw [mergeFrom]
    simp only [hid]
    rcases Nat.lt_or_eq_of_le hi with hlt | rfl
    · have hplain := h id
      rw [hid] at hplain
      obtain ⟨⟨text, hkey⟩, -⟩ := hplain.2 entries[i] (List.getElem_mem hlt)
      rw [List.getElem?_eq_getElem hlt]
      simp only [hkey]
      exact ih hlt (by omega)
    · rw [List.getElem?_eq_none (Nat.le_refl _)]
      rfl

namespace Assembly

/-! ## The value and the body of a node -/

section

variable {s : Assembly}

def note (s : Assembly) (id : Nat) : Assembly :=
  if (nodeAt s.nodes id).isContainer then s.meet id else s

theorem nodes_meet (s : Assembly) (id : Nat) :
    (s.meet id).nodes = s.nodes ∧ (s.meet id).bodies = s.bodies := by
  unfold meet
  split <;> exact ⟨rfl, rfl⟩

theorem nodes_note (s : Assembly) (id : Nat) :
    (s.note id).nodes = s.nodes ∧ (s.note id).bodies = s.bodies := by
  unfold note
  split
  · exact s.nodes_meet id
  · exact ⟨rfl, rfl⟩

theorem value_plain (h : PlainNodes s.nodes) (id : Nat) :
    s.value id = .ok (nodeValue s.nodes id, s.note id) := by
  have hplain := h id
  cases hnode : nodeAt s.nodes id with
  | scalar tag text =>
    rw [hnode] at hplain
    obtain ⟨v, hv⟩ := hplain
    have htext : scalarText s.nodes (s.nodes.size + 1) id = some text := by
      rw [scalarText, hnode]
    have hvalue : nodeValue s.nodes id = v := by
      rw [nodeValue, hnode]
      simp only [hv]
      rfl
    have hnote : s.note id = s := by
      rw [note, hnode]
      rfl
    rw [hvalue, hnote]
    cases tag with
    | null | boolean | int | float | timestamp | binary | str =>
      simp only [value, hnode, Node.tag, htext, orMalformed, bind, Except.bind, hv]
    | _ => cases hv
  | sequence tag items =>
    rw [hnode] at hplain
    obtain ⟨rfl, -⟩ := hplain
    rw [value, note, nodeValue, hnode]
    rfl
  | mapping tag entries =>
    rw [hnode] at hplain
    obtain ⟨rfl, -⟩ := hplain
    rw [value, note, nodeValue, hnode]
    rfl

theorem values_plain (h : PlainNodes s.nodes) (ids : List Nat) :
    values ids s = .ok (ids.map (nodeValue s.nodes), ids.foldl note s) := by
  induction ids generalizing s with
  | nil => rfl
  | cons id ids ih =>
    have hnodes := (s.nodes_note id).1
    have hmore := ih (s := s.note id) (by rw [hnodes]; exact h)
    rw [values, value_plain h id]
    simp only [bind, Except.bind, hmore, hnodes]
    rfl

/-- Under a key that is text an entry is put as among plain values. -/
theorem plainEntries_putEntry {k : Key} {text : Text} (hk : k.value = .text text) (v : Value)
    (done : List (Key × Value)) :
    plainEntries (Value.putEntry Key.same k v done) =
      Value.putEntry Value.same k.value v (plainEntries done) := by
  have hsame : ∀ a : Key, a.same k = a.value.same k.value := by
    intro a
    rw [Key.same, hk]
    split
    · next htext => cases htext
    · rfl
  induction done with
  | nil => rfl
  | cons e done ih =>
    have hput : Value.putEntry Value.same k.value v (plainEntries (e :: done)) =
        if e.1.value.same k.value then (e.1.value, v) :: plainEntries done
        else (e.1.value, e.2) :: Value.putEntry Value.same k.value v (plainEntries done) := rfl
    rw [Value.putEntry, hsame, hput]
    split
    · rfl
    · exact congrArg (_ :: ·) ih

theorem putEntries_plain (h : PlainNodes s.nodes) {entries : List (Nat × Nat)}
    (hkeys : ∀ e ∈ entries, ∃ text, nodeAt s.nodes e.1 = .scalar .str text)
    (done : List (Key × Value)) :
    ∃ es, putEntries entries done s = .ok (es, (entries.map (·.2)).foldl note s) ∧
      plainEntries es = entriesBody s.nodes entries (plainEntries done) := by
  induction entries generalizing s done with
  | nil => exact ⟨done, rfl, rfl⟩
  | cons e entries ih =>
    obtain ⟨key, id⟩ := e
    obtain ⟨⟨text, hkey⟩, hothers⟩ := List.forall_mem_cons.mp hkeys
    have hnodes := (s.nodes_note id).1
    have hmore := fun done =>
      ih (s := s.note id) (by rw [hnodes]; exact h) (by rw [hnodes]; exact hothers) done
    have hnote : s.note key = s := by
      rw [note, hkey]
      rfl
    have htext : nodeValue s.nodes key = .text (Text.ofList text) := by
      rw [nodeValue, hkey]
      rfl
    have hhashable : (nodeValue s.nodes key).unhashable?.isSome = false := by
      rw [htext]
      rfl
    obtain ⟨es, hput, hplain⟩ :=
      hmore (Value.putEntry Key.same ((s.note id).key key (nodeValue s.nodes key))
      (nodeValue s.nodes id) done)
    refine ⟨es, ?_, ?_⟩
    · rw [putEntries, value_plain h key, hnote]
      simp only [bind, Except.bind, hhashable, Bool.false_eq_true, if_false, value_plain h id, hput]
      rfl
    · rw [hplain, hnodes, plainEntries_putEntry htext]
      rfl

theorem body_plain (h : PlainNodes s.nodes) {id : Nat}
    (hid : (nodeAt s.nodes id).isContainer = true) :
    s.body id = .ok (nodeBody s.nodes id, (nodeParts s.nodes id).foldl note s) := by
  have hplain := h id
  cases hnode : nodeAt s.nodes id with
  | scalar tag text =>
    rw [hnode] at hid
    cases hid
  | sequence tag items =>
    rw [hnode] at hplain
    obtain ⟨rfl, -⟩ := hplain
    rw [body, nodeBody, nodeParts, hnode]
    simp only [values_plain h, bind, Except.bind]
    rfl
  | mapping tag entries =>
    rw [hnode] at hplain
    obtain ⟨rfl, hentries⟩ := hplain
    have hmerge : mergeFrom
        ((entryCount s.nodes + s.nodes.size + 2) * (entryCount s.nodes + s.nodes.size + 2)) id 0 []
        s.nodes = some s.nodes := by
      have hle := length_le_entryCount hnode
      refine mergeFrom_plain h hnode (Nat.zero_le _) ?_
      have hsquare := Nat.le_mul_self (entryCount s.nodes + s.nodes.size + 2)
      omega
    obtain ⟨es, hput, hplain⟩ := putEntries_plain h (fun e he => (hentries e he).1) []
    rw [body, nodeBody, nodeParts, hnode]
    simp only [hmerge, orMalformed, bind, Except.bind, hnode, Node.entries?, Option.getD_some,
      hput, if_true, hplain]
    rfl

end

/-! ## Containers are met once -/

/-- One state comes from another by meeting containers that had not been met, in the order in which
they are met. -/
structure Grows (s s' : Assembly) (new : List Nat) : Prop where
  bodies : s'.bodies = s.bodies
  met : s'.met = new.reverse ++ s.met
  pending : s'.pending = s.pending ++ new
  nodup : new.Nodup
  fresh : ∀ id ∈ new, id ∉ s.met

theorem Grows.refl (s : Assembly) : s.Grows s [] where
  bodies := rfl
  met := rfl
  pending := (List.append_nil _).symm
  nodup := List.nodup_nil
  fresh := List.forall_mem_nil _

theorem Grows.trans {s s' s'' : Assembly} {new new' : List Nat} (h : s.Grows s' new)
    (h' : s'.Grows s'' new') :
    s.Grows s'' (new ++ new') where
  bodies := h'.bodies.trans h.bodies
  met := by rw [h'.met, h.met, List.reverse_append, List.append_assoc]
  pending := by rw [h'.pending, h.pending, List.append_assoc]
  nodup := by
    refine List.nodup_append.mpr ⟨h.nodup, h'.nodup, ?_⟩
    rintro id hid _ hid' rfl
    refine h'.fresh id hid' ?_
    rw [h.met]
    exact List.mem_append_left _ (List.mem_reverse.mpr hid)
  fresh := by
    intro id hid
    rcases List.mem_append.mp hid with hid | hid
    · exact h.fresh id hid
    · intro hmet
      refine h'.fresh id hid ?_
      rw [h.met]
      exact List.mem_append_right _ hmet

theorem Grows.mem_met {s s' : Assembly} {new : List Nat} (h : s.Grows s' new) {id : Nat} :
    id ∈ s'.met ↔ id ∈ new ∨ id ∈ s.met := by
  rw [h.met, List.mem_append, List.mem_reverse]

/-- A container that had been met is not met again. -/
theorem grows_meet (s : Assembly) (id : Nat) :
    ∃ new, s.Grows (s.meet id) new ∧ (∀ c ∈ new, c = id) ∧ id ∈ (s.meet id).met := by
  by_cases hmet : id ∈ s.met
  · rw [meet, if_pos (List.contains_iff_mem.mpr hmet)]
    exact ⟨[], .refl s, List.forall_mem_nil _, hmet⟩
  · rw [meet, if_neg (mt List.contains_iff_mem.mp hmet)]
    refine ⟨[id], ⟨rfl, rfl, rfl, List.nodup_singleton id, ?_⟩, fun c => List.mem_singleton.mp,
      List.mem_cons_self⟩
    intro c hc
    rwa [List.mem_singleton.mp hc]

/-- The containers that have been met are distinct nodes, and the pending ones are among them. -/
structure Queued (s : Assembly) : Prop where
  nodup : s.met.Nodup
  inside : ∀ id ∈ s.met, id < s.nodes.size
  pending_nodup : s.pending.Nodup
  pending_met : ∀ id ∈ s.pending, id ∈ s.met

theorem Queued.length_met_le {s : Assembly} (h : s.Queued) : s.met.length ≤ s.nodes.size := by
  have hsub : s.met ⊆ List.range s.nodes.size := fun id hid => List.mem_range.mpr (h.inside id hid)
  simpa using (h.nodup.subperm hsub).length_le

section

variable {s s' : Assembly} {id : Nat} {rest new : List Nat}

/-- The first pending container is taken up. -/
theorem Queued.take (h : s.Queued) (hpending : s.pending = id :: rest) :
    Queued { s with pending := rest } where
  nodup := h.nodup
  inside := h.inside
  pending_nodup := by
    have hnodup := h.pending_nodup
    rw [hpending, List.nodup_cons] at hnodup
    exact hnodup.2
  pending_met c hc := h.pending_met c (hpending ▸ List.mem_cons_of_mem _ hc)

/-- More containers are met. -/
theorem Queued.grow (h : s.Queued) (grows : s.Grows s' new) (size : s'.nodes.size = s.nodes.size)
    (inside : ∀ c ∈ new, c < s.nodes.size) : s'.Queued where
  nodup := by
    rw [grows.met]
    refine List.nodup_append.mpr ⟨(List.reverse_perm new).nodup_iff.mpr grows.nodup, h.nodup, ?_⟩
    rintro c hc _ hc' rfl
    exact grows.fresh c (List.mem_reverse.mp hc) hc'
  inside c hc := by
    rw [size]
    exact (grows.mem_met.mp hc).elim (inside c) (h.inside c)
  pending_nodup := by
    rw [grows.pending]
    refine List.nodup_append.mpr ⟨h.pending_nodup, grows.nodup, ?_⟩
    rintro c hc _ hc' rfl
    exact grows.fresh c hc' (h.pending_met c hc)
  pending_met c hc := by
    rw [grows.mem_met]
    rw [grows.pending] at hc
    rcases List.mem_append.mp hc with hc | hc
    · exact Or.inr (h.pending_met c hc)
    · exact Or.inl hc

/-- All that is not pending after a container was taken up was not pending before, or is that
container. -/
theorem Grows.done (grows : Grows { s with pending := rest } s' new)
    (hpending : s.pending = id :: rest) {c : Nat} (hc : c ∈ s'.met) (hdone : c ∉ s'.pending)
    (hne : c ≠ id) : c ∈ s.met ∧ c ∉ s.pending := by
  rw [grows.pending, List.mem_append, not_or] at hdone
  refine ⟨(grows.mem_met.mp hc).resolve_left hdone.2, ?_⟩
  rw [hpending, List.mem_cons, not_or]
  exact ⟨hne, hdone.1⟩

theorem Grows.length (grows : s.Grows s' new) :
    s'.met.length + s.pending.length = s.met.length + s'.pending.length := by
  rw [grows.met, grows.pending]
  simp only [List.length_append, List.length_reverse]
  omega

end

/-! ## One container after the other -/

/-- Noting nodes adds the containers among them that had not been met. -/
theorem grows_foldl_note (s : Assembly) (ids : List Nat) : ∃ new : List Nat,
    s.Grows (ids.foldl note s) new ∧ (ids.foldl note s).nodes = s.nodes ∧
      (∀ id ∈ new, (nodeAt s.nodes id).isContainer = true) ∧
      ∀ id ∈ ids, (nodeAt s.nodes id).isContainer = true → id ∈ (ids.foldl note s).met := by
  induction ids generalizing s with
  | nil => exact ⟨[], .refl s, rfl, List.forall_mem_nil _, List.forall_mem_nil _⟩
  | cons id ids ih =>
    obtain ⟨new, grows, hnodes, hnew, hids⟩ := ih (s.note id)
    rw [(s.nodes_note id).1] at hnodes hnew hids
    rw [List.foldl_cons]
    by_cases hcontainer : (nodeAt s.nodes id).isContainer = true
    · have hnote : s.note id = s.meet id := by rw [note, if_pos hcontainer]
      obtain ⟨first, hfirst, hid, hmet⟩ := s.grows_meet id
      rw [hnote] at grows hnodes hids ⊢
      refine ⟨first ++ new, hfirst.trans grows, hnodes, ?_,
        List.forall_mem_cons.mpr ⟨fun _ => ?_, hids⟩⟩
      · intro c hc
        rcases List.mem_append.mp hc with hc | hc
        · rw [hid c hc]
          exact hcontainer
        · exact hnew c hc
      · exact grows.mem_met.mpr (Or.inr hmet)
    · have hnote : s.note id = s := by rw [note, if_neg hcontainer]
      rw [hnote] at grows hnodes hids ⊢
      exact ⟨new, grows, hnodes, hnew,
        List.forall_mem_cons.mpr ⟨fun hkind => absurd hkind hcontainer, hids⟩⟩

/-- A container has its body, and the containers that it holds have been met. -/
def Filled (s : Assembly) (id : Nat) : Prop :=
  s.bodies[id]? = some (nodeBody s.nodes id) ∧
    ∀ c ∈ nodeParts s.nodes id, (nodeAt s.nodes c).isContainer = true → c ∈ s.met

/-- What holds while containers are filled: those that have been met are distinct, and all but the
pending ones have been filled. -/
structure Filling (s : Assembly) : Prop where
  size : s.bodies.size = s.nodes.size
  nodup : s.met.Nodup
  containers : ∀ id ∈ s.met, (nodeAt s.nodes id).isContainer = true
  pending_nodup : s.pending.Nodup
  pending_met : ∀ id ∈ s.pending, id ∈ s.met
  filled : ∀ id ∈ s.met, id ∉ s.pending → s.Filled id

theorem Filling.queued {s : Assembly} (h : s.Filling) : s.Queued where
  nodup := h.nodup
  inside id hid := lt_size_of_isContainer (h.containers id hid)
  pending_nodup := h.pending_nodup
  pending_met := h.pending_met

/-- Filling one container. -/
theorem Filling.step {s : Assembly} (h : s.Filling) (plain : PlainNodes s.nodes)
    {id : Nat} {rest : List Nat} (hpending : s.pending = id :: rest) :
    ∃ v s', body { s with pending := rest } id = .ok (v, s') ∧
      Filling { s' with bodies := s'.bodies.setIfInBounds id v } ∧ s'.nodes = s.nodes ∧
      (∀ c ∈ s.met, c ∈ s'.met) ∧
      s'.met.length + rest.length = s.met.length + s'.pending.length := by
  have hmem : id ∈ s.met := h.pending_met id (by rw [hpending]; exact List.mem_cons_self)
  have hbody := body_plain (s := { s with pending := rest }) plain (h.containers id hmem)
  obtain ⟨new, grows, hnodes, hnew, hparts⟩ :=
    grows_foldl_note { s with pending := rest } (nodeParts s.nodes id)
  have hinside : ∀ c ∈ new, c < s.nodes.size := fun c hc => lt_size_of_isContainer (hnew c hc)
  have queued := (h.queued.take hpending).grow grows (congrArg Array.size hnodes) hinside
  have hmet : ∀ c ∈ s.met, c ∈ ((nodeParts s.nodes id).foldl note { s with pending := rest }).met :=
    fun c hc => grows.mem_met.mpr (Or.inr hc)
  refine ⟨_, _, hbody, ?_, hnodes, hmet, grows.length⟩
  constructor
  case nodup => exact queued.nodup
  case pending_nodup => exact queued.pending_nodup
  case pending_met => exact queued.pending_met
  case size =>
    show (Array.setIfInBounds _ _ _).size = Array.size _
    rw [Array.size_setIfInBounds, grows.bodies, hnodes]
    exact h.size
  case containers =>
    intro c hc
    show (nodeAt _ c).isContainer = true
    rw [hnodes]
    exact (grows.mem_met.mp hc).elim (hnew c) (h.containers c)
  case filled =>
    intro c hc hdone
    show (Array.setIfInBounds _ _ _)[c]? = some (nodeBody _ c) ∧ ∀ d ∈ nodeParts _ c, _
    rw [grows.bodies, hnodes]
    by_cases hcid : c = id
    · subst hcid
      have hlt : c < s.bodies.size := by
        rw [h.size]
        exact h.queued.inside c hmem
      exact ⟨Array.getElem?_setIfInBounds_self_of_lt hlt, hparts⟩
    · obtain ⟨hold, hnot⟩ := grows.done hpending hc hdone hcid
      obtain ⟨hbefore, hheld⟩ := h.filled c hold hnot
      refine ⟨(Array.getElem?_setIfInBounds_ne (Ne.symm hcid)).trans hbefore, fun d hd hkind => ?_⟩
      exact hmet d (hheld d hd hkind)

/-- All that has been met in a plain document is filled in the end, and all that it holds. -/
theorem Filling.fill {s : Assembly} (h : s.Filling) (plain : PlainNodes s.nodes) {fuel : Nat}
    (hfuel : s.nodes.size + s.pending.length < fuel + s.met.length) :
    ∃ s', s.fill fuel = .ok s' ∧ s'.nodes = s.nodes ∧ (∀ id ∈ s.met, id ∈ s'.met) ∧ ∀ id ∈ s'.met,
      s'.Filled id := by
  induction fuel generalizing s with
  | zero =>
    have hle := h.queued.length_met_le
    omega
  | succ fuel ih =>
    rw [Assembly.fill]
    cases hpending : s.pending with
    | nil =>
      refine ⟨s, rfl, rfl, fun _ hid => hid, fun id hid => h.filled id hid ?_⟩
      rw [hpending]
      exact List.not_mem_nil
    | cons id rest =>
      obtain ⟨v, s₁, hbody, hfilling, hnodes, hmet, hcount⟩ := h.step plain hpending
      rw [hpending, List.length_cons] at hfuel
      have hmore := ih hfilling (by rw [show Assembly.nodes _ = s.nodes from hnodes]; exact plain)
        (by show s₁.nodes.size + s₁.pending.length < fuel + s₁.met.length; rw [hnodes]; omega)
      obtain ⟨s', hfill, hnodes', hmet', hfilled⟩ := hmore
      refine ⟨s', ?_, hnodes'.trans hnodes, fun c hc => hmet' c (hmet c hc), hfilled⟩
      simp only [hbody, bind, Except.bind]
      exact hfill

end Assembly

end Grove.Yaml
