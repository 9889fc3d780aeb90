import Grove.Proofs.Store.Descent

/-!
# Changes to stores

Planting a tree, putting one into a slot and clearing a node each keep a store a forest. A planted
tree is what its first node holds, the nodes that were there keep what they hold when a tree is
planted, and a node that is written is seen from exactly the nodes it lies within.
-/
namespace Grove

open Relation

namespace Tree

theorem count_pos (t : Tree) : 0 < t.count := by
  cases t <;> simp only [count] <;> omega

/-! ### The handles of a laid out tree -/

theorem range'_count (base : Nat) (t : Tree) (rest : Nat) :
    List.range' base (t.count + rest) =
      base :: (List.range' (base + 1) (t.count - 1) ++ List.range' (base + t.count) rest) := by
  have hpos := t.count_pos
  have hadd : base + t.count = base + 1 + (t.count - 1) := by omega
  have hcount : t.count + rest = (t.count - 1 + rest) + 1 := by omega
  rw [hadd, List.range'_append_1, hcount, List.range'_succ]

mutual

/-- Inside a laid out tree every handle but the first is a child once. -/
theorem children_layout (base : Nat) : (t : Tree) →
    ((t.layout base).flatMap Node.children).Perm (List.range' (base + 1) (t.count - 1))
  | .number _ => by simp [layout, Node.children, count]
  | .string _ => by simp [layout, Node.children, count]
  | .boolean _ => by simp [layout, Node.children, count]
  | .list items => by
    have h := children_layoutAll (base + 1) items
    simpa [layout, Node.children, count] using h
  | .level entries => by
    have h := children_layoutEntries (base + 1) entries
    simpa [layout, Node.children, count] using h

/-- Together with the first handles, every handle of several laid out trees is told once. -/
theorem children_layoutAll (base : Nat) : (ts : List Tree) →
    (starts base ts ++ (layoutAll base ts).flatMap Node.children).Perm
      (List.range' base (countAll ts))
  | [] => by simp [starts, layoutAll, countAll]
  | t :: ts => by
    have ht := children_layout base t
    have hts := children_layoutAll (base + t.count) ts
    rw [starts, layoutAll, List.flatMap_append, countAll, range'_count, List.cons_append]
    apply List.Perm.cons
    refine (List.Perm.trans ?_ (ht.append hts))
    rw [← List.append_assoc, ← List.append_assoc]
    exact List.Perm.append_right _ List.perm_append_comm

theorem children_layoutEntries (base : Nat) : (es : List (Text × Tree)) →
    ((entryStarts base es).map (·.2) ++ (layoutEntries base es).flatMap Node.children).Perm
      (List.range' base (countEntries es))
  | [] => by simp [entryStarts, layoutEntries, countEntries]
  | (k, t) :: es => by
    have ht := children_layout base t
    have hes := children_layoutEntries (base + t.count) es
    rw [entryStarts, layoutEntries, List.flatMap_append, countEntries, range'_count,
      List.map_cons, List.cons_append]
    apply List.Perm.cons
    refine (List.Perm.trans ?_ (ht.append hes))
    rw [← List.append_assoc, ← List.append_assoc]
    exact List.Perm.append_right _ List.perm_append_comm

end

mutual

/-- Inside a laid out tree every child comes after its parent. -/
theorem child_layout_gt (base : Nat) :
    (t : Tree) → ∀ (i : Nat) (n : Node), (t.layout base)[i]? = some n →
    ∀ c ∈ n.children, base + i < c
  | .number _ | .string _ | .boolean _ => by
    intro i n hn c hc
    cases i with
    | zero => cases hn; cases hc
    | succ i => cases hn
  | .list items => by
    intro i n hn c hc
    cases i with
    | zero =>
      cases hn
      have hmem := (children_layoutAll (base + 1) items).subset (List.mem_append_left _ hc)
      have := (List.mem_range'_1.mp hmem).1
      omega
    | succ i =>
      have := child_layoutAll_gt (base + 1) items i n hn c hc
      omega
  | .level entries => by
    intro i n hn c hc
    cases i with
    | zero =>
      cases hn
      have hmem := (children_layoutEntries (base + 1) entries).subset (List.mem_append_left _ hc)
      have := (List.mem_range'_1.mp hmem).1
      omega
    | succ i =>
      have := child_layoutEntries_gt (base + 1) entries i n hn c hc
      omega

theorem child_layoutAll_gt (base : Nat) : (ts : List Tree) → ∀ (i : Nat) (n : Node),
    (layoutAll base ts)[i]? = some n → ∀ c ∈ n.children, base + i < c
  | [] => by intro i n hn; cases hn
  | t :: ts => by
    intro i n hn c hc
    rw [layoutAll, List.getElem?_append, length_layout] at hn
    split at hn
    · exact child_layout_gt base t i n hn c hc
    · have := child_layoutAll_gt (base + t.count) ts _ n hn c hc
      omega

theorem child_layoutEntries_gt (base : Nat) : (es : List (Text × Tree)) → ∀ (i : Nat) (n : Node),
    (layoutEntries base es)[i]? = some n → ∀ c ∈ n.children, base + i < c
  | [] => by intro i n hn; cases hn
  | (_, t) :: es => by
    intro i n hn c hc
    rw [layoutEntries, List.getElem?_append, length_layout] at hn
    split at hn
    · exact child_layout_gt base t i n hn c hc
    · have := child_layoutEntries_gt (base + t.count) es _ n hn c hc
      omega

end

theorem child_layout_lt {base i : Nat} {t : Tree} {n : Node} (hn : (t.layout base)[i]? = some n)
    {c : Nat} (hc : c ∈ n.children) : c < base + t.count := by
  have hpos := t.count_pos
  have hmem := (children_layout base t).subset
    (List.mem_flatMap_of_mem (List.mem_of_getElem? hn) hc)
  have := (List.mem_range'_1.mp hmem).2
  omega

theorem nodup_children_layout (base : Nat) (t : Tree) :
    ((t.layout base).flatMap Node.children).Nodup :=
  (children_layout base t).nodup_iff.mpr List.nodup_range'

theorem once_layout {base i : Nat} {t : Tree} {n : Node} (hn : (t.layout base)[i]? = some n) :
    n.children.Nodup :=
  (List.nodup_flatMap.mp (nodup_children_layout base t)).1 n (List.mem_of_getElem? hn)

theorem owner_layout {base i j : Nat} {t : Tree} {m n : Node} (hm : (t.layout base)[i]? = some m)
    (hn : (t.layout base)[j]? = some n) {c : Nat} (hcm : c ∈ m.children) (hcn : c ∈ n.children) :
    i = j := by
  have hpair := (List.nodup_flatMap.mp (nodup_children_layout base t)).2
  have apart : ∀ {i j : Nat} {m n : Node},
      (t.layout base)[i]? = some m → (t.layout base)[j]? = some n →
      c ∈ m.children → c ∈ n.children → ¬ i < j := by
    intro i j m n hm hn hcm hcn hlt
    obtain ⟨hi, rfl⟩ := List.getElem?_eq_some_iff.mp hm
    obtain ⟨hj, rfl⟩ := List.getElem?_eq_some_iff.mp hn
    exact List.pairwise_iff_getElem.mp hpair i j hi hj hlt hcm hcn
  have h1 := apart hm hn hcm hcn
  have h2 := apart hn hm hcn hcm
  omega

/-! ### What laid out nodes hold -/

mutual

/-- The first node of a laid out tree holds the tree. -/
theorem tree_of_layout {s : Store} (h : s.Forest) (base : Nat) : (t : Tree) →
    (∀ i < t.count, (t.layout base)[i]? = some (s.node (base + i))) → s.tree base = t
  | .number _ | .string _ | .boolean _ => by
    intro hs
    have h0 := hs 0 (count_pos _)
    simp only [layout, List.getElem?_cons_zero, Option.some.injEq, Nat.add_zero] at h0
    rw [h.tree_eq, ← h0]
    rfl
  | .list items => by
    intro hs
    have h0 := hs 0 (count_pos _)
    simp only [layout, List.getElem?_cons_zero, Option.some.injEq, Nat.add_zero] at h0
    rw [h.tree_eq, ← h0, Node.tree]
    rw [map_tree_starts h (base + 1) items]
    intro i hi
    have := hs (i + 1) (by rw [count]; omega)
    rwa [layout, List.getElem?_cons_succ, ← Nat.add_assoc, Nat.add_right_comm] at this
  | .level entries => by
    intro hs
    have h0 := hs 0 (count_pos _)
    simp only [layout, List.getElem?_cons_zero, Option.some.injEq, Nat.add_zero] at h0
    rw [h.tree_eq, ← h0, Node.tree]
    rw [map_tree_entryStarts h (base + 1) entries]
    intro i hi
    have := hs (i + 1) (by rw [count]; omega)
    rwa [layout, List.getElem?_cons_succ, ← Nat.add_assoc, Nat.add_right_comm] at this

theorem map_tree_starts {s : Store} (h : s.Forest) (base : Nat) : (ts : List Tree) →
    (∀ i < countAll ts, (layoutAll base ts)[i]? = some (s.node (base + i))) →
      (starts base ts).map s.tree = ts
  | [] => by intro _; rfl
  | t :: ts => by
    intro hs
    have ht : s.tree base = t := by
      apply tree_of_layout h base t
      intro i hi
      have := hs i (by rw [countAll]; omega)
      rwa [layoutAll, List.getElem?_append_left (by rwa [length_layout])] at this
    have hts : (starts (base + t.count) ts).map s.tree = ts := by
      apply map_tree_starts h (base + t.count) ts
      intro i hi
      have := hs (t.count + i) (by rw [countAll]; omega)
      rwa [layoutAll, List.getElem?_append_right (by rw [length_layout]; omega), length_layout,
        Nat.add_sub_cancel_left, ← Nat.add_assoc] at this
    rw [starts, List.map_cons, ht, hts]

theorem map_tree_entryStarts {s : Store} (h : s.Forest) (base : Nat) : (es : List (Text × Tree)) →
    (∀ i < countEntries es, (layoutEntries base es)[i]? = some (s.node (base + i))) →
      (entryStarts base es).map (fun (k, c) => (k, s.tree c)) = es
  | [] => by intro _; rfl
  | (k, t) :: es => by
    intro hs
    have ht : s.tree base = t := by
      apply tree_of_layout h base t
      intro i hi
      have := hs i (by rw [countEntries]; omega)
      rwa [layoutEntries, List.getElem?_append_left (by rwa [length_layout])] at this
    have hes : (entryStarts (base + t.count) es).map (fun (k, c) => (k, s.tree c)) = es := by
      apply map_tree_entryStarts h (base + t.count) es
      intro i hi
      have := hs (t.count + i) (by rw [countEntries]; omega)
      rwa [layoutEntries, List.getElem?_append_right (by rw [length_layout]; omega), length_layout,
        Nat.add_sub_cancel_left, ← Nat.add_assoc] at this
    simp only [entryStarts, List.map_cons, ht, hes]

end

end Tree

namespace Node

/-- What putting a child into a slot does: it goes behind the last child of a list, or takes the
place of one, or goes to a key of a level. -/
inductive Placed (child : NodeId) : Option Segment → Node → Node → Prop
  | behind (ids : List NodeId) : Placed child none (.list ids) (.list (ids ++ [child]))
  | last (ids : List NodeId) :
      Placed child (some (.index ids.length)) (.list ids) (.list (ids ++ [child]))
  | position {ids : List NodeId} {i : Nat} (inside : i < ids.length) :
      Placed child (some (.index i)) (.list ids) (.list (ids.set i child))
  | key {name : Text} (named : name ≠ "") (short : name.length ≤ maxPathLength)
      (entries : List (Text × NodeId)) :
      Placed child (some (.key name)) (.level entries) (.level (Entries.put name child entries))

variable {n n' : Node} {slot : Option Segment} {child : NodeId}

theorem place?_eq_some_iff : n.place? slot child = some n' ↔ Placed child slot n n' := by
  constructor
  · intro h
    cases n with
    | list ids =>
      rcases slot with _ | name | i
      · cases h
        exact .behind ids
      · cases h
      · simp only [place?] at h
        split at h
        · next hi => cases h; exact .position hi
        · split at h
          · next hi => subst hi; cases h; exact .last ids
          · cases h
    | level entries =>
      rcases slot with _ | name | i
      · cases h
      · simp only [place?] at h
        split at h
        · cases h
        · next hk =>
          cases h
          exact .key (fun h => hk (.inl h)) (Nat.le_of_not_lt fun h => hk (.inr h)) entries
      · cases h
    | _ => cases h
  · intro h
    cases h with
    | behind ids => rfl
    | last ids => simp [place?]
    | position inside => simp [place?, inside]
    | key named short entries => simp [place?, named, Nat.not_lt.mpr short]

/-- A slot takes the new child, and every other child was there before. -/
theorem Placed.child_or_mem (h : Placed child slot n n') {c : NodeId} (hc : c ∈ n'.children) :
    c = child ∨ c ∈ n.children := by
  cases h with
  | behind ids =>
    rcases List.mem_append.mp hc with hc | hc
    · exact Or.inr hc
    · exact Or.inl (List.mem_singleton.mp hc)
  | last ids =>
    rcases List.mem_append.mp hc with hc | hc
    · exact Or.inr hc
    · exact Or.inl (List.mem_singleton.mp hc)
  | position inside => exact (List.mem_or_eq_of_mem_set hc).symm
  | key named short entries =>
    obtain ⟨e, he, rfl⟩ := List.mem_map.mp hc
    rcases Entries.mem_of_mem_put he with rfl | he
    · exact Or.inl rfl
    · exact Or.inr (List.mem_map_of_mem he)

theorem Placed.nodup_children (h : Placed child slot n n') (once : n.children.Nodup)
    (fresh : child ∉ n.children) : n'.children.Nodup := by
  have behind : (n.children ++ [child]).Nodup := by
    refine List.nodup_append.mpr ⟨once, List.nodup_singleton _, ?_⟩
    intro a ha b hb heq
    rw [List.mem_singleton.mp hb] at heq
    exact fresh (heq ▸ ha)
  cases h with
  | behind ids => exact behind
  | last ids => exact behind
  | position inside => exact once.set fresh
  | key named short entries => exact Entries.nodup_values_put once fresh

theorem Placed.kind_eq (h : Placed child slot n n') : n'.kind = n.kind := by
  cases h <;> rfl

theorem children_emptied (n : Node) : n.emptied.children.Sublist n.children := by
  cases n <;> simp [emptied, children]

end Node

namespace Store

variable {s : Store}

theorem node_plant_add (s : Store) (t : Tree) (i : Nat) :
    (s.plant t).2.node (s.nodes.size + i) = ((t.layout s.nodes.size)[i]?).getD (.level []) := by
  have h : s.nodes.size ≤ s.nodes.size + i := Nat.le_add_right _ _
  simp only [plant, node, Array.getD_eq_getD_getElem?, Array.getElem?_append_right h,
    Nat.add_sub_cancel_left, List.getElem?_toArray]

theorem child_of_plant {t : Tree} {p c : Nat} (h : (s.plant t).2.Child p c) :
    (p < s.nodes.size ∧ s.Child p c) ∨
      ∃ i n, p = s.nodes.size + i ∧ (t.layout s.nodes.size)[i]? = some n ∧ c ∈ n.children := by
  by_cases hp : p < s.nodes.size
  · rw [Child, node_plant_of_lt s t hp] at h
    exact Or.inl ⟨hp, h⟩
  · obtain ⟨i, rfl⟩ := Nat.exists_eq_add_of_le (Nat.le_of_not_lt hp)
    rw [Child, node_plant_add] at h
    cases hn : (t.layout s.nodes.size)[i]? with
    | none => rw [hn] at h; cases h
    | some n => rw [hn] at h; exact Or.inr ⟨i, n, rfl, hn, h⟩

theorem node_write {id other : Nat} (n : Node) (h : id < s.nodes.size) :
    (s.write id n).node other = if other = id then n else s.node other := by
  split
  · next heq => rw [heq, node_write_self s id n h]
  · next hne => exact node_write_of_ne s hne n

@[simp] theorem size_write (s : Store) (id : Nat) (n : Node) :
    (s.write id n).nodes.size = s.nodes.size := by
  simp [write]

/-- Nothing is written behind a handle that was never given out. -/
theorem write_of_size_le {id : Nat} (h : s.nodes.size ≤ id) (n : Node) : s.write id n = s := by
  rw [write, Array.setIfInBounds_eq_of_size_le h]

namespace Forest

theorem plant (h : s.Forest) (t : Tree) : (s.plant t).2.Forest where
  after := by
    intro p c hc
    rw [size_plant]
    rcases child_of_plant hc with ⟨-, hold⟩ | ⟨i, n, rfl, hn, hc⟩
    · have := h.after hold
      omega
    · exact ⟨Tree.child_layout_gt _ t i n hn c hc, Tree.child_layout_lt hn hc⟩
  once := by
    intro p
    by_cases hp : p < s.nodes.size
    · rw [node_plant_of_lt s t hp]
      exact h.once p
    · obtain ⟨i, rfl⟩ := Nat.exists_eq_add_of_le (Nat.le_of_not_lt hp)
      rw [node_plant_add]
      cases hn : (t.layout s.nodes.size)[i]? with
      | none => exact List.nodup_nil
      | some n => exact Tree.once_layout hn
  owner := by
    intro p q c hp hq
    rcases child_of_plant hp with ⟨-, hp⟩ | ⟨i, m, rfl, hm, hp⟩ <;>
      rcases child_of_plant hq with ⟨-, hq⟩ | ⟨j, n, rfl, hn, hq⟩
    · exact h.owner hp hq
    · have h1 := (h.after hp).2
      have h2 := Tree.child_layout_gt _ t j n hn c hq
      omega
    · have h1 := (h.after hq).2
      have h2 := Tree.child_layout_gt _ t i m hm c hp
      omega
    · rw [Tree.owner_layout hm hn hp hq]

/-- Changing nodes so that each keeps some of its children, in order, keeps a store a forest. -/
theorem mono {s' : Store} (h : s.Forest) (size : s'.nodes.size = s.nodes.size)
    (fewer : ∀ p, (s'.node p).children.Sublist (s.node p).children) : s'.Forest where
  after := by
    intro p c hc
    rw [size]
    exact h.after ((fewer p).subset hc)
  once := by
    intro p
    exact (fewer p).nodup (h.once p)
  owner := by
    intro p q c hp hq
    exact h.owner ((fewer p).subset hp) ((fewer q).subset hq)

/-- A node that nothing owns may be put into a slot of an earlier one. -/
theorem place (h : s.Forest) {p child : Nat} {slot : Option Segment} {n : Node}
    (hp : p < child) (hchild : child < s.nodes.size) (free : ∀ q, ¬ s.Child q child)
    (placed : Node.Placed child slot (s.node p) n) : (s.write p n).Forest := by
  have hsize : p < s.nodes.size := Nat.lt_trans hp hchild
  have cases_child : ∀ {q c : Nat}, (s.write p n).Child q c →
      (q = p ∧ c = child) ∨ s.Child q c := by
    intro q c hc
    rw [Child, node_write n hsize] at hc
    split at hc
    · next hq =>
      rcases placed.child_or_mem hc with hc | hc
      · exact Or.inl ⟨hq, hc⟩
      · exact Or.inr (hq ▸ hc)
    · exact Or.inr hc
  constructor
  · intro q c hc
    rw [size_write]
    rcases cases_child hc with ⟨rfl, rfl⟩ | hc
    · exact ⟨hp, hchild⟩
    · exact h.after hc
  · intro q
    rw [node_write n hsize]
    split
    · exact placed.nodup_children (h.once p) (free p)
    · exact h.once q
  · intro q r c hq hr
    rcases cases_child hq with ⟨hqp, hqc⟩ | hq' <;> rcases cases_child hr with ⟨hrp, hrc⟩ | hr'
    · exact hqp.trans hrp.symm
    · exact absurd hr' (hqc ▸ free r)
    · exact absurd hq' (hrc ▸ free q)
    · exact h.owner hq' hr'

end Forest

/-! ### Putting a tree into a slot -/

/-- A tree is put by planting it and writing the one node that its address designates. -/
theorem insert_eq_some_iff {id child : NodeId} {address : Address} {t : Tree} {s' : Store} :
    s.insert id address t = .ok (some (child, s')) ↔ ∃ parent slot n,
      s.slot id address = .ok (parent, slot) ∧ child = s.nodes.size ∧
        Node.Placed child slot (s.node parent) n ∧ s' = (s.plant t).2.write parent n := by
  unfold insert
  cases hslot : s.slot id address with
  | error e =>
    simp only [reduceCtorEq, false_and, exists_false, iff_false]
    split <;> simp
  | ok target =>
    obtain ⟨parent, slot⟩ := target
    simp only [plant]
    cases hplace : (s.node parent).place? slot s.nodes.size with
    | none =>
      simp only [Except.ok.injEq, reduceCtorEq, false_iff, not_exists, not_and]
      intro p sl n htarget hchild hn
      obtain ⟨rfl, rfl⟩ := Prod.mk.inj htarget
      rw [hchild, ← Node.place?_eq_some_iff, hplace] at hn
      cases hn
    | some n =>
      simp only [Except.ok.injEq, Option.some.injEq, Prod.mk.injEq]
      constructor
      · rintro ⟨rfl, rfl⟩
        exact ⟨parent, slot, n, ⟨rfl, rfl⟩, rfl, Node.place?_eq_some_iff.mp hplace, rfl⟩
      · rintro ⟨p, sl, m, ⟨rfl, rfl⟩, rfl, hm, rfl⟩
        have hsame : n = m := by
          rw [← Node.place?_eq_some_iff, hplace] at hm
          exact Option.some.inj hm
        exact ⟨rfl, by rw [hsame]⟩

theorem Forest.insert (h : s.Forest) {id child : Nat} (hid : id < s.nodes.size) {address : Address}
    {t : Tree} {s' : Store} (hs : s.insert id address t = .ok (some (child, s'))) : s'.Forest := by
  obtain ⟨parent, slot, n, hslot, rfl, placed, rfl⟩ := insert_eq_some_iff.mp hs
  have hp : parent < s.nodes.size := h.lt_size_of_within hid (slot_eq_ok_iff.mp hslot).within
  have placed' : Node.Placed s.nodes.size slot ((s.plant t).2.node parent) n := by
    rwa [node_plant_of_lt s t hp]
  refine (h.plant t).place hp ?_ ?_ placed'
  · rw [size_plant]
    have := t.count_pos
    omega
  · intro q hq
    rcases child_of_plant hq with ⟨-, hq⟩ | ⟨i, m, rfl, hm, hq⟩
    · have := (h.after hq).2
      omega
    · have := Tree.child_layout_gt _ t i m hm _ hq
      omega

theorem size_insert {id child : Nat} {address : Address} {t : Tree} {s' : Store}
    (hs : s.insert id address t = .ok (some (child, s'))) :
    s'.nodes.size = s.nodes.size + t.count := by
  obtain ⟨parent, slot, n, -, -, -, rfl⟩ := insert_eq_some_iff.mp hs
  rw [size_write, size_plant]

/-- The first node of a planted tree holds the tree. -/
theorem Forest.tree_plant (h : s.Forest) (t : Tree) : (s.plant t).2.tree s.nodes.size = t := by
  apply Tree.tree_of_layout (h.plant t)
  intro i hi
  rw [node_plant_add]
  have hlen : i < (t.layout s.nodes.size).length := by rwa [Tree.length_layout]
  rw [List.getElem?_eq_getElem hlen, Option.getD_some]

/-- Planting changes nothing for the nodes that are there. -/
theorem Forest.tree_plant_of_lt (h : s.Forest) (t : Tree) {id : Nat} (hid : id < s.nodes.size) :
    (s.plant t).2.tree id = s.tree id :=
  h.tree_congr (h.plant t) fun _ hc => node_plant_of_lt s t (h.lt_size_of_within hid hc)

/-! ### Clearing -/

theorem emptied_emptied (n : Node) : n.emptied.emptied = n.emptied := by
  cases n <;> rfl

theorem size_foldl_emptied (ids : List Nat) (s : Store) :
    (ids.foldl (fun s' i => s'.write i (s'.node i).emptied) s).nodes.size = s.nodes.size := by
  induction ids generalizing s with
  | nil => rfl
  | cons i ids ih => rw [List.foldl_cons, ih, size_write]

theorem node_foldl_emptied (ids : List Nat) (s : Store) (id : Nat) :
    (ids.foldl (fun s' i => s'.write i (s'.node i).emptied) s).node id =
      if id ∈ ids then (s.node id).emptied else s.node id := by
  induction ids generalizing s with
  | nil => simp
  | cons i ids ih =>
    have step : (s.write i (s.node i).emptied).node id =
        if id = i then (s.node id).emptied else s.node id := by
      by_cases hid : id = i
      · subst hid
        by_cases hsize : id < s.nodes.size
        · simp [hsize]
        · have hout : s.node id = .level [] := node_of_size_le (Nat.le_of_not_lt hsize)
          have hout' : (s.write id (s.node id).emptied).node id = .level [] :=
            node_of_size_le (by rw [size_write]; exact Nat.le_of_not_lt hsize)
          rw [hout', if_pos rfl, hout]
          rfl
      · rw [node_write_of_ne s hid, if_neg hid]
    rw [List.foldl_cons, ih, step]
    by_cases hid : id = i
    · simp [hid, emptied_emptied]
    · simp [hid]

/-- Clearing empties the nodes that are reached, and no others. -/
theorem node_clear (s : Store) (id other : Nat) :
    (s.clear id).node other = if other ∈ s.reach id then (s.node other).emptied else s.node other :=
  node_foldl_emptied (s.reach id) s other

@[simp] theorem size_clear (s : Store) (id : Nat) : (s.clear id).nodes.size = s.nodes.size :=
  size_foldl_emptied (s.reach id) s

theorem Forest.clear (h : s.Forest) (id : Nat) : (s.clear id).Forest := by
  refine h.mono (size_clear s id) fun p => ?_
  rw [node_clear]
  split
  · exact Node.children_emptied _
  · exact List.Sublist.refl _

end Store

end Grove
