import Grove.Proofs.Workspace.ReadBack

/-!
# Writing twice

Of two writes at one path the second decides what is held afterwards. Two writes at paths of which
neither begins with the other go to different slots, and each leaves the way to the other slot as it
is. So they can change places, unless both of them add a child to one node: then the order of the
children tells which one came first.
-/
namespace Grove

namespace Node

variable {n n' : Node} {seg : Segment} {child : NodeId}

theorem slot?_of_mem_items (fits : n.Fits) (h : (seg, child) ∈ n.items) :
    n.slot? seg = some child := by
  cases n with
  | list ids =>
    obtain ⟨i, rfl, hi⟩ := getElem?_of_mem_items h
    exact hi
  | level entries =>
    obtain ⟨k, rfl, hk⟩ := mem_of_mem_items h
    exact (Entries.get?_eq_some_iff fits.1).mpr hk
  | _ => cases h

/-- Wherever a node took a child it takes one after it got a child. -/
theorem Placed.takes_of_takes {slot : Option Segment} (placed : Placed child slot n n')
    (h : n.Takes seg) :
    n'.Takes seg := by
  have behind : ∀ ids : List NodeId, (Node.list ids).Takes seg →
      (Node.list (ids ++ [child])).Takes seg := by
    intro ids h
    cases seg with
    | key name => cases h
    | index i =>
      have hi : i ≤ ids.length := h
      show i ≤ (ids ++ [child]).length
      rw [List.length_append]
      omega
  cases placed with
  | behind ids => exact behind ids h
  | last ids => exact behind ids h
  | @position ids j inside =>
    cases seg with
    | key name => cases h
    | index i =>
      show i ≤ (ids.set j child).length
      rw [List.length_set]
      exact h
  | key named short entries =>
    cases seg with
    | key name => exact h
    | index i => cases h

/-- Of two trees that are put into one slot the second one stays. -/
theorem Takes.place_place (h : n.Takes seg) (held : NodeId → Tree) (t u : Tree) :
    Tree.place (some seg) u (Tree.place (some seg) t (n.tree held)) =
      Tree.place (some seg) u (n.tree held) := by
  cases n with
  | list ids =>
    cases seg with
    | key name => cases h
    | index i =>
      rcases Nat.lt_or_eq_of_le h with inside | rfl
      · simp [tree, Tree.place, inside]
      · simp [tree, Tree.place]
  | level entries =>
    cases seg with
    | key name => simp only [tree, Tree.place, Entries.put_put]
    | index i => cases h
  | _ => rfl

/-- Trees can be put into two slots that are there in either order. -/
theorem place_comm {seg' : Segment} {child' : NodeId} (hne : seg ≠ seg')
    (h : (seg, child) ∈ n.items) (h' : (seg', child') ∈ n.items)
    (held : NodeId → Tree) (t u : Tree) :
    Tree.place (some seg') u (Tree.place (some seg) t (n.tree held)) =
      Tree.place (some seg) t (Tree.place (some seg') u (n.tree held)) := by
  cases n with
  | list ids =>
    obtain ⟨i, rfl, hi⟩ := getElem?_of_mem_items h
    obtain ⟨j, rfl, hj⟩ := getElem?_of_mem_items h'
    obtain ⟨hilt, -⟩ := List.getElem?_eq_some_iff.mp hi
    obtain ⟨hjlt, -⟩ := List.getElem?_eq_some_iff.mp hj
    have hij : i ≠ j := fun heq => hne (heq ▸ rfl)
    simp [tree, Tree.place, hilt, hjlt, List.set_comm _ _ hij]
  | level entries =>
    obtain ⟨k, rfl, hk⟩ := mem_of_mem_items h
    obtain ⟨l, rfl, -⟩ := mem_of_mem_items h'
    have hkl : k ≠ l := fun heq => hne (heq ▸ rfl)
    simp only [tree, Tree.place, Entries.put_comm hkl (Entries.mem_keys_map held hk)]
  | _ => cases h

end Node

/-- What a node holds when a tree is put at a segment of one of the nodes. -/
def Tree.placeAt (parent : NodeId) (seg : Segment) (t : Tree) (id : NodeId) (held : Tree) : Tree :=
  if id = parent then Tree.place (some seg) t held else held

namespace Store

/-- A new node that holds a tree was put at a segment of a node. -/
structure Written (s s' : Store) (parent : NodeId) (seg : Segment) (t : Tree)
    (child : NodeId) : Prop where
  graft : Grafted s s' parent (some seg) child
  fresh : s.nodes.size ≤ child
  holds : s'.tree child = t

variable {s s₁ s₂ : Store} {id parent parent' child child' : Nat} {seg seg' : Segment} {t u : Tree}

/-- The write of a tree at a keyed address, told by the path of the address. -/
theorem Forest.written_insert (h : s.Forest) (fits : s.Fits) {address : Address}
    (keyed : address.Keyed) (hid : id < s.nodes.size)
    (hs : s.insert id address t = .ok (some (child, s₁))) : ∃ front last parent,
      address.spelled = front ++ [last] ∧ s.Finds id front parent ∧ (s.node parent).Takes last ∧
        s.Written s₁ parent last t child := by
  obtain ⟨parent, slot, hdes, hfresh, hholds, g⟩ := h.grafted_insert hid hs
  obtain ⟨-, front, last, hspelled, rfl, found⟩ := (designates_iff fits keyed).mp hdes
  exact ⟨front, last, parent, hspelled, found, g.placed.takes, g, hfresh, hholds⟩

/-- A path that does not go through the slot that is written leads where it led. -/
theorem Grafted.leads_of_avoids (g : Grafted s s₁ parent (some seg) child) (fits : s.Fits)
    {path : List Segment} {last : Nat} (hid : id < s.nodes.size) (h : s.Leads id path last)
    (avoids : ∀ front rest, path = front ++ seg :: rest → ¬ s.Leads id front parent) :
    s₁.Leads id path last := by
  induction h with
  | here id => exact .here id
  | @down id seg' c rest last slot tail ih =>
    have hlt := (g.before.after (show s.Child id c from Node.mem_children_of_mem_items slot)).2
    -- only the node that is written changes, and there the path goes through another slot
    have slot' : (seg', c) ∈ (s₁.node id).items := by
      by_cases heq : id = parent
      · subst heq
        have hne : seg' ≠ seg := by
          rintro rfl
          exact avoids [] rest rfl (.here id)
        apply Node.mem_items_of_slot?
        rw [g.placed.slot?_of_ne hne]
        exact Node.slot?_of_mem_items (fits id) slot
      · rwa [g.kept hid heq]
    refine .down slot' (ih hlt ?_)
    rintro front rest' rfl leads
    exact avoids (seg' :: front) rest' rfl (.down slot leads)

/-- A write at a path leaves the paths that do not begin with it. -/
theorem Grafted.finds (g : Grafted s s₁ parent (some seg) child) (fits : s.Fits)
    (hid : id < s.nodes.size) {front path : List Segment} (found : s.Finds id front parent)
    {last : Nat} (h : s.Finds id path last) (apart : ¬ front ++ [seg] <+: path) :
    s₁.Finds id path last := by
  refine ⟨g.leads_of_avoids fits hid h.leads ?_, h.named⟩
  rintro front' rest rfl leads
  apply apart
  rw [g.before.leads_unique found.leads leads]
  exact ⟨rest, List.append_assoc front' [seg] rest⟩

theorem Finds.mem_items (fits : s.Fits) {front : List Segment}
    (found : s.Finds id front parent) {n : Nat} (h : s.Finds id (front ++ [seg]) n) :
    (seg, n) ∈ (s.node parent).items := by
  obtain ⟨mid, hmid, ⟨leads, -⟩⟩ := finds_append_iff.mp h
  cases found.unique fits hmid
  cases leads with
  | down slot tail =>
    cases tail
    exact slot

/-- Different paths end in different nodes, or else at different segments of one node. -/
theorem Forest.slots_apart (h : s.Forest) (fits : s.Fits) {front front' : List Segment}
    (found : s.Finds id front parent) (found' : s.Finds id front' parent')
    (hne : front ++ [seg] ≠ front' ++ [seg']) (settled : front ≠ front' ∨
      (∃ n, s.Finds id (front ++ [seg]) n) ∧ ∃ n, s.Finds id (front' ++ [seg']) n) :
    parent ≠ parent' ∨
      seg ≠ seg' ∧ (∃ c, (seg, c) ∈ (s.node parent).items) ∧ ∃ c,
        (seg', c) ∈ (s.node parent').items := by
  by_cases heq : parent = parent'
  · subst heq
    have hfront : front = front' := h.leads_unique found.leads found'.leads
    subst hfront
    obtain ⟨⟨c, hc⟩, ⟨d, hd⟩⟩ := settled.resolve_left (not_not_intro rfl)
    have hseg : seg ≠ seg' := fun heq => hne (heq ▸ rfl)
    exact .inr ⟨hseg, ⟨c, found.mem_items fits hc⟩, ⟨d, found.mem_items fits hd⟩⟩
  · exact .inl heq

theorem Grafted.takes {slot : Option Segment} (g : Grafted s s₁ parent slot child) {n : Nat}
    (hn : n < s.nodes.size) (h : (s.node n).Takes seg) : (s₁.node n).Takes seg := by
  by_cases heq : n = parent
  · subst heq
    exact g.placed.takes_of_takes h
  · rwa [g.kept hn heq]

theorem Grafted.node_tree {slot : Option Segment} (g : Grafted s s₁ parent slot child) {n : Nat}
    (hn : n < s.nodes.size) (held : NodeId → Tree) :
    (s₁.node n).tree held = if n = parent then Tree.place slot (held child) ((s.node n).tree held)
      else (s.node n).tree held := by
  split
  · next heq =>
    subst heq
    exact g.placed.tree_eq fun _ _ => rfl
  · next hne => rw [g.kept hn hne]

namespace Written

variable (f : s.Written s₁ parent seg t child)

include f

theorem child_lt : child < s₁.nodes.size := by
  have hslot : (seg, child) ∈ (s₁.node parent).items :=
    Node.mem_items_of_slot? f.graft.placed.slot?_target
  exact (f.graft.after.after
    (show s₁.Child parent child from Node.mem_children_of_mem_items hslot)).2

theorem size_lt : s.nodes.size < s₁.nodes.size :=
  Nat.lt_of_le_of_lt f.fresh f.child_lt

/-- Each node that was there holds what its children hold now, with the tree put at the segment of
the node that was written. -/
theorem tree_eq {n : Nat} (hn : n < s.nodes.size) :
    s₁.tree n = Tree.placeAt parent seg t n ((s.node n).tree s₁.tree) := by
  rw [f.graft.after.tree_eq, f.graft.node_tree hn, f.holds]
  rfl

/-- The same of two writes, one after the other, at segments of nodes that were there before
both. -/
theorem tree_eq_of_written (g : s₁.Written s₂ parent' seg' u child')
    (hparent : parent' < s.nodes.size) {n : Nat} (hn : n < s.nodes.size) :
    s₂.tree n = Tree.placeAt parent' seg' u n
      (Tree.placeAt parent seg t n ((s.node n).tree s₂.tree)) := by
  have hholds : s₂.tree child = t := by
    rw [g.graft.tree_of_not_within f.child_lt, f.holds]
    -- what is below the new node came with it, but the second write is at an older node
    intro hwithin
    have := f.graft.after.le_of_within hwithin
    have := f.fresh
    omega
  rw [g.tree_eq (Nat.lt_trans hn f.size_lt), f.graft.node_tree hn, hholds]
  rfl

/-- After a write every address can be written at that could be before, and at the same place, if it
does not lead through the slot that was written. -/
theorem exists_insert (fits : s.Fits) (fits₁ : s₁.Fits) (hid : id < s.nodes.size)
    {front front' : List Segment} (found : s.Finds id front parent) {address : Address}
    (keyed : address.Keyed) (short : address.written.length ≤ maxPathLength)
    (hspelled : address.spelled = front' ++ [seg']) (found' : s.Finds id front' parent')
    (takes : (s.node parent').Takes seg') (apart : ¬ front ++ [seg] <+: front') (u : Tree) :
    ∃ child' s₂, s₁.insert id address u = .ok (some (child', s₂)) ∧
      s₁.Written s₂ parent' seg' u child' := by
  have hparent : parent' < s.nodes.size := f.graft.before.lt_size_of_within hid found'.leads.within
  have found₁ : s₁.Finds id front' parent' := f.graft.finds fits hid found found' apart
  obtain ⟨child', s₂, hs⟩ := (exists_insert_iff fits₁ keyed).mpr
    ⟨short, front', seg', parent', hspelled, found₁, f.graft.takes hparent takes⟩
  obtain ⟨way, last, target, hspelled', found₂, -, g⟩ :=
    f.graft.after.written_insert fits₁ keyed (Nat.lt_trans hid f.size_lt) hs
  obtain ⟨rfl, hlast⟩ := List.append_inj' (hspelled.symm.trans hspelled') rfl
  cases hlast
  rw [found₁.unique fits₁ found₂]
  exact ⟨child', s₂, hs, g⟩

end Written

/-- What nodes hold is determined by what each one holds in terms of what its children hold. -/
theorem Forest.eq_of_step (h : s.Forest) {held held' : Nat → Tree} {f : Nat → Tree → Tree}
    (hheld : ∀ n < s.nodes.size, held n = f n ((s.node n).tree held))
    (hheld' : ∀ n < s.nodes.size, held' n = f n ((s.node n).tree held')) :
    ∀ n < s.nodes.size, held n = held' n := by
  intro n
  induction n using h.induction with
  | step n ih =>
    intro hn
    rw [hheld n hn, hheld' n hn]
    congr 1
    apply Node.tree_congr
    intro c hc
    exact ih c hc (h.after hc).2

/-- Trees can be put at segments of two nodes in either order, and at two segments of one node if
both lead to children. -/
theorem placeAt_comm (settled : parent ≠ parent' ∨
      seg ≠ seg' ∧ (∃ c, (seg, c) ∈ (s.node parent).items) ∧ ∃ c,
        (seg', c) ∈ (s.node parent').items)
    (n : Nat) (held : NodeId → Tree) :
    Tree.placeAt parent' seg' u n (Tree.placeAt parent seg t n ((s.node n).tree held)) =
      Tree.placeAt parent seg t n (Tree.placeAt parent' seg' u n ((s.node n).tree held)) := by
  by_cases hn : n = parent
  · subst hn
    by_cases heq : n = parent'
    · subst heq
      obtain ⟨hseg, ⟨c, hc⟩, ⟨d, hd⟩⟩ := settled.resolve_left (not_not_intro rfl)
      simp only [Tree.placeAt, if_true]
      exact Node.place_comm hseg hc hd held t u
    · simp only [Tree.placeAt, if_neg heq]
  · simp only [Tree.placeAt, if_neg hn]

section

variable (h : s.Forest) (fits : s.Fits) {p q : Address} (hp : p.Keyed) (hq : q.Keyed)
  (hid : id < s.nodes.size)
  (ht : t.Fits) (first : s.insert id p t = .ok (some (child, s₁)))
  (second : s.insert id q u = .ok (some (child', s₂)))

include h fits hp hq hid ht first second

/-- A second write at the same path leaves nothing of the first one. -/
theorem Forest.insert_overwrites (same : p.spelled = q.spelled) : ∃ child₁₂ s₁₂,
    s₁.insert id q u = .ok (some (child₁₂, s₁₂)) ∧ ∀ n < s.nodes.size, s₁₂.tree n = s₂.tree n := by
  obtain ⟨front, seg, parent, hpath, found, takes, f⟩ := h.written_insert fits hp hid first
  obtain ⟨front', seg', parent', hpath', found', -, g⟩ := h.written_insert fits hq hid second
  obtain ⟨rfl, hseg⟩ := List.append_inj' (hpath.symm.trans (same.trans hpath')) rfl
  cases hseg
  cases found.unique fits found'
  have short := ((exists_insert_iff fits hq).mp ⟨child', s₂, second⟩).1
  have apart : ¬ front ++ [seg] <+: front := by
    intro hbegins
    have := hbegins.length_le
    rw [List.length_append, List.length_singleton] at this
    omega
  obtain ⟨child₁₂, s₁₂, hs, g₁⟩ :=
    f.exists_insert fits (fits.insert ht first) hid found hq short hpath' found takes apart u
  refine ⟨child₁₂, s₁₂, hs, h.eq_of_step (f := Tree.placeAt parent seg u) ?_ fun n => g.tree_eq⟩
  intro n hn
  rw [f.tree_eq_of_written g₁ f.graft.inside hn]
  by_cases heq : n = parent
  · subst heq
    simp only [Tree.placeAt, if_true]
    exact takes.place_place _ _ _
  · simp only [Tree.placeAt, if_neg heq]

/-- Two writes at paths of which neither begins with the other can change places, unless both paths
end in the same node and not both are there. -/
theorem Forest.insert_comm (hu : u.Fits) (hpq : ¬ p.spelled <+: q.spelled)
    (hqp : ¬ q.spelled <+: p.spelled) (settled : p.spelled.dropLast ≠ q.spelled.dropLast ∨
      (∃ n, s.Finds id p.spelled n) ∧ ∃ n, s.Finds id q.spelled n) : ∃ child₁₂ s₁₂ child₂₁ s₂₁,
    s₁.insert id q u = .ok (some (child₁₂, s₁₂)) ∧ s₂.insert id p t = .ok (some (child₂₁, s₂₁)) ∧
      ∀ n < s.nodes.size, s₁₂.tree n = s₂₁.tree n := by
  obtain ⟨front, seg, parent, hpath, found, takes, f⟩ := h.written_insert fits hp hid first
  obtain ⟨front', seg', parent', hpath', found', takes', g⟩ := h.written_insert fits hq hid second
  have shortp := ((exists_insert_iff fits hp).mp ⟨child, s₁, first⟩).1
  have shortq := ((exists_insert_iff fits hq).mp ⟨child', s₂, second⟩).1
  rw [hpath, hpath'] at hpq hqp settled
  rw [List.dropLast_concat, List.dropLast_concat] at settled
  have slots := h.slots_apart fits found found' (fun heq => hpq (heq ▸ List.prefix_refl _)) settled
  obtain ⟨child₁₂, s₁₂, hs₁₂, g₁⟩ :=
    f.exists_insert fits (fits.insert ht first) hid found hq shortq hpath' found'
    takes' (fun hbegins => hpq (hbegins.trans (List.prefix_append _ _))) u
  obtain ⟨child₂₁, s₂₁, hs₂₁, f₂⟩ :=
    g.exists_insert fits (fits.insert hu second) hid found' hp shortp hpath found
    takes (fun hbegins => hqp (hbegins.trans (List.prefix_append _ _))) t
  refine ⟨child₁₂, s₁₂, child₂₁, s₂₁, hs₁₂, hs₂₁, ?_⟩
  have swap := placeAt_comm (s := s) (t := t) (u := u) slots
  refine h.eq_of_step (f := fun n held =>
    Tree.placeAt parent' seg' u n (Tree.placeAt parent seg t n held))
    (fun n hn => f.tree_eq_of_written g₁ g.graft.inside hn) fun n hn => ?_
  rw [swap]
  exact g.tree_eq_of_written f₂ f.graft.inside hn

end

end Store

namespace Workspace

variable {w w₁ w₂ : Workspace} {start : Start} {p q : Address} {c d : Content}
  {child child' : NodeId}

theorem exists_finds_of_find (fits : w.store.Fits) (keyed : p.Keyed) {root : NodeId}
    (hroot : w.root start = some root) (h : ∃ n, w.store.find (w.root start) p [] = .ok n) :
    ∃ n, w.store.Finds root p.spelled n := by
  obtain ⟨n, hn⟩ := h
  rw [hroot, Store.find_eq_ok_iff fits keyed] at hn
  exact ⟨n, hn.2⟩

/-- Of two contents that are put at one path the second one decides what all nodes hold. If neither
path begins with the other, and the paths without their last segments differ or both lead to nodes,
then the contents can be put in either order, and all nodes hold the same after both, children in
the same order. -/
theorem writes_overwrite_and_commute (reached : w.Reached) (known : w.Knows start)
    (hp : p.Keyed) (hq : q.Keyed) (first : w.put start p c = .ok (some (child, w₁)))
    (second : w.put start q d = .ok (some (child', w₂))) :
    (p.spelled = q.spelled → ∃ again w₁₂, w₁.put start q d = .ok (some (again, w₁₂)) ∧
      w₁₂.tree start = w₂.tree start ∧ ∀ n < w.store.nodes.size, w₁₂.store.tree n =
        w₂.store.tree n) ∧
    (¬ p.spelled <+: q.spelled → ¬ q.spelled <+: p.spelled →
      p.spelled.dropLast ≠ q.spelled.dropLast ∨
        ((∃ n, w.store.find (w.root start) p [] = .ok n) ∧ ∃ n,
          w.store.find (w.root start) q [] = .ok n) →
      ∃ again w₁₂ again' w₂₁, w₁.put start q d = .ok (some (again, w₁₂)) ∧
        w₂.put start p c = .ok (some (again', w₂₁)) ∧ w₁₂.tree start = w₂₁.tree start ∧
        ∀ n < w.store.nodes.size, w₁₂.store.tree n = w₂₁.store.tree n) := by
  obtain ⟨forest, fits, -⟩ := reached.sound
  obtain ⟨root, t, s₁, hroot, ht, hs₁, rfl⟩ := put_eq_some_iff.mp first
  obtain ⟨root', u, s₂, hroot', hu, hs₂, rfl⟩ := put_eq_some_iff.mp second
  cases hroot.symm.trans hroot'
  have hid := reached.sound.root_lt known hroot
  have fitst := fits_contentTree ht
  have fitsu := fits_contentTree hu
  have top : ∀ {s s' : Store}, (∀ n < w.store.nodes.size, s.tree n = s'.tree n) →
      ({ w with store := s } : Workspace).tree start =
          ({ w with store := s' } : Workspace).tree start := by
    intro s s' same
    show (w.root start).map s.tree = (w.root start).map s'.tree
    rw [hroot, Option.map_some, Option.map_some, same root hid]
  constructor
  · intro same
    obtain ⟨again, s₁₂, hs₁₂, htrees⟩ := forest.insert_overwrites fits hp hq hid fitst hs₁ hs₂ same
    exact ⟨again, _, put_eq_some_iff.mpr ⟨root, u, s₁₂, hroot, hu, hs₁₂, rfl⟩, top htrees, htrees⟩
  · intro hpq hqp settled
    have settled' : p.spelled.dropLast ≠ q.spelled.dropLast ∨
        (∃ n, w.store.Finds root p.spelled n) ∧ ∃ n, w.store.Finds root q.spelled n :=
      settled.imp_right (And.imp (exists_finds_of_find fits hp hroot)
        (exists_finds_of_find fits hq hroot))
    obtain ⟨again, s₁₂, again', s₂₁, hs₁₂, hs₂₁, htrees⟩ :=
      forest.insert_comm fits hp hq hid fitst hs₁ hs₂ fitsu hpq hqp settled'
    exact ⟨again, _, again', _, put_eq_some_iff.mpr ⟨root, u, s₁₂, hroot, hu, hs₁₂, rfl⟩,
      put_eq_some_iff.mpr ⟨root, t, s₂₁, hroot, ht, hs₂₁, rfl⟩, top htrees, htrees⟩

/-- An item that is written twice, once with a zero more in its position, and an item behind the
last one that is written before or after a new key of the level above. -/
theorem writes_overwrite_and_commute_list :
    let w : Workspace :=
      { fresh .empty with store := ⟨#[.level [("a", 1)], .list [2], .boolean true]⟩ }
    let item := Address.path [.key "a", .index 0]
    w.Reached ∧ w.Knows (.node 0) ∧
      (∃ w₁ w₂ again w₁₂, w.put (.node 0) (.text "a.00") .emptyLevel = .ok (some (3, w₁)) ∧
        w.put (.node 0) item .emptyList = .ok (some (3, w₂)) ∧
        w₁.put (.node 0) item .emptyList = .ok (some (again, w₁₂)) ∧
        w₁₂.tree (.node 0) = w₂.tree (.node 0)) ∧
      ∃ w₁ w₂ again w₁₂ again' w₂₁, w.put (.node 0) (.text "a.1") .emptyLevel = .ok (some (3, w₁)) ∧
        w.put (.node 0) (.text "b") .emptyList = .ok (some (3, w₂)) ∧
        w₁.put (.node 0) (.text "b") .emptyList = .ok (some (again, w₁₂)) ∧
        w₂.put (.node 0) (.text "a.1") .emptyLevel = .ok (some (again', w₂₁)) ∧
        w₁₂.tree (.node 0) = w₂₁.tree (.node 0) := by
  intro w item
  have reached : w.Reached :=
    .step (.fresh .empty) (.convert (.ofValue (.dict [(.text "a", .list [.boolean true])]))) trivial
  have known : w.Knows (.node 0) := show 0 < 3 by decide
  refine ⟨reached, known, ?_, ?_⟩
  · obtain ⟨again, w₁₂, hput, htree, -⟩ :=
      (writes_overwrite_and_commute reached known (p := .text "a.00") (q := item)
      (c := .emptyLevel) (d := .emptyList) trivial trivial rfl rfl).1 (by decide)
    exact ⟨_, _, again, w₁₂, rfl, rfl, hput, htree⟩
  · obtain ⟨again, w₁₂, again', w₂₁, hput, hput', htree, -⟩ :=
      (writes_overwrite_and_commute reached known
      (p := .text "a.1") (q := .text "b") (c := .emptyLevel) (d := .emptyList) trivial
        trivial rfl rfl).2
      (by decide) (by decide) (.inl (by decide))
    exact ⟨_, _, again, w₁₂, again', w₂₁, rfl, rfl, hput, hput', htree⟩

end Workspace

end Grove
