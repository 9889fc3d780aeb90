import Grove.Proofs.Store.Resolution
import Grove.Proofs.Tree.Update
import Grove.Proofs.Workspace.Run

/-!
# Writing and reading back

Writing at a keyed address succeeds exactly if its path is not empty, the segments in front of the
last one find a node, and that node takes a child at the last segment. What was written is then read
through the same address. Writing without an address succeeds exactly at lists, which get one more
item.
-/
namespace Grove

namespace Node

/-- A child may be put at a segment: at any key of a level but the empty one, and at a position of a
list up to the one behind its last item. -/
def Takes : Node → Segment → Prop
  | .level _, .key name => name ≠ ""
  | .list ids, .index i => i ≤ ids.length
  | _, _ => False

variable {n n' : Node} {seg : Segment} {child : NodeId}

theorem Placed.takes (h : Placed child (some seg) n n') : n.Takes seg := by
  cases h with
  | last ids => exact Nat.le_refl _
  | position inside => exact Nat.le_of_lt inside
  | key named short entries => exact named

theorem Takes.exists_placed (h : n.Takes seg)
    (short : ∀ name, seg = .key name → name.length ≤ maxPathLength) (child : NodeId) :
    ∃ n', Placed child (some seg) n n' := by
  cases n with
  | list ids =>
    cases seg with
    | key name => cases h
    | index i =>
      rcases Nat.lt_or_eq_of_le h with inside | rfl
      · exact ⟨_, .position inside⟩
      · exact ⟨_, .last ids⟩
  | level entries =>
    cases seg with
    | key name => exact ⟨_, .key h (short name rfl) entries⟩
    | index i => cases h
  | _ => cases seg <;> cases h

theorem Takes.named (h : n.Takes seg) : seg ≠ .key "" := by
  rintro rfl
  cases n with
  | level entries => exact h rfl
  | _ => cases h

theorem mem_items_of_slot? (h : n.slot? seg = some child) : (seg, child) ∈ n.items := by
  cases n with
  | list ids =>
    cases seg with
    | key name => cases h
    | index i => exact mem_items_list h
  | level entries =>
    cases seg with
    | key name => exact List.mem_map_of_mem (Entries.mem_of_get? h)
    | index i => cases h
  | _ => cases seg <;> cases h

end Node

/-- The node that content is stored as, if it is fit to be stored: a number in the range, short
text, a truth value, or an empty container. -/
inductive Content.Stored : Content → Node → Prop
  | number {v : Value} {x : Binary64}
      (real : v.real? = some (.ok x)) : Stored (.number v) (.number x)
  | string {t : Text} (short : t.length ≤ maxStringLength) : Stored (.string (.text t)) (.string t)
  | boolean (b : Bool) : Stored (.boolean (.boolean b)) (.boolean b)
  | emptyList : Stored .emptyList (.list [])
  | emptyLevel : Stored .emptyLevel (.level [])

theorem Content.Stored.exists_tree {content : Content} {n : Node} (h : content.Stored n) :
    ∃ t, content.tree = .ok t ∧ ∀ base, t.layout base = [n] := by
  cases h with
  | @number v x real =>
    refine ⟨.number x, ?_, fun _ => rfl⟩
    rw [Content.tree, Tree.ofNumber, real]
    rfl
  | @string t short => exact ⟨.string t, if_neg (Nat.not_lt.mpr short), fun _ => rfl⟩
  | boolean b => exact ⟨.boolean b, rfl, fun _ => rfl⟩
  | emptyList => exact ⟨.list [], rfl, fun _ => rfl⟩
  | emptyLevel => exact ⟨.level [], rfl, fun _ => rfl⟩

namespace Store

variable {s s' : Store}

/-- An address can be written at from a node: its text is short enough, its path is not empty, and
the node that the other segments find takes a child at the last one. -/
def Writable (s : Store) (id : Nat) (address : Address) : Prop :=
  address.written.length ≤ maxPathLength ∧ ∃ front last parent,
    address.spelled = front ++ [last] ∧ s.Finds id front parent ∧ (s.node parent).Takes last

theorem exists_insert_iff (fits : s.Fits) {address : Address} (keyed : address.Keyed)
    {id : Nat} {t : Tree} :
    (∃ child s', s.insert id address t = .ok (some (child, s'))) ↔ s.Writable id address := by
  constructor
  · rintro ⟨child, s', hs⟩
    obtain ⟨parent, slot, n, hslot, -, placed, -⟩ := insert_eq_some_iff.mp hs
    obtain ⟨short, front, last, hspelled, rfl, finds⟩ :=
      (designates_iff fits keyed).mp (slot_eq_ok_iff.mp hslot)
    exact ⟨short, front, last, parent, hspelled, finds, placed.takes⟩
  · rintro ⟨short, front, last, parent, hspelled, finds, takes⟩
    have hshort : ∀ name, last = .key name → name.length ≤ maxPathLength := by
      rintro name rfl
      have hmem : .key name ∈ address.spelled := by simp [hspelled]
      exact Nat.le_trans (Address.length_le_written hmem) short
    obtain ⟨n', placed⟩ := takes.exists_placed hshort s.nodes.size
    have hdes : s.Designates id address parent (some last) :=
      (designates_iff fits keyed).mpr ⟨short, front, last, hspelled, rfl, finds⟩
    exact ⟨_, _, insert_eq_some_iff.mpr ⟨parent, some last, n', slot_eq_ok_iff.mpr hdes,
      rfl, placed, rfl⟩⟩

/-- The way to the node that is written stays as it is. -/
theorem Grafted.leads {parent child : Nat} {slot : Option Segment}
    (g : Grafted s s' parent slot child) {id : Nat} {path : List Segment} (hid : id < s.nodes.size)
    (h : s.Leads id path parent) : s'.Leads id path parent := by
  induction h with
  | here id => exact .here id
  | @down id seg c rest last hslot tail ih =>
    have hc : s.Child id c := Node.mem_children_of_mem_items hslot
    have hlt := g.before.after hc
    have hle := g.before.le_of_within tail.within
    have hne : id ≠ last := by omega
    exact .down ((g.kept hid hne).symm ▸ hslot) (ih g hlt.2)

/-- What was put at a keyed address is found there. -/
theorem Forest.find_insert (h : s.Forest) (fits : s.Fits) {address : Address}
    (keyed : address.Keyed) {id child : Nat} (hid : id < s.nodes.size) {t : Tree} (ht : t.Fits)
    (hs : s.insert id address t = .ok (some (child, s'))) :
    s'.find (some id) address [] = .ok child := by
  obtain ⟨parent, slot, hdes, -, -, g⟩ := h.grafted_insert hid hs
  obtain ⟨short, front, last, hspelled, rfl, ⟨leads, named⟩⟩ := (designates_iff fits keyed).mp hdes
  have hlast : (last, child) ∈ (s'.node parent).items :=
    Node.mem_items_of_slot? g.placed.slot?_target
  refine (find_eq_ok_iff (fits.insert ht hs) keyed).mpr ⟨short, ?_, ?_⟩
  · rw [hspelled]
    exact (g.leads hid leads).append (.down hlast (.here child))
  · rw [hspelled, List.mem_append, List.mem_singleton, not_or]
    exact ⟨named, g.placed.takes.named.symm⟩

/-- Without an address a tree goes behind the last item of a list. -/
theorem insert_omitted_iff {id child : Nat} {t : Tree} :
    s.insert id .omitted t = .ok (some (child, s')) ↔
    ∃ ids, s.node id = .list ids ∧ child = s.nodes.size ∧
      s' = (s.plant t).2.write id (.list (ids ++ [child])) := by
  rw [insert_eq_some_iff]
  constructor
  · rintro ⟨parent, slot, n, hslot, rfl, placed, rfl⟩
    cases hslot
    generalize s.node id = old at placed
    cases placed with
    | behind ids => exact ⟨ids, rfl, rfl, rfl⟩
  · rintro ⟨ids, hlist, rfl, rfl⟩
    exact ⟨id, none, _, rfl, rfl, hlist ▸ .behind ids, rfl⟩

/-- The new node is the first one that the tree is laid out in. -/
theorem node_insert {address : Address} {id child : Nat} {t : Tree} {n : Node}
    (hn : ∀ base, t.layout base = [n]) (hid : id < s.nodes.size) (h : s.Forest)
    (hs : s.insert id address t = .ok (some (child, s'))) :
    s'.node child = n := by
  obtain ⟨parent, slot, n', hslot, rfl, -, rfl⟩ := insert_eq_some_iff.mp hs
  have hparent : parent < s.nodes.size := h.lt_size_of_within hid (slot_eq_ok_iff.mp hslot).within
  rw [node_write_of_ne _ (Nat.ne_of_gt hparent)]
  have hplanted := node_plant_add s t 0
  rw [hn] at hplanted
  exact hplanted

end Store

namespace Workspace

variable {w : Workspace} {h : NodeId} {content : Content} {n : Node}

theorem put_node_iff {t : Tree} (htree : content.tree = .ok t) {address : Address} {child : NodeId}
    {w' : Workspace} : w.put (.node h) address content = .ok (some (child, w')) ↔
      ∃ s', w.store.insert h address t = .ok (some (child, s')) ∧ w' = { w with store := s' } := by
  rw [put_eq_some_iff]
  constructor
  · rintro ⟨root, t', s', hroot, htree', hs, rfl⟩
    cases hroot
    rw [htree] at htree'
    cases htree'
    exact ⟨s', hs, rfl⟩
  · rintro ⟨s', hs, rfl⟩
    exact ⟨h, t, s', rfl, htree, hs, rfl⟩

theorem exists_put_node_iff {t : Tree} (htree : content.tree = .ok t) {address : Address} :
    (∃ child w', w.put (.node h) address content = .ok (some (child, w'))) ↔
      ∃ child s', w.store.insert h address t = .ok (some (child, s')) := by
  constructor
  · rintro ⟨child, w', hput⟩
    obtain ⟨s', hs, -⟩ := (put_node_iff htree).mp hput
    exact ⟨child, s', hs⟩
  · rintro ⟨child, s', hs⟩
    exact ⟨child, _, (put_node_iff htree).mpr ⟨s', hs, rfl⟩⟩

/-- Content that is fit to be stored is put at a keyed address exactly if the address can be written
at, and then every question about the address is answered by it. Without an address it is put
exactly into lists, which get one more item. -/
theorem write_read_back (reached : w.Reached) (known : w.Knows (.node h))
    (stored : content.Stored n) :
    (∀ address : Address, address.Keyed →
      ((∃ child w', w.put (.node h) address content = .ok (some (child, w'))) ↔
        w.store.Writable h address) ∧
      ∀ child w', w.put (.node h) address content = .ok (some (child, w')) →
        w'.store.resolve (some h) address [] = .ok (some child) ∧ w'.store.node child = n ∧
        (∀ default, n.kind.isScalar = true →
          w'.store.scalar (some h) n.kind default address [] = .ok n.payload) ∧
        (∀ kind default, kind ≠ n.kind →
          w'.store.scalar (some h) kind default address [] = .ok default) ∧
        w'.store.hasKey (some h) address [] = .ok true ∧
          w'.store.listSize (some h) address [] = .ok 0) ∧
    ((∃ child w', w.put (.node h) .omitted content = .ok (some (child, w'))) ↔
      (w.store.node h).kind = .list) ∧
    ∀ child w', w.put (.node h) .omitted content = .ok (some (child, w')) →
      w'.store.node child = n ∧
      ∃ ids, w.store.node h = .list ids ∧ w'.store.node h = .list (ids ++ [child]) := by
  obtain ⟨forest, fits, -⟩ := reached.sound
  obtain ⟨t, htree, hlayout⟩ := stored.exists_tree
  refine ⟨?_, ?_, ?_⟩
  · intro address keyed
    refine ⟨(exists_put_node_iff htree).trans (Store.exists_insert_iff fits keyed), ?_⟩
    intro child w' hput
    obtain ⟨s', hs, rfl⟩ := (put_node_iff htree).mp hput
    have hfind := forest.find_insert fits keyed known (fits_contentTree htree) hs
    have hnode : s'.node child = n := Store.node_insert hlayout known forest hs
    refine ⟨Store.resolve_of_find hfind, hnode, ?_, ?_, Store.hasKey_of_find hfind, ?_⟩
    · intro default _
      rw [Store.scalar_of_find hfind, hnode, if_pos rfl]
    · intro kind default hkind
      rw [Store.scalar_of_find hfind, hnode, if_neg hkind]
    · rw [Store.listSize_of_find hfind, hnode]
      cases stored <;> rfl
  · rw [exists_put_node_iff htree]
    simp only [Store.insert_omitted_iff]
    constructor
    · rintro ⟨child, s', ids, hlist, -⟩
      rw [hlist]
      rfl
    · intro hkind
      cases hlist : w.store.node h with
      | list ids => exact ⟨_, _, ids, rfl, rfl, rfl⟩
      | _ => rw [hlist] at hkind; cases hkind
  · intro child w' hput
    obtain ⟨s', hs, rfl⟩ := (put_node_iff htree).mp hput
    refine ⟨Store.node_insert hlayout known forest hs, ?_⟩
    obtain ⟨ids, hlist, rfl, rfl⟩ := Store.insert_omitted_iff.mp hs
    refine ⟨ids, hlist, Store.node_write_self _ _ _ ?_⟩
    rw [Store.size_plant]
    exact Nat.lt_add_right _ known

/-- A number written behind the last item of a list, at a position with a zero in front. -/
theorem write_read_back_position :
    let w := ((fresh .empty).after (.make .emptyLevel)).after
      (.put (.node 0) (.text "a") .emptyList)
    let content := Content.number (.float (.zero false))
    w.Reached ∧ w.Knows (.node 0) ∧ content.Stored (.number (.zero false)) ∧
      ∃ w', w.put (.node 0) (.text "a.00") content = .ok (some (2, w')) ∧
        w'.store.scalar (some 0) .number .null (.text "a.00") [] = .ok (.float (.zero false)) := by
  intro w content
  have reached : w.Reached := .step (.step (.fresh .empty) (.make .emptyLevel) trivial) _
    (show 0 < 1 from Nat.one_pos)
  have known : w.Knows (.node 0) := show 0 < 2 by decide
  have stored : content.Stored (.number (.zero false)) := .number rfl
  refine ⟨reached, known, stored, _, rfl, ?_⟩
  obtain ⟨keyed, -⟩ := write_read_back reached known stored
  obtain ⟨-, -, reads, -⟩ := (keyed (.text "a.00") trivial).2 2 _ rfl
  exact reads .null rfl

end Workspace

end Grove
