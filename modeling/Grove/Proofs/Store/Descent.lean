import Grove.Proofs.Store.Forest
import Grove.Proofs.Tree.Entries

/-!
# Typed addresses

A typed address is a list of segments that leads from a node to another through slots, an empty key
included. Every node within another has a typed address there. Paths lead along typed addresses; the
place that is designated for writing is a slot of a node within the one the path starts from.
-/
namespace Grove

open Relation

namespace Node

theorem mem_children_of_mem_items {n : Node} {seg : Segment} {c : Nat} (h : (seg, c) ∈ n.items) :
    c ∈ n.children := by
  rw [← map_snd_items]
  exact List.mem_map_of_mem h

theorem exists_mem_items {n : Node} {c : Nat} (h : c ∈ n.children) : ∃ seg, (seg, c) ∈ n.items := by
  rw [← map_snd_items] at h
  obtain ⟨⟨seg, d⟩, hi, rfl⟩ := List.mem_map.mp h
  exact ⟨seg, hi⟩

theorem mem_items_list {ids : List NodeId} {i c : Nat} (h : ids[i]? = some c) :
    (Segment.index i, c) ∈ (Node.list ids).items := by
  obtain ⟨hi, rfl⟩ := List.getElem?_eq_some_iff.mp h
  exact List.mem_map.mpr ⟨(ids[i], i), List.mem_zipIdx_iff_getElem?.mpr (by simp), rfl⟩

/-- A segment that finds a child names its slot. -/
theorem mem_items_of_child? {n : Node} {seg : Segment} {c : Nat} (h : n.child? seg = some c) :
    (seg, c) ∈ n.items := by
  cases n with
  | list ids =>
    cases seg with
    | index i => exact mem_items_list h
    | key name => cases h
  | level entries =>
    cases seg with
    | index i => cases h
    | key name =>
      simp only [child?] at h
      split at h
      · cases h
      · exact List.mem_map.mpr ⟨(name, c), Entries.mem_of_get? h, rfl⟩
  | _ => cases seg <;> cases h

end Node

namespace Store

/-- Segments lead from one node to another through slots. -/
inductive Leads (s : Store) : Nat → List Segment → Nat → Prop
  | here (id : Nat) : Leads s id [] id
  | down {id : Nat} {seg : Segment} {c : Nat} {rest : List Segment} {last : Nat}
      (slot : (seg, c) ∈ (s.node id).items) (tail : Leads s c rest last) : Leads s id
        (seg :: rest) last

variable {s : Store}

theorem Leads.within {id : Nat} {a : List Segment} {last : Nat} (h : s.Leads id a last) :
    s.Within id last := by
  induction h with
  | here id => exact .refl
  | down slot _ ih => exact ReflTransGen.head (Node.mem_children_of_mem_items slot) ih

theorem exists_leads {id last : Nat} (h : s.Within id last) : ∃ a, s.Leads id a last := by
  induction h using ReflTransGen.head_induction_on with
  | refl => exact ⟨[], .here last⟩
  | head hc _ ih =>
    obtain ⟨a, ha⟩ := ih
    obtain ⟨seg, hseg⟩ := Node.exists_mem_items hc
    exact ⟨seg :: a, .down hseg ha⟩

/-- There is one way from a node to another at most. -/
theorem Forest.leads_unique (h : s.Forest) {id last : Nat} {a b : List Segment}
    (ha : s.Leads id a last) (hb : s.Leads id b last) : a = b := by
  have once : ∀ {id : Nat} {seg : Segment} {c : Nat} {rest : List Segment},
      (seg, c) ∈ (s.node id).items →
      ¬ s.Leads c rest id := by
    intro id seg c rest hslot leads
    have hlt := (h.after (show s.Child id c from Node.mem_children_of_mem_items hslot)).1
    have hle := h.le_of_within leads.within
    omega
  induction ha generalizing b with
  | here id =>
    cases hb with
    | here => rfl
    | down slot tail => exact absurd tail (once slot)
  | @down id seg c rest last slot tail ih =>
    cases hb with
    | here => exact absurd tail (once slot)
    | @down _ seg' c' rest' _ slot' tail' =>
      have hchild : c = c' := h.eq_of_within (Node.mem_children_of_mem_items slot)
        (Node.mem_children_of_mem_items slot') tail.within tail'.within
      subst hchild
      have hnodup : ((s.node id).items.map (·.2)).Nodup := by
        rw [Node.map_snd_items]
        exact h.once id
      have hseg : seg = seg' := congrArg Prod.fst (List.inj_on_of_nodup_map hnodup slot slot' rfl)
      rw [hseg, ih tail']

theorem leads_of_descend {segments reached : List Segment} {id p : Nat}
    (h : s.descend reached id segments = .ok p) : s.Leads id segments p := by
  induction segments generalizing id reached with
  | nil => cases h; exact .here p
  | cons segment rest ih =>
    rw [descend] at h
    split at h
    · next c hc => exact .down (Node.mem_items_of_child? hc) (ih h)
    · cases h

/-- The slot that an address designates from a node, as a relation: without an address the place
behind the last child of the node itself, else the last segment in the node that the others find. -/
inductive Designates (s : Store) (id : Nat) : Address → Nat → Option Segment → Prop
  | omitted : Designates s id .omitted id none
  | path {address : Address} {front : List Segment} {last : Segment} {parent : Nat}
      (given : address ≠ .omitted)
      (segments : address.segments [] = .ok (front ++ [last]))
      (found : s.descend [] id front = .ok parent) : Designates s id address parent (some last)

theorem Designates.within {id parent : Nat} {address : Address} {slot : Option Segment}
    (h : s.Designates id address parent slot) : s.Within id parent := by
  cases h with
  | omitted => exact .refl
  | path _ _ found => exact (leads_of_descend found).within

theorem slot_of_ne {address : Address} (given : address ≠ .omitted) (s : Store) (id : Nat) :
    s.slot id address = do
      let (parent, last) ← s.findForWrite (some id) address []
      return (parent, some last) := by
  cases address with
  | omitted => exact absurd rfl given
  | _ => rfl

theorem findForWrite_eq_ok_iff {id parent : Nat} {address : Address} {args : List Value}
    {last : Segment} :
    s.findForWrite (some id) address args = .ok (parent, last) ↔ ∃ front,
      address.segments args = .ok (front ++ [last]) ∧ s.descend [] id front = .ok parent := by
  simp only [findForWrite]
  cases hsegs : address.segments args with
  | error e => simp [bind, Except.bind]
  | ok segments =>
    rcases List.eq_nil_or_concat segments with rfl | ⟨front, final, rfl⟩
    · simp [bind, Except.bind]
    · simp only [bind, Except.bind, List.concat_eq_append, List.getLast?_append,
        List.getLast?_singleton, Option.some_or, List.dropLast_concat, pure,
        Except.pure, Except.ok.injEq]
      constructor
      · intro h
        cases hfound : s.descend [] id front with
        | error e => rw [hfound] at h; cases h
        | ok p => rw [hfound] at h; cases h; exact ⟨front, rfl, hfound⟩
      · rintro ⟨front', heq, hfound⟩
        obtain ⟨rfl, hlast⟩ := List.append_inj' heq rfl
        cases hlast
        rw [hfound]

theorem slot_eq_ok_iff {id parent : Nat} {address : Address} {slot : Option Segment} :
    s.slot id address = .ok (parent, slot) ↔ s.Designates id address parent slot := by
  by_cases given : address = .omitted
  · subst given
    constructor
    · intro h
      cases h
      exact .omitted
    · intro h
      cases h with
      | omitted => rfl
      | path given => exact absurd rfl given
  · rw [slot_of_ne given]
    constructor
    · intro h
      cases hplace : s.findForWrite (some id) address [] with
      | error e => rw [hplace] at h; cases h
      | ok target =>
        rw [hplace] at h
        cases h
        obtain ⟨front, hsegs, hfound⟩ := findForWrite_eq_ok_iff.mp hplace
        exact .path given hsegs hfound
    · intro h
      cases h with
      | omitted => exact absurd rfl given
      | path _ hsegs hfound =>
        rw [findForWrite_eq_ok_iff.mpr ⟨_, hsegs, hfound⟩]
        rfl

end Store

end Grove
