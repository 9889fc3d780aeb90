import Grove.Proofs.Path.Address
import Grove.Proofs.Store.Limits
import Grove.Query

/-!
# What paths find

A path finds a node if it leads there through slots none of which has the empty key. Nodes are found
by keyed addresses exactly so, and every question about an address is answered by the node that is
found.
-/
namespace Grove

open Relation

namespace Node

/-- A segment finds what is in its slot, unless it is the empty key. -/
theorem child?_eq_some_iff {n : Node} (fits : n.Fits) {seg : Segment} {c : Nat} :
    n.child? seg = some c ↔ (seg, c) ∈ n.items ∧ seg ≠ .key "" := by
  constructor
  · intro h
    refine ⟨mem_items_of_child? h, ?_⟩
    rintro rfl
    cases n <;> cases h
  · rintro ⟨hmem, hnamed⟩
    cases n with
    | list ids =>
      obtain ⟨⟨d, i⟩, hslot, heq⟩ := List.mem_map.mp hmem
      cases heq
      exact List.mem_zipIdx_iff_getElem?.mp hslot
    | level entries =>
      obtain ⟨⟨k, d⟩, hslot, heq⟩ := List.mem_map.mp hmem
      cases heq
      have hk : k ≠ "" := fun h => hnamed (h ▸ rfl)
      rw [child?, if_neg hk]
      exact (Entries.get?_eq_some_iff fits.1).mpr hslot
    | _ => cases hmem

end Node

namespace Store

variable {s : Store}

theorem Leads.append {id mid last : Nat} {a b : List Segment} (h : s.Leads id a mid)
    (h' : s.Leads mid b last) :
    s.Leads id (a ++ b) last := by
  induction h with
  | here => exact h'
  | down slot _ ih => exact .down slot (ih h')

theorem Leads.split {a b : List Segment} {id last : Nat} (h : s.Leads id (a ++ b) last) :
    ∃ mid, s.Leads id a mid ∧ s.Leads mid b last := by
  induction a generalizing id with
  | nil => exact ⟨id, .here id, h⟩
  | cons seg rest ih =>
    cases h with
    | down slot tail =>
      obtain ⟨mid, front, back⟩ := ih tail
      exact ⟨mid, .down slot front, back⟩

structure Finds (s : Store) (id : Nat) (path : List Segment) (last : Nat) : Prop where
  leads : s.Leads id path last
  named : Segment.key "" ∉ path

theorem descend_eq_ok_iff (fits : s.Fits) {reached path : List Segment} {id last : Nat} :
    s.descend reached id path = .ok last ↔ s.Finds id path last := by
  induction path generalizing id reached with
  | nil =>
    constructor
    · intro h
      cases h
      exact ⟨.here _, List.not_mem_nil⟩
    · rintro ⟨⟨⟩, -⟩
      rfl
  | cons seg rest ih =>
    rw [descend]
    constructor
    · intro h
      split at h
      · next c hc =>
        obtain ⟨hslot, hseg⟩ := (Node.child?_eq_some_iff (fits id)).mp hc
        have hrest := ih.mp h
        refine ⟨.down hslot hrest.leads, ?_⟩
        rw [List.mem_cons, not_or]
        exact ⟨hseg.symm, hrest.named⟩
      · cases h
    · rintro ⟨hleads, hnamed⟩
      obtain ⟨hseg, hrest⟩ := not_or.mp (mt List.mem_cons.mpr hnamed)
      cases hleads with
      | down slot tail =>
        rw [(Node.child?_eq_some_iff (fits id)).mpr ⟨slot, Ne.symm hseg⟩]
        exact ih.mpr ⟨tail, hrest⟩

theorem Finds.unique (fits : s.Fits) {path : List Segment} {id n m : Nat} (h : s.Finds id path n)
    (h' : s.Finds id path m) : n = m := by
  have hn : s.descend [] id path = .ok n := (descend_eq_ok_iff fits).mpr h
  have hm : s.descend [] id path = .ok m := (descend_eq_ok_iff fits).mpr h'
  exact Except.ok.inj (hn.symm.trans hm)

/-- To find a node by two paths in a row is to find a node by the first and from there by the
second. -/
theorem finds_append_iff {a b : List Segment} {id last : Nat} :
    s.Finds id (a ++ b) last ↔ ∃ mid, s.Finds id a mid ∧ s.Finds mid b last := by
  constructor
  · rintro ⟨leads, named⟩
    rw [List.mem_append, not_or] at named
    obtain ⟨mid, front, back⟩ := leads.split
    exact ⟨mid, ⟨front, named.1⟩, ⟨back, named.2⟩⟩
  · rintro ⟨mid, front, back⟩
    refine ⟨front.leads.append back.leads, ?_⟩
    rw [List.mem_append, not_or]
    exact ⟨front.named, back.named⟩

/-- A path that finds nothing fails at the first segment without a child. -/
theorem category_of_descend {reached path : List Segment} {id : Nat} {e : Error}
    (h : s.descend reached id path = .error e) : e.category = .failure .pathNotFound := by
  induction path generalizing id reached with
  | nil => cases h
  | cons seg rest ih =>
    rw [descend] at h
    split at h
    · exact ih h
    · cases h
      rfl

theorem find_eq_ok_iff (fits : s.Fits) {address : Address} (keyed : address.Keyed) {id n : Nat} :
    s.find (some id) address [] = .ok n ↔
      address.written.length ≤ maxPathLength ∧ s.Finds id address.spelled n := by
  constructor
  · intro h
    obtain ⟨path, hpath, h⟩ := ok_of_bind h
    obtain ⟨short, rfl⟩ := (Address.segments_eq_ok_iff keyed).mp hpath
    exact ⟨short, (descend_eq_ok_iff fits).mp h⟩
  · rintro ⟨short, hfinds⟩
    rw [find, (Address.segments_eq_ok_iff keyed).mpr ⟨short, rfl⟩]
    exact (descend_eq_ok_iff fits).mpr hfinds

/-- A keyed address designates its last segment in the node that the segments in front of it
find. -/
theorem designates_iff (fits : s.Fits) {address : Address} (keyed : address.Keyed) {id parent : Nat}
    {slot : Option Segment} : s.Designates id address parent slot ↔
      address.written.length ≤ maxPathLength ∧ ∃ front last,
        address.spelled = front ++ [last] ∧ slot = some last ∧ s.Finds id front parent := by
  constructor
  · intro h
    cases h with
    | omitted => cases keyed
    | @path _ front last _ _ hsegs found =>
      obtain ⟨short, hspelled⟩ := (Address.segments_eq_ok_iff keyed).mp hsegs
      exact ⟨short, front, last, hspelled.symm, rfl, (descend_eq_ok_iff fits).mp found⟩
  · rintro ⟨short, front, last, hspelled, rfl, finds⟩
    exact .path keyed.ne_omitted ((Address.segments_eq_ok_iff keyed).mpr ⟨short, hspelled.symm⟩)
      ((descend_eq_ok_iff fits).mpr finds)

/-- An address that can be written but finds nothing resolves to nothing. -/
theorem resolve_of_not_finds (fits : s.Fits) {address : Address} (keyed : address.Keyed)
    (short : address.written.length ≤ maxPathLength) {id : Nat}
    (h : ∀ n, ¬ s.Finds id address.spelled n) :
    s.resolve (some id) address [] = .ok none := by
  have hfind : s.find (some id) address [] = s.descend [] id address.spelled := by
    rw [find, (Address.segments_eq_ok_iff keyed).mpr ⟨short, rfl⟩]
    rfl
  rw [resolve, hfind]
  cases hdescend : s.descend [] id address.spelled with
  | ok n => exact absurd ((descend_eq_ok_iff fits).mp hdescend) (h n)
  | error e => rw [absorb, category_of_descend hdescend]

section

variable {root : Option NodeId} {address : Address} {args : List Value} {n : Nat}
  (h : s.find root address args = .ok n)

include h

theorem resolve_of_find : s.resolve root address args = .ok (some n) := by
  rw [resolve, h]
  rfl

theorem hasKey_of_find : s.hasKey root address args = .ok true := by
  rw [hasKey, resolve_of_find h]
  rfl

theorem listSize_of_find : s.listSize root address args =
    .ok (if (s.node n).kind = .list then (s.node n).children.length else 0) := by
  rw [listSize, resolve_of_find h]
  simp only [bind, Except.bind]
  cases s.node n <;> rfl

/-- An accessor answers with the payload of a node of its kind, and else with the default. -/
theorem scalar_of_find (kind : Kind) (default : Value) : s.scalar root kind default address args =
    .ok (if kind = (s.node n).kind then (s.node n).payload else default) := by
  rw [scalar, lookup, h]
  by_cases hkind : kind = (s.node n).kind
  · simp [hkind, bind, Except.bind, pure, Except.pure]
  · simp [hkind, bind, Except.bind, pure, Except.pure]

end

/-- What an absorbing lookup answers with has been found. -/
theorem absorb_eq_some_iff {α : Type} {x : Except Error α} {a : α} :
    absorb x = .ok (some a) ↔ x = .ok a := by
  unfold absorb
  constructor
  · intro h
    split at h
    · cases h
      rfl
    · split at h <;> cases h
  · rintro rfl
    rfl

/-- A node is answered only if it is found. -/
theorem resolve_eq_some_iff {root : Option NodeId} {address : Address}
    {args : List Value} {n : Nat} :
    s.resolve root address args = .ok (some n) ↔ s.find root address args = .ok n :=
  absorb_eq_some_iff

/-- An address that can be written resolves to the node that its path finds, and to nothing if it
finds none. -/
theorem exists_resolve (fits : s.Fits) {address : Address} (keyed : address.Keyed)
    (short : address.written.length ≤ maxPathLength) (id : Nat) :
    ∃ found, s.resolve (some id) address [] = .ok found ∧ ∀ n, found = some n ↔
      s.Finds id address.spelled n := by
  by_cases h : ∃ n, s.Finds id address.spelled n
  · obtain ⟨n, hn⟩ := h
    refine ⟨some n, resolve_of_find ((find_eq_ok_iff fits keyed).mpr ⟨short, hn⟩), fun m => ?_⟩
    constructor
    · rintro ⟨⟩
      exact hn
    · intro hm
      rw [hn.unique fits hm]
  · refine ⟨none, resolve_of_not_finds fits keyed short fun n hn => h ⟨n, hn⟩, fun m => ?_⟩
    constructor
    · nofun
    · intro hm
      exact absurd ⟨m, hm⟩ h

end Store

end Grove
