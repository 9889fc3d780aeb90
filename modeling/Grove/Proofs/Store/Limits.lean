import Grove.Proofs.Store.Change
import Grove.Proofs.Tree.Limits

/-!
# Stores within the limits

The limits of trees, told node by node. They are kept by every change of a store, and the trees that
the nodes hold are within the limits if the nodes are.
-/
namespace Grove

namespace Node

/-- A text is short enough, and so are the keys of a level, each of which is told once. -/
def Fits : Node → Prop
  | .string s => s.length ≤ maxStringLength
  | .level entries =>
    (Entries.keys entries).Nodup ∧ ∀ k ∈ Entries.keys entries, k.length ≤ maxPathLength
  | _ => True

theorem fits_emptyLevel : (Node.level []).Fits :=
  ⟨List.nodup_nil, nofun⟩

theorem Placed.fits {n n' : Node} {slot : Option Segment} {child : NodeId}
    (placed : Placed child slot n n') (h : n.Fits) : n'.Fits := by
  cases placed with
  | behind | last | position => trivial
  | key named short entries =>
    refine ⟨Entries.nodup_keys_put h.1 child, ?_⟩
    intro k hk
    rw [Entries.keys_put] at hk
    split at hk
    · exact h.2 k hk
    · rcases List.mem_append.mp hk with hk | hk
      · exact h.2 k hk
      · exact List.mem_singleton.mp hk ▸ short

theorem Fits.emptied {n : Node} (h : n.Fits) : n.emptied.Fits := by
  cases n with
  | level entries => exact fits_emptyLevel
  | list ids => trivial
  | _ => exact h

end Node

namespace Tree

theorem keys_entryStarts (base : Nat) (es : List (Text × Tree)) :
    Entries.keys (entryStarts base es) = Entries.keys es := by
  induction es generalizing base with
  | nil => rfl
  | cons e es ih =>
    obtain ⟨k, t⟩ := e
    have := ih (base + t.count)
    simp only [Entries.keys] at this ⊢
    simp only [entryStarts, List.map_cons, this]

mutual

theorem fits_layout (base : Nat) : (t : Tree) → t.Fits → ∀ n ∈ t.layout base, n.Fits
  | .number _ | .boolean _ => by
    intro _ n hn
    cases List.mem_singleton.mp hn
    trivial
  | .string _ => by
    intro h n hn
    cases List.mem_singleton.mp hn
    exact h
  | .list items => by
    intro h n hn
    rcases List.mem_cons.mp hn with rfl | hn
    · trivial
    · exact fits_layoutAll (base + 1) items h n hn
  | .level entries => by
    intro h n hn
    rcases List.mem_cons.mp hn with rfl | hn
    · refine ⟨by rw [keys_entryStarts]; exact h.1, ?_⟩
      intro k hk
      rw [keys_entryStarts] at hk
      obtain ⟨e, he, rfl⟩ := List.mem_map.mp hk
      exact (entriesFit_iff.mp h.2 e he).1
    · exact fits_layoutEntries (base + 1) entries h.2 n hn

theorem fits_layoutAll (base : Nat) : (ts : List Tree) → AllFit ts → ∀ n ∈ layoutAll base ts, n.Fits
  | [] => by intro _ n hn; cases hn
  | t :: ts => by
    intro h n hn
    rcases List.mem_append.mp hn with hn | hn
    · exact fits_layout base t h.1 n hn
    · exact fits_layoutAll (base + t.count) ts h.2 n hn

theorem fits_layoutEntries (base : Nat) : (es : List (Text × Tree)) → EntriesFit es →
    ∀ n ∈ layoutEntries base es, n.Fits
  | [] => by intro _ n hn; cases hn
  | (_, t) :: es => by
    intro h n hn
    rcases List.mem_append.mp hn with hn | hn
    · exact fits_layout base t h.1.2 n hn
    · exact fits_layoutEntries (base + t.count) es h.2 n hn

end

end Tree

namespace Store

/-- Every node is within the limits. -/
def Fits (s : Store) : Prop :=
  ∀ id, (s.node id).Fits

namespace Fits

variable {s : Store}

theorem plant (h : s.Fits) {t : Tree} (ht : t.Fits) : (s.plant t).2.Fits := by
  intro id
  by_cases hid : id < s.nodes.size
  · rw [node_plant_of_lt s t hid]
    exact h id
  · obtain ⟨i, rfl⟩ := Nat.exists_eq_add_of_le (Nat.le_of_not_lt hid)
    rw [node_plant_add]
    cases hn : (t.layout s.nodes.size)[i]? with
    | none => exact Node.fits_emptyLevel
    | some n => exact Tree.fits_layout _ t ht n (List.mem_of_getElem? hn)

theorem write (h : s.Fits) {id : Nat} {n : Node} (hn : n.Fits) : (s.write id n).Fits := by
  intro other
  by_cases hid : id < s.nodes.size
  · rw [node_write n hid]
    split
    · exact hn
    · exact h other
  · rw [write_of_size_le (Nat.le_of_not_lt hid)]
    exact h other

theorem insert (h : s.Fits) {id child : NodeId} {address : Address} {t : Tree}
    {s' : Store} (ht : t.Fits) (hs : s.insert id address t = .ok (some (child, s'))) : s'.Fits := by
  obtain ⟨parent, slot, n, -, -, placed, rfl⟩ := insert_eq_some_iff.mp hs
  exact (h.plant ht).write (placed.fits (h parent))

theorem clear (h : s.Fits) (id : NodeId) : (s.clear id).Fits := by
  intro other
  rw [node_clear]
  split
  · exact (h other).emptied
  · exact h other

/-- Nodes within the limits hold trees within the limits. -/
theorem tree (h : s.Fits) (forest : s.Forest) (id : Nat) : (s.tree id).Fits := by
  induction id using forest.induction with
  | step id ih =>
    have hid := h id
    rw [forest.tree_eq]
    cases hn : s.node id with
    | number x => trivial
    | string t => rw [hn] at hid; exact hid
    | boolean b => trivial
    | list ids =>
      refine Tree.allFit_iff.mpr ?_
      intro t ht
      obtain ⟨c, hc, rfl⟩ := List.mem_map.mp ht
      exact ih c (by rw [Child, hn]; exact hc)
    | level entries =>
      rw [hn] at hid
      refine ⟨?_, Tree.entriesFit_iff.mpr ?_⟩
      · simp only [Entries.keys, List.map_map, Function.comp_def]
        exact hid.1
      · intro e he
        obtain ⟨⟨k, c⟩, hc, rfl⟩ := List.mem_map.mp he
        refine ⟨hid.2 k (List.mem_map_of_mem hc), ih c ?_⟩
        rw [Child, hn]
        exact List.mem_map_of_mem hc

end Fits

theorem fits_empty : Store.empty.Fits := by
  intro id
  rw [node_of_size_le (Nat.zero_le id)]
  exact Node.fits_emptyLevel

end Store

end Grove
