import Grove.Proofs.Store.Persistence
import Grove.Proofs.Workspace.Effect

/-!
# The lifetime of nodes

However a run goes on, a node that was made once stays within the limits, keeps its kind, and keeps
its payload if it is a scalar. What is put over a node is always another one.
-/
namespace Grove

/-- The payload of a node is of the type that its kind says, and a text is short enough. -/
theorem Node.Fits.payload {n : Node} (h : n.Fits) :
    (n.kind = .string → ∃ t, n.payload = .text t ∧ t.length ≤ maxStringLength) ∧
      (n.kind = .number → ∃ x, n.payload = .float x) ∧
      (n.kind = .boolean → ∃ b, n.payload = .boolean b) := by
  cases n with
  | string t => exact ⟨fun _ => ⟨t, rfl, h⟩, nofun, nofun⟩
  | number x => exact ⟨nofun, fun _ => ⟨x, rfl⟩, nofun⟩
  | boolean b => exact ⟨nofun, nofun, fun _ => ⟨b, rfl⟩⟩
  | list | level => exact ⟨nofun, nofun, nofun⟩

namespace Workspace

/-- A run leads from one workspace to another. -/
inductive Later : Workspace → Workspace → Prop
  | refl (w : Workspace) : Later w w
  | step {w w' : Workspace} (h : Later w w') (o : Operation)
      (allowed : w'.Allows o) : Later w (w'.after o)

variable {w w' : Workspace}

theorem Later.reached (h : w.Later w') (reached : w.Reached) : w'.Reached := by
  induction h with
  | refl => exact reached
  | step _ o allowed ih => exact .step ih o allowed

/-- One operation keeps every node. -/
theorem Sound.keeps_after (h : w.Sound) {o : Operation} (allowed : w.Allows o) :
    w.store.Keeps (w.after o).store := by
  have effect := h.effect allowed
  generalize (w.after o).store = s' at effect ⊢
  cases effect with
  | nothing => exact .refl _
  | planted t => exact Store.keeps_plant w.store t
  | inserted _ known insert => exact h.forest.keeps_insert known insert
  | cleared => exact Store.keeps_clear w.store _

/-- A run keeps every node. -/
theorem Later.keeps (h : w.Later w') (reached : w.Reached) : w.store.Keeps w'.store := by
  induction h with
  | refl => exact .refl _
  | step run o allowed ih => exact ih.trans ((run.reached reached).sound.keeps_after allowed)

/-- Every node that was ever made is within the limits: texts are short, numbers are floating-point
numbers, truth values are truth values, the keys of a level are short and told once, and every slot
holds a node. In every later workspace it is still there with its kind, and with its payload if it
is a scalar, since what is put anywhere is a node that was not there before. -/
theorem limits_and_immutability (reached : w.Reached) :
    (∀ id < w.store.nodes.size,
      ((w.store.node id).kind = .string →
        ∃ t, (w.store.node id).payload = .text t ∧ t.length ≤ maxStringLength) ∧
      ((w.store.node id).kind = .number → ∃ x, (w.store.node id).payload = .float x) ∧
      ((w.store.node id).kind = .boolean → ∃ b, (w.store.node id).payload = .boolean b) ∧
      (∀ entries, w.store.node id = .level entries →
        (Entries.keys entries).Nodup ∧ ∀ k ∈ Entries.keys entries, k.length ≤ maxPathLength) ∧
      ∀ c ∈ (w.store.node id).children, c < w.store.nodes.size) ∧
    (∀ w', w.Later w' → ∀ id < w.store.nodes.size, id < w'.store.nodes.size ∧
      (w'.store.node id).kind = (w.store.node id).kind ∧
      ((w.store.node id).kind.isScalar = true →
        (w'.store.node id).payload = (w.store.node id).payload)) ∧
    ∀ start address content child w', w.put start address content = .ok (some (child, w')) →
      w.store.nodes.size ≤ child := by
  obtain ⟨forest, fits, -⟩ := reached.sound
  refine ⟨?_, ?_, ?_⟩
  · intro id _
    obtain ⟨texts, numbers, truths⟩ := (fits id).payload
    refine ⟨texts, numbers, truths, ?_, fun c hc => (forest.after hc).2⟩
    intro entries hlevel
    have hfits := fits id
    rwa [hlevel] at hfits
  · intro w' later id hid
    have keeps := later.keeps reached
    have persists := keeps.node hid
    refine ⟨Nat.lt_of_lt_of_le hid keeps.size, persists.kind, fun hscalar => ?_⟩
    rw [persists.scalar hscalar]
  · intro start address content child w' hput
    obtain ⟨root, t, s', -, -, hs, -⟩ := put_eq_some_iff.mp hput
    obtain ⟨parent, slot, n, -, rfl, -⟩ := Store.insert_eq_some_iff.mp hs
    exact Nat.le_refl _

/-- A truth value that another one is put over keeps its own. -/
theorem limits_and_immutability_overwritten :
    let w := (fresh .empty).after (.convert (.ofValue (.list [.boolean true])))
    let w' := w.after (.put (.node 0) (.text "0") (.boolean (.boolean false)))
    w.Reached ∧ w.Later w' ∧ w'.store.tree 0 = .list [.boolean false] ∧
      (w'.store.node 1).payload = (w.store.node 1).payload := by
  intro w w'
  have reached : w.Reached := .step (.fresh .empty) _ trivial
  have later : w.Later w' := .step (.refl w) _ (show 0 < 2 by decide)
  refine ⟨reached, later, rfl, ?_⟩
  exact ((limits_and_immutability reached).2.1 w' later 1 (by decide)).2.2 rfl

end Workspace

end Grove
