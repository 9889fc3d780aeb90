import Grove.Proofs.Store.Resolution
import Grove.Proofs.Workspace.Run

/-!
# Asking for what was loaded

Every node of a tree that was made from plain values has a typed address, and an explicit path of
those segments finds it as long as it can be written, unless one of the keys is empty: an empty key
is stored like any other, but no path leads through it.
-/
namespace Grove.Workspace

/-- From the root of a tree that was made from plain values, the path of a typed address finds the
node there if no key is empty, and nothing otherwise. -/
theorem resolve_loaded {w : Workspace} (reached : w.Reached) {d : Document} {t : Tree}
    (accepted : d.toTree = .ok t) :
    let root := (w.plant t).1
    let s := (w.plant t).2.store
    s.tree root = t ∧ (∀ n, s.Within root n → ∃ a, s.Leads root a n) ∧
      ∀ (a : List Segment) (n : Nat), s.Leads root a n → (Segment.dotted a).length ≤ maxPathLength →
        s.resolve (some root) (.path a) [] = .ok (if Segment.key "" ∈ a then none else some n) := by
  intro root s
  have sound : (w.plant t).2.Sound := reached.sound.plant (Document.fits_toTree accepted)
  refine ⟨reached.sound.forest.tree_plant t, fun n => Store.exists_leads, ?_⟩
  intro a n leads short
  have keyed : (Address.path a).Keyed := trivial
  by_cases hempty : Segment.key "" ∈ a
  · rw [if_pos hempty]
    exact Store.resolve_of_not_finds sound.fits keyed short fun m hm => hm.named hempty
  · rw [if_neg hempty]
    exact Store.resolve_of_find ((Store.find_eq_ok_iff sound.fits keyed).mpr ⟨short, leads, hempty⟩)

/-- The second item of a list behind a key with a point and a blank in it. -/
theorem resolve_loaded_item :
    let w := fresh .empty
    let d := Document.ofValue (.dict [(.text "a. 0", .list [.boolean false, .boolean true])])
    let t := Tree.level [("a. 0", .list [.boolean false, .boolean true])]
    let s := (w.plant t).2.store
    let a := [Segment.key "a. 0", .index 1]
    w.Reached ∧ d.toTree = .ok t ∧ s.Leads 0 a 3 ∧ (Segment.dotted a).length ≤ maxPathLength ∧
      s.resolve (some 0) (.path a) [] = .ok (some 3) := by
  intro w d t s a
  have reached : w.Reached := .fresh .empty
  have accepted : d.toTree = .ok t := rfl
  have leads : s.Leads 0 a 3 :=
    .down (c := 1) List.mem_cons_self (.down (List.mem_cons_of_mem _ List.mem_cons_self) (.here 3))
  have short : (Segment.dotted a).length ≤ maxPathLength := by decide
  exact ⟨reached, accepted, leads, short, (resolve_loaded reached accepted).2.2 a 3 leads short⟩

/-- The member of a mapping at the empty key is stored, but its address finds nothing. -/
theorem resolve_loaded_emptyKey :
    let w := fresh .empty
    let d := Document.ofValue (.dict [(.text "", .boolean true)])
    let s := (w.plant (.level [("", .boolean true)])).2.store
    let a := [Segment.key ""]
    w.Reached ∧ d.toTree = .ok (.level [("", .boolean true)]) ∧ s.Leads 0 a 1 ∧
      (Segment.dotted a).length ≤ maxPathLength ∧
      s.resolve (some 0) (.path a) [] ≠ .ok (some 1) := by
  intro w d s a
  have nothing : s.resolve (some 0) (.path a) [] = .ok none := rfl
  refine ⟨.fresh .empty, rfl, .down (c := 1) List.mem_cons_self (.here 1), by decide, ?_⟩
  rw [nothing]
  nofun

end Grove.Workspace
