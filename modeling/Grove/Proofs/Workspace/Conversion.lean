import Grove.Proofs.Document.NormalForm
import Grove.Proofs.Number.Nearest
import Grove.Proofs.Workspace.Run

/-!
# Conversion and back

The nodes that a document is converted to hold its normal form, and every occurrence of a container
in the document has nodes of its own.
-/
namespace Grove.Workspace

variable {w : Workspace} {d : Document} {t : Tree}

/-- The plain value of a document that is converted is the normal form of its unfolding. The numbers
in it are the nearest ones, and those that are whole are given as whole numbers. The nodes are new
ones, and no two ways down from the first of them lead to the same node. -/
theorem conversion_normal_form (reached : w.Reached) (accepted : d.toTree = .ok t) :
    let root := w.store.nodes.size
    let w' := w.after (.convert d)
    (∀ v, d.Unfolds d.root v ↔ v = d.expanded) ∧
    d.expanded.normal? = some ((w'.store.tree root).toValue true) ∧
    (∀ (v : Value) (x : Binary64) (q : ℚ),
      v.real? = some (.ok x) → v.worth? = some q → x.Nearest q) ∧
    (∀ (x : Binary64) (k : Int), x.toInt? = some k ↔ x.value? = some (k : ℚ)) ∧
    (∀ n, w'.store.Within root n → root ≤ n) ∧
    (∀ a b n, w'.store.Leads root a n → w'.store.Leads root b n → a = b) := by
  intro root w'
  have shows := Document.shows_toTree accepted
  have reached' : w'.Reached := .step reached (.convert d) trivial
  have hstore : w'.store = (w.store.plant t).2 := by simp only [w', after, accepted]; rfl
  refine ⟨?_, ?_, ?_, fun _ _ => Binary64.toInt?_eq_some_iff, ?_, ?_⟩
  · intro v
    constructor
    · intro h
      exact h.unique shows.unfolds
    · rintro rfl
      exact shows.unfolds
  · rw [hstore, reached.sound.forest.tree_plant t]
    exact shows.normal
  · exact fun _ _ _ => Value.nearest_of_real?
  · exact fun _ => reached'.sound.forest.le_of_within
  · exact fun _ _ _ => reached'.sound.forest.leads_unique

/-- A list that is the value of two entries, and three entries with the same text as a key, the
second of which is empty: the first one gives the place and the last one the value. -/
theorem conversion_normal_form_shared :
    let d : Document :=
      ⟨#[.list [.text "x", .null]], .dict [(.int 1, .shared .list 0), (.null, .shared .list 0),
      (.text "1", .null), (.text "a", .shared .list 0), (.text "1", .boolean true)]⟩
    let t := Tree.level [("1", .boolean true), ("None", .list [.string "x"]),
      ("a", .list [.string "x"])]
    let w' := (fresh .empty).after (.convert d)
    d.toTree = .ok t ∧ d.expanded.normal? = some (.dict [(.text "1", .boolean true),
      (.text "None", .list [.text "x"]), (.text "a", .list [.text "x"])]) ∧
      ∃ m n, w'.store.Leads 0 [.key "None"] m ∧ w'.store.Leads 0 [.key "a"] n ∧ m ≠ n := by
  intro d t w'
  have accepted : d.toTree = .ok t := rfl
  obtain ⟨-, hnormal, -, -, -, apart⟩ := conversion_normal_form (.fresh .empty) accepted
  have hnone : w'.store.Leads 0 [.key "None"] 2 := .down (by decide) (.here 2)
  have ha : w'.store.Leads 0 [.key "a"] 4 := .down (by decide) (.here 4)
  refine ⟨accepted, hnormal, 2, 4, hnone, ha, ?_⟩
  intro heq
  rw [heq] at hnone
  exact absurd (apart _ _ 4 hnone ha) (by decide)

end Grove.Workspace
