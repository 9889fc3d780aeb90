import Grove.Proofs.Tree.Plain
import Grove.Proofs.Workspace.Lifetime

/-!
# Copying through plain values

A tree that is made from the plain value of a node holds what the node holds. It is made of new
nodes, and since nothing is ever put anywhere but new nodes, no node ever gets an owner among the
nodes that were there. So the copy and what was there before have no node in common, whatever
happens later, and an operation on the one does not reach the other.
-/
namespace Grove

open Relation

namespace Store

/-- No node of a store has an owner in a later one that it did not have. -/
structure Releases (s s' : Store) : Prop where
  size : s.nodes.size ≤ s'.nodes.size
  owned : ∀ {p c : Nat}, c < s.nodes.size → s'.Child p c → s.Child p c

variable {s s' : Store}

theorem Releases.refl (s : Store) : s.Releases s :=
  ⟨Nat.le_refl _, fun _ hc => hc⟩

theorem Releases.trans {s'' : Store} (h : s.Releases s') (h' : s'.Releases s'') :
    s.Releases s'' where
  size := Nat.le_trans h.size h'.size
  owned hc hchild := h.owned hc (h'.owned (Nat.lt_of_lt_of_le hc h.size) hchild)

/-- A node that was there is within no other than it was within. -/
theorem Releases.within (h : s.Releases s') (forest : s.Forest) {a b : Nat} (hb : b < s.nodes.size)
    (hwithin : s'.Within a b) : s.Within a b := by
  induction hwithin with
  | refl => exact .refl
  | @tail p c _ hchild ih =>
    have hold := h.owned hb hchild
    have hlt := (forest.after hold).1
    exact (ih (Nat.lt_trans hlt hb)).tail hold

theorem releases_plant (s : Store) (t : Tree) : s.Releases (s.plant t).2 where
  size := (keeps_plant s t).size
  owned := by
    intro p c hc hchild
    rcases child_of_plant hchild with ⟨-, hold⟩ | ⟨i, n, rfl, hn, hnew⟩
    · exact hold
    · have hlt := Tree.child_layout_gt _ t i n hn c hnew
      omega

theorem Forest.releases_insert (h : s.Forest) {id child : Nat} (hid : id < s.nodes.size)
    {address : Address} {t : Tree} (hs : s.insert id address t = .ok (some (child, s'))) :
    s.Releases s' where
  size := (h.keeps_insert hid hs).size
  owned := by
    obtain ⟨parent, slot, n, hslot, rfl, placed, rfl⟩ := insert_eq_some_iff.mp hs
    have hparent : parent < s.nodes.size := h.lt_size_of_within hid (slot_eq_ok_iff.mp hslot).within
    have hplanted : parent < (s.plant t).2.nodes.size :=
      Nat.lt_of_lt_of_le hparent (keeps_plant s t).size
    intro p c hc hchild
    by_cases hp : p = parent
    · subst hp
      rw [Child, node_write_self _ _ _ hplanted] at hchild
      rcases placed.child_or_mem hchild with rfl | hold
      · exact absurd hc (Nat.lt_irrefl _)
      · exact hold
    · rw [Child, node_write_of_ne _ hp] at hchild
      exact (releases_plant s t).owned hc hchild

/-- Nothing owns a node. -/
def Free (s : Store) (id : Nat) : Prop :=
  ∀ p, ¬ s.Child p id

/-- A node that nothing owns is within itself only. -/
theorem Free.eq_of_within {top r : Nat} (free : s.Free top) (h : s.Within r top) : r = top := by
  rcases ReflTransGen.cases_tail h with heq | ⟨p, -, hp⟩
  · exact heq.symm
  · exact absurd hp (free p)

theorem Forest.free_plant (h : s.Forest) (t : Tree) : (s.plant t).2.Free s.nodes.size := by
  intro p hp
  rcases child_of_plant hp with ⟨-, hold⟩ | ⟨i, n, rfl, hn, hnew⟩
  · exact Nat.lt_irrefl _ (h.after hold).2
  · have hlt := Tree.child_layout_gt _ t i n hn _ hnew
    omega

theorem releases_clear (s : Store) (id : Nat) : s.Releases (s.clear id) where
  size := (keeps_clear s id).size
  owned := by
    intro p c _ hchild
    rw [Child, node_clear] at hchild
    split at hchild
    · exact (Node.children_emptied _).subset hchild
    · exact hchild

end Store

namespace Workspace

variable {w w' : Workspace} {o : Operation}

/-- No operation gives a node that is there another owner. -/
theorem Sound.releases_after (h : w.Sound) (allowed : w.Allows o) :
    w.store.Releases (w.after o).store := by
  have effect := h.effect allowed
  generalize (w.after o).store = s' at effect ⊢
  cases effect with
  | nothing => exact .refl _
  | planted t => exact Store.releases_plant w.store t
  | inserted _ known insert => exact h.forest.releases_insert known insert
  | cleared => exact Store.releases_clear w.store _

/-- A run gives no node that is there another owner. -/
theorem Later.releases (h : w.Later w') (reached : w.Reached) : w.store.Releases w'.store := by
  induction h with
  | refl => exact .refl _
  | step run o allowed ih => exact ih.trans ((run.reached reached).sound.releases_after allowed)

/-! ### Apart from everything else -/

/-- A node that nothing owns and all that was within it at some time are apart from the nodes in
front of it for the rest of the run. -/
theorem Later.apart (later : w.Later w') (reached : w.Reached) {top a b m : Nat}
    (free : w.store.Free top) (hb : b < top) (htop : top < w.store.nodes.size)
    (ha : w.store.Within top a) (ham : w'.store.Within a m) :
    ¬ w'.store.Within b m := by
  intro hbm
  have forest := reached.sound.forest
  have forest' := (later.reached reached).sound.forest
  have hsize : a < w.store.nodes.size := forest.lt_size_of_within htop ha
  have hbtop : w.store.Within b top ∨ w.store.Within top b := by
    rcases forest'.within_or_within ham hbm with hab | hba
    · exact Or.inr (ha.trans ((later.releases reached).within forest (Nat.lt_trans hb htop) hab))
    · exact (forest.within_or_within ha ((later.releases reached).within forest hsize hba)).symm
  rcases hbtop with hin | hin
  · exact Nat.ne_of_lt hb (free.eq_of_within hin)
  · exact absurd hb (Nat.not_lt.mpr (forest.le_of_within hin))

/-- What a node holds that nothing owns, and what all nodes hold that are not within it, do not
depend on each other. -/
theorem Sound.tree_after_of_free (h : w.Sound) (allowed : w.Allows o) {top : Nat}
    (free : w.store.Free top) (htop : top < w.store.nodes.size) :
    ((∀ id, w.subject? o = some id → ¬ w.store.Within top id) →
      (w.after o).store.tree top = w.store.tree top) ∧
    ∀ id, w.subject? o = some id → w.store.Within top id → ∀ r < w.store.nodes.size,
      ¬ w.store.Within top r →
      (w.after o).store.tree r = w.store.tree r := by
  constructor
  · intro outside
    refine h.tree_after allowed htop fun id hid => ⟨outside id hid, fun hin => outside id hid ?_⟩
    rw [free.eq_of_within hin]
  · intro id hid inside r hr hout
    refine h.tree_after_of_subject allowed hid hr ?_ (fun hin => hout (inside.trans hin))
    intro hin
    rcases h.forest.within_or_within inside hin with htr | hrt
    · exact hout htr
    · exact hout (free.eq_of_within hrt ▸ .refl)

/-- What was once within a node that nothing owns, and the nodes in front of it, keep what they hold
when an operation works on the others. -/
theorem Later.tree_after_of_apart (later : w.Later w') (reached : w.Reached) {top a b id : Nat}
    (free : w.store.Free top) (hb : b < top) (htop : top < w.store.nodes.size)
    (ha : w.store.Within top a) (allowed : w'.Allows o) (subject : w'.subject? o = some id) :
    (w'.store.Within a id → (w'.after o).store.tree b = w'.store.tree b) ∧
      (w'.store.Within b id → (w'.after o).store.tree a = w'.store.tree a) := by
  have sound := (later.reached reached).sound
  have size : w.store.nodes.size ≤ w'.store.nodes.size := (later.releases reached).size
  have ha' : a < w'.store.nodes.size :=
    Nat.lt_of_lt_of_le (reached.sound.forest.lt_size_of_within htop ha) size
  have hb' : b < w'.store.nodes.size := Nat.lt_of_lt_of_le (Nat.lt_trans hb htop) size
  have apart : ∀ {m}, w'.store.Within a m → ¬ w'.store.Within b m :=
    later.apart reached free hb htop ha
  constructor
  · intro hin
    exact sound.tree_after_of_subject allowed subject hb' (apart hin) fun hbelow =>
      apart (hin.trans hbelow) .refl
  · intro hin
    exact sound.tree_after_of_subject allowed subject ha'
      (fun habove => apart habove hin) fun hbelow =>
      apart .refl (hin.trans hbelow)

/-- What a node holds is made again from its plain value, but for the signs of zeros if whole
numbers are given as such. The copy is made of new nodes and leaves all others as they are. However
the run goes on, operations on nodes that are not within the copy never change what the copy holds,
operations on nodes within the copy never change what any other node holds, and between a node that
was there and a node that was ever within the copy it stays so even if these have been taken out of
their trees. -/
theorem copy_faithful_and_independent (reached : w.Reached) (n : NodeId) (integral : Bool) :
    let d := Document.ofValue ((w.store.tree n).toValue integral)
    let copied := if integral then (w.store.tree n).plain else w.store.tree n
    let copy := w.store.nodes.size
    let w₁ := w.after (.convert d)
    d.toTree = .ok copied ∧ w₁.store.tree copy = copied ∧
    (∀ m < copy, w₁.store.node m = w.store.node m) ∧ (∀ m, w₁.store.Within copy m → copy ≤ m) ∧
    ∀ w₂, w₁.Later w₂ → ∀ o, w₂.Allows o →
      ((∀ h, w₂.subject? o = some h → ¬ w₂.store.Within copy h) →
        (w₂.after o).store.tree copy = w₂.store.tree copy) ∧
      ∀ h, w₂.subject? o = some h →
        (w₂.store.Within copy h → ∀ r < w₂.store.nodes.size, ¬ w₂.store.Within copy r →
          (w₂.after o).store.tree r = w₂.store.tree r) ∧
        ∀ a b, w₁.store.Within copy a → b < copy →
          (w₂.store.Within a h → (w₂.after o).store.tree b = w₂.store.tree b) ∧
          (w₂.store.Within b h → (w₂.after o).store.tree a = w₂.store.tree a) := by
  intro d copied copy w₁
  obtain ⟨forest, fits, -⟩ := reached.sound
  have htree : d.toTree = .ok copied := Tree.toTree_toValue integral (fits.tree forest n)
  have hstore : w₁.store = (w.store.plant copied).2 := by simp only [w₁, after, htree]; rfl
  have reached₁ : w₁.Reached := .step reached (.convert d) trivial
  have free : w₁.store.Free copy := hstore ▸ forest.free_plant copied
  have hcopy : copy < w₁.store.nodes.size := by
    rw [hstore, Store.size_plant]
    exact Nat.lt_add_of_pos_right copied.count_pos
  refine ⟨htree, ?_, ?_, fun m => reached₁.sound.forest.le_of_within, ?_⟩
  · rw [hstore]
    exact forest.tree_plant copied
  · intro m hm
    rw [hstore]
    exact Store.node_plant_of_lt w.store copied hm
  · intro w₂ later o allowed
    have sound₂ := (later.reached reached₁).sound
    have size : w₁.store.nodes.size ≤ w₂.store.nodes.size := (later.releases reached₁).size
    have free₂ : w₂.store.Free copy := fun p hp => free p ((later.releases reached₁).owned hcopy hp)
    obtain ⟨outside, inside⟩ :=
      sound₂.tree_after_of_free allowed free₂ (Nat.lt_of_lt_of_le hcopy size)
    refine ⟨outside, fun h hsubject => ⟨inside h hsubject, ?_⟩⟩
    intro a b ha hb
    exact later.tree_after_of_apart reached₁ free hb hcopy ha allowed hsubject

/-- The copy of a list with a negative zero in it when the original is cleared, and the original
when the copy is. -/
theorem copy_faithful_and_independent_cleared :
    let w := (fresh .empty).after (.convert (.ofValue (.list [.list [], .float (.zero true)])))
    let w₁ := w.after (.convert (.ofValue ((w.store.tree 0).toValue false)))
    w.Reached ∧ w₁.store.tree 3 = .list [.list [], .number (.zero true)] ∧
      (w₁.after (.clear 0)).store.tree 3 = w₁.store.tree 3 ∧
      (w₁.after (.clear 3)).store.tree 3 = .list [] ∧
      (w₁.after (.clear 3)).store.tree 0 = w₁.store.tree 0 := by
  intro w w₁
  have reached : w.Reached := .step (.fresh .empty) _ trivial
  have reached₁ : w₁.Reached := .step reached (.convert _) trivial
  have forest := reached₁.sound.forest
  have outside : ¬ w₁.store.Within 3 0 := fun hin => absurd (forest.le_of_within hin) (by decide)
  have size : w.store.nodes.size = 3 := rfl
  obtain ⟨-, held, -, -, later⟩ := copy_faithful_and_independent reached 0 false
  rw [size] at held later
  refine ⟨reached, held, ?_, ?_, ?_⟩
  · refine (later w₁ (.refl w₁) (.clear 0) (show 0 < 6 by decide)).1 ?_
    rintro _ ⟨⟩
    exact outside
  · rw [after, Workspace.clear, forest.tree_clear_of_within .refl, held]
    rfl
  · exact ((later w₁ (.refl w₁) (.clear 3) (show 3 < 6 by decide)).2 3 rfl).1 .refl 0
      (by decide) outside

end Workspace

end Grove
