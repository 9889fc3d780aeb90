import Grove.Proofs.Tree.Plain
import Grove.Proofs.Workspace.ReadBack
import Grove.Proofs.Workspace.Totality

/-!
# Setting values

A value of any type is set by the rules for its type: scalars by those of their own, containers by
conversion. Both agree with conversion on every value but long text, which conversion cuts at every
depth and which is not set. What is set is the tree that conversion gives, and a value that is not
set leaves everything as it is.
-/
namespace Grove

namespace Tree

/-- A number is converted by the rule for numbers. -/
theorem convert_of_real? (follow : Container → Nat → Except Error Tree) {v : Value}
    {x : Except RangeFault Binary64} (h : v.real? = some x) : convert follow v = ofReal x := by
  cases v with
  | int | float | fraction => rw [convert, h] <;> nofun
  | _ => cases h

theorem ofString_eq_ok_iff {s : Text} {t : Tree} :
    ofString (.text s) = .ok t ↔ s.length ≤ maxStringLength ∧ t = .string s := by
  unfold ofString
  by_cases long : maxStringLength < s.length
  · simp [long, Nat.not_le.mpr long]
  · simp [long, Nat.le_of_not_lt long, eq_comm]

/-- What is set is what conversion gives, and nothing but a long text is converted and yet not
set. -/
theorem ofSetting_eq_ok_iff {d : Document} {t : Tree} : ofSetting d = .ok t ↔
    d.toTree = .ok t ∧ ∀ s, d.root = .text s → s.length ≤ maxStringLength := by
  unfold ofSetting
  split
  · next b hroot =>
    rw [Document.toTree, hroot, convert]
    exact (and_iff_left nofun).symm
  · next s hroot =>
    rw [ofString_eq_ok_iff, Document.toTree, hroot, convert]
    constructor
    · rintro ⟨short, rfl⟩
      refine ⟨by rw [cutString_of_fits short], ?_⟩
      rintro _ ⟨⟩
      exact short
    · rintro ⟨htree, short⟩
      rw [cutString_of_fits (short s rfl)] at htree
      cases htree
      exact ⟨short s rfl, rfl⟩
  · next htext =>
    have hset : (if d.root.real?.isSome then ofNumber d.root else d.toTree) = d.toTree := by
      split
      · next hreal =>
        obtain ⟨x, hx⟩ := Option.isSome_iff_exists.mp hreal
        rw [Document.toTree, convert_of_real? _ hx, ofNumber, hx]
      · rfl
    rw [hset]
    exact (and_iff_left fun s hroot => absurd hroot (htext s)).symm

end Tree

/-- A value that may be set: it is converted, and it is not itself a text that is too long. -/
def Document.Settable (d : Document) : Prop :=
  (∃ t, d.toTree = .ok t) ∧ ∀ s, d.root = .text s → s.length ≤ maxStringLength

theorem Document.settable_iff {d : Document} :
    d.Settable ↔ ∃ t, (Content.setting d).tree = .ok t := by
  simp only [Settable, Content.tree, Tree.ofSetting_eq_ok_iff, exists_and_right]

namespace Store

variable {s : Store} {id : Nat}

/-- There is a slot for a child: behind the last item of a list, or one that can be written at. -/
def Receives (s : Store) (id : Nat) : Address → Prop
  | .omitted => (s.node id).kind = .list
  | address => s.Writable id address

theorem exists_insert_iff_receives (fits : s.Fits) {address : Address}
    (usable : address.Usable) {t : Tree} :
    (∃ child s', s.insert id address t = .ok (some (child, s'))) ↔ s.Receives id address := by
  cases address with
  | omitted =>
    simp only [insert_omitted_iff, Receives]
    constructor
    · rintro ⟨child, s', ids, hlist, -⟩
      rw [hlist]
      rfl
    · intro hkind
      cases hlist : s.node id with
      | list ids => exact ⟨_, _, ids, rfl, rfl, rfl⟩
      | _ => rw [hlist] at hkind; cases hkind
  | text template => exact exists_insert_iff fits (show (Address.text template).Keyed from trivial)
  | path segments => exact exists_insert_iff fits (show (Address.path segments).Keyed from trivial)
  | unusable v => exact absurd rfl (usable v)

theorem insert_of_unwritable {address : Address} (h : address.Unwritable) (t : Tree) :
    s.insert id address t = .error (.text .tooManyDigits) := by
  rw [insert, slot_of_unwritable h]
  rfl

end Store

namespace Workspace

variable {w : Workspace} {h : NodeId} {address : Address} {content : Content}

/-- Content that is not put leaves the workspace as it is. -/
theorem after_put_of_not_exists {start : Start}
    (hnone : ¬ ∃ child w', w.put start address content = .ok (some (child, w'))) :
    w.after (.put start address content) = w := by
  simp only [after, settled]
  split
  · next child w' hput => exact absurd ⟨child, w', hput⟩ hnone
  · rfl

theorem exists_put_setting_iff (fits : w.store.Fits) (usable : address.Usable) (d : Document) :
    (∃ child w', w.put (.node h) address (.setting d) = .ok (some (child, w'))) ↔
      d.Settable ∧ w.store.Receives h address := by
  constructor
  · rintro ⟨child, w', hput⟩
    obtain ⟨_, t, s', ⟨⟩, htree, hs, rfl⟩ := put_eq_some_iff.mp hput
    exact ⟨Document.settable_iff.mpr ⟨t, htree⟩,
      (Store.exists_insert_iff_receives fits usable).mp ⟨child, s', hs⟩⟩
  · rintro ⟨settable, receives⟩
    obtain ⟨t, htree⟩ := Document.settable_iff.mp settable
    exact (exists_put_node_iff htree).mpr
      ((Store.exists_insert_iff_receives fits usable).mpr receives)

theorem put_setting_of_unwritable {d : Document} (settable : d.Settable)
    (unwritable : address.Unwritable) :
    w.put (.node h) address (.setting d) = .error (.text .tooManyDigits) := by
  obtain ⟨t, htree⟩ := Document.settable_iff.mp settable
  simp only [put, root, htree, Store.insert_of_unwritable unwritable]
  rfl

/-- An answer is given to every attempt to set a value, unless the value may be set and the path
cannot be written. -/
theorem exists_put_setting (usable : address.Usable) {d : Document}
    (h' : ¬ (d.Settable ∧ address.Unwritable)) :
    ∃ placed, w.put (.node h) address (.setting d) = .ok placed := by
  refine (put_total_iff usable w (.node h) (.setting d)).mpr ?_
  rintro ⟨⟨-, -, unwritable⟩, settable⟩
  exact h' ⟨Document.settable_iff.mpr settable, unwritable⟩

/-- A value is set exactly if it is converted, is not itself too long a text, and there is a slot
for it. The slot then holds just what conversion gives. In all other cases nothing changes, and the
answer says so unless the address is an explicit path with a position of so many digits that it
cannot be written. -/
theorem set_agrees_with_conversion (reached : w.Reached) (known : w.Knows (.node h))
    (usable : address.Usable) (d : Document) :
    let put := w.put (.node h) address (.setting d)
    ((∃ child w', put = .ok (some (child, w'))) ↔ d.Settable ∧ w.store.Receives h address) ∧
    (∀ child w', put = .ok (some (child, w')) → ∃ t parent slot,
      d.toTree = .ok t ∧ w'.store.tree child = t ∧
      (w.after (.convert d)).store.tree w.store.nodes.size = t ∧
      w.store.Designates h address parent slot ∧
      (w'.store.node parent).slot? ((w.store.node parent).target slot) = some child ∧
      (address.Keyed → w'.store.resolve (some h) address [] = .ok (some child))) ∧
    (¬ (d.Settable ∧ w.store.Receives h address) →
      w.after (.put (.node h) address (.setting d)) = w ∧
        (put = .ok none ∨ d.Settable ∧ address.Unwritable)) ∧
    (d.Settable → address.Unwritable → put = .error (.text .tooManyDigits)) := by
  intro put
  obtain ⟨forest, fits, -⟩ := reached.sound
  have success := exists_put_setting_iff fits usable d (h := h)
  refine ⟨success, ?_, ?_, put_setting_of_unwritable⟩
  · intro child w' hput
    obtain ⟨_, t, s', ⟨⟩, htree, hs, rfl⟩ := put_eq_some_iff.mp hput
    obtain ⟨parent, slot, designates, -, hchild, g⟩ := forest.grafted_insert known hs
    have hconverted : d.toTree = .ok t := (Tree.ofSetting_eq_ok_iff.mp htree).1
    refine ⟨t, parent, slot, hconverted, hchild, ?_, designates, g.placed.slot?_target, ?_⟩
    · rw [after, hconverted]
      exact forest.tree_plant t
    · intro keyed
      exact Store.resolve_of_find (forest.find_insert fits keyed known (fits_contentTree htree) hs)
  · intro hnot
    refine ⟨after_put_of_not_exists (mt success.mp hnot), ?_⟩
    by_cases hbarred : d.Settable ∧ address.Unwritable
    · exact Or.inr hbarred
    · obtain ⟨_ | ⟨child, w'⟩, hput⟩ := exists_put_setting usable hbarred (w := w) (h := h)
      · exact Or.inl hput
      · exact absurd (success.mp ⟨child, w', hput⟩) hnot

/-- A mapping with a whole number as a key and a list with nothing in it but an empty value, set at
a new key. -/
theorem set_agrees_with_conversion_mapping :
    let w := (fresh .empty).after (.make .emptyLevel)
    let d : Document := .ofValue (.dict [(.int 1, .list [.null])])
    w.Reached ∧ w.Knows (.node 0) ∧ (Address.text "a").Usable ∧ d.Settable ∧
      w.store.Receives 0 (.text "a") ∧
      ∃ w', w.put (.node 0) (.text "a") (.setting d) = .ok (some (1, w')) ∧
        w'.store.tree 1 = .level [("1", .list [])] := by
  intro w d
  have reached : w.Reached := .step (.fresh .empty) _ trivial
  have known : w.Knows (.node 0) := show 0 < 1 from Nat.one_pos
  have usable : (Address.text "a").Usable := nofun
  obtain ⟨success, agrees, -, -⟩ := set_agrees_with_conversion reached known usable d
  obtain ⟨w', hput⟩ : ∃ w', w.put (.node 0) (.text "a") (.setting d) = .ok (some (1, w')) :=
    ⟨_, rfl⟩
  obtain ⟨settable, receives⟩ := success.mp ⟨1, w', hput⟩
  obtain ⟨t, -, -, htree, hchild, -⟩ := agrees 1 w' hput
  have hconverted : d.toTree = .ok (.level [("1", .list [])]) := rfl
  rw [hconverted] at htree
  cases htree
  exact ⟨reached, known, usable, settable, receives, w', hput, hchild⟩

/-- To set a truth value at the position 10 ^ 4300 is answered with an error although there is no
such slot. -/
theorem set_agrees_with_conversion_hugePosition :
    let w := (fresh .empty).after (.convert (.ofValue (.list [])))
    let address := Address.path [.index (10 ^ maxDigits)]
    let d : Document := .ofValue (.boolean true)
    w.Reached ∧ w.Knows (.node 0) ∧ address.Usable ∧ ¬ w.store.Receives 0 address ∧
      w.put (.node 0) address (.setting d) = .error (.text .tooManyDigits) ∧
      w.put (.node 0) address (.setting d) ≠ .ok none := by
  intro w address d
  have reached : w.Reached := .step (.fresh .empty) _ trivial
  have unwritable : address.Unwritable := ⟨_, _, rfl, List.mem_cons_self, Nat.le_refl _⟩
  have settable : d.Settable := Document.settable_iff.mpr ⟨.boolean true, rfl⟩
  have hput : w.put (.node 0) address (.setting d) = .error (.text .tooManyDigits) :=
    put_setting_of_unwritable settable unwritable
  have usable : (Address.path [.index (10 ^ maxDigits)]).Usable := by
    rintro v ⟨⟩
  refine ⟨reached, show 0 < 1 from Nat.one_pos, usable, ?_, hput, ?_⟩
  · rintro ⟨short, -⟩
    exact Address.fits_iff.mp (Segment.fits_of_length_dotted_le short) unwritable
  · rw [hput]
    rintro ⟨⟩

end Workspace

end Grove
