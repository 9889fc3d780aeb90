import Grove.Proofs.Number.ReadBack
import Grove.Proofs.Tree.Limits

/-!
# Trees as plain values and back

A tree within the limits is made again from its plain value, with the same kinds, keys, elements,
texts and truth values in the same order. Whole numbers pass through whole numbers, which have no
negative zero: that is all that is lost.
-/
namespace Grove

namespace Binary64

/-- The sign of zero is all that is given up. -/
theorem plain_eq (x : Binary64) : x.plain = x ∨ x = zero true ∧ x.plain = zero false := by
  cases x with
  | nan | infinite => exact Or.inl rfl
  | finite s m e c =>
    by_cases hm : m = 0
    · subst hm
      have he : e = -1074 := c.2.2.2.resolve_left (by decide)
      subst he
      cases s
      · exact Or.inl rfl
      · exact Or.inr ⟨rfl, rfl⟩
    · left
      simp [plain, hm]

theorem wholeToFloat_of_toInt? {x : Binary64} {n : Int} (h : x.toInt? = some n) :
    wholeToFloat n = .ok x.plain := by
  rw [wholeToFloat, ofInt_of_toInt? h]
  cases x with
  | nan | infinite => cases h
  | finite => rfl

end Binary64

namespace Tree

mutual

/-- The tree without the signs of zeros. -/
def plain : Tree → Tree
  | .number x => .number x.plain
  | .string s => .string s
  | .boolean b => .boolean b
  | .list items => .list (plainAll items)
  | .level entries => .level (plainEntries entries)

def plainAll : List Tree → List Tree
  | [] => []
  | t :: ts => t.plain :: plainAll ts

def plainEntries : List (Text × Tree) → List (Text × Tree)
  | [] => []
  | (k, t) :: es => (k, t.plain) :: plainEntries es

end

mutual

/-- How many containers are inside each other at most. -/
def depth : Tree → Nat
  | .list items => depthAll items + 1
  | .level entries => depthEntries entries + 1
  | _ => 0

def depthAll : List Tree → Nat
  | [] => 0
  | t :: ts => max t.depth (depthAll ts)

def depthEntries : List (Text × Tree) → Nat
  | [] => 0
  | (_, t) :: es => max t.depth (depthEntries es)

end

theorem keys_plainEntries (es : List (Text × Tree)) :
    Entries.keys (plainEntries es) = Entries.keys es := by
  induction es with
  | nil => rfl
  | cons e es ih => exact congrArg (e.1 :: ·) ih

theorem cutString_of_fits {s : Text} (h : s.length ≤ maxStringLength) : cutString s = s := by
  rw [cutString, List.take_of_length_le (by rwa [Text.length_toList]), Text.ofList_toList]

theorem levelKey_text {k : Text} (h : k.length ≤ maxPathLength) : levelKey (.text k) = .ok k := by
  rw [levelKey]
  exact if_neg (Nat.not_lt.mpr h)

theorem toValue_ne_null (integral : Bool) (t : Tree) : t.toValue integral ≠ .null := by
  intro h
  cases t with
  | number x =>
    simp only [toValue, numberValue] at h
    split at h <;> cases h
  | string | boolean | list | level => cases h

/-- A number is made again from its plain value. -/
theorem convert_numberValue (follow : Container → Nat → Except Error Tree) (x : Binary64) :
    convert follow (numberValue true x) = .ok (.number x.plain) := by
  rw [numberValue, if_pos rfl]
  cases h : x.toInt? with
  | some n =>
    show ofReal (wholeToFloat n) = _
    rw [Binary64.wholeToFloat_of_toInt? h]
    rfl
  | none =>
    have hplain : x.plain = x := by
      rcases x.plain_eq with hplain | ⟨hzero, -⟩
      · exact hplain
      · rw [hzero, Binary64.zero, Binary64.toInt?_zero] at h
        cases h
    rw [hplain]
    rfl

section

variable (follow : Container → Nat → Except Error Tree) (integral : Bool)

mutual

/-- A tree within the limits is made again from its plain value, but for the signs of zeros if whole
numbers are given as such. -/
theorem convert_toValue : (t : Tree) → t.Fits →
    convert follow (t.toValue integral) = .ok (if integral then t.plain else t)
  | .number x, _ => by
    cases integral
    · rfl
    · exact convert_numberValue follow x
  | .string s, h => by
    rw [toValue, convert, cutString_of_fits h]
    cases integral <;> rfl
  | .boolean b, _ => by cases integral <;> rfl
  | .list items, h => by
    rw [toValue, convert, convertItems_itemValues items h]
    cases integral <;> rfl
  | .level entries, h => by
    rw [toValue, convert, convertEntries_entryValues entries [] h.2 h.1]
    cases integral <;> rfl

theorem convertItems_itemValues : (ts : List Tree) → AllFit ts →
    convertItems follow (itemValues integral ts) = .ok (if integral then plainAll ts else ts)
  | [], _ => by cases integral <;> rfl
  | t :: ts, h => by
    rw [itemValues, convertItems, convert_toValue t h.1, convertItems_itemValues ts h.2]
    · cases integral <;> rfl
    · exact toValue_ne_null integral t

theorem convertEntries_entryValues : (es done : List (Text × Tree)) → EntriesFit es →
    (Entries.keys done ++ Entries.keys es).Nodup →
    convertEntries follow done (entryValues integral es) =
      .ok (done ++ if integral then plainEntries es else es)
  | [], done, _, _ => by cases integral <;> exact congrArg Except.ok (List.append_nil done).symm
  | (k, t) :: es, done, h, hnodup => by
    have hk : k ∉ Entries.keys done := by
      intro hmem
      exact (List.nodup_append.mp hnodup).2.2 k hmem k List.mem_cons_self rfl
    have hrest : ∀ u, (Entries.keys (done ++ [(k, u)]) ++ Entries.keys es).Nodup := by
      intro u
      simpa [Entries.keys, List.map_append, List.append_assoc] using hnodup
    rw [entryValues, convertEntries, levelKey_text h.1.1, convert_toValue t h.1.2]
    · show convertEntries follow (Entries.put k (if integral then t.plain else t) done)
          (entryValues integral es) = _
      rw [Entries.put_of_notMem hk, convertEntries_entryValues es _ h.2 (hrest _),
        List.append_assoc]
      cases integral <;> rfl
    · exact toValue_ne_null integral t

end

end

theorem toTree_toValue (integral : Bool) {t : Tree} (h : t.Fits) :
    (Document.ofValue (t.toValue integral)).toTree = .ok (if integral then t.plain else t) :=
  convert_toValue _ integral t h

end Tree

end Grove
