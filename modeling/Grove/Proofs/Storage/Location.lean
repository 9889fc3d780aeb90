import Mathlib.Data.List.Basic
import Grove.Proofs.Text.Split
import Grove.Storage.Location

/-!
# Names and suffixes

A name is its stem followed by its suffix. The text of a directory, a slash and a name stand for the
place one name further down, unless the text is empty; only the root may come to be spelled with one
slash more or less.
-/
namespace Grove

namespace Location

/-! ## Names -/

@[simp] theorem names_child (l : Location) (name : Text) :
    (l.child name).names = l.names ++ [name] := rfl

@[simp] theorem name_child (l : Location) (name : Text) : (l.child name).name = name := by
  simp [Location.name]

@[simp] theorem stem_child (l : Location) (name : Text) :
    (l.child name).stem = (cutSuffix name).1 := by
  simp [stem]

theorem name_eq_of_names {l : Location} {front : List Text} {name : Text}
    (h : l.names = front ++ [name]) :
    l.name = name := by
  simp [Location.name, h]

/-- A location with a last name is that name behind some others. -/
theorem exists_names_eq {l : Location} (h : l.name ≠ "") :
    ∃ front, l.names = front ++ [l.name] := by
  rcases List.eq_nil_or_concat l.names with hnil | ⟨front, name, hnames⟩
  · exact absurd (by simp [Location.name, hnil]) h
  · rw [List.concat_eq_append] at hnames
    exact ⟨front, by rw [hnames, name_eq_of_names hnames]⟩

theorem name_addSuffix (l : Location) (ending : Text) :
    (l.addSuffix ending).name = l.name ++ ending :=
  name_eq_of_names rfl

theorem addSuffix_child (l : Location) (name ending : Text) :
    (l.child name).addSuffix ending = l.child (name ++ ending) := by
  rw [addSuffix, name_child, child, child, List.dropLast_concat]

/-- A location keeps its last name, from wherever it is seen. -/
theorem name_join (base : Location) {l : Location} (h : l.name ≠ "") :
    (base.join l).name = l.name := by
  obtain ⟨front, hnames⟩ := exists_names_eq h
  unfold join
  split
  · rfl
  · have hjoined : base.names ++ l.names = (base.names ++ front) ++ [l.name] := by
      rw [List.append_assoc, ← hnames]
    exact name_eq_of_names hjoined

/-- A location is that of a name in another one, however the root is spelled. -/
structure Below (l : Location) (n : Text) (below : Location) : Prop where
  isAbsolute : below.isAbsolute = l.isAbsolute
  names : below.names = l.names ++ [n]

namespace Below

variable {l below : Location} {n : Text}

theorem name_eq (h : l.Below n below) : below.name = n :=
  name_eq_of_names h.names

theorem addSuffix (h : l.Below n below) (ending : Text) :
    l.Below (n ++ ending) (below.addSuffix ending) where
  isAbsolute := h.isAbsolute
  names := by rw [Location.addSuffix, h.name_eq, h.names, List.dropLast_concat]

/-- Seen from another location, both lie there. -/
theorem join (h : l.Below n below) (base : Location) : (base.join l).Below n (base.join below) := by
  unfold Location.join
  rw [h.isAbsolute]
  split
  · exact h
  · exact ⟨rfl, by rw [h.names, List.append_assoc]⟩

end Below

/-- The text of a location with a name added at its end. -/
theorem text_child (l : Location) (name : Text) : (l.child name).text =
    if l.names = [] then l.anchor.text ++ name else l.text ++ "/" ++ name := by
  have hchild : (l.child name).text =
      l.anchor.text ++ Text.intercalate "/" (l.names ++ [name]) := by
    simp [text, child]
  have hlast : ∀ names, names ≠ [] →
      Text.intercalate "/" (names ++ [name]) = Text.intercalate "/" names ++ "/" ++ name := by
    intro names hne
    induction names with
    | nil => exact absurd rfl hne
    | cons first rest ih =>
      cases rest with
      | nil => rfl
      | cons second rest =>
        have hrest := ih (List.cons_ne_nil _ _)
        simp only [List.cons_append, Text.intercalate_cons_cons] at hrest ⊢
        rw [hrest]
        simp only [Text.append_assoc]
  rw [hchild]
  split
  · next hnames =>
    rw [hnames]
    rfl
  · next hnames =>
    rw [hlast _ hnames]
    simp [text, hnames, Text.append_assoc]

/-! ## Suffixes -/

/-- A point and something behind it that has no further point. -/
def IsSuffix (s : Text) : Prop :=
  ∃ ending, s.toList = ↑ '.' :: ending ∧ ending ≠ [] ∧ ↑ '.' ∉ ending

/-- The cut of a name at its last point. -/
theorem cutSuffix_eq {name : Text} {before ending : List CodePoint}
    (h : name.toList = before ++ ↑ '.' :: ending) (last : ↑ '.' ∉ ending) :
    cutSuffix name =
      if ending.isEmpty || before.isEmpty then (name, ↑ "")
      else (Text.ofList before, Text.ofList (↑ '.' :: ending)) := by
  have hending : name.toList.reverse.takeWhile (· ≠ CodePoint.scalar '.') = ending.reverse := by
    rw [h, List.reverse_append, List.reverse_cons, List.append_assoc, List.takeWhile_append_of_pos]
    · simp
    · intro c hc
      have hne : c ≠ '.' := fun hpoint => last (hpoint ▸ List.mem_reverse.mp hc)
      simpa using hne
  have hbefore : name.toList.length - ending.length - 1 = before.length := by
    simp only [h, List.length_append, List.length_cons]
    omega
  simp only [cutSuffix, hending, List.reverse_reverse, hbefore]
  simp [h]

/-- A name is cut nowhere, or in front of a suffix. -/
theorem cutSuffix_cases (name : Text) :
    cutSuffix name = (name, ↑ "") ∨
      ∃ stem s, cutSuffix name = (stem, s) ∧ stem ≠ "" ∧ IsSuffix s ∧ name = stem ++ s := by
  by_cases hpoint : ↑ '.' ∈ name.toList
  · obtain ⟨rest, above, hsplit, last⟩ := List.eq_append_cons_of_mem (List.mem_reverse.mpr hpoint)
    have hname : name.toList = above.reverse ++ ↑ '.' :: rest.reverse := by
      simpa using congrArg List.reverse hsplit
    have hcut := cutSuffix_eq hname (by simpa using last)
    split at hcut
    · exact Or.inl hcut
    · next hne =>
      simp only [Bool.or_eq_true, List.isEmpty_iff, not_or] at hne
      refine Or.inr ⟨_, _, hcut, ?_, ⟨rest.reverse, by simp, hne.1, by simpa using last⟩, ?_⟩
      · simpa using hne.2
      · apply Text.toList_inj.mp
        simp [hname]
  · left
    simp [cutSuffix, hpoint]

theorem cutSuffix_append {n s : Text} (hn : n ≠ "") (hs : IsSuffix s) :
    cutSuffix (n ++ s) = (n, s) := by
  obtain ⟨ending, htext, hne, last⟩ := hs
  have hsplit : (n ++ s).toList = n.toList ++ ↑ '.' :: ending := by simp [htext]
  have hcut := cutSuffix_eq hsplit last
  have hn' : n.toList ≠ [] := by simpa using hn
  rw [hcut, ← htext]
  simp [hne, hn']

theorem cutSuffix_append_eq (name : Text) : (cutSuffix name).1 ++ (cutSuffix name).2 = name := by
  rcases cutSuffix_cases name with h | ⟨stem, s, h, -, -, rfl⟩
  · simp [h]
  · rw [h]

/-- A name with a suffix differs from its stem. -/
theorem cutSuffix_fst_ne {name : Text} (h : (cutSuffix name).2 ≠ "") :
    (cutSuffix name).1 ≠ "" ∧ (cutSuffix name).1 ≠ name := by
  rcases cutSuffix_cases name with hcut | ⟨stem, s, hcut, hstem, ⟨ending, hs, -⟩, rfl⟩
  · simp [hcut] at h
  · rw [hcut]
    refine ⟨hstem, ?_⟩
    intro heq
    have hlength := congrArg (fun t => t.toList.length) heq
    simp [hs] at hlength

/-! ## Texts of places -/

theorem namesOf_append (a b : List CodePoint) :
    namesOf (a ++ ↑ '/' :: b) = namesOf a ++ namesOf b := by
  simp [namesOf, Text.splitOn_append]

theorem namesOf_name {n : Text} (hn : n ≠ "") (hpoint : n ≠ ".") (hslash : ↑ '/' ∉ n.toList) :
    namesOf n.toList = [n] := by
  have hne : n.toList ≠ [] := by simpa using hn
  have hne' : n.toList ≠ [CodePoint.scalar '.'] := fun h => hpoint (Text.toList_inj.mp h)
  simp [namesOf, Text.splitOn_of_notMem hslash, hne, hne']

theorem isAbsolute_ofText {text : Text} :
    (ofText text).isAbsolute = true ↔ text.toList.head? = some (CodePoint.scalar '/') := by
  cases h : text.toList with
  | nil => simp [isAbsolute, ofText, anchorOf, h]
  | cons c cs =>
    by_cases hc : c = '/'
    · simp only [isAbsolute, ofText, anchorOf, h, hc, List.takeWhile_cons, decide_true,
        if_true, List.length_cons]
      split <;> simp_all
    · simp [isAbsolute, ofText, anchorOf, h, hc]

/-- A directory, a slash and a name are the name in the directory. -/
theorem below_ofText {d n : Text} (spelled : d ≠ "") (hn : n ≠ "") (hpoint : n ≠ ".")
    (hslash : ↑ '/' ∉ n.toList) :
    (ofText d).Below n (ofText (d ++ "/" ++ n)) where
  isAbsolute := by
    have hne : d.toList ≠ [] := by simpa using spelled
    rw [Bool.eq_iff_iff, isAbsolute_ofText, isAbsolute_ofText]
    simp [List.head?_append_of_ne_nil _ hne]
  names := by
    have htext : (d ++ "/" ++ n).toList = d.toList ++ ↑ '/' :: n.toList := by simp
    simp only [ofText, htext, namesOf_append, namesOf_name hn hpoint hslash]

end Location

end Grove
