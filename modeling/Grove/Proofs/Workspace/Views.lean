import Grove.Proofs.Workspace.Totality

/-!
# Paths through views

A node that a path finds is a view of the tree above it: to go on from there by a second path is to
go by both at once, joined by a point. This holds of questions and of everything that is put.
-/
namespace Grove

namespace Store

variable {s : Store} {id view : Nat} {p q : Text}

theorem designates_text_iff (fits : s.Fits) {text : Text}
    (short : text.length ≤ maxPathLength) {parent : Nat} {slot : Option Segment} :
    s.Designates id (.text text) parent slot ↔ ∃ front last,
      Segment.ofParts text = front ++ [last] ∧ slot = some last ∧ s.Finds id front parent := by
  have keyed : (Address.text text).Keyed := trivial
  rw [designates_iff fits keyed]
  exact and_iff_right short

/-- Two paths that are joined designate from a node the slot that the second one designates from the
view that the first one finds. -/
theorem designates_join_iff (fits : s.Fits) (hp : p ≠ "") (hq : q ≠ "")
    (short : p.length + 1 + q.length ≤ maxPathLength) {parent : Nat} {slot : Option Segment} :
    s.Designates id (.text (p ++ "." ++ q)) parent slot ↔
      ∃ view, s.Finds id (Segment.ofParts p) view ∧ s.Designates view (.text q) parent slot := by
  have hjoined : (p ++ "." ++ q).length ≤ maxPathLength := by rwa [Segment.length_join]
  have hshort : q.length ≤ maxPathLength := by omega
  rw [designates_text_iff fits hjoined, Segment.ofParts_join hp hq]
  constructor
  · rintro ⟨front, last, hspelled, rfl, finds⟩
    rcases List.eq_nil_or_concat (Segment.ofParts q) with hnil | ⟨rest, final, hq'⟩
    · exact absurd hnil (Segment.ofParts_ne_nil hq)
    · rw [hq', List.concat_eq_append, ← List.append_assoc] at hspelled
      obtain ⟨rfl, hfinal⟩ := List.append_inj' hspelled rfl
      cases hfinal
      obtain ⟨view, hview, hrest⟩ := finds_append_iff.mp finds
      refine ⟨view, hview, (designates_text_iff fits hshort).mpr ⟨rest, _, ?_, rfl, hrest⟩⟩
      rw [hq', List.concat_eq_append]
  · rintro ⟨view, hview, hdes⟩
    obtain ⟨rest, last, hq', rfl, hrest⟩ := (designates_text_iff fits hshort).mp hdes
    refine ⟨Segment.ofParts p ++ rest, last, ?_, rfl, finds_append_iff.mpr ⟨view, hview, hrest⟩⟩
    rw [hq', List.append_assoc]

/-- Two paths that are joined resolve to what the second one resolves to from the node that the
first one finds. -/
theorem exists_resolve_join (fits : s.Fits) (hp : p ≠ "") (hq : q ≠ "")
    (short : p.length + 1 + q.length ≤ maxPathLength) (id : Nat) : ∃ view found,
      s.resolve (some id) (.text p) [] = .ok view ∧
        (∀ n, view = some n ↔ s.Finds id (Segment.ofParts p) n) ∧
        s.resolve view (.text q) [] = .ok found ∧
        s.resolve (some id) (.text (p ++ "." ++ q)) [] = .ok found := by
  have keyed : ∀ text, (Address.text text).Keyed := fun _ => trivial
  have hpshort : p.length ≤ maxPathLength := by omega
  have hqshort : q.length ≤ maxPathLength := by omega
  have hshort : (p ++ "." ++ q).length ≤ maxPathLength := by rwa [Segment.length_join]
  obtain ⟨view, hview, hfinds⟩ := exists_resolve fits (keyed p) hpshort id
  obtain ⟨joined, hjoined, hall⟩ := exists_resolve fits (keyed (p ++ "." ++ q)) hshort id
  simp only [Address.spelled, Segment.ofParts_join hp hq, finds_append_iff] at hfinds hall
  cases view with
  | none =>
    have hnone : joined = none := by
      rw [Option.eq_none_iff_forall_ne_some]
      intro n hn
      obtain ⟨mid, hmid, -⟩ := (hall n).mp hn
      cases (hfinds mid).mpr hmid
    exact ⟨none, none, hview, hfinds, rfl, hnone ▸ hjoined⟩
  | some v =>
    have hv : s.Finds id (Segment.ofParts p) v := (hfinds v).mp rfl
    obtain ⟨found, hfound, hrest⟩ := exists_resolve fits (keyed q) hqshort v
    have hsame : joined = found := by
      apply Option.ext
      intro n
      rw [hall, hrest]
      constructor
      · rintro ⟨mid, hmid, hn⟩
        rwa [hv.unique fits hmid]
      · intro hn
        exact ⟨v, hv, hn⟩
    exact ⟨some v, found, hview, hfinds, hfound, hsame ▸ hjoined⟩

end Store

namespace Workspace

variable {w : Workspace} {root view : Nat} {p q : Text}

theorem exists_put_text (w : Workspace) (id : NodeId) (text : Text) (content : Content) :
    ∃ outcome, w.put (.node id) (.text text) content = .ok outcome := by
  have usable : (Address.text text).Usable := nofun
  rw [put_total_iff usable]
  rintro ⟨⟨-, -, segments, n, heq, -⟩, -⟩
  cases heq

theorem put_text_eq_some_iff {id : NodeId} {text : Text} {content : Content} {child : NodeId}
    {w' : Workspace} :
    w.put (.node id) (.text text) content = .ok (some (child, w')) ↔ ∃ parent slot t n,
      w.store.Designates id (.text text) parent slot ∧ content.tree = .ok t ∧
        child = w.store.nodes.size ∧
        Node.Placed child slot (w.store.node parent) n ∧
        w' = { w with store := (w.store.plant t).2.write parent n } := by
  rw [put_eq_some_iff]
  constructor
  · rintro ⟨_, t, s', ⟨⟩, htree, hs, rfl⟩
    obtain ⟨parent, slot, n, hslot, hchild, placed, rfl⟩ := Store.insert_eq_some_iff.mp hs
    exact ⟨parent, slot, t, n, Store.slot_eq_ok_iff.mp hslot, htree, hchild, placed, rfl⟩
  · rintro ⟨parent, slot, t, n, hdes, htree, hchild, placed, rfl⟩
    exact ⟨id, t, _, rfl, htree,
      Store.insert_eq_some_iff.mpr ⟨parent, slot, n, Store.slot_eq_ok_iff.mpr hdes, hchild,
        placed, rfl⟩, rfl⟩

theorem put_join (fits : w.store.Fits) (hp : p ≠ "") (hq : q ≠ "")
    (short : p.length + 1 + q.length ≤ maxPathLength)
    (hview : w.store.Finds root (Segment.ofParts p) view) (content : Content) :
    w.put (.node root) (.text (p ++ "." ++ q)) content = w.put (.node view) (.text q) content := by
  have same : ∀ parent slot, w.store.Designates root (.text (p ++ "." ++ q)) parent slot ↔
      w.store.Designates view (.text q) parent slot := by
    intro parent slot
    rw [Store.designates_join_iff fits hp hq short]
    constructor
    · rintro ⟨found, hfound, hdes⟩
      rwa [hview.unique fits hfound]
    · intro hdes
      exact ⟨view, hview, hdes⟩
  obtain ⟨joined, hjoined⟩ := w.exists_put_text root (p ++ "." ++ q) content
  obtain ⟨outcome, houtcome⟩ := w.exists_put_text view q content
  have hiff : ∀ child w', w.put (.node root) (.text (p ++ "." ++ q)) content =
      .ok (some (child, w')) ↔
      w.put (.node view) (.text q) content = .ok (some (child, w')) := by
    intro child w'
    simp only [put_text_eq_some_iff, same]
  rw [hjoined, houtcome] at hiff ⊢
  congr 1
  apply Option.ext
  rintro ⟨child, w'⟩
  simpa using hiff child w'

theorem put_join_of_not_finds (fits : w.store.Fits) (hp : p ≠ "") (hq : q ≠ "")
    (short : p.length + 1 + q.length ≤ maxPathLength)
    (nothing : ∀ n, ¬ w.store.Finds root (Segment.ofParts p) n) (content : Content) :
    w.put (.node root) (.text (p ++ "." ++ q)) content = .ok none := by
  obtain ⟨outcome, houtcome⟩ := w.exists_put_text root (p ++ "." ++ q) content
  cases outcome with
  | none => exact houtcome
  | some result =>
    obtain ⟨parent, slot, t, n, hdes, -⟩ := put_text_eq_some_iff.mp houtcome
    obtain ⟨view, hview, -⟩ := (Store.designates_join_iff fits hp hq short).mp hdes
    exact absurd hview (nothing view)

/-- A path that finds a node and a second one, joined by a point, find from a node what the second
path finds from the node that the first one finds, and nothing if the first one finds nothing.
Whatever is put at the joined path is put from there as well, or not put, with the same outcome;
nothing is put if the first path finds nothing. -/
theorem paths_compose (reached : w.Reached) (root : NodeId) {p q : Text} (hp : p ≠ "") (hq : q ≠ "")
    (short : p.length + 1 + q.length ≤ maxPathLength) :
    ∃ view found, w.store.resolve (some root) (.text p) [] = .ok view ∧
      w.store.resolve view (.text q) [] = .ok found ∧
      w.store.resolve (some root) (.text (p ++ "." ++ q)) [] = .ok found ∧
      (∀ v, view = some v → ∀ content,
        (∃ outcome, w.put (.node v) (.text q) content = .ok outcome ∧
          w.put (.node root) (.text (p ++ "." ++ q)) content = .ok outcome) ∧
        w.after (.put (.node root) (.text (p ++ "." ++ q)) content) =
          w.after (.put (.node v) (.text q) content)) ∧
      (view = none → ∀ content, w.put (.node root) (.text (p ++ "." ++ q)) content = .ok none ∧
        w.after (.put (.node root) (.text (p ++ "." ++ q)) content) = w) := by
  have fits := reached.sound.fits
  obtain ⟨view, found, hview, hfinds, hfound, hjoined⟩ :=
    Store.exists_resolve_join fits hp hq short root
  refine ⟨view, found, hview, hfound, hjoined, ?_, ?_⟩
  · intro v hv content
    obtain ⟨outcome, houtcome⟩ := w.exists_put_text v q content
    have hput := put_join fits hp hq short ((hfinds v).mp hv) content
    refine ⟨⟨outcome, houtcome, hput.trans houtcome⟩, ?_⟩
    rw [after, after, hput]
  · rintro rfl content
    have nothing : ∀ n, ¬ w.store.Finds root (Segment.ofParts p) n := by
      intro n hn
      cases (hfinds n).mpr hn
    have hput := put_join_of_not_finds fits hp hq short nothing content
    refine ⟨hput, ?_⟩
    rw [after, hput]
    rfl

/-- A list that is put into a level, at once and through a view of the level; the position in front
has a zero more. -/
theorem paths_compose_list :
    let w := (fresh .empty).after (.convert (.ofValue (.dict [(.text "a", .list [.dict []])])))
    w.Reached ∧ w.store.resolve (some 0) (.text "a.00") [] = .ok (some 2) ∧
      ∃ w', w.put (.node 0) (.text "a.00.b") .emptyList = .ok (some (3, w')) ∧
        w.put (.node 2) (.text "b") .emptyList = .ok (some (3, w')) := by
  intro w
  have reached : w.Reached := .step (.fresh .empty) _ trivial
  have hresolve : w.store.resolve (some 0) (.text "a.00") [] = .ok (some 2) := rfl
  refine ⟨reached, hresolve, _, rfl, ?_⟩
  obtain ⟨view, found, hview, -, -, hput, -⟩ :=
    paths_compose reached 0 (show ("a.00" : Text) ≠ "" by decide)
      (show ("b" : Text) ≠ "" by decide) (by decide)
  obtain ⟨⟨outcome, hthrough, hjoined⟩, -⟩ :=
    hput 2 (Except.ok.inj (hview.symm.trans hresolve)) .emptyList
  rw [hthrough, ← hjoined]
  rfl

end Workspace

end Grove
