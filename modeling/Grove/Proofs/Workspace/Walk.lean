import Grove.Proofs.Path.Dotted
import Grove.Proofs.Store.Resolution
import Grove.Proofs.Workspace.Growth
import Grove.Proofs.Workspace.Ownership

/-!
# Walking

A walk from a node meets every node below it once, a parent before its children and these in the
order of their keys, each with everything below it before the next. The text that comes with a node
is the path to it, spelled segment by segment; it can be read back where no key looks like something
else.
-/
namespace Grove

namespace Node

/-- Every slot of a node has a key of its own. -/
theorem nodup_keys {n : Node} (fits : n.Fits) : n.keys.Nodup := by
  cases n with
  | list ids =>
    rw [keys_list]
    exact List.nodup_range.map fun _ _ h => Segment.index.inj h
  | level entries =>
    rw [keys_level]
    exact fits.1.map fun _ _ h => Segment.key.inj h
  | _ => exact List.nodup_nil

theorem mem_keys_of_mem_items {n : Node} {seg : Segment} {c : Nat}
    (h : (seg, c) ∈ n.items) : seg ∈ n.keys :=
  List.mem_map_of_mem h

end Node

namespace Store

variable {s : Store}

theorem Leads.head {id last : Nat} {seg : Segment} {rest : List Segment}
    (h : s.Leads id (seg :: rest) last) :
    ∃ c, (seg, c) ∈ (s.node id).items ∧ s.Leads c rest last := by
  cases h with
  | down slot tail => exact ⟨_, slot, tail⟩

/-! ### The order of a walk -/

/-- One typed address comes before another in the depth-first order from a node: it ends earlier on
the same way, or the ways part at two children of which the one on its side has the earlier key. -/
inductive Precedes (s : Store) : Nat → List Segment → List Segment → Prop
  | above (id : Nat) (seg : Segment) (rest : List Segment) : Precedes s id [] (seg :: rest)
  | beside {id : Nat} {seg seg' : Segment} (order : [seg, seg'].Sublist (s.node id).keys)
      (rest rest' : List Segment) :
      Precedes s id (seg :: rest) (seg' :: rest')
  | deeper {id : Nat} {seg : Segment} {c : Nat} {rest rest' : List Segment}
      (slot : (seg, c) ∈ (s.node id).items)
      (order : Precedes s c rest rest') : Precedes s id (seg :: rest) (seg :: rest')

/-- No address comes before itself, since no key is told twice. -/
theorem Precedes.irrefl (fits : s.Fits) {id : Nat} {a : List Segment} : ¬ s.Precedes id a a := by
  intro h
  induction a generalizing id with
  | nil => cases h
  | cons seg rest ih =>
    cases h with
    | beside order _ _ => exact List.nodup_iff_sublist.mp (Node.nodup_keys (fits id)) seg order
    | deeper slot order => exact ih order

def VisitedBefore (s : Store) (id n m : Nat) : Prop :=
  ∃ a b, s.Leads id a n ∧ s.Leads id b m ∧ s.Precedes id a b

theorem VisitedBefore.ne (forest : s.Forest) (fits : s.Fits) {id n m : Nat}
    (h : s.VisitedBefore id n m) : n ≠ m := by
  rintro rfl
  obtain ⟨a, b, ha, hb, order⟩ := h
  rw [forest.leads_unique ha hb] at order
  exact order.irrefl fits

/-- The order below a child is the order below its parent. -/
theorem VisitedBefore.up {id c n m : Nat} {seg : Segment} (slot : (seg, c) ∈ (s.node id).items)
    (h : s.VisitedBefore c n m) : s.VisitedBefore id n m := by
  obtain ⟨a, b, ha, hb, order⟩ := h
  exact ⟨seg :: a, seg :: b, .down slot ha, .down slot hb, .deeper slot order⟩

/-! ### What a walk meets -/

namespace Forest

variable (h : s.Forest)

include h

/-- A walk meets exactly what the typed addresses of at least one segment lead to, each with the
text that it is spelled as behind the text that the walk starts with. -/
theorem mem_walkFrom_iff {start path : Text} {id n : Nat} :
    (path, n) ∈ s.walkFrom s.nodes.size start id ↔
    ∃ seg rest, s.Leads id (seg :: rest) n ∧ path = (seg :: rest).foldl extendDotted start := by
  induction id using h.induction generalizing start with
  | step id ih =>
    rw [h.walkFrom_step, List.mem_flatMap]
    constructor
    · rintro ⟨⟨seg, c⟩, slot, hmem⟩
      rcases List.mem_cons.mp hmem with heq | hmem
      · cases heq
        exact ⟨seg, [], .down slot (.here n), rfl⟩
      · obtain ⟨next, rest, leads, rfl⟩ := (ih c (Node.mem_children_of_mem_items slot)).mp hmem
        exact ⟨seg, next :: rest, .down slot leads, rfl⟩
    · rintro ⟨seg, rest, leads, rfl⟩
      obtain ⟨c, slot, tail⟩ := leads.head
      refine ⟨(seg, c), slot, List.mem_cons.mpr ?_⟩
      cases rest with
      | nil =>
        cases tail
        exact Or.inl rfl
      | cons next rest =>
        exact Or.inr ((ih c (Node.mem_children_of_mem_items slot)).mpr ⟨next, rest, tail, rfl⟩)

theorem leads_of_mem_walkFrom {start : Text} {id : Nat} {x : Text × NodeId}
    (hx : x ∈ s.walkFrom s.nodes.size start id) : ∃ seg rest, s.Leads id (seg :: rest) x.2 := by
  obtain ⟨seg, rest, leads, -⟩ := h.mem_walkFrom_iff.mp (show (x.1, x.2) ∈ _ from hx)
  exact ⟨seg, rest, leads⟩

/-- The addresses of what comes with a child begin with the key of the child. -/
theorem leads_of_mem_step {start : Text} {id c : Nat} {seg : Segment}
    (slot : (seg, c) ∈ (s.node id).items) {path : Text} {x : Text × NodeId}
    (hx : x ∈ (path, c) :: s.walkFrom s.nodes.size start c) :
    ∃ rest, s.Leads id (seg :: rest) x.2 := by
  rcases List.mem_cons.mp hx with rfl | hx
  · exact ⟨[], .down slot (.here c)⟩
  · obtain ⟨next, rest, leads⟩ := h.leads_of_mem_walkFrom hx
    exact ⟨next :: rest, .down slot leads⟩

/-- A walk meets nodes in depth-first order. -/
theorem pairwise_walkFrom (start : Text) (id : Nat) :
    (s.walkFrom s.nodes.size start id).Pairwise fun x y => s.VisitedBefore id x.2 y.2 := by
  induction id using h.induction generalizing start with
  | step id ih =>
    rw [h.walkFrom_step, List.pairwise_flatMap]
    constructor
    · rintro ⟨seg, c⟩ slot
      refine List.pairwise_cons.mpr ⟨?_, ?_⟩
      · intro x hx
        obtain ⟨next, rest, leads⟩ := h.leads_of_mem_walkFrom hx
        exact ⟨[seg], seg :: next :: rest, .down slot (.here c), .down slot leads,
          .deeper slot (.above c next rest)⟩
      · exact (ih c (Node.mem_children_of_mem_items slot) _).imp (VisitedBefore.up slot)
    · rw [List.pairwise_iff_forall_sublist]
      rintro ⟨seg, c⟩ ⟨seg', c'⟩ hsub x hx y hy
      obtain ⟨rest, hrest⟩ := h.leads_of_mem_step (hsub.subset List.mem_cons_self) hx
      obtain ⟨rest', hrest'⟩ :=
        h.leads_of_mem_step (hsub.subset (List.mem_cons_of_mem _ List.mem_cons_self)) hy
      exact ⟨seg :: rest, seg' :: rest', hrest, hrest', .beside (hsub.map Prod.fst) rest rest'⟩

/-- A walk meets exactly the nodes below where it starts. -/
theorem mem_map_walk_iff {id n : Nat} : n ∈ (s.walk id).map (·.2) ↔ s.Below id n := by
  constructor
  · intro hn
    obtain ⟨x, hx, rfl⟩ := List.mem_map.mp hn
    obtain ⟨seg, rest, leads⟩ := h.leads_of_mem_walkFrom hx
    obtain ⟨c, slot, tail⟩ := leads.head
    exact Relation.TransGen.head' (Node.mem_children_of_mem_items slot) tail.within
  · intro hbelow
    obtain ⟨c, hc, hwithin⟩ := Relation.TransGen.head'_iff.mp hbelow
    obtain ⟨seg, slot⟩ := Node.exists_mem_items hc
    obtain ⟨rest, leads⟩ := exists_leads hwithin
    exact List.mem_map.mpr ⟨_, h.mem_walkFrom_iff.mpr ⟨seg, rest, .down slot leads, rfl⟩, rfl⟩

end Forest

/-! ### The texts of a walk -/

theorem foldl_extendDotted {start : Text} (hstart : start ≠ "") (seg : Segment)
    (rest : List Segment) :
    (seg :: rest).foldl extendDotted start = start ++ "." ++ Segment.dotted (seg :: rest) := by
  induction rest generalizing start seg with
  | nil => exact if_neg hstart
  | cons next rest ih =>
    have hpath : start ++ "." ++ seg.text ≠ "" := by
      intro hempty
      have hlength := Segment.length_join start seg.text
      rw [hempty, Text.length_empty] at hlength
      omega
    rw [List.foldl_cons, extendDotted, if_neg hstart, ih hpath, Segment.dotted_cons_cons]
    simp only [Text.append_assoc]

/-- Unless the first segment has no text, a walk that starts without text spells a path as its
dotted form. -/
theorem foldl_extendDotted_empty {seg : Segment} (named : seg.text ≠ "") (rest : List Segment) :
    (seg :: rest).foldl extendDotted "" = Segment.dotted (seg :: rest) := by
  rw [List.foldl_cons, extendDotted, if_pos rfl]
  cases rest with
  | nil => rfl
  | cons next rest => rw [foldl_extendDotted named, Segment.dotted_cons_cons]

/-- Every key within a node is not empty, has no point in it and does not consist of digits
alone. -/
def PlainKeys (s : Store) (id : Nat) : Prop :=
  ∀ n name, s.Within id n → Segment.key name ∈ (s.node n).keys →
    name ≠ "" ∧ ↑ '.' ∉ name.toList ∧ ¬ ∀ c ∈ name.toList, Text.isDigit c = true

namespace PlainKeys

variable {id n : Nat} {a : List Segment} (plain : s.PlainKeys id) (leads : s.Leads id a n)

include plain leads

theorem of_mem {seg : Segment} (h : seg ∈ a) : seg.Faithful ∧ seg.text ≠ "" := by
  induction leads with
  | here => cases h
  | @down id first c rest last slot tail ih =>
    rcases List.mem_cons.mp h with rfl | h
    · cases seg with
      | key name =>
        obtain ⟨named, free, word⟩ := plain id name .refl (Node.mem_keys_of_mem_items slot)
        exact ⟨⟨free, fun digits => word digits.2⟩, named⟩
      | index i => exact ⟨trivial, mt Text.ofList_eq_empty_iff.mp (Text.decimal_ne_nil i)⟩
    · refine ih (fun m name hm => plain m name ?_) h
      exact .head (Node.mem_children_of_mem_items slot) hm

theorem named : Segment.key "" ∉ a :=
  fun h => (plain.of_mem leads h).2 rfl

/-- The dotted form of a way down is read back as this way. -/
theorem ofParts_dotted : Segment.ofParts (Segment.dotted a) = a := by
  refine Segment.ofParts_dotted_iff.mpr ⟨fun seg hseg => (plain.of_mem leads hseg).1, ?_⟩
  rintro rfl
  exact plain.named leads List.mem_cons_self

end PlainKeys

/-- Where keys are plain, the text that a walk gives with a node is the dotted form of the way to
it. -/
theorem Forest.mem_walk_iff (h : s.Forest) {id n : Nat} (plain : s.PlainKeys id) {path : Text} :
    (path, n) ∈ s.walk id ↔ ∃ a, a ≠ [] ∧ s.Leads id a n ∧ path = Segment.dotted a := by
  rw [walk, h.mem_walkFrom_iff]
  constructor
  · rintro ⟨seg, rest, leads, rfl⟩
    exact ⟨seg :: rest, List.cons_ne_nil _ _, leads,
      foldl_extendDotted_empty (plain.of_mem leads List.mem_cons_self).2 rest⟩
  · rintro ⟨a, hne, leads, rfl⟩
    obtain ⟨seg, rest, rfl⟩ := List.exists_cons_of_ne_nil hne
    exact ⟨seg, rest, leads,
      (foldl_extendDotted_empty (plain.of_mem leads List.mem_cons_self).2 rest).symm⟩

/-- Where keys are plain, the nodes that a walk gives the same text with are the same. -/
theorem Forest.walk_functional (h : s.Forest) (fits : s.Fits) {id : Nat}
    (plain : s.PlainKeys id) {path : Text} {n m : Nat} (hn : (path, n) ∈ s.walk id)
    (hm : (path, m) ∈ s.walk id) : n = m := by
  obtain ⟨a, -, ha, rfl⟩ := (h.mem_walk_iff plain).mp hn
  obtain ⟨b, -, hb, heq⟩ := (h.mem_walk_iff plain).mp hm
  have hab : a = b := by rw [← plain.ofParts_dotted ha, heq, plain.ofParts_dotted hb]
  subst hab
  exact Finds.unique fits ⟨ha, plain.named ha⟩ ⟨hb, plain.named hb⟩

theorem resolve_text_iff (fits : s.Fits) {id n : Nat} {path : Text} :
    s.resolve (some id) (.text path) [] = .ok (some n) ↔
      path.length ≤ maxPathLength ∧ s.Finds id (Segment.ofParts path) n :=
  resolve_eq_some_iff.trans (find_eq_ok_iff fits (show (Address.text path).Keyed from trivial))

/-- Where keys are plain, a text that is not too long leads to a node exactly if the walk gives this
node with the text without the zeros in front of positions. -/
theorem Forest.resolve_text_iff_mem_walk (h : s.Forest) (fits : s.Fits) {id n : Nat}
    (plain : s.PlainKeys id) {path : Text} (given : path ≠ "") :
    s.resolve (some id) (.text path) [] = .ok (some n) ↔
      path.length ≤ maxPathLength ∧ (Segment.trimmed path, n) ∈ s.walk id := by
  rw [resolve_text_iff fits, h.mem_walk_iff plain]
  refine and_congr_right fun _ => ?_
  constructor
  · intro finds
    exact ⟨_, Segment.ofParts_ne_nil given, finds.leads, (Segment.dotted_ofParts path).symm⟩
  · rintro ⟨a, -, leads, htext⟩
    have hread : Segment.ofParts path = a := by
      rw [← Segment.ofParts_trimmed, htext, plain.ofParts_dotted leads]
    exact hread ▸ ⟨leads, plain.named leads⟩

/-- The texts of a walk have no superfluous zeros. -/
theorem Forest.trimmed_of_mem_walk (h : s.Forest) {id n : Nat}
    (plain : s.PlainKeys id) {path : Text} (hpath : (path, n) ∈ s.walk id) :
    path ≠ "" ∧ Segment.trimmed path = path := by
  obtain ⟨a, hne, leads, rfl⟩ := (h.mem_walk_iff plain).mp hpath
  have hread := plain.ofParts_dotted leads
  constructor
  · intro hempty
    rw [hempty] at hread
    exact hne hread.symm
  · rw [← Segment.dotted_ofParts, hread]

end Store

namespace Workspace

variable {w : Workspace}

/-- Where keys are plain, the texts of a walk are the paths to the nodes that come with them. -/
theorem Sound.walk_resolvable (h : w.Sound) {root : NodeId} (plain : w.store.PlainKeys root) :
    ((w.store.walk root).map (·.1)).Nodup ∧
    (∀ path n, (path, n) ∈ w.store.walk root → path.length ≤ maxPathLength →
      w.store.resolve (some root) (.text path) [] = .ok (some n)) ∧
    (∀ (path : Text) n, path ≠ "" → w.store.resolve (some root) (.text path) [] = .ok (some n) →
      (Segment.trimmed path, n) ∈ w.store.walk root) := by
  refine ⟨?_, ?_, ?_⟩
  · rw [List.Nodup, List.pairwise_map]
    refine (h.forest.pairwise_walkFrom "" root).imp_of_mem ?_
    rintro ⟨path, n⟩ ⟨path', m⟩ hx hy order rfl
    exact order.ne h.forest h.fits (h.forest.walk_functional h.fits plain hx hy)
  · intro path n hpath short
    obtain ⟨given, htrimmed⟩ := h.forest.trimmed_of_mem_walk plain hpath
    exact (h.forest.resolve_text_iff_mem_walk h.fits plain given).mpr ⟨short, htrimmed.symm ▸ hpath⟩
  · intro path n given hresolve
    exact ((h.forest.resolve_text_iff_mem_walk h.fits plain given).mp hresolve).2

/-- A walk ends, and it meets every node below its start once, in depth-first order with children in
the order of their keys. If no key within the start is empty, has a point in it or consists of
digits, then no two nodes come with the same text, each text that is not too long resolves to its
node, and every text that resolves to a node is listed with this node but for the zeros in front of
positions. -/
theorem walk_complete (reached : w.Reached) (root : NodeId) :
    (∀ depth, w.store.nodes.size ≤ depth → w.store.walkFrom depth "" root = w.store.walk root) ∧
    (∀ n, n ∈ (w.store.walk root).map (·.2) ↔ w.store.Below root n) ∧
    ((w.store.walk root).map (·.2)).Nodup ∧
    ((w.store.walk root).map (·.2)).Pairwise (w.store.VisitedBefore root) ∧
    (w.store.PlainKeys root →
      ((w.store.walk root).map (·.1)).Nodup ∧
      (∀ path n, (path, n) ∈ w.store.walk root → path.length ≤ maxPathLength →
        w.store.resolve (some root) (.text path) [] = .ok (some n)) ∧
      (∀ (path : Text) n, path ≠ "" → w.store.resolve (some root) (.text path) [] = .ok (some n) →
        (Segment.trimmed path, n) ∈ w.store.walk root)) := by
  obtain ⟨forest, fits, -⟩ := reached.sound
  have order : ((w.store.walk root).map (·.2)).Pairwise (w.store.VisitedBefore root) :=
    List.pairwise_map.mpr (forest.pairwise_walkFrom "" root)
  refine ⟨?_, fun n => forest.mem_map_walk_iff, ?_, order, reached.sound.walk_resolvable⟩
  · intro depth hdepth
    exact forest.walkFrom_eq "" root (by omega) (by omega)
  · exact order.imp (Store.VisitedBefore.ne forest fits)

/-- The walk through a level that holds a list of a truth value and a level. -/
theorem walk_complete_mixed :
    let w : Workspace :=
      { fresh .empty with
        store :=
          ⟨#[.level [("a", 1)], .list [2, 3], .boolean true, .level [("b", 4)], .string "x"]⟩ }
    w.Reached ∧ w.store.PlainKeys 0 ∧
      w.store.walk 0 = [(Text.lit "a", 1), ("a.0", 2), ("a.1", 3), ("a.1.b", 4)] ∧
      w.store.resolve (some 0) (.text "a.1.b") [] = .ok (some 4) ∧
      w.store.resolve (some 0) (.text "a.01.b") [] = .ok (some 4) ∧
      (Segment.trimmed "a.01.b", 4) ∈ w.store.walk 0 := by
  intro w
  let items := Value.list [.boolean true, .dict [(.text "b", .text "x")]]
  have reached : w.Reached :=
    .step (.fresh .empty) (.convert (.ofValue (.dict [(.text "a", items)]))) trivial
  have plain : w.store.PlainKeys 0 := by
    intro n name _ hname
    have hkeys : name = "a" ∨ name = "b" := by
      match n with
      | 0 => exact Or.inl (Segment.key.inj (List.mem_singleton.mp hname))
      | 3 => exact Or.inr (Segment.key.inj (List.mem_singleton.mp hname))
      | 1 => simp [w, Store.node, Node.keys_list] at hname
      | 2 | 4 | n + 5 => cases hname
    rcases hkeys with rfl | rfl
    · exact ⟨by decide, by decide, fun digits => absurd (digits 'a' (by decide)) (by decide)⟩
    · exact ⟨by decide, by decide, fun digits => absurd (digits 'b' (by decide)) (by decide)⟩
  have hwalk : w.store.walk 0 = [(Text.lit "a", 1), ("a.0", 2), ("a.1", 3), ("a.1.b", 4)] := rfl
  have zeros : w.store.resolve (some 0) (.text "a.01.b") [] = .ok (some 4) := rfl
  obtain ⟨-, resolves, listed⟩ := (walk_complete reached 0).2.2.2.2 plain
  have hmem : (↑ "a.1.b", 4) ∈ w.store.walk 0 := by rw [hwalk]; decide
  exact ⟨reached, plain, hwalk, resolves _ _ hmem (by decide), zeros, listed _ _ (by decide) zeros⟩

end Workspace

end Grove
