import Mathlib.Order.WellFounded
import Grove.Proofs.Store.Clearing
import Grove.Query

/-!
# Stores within stores

A store may hold all that another one holds, under other handles, and more besides. No operation
tells one handle from another but by what its node holds. So every question has the same answer in
both, up to the handles, and what is done to both keeps the one within the other. The handles that
are given out next are renamed into each other from the start: only a store that grows by itself
asks for another renaming.
-/
namespace Grove

/-! ### Renamings of handles -/

/-- A renaming that spreads the first `m` handles among the first `n`, in their order, and keeps
them apart from the handles behind, which go on side by side. -/
structure Spreads (f : Nat → Nat) (m n : Nat) : Prop where
  mono : StrictMono f
  behind : ∀ k, f (m + k) = n + k

namespace Spreads

variable {f : Nat → Nat} {m n : Nat}

theorem refl (n : Nat) : Spreads id n n where
  mono := strictMono_id
  behind _ := rfl

theorem last (h : Spreads f m n) : f m = n :=
  h.behind 0

theorem lt_iff (h : Spreads f m n) {i : Nat} : f i < n ↔ i < m := by
  rw [← h.last]
  exact h.mono.lt_iff_lt

theorem le (h : Spreads f m n) : m ≤ n := by
  have hle := h.mono.le_apply (x := m)
  rwa [h.last] at hle

theorem inj (h : Spreads f m n) {i j : Nat} : f i = f j ↔ i = j :=
  h.mono.injective.eq_iff

theorem grow (h : Spreads f m n) (count : Nat) : Spreads f (m + count) (n + count) where
  mono := h.mono
  behind k := by
    rw [Nat.add_assoc, h.behind, Nat.add_assoc]

/-- The renaming with a gap of some handles behind the first `m`. -/
def skip (f : Nat → Nat) (m count : Nat) (i : Nat) : Nat :=
  if i < m then f i else f i + count

theorem skip_of_lt (f : Nat → Nat) (count : Nat) {i : Nat} (h : i < m) : skip f m count i = f i :=
  if_pos h

theorem skip_behind (h : Spreads f m n) (count k : Nat) :
    skip f m count (m + k) = n + count + k := by
  have hle : ¬ m + k < m := by omega
  rw [skip, if_neg hle, h.behind]
  omega

theorem skipped (h : Spreads f m n) (count : Nat) : Spreads (skip f m count) m (n + count) where
  mono := by
    intro i j hij
    have hlt := h.mono hij
    unfold skip
    split <;> split <;> omega
  behind := h.skip_behind count

/-- The gap is what the renaming misses from then on. -/
theorem range_skip (h : Spreads f m n) (count j : Nat) :
    j ∈ Set.range (skip f m count) ↔ j ∈ Set.range f ∧ ¬ (n ≤ j ∧ j < n + count) := by
  constructor
  · rintro ⟨i, rfl⟩
    by_cases hi : i < m
    · have hlt := h.lt_iff.mpr hi
      rw [skip_of_lt f count hi]
      exact ⟨⟨i, rfl⟩, by omega⟩
    · obtain ⟨k, rfl⟩ := Nat.exists_eq_add_of_le (Nat.le_of_not_lt hi)
      rw [h.skip_behind]
      refine ⟨⟨m + (count + k), ?_⟩, by omega⟩
      rw [h.behind]
      omega
  · rintro ⟨⟨i, rfl⟩, outside⟩
    by_cases hi : i < m
    · exact ⟨i, skip_of_lt f count hi⟩
    · obtain ⟨k, rfl⟩ := Nat.exists_eq_add_of_le (Nat.le_of_not_lt hi)
      rw [h.behind] at outside ⊢
      obtain ⟨l, rfl⟩ := Nat.exists_eq_add_of_le (show count ≤ k by omega)
      refine ⟨m + l, ?_⟩
      rw [h.skip_behind]
      omega

end Spreads

theorem Entries.get?_map {α β : Type} (f : α → β) (key : Text) (es : List (Text × α)) :
    get? key (es.map fun (k, v) => (k, f v)) = (get? key es).map f := by
  induction es with
  | nil => rfl
  | cons e es ih =>
    obtain ⟨k, v⟩ := e
    simp only [List.map_cons, get?, ih]
    split <;> rfl

namespace Node

def rename (f : NodeId → NodeId) : Node → Node
  | .list ids => .list (ids.map f)
  | .level entries => .level (entries.map fun (k, id) => (k, f id))
  | n => n

variable (f : NodeId → NodeId) (n : Node)

@[simp] theorem kind_rename : (n.rename f).kind = n.kind := by
  cases n <;> rfl

@[simp] theorem payload_rename : (n.rename f).payload = n.payload := by
  cases n <;> rfl

@[simp] theorem description_rename : (n.rename f).description = n.description := by
  unfold description
  cases n with
  | list ids =>
    have hlength : (ids.map f).length = ids.length := List.length_map f
    simp only [rename, hlength]
  | level entries =>
    have hkeys : ((entries.map fun (k, id) => (k, f id)).map fun (k, _) => Text.quoted k) =
        entries.map fun (k, _) => Text.quoted k := List.map_map
    simp only [rename, hkeys]
  | _ => rfl

@[simp] theorem children_rename : (n.rename f).children = n.children.map f := by
  cases n <;> simp [rename, children, Function.comp_def]

@[simp] theorem items_rename : (n.rename f).items = n.items.map fun (seg, id) => (seg, f id) := by
  cases n <;> simp [rename, items, List.zipIdx_map, Function.comp_def]

@[simp] theorem emptied_rename : (n.rename f).emptied = n.emptied.rename f := by
  cases n <;> rfl

theorem tree_rename (held : NodeId → Tree) :
    (n.rename f).tree held = n.tree fun id => held (f id) := by
  cases n <;> simp [rename, tree, Function.comp_def]

theorem child?_rename (seg : Segment) : (n.rename f).child? seg = (n.child? seg).map f := by
  cases n with
  | list ids => cases seg <;> simp [rename, child?]
  | level entries =>
    cases seg with
    | key name =>
      simp only [rename, child?]
      split
      · rfl
      · exact Entries.get?_map f name entries
    | index position => rfl
  | _ => rfl

theorem childAt_rename (v : Value) : (n.rename f).childAt v = (n.childAt v).map (Option.map f) := by
  unfold childAt
  cases n with
  | level entries =>
    cases v with
    | key name =>
      simp only [rename]
      split
      · next name => exact congrArg Except.ok (child?_rename f (.level entries) (.key name))
      · rfl
      · rfl
    | _ => rfl
  | _ =>
    cases v with
    | index position => exact congrArg Except.ok (child?_rename f _ (.index position))
    | _ => rfl

/-- A slot takes a renamed child as it takes the child. -/
theorem place?_rename (slot : Option Segment) (child : NodeId) :
    (n.rename f).place? slot (f child) = (n.place? slot child).map (rename f) := by
  cases n with
  | list ids =>
    rcases slot with _ | name | i
    · simp [rename, place?]
    · rfl
    · simp only [rename, place?, List.length_map]
      split
      · simp [rename, List.map_set]
      · split <;> simp [rename]
  | level entries =>
    rcases slot with _ | name | i
    · rfl
    · simp only [rename, place?]
      split
      · rfl
      · rw [Entries.put_map]
        rfl
    · rfl
  | _ => rfl

/-- Renamings that agree on the children give the same. -/
theorem rename_congr {f g : NodeId → NodeId} {n : Node} (h : ∀ c ∈ n.children, f c = g c) :
    n.rename f = n.rename g := by
  cases n with
  | list ids =>
    simp only [rename, list.injEq]
    exact List.map_congr_left h
  | level entries =>
    simp only [rename, level.injEq]
    apply List.map_congr_left
    intro e he
    have hsame := h e.2 (List.mem_map_of_mem he)
    simp only [hsame]
  | _ => rfl

theorem rename_id : n.rename id = n := by
  cases n <;> simp [rename]

end Node

namespace Tree

mutual

/-- A tree is laid out alike wherever it starts. -/
theorem map_rename_layout {f : NodeId → NodeId} {base base' : NodeId}
    (h : ∀ k, f (base + k) = base' + k) : (t : Tree) →
    (t.layout base).map (Node.rename f) = t.layout base'
  | .number x => rfl
  | .string s => rfl
  | .boolean b => rfl
  | .list items => by
    have hnext : ∀ k, f (base + 1 + k) = base' + 1 + k := by
      intro k
      rw [Nat.add_assoc, h, Nat.add_assoc]
    obtain ⟨hstarts, hlayout⟩ := map_rename_layoutAll hnext items
    rw [layout, List.map_cons, hlayout, Node.rename, hstarts, layout]
  | .level entries => by
    have hnext : ∀ k, f (base + 1 + k) = base' + 1 + k := by
      intro k
      rw [Nat.add_assoc, h, Nat.add_assoc]
    obtain ⟨hstarts, hlayout⟩ := map_rename_layoutEntries hnext entries
    rw [layout, List.map_cons, hlayout, Node.rename, hstarts, layout]

theorem map_rename_layoutAll {f : NodeId → NodeId} {base base' : NodeId}
    (h : ∀ k, f (base + k) = base' + k) :
    (ts : List Tree) → (starts base ts).map f = starts base' ts ∧
      (layoutAll base ts).map (Node.rename f) = layoutAll base' ts
  | [] => ⟨rfl, rfl⟩
  | t :: ts => by
    have hnext : ∀ k, f (base + t.count + k) = base' + t.count + k := by
      intro k
      rw [Nat.add_assoc, h, Nat.add_assoc]
    obtain ⟨hstarts, hlayout⟩ := map_rename_layoutAll hnext ts
    have hbase : f base = base' := h 0
    constructor
    · rw [starts, List.map_cons, hstarts, hbase, starts]
    · rw [layoutAll, List.map_append, hlayout, map_rename_layout h t, layoutAll]

theorem map_rename_layoutEntries {f : NodeId → NodeId} {base base' : NodeId}
    (h : ∀ k, f (base + k) = base' + k) :
    (es : List (Text × Tree)) →
      ((entryStarts base es).map fun (k, id) => (k, f id)) = entryStarts base' es ∧
      (layoutEntries base es).map (Node.rename f) = layoutEntries base' es
  | [] => ⟨rfl, rfl⟩
  | (k, t) :: es => by
    have hnext : ∀ k, f (base + t.count + k) = base' + t.count + k := by
      intro k
      rw [Nat.add_assoc, h, Nat.add_assoc]
    obtain ⟨hstarts, hlayout⟩ := map_rename_layoutEntries hnext es
    have hbase : f base = base' := h 0
    constructor
    · rw [entryStarts, List.map_cons, hstarts, entryStarts, ← hbase]
    · rw [layoutEntries, List.map_append, hlayout, map_rename_layout h t, layoutEntries]

end

end Tree

/-! ### Stores -/

namespace Lookup

def rename (f : NodeId → NodeId) : Lookup → Lookup
  | .found id => .found (f id)
  | .failed kind message => .failed kind message

theorem unwrap_rename (f : NodeId → NodeId) (outcome : Lookup) :
    (outcome.rename f).unwrap = outcome.unwrap.map f := by
  cases outcome <;> rfl

end Lookup

namespace Store

/-- A store holds all that another one holds under renamed handles. -/
structure Embeds (f : NodeId → NodeId) (s t : Store) : Prop where
  spreads : Spreads f s.nodes.size t.nodes.size
  node : ∀ id, t.node (f id) = (s.node id).rename f

theorem absorb_map {α β : Type} (f : α → β) (x : Except Error α) :
    absorb (x.map f) = (absorb x).map (Option.map f) := by
  cases x with
  | ok a => rfl
  | error e =>
    simp only [Except.map, absorb]
    split <;> rfl

namespace Embeds

variable {f : NodeId → NodeId} {s t : Store}

theorem refl (s : Store) : s.Embeds id s where
  spreads := .refl _
  node _ := (Node.rename_id _).symm

/-! ### Questions -/

section

variable (h : s.Embeds f t)

include h

theorem unfold_eq (depth : Nat) (id : NodeId) : t.unfold depth (f id) = s.unfold depth id := by
  induction depth generalizing id with
  | zero => rfl
  | succ depth ih =>
    rw [Forest.unfold_succ, Forest.unfold_succ, h.node, Node.tree_rename]
    exact Node.tree_congr fun c _ => ih c

/-- A node holds the same under either handle. -/
theorem tree_eq (forest : s.Forest) (id : NodeId) : t.tree (f id) = s.tree id := by
  have hle := h.spreads.le
  rw [tree, h.unfold_eq]
  exact forest.unfold_eq id (by omega) (by omega)

theorem walkFrom_eq (depth : Nat) (start : Text) (id : NodeId) :
    t.walkFrom depth start (f id) =
      (s.walkFrom depth start id).map fun (text, n) => (text, f n) := by
  induction depth generalizing start id with
  | zero => rfl
  | succ depth ih =>
    simp only [walkFrom, h.node, Node.items_rename, List.flatMap_map, List.map_flatMap,
      List.map_cons, ih]

theorem walk_eq (forest : s.Forest) (id : NodeId) :
    t.walk (f id) = (s.walk id).map fun (text, n) => (text, f n) := by
  have hle := h.spreads.le
  rw [walk, h.walkFrom_eq, walk]
  congr 1
  exact forest.walkFrom_eq "" id (by omega) (by omega)

theorem reachFrom_eq (depth : Nat) (id : NodeId) :
    t.reachFrom depth (f id) = (s.reachFrom depth id).map f := by
  induction depth generalizing id with
  | zero => rfl
  | succ depth ih =>
    simp only [reachFrom, h.node, Node.children_rename, List.flatMap_map, List.map_flatMap,
      List.map_cons, ih]

theorem reach_eq (forest : s.Forest) (id : NodeId) : t.reach (f id) = (s.reach id).map f := by
  have hle := h.spreads.le
  rw [reach, h.reachFrom_eq, reach]
  congr 1
  exact forest.reachFrom_eq id (by omega) (by omega)

theorem descend_eq (reached path : List Segment) (id : NodeId) :
    t.descend reached (f id) path = (s.descend reached id path).map f := by
  induction path generalizing reached id with
  | nil => rfl
  | cons seg rest ih =>
    simp only [descend, h.node, Node.child?_rename, Node.kind_rename]
    cases (s.node id).child? seg with
    | none => rfl
    | some c => exact ih (reached ++ [seg]) c

variable (root : Option NodeId) (address : Address) (args : List Value)

theorem find_eq : t.find (root.map f) address args = (s.find root address args).map f := by
  cases root with
  | none => rfl
  | some id =>
    simp only [find, Option.map_some]
    cases address.segments args with
    | error e => rfl
    | ok path => exact h.descend_eq [] path id

theorem findForWrite_eq :
    t.findForWrite (root.map f) address args =
      (s.findForWrite root address args).map (Prod.map f id) := by
  cases root with
  | none => rfl
  | some id =>
    simp only [findForWrite, Option.map_some]
    cases address.segments args with
    | error e => rfl
    | ok path =>
      simp only [bind, Except.bind]
      cases path.getLast? with
      | none => rfl
      | some last =>
        simp only [h.descend_eq]
        cases s.descend [] id path.dropLast <;> rfl

theorem resolve_eq :
    t.resolve (root.map f) address args = (s.resolve root address args).map (Option.map f) := by
  rw [resolve, h.find_eq, absorb_map, resolve]

theorem resolveForWrite_eq : t.resolveForWrite (root.map f) address args =
    (s.resolveForWrite root address args).map (Option.map (Prod.map f id)) := by
  rw [resolveForWrite, h.findForWrite_eq, absorb_map, resolveForWrite]

theorem lookup_eq (kind : Option Kind) :
    t.lookup (root.map f) kind address args =
      (s.lookup root kind address args).map (Lookup.rename f) := by
  simp only [lookup, h.find_eq]
  cases s.find root address args with
  | ok id =>
    simp only [Except.map, h.node, Node.kind_rename]
    cases kind with
    | none => rfl
    | some expected =>
      simp only
      split <;> rfl
  | error e =>
    simp only [Except.map]
    split <;> rfl

theorem scalar_eq (kind : Kind) (default : Value) :
    t.scalar (root.map f) kind default address args = s.scalar root kind default address args := by
  simp only [scalar, h.lookup_eq]
  cases s.lookup root (some kind) address args with
  | error e => rfl
  | ok outcome =>
    cases outcome with
    | found id => simp [Except.map, bind, Except.bind, Lookup.rename, h.node]
    | failed => rfl

theorem listSize_eq : t.listSize (root.map f) address args = s.listSize root address args := by
  simp only [listSize, h.resolve_eq]
  cases s.resolve root address args with
  | error e => rfl
  | ok found =>
    cases found with
    | none => rfl
    | some id =>
      simp only [Except.map, bind, Except.bind, Option.map_some, h.node]
      cases s.node id <;> simp [Node.rename]

theorem hasKey_eq : t.hasKey (root.map f) address args = s.hasKey root address args := by
  simp only [hasKey, h.resolve_eq]
  cases s.resolve root address args with
  | error e => rfl
  | ok found => cases found <;> rfl

theorem slot_eq (n : NodeId) : t.slot (f n) address = (s.slot n address).map (Prod.map f id) := by
  by_cases given : address = .omitted
  · subst given
    rfl
  · have hplace := h.findForWrite_eq (some n) address []
    rw [slot_of_ne given, slot_of_ne given, ← Option.map_some, hplace]
    cases s.findForWrite (some n) address [] <;> rfl

/-! ### Changes -/

/-- Trees that are planted in both get handles that are renamed into each other. -/
theorem plant (u : Tree) :
    (t.plant u).1 = f (s.plant u).1 ∧ (s.plant u).2.Embeds f (t.plant u).2 := by
  refine ⟨h.spreads.last.symm, ?_, ?_⟩
  · rw [size_plant, size_plant]
    exact h.spreads.grow u.count
  · intro n
    by_cases hn : n < s.nodes.size
    · rw [node_plant_of_lt s u hn, node_plant_of_lt t u (h.spreads.lt_iff.mpr hn), h.node]
    · obtain ⟨i, rfl⟩ := Nat.exists_eq_add_of_le (Nat.le_of_not_lt hn)
      rw [h.spreads.behind, node_plant_add, node_plant_add,
        ← Tree.map_rename_layout h.spreads.behind, List.getElem?_map]
      cases (u.layout s.nodes.size)[i]? <;> rfl

theorem write (n : NodeId) (m : Node) : (s.write n m).Embeds f (t.write (f n) (m.rename f)) where
  spreads := by
    rw [size_write, size_write]
    exact h.spreads
  node other := by
    by_cases hn : n < s.nodes.size
    · rw [node_write m hn, node_write _ (h.spreads.lt_iff.mpr hn)]
      simp only [h.spreads.inj, h.node]
      split <;> rfl
    · have hle := Nat.le_of_not_lt hn
      have hle' := Nat.le_of_not_lt (mt h.spreads.lt_iff.mp hn)
      rw [write_of_size_le hle, write_of_size_le hle', h.node]

/-- A tree is put into both stores alike. -/
theorem insert (n : NodeId) (u : Tree) :
    Alike (Option.Rel fun p q => q.1 = f p.1 ∧ p.2.Embeds f q.2) (s.insert n address u)
      (t.insert (f n) address u) := by
  unfold Store.insert
  rw [h.slot_eq]
  cases s.slot n address with
  | error e =>
    simp only [Except.map]
    split
    · exact .ok .none
    · exact .error e
  | ok target =>
    obtain ⟨parent, slot⟩ := target
    obtain ⟨hchild, planted⟩ := h.plant u
    simp only [Except.map, Prod.map, id, hchild, h.node, Node.place?_rename]
    cases (s.node parent).place? slot (s.plant u).1 with
    | none => exact .ok .none
    | some m => exact .ok (.some ⟨rfl, planted.write parent m⟩)

theorem clear (forest : s.Forest) (n : NodeId) : (s.clear n).Embeds f (t.clear (f n)) where
  spreads := by
    rw [size_clear, size_clear]
    exact h.spreads
  node other := by
    have hmem : f other ∈ (s.reach n).map f ↔ other ∈ s.reach n :=
      List.mem_map_of_injective h.spreads.mono.injective
    rw [node_clear, node_clear, h.reach_eq forest, h.node, Node.emptied_rename]
    simp only [hmem]
    split <;> rfl

/-- A store that only grows goes on to hold what it held. -/
theorem skipped (forest : s.Forest) {u : Store} {count : Nat}
    (size : u.nodes.size = t.nodes.size + count)
    (same : ∀ n, n < t.nodes.size → u.node n = t.node n) :
    s.Embeds (Spreads.skip f s.nodes.size count) u where
  spreads := by
    rw [size]
    exact h.spreads.skipped count
  node n := by
    by_cases hn : n < s.nodes.size
    · have hchildren : ∀ c ∈ (s.node n).children, f c = Spreads.skip f s.nodes.size count c := by
        intro c hc
        exact (Spreads.skip_of_lt f count (forest.after hc).2).symm
      rw [Spreads.skip_of_lt f count hn, same _ (h.spreads.lt_iff.mpr hn), h.node]
      exact Node.rename_congr hchildren
    · obtain ⟨k, rfl⟩ := Nat.exists_eq_add_of_le (Nat.le_of_not_lt hn)
      rw [h.spreads.skip_behind, node_of_size_le (by omega), node_of_size_le (by omega)]
      rfl

end

end Embeds

end Store

end Grove
