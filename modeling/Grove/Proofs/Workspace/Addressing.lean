import Grove.Proofs.Path.Dotted
import Grove.Proofs.Workspace.Walk

/-!
# Addresses of nodes

Slots lead to a node within a root in one way only, so that whatever callers write to get there
stands for the same segments. A walk spells this way as it goes down. It takes a text that is still
empty for the start, though, and drops the point behind it: the empty keys that a way begins with
are missing from its text.
-/
namespace Grove

namespace Segment

/-- Only the empty key has no text. -/
theorem text_eq_empty_iff {s : Segment} : s.text = "" ↔ s = .key "" := by
  cases s with
  | key name => simp [text]
  | index i => simp [text, Text.decimal_ne_nil]

/-- The text that a walk gives with a way down: its dotted form without the empty keys that it
begins with. -/
def walked (path : List Segment) : Text :=
  dotted (path.dropWhile fun s => s = .key "")

theorem walked_emptyKey (rest : List Segment) : walked (.key "" :: rest) = walked rest := by
  simp [walked]

theorem walked_of_ne {s : Segment} (named : s ≠ .key "") (rest : List Segment) :
    walked (s :: rest) = dotted (s :: rest) := by
  simp [walked, named]

theorem length_walked_le (path : List Segment) : (walked path).length ≤ (dotted path).length := by
  induction path with
  | nil => exact Nat.le_refl _
  | cons s rest ih =>
    by_cases named : s = .key ""
    · subst named
      rw [walked_emptyKey]
      cases rest with
      | nil => exact ih
      | cons next rest =>
        rw [dotted_cons_cons, length_join]
        omega
    · rw [walked_of_ne named]

/-- A walk gives the dotted form of a way, unless the way begins with the empty key and goes on from
there. -/
theorem walked_eq_dotted_iff {path : List Segment} :
    walked path = dotted path ↔ ∀ rest, path = .key "" :: rest → rest = [] := by
  constructor
  · rintro h rest rfl
    cases rest with
    | nil => rfl
    | cons next rest =>
      have hle := length_walked_le (next :: rest)
      have hlength := congrArg Text.length h
      rw [walked_emptyKey, dotted_cons_cons, length_join] at hlength
      omega
  · intro h
    cases path with
    | nil => rfl
    | cons s rest =>
      by_cases named : s = .key ""
      · subst named
        rw [h rest rfl]
        rfl
      · exact walked_of_ne named rest

end Segment

namespace Store

variable {s : Store} {id n m : Nat} {address : Address} {args : List Value}

/-! ### What leads to a node -/

/-- A node is found by the segments that its address stands for. -/
theorem find_ok_iff_descend : s.find (some id) address args = .ok n ↔
    ∃ path, address.segments args = .ok path ∧ s.descend [] id path = .ok n := by
  constructor
  · exact ok_of_bind
  · rintro ⟨path, hpath, hdescend⟩
    rw [find, hpath]
    exact hdescend

/-- Paths from a node that both lead somewhere lead to the same node exactly if they are the
same. -/
theorem Forest.descend_inj (h : s.Forest) {path path' : List Segment}
    (hn : s.descend [] id path = .ok n) (hm : s.descend [] id path' = .ok m) :
    n = m ↔ path = path' := by
  constructor
  · rintro rfl
    exact h.leads_unique (leads_of_descend hn) (leads_of_descend hm)
  · rintro rfl
    exact Except.ok.inj (hn.symm.trans hm)

/-- A node finds itself by the path without segments only. -/
theorem Forest.find_self_iff (h : s.Forest) :
    s.find (some id) address args = .ok id ↔ address.segments args = .ok [] := by
  rw [find_ok_iff_descend]
  constructor
  · rintro ⟨path, hpath, hdescend⟩
    obtain rfl : path = [] :=
      (h.descend_inj hdescend (show s.descend [] id [] = .ok id from rfl)).mp rfl
    exact hpath
  · intro hpath
    exact ⟨[], hpath, rfl⟩

/-! ### What a walk spells -/

/-- A walk that starts without text leaves out the empty keys at the beginning of a path, and spells
the rest. -/
theorem foldl_extendDotted_eq_walked (path : List Segment) :
    path.foldl extendDotted "" = Segment.walked path := by
  induction path with
  | nil => rfl
  | cons seg rest ih =>
    by_cases named : seg = .key ""
    · subst named
      rw [Segment.walked_emptyKey]
      exact ih
    · rw [Segment.walked_of_ne named]
      exact foldl_extendDotted_empty (mt Segment.text_eq_empty_iff.mp named) rest

theorem Forest.mem_walk_iff_walked (h : s.Forest) {text : Text} :
    (text, n) ∈ s.walk id ↔ ∃ path, path ≠ [] ∧ s.Leads id path n ∧ text = Segment.walked path := by
  rw [walk, h.mem_walkFrom_iff]
  constructor
  · rintro ⟨seg, rest, leads, rfl⟩
    exact ⟨seg :: rest, List.cons_ne_nil _ _, leads, foldl_extendDotted_eq_walked _⟩
  · rintro ⟨path, hne, leads, rfl⟩
    obtain ⟨seg, rest, rfl⟩ := List.exists_cons_of_ne_nil hne
    exact ⟨seg, rest, leads, (foldl_extendDotted_eq_walked _).symm⟩

end Store

namespace Workspace

variable {w : Workspace}

/-- Two addresses that both lead somewhere from a root, be they dotted texts, templates with
arguments or explicit paths, lead to the same node exactly if they stand for the same segments. Only
addresses without segments lead to the root. -/
theorem addresses_unique (reached : w.Reached) (root : NodeId) :
    (∀ (p q : Address) (pargs qargs : List Value) (n m : NodeId),
      w.store.find (some root) p pargs = .ok n → w.store.find (some root) q qargs = .ok m →
        ∃ path path', p.segments pargs = .ok path ∧ q.segments qargs = .ok path' ∧
          (n = m ↔ path = path')) ∧
    ∀ (p : Address) (args : List Value), w.store.find (some root) p args = .ok root ↔
      p.segments args = .ok [] := by
  have forest := reached.sound.forest
  refine ⟨?_, fun p args => forest.find_self_iff⟩
  intro p q pargs qargs n m hp hq
  obtain ⟨path, hpath, hn⟩ := Store.find_ok_iff_descend.mp hp
  obtain ⟨path', hpath', hm⟩ := Store.find_ok_iff_descend.mp hq
  exact ⟨path, path', hpath, hpath', forest.descend_inj hn hm⟩

/-- A text with a zero in front of a position, a template with its arguments and an explicit path
lead to one node, and another path leads elsewhere. -/
theorem addresses_unique_spellings :
    let w : Workspace :=
      { fresh .empty with
        store :=
          ⟨#[.level [("a", 1)], .list [2, 3], .boolean true, .level [("b", 4)], .string "x"]⟩ }
    let args : List Value := [.int 1, .text "b"]
    w.Reached ∧ w.store.find (some 0) (.text "a.01.b") [] = .ok 4 ∧
      w.store.find (some 0) (.text "a.%d.%s") args = .ok 4 ∧
      w.store.find (some 0) (.text "a.0") [] = .ok 2 ∧
      (∃ path, (Address.text "a.01.b").segments [] = .ok path ∧
        (Address.text "a.%d.%s").segments args = .ok path) ∧
      (Address.text "a.01.b").segments [] ≠ (Address.text "a.0").segments [] := by
  intro w args
  let items := Value.list [.boolean true, .dict [(.text "b", .text "x")]]
  have reached : w.Reached :=
    .step (.fresh .empty) (.convert (.ofValue (.dict [(.text "a", items)]))) trivial
  have plain : w.store.find (some 0) (.text "a.01.b") [] = .ok 4 := rfl
  have filled : w.store.find (some 0) (.text "a.%d.%s") args = .ok 4 := rfl
  have beside : w.store.find (some 0) (.text "a.0") [] = .ok 2 := rfl
  have unique := (addresses_unique reached 0).1
  refine ⟨reached, plain, filled, beside, ?_, ?_⟩
  · obtain ⟨path, path', hpath, hpath', hiff⟩ := unique _ _ _ _ _ _ plain filled
    exact ⟨path, hpath, hiff.mp rfl ▸ hpath'⟩
  · obtain ⟨path, path', hpath, hpath', hiff⟩ := unique _ _ _ _ _ _ plain beside
    intro heq
    rw [hpath, hpath'] at heq
    exact absurd (hiff.mpr (Except.ok.inj heq)) (by decide)

/-- Every node below a root comes in a walk with the text of the one way that leads to it, less the
empty keys that the way begins with. So the text is that of the explicit path along this way, which
has one as long as no position in it has too many digits, exactly if the way does not begin with the
empty key or ends there. -/
theorem walk_spells_addresses (reached : w.Reached) (root : NodeId) :
    (∀ text n, (text, n) ∈ w.store.walk root ↔
      ∃ path, path ≠ [] ∧ w.store.Leads root path n ∧ text = Segment.walked path) ∧
    ∀ text n path, (text, n) ∈ w.store.walk root → w.store.Leads root path n →
      ((ExplicitPath.ofSegments path).asText = .ok text ↔
        (∀ i, .index i ∈ path → Text.decimalLength i ≤ maxDigits) ∧ ∀ rest,
          path = .key "" :: rest → rest = []) := by
  have forest := reached.sound.forest
  refine ⟨fun text n => forest.mem_walk_iff_walked, ?_⟩
  intro text n path hmem leads
  obtain ⟨way, -, hway, rfl⟩ := forest.mem_walk_iff_walked.mp hmem
  obtain rfl : way = path := forest.leads_unique hway leads
  rw [ExplicitPath.asText_ofSegments_eq_ok_iff, Segment.walked_eq_dotted_iff]

/-- A walk past an empty key and a key with a point in it, none of which comes first. -/
theorem walk_spells_addresses_within :
    let w : Workspace :=
      { fresh .empty with
        store := ⟨#[.level [("a", 1)], .level [("", 2), ("b.c", 4)], .list [3],
          .boolean true, .string "x"]⟩ }
    let path : List Segment := [.key "a", .key "", .index 0]
    w.Reached ∧ w.store.walk 0 = [(Text.lit "a", 1), ("a.", 2), ("a..0", 3), ("a.b.c", 4)] ∧
      w.store.Leads 0 path 3 ∧
      (ExplicitPath.ofSegments path).asText = .ok "a..0" := by
  intro w path
  let inner := Value.dict [(.text "", .list [.boolean true]), (.text "b.c", .text "x")]
  have reached : w.Reached :=
    .step (.fresh .empty) (.convert (.ofValue (.dict [(.text "a", inner)]))) trivial
  have hwalk : w.store.walk 0 = [(Text.lit "a", 1), ("a.", 2), ("a..0", 3), ("a.b.c", 4)] := rfl
  have leads : w.store.Leads 0 path 3 :=
    .down (show (.key "a", 1) ∈ (w.store.node 0).items by decide)
      (.down (show (.key "", 2) ∈ (w.store.node 1).items by decide)
        (.down (show (.index 0, 3) ∈ (w.store.node 2).items by decide) (.here 3)))
  have hmem : (↑ "a..0", 3) ∈ w.store.walk 0 := by
    rw [hwalk]
    decide
  refine ⟨reached, hwalk, leads,
    ((walk_spells_addresses reached 0).2 _ _ _ hmem leads).mpr ⟨?_, ?_⟩⟩
  · intro i hi
    obtain rfl : i = 0 := by simpa [path] using hi
    decide
  · intro rest hpath
    exact absurd (List.cons.inj hpath).1 (by decide)

/-- Behind an empty key that comes first, a walk gives the text of another node. -/
theorem walk_spells_addresses_emptyKey :
    let w : Workspace :=
      { fresh .empty with
        store := ⟨#[.level [("", 1), ("a", 3)], .level [("a", 2)], .boolean true, .string "x"]⟩ }
    let path : List Segment := [.key "", .key "a"]
    w.Reached ∧ w.store.Leads 0 path 2 ∧ (ExplicitPath.ofSegments path).asText = .ok ".a" ∧
      w.store.walk 0 = [(Text.lit "", 1), ("a", 2), ("a", 3)] ∧
      w.store.resolve (some 0) (.text "a") [] = .ok (some 3) := by
  intro w path
  let entries : List (Value × Value) :=
    [(.text "", .dict [(.text "a", .boolean true)]), (.text "a", .text "x")]
  have reached : w.Reached := .step (.fresh .empty) (.convert (.ofValue (.dict entries))) trivial
  have leads : w.store.Leads 0 path 2 :=
    .down (show (.key "", 1) ∈ (w.store.node 0).items by decide)
      (.down (show (.key "a", 2) ∈ (w.store.node 1).items by decide) (.here 2))
  exact ⟨reached, leads, rfl, rfl, rfl⟩

end Workspace

end Grove
