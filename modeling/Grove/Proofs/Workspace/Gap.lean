import Grove.Proofs.Workspace.Addressing

/-!
# The first gap

A path that finds nothing has a first segment that finds nothing: all the segments in front of it
find a node, and that node has no child there. The search reports this segment, whatever follows it.
It marks the root by a text of its own, which it uses where the text of the segments in front is
empty; no path that finds a node has the empty text, but for the path without segments.
-/
namespace Grove

namespace Segment

theorem length_dotted_take_le (path : List Segment) (j : Nat) :
    (dotted (path.take j)).length ≤ (dotted path).length := by
  induction path generalizing j with
  | nil => simp
  | cons s rest ih =>
    cases j with
    | zero => simp
    | succ j =>
      have hhead : s.text.length ≤ (dotted (s :: rest)).length :=
        length_text_le_dotted List.mem_cons_self
      cases rest with
      | nil =>
        rw [List.take_succ_cons, List.take_nil]
      | cons next rest =>
        cases j with
        | zero => simpa using hhead
        | succ j =>
          have htail := ih (j + 1)
          simp only [List.take_succ_cons] at htail ⊢
          rw [dotted_cons_cons, dotted_cons_cons, length_join, length_join]
          omega

/-- Only the path without segments and the empty key alone have no text. -/
theorem dotted_eq_empty_iff {path : List Segment} :
    dotted path = "" ↔ path = [] ∨ path = [.key ""] := by
  constructor
  · intro h
    cases path with
    | nil => exact Or.inl rfl
    | cons s rest =>
      cases rest with
      | nil =>
        rw [dotted_singleton, text_eq_empty_iff] at h
        exact Or.inr (congrArg (· :: []) h)
      | cons next rest =>
        have hlength := congrArg Text.length h
        rw [dotted_cons_cons, length_join, Text.length_empty] at hlength
        omega
  · rintro (rfl | rfl) <;> rfl

end Segment

theorem Error.message_noSegment (seg : Segment) (reached : List Segment) (kind : Kind) :
    (Error.noSegment seg reached kind).message =
      "Path segment " ++ inQuotes seg.text ++ " not found under " ++
      inQuotes (if Segment.dotted reached = "" then "<root>" else Segment.dotted reached) ++ " (" ++
        kind.name ++ ")" :=
  rfl

namespace Address

theorem unusableSegments_eq_ok {v : Value} {args : List Value} {path : List Segment}
    (h : unusableSegments v args = .ok path) : path = [] := by
  obtain ⟨v, -, h⟩ := ok_of_bind h
  split at h
  · cases h
  · split at h
    · cases h
    · split at h
      · cases h
        rfl
      · split at h <;> cases h

/-- What an address stands for can be written as an explicit path. -/
theorem length_dotted_of_segments {address : Address} {args : List Value} {path : List Segment}
    (h : address.segments args = .ok path) : (Segment.dotted path).length ≤ maxPathLength := by
  have ofDotted : ∀ {text}, Segment.ofDotted text = .ok path → (Segment.dotted path).length ≤
      maxPathLength := by
    intro text htext
    obtain ⟨short, rfl⟩ := Segment.ofDotted_eq_ok_iff.mp htext
    rw [Segment.dotted_ofParts]
    exact Nat.le_trans (Segment.length_trimmed_le text) short
  cases address with
  | omitted =>
    obtain ⟨text, -, htext⟩ := ok_of_bind h
    exact ofDotted htext
  | text template =>
    obtain ⟨text, -, htext⟩ := ok_of_bind h
    exact ofDotted htext
  | path given =>
    have hargs : args.isEmpty = true := by
      by_contra hargs
      rw [segments, pathSegments, if_neg hargs] at h
      cases h
    obtain rfl := List.isEmpty_iff.mp hargs
    have keyed : (Address.path given).Keyed := trivial
    obtain ⟨short, rfl⟩ := (segments_eq_ok_iff keyed).mp h
    exact short
  | unusable v =>
    have hpath : path = [] := by
      unfold segments at h
      split at h
      · next hv => cases hv
      · next hv => cases hv
      · next hv => cases hv
      · unfold pathSegments at h
        split at h
        · obtain ⟨text, -, h⟩ := ok_of_bind h
          split at h <;> cases h
          rfl
        · cases h
      · next hv =>
        cases hv
        exact unusableSegments_eq_ok h
    rw [hpath]
    exact Nat.zero_le _

end Address

namespace Store

variable {s : Store} {id n root : Nat} {path : List Segment}

/-- A path that finds a node is not told by the empty text, unless it has no segments. -/
theorem Finds.dotted_eq_empty_iff (h : s.Finds id path n) :
    Segment.dotted path = "" ↔ path = [] := by
  rw [Segment.dotted_eq_empty_iff]
  constructor
  · rintro (hnil | rfl)
    · exact hnil
    · exact absurd (List.mem_singleton.mpr rfl) h.named
  · exact Or.inl

/-- Every path in front of one that finds a node finds a node. -/
theorem Finds.take (h : s.Finds id path n) (j : Nat) : ∃ m, s.Finds id (path.take j) m := by
  rw [← List.take_append_drop j path] at h
  obtain ⟨m, front, -⟩ := finds_append_iff.mp h
  exact ⟨m, front⟩

/-- The path has its first gap behind its first `i` segments: these and fewer find a node, one more
finds none. -/
structure Gap (s : Store) (root : Nat) (path : List Segment) (i : Nat) : Prop where
  earlier : ∀ j, j ≤ i → ∃ n, s.Finds root (path.take j) n
  missing : ∀ n, ¬ s.Finds root (path.take (i + 1)) n

theorem Gap.unique {i j : Nat} (hi : s.Gap root path i) (hj : s.Gap root path j) : i = j := by
  rcases Nat.lt_trichotomy i j with hlt | heq | hlt
  · obtain ⟨n, hn⟩ := hj.earlier (i + 1) hlt
    exact absurd hn (hi.missing n)
  · exact heq
  · obtain ⟨n, hn⟩ := hi.earlier (j + 1) hlt
    exact absurd hn (hj.missing n)

/-- A search that fails stops at a segment of which the node that it has reached has no child. -/
theorem stop_of_descend (fits : s.Fits) {reached : List Segment} {e : Error}
    (h : s.descend reached id path = .error e) :
    ∃ front seg back n, path = front ++ seg :: back ∧ s.Finds id front n ∧
      (∀ c, ¬ s.Finds n [seg] c) ∧
      e = .noSegment seg (reached ++ front) (s.node n).kind := by
  induction path generalizing id reached with
  | nil => cases h
  | cons seg rest ih =>
    rw [descend] at h
    split at h
    · next c hc =>
      obtain ⟨slot, named⟩ := (Node.child?_eq_some_iff (fits id)).mp hc
      obtain ⟨front, stop, back, n, rfl, finds, missing, rfl⟩ := ih h
      refine ⟨seg :: front, stop, back, n, rfl, ⟨.down slot finds.leads, ?_⟩, missing, by simp⟩
      rw [List.mem_cons, not_or]
      exact ⟨named.symm, finds.named⟩
    · next hnone =>
      cases h
      refine ⟨[], seg, rest, id, rfl, ⟨.here id, List.not_mem_nil⟩, ?_, by simp⟩
      intro c hc
      have hdescend : s.descend [] id [seg] = .ok c := (descend_eq_ok_iff fits).mpr hc
      rw [descend, hnone] at hdescend
      cases hdescend

/-- The place where a search stops is the first gap of its path. -/
theorem gap_of_stop (fits : s.Fits) {front back : List Segment} {seg : Segment}
    (finds : s.Finds root front n) (missing : ∀ c, ¬ s.Finds n [seg] c) :
    s.Gap root (front ++ seg :: back) front.length where
  earlier j hj := by
    rw [List.take_append_of_le_length hj]
    exact finds.take j
  missing m hm := by
    have htake : (front ++ seg :: back).take (front.length + 1) = front ++ [seg] := by
      simp [List.take_append]
    rw [htake, finds_append_iff] at hm
    obtain ⟨mid, hfront, hseg⟩ := hm
    rw [hfront.unique fits finds] at hseg
    exact missing m hseg

/-- A search either finds a node, and then every path in front finds one, or it fails at the first
gap of its path. -/
theorem descend_or_gap (fits : s.Fits) (root : Nat) (path : List Segment) :
    (∃ n, s.descend [] root path = .ok n ∧ ∀ j, ∃ m, s.Finds root (path.take j) m) ∨
      ∃ i seg n, s.Gap root path i ∧ path[i]? = some seg ∧ s.Finds root (path.take i) n ∧
        s.descend [] root path = .error (.noSegment seg (path.take i) (s.node n).kind) := by
  cases hdescend : s.descend [] root path with
  | ok n => exact Or.inl ⟨n, rfl, ((descend_eq_ok_iff fits).mp hdescend).take⟩
  | error e =>
    obtain ⟨front, seg, back, n, rfl, finds, missing, rfl⟩ := stop_of_descend fits hdescend
    have htake : (front ++ seg :: back).take front.length = front := by simp
    refine Or.inr ⟨front.length, seg, n, gap_of_stop fits finds missing, by simp, ?_, ?_⟩
    · rw [htake]
      exact finds
    · rw [htake, List.nil_append]

namespace Gap

variable {i : Nat}

/-- At the gap the search stops, with the node that the segments in front of it find. -/
theorem descend_eq (fits : s.Fits) (gap : s.Gap root path i) :
    ∃ seg n, path[i]? = some seg ∧ s.Finds root (path.take i) n ∧
      s.descend [] root path = .error (.noSegment seg (path.take i) (s.node n).kind) := by
  rcases descend_or_gap fits root path with ⟨-, -, all⟩ | ⟨j, seg, n, other, hseg, finds, herror⟩
  · obtain ⟨n, hn⟩ := all (i + 1)
    exact absurd hn (gap.missing n)
  · rw [gap.unique other]
    exact ⟨seg, n, hseg, finds, herror⟩

/-- There is nothing in front of a gap in words exactly if there is no segment in front of it. -/
theorem dotted_eq_empty_iff (gap : s.Gap root path i) :
    Segment.dotted (path.take i) = "" ↔ i = 0 := by
  obtain ⟨n, finds⟩ := gap.earlier i (Nat.le_refl i)
  rw [finds.dotted_eq_empty_iff, List.take_eq_nil_iff]
  constructor
  · rintro (hi | hnil)
    · exact hi
    · -- The path without segments finds its root, and has no gap.
      rw [hnil, List.take_nil] at finds
      exact absurd finds (by simpa [hnil] using gap.missing n)
  · exact Or.inl

end Gap

variable {address : Address} {args : List Value}

theorem find_of_segments (hpath : address.segments args = .ok path) (s : Store) (root : Nat) :
    s.find (some root) address args = s.descend [] root path := by
  rw [find, hpath]
  rfl

end Store

namespace Workspace

variable {w : Workspace}

open Store

/-- Take an address that stands for a path, and a root. The address finds a node exactly if every
path in front of its own, which is what an explicit path would be resolved by, finds one. Otherwise
there is one first gap, and the search fails there: its message tells the segment, the dotted text
of those in front of it, or a mark for the root if there are none, and the kind of the node that
these find. A place for writing is found exactly if there are segments and all but the last find a
node; the place is that node with the last segment. -/
theorem find_fails_at_first_gap (reached : w.Reached) (root : NodeId) {address : Address}
    {args : List Value} {path : List Segment} (stands : address.segments args = .ok path) :
    let s := w.store
    (∀ j n, s.resolve (some root) (.path (path.take j)) [] = .ok (some n) ↔
      s.Finds root (path.take j) n) ∧
    ((∃ n, s.find (some root) address args = .ok n) ↔ ∀ j, ∃ n, s.Finds root (path.take j) n) ∧
    ((∀ n, s.find (some root) address args ≠ .ok n) → ∃! i, s.Gap root path i) ∧
    (∀ i, s.Gap root path i → ∃ seg n e, path[i]? = some seg ∧ s.Finds root (path.take i) n ∧
      s.find (some root) address args = .error e ∧
      e = .noSegment seg (path.take i) (s.node n).kind ∧
      e.category = .failure .pathNotFound ∧ (Segment.dotted (path.take i) = "" ↔ i = 0) ∧
      e.message = "Path segment " ++ Error.inQuotes seg.text ++ " not found under " ++
        Error.inQuotes (if i = 0 then "<root>" else Segment.dotted (path.take i)) ++
        " (" ++ (s.node n).kind.name ++ ")") ∧
    (∀ parent last, s.findForWrite (some root) address args = .ok (parent, last) ↔
      ∃ front, path = front ++ [last] ∧ s.Finds root front parent) ∧
    ((∃ place, s.findForWrite (some root) address args = .ok place) ↔
      path ≠ [] ∧ ∀ j, ∃ n, s.Finds root (path.dropLast.take j) n) := by
  intro s
  have fits : s.Fits := reached.sound.fits
  have short := Address.length_dotted_of_segments stands
  have hfind : s.find (some root) address args = s.descend [] root path :=
    find_of_segments stands s root
  refine ⟨?prefixes, ?found, ?gap, ?told, ?place, ?placed⟩
  case prefixes =>
    intro j n
    have keyed : (Address.path (path.take j)).Keyed := trivial
    rw [resolve_eq_some_iff, find_eq_ok_iff fits keyed]
    constructor
    · rintro ⟨-, finds⟩
      exact finds
    · intro finds
      exact ⟨Nat.le_trans (Segment.length_dotted_take_le path j) short, finds⟩
  case found =>
    simp only [hfind, descend_eq_ok_iff fits]
    constructor
    · rintro ⟨n, finds⟩
      exact finds.take
    · intro all
      simpa using all path.length
  case gap =>
    intro missing
    rcases descend_or_gap fits root path with ⟨n, hn, -⟩ | ⟨i, -, -, gap, -⟩
    · exact absurd (hfind.trans hn) (missing n)
    · exact ⟨i, gap, fun j other => other.unique gap⟩
  case told =>
    intro i gap
    obtain ⟨seg, n, hseg, finds, herror⟩ := gap.descend_eq fits
    have hempty := gap.dotted_eq_empty_iff
    refine ⟨seg, n, _, hseg, finds, hfind.trans herror, rfl, rfl, hempty, ?_⟩
    rw [Error.message_noSegment]
    simp only [hempty]
  case place =>
    intro parent last
    rw [findForWrite_eq_ok_iff, stands]
    simp only [Except.ok.injEq, descend_eq_ok_iff fits]
  case placed =>
    constructor
    · rintro ⟨⟨parent, last⟩, hplace⟩
      obtain ⟨front, hfront, hdescend⟩ := findForWrite_eq_ok_iff.mp hplace
      obtain rfl : path = front ++ [last] := Except.ok.inj (stands.symm.trans hfront)
      refine ⟨by simp, ?_⟩
      rw [List.dropLast_concat]
      exact ((descend_eq_ok_iff fits).mp hdescend).take
    · rintro ⟨hne, all⟩
      obtain ⟨parent, finds⟩ := all path.dropLast.length
      rw [List.take_length] at finds
      have hpath : address.segments args = .ok (path.dropLast ++ [path.getLast hne]) := by
        rw [List.dropLast_concat_getLast hne]
        exact stands
      exact ⟨(parent, path.getLast hne),
        findForWrite_eq_ok_iff.mpr ⟨_, hpath, (descend_eq_ok_iff fits).mpr finds⟩⟩

/-- A key is spelled like the mark for the root. What follows the gap at `x` does not matter, and
the place of `x` is found for writing. -/
theorem find_fails_at_first_gap_marked :
    let w : Workspace :=
      { fresh .empty with
        store := ⟨#[.level [("<root>", 1)], .list [2], .level [("b", 3)], .boolean true]⟩ }
    let path : List Segment := [.key "<root>", .index 0, .key "x", .key "y"]
    w.Reached ∧ (Address.text "<root>.%d.x.y").segments [.int 0] = .ok path ∧
      (∃! i, w.store.Gap 0 path i) ∧
      (∃ e, w.store.find (some 0) (.text "<root>.%d.x.y") [.int 0] = .error e ∧
        e.message = "Path segment 'x' not found under '<root>.0' (level)") ∧
      w.store.findForWrite (some 0) (.text "<root>.0.x") [] = .ok (2, .key "x") := by
  intro w path
  let items := Value.list [.dict [(.text "b", .boolean true)]]
  have reached : w.Reached :=
    .step (.fresh .empty) (.convert (.ofValue (.dict [(.text "<root>", items)]))) trivial
  have stands : (Address.text "<root>.%d.x.y").segments [.int 0] = .ok path := rfl
  have hfind : w.store.find (some 0) (.text "<root>.%d.x.y") [.int 0] =
      .error (.noSegment (.key "x") [.key "<root>", .index 0] .level) := rfl
  obtain ⟨-, -, gap, -⟩ := find_fails_at_first_gap reached 0 stands
  refine ⟨reached, stands, gap ?_, ⟨_, hfind, by decide⟩, rfl⟩
  intro n hn
  rw [hfind] at hn
  cases hn

end Workspace

end Grove
