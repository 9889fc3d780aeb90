import Grove.Proofs.Store.Diagnosis
import Grove.Proofs.Tree.Refusal
import Grove.Proofs.Text.Digit
import Grove.Proofs.Workspace.Run

/-!
# Questions and additions that always answer

Every error that an address gives rise to is absorbed, with one exception: the position of an
explicit path may have so many digits that it has no text, and then the path has none. Questions and
additions answer exactly where they do not meet this error: where there is nothing to look at, where
arguments are given along with the path, and for all other addresses.
-/
namespace Grove

namespace Address

/-- Nothing, dotted text or an explicit path. -/
def Usable (address : Address) : Prop :=
  ∀ v, address ≠ .unusable v

/-- An explicit path with a position of too many digits to be written. -/
def Unwritable (address : Address) : Prop :=
  ∃ segments n, address = .path segments ∧ Segment.index n ∈ segments ∧ 10 ^ maxDigits ≤ n

variable {address : Address} {segments : List Segment} {args : List Value}

theorem fits_iff : (∀ n, Segment.index n ∈ segments → Text.decimalLength n ≤ maxDigits) ↔
    ¬ (Address.path segments).Unwritable := by
  have hlength : ∀ n, Text.decimalLength n ≤ maxDigits ↔ ¬ 10 ^ maxDigits ≤ n := by
    intro n
    rw [← Text.lt_decimalLength_iff (by decide), Nat.not_lt]
  constructor
  · rintro h ⟨_, n, ⟨⟩, hmem, hlarge⟩
    exact (hlength n).mp (h n hmem) hlarge
  · intro h n hmem
    rw [hlength]
    exact fun hlarge => h ⟨segments, n, rfl, hmem, hlarge⟩

/-- The only fault of the text of a path is a position of too many digits. -/
theorem dottedWithin_fails (segments : List Segment) :
    FailsOnly (fun e => e = .text .tooManyDigits) (dottedWithin segments) := by
  have hwords : FailsOnly (fun fault => fault = .tooManyDigits) (segments.mapM segmentText) := by
    refine FailsOnly.mapM fun s _ => ?_
    intro fault h
    cases s with
    | key name => cases h
    | index n =>
      rw [segmentText, intText_position] at h
      split at h
      · cases h
        rfl
      · cases h
  intro e h
  cases htexts : segments.mapM segmentText with
  | ok words =>
    obtain ⟨hfits, -⟩ := mapM_segmentText_eq_ok_iff.mp htexts
    rw [dottedWithin_eq_ok_iff.mpr ⟨hfits, rfl⟩] at h
    cases h
  | error fault =>
    have hdotted : dottedWithin segments = .error (.text fault) := by
      show (((segments.mapM segmentText).map fun words =>
          Text.intercalate "." words).mapError Error.text) = _
      rw [htexts]
      rfl
    rw [hdotted, hwords fault htexts] at h
    cases h
    rfl

theorem segments_of_unwritable (h : address.Unwritable) :
    address.segments [] = .error (.text .tooManyDigits) := by
  have hunfit := h
  obtain ⟨segments, n, rfl, -⟩ := h
  have hdotted : dottedWithin segments = .error (.text .tooManyDigits) := by
    cases hdotted : dottedWithin segments with
    | ok text => exact absurd hunfit (fits_iff.mp (dottedWithin_eq_ok_iff.mp hdotted).1)
    | error e => rw [dottedWithin_fails segments e hdotted]
  simp [Address.segments, pathSegments, hdotted, bind, Except.bind]

theorem ofDotted_fails (text : Text) : FailsOnly Error.IsAbsorbed (Segment.ofDotted text) := by
  unfold Segment.ofDotted
  split
  · exact failsOnly_error.mpr (by simp [Error.IsAbsorbed, Error.category])
  · split
    · exact failsOnly_ok _
    · exact failsOnly_ok _

theorem renderPath_fails (template : Text) (args : List Value) :
    FailsOnly Error.IsAbsorbed (renderPath template args) := by
  unfold renderPath
  split
  · exact failsOnly_ok _
  · cases Template.render template args with
    | ok text => exact failsOnly_ok _
    | error fault => exact failsOnly_error.mpr (by simp [Error.IsAbsorbed, Error.category])

/-- Any other error of an address is absorbed. -/
theorem segments_fails (usable : address.Usable) (h : args = [] → ¬ address.Unwritable) :
    FailsOnly Error.IsAbsorbed (address.segments args) := by
  cases address with
  | unusable v => exact absurd rfl (usable v)
  | omitted => exact (renderPath_fails "" args).bind fun text _ => ofDotted_fails text
  | text template => exact (renderPath_fails template args).bind fun text _ => ofDotted_fails text
  | path segments =>
    cases args with
    | cons v args => exact failsOnly_error.mpr (by simp [Error.IsAbsorbed, Error.category])
    | nil =>
      have hdotted := dottedWithin_eq_ok_iff.mpr ⟨fits_iff.mpr (h rfl), rfl⟩
      simp only [Address.segments, pathSegments, hdotted, List.isEmpty_nil, if_true,
        bind, Except.bind]
      split
      · exact failsOnly_error.mpr (by simp [Error.IsAbsorbed, Error.category])
      · exact failsOnly_ok _

end Address

namespace Store

variable {s : Store} {root : Option NodeId} {address : Address} {args : List Value}

/-- There is a root, and the path to be looked for below it cannot be written. -/
def Barred (root : Option NodeId) (address : Address) (args : List Value) : Prop :=
  root.isSome = true ∧ args = [] ∧ address.Unwritable

theorem find_of_barred (h : Barred root address args) :
    s.find root address args = .error (.text .tooManyDigits) ∧
      s.findForWrite root address args = .error (.text .tooManyDigits) := by
  obtain ⟨hroot, rfl, hunwritable⟩ := h
  cases root with
  | none => cases hroot
  | some id => simp [find, findForWrite, Address.segments_of_unwritable hunwritable,
      bind, Except.bind]

theorem descend_fails (reached : List Segment) (id : NodeId) (path : List Segment) :
    FailsOnly Error.IsAbsorbed (s.descend reached id path) := by
  intro e h
  simp [Error.IsAbsorbed, category_of_descend h]

theorem find_fails (usable : address.Usable) (h : ¬ Barred root address args) :
    FailsOnly Error.IsAbsorbed (s.find root address args) ∧
      FailsOnly Error.IsAbsorbed (s.findForWrite root address args) := by
  cases root with
  | none =>
    constructor
    · exact failsOnly_error.mpr (by simp [Error.IsAbsorbed, Error.category])
    · exact failsOnly_error.mpr (by simp [Error.IsAbsorbed, Error.category])
  | some id =>
    have hsegments := Address.segments_fails usable fun hargs hunwritable =>
      h ⟨rfl, hargs, hunwritable⟩
    constructor
    · exact hsegments.bind fun path _ => descend_fails [] id path
    · refine hsegments.bind fun path _ => ?_
      split
      · exact failsOnly_error.mpr (by simp [Error.IsAbsorbed, Error.category])
      · exact (descend_fails [] id path.dropLast).bind fun _ _ => failsOnly_ok _

theorem exists_absorb_iff {α : Type} {x : Except Error α} :
    (∃ a, absorb x = .ok a) ↔ FailsOnly Error.IsAbsorbed x := by
  cases x with
  | ok a =>
    constructor
    · exact fun _ => failsOnly_ok a
    · exact fun _ => ⟨_, rfl⟩
  | error e =>
    rw [failsOnly_error]
    unfold absorb Error.IsAbsorbed
    dsimp only
    split <;> simp_all

/-- Questions about an address that can be used are answered exactly if the path is not barred. -/
theorem questions_total_iff (usable : address.Usable) (s : Store) (root : Option NodeId)
    (args : List Value) (kind : Kind) (required : Option Kind) (default : Value) :
    ((∃ found, s.resolve root address args = .ok found) ↔ ¬ Barred root address args) ∧
    ((∃ found, s.resolveForWrite root address args = .ok found) ↔ ¬ Barred root address args) ∧
    ((∃ found, s.lookup root required address args = .ok found) ↔ ¬ Barred root address args) ∧
    ((∃ v, s.scalar root kind default address args = .ok v) ↔ ¬ Barred root address args) ∧
    ((∃ n, s.listSize root address args = .ok n) ↔ ¬ Barred root address args) ∧
    ((∃ b, s.hasKey root address args = .ok b) ↔ ¬ Barred root address args) := by
  by_cases h : Barred root address args
  · obtain ⟨hfind, hwrite⟩ := find_of_barred (s := s) h
    have hresolve : s.resolve root address args = .error (.text .tooManyDigits) := by
      rw [resolve, hfind]; rfl
    have hresolveForWrite : s.resolveForWrite root address args =
        .error (.text .tooManyDigits) := by
      rw [resolveForWrite, hwrite]
      rfl
    have hlookup : ∀ kind, s.lookup root kind address args = .error (.text .tooManyDigits) := by
      intro kind
      rw [lookup, hfind]
      rfl
    simp [h, hresolve, hresolveForWrite, hlookup, scalar, listSize, hasKey, bind, Except.bind]
  · obtain ⟨hfind, hwrite⟩ := find_fails (s := s) usable h
    obtain ⟨place, hresolveForWrite⟩ := exists_absorb_iff.mpr hwrite
    simp only [h, not_false_iff, iff_true]
    cases hfound : s.find root address args with
    | ok n =>
      refine ⟨⟨_, resolve_of_find hfound⟩, ⟨place, hresolveForWrite⟩, ?_,
        ⟨_, scalar_of_find hfound kind default⟩, ⟨_, listSize_of_find hfound⟩,
        ⟨_, hasKey_of_find hfound⟩⟩
      cases required with
      | none => exact ⟨_, lookup_of_find hfound⟩
      | some expected => exact ⟨_, lookup_kind_of_find hfound expected⟩
    | error e =>
      have absorbed := hfind e hfound
      exact ⟨⟨_, resolve_of_error hfound absorbed⟩, ⟨place, hresolveForWrite⟩,
        ⟨_, lookup_of_error hfound absorbed required⟩,
        ⟨_, scalar_of_error hfound absorbed kind default⟩, ⟨_, listSize_of_error hfound absorbed⟩,
        ⟨_, hasKey_of_error hfound absorbed⟩⟩

theorem slot_fails (usable : address.Usable) (h : ¬ address.Unwritable) (s : Store) (id : NodeId) :
    FailsOnly Error.IsAbsorbed (s.slot id address) := by
  have hwrite : FailsOnly Error.IsAbsorbed (s.findForWrite (some id) address []) :=
    (find_fails usable fun hbarred => h hbarred.2.2).2
  cases address with
  | unusable v => exact absurd rfl (usable v)
  | omitted => exact failsOnly_ok _
  | text template => exact hwrite.bind fun _ _ => failsOnly_ok _
  | path segments => exact hwrite.bind fun _ _ => failsOnly_ok _

theorem slot_of_unwritable (h : address.Unwritable) (s : Store) (id : NodeId) :
    s.slot id address = .error (.text .tooManyDigits) := by
  have hbarred : Barred (some id) address [] := ⟨rfl, rfl, h⟩
  have hwrite := (find_of_barred (s := s) hbarred).2
  obtain ⟨segments, n, rfl, -⟩ := h
  simp [slot, hwrite, bind, Except.bind]

/-- A tree is put, or refused a place, exactly if the path can be written. -/
theorem insert_total_iff (usable : address.Usable) (s : Store) (id : NodeId) (t : Tree) :
    (∃ placed, s.insert id address t = .ok placed) ↔ ¬ address.Unwritable := by
  constructor
  · rintro ⟨placed, hplaced⟩ hunwritable
    simp [insert, slot_of_unwritable hunwritable, Error.category, Category.isFailure,
      Category.isCaughtAs] at hplaced
  · intro h
    unfold insert
    cases hslot : s.slot id address with
    | ok place =>
      dsimp only
      split
      · exact ⟨_, rfl⟩
      · exact ⟨_, rfl⟩
    | error e =>
      have habsorbed := slot_fails usable h s id e hslot
      simp only [Error.IsAbsorbed, List.mem_cons, List.not_mem_nil, or_false] at habsorbed
      rcases habsorbed with hc | hc | hc | hc
      all_goals
        simp only [hc]
        exact ⟨_, rfl⟩

end Store

def Error.IsTypeOrLimit (e : Error) : Prop :=
  e.category = .fault .type ∨ e.category = .failure .limitExceeded

namespace Tree

theorem ofNumber_fails (v : Value) : FailsOnly Error.IsTypeOrLimit (ofNumber v) := by
  unfold ofNumber
  split
  · exact (ofReal_fails _).imp fun _ => Or.inr
  · exact failsOnly_error.mpr (Or.inl rfl)

theorem ofString_fails (v : Value) : FailsOnly Error.IsTypeOrLimit (ofString v) := by
  unfold ofString
  split
  · split
    · exact failsOnly_error.mpr (Or.inr rfl)
    · exact failsOnly_ok _
  · exact failsOnly_error.mpr (Or.inl rfl)

theorem ofBoolean_fails (v : Value) :
    FailsOnly (fun e => e.category = .fault .type) (ofBoolean v) := by
  unfold ofBoolean
  split
  · exact failsOnly_ok _
  · exact failsOnly_error.mpr rfl

end Tree

namespace Content

/-- The errors that putting content answers with nothing: those of type for truth values, of an
exceeded limit as well for numbers and texts, and all of type or value for what is converted. -/
def Rejects (content : Content) (e : Error) : Prop :=
  match content with
  | .emptyList | .emptyLevel => False
  | .number _ | .string _ => e.IsTypeOrLimit
  | .boolean _ => e.category = .fault .type
  | .setting d =>
    match d.root with
    | .boolean _ => e.category = .fault .type
    | .text _ => e.IsTypeOrLimit
    | v => if v.real?.isSome then e.IsTypeOrLimit else e.IsRefusal

/-- The tree of content fails with nothing but what putting it answers with nothing. -/
theorem tree_fails (content : Content) : FailsOnly content.Rejects content.tree := by
  cases content with
  | emptyList | emptyLevel => exact failsOnly_ok _
  | number v => exact Tree.ofNumber_fails v
  | string v => exact Tree.ofString_fails v
  | boolean v => exact Tree.ofBoolean_fails v
  | setting d =>
    simp only [Content.tree, Tree.ofSetting]
    split
    · exact failsOnly_ok _
    · next hroot =>
      intro e h
      simp only [Rejects, hroot]
      exact Tree.ofString_fails _ e h
    · next hboolean htext =>
      have hrejects : (Content.setting d).Rejects =
          fun e => if d.root.real?.isSome then e.IsTypeOrLimit else e.IsRefusal := by
        funext e
        cases hroot : d.root with
        | boolean b => exact absurd hroot (hboolean b)
        | text s => exact absurd hroot (htext s)
        | _ => simp only [Rejects, hroot]
      rw [hrejects]
      split
      · next hreal => simpa [hreal] using Tree.ofNumber_fails d.root
      · next hreal => simpa [hreal] using d.toTree_refuses

end Content

namespace Workspace

/-- Content is put, or not put, exactly if there is no root, no tree to put, or the path can be
written. -/
theorem put_total_iff {address : Address} (usable : address.Usable) (w : Workspace) (start : Start)
    (content : Content) : (∃ placed, w.put start address content = .ok placed) ↔
      ¬ (Store.Barred (w.root start) address [] ∧ ∃ t, content.tree = .ok t) := by
  unfold put
  cases hroot : w.root start with
  | none => simp [Store.Barred]
  | some root =>
    cases htree : content.tree with
    | error e => simp
    | ok t =>
      have hinsert := Store.insert_total_iff usable w.store root t
      have hbarred : (Store.Barred (some root) address [] ∧ ∃ u,
          (.ok t : Except Error Tree) = .ok u) ↔
          address.Unwritable := by
        simp [Store.Barred]
      rw [hbarred, ← hinsert]
      cases hins : w.store.insert root address t with
      | error e => simp [hins, bind, Except.bind]
      | ok placed => simp [hins, bind, Except.bind, pure, Except.pure]

/-- Every question and every addition answers, whatever the node, the address that can be used, the
arguments, the default and the content, exactly unless there is a node to start from, no argument is
given, and the address is an explicit path with a position of so many digits that it cannot be
written. Additions then answer only if the content is refused; and content is refused for nothing
but what its operation answers with nothing. -/
theorem accessors_total_iff {address : Address} (usable : address.Usable) (w : Workspace) :
    (∀ (root : Option NodeId) (args : List Value) (kind : Kind) (required : Option Kind)
      (default : Value),
      ((∃ found, w.store.resolve root address args = .ok found) ↔
        ¬ Store.Barred root address args) ∧
      ((∃ found, w.store.resolveForWrite root address args = .ok found) ↔
        ¬ Store.Barred root address args) ∧
      ((∃ found, w.store.lookup root required address args = .ok found) ↔
        ¬ Store.Barred root address args) ∧
      ((∃ v, w.store.scalar root kind default address args = .ok v) ↔
        ¬ Store.Barred root address args) ∧
      ((∃ n, w.store.listSize root address args = .ok n) ↔ ¬ Store.Barred root address args) ∧
      ((∃ b, w.store.hasKey root address args = .ok b) ↔ ¬ Store.Barred root address args)) ∧
    ∀ (start : Start) (content : Content),
      ((∃ placed, w.put start address content = .ok placed) ↔
        ¬ (Store.Barred (w.root start) address [] ∧ ∃ t, content.tree = .ok t)) ∧
      FailsOnly content.Rejects content.tree := by
  constructor
  · intro root args kind required default
    exact Store.questions_total_iff usable w.store root args kind required default
  · intro start content
    exact ⟨put_total_iff usable w start content, content.tree_fails⟩

/-- A path through a list answers although nothing is there, and although what is put is no
number. -/
theorem accessors_total_iff_missing :
    let w := (fresh .empty).after (.convert (.ofValue (.list [])))
    let address := Address.path [.index 3, .key "a"]
    address.Usable ∧ (∃ found, w.store.resolve (some 0) address [] = .ok found) ∧
      ∃ placed, w.put (.node 0) address (.number (.text "a")) = .ok placed := by
  intro w address
  have usable : address.Usable := nofun
  have hsmall : 3 < 10 ^ maxDigits :=
    Nat.lt_of_lt_of_le (by decide : 3 < 10 ^ 1) (Nat.pow_le_pow_right (by decide) (by decide))
  have hopen : ¬ Store.Barred (some 0) address [] := by
    rintro ⟨-, -, segments, n, hpath, hmem, hlarge⟩
    obtain rfl : [.index 3, .key "a"] = segments := Address.path.inj hpath
    obtain rfl : n = 3 := by simpa using hmem
    exact Nat.not_le.mpr hsmall hlarge
  obtain ⟨questions, additions⟩ := accessors_total_iff usable w
  refine ⟨usable, (questions (some 0) [] .number none .null).1.mpr hopen, ?_⟩
  exact (additions (.node 0) (.number (.text "a"))).1.mpr fun hbarred => hopen hbarred.1

/-- The position 10 ^ 4300 stops every question and every addition with an error that none of them
absorbs. -/
theorem accessors_total_iff_hugePosition :
    let w := (fresh .empty).after (.convert (.ofValue (.list [])))
    let address := Address.path [.index (10 ^ maxDigits)]
    w.Reached ∧ address.Usable ∧ (∃ t, w.tree (.node 0) = some t) ∧
      w.store.resolve (some 0) address [] = .error (.text .tooManyDigits) ∧
      w.store.resolveForWrite (some 0) address [] = .error (.text .tooManyDigits) ∧
      w.store.lookup (some 0) none address [] = .error (.text .tooManyDigits) ∧
      w.put (.node 0) address .emptyList = .error (.text .tooManyDigits) := by
  intro w address
  have reached : w.Reached := .step (.fresh .empty) _ trivial
  have hunwritable : address.Unwritable := ⟨_, _, rfl, List.mem_cons_self, Nat.le_refl _⟩
  have hbarred : Store.Barred (some 0) address [] := ⟨rfl, rfl, hunwritable⟩
  obtain ⟨hfind, hwrite⟩ := Store.find_of_barred (s := w.store) hbarred
  refine ⟨reached, nofun, ⟨_, rfl⟩, ?_, ?_, ?_, ?_⟩
  · rw [Store.resolve, hfind]
    rfl
  · rw [Store.resolveForWrite, hwrite]
    rfl
  · rw [Store.lookup, hfind]
    rfl
  · have hslot := Store.slot_of_unwritable hunwritable w.store 0
    simp only [put, root, Content.tree, Store.insert, hslot]
    rfl

end Workspace

end Grove
