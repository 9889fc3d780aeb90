import Grove.Proofs.Store.Resolution

/-!
# Diagnosis

A lookup tells why there is nothing to be found; the accessors only answer with the default. Both
come from one search for the node, and wherever the search fails in a way that they absorb, they
agree on what has failed.
-/
namespace Grove

namespace Error

/-- An error that looking for a node answers with nothing. -/
def IsAbsorbed (e : Error) : Prop :=
  e.category ∈ [.failure .pathNotFound, .failure .limitExceeded,
    .failure .typeMismatch, .fault .type]

/-- The kind of failure that an error is reported as: its own, if it has one. -/
def reported (e : Error) : ErrorKind :=
  e.kind?.getD .pathNotFound

theorem reported_of_type {e : Error} (h : e.category = .fault .type) :
    e.reported = .pathNotFound := by
  rw [reported, kind?, h]
  rfl

theorem reported_of_failure {e : Error} {kind : ErrorKind} (h : e.category = .failure kind) :
    e.reported = kind := by
  rw [reported, kind?, h]
  rfl

theorem IsAbsorbed.failure_or_type {e : Error} (h : e.IsAbsorbed) :
    e.category = .failure e.reported ∨ e.category = .fault .type := by
  simp only [IsAbsorbed, List.mem_cons, List.not_mem_nil, or_false] at h
  rcases h with h | h | h | h
  · exact Or.inl (reported_of_failure h ▸ h)
  · exact Or.inl (reported_of_failure h ▸ h)
  · exact Or.inl (reported_of_failure h ▸ h)
  · exact Or.inr h

/-- The error is not about the kind of a node, which no search looks at. -/
abbrev NoMismatch (e : Error) : Prop :=
  e.category ≠ .failure .typeMismatch

theorem IsAbsorbed.reported_ne {e : Error} (h : e.IsAbsorbed) (searched : e.NoMismatch) :
    e.reported ≠ .typeMismatch := by
  rcases h.failure_or_type with hcat | hcat
  · intro heq
    rw [heq] at hcat
    exact searched hcat
  · rw [reported_of_type hcat]
    exact nofun

theorem noMismatch_text (fault : TextFault) : (Error.text fault).NoMismatch := by
  cases fault <;> exact nofun

end Error

namespace Address

theorem noMismatch_ofDotted (text : Text) : FailsOnly Error.NoMismatch (Segment.ofDotted text) := by
  unfold Segment.ofDotted
  split
  · exact failsOnly_error.mpr nofun
  · split <;> exact failsOnly_ok _

theorem noMismatch_renderPath (template : Text) (args : List Value) :
    FailsOnly Error.NoMismatch (renderPath template args) := by
  unfold renderPath
  split
  · exact failsOnly_ok _
  · cases Template.render template args with
    | ok text => exact failsOnly_ok _
    | error fault => exact failsOnly_error.mpr nofun

theorem noMismatch_mapError_text {α : Type} (x : Except TextFault α) :
    FailsOnly Error.NoMismatch (x.mapError Error.text) := by
  cases x with
  | ok a => exact failsOnly_ok _
  | error fault => exact failsOnly_error.mpr (Error.noMismatch_text fault)

theorem noMismatch_pathSegments {text : Except Error Text} (h : FailsOnly Error.NoMismatch text)
    (segments : List Segment) (args : List Value) :
    FailsOnly Error.NoMismatch (pathSegments text segments args) := by
  unfold pathSegments
  split
  · refine h.bind fun text _ => ?_
    split
    · exact failsOnly_error.mpr nofun
    · exact failsOnly_ok _
  · exact failsOnly_error.mpr nofun

theorem noMismatch_renderValue (v : Value) (args : List Value) :
    FailsOnly Error.NoMismatch (renderValue v args) := by
  unfold renderValue
  split
  · exact failsOnly_ok _
  · split
    · exact (noMismatch_renderPath _ args).map Value.text
    · exact failsOnly_error.mpr (Error.noMismatch_text _)
    · exact failsOnly_error.mpr nofun
    · exact failsOnly_error.mpr nofun

theorem noMismatch_unusableSegments (v : Value) (args : List Value) :
    FailsOnly Error.NoMismatch (unusableSegments v args) := by
  refine (noMismatch_renderValue v args).bind fun v _ => ?_
  split
  · exact failsOnly_error.mpr nofun
  · split
    · exact failsOnly_error.mpr nofun
    · split
      · exact failsOnly_ok _
      · split
        · exact failsOnly_error.mpr nofun
        · exact failsOnly_error.mpr nofun

theorem noMismatch_segments (address : Address) (args : List Value) :
    FailsOnly Error.NoMismatch (address.segments args) := by
  unfold Address.segments
  split
  · exact (noMismatch_renderPath "" args).bind fun text _ => noMismatch_ofDotted text
  · next template => exact (noMismatch_renderPath template args).bind fun text _ =>
      noMismatch_ofDotted text
  · exact noMismatch_pathSegments (noMismatch_mapError_text _) _ args
  · exact noMismatch_pathSegments (noMismatch_mapError_text _) _ args
  · exact noMismatch_unusableSegments _ args

end Address

namespace Store

variable {s : Store} {root : Option NodeId} {address : Address} {args : List Value}

theorem noMismatch_find (s : Store) (root : Option NodeId) (address : Address) (args : List Value) :
    FailsOnly Error.NoMismatch (s.find root address args) := by
  cases root with
  | none => exact failsOnly_error.mpr nofun
  | some id =>
    refine (Address.noMismatch_segments address args).bind fun path _ => ?_
    intro e h
    rw [Error.NoMismatch, category_of_descend h]
    exact nofun

theorem absorb_of_error {α : Type} {e : Error} (h : e.IsAbsorbed) :
    absorb (α := α) (.error e) = .ok none := by
  simp only [Error.IsAbsorbed, List.mem_cons, List.not_mem_nil, or_false] at h
  rcases h with h | h | h | h <;> simp [absorb, h]

/-! ### Where the search finds a node -/

section

variable {n : Nat} (h : s.find root address args = .ok n)

include h

theorem lookup_of_find : s.lookup root none address args = .ok (.found n) := by
  rw [lookup, h]

theorem lookup_kind_of_find (kind : Kind) : s.lookup root (some kind) address args =
    .ok (if kind = (s.node n).kind then .found n
      else .failed .typeMismatch (Error.mismatch kind address.words (s.node n).kind).message) := by
  rw [lookup, h]
  by_cases hkind : kind = (s.node n).kind
  · simp [hkind]
  · simp [hkind]

end

/-! ### Where the search fails -/

section

variable {e : Error} (h : s.find root address args = .error e) (absorbed : e.IsAbsorbed)

include h absorbed

theorem lookup_of_error (kind : Option Kind) :
    s.lookup root kind address args = .ok (.failed e.reported e.message) := by
  rw [lookup, h]
  rcases absorbed.failure_or_type with hcat | hcat
  · simp [Error.kind?, hcat]
  · simp [Error.kind?, hcat, Error.reported_of_type hcat]

theorem resolve_of_error : s.resolve root address args = .ok none := by
  rw [resolve, h, absorb_of_error absorbed]

theorem hasKey_of_error : s.hasKey root address args = .ok false := by
  rw [hasKey, resolve_of_error h absorbed]
  rfl

theorem listSize_of_error : s.listSize root address args = .ok 0 := by
  rw [listSize, resolve_of_error h absorbed]
  rfl

theorem scalar_of_error (kind : Kind) (default : Value) :
    s.scalar root kind default address args = .ok default := by
  rw [scalar, lookup_of_error h absorbed]
  rfl

end

/-- Lookups for any kind and the questions whether there is a node, and which, are answered as the
search ends. -/
theorem answers_iff (h : FailsOnly Error.IsAbsorbed (s.find root address args)) :
    (∀ n, s.find root address args = .ok n ↔ s.lookup root none address args = .ok (.found n)) ∧
    (∀ n, s.find root address args = .ok n ↔ s.resolve root address args = .ok (some n)) ∧
    ((∃ n, s.find root address args = .ok n) ↔ s.hasKey root address args = .ok true) ∧
    ((∀ n, s.find root address args ≠ .ok n) ↔ s.hasKey root address args = .ok false) := by
  cases hfind : s.find root address args with
  | ok n => simp [lookup_of_find hfind, resolve_of_find hfind, hasKey_of_find hfind]
  | error e =>
    have absorbed := h e hfind
    simp [lookup_of_error hfind absorbed, resolve_of_error hfind absorbed,
      hasKey_of_error hfind absorbed]

/-- A lookup for a kind reports a mismatch exactly for a node of another kind. -/
theorem mismatch_iff (h : FailsOnly Error.IsAbsorbed (s.find root address args)) (kind : Kind) :
    (∃ message, s.lookup root (some kind) address args = .ok (.failed .typeMismatch message)) ↔
      ∃ n, s.find root address args = .ok n ∧ (s.node n).kind ≠ kind := by
  cases hfind : s.find root address args with
  | ok n =>
    rw [lookup_kind_of_find hfind]
    by_cases hkind : kind = (s.node n).kind
    · simp [hkind]
    · simp [hkind, Ne.symm hkind]
  | error e =>
    have absorbed := h e hfind
    have hne := absorbed.reported_ne (noMismatch_find s root address args e hfind)
    simp [lookup_of_error hfind absorbed, hne]

/-- A lookup for a kind finds a node exactly if the search does and the node is of this kind. -/
theorem lookup_found_iff (h : FailsOnly Error.IsAbsorbed (s.find root address args))
    (kind : Kind) (n : NodeId) :
    s.lookup root (some kind) address args = .ok (.found n) ↔
      s.find root address args = .ok n ∧ (s.node n).kind = kind := by
  cases hfind : s.find root address args with
  | ok m =>
    rw [lookup_kind_of_find hfind, Except.ok.injEq]
    by_cases hkind : kind = (s.node m).kind
    · rw [if_pos hkind, Lookup.found.injEq, Except.ok.injEq, iff_self_and]
      rintro rfl
      exact hkind.symm
    · rw [if_neg hkind]
      refine iff_of_false nofun ?_
      rintro ⟨hm, hn⟩
      cases hm
      exact hkind hn.symm
  | error e =>
    rw [lookup_of_error hfind (h e hfind)]
    exact iff_of_false nofun (fun found => nomatch found.1)

/-- A scalar accessor answers with the payload of the node that a lookup for its kind finds, else
with the default. -/
theorem scalar_eq (h : FailsOnly Error.IsAbsorbed (s.find root address args)) (kind : Kind)
    (default : Value) :
    (∀ n, s.lookup root (some kind) address args = .ok (.found n) →
      s.scalar root kind default address args = .ok (s.node n).payload) ∧
    ((∀ n, s.lookup root (some kind) address args ≠ .ok (.found n)) →
      s.scalar root kind default address args = .ok default) := by
  constructor
  · intro n hn
    obtain ⟨hfind, hkind⟩ := (lookup_found_iff h kind n).mp hn
    rw [scalar_of_find hfind, if_pos hkind.symm]
  · intro hnone
    cases hfind : s.find root address args with
    | ok n =>
      have hkind : kind ≠ (s.node n).kind := fun heq =>
        hnone n ((lookup_found_iff h kind n).mpr ⟨hfind, heq.symm⟩)
      rw [scalar_of_find hfind, if_neg hkind]
    | error e => exact scalar_of_error hfind (h e hfind) kind default

/-- The size of a list is that of the list that a lookup for lists finds, and else nothing. -/
theorem listSize_eq (h : FailsOnly Error.IsAbsorbed (s.find root address args)) :
    (∀ n, s.lookup root (some .list) address args = .ok (.found n) →
      s.listSize root address args = .ok (s.node n).children.length) ∧
    ((∀ n, s.lookup root (some .list) address args ≠ .ok (.found n)) →
      s.listSize root address args = .ok 0) := by
  constructor
  · intro n hn
    obtain ⟨hfind, hkind⟩ := (lookup_found_iff h .list n).mp hn
    rw [listSize_of_find hfind, if_pos hkind]
  · intro hnone
    cases hfind : s.find root address args with
    | ok n =>
      have hkind : (s.node n).kind ≠ .list := fun heq =>
        hnone n ((lookup_found_iff h .list n).mpr ⟨hfind, heq⟩)
      rw [listSize_of_find hfind, if_neg hkind]
    | error e => exact listSize_of_error hfind (h e hfind)

/-- A failed lookup unwraps to a failure of the class for the kind that it reports, whose wording is
the message. -/
theorem unwrap_of_failed {required : Option Kind} {kind : ErrorKind} {message : Text}
    (h : s.lookup root required address args = .ok (.failed kind message)) :
    (s.lookup root required address args >>= Lookup.unwrap) =
      .error (.raised kind.failureClass message) ∧
      (Error.raised kind.failureClass message).message = message := by
  rw [h]
  exact ⟨rfl, FailureClass.wording_eq _ _⟩

/-- Where the search for a node finds it, or fails with an error that is absorbed, the diagnosis and
the accessors agree with the search and with each other. A failed lookup unwraps to a failure of a
class whose kind is the reported one and whose wording is the message; these are the category and
the wording of the search's own error, but that something of the wrong type counts as a path that
leads nowhere. -/
theorem diagnosis_agrees (h : FailsOnly Error.IsAbsorbed (s.find root address args)) :
    (∀ n, s.find root address args = .ok n ↔ s.lookup root none address args = .ok (.found n)) ∧
    (∀ n, s.find root address args = .ok n ↔ s.resolve root address args = .ok (some n)) ∧
    ((∃ n, s.find root address args = .ok n) ↔ s.hasKey root address args = .ok true) ∧
    ((∀ n, s.find root address args ≠ .ok n) ↔ s.hasKey root address args = .ok false) ∧
    (∀ kind n, s.lookup root (some kind) address args = .ok (.found n) ↔
      s.find root address args = .ok n ∧ (s.node n).kind = kind) ∧
    (∀ kind, (∃ message, s.lookup root (some kind) address args =
      .ok (.failed .typeMismatch message)) ↔
      ∃ n, s.find root address args = .ok n ∧ (s.node n).kind ≠ kind) ∧
    (∀ kind default,
      (∀ n, s.lookup root (some kind) address args = .ok (.found n) →
        s.scalar root kind default address args = .ok (s.node n).payload) ∧
      ((∀ n, s.lookup root (some kind) address args ≠ .ok (.found n)) →
        s.scalar root kind default address args = .ok default)) ∧
    (∀ n, s.lookup root (some .list) address args = .ok (.found n) →
      s.listSize root address args = .ok (s.node n).children.length) ∧
    ((∀ n, s.lookup root (some .list) address args ≠ .ok (.found n)) →
      s.listSize root address args = .ok 0) ∧
    (∀ required kind message, s.lookup root required address args = .ok (.failed kind message) →
      ∃ failure : FailureClass, failure.kind = kind ∧
        (s.lookup root required address args >>= Lookup.unwrap) = .error (.raised failure message) ∧
        (Error.raised failure message).message = message) ∧
    ∀ e, s.find root address args = .error e →
      ∃ e', (s.lookup root none address args >>= Lookup.unwrap) = .error e' ∧
        e'.message = e.message ∧
        e'.category = if e.category = .fault .type then .failure .pathNotFound else e.category := by
  obtain ⟨found, resolved, there, absent⟩ := answers_iff h
  obtain ⟨sized, unsized⟩ := listSize_eq h
  refine ⟨found, resolved, there, absent, lookup_found_iff h, mismatch_iff h, scalar_eq h,
    sized, unsized, ?_, ?_⟩
  · intro required kind message hlookup
    obtain ⟨hunwrap, hmessage⟩ := unwrap_of_failed hlookup
    exact ⟨kind.failureClass, FailureClass.kind_failureClass kind, hunwrap, hmessage⟩
  · intro e hfind
    have absorbed := h e hfind
    obtain ⟨hunwrap, hmessage⟩ := unwrap_of_failed (lookup_of_error hfind absorbed none)
    refine ⟨_, hunwrap, hmessage, ?_⟩
    rw [Error.category, FailureClass.kind_failureClass]
    rcases absorbed.failure_or_type with hcat | hcat
    · rw [hcat]
      rfl
    · rw [if_pos hcat, Error.reported_of_type hcat]

/-- Arguments given along with an explicit path are something of the wrong type; a lookup reports a
path that leads nowhere, in the words of the search. -/
theorem diagnosis_agrees_arguments :
    let s : Store := ⟨#[.list []]⟩
    s.find (some 0) (.path []) [.null] = .error .argumentsToPath ∧
      s.hasKey (some 0) (.path []) [.null] = .ok false ∧
      ∃ e, (s.lookup (some 0) none (.path []) [.null] >>= Lookup.unwrap) = .error e ∧
        e.message = Error.argumentsToPath.message ∧ e.category = .failure .pathNotFound := by
  intro s
  have hfind : s.find (some 0) (.path []) [.null] = .error .argumentsToPath := rfl
  have absorbed : FailsOnly Error.IsAbsorbed (s.find (some 0) (.path []) [.null]) := by
    rw [hfind]
    exact failsOnly_error.mpr (by simp [Error.IsAbsorbed, Error.category])
  have agrees := diagnosis_agrees absorbed
  obtain ⟨-, -, -, hasKey, -, -, -, -, -, -, unwraps⟩ := agrees
  refine ⟨hfind, hasKey.mp ?_, unwraps _ hfind⟩
  intro n hn
  cases hn

end Store

end Grove
