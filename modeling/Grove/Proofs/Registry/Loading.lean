import Grove.Proofs.Document.Conversion
import Grove.Proofs.Json.Grounding
import Grove.Proofs.Registry.Lenient
import Grove.Proofs.Yaml.Grounding

/-!
# The errors of loading a text

A strict registry over JSON and YAML fails to load a text in one of three ways: there is no backend
for it, a limit is exceeded, or the text or what it holds is not fit for a tree. Which of them it is
depends on nothing but the backend, whether that reads the text, and the first fault of what it
reads.
-/
namespace Grove

namespace Error

/-- The fault of a key that is too long or of a number out of range. -/
def IsOverLimit (e : Error) : Prop :=
  (∃ fault, e = .numberRange fault) ∨ ∃ length, e = .keyTooLong length

/-- The fault of a value of a type that no tree has, of a container inside itself, or of a key that
has no text since it is a whole number of too many digits. -/
def IsUnfit (e : Error) : Prop :=
  (∃ typeName, e = .inconvertible typeName) ∨ (∃ kind, e = .selfReferencing kind) ∨
    e = .text .tooManyDigits

end Error

namespace Backend

variable {b : Backend} {text : Text} {d : Document} {e : Error} {kind kind' : ErrorKind}

def Fails (b : Backend) (text : Text) (kind : ErrorKind) : Prop :=
  ∃ e, b.parse text = .error e ∧ e.category = .failure kind

/-- A text is read into a document that is not empty, and this is its first fault. -/
def FirstFault (b : Backend) (text : Text) (e : Error) : Prop :=
  ∃ d, b.load text = .ok d ∧ d.root ≠ .null ∧ d.FirstFault e

theorem Fails.unique (h : b.Fails text kind) (h' : b.Fails text kind') : kind = kind' := by
  obtain ⟨e, hparse, hkind⟩ := h
  obtain ⟨e', hparse', hkind'⟩ := h'
  rw [hparse] at hparse'
  cases hparse'
  rw [hkind] at hkind'
  exact Category.failure.inj hkind'

theorem Fails.ne_ok (h : b.Fails text kind) (t : Tree) : b.parse text ≠ .ok t := by
  obtain ⟨e, hparse, -⟩ := h
  rw [hparse]
  nofun

theorem grounded_load (hb : b = json ∨ b = yaml) (h : b.load text = .ok d) :
    ∃ known, d.Grounded known := by
  rcases hb with rfl | rfl
  · cases hread : Json.read text.toList with
    | error fault => simp [json, hread, Except.map, Except.mapError] at h
    | ok v =>
      obtain rfl : Document.ofValue v = d := by
        simpa [json, hread, Except.map, Except.mapError] using h
      exact ⟨fun _ _ => False, Json.grounded_read hread, fun _ _ => False.elim⟩
  · cases hread : Yaml.read text.toList with
    | error fault => simp [yaml, hread, Except.mapError] at h
    | ok d' =>
      obtain rfl : d' = d := by simpa [yaml, hread, Except.mapError] using h
      exact Yaml.grounded_read hread

/-! ### What comes of a text -/

theorem parse_of_build_error (h : b.load text = .ok d) (he : build d = .error e) :
    b.parse text = .error (b.recast e) := by
  apply parse_of_error
  rw [h]
  exact he

theorem parse_of_null (h : b.load text = .ok d) (hnull : d.root = .null) :
    b.parse text = .ok (.level []) := by
  rw [parse_eq_ok_iff h, build, hnull]

/-- What a text is rejected with is a failure of the backend, once it has been recast. -/
theorem category_recast (rejected : e.category.isRejection = true) :
    (b.recast e).category = .failure .backendFailure := by
  unfold recast
  split
  · rfl
  · next hcontent =>
    generalize e.category = c at rejected hcontent
    cases c with
    | failure kind => cases kind <;> first | rfl | cases rejected
    | unclassified => cases rejected
    | fault general => cases general <;> first | exact absurd rfl hcontent | cases rejected

theorem fails_of_rejected (hb : b = json ∨ b = yaml)
    (formed : ∀ fault, b.load text ≠ .error (.yamlForm fault)) (h : b.load text = .error e) :
    b.Fails text .backendFailure := by
  have hparse : b.parse text = .error (b.recast e) := by
    apply parse_of_error
    rw [h]
    rfl
  refine ⟨_, hparse, ?_⟩
  rcases load_fails hb text e h with rejected | ⟨fault, rfl⟩
  · exact category_recast rejected
  · exact absurd h (formed fault)

theorem exists_parse_of_acceptable (hb : b = json ∨ b = yaml) (h : b.load text = .ok d)
    (acceptable : d.Acceptable) : ∃ t, b.parse text = .ok t := by
  obtain ⟨known, grounded⟩ := grounded_load hb h
  obtain ⟨t, ht⟩ := (Document.exists_toTree_iff grounded.wellFormed).mpr acceptable
  exact ⟨t, (parse_eq_ok_iff h).mpr ((build_of_ne_null acceptable.root_ne_null).trans ht)⟩

/-- What parsing fails with is the first fault, recast as any error is. -/
theorem parse_of_firstFault (hb : b = json ∨ b = yaml) (h : b.FirstFault text e) :
    b.parse text = .error (b.recast e) := by
  obtain ⟨d, hload, hnull, hfirst⟩ := h
  obtain ⟨known, grounded⟩ := grounded_load hb hload
  have htree := (Document.toTree_eq_error_iff grounded.wellFormed).mpr hfirst
  exact parse_of_build_error hload ((build_of_ne_null hnull).trans htree)

theorem fails_of_overLimit (hb : b = json ∨ b = yaml) (h : b.FirstFault text e)
    (limit : e.IsOverLimit) :
    b.Fails text .limitExceeded := by
  have hparse := parse_of_firstFault hb h
  rcases limit with ⟨fault, rfl⟩ | ⟨length, rfl⟩
  · exact ⟨_, hparse, rfl⟩
  · exact ⟨_, hparse, rfl⟩

theorem fails_of_unfit (hb : b = json ∨ b = yaml) (h : b.FirstFault text e) (unfit : e.IsUnfit) :
    b.Fails text .backendFailure := by
  have hparse := parse_of_firstFault hb h
  rcases unfit with ⟨typeName, rfl⟩ | ⟨kind, rfl⟩ | rfl
  · exact ⟨_, hparse, rfl⟩
  · exact ⟨_, hparse, rfl⟩
  · exact ⟨_, hparse, rfl⟩

section

variable (hb : b = json ∨ b = yaml) (formed : ∀ fault, b.load text ≠ .error (.yamlForm fault))

include hb formed

/-- What comes of a text, with what the text is like. -/
theorem parse_cases :
    ((∃ t, b.parse text = .ok t) ∧ ∃ d, b.load text = .ok d ∧ (d.root = .null ∨ d.Acceptable)) ∨
      (b.Fails text .limitExceeded ∧ ∃ e, b.FirstFault text e ∧ e.IsOverLimit) ∨
      (b.Fails text .backendFailure ∧
        ((∃ e, b.load text = .error e) ∨ ∃ e, b.FirstFault text e ∧ e.IsUnfit)) := by
  cases hload : b.load text with
  | error e => exact Or.inr (Or.inr ⟨fails_of_rejected hb formed hload, Or.inl ⟨e, rfl⟩⟩)
  | ok d =>
    obtain ⟨known, grounded⟩ := grounded_load hb hload
    by_cases hnull : d.root = .null
    · exact Or.inl ⟨⟨_, parse_of_null hload hnull⟩, d, rfl, Or.inl hnull⟩
    · by_cases acceptable : d.Acceptable
      · exact Or.inl ⟨exists_parse_of_acceptable hb hload acceptable, d, rfl, Or.inr acceptable⟩
      · obtain ⟨e, hfirst⟩ := Document.exists_firstFault grounded.wellFormed acceptable
        have hfault : b.FirstFault text e := ⟨d, hload, hnull, hfirst⟩
        rcases grounded.firstFault_cases hfirst with limit | unfit
        · exact Or.inr (Or.inl ⟨fails_of_overLimit hb hfault limit, e, hfault, limit⟩)
        · exact Or.inr (Or.inr ⟨fails_of_unfit hb hfault unfit, Or.inr ⟨e, hfault, unfit⟩⟩)

theorem exists_parse_iff :
    (∃ t, b.parse text = .ok t) ↔ ∃ d, b.load text = .ok d ∧ (d.root = .null ∨ d.Acceptable) := by
  constructor
  · rintro ⟨t, ht⟩
    rcases parse_cases hb formed with ⟨-, hload⟩ | ⟨fails, -⟩ | ⟨fails, -⟩
    · exact hload
    · exact absurd ht (fails.ne_ok t)
    · exact absurd ht (fails.ne_ok t)
  · rintro ⟨d, hload, hnull | acceptable⟩
    · exact ⟨_, parse_of_null hload hnull⟩
    · exact exists_parse_of_acceptable hb hload acceptable

theorem fails_limitExceeded_iff :
    b.Fails text .limitExceeded ↔ ∃ e, b.FirstFault text e ∧ e.IsOverLimit := by
  constructor
  · intro h
    rcases parse_cases hb formed with ⟨⟨t, ht⟩, -⟩ | ⟨-, hfault⟩ | ⟨fails, -⟩
    · exact absurd ht (h.ne_ok t)
    · exact hfault
    · cases h.unique fails
  · rintro ⟨e, hfault, limit⟩
    exact fails_of_overLimit hb hfault limit

theorem fails_backendFailure_iff : b.Fails text .backendFailure ↔
    (∃ e, b.load text = .error e) ∨ ∃ e, b.FirstFault text e ∧ e.IsUnfit := by
  constructor
  · intro h
    rcases parse_cases hb formed with ⟨⟨t, ht⟩, -⟩ | ⟨fails, -⟩ | ⟨-, hfault⟩
    · exact absurd ht (h.ne_ok t)
    · cases h.unique fails
    · exact hfault
  · rintro (⟨e, hload⟩ | ⟨e, hfault, unfit⟩)
    · exact fails_of_rejected hb formed hload
    · exact fails_of_unfit hb hfault unfit

theorem not_fails_backendUnavailable : ¬ b.Fails text .backendUnavailable := by
  intro h
  rcases parse_cases hb formed with ⟨⟨t, ht⟩, -⟩ | ⟨fails, -⟩ | ⟨fails, -⟩
  · exact h.ne_ok t ht
  · cases h.unique fails
  · cases h.unique fails

end

end Backend

namespace Registry

variable {r : Registry} {text : Text} {choice : BackendChoice} {b : Backend} {kind : ErrorKind}

/-- The backend that reads a text: the first one that accepts it, unless another one is asked
for. -/
def reader (r : Registry) (text : Text) (choice : BackendChoice) : Except Error Backend :=
  match choice with
  | .unspecified => r.selectForString text
  | choice => r.choose choice

def Fails (r : Registry) (text : Text) (choice : BackendChoice) (kind : ErrorKind) : Prop :=
  ∃ e, r.loadString (.text text) choice = .error e ∧ e.category = .failure kind

theorem parseString_eq : r.parseString text choice = r.reader text choice >>= fun b =>
    b.parse text := by
  cases choice <;> rfl

theorem settle_of_strict {α : Type} (strict : r.strict = true) (x : Except Error α) :
    r.settle x = x.map some := by
  cases x with
  | ok a => rfl
  | error e => simp [settle, strict, Except.map]

theorem loadString_of_reader (strict : r.strict = true) (h : r.reader text choice = .ok b) :
    r.loadString (.text text) choice = (b.parse text).map some := by
  rw [loadString, settle_of_strict strict, parseString_eq, h]
  rfl

theorem reader_fails (r : Registry) (text : Text) (choice : BackendChoice) :
    FailsOnly IsUnavailable (r.reader text choice) := by
  cases choice with
  | unspecified => exact r.selectForString_fails text
  | named name => exact r.choose_fails (.named name)
  | given b => exact r.choose_fails (.given b)

theorem reader_mem (formats : ∀ e ∈ r.backends, e.2 = .json ∨ e.2 = .yaml)
    (given : ∀ b, choice = .given b → b = .json ∨ b = .yaml) (h : r.reader text choice = .ok b) :
    b = .json ∨ b = .yaml := by
  cases choice with
  | given b' =>
    cases h
    exact given b rfl
  | named name =>
    have hget : r.get name = .ok b := h
    unfold get at hget
    split at hget
    · next hentry =>
      cases hget
      exact formats _ (Entries.mem_of_get? hentry)
    · cases hget
  | unspecified =>
    have hselect : r.selectForString text = .ok b := h
    unfold selectForString at hselect
    split at hselect
    · next hentry =>
      cases hselect
      exact formats _ (List.mem_of_find?_eq_some hentry)
    · cases hselect

theorem fails_iff (strict : r.strict = true) (h : r.reader text choice = .ok b) :
    r.Fails text choice kind ↔ b.Fails text kind := by
  rw [Fails, loadString_of_reader strict h]
  cases hparse : b.parse text with
  | ok t => simp [Backend.Fails, hparse, Except.map]
  | error e => simp [Backend.Fails, hparse, Except.map]

theorem fails_unavailable (strict : r.strict = true) (h : ∀ b, r.reader text choice ≠ .ok b) :
    r.Fails text choice .backendUnavailable := by
  cases hreader : r.reader text choice with
  | ok b => exact absurd hreader (h b)
  | error e =>
    refine ⟨e, ?_, r.reader_fails text choice e hreader⟩
    rw [loadString, settle_of_strict strict]
    simp only [parseString_eq, hreader]
    rfl

/-- What a strict registry over JSON and YAML does with a text is one of four things. It loads the
tree of what the selected backend reads, which is an empty level if that is nothing. It fails for
want of a backend exactly if none is selected; with an exceeded limit exactly if the backend reads
the text and the first fault in document order is a key that is too long or a number out of range;
and with a failure of the backend exactly if that rejects the text or the first fault is a value of
a type that no tree has, a container inside itself, or a key that is a whole number of more than
4300 digits, which has no text that could be too long. A scalar of YAML without the form for its tag
is left out. -/
theorem loading_errors_exact (strict : r.strict = true)
    (formats : ∀ e ∈ r.backends, e.2 = .json ∨ e.2 = .yaml)
    (given : ∀ b, choice = .given b → b = .json ∨ b = .yaml)
    (formed : ∀ b fault, r.reader text choice = .ok b → b.load text ≠ .error (.yamlForm fault)) :
    ((∃ t, r.loadString (.text text) choice = .ok (some t)) ∨
      r.Fails text choice .backendUnavailable ∨
      r.Fails text choice .limitExceeded ∨ r.Fails text choice .backendFailure) ∧
    ((∃ t, r.loadString (.text text) choice = .ok (some t)) ↔ ∃ b d, r.reader text choice = .ok b ∧
      b.load text = .ok d ∧ (d.root = .null ∨ d.Acceptable)) ∧
    (r.Fails text choice .backendUnavailable ↔ ∀ b, r.reader text choice ≠ .ok b) ∧
    (r.Fails text choice .limitExceeded ↔ ∃ b e, r.reader text choice = .ok b ∧
      b.FirstFault text e ∧ e.IsOverLimit) ∧
    (r.Fails text choice .backendFailure ↔ ∃ b, r.reader text choice = .ok b ∧
      ((∃ e, b.load text = .error e) ∨ ∃ e, b.FirstFault text e ∧ e.IsUnfit)) ∧
    ∀ b d, r.reader text choice = .ok b → b.load text = .ok d → d.root = .null →
      r.loadString (.text text) choice = .ok (some (.level [])) := by
  cases hreader : r.reader text choice with
  | error e =>
    obtain ⟨e', hload, hcategory⟩ : r.Fails text choice .backendUnavailable :=
      fails_unavailable strict (by simp [hreader])
    simp [Fails, hload, hcategory]
  | ok b =>
    have hb := reader_mem formats given hreader
    have hformed : ∀ fault, b.load text ≠ .error (.yamlForm fault) := fun fault =>
      formed b fault hreader
    have hload := loadString_of_reader strict hreader
    have hloads : (∃ t, r.loadString (.text text) choice = .ok (some t)) ↔ ∃ t,
        b.parse text = .ok t := by
      rw [hload]
      cases b.parse text <;> simp [Except.map]
    have hfails : ∀ kind, r.Fails text choice kind ↔ b.Fails text kind :=
      fun _ => fails_iff strict hreader
    simp only [hloads, hfails, Except.ok.injEq, exists_and_left, exists_eq_left']
    refine ⟨?_, Backend.exists_parse_iff hb hformed, ?_, Backend.fails_limitExceeded_iff hb hformed,
      Backend.fails_backendFailure_iff hb hformed, ?_⟩
    · rcases Backend.parse_cases hb hformed with ⟨hparse, -⟩ | ⟨limit, -⟩ | ⟨backend, -⟩
      · exact Or.inl hparse
      · exact Or.inr (Or.inr (Or.inl limit))
      · exact Or.inr (Or.inr (Or.inr backend))
    · exact iff_of_false (Backend.not_fails_backendUnavailable hb hformed) fun h => h b rfl
    · rintro _ d rfl hread hnull
      rw [hload, Backend.parse_of_null hread hnull]
      rfl

/-- A date is read by YAML, but no tree has one. -/
theorem loading_errors_exact_date :
    (jsonFirst none true).Fails "2020-01-01" .unspecified .backendFailure ∧
      Backend.yaml.FirstFault "2020-01-01" (.inconvertible "date") := by
  have formats : ∀ e ∈ (jsonFirst none true).backends, e.2 = .json ∨
      e.2 = .yaml := by simp [jsonFirst]
  have given : ∀ b, BackendChoice.unspecified = .given b → b = .json ∨ b = .yaml := by simp
  have hreader : (jsonFirst none true).reader "2020-01-01" .unspecified = .ok .yaml := by rfl
  have hload : Backend.yaml.load "2020-01-01" = .ok ⟨#[.null], .date 2020 1 1⟩ := by
    with_unfolding_all rfl
  have formed : ∀ b fault, (jsonFirst none true).reader "2020-01-01" .unspecified = .ok b →
      b.load "2020-01-01" ≠ .error (.yamlForm fault) := by
    intro b fault hb
    obtain rfl := Except.ok.inj (hreader.symm.trans hb)
    simp [hload]
  have hfault : Backend.yaml.FirstFault "2020-01-01" (.inconvertible "date") := by
    have hunsupported : ¬ (Value.date 2020 1 1).Supported := id
    exact ⟨_, hload, by simp, [], .unsupported hunsupported, fun q _ _ =>
      not_lt.mp (List.not_lt_nil q)⟩
  obtain ⟨-, -, -, -, hbackend, -⟩ := loading_errors_exact rfl formats given formed
  exact ⟨hbackend.mpr ⟨_, hreader, Or.inr ⟨_, hfault, Or.inl ⟨_, rfl⟩⟩⟩, hfault⟩

end Registry

end Grove
