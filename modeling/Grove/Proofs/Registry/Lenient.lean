import Grove.Proofs.Backend.Basic
import Grove.Proofs.Registry.Listing
import Grove.Proofs.Tree.Refusal

/-!
# What escapes a lenient registry

A lenient registry answers the failures of the library with nothing. Other errors are handed on: a
home directory that is not there, a path that is too long, one that no bytes stand for where it is
listed, a file that its encoding fails on in a way of its own, and a scalar of YAML without the form
for its tag. Loading and listing end well exactly if none of them is met.
-/
namespace Grove

namespace Category

/-- The categories of errors that parsing puts down to the content, or that are failures already. -/
def isCaught (c : Category) : Bool :=
  c.isFailure || c.isContentFault

/-- The categories of errors with which a text of JSON or YAML is rejected. -/
def isRejection : Category → Bool
  | .failure .backendFailure | .fault .overflow | .fault .recursion => true
  | _ => false

theorem isCaught_of_isRejection {c : Category} (h : c.isRejection = true) : c.isCaught = true := by
  cases c with
  | failure => rfl
  | unclassified => cases h
  | fault general => cases general <;> first | rfl | cases h

theorem isCaught_of_isFailure {c : Category} (h : c.isFailure = true) : c.isCaught = true := by
  rw [isCaught, h, Bool.true_or]

end Category

theorem Error.IsRefusal.isCaught {e : Error} (h : e.IsRefusal) : e.category.isCaught = true := by
  unfold Error.IsRefusal at h
  cases hc : e.category with
  | failure | unclassified => rfl
  | fault general =>
    simp only [hc, Category.isCaughtAs, decide_eq_true_eq] at h
    rcases h with rfl | rfl <;> rfl

namespace Backend

variable {b : Backend} {text : Text} {host : Host} {config : StorageConfig}
  {file : Location}

theorem build_refuses (d : Document) : FailsOnly Error.IsRefusal (build d) := by
  unfold build
  split
  · exact failsOnly_ok _
  · exact d.toTree_refuses

/-- Parsing turns into failures of the library whatever it catches. -/
theorem parse_fails (h : FailsOnly (fun e => e.category.isCaught = true) (b.load text)) :
    FailsOnly (fun e => e.category.isFailure = true) (b.parse text) := by
  have hboth : FailsOnly (fun e => e.category.isCaught = true) (do build (← b.load text)) :=
    h.bind fun d _ => (build_refuses d).imp fun _ => Error.IsRefusal.isCaught
  intro e he
  cases hresult : (do build (← b.load text)) with
  | ok t =>
    rw [parse, hresult] at he
    cases he
  | error cause =>
    have hcaught : cause.category.isCaught = true := hboth cause hresult
    rw [parse_of_error hresult] at he
    cases he
    rw [recast]
    split
    · rfl
    · next hcontent =>
      rw [Bool.not_eq_true] at hcontent
      rwa [Category.isCaught, hcontent, Bool.or_false] at hcaught

/-- An error that parsing does not catch goes through. -/
theorem parse_eq_error {e : Error} (hload : b.load text = .error e)
    (h : e.category.isCaught = false) :
    b.parse text = .error e := by
  have hboth : (do build (← b.load text)) = .error e := by
    rw [hload]
    rfl
  have hcontent : e.category.isContentFault = false := (Bool.or_eq_false_iff.mp h).2
  rw [parse_of_error hboth, recast, hcontent]
  rfl

theorem isCaught_yamlForm (fault : Yaml.FormFault) :
    (Error.yamlForm fault).category.isCaught = false := by
  cases fault <;> rfl

/-- A text of JSON or YAML that is not loaded is rejected, or a scalar of YAML in it has not the
form for its tag. -/
theorem load_fails (hb : b = json ∨ b = yaml) (text : Text) :
    FailsOnly (fun e => e.category.isRejection = true ∨ ∃ fault, e = .yamlForm fault)
      (b.load text) := by
  intro e he
  rcases hb with rfl | rfl
  · cases hread : (Json.read text.toList).map Document.ofValue with
    | ok d => simp [json, hread, Except.mapError] at he
    | error fault =>
      obtain rfl : jsonError fault = e := by simpa [json, hread, Except.mapError] using he
      cases fault <;> exact Or.inl rfl
  · cases hread : Yaml.read text.toList with
    | ok d => simp [yaml, hread, Except.mapError] at he
    | error fault =>
      obtain rfl : yamlError fault = e := by simpa [yaml, hread, Except.mapError] using he
      cases fault with
      | malformed | range => exact Or.inl rfl
      | form fault => exact Or.inr ⟨fault, rfl⟩

/-- The encoding of a file fails on it in no way of its own, and every scalar of YAML in it has the
form for its tag. -/
structure Legible (b : Backend) (host : Host) (config : StorageConfig)
    (file : Location) : Prop where
  decoded : ∀ reason, readText host config file ≠ .error (.undecoded reason)
  formed : ∀ text fault, readText host config file = .ok text →
    b.load text ≠ .error (.yamlForm fault)

theorem readText_fails (encoding : (host.codecs config.encoding).isSome = true) :
    FailsOnly (fun e => e.category.isFailure = true ∨ ∃ reason, e = .undecoded reason)
      (readText host config file) := by
  intro e he
  unfold readText at he
  split at he
  · next hnone =>
    rw [hnone] at encoding
    cases encoding
  · split at he
    · cases he
    · split at he
      · cases he
        exact Or.inl rfl
      · cases he
        exact Or.inr ⟨_, rfl⟩

/-- A file is read and parsed with a tree or a failure of the library exactly if it is legible. -/
theorem fails_iff_legible (hb : b = json ∨ b = yaml)
    (encoding : (host.codecs config.encoding).isSome = true) :
    FailsOnly (fun e => e.category.isFailure = true) (readText host config file >>= b.parse) ↔
      b.Legible host config file := by
  constructor
  · intro h
    constructor
    · intro reason hread
      have hfailure := h (.undecoded reason) (by rw [hread]; rfl)
      cases hfailure
    · intro text fault hread hload
      have hparse := parse_eq_error hload (isCaught_yamlForm fault)
      have hfailure := Category.isCaught_of_isFailure
        (h (.yamlForm fault) (by rw [hread]; exact hparse))
      rw [isCaught_yamlForm] at hfailure
      cases hfailure
  · rintro ⟨decoded, formed⟩
    refine .bind ?_ fun text hread => parse_fails fun e hload => ?_
    · intro e hread
      rcases readText_fails encoding e hread with hfailure | ⟨reason, rfl⟩
      · exact hfailure
      · exact absurd hread (decoded reason)
    · rcases load_fails hb text e hload with rejected | ⟨fault, rfl⟩
      · exact Category.isCaught_of_isRejection rejected
      · exact absurd hload (formed text fault hread)

end Backend

namespace Registry

variable {r : Registry} {host : Host} {config : StorageConfig} {storage : Text}

theorem exists_settle_iff {α : Type} (lenient : r.strict = false) {x : Except Error α} :
    (∃ settled, r.settle x = .ok settled) ↔ FailsOnly (fun e => e.category.isFailure = true) x := by
  cases x with
  | ok a =>
    constructor
    · exact fun _ => failsOnly_ok a
    · exact fun _ => ⟨_, rfl⟩
  | error e =>
    rw [failsOnly_error]
    cases h : e.category.isFailure
    · simp [settle, h]
    · simp [settle, h, lenient]

/-- What it takes for a registry of JSON and YAML to end loading from a storage path with a tree or
a failure of the library. -/
structure Settles (r : Registry) (host : Host) (config : StorageConfig) (storage : Text)
    (l : Location) : Prop where
  placed : config.resolve host storage = .ok l
  short : ∀ place, r.LooksAt host.files storage l place → ¬ host.files.TooLong place
  legible : ∀ b file, r.Finds host config storage b file → b.Legible host config file

theorem fails_iff_settles (formats : ∀ e ∈ r.backends, e.2 = .json ∨ e.2 = .yaml)
    (encoding : (host.codecs config.encoding).isSome = true) (hne : r.backends ≠ [])
    (short : storage.length ≤ maxPathLength) :
    FailsOnly (fun e => e.category.isFailure = true)
        (r.parseStorage host config storage .unspecified) ↔
      ∃ l, r.Settles host config storage l := by
  cases hl : config.resolve host storage with
  | error e =>
    rw [parseStorage_of_no_location hl hne short, failsOnly_error]
    have hother : e.category.isFailure = false := config.resolve_fails host storage e hl
    constructor
    · intro hfailure
      rw [hfailure] at hother
      cases hother
    · rintro ⟨l, hsettles⟩
      cases hl.symm.trans hsettles.placed
  | ok l =>
    by_cases hlong : ∃ place, r.LooksAt host.files storage l place ∧ host.files.TooLong place
    · obtain ⟨place, hlooks, hlong⟩ := hlong
      rw [hlooks.parseStorage_eq hl hlong short, failsOnly_error]
      refine iff_of_false Bool.false_ne_true ?_
      rintro ⟨l', hsettles⟩
      cases hl.symm.trans hsettles.placed
      exact hsettles.short place hlooks hlong
    have hshort : ∀ place, r.LooksAt host.files storage l place → ¬ host.files.TooLong place :=
      fun place hlooks hplace => hlong ⟨place, hlooks, hplace⟩
    by_cases hfinds : ∃ b file, r.Finds host config storage b file
    · obtain ⟨b, file, hfinds⟩ := hfinds
      obtain ⟨entry, hmem, rfl⟩ := hfinds.mem_backends
      rw [hfinds.parseStorage_eq short, Backend.fails_iff_legible (formats entry hmem) encoding]
      constructor
      · intro hlegible
        refine ⟨l, hl, hshort, ?_⟩
        intro b' file' hfinds'
        obtain ⟨rfl, rfl⟩ := hfinds.unique hfinds'
        exact hlegible
      · rintro ⟨l', hsettles⟩
        exact hsettles.legible _ _ hfinds
    · have hnone : ∀ b file, ¬ r.Finds host config storage b file :=
        fun b file h => hfinds ⟨b, file, h⟩
      have hsettles : ∃ l, r.Settles host config storage l :=
        ⟨l, hl, hshort, fun b file h => absurd h (hnone b file)⟩
      refine iff_of_true ?_ hsettles
      rcases parseStorage_cause hl short hnone with herror | ⟨name, herror⟩ | hcause
      · rw [herror]
        exact failsOnly_error.mpr rfl
      · rw [herror]
        exact failsOnly_error.mpr rfl
      · exact absurd hcause hlong

/-- A lenient registry over JSON and YAML loads a tree or nothing, and lists names, exactly if none
of the errors is met that are no failures of the library. -/
theorem lenient_outcome (lenient : r.strict = false)
    (formats : ∀ e ∈ r.backends, e.2 = .json ∨ e.2 = .yaml)
    (encoding : (host.codecs config.encoding).isSome = true) (storage : Text) :
    ((∃ loaded, r.loadStorage host config storage .unspecified = .ok loaded) ↔
      r.backends = [] ∨ maxPathLength < storage.length ∨ ∃ l, r.Settles host config storage l) ∧
    ((∃ names, r.listEntries host config storage = .ok names) ↔
      r.backends = [] ∨ ∃ l path, config.resolve host storage = .ok l ∧ l.bytes = .ok path) := by
  refine ⟨?_, exists_listEntries_iff⟩
  rw [loadStorage, exists_settle_iff lenient]
  by_cases long : maxPathLength < storage.length
  · have hparse : r.parseStorage host config storage .unspecified =
        .error .storageTooLong := if_pos long
    rw [hparse, failsOnly_error]
    exact iff_of_true rfl (Or.inr (Or.inl long))
  by_cases hempty : r.backends = []
  · have hparse : r.parseStorage host config storage .unspecified =
        .error (.noneHandles storage) := by
      rw [parseStorage, if_neg long]
      simp [selectForPath, hempty, finder?, bind, Except.bind, pure, Except.pure]
    rw [hparse, failsOnly_error]
    exact iff_of_true rfl (Or.inl hempty)
  simp only [hempty, long, false_or,
    fails_iff_settles formats encoding hempty (Nat.le_of_not_lt long)]

/-- A file that is not text in its encoding, and a directory with it, escape nowhere. -/
theorem lenient_outcome_undecodable :
    let host := Host.ofFiles (.ofPaths [] [("a.json", .file [255])])
    let config := StorageConfig.standard host.files
    (∃ loaded, (jsonFirst none false).loadStorage host config "a.json" .unspecified = .ok loaded) ∧
      ∃ names, (jsonFirst none false).listEntries host config "." = .ok names := by
  intro host config
  have formats : ∀ e ∈ (jsonFirst none false).backends, e.2 = .json ∨ e.2 = .yaml := by
    simp [jsonFirst]
  have encoding : (host.codecs config.encoding).isSome = true := by rfl
  have outcome := lenient_outcome (r := jsonFirst none false) rfl formats encoding
  constructor
  · have hl : config.resolve host "a.json" = .ok ⟨.root, ["a.json"]⟩ := by rfl
    have hfinds : (jsonFirst none false).Finds host config "a.json" .json ⟨.root, ["a.json"]⟩ :=
      ⟨by rfl, by rfl⟩
    refine (outcome "a.json").1.mpr (Or.inr (Or.inr ⟨_, hl, ?_, ?_⟩))
    · intro place hlooks hlong
      exact hlooks.not_finds hl hlong hfinds
    · intro b file h
      obtain ⟨rfl, rfl⟩ := hfinds.unique h
      have hread : Backend.readText host config ⟨.root, ["a.json"]⟩ = .error (.unreadable "/a.json"
          "'utf-8' codec can't decode byte 0xff in position 0: invalid start byte") := by rfl
      constructor
      · simp [hread]
      · simp [hread]
  · exact (outcome ".").2.mpr (Or.inr ⟨⟨.root, []⟩, _, by rfl, by rfl⟩)

set_option maxRecDepth 2048 in
/-- An account that is not there, a name that is too long, a null character, a surrogate that stands
for no byte, and a missing mark escape a lenient registry. -/
theorem lenient_outcome_escapes :
    let r := jsonFirst none false
    let host := Host.ofFiles (.ofPaths [] [("a.json", .file [123, 125])])
    let config := StorageConfig.standard host.files
    let name : Text := .ofList (List.replicate 256 (CodePoint.scalar 'a'))
    r.loadStorage host config "~nosuchuser/a" .unspecified = .error .noHome ∧
      r.listEntries host config "~nosuchuser" = .error .noHome ∧
      r.loadStorage host config name .unspecified = .error (.nameTooLong ("/" ++ name)) ∧
      r.listEntries host config "a\x00b" = .error .nullInPath ∧
      r.listEntries host config (.ofList [.surrogate ⟨0, by decide⟩]) =
        .error (.unencodable ⟨1, 2, 0xD800⟩) ∧
      r.loadStorage host { config with encoding := "utf-16" } "a.json" .unspecified =
        .error (.undecoded "UTF-16 stream does not start with BOM") := by
  refine ⟨?_, ?_, ?_, ?_, ?_, ?_⟩
  · rfl
  · rfl
  · rfl
  · rfl
  · rfl
  · rfl

end Registry

end Grove
