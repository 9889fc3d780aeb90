import Grove.Backend.Json
import Grove.Backend.Yaml
import Grove.Proofs.Storage.Config
import Grove.Proofs.Storage.FileSystem
import Grove.Registry

/-!
# Which backend and which file a storage path leads to

A backend looks for the file behind a location at a few places, one after the other. A registry
picks the first backend that claims the suffix of the path, and only if there is none the first that
finds a file with a suffix of its own. What a registry loads is what the backend that it picks
parses from the file that this backend finds. Without such a file loading ends in a failure of the
library, unless it has looked at a place whose path is too long.
-/
namespace Grove

namespace Backend

variable (b : Backend) (fs : FileSystem)

/-- The first place with a file. -/
def found? (l : Location) : Except Error (Option Location) :=
  (b.candidates l).findM? fs.isFile

/-- A backend comes to look at a place. -/
def LooksAt (l place : Location) : Prop :=
  ComesTo (fs.isFile · = .ok false) (b.candidates l) place

/-- A backend finds a file with a suffix of its own. -/
def Hits (l : Location) : Prop :=
  ∃ file, b.found? fs l = .ok (some file) ∧ b.claims file = true

/-- A backend finds no file, or one whose suffix is not its own. -/
def Misses (l : Location) : Prop :=
  ∃ found, b.found? fs l = .ok found ∧ found.any b.claims = false

variable {b fs} {host : Host} {config : StorageConfig} {storage : Text}
  {l file : Location} {e : Error}

theorem locate_of_resolve (hl : config.resolve host storage = .ok l) :
    b.locate host config storage = b.found? host.files l := by
  rw [locate, hl]
  rfl

theorem locate_of_resolve_error (hl : config.resolve host storage = .error e) :
    b.locate host config storage = .error e := by
  rw [locate, hl]
  rfl

theorem found?_eq_some_iff :
    b.found? fs l = .ok (some file) ↔ b.LooksAt fs l file ∧ fs.isFile file = .ok true :=
  findM?_eq_some_iff

theorem found?_eq_error_iff :
    b.found? fs l = .error e ↔ ∃ place, b.LooksAt fs l place ∧ fs.isFile place = .error e :=
  findM?_eq_error_iff

theorem found?_cases (h : b.found? fs l = .ok (some file)) :
    file = l ∨ ∃ s ∈ b.suffixes, l.name ≠ "" ∧ file = l.addSuffix s := by
  rcases List.mem_cons.mp (found?_eq_some_iff.mp h).1.mem with rfl | hmem
  · exact Or.inl rfl
  · split at hmem
    · cases hmem
    · next hname =>
      obtain ⟨s, hs, rfl⟩ := List.mem_map.mp hmem
      exact Or.inr ⟨s, hs, hname, rfl⟩

end Backend

namespace Registry

def jsonFirst (config : Option ConfigId) (strict : Bool) : Registry :=
  ⟨[("json", .json), ("yaml", .yaml)], config, strict⟩

theorem ofBackends_json_yaml (config : Option ConfigId) (strict : Bool) :
    ofBackends [.json, .yaml] config strict = .ok (jsonFirst config strict) := by
  rfl

/-! ### Failures of selection -/

def IsUnavailable (e : Error) : Prop :=
  e.category = .failure .backendUnavailable

theorem get_fails (r : Registry) (name : Text) : FailsOnly IsUnavailable (r.get name) := by
  unfold get
  split
  · exact failsOnly_ok _
  · exact failsOnly_error.mpr rfl

theorem choose_fails (r : Registry) (choice : BackendChoice) :
    FailsOnly IsUnavailable (r.choose choice) := by
  cases choice with
  | given b => exact failsOnly_ok b
  | named name => exact r.get_fails name
  | unspecified =>
    rw [choose]
    split
    · exact failsOnly_ok _
    · exact failsOnly_error.mpr rfl

theorem selectForString_fails (r : Registry) (text : Text) :
    FailsOnly IsUnavailable (r.selectForString text) := by
  unfold selectForString
  split
  · exact failsOnly_ok _
  · exact failsOnly_error.mpr rfl

/-! ### Storage -/

variable {r : Registry} {host : Host} {config : StorageConfig} {storage : Text} {b : Backend}
  {l file : Location}

section Finder

variable (hl : config.resolve host storage = .ok l)

include hl

theorem ifFinds_of_resolve (b : Backend) : ifFinds host config storage b =
    (b.found? host.files l).map fun found => if found.any b.claims then some b else none := by
  rw [ifFinds, Backend.locate_of_resolve hl]
  cases b.found? host.files l <;> rfl

theorem ifFinds_eq_none_iff : ifFinds host config storage b = .ok none ↔ b.Misses host.files l := by
  rw [ifFinds_of_resolve hl, Backend.Misses]
  cases b.found? host.files l <;> simp [Except.map]

theorem ifFinds_eq_some_iff {b' : Backend} :
    ifFinds host config storage b = .ok (some b') ↔ b.Hits host.files l ∧ b = b' := by
  rw [ifFinds_of_resolve hl, Backend.Hits]
  rcases b.found? host.files l with e | _ | file <;> simp [Except.map]

theorem ifFinds_eq_error_iff {e : Error} :
    ifFinds host config storage b = .error e ↔ b.found? host.files l = .error e := by
  rw [ifFinds_of_resolve hl]
  cases b.found? host.files l <;> simp [Except.map]

theorem finder?_eq_none_iff :
    r.finder? host config storage = .ok none ↔ ∀ entry ∈ r.backends,
      entry.2.Misses host.files l := by
  simp only [finder?, findSomeM?_eq_none_iff, ifFinds_eq_none_iff hl]

theorem finder?_eq_some_iff : r.finder? host config storage = .ok (some b) ↔
    ∃ entry, ComesTo (·.2.Misses host.files l) r.backends entry ∧
      entry.2.Hits host.files l ∧ entry.2 = b := by
  simp only [finder?, findSomeM?_eq_some_iff, ifFinds_eq_none_iff hl, ifFinds_eq_some_iff hl]

theorem finder?_eq_error_iff {e : Error} : r.finder? host config storage = .error e ↔
    ∃ entry, ComesTo (·.2.Misses host.files l) r.backends entry ∧
      entry.2.found? host.files l = .error e := by
  simp only [finder?, findSomeM?_eq_error_iff, ifFinds_eq_none_iff hl, ifFinds_eq_error_iff hl]

end Finder

/-! ### Selection -/

/-- A backend is picked for the suffix of the path. -/
theorem selectForPath_of_handles {entry : Text × Backend}
    (h : r.backends.find? (·.2.handles storage) = some entry) :
    r.selectForPath host config storage = .ok entry.2 := by
  rw [selectForPath, h]

/-- If no backend claims the suffix of the path, one is picked for what it finds. -/
theorem selectForPath_of_not_handles (h : ∀ entry ∈ r.backends, entry.2.handles storage = false) :
    r.selectForPath host config storage = (r.finder? host config storage >>= fun
      | some b => .ok b
      | none => .error (.noneHandles storage)) := by
  have hnone : r.backends.find? (·.2.handles storage) = none := by simpa using h
  rw [selectForPath, hnone]
  rfl

/-- Either there is a first backend that claims the suffix of the path, or none claims it. -/
theorem handles_cases (r : Registry) (storage : Text) :
    (∃ entry, r.backends.find? (·.2.handles storage) = some entry) ∨
      ∀ entry ∈ r.backends, entry.2.handles storage = false := by
  cases h : r.backends.find? (·.2.handles storage) with
  | some entry => exact Or.inl ⟨entry, rfl⟩
  | none => exact Or.inr (by simpa using h)

/-- A registry comes to look at a place for a storage path with a location: by way of the backend
that claims the suffix of the path, or, if none does, by way of one after the other up to the first
that finds a file of its own. -/
def LooksAt (r : Registry) (fs : FileSystem) (storage : Text) (l place : Location) : Prop :=
  (∃ entry, r.backends.find? (·.2.handles storage) = some entry ∧ entry.2.LooksAt fs l place) ∨
    (∀ entry ∈ r.backends, entry.2.handles storage = false) ∧
      ∃ entry, ComesTo (·.2.Misses fs l) r.backends entry ∧ entry.2.LooksAt fs l place

/-- A storage path leads a registry to a backend, and this backend to a file. -/
structure Finds (r : Registry) (host : Host) (config : StorageConfig) (storage : Text) (b : Backend)
    (file : Location) : Prop where
  selected : r.selectForPath host config storage = .ok b
  located : b.locate host config storage = .ok (some file)

theorem Finds.exists_resolve (h : r.Finds host config storage b file) :
    ∃ l, config.resolve host storage = .ok l := by
  cases hl : config.resolve host storage with
  | ok l => exact ⟨l, rfl⟩
  | error e =>
    have hlocated := h.located
    rw [Backend.locate_of_resolve_error hl] at hlocated
    cases hlocated

/-- The backend that is picked, and why. -/
theorem finds_iff (hl : config.resolve host storage = .ok l) : r.Finds host config storage b file ↔
    b.found? host.files l = .ok (some file) ∧
      ((∃ entry, r.backends.find? (·.2.handles storage) = some entry ∧ entry.2 = b) ∨
        (∀ entry ∈ r.backends, entry.2.handles storage = false) ∧
          ∃ entry, ComesTo (·.2.Misses host.files l) r.backends entry ∧ entry.2.Hits host.files l ∧
            entry.2 = b) := by
  have hfinds : r.Finds host config storage b file ↔
      b.found? host.files l = .ok (some file) ∧ r.selectForPath host config storage = .ok b := by
    rw [← Backend.locate_of_resolve hl]
    exact ⟨fun h => ⟨h.located, h.selected⟩, fun h => ⟨h.2, h.1⟩⟩
  rw [hfinds, and_congr_right_iff]
  intro _
  rcases r.handles_cases storage with ⟨entry, hentry⟩ | hnone
  · have hhandles : ¬ ∀ entry ∈ r.backends, entry.2.handles storage = false := by
      intro hnone
      have hself := hnone entry (List.mem_of_find?_eq_some hentry)
      have hclaims : entry.2.handles storage = true := by simpa using List.find?_some hentry
      rw [hself] at hclaims
      cases hclaims
    simp only [selectForPath_of_handles hentry, hentry, hhandles, false_and,
      or_false, Except.ok.injEq, Option.some.injEq, exists_eq_left']
  · have hfind : r.backends.find? (·.2.handles storage) = none := by simpa using hnone
    rw [selectForPath_of_not_handles hnone, ← finder?_eq_some_iff hl]
    simp only [hfind, reduceCtorEq, false_and, exists_false, false_or, and_iff_right hnone]
    rcases r.finder? host config storage with e | _ | b' <;> simp [bind, Except.bind]

theorem Finds.mem_backends (h : r.Finds host config storage b file) :
    ∃ entry ∈ r.backends, entry.2 = b := by
  obtain ⟨l, hl⟩ := h.exists_resolve
  rcases ((finds_iff hl).mp h).2 with ⟨entry, hentry, rfl⟩ | ⟨-, entry, hentry, -, rfl⟩
  · exact ⟨entry, List.mem_of_find?_eq_some hentry, rfl⟩
  · exact ⟨entry, hentry.mem, rfl⟩

theorem Finds.unique {b' : Backend} {file' : Location} (h : r.Finds host config storage b file)
    (h' : r.Finds host config storage b' file') : b = b' ∧ file = file' := by
  obtain rfl : b = b' := Except.ok.inj (h.selected.symm.trans h'.selected)
  refine ⟨rfl, ?_⟩
  simpa using h.located.symm.trans h'.located

/-! ### Loading -/

/-- What is loaded from a storage path with a file behind it is what is parsed from the file. -/
theorem Finds.parseStorage_eq (h : r.Finds host config storage b file)
    (short : storage.length ≤ maxPathLength) :
    r.parseStorage host config storage .unspecified =
      Backend.readText host config file >>= b.parse := by
  have hparse : b.parseStorage host config storage =
      Backend.readText host config file >>= b.parse := by
    rw [Backend.parseStorage, h.located]
    rfl
  rw [parseStorage, if_neg (Nat.not_lt.mpr short)]
  simp only [h.selected, hparse, bind, Except.bind]

/-- If a registry comes to look at a place whose path is too long, loading ends there. -/
theorem LooksAt.parseStorage_eq {place : Location} (hl : config.resolve host storage = .ok l)
    (h : r.LooksAt host.files storage l place) (long : host.files.TooLong place)
    (short : storage.length ≤ maxPathLength) :
    r.parseStorage host config storage .unspecified = .error (.nameTooLong place.text) := by
  have herror : host.files.isFile place = .error (.nameTooLong place.text) :=
    FileSystem.isFile_eq_error_iff.mpr ⟨long, rfl⟩
  rw [parseStorage, if_neg (Nat.not_lt.mpr short)]
  rcases h with ⟨entry, hentry, hlooks⟩ | ⟨hnone, entry, hcomes, hlooks⟩
  · have hlocate := Backend.locate_of_resolve (b := entry.2) hl
    rw [Backend.found?_eq_error_iff.mpr ⟨place, hlooks, herror⟩] at hlocate
    simp [selectForPath_of_handles hentry, Backend.parseStorage, hlocate, bind, Except.bind]
  · have hfinder := (finder?_eq_error_iff hl).mpr
      ⟨entry, hcomes, Backend.found?_eq_error_iff.mpr ⟨place, hlooks, herror⟩⟩
    simp [selectForPath_of_not_handles hnone, hfinder, bind, Except.bind]

/-- Then it is led to no file. -/
theorem LooksAt.not_finds {place : Location} (hl : config.resolve host storage = .ok l)
    (h : r.LooksAt host.files storage l place) (long : host.files.TooLong place) :
    ¬ r.Finds host config storage b file := by
  have herror : host.files.isFile place = .error (.nameTooLong place.text) :=
    FileSystem.isFile_eq_error_iff.mpr ⟨long, rfl⟩
  intro hfinds
  rcases h with ⟨entry, hentry, hlooks⟩ | ⟨hnone, entry, hcomes, hlooks⟩
  · have hfound := Backend.found?_eq_error_iff.mpr ⟨place, hlooks, herror⟩
    have hlocated := hfinds.located
    cases hfinds.selected.symm.trans (selectForPath_of_handles hentry)
    rw [Backend.locate_of_resolve hl, hfound] at hlocated
    cases hlocated
  · have hfinder := (finder?_eq_error_iff hl).mpr
      ⟨entry, hcomes, Backend.found?_eq_error_iff.mpr ⟨place, hlooks, herror⟩⟩
    have hselected := hfinds.selected
    rw [selectForPath_of_not_handles hnone, hfinder] at hselected
    cases hselected

/-- Where nothing is found for a storage path that has a location, no backend is picked for it, or
the one that is picked finds nothing, or a place was looked at whose path is too long. -/
theorem parseStorage_cause (hl : config.resolve host storage = .ok l)
    (short : storage.length ≤ maxPathLength)
    (hnone : ∀ b file, ¬ r.Finds host config storage b file) :
    r.parseStorage host config storage .unspecified = .error (.noneHandles storage) ∨
      (∃ name, r.parseStorage host config storage .unspecified = .error (.noStorage name l.text)) ∨
      ∃ place, r.LooksAt host.files storage l place ∧ host.files.TooLong place := by
  rcases r.handles_cases storage with ⟨entry, hentry⟩ | hhandles
  · have hlocate := Backend.locate_of_resolve (b := entry.2) hl
    rcases hfound : entry.2.found? host.files l with e | _ | file
    · obtain ⟨place, hlooks, herror⟩ := Backend.found?_eq_error_iff.mp hfound
      exact Or.inr (Or.inr ⟨place, Or.inl ⟨entry, hentry, hlooks⟩,
        (FileSystem.isFile_eq_error_iff.mp herror).1⟩)
    · refine Or.inr (Or.inl ⟨entry.2.name, ?_⟩)
      rw [parseStorage, if_neg (Nat.not_lt.mpr short)]
      simp [selectForPath_of_handles hentry, Backend.parseStorage, hlocate, hfound, hl,
        bind, Except.bind]
    · exact absurd ((finds_iff hl).mpr ⟨hfound, Or.inl ⟨entry, hentry, rfl⟩⟩) (hnone entry.2 file)
  · rcases hfinder : r.finder? host config storage with e | _ | b
    · obtain ⟨entry, hcomes, hfound⟩ := (finder?_eq_error_iff hl).mp hfinder
      obtain ⟨place, hlooks, herror⟩ := Backend.found?_eq_error_iff.mp hfound
      have hlooksAt : r.LooksAt host.files storage l place :=
        Or.inr ⟨hhandles, entry, hcomes, hlooks⟩
      exact Or.inr (Or.inr ⟨place, hlooksAt, (FileSystem.isFile_eq_error_iff.mp herror).1⟩)
    · left
      rw [parseStorage, if_neg (Nat.not_lt.mpr short)]
      simp [selectForPath_of_not_handles hhandles, hfinder, bind, Except.bind]
    · obtain ⟨entry, hcomes, ⟨file, hfound, hclaims⟩, rfl⟩ := (finder?_eq_some_iff hl).mp hfinder
      have hfinds := (finds_iff hl).mpr
        ⟨hfound, Or.inr ⟨hhandles, entry, hcomes, ⟨file, hfound, hclaims⟩, rfl⟩⟩
      exact absurd hfinds (hnone entry.2 file)

/-- If a storage path has no location, a registry that has backends says why. -/
theorem parseStorage_of_no_location {e : Error} (hl : config.resolve host storage = .error e)
    (hne : r.backends ≠ []) (short : storage.length ≤ maxPathLength) :
    r.parseStorage host config storage .unspecified = .error e := by
  rw [parseStorage, if_neg (Nat.not_lt.mpr short)]
  rcases r.handles_cases storage with ⟨entry, hentry⟩ | hnone
  · simp [selectForPath_of_handles hentry, Backend.parseStorage, Backend.locate_of_resolve_error hl,
      bind, Except.bind]
  · have hfinder : r.finder? host config storage = .error e := by
      cases hbackends : r.backends with
      | nil => exact absurd hbackends hne
      | cons entry rest =>
        simp [finder?, hbackends, ifFinds, Backend.locate_of_resolve_error hl, bind, Except.bind]
    simp [selectForPath_of_not_handles hnone, hfinder, bind, Except.bind]

end Registry

end Grove
