import Grove.Proofs.Registry.Directory

/-!
# Which file is read

The backend for a storage path and the file behind it are looked for one after the other, the file a
second time by the backend that was picked. Still a file is read only by a backend that claims its
suffix: either the path has the suffix already, and then so has its location, or the suffix was
added, or it was looked at when the backend was picked. A path whose last name starts with a tilde
is the exception, since a home directory takes the place of that name.
-/
namespace Grove

namespace Backend

variable {b : Backend} {host : Host} {config : StorageConfig} {storage : Text} {l file : Location}

theorem WellSuffixed.name_ne (h : b.WellSuffixed) (claimed : b.claims l = true) : l.name ≠ "" := by
  intro hempty
  have hsuffix := h.suffix_ne claimed
  rw [hempty] at hsuffix
  exact hsuffix rfl

/-- A backend that claims the suffix of a path claims that of its location. -/
theorem WellSuffixed.claims_of_handles (h : b.WellSuffixed)
    (hl : config.resolve host storage = .ok l)
    (plain : (Location.ofText storage).name.toList.head? ≠ some (CodePoint.scalar '~'))
    (handles : b.handles storage = true) : b.claims l = true := by
  rw [claims_eq_of_name (StorageConfig.name_of_resolve hl (h.name_ne handles) plain)]
  exact handles

end Backend

namespace Registry

variable {r : Registry} {host : Host} {config : StorageConfig} {storage : Text} {b : Backend}
  {l file : Location}

/-- The file that is found by the backend that is picked has a suffix of this backend. -/
theorem Finds.claims (suffixed : ∀ e ∈ r.backends, e.2.WellSuffixed)
    (hl : config.resolve host storage = .ok l)
    (plain : (Location.ofText storage).name.toList.head? ≠ some (CodePoint.scalar '~'))
    (h : r.Finds host config storage b file) : b.claims file = true := by
  obtain ⟨hfound, ⟨e, he, rfl⟩ | ⟨-, e, -, ⟨file', hfound', hclaims⟩, rfl⟩⟩ := (finds_iff hl).mp h
  · have hsuffixed := suffixed e (List.mem_of_find?_eq_some he)
    have hhandles : e.2.handles storage = true := by simpa using List.find?_some he
    rcases Backend.found?_cases hfound with rfl | ⟨s, hs, hname, rfl⟩
    · exact hsuffixed.claims_of_handles hl plain hhandles
    · exact (hsuffixed.cut hs hname).1
  · cases hfound.symm.trans hfound'
    exact hclaims

/-- No backend in front of the one that is picked claims the path, and if none at all does, then
none in front of it finds a file with a suffix of its own. -/
theorem Finds.first (hl : config.resolve host storage = .ok l)
    (h : r.Finds host config storage b file) :
    ∃ front name back, r.backends = front ++ (name, b) :: back ∧
      (∀ e ∈ front, e.2.handles storage = false) ∧
      ((∀ e ∈ r.backends, e.2.handles storage = false) → ∀ e ∈ front, e.2.Misses host.files l) := by
  obtain ⟨-, ⟨⟨name, b⟩, he, rfl⟩ | ⟨hnone, ⟨name, b⟩, hcomes, -, rfl⟩⟩ := (finds_iff hl).mp h
  · obtain ⟨hhandles, front, back, hbackends, hearlier⟩ := List.find?_eq_some_iff_append.mp he
    refine ⟨front, name, back, hbackends, by simpa using hearlier, ?_⟩
    intro hnone
    rw [hnone _ (List.mem_of_find?_eq_some he)] at hhandles
    cases hhandles
  · obtain ⟨front, back, hbackends, hmisses⟩ := hcomes
    refine ⟨front, name, back, hbackends, ?_, fun _ => hmisses⟩
    intro e he
    exact hnone e (hbackends ▸ List.mem_append_left _ he)

/-- A registry gets as far as reading a file for a storage path, with the backend that it picked. -/
structure Reads (r : Registry) (host : Host) (config : StorageConfig) (storage : Text) (b : Backend)
    (file : Location) : Prop where
  short : storage.length ≤ maxPathLength
  finds : r.Finds host config storage b file

/-- What there is to say of a file that is read for a storage path with a location, and of the
backend. -/
structure Rightful (r : Registry) (host : Host) (config : StorageConfig) (storage : Text)
    (l : Location) (b : Backend) (file : Location) : Prop where
  /-- The file lies at the location, or in the same directory under the last name with a suffix of
  the backend. -/
  place : file = l ∨
    ∃ s ∈ b.suffixes, l.name ≠ "" ∧ file = ⟨l.anchor, l.names.dropLast ++ [l.name ++ s]⟩
  present : host.files.isFile file = .ok true
  claimed : file.suffix.lower ∈ b.suffixes
  /-- No backend registered earlier claims the suffix of the path. If none at all does, then what an
  earlier one finds, if it finds anything, has not a suffix of its own. -/
  first : ∃ front name back, r.backends = front ++ (name, b) :: back ∧
    (∀ e ∈ front, e.2.handles storage = false) ∧
    ((∀ e ∈ r.backends, e.2.handles storage = false) → ∀ e ∈ front,
      ∃ found, e.2.locate host config storage = .ok found ∧
        ∀ place, found = some place → place.suffix.lower ∉ e.2.suffixes)

theorem Finds.rightful (suffixed : ∀ e ∈ r.backends, e.2.WellSuffixed)
    (hl : config.resolve host storage = .ok l)
    (plain : (Location.ofText storage).name.toList.head? ≠ some (CodePoint.scalar '~'))
    (h : r.Finds host config storage b file) : r.Rightful host config storage l b file where
  place := Backend.found?_cases ((finds_iff hl).mp h).1
  present := (Backend.found?_eq_some_iff.mp ((finds_iff hl).mp h).1).2
  claimed := Backend.claims_iff.mp (h.claims suffixed hl plain)
  first := by
    obtain ⟨front, name, back, hbackends, hearlier, hmisses⟩ := h.first hl
    refine ⟨front, name, back, hbackends, hearlier, ?_⟩
    intro hnone e he
    obtain ⟨found, hfound, hunclaimed⟩ := hmisses hnone e he
    refine ⟨found, (Backend.locate_of_resolve hl).trans hfound, ?_⟩
    rintro place rfl hmem
    rw [Option.any_some, Backend.claims_iff.mpr hmem] at hunclaimed
    cases hunclaimed

/-- Why no file is read for a storage path, told by the error that loading ends with. -/
inductive Unread (r : Registry) (host : Host) (config : StorageConfig) (storage : Text) :
    Error → Prop where
  | long : maxPathLength < storage.length → Unread r host config storage .storageTooLong
  | unhandled : Unread r host config storage (.noneHandles storage)
  | unplaced {e : Error} : config.resolve host storage = .error e → Unread r host config storage e
  | missing {l : Location} (name : Text) : config.resolve host storage = .ok l →
      Unread r host config storage (.noStorage name l.text)
  | overlong {l place : Location} : config.resolve host storage = .ok l →
      r.LooksAt host.files storage l place → host.files.TooLong place →
      Unread r host config storage (.nameTooLong place.text)

theorem parseStorage_of_not_reads (hnone : ∀ b file, ¬ r.Reads host config storage b file) :
    ∃ e, r.parseStorage host config storage .unspecified = .error e ∧
      r.Unread host config storage e := by
  by_cases long : maxPathLength < storage.length
  · exact ⟨.storageTooLong, if_pos long, .long long⟩
  have short : storage.length ≤ maxPathLength := Nat.le_of_not_lt long
  cases hl : config.resolve host storage with
  | error e =>
    by_cases hbackends : r.backends = []
    · refine ⟨.noneHandles storage, ?_, .unhandled⟩
      rw [parseStorage, if_neg long]
      simp [selectForPath, hbackends, finder?, bind, Except.bind, pure, Except.pure]
    · exact ⟨e, parseStorage_of_no_location hl hbackends short, .unplaced hl⟩
  | ok l =>
    rcases parseStorage_cause hl short fun b file h => hnone b file ⟨short, h⟩ with
      hunhandled | ⟨name, hmissing⟩ | ⟨place, hlooks, hlong⟩
    · exact ⟨_, hunhandled, .unhandled⟩
    · exact ⟨_, hmissing, .missing name hl⟩
    · exact ⟨_, hlooks.parseStorage_eq hl hlong short, .overlong hl hlooks hlong⟩

/-- Take a registry of backends with well-formed suffixes, and a storage path whose last name does
not start with a tilde. If loading from the path without a backend being asked for gets as far as
reading a file, then this file lies at the location of the path or beside it with a suffix added,
its suffix in small letters is one of the backend that reads it, and no backend registered earlier
was entitled to be picked; what is loaded is what the backend makes of the text of the file.
Otherwise loading fails before any file is read. -/
theorem reads_only_claimed (suffixed : ∀ e ∈ r.backends, e.2.WellSuffixed)
    (plain : (Location.ofText storage).name.toList.head? ≠ some (CodePoint.scalar '~'))
    (host : Host) (config : StorageConfig) :
    (∀ b file, r.Reads host config storage b file →
      (∃ l, config.resolve host storage = .ok l ∧ r.Rightful host config storage l b file) ∧
      r.loadStorage host config storage .unspecified =
        r.settle (Backend.readText host config file >>= b.parse)) ∧
    ((∀ b file, ¬ r.Reads host config storage b file) →
      ∃ e, r.loadStorage host config storage .unspecified = r.settle (.error e) ∧
        r.Unread host config storage e) := by
  constructor
  · rintro b file ⟨short, finds⟩
    obtain ⟨l, hl⟩ := finds.exists_resolve
    refine ⟨⟨l, hl, finds.rightful suffixed hl plain⟩, ?_⟩
    rw [loadStorage, finds.parseStorage_eq short]
  · intro hnone
    obtain ⟨e, herror, hcause⟩ := parseStorage_of_not_reads hnone
    exact ⟨e, by rw [loadStorage, herror], hcause⟩

/-- A path with the suffix of a backend, a way up and a slash at its end is read by this backend
from the file that has the suffix once more, although a backend that was registered earlier would
find a file of its own. The way leads above the base, which is not the present directory. -/
theorem reads_only_claimed_twice :
    let r : Registry := made none true [.register .yaml false, .register .json false]
    let host := Host.ofFiles (.ofPaths [] [("d/a.JSON.yml", .file [91, 93]),
      ("d/a.JSON.json", .file [123, 125])])
    let config : StorageConfig := ⟨⟨.root, ["d"]⟩, "utf-8", 2⟩
    let file : Location := ⟨.root, ["d", "..", "d", "a.JSON.json"]⟩
    (∀ e ∈ r.backends, e.2.WellSuffixed) ∧
      (Location.ofText "../d/./a.JSON/").name.toList.head? ≠ some (CodePoint.scalar '~') ∧
      r.Reads host config "../d/./a.JSON/" .json file ∧
      (∃ l, config.resolve host "../d/./a.JSON/" = .ok l ∧
        r.Rightful host config "../d/./a.JSON/" l .json file) ∧
      r.loadStorage host config "../d/./a.JSON/" .unspecified =
        r.settle (Backend.readText host config file >>= Backend.json.parse) := by
  intro r host config file
  have suffixed : ∀ e ∈ r.backends, e.2.WellSuffixed := by
    have hbackends : r.backends = [(Text.lit "yaml", .yaml), ("json", .json)] := by rfl
    intro e he
    rw [hbackends] at he
    simp only [List.mem_cons, List.not_mem_nil, or_false] at he
    rcases he with rfl | rfl
    · exact Backend.wellSuffixed_yaml
    · exact Backend.wellSuffixed_json
  have plain : (Location.ofText "../d/./a.JSON/").name.toList.head? ≠
      some (CodePoint.scalar '~') := by decide
  have located : Backend.json.locate host config "../d/./a.JSON/" = .ok (some file) := by rfl
  have reads : r.Reads host config "../d/./a.JSON/" .json file := ⟨by decide, by rfl, located⟩
  exact ⟨suffixed, plain, reads, (reads_only_claimed suffixed plain host config).1 _ _ reads⟩

end Registry

end Grove
