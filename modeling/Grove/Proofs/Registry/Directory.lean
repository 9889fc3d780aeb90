import Grove.Proofs.Registry.Listing
import Grove.Proofs.Registry.Strictness
import Grove.Proofs.Tree.Entries

/-!
# What a registry lists

In a directory a registry lists, once each, what the names of files have in front of the suffixes of
its backends, whatever the case of the letters in these, with hidden files left out. Where there is
no directory nothing is listed. But a path is looked at before that: a home directory that is not
there, a null character and a surrogate that stands for no byte end the listing with an error, even
though nothing lies behind such a path.
-/
namespace Grove

namespace Backend

variable {b : Backend} {fs : FileSystem} {host : Host} {config : StorageConfig} {storage : Text}
  {l : Location} {n name : Text}

/-- A name is listed as what it has in front of its suffix, if this is one of the backend's in small
letters. -/
theorem lists_iff (suffixed : b.WellSuffixed) : b.Lists fs l name n ↔
    (∃ files, fs.filesIn l = .ok files ∧ name ∈ files) ∧
      name.toList.head? ≠ some (CodePoint.scalar '.') ∧
      ∃ s, n ≠ "" ∧ Location.IsSuffix s ∧ name = n ++ s ∧ s.lower ∈ b.suffixes := by
  constructor
  · rintro ⟨present, visible, claimed, hstem⟩
    refine ⟨present, visible, ?_⟩
    rcases Location.cutSuffix_cases name with hcut | ⟨stem, s, hcut, hne, hs, hname⟩
    · have hsuffix := suffixed.suffix_ne claimed
      rw [Location.name_child, hcut] at hsuffix
      exact absurd rfl hsuffix
    · rw [claims_iff, Location.suffix, Location.name_child, hcut] at claimed
      rw [hcut] at hstem
      cases hstem
      exact ⟨s, hne, hs, hname, claimed⟩
  · rintro ⟨present, visible, s, hne, hs, rfl, hsmall⟩
    have hcut := Location.cutSuffix_append hne hs
    refine ⟨present, visible, ?_, ?_⟩
    · rw [claims_iff, Location.suffix, Location.name_child, hcut]
      exact hsmall
    · rw [hcut]

theorem listEntries_of_bytes_error {e : Error} (hl : config.resolve host storage = .ok l)
    (h : l.bytes = .error e) : b.listEntries host config storage = .error e := by
  rw [listEntries_of_resolve hl, FileSystem.filesIn_eq_error h]
  rfl

end Backend

namespace Registry

variable {r : Registry} {fs : FileSystem} {host : Host} {config : StorageConfig} {storage : Text}
  {l : Location} {path : List UInt8} {place : Place}

/-! ## The backends of a registry -/

/-- A step brings in no backend but the one that it registers. -/
theorem mem_backends_after {step : Registration} {entry : Text × Backend}
    (h : entry ∈ (r.after step).backends) :
    entry ∈ r.backends ∨ ∃ replace, step = .register entry.2 replace := by
  cases step with
  | register b replace =>
    by_cases hname : b.name = ""
    · simp only [after, register, if_pos hname] at h
      exact Or.inl h
    · by_cases htaken : (Entries.get? b.name r.backends).isSome && !replace
      · simp only [after, register, if_neg hname, if_pos htaken] at h
        exact Or.inl h
      · simp only [after, register, if_neg hname, if_neg htaken] at h
        rcases Entries.mem_of_mem_put h with rfl | h
        · exact Or.inr ⟨replace, rfl⟩
        · exact Or.inl h
  | unregister name =>
    left
    simp only [after, unregister] at h
    split at h
    · exact (List.mem_filter.mp h).1
    · exact h

/-- The backends of a registry were registered in the run that made it. -/
theorem mem_backends_made {own : Option ConfigId} {strict : Bool} {run : List Registration}
    {entry : Text × Backend} (h : entry ∈ (made own strict run).backends) :
    ∃ replace, .register entry.2 replace ∈ run := by
  have foldl : ∀ r : Registry, entry ∈ (run.foldl after r).backends →
      entry ∈ r.backends ∨ ∃ replace, .register entry.2 replace ∈ run := by
    clear h
    induction run with
    | nil => exact fun _ h => Or.inl h
    | cons step run ih =>
      intro r h
      rcases ih (r.after step) h with h | ⟨replace, h⟩
      · rcases mem_backends_after h with h | ⟨replace, rfl⟩
        · exact Or.inl h
        · exact Or.inr ⟨replace, List.mem_cons_self⟩
      · exact Or.inr ⟨replace, List.mem_cons_of_mem _ h⟩
  rcases foldl _ h with h | h
  · cases h
  · exact h

/-! ## Listings -/

theorem nodup_listEntries {names : List Text} (h : r.listEntries host config storage = .ok names) :
    names.Nodup := by
  obtain ⟨lists, -, h⟩ := ok_of_bind h
  cases h
  exact nodup_distinct _

/-- Backends that all fail in one way make their registry fail so, if there are any. -/
theorem listEntries_eq_error {e : Error} (hne : r.backends ≠ [])
    (h : ∀ entry ∈ r.backends, entry.2.listEntries host config storage = .error e) :
    r.listEntries host config storage = .error e := by
  cases hbackends : r.backends with
  | nil => exact absurd hbackends hne
  | cons first rest =>
    have hfirst := h first (hbackends ▸ List.mem_cons_self)
    simp [listEntries, hbackends, hfirst, bind, Except.bind]

/-- A name in a directory that a registry lists, cut into what it is listed as and the suffix. -/
structure ListsAs (r : Registry) (fs : FileSystem) (l : Location) (place : Place) (name : FileName)
    (n s : Text) : Prop where
  present : name ∈ fs.namesIn place
  /-- There is a file behind the name once links are followed. -/
  file : fs.holdsFile l place name = true
  visible : name.text.toList.head? ≠ some (CodePoint.scalar '.')
  cut : name.text = n ++ s
  stem_ne : n ≠ ""
  /-- The suffix starts with the last point of the name and is more than this point. -/
  suffix : Location.IsSuffix s
  claimed : ∃ entry ∈ r.backends, s.lower ∈ entry.2.suffixes

/-- A file that is listed with one of the suffixes that are tried leads back to a file, if there is
none with just the listed name and no path that is tried is too long. -/
theorem ListsAs.recoverable {name : FileName} {n s : Text} (h : r.ListsAs fs l place name n s)
    (hpath : l.bytes = .ok path) (directory : fs.directory? path = some place)
    (alone : fs.isFile (l.child n) = .ok false) (tried : s ∈ r.tried (l.child n))
    (short : ∀ s ∈ r.tried (l.child n), ¬ fs.TooLong (l.child (n ++ s))) :
    r.Recoverable fs (l.child n) := by
  have hadd : ∀ s, (l.child n).addSuffix s = l.child (n ++ s) := Location.addSuffix_child l n
  refine ⟨alone, exists_comesTo ?_ tried ?_⟩
  · intro s hs e he
    rw [hadd] at he
    exact short s hs (FileSystem.isFile_eq_error_iff.mp he).1
  · rw [hadd, ← h.cut]
    exact FileSystem.isFile_of_holdsFile hpath directory h.file (h.cut ▸ short s tried)

theorem exists_listsAs_iff (suffixed : ∀ entry ∈ r.backends, entry.2.WellSuffixed)
    (hpath : l.bytes = .ok path) (directory : fs.directory? path = some place) {n : Text} :
    (∃ name s, r.ListsAs fs l place name n s) ↔
      ∃ entry ∈ r.backends, ∃ name, entry.2.Lists fs l name n := by
  have hfiles := FileSystem.filesIn_of_directory hpath directory
  constructor
  · rintro ⟨name, s, listed⟩
    obtain ⟨entry, hentry, hsmall⟩ := listed.claimed
    have hmem : name ∈ (fs.namesIn place).filter (fs.holdsFile l place) :=
      List.mem_filter.mpr ⟨listed.present, listed.file⟩
    have present : ∃ files, fs.filesIn l = .ok files ∧ name.text ∈ files :=
      ⟨_, hfiles, List.mem_map_of_mem hmem⟩
    refine ⟨entry, hentry, name.text, (Backend.lists_iff (suffixed entry hentry)).mpr ?_⟩
    exact ⟨present, listed.visible, s, listed.stem_ne, listed.suffix, listed.cut, hsmall⟩
  · rintro ⟨entry, hentry, name, h⟩
    obtain ⟨⟨files, hown, hname⟩, visible, s, stem_ne, suffix, cut, hsmall⟩ :=
      (Backend.lists_iff (suffixed entry hentry)).mp h
    cases hfiles.symm.trans hown
    obtain ⟨name, hmem, rfl⟩ := List.mem_map.mp hname
    obtain ⟨present, file⟩ := List.mem_filter.mp hmem
    exact ⟨name, s, present, file, visible, cut, stem_ne, suffix, entry, hentry, hsmall⟩

theorem mem_listEntries_iff_lists {names : List Text}
    (h : r.listEntries host config storage = .ok names) (hl : config.resolve host storage = .ok l)
    {n : Text} :
    n ∈ names ↔ ∃ entry ∈ r.backends, ∃ name, entry.2.Lists host.files l name n := by
  constructor
  · intro hn
    obtain ⟨l', hl', hlists⟩ := mem_listEntries h hn
    cases hl.symm.trans hl'
    exact hlists
  · rintro ⟨entry, hentry, hlists⟩
    rcases exists_listEntries_iff.mp ⟨names, h⟩ with hempty | ⟨l', path, hpath⟩
    · rw [hempty] at hentry
      cases hentry
    · obtain ⟨own, hown⟩ := Backend.exists_listEntries_iff.mpr ⟨l', path, hpath⟩
      refine (mem_listEntries_iff h).mpr ⟨entry, hentry, own, hown, ?_⟩
      exact (Backend.mem_listEntries hown hl).mpr hlists

/-- Take a registry that backends with well-formed suffixes were registered with and unregistered
from. For a directory it lists each name once, and exactly what visible files have in front of the
suffixes of its backends. For anything else it lists nothing, and so does a registry without
backends for whatever path. If there is a backend, then a home directory that is not there, and a
path that no bytes stand for, end the listing with an error. -/
theorem lists_stems_exactly (own : Option ConfigId) (strict : Bool) (run : List Registration)
    (suffixed : ∀ b replace, .register b replace ∈ run → b.WellSuffixed) (host : Host)
    (config : StorageConfig) (storage : Text) :
    let r := made own strict run
    (∀ l path place, config.resolve host storage = .ok l → l.bytes = .ok path →
      host.files.directory? path = some place →
      ∃ names, r.listEntries host config storage = .ok names ∧ names.Nodup ∧
        ∀ n, n ∈ names ↔ ∃ name s, r.ListsAs host.files l place name n s) ∧
    (∀ l path, config.resolve host storage = .ok l → l.bytes = .ok path →
      host.files.directory? path = none → r.listEntries host config storage = .ok []) ∧
    (r.backends = [] → r.listEntries host config storage = .ok []) ∧
    (r.backends ≠ [] →
      (∀ e, config.resolve host storage = .error e → r.listEntries host config storage = .error e) ∧
      ∀ l e, config.resolve host storage = .ok l → l.bytes = .error e →
        r.listEntries host config storage = .error e) := by
  intro r
  have wellSuffixed : ∀ entry ∈ r.backends, entry.2.WellSuffixed := by
    intro entry hentry
    obtain ⟨replace, hrun⟩ := mem_backends_made hentry
    exact suffixed entry.2 replace hrun
  refine ⟨?directory, ?elsewhere, ?empty, ?escapes⟩
  case directory =>
    intro l path place hl hpath directory
    obtain ⟨names, hlist⟩ := exists_listEntries_iff.mpr (Or.inr ⟨l, path, hl, hpath⟩)
    refine ⟨names, hlist, nodup_listEntries hlist, ?_⟩
    intro n
    rw [exists_listsAs_iff wellSuffixed hpath directory]
    exact mem_listEntries_iff_lists hlist hl
  case elsewhere =>
    intro l path hl hpath noDirectory
    obtain ⟨names, hlist⟩ : ∃ names, r.listEntries host config storage = .ok names :=
      exists_listEntries_iff.mpr (Or.inr ⟨l, path, hl, hpath⟩)
    have hnone : ∀ n, n ∉ names := by
      intro n hn
      obtain ⟨_, -, name, lists⟩ := (mem_listEntries_iff_lists hlist hl).mp hn
      obtain ⟨files, hfiles, hmem⟩ := lists.present
      cases hfiles.symm.trans (FileSystem.filesIn_of_not_directory hpath noDirectory)
      cases hmem
    rw [hlist, List.eq_nil_iff_forall_not_mem.mpr hnone]
  case empty =>
    intro hempty
    simp [listEntries, hempty, bind, Except.bind, pure, Except.pure, distinct]
  case escapes =>
    intro hne
    constructor
    · intro e he
      exact listEntries_eq_error hne fun _ _ => Backend.listEntries_of_resolve_error he
    · intro l e hl he
      exact listEntries_eq_error hne fun _ _ => Backend.listEntries_of_bytes_error hl he

/-- Two files with one stem, suffixes in capital letters, a further point, a hidden file, a
directory and links that lead to a file, nowhere and to themselves. -/
theorem lists_stems_exactly_mixed :
    let run : List Registration := [.register .json false,
      .register { Backend.json with name := "plain", suffixes := [".txt"] } false,
      .register .yaml false, .unregister "plain"]
    let link (target : String) : Entry := .link (target.toList.map fun c => UInt8.ofNat c.toNat)
    let host := Host.ofFiles (.ofPaths [] [("d/a.yaml", .file []), ("d/a.yml", .file []),
      ("d/A.JSON", .file []), ("d/a.b.json", .file []), ("d/.c.json", .file []),
      ("d/d.json", .directory), ("d/e.txt", .file []), ("d/f.yml", link "a.yaml"),
      ("d/g.yml", link "nowhere"), ("d/h.yml", link "h.yml")])
    let config := StorageConfig.standard host.files
    let r := made none false run
    (∀ b replace, .register b replace ∈ run → b.WellSuffixed) ∧
      r.listEntries host config "d" = .ok ["A", "a.b", "a", "f"] ∧
      (∃ l place, ∀ n, n ∈ List.map Text.lit ["A", "a.b", "a", "f"] ↔
        ∃ name s, r.ListsAs host.files l place name n s) ∧
      r.listEntries host config "d/a.yml" = .ok [] := by
  intro run link host config r
  have suffixed : ∀ b replace, .register b replace ∈ run → b.WellSuffixed := by
    intro b replace h
    simp only [run, List.mem_cons, Registration.register.injEq, List.not_mem_nil, or_false,
      reduceCtorEq] at h
    rcases h with ⟨rfl, -⟩ | ⟨rfl, -⟩ | ⟨rfl, -⟩
    · exact Backend.wellSuffixed_json
    · intro s hs
      obtain rfl : s = ".txt" := by simpa using hs
      exact ⟨⟨Text.toList "txt", by decide, by decide, by decide⟩, by decide⟩
    · exact Backend.wellSuffixed_yaml
  have exact := lists_stems_exactly none false run suffixed host config
  have listed : r.listEntries host config "d" = .ok ["A", "a.b", "a", "f"] :=
    toOption_eq_some_iff.mp (by decide +kernel)
  refine ⟨suffixed, listed, ?_, ?_⟩
  · have hl : config.resolve host "d" = .ok ⟨.root, ["d"]⟩ :=
      toOption_eq_some_iff.mp (by decide +kernel)
    have hpath : Location.bytes ⟨.root, ["d"]⟩ = .ok [0x2F, 0x64] := by rfl
    have directory : host.files.directory? [0x2F, 0x64] = some [⟨[0x64], by decide⟩] := by
      decide +kernel
    obtain ⟨names, hlist, -, hiff⟩ := (exact "d").1 _ _ _ hl hpath directory
    cases listed.symm.trans hlist
    exact ⟨_, _, hiff⟩
  · have hl : config.resolve host "d/a.yml" = .ok ⟨.root, ["d", "a.yml"]⟩ :=
      toOption_eq_some_iff.mp (by decide +kernel)
    exact (exact "d/a.yml").2.1 _ _ hl (by rfl) (by decide +kernel)

/-- A path with a null character leads to no directory, and nor does one below a home directory that
is not there, or one with a surrogate that stands for no byte; the listing of any of them ends with
an error. -/
theorem lists_stems_exactly_null :
    let host := Host.empty
    let config := StorageConfig.standard host.files
    let r := made none false [.register .json false, .register .yaml false]
    r.listEntries host config "a\x00b" = .error .nullInPath ∧
      r.listEntries host config "~nosuchuser" = .error .noHome ∧
      r.listEntries host config (.ofList [.surrogate ⟨0, by decide⟩]) =
        .error (.unencodable ⟨1, 2, 0xD800⟩) := by
  refine ⟨?_, ?_, ?_⟩
  · rfl
  · rfl
  · rfl

end Registry

end Grove
