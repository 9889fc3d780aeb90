import Grove.Proofs.Registry.Selection

/-!
# What is listed and what is found

A registry lists the files of a directory without their suffixes, whatever the case of the letters
in these. Looking a listed name up again tries the suffixes in small letters only, takes a file
without a suffix first, and takes what looks like a suffix of the name itself for one. So a listed
name leads back to a file that it is listed for under conditions, which are told here exactly.
-/
namespace Grove

namespace Backend

variable {b : Backend} {fs : FileSystem} {host : Host} {config : StorageConfig} {storage : Text}
  {l l' below file : Location} {n name s : Text}

/-- The suffixes are suffixes, in small letters. -/
def WellSuffixed (b : Backend) : Prop :=
  ∀ s ∈ b.suffixes, Location.IsSuffix s ∧ s.lower = s

theorem claims_iff : b.claims l = true ↔ l.suffix.lower ∈ b.suffixes := by
  simp [claims]

/-- Only the last name tells whether a location is claimed. -/
theorem claims_eq_of_name (h : l.name = l'.name) : b.claims l = b.claims l' := by
  rw [claims, claims, Location.suffix, Location.suffix, h]

/-- A name of a file in a directory that a backend can load, and what it is listed as. -/
structure Lists (b : Backend) (fs : FileSystem) (l : Location) (name n : Text) : Prop where
  present : ∃ files, fs.filesIn l = .ok files ∧ name ∈ files
  visible : name.toList.head? ≠ some (CodePoint.scalar '.')
  claimed : b.claims (Location.here.child name) = true
  stem : (Location.cutSuffix name).1 = n

theorem listEntries_of_resolve (hl : config.resolve host storage = .ok l) :
    b.listEntries host config storage = (host.files.filesIn l).map fun names =>
      names.filterMap fun name =>
        if name.toList.head? ≠ some (CodePoint.scalar '.') &&
          b.claims (Location.here.child name) then
          some (Location.here.child name).stem
        else none := by
  simp only [listEntries, hl, bind, Except.bind, pure, Except.pure]
  cases host.files.filesIn l <;> rfl

theorem listEntries_of_resolve_error {e : Error} (h : config.resolve host storage = .error e) :
    b.listEntries host config storage = .error e := by
  simp only [listEntries, h, bind, Except.bind]

theorem exists_listEntries_iff : (∃ names, b.listEntries host config storage = .ok names) ↔
    ∃ l path, config.resolve host storage = .ok l ∧ l.bytes = .ok path := by
  cases hl : config.resolve host storage with
  | error e => simp [listEntries_of_resolve_error hl]
  | ok l =>
    have hfiles : (∃ names, host.files.filesIn l = .ok names) ↔ ∃ path, l.bytes = .ok path :=
      FileSystem.exists_filesIn_iff
    rw [listEntries_of_resolve hl]
    cases hnames : host.files.filesIn l <;> simpa [hnames, Except.map] using hfiles

theorem mem_listEntries {names : List Text} (h : b.listEntries host config storage = .ok names)
    (hl : config.resolve host storage = .ok l) :
    n ∈ names ↔ ∃ name, b.Lists host.files l name n := by
  rw [listEntries_of_resolve hl] at h
  cases hfiles : host.files.filesIn l with
  | error e =>
    rw [hfiles] at h
    cases h
  | ok files =>
    rw [hfiles] at h
    cases h
    rw [List.mem_filterMap]
    constructor
    · rintro ⟨name, hmem, hname⟩
      simp only [Option.ite_none_right_eq_some, Bool.and_eq_true, decide_eq_true_eq,
        Option.some.injEq, Location.stem_child] at hname
      exact ⟨name, ⟨files, hfiles, hmem⟩, hname.1.1, hname.1.2, hname.2⟩
    · rintro ⟨name, ⟨files', hfiles', hmem⟩, visible, claimed, stem⟩
      cases hfiles.symm.trans hfiles'
      refine ⟨name, hmem, ?_⟩
      simp only [Option.ite_none_right_eq_some, Bool.and_eq_true, decide_eq_true_eq,
        Option.some.injEq, Location.stem_child]
      exact ⟨⟨visible, claimed⟩, stem⟩

/-! ### Stems -/

theorem WellSuffixed.suffix_ne (h : b.WellSuffixed) (claimed : b.claims l = true) :
    (Location.cutSuffix l.name).2 ≠ "" := by
  intro hempty
  rw [claims_iff, Location.suffix, hempty] at claimed
  obtain ⟨ending, hending, -⟩ := (h _ claimed).1
  cases hending

/-- What is listed is not the name of the file itself. -/
theorem WellSuffixed.stem_ne (h : b.WellSuffixed) (claimed : b.claims l = true) :
    l.stem ≠ "" ∧ l.stem ≠ l.name :=
  Location.cutSuffix_fst_ne (h.suffix_ne claimed)

/-- A listed name could be the name of an entry itself: it is not empty, does not stand for the
directory, and has no slash in it. -/
theorem Lists.plain_name (h : b.Lists fs l name n) (suffixed : b.WellSuffixed) :
    n ≠ "" ∧ n ≠ "." ∧ ↑ '/' ∉ n.toList := by
  have hcut : n ++ (Location.cutSuffix name).2 = name := by
    rw [← h.stem, Location.cutSuffix_append_eq]
  have hne : n ≠ "" := by
    have hstem := (suffixed.stem_ne h.claimed).1
    rwa [Location.stem_child, h.stem] at hstem
  refine ⟨hne, ?_, ?_⟩
  · rintro rfl
    have hvisible := h.visible
    rw [← hcut] at hvisible
    exact hvisible rfl
  · intro hslash
    obtain ⟨files, hfiles, hmem⟩ := h.present
    obtain ⟨entry, rfl⟩ := FileSystem.exists_text_of_mem_filesIn hfiles hmem
    apply entry.slash_notMem_text
    rw [← hcut, Text.toList_append]
    exact List.mem_append_left _ hslash

theorem WellSuffixed.cut (h : b.WellSuffixed) (hs : s ∈ b.suffixes) (hn : l.name ≠ "") :
    b.claims (l.addSuffix s) = true ∧ (l.addSuffix s).stem = l.name := by
  have hcut := Location.cutSuffix_append hn (h s hs).1
  simp [claims_iff, Location.suffix, Location.stem, Location.name_addSuffix, hcut, (h s hs).2, hs]

/-! ### Looking a name up -/

/-- What is not a file itself is looked for under the suffixes. -/
theorem found?_of_alone (hn : l.name ≠ "") (alone : fs.isFile l = .ok false) :
    b.found? fs l = (b.suffixes.map l.addSuffix).findM? fs.isFile := by
  rw [found?, candidates, if_neg hn, List.findM?]
  simp only [alone, bind, Except.bind]

theorem found?_eq_some_iff_of_alone (hn : l.name ≠ "") (alone : fs.isFile l = .ok false) :
    b.found? fs l = .ok (some file) ↔
      ∃ s, ComesTo (fun s => fs.isFile (l.addSuffix s) = .ok false) b.suffixes s ∧
        fs.isFile (l.addSuffix s) = .ok true ∧ l.addSuffix s = file := by
  rw [found?_of_alone hn alone, findM?_eq_some_iff, comesTo_map]
  constructor
  · rintro ⟨⟨s, hs, rfl⟩, hfile⟩
    exact ⟨s, hs, hfile, rfl⟩
  · rintro ⟨s, hs, hfile, rfl⟩
    exact ⟨⟨s, hs, rfl⟩, hfile⟩

/-- What is found under a suffix is a file that the backend lists under the name. -/
theorem WellSuffixed.claims_of_found? (h : b.WellSuffixed) (hn : l.name ≠ "")
    (alone : fs.isFile l = .ok false) (hfound : b.found? fs l = .ok (some file)) :
    b.claims file = true ∧ file.stem = l.name := by
  obtain ⟨s, hs, -, rfl⟩ := (found?_eq_some_iff_of_alone hn alone).mp hfound
  exact h.cut hs.mem hn

theorem WellSuffixed.misses_iff (h : b.WellSuffixed) (hn : l.name ≠ "")
    (alone : fs.isFile l = .ok false) :
    b.Misses fs l ↔ ∀ s ∈ b.suffixes, fs.isFile (l.addSuffix s) = .ok false := by
  have hnone : b.found? fs l = .ok none ↔
      ∀ s ∈ b.suffixes, fs.isFile (l.addSuffix s) = .ok false := by
    rw [found?_of_alone hn alone, findM?_eq_none_iff, List.forall_mem_map]
  rw [← hnone, Misses]
  constructor
  · rintro ⟨_ | file, hfound, hclaims⟩
    · exact hfound
    · have hown := (h.claims_of_found? hn alone hfound).1
      rw [Option.any_some, hown] at hclaims
      cases hclaims
  · intro hfound
    exact ⟨none, hfound, rfl⟩

/-- A file with just the name would have a suffix, and so be listed under another name. -/
theorem WellSuffixed.isFile_eq_false (h : b.WellSuffixed)
    (picked : b.claims l = true ∨ b.Hits fs l) (hfound : b.found? fs l = .ok (some file))
    (hstem : file.stem = l.name) : fs.isFile l = .ok false := by
  rcases comesTo_cons.mp (found?_eq_some_iff.mp hfound).1 with rfl | ⟨alone, -⟩
  · have hclaims : b.claims file = true := by
      rcases picked with hclaims | ⟨file', hfound', hclaims⟩
      · exact hclaims
      · cases hfound.symm.trans hfound'
        exact hclaims
    exact absurd hstem (h.stem_ne hclaims).2
  · exact alone

theorem wellSuffixed_json : json.WellSuffixed := by
  intro s hs
  obtain rfl : s = ".json" := by simpa [json] using hs
  exact ⟨⟨Text.toList "json", by decide, by decide, by decide⟩, by decide⟩

theorem wellSuffixed_yaml : yaml.WellSuffixed := by
  intro s hs
  obtain rfl | rfl : s = ".yaml" ∨ s = ".yml" := by simpa [yaml] using hs
  · exact ⟨⟨Text.toList "yaml", by decide, by decide, by decide⟩, by decide⟩
  · exact ⟨⟨Text.toList "yml", by decide, by decide, by decide⟩, by decide⟩

end Backend

namespace Registry

variable {r : Registry} {fs : FileSystem} {host : Host} {config : StorageConfig} {d n : Text}
  {l below : Location}

theorem mem_distinct {names : List Text} : n ∈ distinct names ↔ n ∈ names := by
  have hfold : ∀ (names seen : List Text),
      n ∈ names.foldl (fun seen name => if seen.contains name then seen else name :: seen) seen ↔
        n ∈ seen ∨ n ∈ names := by
    intro names
    induction names with
    | nil => simp
    | cons name names ih =>
      intro seen
      rw [List.foldl_cons, ih, List.mem_cons]
      split
      · next hseen =>
        have absorbed : n = name → n ∈ seen := fun h => h ▸ List.contains_iff_mem.mp hseen
        rw [← or_assoc, or_iff_left_of_imp absorbed]
      · rw [List.mem_cons, or_assoc, or_left_comm]
  rw [distinct, List.mem_reverse, hfold]
  simp

theorem nodup_distinct (names : List Text) : (distinct names).Nodup := by
  have hfold : ∀ (names seen : List Text), seen.Nodup →
      (names.foldl (fun seen name =>
          if seen.contains name then seen else name :: seen) seen).Nodup := by
    intro names
    induction names with
    | nil => exact fun _ h => h
    | cons name names ih =>
      intro seen h
      rw [List.foldl_cons]
      apply ih
      split
      · exact h
      · next hseen =>
        exact List.nodup_cons.mpr ⟨fun hmem => hseen (List.contains_iff_mem.mpr hmem), h⟩
  exact List.pairwise_reverse.mpr ((hfold names [] List.nodup_nil).imp Ne.symm)

theorem exists_listEntries_iff : (∃ names, r.listEntries host config d = .ok names) ↔
    r.backends = [] ∨ ∃ l path, config.resolve host d = .ok l ∧ l.bytes = .ok path := by
  have hall : (∃ names, r.listEntries host config d = .ok names) ↔
      ∀ e ∈ r.backends, ∃ names, e.2.listEntries host config d = .ok names := by
    rw [← exists_mapM_eq_ok_iff]
    constructor
    · rintro ⟨names, h⟩
      obtain ⟨lists, hlists, -⟩ := ok_of_bind h
      exact ⟨lists, hlists⟩
    · rintro ⟨lists, hlists⟩
      refine ⟨distinct lists.flatten, ?_⟩
      simp [listEntries, hlists, bind, Except.bind, pure, Except.pure]
  rw [hall]
  simp only [Backend.exists_listEntries_iff]
  cases hbackends : r.backends with
  | nil => simp
  | cons e rest =>
    constructor
    · intro h
      exact Or.inr (h e List.mem_cons_self)
    · rintro (h | h)
      · cases h
      · exact fun _ _ => h

/-- A registry lists what its backends list. -/
theorem mem_listEntries_iff {names : List Text} (h : r.listEntries host config d = .ok names) :
    n ∈ names ↔
      ∃ e ∈ r.backends, ∃ own, e.2.listEntries host config d = .ok own ∧ n ∈ own := by
  obtain ⟨lists, hlists, h⟩ := ok_of_bind h
  cases h
  rw [mem_distinct, List.mem_flatten]
  constructor
  · rintro ⟨own, hown, hn⟩
    obtain ⟨e, he, hlist⟩ := (mem_of_mapM_eq_ok hlists).mp hown
    exact ⟨e, he, own, hlist, hn⟩
  · rintro ⟨e, he, own, hlist, hn⟩
    exact ⟨own, (mem_of_mapM_eq_ok hlists).mpr ⟨e, he, hlist⟩, hn⟩

theorem mem_listEntries {names : List Text} (h : r.listEntries host config d = .ok names)
    (hn : n ∈ names) : ∃ l, config.resolve host d = .ok l ∧
      ∃ e ∈ r.backends, ∃ name, e.2.Lists host.files l name n := by
  obtain ⟨e, he, own, hlist, hn⟩ := (mem_listEntries_iff h).mp hn
  obtain ⟨l, -, hl, -⟩ := Backend.exists_listEntries_iff.mp ⟨own, hlist⟩
  exact ⟨l, hl, e, he, (Backend.mem_listEntries hlist hl).mp hn⟩

/-- The suffixes under which a name without a file of its own is looked for, in this order: those of
the backend that claims the name, or those of all backends if none does. -/
def tried (r : Registry) (l : Location) : List Text :=
  match r.backends.find? (·.2.claims l) with
  | some entry => entry.2.suffixes
  | none => r.backends.flatMap (·.2.suffixes)

/-- What it takes for a listed name, looked up at the place below its directory, to lead back to a
file that it is listed for. -/
structure Recoverable (r : Registry) (fs : FileSystem) (below : Location) : Prop where
  /-- There is no file with just this name. -/
  alone : fs.isFile below = .ok false
  /-- There is a file with one of the suffixes that are tried. -/
  suffixed : ∃ s, ComesTo (fun s => fs.isFile (below.addSuffix s) = .ok false) (r.tried below) s ∧
    fs.isFile (below.addSuffix s) = .ok true

theorem wellSuffixed_of_mem {e : Text × Backend}
    (formats : ∀ e ∈ r.backends, e.2 = .json ∨ e.2 = .yaml) (he : e ∈ r.backends) :
    e.2.WellSuffixed := by
  rcases formats e he with h | h
  · exact h ▸ Backend.wellSuffixed_json
  · exact h ▸ Backend.wellSuffixed_yaml

section LookUp

variable {storage : Text} (suffixed : ∀ e ∈ r.backends, e.2.WellSuffixed)
  (hbelow : config.resolve host storage = .ok below)
  (hname : (Location.ofText storage).name = below.name) (hn : below.name ≠ "")

include suffixed hbelow hname

/-- A backend that is picked and finds a file with the listed name does so under a suffix. -/
theorem Finds.isFile_eq_false {b : Backend} {file : Location}
    (h : r.Finds host config storage b file) (hstem : file.stem = below.name) :
    host.files.isFile below = .ok false := by
  obtain ⟨e, he, rfl⟩ := h.mem_backends
  have hfinds := (finds_iff hbelow).mp h
  refine (suffixed e he).isFile_eq_false ?_ hfinds.1 hstem
  rcases hfinds.2 with ⟨e', he', hsame⟩ | ⟨-, e', -, hhits, hsame⟩
  · left
    have hhandles : e'.2.handles storage = true := by simpa using List.find?_some he'
    rw [← hsame, ← hhandles]
    exact Backend.claims_eq_of_name hname.symm
  · right
    rw [← hsame]
    exact hhits

include hn

/-- A file with the listed name is found exactly if there is one under a suffix that is tried. -/
theorem exists_finds_iff_of_alone (alone : host.files.isFile below = .ok false) :
    (∃ b file, r.Finds host config storage b file) ↔
      ∃ s, ComesTo (fun s => host.files.isFile (below.addSuffix s) = .ok false) (r.tried below) s ∧
        host.files.isFile (below.addSuffix s) = .ok true := by
  have hhandles : ∀ b : Backend, b.handles storage = b.claims below :=
    fun b => Backend.claims_eq_of_name hname
  simp only [finds_iff hbelow, hhandles, tried]
  cases hfirst : r.backends.find? (·.2.claims below) with
  | some entry =>
    have hclaimed : ¬ ∀ e ∈ r.backends, e.2.claims below = false := by
      intro hnone
      have hself := hnone entry (List.mem_of_find?_eq_some hfirst)
      rw [List.find?_some hfirst] at hself
      cases hself
    constructor
    · rintro ⟨b, file, hfound, ⟨entry', hentry, rfl⟩ | ⟨hnone, -⟩⟩
      · cases hentry
        obtain ⟨s, hs, hfile, -⟩ := (Backend.found?_eq_some_iff_of_alone hn alone).mp hfound
        exact ⟨s, hs, hfile⟩
      · exact absurd hnone hclaimed
    · rintro ⟨s, hs, hfile⟩
      have hfound := (Backend.found?_eq_some_iff_of_alone hn alone).mpr ⟨s, hs, hfile, rfl⟩
      exact ⟨entry.2, below.addSuffix s, hfound, Or.inl ⟨entry, rfl, rfl⟩⟩
  | none =>
    have hnone : ∀ e ∈ r.backends, e.2.claims below = false := by simpa using hfirst
    have hmisses : ∀ e ∈ r.backends, (e.2.Misses host.files below ↔
        ∀ s ∈ e.2.suffixes, host.files.isFile (below.addSuffix s) = .ok false) :=
      fun e he => (suffixed e he).misses_iff hn alone
    simp only [comesTo_flatMap]
    constructor
    · rintro ⟨b, file, hfound, ⟨entry', h, -⟩ | ⟨-, entry, hentry, -, rfl⟩⟩
      · cases h
      · obtain ⟨s, hs, hfile, -⟩ := (Backend.found?_eq_some_iff_of_alone hn alone).mp hfound
        exact ⟨s, ⟨entry, (comesTo_congr hmisses).mp hentry, hs⟩, hfile⟩
    · rintro ⟨s, ⟨entry, hentry, hs⟩, hfile⟩
      have hcomes := (comesTo_congr hmisses).mpr hentry
      have hfound := (Backend.found?_eq_some_iff_of_alone hn alone).mpr ⟨s, hs, hfile, rfl⟩
      have hclaims := ((suffixed entry hcomes.mem).claims_of_found? hn alone hfound).1
      exact ⟨entry.2, _, hfound, Or.inr ⟨hnone, entry, hcomes, ⟨_, hfound, hclaims⟩, rfl⟩⟩

theorem exists_finds_iff :
    (∃ b file, r.Finds host config storage b file ∧ file.stem = below.name) ↔
      r.Recoverable host.files below := by
  constructor
  · rintro ⟨b, file, h, hstem⟩
    have alone := h.isFile_eq_false suffixed hbelow hname hstem
    exact ⟨alone, (exists_finds_iff_of_alone suffixed hbelow hname hn alone).mp ⟨b, file, h⟩⟩
  · rintro ⟨alone, hs⟩
    obtain ⟨b, file, h⟩ := (exists_finds_iff_of_alone suffixed hbelow hname hn alone).mpr hs
    obtain ⟨e, he, rfl⟩ := h.mem_backends
    have hfound := ((finds_iff hbelow).mp h).1
    exact ⟨e.2, file, h, ((suffixed e he).claims_of_found? hn alone hfound).2⟩

end LookUp

/-- A slash and a listed name behind the spelling of a directory are a path with this last name. -/
theorem name_ofText_below (hn : n ≠ "") (hpoint : n ≠ ".") (hslash : ↑ '/' ∉ n.toList) :
    (Location.ofText (d ++ "/" ++ n)).name = n := by
  have htext : (d ++ "/" ++ n).toList = d.toList ++ ↑ '/' :: n.toList := by simp
  have hnames : (Location.ofText (d ++ "/" ++ n)).names = Location.namesOf d.toList ++ [n] := by
    rw [Location.ofText, htext, Location.namesOf_append, Location.namesOf_name hn hpoint hslash]
  exact Location.name_eq_of_names hnames

/-- Take a registry of JSON and YAML, and a name that it lists for a directory. A slash and this
name behind the path of the directory are the path of a place below it, unless the directory is
spelled by nothing at all, or the name comes first and asks for a home directory. Looked up below
the directory, a file that the name is listed for is found exactly if the name is recoverable; and
if a file is found at all, then loading can only fail for what is in the file. -/
theorem finds_listed_iff {names : List Text} (formats : ∀ e ∈ r.backends, e.2 = .json ∨ e.2 = .yaml)
    (listed : r.listEntries host config d = .ok names) (hn : n ∈ names) :
    ∃ l, config.resolve host d = .ok l ∧
      (d ≠ "" →
        ((Location.ofText d).isAbsolute = false → (Location.ofText d).names = [] →
          n.toList.head? ≠ some (CodePoint.scalar '~')) →
        ∃ below, config.resolve host (d ++ "/" ++ n) = .ok below ∧ l.Below n below) ∧
      (∀ below, config.resolve host (d ++ "/" ++ n) = .ok below → l.Below n below →
        ((∃ b file, r.Finds host config (d ++ "/" ++ n) b file ∧ (∃ name, l.Below name file) ∧
            file.stem = n) ↔
          r.Recoverable host.files below)) ∧
      ∀ b file, r.Finds host config (d ++ "/" ++ n) b file →
        (d ++ "/" ++ n).length ≤ maxPathLength →
        r.loadStorage host config (d ++ "/" ++ n) .unspecified =
          r.settle (Backend.readText host config file >>= b.parse) := by
  obtain ⟨l, hl, e, he, name, hlists⟩ := mem_listEntries listed hn
  have suffixed : ∀ e ∈ r.backends, e.2.WellSuffixed := fun _ he => wellSuffixed_of_mem formats he
  obtain ⟨hne, hpoint, hslash⟩ := hlists.plain_name (suffixed e he)
  refine ⟨l, hl, ?place, ?found, ?loaded⟩
  case place =>
    intro spelled homeless
    exact StorageConfig.exists_resolve_below hl spelled hne hpoint hslash homeless
  case found =>
    intro below hbelow place
    have hname : (Location.ofText (d ++ "/" ++ n)).name = below.name :=
      (name_ofText_below hne hpoint hslash).trans place.name_eq.symm
    rw [← exists_finds_iff suffixed hbelow hname (place.name_eq ▸ hne), place.name_eq]
    constructor
    · rintro ⟨b, file, h, -, hstem⟩
      exact ⟨b, file, h, hstem⟩
    · rintro ⟨b, file, h, hstem⟩
      have hfound := ((finds_iff hbelow).mp h).1
      rcases Backend.found?_cases hfound with rfl | ⟨s, -, -, rfl⟩
      · exact ⟨b, file, h, ⟨n, place⟩, hstem⟩
      · exact ⟨b, _, h, ⟨n ++ s, place.addSuffix s⟩, hstem⟩
  case loaded =>
    intro b file hfinds short
    rw [loadStorage, hfinds.parseStorage_eq short]

/-- A file in small letters in a directory of its own is listed and found again. -/
theorem finds_listed_json :
    let host := Host.ofFiles (.ofPaths [] [("d", .directory), ("d/a.json", .file [123, 125])])
    let config := StorageConfig.standard host.files
    (jsonFirst none false).listEntries host config "d" = .ok ["a"] ∧
      ∃ b file, (jsonFirst none false).Finds host config ("d" ++ "/" ++ "a") b file ∧
        file.stem = "a" := by
  intro host config
  have listed : (jsonFirst none false).listEntries host config "d" = .ok ["a"] := by rfl
  refine ⟨listed, ?_⟩
  obtain ⟨l, hl, -, hiff, -⟩ := finds_listed_iff (by simp [jsonFirst]) listed List.mem_cons_self
  obtain rfl : l = ⟨.root, ["d"]⟩ := Except.ok.inj (hl.symm.trans (by rfl))
  have suffixed : ComesTo (fun s => host.files.isFile (Location.addSuffix ⟨.root, ["d", "a"]⟩ s) =
      .ok false) ((jsonFirst none false).tried ⟨.root, ["d", "a"]⟩) ".json" :=
    ⟨[], [".yaml", ".yml"], by rfl, nofun⟩
  obtain ⟨b, file, hfinds, -, hstem⟩ := (hiff ⟨.root, ["d", "a"]⟩ (by rfl) ⟨rfl, rfl⟩).mpr
    ⟨by rfl, ".json", suffixed, by rfl⟩
  exact ⟨b, file, hfinds, hstem⟩

/-- A file with a suffix in capital letters is listed, but no backend is picked for the listed
name. -/
theorem finds_listed_capital :
    let host := Host.ofFiles (.ofPaths [] [("d", .directory), ("d/A.JSON", .file [123, 125])])
    let config := StorageConfig.standard host.files
    (jsonFirst none false).listEntries host config "d" = .ok ["A"] ∧
      (jsonFirst none false).selectForPath host config ("d" ++ "/" ++ "A") =
        .error (.noneHandles "d/A") ∧
      (jsonFirst none false).loadStorage host config ("d" ++ "/" ++ "A") .unspecified =
        .ok none := by
  refine ⟨?_, ?_, ?_⟩
  · rfl
  · rfl
  · rfl

end Registry

end Grove
