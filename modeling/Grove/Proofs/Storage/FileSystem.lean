import Grove.Proofs.Result
import Grove.Proofs.Storage.FileName
import Grove.Proofs.Storage.Location
import Grove.Storage.FileSystem

/-!
# Looking for files

Whether there is a file at a location is known unless the path is too long. The files of a directory
are listed by their names, and a name that is listed for a file leads to that file when it is looked
up again.
-/
namespace Grove

namespace FileSystem

variable {fs : FileSystem} {l : Location} {path : List UInt8} {place : Place}

/-! ## Looking up -/

/-- A path or a part of it is too long where it is walked. -/
def TooLong (fs : FileSystem) (l : Location) : Prop :=
  ∃ path, l.bytes = .ok path ∧ fs.place path = .error .tooLong

theorem isFile_eq_error_iff {e : Error} :
    fs.isFile l = .error e ↔ fs.TooLong l ∧ e = .nameTooLong l.text := by
  unfold isFile TooLong
  cases l.bytes with
  | error _ => simp
  | ok path =>
    rcases hplace : fs.place path with fault | place
    · cases fault with
      | absent => simp [hplace]
      | tooLong => simp [hplace, eq_comm]
    · simp only [hplace]
      split <;> simp [hplace]

/-- Where there is a file, there is something to read. -/
theorem isFile_eq_true_iff : fs.isFile l = .ok true ↔ ∃ content, fs.content? l = some content := by
  unfold isFile content?
  cases l.bytes with
  | error _ => simp [Except.toOption]
  | ok path =>
    rcases hplace : fs.place path with fault | place
    · cases fault <;> simp [hplace, Except.toOption]
    · rcases hentry : fs.lookup? place with _ | entry
      · simp [hplace, hentry, Except.toOption]
      · cases entry <;> simp [hplace, hentry, Except.toOption]

/-! ## Listing -/

theorem filesIn_eq_error {e : Error} (h : l.bytes = .error e) : fs.filesIn l = .error e := by
  rw [filesIn, h]
  rfl

theorem filesIn_of_directory (h : l.bytes = .ok path)
    (directory : fs.directory? path = some place) :
    fs.filesIn l = .ok (((fs.namesIn place).filter (fs.holdsFile l place)).map FileName.text) := by
  simp only [filesIn, h, directory, bind, Except.bind, pure, Except.pure]

theorem filesIn_of_not_directory (h : l.bytes = .ok path) (none : fs.directory? path = none) :
    fs.filesIn l = .ok [] := by
  simp only [filesIn, h, none, bind, Except.bind, pure, Except.pure]

theorem exists_filesIn_iff : (∃ names, fs.filesIn l = .ok names) ↔ ∃ path, l.bytes = .ok path := by
  cases h : l.bytes with
  | error e => simp [filesIn_eq_error h]
  | ok path =>
    cases directory : fs.directory? path with
    | none => simp [filesIn_of_not_directory h directory]
    | some place => simp [filesIn_of_directory h directory]

/-- What is listed are the texts of names. -/
theorem exists_text_of_mem_filesIn {names : List Text} (h : fs.filesIn l = .ok names) {name : Text}
    (hname : name ∈ names) : ∃ n : FileName, n.text = name := by
  obtain ⟨path, hpath⟩ := exists_filesIn_iff.mp ⟨names, h⟩
  cases directory : fs.directory? path with
  | none =>
    cases h.symm.trans (filesIn_of_not_directory hpath directory)
    cases hname
  | some place =>
    cases h.symm.trans (filesIn_of_directory hpath directory)
    obtain ⟨n, -, htext⟩ := List.mem_map.mp hname
    exact ⟨n, htext⟩

/-! ## Names that are looked up again -/

/-- Going on where some parts of a path lead is going by all of them, if that holds of the links on
the way. -/
theorem walk_append {again : Place → List (List UInt8) → Except PathFault Place}
    {parts more : List (List UInt8)} {place reached q : Place}
    (links : ∀ place parts, again place parts = .ok reached → again place (parts ++ more) = .ok q)
    (next : fs.walk again reached more = .ok q) (h : fs.walk again place parts = .ok reached) :
    fs.walk again place (parts ++ more) = .ok q := by
  induction parts generalizing place with
  | nil =>
    cases h
    exact next
  | cons part parts ih =>
    rw [List.cons_append, FileSystem.walk]
    rw [FileSystem.walk] at h
    split at h
    · next hentry =>
      split at h
      · next hstay => exact (if_pos hstay).trans (ih h)
      · next hstay =>
        rw [if_neg hstay]
        split at h
        · next hup => exact (if_pos hup).trans (ih h)
        · next hup =>
          rw [if_neg hup]
          split at h
          · cases h
          · next hshort =>
            rw [if_neg hshort]
            split at h
            · cases h
            · split at h
              · cases h
              · split at h
                · cases h
                · next target hlink htarget =>
                  simp only [if_neg htarget, ← List.append_assoc]
                  exact links _ _ h
              · exact ih h
    · cases h

theorem follow_append {parts more : List (List UInt8)} {reached : Place} {links : Nat} {q : Place}
    (h : fs.follow links place parts = .ok reached)
    (next : ∀ again, fs.walk again reached more = .ok q) :
    fs.follow links place (parts ++ more) = .ok q := by
  induction links generalizing place parts with
  | zero => cases h
  | succ links ih => exact walk_append (fun _ _ => ih) (next _) h

@[simp] theorem lookup?_present (fs : FileSystem) : fs.lookup? fs.present = some .directory := by
  simp [lookup?]

@[simp] theorem lookup?_root (fs : FileSystem) : fs.lookup? [] = some .directory := by
  simp [lookup?]

theorem walk_stay {again : Place → List (List UInt8) → Except PathFault Place} {part : List UInt8}
    (directory : fs.lookup? place = some .directory) (stays : part = [] ∨ part = [0x2E])
    (rest : List (List UInt8)) :
    fs.walk again place (part :: rest) = fs.walk again place rest := by
  have hstays : (part = [] || part = [0x2E]) = true := by simpa using stays
  simp only [FileSystem.walk, directory, hstays, if_true]

/-- A name in a directory leads to the entry that it names, if that is not a link. -/
theorem walk_name {again : Place → List (List UInt8) → Except PathFault Place} {name : FileName}
    {content : List UInt8} (directory : fs.lookup? place = some .directory)
    (file : fs.lookup? (place ++ [name]) = some (.file content)) :
    fs.walk again place [name.bytes] = .ok (place ++ [name]) := by
  have hvalid := name.valid
  simp only [FileName.canName, Bool.and_eq_true, decide_eq_true_eq] at hvalid
  obtain ⟨⟨⟨⟨⟨hempty, hpoint⟩, hpoints⟩, -⟩, -⟩, hshort⟩ := hvalid
  have hstay : (name.bytes = [] || name.bytes = [0x2E]) = false := by simp [hempty, hpoint]
  simp only [FileSystem.walk, directory, hstay, Bool.false_eq_true, if_false, hpoints,
    Nat.not_lt.mpr hshort, name.ofBytes?_bytes, file]

/-- The parts of a path with a name at its end. -/
theorem parts_append (path : List UInt8) (name : FileName) :
    parts (path ++ 0x2F :: name.bytes) = parts path ++ [name.bytes] := by
  rw [parts, Text.splitOn_append, Text.splitOn_of_notMem (name.notMem_bytes (Or.inr rfl)), parts]

theorem place_eq_ok_iff : fs.place path = .ok place ↔ path ≠ [] ∧ path.length ≤ maxPath ∧
    fs.follow (maxLinks + 1) (origin fs.present path) (parts path) = .ok place := by
  unfold FileSystem.place
  split
  · next hempty => simp [hempty]
  · next hne =>
    split
    · next hlong => simp [Nat.not_le.mpr hlong]
    · next hshort => simp [hne, Nat.le_of_not_lt hshort]

theorem directory?_eq_some_iff : fs.directory? path = some place ↔
    fs.place path = .ok place ∧ fs.lookup? place = some .directory := by
  unfold directory?
  rcases hplace : fs.place path with fault | reached
  · simp [Except.toOption]
  · rcases hentry : fs.lookup? reached with _ | entry
    · simp [Except.toOption, hentry]
      rintro rfl
      simp [hentry]
    · cases entry <;> simp [Except.toOption, hentry] <;> rintro rfl <;> simp [hentry]

/-- The path of a name behind slashes alone goes where the slashes go, and on to the name. -/
theorem exists_parts_slashes {name : FileName} (front : List UInt8)
    (hparts : parts (front ++ [0x2F]) = [] :: parts front)
    (hroot : (front ++ [0x2F]).head? = some 0x2F)
    (hfollow : fs.follow (maxLinks + 1) (origin fs.present (front ++ [0x2F]))
      (parts (front ++ [0x2F])) = .ok place) :
    ∃ more, parts (front ++ [0x2F] ++ name.bytes) = more ++ [name.bytes] ∧
      fs.follow (maxLinks + 1) (origin fs.present (front ++ [0x2F] ++ name.bytes)) more =
        .ok place := by
  have hsame : origin fs.present (front ++ [0x2F] ++ name.bytes) = [] := by
    rw [origin, List.head?_append, hroot, Option.some_or, if_pos rfl]
  rw [origin, if_pos hroot, hparts] at hfollow
  refine ⟨parts front, ?_, ?_⟩
  · rw [List.append_assoc, List.singleton_append, parts_append]
  · rw [hsame]
    exact (walk_stay fs.lookup?_root (Or.inl rfl) _).symm.trans hfollow

/-- The path of a name in a directory goes where the path of the directory goes, and on to the
name. -/
theorem exists_parts_child {name : FileName} {below : List UInt8} (hpath : l.bytes = .ok path)
    (hbelow : (l.child name.text).bytes = .ok below) (hplace : fs.place path = .ok place) :
    ∃ front, parts below = front ++ [name.bytes] ∧
      fs.follow (maxLinks + 1) (origin fs.present below) front = .ok place := by
  obtain ⟨hne, -, hfollow⟩ := place_eq_ok_iff.mp hplace
  have hslash : ("/" : Text).fileBytes = .ok [0x2F] := rfl
  have hslashes : ("//" : Text).fileBytes = .ok [0x2F, 0x2F] := rfl
  rw [Location.bytes] at hpath
  rw [Location.bytes, Location.text_child] at hbelow
  split at hbelow
  · next hnames =>
    -- There is no slash to be added: either the name comes first, or the root has one.
    rw [Location.text, hnames] at hpath
    cases hanchor : l.anchor with
    | present =>
      rw [hanchor] at hpath hbelow
      cases hpath
      cases hbelow.symm.trans name.fileBytes_text
      have hfirst : name.bytes.head? ≠ some 0x2F := by
        intro hhead
        exact name.notMem_bytes (Or.inr rfl) (List.mem_of_head? hhead)
      rw [origin, if_neg hfirst]
      exact ⟨[], Text.splitOn_of_notMem (name.notMem_bytes (Or.inr rfl)),
        (walk_stay fs.lookup?_present (Or.inr rfl) []).symm.trans hfollow⟩
    | root =>
      rw [hanchor] at hpath hbelow
      cases hpath
      cases hbelow.symm.trans (Text.fileBytes_append hslash name.fileBytes_text)
      exact exists_parts_slashes [] rfl rfl hfollow
    | slashes =>
      rw [hanchor] at hpath hbelow
      cases hpath
      cases hbelow.symm.trans (Text.fileBytes_append hslashes name.fileBytes_text)
      exact exists_parts_slashes [0x2F] rfl rfl hfollow
  · have hjoined := Text.fileBytes_append (Text.fileBytes_append hpath hslash) name.fileBytes_text
    cases hbelow.symm.trans hjoined
    refine ⟨parts path, ?_, ?_⟩
    · rw [List.append_assoc, List.singleton_append, parts_append]
    · have horigin : origin fs.present (path ++ [0x2F] ++ name.bytes) = origin fs.present path := by
        rw [List.append_assoc, origin, List.head?_append_of_ne_nil _ hne, origin]
      rw [horigin, hfollow]

/-- A file that stands in a directory is found under its name there, unless the path is too long. -/
theorem isFile_child {name : FileName} {content : List UInt8} {below : List UInt8}
    (hpath : l.bytes = .ok path) (directory : fs.directory? path = some place)
    (file : fs.lookup? (place ++ [name]) = some (.file content))
    (hbelow : (l.child name.text).bytes = .ok below) (short : below.length ≤ maxPath) :
    fs.isFile (l.child name.text) = .ok true := by
  obtain ⟨hplace, hentry⟩ := directory?_eq_some_iff.mp directory
  obtain ⟨front, hparts, hfront⟩ := exists_parts_child hpath hbelow hplace
  have hne : below ≠ [] := by
    rintro rfl
    have hlast := congrArg List.getLast? hparts
    rw [List.getLast?_concat] at hlast
    exact name.bytes_ne_nil (Option.some.inj hlast).symm
  have hfound : fs.place below = .ok (place ++ [name]) := by
    rw [place_eq_ok_iff, hparts]
    exact ⟨hne, short, follow_append hfront fun _ => walk_name hentry file⟩
  simp only [isFile, hbelow, hfound, file]

theorem exists_bytes_child (name : FileName) (hpath : l.bytes = .ok path) :
    ∃ below, (l.child name.text).bytes = .ok below := by
  obtain ⟨front, hfront⟩ : ∃ front, l.anchor.text.fileBytes = .ok front := by
    cases l.anchor <;> exact ⟨_, rfl⟩
  have hslash : ("/" : Text).fileBytes = .ok [0x2F] := rfl
  rw [Location.bytes, Location.text_child]
  split
  · exact ⟨_, Text.fileBytes_append hfront name.fileBytes_text⟩
  · exact ⟨_, Text.fileBytes_append (Text.fileBytes_append hpath hslash) name.fileBytes_text⟩

/-- What is listed as a file is one when it is looked up by its path, unless this is too long. -/
theorem isFile_of_holdsFile {name : FileName} (hpath : l.bytes = .ok path)
    (directory : fs.directory? path = some place) (file : fs.holdsFile l place name = true)
    (short : ¬ fs.TooLong (l.child name.text)) : fs.isFile (l.child name.text) = .ok true := by
  obtain ⟨below, hbelow⟩ := exists_bytes_child name hpath
  have hlength : below.length ≤ maxPath := by
    by_contra hlong
    refine short ⟨below, hbelow, ?_⟩
    have hne : below ≠ [] := by
      rintro rfl
      exact hlong (Nat.zero_le _)
    rw [FileSystem.place, if_neg hne, if_pos (Nat.lt_of_not_le hlong)]
  unfold holdsFile at file
  split at file
  · next content hentry => exact isFile_child hpath directory hentry hbelow hlength
  · cases hfile : fs.isFile (l.child name.text) with
    | error e => simp [hfile, Except.toOption] at file
    | ok found => simpa [hfile, Except.toOption] using file
  · cases file

end FileSystem

end Grove
