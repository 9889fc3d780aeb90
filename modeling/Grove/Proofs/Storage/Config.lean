import Grove.Proofs.Result
import Grove.Proofs.Storage.Location
import Grove.Storage.Config

/-!
# Home directories and storage paths

A home directory is put in exactly where the first name of a relative path asks for it. So a name in
a directory stands for the place below that of the directory, unless it comes first in the path and
asks for a home directory itself; and a path keeps its last name, unless that is the one that asks.
-/
namespace Grove

/-- No sort of text that files cannot be asked for by is a failure of the library. -/
theorem Text.fileBytes_fails (s : Text) :
    FailsOnly (fun e => e.category.isFailure = false) s.fileBytes := by
  unfold Text.fileBytes
  split
  · exact failsOnly_error.mpr rfl
  · split
    · exact failsOnly_error.mpr rfl
    · exact failsOnly_ok _

namespace Host

variable {host : Host} {l l' : Location} {n : Text}

theorem account?_of_isAbsolute (h : l.isAbsolute = true) : account? l = none := by
  rw [account?, if_pos h]

theorem account?_eq_none_iff (relative : l.isAbsolute = false) :
    account? l = none ↔ (l.names.head?.getD "").toList.head? ≠ some (CodePoint.scalar '~') := by
  cases h : (l.names.head?.getD "").toList with
  | nil => simp [account?, relative, h]
  | cons c cs =>
    by_cases hc : c = '~'
    · simp [account?, relative, h, hc]
    · simp [account?, relative, h, hc]

/-- A location that asks for a home directory does so by a first name. -/
theorem exists_names_of_account? {account : Text} (h : account? l = some account) :
    l.isAbsolute = false ∧ ∃ first rest, l.names = first :: rest := by
  cases habsolute : l.isAbsolute with
  | true =>
    rw [account?_of_isAbsolute habsolute] at h
    cases h
  | false =>
    refine ⟨rfl, ?_⟩
    cases hnames : l.names with
    | nil => simp [account?, habsolute, hnames] at h
    | cons first rest => exact ⟨first, rest, rfl⟩

/-- Behind a first name, a name does not change what home directory is asked for. -/
theorem account?_below {below : Location} (h : l.Below n below)
    (homeless : l.isAbsolute = false → l.names = [] →
      n.toList.head? ≠ some (CodePoint.scalar '~')) :
    account? below = account? l := by
  cases habsolute : l.isAbsolute with
  | true => rw [account?_of_isAbsolute habsolute,
      account?_of_isAbsolute (h.isAbsolute.trans habsolute)]
  | false =>
    have hbelow := h.isAbsolute.trans habsolute
    cases hnames : l.names with
    | nil =>
      rw [(account?_eq_none_iff habsolute).mpr (by simp [hnames]), account?_eq_none_iff hbelow]
      simpa [h.names, hnames] using homeless habsolute hnames
    | cons first rest => simp [account?, habsolute, hbelow, h.names, hnames]

theorem expandHome_of_account?_eq_none (h : account? l = none) : host.expandHome l = .ok l := by
  rw [expandHome, h]

theorem expandHome_of_account? {account : Text} (h : account? l = some account) :
    host.expandHome l = (do
      let home ← homeLocation (← host.home account)
      return home.join ⟨.present, l.names.tail⟩) := by
  rw [expandHome, h]

/-- What stands in the way of a home directory is no failure of the library. -/
theorem expandHome_fails (host : Host) (l : Location) :
    FailsOnly (fun e => e.category.isFailure = false) (host.expandHome l) := by
  cases h : account? l with
  | none =>
    rw [expandHome_of_account?_eq_none h]
    exact failsOnly_ok l
  | some account =>
    rw [expandHome_of_account? h]
    refine .bind ?_ fun home _ => .bind ?_ fun _ _ => failsOnly_ok _
    · unfold Host.home
      split
      · split
        · exact failsOnly_ok _
        · exact failsOnly_error.mpr rfl
      · refine .bind account.fileBytes_fails fun bytes _ => ?_
        split
        · exact failsOnly_ok _
        · exact failsOnly_error.mpr rfl
    · simp only [homeLocation]
      split
      · exact failsOnly_error.mpr rfl
      · exact failsOnly_ok _

/-- A name in a location stays so when a home directory is put in, unless it is the name that asks
for one. -/
theorem expandHome_below {below : Location} (h : l.Below n below)
    (homeless : l.isAbsolute = false → l.names = [] → n.toList.head? ≠ some (CodePoint.scalar '~'))
    (hl : host.expandHome l = .ok l') :
    ∃ below', host.expandHome below = .ok below' ∧ l'.Below n below' := by
  have haccount := account?_below h homeless
  cases hasked : account? l with
  | none =>
    rw [expandHome_of_account?_eq_none hasked] at hl
    cases hl
    exact ⟨below, expandHome_of_account?_eq_none (haccount.trans hasked), h⟩
  | some account =>
    obtain ⟨-, first, rest, hnames⟩ := exists_names_of_account? hasked
    have htail : below.names.tail = l.names.tail ++ [n] := by
      rw [h.names, hnames]
      rfl
    rw [expandHome_of_account? hasked] at hl
    rw [expandHome_of_account? (haccount.trans hasked), htail]
    obtain ⟨text, htext, hl⟩ := ok_of_bind hl
    obtain ⟨home, hhome, hl⟩ := ok_of_bind hl
    cases hl
    refine ⟨home.join ⟨.present, l.names.tail ++ [n]⟩, ?_, ?_⟩
    · simp only [htext, hhome, bind, Except.bind, pure, Except.pure]
    · have hrest : (Location.mk .present l.names.tail).Below n ⟨.present, l.names.tail ++ [n]⟩ :=
        ⟨rfl, rfl⟩
      exact hrest.join home

/-- A location keeps its last name when a home directory is put in, unless that name is the one that
asks for it. -/
theorem name_expandHome (h : host.expandHome l = .ok l') (hname : l.name ≠ "")
    (plain : l.name.toList.head? ≠ some (CodePoint.scalar '~')) : l'.name = l.name := by
  cases hasked : account? l with
  | none =>
    rw [expandHome_of_account?_eq_none hasked] at h
    cases h
    rfl
  | some account =>
    obtain ⟨relative, first, rest, hnames⟩ := exists_names_of_account? hasked
    obtain ⟨front, hlast⟩ := Location.exists_names_eq hname
    rw [expandHome_of_account? hasked] at h
    obtain ⟨text, -, h⟩ := ok_of_bind h
    obtain ⟨home, -, h⟩ := ok_of_bind h
    cases h
    cases front with
    | nil =>
      -- The only name is the first one, which starts with a tilde.
      have hnone := (account?_eq_none_iff relative).mpr (by simpa [hlast] using plain)
      rw [hnone] at hasked
      cases hasked
    | cons first front =>
      have hrest : l.names.tail = front ++ [l.name] := by
        rw [hlast]
        rfl
      have htail : (Location.mk .present l.names.tail).name = l.name :=
        Location.name_eq_of_names hrest
      rw [Location.name_join _ (htail ▸ hname), htail]

end Host

namespace StorageConfig

variable {config : StorageConfig} {host : Host} {storage : Text} {l : Location}

theorem resolve_eq_ok_iff : config.resolve host storage = .ok l ↔
    ∃ expanded, host.expandHome (.ofText storage) = .ok expanded ∧
      l = config.base.join expanded := by
  constructor
  · intro h
    obtain ⟨expanded, hexpanded, h⟩ := ok_of_bind h
    cases h
    exact ⟨expanded, hexpanded, rfl⟩
  · rintro ⟨expanded, hexpanded, rfl⟩
    simp only [resolve, hexpanded]
    rfl

/-- What leaves a storage path without a location is no failure of the library. -/
theorem resolve_fails (config : StorageConfig) (host : Host) (storage : Text) :
    FailsOnly (fun e => e.category.isFailure = false) (config.resolve host storage) :=
  (host.expandHome_fails _).bind fun _ _ => failsOnly_ok _

/-- A name in a directory stands for the place below that of the directory, unless the directory is
spelled by nothing, or the name comes first and asks for a home directory. -/
theorem exists_resolve_below {d n : Text} (hd : config.resolve host d = .ok l)
    (spelled : d ≠ "") (hn : n ≠ "") (hpoint : n ≠ ".") (hslash : ↑ '/' ∉ n.toList)
    (homeless : (Location.ofText d).isAbsolute = false → (Location.ofText d).names = [] →
      n.toList.head? ≠ some (CodePoint.scalar '~')) :
    ∃ below, config.resolve host (d ++ "/" ++ n) = .ok below ∧ l.Below n below := by
  obtain ⟨expanded, hexpanded, rfl⟩ := resolve_eq_ok_iff.mp hd
  obtain ⟨below, hbelow, place⟩ :=
    Host.expandHome_below (Location.below_ofText spelled hn hpoint hslash) homeless hexpanded
  exact ⟨_, resolve_eq_ok_iff.mpr ⟨below, hbelow, rfl⟩, place.join config.base⟩

/-- The location of a storage path has the last name of the path, unless that name asks for a home
directory. -/
theorem name_of_resolve (h : config.resolve host storage = .ok l)
    (hname : (Location.ofText storage).name ≠ "")
    (plain : (Location.ofText storage).name.toList.head? ≠ some (CodePoint.scalar '~')) :
    l.name = (Location.ofText storage).name := by
  obtain ⟨expanded, hexpanded, rfl⟩ := resolve_eq_ok_iff.mp h
  have hkept := Host.name_expandHome hexpanded hname plain
  rw [Location.name_join _ (hkept ▸ hname), hkept]

end StorageConfig

end Grove
