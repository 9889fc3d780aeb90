import Grove.Proofs.Registry.Selection

/-!
# Strict and lenient registries

Whether a registry is strict is not looked at by registration and selection, and by loading only at
the end: where a strict registry hands on a failure of the library, a lenient one answers with
nothing. Writing looks at it no longer once a backend is chosen, so the failures of this backend
come out of both.
-/
namespace Grove

/-- A step in the making of a registry. -/
inductive Registration where
  | register (b : Backend) (replace : Bool)
  | unregister (name : Text)

/-- What a lenient registry answers, told by what a strict one does. -/
structure Collapses {α : Type} (strict lenient : Except Error (Option α)) : Prop where
  value : ∀ a, strict = .ok a → lenient = .ok a
  failure : ∀ e, strict = .error e → e.category.isFailure = true → lenient = .ok none
  other : ∀ e, strict = .error e → e.category.isFailure = false → lenient = .error e

/-- Both end alike, and not with a failure of the library. -/
theorem Collapses.refl {α : Type} {x : Except Error (Option α)}
    (h : FailsOnly (fun e => e.category.isFailure = false) x) : Collapses x x where
  value _ := id
  failure e he hfailure := by
    rw [h e he] at hfailure
    cases hfailure
  other _ he _ := he

theorem Collapses.of_failure {α : Type} {e : Error} (h : e.category.isFailure = true) :
    Collapses (α := α) (.error e) (.ok none) where
  value := nofun
  failure _ _ _ := rfl
  other e' he hother := by
    cases he
    rw [h] at hother
    cases hother

namespace Registry

def withStrict (r : Registry) (strict : Bool) : Registry :=
  { r with strict }

/-- The registry after a step; a step that fails leaves it as it is. -/
def after (r : Registry) : Registration → Registry
  | .register b replace => (r.register b replace).toOption.getD r
  | .unregister name => ((r.unregister name).toOption.map (·.2)).getD r

def made (config : Option ConfigId) (strict : Bool) (run : List Registration) : Registry :=
  run.foldl after (empty config strict)

variable (r : Registry) (strict : Bool)

theorem register_withStrict (b : Backend) (replace : Bool) :
    (r.withStrict strict).register b replace =
      (r.register b replace).map (·.withStrict strict) := by
  by_cases hname : b.name = ""
  · simp [register, hname, Except.map]
  · cases hget : Entries.get? b.name r.backends with
    | none => simp [register, withStrict, hname, hget, Except.map]
    | some taken => cases replace <;> simp [register, withStrict, hname, hget, Except.map]

theorem unregister_withStrict (name : Text) :
    (r.withStrict strict).unregister name = (r.unregister name).map fun (b, r) =>
      (b, r.withStrict strict) := by
  simp only [unregister, withStrict]
  split <;> rfl

theorem after_withStrict (step : Registration) :
    (r.withStrict strict).after step = (r.after step).withStrict strict := by
  cases step with
  | register b replace =>
    simp only [after, register_withStrict]
    cases r.register b replace <;> rfl
  | unregister name =>
    simp only [after, unregister_withStrict]
    cases r.unregister name <;> rfl

/-- Registries that are made alike differ in nothing but in whether they are strict. -/
theorem made_eq_withStrict (config : Option ConfigId) (run : List Registration) :
    made config strict run = (made config false run).withStrict strict := by
  have foldl : ∀ r : Registry, run.foldl after (r.withStrict strict) =
      (run.foldl after r).withStrict strict := by
    induction run with
    | nil => exact fun _ => rfl
    | cons step run ih =>
      intro r
      rw [List.foldl_cons, after_withStrict, ih, List.foldl_cons]
  exact foldl (empty config false)

theorem collapses_settle {α : Type} (x : Except Error α) :
    Collapses ((r.withStrict true).settle x) ((r.withStrict false).settle x) := by
  cases x with
  | ok a => exact .refl (failsOnly_ok (some a))
  | error e =>
    cases h : e.category.isFailure
    · have hsettle : ∀ strict,
          (r.withStrict strict).settle (.error e : Except Error α) = .error e := by
        intro strict
        simp [settle, h]
      rw [hsettle, hsettle]
      exact .refl (failsOnly_error.mpr h)
    · have hstrict : (r.withStrict true).settle (.error e : Except Error α) = .error e := by
        simp [settle, withStrict]
      have hlenient : (r.withStrict false).settle (.error e : Except Error α) = .ok none := by
        simp [settle, withStrict, h]
      rw [hstrict, hlenient]
      exact .of_failure h

/-- A backend that is chosen writes alike for both. -/
theorem serialize_of_choose {choice : BackendChoice} {b : Backend} (h : r.choose choice = .ok b)
    (config : StorageConfig) (t : Option Tree) : (r.withStrict strict).serialize config t choice =
      match t with
      | some t => (b.dump config t).map some
      | none => .ok none := by
  have hchoose : (r.withStrict strict).choose choice = .ok b := h
  simp only [serialize, hchoose, settle, bind, Except.bind, pure, Except.pure]
  cases t with
  | none => rfl
  | some t => cases b.dump config t <;> rfl

theorem isFailure_of_choose {choice : BackendChoice} {e : Error} (h : r.choose choice = .error e) :
    e.category.isFailure = true := by
  have hcategory : e.category = .failure .backendUnavailable := r.choose_fails choice e h
  rw [hcategory]
  rfl

theorem serialize_of_choose_error {choice : BackendChoice} {e : Error}
    (h : r.choose choice = .error e) (config : StorageConfig) (t : Option Tree) :
    (r.withStrict strict).serialize config t choice =
      if strict then .error e else .ok none := by
  have hchoose : (r.withStrict strict).choose choice = .error e := h
  have hfailure := isFailure_of_choose r h
  rw [serialize, hchoose]
  cases strict with
  | true => simp [settle, withStrict, bind, Except.bind]
  | false => simp [settle, withStrict, hfailure, bind, Except.bind, pure, Except.pure]

/-- Writing collapses as loading does exactly if the backend that is chosen has no failures of the
library itself. -/
theorem collapses_serialize_iff {choice : BackendChoice} (config : StorageConfig)
    (t : Option Tree) :
    Collapses ((r.withStrict true).serialize config t choice)
        ((r.withStrict false).serialize config t choice) ↔
      ∀ b tree, r.choose choice = .ok b → t = some tree →
        FailsOnly (fun e => e.category.isFailure = false) (b.dump config tree) := by
  cases hchoose : r.choose choice with
  | error e =>
    rw [serialize_of_choose_error r true hchoose, serialize_of_choose_error r false hchoose]
    exact iff_of_true (.of_failure (isFailure_of_choose r hchoose)) nofun
  | ok b =>
    rw [serialize_of_choose r true hchoose, serialize_of_choose r false hchoose]
    cases t with
    | none => exact iff_of_true (.refl (failsOnly_ok none)) nofun
    | some tree =>
      constructor
      · rintro h _ _ ⟨⟩ ⟨⟩ e hdump
        simp only [hdump, Except.map] at h
        by_contra hfailure
        rw [Bool.not_eq_false] at hfailure
        cases h.failure e rfl hfailure
      · intro plain
        exact .refl ((plain b tree rfl rfl).map some)

theorem dump_fails {b : Backend} (hb : b = .json ∨ b = .yaml) (config : StorageConfig) (t : Tree) :
    FailsOnly (fun e => e.category.isFailure = false) (b.dump config t) := by
  rcases hb with rfl | rfl
  · exact failsOnly_ok _
  · exact failsOnly_ok _

/-- Take two registries that are made by the same run of steps, with the same settings, one strict
and one lenient. Loading gives the same tree or the same error with both, but that failures of the
library come out as nothing of the lenient one. Writing does so only while a backend is chosen: what
the backend itself ends with, both hand on, even if it is a failure of the library. So writing
collapses exactly if the backend has no such failure, and JSON and YAML have none. Listing and
selection are the same for both. -/
theorem strictness_collapses (config : Option ConfigId) (run : List Registration)
    (settings : StorageConfig) (host : Host) :
    let strict := made config true run
    let lenient := made config false run
    (∀ v choice, Collapses (strict.loadString v choice) (lenient.loadString v choice)) ∧
    (∀ storage choice, Collapses (strict.loadStorage host settings storage choice)
      (lenient.loadStorage host settings storage choice)) ∧
    (∀ t choice,
      Collapses (strict.serialize settings t choice) (lenient.serialize settings t choice) ↔
        ∀ b tree, strict.choose choice = .ok b → t = some tree →
          FailsOnly (fun e => e.category.isFailure = false) (b.dump settings tree)) ∧
    (∀ t choice b, strict.choose choice = .ok b →
      lenient.serialize settings t choice = strict.serialize settings t choice) ∧
    (∀ t choice, (∀ b, strict.choose choice = .ok b → b = .json ∨ b = .yaml) →
      Collapses (strict.serialize settings t choice) (lenient.serialize settings t choice)) ∧
    (∀ storage, strict.listEntries host settings storage =
      lenient.listEntries host settings storage) ∧
    (∀ storage,
      strict.selectForPath host settings storage = lenient.selectForPath host settings storage) ∧
    (∀ text, strict.selectForString text = lenient.selectForString text) ∧
    ∀ name, strict.get name = lenient.get name := by
  intro strict lenient
  obtain ⟨r, hstrict, hlenient⟩ :
      ∃ r : Registry, strict = r.withStrict true ∧ lenient = r.withStrict false :=
    ⟨lenient, made_eq_withStrict true config run, made_eq_withStrict false config run⟩
  rw [hstrict, hlenient]
  refine ⟨?string, ?storage, ?written, ?chosen, ?formats, fun _ => rfl, fun _ => rfl, fun _ => rfl,
    fun _ => rfl⟩
  case string =>
    intro v choice
    exact collapses_settle r _
  case storage =>
    intro storage choice
    exact collapses_settle r _
  case written =>
    intro t choice
    exact collapses_serialize_iff r settings t
  case chosen =>
    intro t choice b hchoose
    rw [serialize_of_choose r true hchoose, serialize_of_choose r false hchoose]
  case formats =>
    intro t choice formats
    refine (collapses_serialize_iff r settings t).mpr ?_
    intro b tree hchoose _
    exact dump_fails (formats b hchoose) settings tree

/-- A backend that refuses to write makes a lenient registry fail as a strict one does. -/
theorem strictness_collapses_refusing :
    let failure : Error := .raised .backend "Cannot render"
    let refusing : Backend :=
      { Backend.json with name := "plain", dump := fun _ _ => .error failure }
    let run : List Registration := [.register refusing false]
    let settings : StorageConfig := ⟨.here, "utf-8", 2⟩
    failure.kind? = some .backendFailure ∧
      (made none true run).serialize settings (some (.list [])) .unspecified = .error failure ∧
      (made none false run).serialize settings (some (.list [])) .unspecified = .error failure := by
  intro failure refusing run settings
  refine ⟨?_, ?_, ?_⟩
  · rfl
  · rfl
  · rfl

end Registry

end Grove
